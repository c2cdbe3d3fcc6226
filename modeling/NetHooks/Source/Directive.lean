import NetHooks.Source.Definitions
import NetHooks.Source.Error

/-!
# Directives

The lines that steer the reading of a source and never reach its tree: `include`,
`define`, `undef`, `ifdef` and `ifndef`.
-/
namespace NetHooks

inductive Directive where
  | include (target : String)
  | define (identifier value : String)
  | undefine (identifier : String)
  /-- Guard the deeper lines that follow, by a definition that is there or is not. -/
  | guard (identifier : String) (wanted : Bool)
  deriving DecidableEq, Repr

/-- The single operand after the keyword. -/
def singleOperand (words : List String) (keyword : String) (expected : Operand)
    (l : Location) : Except SourceError String :=
  match words with
  | [_, operand] => .ok operand
  | [] | [_] => .error (.missingOperand keyword expected l)
  | _ => .error (.tooManyOperands keyword l)

def checkedIdentifier (s : String) (l : Location) : Except SourceError String :=
  if isIdentifier s then .ok s else .error (.invalidIdentifier s l)

namespace Directive

/-- The value of a definition that gives none. -/
def defaultValue : String := "1"

/-- Read a line that begins with the keyword as a directive; `none` for a keyword that
names no directive. A guard takes its sense from the first word of the line. -/
def read (keyword text : String) (l : Location) : Except SourceError (Option Directive) :=
  if keyword = "include" then do
    let operand ← singleOperand (← wordsAt text l) "include" .path l
    return some (.include operand)
  else if keyword = "define" then do
    match ← wordsAt text l with
    | [_] => .error (.missingOperand "define" .identifier l)
    | [_, identifier] => return some (.define (← checkedIdentifier identifier l) defaultValue)
    | [_, identifier, value] => return some (.define (← checkedIdentifier identifier l) value)
    | _ => .error (.tooManyOperands "define" l)
  else if keyword = "undef" then do
    let identifier ← singleOperand (← wordsAt text l) "undef" .identifier l
    return some (.undefine (← checkedIdentifier identifier l))
  else if keyword = "ifdef" ∨ keyword = "ifndef" then do
    let ws ← wordsAt text l
    let first := ws.headD ""
    let identifier ← singleOperand ws first .identifier l
    return some (.guard (← checkedIdentifier identifier l) (first = "ifdef"))
  else .ok none

end Directive

end NetHooks
