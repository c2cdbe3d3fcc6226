import NetHooks.SystemError
import NetHooks.Words

/-!
# Source errors

Where a line of a configuration stands, and everything that can be wrong with one. An
error is a cause with its place; `SourceError.message` words it.
-/
namespace NetHooks

/-- A line of a file, the file named as it was opened. -/
structure Location where
  file : String
  line : Nat
  deriving DecidableEq, Repr, Inhabited

def Location.toText (l : Location) : String :=
  l.file ++ ":" ++ toString l.line

/-- What a configuration may not declare twice. -/
inductive Declared where
  | type
  | mapping
  | entity
  deriving DecidableEq, Repr

def Declared.label : Declared → String
  | .type => "type"
  | .mapping => "mapping"
  | .entity => "interface or group"

/-- What a line lacks after its keyword. -/
inductive Operand where
  | path
  | identifier
  | name
  | typeName
  | protocol
  | option
  | members
  deriving DecidableEq, Repr

def Operand.label : Operand → String
  | .path => "a path"
  | .identifier => "an identifier"
  | .name => "a name"
  | .typeName => "a type name"
  | .protocol => "a protocol type and a method"
  | .option => "an option name"
  | .members => "a list name and at least one member"

/-- The block that a keyword was read in. -/
inductive Scope where
  | top
  | interface (name : String)
  | group (name : String)
  deriving DecidableEq, Repr

def Scope.label : Scope → String
  | .top => " at top level"
  | .interface name => " in interface '" ++ name ++ "'"
  | .group name => " in group '" ++ name ++ "'"

inductive SourceError where
  | unreadable (path : String) (cause : SystemError)
  | recursiveInclude (path : String) (site : Location)
  | includeNotFound (path : String) (place : Location)
  | badIndentation (place : Location)
  | unexpectedNesting (place : Location)
  | badWords (cause : WordError) (place : Location)
  | invalidIdentifier (identifier : String) (place : Location)
  | unknownSubstitution (key : String) (place : Location)
  | missingOperand (keyword : String) (expected : Operand) (place : Location)
  | tooManyOperands (keyword : String) (place : Location)
  | unknownKeyword (keyword : String) (scope : Scope) (place : Location)
  | duplicate (kind : Declared) (name : String) (first place : Location)
  | keyCollision (option key : String) (place : Location)
  | unexpectedBlock (keyword : String) (place : Location)
  deriving DecidableEq, Repr

namespace SourceError

def message : SourceError → String
  | unreadable path cause => "Could not read '" ++ path ++ "': " ++ cause.message
  | recursiveInclude path site => site.toText ++ ": recursive include of '" ++ path ++ "'"
  | includeNotFound path l =>
      l.toText ++ ": include target '" ++ path ++ "' is neither a file nor a directory"
  | badIndentation l => l.toText ++ ": invalid indentation"
  | unexpectedNesting l =>
      l.toText ++ ": unexpected nesting (no enclosing line at the level above)"
  | badWords cause l => l.toText ++ ": " ++ cause.message
  | invalidIdentifier identifier l =>
      l.toText ++ ": invalid identifier '" ++ identifier ++ "'"
  | unknownSubstitution key l => l.toText ++ ": unknown substitution key '" ++ key ++ "'"
  | missingOperand keyword expected l =>
      l.toText ++ ": '" ++ keyword ++ "' requires " ++ expected.label
  | tooManyOperands keyword l => l.toText ++ ": too many operands for '" ++ keyword ++ "'"
  | unknownKeyword keyword scope l =>
      l.toText ++ ": unknown keyword '" ++ keyword ++ "'" ++ scope.label
  | duplicate kind name first l =>
      l.toText ++ ": duplicate " ++ kind.label ++ " '" ++ name ++ "' (first defined at " ++
        first.toText ++ ")"
  | keyCollision option key l =>
      l.toText ++ ": option '" ++ option ++ "' collides with environment key '" ++ key ++ "'"
  | unexpectedBlock keyword l =>
      l.toText ++ ": '" ++ keyword ++ "' does not take an indented block"

/-- The text of the error that lies under this one, which a chain of causes repeats. -/
def cause? : SourceError → Option String
  | unreadable _ cause => some cause.message
  | badWords cause _ => some cause.message
  | _ => none

end SourceError

/-- The words of a text, with the place of the line for the error. -/
def wordsAt (text : String) (l : Location) : Except SourceError (List String) :=
  (words text).mapError (.badWords · l)

end NetHooks
