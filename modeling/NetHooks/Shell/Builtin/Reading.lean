import NetHooks.Shell.Builtin.Basic
import NetHooks.Shell.Splitting

/-!
# Reading a line

The builtin that takes a line of input apart. A backslash keeps the character after it from
separating fields, and joins the next line to its own.
-/
namespace NetHooks.Shell.Builtin

/-- A line of input that is being taken. -/
structure InputLine where
  /-- What may be split, the last stretch first. -/
  stretches : Marked := []
  /-- The characters since the last escaped one, the last first. -/
  run : List Mark := []
  /-- How many octets were taken. -/
  taken : Nat := 0
  ended : Bool := false

namespace InputLine

/-- The line with what was taken last as a stretch that may be split. -/
def closeRun (l : InputLine) : InputLine :=
  { l with stretches := ⟨.split, l.run.reverse⟩ :: l.stretches, run := [] }

/-- Take a line from the front of a text. -/
def take (raw : Bool) : Bool → InputLine → Octets → InputLine
  | _, l, [] => l
  | escaped, l, c :: rest =>
      let l := { l with taken := l.taken + 1 }
      if c = '\x00' then take raw escaped l rest
      else if escaped then
        let l := l.closeRun
        let l := if c = '\n' then l
          else { l with stretches := ⟨.whole, [.char c false]⟩ :: l.stretches }
        take raw false l rest
      else if c = '\\' && !raw then take raw true l rest
      else if c = '\n' then { l with ended := true }
      else take raw false { l with run := .char c false :: l.run } rest

/-- The fields, for so many names. -/
def fields (separators : Octets) (names : Nat) (l : InputLine) : List Octets :=
  (splitFields separators (some names) l.closeRun.stretches.reverse).map Mark.text

end InputLine

/-- Give names the fields that there are, and the others nothing. -/
def assignFields : List Octets → List Octets → Run Unit
  | [], _ => return
  | name :: names, fields => do
      if !isName name then badName (name.takeWhile (· != '='))
      assign name (fields.headD []) false
      assignFields names (fields.drop 1)

def read : Builtin := fun ws => do
  let (options, names) ← options [('p', true), ('r', false)] ws
  if names.isEmpty then fail "arg count".toList
  let m ← get
  let p := m.process
  let unread? := (p.endpoint? 0).bind m.system.unread?
  let line := InputLine.take (options.any (·.1 == 'r')) false {} (unread?.getD [])
  (p.endpoint? 0).forM fun e => changeSystem (·.consume e line.taken (!line.ended))
  assignFields names (line.fields p.separators names.length)
  return if line.ended then 0 else 1

end NetHooks.Shell.Builtin
