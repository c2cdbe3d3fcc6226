import NetHooks.Shell.Octets

/-!
# Splitting into fields

What a word became is a list of stretches. Some stretches may be split at separators:
what expansions gave, as opposed to what was written or quoted.
-/
namespace NetHooks.Shell

/-- A character of a word, or quotes, which make a field even around nothing. -/
inductive Mark where
  /-- An escaped character stands for itself in a pattern. -/
  | char (c : Char) (escaped : Bool)
  | quotes
  deriving DecidableEq, Repr

/-- What may be done with a stretch. -/
inductive StretchKind where
  /-- It stays whole. -/
  | whole
  /-- It is split at separators. -/
  | split
  /-- It is split at NULs alone, which stand between parameters. -/
  | parameters
  deriving DecidableEq, Repr

structure Stretch where
  kind : StretchKind
  marks : List Mark
  deriving DecidableEq, Repr

abbrev Marked := List Stretch

namespace Marked

def marks (m : Marked) : List Mark :=
  m.flatMap Stretch.marks

end Marked

namespace Mark

/-- The characters alone. -/
def text (marks : List Mark) : Octets :=
  marks.filterMap fun
    | char c _ => some c
    | quotes => none

/-- The characters as a pattern, with a backslash before each escaped one. A backslash that
came from the value of a variable counts as one that was written. -/
def patternText : Bool → List Mark → Octets
  | _, [] => []
  | _, .quotes :: rest => patternText false rest
  | afterBackslash, .char c escaped :: rest =>
      if escaped then
        if afterBackslash then c :: patternText false rest else '\\' :: c :: patternText false rest
      else c :: patternText (c == '\\') rest

end Mark

/-! ### Fields -/

/-- The separators that count once however many there are. A NUL is one of them. -/
def isBlankSeparator (c : Char) : Bool :=
  c == ' ' || c == '\t' || c == '\n' || c == '\x00'

/-- A field in the making. -/
structure Splitter where
  /-- The fields that are done, the last first. -/
  fields : List (List Mark) := []
  /-- The field so far, the last mark first. -/
  field : List Mark := []
  /-- A blank separator has just ended a field. -/
  afterBlank : Bool := false
  /-- How many more fields are to be ended at most, if there is a limit. -/
  left? : Option Nat := none
  /-- Of the last field, what stays without the separators at its end. -/
  kept? : Option (List Mark) := none

namespace Splitter

/-- Take the character of a stretch that is split. Behind `afterNuls`, a separator ends a
field without taking those that follow. -/
def take (separates : Char → Bool) (afterNuls : Bool) (m : Mark) (c : Char) (s : Splitter) :
    Splitter :=
  let isSeparator := separates c
  let isBlank := isSeparator && isBlankSeparator c
  if s.left? = some 0 then
    if isBlank then
      { s with kept? := some (s.kept?.getD s.field), field := m :: s.field }
    else
      let kept? := if isSeparator && s.afterBlank then s.kept? else none
      { s with kept?, field := m :: s.field, afterBlank := false }
  else if s.afterBlank then
    if isBlank then { s with field := [] }
    else { s with field := if isSeparator then [] else [m], afterBlank := false }
  else if isSeparator then
    let s := { s with afterBlank := isBlank && !afterNuls }
    if s.field.isEmpty && s.afterBlank then { s with afterBlank := false }
    else if s.left? = some 1 then
      { s with left? := some 0, kept? := some s.field, field := m :: s.field }
    else
      { s with
        fields := s.field.reverse :: s.fields
        field := []
        left? := s.left?.map (· - 1) }
  else { s with field := m :: s.field, afterBlank := false }

/-- Take a stretch; whether the one before it was split at NULs. -/
def stretch (separators : Octets) (afterNuls : Bool) (s : Splitter) (x : Stretch) : Splitter :=
  match x.kind with
  | .whole => { s with field := x.marks.reverse ++ s.field }
  | kind =>
      let nuls := kind = .parameters
      let separates (c : Char) : Bool := c == '\x00' || (!nuls && separators.contains c)
      x.marks.foldl (fun s m =>
        match m with
        | .char c _ => take separates (afterNuls || nuls) m c s
        | .quotes => { s with field := m :: s.field }) { s with afterBlank := false }

/-- Take all stretches; whether the last one that was split was so at NULs. -/
def stretches (separators : Octets) : Bool → Splitter → Marked → Splitter × Bool
  | afterNuls, s, [] => (s, afterNuls)
  | afterNuls, s, x :: rest =>
      let s := stretch separators afterNuls s x
      stretches separators (if x.kind = .whole then afterNuls else x.kind = .parameters) s rest

/-- The fields; an empty rest is none, unless it is a parameter. -/
def finish (s : Splitter) (afterNuls : Bool) : List (List Mark) :=
  let last := if afterNuls then s.field else s.kept?.getD s.field
  if last.isEmpty && !afterNuls then s.fields.reverse else (last.reverse :: s.fields).reverse

end Splitter

/-- The fields of a word, with a limit to how many fields are ended. -/
def splitFields (separators : Octets) (limit? : Option Nat) (m : Marked) : List (List Mark) :=
  let (s, afterNuls) := Splitter.stretches separators false { left? := limit? } m
  s.finish afterNuls

end NetHooks.Shell
