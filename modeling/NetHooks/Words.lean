import NetHooks.Text.Lines

/-!
# Words

A line is split into words at spaces, tabs and carriage returns. A double quote opens
or closes a quoted section inside a word; within it a backslash must stand before a
quote or another backslash, and separators are ordinary characters. Outside quotes a
backslash is an ordinary character. A quoted section makes a word even when empty.
-/
namespace NetHooks

inductive WordError where
  | unterminatedQuote
  | unterminatedEscape
  | invalidEscape (c : Char)
  deriving DecidableEq, Repr

def WordError.message : WordError → String
  | .unterminatedQuote => "unterminated quote"
  | .unterminatedEscape => "unterminated escape"
  | .invalidEscape c => "invalid escape '\\" ++ c.toString ++ "' inside quotes"

namespace Words

def isSeparator (c : Char) : Bool :=
  c == ' ' || c == '\t' || c == '\r'

/-- The word in progress, kept in reverse. `none` stands between words. -/
abbrev Draft := Option (List Char)

def Draft.push (d : Draft) (c : Char) : Draft :=
  some (c :: d.getD [])

def Draft.finish : Draft → List (List Char) → List (List Char)
  | none, ws => ws
  | some w, ws => w.reverse :: ws

/-- The words of the rest of a line, given whether a quoted section is open and the
word in progress. -/
def scan : Bool → Draft → List Char → Except WordError (List (List Char))
  | false, d, [] => .ok (d.finish [])
  | false, d, c :: rest =>
      if c = '"' then scan true (some (d.getD [])) rest
      else if isSeparator c then (scan false none rest).map d.finish
      else scan false (d.push c) rest
  | true, _, [] => .error .unterminatedQuote
  | true, _, ['\\'] => .error .unterminatedEscape
  | true, d, '\\' :: c :: rest =>
      if c = '"' ∨ c = '\\' then scan true (d.push c) rest else .error (.invalidEscape c)
  | true, d, c :: rest =>
      if c = '"' then scan false d rest else scan true (d.push c) rest

def splitChars (s : List Char) : Except WordError (List (List Char)) :=
  scan false none s

end Words

/-- The words of a line. -/
def words (line : String) : Except WordError (List String) :=
  (Words.splitChars line.toList).map (·.map String.ofList)

end NetHooks
