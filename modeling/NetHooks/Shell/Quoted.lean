import NetHooks.Shell.Octets

/-!
# Quoting for a shell

A text is written so that every shell reads it back as one word. It is cut into parts as
long as one kind of quotes can hold, and each part takes the lightest kind that can.
-/
namespace NetHooks.Shell

inductive Quotes where
  | bare
  | single
  | double
  deriving DecidableEq, Repr

namespace Quotes

/-- The kinds, the lightest first. -/
def all : List Quotes := [bare, single, double]

def isBare (c : Char) : Bool :=
  c.isAlphanum || "+-./:@]_".toList.contains c

/-- The character can stand in these quotes. A caret stands nowhere but right after the
opening of single quotes, `first` in its part. -/
def admits (first : Bool) (c : Char) : Quotes → Bool
  | bare => isBare c
  | single => c != '\'' && c != '\\' && (first || c != '^')
  | double => c != '$' && c != '\x60' && c != '!' && c != '^'

/-- The longest part that one of the kinds can hold, with the kinds that can, and the text
after it. -/
def part (kinds : List Quotes) : List Char → List Quotes × List Char × List Char
  | [] => (kinds, [], [])
  | c :: rest =>
      let left := kinds.filter (admits false c)
      if left.isEmpty then (kinds, [], c :: rest)
      else
        let p := part left rest
        (p.1, c :: p.2.1, p.2.2)

theorem length_part_le (kinds : List Quotes) (s : List Char) :
    (part kinds s).2.2.length ≤ s.length := by
  induction s generalizing kinds with
  | nil => simp [part]
  | cons c rest ih =>
      simp only [part]
      split
      · exact Nat.le_refl _
      · exact Nat.le_trans (ih _) (Nat.le_succ _)

/-- Between double quotes these characters need a backslash. -/
def escape (c : Char) : List Char :=
  if c = '"' ∨ c = '\\' then ['\\', c] else [c]

def wrap (part : List Char) : Quotes → List Char
  | bare => part
  | single => '\'' :: part ++ ['\'']
  | double => '"' :: part.flatMap escape ++ ['"']

/-- All parts of a text, each in its quotes. -/
def parts : List Char → List Char
  | [] => []
  | c :: rest =>
      let p := part (all.filter (admits true c)) rest
      have := length_part_le (all.filter (admits true c)) rest
      wrap (c :: p.2.1) (p.1.headD .double) ++ parts p.2.2
  termination_by s => s.length
  decreasing_by simp only [List.length_cons]; omega

end Quotes

/-- A text as one word of a shell; `none` for one with a NUL, which no word can hold. -/
def quote? (s : String) : Option String :=
  if s.contains '\x00' then none
  else if s.isEmpty then some "''"
  else some (String.ofList (Quotes.parts s.toList))

end NetHooks.Shell
