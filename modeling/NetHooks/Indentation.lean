/-!
# Indentation

The width of a line's leading blanks, and the level that a width has among the lines
before it. A line is one level deeper than the nearest line above it that is narrower;
a width that falls between two open levels fits nowhere.
-/
namespace NetHooks.Indentation

def tabStop : Nat := 8

/-- The width of the leading blanks, counted from `width`, and the text after them. A
tab advances to the next tab stop. -/
def measureFrom (width : Nat) : List Char → Nat × List Char
  | ' ' :: rest => measureFrom (width + 1) rest
  | '\t' :: rest => measureFrom ((width / tabStop + 1) * tabStop) rest
  | rest => (width, rest)

def measure (line : List Char) : Nat × List Char :=
  measureFrom 0 line

/-- The widths of the lines that are still open, innermost first. -/
structure Levels where
  widths : List Nat
  deriving DecidableEq, Repr

def Levels.empty : Levels := ⟨[]⟩

/-- Close the levels wider than the line and open a new one for a line wider than all.
`none` when the width lies between two open levels. -/
def Levels.fit? (s : Levels) (width : Nat) : Option Levels :=
  match s.widths with
  | [] => some ⟨[width]⟩
  | top :: _ =>
      if top < width then some ⟨width :: s.widths⟩
      else
        let kept := s.widths.dropWhile (width < ·)
        if kept.head? = some width then some ⟨kept⟩ else none

/-- The level of the line accepted last. -/
def Levels.level (s : Levels) : Nat :=
  s.widths.length - 1

/-- The levels that one run of widths receives; a width that does not fit leaves the
open levels as they are. -/
def levelsOf (s : Levels) : List Nat → List (Option Nat)
  | [] => []
  | w :: ws =>
      match s.fit? w with
      | some t => some t.level :: levelsOf t ws
      | none => none :: levelsOf s ws

end NetHooks.Indentation
