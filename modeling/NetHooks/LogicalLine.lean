import NetHooks.Indentation
import NetHooks.Text.Blank
import NetHooks.Text.Lines

/-!
# Logical lines

A logical line is one physical line together with the lines joined to it: a backslash
at the end, not itself escaped by another, is removed and the next physical line is
appended as it stands. Between logical lines, blank lines and lines that start with a
number sign are dropped. Trailing blanks are cut at the end.
-/
namespace NetHooks

structure LogicalLine where
  /-- The number of its first physical line, counted from one. -/
  number : Nat
  /-- The indentation width of its first physical line. -/
  width : Nat
  /-- The text after the indentation. -/
  text : String
  deriving DecidableEq, Repr

namespace LogicalLine

/-- A logical line that may still be joined to the next physical line. -/
structure Draft where
  number : Nat
  width : Nat
  text : List Char

/-- The text ends in an odd number of backslashes. -/
def continues (text : List Char) : Bool :=
  (text.reverse.takeWhile (· == '\\')).length % 2 == 1

/-- Between logical lines, text of this kind is dropped. -/
def isSkipped (text : List Char) : Bool :=
  (Text.trim text).isEmpty || text.head? == some '#'

/-- Gather the physical lines from number `n` on, with the line still open before them. -/
def gather : Nat → Option Draft → List (List Char) → List Draft
  | _, none, [] => []
  | _, some d, [] => [d]
  | n, none, p :: ps =>
      let (width, text) := Indentation.measure p
      if isSkipped text then gather (n + 1) none ps
      else if continues text then gather (n + 1) (some ⟨n, width, text.dropLast⟩) ps
      else ⟨n, width, text⟩ :: gather (n + 1) none ps
  | n, some d, p :: ps =>
      let text := d.text ++ p
      if continues text then gather (n + 1) (some { d with text := text.dropLast }) ps
      else { d with text } :: gather (n + 1) none ps

/-- Cut the trailing blanks and drop a line that nothing is left of. -/
def finish (d : Draft) : Option LogicalLine :=
  let text := Text.trimEnd d.text
  if text.isEmpty then none else some ⟨d.number, d.width, String.ofList text⟩

def ofChars (source : List Char) : List LogicalLine :=
  (gather 1 none (Text.lines source)).filterMap finish

theorem length_gather_le (n : Nat) (d : Option Draft) (ps : List (List Char)) :
    (gather n d ps).length ≤ ps.length + d.toList.length := by
  fun_induction gather n d ps <;> simp_all <;> omega

theorem length_ofChars_le (source : List Char) : (ofChars source).length ≤ source.length := by
  have h₁ := List.length_filterMap_le finish (gather 1 none (Text.lines source))
  have h₂ := length_gather_le 1 none (Text.lines source)
  have h₃ := Text.length_lines_le source
  simp only [ofChars, Option.toList_none, List.length_nil] at *
  omega

end LogicalLine

def logicalLines (source : String) : List LogicalLine :=
  LogicalLine.ofChars source.toList

end NetHooks
