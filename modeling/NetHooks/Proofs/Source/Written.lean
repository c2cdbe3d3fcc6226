import NetHooks.Proofs.Relocation
import NetHooks.Proofs.Source.SingleFile
import NetHooks.Proofs.Source.Substitution
import NetHooks.Proofs.Text

/-!
# The written form of forests

A forest is written line by line, with four spaces for each level and every percent sign doubled
(`Forest.text`). A content that no rule of reading touches (`LogicalLine.Writable`) comes back from
its line as it is, and a forest of such contents comes back from its text, with other places
(`Forest.exists_parseText_text`).
-/
namespace NetHooks

/-! ### Contents and their lines -/

open Definitions (doubled doubled_nil doubled_sign doubled_cons doubled_eq_self mem_doubled
  reverse_doubled takeWhile_doubled dropWhile_doubled)

theorem Text.trimEnd_doubled (s : List Char) :
    Text.trimEnd (doubled s) = doubled (Text.trimEnd s) := by
  rw [Text.trimEnd, reverse_doubled, dropWhile_doubled, reverse_doubled, Text.trimEnd]

theorem Text.firstToken_doubled (s : List Char) :
    Text.firstToken (doubled s) = doubled (Text.firstToken s) := by
  rw [Text.firstToken, Text.trimStart, dropWhile_doubled, takeWhile_doubled, Text.firstToken,
    Text.trimStart]

namespace LogicalLine

/-- No rule of reading touches the content of the line: it stands on a line of its own, after
the indentation, from the first character to the last, and it is no directive. -/
structure Writable (s : List Char) : Prop where
  feedless : '\n' ∉ s
  ne_nil : s ≠ []
  unindented : s.head? ≠ some ' ' ∧ s.head? ≠ some '\t'
  uncommented : s.head? ≠ some '#'
  trimmed : Text.trimEnd s = s
  ended : continues s = false
  undirected : String.ofList (Text.firstToken s) ∉ Directive.keywords

variable {s : List Char}

instance : Decidable (Writable s) :=
  decidable_of_iff ('\n' ∉ s ∧ s ≠ [] ∧ (s.head? ≠ some ' ' ∧ s.head? ≠ some '\t') ∧
      s.head? ≠ some '#' ∧ Text.trimEnd s = s ∧ continues s = false ∧
      String.ofList (Text.firstToken s) ∉ Directive.keywords)
    ⟨fun ⟨h₁, h₂, h₃, h₄, h₅, h₆, h₇⟩ => ⟨h₁, h₂, h₃, h₄, h₅, h₆, h₇⟩,
      fun ⟨h₁, h₂, h₃, h₄, h₅, h₆, h₇⟩ => ⟨h₁, h₂, h₃, h₄, h₅, h₆, h₇⟩⟩

theorem head?_doubled (s : List Char) : (doubled s).head? = s.head? := by
  cases s with
  | nil => rfl
  | cons c s =>
      by_cases hc : c = '%'
      · subst hc
        rfl
      · rw [doubled_cons hc]
        rfl

theorem continues_eq_false_of_getLast? {c : Char} (h : s.getLast? = some c) (hc : c ≠ '\\') :
    continues s = false := by
  obtain ⟨before, rfl⟩ := List.getLast?_eq_some_iff.1 h
  simp [continues, hc]

theorem continues_doubled (s : List Char) : continues (doubled s) = continues s := by
  have hplain : '%' ∉ s.reverse.takeWhile (· == '\\') := fun h => by
    have := List.mem_takeWhile_imp h
    cases this
  rw [continues, reverse_doubled, takeWhile_doubled, doubled_eq_self hplain, continues]

theorem writable_doubled (h : Writable s) : Writable (doubled s) where
  feedless := mt mem_doubled.1 h.feedless
  ne_nil hnil := h.ne_nil (List.head?_eq_none_iff.1 (by rw [← head?_doubled, hnil]; rfl))
  unindented := head?_doubled s ▸ h.unindented
  uncommented := head?_doubled s ▸ h.uncommented
  trimmed := by rw [Text.trimEnd_doubled, h.trimmed]
  ended := by rw [continues_doubled, h.ended]
  undirected hkeyword := by
    -- No keyword has a percent sign, so the token that is one was not changed.
    have hplain : '%' ∉ Text.firstToken s := fun hsign => by
      have hkeywords : ∀ k ∈ Directive.keywords, '%' ∉ k.toList := by decide
      refine hkeywords _ hkeyword ?_
      rw [Text.firstToken_doubled, String.toList_ofList]
      exact mem_doubled.2 hsign
    rw [Text.firstToken_doubled, doubled_eq_self hplain] at hkeyword
    exact h.undirected hkeyword

end LogicalLine

/-! ### Lines that are read back -/

namespace Line

/-- The content as it is written. -/
def body (l : Line) : List Char :=
  doubled l.content.toList

/-- The line as it is written, without its end. -/
def written (l : Line) : List Char :=
  List.replicate (4 * l.level) ' ' ++ l.body

/-- The logical line is what is read from the written line, which is writable. -/
structure WrittenAs (l : Line) (x : LogicalLine) : Prop where
  writable : LogicalLine.Writable l.content.toList
  width_eq : x.width = 4 * l.level
  text_eq : x.text.toList = l.body

end Line

theorem Indentation.measureFrom_replicate {s : List Char}
    (h : s.head? ≠ some ' ' ∧ s.head? ≠ some '\t') (width n : Nat) :
    measureFrom width (List.replicate n ' ' ++ s) = (width + n, s) := by
  induction n generalizing width with
  | zero =>
      cases s with
      | nil => rfl
      | cons c s =>
          obtain ⟨hspace, htab⟩ : c ≠ ' ' ∧ c ≠ '\t' := by simpa using h
          have hstop := measureFrom.eq_3 width (c :: s)
          simp_all
  | succ n ih =>
      rw [List.replicate_succ, List.cons_append, measureFrom, ih]
      congr 1
      omega

namespace LogicalLine

variable {l : Line} {ls : List Line}

theorem Writable.body (h : Writable l.content.toList) : Writable l.body :=
  writable_doubled h

theorem Writable.measure_written (h : Writable l.content.toList) :
    Indentation.measure l.written = (4 * l.level, l.body) := by
  rw [Indentation.measure, Line.written,
    Indentation.measureFrom_replicate h.body.unindented, Nat.zero_add]

theorem Writable.not_isSkipped {s : List Char} (h : Writable s) : isSkipped s = false := by
  have hsolid := Text.trim_ne_nil h.trimmed h.ne_nil
  simpa [isSkipped, hsolid] using h.uncommented

theorem Writable.not_mem_written (h : Writable l.content.toList) : '\n' ∉ l.written := by
  simp [Line.written, Line.body, h.feedless]

theorem Writable.getLast?_written_ne (h : Writable l.content.toList) :
    l.written.getLast? ≠ some '\r' :=
  Text.getLast?_append_ne_of_trimEnd_eq h.body.trimmed h.body.ne_nil _

/-- A writable line is a logical line by itself. -/
theorem gather_written (h : Writable l.content.toList) (n : Nat) (ps : List (List Char)) :
    gather n none (l.written :: ps) =
      ⟨n, 4 * l.level, l.body⟩ :: gather (n + 1) none ps := by
  simp [gather, h.measure_written, h.body.not_isSkipped, h.body.ended]

theorem finish_written (h : Writable l.content.toList) (n : Nat) :
    finish ⟨n, 4 * l.level, l.body⟩ =
      some ⟨n, 4 * l.level, String.ofList l.body⟩ := by
  have hne := h.body.ne_nil
  simp [finish, h.body.trimmed, hne]

theorem forall₂_gather_written (h : ∀ l ∈ ls, Writable l.content.toList) (n : Nat) :
    List.Forall₂ Line.WrittenAs ls ((gather n none (ls.map Line.written)).filterMap finish) := by
  induction ls generalizing n with
  | nil => exact .nil
  | cons l ls ih =>
      obtain ⟨hl, hls⟩ := List.forall_mem_cons.1 h
      rw [List.map_cons, gather_written hl, List.filterMap_cons_some (finish_written hl n)]
      exact .cons ⟨hl, rfl, String.toList_ofList⟩ (ih hls (n + 1))

end LogicalLine

namespace Forest

/-- The forest as it is written. -/
def text (f : Forest) : String :=
  String.join (f.lines.map fun l => String.ofList (l.written ++ ['\n']))

/-- At its level the forest can be written. -/
structure Writable (n : Nat) (f : Forest) : Prop where
  leveled : Leveled n f
  lines : ∀ l ∈ f.lines, LogicalLine.Writable l.content.toList

variable {f g : Forest} {n : Nat}

@[simp] theorem writable_nil : Writable n [] := ⟨leveled_nil, by simp⟩

@[simp] theorem writable_cons {l : Line} {cs ts : Forest} : Writable n (.node l cs :: ts) ↔
    (l.level = n ∧ LogicalLine.Writable l.content.toList) ∧ Writable (n + 1) cs ∧
      Writable n ts := by
  constructor
  · intro ⟨hleveled, hlines⟩
    obtain ⟨hl, hcs, hts⟩ := leveled_cons.1 hleveled
    rw [lines_cons, List.forall_mem_cons, List.forall_mem_append] at hlines
    exact ⟨⟨hl, hlines.1⟩, ⟨hcs, hlines.2.1⟩, hts, hlines.2.2⟩
  · intro ⟨⟨hlevel, hl⟩, hcs, hts⟩
    refine ⟨leveled_cons.2 ⟨hlevel, hcs.leveled, hts.leveled⟩, ?_⟩
    rw [lines_cons, List.forall_mem_cons, List.forall_mem_append]
    exact ⟨hl, hcs.lines, hts.lines⟩

@[simp] theorem writable_append : Writable n (f ++ g) ↔ Writable n f ∧ Writable n g := by
  constructor
  · intro ⟨hleveled, hlines⟩
    obtain ⟨hf, hg⟩ := leveled_append.1 hleveled
    rw [lines_append, List.forall_mem_append] at hlines
    exact ⟨⟨hf, hlines.1⟩, hg, hlines.2⟩
  · intro ⟨hf, hg⟩
    refine ⟨leveled_append.2 ⟨hf.leveled, hg.leveled⟩, ?_⟩
    rw [lines_append, List.forall_mem_append]
    exact ⟨hf.lines, hg.lines⟩

/-- A forest can be written when each of its trees can. -/
theorem writable_map {α : Type} {tree : α → Tree} {l : List α}
    (h : ∀ a ∈ l, Writable n [tree a]) : Writable n (l.map tree) := by
  induction l with
  | nil => exact writable_nil
  | cons a l ih =>
      obtain ⟨ha, hl⟩ := List.forall_mem_cons.1 h
      exact writable_append.2 ⟨ha, ih hl⟩

/-- The lines of the text are those of the forest. -/
theorem forall₂_logicalLines_text (h : Writable n f) :
    List.Forall₂ Line.WrittenAs f.lines (logicalLines f.text) := by
  have htext : f.text.toList = f.lines.flatMap fun l => l.written ++ ['\n'] := by
    rw [text, String.toList_join, List.flatMap_map]
    exact List.flatMap_congr fun l _ => String.toList_ofList
  have hlines := Text.lines_flatMap (fun l hl => (h.lines l hl).not_mem_written)
    fun l hl => (h.lines l hl).getLast?_written_ne
  rw [logicalLines, LogicalLine.ofChars, htext, hlines]
  exact LogicalLine.forall₂_gather_written h.lines 1

end Forest

/-! ### Levels that are read back -/

namespace Indentation.Levels

/-- The open widths, innermost first, when as many levels are open. -/
def openWidths : Nat → List Nat
  | 0 => []
  | n + 1 => 4 * n :: openWidths n

theorem level_openWidths (n : Nat) : Levels.level ⟨openWidths (n + 1)⟩ = n := by
  induction n with
  | zero => rfl
  | succ n ih =>
      simp only [level, openWidths, List.length_cons] at ih ⊢
      omega

theorem opens_openWidths {m n : Nat} (h : m < n) :
    Opens ⟨openWidths n⟩ (4 * m) (openWidths m) := by
  induction n with
  | zero => exact absurd h (Nat.not_lt_zero m)
  | succ n ih =>
      rcases Nat.lt_succ_iff_lt_or_eq.1 h with hlt | rfl
      · obtain ⟨inner, hwidths, hinner⟩ := ih hlt
        have hwidths' : openWidths n = inner ++ 4 * m :: openWidths m := hwidths
        refine ⟨4 * n :: inner, by simp [openWidths, hwidths'], ?_⟩
        exact List.forall_mem_cons.2 ⟨by omega, hinner⟩
      · exact opens_self _ _

/-- A line at one of the open levels, or one level deeper, fits. -/
theorem fit?_openWidths {m n : Nat} (h : m ≤ n) :
    fit? ⟨openWidths n⟩ (4 * m) = some ⟨openWidths (m + 1)⟩ := by
  rcases Nat.lt_or_eq_of_le h with hlt | rfl
  · exact (opens_openWidths hlt).fit?_self
  · refine fit?_of_wider fun o ho => ?_
    cases m with
    | zero => cases ho
    | succ m =>
        obtain rfl : 4 * m = o := by simpa [openWidths] using ho
        omega

end Indentation.Levels

namespace Forest

open Indentation (Levels)
open Indentation.Levels (openWidths level_openWidths fit?_openWidths)

variable {f : Forest} {path : String} {l : Line} {x : LogicalLine} {ls : List Line}
  {xs : List LogicalLine} {n : Nat}

theorem keyword_not_mem (hx : l.WrittenAs x) : x.keyword ∉ Directive.keywords := by
  rw [LogicalLine.keyword, hx.text_eq]
  exact hx.writable.body.undirected

/-- A written line is delivered with its content. -/
theorem heed_written (hx : l.WrittenAs x) (place : Location) :
    Memory.empty.heed l.level x place = .ok (some ⟨l.level, l.content, place⟩, .empty) := by
  have hread : Directive.read x.keyword x.text place = .ok none :=
    Directive.read_of_not_mem (keyword_not_mem hx)
  have hcontent : Definitions.substitute .empty x.text = .ok l.content := by
    rw [Definitions.substitute, hx.text_eq, Line.body, Definitions.substituteChars_doubled]
    exact congrArg Except.ok String.ofList_toList
  simp only [Memory.heed, Memory.empty, Feed.standing, List.dropWhile_nil, Feed.isHidden, hread,
    hcontent]
  rfl

/-- Written lines are read one after another, each at its level and with nothing left behind. -/
theorem exists_readOn_written (hplaced : firstMisplaced? n ls = none)
    (hxs : List.Forall₂ Line.WrittenAs ls xs) :
    (∀ x ∈ xs, x.keyword ≠ "include") ∧ ∃ lines levels,
      Memory.empty.readOn path 0 ⟨openWidths n⟩ xs = .ok (lines, levels, .empty) ∧
      lines.map (Line.relocate Location.forget) = ls.map (Line.relocate Location.forget) := by
  induction hxs generalizing n with
  | nil => exact ⟨by simp, [], _, rfl, rfl⟩
  | @cons l x ls xs hx _ ih =>
      simp only [firstMisplaced?] at hplaced
      split at hplaced
      · cases hplaced
      next hle =>
        obtain ⟨hplain, lines, levels, hread, hlines⟩ := ih hplaced
        have hfit : Levels.fit? ⟨openWidths n⟩ x.width = some ⟨openWidths (l.level + 1)⟩ := by
          rw [hx.width_eq]
          exact fit?_openWidths (Nat.le_of_not_lt hle)
        have hheed : Memory.empty.heed (0 + Levels.level ⟨openWidths (l.level + 1)⟩) x
            ⟨path, x.number⟩ = .ok (some ⟨l.level, l.content, ⟨path, x.number⟩⟩, .empty) := by
          rw [Nat.zero_add, level_openWidths]
          exact heed_written hx _
        have hinclude : x.keyword ≠ "include" := fun hkeyword =>
          keyword_not_mem hx (hkeyword ▸ by decide)
        refine ⟨List.forall_mem_cons.2 ⟨hinclude, hplain⟩, _ :: lines, levels,
          Memory.readOn_cons_eq_ok.2 ⟨_, _, _, lines, hfit, hheed, hread, rfl⟩, ?_⟩
        rw [List.map_cons, List.map_cons, hlines]
        rfl

/-- A forest that can be written is read back from its text, with other places. -/
theorem exists_parseText_text (library : Library) (path : String) (h : Writable 0 f) :
    ∃ g, parseText library path f.text = .ok g ∧
      g.relocate Location.forget = f.relocate Location.forget := by
  have hplaced : firstMisplaced? 0 f.lines = none := h.leveled.placed.none_misplaced
  obtain ⟨hplain, lines, levels, hread, hlines⟩ :=
    exists_readOn_written hplaced (forall₂_logicalLines_text h)
  have hforest : ofStream ⟨f.lines, none⟩ = .ok f :=
    ofStream_eq_ok.2 ⟨hplaced, rfl, (ofLines_lines h.leveled).symm⟩
  rw [parseText_of_readOn hplain hread]
  exact exists_ofStream_of_relocate hlines rfl hforest

end Forest

end NetHooks
