import NetHooks.LogicalLine
import NetHooks.Proofs.Indentation

/-!
# Outlines

The outline of logical lines follows from their widths alone: the block of a line is made of
the wider lines that follow it. When every line fits, the level that each receives from the
open levels is its depth in the outline (`Outline.levelsOf_ofLines`).
-/
namespace NetHooks

/-- A line with the outline of its block and the outline of what comes after the block. -/
inductive Outline where
  | done
  | entry (line : LogicalLine) (block after : Outline)
  deriving DecidableEq

namespace Outline

open Indentation (Levels levelsOf)

/-- The leading entries that are wider. -/
def within (width : Nat) : Outline → Outline
  | done => done
  | entry line block after =>
      if width < line.width then entry line block (within width after) else done

/-- What follows the leading entries that are wider. -/
def beyond (width : Nat) : Outline → Outline
  | done => done
  | entry line block after =>
      if width < line.width then beyond width after else entry line block after

/-- Put a line before an outline, with the wider entries that follow it as its block. -/
def graft (line : LogicalLine) (o : Outline) : Outline :=
  entry line (o.within line.width) (o.beyond line.width)

def ofLines (lines : List LogicalLine) : Outline :=
  lines.foldr graft done

/-- The lines from top to bottom, each with its depth when the entries stand at depth `n`. -/
def placed (n : Nat) : Outline → List (Nat × LogicalLine)
  | done => []
  | entry line block after => (n, line) :: (placed (n + 1) block ++ placed n after)

def lines : Outline → List LogicalLine
  | done => []
  | entry line block after => line :: (lines block ++ lines after)

def first? : Outline → Option LogicalLine
  | done => none
  | entry line _ _ => some line

/-- The entries are wider. -/
def Wider (width : Nat) : Outline → Prop
  | done => True
  | entry line _ after => width < line.width ∧ Wider width after

/-- Blocks are wider than their lines, and what comes after a block is not wider. -/
def Indented : Outline → Prop
  | done => True
  | entry line block after =>
      block.Wider line.width ∧ (∀ next ∈ after.first?, next.width ≤ line.width) ∧
        block.Indented ∧ after.Indented

variable {o : Outline} {line : LogicalLine} {w n : Nat}

@[simp] theorem map_snd_placed (n : Nat) (o : Outline) : (o.placed n).map (·.2) = o.lines := by
  induction o generalizing n with
  | done => rfl
  | entry line block after ihBlock ihAfter => simp [placed, lines, ihBlock, ihAfter]

theorem le_of_mem_placed {p : Nat × LogicalLine} (h : p ∈ o.placed n) : n ≤ p.1 := by
  induction o generalizing n with
  | done => simp [placed] at h
  | entry line block after ihBlock ihAfter =>
      simp only [placed, List.mem_cons, List.mem_append] at h
      rcases h with rfl | h | h
      · exact Nat.le_refl n
      · exact Nat.le_of_succ_le (ihBlock h)
      · exact ihAfter h

/-! ### Outlines of lines -/

theorem lines_within_append (w : Nat) (o : Outline) :
    (o.within w).lines ++ (o.beyond w).lines = o.lines := by
  induction o with
  | done => rfl
  | entry line block after _ ih =>
      simp only [within, beyond]
      split
      · simp [lines, ih]
      · simp [lines]

@[simp] theorem lines_ofLines (ls : List LogicalLine) : (ofLines ls).lines = ls := by
  induction ls with
  | nil => rfl
  | cons line ls ih =>
      change (graft line (ofLines ls)).lines = line :: ls
      rw [graft, lines, lines_within_append, ih]

theorem wider_within (w : Nat) (o : Outline) : (o.within w).Wider w := by
  induction o with
  | done => trivial
  | entry line block after _ ih =>
      simp only [within]
      split
      next h => exact ⟨h, ih⟩
      · trivial

theorem first?_within (h : line ∈ (o.within w).first?) : line ∈ o.first? := by
  cases o with
  | done => exact h
  | entry x block after =>
      simp only [within] at h
      split at h
      · exact h
      · cases h

theorem Indented.within (h : o.Indented) (w : Nat) : (o.within w).Indented := by
  induction o with
  | done => trivial
  | entry line block after _ ih =>
      obtain ⟨hwider, hnext, hblock, hafter⟩ := h
      simp only [Outline.within]
      split
      · exact ⟨hwider, fun next hn => hnext next (first?_within hn), hblock, ih hafter⟩
      · trivial

theorem Indented.beyond (h : o.Indented) (w : Nat) : (o.beyond w).Indented := by
  induction o with
  | done => trivial
  | entry line block after _ ih =>
      simp only [Outline.beyond]
      split
      · exact ih h.2.2.2
      · exact h

theorem le_of_first?_beyond (h : line ∈ (o.beyond w).first?) : line.width ≤ w := by
  induction o with
  | done => cases h
  | entry x block after _ ih =>
      simp only [beyond] at h
      split at h
      · exact ih h
      next hx =>
        obtain rfl : x = line := by simpa [first?] using h
        exact Nat.le_of_not_lt hx

theorem indented_ofLines (ls : List LogicalLine) : (ofLines ls).Indented := by
  induction ls with
  | nil => trivial
  | cons line ls ih =>
      exact ⟨wider_within _ _, fun _ h => le_of_first?_beyond h, ih.within _, ih.beyond _⟩

/-! ### Levels are depths -/

/-- The levels inside a block are those of the enclosing lines with further ones. -/
theorem opens_of_block {s : Levels} {outer : List Nat} {block : Outline} (h : block.Wider w)
    (hnone : block.first? = none → s = ⟨w :: outer⟩)
    (hsome : ∀ line ∈ block.first?, s.Opens line.width (w :: outer)) : s.Opens w outer := by
  cases block with
  | done => exact hnone rfl ▸ Indentation.Levels.opens_self w outer
  | entry line block after =>
      obtain ⟨inner, hs, hinner⟩ := hsome line rfl
      have hline : w < line.width := h.1
      refine ⟨inner ++ [line.width], by simp [hs], ?_⟩
      intro x hx
      rcases List.mem_append.1 hx with hx | hx
      · exact Nat.lt_trans hline (hinner x hx)
      · simpa [List.mem_singleton.1 hx] using hline

/-- A sibling that fits has the width of the line before it. -/
theorem fit?_of_sibling {s : Levels} {outer ws : List Nat} {after : Outline}
    (hopens : s.Opens w outer) (hnext : ∀ next ∈ after.first?, next.width ≤ w)
    (houter : ∀ b ∈ outer.head?, after.Wider b)
    (hfits : none ∉ levelsOf s (after.lines.map (·.width) ++ ws)) {next : LogicalLine}
    (h : next ∈ after.first?) : next.width = w ∧ s.fit? next.width = some ⟨w :: outer⟩ := by
  cases after with
  | done => cases h
  | entry x block rest =>
      obtain rfl : x = next := by simpa [first?] using h
      have hle : x.width ≤ w := hnext x rfl
      have hbetween : ∀ b ∈ outer.head?, b < x.width := fun b hb => (houter b hb).1
      cases hfit : s.fit? x.width with
      | none => simp [lines, levelsOf, hfit] at hfits
      | some t =>
          have heq : x.width = w := hopens.eq_of_fit? hle hbetween hfit
          exact ⟨heq, hfit ▸ heq ▸ hopens.fit?_self⟩

/-- Lines that fit receive their depths, from levels on which the first of them opens one
over the enclosing lines. -/
theorem levelsOf_lines_append {s : Levels} {outer ws : List Nat} (h : o.Indented)
    (houter : ∀ b ∈ outer.head?, o.Wider b)
    (hfirst : ∀ line ∈ o.first?, s.fit? line.width = some ⟨line.width :: outer⟩)
    (hfits : none ∉ levelsOf s (o.lines.map (·.width) ++ ws)) :
    ∃ t : Levels, levelsOf s (o.lines.map (·.width) ++ ws) =
        (o.placed outer.length).map (some ·.1) ++ levelsOf t ws ∧
      (o.first? = none → t = s) ∧ ∀ line ∈ o.first?, t.Opens line.width outer := by
  induction o generalizing s outer ws with
  | done => exact ⟨s, by simp [lines, placed], fun _ => rfl, by simp [first?]⟩
  | entry line block after ihBlock ihAfter =>
      obtain ⟨hwider, hnext, hblock, hafter⟩ := h
      have hfit : s.fit? line.width = some ⟨line.width :: outer⟩ := hfirst line rfl
      have hwidths : (entry line block after).lines.map (·.width) ++ ws =
          line.width :: (block.lines.map (·.width) ++ (after.lines.map (·.width) ++ ws)) := by
        simp [lines]
      rw [hwidths, Levels.levelsOf_cons hfit] at hfits ⊢
      replace hfits := (not_or.1 (mt List.mem_cons.2 hfits)).2
      have hinside : ∀ b ∈ (line.width :: outer).head?, block.Wider b := by simpa using hwider
      have hfirstInside : ∀ x ∈ block.first?,
          Levels.fit? ⟨line.width :: outer⟩ x.width = some ⟨x.width :: line.width :: outer⟩ := by
        intro x hx
        refine Levels.fit?_of_wider fun b hb => ?_
        cases block with
        | done => cases hx
        | entry y _ _ =>
            obtain rfl : y = x := by simpa [first?] using hx
            exact (hinside b hb).1
      obtain ⟨t, ht, htnone, htsome⟩ := ihBlock hblock hinside hfirstInside hfits
      have hopens : t.Opens line.width outer := opens_of_block hwider htnone htsome
      have houterAfter : ∀ b ∈ outer.head?, after.Wider b := fun b hb => (houter b hb).2
      rw [ht] at hfits ⊢
      replace hfits := (not_or.1 (mt List.mem_append.2 hfits)).2
      have hsibling : ∀ y ∈ after.first?, y.width = line.width ∧
          t.fit? y.width = some ⟨line.width :: outer⟩ :=
        fun y hy => fit?_of_sibling hopens hnext houterAfter hfits hy
      obtain ⟨u, hu, hunone, husome⟩ := ihAfter hafter houterAfter
        (fun y hy => (hsibling y hy).1 ▸ (hsibling y hy).2) hfits
      refine ⟨u, ?_, by simp [first?], ?_⟩
      · simp [hu, placed, Levels.level]
      · intro x hx
        obtain rfl : line = x := by simpa [first?] using hx
        cases hlast : after.first? with
        | none => exact hunone hlast ▸ hopens
        | some y => exact (hsibling y hlast).1 ▸ husome y hlast

/-- When every line fits, its level is its depth in the outline. -/
theorem levelsOf_ofLines {ls : List LogicalLine}
    (hfits : none ∉ levelsOf .empty (ls.map (·.width))) :
    levelsOf .empty (ls.map (·.width)) = ((ofLines ls).placed 0).map (some ·.1) := by
  have happend : (ofLines ls).lines.map (·.width) ++ [] = ls.map (·.width) := by simp
  rw [← happend] at hfits ⊢
  obtain ⟨t, ht, -⟩ := levelsOf_lines_append (indented_ofLines ls)
    (show ∀ b ∈ ([] : List Nat).head?, (ofLines ls).Wider b by simp) (fun _ _ => rfl) hfits
  simpa [levelsOf] using ht

end Outline

end NetHooks
