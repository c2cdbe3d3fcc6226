import NetHooks.Proofs.Indentation
import Mathlib.Data.List.Chain
import Mathlib.Order.Monotone.Basic

/-!
# Levels and the lines before

The open levels are what is left of all lines that were accepted so far: a line counts as long as no
narrower line has come after it (`Visible`), and the open widths are those of the lines that still
count (`Tracks`). So the level of a line can be told from the lines before it: it lies one below the
last of them that is narrower (`levelsOf_outcome`). Only the order of the widths matters.
-/
namespace NetHooks.Indentation

/-- A line that was accepted. -/
structure Placed where
  width : Nat
  level : Nat
  deriving DecidableEq, Repr

/-- The lines of a run that are accepted, in their order. -/
def placed (ws : List Nat) : List Placed :=
  (ws.zip (levelsOf .empty ws)).filterMap fun (w, level?) => level?.map (⟨w, ·⟩)

/-- A line that was accepted, and no narrower one after it. -/
def Visible (history : List Placed) (l : Placed) : Prop :=
  ∃ before after, history = before ++ l :: after ∧ ∀ x ∈ after, l.width ≤ x.width

/-- A width is accepted when it is the first, or wider than the last, or as wide as a line after
which no narrower one came. -/
def Fits (history : List Placed) (w : Nat) : Prop :=
  history = [] ∨ (∃ l, history.getLast? = some l ∧ l.width < w) ∨
    ∃ l, Visible history l ∧ l.width = w

/-- The level of a line below the last narrower one, or without any. -/
inductive HasLevel (history : List Placed) (w : Nat) : Nat → Prop
  | outermost (wide : ∀ l ∈ history, w ≤ l.width) : HasLevel history w 0
  | below {before after : List Placed} {l : Placed} (split : history = before ++ l :: after)
      (narrower : l.width < w) (wide : ∀ x ∈ after, w ≤ x.width) : HasLevel history w (l.level + 1)

variable {history : List Placed} {l x : Placed} {s t : Levels} {w n : Nat} {ws : List Nat}

/-! ### Stacks -/

namespace Levels

/-- Inner levels are wider than outer ones. -/
def Sorted (s : Levels) : Prop :=
  s.widths.Pairwise (· > ·)

/-- Closing the wider levels leaves those that are not wider. -/
theorem dropWhile_eq_filter {l : List Nat} (h : l.Pairwise (· > ·)) (w : Nat) :
    l.dropWhile (w < ·) = l.filter (· ≤ w) := by
  induction l with
  | nil => rfl
  | cons a l ih =>
      obtain ⟨ha, hl⟩ := List.pairwise_cons.1 h
      by_cases haw : w < a
      · rw [List.dropWhile_cons_of_pos (by simpa using haw), ih hl,
          List.filter_cons_of_neg (by simpa using haw)]
      · rw [List.dropWhile_cons_of_neg (by simpa using haw), List.filter_eq_self.2]
        intro b hb
        rcases List.mem_cons.1 hb with rfl | hb
        · simpa using haw
        · have := ha b hb
          simp only [decide_eq_true_eq]
          omega

/-- A width comes before the narrower ones. -/
theorem filter_le_eq {l : List Nat} (h : l.Pairwise (· > ·)) (hw : w ∈ l) :
    l.filter (· ≤ w) = w :: l.filter (· < w) := by
  induction l with
  | nil => cases hw
  | cons a l ih =>
      obtain ⟨ha, hl⟩ := List.pairwise_cons.1 h
      by_cases haw : a = w
      · subst haw
        have hle : l.filter (· ≤ a) = l.filter (· < a) :=
          List.filter_congr fun b hb => by
            have := ha b hb
            simp only [decide_eq_decide]
            omega
        rw [List.filter_cons_of_pos (by simp), List.filter_cons_of_neg (by simp), hle]
      · have hmem : w ∈ l := (List.mem_cons.1 hw).resolve_left (Ne.symm haw)
        have hlt : w < a := ha w hmem
        rw [List.filter_cons_of_neg (by simpa using hlt),
          List.filter_cons_of_neg (by simp; omega), ih hl hmem]

/-- A line is accepted that is wider than all open levels or as wide as one of them, and it stands
over the narrower ones. -/
theorem fit?_eq_some_iff (hs : s.Sorted) : s.fit? w = some t ↔
    ((∀ top, s.widths.head? = some top → top < w) ∨ w ∈ s.widths) ∧
      t = ⟨w :: s.widths.filter (· < w)⟩ := by
  obtain ⟨widths⟩ := s
  cases widths with
  | nil => simp [fit?, eq_comm]
  | cons top rest =>
      have hall : ∀ b ∈ top :: rest, b ≤ top := by
        intro b hb
        rcases List.mem_cons.1 hb with rfl | hb
        · exact Nat.le_refl _
        · exact Nat.le_of_lt ((List.pairwise_cons.1 hs).1 b hb)
      have hfit : fit? ⟨top :: rest⟩ w = if top < w then some ⟨w :: top :: rest⟩
          else if ((top :: rest).filter (· ≤ w)).head? = some w then
            some ⟨(top :: rest).filter (· ≤ w)⟩
          else none := by
        rw [← dropWhile_eq_filter hs]
        rfl
      rw [hfit]
      by_cases htop : top < w
      · have hfilter : (top :: rest).filter (· < w) = top :: rest :=
          List.filter_eq_self.2 fun b hb => decide_eq_true (Nat.lt_of_le_of_lt (hall b hb) htop)
        simp [htop, hfilter, eq_comm]
      rw [if_neg htop]
      by_cases hw : w ∈ top :: rest
      · rw [filter_le_eq hs hw, if_pos (List.head?_cons ..), Option.some.injEq, eq_comm]
        exact (and_iff_right (.inr hw)).symm
      · have hhead : ((top :: rest).filter (· ≤ w)).head? ≠ some w := fun h =>
          hw (List.mem_filter.1 (List.mem_of_head? h)).1
        rw [if_neg hhead]
        exact iff_of_false (Option.some_ne_none t).symm fun h => htop (h.1.resolve_right hw top rfl)

end Levels

/-! ### Earlier lines -/

/-- Later lines hide the earlier ones that are wider than one of them. -/
theorem visible_append {later : List Placed} : Visible (history ++ later) l ↔
    Visible later l ∨ Visible history l ∧ ∀ x ∈ later, l.width ≤ x.width := by
  constructor
  · rintro ⟨before, after, hsplit, hwide⟩
    rcases List.append_eq_append_iff.1 hsplit with ⟨middle, rfl, rfl⟩ | ⟨middle, rfl, hlater⟩
    · exact .inl ⟨middle, after, rfl, hwide⟩
    · rcases List.cons_eq_append_iff.1 hlater with ⟨rfl, rfl⟩ | ⟨rest, rfl, rfl⟩
      · exact .inl ⟨[], after, rfl, hwide⟩
      · obtain ⟨hrest, hlater⟩ := List.forall_mem_append.1 hwide
        exact .inr ⟨⟨before, rest, rfl, hrest⟩, hlater⟩
  · rintro (⟨before, after, rfl, hwide⟩ | ⟨⟨before, after, rfl, hwide⟩, hlater⟩)
    · exact ⟨history ++ before, after, by simp, hwide⟩
    · exact ⟨before, after ++ later, by simp, List.forall_mem_append.2 ⟨hwide, hlater⟩⟩

theorem visible_append_singleton :
    Visible (history ++ [x]) l ↔ l = x ∨ Visible history l ∧ l.width ≤ x.width := by
  have hself : Visible [x] l ↔ l = x := by
    constructor
    · rintro ⟨before, after, hsplit, -⟩
      have hl : l ∈ [x] := hsplit ▸ by simp
      exact List.mem_singleton.1 hl
    · rintro rfl
      exact ⟨[], [], rfl, nofun⟩
  rw [visible_append, hself, List.forall_mem_singleton]

theorem Visible.mem (h : Visible history l) : l ∈ history := by
  obtain ⟨before, after, rfl, -⟩ := h
  simp

theorem visible_of_getLast? (h : history.getLast? = some l) : Visible history l := by
  obtain ⟨before, rfl⟩ := List.getLast?_eq_some_iff.1 h
  exact ⟨before, [], rfl, nofun⟩

theorem wide_or_split (history : List Placed) (w : Nat) : (∀ l ∈ history, w ≤ l.width) ∨
    ∃ before l after, history = before ++ l :: after ∧ l.width < w ∧ ∀ x ∈ after, w ≤ x.width := by
  induction history using List.reverseRecOn with
  | nil => exact .inl nofun
  | append_singleton history x ih =>
      by_cases hx : x.width < w
      · exact .inr ⟨history, x, [], rfl, hx, nofun⟩
      · have hlast : ∀ y ∈ [x], w ≤ y.width := List.forall_mem_singleton.2 (Nat.le_of_not_lt hx)
        rcases ih with hwide | ⟨before, l, after, rfl, hl, hwide⟩
        · exact .inl (List.forall_mem_append.2 ⟨hwide, hlast⟩)
        · exact .inr ⟨before, l, after ++ [x], by simp, hl, List.forall_mem_append.2 ⟨hwide, hlast⟩⟩

/-- The open widths are those of the lines that still count, and each of these lines lies under the
narrower ones. -/
structure Tracks (s : Levels) (history : List Placed) : Prop where
  sorted : s.Sorted
  head : s.widths.head? = history.getLast?.map Placed.width
  mem : ∀ w, w ∈ s.widths ↔ ∃ l, Visible history l ∧ l.width = w
  level : ∀ l, Visible history l → l.level = (s.widths.filter (· < l.width)).length

theorem tracks_empty : Tracks .empty [] where
  sorted := List.Pairwise.nil
  head := rfl
  mem w := by
    simp only [Levels.empty, List.not_mem_nil, false_iff]
    rintro ⟨l, h, -⟩
    cases h.mem
  level l h := by cases h.mem

namespace Tracks

/-- A line that is accepted is tracked from then on. -/
theorem append (h : Tracks s history) (hfit : s.fit? w = some t) :
    Tracks t (history ++ [⟨w, t.level⟩]) := by
  obtain ⟨-, rfl⟩ := (Levels.fit?_eq_some_iff h.sorted).1 hfit
  have hfilter (v : Nat) (hv : v ≤ w) : (w :: s.widths.filter (· < w)).filter (· < v) =
      s.widths.filter (· < v) := by
    rw [List.filter_cons_of_neg (by simpa using hv), List.filter_filter]
    exact List.filter_congr fun b _ => by
      rw [← Bool.decide_and, decide_eq_decide]
      omega
  refine ⟨?_, by simp, fun v => ?_, fun l hl => ?_⟩
  · refine List.pairwise_cons.2 ⟨fun v hv => ?_, List.Pairwise.filter _ h.sorted⟩
    simpa using (List.mem_filter.1 hv).2
  · rw [List.mem_cons, List.mem_filter, h.mem, decide_eq_true_eq]
    constructor
    · rintro (rfl | ⟨⟨l, hl, rfl⟩, hlt⟩)
      · exact ⟨_, visible_append_singleton.2 (.inl rfl), rfl⟩
      · exact ⟨l, visible_append_singleton.2 (.inr ⟨hl, Nat.le_of_lt hlt⟩), rfl⟩
    · rintro ⟨l, hl, rfl⟩
      rcases visible_append_singleton.1 hl with rfl | ⟨hl, hle⟩
      · exact .inl rfl
      · exact (Nat.eq_or_lt_of_le hle).imp id fun hlt => ⟨⟨l, hl, rfl⟩, hlt⟩
  · rcases visible_append_singleton.1 hl with rfl | ⟨hl, hle⟩
    · rw [hfilter w (Nat.le_refl w)]
      rfl
    · rw [hfilter l.width hle]
      exact h.level l hl

theorem fits_iff (h : Tracks s history) : s.fit? w ≠ none ↔ Fits history w := by
  have hfit : s.fit? w ≠ none ↔
      (∀ top, s.widths.head? = some top → top < w) ∨ w ∈ s.widths := by
    simp [Option.ne_none_iff_exists', Levels.fit?_eq_some_iff h.sorted]
  rw [hfit, h.mem, h.head, Fits, ← or_assoc]
  refine or_congr_left ?_
  cases hlast : history.getLast? with
  | none => simp [List.getLast?_eq_none_iff.1 hlast]
  | some l =>
      have hne : history ≠ [] := by
        rintro rfl
        cases hlast
      simp [hne]

/-- A line over the narrower open levels lies below the last line that is narrower. -/
theorem hasLevel (h : Tracks s history) (hfit : s.fit? w = some t) :
    HasLevel history w t.level := by
  obtain ⟨-, rfl⟩ := (Levels.fit?_eq_some_iff h.sorted).1 hfit
  have hlevel : Levels.level ⟨w :: s.widths.filter (· < w)⟩ =
      (s.widths.filter (· < w)).length := rfl
  rw [hlevel]
  rcases wide_or_split history w with hwide | ⟨before, l, after, hsplit, hl, hwide⟩
  · have hfilter : s.widths.filter (· < w) = [] := by
      refine List.filter_eq_nil_iff.2 fun v hv => ?_
      obtain ⟨l, hl, rfl⟩ := (h.mem v).1 hv
      simpa using hwide l hl.mem
    rw [hfilter]
    exact .outermost hwide
  · have hvisible : Visible history l :=
      ⟨before, after, hsplit, fun x hx => Nat.le_of_lt (Nat.lt_of_lt_of_le hl (hwide x hx))⟩
    have hfilter : s.widths.filter (· < w) = s.widths.filter (· ≤ l.width) := by
      refine List.filter_congr fun v hv => decide_eq_decide.2 ⟨fun hvw => ?_, fun hvl => ?_⟩
      · -- A line that still counts and is narrower than `w` is `l` or comes before it.
        obtain ⟨m, hm, rfl⟩ := (h.mem v).1 hv
        rw [hsplit] at hm
        rcases visible_append.1 hm with hm | ⟨-, hle⟩
        · rcases List.mem_cons.1 hm.mem with rfl | hm
          · exact Nat.le_refl _
          · exact absurd hvw (Nat.not_lt.2 (hwide m hm))
        · exact hle l List.mem_cons_self
      · exact Nat.lt_of_le_of_lt hvl hl
    rw [hfilter, Levels.filter_le_eq h.sorted ((h.mem _).2 ⟨l, hvisible, rfl⟩), List.length_cons,
      ← h.level l hvisible]
    exact .below hsplit hl hwide

/-- The last line has the level of the stack. -/
theorem level_of_getLast? (h : Tracks s history) (hl : history.getLast? = some l) :
    l.level = s.level := by
  have hvisible := visible_of_getLast? hl
  obtain ⟨rest, hwidths⟩ := List.head?_eq_some_iff.1 (h.head.trans (congrArg _ hl))
  have hsorted := h.sorted
  rw [Levels.Sorted, hwidths] at hsorted
  rw [h.level l hvisible, Levels.level, hwidths, List.filter_cons_of_neg (by simp),
    List.filter_eq_self.2 fun v hv => decide_eq_true ((List.pairwise_cons.1 hsorted).1 v hv)]
  rfl

end Tracks

/-! ### Runs -/

/-- The open levels after a run. -/
def Levels.run (s : Levels) (ws : List Nat) : Levels :=
  ws.foldl (fun s w => (s.fit? w).getD s) s

theorem levelsOf_cons_eq (s : Levels) (w : Nat) (ws : List Nat) :
    levelsOf s (w :: ws) = (s.fit? w).map Levels.level :: levelsOf ((s.fit? w).getD s) ws := by
  rw [levelsOf]
  cases s.fit? w <;> rfl

theorem levelsOf_append (s : Levels) (ws ws' : List Nat) :
    levelsOf s (ws ++ ws') = levelsOf s ws ++ levelsOf (s.run ws) ws' := by
  induction ws generalizing s with
  | nil => rfl
  | cons w ws ih =>
      rw [List.cons_append, levelsOf_cons_eq, levelsOf_cons_eq, ih]
      rfl

theorem length_levelsOf (s : Levels) (ws : List Nat) : (levelsOf s ws).length = ws.length := by
  induction ws generalizing s with
  | nil => rfl
  | cons w ws ih => rw [levelsOf_cons_eq, List.length_cons, ih, List.length_cons]

theorem placed_append_singleton (ws : List Nat) (w : Nat) : placed (ws ++ [w]) =
    placed ws ++ ((Levels.empty.run ws).fit? w).toList.map fun t => ⟨w, t.level⟩ := by
  rw [placed, levelsOf_append, List.zip_append (length_levelsOf _ _).symm, List.filterMap_append,
    levelsOf_cons_eq]
  cases hfit : (Levels.empty.run ws).fit? w <;> simp [placed, levelsOf]

theorem run_append_singleton (s : Levels) (ws : List Nat) (w : Nat) :
    s.run (ws ++ [w]) = ((s.run ws).fit? w).getD (s.run ws) := by
  simp [Levels.run]

theorem tracks_run (ws : List Nat) : Tracks (Levels.empty.run ws) (placed ws) := by
  induction ws using List.reverseRecOn with
  | nil => exact tracks_empty
  | append_singleton ws w ih =>
      rw [run_append_singleton, placed_append_singleton]
      cases hfit : (Levels.empty.run ws).fit? w with
      | none => simpa using ih
      | some t => simpa using ih.append hfit

/-- From one accepted line to the next the level rises by one at most. -/
theorem isChain_placed (ws : List Nat) : (placed ws).IsChain fun x y => y.level ≤ x.level + 1 := by
  induction ws using List.reverseRecOn with
  | nil => exact .nil
  | append_singleton ws w ih =>
      rw [placed_append_singleton]
      cases hfit : (Levels.empty.run ws).fit? w with
      | none => simpa using ih
      | some t =>
          refine List.isChain_append.2 ⟨ih, .singleton _, fun x hx y hy => ?_⟩
          cases hy
          rw [(tracks_run ws).level_of_getLast? hx]
          exact Levels.level_le_succ hfit

/-! ### Other widths in the same order -/

theorem dropWhile_map_of_forall {f : Nat → Nat} {p q : Nat → Bool} {l : List Nat}
    (h : ∀ x ∈ l, p (f x) = q x) : (l.map f).dropWhile p = (l.dropWhile q).map f := by
  induction l with
  | nil => rfl
  | cons a l ih =>
      obtain ⟨ha, hl⟩ := List.forall_mem_cons.1 h
      rw [List.map_cons, List.dropWhile_cons, List.dropWhile_cons, ha]
      split
      · exact ih hl
      · rfl

/-- Only the line's own width comes on the stack. -/
theorem subset_of_fit? (h : s.fit? w = some t) : t.widths ⊆ w :: s.widths := by
  cases hs : s.widths with
  | nil =>
      rw [Levels.fit?, hs, Option.some.injEq] at h
      exact h ▸ List.Subset.refl _
  | cons top rest =>
      simp only [Levels.fit?, hs] at h
      split at h
      · cases h
        exact List.Subset.refl _
      · split at h
        · cases h
          exact List.subset_cons_of_subset _ (List.dropWhile_sublist _).subset
        · cases h

section Map

variable {f : Nat → Nat} {widths : Set Nat}

theorem fit?_map (hf : StrictMonoOn f widths) (hs : ∀ x ∈ s.widths, x ∈ widths) (hw : w ∈ widths) :
    Levels.fit? ⟨s.widths.map f⟩ (f w) = (s.fit? w).map fun t => ⟨t.widths.map f⟩ := by
  have hdrop : (s.widths.map f).dropWhile (f w < ·) = (s.widths.dropWhile (w < ·)).map f :=
    dropWhile_map_of_forall fun x hx => decide_eq_decide.2 (hf.lt_iff_lt hw (hs x hx))
  have hhead : ((s.widths.dropWhile (w < ·)).map f).head? = some (f w) ↔
      (s.widths.dropWhile (w < ·)).head? = some w := by
    rw [List.head?_map, Option.map_eq_some_iff]
    constructor
    · rintro ⟨x, hx, hfx⟩
      have hmem : x ∈ s.widths := (List.dropWhile_sublist _).subset (List.mem_of_head? hx)
      rwa [hf.injOn (hs x hmem) hw hfx] at hx
    · exact fun h => ⟨w, h, rfl⟩
  cases hwidths : s.widths with
  | nil => simp [Levels.fit?, hwidths]
  | cons top rest =>
      have htop : f top < f w ↔ top < w := hf.lt_iff_lt (hs top (hwidths ▸ List.mem_cons_self)) hw
      rw [hwidths] at hdrop hhead
      rw [List.map_cons] at hdrop ⊢
      simp only [Levels.fit?, hwidths, hdrop, hhead, htop]
      split
      · rfl
      · split <;> rfl

theorem levelsOf_map (hf : StrictMonoOn f widths) (hs : ∀ x ∈ s.widths, x ∈ widths)
    (hws : ∀ w ∈ ws, w ∈ widths) : levelsOf ⟨s.widths.map f⟩ (ws.map f) = levelsOf s ws := by
  induction ws generalizing s with
  | nil => rfl
  | cons w ws ih =>
      obtain ⟨hw, hws⟩ := List.forall_mem_cons.1 hws
      rw [List.map_cons, levelsOf, levelsOf, fit?_map hf hs hw]
      cases hfit : s.fit? w with
      | none => exact congrArg _ (ih hs hws)
      | some t =>
          have ht : ∀ x ∈ t.widths, x ∈ widths := fun x hx =>
            List.forall_mem_cons.2 ⟨hw, hs⟩ x (subset_of_fit? hfit hx)
          have hlevel : Levels.level ⟨t.widths.map f⟩ = t.level := by simp [Levels.level]
          simp only [Option.map_some, hlevel, ih ht hws]

end Map

/-- Each width has an answer, told from the lines that were accepted before: whether it is accepted,
and at which level. A width that is refused changes no later answer. Levels rise step by step, and
widths in the same order have the same levels. -/
theorem levelsOf_outcome (ws : List Nat) :
    (levelsOf .empty ws).length = ws.length ∧
    (∀ w after, ∃ answer later,
      levelsOf .empty (ws ++ w :: after) = levelsOf .empty ws ++ answer :: later ∧
      (answer ≠ none ↔ Fits (placed ws) w) ∧
      (∀ n, answer = some n → HasLevel (placed ws) w n) ∧
      (answer = none → levelsOf .empty (ws ++ after) = levelsOf .empty ws ++ later)) ∧
    (placed ws).IsChain (fun x y => y.level ≤ x.level + 1) ∧
    ∀ f : Nat → Nat, StrictMonoOn f {w | w ∈ ws} →
      levelsOf .empty (ws.map f) = levelsOf .empty ws := by
  have htracks := tracks_run ws
  refine ⟨length_levelsOf _ _, fun w after => ?_, isChain_placed ws,
    fun f hf => levelsOf_map (s := .empty) hf (List.forall_mem_nil _) fun _ hw => hw⟩
  refine ⟨((Levels.empty.run ws).fit? w).map Levels.level,
    levelsOf (((Levels.empty.run ws).fit? w).getD (Levels.empty.run ws)) after, ?_, ?_,
    fun n hn => ?_, fun hnone => ?_⟩
  · rw [levelsOf_append, levelsOf_cons_eq]
  · rw [← htracks.fits_iff, ne_eq, Option.map_eq_none_iff]
  · obtain ⟨t, hfit, rfl⟩ := Option.map_eq_some_iff.1 hn
    exact htracks.hasLevel hfit
  · rw [levelsOf_append, Option.map_eq_none_iff.1 hnone, Option.getD_none]

/-- The line between two open levels is refused, and the next one has its level all the same; half
the widths give the same levels. -/
theorem levelsOf_outcome_between :
    let ws := [2, 4, 8]
    levelsOf .empty (ws ++ [6, 4]) = [some 0, some 1, some 2, none, some 1] ∧
      ¬Fits (placed ws) 6 ∧ HasLevel (placed ws) 4 1 ∧
      levelsOf .empty (ws ++ [4]) = [some 0, some 1, some 2, some 1] ∧
      levelsOf .empty (ws.map (· / 2)) = levelsOf .empty ws := by
  intro ws
  obtain ⟨-, hanswer, -, hmap⟩ := levelsOf_outcome ws
  have hrun : levelsOf .empty (ws ++ [6, 4]) = [some 0, some 1, some 2, none, some 1] := by decide
  have hwithout : levelsOf .empty (ws ++ [4]) = [some 0, some 1, some 2, some 1] := by decide
  have hhalf : ∀ v ∈ ws, ∀ w ∈ ws, v < w → v / 2 < w / 2 := by decide
  obtain ⟨answer, later, hsix, hfits, -, hrefused⟩ := hanswer 6 [4]
  obtain ⟨answer', later', hfour, -, hlevel, -⟩ := hanswer 4 []
  have hplaced : levelsOf .empty ws = [some 0, some 1, some 2] := by decide
  rw [hplaced] at hsix hfour hrefused
  obtain ⟨rfl, rfl⟩ : none = answer ∧ [some 1] = later := by simpa using hrun.symm.trans hsix
  obtain ⟨rfl, rfl⟩ : some 1 = answer' ∧ [] = later' := by simpa using hwithout.symm.trans hfour
  exact ⟨hrun, fun h => hfits.2 h rfl, hlevel 1 rfl, hrefused rfl,
    hmap _ fun v hv w hw => hhalf v hv w hw⟩

end NetHooks.Indentation
