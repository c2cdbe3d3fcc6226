import NetHooks.Indentation
import Mathlib.Data.List.TakeWhile

/-!
# Open levels

A level is open when its width lies on the stack over those of the enclosing lines, with
only wider ones after it (`Levels.Opens`). While wider lines come, it stays open; the first
line that is not wider and still inside the enclosing lines has exactly its width.
-/
namespace NetHooks.Indentation

/-- What a first pass drops, a pass that drops more need not see. -/
theorem dropWhile_dropWhile {α : Type} {p q : α → Bool} (h : ∀ a, p a = true → q a = true)
    (l : List α) : (l.dropWhile p).dropWhile q = l.dropWhile q := by
  induction l with
  | nil => rfl
  | cons a l ih =>
      by_cases ha : p a = true
      · rw [List.dropWhile_cons_of_pos ha, ih, List.dropWhile_cons_of_pos (h a ha)]
      · rw [List.dropWhile_cons_of_neg ha]

namespace Levels

variable {s t : Levels} {outer : List Nat} {w x : Nat}

/-- The level of width `w` over the widths `outer` is open, with deeper levels or without. -/
def Opens (s : Levels) (w : Nat) (outer : List Nat) : Prop :=
  ∃ inner, s.widths = inner ++ w :: outer ∧ ∀ x ∈ inner, w < x

theorem opens_of_widths (h : s.widths = w :: outer) : s.Opens w outer :=
  ⟨[], h, by simp⟩

theorem opens_self (w : Nat) (outer : List Nat) : Opens ⟨w :: outer⟩ w outer :=
  opens_of_widths rfl

/-- A line that fits is the innermost on the stack. -/
theorem widths_of_fit? (h : s.fit? w = some t) : ∃ outer, t.widths = w :: outer := by
  cases hs : s.widths with
  | nil =>
      simp only [fit?, hs, Option.some.injEq] at h
      exact ⟨[], h ▸ rfl⟩
  | cons top rest =>
      simp only [fit?, hs] at h
      split at h
      · exact ⟨top :: rest, (Option.some.inj h) ▸ rfl⟩
      · split at h
        next hhead =>
          cases h
          exact List.head?_eq_some_iff.1 hhead
        · cases h

theorem opens_of_fit? (h : s.fit? w = some t) : ∃ outer, t.Opens w outer ∧ t.level = outer.length := by
  obtain ⟨outer, hwidths⟩ := widths_of_fit? h
  exact ⟨outer, opens_of_widths hwidths, by simp [level, hwidths]⟩

/-- A line wider than the enclosing lines opens a level. -/
theorem fit?_of_wider (h : ∀ o ∈ outer.head?, o < w) : fit? ⟨outer⟩ w = some ⟨w :: outer⟩ := by
  cases outer with
  | nil => rfl
  | cons o outer => simp [fit?, h o rfl]

theorem Opens.eq_cons (h : s.Opens w outer) : ∃ top rest, s.widths = top :: rest ∧ w ≤ top := by
  obtain ⟨_ | ⟨top, inner⟩, hs, hwider⟩ := h
  · exact ⟨w, outer, hs, Nat.le_refl w⟩
  · exact ⟨top, inner ++ w :: outer, hs, Nat.le_of_lt (hwider top List.mem_cons_self)⟩

/-- For a line that is not wider than an open level, the deeper levels do not count. -/
theorem Opens.fit?_of_le (h : s.Opens w outer) (hx : x ≤ w) : s.fit? x =
    if ((w :: outer).dropWhile (x < ·)).head? = some x then
      some ⟨(w :: outer).dropWhile (x < ·)⟩ else none := by
  obtain ⟨top, rest, htop, hle⟩ := h.eq_cons
  obtain ⟨inner, hs, hwider⟩ := h
  have hdrop : s.widths.dropWhile (x < ·) = (w :: outer).dropWhile (x < ·) := by
    rw [hs, List.dropWhile_append_of_pos]
    intro y hy
    have := hwider y hy
    exact decide_eq_true (by omega)
  rw [← hdrop, fit?, htop]
  simp only [show ¬top < x by omega, if_false]

/-- A line of the same width returns to the level. -/
theorem Opens.fit?_self (h : s.Opens w outer) : s.fit? w = some ⟨w :: outer⟩ := by
  simp [h.fit?_of_le (Nat.le_refl w)]

/-- Between the width of a level and that of its enclosing line no other width fits. -/
theorem Opens.eq_of_fit? (h : s.Opens w outer) (hx : x ≤ w) (houter : ∀ o ∈ outer.head?, o < x)
    (hfit : s.fit? x = some t) : x = w := by
  rw [h.fit?_of_le hx] at hfit
  by_contra hne
  have hlt : x < w := Nat.lt_of_le_of_ne hx hne
  cases outer with
  | nil => simp [hlt] at hfit
  | cons o outer =>
      have ho : o < x := houter o rfl
      simp [hlt, Nat.not_lt.2 (Nat.le_of_lt ho), Nat.ne_of_lt ho] at hfit

/-- A wider line leaves the level open, and lies deeper. -/
theorem Opens.fit?_of_lt (h : s.Opens w outer) (hx : w < x) (hfit : s.fit? x = some t) :
    t.Opens w outer ∧ outer.length < t.level := by
  obtain ⟨top, rest, htop, -⟩ := h.eq_cons
  obtain ⟨inner, hs, hwider⟩ := h
  -- Whatever is dropped for `x` is dropped from the levels after `w`.
  obtain ⟨kept, ht, hkept⟩ : ∃ kept, t.widths = kept ++ w :: outer ∧
      ∀ y ∈ kept, w < y := by
    simp only [fit?, htop] at hfit
    split at hfit
    · refine ⟨x :: inner, ?_, ?_⟩
      · rw [← Option.some.inj hfit, List.cons_append, ← hs, htop]
      · simpa [hx] using hwider
    · split at hfit
      · refine ⟨inner.dropWhile (x < ·), ?_, fun y hy => hwider y ((List.dropWhile_sublist _).subset hy)⟩
        rw [← Option.some.inj hfit, ← htop, hs, List.dropWhile_append]
        split
        next hnil =>
          rw [List.isEmpty_iff.1 hnil, List.dropWhile_cons, if_neg (by simp; omega), List.nil_append]
        · rfl
      · cases hfit
  refine ⟨⟨kept, ht, hkept⟩, ?_⟩
  cases kept with
  | nil =>
      obtain ⟨_, hx'⟩ := widths_of_fit? hfit
      have : w = x := by simpa [ht] using congrArg List.head? hx'
      omega
  | cons y kept =>
      simp only [level, ht, List.cons_append, List.length_cons, List.length_append]
      omega

/-- Whatever fits after a line of width `w` and is not wider fits before it as well. -/
theorem fit?_of_fit? {u : Levels} (h : s.fit? w = some t) (hx : x ≤ w) (hu : t.fit? x = some u) :
    s.fit? x = some u := by
  obtain ⟨outer, hwidths⟩ := widths_of_fit? h
  rw [(opens_of_widths hwidths).fit?_of_le hx, ← hwidths] at hu
  cases hs : s.widths with
  | nil =>
      simp only [fit?, hs, Option.some.injEq] at h ⊢
      subst h
      by_cases hxw : x < w
      · simp [hxw] at hu
      · simpa [hxw, Nat.le_antisymm hx (Nat.le_of_not_lt hxw)] using hu
  | cons top rest =>
      simp only [fit?, hs] at h ⊢
      split at h
      next htop =>
        obtain rfl := Option.some.inj h
        by_cases hxw : x < w
        · have hdrop : (w :: top :: rest).dropWhile (x < ·) = (top :: rest).dropWhile (x < ·) := by
            simp [hxw]
          rw [hdrop] at hu
          by_cases hxt : top < x
          · simp [Nat.lt_asymm hxt, Nat.ne_of_lt hxt] at hu
          · rwa [if_neg hxt]
        · obtain rfl : x = w := Nat.le_antisymm hx (Nat.le_of_not_lt hxw)
          rw [if_pos htop]
          simpa using hu
      next htop =>
        split at h
        · obtain rfl := Option.some.inj h
          rw [dropWhile_dropWhile fun y hy => by simp only [decide_eq_true_eq] at *; omega] at hu
          rwa [if_neg (by omega)]
        · cases h

/-- A line that is not wider than an open level is not deeper. -/
theorem Opens.level_le (h : s.Opens w outer) (hx : x ≤ w) (hfit : s.fit? x = some t) :
    t.level ≤ outer.length := by
  rw [h.fit?_of_le hx] at hfit
  split at hfit
  · obtain rfl := Option.some.inj hfit
    have := List.length_dropWhile_le (fun y => decide (x < y)) (w :: outer)
    simp only [level, List.length_cons] at *
    omega
  · cases hfit

/-- A line is at most one level deeper than the line before it. -/
theorem level_le_succ (h : s.fit? w = some t) : t.level ≤ s.level + 1 := by
  cases hs : s.widths with
  | nil =>
      simp only [fit?, hs, Option.some.injEq] at h
      simp [← h, level]
  | cons top rest =>
      simp only [fit?, hs] at h
      split at h
      · simp [← Option.some.inj h, level, hs]
      · split at h
        · have := List.length_dropWhile_le (fun y => decide (w < y)) (top :: rest)
          simp only [← Option.some.inj h, level, hs]
          omega
        · cases h

theorem levelsOf_cons (h : s.fit? w = some t) (ws : List Nat) :
    levelsOf s (w :: ws) = some t.level :: levelsOf t ws := by
  simp [levelsOf, h]

end Levels

end NetHooks.Indentation
