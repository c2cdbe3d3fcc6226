import NetHooks.Proofs.Source.Alike
import NetHooks.Proofs.Source.SingleFile

/-!
# The lines of a file in the place of its include line

Put in the place of the line that includes a file, with their widths moved along
(`LogicalLine.reindent`), the lines of the file are read as they are from the file
(`Memory.readOn_reindent`). What they leave counts alike for every line that is not wider than
the include line (`Interchangeable`).
-/
namespace NetHooks

open Feed (standing isHidden)
open Indentation (Levels)

/-! ### Levels -/

namespace Indentation.Levels

variable {s s' t : Levels} {outer : List Nat} {first w x : Nat}

/-- The levels of a file whose first line is as wide as `first`, moved to width `w` inside the
levels `outer`. -/
structure Moved (first w : Nat) (outer : List Nat) (s s' : Levels) : Prop where
  opens : s.Opens first []
  widths_eq : s'.widths = s.widths.map (w + · - first) ++ outer

theorem Moved.opens_moved (h : Moved first w outer s s') : s'.Opens w outer := by
  obtain ⟨inner, hs, hwider⟩ := h.opens
  refine ⟨inner.map (w + · - first), ?_, fun y hy => ?_⟩
  · simp [h.widths_eq, hs]
  · obtain ⟨x, hx, rfl⟩ := List.mem_map.1 hy
    have := hwider x hx
    omega

theorem Moved.level_eq (h : Moved first w outer s s') : s'.level = s.level + outer.length := by
  obtain ⟨top, rest, hs, -⟩ := h.opens.eq_cons
  simp only [level, h.widths_eq, hs, List.map_cons, List.cons_append, List.length_cons,
    List.length_append, List.length_map]
  omega

/-- Widths that move along are passed over alike. -/
theorem dropWhile_moved (hx : first ≤ x) {widths : List Nat}
    (hkept : widths.dropWhile (x < ·) ≠ []) (outer : List Nat) :
    (widths.map (w + · - first) ++ outer).dropWhile (w + x - first < ·) =
      (widths.dropWhile (x < ·)).map (w + · - first) ++ outer := by
  have hlt : ((fun y => decide (w + x - first < y)) ∘ fun y => w + y - first) =
      fun y => decide (x < y) := by
    funext y
    exact decide_eq_decide.2 (by dsimp only; omega)
  rw [List.dropWhile_append, List.dropWhile_map, hlt, if_neg (by simpa using hkept)]

/-- A width that fits in the file fits where it is moved to. -/
theorem Moved.fit? (h : Moved first w outer s s') (hfit : s.fit? x = some t) :
    ∃ t', s'.fit? (w + x - first) = some t' ∧ Moved first w outer t t' := by
  have hx : first ≤ x := by
    by_contra hlt
    rw [h.opens.fit?_of_le (Nat.le_of_not_le hlt)] at hfit
    simp [Nat.lt_of_not_le hlt] at hfit
  have hopens : t.Opens first [] := by
    rcases Nat.eq_or_lt_of_le hx with rfl | hlt
    · rw [h.opens.fit?_self] at hfit
      exact Option.some.inj hfit ▸ opens_self first []
    · exact (h.opens.fit?_of_lt hlt hfit).1
  obtain ⟨top, rest, htop, hle⟩ := h.opens.eq_cons
  have hwidths := h.widths_eq
  simp only [Levels.fit?, htop, List.map_cons, List.cons_append] at hfit hwidths ⊢
  simp only [hwidths]
  split at hfit
  next hwider =>
    obtain rfl := Option.some.inj hfit
    rw [if_pos (by omega)]
    exact ⟨_, rfl, hopens, by simp⟩
  next hwider =>
    split at hfit
    next hhead =>
      obtain rfl := Option.some.inj hfit
      have hkept : (top :: rest).dropWhile (x < ·) ≠ [] := by
        rintro hnil
        simp [hnil] at hhead
      have hdrop := @dropWhile_moved first w x hx _ hkept outer
      rw [List.map_cons, List.cons_append] at hdrop
      rw [if_neg (by omega), hdrop, List.head?_append, List.head?_map, hhead]
      exact ⟨_, by simp, hopens, rfl⟩
    · cases hfit

end Indentation.Levels

/-! ### Lines -/

namespace LogicalLine

/-- The line moved as `first` is moved to `w`. -/
def moved (first w : Nat) (line : LogicalLine) : LogicalLine :=
  { line with width := w + line.width - first }

/-- Lines of a file put in the place of a line of width `w`: the first has its width, and the
others move along. -/
def reindent (w : Nat) : List LogicalLine → List LogicalLine
  | [] => []
  | first :: rest => (first :: rest).map (moved first.width w)

/-- The lines of texts after one another, each text put in the place of a line of width `w`. -/
def inlined (w : Nat) (texts : List String) : List LogicalLine :=
  texts.flatMap fun text => reindent w (logicalLines text)

theorem exists_of_mem_reindent {w : Nat} {x : LogicalLine} {xs : List LogicalLine}
    (h : x ∈ reindent w xs) : ∃ y ∈ xs, x.keyword = y.keyword := by
  cases xs with
  | nil => cases h
  | cons first rest =>
      obtain ⟨y, hy, rfl⟩ := List.mem_map.1 h
      exact ⟨y, hy, rfl⟩

end LogicalLine

namespace Memory

variable {path file : String} {level first w : Nat} {outer : List Nat} {s s' t t' levels : Levels}
  {m m' after : Memory} {line line' : LogicalLine} {l l' : Location} {o : Option Line}
  {xs : List LogicalLine} {lines : List Line}

/-- A line is heeded alike in another place. -/
theorem heed_relocate (r : Location → Location) (m : Memory) (level : Nat) (line : LogicalLine)
    (l : Location) : m.heed level line (r l) =
      relocated r (Prod.map (Option.map (Line.relocate r)) id) (m.heed level line l) := by
  simp only [heed, Directive.read_relocate]
  split
  · rfl
  · cases Directive.read line.keyword line.text l with
    | error e => rfl
    | ok d? =>
        cases d? with
        | some d => rfl
        | none =>
            simp only [relocated_ok, id]
            cases m.definitions.substitute line.text <;> rfl

theorem exists_heed (htext : line'.text = line.text)
    (h : m.heed level line l = .ok (o, after)) :
    ∃ o', m.heed level line' l' = .ok (o', after) ∧ Line.AlikeAll o.toList o'.toList := by
  have hsame : m.heed level line' l' = m.heed level line l' := by
    simp only [heed, LogicalLine.keyword, htext]
  refine ⟨o.map (Line.relocate fun _ => l'), ?_, ?_⟩
  · rw [hsame, heed_relocate (fun _ => l') m level line l, h]
    rfl
  · cases o <;> rfl

/-- The definitions and the guards that stand over a line are all that counts for it. -/
theorem heed_congr (hdefinitions : m'.definitions = m.definitions)
    (hstanding : standing m'.guards level = standing m.guards level) :
    m'.heed level line l = m.heed level line l := by
  simp only [heed, hdefinitions, hstanding]

/-- Lines that are moved inside the levels `outer` are read as at their number for offset. -/
theorem readOn_moved (hmoved : Levels.Moved first w outer s s')
    (h : m.readOn file outer.length s xs = .ok (lines, levels, after)) :
    ∃ lines' levels', m.readOn path 0 s' (xs.map (LogicalLine.moved first w)) =
        .ok (lines', levels', after) ∧
      levels'.Opens w outer ∧ Line.AlikeAll lines lines' := by
  induction xs generalizing s s' m lines with
  | nil =>
      obtain ⟨rfl, rfl, rfl⟩ := readOn_nil_eq_ok.1 h
      exact ⟨[], s', rfl, hmoved.opens_moved, rfl⟩
  | cons x xs ih =>
      obtain ⟨t, o, between, more, hfit, hheed, hmore, rfl⟩ := readOn_cons_eq_ok.1 h
      obtain ⟨t', hfit', hmoved'⟩ := hmoved.fit? hfit
      obtain ⟨o', hheed', ho⟩ := @exists_heed _ _ _ x (x.moved first w) _ ⟨path, x.number⟩ _ rfl hheed
      obtain ⟨more', levels', hmore', hopens, halike⟩ := ih hmoved' hmore
      have hlevel : outer.length + t.level = 0 + t'.level := by
        rw [hmoved'.level_eq]
        omega
      exact ⟨o'.toList ++ more', levels', readOn_cons_eq_ok.2
        ⟨t', o', between, more', hfit', hlevel ▸ hheed', hmore', rfl⟩, hopens, ho.append halike⟩

end Memory

/-! ### What lines leave -/

/-- What counts for a line that is not wider than `w` is the same, after other lines. -/
structure Interchangeable (w : Nat) (t : Levels) (m : Memory) (t' : Levels) (m' : Memory) : Prop where
  definitions_eq : m'.definitions = m.definitions
  standing_eq : ∀ level ≤ t.level, standing m'.guards level = standing m.guards level
  fits : ∀ x ≤ w, ∀ u, t.fit? x = some u → t'.fit? x = some u

namespace Interchangeable

variable {path file : String} {w : Nat} {outer : List Nat} {t t' levels : Levels}
  {m m' after : Memory} {xs : List LogicalLine} {lines : List Line}

/-- An include line leaves nothing that counts but the files that it names. -/
theorem of_fit? (h : t'.fit? w = some t) :
    Interchangeable w t { m with guards := standing m.guards t.level } t' m where
  definitions_eq := rfl
  standing_eq _ hle := (Feed.standing_standing hle m.guards).symm
  fits _ hx _ hfit := Levels.fit?_of_fit? h hx hfit

/-- The lines of a file leave the same when they are put in the place of a line of width
`w`. -/
theorem readOn_reindent (h : Interchangeable w t m t' m') (hwidths : t.widths = w :: outer)
    (hread : m.readOn file t.level .empty xs = .ok (lines, levels, after)) :
    ∃ lines' u after', m'.readOn path 0 t' (LogicalLine.reindent w xs) = .ok (lines', u, after') ∧
      Interchangeable w t after u after' ∧ Line.AlikeAll lines lines' := by
  cases xs with
  | nil =>
      obtain ⟨rfl, -, rfl⟩ := Memory.readOn_nil_eq_ok.1 hread
      exact ⟨[], t', m', rfl, h, rfl⟩
  | cons first rest =>
      have hopens : t.Opens w outer := Levels.opens_of_widths hwidths
      have hlevel : t.level = outer.length := by simp [Levels.level, hwidths]
      obtain ⟨s, o, between, more, hfit, hheed, hmore, rfl⟩ := Memory.readOn_cons_eq_ok.1 hread
      obtain rfl : ⟨[first.width]⟩ = s := Option.some.inj hfit
      have hself : t'.fit? (first.moved first.width w).width = some t := by
        rw [LogicalLine.moved, Nat.add_sub_cancel]
        exact h.fits w (Nat.le_refl w) t (by rw [hopens.fit?_self, ← hwidths])
      -- The first line has the level of the include line, and the same guards over it.
      obtain ⟨o', hheed', ho⟩ := @Memory.exists_heed _ _ _ first (first.moved first.width w) _
        ⟨path, first.number⟩ _ rfl hheed
      have hfirst : m'.heed (0 + t.level) (first.moved first.width w) ⟨path, first.number⟩ =
          .ok (o', between) := by
        rw [Nat.zero_add, Memory.heed_congr h.definitions_eq (h.standing_eq _ (Nat.le_refl _))]
        exact hheed'
      have hmoved : Levels.Moved first.width w outer ⟨[first.width]⟩ t :=
        ⟨Levels.opens_self _ _, by simp [hwidths]⟩
      obtain ⟨more', u, hmore', hu, halike⟩ :=
        @Memory.readOn_moved path _ _ _ _ _ _ _ _ _ _ _ hmoved (hlevel ▸ hmore)
      refine ⟨o'.toList ++ more', u, after, Memory.readOn_cons_eq_ok.2
        ⟨t, o', between, more', hself, hfirst, hmore', rfl⟩, ⟨rfl, fun _ _ => rfl, ?_⟩,
        ho.append halike⟩
      intro x hx v hv
      rwa [hu.fit?_of_le hx, ← hopens.fit?_of_le hx]

end Interchangeable

end NetHooks
