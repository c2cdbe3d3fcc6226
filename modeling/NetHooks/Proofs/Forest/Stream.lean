import NetHooks.Proofs.Forest
import Mathlib.Data.List.Chain

/-!
# The forest of a stream

Lines make a forest when they descend step by step: the first stands at level zero, and each
at most one level below the line before it (`Stepwise`). The forest then lists the lines in
their order, each at the depth that is its level; otherwise the first line that breaks the
descent is the error (`ofStream_flatten`).
-/
namespace NetHooks.Forest

variable {f : Forest} {n : Nat} {l x : Line} {xs : List Line} {s : Feed.Stream}

/-! ### Descending step by step -/

/-- The first line stands at the top, and each at most one level below the line before it. -/
structure Stepwise (lines : List Line) : Prop where
  head : ∀ l ∈ lines.head?, l.level = 0
  chain : lines.IsChain fun x y => y.level ≤ x.level + 1

theorem firstMisplaced?_eq_none_iff :
    firstMisplaced? n xs = none ↔
      (∀ l ∈ xs.head?, l.level ≤ n) ∧ xs.IsChain fun x y => y.level ≤ x.level + 1 := by
  induction xs generalizing n with
  | nil => simp [firstMisplaced?]
  | cons x xs ih =>
      rw [firstMisplaced?, List.isChain_cons]
      by_cases hx : n < x.level
      · simp [hx]
      · simp [hx, ih, Nat.le_of_not_lt hx]

theorem stepwise_iff : Stepwise xs ↔ firstMisplaced? 0 xs = none := by
  rw [firstMisplaced?_eq_none_iff]
  exact ⟨fun h => ⟨fun l hl => Nat.le_of_eq (h.head l hl), h.chain⟩,
    fun h => ⟨fun l hl => Nat.le_zero.1 (h.1 l hl), h.2⟩⟩

/-- The misplaced line is found after lines among which none is. -/
theorem firstMisplaced?_eq_some_iff :
    firstMisplaced? n xs = some x ↔
      ∃ before after, xs = before ++ x :: after ∧ firstMisplaced? n before = none ∧
        firstMisplaced? n (before ++ [x]) ≠ none := by
  induction xs generalizing n with
  | nil => simp [firstMisplaced?]
  | cons y xs ih =>
      rw [firstMisplaced?]
      split
      next hy =>
        constructor
        · rintro ⟨⟩
          exact ⟨[], xs, rfl, rfl, by simp [firstMisplaced?, hy]⟩
        · rintro ⟨before, after, heq, hbefore, -⟩
          rcases List.cons_eq_append_iff.1 heq with ⟨rfl, hx⟩ | ⟨rest, rfl, -⟩
          · rw [(List.cons.inj hx).1]
          · simp [firstMisplaced?, hy] at hbefore
      next hy =>
        rw [ih]
        constructor
        · rintro ⟨before, after, rfl, hbefore, hx⟩
          exact ⟨y :: before, after, rfl, by simpa [firstMisplaced?, hy] using hbefore,
            by simpa [firstMisplaced?, hy] using hx⟩
        · rintro ⟨before, after, heq, hbefore, hx⟩
          rcases List.cons_eq_append_iff.1 heq with ⟨rfl, hcons⟩ | ⟨rest, rfl, rfl⟩
          · obtain ⟨rfl, -⟩ := List.cons.inj hcons
            simp [firstMisplaced?, hy] at hx
          · exact ⟨rest, after, rfl, by simpa [firstMisplaced?, hy] using hbefore,
              by simpa [firstMisplaced?, hy] using hx⟩

/-! ### Levels of the forest that is built -/

/-- The roots are at most as deep as the limit and as the root before, and the lines under a
root have their depth below it for their level. -/
inductive Sloped : Nat → Forest → Prop
  | nil {n : Nat} : Sloped n []
  | cons {n : Nat} {l : Line} {cs ts : Forest} (hl : l.level ≤ n)
      (hcs : Leveled (l.level + 1) cs) (hts : Sloped l.level ts) : Sloped n (.node l cs :: ts)

/-- Of the roots one level below a line, the first ones are its children and the others may
follow it. -/
theorem Sloped.split (h : Sloped (n + 1) f) :
    Leveled (n + 1) (f.takeWhile (n < ·.level)) ∧ Sloped n (f.dropWhile (n < ·.level)) := by
  generalize hm : n + 1 = m at h
  induction h with
  | nil => exact ⟨leveled_nil, .nil⟩
  | @cons m l cs ts hl hcs hts ih =>
      subst hm
      by_cases hdeep : n < l.level
      · have hlevel : l.level = n + 1 := by omega
        rw [hlevel] at hcs ih
        obtain ⟨htake, hdrop⟩ := ih rfl
        simp only [List.takeWhile_cons, List.dropWhile_cons, Tree.level_node, hdeep, decide_true,
          if_true]
        exact ⟨leveled_cons.2 ⟨hlevel, hcs, htake⟩, hdrop⟩
      · simp only [List.takeWhile_cons, List.dropWhile_cons, Tree.level_node, hdeep, decide_false,
          Bool.false_eq_true, if_false]
        exact ⟨leveled_nil, .cons (Nat.le_of_not_lt hdeep) hcs hts⟩

theorem Sloped.graft (hl : l.level ≤ n) (h : Sloped (l.level + 1) f) :
    Sloped n (Forest.graft l f) :=
  .cons hl h.split.1 h.split.2

theorem sloped_ofLines (h : firstMisplaced? n xs = none) : Sloped n (ofLines xs) := by
  induction xs generalizing n with
  | nil => exact .nil
  | cons x xs ih =>
      rw [firstMisplaced?] at h
      split at h
      · cases h
      next hx => exact .graft (Nat.le_of_not_lt hx) (ih h)

theorem Sloped.leveled (h : Sloped 0 f) : Leveled 0 f := by
  generalize hn : 0 = n at h
  induction h with
  | nil => exact leveled_nil
  | @cons n l cs ts hl hcs hts ih =>
      have hlevel : l.level = n := by omega
      exact leveled_cons.2 ⟨hlevel, hlevel ▸ hcs, hlevel ▸ ih (by omega)⟩

theorem leveled_ofLines (h : firstMisplaced? 0 xs = none) : Leveled 0 (ofLines xs) :=
  (sloped_ofLines h).leveled

/-! ### Depths -/

/-- A forest lists its lines at the depths that are their levels when these are the depths. -/
theorem flatten_eq_iff :
    f.flatten = xs.map (fun l => (l.level, l)) ↔ Leveled 0 f ∧ f.lines = xs := by
  have hlines : f.lines = f.flatten.map (·.2) := by
    simp [lines, subtrees, flatten, List.map_map, Function.comp_def]
  constructor
  · intro h
    refine ⟨fun p hp => ?_, by simp [hlines, h, List.map_map, Function.comp_def]⟩
    have hmem : (p.1, p.2.line) ∈ f.flatten := List.mem_map.2 ⟨p, hp, rfl⟩
    rw [h] at hmem
    obtain ⟨l, -, hl⟩ := List.mem_map.1 hmem
    obtain ⟨hdepth, rfl⟩ := Prod.mk.inj hl
    exact hdepth
  · rintro ⟨hlevel, rfl⟩
    rw [hlines, List.map_map, flatten, List.map_map]
    refine List.map_congr_left fun p hp => ?_
    exact Prod.ext (hlevel p hp).symm rfl

theorem Leveled.level_of_mem_children (h : Leveled n f) :
    ∀ t ∈ f.subtrees, ∀ c ∈ t.children, c.level = t.level + 1 := by
  induction f using induction generalizing n with
  | nil => simp
  | cons l cs ts ihChildren ihRest =>
      obtain ⟨hl, hcs, hts⟩ := leveled_cons.1 h
      intro t ht
      rw [subtrees_cons, List.mem_cons, List.mem_append] at ht
      rcases ht with rfl | ht | ht
      · exact fun c hc => (hcs.level_eq c hc).trans (by rw [Tree.level_node, hl])
      · exact ihChildren hcs t ht
      · exact ihRest hts t ht

/-! ### Streams -/

/-- A stream gives the forest that lists its lines in their order at the depths of their
levels. -/
theorem ofStream_eq_ok_iff :
    ofStream s = .ok f ↔ s.failure = none ∧ f.flatten = s.lines.map fun l => (l.level, l) := by
  rw [ofStream_eq_ok, flatten_eq_iff]
  constructor
  · rintro ⟨hplaced, hfailure, rfl⟩
    exact ⟨hfailure, leveled_ofLines hplaced, lines_ofLines s.lines⟩
  · rintro ⟨hfailure, hlevel, hlines⟩
    rw [← hlines]
    exact ⟨hlevel.placed.none_misplaced, hfailure, (ofLines_lines hlevel).symm⟩

theorem ofStream_eq_error_iff {e : SourceError} :
    ofStream s = .error e ↔
      (Stepwise s.lines ∧ s.failure = some e) ∨
      ∃ before x after, s.lines = before ++ x :: after ∧ Stepwise before ∧
        ¬Stepwise (before ++ [x]) ∧ e = .unexpectedNesting x.location := by
  simp only [stepwise_iff]
  rw [ofStream]
  cases hplaced : firstMisplaced? 0 s.lines with
  | none =>
      have hnone : ¬∃ before x after, s.lines = before ++ x :: after ∧
          firstMisplaced? 0 before = none ∧ ¬firstMisplaced? 0 (before ++ [x]) = none ∧
          e = .unexpectedNesting x.location := by
        rintro ⟨before, x, after, hlines, hbefore, hx, -⟩
        rw [firstMisplaced?_eq_some_iff.2 ⟨before, after, hlines, hbefore, hx⟩] at hplaced
        cases hplaced
      rw [or_iff_left hnone]
      cases s.failure <;> simp
  | some y =>
      constructor
      · rintro ⟨⟩
        obtain ⟨before, after, hlines, hbefore, hy⟩ := firstMisplaced?_eq_some_iff.1 hplaced
        exact .inr ⟨before, y, after, hlines, hbefore, hy, rfl⟩
      · rintro (⟨⟨⟩, -⟩ | ⟨before, x, after, hlines, hbefore, hx, rfl⟩)
        rw [firstMisplaced?_eq_some_iff.2 ⟨before, after, hlines, hbefore, hx⟩] at hplaced
        cases hplaced
        rfl

/-- A stream becomes a forest exactly when it ends without an error and its lines descend
step by step; the error is otherwise that of the first line that does not, or the one the
stream ended with. The forest lists exactly the lines of the stream, at the depths of their
levels. -/
theorem ofStream_flatten (s : Feed.Stream) :
    ((∃ f, ofStream s = .ok f) ↔ Stepwise s.lines ∧ s.failure = none) ∧
    (∀ e, ofStream s = .error e ↔
      (Stepwise s.lines ∧ s.failure = some e) ∨
      ∃ before x after, s.lines = before ++ x :: after ∧ Stepwise before ∧
        ¬Stepwise (before ++ [x]) ∧ e = .unexpectedNesting x.location) ∧
    ∀ f, ofStream s = .ok f →
      f.flatten = s.lines.map (fun l => (l.level, l)) ∧
      (∀ t ∈ f, t.level = 0) ∧
      ∀ t ∈ f.subtrees, ∀ c ∈ t.children, c.level = t.level + 1 := by
  refine ⟨?_, fun e => ofStream_eq_error_iff, fun f hf => ?_⟩
  · simp [ofStream_eq_ok, stepwise_iff]
  · have hflatten := (ofStream_eq_ok_iff.1 hf).2
    have hlevel : Leveled 0 f := (flatten_eq_iff.1 hflatten).1
    exact ⟨hflatten, hlevel.level_eq, hlevel.level_of_mem_children⟩

/-- Two files, and a jump back over two levels. -/
theorem ofStream_flatten_jump :
    let line (level : Nat) (content file : String) : Line := ⟨level, content, ⟨file, 1⟩⟩
    let lines := [line 0 "a" "f", line 1 "b" "f", line 2 "c" "g", line 0 "d" "f"]
    ∃ f, ofStream ⟨lines, none⟩ = .ok f ∧ f.flatten = lines.map (fun l => (l.level, l)) := by
  intro line lines
  have hsteps : Stepwise lines := ⟨by decide +kernel, by decide +kernel⟩
  obtain ⟨f, hf⟩ := (ofStream_flatten ⟨lines, none⟩).1.2 ⟨hsteps, rfl⟩
  exact ⟨f, hf, ((ofStream_flatten ⟨lines, none⟩).2.2 f hf).1⟩

end NetHooks.Forest
