import NetHooks.Forest
import Mathlib.Data.List.TakeWhile

/-!
# Forests of lines

A forest whose levels are the depths is built from its own lines (`Forest.ofLines_lines`),
and these are placed (`Forest.Placed`): none of them is deeper than one level below the line
before it. In the forest of any lines, a line stands under the nearest line before it that is
less deep (`Forest.parent_ofLines`).
-/
namespace NetHooks

@[simp] theorem Tree.line_node (l : Line) (cs : List Tree) : (Tree.node l cs).line = l := rfl

@[simp] theorem Tree.children_node (l : Line) (cs : List Tree) :
    (Tree.node l cs).children = cs := rfl

@[simp] theorem Tree.level_node (l : Line) (cs : List Tree) :
    (Tree.node l cs).level = l.level := rfl

namespace Forest

/-- Induction over the children of the first tree and the trees after it. -/
theorem induction {motive : Forest → Prop} (nil : motive [])
    (cons : ∀ l cs ts, motive cs → motive ts → motive (.node l cs :: ts)) :
    ∀ f : Forest, motive f
  | [] => nil
  | .node l cs :: ts => cons l cs ts (induction nil cons cs) (induction nil cons ts)
  termination_by f => sizeOf f

/-! ### Trees in a forest -/

/-- All trees in the forest, each before its children. -/
def subtrees (f : Forest) : List Tree :=
  (Tree.preorderAll 0 f).map (·.2)

theorem map_snd_preorderAll (n : Nat) (f : Forest) :
    (Tree.preorderAll n f).map (·.2) = f.subtrees := by
  rw [subtrees]
  generalize 0 = m
  induction f using induction generalizing n m with
  | nil => rfl
  | cons l cs ts ihChildren ihRest =>
      simp [Tree.preorderAll, Tree.preorder, ihChildren (n + 1) (m + 1), ihRest n m]

@[simp] theorem subtrees_nil : subtrees [] = [] := rfl

@[simp] theorem subtrees_cons (l : Line) (cs ts : Forest) :
    subtrees (.node l cs :: ts) = .node l cs :: (subtrees cs ++ subtrees ts) := by
  rw [← map_snd_preorderAll 0, ← map_snd_preorderAll 1 cs, ← map_snd_preorderAll 0 ts]
  simp [Tree.preorderAll, Tree.preorder]

@[simp] theorem subtrees_append (f g : Forest) : subtrees (f ++ g) = subtrees f ++ subtrees g := by
  induction f using induction with
  | nil => rfl
  | cons l cs ts _ ih =>
      rw [List.cons_append, subtrees_cons, subtrees_cons, ih]
      simp

/-- The lines of the forest from top to bottom. -/
def lines (f : Forest) : List Line :=
  f.subtrees.map Tree.line

@[simp] theorem lines_nil : lines [] = [] := rfl

@[simp] theorem lines_cons (l : Line) (cs ts : Forest) :
    lines (.node l cs :: ts) = l :: (lines cs ++ lines ts) := by
  simp [lines]

@[simp] theorem lines_append (f g : Forest) : lines (f ++ g) = lines f ++ lines g := by
  simp [lines]

/-- The line stands right above the other. -/
def Parent (f : Forest) (x y : Line) : Prop :=
  ∃ t ∈ f.subtrees, t.line = x ∧ ∃ c ∈ t.children, c.line = y

/-! ### Levels and depths -/

/-- Every line has its depth for its level, when the roots stand at depth `n`. -/
def Leveled (n : Nat) (f : Forest) : Prop :=
  ∀ p ∈ Tree.preorderAll n f, p.2.level = p.1

variable {f g : Forest} {n m : Nat} {l x y : Line} {xs ys more : List Line}

@[simp] theorem leveled_nil : Leveled n [] := by simp [Leveled, Tree.preorderAll]

@[simp] theorem leveled_cons {cs ts : Forest} :
    Leveled n (.node l cs :: ts) ↔ l.level = n ∧ Leveled (n + 1) cs ∧ Leveled n ts := by
  simp only [Leveled, Tree.preorderAll, Tree.preorder, List.cons_append, List.forall_mem_cons,
    List.forall_mem_append, Tree.level_node]

@[simp] theorem leveled_append : Leveled n (f ++ g) ↔ Leveled n f ∧ Leveled n g := by
  induction f using induction with
  | nil => simp
  | cons l cs ts _ ih =>
      rw [List.cons_append, leveled_cons, leveled_cons, ih]
      simp only [and_assoc]

theorem Leveled.level_eq (h : Leveled n f) : ∀ t ∈ f, t.level = n := by
  induction f using induction with
  | nil => simp
  | cons l cs ts _ ih =>
      rw [leveled_cons] at h
      simpa [h.1] using ih h.2.2

/-- The lines can stand under a line at the level above `n`. -/
structure Placed (n : Nat) (lines : List Line) : Prop where
  none_misplaced : firstMisplaced? n lines = none
  le_level : ∀ l ∈ lines, n ≤ l.level

theorem placed_nil : Placed n [] := ⟨rfl, by simp⟩

theorem firstMisplaced?_mono (h : n ≤ m) (hxs : firstMisplaced? n xs = none) :
    firstMisplaced? m xs = none := by
  cases xs with
  | nil => rfl
  | cons x xs =>
      simp only [firstMisplaced?] at *
      split at hxs
      · cases hxs
      · rwa [if_neg (by omega)]

theorem Placed.cons (hl : l.level = n) (h : Placed (n + 1) xs) : Placed n (l :: xs) := by
  refine ⟨?_, ?_⟩
  · rw [firstMisplaced?, if_neg (by omega), hl]
    exact h.none_misplaced
  · intro x hx
    rcases List.mem_cons.1 hx with rfl | hx
    · exact Nat.le_of_eq hl.symm
    · exact Nat.le_of_succ_le (h.le_level x hx)

/-- What can stand at a level can stand there after deeper lines. -/
theorem firstMisplaced?_append (hxs : firstMisplaced? m xs = none) (hnm : n ≤ m)
    (hlevel : ∀ l ∈ xs, n ≤ l.level) (hys : firstMisplaced? n ys = none) :
    firstMisplaced? m (xs ++ ys) = none := by
  induction xs generalizing m with
  | nil => exact firstMisplaced?_mono hnm hys
  | cons x xs ih =>
      simp only [List.cons_append, firstMisplaced?] at *
      split at hxs
      · cases hxs
      next hx =>
        rw [if_neg hx]
        exact ih hxs (Nat.le_succ_of_le (hlevel x List.mem_cons_self))
          fun l hl => hlevel l (List.mem_cons_of_mem _ hl)

theorem Placed.append (hxs : Placed n xs) (hys : Placed n ys) : Placed n (xs ++ ys) := by
  refine ⟨firstMisplaced?_append hxs.none_misplaced (Nat.le_refl n) hxs.le_level
    hys.none_misplaced, ?_⟩
  simpa [or_imp, forall_and] using ⟨hxs.le_level, hys.le_level⟩

/-- A line that lies too deep after the line before it is the first that is misplaced. -/
theorem firstMisplaced?_append_cons (hxs : firstMisplaced? n xs = none)
    (hfirst : xs = [] → n < y.level) (hlast : ∀ last ∈ xs.getLast?, last.level + 1 < y.level) :
    firstMisplaced? n (xs ++ y :: more) = some y := by
  induction xs generalizing n with
  | nil => rw [List.nil_append, firstMisplaced?, if_pos (hfirst rfl)]
  | cons x xs ih =>
      simp only [List.cons_append, firstMisplaced?] at *
      split at hxs
      · cases hxs
      next hx =>
        rw [if_neg hx]
        refine ih hxs ?_ fun last hl => hlast last ?_
        · rintro rfl
          exact hlast x rfl
        · rw [List.getLast?_cons, Option.mem_def.1 hl]
          rfl

/-- A line that does not is passed over. -/
theorem firstMisplaced?_append_cons_of_le {last : Line} (hxs : firstMisplaced? n xs = none)
    (hlast : last ∈ xs.getLast?) (hle : y.level ≤ last.level + 1) :
    firstMisplaced? n (xs ++ y :: more) = firstMisplaced? (y.level + 1) more := by
  induction xs generalizing n with
  | nil => cases hlast
  | cons x xs ih =>
      simp only [List.cons_append, firstMisplaced?] at *
      split at hxs
      · cases hxs
      next hx =>
        rw [if_neg hx]
        cases xs with
        | nil =>
            obtain rfl : x = last := by simpa using hlast
            rw [List.nil_append, firstMisplaced?, if_neg (by omega)]
        | cons z xs => exact ih hxs (by simpa [List.getLast?_cons_cons] using hlast)

theorem mem_of_firstMisplaced? (h : firstMisplaced? n xs = some l) : l ∈ xs := by
  induction xs generalizing n with
  | nil => cases h
  | cons x xs ih =>
      simp only [firstMisplaced?] at h
      split at h
      · exact Option.some.inj h ▸ List.mem_cons_self
      · exact List.mem_cons_of_mem _ (ih h)

theorem firstMisplaced?_of_append (h : firstMisplaced? n (xs ++ x :: ys) = none) :
    firstMisplaced? (x.level + 1) ys = none := by
  induction xs generalizing n with
  | nil =>
      simp only [List.nil_append, firstMisplaced?] at h
      split at h
      · cases h
      · exact h
  | cons z xs ih =>
      simp only [List.cons_append, firstMisplaced?] at h
      split at h
      · cases h
      · exact ih h

theorem exists_last_of_exists {p : Line → Prop} (h : ∃ x ∈ xs, p x) :
    ∃ before x after, xs = before ++ x :: after ∧ p x ∧ ∀ l ∈ after, ¬p l := by
  induction xs with
  | nil => simp at h
  | cons z xs ih =>
      by_cases hxs : ∃ x ∈ xs, p x
      · obtain ⟨before, x, after, rfl, hx, hafter⟩ := ih hxs
        exact ⟨z :: before, x, after, rfl, hx, hafter⟩
      · obtain ⟨x, hmem, hx⟩ := h
        have hnone : ∀ l ∈ xs, ¬p l := fun l hl hpl => hxs ⟨l, hl, hpl⟩
        rcases List.mem_cons.1 hmem with rfl | hmem
        · exact ⟨[], x, xs, rfl, hx, hnone⟩
        · exact absurd hx (hnone x hmem)

/-- Before a line that is deep but not misplaced, the nearest less deep line lies one level
above it. -/
theorem exists_line_above (h : firstMisplaced? n (xs ++ y :: more) = none) (hy : n < y.level) :
    ∃ before x after, xs = before ++ x :: after ∧ x.level + 1 = y.level ∧
      ∀ l ∈ after, y.level ≤ l.level := by
  have hsome : ∃ x ∈ xs, x.level < y.level := by
    cases xs with
    | nil => simp [firstMisplaced?, hy] at h
    | cons x xs =>
        simp only [List.cons_append, firstMisplaced?] at h
        split at h
        · cases h
        · exact ⟨x, List.mem_cons_self, by omega⟩
  obtain ⟨before, x, after, rfl, hx, hafter⟩ := exists_last_of_exists hsome
  refine ⟨before, x, after, rfl, ?_, fun l hl => Nat.le_of_not_lt (hafter l hl)⟩
  rw [List.append_assoc, List.cons_append] at h
  have hnext := firstMisplaced?_of_append h
  cases after with
  | nil =>
      simp only [List.nil_append, firstMisplaced?] at hnext
      split at hnext
      · cases hnext
      · omega
  | cons z after =>
      have hz : ¬z.level < y.level := hafter z List.mem_cons_self
      simp only [List.cons_append, firstMisplaced?] at hnext
      split at hnext
      · cases hnext
      · omega

theorem Leveled.placed (h : Leveled n f) : Placed n f.lines := by
  induction f using induction generalizing n with
  | nil => exact placed_nil
  | cons l cs ts ihChildren ihRest =>
      obtain ⟨hl, hcs, hts⟩ := leveled_cons.1 h
      rw [lines_cons]
      have hchildren := ihChildren hcs
      exact (Placed.cons hl hchildren).append (ihRest hts)

/-! ### Building -/

/-- The first line is the first root. -/
theorem line_of_head?_ofLines {t : Tree} (h : (ofLines xs).head? = some t) :
    xs.head? = some t.line := by
  cases xs with
  | nil => simp [ofLines] at h
  | cons x xs =>
      simp only [ofLines, List.foldr_cons, graft, List.head?_cons, Option.some.injEq] at h
      rw [← h]
      rfl

theorem ofLines_cons (x : Line) (xs : List Line) : ofLines (x :: xs) = graft x (ofLines xs) := rfl

/-- Deeper trees become the children, up to the first tree that is not deeper. -/
theorem graft_append {cs ts : Forest} (hcs : ∀ t ∈ cs, l.level < t.level)
    (hts : ∀ t ∈ ts.head?, t.level ≤ l.level) : graft l (cs ++ ts) = .node l cs :: ts := by
  have hstop : ts.takeWhile (l.level < ·.level) = [] ∧ ts.dropWhile (l.level < ·.level) = ts := by
    cases ts with
    | nil => simp
    | cons t ts => simpa using hts t rfl
  rw [graft, List.takeWhile_append_of_pos (by simpa using hcs),
    List.dropWhile_append_of_pos (by simpa using hcs), hstop.1, hstop.2, List.append_nil]

/-- A forest is built from its lines, whatever not deeper follows them. -/
theorem ofLines_lines_append (h : Leveled n f) (hmore : ∀ l ∈ more.head?, l.level ≤ n) :
    ofLines (f.lines ++ more) = f ++ ofLines more := by
  induction f using induction generalizing n more with
  | nil => rfl
  | cons l cs ts ihChildren ihRest =>
      obtain ⟨hl, hcs, hts⟩ := leveled_cons.1 h
      have hnext : ∀ x ∈ (lines ts ++ more).head?, x.level ≤ n := by
        intro x hx
        cases hlines : lines ts with
        | nil => exact hmore x (by simpa [hlines] using hx)
        | cons y ys =>
            have hy := hts.placed.none_misplaced
            simp only [hlines, firstMisplaced?] at hy
            have : x = y := by simpa [hlines] using hx.symm
            subst this
            by_contra hlt
            simp [if_pos (Nat.lt_of_not_le hlt)] at hy
      have hroots : ∀ t ∈ (ts ++ ofLines more).head?, t.level ≤ l.level := by
        intro t ht
        rw [← ihRest hts hmore] at ht
        exact hl ▸ hnext t.line (line_of_head?_ofLines ht)
      rw [lines_cons, List.cons_append, List.append_assoc, ofLines_cons,
        ihChildren hcs fun x hx => Nat.le_succ_of_le (hnext x hx), ihRest hts hmore,
        graft_append (fun t ht => by rw [hcs.level_eq t ht, hl]; omega) hroots]
      rfl

theorem ofLines_lines (h : Leveled n f) : ofLines f.lines = f := by
  have happend : ofLines (f.lines ++ []) = f ++ ofLines [] := ofLines_lines_append h (by simp)
  simpa [ofLines] using happend

/-- Putting a line before a forest keeps every tree of it. -/
theorem subtrees_graft (l : Line) (f : Forest) : f.subtrees ⊆ (graft l f).subtrees := by
  intro t ht
  rw [← List.takeWhile_append_dropWhile (p := fun t => decide (l.level < t.level)) (l := f),
    subtrees_append] at ht
  rw [graft, subtrees_cons]
  exact List.mem_cons_of_mem _ ht

theorem lt_level_of_mem_takeWhile {t : Tree} (h : t ∈ f.takeWhile (n < ·.level)) :
    n < t.level := by
  simpa using List.mem_takeWhile_imp h

/-- A line that no line before it undercuts is a root among the deeper ones. -/
theorem exists_mem_takeWhile_ofLines (hx : n < x.level) (hxs : ∀ l ∈ xs, x.level ≤ l.level) :
    ∃ t ∈ (ofLines (xs ++ x :: more)).takeWhile (n < ·.level), t.line = x := by
  induction xs with
  | nil =>
      rw [List.nil_append, ofLines_cons, graft, List.takeWhile_cons_of_pos]
      · exact ⟨_, List.mem_cons_self, rfl⟩
      · exact decide_eq_true hx
  | cons l xs ih =>
      have hl : x.level ≤ l.level := hxs l List.mem_cons_self
      obtain ⟨t, ht, rfl⟩ := ih fun l hl => hxs l (List.mem_cons_of_mem _ hl)
      refine ⟨t, ?_, rfl⟩
      rw [List.cons_append, ofLines_cons, graft, List.takeWhile_cons_of_pos]
      · refine List.mem_cons_of_mem _ ?_
        rw [← List.takeWhile_append_dropWhile (p := fun t => decide (l.level < t.level))
          (l := ofLines (xs ++ t.line :: more)), List.takeWhile_append_of_pos] at ht
        · rcases List.mem_append.1 ht with ht | ht
          · have hdeep : l.level < t.line.level := lt_level_of_mem_takeWhile ht
            omega
          · exact ht
        · intro u hu
          have hdeep : l.level < u.level := lt_level_of_mem_takeWhile hu
          exact decide_eq_true (by omega)
      · exact decide_eq_true (Nat.lt_of_lt_of_le hx hl)

/-- A line stands under the nearest line before it that is less deep. -/
theorem parent_ofLines (hx : x.level < y.level) (hys : ∀ l ∈ ys, y.level ≤ l.level) :
    Parent (ofLines (xs ++ x :: (ys ++ y :: more))) x y := by
  induction xs with
  | nil =>
      obtain ⟨c, hc, hy⟩ := exists_mem_takeWhile_ofLines hx hys
      refine ⟨.node x _, ?_, rfl, c, hc, hy⟩
      rw [List.nil_append, ofLines_cons, graft, subtrees_cons]
      exact List.mem_cons_self
  | cons l xs ih =>
      obtain ⟨t, ht, hline, c, hc, hy⟩ := ih
      exact ⟨t, subtrees_graft l _ ht, hline, c, hc, hy⟩

@[simp] theorem lines_ofLines (ls : List Line) : (ofLines ls).lines = ls := by
  induction ls with
  | nil => rfl
  | cons l ls ih =>
      rw [ofLines_cons, graft, lines_cons, ← lines_append, List.takeWhile_append_dropWhile, ih]

/-! ### Streams -/

/-- A stream that gives a forest gives that of its lines. -/
theorem ofStream_eq_ok {s : Feed.Stream} :
    ofStream s = .ok f ↔ firstMisplaced? 0 s.lines = none ∧ s.failure = none ∧ f = ofLines s.lines := by
  rw [ofStream]
  cases firstMisplaced? 0 s.lines with
  | some l => simp
  | none => cases s.failure <;> simp [eq_comm]

/-- A stream that has not failed on nesting itself gives that error for a line of its own. -/
theorem exists_of_ofStream_eq_unexpectedNesting {s : Feed.Stream} {place : Location}
    (hs : ∀ place, s.failure ≠ some (.unexpectedNesting place))
    (h : ofStream s = .error (.unexpectedNesting place)) :
    ∃ l, firstMisplaced? 0 s.lines = some l ∧ l.location = place := by
  rw [ofStream] at h
  cases hplaced : firstMisplaced? 0 s.lines with
  | some l =>
      rw [hplaced] at h
      cases h
      exact ⟨l, rfl, rfl⟩
  | none =>
      rw [hplaced] at h
      cases hfailure : s.failure with
      | none => simp [hfailure] at h
      | some e =>
          rw [hfailure] at h
          cases h
          exact absurd hfailure (hs place)

theorem ofStream_of_misplaced {s : Feed.Stream} (h : firstMisplaced? 0 s.lines = some l) :
    ofStream s = .error (.unexpectedNesting l.location) := by
  rw [ofStream, h]

/-- In a forest that is read, every line below the top stands under the nearest line before it
that is less deep, one level above it. -/
theorem exists_parent (h : firstMisplaced? 0 (xs ++ y :: more) = none) (hy : 0 < y.level) :
    ∃ before x after, xs = before ++ x :: after ∧ x.level + 1 = y.level ∧
      (∀ l ∈ after, y.level ≤ l.level) ∧ Parent (ofLines (xs ++ y :: more)) x y := by
  obtain ⟨before, x, after, rfl, hx, hafter⟩ := exists_line_above h hy
  refine ⟨before, x, after, rfl, hx, hafter, ?_⟩
  rw [List.append_assoc, List.cons_append]
  exact parent_ofLines (by omega) hafter

end Forest

end NetHooks
