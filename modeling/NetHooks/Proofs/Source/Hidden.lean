import NetHooks.Proofs.LogicalLine
import NetHooks.Proofs.Source.Outermost
import NetHooks.Proofs.Source.Reachable

/-!
# Hidden lines

A line under a guard that fails counts by its indentation only. Two sources that differ in the
texts of such lines are read in the same way: step by step their feeds differ in lines that are
not yet read (`Feed.Beside`), and every call for the next line has the same answer and leaves the
same definitions (`Feed.next_of_masked`).

A file is read from top to bottom, so a line is read once in a run, and it is hidden then or it is
not (`Feed.hidden_of_skips`).
-/
namespace NetHooks

/-- The lines of the second list have the places and widths of those of the first, and except for
the lines with certain numbers their texts. -/
def LogicalLine.Masked (numbers : Nat → Prop) (xs ys : List LogicalLine) : Prop :=
  List.Forall₂ (fun x y => y.number = x.number ∧ y.width = x.width ∧
    (y.text = x.text ∨ numbers x.number)) xs ys

namespace Feed

open Indentation (Levels)
open LogicalLine (Masked)
open Opened (alone)

variable {library : Library} {path identity : String} {a b f g root : Feed}
  {levels levels' : Levels} {x y : LogicalLine} {xs ys lines : List LogicalLine}

/-- In the run from the root a guard hides the line of the outermost file with the number. -/
def Skips (library : Library) (root : Feed) (number : Nat) : Prop :=
  ∃ f line level l g, Reaches library root f ∧ f.segments.length = 1 ∧
    f.Reads line level l g ∧ line.number = number ∧ isHidden g.guards = true

/-- A feed over given lines, which count as the lines of the file. -/
def ofLines (library : Library) (path : String) (lines : List LogicalLine) : Feed :=
  (alone path (library.identify path)).feed .empty .empty lines

/-! ### Each line is read once -/

theorem Reaches.eq_or_later (h : Reaches library f g) :
    g = f ∨ Reaches library (Feed.step library f).feed g := by
  induction h with
  | refl => exact .inl rfl
  | step _ ih =>
      rcases ih with rfl | ih
      · exact .inr .refl
      · exact .inr (.step ih)

/-- A run has one course. -/
theorem Reaches.total (hf : Reaches library root f) (hg : Reaches library root g) :
    Reaches library f g ∨ Reaches library g f := by
  induction hf with
  | refl => exact .inl hg
  | step _ ih =>
      rcases ih with ih | ih
      · rcases ih.eq_or_later with rfl | hlater
        · exact .inr (.step .refl)
        · exact .inl hlater
      · exact .inr (.step ih)

/-- Of two feeds in a run one is left first, or they are the same. -/
theorem Reaches.trichotomy (hf : Reaches library root f) (hg : Reaches library root g) :
    g = f ∨ Reaches library (Feed.step library f).feed g ∨
      Reaches library (Feed.step library g).feed f := by
  rcases hf.total hg with h | h
  · exact h.eq_or_later.imp_right .inl
  · exact h.eq_or_later.imp Eq.symm .inr

theorem within_ofLines (h : Reaches library (ofLines library path lines) f) :
    Within path (library.identify path) lines f :=
  h.keeps (fun _ hg => hg.step library)
    (.inr ⟨⟨.empty, [], [], [_]⟩, .empty, lines, rfl, List.suffix_refl lines⟩)

/-- After a line of the outermost file only the lines behind it are read. -/
theorem mem_of_reaches (ha : a.segments = [])
    (h : Reaches library (step library (a.above [outermost path identity levels (x :: xs)])).feed
      (b.above [outermost path identity levels' (y :: ys)])) : y ∈ xs := by
  have hwithin : Within path identity xs (b.above [outermost path identity levels' (y :: ys)]) :=
    h.keeps (fun _ hg => hg.step library) (within_step_outermost library ha)
  exact hwithin.suffix.subset List.mem_cons_self

/-- A run comes to each line of the outermost file once. -/
theorem eq_of_reaches (hnumbers : lines.Pairwise (·.number < ·.number))
    (hf : Reaches library (ofLines library path lines)
      (a.above [outermost path (library.identify path) levels (x :: xs)])) (ha : a.segments = [])
    (hg : Reaches library (ofLines library path lines)
      (b.above [outermost path (library.identify path) levels' (y :: ys)])) (hb : b.segments = [])
    (hnumber : y.number = x.number) :
    b = a ∧ levels' = levels ∧ y = x ∧ ys = xs := by
  have hxs := hnumbers.sublist (within_ofLines hf).suffix.sublist
  have hys := hnumbers.sublist (within_ofLines hg).suffix.sublist
  rcases hf.trichotomy hg with heq | hlater | hlater
  · obtain ⟨rfl, hsegment⟩ := eq_of_above_eq_above heq
    cases hsegment
    exact ⟨rfl, rfl, rfl, rfl⟩
  · exact absurd hnumber ((List.pairwise_cons.1 hxs).1 y (mem_of_reaches ha hlater)).ne'
  · exact absurd hnumber ((List.pairwise_cons.1 hys).1 x (mem_of_reaches hb hlater)).ne

/-- A line that is hidden in a run is hidden whenever the run comes to it. -/
theorem hidden_of_skips (hnumbers : lines.Pairwise (·.number < ·.number))
    (hf : Reaches library (ofLines library path lines)
      (a.above [outermost path (library.identify path) levels (x :: xs)])) (ha : a.segments = [])
    (hfit : levels.fit? x.width = some levels')
    (hskips : Skips library (ofLines library path lines) x.number) :
    isHidden (standing a.guards levels'.level) = true := by
  obtain ⟨f, y, level, l, g, hreached, hlength, hreads, hnumber, hhidden⟩ := hskips
  rw [hreads.guards_eq] at hhidden
  cases hreads with
  | @intro s below identity y rest t hsegments hreading ht =>
  rcases within_ofLines hreached with hnil | ⟨b, levels'', rest', rfl, -⟩
  · simp [hnil] at hlength
  have hb : b.segments = [] := by
    simpa [above] using hlength
  obtain ⟨rfl, rfl⟩ : outermost path (library.identify path) levels'' rest' = s ∧ [] = below := by
    simpa [above, hb] using hsegments
  cases hreading
  obtain ⟨rfl, rfl, rfl, rfl⟩ := eq_of_reaches hnumbers hf ha hreached hb hnumber
  obtain rfl : t = levels' := Option.some.inj (ht.symm.trans hfit)
  simpa [outermost, above] using hhidden

/-! ### Two runs -/

/-- What a step shows: a line, an error, the end or nothing, and the definitions that hold then. -/
def Step.shown : Step → Option (Except SourceError (Option Line)) × Definitions
  | working f => (none, f.definitions)
  | delivered line f => (some (.ok (some line)), f.definitions)
  | failed e f => (some (.error e), f.definitions)
  | finished f => (some (.ok none), f.definitions)

/-- In the run of a source, a feed that has come to the one, and the same feed but for hidden
lines of the outermost file that are not yet read. -/
inductive Beside (library : Library) (path : String) (lines : List LogicalLine) : Feed → Feed → Prop
  | closed {f : Feed} (hreached : Reaches library (ofLines library path lines) f)
      (h : f.segments = []) : Beside library path lines f f
  | opened {a : Feed} {levels : Levels} {xs ys : List LogicalLine}
      (hreached : Reaches library (ofLines library path lines)
        (a.above [outermost path (library.identify path) levels xs]))
      (h : Masked (Skips library (ofLines library path lines)) xs ys) :
      Beside library path lines (a.above [outermost path (library.identify path) levels xs])
        (a.above [outermost path (library.identify path) levels ys])

/-- The second step shows what the first shows, and leaves a feed beside that of the first. -/
structure Step.Matches (library : Library) (path : String) (lines : List LogicalLine)
    (r s : Step) : Prop where
  shown_eq : s.shown = r.shown
  beside : Beside library path lines r.feed s.feed

@[simp] theorem Step.shown_above (s : Step) (tail : List Segment) :
    (s.above tail).shown = s.shown := by
  cases s <;> rfl

/-- A step that reads no line, or a line with one text, does the same with other lines behind. -/
theorem Step.matches_above {r : Step} (hr : Reaches library (ofLines library path lines)
      (r.above [outermost path (library.identify path) levels xs]).feed)
    (h : Masked (Skips library (ofLines library path lines)) xs ys) :
    Step.Matches library path lines (r.above [outermost path (library.identify path) levels xs])
      (r.above [outermost path (library.identify path) levels ys]) := by
  refine ⟨by rw [shown_above, shown_above], ?_⟩
  rw [feed_above] at hr
  rw [feed_above, feed_above]
  exact .opened hr h

theorem Beside.reached (h : Beside library path lines f g) :
    Reaches library (ofLines library path lines) f := by
  cases h <;> assumption

/-- The texts of hidden lines do not count for a step. -/
theorem Beside.step (hnumbers : lines.Pairwise (·.number < ·.number))
    (h : Beside library path lines f g) :
    Step.Matches library path lines (Feed.step library f) (Feed.step library g) := by
  cases h with
  | closed hreached h =>
      refine ⟨rfl, .closed hreached.step ?_⟩
      simp only [Feed.step, h, Step.feed]
  | @opened a levels xs ys hreached h =>
  have hnext := hreached.step
  by_cases ha : a.segments = []
  · cases h with
    | nil =>
        have hsegments : (a.above [outermost path (library.identify path) levels []]).segments =
            [outermost path (library.identify path) levels []] := by simp [above, ha]
        refine ⟨rfl, .closed hnext ?_⟩
        rw [step_of_exhausted hsegments rfl]
        rfl
    | @cons x y xs ys hxy h =>
        obtain ⟨hnumber, hwidth, htext⟩ := hxy
        rw [step_outermost ha] at hnext
        rw [step_outermost ha, step_outermost ha, hwidth, hnumber]
        cases hfit : levels.fit? x.width with
        | none =>
            rw [hfit] at hnext
            exact ⟨rfl, .opened hnext h⟩
        | some t =>
            rw [hfit] at hnext
            have hsame : y.text = x.text ∨ isHidden (standing a.guards t.level) = true :=
              htext.imp_right (hidden_of_skips hnumbers hreached ha hfit)
            rcases hsame with htext | hhidden
            · rw [htext]
              exact Step.matches_above hnext h
            · simp only [hhidden, if_true] at hnext ⊢
              exact Step.matches_above hnext h
  · rw [step_above ha] at hnext
    rw [step_above ha, step_above ha]
    exact Step.matches_above hnext h

/-- Both steps show something, or neither does. -/
theorem Step.Matches.working_or {r s : Step} (h : Step.Matches library path lines r s) :
    (∃ f g, r = .working f ∧ s = .working g) ∨ (∀ f, r ≠ .working f) ∧ ∀ g, s ≠ .working g := by
  have hshown := h.shown_eq
  cases r <;> cases s <;> simp [Step.shown] at hshown ⊢

theorem advance_of_ne_working {fuel : Nat} (h : ∀ g, Feed.step library f ≠ .working g) :
    Feed.advance library (fuel + 1) f = Feed.step library f := by
  rw [Feed.advance]
  split
  next g hg => exact absurd hg (h g)
  next => rfl

/-- Up to the first step that shows something the two runs go on together. -/
theorem Beside.advance (hnumbers : lines.Pairwise (·.number < ·.number)) (fuel : Nat)
    (h : Beside library path lines f g) :
    Step.Matches library path lines (Feed.advance library fuel f)
      (Feed.advance library fuel g) := by
  induction fuel generalizing f g with
  | zero =>
      refine ⟨?_, h⟩
      cases h <;> rfl
  | succ fuel ih =>
      have hstep := h.step hnumbers
      rcases hstep.working_or with ⟨f', g', hf, hg⟩ | ⟨hf, hg⟩
      · rw [hf, hg] at hstep
        simp only [Feed.advance, hf, hg]
        exact ih hstep.beside
      · rw [advance_of_ne_working hf, advance_of_ne_working hg]
        exact hstep

theorem Beside.allowance_eq (h : Beside library path lines f g) :
    allowance library g.segments = allowance library f.segments := by
  cases h with
  | closed => rfl
  | opened _ h => simp [allowance, pending, above, outermost, List.foldr_append, h.length_eq]

theorem Beside.next (hnumbers : lines.Pairwise (·.number < ·.number))
    (h : Beside library path lines f g) :
    Step.Matches library path lines (Feed.next library f) (Feed.next library g) := by
  rw [Feed.next, Feed.next, h.allowance_eq]
  exact h.advance hnumbers _

/-- The answer to a call after `n` calls, each on the feed that the one before has left. -/
def answer (call : Feed → Step) (n : Nat) (f : Feed) : Step :=
  call ((fun g => (call g).feed)^[n] f)

theorem Beside.answer {call : Feed → Step}
    (hcall : ∀ f g, Beside library path lines f g →
      Step.Matches library path lines (call f) (call g))
    (h : Beside library path lines f g) (n : Nat) :
    (Feed.answer call n g).shown = (Feed.answer call n f).shown := by
  induction n generalizing f g with
  | zero => exact (hcall f g h).shown_eq
  | succ n ih => exact ih (hcall f g h).beside

/-- Texts of lines that a guard hides do not count. Whatever stands in their places, every call
for the next line has the same answer, also after errors, and every step leaves the same
definitions. -/
theorem next_of_masked (library : Library) (path text : String) {lines : List LogicalLine}
    (h : Masked (Skips library (ofText library path text)) (logicalLines text) lines) (n : Nat) :
    (answer (next library) n (ofLines library path lines)).shown =
        (answer (next library) n (ofText library path text)).shown ∧
      (answer (step library) n (ofLines library path lines)).shown =
        (answer (step library) n (ofText library path text)).shown := by
  have hnumbers := LogicalLine.pairwise_number_logicalLines text
  have hbeside : Beside library path (logicalLines text) (ofText library path text)
      (ofLines library path lines) :=
    .opened (a := ⟨.empty, [], [], [library.identify path]⟩) .refl h
  exact ⟨hbeside.answer (fun _ _ h => h.next hnumbers) n,
    hbeside.answer (fun _ _ h => h.step hnumbers) n⟩

/-- A define and an include that a guard hides, and in their places a missing file, and an unknown
key before an open quote. -/
theorem next_of_masked_ifdef :
    let library := Library.ofTexts .empty
    let text := "ifdef A\n  define X 1\n  include more\niface eth0\n"
    let lines : List LogicalLine := [⟨1, 0, "ifdef A"⟩, ⟨2, 2, "include missing"⟩,
      ⟨3, 2, "iface %key% \""⟩, ⟨4, 0, "iface eth0"⟩]
    Masked (Skips library (ofText library "interfaces" text)) (logicalLines text) lines ∧
      (answer (next library) 0 (ofLines library "interfaces" lines)).shown =
        (answer (next library) 0 (ofText library "interfaces" text)).shown := by
  intro library text lines
  let root : Feed := ofText library "interfaces" text
  let f : Feed := (step library root).feed
  have hf : f.segments = [⟨"interfaces", 0, ⟨[0]⟩, some ⟨"interfaces",
      [⟨2, 2, "define X 1"⟩, ⟨3, 2, "include more"⟩, ⟨4, 0, "iface eth0"⟩]⟩, none⟩] := by
    decide +kernel
  have hg : (step library f).feed.segments = [⟨"interfaces", 0, ⟨[2, 0]⟩, some ⟨"interfaces",
      [⟨3, 2, "include more"⟩, ⟨4, 0, "iface eth0"⟩]⟩, none⟩] := by
    decide +kernel
  have hsecond : Skips library root 2 :=
    ⟨f, _, _, _, _, .step .refl, by rw [hf]; rfl, .intro hf rfl rfl, rfl, by decide +kernel⟩
  have hthird : Skips library root 3 :=
    ⟨_, _, _, _, _, .step (.step .refl), by rw [hg]; rfl, .intro hg rfl rfl, rfl, by decide +kernel⟩
  have hlines : logicalLines text = [⟨1, 0, "ifdef A"⟩, ⟨2, 2, "define X 1"⟩,
      ⟨3, 2, "include more"⟩, ⟨4, 0, "iface eth0"⟩] := by decide +kernel
  have hmasked : Masked (Skips library root) (logicalLines text) lines := by
    rw [hlines]
    exact .cons ⟨rfl, rfl, .inl rfl⟩ <| .cons ⟨rfl, rfl, .inr hsecond⟩ <|
      .cons ⟨rfl, rfl, .inr hthird⟩ <| .cons ⟨rfl, rfl, .inl rfl⟩ .nil
  exact ⟨hmasked, (next_of_masked library "interfaces" text hmasked 0).1⟩

end Feed

end NetHooks
