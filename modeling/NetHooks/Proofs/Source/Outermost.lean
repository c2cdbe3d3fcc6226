import NetHooks.Proofs.Source.Alike
import NetHooks.Proofs.Source.SingleFile

/-!
# The outermost file

The outermost file of a feed lies below everything that it includes. Steps never add lines to
it (`Feed.Within.run`). Up to a line of it, what it has from there on does not count: a run to
the line can be repeated in a file that begins with alike lines and goes on otherwise
(`Feed.Run.replay`).
-/
namespace NetHooks.Feed

open Indentation (Levels)
open LogicalLine (AlikeAll)
open Opened (alone)

variable {library : Library} {path identity : String} {a b f g : Feed} {levels : Levels}
  {x : LogicalLine} {rest xs ys zs zs' : List LogicalLine} {m : Memory} {lines : List Line}

/-- The outermost file with the lines not yet read. -/
def outermost (path identity : String) (levels : Levels) (rest : List LogicalLine) : Segment :=
  ⟨path, 0, levels, some ⟨identity, rest⟩, none⟩

theorem above_outermost_eq_alone (m : Memory) :
    (⟨m.definitions, m.guards, [], [identity]⟩ : Feed).above [outermost path identity levels rest] =
      (alone path identity).feed levels m rest := rfl

theorem eq_of_above_eq_above {s t : Segment} (h : f.above [s] = g.above [t]) : f = g ∧ s = t := by
  obtain ⟨definitions, guards, segments, active⟩ := f
  obtain ⟨definitions', guards', segments', active'⟩ := g
  simp only [above, Feed.mk.injEq] at h
  obtain ⟨rfl, rfl, hsegments, rfl⟩ := h
  obtain ⟨rfl, ht⟩ := List.append_inj' hsegments rfl
  exact ⟨rfl, (List.cons.inj ht).1⟩

/-- With nothing included left, the file goes on with its next line. -/
theorem step_outermost (ha : a.segments = []) :
    step library (a.above [outermost path identity levels (x :: rest)]) =
      match levels.fit? x.width with
      | none => .failed (.badIndentation ⟨path, x.number⟩)
          (a.above [outermost path identity levels rest])
      | some t =>
          let read := { a with guards := standing a.guards t.level }
          (if isHidden read.guards then .working read
            else takeLine library read t.level x.text ⟨path, x.number⟩).above
              [outermost path identity t rest] := by
  obtain ⟨definitions, guards, segments, active⟩ := a
  obtain rfl : segments = [] := ha
  cases hfit : levels.fit? x.width with
  | none => simp [step, above, outermost, hfit]
  | some t =>
      simp only [step, above, outermost, List.nil_append, hfit, Nat.zero_add]
      split
      · rfl
      · exact takeLine_above ⟨definitions, standing guards t.level, [], active⟩
          [outermost path identity t rest] t.level x.text ⟨path, x.number⟩

/-! ### Lines that are left -/

/-- The outermost file is closed, or what is left of it is an end of the lines. -/
def Within (path identity : String) (zs : List LogicalLine) (f : Feed) : Prop :=
  f.segments = [] ∨
    ∃ a levels rest, f = above a [outermost path identity levels rest] ∧ rest <:+ zs

theorem within_above (h : rest <:+ zs) :
    Within path identity zs (a.above [outermost path identity levels rest]) :=
  .inr ⟨a, levels, rest, rfl, h⟩

theorem Within.suffix
    (h : Within path identity zs (a.above [outermost path identity levels rest])) :
    rest <:+ zs := by
  rcases h with hnil | ⟨b, levels', rest', heq, hsuffix⟩
  · simp [above] at hnil
  · obtain ⟨-, hrest⟩ := eq_of_above_eq_above heq
    cases hrest
    exact hsuffix

theorem Step.feed_above (s : Step) (tail : List Segment) :
    (s.above tail).feed = s.feed.above tail := by
  cases s <;> rfl

/-- With nothing included left, the next line is taken away. -/
theorem within_step_outermost (library : Library) (ha : a.segments = []) : Within path identity rest
    (step library (a.above [outermost path identity levels (x :: rest)])).feed := by
  rw [step_outermost ha]
  split
  · exact within_above (List.suffix_refl _)
  · rw [Step.feed_above]
    exact within_above (List.suffix_refl _)

/-- A step takes lines from the outermost file only. -/
theorem Within.step (library : Library) (h : Within path identity zs f) :
    Within path identity zs (step library f).feed := by
  rcases h with hnil | ⟨a, levels, rest, rfl, hsuffix⟩
  · left
    simp only [Feed.step, hnil]
    exact hnil
  by_cases ha : a.segments = []
  · cases rest with
    | nil =>
        left
        have hsegments : (a.above [outermost path identity levels []]).segments =
            [outermost path identity levels []] := by simp [above, ha]
        rw [step_of_exhausted hsegments rfl]
        rfl
    | cons x rest =>
        rcases within_step_outermost library ha with hnil | ⟨b, levels', rest', hfeed, hrest⟩
        · exact .inl hnil
        · rw [hfeed]
          exact within_above (hrest.trans ((List.suffix_cons x rest).trans hsuffix))
  · rw [step_above ha, Step.feed_above]
    exact within_above hsuffix

theorem Within.run (h : Within path identity zs f) (hrun : Run library f lines g) :
    Within path identity zs g := by
  induction hrun with
  | nil => exact h
  | working first _ ih =>
      have hnext := h.step library
      rw [first] at hnext
      exact ih hnext
  | delivered first _ ih =>
      have hnext := h.step library
      rw [first] at hnext
      exact ih hnext

/-- When a file goes on after a line, the line does not come again. -/
theorem not_run_back (ha : a.segments = [])
    (hstep : Feed.step library (a.above [outermost path identity levels (x :: rest)]) = .working f ∨
      ∃ line, Feed.step library (a.above [outermost path identity levels (x :: rest)]) =
        .delivered line f)
    {levels' : Levels} :
    ¬Run library f lines ((alone path identity).feed levels' m (x :: rest)) := by
  intro hrun
  have hf : f =
      (Feed.step library (a.above [outermost path identity levels (x :: rest)])).feed := by
    rcases hstep with hstep | ⟨line, hstep⟩ <;> rw [hstep, Step.feed]
  have hwithin : Within path identity rest f := hf ▸ within_step_outermost library ha
  rw [← above_outermost_eq_alone] at hrun
  have hle : (x :: rest).length ≤ rest.length := (hwithin.run hrun).suffix.length_le
  exact absurd hle (Nat.not_succ_le_self _)

/-! ### Another continuation -/

/-- The feeds are alike up to `zs` in the outermost file of one and `zs'` in that of the
other. -/
inductive Abreast (path identity : String) (zs zs' : List LogicalLine) : Feed → Feed → Prop
  | intro {a b : Feed} {xs ys : List LogicalLine} (levels : Levels) (h : a.Alike b)
      (hlines : AlikeAll xs ys) :
      Abreast path identity zs zs' (a.above [outermost path identity levels (xs ++ zs)])
        (b.above [outermost path identity levels (ys ++ zs')])

theorem Alike.segments_eq_nil_iff (h : a.Alike b) : b.segments = [] ↔ a.segments = [] := by
  cases h with
  | intro definitions guards active h => cases h <;> simp

/-- Until they come to `zs` and `zs'` the feeds go on alike. -/
theorem Abreast.step (library : Library) (h : Abreast path identity zs zs' f g) :
    (∃ a levels, f = above a [outermost path identity levels zs] ∧ a.segments = []) ∨
      Step.Rel (Abreast path identity zs zs') (Feed.step library f) (Feed.step library g) := by
  cases h with
  | @intro a b xs ys levels h hlines =>
  by_cases ha : a.segments = []
  · cases xs with
    | nil => exact .inl ⟨a, levels, rfl, ha⟩
    | cons x xs =>
        obtain ⟨y, ys, rfl, hwidth, htext, hrest⟩ := hlines.eq_cons
        right
        rw [List.cons_append, List.cons_append, step_outermost ha,
          step_outermost (h.segments_eq_nil_iff.2 ha), hwidth, htext]
        cases levels.fit? x.width with
        | none => exact .failed ..
        | some t =>
            have hread : Feed.Alike { a with guards := standing a.guards t.level }
                { b with guards := standing b.guards t.level } := by
              cases h with
              | intro definitions guards active h => exact .intro _ _ _ h
            have hguards : b.guards = a.guards := by
              cases h
              rfl
            refine Step.Rel.above (R := Feed.Alike) ?_ fun f g hfg => .intro t hfg hrest
            simp only [hguards]
            split
            · exact .working (hguards ▸ hread)
            · exact takeLine_alike (hguards ▸ hread) t.level x.text path x.number y.number
  · right
    rw [step_above ha, step_above (mt h.segments_eq_nil_iff.1 ha)]
    exact (step_alike h).above fun f g hfg => .intro levels hfg hlines

/-- One feed has come to `zs` only when the other has come to `zs'`. -/
theorem Abreast.eq_alone
    (h : Abreast path identity zs zs' ((alone path identity).feed levels m zs) g) :
    g = (alone path identity).feed levels m zs' := by
  generalize hf : (alone path identity).feed levels m zs = f at h
  cases h with
  | @intro a b xs ys levels' h hlines =>
  rw [← above_outermost_eq_alone] at hf
  obtain ⟨rfl, hsegment⟩ := eq_of_above_eq_above hf
  simp only [outermost, Segment.mk.injEq, Option.some.injEq, Reading.mk.injEq] at hsegment
  obtain ⟨-, -, rfl, ⟨-, hzs⟩, -⟩ := hsegment
  obtain rfl : xs = [] := List.self_eq_append_left.1 hzs
  obtain rfl := hlines.eq_nil
  cases h with
  | intro definitions guards active h =>
      cases h
      rfl

/-- A run to a line of the outermost file is repeated after alike lines before it. -/
theorem Run.replay {z : LogicalLine} (h : Abreast path identity (z :: zs) zs' f g)
    (hrun : Run library f lines ((alone path identity).feed levels m (z :: zs))) :
    ∃ more, Run library g more ((alone path identity).feed levels m zs') ∧
      Line.AlikeAll lines more := by
  generalize hend : (alone path identity).feed levels m (z :: zs) = e at hrun
  induction hrun generalizing g with
  | nil =>
      subst hend
      rw [h.eq_alone]
      exact ⟨[], .nil, rfl⟩
  | working first more ih =>
      subst hend
      rcases h.step library with ⟨a, levels', rfl, ha⟩ | hstep
      · exact absurd more (not_run_back ha (.inl first))
      · obtain ⟨g', hg, h'⟩ := (first ▸ hstep).eq_working
        obtain ⟨more, hmore, hlines⟩ := ih h' rfl
        exact ⟨more, .working hg hmore, hlines⟩
  | delivered first more ih =>
      subst hend
      rcases h.step library with ⟨a, levels', rfl, ha⟩ | hstep
      · exact absurd more (not_run_back ha (.inr ⟨_, first⟩))
      · obtain ⟨y, g', hg, hline, h'⟩ := (first ▸ hstep).eq_delivered
        obtain ⟨more, hmore, hlines⟩ := ih h' rfl
        exact ⟨y :: more, .delivered hg hmore, hline.append hlines⟩

end NetHooks.Feed
