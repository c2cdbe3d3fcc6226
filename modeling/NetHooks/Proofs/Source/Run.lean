import NetHooks.Proofs.Source.Directive
import NetHooks.Source.Feed

/-!
# Runs of a feed

A run follows a feed step by step and collects the lines that it delivers (`Feed.Run`); a
feed yields the stream of a run to its end or to its first error (`Feed.Yields`). A feed
yields one stream only, and each run of it is a beginning of that stream.

What a step does depends on the innermost segment (`Feed.step_cases`). Where this is the
next line of a file, `Feed.Reads` names the line, its level and the feed behind it.
-/
namespace NetHooks

namespace Feed

/-- The stream with more lines before its own. -/
def Stream.after (s : Stream) (lines : List Line) : Stream :=
  { s with lines := lines ++ s.lines }

@[simp] theorem Stream.lines_after (s : Stream) (lines : List Line) :
    (s.after lines).lines = lines ++ s.lines := rfl

@[simp] theorem Stream.failure_after (s : Stream) (lines : List Line) :
    (s.after lines).failure = s.failure := rfl

@[simp] theorem Stream.after_nil (s : Stream) : s.after [] = s := rfl

@[simp] theorem Stream.after_after (s : Stream) (xs ys : List Line) :
    (s.after ys).after xs = s.after (xs ++ ys) := by
  simp [Stream.after]

/-- The feed that a step leaves. -/
def Step.feed : Step → Feed
  | working g | delivered _ g | failed _ g | finished g => g

variable {library : Library} {f g h : Feed} {s t : Stream} {lines more : List Line}
  {line : LogicalLine} {level : Nat} {l : Location} {seg : Segment} {below : List Segment}
  {identity : String} {rest : List LogicalLine}

/-! ### Reading a line -/

/-- The innermost file goes on with a line that fits among its levels: the level of the
line, its place, and the feed behind it with the guards that stand over the line. -/
inductive Reads (f : Feed) : LogicalLine → Nat → Location → Feed → Prop
  | intro {s : Segment} {below : List Segment} {identity : String} {line : LogicalLine}
      {rest : List LogicalLine} {levels : Indentation.Levels}
      (segments : f.segments = s :: below)
      (reading : s.reading = some ⟨identity, line :: rest⟩)
      (fits : s.levels.fit? line.width = some levels) :
      Reads f line (s.offset + levels.level) ⟨s.path, line.number⟩
        { f with
          segments := { s with reading := some ⟨identity, rest⟩, levels } :: below
          guards := standing f.guards (s.offset + levels.level) }

theorem Reads.definitions_eq (h : f.Reads line level l g) : g.definitions = f.definitions := by
  cases h
  rfl

theorem Reads.active_eq (h : f.Reads line level l g) : g.active = f.active := by
  cases h
  rfl

theorem Reads.guards_eq (h : f.Reads line level l g) : g.guards = standing f.guards level := by
  cases h
  rfl

theorem step_of_reads (h : f.Reads line level l g) : step library f =
    if isHidden g.guards then .working g else takeLine library g level line.text l := by
  cases h with
  | intro segments reading fits => simp [step, segments, reading, fits]

theorem takeLine_of_error {e : SourceError}
    (h : Directive.read line.keyword line.text l = .error e) :
    takeLine library f level line.text l = .failed e f := by
  rw [LogicalLine.keyword] at h
  simp [takeLine, h]

theorem takeLine_of_directive {d : Directive}
    (h : Directive.read line.keyword line.text l = .ok (some d)) :
    takeLine library f level line.text l = obey library f level l d := by
  rw [LogicalLine.keyword] at h
  simp [takeLine, h]

theorem takeLine_of_none (h : Directive.read line.keyword line.text l = .ok none) :
    takeLine library f level line.text l = match f.definitions.substitute line.text with
      | .error key => .failed (.unknownSubstitution key l) f
      | .ok content => .delivered ⟨level - f.guards.length, content, l⟩ f := by
  rw [LogicalLine.keyword] at h
  cases hcontent : f.definitions.substitute line.text <;> simp [takeLine, h, hcontent]

theorem step_of_pending (hsegments : f.segments = seg :: below) (hreading : seg.reading = none) :
    step library f = openSegment library f seg below := by
  simp [step, hsegments, hreading]

theorem step_of_exhausted (hsegments : f.segments = seg :: below)
    (hreading : seg.reading = some ⟨identity, []⟩) : step library f =
      .working { f with segments := below, active := f.active.filter (· ≠ identity) } := by
  simp [step, hsegments, hreading]

theorem step_of_unfit (hsegments : f.segments = seg :: below)
    (hreading : seg.reading = some ⟨identity, line :: rest⟩)
    (hfit : seg.levels.fit? line.width = none) : step library f =
      .failed (.badIndentation ⟨seg.path, line.number⟩)
        { f with segments := { seg with reading := some ⟨identity, rest⟩ } :: below } := by
  simp [step, hsegments, hreading, hfit]

/-- The segments run out, or the innermost of them is opened, closed, goes on with a line
that fits nowhere, or goes on with a line that is read. -/
theorem step_cases (library : Library) (f : Feed) :
    (f.segments = [] ∧ step library f = .finished f) ∨
    (∃ s below, f.segments = s :: below ∧ s.reading = none ∧
      step library f = openSegment library f s below) ∨
    (∃ s below identity, f.segments = s :: below ∧ s.reading = some ⟨identity, []⟩ ∧
      step library f =
        .working { f with segments := below, active := f.active.filter (· ≠ identity) }) ∨
    (∃ s below identity line rest, f.segments = s :: below ∧
      s.reading = some ⟨identity, line :: rest⟩ ∧ s.levels.fit? line.width = none ∧
      step library f = .failed (.badIndentation ⟨s.path, line.number⟩)
        { f with segments := { s with reading := some ⟨identity, rest⟩ } :: below }) ∨
    (∃ line level l g, f.Reads line level l g) := by
  cases hsegments : f.segments with
  | nil => exact .inl ⟨rfl, by simp [step, hsegments]⟩
  | cons s below =>
      cases hreading : s.reading with
      | none => exact .inr (.inl ⟨s, below, rfl, hreading, step_of_pending hsegments hreading⟩)
      | some r =>
          obtain ⟨identity, _ | ⟨line, rest⟩⟩ := r
          · exact .inr (.inr (.inl ⟨s, below, identity, rfl, hreading,
              step_of_exhausted hsegments hreading⟩))
          · cases hfit : s.levels.fit? line.width with
            | none => exact .inr (.inr (.inr (.inl ⟨s, below, identity, line, rest, rfl, hreading,
                hfit, step_of_unfit hsegments hreading hfit⟩)))
            | some levels =>
                exact .inr (.inr (.inr (.inr ⟨_, _, _, _, .intro hsegments hreading hfit⟩)))

/-- A step never fails on nesting. -/
theorem ne_unexpectedNesting_of_step {e : SourceError} (h : step library f = .failed e g)
    (place : Location) : e ≠ .unexpectedNesting place := by
  rintro rfl
  rcases step_cases library f with ⟨-, hstep⟩ | ⟨s, below, -, -, hstep⟩ |
    ⟨s, below, identity, -, -, hstep⟩ | ⟨s, below, identity, line, rest, -, -, -, hstep⟩ |
    ⟨line, level, l, f', hreads⟩
  · simp [hstep] at h
  · rw [hstep, openSegment] at h
    split at h
    · cases h
    · split at h <;> cases h
  · simp [hstep] at h
  · simp [hstep] at h
  · rw [step_of_reads hreads] at h
    split at h
    · cases h
    · cases hread : Directive.read line.keyword line.text l with
      | error e =>
          rw [takeLine_of_error hread] at h
          cases h
          exact NeverMisplaced.read line.keyword line.text place hread
      | ok d? =>
          cases d? with
          | none =>
              rw [takeLine_of_none hread] at h
              split at h <;> cases h
          | some d =>
              rw [takeLine_of_directive hread] at h
              cases d with
              | «include» target =>
                  simp only [obey, includeFiles] at h
                  split at h
                  · cases h
                  · split at h
                    · split at h <;> cases h
                    · cases h
              | _ => cases h

/-! ### Runs -/

/-- Steps one after another, with the lines that they deliver. -/
inductive Run (library : Library) : Feed → List Line → Feed → Prop
  | nil {f : Feed} : Run library f [] f
  | working {f g h : Feed} {lines : List Line} (first : step library f = .working g)
      (more : Run library g lines h) : Run library f lines h
  | delivered {f g h : Feed} {line : Line} {lines : List Line}
      (first : step library f = .delivered line g) (more : Run library g lines h) :
      Run library f (line :: lines) h

/-- What the feed delivers up to its end or its first error. -/
inductive Yields (library : Library) : Feed → Stream → Prop
  | finished {f g : Feed} (last : step library f = .finished g) : Yields library f ⟨[], none⟩
  | failed {f g : Feed} {e : SourceError} (last : step library f = .failed e g) :
      Yields library f ⟨[], some e⟩
  | working {f g : Feed} {s : Stream} (first : step library f = .working g)
      (more : Yields library g s) : Yields library f s
  | delivered {f g : Feed} {line : Line} {s : Stream}
      (first : step library f = .delivered line g) (more : Yields library g s) :
      Yields library f (s.after [line])

theorem Run.append (hf : Run library f lines g) (hg : Run library g more h) :
    Run library f (lines ++ more) h := by
  induction hf with
  | nil => exact hg
  | working first _ ih => exact .working first (ih hg)
  | delivered first _ ih => exact .delivered first (ih hg)

theorem Run.yields (hf : Run library f lines g) (hg : Yields library g s) :
    Yields library f (s.after lines) := by
  induction hf with
  | nil => exact hg
  | working first _ ih => exact .working first (ih hg)
  | delivered first _ ih => simpa using Yields.delivered first (ih hg)

theorem Yields.unique (hs : Yields library f s) (ht : Yields library f t) : s = t := by
  induction hs generalizing t with
  | finished last => cases ht <;> simp_all
  | failed last => cases ht <;> simp_all
  | working first _ ih =>
      cases ht with
      | working first' more =>
          cases first.symm.trans first'
          exact ih more
      | finished h | failed h | delivered h => cases first.symm.trans h
  | delivered first _ ih =>
      cases ht with
      | delivered first' more =>
          cases first.symm.trans first'
          rw [ih more]
      | finished h | failed h | working h => cases first.symm.trans h

/-- A run is a beginning of what is yielded. -/
theorem Run.yields_rest (hf : Run library f lines g) (hs : Yields library f s) :
    ∃ t, Yields library g t ∧ s = t.after lines := by
  induction hf generalizing s with
  | nil => exact ⟨s, hs, rfl⟩
  | working first _ ih =>
      cases hs with
      | working first' more =>
          cases first.symm.trans first'
          exact ih more
      | finished h | failed h | delivered h => cases first.symm.trans h
  | delivered first _ ih =>
      cases hs with
      | delivered first' more =>
          cases first.symm.trans first'
          obtain ⟨t, ht, rfl⟩ := ih more
          exact ⟨t, ht, by simp⟩
      | finished h | failed h | working h => cases first.symm.trans h

/-- What ends a stream is never nesting. -/
theorem Yields.failure_ne (hs : Yields library f s) (place : Location) :
    s.failure ≠ some (.unexpectedNesting place) := by
  induction hs with
  | finished _ => nofun
  | failed last => exact fun h => ne_unexpectedNesting_of_step last place (Option.some.inj h)
  | working _ _ ih => exact ih
  | delivered _ _ ih => exact ih

end Feed

end NetHooks
