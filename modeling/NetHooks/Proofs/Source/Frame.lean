import NetHooks.Proofs.Source.Run

/-!
# Segments below

A step reads the innermost segment only: with further segments below the others it does the
same, and leaves those as they are (`Feed.step_above`).
-/
namespace NetHooks.Feed

variable {library : Library} {f g : Feed} {lines : List Line}

/-- The feed with further segments below its own. -/
def above (f : Feed) (tail : List Segment) : Feed :=
  { f with segments := f.segments ++ tail }

def Step.above (tail : List Segment) : Step → Step
  | .working g => .working (g.above tail)
  | .delivered line g => .delivered line (g.above tail)
  | .failed e g => .failed e (g.above tail)
  | .finished g => .finished (g.above tail)

theorem includeFiles_above (f : Feed) (tail : List Segment) (target : String) (level : Nat)
    (l : Location) : includeFiles library (f.above tail) target level l =
      (includeFiles library f target level l).above tail := by
  simp only [includeFiles]
  split
  · rfl
  split
  · split
    · rfl
    · simp [above, Step.above]
  · rfl

theorem obey_above (f : Feed) (tail : List Segment) (level : Nat) (l : Location) (d : Directive) :
    obey library (f.above tail) level l d = (obey library f level l d).above tail := by
  cases d with
  | «include» target => exact includeFiles_above f tail target level l
  | _ => rfl

/-- A line does the same above other segments. -/
theorem takeLine_above (f : Feed) (tail : List Segment) (level : Nat) (text : String)
    (l : Location) : takeLine library (f.above tail) level text l =
      (takeLine library f level text l).above tail := by
  simp only [takeLine]
  cases Directive.read (String.ofList (Text.firstToken text.toList)) text l with
  | error e => rfl
  | ok d? =>
      cases d? with
      | some d => exact obey_above f tail level l d
      | none =>
          simp only [above]
          cases f.definitions.substitute text <;> rfl

theorem openSegment_above (f : Feed) (tail : List Segment) (s : Segment) (below : List Segment) :
    openSegment library (f.above tail) s (below ++ tail) =
      (openSegment library f s below).above tail := by
  have hactive : (f.above tail).active = f.active := rfl
  simp only [openSegment, hactive]
  by_cases hopen : f.active.contains (library.identify s.path) = true
  · rw [if_pos hopen, if_pos hopen]
    rfl
  · rw [if_neg hopen, if_neg hopen]
    cases library.read s.path <;> rfl

theorem Reads.above {line : LogicalLine} {level : Nat} {l : Location} (h : f.Reads line level l g)
    (tail : List Segment) : (f.above tail).Reads line level l (g.above tail) := by
  cases h with
  | @intro s below _ _ _ _ segments reading fits =>
      have hsegments : (f.above tail).segments = s :: (below ++ tail) := by
        simp [Feed.above, segments]
      exact Reads.intro hsegments reading fits

/-- A step leaves the segments below the innermost as they are. -/
theorem step_above (h : f.segments ≠ []) (tail : List Segment) :
    step library (f.above tail) = (step library f).above tail := by
  have hsegments {s : Segment} {below : List Segment} (hs : f.segments = s :: below) :
      (f.above tail).segments = s :: (below ++ tail) := by simp [above, hs]
  rcases step_cases library f with ⟨hnil, -⟩ | ⟨s, below, hs, hreading, hstep⟩ |
    ⟨s, below, identity, hs, hreading, hstep⟩ |
    ⟨s, below, identity, line, rest, hs, hreading, hfit, hstep⟩ | ⟨line, level, l, g, hreads⟩
  · exact absurd hnil h
  · rw [hstep, ← openSegment_above, step_of_pending (hsegments hs) hreading]
  · rw [hstep, step_of_exhausted (hsegments hs) hreading]
    rfl
  · rw [hstep, step_of_unfit (hsegments hs) hreading hfit]
    rfl
  · rw [step_of_reads hreads, step_of_reads (hreads.above tail)]
    change (if isHidden g.guards then _ else _) = _
    split
    · rfl
    · exact takeLine_above g tail level line.text l

end NetHooks.Feed
