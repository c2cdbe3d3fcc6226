import NetHooks.Proofs.Source.Run
import Mathlib.Data.List.Nodup
import Mathlib.Data.List.Perm.Subperm

/-!
# Progress

Every step of a consistent feed leaves less work: a feed is consistent when its active
identities are those of its opened segments, without repetition and, the outermost apart, all
of files of the library. So the steps that `Feed.stream` takes are enough, and it is what the
feed yields.
-/
namespace NetHooks.Feed

variable {library : Library} {f g : Feed} {s : Segment} {segments below : List Segment}
  {line : Line} {e : SourceError}

/-! ### What a line leaves -/

/-- What a line at the level leaves of the feed: at most one guard more, and files to be opened
before what is being read. -/
structure Taken (library : Library) (level : Nat) (l : Location) (f g : Feed) : Prop where
  active_eq : g.active = f.active
  guards : g.guards = f.guards ∨ ∃ enabled, g.guards = ⟨level, enabled⟩ :: f.guards
  segments : ∃ paths : List String,
    g.segments = paths.map (Segment.pending · level (some l)) ++ f.segments ∧
      paths.length ≤ library.extent + 1

variable {level : Nat} {l : Location}

theorem Taken.of_eq (hactive : g.active = f.active) (hguards : g.guards = f.guards)
    (hsegments : g.segments = f.segments) : Taken library level l f g :=
  ⟨hactive, .inl hguards, [], hsegments, by simp⟩

theorem taken_obey (library : Library) (f : Feed) (level : Nat) (l : Location) (d : Directive) :
    Taken library level l f (obey library f level l d).feed := by
  cases d with
  | define identifier value => exact .of_eq rfl rfl rfl
  | undefine identifier => exact .of_eq rfl rfl rfl
  | guard identifier wanted => exact ⟨rfl, .inr ⟨_, rfl⟩, [], rfl, by simp⟩
  | «include» target =>
      simp only [obey, includeFiles]
      split
      next => exact ⟨rfl, .inl rfl, [_], rfl, by simp⟩
      split
      · split
        next => exact .of_eq rfl rfl rfl
        next paths hpaths =>
          have := library.length_members_le hpaths
          exact ⟨rfl, .inl rfl, paths, rfl, by omega⟩
      next => exact .of_eq rfl rfl rfl

theorem taken_takeLine (library : Library) (f : Feed) (level : Nat) (text : String) (l : Location) :
    Taken library level l f (takeLine library f level text l).feed := by
  simp only [takeLine]
  split
  · exact .of_eq rfl rfl rfl
  · exact taken_obey ..
  · split <;> exact .of_eq rfl rfl rfl

/-- A line that is read is hidden or taken. -/
theorem Reads.taken (library : Library) {line : LogicalLine} (h : f.Reads line level l g) :
    Taken library level l g (step library f).feed := by
  rw [step_of_reads h]
  split
  · exact .of_eq rfl rfl rfl
  · exact taken_takeLine ..

/-! ### Consistent feeds -/

/-- The identities of the opened segments, innermost first. -/
def openIdentities (segments : List Segment) : List String :=
  segments.filterMap fun s => s.reading.map (·.identity)

theorem openIdentities_append_of_pending (paths : List String) (level : Nat) (site : Option Location)
    (segments : List Segment) :
    openIdentities (paths.map (Segment.pending · level site) ++ segments) =
      openIdentities segments := by
  induction paths with
  | nil => rfl
  | cons path paths ih => exact ih

theorem countP_isOpen (segments : List Segment) :
    segments.countP Segment.isOpen = (openIdentities segments).length := by
  induction segments with
  | nil => rfl
  | cons s segments ih =>
      cases h : s.reading <;> simp_all [openIdentities, Segment.isOpen]

structure Consistent (library : Library) (f : Feed) : Prop where
  active_eq : f.active = openIdentities f.segments
  nodup : f.active.Nodup
  /-- A text that was given, and not read, can be outermost only. -/
  known : ∀ identity ∈ f.active.dropLast, identity ∈ library.files

theorem consistent_ofText (library : Library) (path text : String) :
    (ofText library path text).Consistent library :=
  ⟨rfl, by simp [ofText], by simp [ofText]⟩

theorem consistent_ofFile (library : Library) (path : String) :
    (ofFile path).Consistent library :=
  ⟨rfl, by simp [ofFile], by simp [ofFile]⟩

theorem Consistent.of_eq (h : f.Consistent library) (hactive : g.active = f.active)
    (hopen : openIdentities g.segments = openIdentities f.segments) : g.Consistent library :=
  ⟨by rw [hactive, hopen, h.active_eq], hactive ▸ h.nodup, hactive ▸ h.known⟩

theorem Reads.openIdentities_eq {line : LogicalLine}
    (h : f.Reads line level l g) : openIdentities g.segments = openIdentities f.segments := by
  cases h with
  | intro segments reading _ => simp [openIdentities, segments, reading]

theorem Consistent.openSegment (h : f.Consistent library) (hsegments : f.segments = s :: below)
    (hs : s.reading = none) : (openSegment library f s below).feed.Consistent library := by
  simp only [Feed.openSegment]
  split
  · exact h
  next hnew =>
    split
    · exact h
    next text htext =>
      refine ⟨?_, ?_, ?_⟩
      · simp [Step.feed, h.active_eq, hsegments, openIdentities, hs]
      · exact List.nodup_cons.2 ⟨by simpa using hnew, h.nodup⟩
      · intro identity hidentity
        change identity ∈ (library.identify s.path :: f.active).dropLast at hidentity
        cases hactive : f.active with
        | nil => simp [hactive] at hidentity
        | cons a as =>
            rw [hactive, List.dropLast_cons_of_ne_nil (by simp), List.mem_cons] at hidentity
            rcases hidentity with rfl | hidentity
            · exact library.identify_mem htext
            · exact h.known identity (hactive ▸ hidentity)

/-- Steps keep a feed consistent, also a step that fails. -/
theorem Consistent.step (h : f.Consistent library) : (step library f).feed.Consistent library := by
  rcases step_cases library f with ⟨-, hstep⟩ | ⟨s, below, hsegments, hs, hstep⟩ |
    ⟨s, below, identity, hsegments, hs, hstep⟩ |
    ⟨s, below, identity, line, rest, hsegments, hs, -, hstep⟩ | ⟨line, level, l, g, hreads⟩
  · exact hstep ▸ h
  · exact hstep ▸ h.openSegment hsegments hs
  · have hactive : f.active = identity :: openIdentities below := by
      simp [h.active_eq, hsegments, openIdentities, hs]
    obtain ⟨hfresh, hnodup⟩ := List.nodup_cons.1 (hactive ▸ h.nodup)
    have hclosed : f.active.filter (· ≠ identity) = openIdentities below := by
      rw [hactive, List.filter_cons_of_neg (by simp), List.filter_eq_self.2]
      intro a ha
      exact decide_eq_true fun heq => hfresh (heq ▸ ha)
    rw [hstep]
    refine ⟨hclosed, hclosed ▸ hnodup, fun a ha => h.known a ?_⟩
    change a ∈ (f.active.filter (· ≠ identity)).dropLast at ha
    rw [hclosed] at ha
    rw [hactive, List.dropLast_cons_of_ne_nil (by rintro hnil; simp [hnil] at ha)]
    exact List.mem_cons_of_mem _ ha
  · rw [hstep]
    exact h.of_eq rfl (by simp [openIdentities, Step.feed, hsegments, hs])
  · have hg : g.Consistent library := h.of_eq hreads.active_eq hreads.openIdentities_eq
    have htaken := hreads.taken library
    obtain ⟨paths, hleft, -⟩ := htaken.segments
    refine hg.of_eq htaken.active_eq ?_
    rw [hleft, openIdentities_append_of_pending]

/-- There are no more opened segments than files, and one for a text that was given. -/
theorem Consistent.length_active_le (h : f.Consistent library) :
    f.active.length ≤ library.files.length + 1 := by
  have hsub := List.subperm_of_subset (h.nodup.sublist (List.dropLast_sublist _)) h.known
  have := hsub.length_le
  rw [List.length_dropLast] at this
  omega

/-! ### Work -/

theorem work_append_of_pending (paths : List String) (level : Nat) (site : Option Location)
    (segments : List Segment) :
    work library (paths.map (Segment.pending · level site) ++ segments) = work library segments +
      paths.length * fileCost library.extent (closedFiles library segments) := by
  induction paths with
  | nil => simp
  | cons path paths ih =>
      have hclosed : closedFiles library (paths.map (Segment.pending · level site) ++ segments) =
          closedFiles library segments := by
        simp only [closedFiles, countP_isOpen, openIdentities_append_of_pending]
      rw [List.map_cons, List.cons_append, work, ih, hclosed, List.length_cons,
        Nat.add_one_mul paths.length]
      dsimp only [Segment.pending]
      omega

/-- Opening a file costs what is set aside for it. -/
theorem work_openSegment_lt (h : f.Consistent library) (hsegments : f.segments = s :: below)
    (hs : s.reading = none) (hstep : openSegment library f s below = .working g) :
    work library g.segments < work library f.segments := by
  have hopened := h.openSegment hsegments hs
  rw [hstep] at hopened
  have hroom := hopened.length_active_le
  simp only [Feed.openSegment] at hstep
  split at hstep
  · cases hstep
  · split at hstep
    · cases hstep
    next text htext =>
      cases hstep
      have hbelow : f.active.length = (openIdentities below).length := by
        simp [h.active_eq, hsegments, openIdentities, hs]
      obtain ⟨room, hroom⟩ : ∃ room, closedFiles library below = room + 1 := by
        simp only [Step.feed, List.length_cons] at hroom
        refine ⟨library.files.length - (openIdentities below).length, ?_⟩
        rw [closedFiles, countP_isOpen]
        omega
      have hlength : (logicalLines text).length ≤ library.extent + 1 := by
        have hread := library.length_read_le htext
        have hlines := LogicalLine.length_ofChars_le text.toList
        rw [logicalLines]
        simp only [String.length_toList] at hlines
        omega
      have hmul := Nat.mul_le_mul_right
        (1 + (library.extent + 1) * fileCost library.extent room) hlength
      simp only [hsegments, work, hs, hroom, fileCost, Nat.add_sub_cancel]
      omega

/-- A line that was read has paid for the files that it includes. -/
theorem work_lt_of_reads {line : LogicalLine} (hreads : f.Reads line level l g) :
    work library (step library f).feed.segments < work library f.segments := by
  have htaken := hreads.taken library
  obtain ⟨paths, hleft, hlength⟩ := htaken.segments
  rw [hleft, work_append_of_pending]
  cases hreads with
  | @intro s below identity line rest levels hsegments hs hfit =>
      have hclosed : closedFiles library ({ s with reading := some ⟨identity, rest⟩, levels } :: below) =
          closedFiles library below - 1 := by
        simp only [closedFiles, List.countP_cons, Segment.isOpen, Option.isSome_some, if_true]
        omega
      have hmul := Nat.mul_le_mul_right
        (fileCost library.extent (closedFiles library below - 1)) hlength
      simp only [hsegments, work, hs, hclosed, List.length_cons, Nat.add_one_mul rest.length]
      omega

theorem work_lt_of_step (h : f.Consistent library)
    (hstep : step library f = .working g ∨ ∃ line, step library f = .delivered line g) :
    work library g.segments < work library f.segments := by
  have hg : g = (step library f).feed := by
    rcases hstep with hstep | ⟨line, hstep⟩ <;> rw [hstep, Step.feed]
  rcases step_cases library f with ⟨-, heq⟩ | ⟨s, below, hsegments, hs, heq⟩ |
    ⟨s, below, identity, hsegments, hs, heq⟩ |
    ⟨s, below, identity, line, rest, hsegments, hs, -, heq⟩ | ⟨line, level, l, g', hreads⟩
  · simp [heq] at hstep
  · rcases hstep with hstep | ⟨line, hstep⟩
    · exact work_openSegment_lt h hsegments hs (heq ▸ hstep)
    · rw [heq, Feed.openSegment] at hstep
      split at hstep
      · cases hstep
      · split at hstep <;> cases hstep
  · rw [hg, heq]
    simp [Step.feed, hsegments, work, hs]
  · simp [heq] at hstep
  · rw [hg]
    exact work_lt_of_reads hreads

theorem Consistent.of_step (h : f.Consistent library)
    (hstep : Feed.step library f = .working g ∨ ∃ line, Feed.step library f = .delivered line g) :
    g.Consistent library := by
  have hg := h.step
  rcases hstep with hstep | ⟨line, hstep⟩ <;> simpa [hstep, Step.feed] using hg

theorem yields_drain {fuel : Nat} (h : f.Consistent library)
    (hfuel : work library f.segments < fuel) : Yields library f (drain library fuel f) := by
  induction fuel generalizing f with
  | zero => exact absurd hfuel (Nat.not_lt_zero _)
  | succ fuel ih =>
      have hnext : ∀ g, (step library f = .working g ∨ ∃ line, step library f = .delivered line g) →
          Yields library g (drain library fuel g) := by
        intro g hg
        have hlt := work_lt_of_step h hg
        exact ih (h.of_step hg) (by omega)
      cases hstep : step library f with
      | working g => simpa [drain, hstep] using Yields.working hstep (hnext g (.inl hstep))
      | delivered line g =>
          simpa [drain, hstep, Stream.after] using
            Yields.delivered hstep (hnext g (.inr ⟨line, hstep⟩))
      | failed e g => simpa [drain, hstep] using Yields.failed hstep
      | finished g => simpa [drain, hstep] using Yields.finished hstep

/-- Enough steps are taken to come to the end. -/
theorem Consistent.yields_stream (h : f.Consistent library) :
    Yields library f (stream library f) :=
  yields_drain h (Nat.lt_succ_of_le (work_le_allowance library f.segments))

theorem Consistent.stream_eq (h : f.Consistent library) {s : Stream} (hs : Yields library f s) :
    stream library f = s :=
  h.yields_stream.unique hs

end NetHooks.Feed
