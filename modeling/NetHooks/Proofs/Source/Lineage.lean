import NetHooks.Proofs.Source.Reachable

/-!
# Files that include each other

The files that are open are a chain from the innermost to the root: an include line of each
names the one before it (`Feed.Lineage`). A file that waits to be opened belongs on top of the
chain, so it includes itself when a file of the chain is the same. Exactly then its include line
is reported as recursive (`Feed.recursiveInclude_iff`).
-/
namespace NetHooks

def Origin.path : Origin → String
  | file path | text path _ => path

/-- The path is what an include line of the file names by the target: a file, or a member of a
directory. -/
def Library.Finds (library : Library) (file target path : String) : Prop :=
  let named := Path.join ((Path.parent? file).getD "") target
  if library.isFile named then path = named
  else library.isDirectory named = true ∧ ∃ paths, library.members named = .ok paths ∧ path ∈ paths

namespace Feed

variable {library : Library} {origin : Origin} {f g : Feed} {s s' t : Segment}
  {segments below ts : List Segment} {line : LogicalLine} {level : Nat} {l : Location}

/-! ### Includes -/

/-- The text that a segment is read from: of the root it may be given. -/
def sourceText (library : Library) (origin : Origin) (s : Segment) : Except SystemError String :=
  match origin, s.site with
  | .text _ content, none => .ok content
  | _, _ => library.read s.path

/-- A line of the segment's text is an include line that names the path. -/
inductive Includes (library : Library) (origin : Origin) (t : Segment) : Location → String → Prop
  | intro {text target path : String} {line : LogicalLine}
      (source : sourceText library origin t = .ok text) (mem : line ∈ logicalLines text)
      (reads : Directive.read line.keyword line.text ⟨t.path, line.number⟩ =
        .ok (some (.include target)))
      (finds : library.Finds t.path target path) :
      Includes library origin t ⟨t.path, line.number⟩ path

/-- The files that the segment was included by: the file with its include line, the file with
that one's, and so on up to the root. -/
inductive Lineage (library : Library) (origin : Origin) : Segment → List Segment → Prop
  | root {s : Segment} (site : s.site = none) (path : s.path = origin.path) :
      Lineage library origin s []
  | included {s t : Segment} {ts : List Segment} {l : Location} (site : s.site = some l)
      (includes : Includes library origin t l s.path) (outer : Lineage library origin t ts) :
      Lineage library origin s (t :: ts)

theorem Lineage.congr (h : Lineage library origin s ts) (hpath : s'.path = s.path)
    (hsite : s'.site = s.site) : Lineage library origin s' ts := by
  cases h with
  | root site path => exact .root (hsite.trans site) (hpath.trans path)
  | included site includes outer =>
      exact .included (hsite.trans site) (hpath.symm ▸ includes) outer

theorem sourceText_congr (hpath : s'.path = s.path) (hsite : s'.site = s.site) :
    sourceText library origin s' = sourceText library origin s := by
  simp only [sourceText, hpath, hsite]

/-- The files that a line puts before what is being read are those that it names. -/
theorem exists_pending_of_reads (library : Library) (h : f.Reads line level l g) :
    ∃ paths : List String,
      (step library f).feed.segments = paths.map (Segment.pending · level (some l)) ++ g.segments ∧
      ∀ path ∈ paths, ∃ target, Directive.read line.keyword line.text l =
        .ok (some (.include target)) ∧ library.Finds l.file target path := by
  have hnone : ∃ paths : List String,
      g.segments = paths.map (Segment.pending · level (some l)) ++ g.segments ∧
      ∀ path ∈ paths, ∃ target, Directive.read line.keyword line.text l =
        .ok (some (.include target)) ∧ library.Finds l.file target path :=
    ⟨[], rfl, by simp⟩
  rw [step_of_reads h]
  split
  · exact hnone
  cases hread : Directive.read line.keyword line.text l with
  | error e =>
      rw [takeLine_of_error hread]
      exact hread ▸ hnone
  | ok d? =>
      rw [hread] at hnone
      rcases d? with _ | ⟨target | _ | _ | _⟩
      · rw [takeLine_of_none hread]
        split <;> exact hnone
      · rw [takeLine_of_directive hread]
        simp only [obey, includeFiles]
        split
        next hfile => exact ⟨[_], rfl, by simp [Library.Finds, hfile]⟩
        next hfile =>
          split
          next hdirectory =>
            split
            · exact hnone
            next paths hmembers =>
              exact ⟨paths, rfl, fun path hpath => ⟨target, rfl, by
                simp [Library.Finds, hfile, hdirectory, hmembers, hpath]⟩⟩
          · exact hnone
      all_goals
        rw [takeLine_of_directive hread]
        exact hnone

/-! ### Stacks of segments -/

/-- An opened segment is known by its file and goes on with its text; one that waits will be
read from its file. -/
structure Sourced (library : Library) (origin : Origin) (s : Segment) : Prop where
  waits : s.reading = none → sourceText library origin s = library.read s.path
  identity : ∀ r ∈ s.reading, r.identity = library.identify s.path
  rest : ∀ r ∈ s.reading, ∃ text, sourceText library origin s = .ok text ∧
    r.rest <:+ logicalLines text

/-- Below each segment the opened ones are its lineage. -/
inductive Stacked (library : Library) (origin : Origin) : List Segment → Prop
  | nil : Stacked library origin []
  | cons {s : Segment} {below : List Segment} (sourced : Sourced library origin s)
      (lineage : Lineage library origin s (below.filter Segment.isOpen))
      (rest : Stacked library origin below) : Stacked library origin (s :: below)

theorem sourced_pending (path : String) (level : Nat) (l : Location) :
    Sourced library origin (.pending path level (some l)) where
  waits _ := by cases origin <;> rfl
  identity := nofun
  rest := nofun

/-- The next line of a file is taken. -/
theorem Sourced.next {identity : String} {rest : List LogicalLine} (h : Sourced library origin s)
    (hreading : s.reading = some ⟨identity, line :: rest⟩) (hpath : s'.path = s.path)
    (hsite : s'.site = s.site) (hreading' : s'.reading = some ⟨identity, rest⟩) :
    Sourced library origin s' where
  waits hnone := by simp [hreading'] at hnone
  identity := by
    rw [hreading', hpath]
    rintro r ⟨⟩
    exact (h.identity _ hreading :)
  rest := by
    rw [hreading', sourceText_congr hpath hsite]
    rintro r ⟨⟩
    obtain ⟨text, htext, hsuffix⟩ := h.rest _ hreading
    exact ⟨text, htext, (List.suffix_cons line rest).trans hsuffix⟩

theorem Stacked.next {identity : String} {rest : List LogicalLine}
    (h : Stacked library origin (s :: below))
    (hreading : s.reading = some ⟨identity, line :: rest⟩) (hpath : s'.path = s.path)
    (hsite : s'.site = s.site) (hreading' : s'.reading = some ⟨identity, rest⟩) :
    Stacked library origin (s' :: below) := by
  cases h with
  | cons sourced lineage rest =>
      exact .cons (sourced.next hreading hpath hsite hreading') (lineage.congr hpath hsite) rest

/-- The files that an include line of the innermost opened file names are put on top. -/
theorem Stacked.pending {paths : List String} (h : Stacked library origin (t :: below))
    (hopen : t.isOpen = true) (hpaths : ∀ path ∈ paths, Includes library origin t l path) :
    Stacked library origin (paths.map (Segment.pending · level (some l)) ++ t :: below) := by
  induction paths with
  | nil => exact h
  | cons path paths ih =>
      obtain ⟨hpath, hpaths⟩ := List.forall_mem_cons.1 hpaths
      have hwaiting : (paths.map (Segment.pending · level (some l))).filter Segment.isOpen = [] := by
        simp [Segment.pending, Segment.isOpen]
      refine .cons (sourced_pending path level l) ?_ (ih hpaths)
      have hopened : (paths.map (Segment.pending · level (some l)) ++ t :: below).filter
          Segment.isOpen = t :: below.filter Segment.isOpen := by
        rw [List.filter_append, hwaiting, List.nil_append, List.filter_cons_of_pos hopen]
      rw [List.append_eq, hopened]
      cases h with
      | cons _ lineage _ => exact .included rfl hpath lineage

theorem Stacked.openSegment (h : Stacked library origin f.segments)
    (hsegments : f.segments = s :: below) (hs : s.reading = none) :
    Stacked library origin (openSegment library f s below).feed.segments := by
  simp only [Feed.openSegment]
  split
  · exact h
  split
  · exact h
  next text htext =>
    rw [hsegments] at h
    cases h with
    | cons sourced lineage rest =>
        have hsource : sourceText library origin s = .ok text := (sourced.waits hs).trans htext
        refine .cons ⟨?_, ?_, ?_⟩ (lineage.congr rfl rfl) rest
        · rintro ⟨⟩
        · rintro r ⟨⟩
          rfl
        · rintro r ⟨⟩
          exact ⟨text, hsource, List.suffix_refl _⟩

/-- Steps keep the lineages, also a step that fails. -/
theorem Stacked.step (h : Stacked library origin f.segments) :
    Stacked library origin (step library f).feed.segments := by
  rcases step_cases library f with ⟨-, hstep⟩ | ⟨s, below, hsegments, hs, hstep⟩ |
    ⟨s, below, identity, hsegments, hs, hstep⟩ |
    ⟨s, below, identity, line, rest, hsegments, hs, -, hstep⟩ | ⟨line, level, l, g, hreads⟩
  · exact hstep ▸ h
  · exact hstep ▸ h.openSegment hsegments hs
  · rw [hsegments] at h
    rw [hstep]
    cases h with
    | cons _ _ rest => exact rest
  · rw [hsegments] at h
    rw [hstep]
    exact h.next hs rfl rfl rfl
  · obtain ⟨paths, hleft, hpaths⟩ := exists_pending_of_reads library hreads
    rw [hleft]
    cases hreads with
    | @intro s below identity line rest levels hsegments hs hfit =>
        rw [hsegments] at h
        have hnext : Stacked library origin
            ({ s with reading := some ⟨identity, rest⟩, levels } :: below) := h.next hs rfl rfl rfl
        refine hnext.pending rfl fun path hpath => ?_
        obtain ⟨target, hread, hfinds⟩ := hpaths path hpath
        cases h with
        | cons sourced _ _ =>
            obtain ⟨text, htext, hsuffix⟩ := sourced.rest _ hs
            exact .intro htext (hsuffix.subset List.mem_cons_self) hread hfinds

theorem stacked_origin (library : Library) (origin : Origin) :
    Stacked library origin (origin.feed library).segments := by
  cases origin with
  | file path => exact .cons ⟨fun _ => rfl, nofun, nofun⟩ (.root rfl rfl) .nil
  | text path content =>
      refine .cons ⟨nofun, ?_, ?_⟩ (.root rfl rfl) .nil
      · rintro r ⟨⟩
        rfl
      · rintro r ⟨⟩
        exact ⟨content, rfl, List.suffix_refl _⟩

theorem Reaches.stacked (h : Reaches library (origin.feed library) f) :
    Stacked library origin f.segments :=
  h.keeps (P := fun f => Stacked library origin f.segments) (fun _ => Stacked.step)
    (stacked_origin library origin)

/-- The segments that are opened, innermost first. -/
def opened (f : Feed) : List Segment :=
  f.segments.filter Segment.isOpen

theorem Stacked.openIdentities_eq (h : Stacked library origin segments) :
    openIdentities segments = (segments.filter Segment.isOpen).map (library.identify ·.path) := by
  induction h with
  | nil => rfl
  | @cons s below sourced lineage rest ih =>
      cases hreading : s.reading with
      | none => simpa [openIdentities, Segment.isOpen, hreading] using ih
      | some r =>
          have hidentity := sourced.identity r hreading
          simpa [openIdentities, Segment.isOpen, hreading, hidentity] using ih

theorem Stacked.lineage_opened (h : Stacked library origin segments)
    (hopened : segments.filter Segment.isOpen = t :: ts) : Lineage library origin t ts := by
  induction h with
  | nil => cases hopened
  | @cons s below sourced lineage rest ih =>
      cases hopen : s.isOpen with
      | false => exact ih (by simpa [hopen] using hopened)
      | true =>
          rw [List.filter_cons_of_pos hopen] at hopened
          obtain ⟨rfl, rfl⟩ := List.cons.inj hopened
          exact lineage

/-! ### Recursive includes -/

theorem Reaches.active_eq (h : Reaches library (origin.feed library) f) :
    f.active = f.opened.map (library.identify ·.path) :=
  h.consistent.active_eq.trans h.stacked.openIdentities_eq

theorem Reaches.lineage_waiting (h : Reaches library (origin.feed library) f)
    (hsegments : f.segments = s :: below) (hs : s.reading = none) :
    Lineage library origin s f.opened := by
  have hstacked := h.stacked
  rw [hsegments] at hstacked
  have hopened : f.opened = below.filter Segment.isOpen := by
    simp [opened, hsegments, Segment.isOpen, hs]
  cases hstacked with
  | cons _ lineage _ => exact hopened ▸ lineage

/-- A step complains about a recursive include only where it should open a file. -/
theorem exists_waiting_of_recursiveInclude {path : String} {place : Location}
    (h : step library f = .failed (.recursiveInclude path place) g) :
    ∃ s below, f.segments = s :: below ∧ s.reading = none ∧
      openSegment library f s below = .failed (.recursiveInclude path place) g := by
  rcases step_cases library f with ⟨-, hstep⟩ | ⟨s, below, hsegments, hs, hstep⟩ |
    ⟨s, below, identity, -, -, hstep⟩ | ⟨s, below, identity, line, rest, -, -, -, hstep⟩ |
    ⟨line, level, l, f', hreads⟩
  · simp [hstep] at h
  · exact ⟨s, below, hsegments, hs, hstep.symm.trans h⟩
  · simp [hstep] at h
  · simp [hstep] at h
  · rw [step_of_reads hreads] at h
    split at h
    · cases h
    · cases hread : Directive.read line.keyword line.text l with
      | error e =>
          rw [takeLine_of_error hread] at h
          cases h
          cases Directive.ofDirective_of_read hread
      | ok d? =>
          rcases d? with _ | ⟨target | _ | _ | _⟩
          · rw [takeLine_of_none hread] at h
            split at h <;> cases h
          · rw [takeLine_of_directive hread] at h
            simp only [obey, includeFiles] at h
            split at h
            · cases h
            split at h
            · split at h <;> cases h
            · cases h
          all_goals
            rw [takeLine_of_directive hread] at h
            cases h

/-- A file that waits is refused when it is the same as a file of its lineage. -/
theorem step_eq_recursiveInclude_iff (h : Reaches library (origin.feed library) f)
    {path : String} {place : Location} :
    step library f = .failed (.recursiveInclude path place) g ↔
      g = f ∧ ∃ s below, f.segments = s :: below ∧ s.reading = none ∧ s.path = path ∧
        s.site = some place ∧ ∃ t ∈ f.opened, library.identify t.path = library.identify path := by
  constructor
  · intro hstep
    obtain ⟨s, below, hsegments, hs, hopen⟩ := exists_waiting_of_recursiveInclude hstep
    rw [openSegment] at hopen
    split at hopen
    next hactive =>
      rw [List.contains_iff_mem, h.active_eq, List.mem_map] at hactive
      obtain ⟨t, ht, hsame⟩ := hactive
      have hlineage := h.lineage_waiting hsegments hs
      cases hopened : f.opened with
      | nil => simp [hopened] at ht
      | cons u us =>
          rw [hopened] at hlineage
          cases hlineage with
          | @included _ _ _ l site includes outer =>
              rw [site] at hopen
              cases hopen
              exact ⟨rfl, s, below, hsegments, hs, rfl, site, t, hopened ▸ ht, hsame⟩
    · split at hopen <;> cases hopen
  · rintro ⟨rfl, s, below, hsegments, hs, rfl, hsite, t, ht, hsame⟩
    have hactive : library.identify s.path ∈ g.active := by
      rw [h.active_eq, ← hsame]
      exact List.mem_map_of_mem ht
    rw [step_of_pending hsegments hs, openSegment]
    simp [hactive, hsite]

/-- A file that is read to its end is the same as none of those that stay open. -/
theorem identify_ne_of_exhausted (h : Reaches library (origin.feed library) f)
    {identity : String} (hsegments : f.segments = t :: below)
    (hreading : t.reading = some ⟨identity, []⟩) :
    ∀ u ∈ (step library f).feed.opened, library.identify u.path ≠ library.identify t.path := by
  have hstacked := h.stacked
  have hnodup : (openIdentities f.segments).Nodup := h.consistent.active_eq ▸ h.consistent.nodup
  rw [hstacked.openIdentities_eq, hsegments,
    List.filter_cons_of_pos (by simp [Segment.isOpen, hreading]), List.map_cons,
    List.nodup_cons] at hnodup
  rw [step_of_exhausted hsegments hreading]
  exact fun u hu hsame => hnodup.1 (hsame ▸ List.mem_map_of_mem hu)

/-- In every feed that is reached, the active identities are those of the open files, each of
them once, and the open files are a lineage up to the root, as they are for a file that waits to
be opened. This file is refused, at its include line, exactly when it is the same as a file of
its lineage. So a file that was read to its end is not refused while no other files are open
than were open around it. -/
theorem recursiveInclude_iff (h : Reaches library (origin.feed library) f) :
    f.active = f.opened.map (library.identify ·.path) ∧ f.active.Nodup ∧
    (∀ t ts, f.opened = t :: ts → Lineage library origin t ts) ∧
    (∀ s below, f.segments = s :: below → s.reading = none → Lineage library origin s f.opened) ∧
    (∀ path place g, step library f = .failed (.recursiveInclude path place) g ↔
      g = f ∧ ∃ s below, f.segments = s :: below ∧ s.reading = none ∧ s.path = path ∧
        s.site = some place ∧ ∃ t ∈ f.opened, library.identify t.path = library.identify path) ∧
    ∀ t below identity, f.segments = t :: below → t.reading = some ⟨identity, []⟩ →
      let closed := (step library f).feed
      closed.segments = below ∧
      ∀ f', Reaches library (origin.feed library) f' →
        f'.opened.map Segment.path = closed.opened.map Segment.path →
        ∀ path, library.identify path = library.identify t.path →
          ∀ place g, step library f' ≠ .failed (.recursiveInclude path place) g := by
  refine ⟨h.active_eq, h.consistent.nodup, fun t ts => h.stacked.lineage_opened,
    fun s below => h.lineage_waiting, fun path place g => step_eq_recursiveInclude_iff h, ?_⟩
  intro t below identity hsegments hreading closed
  refine ⟨by simp [closed, step_of_exhausted hsegments hreading, Step.feed], ?_⟩
  intro f' hf' hpaths path hpath place g hstep
  obtain ⟨-, s, -, -, -, -, -, u, hu, hsame⟩ := (step_eq_recursiveInclude_iff hf').1 hstep
  have hmem : u.path ∈ closed.opened.map Segment.path :=
    hpaths ▸ List.mem_map_of_mem hu
  obtain ⟨v, hv, hvu⟩ := List.mem_map.1 hmem
  exact identify_ne_of_exhausted h hsegments hreading v hv (by rw [hvu, hsame, hpath])

/-- A file that is included twice in sequence, before one that includes the root again. -/
theorem recursiveInclude_iff_ring :
    let library := Library.ofTexts
      (((Catalog.empty.insert "a" "include b\ninclude b\ninclude c\n").insert "b" "\n").insert "c"
        "include a\n")
    let feed (n : Nat) := n.repeat (fun f => (step library f).feed) ((Origin.file "a").feed library)
    (feed 3).opened.map (·.path) = ["b", "a"] ∧
      (∀ place g, step library (feed 5) ≠ .failed (.recursiveInclude "b" place) g) ∧
      step library (feed 10) = .failed (.recursiveInclude "a" ⟨"c", 1⟩) (feed 10) := by
  intro library feed
  have hreached (n : Nat) : Reaches library ((Origin.file "a").feed library) (feed n) := by
    induction n with
    | zero => exact .refl
    | succ n ih => exact .step ih
  have hend : (feed 3).segments = [⟨"b", 0, .empty, some ⟨"b", []⟩, some ⟨"a", 1⟩⟩,
      ⟨"a", 0, ⟨[0]⟩, some ⟨"a", [⟨2, 0, "include b"⟩, ⟨3, 0, "include c"⟩]⟩, none⟩] := by
    decide +kernel
  have hwaits : (feed 10).segments = [.pending "a" 0 (some ⟨"c", 1⟩),
      ⟨"c", 0, ⟨[0]⟩, some ⟨"c", []⟩, some ⟨"a", 3⟩⟩, ⟨"a", 0, ⟨[0]⟩, some ⟨"a", []⟩, none⟩] := by
    decide +kernel
  refine ⟨by decide +kernel, ?_, ?_⟩
  · exact ((recursiveInclude_iff (hreached 3)).2.2.2.2.2 _ _ "b" hend rfl).2 (feed 5) (hreached 5)
      (by decide +kernel) "b" rfl
  · refine ((recursiveInclude_iff (hreached 10)).2.2.2.2.1 "a" ⟨"c", 1⟩ (feed 10)).2
      ⟨rfl, _, _, hwaits, rfl, rfl, rfl, ⟨"a", 0, ⟨[0]⟩, some ⟨"a", []⟩, none⟩, ?_, rfl⟩
    rw [opened, hwaits]
    decide +kernel

end Feed

end NetHooks
