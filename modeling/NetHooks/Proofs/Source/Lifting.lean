import NetHooks.Proofs.Source.Reachable
import Mathlib.Logic.Function.Iterate

/-!
# Lifted lines

A delivered line is lifted by one level for each guard over it, and there are never more guards than
levels to give up: the guards stand one inside another, above the line. This does not depend on the
files keeping still, nor on what failed before (`Feed.Visited`). What is kept from line to line are
facts about the memory alone (`Memory.Ordered`).
-/
namespace NetHooks

/-! ### Identifiers -/

/-- A letter, then letters, digits, underscores and dots. -/
def IsIdentifier (s : String) : Prop :=
  ∃ first rest, s.toList = first :: rest ∧ first.isAlpha = true ∧
    ∀ c ∈ rest, c.isAlphanum = true ∨ c = '_' ∨ c = '.'

theorem isIdentifier_iff {s : String} : isIdentifier s = true ↔ IsIdentifier s := by
  rw [isIdentifier, IsIdentifier]
  cases s.toList with
  | nil => simp
  | cons first rest => simp [or_assoc]

/-! ### What is remembered -/

namespace Memory

/-- Guards stand one inside another, none but the innermost hides, and what is defined are
identifiers. -/
structure Ordered (m : Memory) : Prop where
  guards : m.guards.Pairwise fun inner around =>
    around.level < inner.level ∧ around.enabled = true
  identifiers : ∀ name, m.definitions.get? name ≠ none → IsIdentifier name

variable {m : Memory} {level : Nat} {d : Directive} {keyword first : String}
  {operands : List String}

theorem ordered_empty : empty.Ordered :=
  ⟨.nil, fun _ h => absurd rfl h⟩

theorem Ordered.nested (h : m.Ordered) : Feed.Nested m.guards :=
  h.guards.imp fun hguard => hguard.1

theorem Ordered.enabled_of_mem_tail (h : m.Ordered) {g : Guard} (hg : g ∈ m.guards.tail) :
    g.enabled = true := by
  have hguards := h.guards
  cases hm : m.guards with
  | nil => simp [hm] at hg
  | cons inner around =>
      rw [hm] at hguards hg
      exact ((List.pairwise_cons.1 hguards).1 g hg).2

/-- When the innermost guard does not hide, none does. -/
theorem Ordered.enabled (h : m.Ordered) (hvisible : Feed.isHidden m.guards = false) :
    ∀ g ∈ m.guards, g.enabled = true := by
  intro g hg
  have htail := fun around => h.enabled_of_mem_tail (g := around)
  cases hm : m.guards with
  | nil => simp [hm] at hg
  | cons inner around =>
      rw [hm] at hvisible hg htail
      rcases List.mem_cons.1 hg with rfl | hg
      · simpa [Feed.isHidden] using hvisible
      · exact htail g hg

/-- Guards are dropped from the inside. -/
theorem Ordered.standing (h : m.Ordered) (level : Nat) :
    Ordered { m with guards := Feed.standing m.guards level } where
  guards := h.guards.sublist (Feed.standing_suffix m.guards level).sublist
  identifiers := h.identifiers

/-- A directive that no guard hides keeps the order: a guard is put inside all others, and only an
identifier is defined. -/
theorem Ordered.follow (h : m.Ordered) (hvisible : Feed.isHidden m.guards = false)
    (hlt : ∀ g ∈ m.guards, g.level < level) (hspells : Directive.Spells keyword first operands d) :
    (m.follow level d).Ordered := by
  have hinsert : ∀ identifier value, isIdentifier identifier = true →
      Ordered { m with definitions := m.definitions.insert identifier value } := by
    intro identifier value hvalid
    refine ⟨h.guards, fun name hname => ?_⟩
    by_cases heq : name = identifier
    · exact heq ▸ isIdentifier_iff.1 hvalid
    · exact h.identifiers name (by simpa [heq] using hname)
  cases hspells with
  | «include» target => exact h
  | defineEmpty identifier _ hvalid => exact hinsert identifier _ hvalid
  | define identifier value _ hvalid => exact hinsert identifier value hvalid
  | undefine identifier =>
      refine ⟨h.guards, fun name hname => h.identifiers name ?_⟩
      by_cases heq : name = identifier
      · simp [follow, heq] at hname
      · simpa [follow, heq] using hname
  | guard identifier =>
      refine ⟨List.pairwise_cons.2 ⟨fun g hg => ?_, h.guards⟩, h.identifiers⟩
      exact ⟨hlt g hg, h.enabled hvisible g hg⟩

end Memory

namespace Feed

variable {library : Library} {f g : Feed} {delivered : Line} {line : LogicalLine} {level : Nat}
  {l : Location}

/-! ### What a step does to the memory -/

/-- Without a line to read, a step leaves the memory and delivers nothing. -/
theorem idle_or_reads (library : Library) (f : Feed) :
    ((step library f).feed.memory = f.memory ∧ ∀ line g, step library f ≠ .delivered line g) ∨
      ∃ line level l g, f.Reads line level l g := by
  rcases step_cases library f with ⟨-, hstep⟩ | ⟨s, below, -, -, hstep⟩ |
    ⟨s, below, identity, -, -, hstep⟩ | ⟨s, below, identity, line, rest, -, -, -, hstep⟩ | hreads
  · exact .inl (hstep ▸ ⟨rfl, by simp⟩)
  · left
    rw [hstep, openSegment]
    split
    · exact ⟨rfl, by simp⟩
    · split <;> exact ⟨rfl, by simp⟩
  · exact .inl (hstep ▸ ⟨rfl, by simp⟩)
  · exact .inl (hstep ▸ ⟨rfl, by simp⟩)
  · exact .inr hreads

/-- What becomes of a line that is read. -/
inductive Fate (library : Library) (line : LogicalLine) (level : Nat) (l : Location) (g : Feed) :
    Step → Prop
  | hidden (hides : isHidden g.guards = true) : Fate library line level l g (.working g)
  | refused (error : SourceError) : Fate library line level l g (.failed error g)
  | followed {d : Directive} (visible : isHidden g.guards = false)
      (read : Directive.read line.keyword line.text l = .ok (some d)) :
      Fate library line level l g (obey library g level l d)
  | delivered (content : String) :
      Fate library line level l g (.delivered ⟨level - g.guards.length, content, l⟩ g)

theorem Reads.fate (h : f.Reads line level l g) (library : Library) :
    Fate library line level l g (step library f) := by
  rw [step_of_reads h]
  cases hvisible : isHidden g.guards with
  | true => exact .hidden hvisible
  | false =>
      rw [if_neg Bool.false_ne_true]
      cases hread : Directive.read line.keyword line.text l with
      | error e => exact takeLine_of_error hread ▸ .refused e
      | ok d? =>
          cases d? with
          | some d => exact takeLine_of_directive hread ▸ .followed hvisible hread
          | none =>
              rw [takeLine_of_none hread]
              cases g.definitions.substitute line.text with
              | error key => exact .refused _
              | ok content => exact .delivered content

/-- A directive acts on the memory and delivers nothing. -/
theorem obey_outcome (library : Library) (f : Feed) (level : Nat) (l : Location) (d : Directive) :
    (obey library f level l d).feed.memory = f.memory.follow level d ∧
      ∀ line g, obey library f level l d ≠ .delivered line g := by
  cases d with
  | «include» target =>
      simp only [obey, includeFiles]
      split
      · exact ⟨rfl, by simp⟩
      · split
        · split <;> exact ⟨rfl, by simp⟩
        · exact ⟨rfl, by simp⟩
  | _ => exact ⟨rfl, by simp [obey]⟩

/-- What a step delivers is the line that it reads, lifted by the guards over it. -/
theorem exists_reads_of_delivered (h : step library f = .delivered delivered g) :
    ∃ line level l, f.Reads line level l g ∧ delivered.level = level - g.guards.length := by
  rcases idle_or_reads library f with ⟨-, hidle⟩ | ⟨line, level, l, g', hreads⟩
  · exact absurd h (hidle delivered g)
  · have hfate := hreads.fate library
    rw [h] at hfate
    generalize hdelivered : Step.delivered delivered g = outcome at hfate
    cases hfate with
    | hidden => cases hdelivered
    | refused => cases hdelivered
    | followed => exact absurd hdelivered.symm ((obey_outcome ..).2 delivered g)
    | delivered content =>
        cases hdelivered
        exact ⟨line, level, l, hreads, rfl⟩

/-! ### Runs -/

/-- The feeds of all runs. A run begins with a file or a text, and goes on after errors; from step
to step the files may change. -/
inductive Visited : Feed → Prop
  | begin (library : Library) (origin : Origin) : Visited (origin.feed library)
  | step {f : Feed} (h : Visited f) (library : Library) : Visited (Feed.step library f).feed

theorem Visited.iterate (h : Visited f) (library : Library) (n : Nat) :
    Visited ((fun f => (Feed.step library f).feed)^[n] f) := by
  induction n generalizing f with
  | zero => exact h
  | succ n ih => exact ih (h.step library)

theorem ordered_standing (h : f.memory.Ordered) (hreads : f.Reads line level l g) :
    g.memory.Ordered ∧ ∀ x ∈ g.guards, x.level < level := by
  have hmemory : g.memory = { f.memory with guards := standing f.guards level } := by
    rw [memory, memory, hreads.definitions_eq, hreads.guards_eq]
  refine ⟨hmemory ▸ h.standing level, fun x hx => ?_⟩
  rw [hreads.guards_eq] at hx
  exact h.nested.lt_of_mem_standing hx

theorem ordered_step (library : Library) (h : f.memory.Ordered) :
    (step library f).feed.memory.Ordered := by
  rcases idle_or_reads library f with ⟨hsame, -⟩ | ⟨line, level, l, g, hreads⟩
  · exact hsame ▸ h
  · obtain ⟨hg, hlt⟩ := ordered_standing h hreads
    have hfate := hreads.fate library
    generalize step library f = outcome at hfate ⊢
    cases hfate with
    | hidden => exact hg
    | refused => exact hg
    | delivered => exact hg
    | followed hvisible hread =>
        obtain ⟨first, operands, -, hspells⟩ := Directive.spells_of_read hread
        exact (obey_outcome ..).1 ▸ hg.follow hvisible hlt hspells

theorem Visited.ordered (h : Visited f) : f.memory.Ordered := by
  induction h with
  | begin library origin => cases origin <;> exact Memory.ordered_empty
  | step _ library ih => exact ordered_step library ih

/-- In every run the levels of the guards grow from the outermost to the innermost, none but the
innermost is disabled, and what is defined are identifiers. A line that is delivered has no more
guards over it than its level in its file and the level of the file, and gives up one level for
each. -/
theorem levels_of_visited (h : Visited f) (library : Library) :
    (f.guards.Pairwise fun inner around => around.level < inner.level) ∧
      (∀ x ∈ f.guards.tail, x.enabled = true) ∧
      (∀ name, f.definitions.get? name ≠ none → IsIdentifier name) ∧
      ∀ delivered g, step library f = .delivered delivered g →
        ∃ (s : Segment) (below : List Segment) (identity : String) (line : LogicalLine)
          (rest : List LogicalLine) (levels : Indentation.Levels),
          f.segments = s :: below ∧ s.reading = some ⟨identity, line :: rest⟩ ∧
          s.levels.fit? line.width = some levels ∧
          g.guards.length ≤ s.offset + levels.level ∧
          delivered.level + g.guards.length = s.offset + levels.level := by
  have hordered := h.ordered
  refine ⟨hordered.nested, fun x hx => hordered.enabled_of_mem_tail hx, hordered.identifiers,
    fun delivered g hstep => ?_⟩
  obtain ⟨line, level, l, hreads, hlevel⟩ := exists_reads_of_delivered hstep
  obtain ⟨hg, hlt⟩ := ordered_standing hordered hreads
  -- Guards on different levels above the line are no more than there are such levels.
  have hroom : g.guards.length ≤ level - 0 :=
    hg.nested.length_le fun x hx => ⟨Nat.zero_le _, hlt x hx⟩
  cases hreads with
  | @intro s below identity line rest levels hsegments hreading hfits =>
      refine ⟨s, below, identity, line, rest, levels, hsegments, hreading, hfits, ?_, ?_⟩
      · omega
      · omega

/-- After an error, a file that is included inside a guard has a guard of its own. -/
theorem levels_of_visited_nested :
    let library := Library.ofTexts (.insert .empty "f" "iface eth0\n  ifdef A\n    up true\n")
    let origin := Origin.text "interfaces" "ifndef X\n  define A 1\n  bad %Q%\n  include f\n"
    let f := (fun f => (step library f).feed)^[7] (origin.feed library)
    Visited f ∧ f.guards = [⟨2, true⟩, ⟨0, true⟩] ∧
      ∃ g, step library f = .delivered ⟨1, "up true", ⟨"f", 3⟩⟩ g ∧ 1 + g.guards.length = 1 + 2 := by
  intro library origin f
  have hvisited : Visited f := (Visited.begin library origin).iterate library 7
  have hguards : f.guards = [⟨2, true⟩, ⟨0, true⟩] := by decide +kernel
  have hline : (match step library f with | .delivered line _ => some line | _ => none) =
      some ⟨1, "up true", ⟨"f", 3⟩⟩ := by decide +kernel
  obtain ⟨-, -, -, hdelivered⟩ := levels_of_visited hvisited library
  cases hstep : step library f with
  | delivered line g =>
      rw [hstep] at hline
      cases hline
      obtain ⟨s, below, identity, line, rest, levels, hs, hreading, hfits, hroom, hlevel⟩ :=
        hdelivered _ _ hstep
      have hsegments : f.segments.head?.bind (fun s => s.reading.bind fun r =>
          r.rest.head?.bind fun line => (s.levels.fit? line.width).map fun levels =>
            s.offset + levels.level) = some (1 + 2) := by decide +kernel
      simp only [hs, hreading, hfits, List.head?_cons, Option.bind_some, Option.map_some,
        Option.some.injEq] at hsegments
      exact ⟨hvisited, hguards, g, rfl, hlevel.trans hsegments⟩
  | working g => simp [hstep] at hline
  | failed e g => simp [hstep] at hline
  | finished g => simp [hstep] at hline

end Feed

end NetHooks
