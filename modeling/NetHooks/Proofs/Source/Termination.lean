import NetHooks.Proofs.Source.Reachable
import Mathlib.Data.Set.Card

/-!
# Reading comes to an end

Files may include each other, their own directory, or one file many times. Still every call of
`Feed.next` gives an answer (`Feed.Answers`), and calls one after another come to the end or to
an error (`Feed.Drains`): each step leaves less work. No file is opened while it is being read,
so no more files are open at once than can be read, and one more for a text that was given.
-/
namespace NetHooks

/-- The identities of what can be read. -/
def Library.identities (library : Library) : Set String :=
  {identity | ∃ path text, library.read path = .ok text ∧ library.identify path = identity}

theorem Library.finite_identities (library : Library) : library.identities.Finite := by
  refine Set.Finite.subset library.files.toFinset.finite_toSet ?_
  rintro identity ⟨path, text, hread, rfl⟩
  exact List.mem_toFinset.2 (library.identify_mem hread)

/-- The identities of texts that are given and not read. -/
def Origin.given (library : Library) : Origin → List String
  | file _ => []
  | text path _ => [library.identify path]

namespace Feed

variable {library : Library} {f g : Feed} {s : Stream} {n : Nat}

/-! ### Open files -/

/-- Only a file that is read becomes active. -/
theorem mem_active_step {identity : String} (h : identity ∈ (step library f).feed.active) :
    identity ∈ f.active ∨ identity ∈ library.identities := by
  rcases step_cases library f with ⟨-, hstep⟩ | ⟨s, below, -, -, hstep⟩ |
    ⟨s, below, closed, -, -, hstep⟩ | ⟨s, below, _, line, rest, -, -, -, hstep⟩ |
    ⟨line, level, l, g, hreads⟩
  · exact .inl (by simpa [hstep, Step.feed] using h)
  · rw [hstep, openSegment] at h
    split at h
    · exact .inl h
    · split at h
      · exact .inl h
      next text hread =>
        rcases List.mem_cons.1 h with rfl | h
        · exact .inr ⟨s.path, text, hread, rfl⟩
        · exact .inl h
  · rw [hstep] at h
    exact .inl (List.mem_of_mem_filter h)
  · exact .inl (by simpa [hstep, Step.feed] using h)
  · rw [(hreads.taken library).active_eq, hreads.active_eq] at h
    exact .inl h

theorem Reaches.mem_active {origin : Origin} (h : Reaches library (origin.feed library) f) :
    ∀ identity ∈ f.active, identity ∈ origin.given library ∨ identity ∈ library.identities := by
  refine h.keeps (P := fun f => ∀ identity ∈ f.active,
    identity ∈ origin.given library ∨ identity ∈ library.identities) ?_ ?_
  · intro g hg identity hidentity
    rcases mem_active_step hidentity with hactive | hread
    · exact hg identity hactive
    · exact .inr hread
  · intro identity hidentity
    cases origin with
    | file path => cases hidentity
    | text path content => exact .inl hidentity

theorem Reaches.countP_isOpen_le {origin : Origin} (h : Reaches library (origin.feed library) f) :
    f.segments.countP Segment.isOpen ≤
      library.identities.ncard + (origin.given library).length := by
  have hconsistent := h.consistent
  have hsub : (f.active.toFinset : Set String) ⊆
      library.identities ∪ ((origin.given library).toFinset : Set String) := by
    intro identity hidentity
    rcases h.mem_active identity (by simpa using hidentity) with hgiven | hread
    · exact .inr (by simpa using hgiven)
    · exact .inl hread
  calc f.segments.countP Segment.isOpen
      = f.active.length := by rw [countP_isOpen, hconsistent.active_eq]
    _ = f.active.toFinset.card := (List.toFinset_card_of_nodup hconsistent.nodup).symm
    _ = (f.active.toFinset : Set String).ncard := (Set.ncard_coe_finset _).symm
    _ ≤ (library.identities ∪ ((origin.given library).toFinset : Set String)).ncard :=
        Set.ncard_le_ncard hsub (library.finite_identities.union (Finset.finite_toSet _))
    _ ≤ library.identities.ncard + ((origin.given library).toFinset : Set String).ncard :=
        Set.ncard_union_le _ _
    _ = library.identities.ncard + (origin.given library).toFinset.card := by
        rw [Set.ncard_coe_finset]
    _ ≤ library.identities.ncard + (origin.given library).length :=
        Nat.add_le_add_left (List.toFinset_card_le _) _

/-! ### Calls -/

/-- A call for the next line gives its answer after `n` steps. -/
inductive Answers (library : Library) : Nat → Feed → Step → Prop
  | answer {f : Feed} (h : ∀ g, step library f ≠ .working g) :
      Answers library 1 f (step library f)
  | working {n : Nat} {f g : Feed} {r : Step} (first : step library f = .working g)
      (more : Answers library n g r) : Answers library (n + 1) f r

/-- Calls one after another come to the end or to an error after `n` steps. -/
inductive Drains (library : Library) : Nat → Feed → Stream → Prop
  | finished {n : Nat} {f g : Feed} (last : Answers library n f (.finished g)) :
      Drains library n f ⟨[], none⟩
  | failed {n : Nat} {f g : Feed} {e : SourceError} (last : Answers library n f (.failed e g)) :
      Drains library n f ⟨[], some e⟩
  | delivered {m n : Nat} {f g : Feed} {line : Line} {s : Stream}
      (call : Answers library m f (.delivered line g)) (more : Drains library n g s) :
      Drains library (m + n) f (s.after [line])

theorem answers_of_step {r : Step} (h : step library f = r) (hr : ∀ g, r ≠ .working g) :
    Answers library 1 f r := by
  subst h
  exact .answer hr

theorem Drains.of_working (first : step library f = .working g) (h : Drains library n g s) :
    Drains library (n + 1) f s := by
  cases h with
  | finished last => exact .finished (.working first last)
  | failed last => exact .failed (.working first last)
  | @delivered m n _ _ _ _ call more =>
      have h := Drains.delivered (.working first call) more
      rwa [Nat.add_right_comm] at h

/-- With more fuel than work the answer comes. -/
theorem exists_answers_advance {fuel : Nat} (h : f.Consistent library)
    (hfuel : work library f.segments < fuel) :
    ∃ n, Answers library n f (advance library fuel f) := by
  induction fuel generalizing f with
  | zero => exact absurd hfuel (Nat.not_lt_zero _)
  | succ fuel ih =>
      cases hstep : step library f with
      | working g =>
          have hlt := work_lt_of_step h (.inl hstep)
          obtain ⟨n, hanswers⟩ := ih (h.of_step (.inl hstep)) (by omega)
          exact ⟨n + 1, by simpa [advance, hstep] using Answers.working hstep hanswers⟩
      | delivered line g =>
          exact ⟨1, by simpa [advance, hstep] using answers_of_step hstep nofun⟩
      | failed e g => exact ⟨1, by simpa [advance, hstep] using answers_of_step hstep nofun⟩
      | finished g => exact ⟨1, by simpa [advance, hstep] using answers_of_step hstep nofun⟩

/-- What a consistent feed yields comes in no more steps than there is work. -/
theorem Consistent.exists_drains (h : f.Consistent library) (hs : Yields library f s) :
    ∃ n ≤ work library f.segments + 1, Drains library n f s := by
  induction hs with
  | finished last => exact ⟨1, by omega, .finished (answers_of_step last nofun)⟩
  | failed last => exact ⟨1, by omega, .failed (answers_of_step last nofun)⟩
  | working first more ih =>
      have hlt := work_lt_of_step h (.inl first)
      obtain ⟨n, hn, hdrains⟩ := ih (h.of_step (.inl first))
      exact ⟨n + 1, by omega, hdrains.of_working first⟩
  | delivered first more ih =>
      have hlt := work_lt_of_step h (.inr ⟨_, first⟩)
      obtain ⟨n, hn, hdrains⟩ := ih (h.of_step (.inr ⟨_, first⟩))
      exact ⟨1 + n, by omega, .delivered (answers_of_step first nofun) hdrains⟩

/-- From every origin, calls for the next line come to the end or to an error after finitely many
steps, with the stream that is read. In every feed that is reached, also after errors, a call
gives an answer, and no more files are open than can be read, and one for a text that was
given. -/
theorem drains_stream (library : Library) (origin : Origin) :
    let root := origin.feed library
    (∃ n ≤ allowance library root.segments + 1, Drains library n root (stream library root)) ∧
    ∀ f, Reaches library root f →
      (∃ n, Answers library n f (next library f)) ∧
      f.segments.countP Segment.isOpen ≤
        library.identities.ncard + (origin.given library).length := by
  intro root
  have hroot : root.Consistent library := consistent_origin library origin
  obtain ⟨n, hn, hdrains⟩ := hroot.exists_drains hroot.yields_stream
  have hallowed := work_le_allowance library root.segments
  refine ⟨⟨n, by omega, hdrains⟩, fun f hf => ⟨?_, hf.countP_isOpen_le⟩⟩
  exact exists_answers_advance hf.consistent
    (Nat.lt_succ_of_le (work_le_allowance library f.segments))

/-- Two files that include each other are read up to the second opening of the first, and with
both of them open the feed still answers. -/
theorem drains_stream_ring :
    let library := Library.ofTexts
      ((Catalog.empty.insert "a" "iface a\ninclude b\n").insert "b" "include a\n")
    let root := (Origin.file "a").feed library
    let f := (step library (step library (step library (step library (step library
      (step library root).feed).feed).feed).feed).feed).feed
    (∃ n, Drains library n root
      ⟨[⟨0, "iface a", ⟨"a", 1⟩⟩], some (.recursiveInclude "a" ⟨"b", 1⟩)⟩) ∧
      Reaches library root f ∧ (∃ n, Answers library n f (next library f)) ∧
      f.segments.countP Segment.isOpen = 2 ∧ 2 ≤ library.identities.ncard := by
  intro library root f
  obtain ⟨⟨n, -, hdrains⟩, hreached⟩ := drains_stream library (.file "a")
  have hstream : stream library root =
      ⟨[⟨0, "iface a", ⟨"a", 1⟩⟩], some (.recursiveInclude "a" ⟨"b", 1⟩)⟩ := by decide +kernel
  have hopen : f.segments.countP Segment.isOpen = 2 := by decide +kernel
  have hf : Reaches library root f := .step (.step (.step (.step (.step (.step .refl)))))
  obtain ⟨hanswers, hle⟩ := hreached f hf
  rw [hstream] at hdrains
  rw [hopen] at hle
  exact ⟨⟨n, hdrains⟩, hf, hanswers, hopen, hle⟩

end Feed

end NetHooks
