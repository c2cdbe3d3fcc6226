import NetHooks.Forest
import NetHooks.Proofs.Source.Memory

/-!
# The lines of one file

A feed that goes on with an opened file (`Feed.Opened.feed`). Lines that include nothing are
read on with the open levels and the memory alone (`Memory.readOn`). When a source has no
include lines and all its lines fit, what it yields is read off the lines and their levels
(`Memory.readAll`).
-/
namespace NetHooks

open Indentation (Levels levelsOf)

/-! ### Reading lines -/

namespace Memory

/-- What lines with their levels deliver after one another. -/
def readAll (path : String) (m : Memory) : List (Nat × LogicalLine) → Feed.Stream
  | [] => ⟨[], none⟩
  | (level, line) :: rest =>
      match m.heed level line ⟨path, line.number⟩ with
      | .error e => ⟨[], some e⟩
      | .ok (delivered?, m) => (m.readAll path rest).after delivered?.toList

/-- Read lines of a file that is included at the offset: what they deliver, and the open
levels and the memory after them. -/
def readOn (path : String) (offset : Nat) (levels : Levels) (m : Memory) :
    List LogicalLine → Except SourceError (List Line × Levels × Memory)
  | [] => .ok ([], levels, m)
  | line :: rest =>
      match levels.fit? line.width with
      | none => .error (.badIndentation ⟨path, line.number⟩)
      | some t => do
          let (delivered?, m) ← m.heed (offset + t.level) line ⟨path, line.number⟩
          let (lines, levels, m) ← m.readOn path offset t rest
          return (delivered?.toList ++ lines, levels, m)

variable {path : String} {offset : Nat} {levels levels' : Levels} {m m' : Memory}
  {line : LogicalLine} {rest : List LogicalLine} {lines : List Line}

theorem readOn_nil_eq_ok :
    m.readOn path offset levels [] = .ok (lines, levels', m') ↔
      lines = [] ∧ levels' = levels ∧ m' = m := by
  simp [readOn, eq_comm]

theorem readOn_cons_eq_ok :
    m.readOn path offset levels (line :: rest) = .ok (lines, levels', m') ↔
      ∃ t o between more, levels.fit? line.width = some t ∧
        m.heed (offset + t.level) line ⟨path, line.number⟩ = .ok (o, between) ∧
        between.readOn path offset t rest = .ok (more, levels', m') ∧ lines = o.toList ++ more := by
  rw [readOn]
  cases hfit : levels.fit? line.width with
  | none => simp
  | some t =>
      constructor
      · intro h
        obtain ⟨⟨o, between⟩, hheed, h⟩ := bind_eq_ok.1 h
        obtain ⟨⟨more, last, after⟩, hmore, h⟩ := bind_eq_ok.1 h
        cases h
        exact ⟨t, o, between, more, rfl, hheed, hmore, rfl⟩
      · rintro ⟨_, o, between, more, ⟨⟩, hheed, hmore, rfl⟩
        exact bind_eq_ok.2 ⟨_, hheed, bind_eq_ok.2 ⟨_, hmore, rfl⟩⟩

theorem nested_readOn {xs : List LogicalLine} (h : Feed.Nested m.guards)
    (hread : m.readOn path offset levels xs = .ok (lines, levels', m')) :
    Feed.Nested m'.guards := by
  induction xs generalizing levels m lines with
  | nil =>
      obtain ⟨-, -, rfl⟩ := readOn_nil_eq_ok.1 hread
      exact h
  | cons x xs ih =>
      obtain ⟨t, o, between, more, -, hheed, hmore, -⟩ := readOn_cons_eq_ok.1 hread
      exact ih (nested_heed h hheed) hmore

end Memory

namespace Feed

/-! ### Opened files -/

/-- An opened file, apart from how far it is read. -/
structure Opened where
  path : String
  identity : String
  /-- The level of the line that included the file. -/
  offset : Nat
  site : Option Location
  /-- What is read after the file. -/
  below : List Segment
  active : List String

namespace Opened

/-- The feed that goes on with the file. -/
def feed (o : Opened) (levels : Levels) (m : Memory) (rest : List LogicalLine) : Feed :=
  ⟨m.definitions, m.guards,
    ⟨o.path, o.offset, levels, some ⟨o.identity, rest⟩, o.site⟩ :: o.below, o.active⟩

/-- A file that no other includes. -/
def alone (path identity : String) : Opened := ⟨path, identity, 0, none, [], [identity]⟩

variable {library : Library} {o : Opened} {levels levels' t : Levels} {m m' : Memory}
  {line : LogicalLine} {rest : List LogicalLine} {lines : List Line} {x? : Option Line}
  {s : Stream}

theorem reads (h : levels.fit? line.width = some t) :
    (o.feed levels m (line :: rest)).Reads line (o.offset + t.level) ⟨o.path, line.number⟩
      ((o.feed t m rest).remember { m with guards := standing m.guards (o.offset + t.level) }) := by
  have hreads := Reads.intro (f := o.feed levels m (line :: rest)) rfl rfl h
  exact hreads

/-- The file goes on with a line that includes nothing. -/
theorem step_feed (hfit : levels.fit? line.width = some t) (hplain : line.keyword ≠ "include") :
    step library (o.feed levels m (line :: rest)) =
      match m.heed (o.offset + t.level) line ⟨o.path, line.number⟩ with
      | .error e => .failed e ((o.feed t m rest).remember
          { m with guards := standing m.guards (o.offset + t.level) })
      | .ok (none, m) => .working (o.feed t m rest)
      | .ok (some delivered, m) => .delivered delivered (o.feed t m rest) := by
  rw [step_of_heed (reads hfit) hplain]
  rfl

theorem exists_step_feed_of_error {e : SourceError} (hfit : levels.fit? line.width = some t)
    (hplain : line.keyword ≠ "include")
    (hheed : m.heed (o.offset + t.level) line ⟨o.path, line.number⟩ = .error e) :
    ∃ f, step library (o.feed levels m (line :: rest)) = .failed e f :=
  ⟨_, by rw [step_feed hfit hplain, hheed]⟩

theorem exists_step_feed_of_unfit (hfit : levels.fit? line.width = none) :
    ∃ f, step library (o.feed levels m (line :: rest)) =
      .failed (.badIndentation ⟨o.path, line.number⟩) f := by
  simp only [step, feed, hfit]
  exact ⟨_, rfl⟩

theorem run_heed {f : Feed} (hfit : levels.fit? line.width = some t)
    (hplain : line.keyword ≠ "include")
    (hheed : m.heed (o.offset + t.level) line ⟨o.path, line.number⟩ = .ok (x?, m'))
    (hrun : Run library (o.feed t m' rest) lines f) :
    Run library (o.feed levels m (line :: rest)) (x?.toList ++ lines) f := by
  cases x? with
  | none => exact .working (by rw [step_feed hfit hplain, hheed]) hrun
  | some delivered => exact .delivered (by rw [step_feed hfit hplain, hheed]) hrun

/-- Lines that include nothing are read on. -/
theorem run_readOn {xs : List LogicalLine}
    (h : m.readOn o.path o.offset levels xs = .ok (lines, levels', m'))
    (hplain : ∀ x ∈ xs, x.keyword ≠ "include") :
    Run library (o.feed levels m (xs ++ rest)) lines (o.feed levels' m' rest) := by
  induction xs generalizing levels m lines with
  | nil =>
      obtain ⟨rfl, rfl, rfl⟩ := Memory.readOn_nil_eq_ok.1 h
      exact .nil
  | cons x xs ih =>
      obtain ⟨t, x?, between, more, hfit, hheed, hmore, rfl⟩ := Memory.readOn_cons_eq_ok.1 h
      exact run_heed hfit (hplain x List.mem_cons_self) hheed
        (ih hmore fun y hy => hplain y (List.mem_cons_of_mem _ hy))

/-- What is yielded of a line that includes nothing is an error, or what the line delivers and
what is yielded after it. -/
theorem yields_cons (hplain : line.keyword ≠ "include")
    (hs : Yields library (o.feed levels m (line :: rest)) s) :
    (∃ e, s = ⟨[], some e⟩) ∨
      ∃ t x? m' s', levels.fit? line.width = some t ∧
        m.heed (o.offset + t.level) line ⟨o.path, line.number⟩ = .ok (x?, m') ∧
        Yields library (o.feed t m' rest) s' ∧ s = s'.after x?.toList := by
  cases hfit : levels.fit? line.width with
  | none =>
      obtain ⟨f, hstep⟩ := exists_step_feed_of_unfit hfit
      exact .inl ⟨_, hs.unique (.failed hstep)⟩
  | some t =>
      cases hheed : m.heed (o.offset + t.level) line ⟨o.path, line.number⟩ with
      | error e =>
          obtain ⟨f, hstep⟩ := exists_step_feed_of_error hfit hplain hheed
          exact .inl ⟨_, hs.unique (.failed hstep)⟩
      | ok result =>
          obtain ⟨x?, m'⟩ := result
          obtain ⟨s', hs', heq⟩ := (run_heed hfit hplain hheed .nil).yields_rest hs
          exact .inr ⟨t, x?, m', s', rfl, hheed, hs', by simpa using heq⟩

/-- In a feed that comes to its end, lines that include nothing can be read on. -/
theorem exists_readOn_of_yields {xs : List LogicalLine}
    (hs : Yields library (o.feed levels m (xs ++ rest)) s) (hok : s.failure = none)
    (hplain : ∀ x ∈ xs, x.keyword ≠ "include") :
    ∃ lines levels' m' s', m.readOn o.path o.offset levels xs = .ok (lines, levels', m') ∧
      Yields library (o.feed levels' m' rest) s' ∧ s = s'.after lines := by
  induction xs generalizing levels m s with
  | nil => exact ⟨[], levels, m, s, rfl, hs, rfl⟩
  | cons x xs ih =>
      obtain ⟨hx, hxs⟩ := List.forall_mem_cons.1 hplain
      rcases yields_cons hx hs with ⟨e, rfl⟩ | ⟨t, x?, between, s₁, hfit, hheed, hs₁, rfl⟩
      · cases hok
      · obtain ⟨lines, levels', m', s₂, hread, hs₂, rfl⟩ := ih hs₁ hok hxs
        exact ⟨x?.toList ++ lines, levels', m', s₂,
          Memory.readOn_cons_eq_ok.2 ⟨t, x?, between, lines, hfit, hheed, hread, rfl⟩, hs₂, by simp⟩

end Opened

/-! ### A file by itself -/

open Opened (alone)

theorem ofText_eq_alone (library : Library) (path text : String) : ofText library path text =
    (alone path (library.identify path)).feed .empty .empty (logicalLines text) := rfl

variable {library : Library} {path identity : String} {levels t : Levels} {m m' : Memory}
  {line : LogicalLine} {rest : List LogicalLine}

theorem yields_alone_nil : Yields library ((alone path identity).feed levels m []) ⟨[], none⟩ := by
  refine .working (g := ⟨m.definitions, m.guards, [], []⟩) ?_ (.finished rfl)
  simp [step, alone, Opened.feed]

/-- Delivered lines keep their places. -/
theorem location_of_yields_alone {s : Stream} (hplain : ∀ x ∈ rest, x.keyword ≠ "include")
    (h : Yields library ((alone path identity).feed levels m rest) s) :
    ∀ l ∈ s.lines, ∃ x ∈ rest, l.location = ⟨path, x.number⟩ := by
  induction rest generalizing levels m s with
  | nil =>
      rw [h.unique yields_alone_nil]
      simp
  | cons x rest ih =>
      obtain ⟨hx, hrest⟩ := List.forall_mem_cons.1 hplain
      rcases Opened.yields_cons hx h with ⟨e, rfl⟩ | ⟨t, x?, m', s', -, hheed, hs', rfl⟩
      · simp
      · simp only [Stream.lines_after, List.forall_mem_append]
        refine ⟨fun l hl => ⟨x, List.mem_cons_self, ?_⟩, fun l hl => ?_⟩
        · obtain rfl : x? = some l := by simpa using hl
          exact (Memory.level_heed hheed).2.2
        · obtain ⟨y, hy, hl⟩ := ih hrest hs' l hl
          exact ⟨y, List.mem_cons_of_mem _ hy, hl⟩

/-- Lines that fit yield what is read off them and their levels. -/
theorem yields_alone {ps : List (Nat × LogicalLine)}
    (hfits : levelsOf levels (ps.map (·.2.width)) = ps.map (some ·.1))
    (hplain : ∀ p ∈ ps, p.2.keyword ≠ "include") :
    Yields library ((alone path identity).feed levels m (ps.map (·.2))) (m.readAll path ps) := by
  induction ps generalizing levels m with
  | nil => exact yields_alone_nil
  | cons p ps ih =>
      obtain ⟨level, line⟩ := p
      cases hfit : levels.fit? line.width with
      | none => simp [levelsOf, hfit] at hfits
      | some t =>
          simp only [List.map_cons, levelsOf, hfit, List.cons.injEq, Option.some.injEq] at hfits
          obtain ⟨rfl, hrest⟩ := hfits
          have hline : line.keyword ≠ "include" := hplain (t.level, line) List.mem_cons_self
          have hlevel : (alone path identity).offset + t.level = t.level := Nat.zero_add _
          rw [Memory.readAll, List.map_cons]
          cases hheed : m.heed t.level line ⟨path, line.number⟩ with
          | error e =>
              rw [← hlevel] at hheed
              obtain ⟨f, hstep⟩ := Opened.exists_step_feed_of_error hfit hline hheed
              exact .failed hstep
          | ok result =>
              obtain ⟨x?, m'⟩ := result
              rw [← hlevel] at hheed
              have hrun := @Opened.run_heed library (alone path identity) _ _ m _ _ (ps.map (·.2))
                _ _ _ hfit hline hheed .nil
              have hs := ih (m := m') hrest fun p hp => hplain p (List.mem_cons_of_mem _ hp)
              simpa using hrun.yields hs

end Feed

/-- A source that is given as text is read as its stream. -/
theorem Forest.parseText_of_yields {library : Library} {path text : String} {s : Feed.Stream}
    (h : Feed.Yields library (.ofText library path text) s) :
    Forest.parseText library path text = Forest.ofStream s := by
  rw [Forest.parseText, (Feed.consistent_ofText library path text).stream_eq h]

/-- A source without include lines that can be read to its end gives the lines delivered. -/
theorem Forest.parseText_of_readOn {library : Library} {path text : String} {lines : List Line}
    {levels : Levels} {m : Memory} (hplain : ∀ line ∈ logicalLines text, line.keyword ≠ "include")
    (h : Memory.empty.readOn path 0 .empty (logicalLines text) = .ok (lines, levels, m)) :
    Forest.parseText library path text = Forest.ofStream ⟨lines, none⟩ := by
  have hrun := @Feed.Opened.run_readOn library (.alone path (library.identify path)) _ _ _ _ []
    lines _ h hplain
  rw [List.append_nil, ← Feed.ofText_eq_alone] at hrun
  simpa [Feed.Stream.after] using Forest.parseText_of_yields (hrun.yields Feed.yields_alone_nil)

end NetHooks
