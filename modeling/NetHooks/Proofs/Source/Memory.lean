import NetHooks.Proofs.Indentation
import NetHooks.Proofs.Source.Progress

/-!
# What lines leave behind

A line that includes nothing acts on the definitions and the guards only, its memory
(`Memory.heed`). What the feed does with it is what its memory does (`Feed.step_of_heed`).

Guards stand one inside another: every guard in force lies deeper than those around it, and
lines that are heeded keep it so (`Memory.nested_heed`).
-/
namespace NetHooks

/-! ### Guards -/

namespace Feed

/-- Each guard lies deeper than those around it. -/
def Nested (guards : List Guard) : Prop :=
  guards.Pairwise fun inner around => around.level < inner.level

variable {guards base : List Guard} {m n : Nat}

theorem nested_nil : Nested [] := List.Pairwise.nil

theorem standing_suffix (guards : List Guard) (n : Nat) : standing guards n <:+ guards :=
  List.dropWhile_suffix _

theorem Nested.standing (h : Nested guards) (n : Nat) : Nested (standing guards n) :=
  h.sublist (standing_suffix guards n).sublist

/-- Only guards above its level stand over a line. -/
theorem Nested.lt_of_mem_standing (h : Nested guards) {g : Guard} (hg : g ∈ Feed.standing guards n) :
    g.level < n := by
  have hhead := List.head?_dropWhile_not (fun g : Guard => decide (n ≤ g.level)) guards
  rw [← Feed.standing] at hhead
  cases hstanding : Feed.standing guards n with
  | nil => simp [hstanding] at hg
  | cons top rest =>
      have htop : top.level < n := by simpa [hstanding] using hhead
      have hnested := h.standing n
      rw [hstanding] at hg hnested
      rcases List.mem_cons.1 hg with rfl | hg
      · exact htop
      · exact Nat.lt_trans (List.rel_of_pairwise_cons hnested hg) htop

theorem standing_of_forall_lt (h : ∀ g ∈ guards, g.level < n) : standing guards n = guards :=
  List.dropWhile_eq_self_iff.2 fun hpos => by
    simpa using h _ (List.getElem_mem hpos)

/-- Guards above the level stay, whatever stands on them. -/
theorem standing_append (h : ∀ g ∈ base, g.level < n) (guards : List Guard) :
    standing (guards ++ base) n = standing guards n ++ base := by
  induction guards with
  | nil => simpa [standing] using standing_of_forall_lt h
  | cons g guards ih =>
      by_cases hg : n ≤ g.level
      · simpa [standing, hg] using ih
      · simp [standing, hg]

/-- What stands over a line at level `n` is all that counts for a line above it. -/
theorem standing_standing (h : m ≤ n) (guards : List Guard) :
    standing (standing guards n) m = standing guards m :=
  Indentation.dropWhile_dropWhile (fun _ hg => by simp only [decide_eq_true_eq] at *; omega) guards

theorem Nested.standing_eq_filter (h : Nested guards) (n : Nat) :
    Feed.standing guards n = guards.filter (·.level < n) := by
  induction guards with
  | nil => rfl
  | cons g guards ih =>
      obtain ⟨hrel, hnested⟩ := List.pairwise_cons.1 h
      by_cases hg : g.level < n
      · have hall : ∀ x ∈ g :: guards, x.level < n :=
          List.forall_mem_cons.2 ⟨hg, fun x hx => Nat.lt_trans (hrel x hx) hg⟩
        rw [standing_of_forall_lt hall, List.filter_eq_self.2 (by simpa using hall)]
      · rw [List.filter_cons_of_neg (by simpa using hg), ← ih hnested]
        exact List.dropWhile_cons_of_pos (by simpa using hg)

/-- Between two levels there is room for one guard a level. -/
theorem Nested.length_le (h : Nested guards) (hbetween : ∀ g ∈ guards, m ≤ g.level ∧ g.level < n) :
    guards.length ≤ n - m := by
  induction guards generalizing n with
  | nil => exact Nat.zero_le _
  | cons g guards ih =>
      obtain ⟨hrel, hnested⟩ := List.pairwise_cons.1 h
      obtain ⟨hm, hn⟩ := hbetween g List.mem_cons_self
      have := ih hnested fun x hx => ⟨(hbetween x (List.mem_cons_of_mem _ hx)).1, hrel x hx⟩
      rw [List.length_cons]
      omega

end Feed

/-! ### Memory -/

/-- What the lines so far leave for the lines to come. -/
structure Memory where
  definitions : Definitions
  guards : List Guard
  deriving DecidableEq

namespace Memory

def empty : Memory := ⟨.empty, []⟩

/-- An include line leaves the memory as it is. -/
def follow (m : Memory) (level : Nat) : Directive → Memory
  | .include _ => m
  | .define identifier value => { m with definitions := m.definitions.insert identifier value }
  | .undefine identifier => { m with definitions := m.definitions.erase identifier }
  | .guard identifier wanted =>
      { m with guards := ⟨level, m.definitions.contains identifier == wanted⟩ :: m.guards }

/-- A line at the level is hidden, obeyed or delivered: what it delivers and what it
leaves. -/
def heed (m : Memory) (level : Nat) (line : LogicalLine) (l : Location) :
    Except SourceError (Option Line × Memory) :=
  let m := { m with guards := Feed.standing m.guards level }
  if Feed.isHidden m.guards then .ok (none, m)
  else match Directive.read line.keyword line.text l with
    | .error e => .error e
    | .ok (some d) => .ok (none, m.follow level d)
    | .ok none =>
        match m.definitions.substitute line.text with
        | .error key => .error (.unknownSubstitution key l)
        | .ok content => .ok (some ⟨level - m.guards.length, content, l⟩, m)

variable {m m' : Memory} {level : Nat} {line : LogicalLine} {l : Location} {o : Option Line}

theorem nested_follow (h : Feed.Nested m.guards) (hlt : ∀ g ∈ m.guards, g.level < level)
    (d : Directive) : Feed.Nested (m.follow level d).guards := by
  cases d with
  | guard identifier wanted => exact List.pairwise_cons.2 ⟨hlt, h⟩
  | _ => exact h

theorem nested_heed (h : Feed.Nested m.guards) (hheed : m.heed level line l = .ok (o, m')) :
    Feed.Nested m'.guards := by
  simp only [heed] at hheed
  split at hheed
  · cases hheed
    exact h.standing level
  · split at hheed
    · cases hheed
    next d _ =>
      cases hheed
      exact nested_follow (h.standing level) (fun _ => h.lt_of_mem_standing) d
    · split at hheed
      · cases hheed
      · cases hheed
        exact h.standing level

/-- At most one guard is added to those that stand over the line, and that at its level. -/
theorem guards_heed (hheed : m.heed level line l = .ok (o, m')) :
    m'.guards = Feed.standing m.guards level ∨
      ∃ enabled, m'.guards = ⟨level, enabled⟩ :: Feed.standing m.guards level := by
  simp only [heed] at hheed
  split at hheed
  · cases hheed
    exact .inl rfl
  · split at hheed
    · cases hheed
    next d _ =>
      cases hheed
      cases d with
      | guard identifier wanted => exact .inr ⟨_, rfl⟩
      | _ => exact .inl rfl
    · split at hheed
      · cases hheed
      · cases hheed
        exact .inl rfl

/-- Only a guard adds one. -/
theorem guards_heed_of_ne (hplain : line.keyword ≠ "ifdef" ∧ line.keyword ≠ "ifndef")
    (hheed : m.heed level line l = .ok (o, m')) : m'.guards = Feed.standing m.guards level := by
  simp only [heed] at hheed
  split at hheed
  · cases hheed
    rfl
  · split at hheed
    · cases hheed
    next d hread =>
      cases hheed
      obtain ⟨first, operands, -, hspells⟩ := Directive.spells_of_read hread
      cases hspells with
      | guard _ hkeyword _ => exact absurd hkeyword (not_or.2 hplain)
      | _ => rfl
    · split at hheed
      · cases hheed
      · cases hheed
        rfl

/-- A delivered line is lifted by one level for each guard over it. -/
theorem level_heed {delivered : Line} (hheed : m.heed level line l = .ok (some delivered, m')) :
    m'.guards = Feed.standing m.guards level ∧
      delivered.level = level - (Feed.standing m.guards level).length ∧ delivered.location = l := by
  simp only [heed] at hheed
  split at hheed
  · cases hheed
  · split at hheed
    · cases hheed
    · cases hheed
    · split at hheed
      · cases hheed
      · cases hheed
        exact ⟨rfl, rfl, rfl⟩

end Memory

namespace Feed

variable {library : Library} {f g : Feed} {line : LogicalLine} {level : Nat} {l : Location}

def memory (f : Feed) : Memory := ⟨f.definitions, f.guards⟩

def remember (f : Feed) (m : Memory) : Feed :=
  { f with definitions := m.definitions, guards := m.guards }

/-- A line that includes nothing acts on the memory only. -/
theorem step_of_heed (h : f.Reads line level l g) (hplain : line.keyword ≠ "include") :
    step library f = match f.memory.heed level line l with
      | .error e => .failed e g
      | .ok (none, m) => .working (g.remember m)
      | .ok (some delivered, m) => .delivered delivered (g.remember m) := by
  have hmemory : (⟨f.memory.definitions, standing f.memory.guards level⟩ : Memory) = g.memory := by
    rw [memory, memory, h.definitions_eq, h.guards_eq]
  rw [step_of_reads h, Memory.heed, hmemory]
  cases hhidden : isHidden g.guards with
  | true => simp [memory, hhidden, remember]
  | false =>
      simp only [memory, hhidden, Bool.false_eq_true, if_false]
      cases hread : Directive.read line.keyword line.text l with
      | error e => rw [takeLine_of_error hread]
      | ok d? =>
          cases d? with
          | none =>
              rw [takeLine_of_none hread]
              cases g.definitions.substitute line.text <;> rfl
          | some d =>
              rw [takeLine_of_directive hread]
              cases d with
              | «include» target =>
                  exact absurd (Directive.keyword_of_read_include hread) hplain
              | _ => rfl

end Feed

end NetHooks
