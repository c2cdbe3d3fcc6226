import NetHooks.Proofs.Activation.Walk
import Mathlib.Data.Finset.Card
import Mathlib.Data.Finset.SDiff
import Mathlib.Data.Finset.Insert
import Mathlib.Data.Finset.Dedup

/-!
# Sessions make walks

Dependencies are followed by calls inside calls (`Session.Brings`), and the bound on their depth
is never reached (`Session.exists_brings_bring`). What can still be worked on is the target's own
name and the names of dependencies, except those that are in progress; each level takes one of
them away. Calls inside calls make a walk: they change the store as the walk does, and ask of
hooks what is in the trace.
-/
namespace NetHooks

theorem Target.eq_split_of_check {target : String} {t : Target}
    (h : Target.check target = .ok t) : t = Target.split target := by
  simp only [Target.check] at h
  split at h
  · cases h
  · cases h
    rfl

namespace Config

/-- The names that a chain of targets beginning with `target` can still work on. -/
def room (config : Config) (busy : List String) (target : String) : Finset String :=
  (insert (Target.split target).instanceName config.dependencyInstances.toFinset) \
    busy.toFinset

theorem mem_values_of_entity? {config : Config} {logical : String} {e : Entity}
    (he : config.entity? logical = some e) : e ∈ config.entities.values :=
  List.mem_map.2 ⟨(logical, e), Catalog.mem_of_findEntry he, rfl⟩

theorem mem_dependencyInstances {config : Config} {logical d : String} {e : Entity}
    (he : config.entity? logical = some e) (hd : d ∈ e.dependencies) :
    (Target.split d).instanceName ∈ config.dependencyInstances :=
  List.mem_eraseDups.2
    (List.mem_map.2 ⟨d, List.mem_flatMap.2 ⟨e, mem_values_of_entity? he, hd⟩, rfl⟩)

theorem card_room_lt_depth (config : Config) (busy : List String) (target : String) :
    (config.room busy target).card < config.depth := by
  have hsub := Finset.card_le_card (Finset.sdiff_subset (s := insert
    (Target.split target).instanceName config.dependencyInstances.toFinset) (t := busy.toFinset))
  have hins := Finset.card_insert_le (Target.split target).instanceName
    config.dependencyInstances.toFinset
  have hlen := List.toFinset_card_le config.dependencyInstances
  simp only [room, depth]
  omega

/-- The dependencies of an instance have less room than the target that it stands for. -/
theorem card_room_lt_of_accept {config : Config} {mode : Mode} {store : Store}
    {busy : List String} {target d : String} {i : Instance}
    (h : config.accept mode store busy target = .ok i) (hd : d ∈ i.entity.dependencies) :
    (config.room (i.name :: busy) d).card < (config.room busy target).card := by
  obtain ⟨t, ht, hname, -, he, hb⟩ := accept_eq_ok.1 h
  rw [Target.eq_split_of_check ht] at hname
  refine Finset.card_lt_card (Finset.ssubset_iff_of_subset ?_ |>.2 ⟨i.name, ?_, ?_⟩)
  · intro name hn
    have hdep := mem_dependencyInstances he hd
    simp only [room, Finset.mem_sdiff, Finset.mem_insert, List.mem_toFinset, List.mem_cons,
      not_or] at hn ⊢
    refine ⟨.inr ?_, hn.2.2⟩
    rcases hn.1 with rfl | hn
    · exact hdep
    · exact hn
  · simp [room, hname, hb]
  · simp [room]

theorem card_room_pos_of_accept {config : Config} {mode : Mode} {store : Store}
    {busy : List String} {target : String} {i : Instance}
    (h : config.accept mode store busy target = .ok i) : 0 < (config.room busy target).card := by
  obtain ⟨t, ht, hname, -, -, hb⟩ := accept_eq_ok.1 h
  rw [Target.eq_split_of_check ht] at hname
  exact Finset.card_pos.2 ⟨i.name, by simp [room, hname, hb]⟩

end Config

namespace Session

variable {σ : Type} {invoker : Invoker σ} {config : Config} {context : Context} {mode : Mode}

/-! ### What the operations of a session change -/

@[simp] theorem enter_store (s : Session σ) (name : String) : (s.enter name).store = s.store := rfl

@[simp] theorem enter_inProgress (s : Session σ) (name : String) :
    (s.enter name).inProgress = name :: s.inProgress := rfl

@[simp] theorem enter_calls (s : Session σ) (name : String) : (s.enter name).calls = s.calls := rfl

@[simp] theorem leave_store (s : Session σ) (i : Instance) (mode : Mode) :
    (s.leave i mode).store = i.settle mode s.store := rfl

@[simp] theorem leave_inProgress (s : Session σ) (i : Instance) (mode : Mode) :
    (s.leave i mode).inProgress = s.inProgress.tail := rfl

@[simp] theorem leave_calls (s : Session σ) (i : Instance) (mode : Mode) :
    (s.leave i mode).calls = s.calls := rfl

@[simp] theorem callAll_store (invoker : Invoker σ) (s : Session σ) (cs : List Call) :
    (s.callAll invoker cs).store = s.store := by
  induction cs generalizing s with
  | nil => rfl
  | cons c cs ih => exact ih (s.call invoker c)

@[simp] theorem callAll_inProgress (invoker : Invoker σ) (s : Session σ) (cs : List Call) :
    (s.callAll invoker cs).inProgress = s.inProgress := by
  induction cs generalizing s with
  | nil => rfl
  | cons c cs ih => exact ih (s.call invoker c)

@[simp] theorem callAll_calls (invoker : Invoker σ) (s : Session σ) (cs : List Call) :
    (s.callAll invoker cs).calls = s.calls ++ cs := by
  induction cs generalizing s with
  | nil => exact (List.append_nil _).symm
  | cons c cs ih =>
      have h : ((s.call invoker c).callAll invoker cs).calls = (s.calls ++ [c]) ++ cs :=
        ih (s.call invoker c)
      rw [List.append_assoc] at h
      exact h

/-! ### Calls inside calls -/

mutual

/-- A target is brought up or down, and its dependencies by calls inside the call. In it `n`
instances are worked on at once, each inside the one before, so calls stand inside it up to
`n` deep: the innermost instance can only have dependencies that are refused. -/
inductive Brings (invoker : Invoker σ) (config : Config) (context : Context) (mode : Mode) :
    Nat → String → Session σ → Outcome × Session σ → Prop
  | refused {target : String} {s : Session σ} {d : Diagnostic}
      (refused : config.accept mode s.store s.inProgress target = .error d) :
      Brings invoker config context mode 0 target s (.skipped d, s)
  | worked {n : Nat} {target : String} {s between : Session σ} {i : Instance}
      (accepted : config.accept mode s.store s.inProgress target = .ok i)
      (dependencies : BringsAll invoker config context mode i.entity.name n
        (mode.order.arrange i.entity.dependencies)
        ((s.enter i.name).callAll invoker (i.entity.callsBefore context i.name mode)) between) :
      Brings invoker config context mode (n + 1) target s
        (i.outcome mode,
          (between.callAll invoker (i.entity.callsAfter context i.name mode)).leave i mode)

/-- The dependencies of a group are brought up or down one after another. -/
inductive BringsAll (invoker : Invoker σ) (config : Config) (context : Context) (mode : Mode) :
    String → Nat → List String → Session σ → Session σ → Prop
  | nil {group : String} {s : Session σ} : BringsAll invoker config context mode group 0 [] s s
  | cons {group dependency : String} {m n : Nat} {rest : List String} {s s' : Session σ}
      {r : Outcome × Session σ} (first : Brings invoker config context mode m dependency s r)
      (more : BringsAll invoker config context mode group n rest
        (r.2.noteDependency group r.1) s') :
      BringsAll invoker config context mode group (max m n) (dependency :: rest) s s'

end

/-! ### Sessions and walks -/

/-- From one session to the next a walk was made: its changes are those of the store, and
its calls were added. -/
structure Walks (config : Config) (context : Context) (mode : Mode) (targets : List String)
    (trace : List Moment) (s s' : Session σ) : Prop where
  walk : Walk config mode s.inProgress targets s.store trace s'.store
  calls_eq : s'.calls = s.calls ++ trace.flatMap (Moment.calls context mode)
  inProgress_eq : s'.inProgress = s.inProgress

theorem Walks.append {targets more : List String} {trace after : List Moment}
    {s between s' : Session σ} (h : Walks config context mode targets trace s between)
    (h' : Walks config context mode more after between s') :
    Walks config context mode (targets ++ more) (trace ++ after) s s' where
  walk := h.walk.append (h.inProgress_eq ▸ h'.walk)
  calls_eq := by rw [h'.calls_eq, h.calls_eq, List.flatMap_append, List.append_assoc]
  inProgress_eq := h'.inProgress_eq.trans h.inProgress_eq

/-- Calls inside calls make a walk. -/
theorem Brings.exists_walks {n : Nat} {target : String} {s : Session σ} {r : Outcome × Session σ}
    (h : Brings invoker config context mode n target s r) :
    ∃ trace, Walks config context mode [target] trace s r.2 := by
  refine @Brings.rec σ invoker config context mode
    (fun _ target s r _ => ∃ trace, Walks config context mode [target] trace s r.2)
    (fun _ _ targets s s' _ => ∃ trace, Walks config context mode targets trace s s')
    ?refused ?worked ?nil ?cons n target s r h
  case refused => exact fun refused => ⟨[], .skip refused .nil, by simp, rfl⟩
  case worked =>
    intro n target s between i accepted _ ih
    obtain ⟨inner, hinner⟩ := ih
    have hwalk := hinner.walk
    simp only [callAll_inProgress, callAll_store, enter_inProgress, enter_store] at hwalk
    refine ⟨.began i :: (inner ++ [.ended i]), ?_, ?_, ?_⟩
    · simpa using Walk.work accepted hwalk .nil
    · simp [hinner.calls_eq, Moment.calls]
    · simp [hinner.inProgress_eq]
  case nil => exact fun {_ _} => ⟨[], .nil, by simp, rfl⟩
  case cons =>
    rintro group d m n rest s s' r _ _ ⟨first, hfirst⟩ ⟨after, hafter⟩
    exact ⟨first ++ after, hfirst.append ⟨hafter.walk, hafter.calls_eq, hafter.inProgress_eq⟩⟩

theorem Brings.inProgress_eq {n : Nat} {target : String} {s : Session σ} {r : Outcome × Session σ}
    (h : Brings invoker config context mode n target s r) : r.2.inProgress = s.inProgress := by
  obtain ⟨trace, htrace⟩ := h.exists_walks
  exact htrace.inProgress_eq

/-! ### The bound is never reached -/

/-- When each of the dependencies is brought up or down by calls inside calls, so are all of
them in turn. -/
theorem exists_bringsAll_foldl {visit : String → Session σ → Outcome × Session σ}
    {busy targets : List String} {bound : Nat} (group : String)
    (hvisit : ∀ d ∈ targets, ∀ s : Session σ, s.inProgress = busy →
      ∃ n ≤ bound, Brings invoker config context mode n d s (visit d s))
    (s : Session σ) (hs : s.inProgress = busy) :
    ∃ n ≤ bound, BringsAll invoker config context mode group n targets s
      (targets.foldl (fun s d =>
        let r := visit d s
        r.2.noteDependency group r.1) s) := by
  induction targets generalizing s with
  | nil => exact ⟨0, Nat.zero_le bound, .nil⟩
  | cons d targets ih =>
      obtain ⟨m, hm, hfirst⟩ := hvisit d List.mem_cons_self s hs
      obtain ⟨n, hn, hmore⟩ := ih (fun t ht => hvisit t (List.mem_cons_of_mem _ ht))
        ((visit d s).2.noteDependency group (visit d s).1) (hfirst.inProgress_eq.trans hs)
      exact ⟨max m n, Nat.max_le.2 ⟨hm, hn⟩, .cons hfirst hmore⟩

/-- With more depth than there is room, a target is brought up or down by calls inside calls. -/
theorem exists_brings_bringWithin (depth : Nat) (target : String) (s : Session σ)
    (h : (config.room s.inProgress target).card < depth) :
    ∃ n ≤ (config.room s.inProgress target).card, Brings invoker config context mode n target s
      (bringWithin invoker config context mode depth target s) := by
  induction depth generalizing target s with
  | zero => exact absurd h (Nat.not_lt_zero _)
  | succ depth ih =>
      cases haccept : config.accept mode s.store s.inProgress target with
      | error d =>
          simp only [bringWithin, haccept]
          exact ⟨0, Nat.zero_le _, .refused haccept⟩
      | ok i =>
          have hpos := Config.card_room_pos_of_accept haccept
          have hvisit : ∀ d ∈ mode.order.arrange i.entity.dependencies, ∀ s' : Session σ,
              s'.inProgress = i.name :: s.inProgress →
              ∃ n ≤ (config.room s.inProgress target).card - 1,
                Brings invoker config context mode n d s'
                  (bringWithin invoker config context mode depth d s') := by
            intro d hd s' hs'
            -- The instance that is worked on is no longer free for its dependencies.
            have hroom := Config.card_room_lt_of_accept haccept (Order.mem_arrange.1 hd)
            rw [← hs'] at hroom
            obtain ⟨n, hn, hbrings⟩ := ih d s' (by omega)
            exact ⟨n, by omega, hbrings⟩
          obtain ⟨n, hn, hbrings⟩ := exists_bringsAll_foldl i.entity.name hvisit
            ((s.enter i.name).callAll invoker (i.entity.callsBefore context i.name mode))
            (by simp)
          simp only [bringWithin, haccept]
          exact ⟨n + 1, by omega, .worked haccept hbrings⟩

theorem exists_brings_bring (invoker : Invoker σ) (config : Config) (context : Context)
    (mode : Mode) (target : String) (s : Session σ) :
    ∃ n ≤ config.dependencyInstances.length + 1, Brings invoker config context mode n target s
      (s.bring invoker config context mode target) := by
  have hroom : (config.room s.inProgress target).card < config.depth :=
    config.card_room_lt_depth s.inProgress target
  obtain ⟨n, hn, hbrings⟩ := @exists_brings_bringWithin σ invoker config context mode
    config.depth target s hroom
  rw [Config.depth] at hroom
  exact ⟨n, by omega, hbrings⟩

/-- What a session reports is decided by the acceptance of the target. -/
theorem bring_outcome (invoker : Invoker σ) (config : Config) (context : Context) (mode : Mode)
    (target : String) (s : Session σ) :
    (s.bring invoker config context mode target).1 =
      match config.accept mode s.store s.inProgress target with
      | .error d => .skipped d
      | .ok i => i.outcome mode := by
  simp only [bring, Config.depth, bringWithin]
  cases config.accept mode s.store s.inProgress target <;> rfl

theorem exists_walks_bring (invoker : Invoker σ) (config : Config) (context : Context)
    (mode : Mode) (target : String) (s : Session σ) :
    ∃ trace, Walks config context mode [target] trace s
      (s.bring invoker config context mode target).2 := by
  obtain ⟨n, -, hbrings⟩ := exists_brings_bring invoker config context mode target s
  exact hbrings.exists_walks

/-- Bring targets up or down in turn. -/
def bringAll (invoker : Invoker σ) (config : Config) (context : Context) (mode : Mode)
    (targets : List String) (s : Session σ) : Session σ :=
  targets.foldl (fun s target => (s.bring invoker config context mode target).2) s

theorem exists_walks_bringAll (invoker : Invoker σ) (config : Config) (context : Context)
    (mode : Mode) (targets : List String) (s : Session σ) :
    ∃ trace, Walks config context mode targets trace s
      (s.bringAll invoker config context mode targets) := by
  induction targets generalizing s with
  | nil => exact ⟨[], .nil, by simp [bringAll], rfl⟩
  | cons target targets ih =>
      obtain ⟨first, hfirst⟩ := exists_walks_bring invoker config context mode target s
      obtain ⟨after, hafter⟩ := ih (s.bring invoker config context mode target).2
      exact ⟨first ++ after, hfirst.append hafter⟩

end Session

end NetHooks
