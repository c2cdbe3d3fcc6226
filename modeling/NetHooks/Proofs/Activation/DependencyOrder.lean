import NetHooks.Proofs.Activation.Depth

/-!
# Dependencies come first

In a run there is one moment for each instance that is worked on at which its dependencies have
been gone through and the calls after them come next (`Session.Concludes`). At that moment nothing
is left to do for any dependency (`Session.DoneWith`): it was refused in the session that the walk
through the dependencies left, and there are few reasons to refuse a target.
-/
namespace NetHooks

namespace Config

/-- Nothing can be brought up for the target: it is invalid, or a mapping applies to it and
gives no name, or its name has no definition. -/
inductive Unactivatable (config : Config) (target : String) : Prop
  | invalid (h : Target.check target = .error (.invalidTarget target))
  | unresolved {t : Target} {mapping : String} (valid : Target.check target = .ok t)
      (h : t.resolve config = .error (.mappingUnresolved mapping))
  | undefined {t : Target} {logical : String} (valid : Target.check target = .ok t)
      (resolved : t.resolve config = .ok logical) (h : config.entity? logical = none)

end Config

namespace Target

variable {target : String} {t : Target} {config : Config} {d : Diagnostic}

theorem eq_of_check_eq_error (h : check target = .error d) : d = .invalidTarget target := by
  simp only [check] at h
  split at h
  · exact (Except.error.inj h).symm
  · cases h

theorem exists_of_resolve_eq_error (h : t.resolve config = .error d) :
    ∃ mapping, d = .mappingUnresolved mapping := by
  simp only [resolve] at h
  split at h
  · cases h
  · split at h
    · cases h
    · split at h
      · cases h
      · exact ⟨_, (Except.error.inj h).symm⟩

end Target

namespace Session

variable {σ : Type} {invoker : Invoker σ} {config : Config} {context : Context} {mode : Mode}
  {depth : Nat} {target d : String} {s m : Session σ} {i j : Instance} {done more : List String}
  {before after inner : List Moment}

/-- Nothing is left to do for the target: it is up, or down, or in progress, or there is a reason
why it cannot be brought there. -/
def DoneWith (s : Session σ) (config : Config) (mode : Mode) (target : String) : Prop :=
  let name := (Target.split target).instanceName
  match mode with
  | .start => s.store.get? name ≠ none ∨ name ∈ s.inProgress ∨ config.Unactivatable target
  | .stop => s.store.get? name = none ∨ name ∈ s.inProgress ∨
      Target.check target = .error (.invalidTarget target) ∨
      ∃ logical, s.store.get? name = some logical ∧ config.entity? logical = none

/-- A target that is refused is one that nothing is left to do for. -/
theorem doneWith_of_refuses (h : config.Refuses mode s.store s.inProgress target) :
    s.DoneWith config mode target := by
  cases hcheck : Target.check target with
  | error d =>
      rw [Target.eq_of_check_eq_error hcheck] at hcheck
      cases mode with
      | start => exact .inr (.inr (.invalid hcheck))
      | stop => exact .inr (.inr (.inl hcheck))
  | ok t =>
      obtain rfl := Target.eq_split_of_check hcheck
      by_cases hbusy : (Target.split target).instanceName ∈ s.inProgress
      · cases mode <;> exact .inr (.inl hbusy)
      -- What has a definition would be worked on.
      have hundefined : ∀ logical,
          (Target.split target).logicalFor mode config s.store = .ok logical →
            config.entity? logical = none := by
        intro logical hlogical
        cases hentity : config.entity? logical with
        | none => rfl
        | some entity =>
            exact absurd (Config.accept_eq_ok.2 ⟨_, hcheck, rfl, hlogical, hentity, hbusy⟩)
              (h ⟨_, logical, entity⟩)
      cases hrecord : s.store.get? (Target.split target).instanceName with
      | none =>
          cases mode with
          | stop => exact .inl hrecord
          | start =>
              have hresolve : (Target.split target).logicalFor .start config s.store =
                  (Target.split target).resolve config := by simp [Target.logicalFor, hrecord]
              cases hlogical : (Target.split target).resolve config with
              | ok logical =>
                  exact .inr (.inr (.undefined hcheck hlogical
                    (hundefined logical (hresolve.trans hlogical))))
              | error d =>
                  obtain ⟨mapping, rfl⟩ := Target.exists_of_resolve_eq_error hlogical
                  exact .inr (.inr (.unresolved hcheck hlogical))
      | some logical =>
          cases mode with
          | start => exact .inl (by simp [hrecord])
          | stop =>
              have hlogical : (Target.split target).logicalFor .stop config s.store =
                  .ok logical := by simp [Target.logicalFor, hrecord]
              exact .inr (.inr (.inr ⟨logical, hrecord, hundefined logical hlogical⟩))

/-! ### The moment after the dependencies -/

/-- The session in which the work on the instance goes on after some of its dependencies. -/
def goThrough (invoker : Invoker σ) (config : Config) (context : Context) (mode : Mode)
    (depth : Nat) (i : Instance) (done : List String) (s : Session σ) : Session σ :=
  done.foldl (fun s d =>
    let r := bringWithin invoker config context mode depth d s
    r.2.noteDependency i.entity.name r.1)
    ((s.enter i.name).callAll invoker (i.entity.callsBefore context i.name mode))

theorem bringWithin_of_accept (h : config.accept mode s.store s.inProgress target = .ok i) :
    bringWithin invoker config context mode (depth + 1) target s =
      (i.outcome mode, ((s.goThrough invoker config context mode depth i
        (mode.order.arrange i.entity.dependencies)).callAll invoker
          (i.entity.callsAfter context i.name mode)).leave i mode) := by
  simp only [bringWithin, h]
  rfl

/-- Bringing the target up or down comes to a session in which the dependencies of the instance
have been gone through and the calls after them come next. -/
inductive Concludes (invoker : Invoker σ) (config : Config) (context : Context) (mode : Mode) :
    Nat → String → Session σ → Instance → Session σ → Prop
  | own {depth : Nat} {target : String} {s : Session σ} {i : Instance}
      (accepted : config.accept mode s.store s.inProgress target = .ok i) :
      Concludes invoker config context mode (depth + 1) target s i
        (s.goThrough invoker config context mode depth i
          (mode.order.arrange i.entity.dependencies))
  | within {depth : Nat} {target d : String} {s m : Session σ} {i j : Instance}
      {done more : List String}
      (accepted : config.accept mode s.store s.inProgress target = .ok i)
      (dependencies : mode.order.arrange i.entity.dependencies = done ++ d :: more)
      (inner : Concludes invoker config context mode depth d
        (s.goThrough invoker config context mode depth i done) j m) :
      Concludes invoker config context mode (depth + 1) target s j m

/-- Where the trace has the end of the work on an instance, bringing the target up or down comes to
the session in which the calls of the trace so far were issued. -/
def Timed (invoker : Invoker σ) (config : Config) (context : Context) (mode : Mode) (depth : Nat)
    (target : String) (s : Session σ) (trace : List Moment) : Prop :=
  ∀ before i after, trace = before ++ .ended i :: after →
    ∃ m, Concludes invoker config context mode depth target s i m ∧
      m.calls = s.calls ++ before.flatMap (Moment.calls context mode)

theorem append_eq_append_ended {xs ys : List Moment} (h : xs ++ ys = before ++ .ended j :: after) :
    (∃ rest, xs = before ++ .ended j :: rest) ∨
      ∃ mid, before = xs ++ mid ∧ ys = mid ++ .ended j :: after := by
  rcases List.append_eq_append_iff.1 h with ⟨mid, hbefore, hys⟩ | ⟨mid, hxs, hafter⟩
  · exact .inr ⟨mid, hbefore, hys⟩
  · cases mid with
    | nil => exact .inr ⟨[], by simpa using hxs.symm, by simpa using hafter.symm⟩
    | cons x mid =>
        obtain ⟨rfl, rfl⟩ := List.cons.inj hafter
        exact .inl ⟨mid, hxs⟩

/-- When the walk through each dependency is timed, so is the walk through the first of them. -/
theorem exists_timed_goThrough (accepted : config.accept mode s.store s.inProgress target = .ok i)
    (hvisit : ∀ d ∈ i.entity.dependencies, ∀ s' : Session σ,
      s'.inProgress = i.name :: s.inProgress → ∃ trace,
        Walks config context mode [d] trace s'
          (bringWithin invoker config context mode depth d s').2 ∧
        Timed invoker config context mode depth d s' trace)
    (hdone : mode.order.arrange i.entity.dependencies = done ++ more) :
    ∃ inner, Walks config context mode done inner
        ((s.enter i.name).callAll invoker (i.entity.callsBefore context i.name mode))
        (s.goThrough invoker config context mode depth i done) ∧
      ∀ before j after, inner = before ++ .ended j :: after →
        ∃ m, Concludes invoker config context mode (depth + 1) target s j m ∧
          m.calls = s.calls ++ (i.entity.callsBefore context i.name mode ++
            before.flatMap (Moment.calls context mode)) := by
  induction done using List.reverseRecOn generalizing more with
  | nil => exact ⟨[], ⟨.nil, by simp [goThrough], rfl⟩, by simp⟩
  | append_singleton done d ih =>
      have hsplit : mode.order.arrange i.entity.dependencies = done ++ d :: more := by
        simpa using hdone
      obtain ⟨inner, hwalks, htimed⟩ := ih hsplit
      have hbusy : (s.goThrough invoker config context mode depth i done).inProgress =
          i.name :: s.inProgress := by simpa using hwalks.inProgress_eq
      have hd : d ∈ i.entity.dependencies := by
        rw [← Order.mem_arrange (o := mode.order), hsplit]
        simp
      obtain ⟨trace, hnext, htimed'⟩ := hvisit d hd _ hbusy
      have hlast : s.goThrough invoker config context mode depth i (done ++ [d]) =
          (bringWithin invoker config context mode depth d
            (s.goThrough invoker config context mode depth i done)).2.noteDependency i.entity.name
              (bringWithin invoker config context mode depth d
                (s.goThrough invoker config context mode depth i done)).1 := by
        simp [goThrough]
      refine ⟨inner ++ trace, ?_, fun before j after heq => ?_⟩
      · rw [hlast]
        exact hwalks.append ⟨hnext.walk, hnext.calls_eq, hnext.inProgress_eq⟩
      · rcases append_eq_append_ended heq with ⟨rest, hinner⟩ | ⟨mid, rfl, htrace⟩
        · exact htimed before j rest hinner
        · obtain ⟨m, hconcludes, hcalls⟩ := htimed' mid j after htrace
          refine ⟨m, .within accepted hsplit hconcludes, ?_⟩
          rw [hcalls, hwalks.calls_eq]
          simp

/-- The dependencies of an instance find less room than its target did. -/
theorem card_room_lt_of_inProgress
    (accepted : config.accept mode s.store s.inProgress target = .ok i)
    (hd : d ∈ i.entity.dependencies) (hm : m.inProgress = i.name :: s.inProgress)
    (hroom : (config.room s.inProgress target).card < depth + 1) :
    (config.room m.inProgress d).card < depth := by
  have hlt := Config.card_room_lt_of_accept accepted hd
  rw [hm]
  omega

/-- With more depth than there is room, a target is brought up or down by a walk that is timed. -/
theorem exists_timed (depth : Nat) (target : String) (s : Session σ)
    (h : (config.room s.inProgress target).card < depth) :
    ∃ trace, Walks config context mode [target] trace s
        (bringWithin invoker config context mode depth target s).2 ∧
      Timed invoker config context mode depth target s trace := by
  induction depth generalizing target s with
  | zero => exact absurd h (Nat.not_lt_zero _)
  | succ depth ih =>
      cases haccept : config.accept mode s.store s.inProgress target with
      | error d =>
          simp only [bringWithin, haccept]
          exact ⟨[], ⟨.skip haccept .nil, by simp, rfl⟩, by simp [Timed]⟩
      | ok i =>
          have hvisit : ∀ d ∈ i.entity.dependencies, ∀ s' : Session σ,
              s'.inProgress = i.name :: s.inProgress → ∃ trace,
                Walks config context mode [d] trace s'
                  (bringWithin invoker config context mode depth d s').2 ∧
                Timed invoker config context mode depth d s' trace :=
            fun d hd s' hs' => ih d s' (card_room_lt_of_inProgress haccept hd hs' h)
          obtain ⟨inner, hwalks, htimed⟩ :=
            exists_timed_goThrough haccept hvisit (List.append_nil _).symm
          have hwalk := hwalks.walk
          simp only [callAll_inProgress, callAll_store, enter_inProgress, enter_store] at hwalk
          rw [bringWithin_of_accept haccept]
          refine ⟨.began i :: (inner ++ [.ended i]), ⟨?_, ?_, ?_⟩, fun before j after heq => ?_⟩
          · simpa using Walk.work haccept hwalk .nil
          · simp [hwalks.calls_eq, Moment.calls]
          · simp [hwalks.inProgress_eq]
          · cases before with
            | nil => cases heq
            | cons first before =>
                rw [List.cons_append, List.cons.injEq] at heq
                obtain ⟨rfl, heq⟩ := heq
                rcases append_eq_append_ended heq with ⟨rest, hinner⟩ | ⟨mid, rfl, hlast⟩
                · obtain ⟨m, hconcludes, hcalls⟩ := htimed before j rest hinner
                  exact ⟨m, hconcludes, by simpa [Moment.calls] using hcalls⟩
                · obtain ⟨rfl, rfl⟩ : mid = [] ∧ i = j := by
                    cases mid <;> simp_all
                  refine ⟨_, .own haccept, ?_⟩
                  simp [hwalks.calls_eq, Moment.calls]

/-- Going through dependencies is a walk. -/
theorem exists_walks_goThrough (invoker : Invoker σ) (context : Context)
    (accepted : config.accept mode s.store s.inProgress target = .ok i)
    (hroom : (config.room s.inProgress target).card < depth + 1)
    (hdone : mode.order.arrange i.entity.dependencies = done ++ more) :
    ∃ inner, Walks config context mode done inner
      ((s.enter i.name).callAll invoker (i.entity.callsBefore context i.name mode))
      (s.goThrough invoker config context mode depth i done) := by
  obtain ⟨inner, hwalks, -⟩ := exists_timed_goThrough accepted (fun d hd s' hs' =>
    exists_timed depth d s' (card_room_lt_of_inProgress accepted hd hs' hroom)) hdone
  exact ⟨inner, hwalks⟩

/-- When the calls after the dependencies of an instance come next, nothing is left to do for any
dependency. -/
theorem Concludes.doneWith (h : Concludes invoker config context mode depth target s i m)
    (hroom : (config.room s.inProgress target).card < depth) :
    ∀ d ∈ i.entity.dependencies, m.DoneWith config mode d := by
  induction h with
  | @own depth target s i accepted =>
      intro d hd
      obtain ⟨inner, hwalks⟩ :=
        exists_walks_goThrough invoker context accepted hroom (List.append_nil _).symm
      have hbusy := hwalks.inProgress_eq
      have hrefused := hwalks.walk.refuses.1 d (Order.mem_arrange.2 hd)
      rw [← hbusy] at hrefused
      exact doneWith_of_refuses hrefused
  | @within depth target d s m i j done more accepted dependencies _ ih =>
      obtain ⟨inner, hwalks⟩ :=
        exists_walks_goThrough invoker context accepted hroom dependencies
      have hd : d ∈ i.entity.dependencies := by
        rw [← Order.mem_arrange (o := mode.order), dependencies]
        simp
      have hbusy := hwalks.inProgress_eq
      simp only [callAll_inProgress, enter_inProgress] at hbusy
      exact ih (card_room_lt_of_inProgress accepted hd hbusy hroom)

/-- Whenever the calls after the dependencies of an instance come next, nothing is left to do for
any of the dependencies; and there is such a moment for each end of work in the trace that explains
the calls. -/
theorem dependencies_done_first (invoker : Invoker σ) (config : Config) (context : Context)
    (mode : Mode) (target : String) (s : Session σ) :
    (∀ i m, Concludes invoker config context mode config.depth target s i m →
      ∀ d ∈ i.entity.dependencies, m.DoneWith config mode d) ∧
    ∃ trace, Walks config context mode [target] trace s
        (s.bring invoker config context mode target).2 ∧
      Timed invoker config context mode config.depth target s trace := by
  have hroom := config.card_room_lt_depth s.inProgress target
  exact ⟨fun i m h => h.doneWith hroom, exists_timed config.depth target s hroom⟩

/-- Two groups that depend on each other, and one of them on targets for which nothing can be
brought up. -/
def snareConfig : Config where
  entities := Catalog.ofList [
    ("eth0", .interface ⟨"eth0", none, [], [], .empty, ⟨"interfaces", 1⟩⟩),
    ("lan", .group ⟨"lan", ["eth0", "ring"], .empty, ⟨"interfaces", 2⟩⟩),
    ("ring", .group ⟨"ring", ["lan", "eth0", "ghost", "eth0=", "alias"], .empty,
      ⟨"interfaces", 3⟩⟩)]
  mappings := Catalog.empty.insert "alias" ⟨"alias", [], ⟨"interfaces", 4⟩⟩
  allowLists := .empty

/-- When `ring` is brought up for `lan`, the commands of `ring` come while `lan` is not yet up. -/
theorem dependencies_done_first_snare :
    let ring : Instance := ⟨"ring", "ring", .group ⟨"ring",
      ["lan", "eth0", "ghost", "eth0=", "alias"], .empty, ⟨"interfaces", 3⟩⟩⟩
    let s : Session Unit := begin (.ofEntries "state" .empty) ()
    let invoker : Invoker Unit := fun _ w => ⟨none, [], w⟩
    ∃ m, Concludes invoker snareConfig {} .start snareConfig.depth "lan" s ring m ∧
      m.store.get? "lan" = none ∧ m.inProgress = ["ring", "lan"] ∧
      ∀ d ∈ ring.entity.dependencies, m.DoneWith snareConfig .start d := by
  intro ring s invoker
  have hlan : snareConfig.accept .start s.store s.inProgress "lan" = .ok ⟨"lan", "lan",
      .group ⟨"lan", ["eth0", "ring"], .empty, ⟨"interfaces", 2⟩⟩⟩ := by decide
  have harranged : Mode.start.order.arrange ["eth0", "ring"] = ["eth0"] ++ "ring" :: [] := rfl
  have hconcludes : Concludes invoker snareConfig {} .start 7 "lan" s ring _ :=
    .within hlan harranged (.own (by decide))
  have hdone := (dependencies_done_first invoker snareConfig {} .start "lan" s).1 ring _ hconcludes
  exact ⟨_, hconcludes, by decide, by decide, hdone⟩

end Session

end NetHooks
