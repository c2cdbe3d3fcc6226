import NetHooks.Activation.Session

/-!
# Walks

A walk goes through targets in turn, without a bound on the depth and without hooks. It
works on the instances that are accepted, each time going through their dependencies first,
and its trace tells when the work on each of them begins and ends.

Three facts carry what is said about sessions. The work on a name happens once and is what
changes the name in the store (`Walk.account`). At the end every target and every
dependency of an instance that was worked on is refused (`Walk.refuses`). And each instance
that was worked on was asked for by a target, or by a dependency of another
(`Walk.reached`).
-/
namespace NetHooks

/-! ### Acceptance -/

/-- Nothing is left to do for the name in this direction. -/
def Store.Settled (s : Store) (mode : Mode) (name : String) : Prop :=
  match mode with
  | .start => s.get? name ≠ none
  | .stop => s.get? name = none

namespace Instance

/-- Between the two stores the instance was recorded, or was forgotten. -/
def Changes (i : Instance) (mode : Mode) (before after : Store) : Prop :=
  match mode with
  | .start => before.get? i.name = none ∧ after.get? i.name = some i.logical
  | .stop => before.get? i.name = some i.logical ∧ after.get? i.name = none

/-- The target names the instance. When bringing up, it also gives the logical name. -/
def AskedBy (i : Instance) (config : Config) (mode : Mode) (target : String) : Prop :=
  ∃ t, Target.check target = .ok t ∧ t.instanceName = i.name ∧
    (mode = .start → t.resolve config = .ok i.logical)

theorem settled_settle (i : Instance) (mode : Mode) (s : Store) :
    (i.settle mode s).Settled mode i.name := by
  cases mode <;> simp [settle, Store.Settled]

theorem get?_settle_of_ne {i : Instance} {name : String} (h : name ≠ i.name) (mode : Mode)
    (s : Store) : (i.settle mode s).get? name = s.get? name := by
  cases mode <;> simp [settle, h]

end Instance

namespace Target

/-- The logical name depends on what is recorded for the target's own instance only. -/
theorem logicalFor_congr {t : Target} {s s' : Store}
    (h : s'.get? t.instanceName = s.get? t.instanceName) (mode : Mode) (config : Config) :
    t.logicalFor mode config s' = t.logicalFor mode config s := by
  simp only [logicalFor, h]

theorem not_settled_of_logicalFor {t : Target} {mode : Mode} {config : Config} {s : Store}
    {logical : String} (h : t.logicalFor mode config s = .ok logical) :
    ¬s.Settled mode t.instanceName := by
  cases mode <;> cases hs : s.get? t.instanceName <;> simp_all [logicalFor, Store.Settled]

theorem resolve_of_logicalFor {t : Target} {config : Config} {s : Store} {logical : String}
    (h : t.logicalFor .start config s = .ok logical) : t.resolve config = .ok logical := by
  cases hs : s.get? t.instanceName <;> simp_all [logicalFor]

end Target

namespace Config

variable {config : Config} {mode : Mode} {store store' : Store} {busy busy' : List String}
  {target : String} {i : Instance}

theorem accept_eq_ok : config.accept mode store busy target = .ok i ↔
    ∃ t, Target.check target = .ok t ∧ t.instanceName = i.name ∧
      t.logicalFor mode config store = .ok i.logical ∧
      config.entity? i.logical = some i.entity ∧ i.name ∉ busy := by
  simp only [accept]
  constructor
  · intro h
    split at h
    · cases h
    next t ht =>
      split at h
      · cases h
      next logical hl =>
        split at h
        · cases h
        next entity he =>
          split at h
          · cases h
          next hb =>
            cases h
            exact ⟨t, ht, rfl, hl, he, by simpa using hb⟩
  · rintro ⟨t, ht, hname, hl, he, hb⟩
    simp [ht, hl, he, hname, hb]

/-- No instance is worked on for the target. -/
def Refuses (config : Config) (mode : Mode) (store : Store) (busy : List String)
    (target : String) : Prop :=
  ∀ i, config.accept mode store busy target ≠ .ok i

theorem refuses_of_error {d : Diagnostic} (h : config.accept mode store busy target = .error d) :
    config.Refuses mode store busy target := by
  intro i hi
  rw [h] at hi
  cases hi

theorem refuses_of_settled {t : Target} (ht : Target.check target = .ok t)
    (hs : store.Settled mode t.instanceName) : config.Refuses mode store busy target := by
  intro i hi
  obtain ⟨u, hu, -, hl, -, -⟩ := accept_eq_ok.1 hi
  cases ht.symm.trans hu
  exact Target.not_settled_of_logicalFor hl hs

/-- A target stays refused while names are settled, also the names that were busy. -/
theorem Refuses.mono (h : config.Refuses mode store busy target)
    (hstore : ∀ name, store'.get? name = store.get? name ∨ store'.Settled mode name)
    (hbusy : ∀ name ∈ busy, name ∈ busy' ∨ store'.Settled mode name) :
    config.Refuses mode store' busy' target := by
  intro i hi
  obtain ⟨t, ht, hname, hl, he, hb⟩ := accept_eq_ok.1 hi
  have hopen : ¬store'.Settled mode i.name := hname ▸ Target.not_settled_of_logicalFor hl
  have hsame : store'.get? t.instanceName = store.get? t.instanceName :=
    hname ▸ (hstore i.name).resolve_right hopen
  have hfree : i.name ∉ busy := fun hm => (hbusy _ hm).elim hb hopen
  exact h i (accept_eq_ok.2 ⟨t, ht, hname, Target.logicalFor_congr hsame mode config ▸ hl, he, hfree⟩)

theorem askedBy_of_accept (h : config.accept mode store busy target = .ok i) :
    i.AskedBy config mode target := by
  obtain ⟨t, ht, hname, hl, -, -⟩ := accept_eq_ok.1 h
  exact ⟨t, ht, hname, fun hm => by subst hm; exact Target.resolve_of_logicalFor hl⟩

end Config

/-! ### Walks -/

/-- The work on an instance begins or ends. -/
inductive Moment where
  | began (i : Instance)
  | ended (i : Instance)

namespace Moment

/-- The instance that is worked on. -/
def subject : Moment → Instance
  | began i => i
  | ended i => i

/-- What is asked of hooks at the moment. -/
def calls (context : Context) (mode : Mode) : Moment → List Call
  | began i => i.entity.callsBefore context i.name mode
  | ended i => i.entity.callsAfter context i.name mode

/-- The moments of a name. -/
def about (name : String) (trace : List Moment) : List Moment :=
  trace.filter fun m => m.subject.name = name

@[simp] theorem about_nil (name : String) : about name [] = [] := rfl

@[simp] theorem about_append (name : String) (xs ys : List Moment) :
    about name (xs ++ ys) = about name xs ++ about name ys :=
  List.filter_append ..

@[simp] theorem about_cons (name : String) (m : Moment) (trace : List Moment) :
    about name (m :: trace) =
      if m.subject.name = name then m :: about name trace else about name trace := by
  simp [about, List.filter_cons]

end Moment

/-- Going through targets while the work on the names in `busy` goes on: the trace, and the
store before and after it. -/
inductive Walk (config : Config) (mode : Mode) :
    List String → List String → Store → List Moment → Store → Prop
  | nil {busy : List String} {store : Store} : Walk config mode busy [] store [] store
  | skip {busy targets : List String} {target : String} {store store' : Store}
      {trace : List Moment} {d : Diagnostic}
      (refused : config.accept mode store busy target = .error d)
      (rest : Walk config mode busy targets store trace store') :
      Walk config mode busy (target :: targets) store trace store'
  | work {busy targets : List String} {target : String} {store between store' : Store}
      {inner trace : List Moment} {i : Instance}
      (accepted : config.accept mode store busy target = .ok i)
      (dependencies : Walk config mode (i.name :: busy)
        (mode.order.arrange i.entity.dependencies) store inner between)
      (rest : Walk config mode busy targets (i.settle mode between) trace store') :
      Walk config mode busy (target :: targets) store
        (.began i :: (inner ++ .ended i :: trace)) store'

namespace Walk

variable {config : Config} {mode : Mode} {busy targets more : List String}
  {store between store' : Store} {trace after : List Moment}

theorem append (h : Walk config mode busy targets store trace between)
    (h' : Walk config mode busy more between after store') :
    Walk config mode busy (targets ++ more) store (trace ++ after) store' := by
  induction h with
  | nil => exact h'
  | skip refused _ ih => exact .skip refused (ih h')
  | work accepted dependencies _ _ ih =>
      have hw := Walk.work accepted dependencies (ih h')
      simpa [List.append_assoc] using hw

/-- A name is either left alone, or the work on it begins and ends once, and this changes
what the store holds for it. -/
theorem account (h : Walk config mode busy targets store trace store') (name : String) :
    (Moment.about name trace = [] ∧ store'.get? name = store.get? name) ∨
      ∃ i : Instance, i.name = name ∧ config.entity? i.logical = some i.entity ∧
        name ∉ busy ∧ Moment.about name trace = [.began i, .ended i] ∧
        i.Changes mode store store' := by
  induction h with
  | nil => exact .inl ⟨rfl, rfl⟩
  | skip _ _ ih => exact ih
  | @work busy targets target store between store' inner trace i accepted _ _ ihInner ihRest =>
      obtain ⟨t, -, hname, hl, he, hb⟩ := Config.accept_eq_ok.1 accepted
      by_cases hi : i.name = name
      · subst hi
        -- The name is busy inside and settled afterwards, so the work happens here only.
        have hinner : Moment.about i.name inner = [] ∧ between.get? i.name = store.get? i.name := by
          rcases ihInner with hquiet | ⟨_, _, _, hfree, _, _⟩
          · exact hquiet
          · exact absurd List.mem_cons_self hfree
        have hrest : Moment.about i.name trace = [] ∧
            store'.get? i.name = (i.settle mode between).get? i.name := by
          rcases ihRest with hquiet | ⟨j, hj, _, _, _, hchange⟩
          · exact hquiet
          · cases mode <;> simp [Instance.Changes, hj, Instance.settle] at hchange
        refine .inr ⟨i, rfl, he, hb, ?_, ?_⟩
        · simp [Moment.subject, hinner.1, hrest.1]
        · have hopen := Target.not_settled_of_logicalFor hl
          cases mode <;> cases hs : store.get? i.name <;>
            simp_all [Instance.Changes, Instance.settle, Store.Settled, Target.logicalFor]
      · have hkeep : (i.settle mode between).get? name = between.get? name :=
          Instance.get?_settle_of_ne (Ne.symm hi) mode between
        rcases ihInner with ⟨hquiet, hsame⟩ | ⟨j, hj, hdef, hfree, hwork, hchange⟩
        · rcases ihRest with ⟨hquiet', hsame'⟩ | ⟨j, hj, hdef, hfree, hwork, hchange⟩
          · refine .inl ⟨by simp [Moment.subject, hi, hquiet, hquiet'], ?_⟩
            rw [hsame', hkeep, hsame]
          · refine .inr ⟨j, hj, hdef, hfree, by simp [Moment.subject, hi, hquiet, hwork], ?_⟩
            subst hj
            cases mode <;> simpa only [Instance.Changes, hkeep, hsame] using hchange
        · rcases ihRest with ⟨hquiet', hsame'⟩ | ⟨k, hk, _, _, _, hchange'⟩
          · refine .inr ⟨j, hj, hdef, fun hm => hfree (List.mem_cons_of_mem _ hm),
              by simp [Moment.subject, hi, hquiet', hwork], ?_⟩
            subst hj
            cases mode <;> simpa only [Instance.Changes, hkeep, hsame'] using hchange
          · subst hj
            cases mode <;> simp_all [Instance.Changes]

/-- An instance whose work began or ended has its definition and changed the store. -/
theorem changes_of_mem (h : Walk config mode busy targets store trace store') {m : Moment}
    (hm : m ∈ trace) : config.entity? m.subject.logical = some m.subject.entity ∧
      m.subject.Changes mode store store' := by
  have hmem : m ∈ Moment.about m.subject.name trace := List.mem_filter.2 ⟨hm, by simp⟩
  rcases h.account m.subject.name with ⟨hquiet, _⟩ | ⟨i, _, hdef, _, hwork, hchange⟩
  · simp [hquiet] at hmem
  · rw [hwork] at hmem
    rcases List.mem_cons.1 hmem with rfl | hmem
    · exact ⟨hdef, hchange⟩
    · exact List.mem_singleton.1 hmem ▸ ⟨hdef, hchange⟩

theorem changes_of_ended (h : Walk config mode busy targets store trace store') {i : Instance}
    (hi : .ended i ∈ trace) :
    config.entity? i.logical = some i.entity ∧ i.Changes mode store store' :=
  h.changes_of_mem hi

/-- What changed in the store was worked on. -/
theorem exists_ended (h : Walk config mode busy targets store trace store') {name : String}
    (hne : store'.get? name ≠ store.get? name) : ∃ i : Instance, i.name = name ∧ .ended i ∈ trace := by
  rcases h.account name with ⟨_, hsame⟩ | ⟨i, hi, _, _, hwork, _⟩
  · exact absurd hsame hne
  · have hmem : .ended i ∈ Moment.about name trace := by simp [hwork]
    exact ⟨i, hi, (List.mem_filter.1 hmem).1⟩

theorem ended_of_accept {target : String} {i : Instance}
    (h : Walk config mode busy (target :: targets) store trace store')
    (haccept : config.accept mode store busy target = .ok i) : .ended i ∈ trace := by
  cases h with
  | skip refused _ => exact absurd (refused.symm.trans haccept) (by simp)
  | work accepted _ _ =>
      cases accepted.symm.trans haccept
      simp

/-- What a walk does to the store only settles names. -/
theorem get?_eq_or_settled (h : Walk config mode busy targets store trace store')
    (name : String) : store'.get? name = store.get? name ∨ store'.Settled mode name := by
  rcases h.account name with ⟨_, hsame⟩ | ⟨i, rfl, _, _, _, hchange⟩
  · exact .inl hsame
  · refine .inr ?_
    cases mode <;> simp [Store.Settled, hchange.2]

theorem settled_of_settled (h : Walk config mode busy targets store trace store')
    {name : String} (hs : store.Settled mode name) : store'.Settled mode name := by
  rcases h.get?_eq_or_settled name with hsame | hs'
  · cases mode <;> simpa [Store.Settled, hsame] using hs
  · exact hs'

/-- At the end of a walk its targets are refused, and so are the dependencies of every
instance that was worked on. -/
theorem refuses (h : Walk config mode busy targets store trace store') :
    (∀ target ∈ targets, config.Refuses mode store' busy target) ∧
      ∀ i, .ended i ∈ trace → ∀ d ∈ i.entity.dependencies,
        config.Refuses mode store' busy d := by
  induction h with
  | nil => simp
  | @skip busy targets target store store' trace d refused rest ih =>
      refine ⟨fun t ht => ?_, ih.2⟩
      rcases List.mem_cons.1 ht with rfl | ht
      · exact (Config.refuses_of_error refused).mono rest.get?_eq_or_settled
          fun _ hm => .inl hm
      · exact ih.1 t ht
  | @work busy targets target store between store' inner trace i accepted _ rest ihInner ihRest =>
      have hsettled : store'.Settled mode i.name :=
        rest.settled_of_settled (i.settled_settle mode between)
      -- What was refused inside stays refused when the instance itself is settled.
      have hcarry : ∀ d, config.Refuses mode between (i.name :: busy) d →
          config.Refuses mode store' busy d := by
        refine fun d hd => hd.mono (fun name => ?_) fun name hm => ?_
        · by_cases hn : name = i.name
          · exact .inr (hn ▸ hsettled)
          · rw [← Instance.get?_settle_of_ne hn mode between]
            exact rest.get?_eq_or_settled name
        · rcases List.mem_cons.1 hm with rfl | hm
          · exact .inr hsettled
          · exact .inl hm
      refine ⟨fun t ht => ?_, fun j hj d hd => ?_⟩
      · rcases List.mem_cons.1 ht with rfl | ht
        · obtain ⟨u, hu, hname, -, -, -⟩ := Config.accept_eq_ok.1 accepted
          exact Config.refuses_of_settled hu (hname ▸ hsettled)
        · exact ihRest.1 t ht
      · simp only [List.mem_cons, List.mem_append, reduceCtorEq, false_or,
          Moment.ended.injEq] at hj
        rcases hj with hj | rfl | hj
        · exact hcarry d (ihInner.2 j hj d hd)
        · exact hcarry d (ihInner.1 d (Order.mem_arrange.2 hd))
        · exact ihRest.2 j hj d hd

/-- What was forgotten was worked on under the name that it was recorded under. -/
theorem ended_of_forgotten (h : Walk config .stop busy targets store trace store') {i : Instance}
    (hrecord : store.get? i.name = some i.logical) (hdef : config.entity? i.logical = some i.entity)
    (hgone : store'.get? i.name = none) : .ended i ∈ trace := by
  have hchanged : store'.get? i.name ≠ store.get? i.name := by
    rw [hgone, hrecord]
    nofun
  obtain ⟨j, hname, hj⟩ := h.exists_ended hchanged
  obtain ⟨hdefined, hwas, -⟩ := h.changes_of_ended hj
  have hlogical : j.logical = i.logical := by
    rw [hname, hrecord] at hwas
    exact (Option.some.inj hwas).symm
  have hentity : j.entity = i.entity := by
    rw [hlogical, hdef] at hdefined
    exact (Option.some.inj hdefined).symm
  have heq : j = i := by
    cases i
    cases j
    simp_all
  exact heq ▸ hj

/-- A recorded instance with a definition is forgotten, when a target for it is refused at
the end. -/
theorem get?_eq_none_of_refuses (h : Walk config .stop [] targets store trace store')
    {i : Instance} {d : String} {t : Target} (hrefused : config.Refuses .stop store' [] d)
    (ht : Target.check d = .ok t) (hname : t.instanceName = i.name)
    (hrecord : store.get? i.name = some i.logical)
    (hdef : config.entity? i.logical = some i.entity) : store'.get? i.name = none := by
  rcases h.get?_eq_or_settled i.name with hsame | hsettled
  · refine absurd (Config.accept_eq_ok.2 ⟨t, ht, hname, ?_, hdef, by simp⟩) (hrefused i)
    simp [Target.logicalFor, hname, hsame, hrecord]
  · exact hsettled

end Walk

/-! ### Why an instance is worked on -/

/-- The instance was asked for by one of the targets, or by a dependency of an instance that
was itself reached; and so was every instance in between. -/
inductive Reached (config : Config) (mode : Mode) (targets : List String)
    (trace : List Moment) : Instance → Prop
  | asked {target : String} {i : Instance} (mem : target ∈ targets)
      (names : i.AskedBy config mode target) (worked : .ended i ∈ trace) :
      Reached config mode targets trace i
  | through {parent i : Instance} {target : String}
      (reached : Reached config mode targets trace parent)
      (mem : target ∈ parent.entity.dependencies)
      (names : i.AskedBy config mode target) (worked : .ended i ∈ trace) :
      Reached config mode targets trace i

namespace Reached

variable {config : Config} {mode : Mode} {targets targets' : List String}
  {trace trace' : List Moment} {i : Instance}

theorem worked (h : Reached config mode targets trace i) : .ended i ∈ trace := by
  cases h <;> assumption

/-- Reaching goes on in a longer trace, from whatever reaches what the targets ask for. -/
theorem lift (h : Reached config mode targets trace i)
    (htrace : ∀ m ∈ trace, m ∈ trace')
    (hfirst : ∀ target ∈ targets, ∀ j : Instance, j.AskedBy config mode target →
      .ended j ∈ trace → Reached config mode targets' trace' j) :
    Reached config mode targets' trace' i := by
  induction h with
  | asked mem names worked => exact hfirst _ mem _ names worked
  | through _ mem names worked ih => exact .through ih mem names (htrace _ worked)

end Reached

theorem Walk.reached {config : Config} {mode : Mode} {busy targets : List String}
    {store store' : Store} {trace : List Moment}
    (h : Walk config mode busy targets store trace store') :
    ∀ i, .ended i ∈ trace → Reached config mode targets trace i := by
  induction h with
  | nil => simp
  | skip _ _ ih =>
      intro i hi
      exact (ih i hi).lift (fun _ hm => hm) fun t ht j hj hw =>
        .asked (List.mem_cons_of_mem _ ht) hj hw
  | @work busy targets target store between store' inner trace i accepted _ _ ihInner ihRest =>
      have hself : Reached config mode (target :: targets)
          (.began i :: (inner ++ .ended i :: trace)) i :=
        .asked List.mem_cons_self (Config.askedBy_of_accept accepted) (by simp)
      intro j hj
      simp only [List.mem_cons, List.mem_append, reduceCtorEq, false_or,
        Moment.ended.injEq] at hj
      rcases hj with hj | rfl | hj
      · refine (ihInner j hj).lift (by simp +contextual) fun d hd k hk hw => ?_
        exact .through hself (Order.mem_arrange.1 hd) hk (by simp [hw])
      · exact hself
      · refine (ihRest j hj).lift (by simp +contextual) fun t ht k hk hw => ?_
        exact .asked (List.mem_cons_of_mem _ ht) hk (by simp [hw])

/-- The definition of the name depends on the target. -/
def Config.DependsOn (config : Config) (name target : String) : Prop :=
  ∃ e, config.entity? name = some e ∧ target ∈ e.dependencies

/-- An instance that was worked on is named by a target or by a dependency. -/
theorem Walk.exists_askedBy {config : Config} {mode : Mode} {busy targets : List String}
    {store store' : Store} {trace : List Moment}
    (h : Walk config mode busy targets store trace store') {i : Instance}
    (hi : .ended i ∈ trace) :
    ∃ target, (target ∈ targets ∨ ∃ name, config.DependsOn name target) ∧
      i.AskedBy config mode target := by
  cases h.reached i hi with
  | asked mem names _ => exact ⟨_, .inl mem, names⟩
  | @through parent _ d reached mem names _ =>
      have hdef := (h.changes_of_ended reached.worked).1
      exact ⟨d, .inr ⟨parent.logical, parent.entity, hdef, mem⟩, names⟩

end NetHooks
