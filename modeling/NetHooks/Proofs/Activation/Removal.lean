import NetHooks.Proofs.Activation.Depth

/-!
# Bringing down removes what lies below

A recorded instance lies on the instances that its recorded definition depends on. Bringing
targets down forgets what lies below them, as far as instances are recorded under names with a
definition, and nothing else. The order of the targets does not matter.
-/
namespace NetHooks

namespace Config

/-- The instance is recorded under a name with the definition. -/
def RecordedWith (config : Config) (store : Store) (name : String) (e : Entity) : Prop :=
  ∃ logical, store.get? name = some logical ∧ config.entity? logical = some e

/-- The instance is named by one of the targets, or by a dependency of an instance below them;
it is recorded under a name with a definition, and so is every instance in between. -/
inductive Below (config : Config) (store : Store) (targets : List String) : String → Prop
  | target {target : String} {t : Target} {e : Entity} (mem : target ∈ targets)
      (valid : Target.check target = .ok t)
      (recorded : config.RecordedWith store t.instanceName e) :
      Below config store targets t.instanceName
  | dependency {name dependency : String} {t : Target} {above e : Entity}
      (below : Below config store targets name)
      (recordedAbove : config.RecordedWith store name above)
      (mem : dependency ∈ above.dependencies) (valid : Target.check dependency = .ok t)
      (recorded : config.RecordedWith store t.instanceName e) :
      Below config store targets t.instanceName

variable {config : Config} {store : Store} {targets targets' : List String} {name : String}

theorem Below.mono (h : config.Below store targets name)
    (hsub : ∀ target ∈ targets, target ∈ targets') : config.Below store targets' name := by
  induction h with
  | target mem valid recorded => exact .target (hsub _ mem) valid recorded
  | dependency _ recordedAbove mem valid recorded ih =>
      exact .dependency ih recordedAbove mem valid recorded

end Config

namespace Walk

variable {config : Config} {targets : List String} {store store' : Store} {trace : List Moment}

/-- What was worked on was recorded with its definition. -/
theorem recordedWith_of_ended (h : Walk config .stop [] targets store trace store') {i : Instance}
    (hi : .ended i ∈ trace) : config.RecordedWith store i.name i.entity := by
  obtain ⟨hdef, hwas, -⟩ := h.changes_of_ended hi
  exact ⟨i.logical, hwas, hdef⟩

theorem below_of_ended (h : Walk config .stop [] targets store trace store') {i : Instance}
    (hi : .ended i ∈ trace) : config.Below store targets i.name := by
  induction h.reached i hi with
  | @asked target i mem names worked =>
      have hrecorded := h.recordedWith_of_ended worked
      obtain ⟨t, ht, hname, -⟩ := names
      rw [← hname] at hrecorded ⊢
      exact .target mem ht hrecorded
  | @through parent i dependency reached mem names worked ih =>
      have hparent := h.recordedWith_of_ended reached.worked
      have hrecorded := h.recordedWith_of_ended worked
      obtain ⟨t, ht, hname, -⟩ := names
      rw [← hname] at hrecorded ⊢
      exact .dependency (ih reached.worked) hparent mem ht hrecorded

theorem get?_eq_none_of_below (h : Walk config .stop [] targets store trace store') {name : String}
    (hbelow : config.Below store targets name) : store'.get? name = none := by
  induction hbelow with
  | @target target t e mem valid recorded =>
      obtain ⟨logical, hrecord, hdef⟩ := recorded
      let i : Instance := ⟨t.instanceName, logical, e⟩
      exact h.get?_eq_none_of_refuses (i := i) (h.refuses.1 target mem) valid rfl hrecord hdef
  | @dependency name dependency t above e below recordedAbove mem valid recorded ih =>
      -- The instance above is gone, so it was worked on, and its dependency was asked for.
      obtain ⟨logicalAbove, hrecordAbove, hdefAbove⟩ := recordedAbove
      obtain ⟨logical, hrecord, hdef⟩ := recorded
      let parent : Instance := ⟨name, logicalAbove, above⟩
      let i : Instance := ⟨t.instanceName, logical, e⟩
      have hended : .ended parent ∈ trace := h.ended_of_forgotten hrecordAbove hdefAbove ih
      have hrefused := h.refuses.2 parent hended dependency mem
      exact h.get?_eq_none_of_refuses (i := i) hrefused valid rfl hrecord hdef

/-- What a walk leaves of the entries. -/
theorem get?_eq_some_iff_not_below (h : Walk config .stop [] targets store trace store')
    (name logical : String) : store'.get? name = some logical ↔
      store.get? name = some logical ∧ ¬config.Below store targets name := by
  constructor
  · intro hget
    have hnot : ¬config.Below store targets name := by
      intro hbelow
      rw [h.get?_eq_none_of_below hbelow] at hget
      cases hget
    refine ⟨?_, hnot⟩
    by_contra hne
    obtain ⟨i, rfl, hi⟩ := h.exists_ended fun hsame => hne (hsame ▸ hget)
    exact hnot (h.below_of_ended hi)
  · rintro ⟨hwas, hnot⟩
    by_contra hne
    obtain ⟨i, rfl, hi⟩ := h.exists_ended fun hsame => hne (hsame.trans hwas)
    exact hnot (h.below_of_ended hi)

end Walk

namespace Session

variable {σ : Type}

/-- Bringing targets down in turn leaves the entries that do not lie below them, with their
values, and does so in every order of the targets. -/
theorem deactivate_removes_below (invoker : Invoker σ) (config : Config) (context : Context)
    (store : Store) (world : σ) (targets : List String) :
    let final := ((begin store world).bringAll invoker config context .stop targets).store
    (∀ name logical, final.get? name = some logical ↔
      store.get? name = some logical ∧ ¬config.Below store targets name) ∧
    ∀ targets', targets'.Perm targets →
      ((begin store world).bringAll invoker config context .stop targets').store.entries =
        final.entries := by
  have hremoval : ∀ (ts : List String) (name logical : String),
      ((begin store world).bringAll invoker config context .stop ts).store.get? name =
          some logical ↔ store.get? name = some logical ∧ ¬config.Below store ts name := by
    intro ts
    obtain ⟨trace, h⟩ := exists_walks_bringAll invoker config context .stop ts
      (begin store world)
    exact h.walk.get?_eq_some_iff_not_below
  refine ⟨hremoval targets, fun targets' hperm => Catalog.ext_get? fun name => ?_⟩
  have hbelow : config.Below store targets' name ↔ config.Below store targets name :=
    ⟨fun h => h.mono fun t ht => hperm.mem_iff.1 ht, fun h => h.mono fun t ht => hperm.mem_iff.2 ht⟩
  refine Option.ext fun logical => ?_
  calc ((begin store world).bringAll invoker config context .stop targets').store.get? name =
          some logical
      ↔ store.get? name = some logical ∧ ¬config.Below store targets' name :=
        hremoval targets' name logical
    _ ↔ store.get? name = some logical ∧ ¬config.Below store targets name := by rw [hbelow]
    _ ↔ ((begin store world).bringAll invoker config context .stop targets).store.get? name =
          some logical := (hremoval targets name logical).symm

/-- Two groups that depend on each other and share an interface, which one of them names by
another instance. -/
def tangleConfig : Config where
  entities := Catalog.ofList [
    ("eth0", .interface ⟨"eth0", none, [], [], .empty, ⟨"interfaces", 1⟩⟩),
    ("east", .group ⟨"east", ["eth0", "west", "old", "=eth0"], .empty, ⟨"interfaces", 2⟩⟩),
    ("west", .group ⟨"west", ["east", "wan=eth0"], .empty, ⟨"interfaces", 3⟩⟩)]
  mappings := .empty
  allowLists := .empty

/-- An entry without a definition stays, and so does one that nothing leads to. -/
theorem deactivate_removes_below_tangle :
    let store : Store := .ofEntries "state" (Catalog.ofList [("bus", "west"), ("eth0", "eth0"),
      ("east", "east"), ("old", "gone"), ("wan", "eth0"), ("wlan0", "eth0")])
    let invoker : Invoker Unit := fun _ w => ⟨none, [], w⟩
    let final := ((begin store ()).bringAll invoker tangleConfig {} .stop ["bus", "ghost"]).store
    final.entries = Catalog.ofList [("old", "gone"), ("wlan0", "eth0")] ∧
    (∀ name logical, final.get? name = some logical ↔
      store.get? name = some logical ∧ ¬tangleConfig.Below store ["bus", "ghost"] name) ∧
    ((begin store ()).bringAll invoker tangleConfig {} .stop ["ghost", "bus"]).store.entries =
      final.entries := by
  intro store invoker final
  have h := deactivate_removes_below invoker tangleConfig {} store () ["bus", "ghost"]
  exact ⟨by decide, h.1, h.2 ["ghost", "bus"] (.swap "bus" "ghost" [])⟩

end Session

end NetHooks
