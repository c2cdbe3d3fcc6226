import NetHooks.Proofs.Activation.Depth

/-!
# Bringing down undoes bringing up

Bringing a target up and then down leaves the store as it was, when nothing that could be
worked on was recorded before. On the way down the edges are those of the recorded names, on
the way up those of the targets; every instance that came up is reached again.
-/
namespace NetHooks

namespace Walk

variable {config : Config} {target : String} {store up down : Store}
  {rise fall : List Moment}

/-- Every instance that came up is down again. -/
theorem get?_eq_none_of_rise (hup : Walk config .start [] [target] store rise up)
    (hdown : Walk config .stop [] [target] up fall down) {i : Instance}
    (hi : .ended i ∈ rise) : down.get? i.name = none := by
  have hrecord : ∀ {j : Instance}, .ended j ∈ rise →
      up.get? j.name = some j.logical ∧ config.entity? j.logical = some j.entity :=
    fun hj => ⟨(hup.changes_of_ended hj).2.2, (hup.changes_of_ended hj).1⟩
  have hforgotten : ∀ {j : Instance} {d : String}, .ended j ∈ rise →
      j.AskedBy config .start d → config.Refuses .stop down [] d → down.get? j.name = none := by
    rintro j d hj ⟨t, ht, hname, -⟩ hrefused
    exact hdown.get?_eq_none_of_refuses hrefused ht hname (hrecord hj).1 (hrecord hj).2
  induction hup.reached i hi with
  | asked mem names worked => exact hforgotten worked names (hdown.refuses.1 _ mem)
  | @through parent i d reached mem names worked ih =>
      -- The parent is down, so its dependencies were asked for on the way down as well.
      have hparent := hrecord reached.worked
      have hended := hdown.ended_of_forgotten hparent.1 hparent.2 (ih reached.worked)
      exact hforgotten worked names (hdown.refuses.2 parent hended d mem)

/-- Only the target's name and the names of dependencies are worked on. -/
theorem name_of_ended {mode : Mode} (h : Walk config mode [] [target] store rise up)
    {i : Instance} (hi : .ended i ∈ rise) :
    i.name = (Target.split target).instanceName ∨ i.name ∈ config.dependencyInstances := by
  obtain ⟨d, hd, t, ht, hname, -⟩ := h.exists_askedBy hi
  rw [← hname, Target.eq_split_of_check ht]
  rcases hd with hd | ⟨logical, e, he, hd⟩
  · exact .inl (by rw [List.mem_singleton.1 hd])
  · exact .inr (Config.mem_dependencyInstances he hd)

end Walk

namespace Session

variable {σ : Type}

/-- When neither the target's instance nor an instance that some group depends on is
recorded, bringing down what was brought up restores the entries. -/
theorem deactivate_activate (invoker : Invoker σ) (config : Config) (context : Context)
    (target : String) (store : Store) (world : σ) {name logical : String}
    (hfree : store.get? (Target.split target).instanceName = none)
    (hdependencies : ∀ n ∈ config.dependencyInstances, store.get? n = none)
    (hup : (activate invoker config context target (begin store world)).1 =
      .activated name logical) :
    let up := (activate invoker config context target (begin store world)).2
    let down := deactivate invoker config context target up
    down.1 = .deactivated name logical ∧ down.2.store.entries = store.entries := by
  intro up down
  obtain ⟨rise, hrise⟩ := exists_walks_bring invoker config context .start target
    (begin store world)
  obtain ⟨fall, hfall⟩ := exists_walks_bring invoker config context .stop target up
  have hwalk : Walk config .start [] [target] store rise up.store := hrise.walk
  have hidle : up.inProgress = [] := hrise.inProgress_eq
  have hback : Walk config .stop [] [target] up.store fall down.2.store := hidle ▸ hfall.walk
  constructor
  · -- The target was accepted, so it is recorded and accepted again.
    have houtcome := bring_outcome invoker config context .start target (begin store world)
    obtain ⟨i, haccept⟩ : ∃ i, config.accept .start store [] target = .ok i := by
      cases h : config.accept .start store [] target with
      | ok i => exact ⟨i, rfl⟩
      | error d =>
          have := hup.symm.trans houtcome
          simp [begin, h] at this
    obtain ⟨rfl, rfl⟩ : name = i.name ∧ logical = i.logical := by
      have := hup.symm.trans houtcome
      simpa [begin, haccept, Instance.outcome] using this
    obtain ⟨t, ht, hname, -, hdef, -⟩ := Config.accept_eq_ok.1 haccept
    have hrecord := (hwalk.changes_of_ended (hwalk.ended_of_accept haccept)).2.2
    have hagain : config.accept .stop up.store up.inProgress target = .ok i :=
      Config.accept_eq_ok.2 ⟨t, ht, hname, by simp [Target.logicalFor, hname, hrecord], hdef,
        by simp [hidle]⟩
    have houtcome := bring_outcome invoker config context .stop target up
    rw [hagain] at houtcome
    exact houtcome
  · refine Catalog.ext_get? fun n => ?_
    change down.2.store.get? n = store.get? n
    have hfreeAll : ∀ {m : String}, m = (Target.split target).instanceName ∨
        m ∈ config.dependencyInstances → store.get? m = none :=
      fun hm => hm.elim (fun h => h ▸ hfree) (hdependencies _)
    by_cases hchanged : up.store.get? n = store.get? n
    · by_contra hne
      obtain ⟨i, rfl, hi⟩ := hback.exists_ended (fun h => hne (h.trans hchanged))
      have hwas := (hback.changes_of_ended hi).2.1
      rw [hchanged, hfreeAll (hback.name_of_ended hi)] at hwas
      cases hwas
    · obtain ⟨i, rfl, hi⟩ := hwalk.exists_ended hchanged
      rw [hwalk.get?_eq_none_of_rise hback hi, (hwalk.changes_of_ended hi).2.1]

/-- Two groups that depend on each other. The first also names a definition for an instance,
a name without a definition, and a target that is not valid. -/
def ringConfig : Config where
  entities := Catalog.ofList [
    ("eth0", .interface ⟨"eth0", none, [], [], .empty, ⟨"interfaces", 1⟩⟩),
    ("lan", .group ⟨"lan", ["eth0", "wan=eth0", "ring", "ghost", "eth0="], .empty,
      ⟨"interfaces", 2⟩⟩),
    ("ring", .group ⟨"ring", ["lan", "eth0"], .empty, ⟨"interfaces", 3⟩⟩)]
  mappings := .empty
  allowLists := .empty

theorem deactivate_activate_ring :
    let store : Store := .ofEntries "state" (Catalog.empty.insert "wlan0" "wlan0")
    let up := (activate (fun _ w => ⟨none, [], w⟩) ringConfig {} "lan" (begin store ())).2
    let down := deactivate (fun _ w => ⟨none, [], w⟩) ringConfig {} "lan" up
    down.1 = .deactivated "lan" "lan" ∧ down.2.store.entries = store.entries :=
  deactivate_activate (fun _ w => ⟨none, [], w⟩) ringConfig {} "lan"
    (.ofEntries "state" (Catalog.empty.insert "wlan0" "wlan0")) () (by decide) (by decide)
    (by rw [activate, bring_outcome]; decide)

end Session

end NetHooks
