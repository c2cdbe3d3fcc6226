import NetHooks.Proofs.Activation.Depth
import Mathlib.Data.List.TakeWhile

/-!
# Bringing up computes a closure

When no name overrides another with an equals sign, bringing targets up records the names
that open names lead to from the targets, each under itself, and nothing else. The order of
the targets does not matter.
-/
namespace NetHooks

theorem Target.split_of_not_mem {target : String} (h : '=' ∉ target.toList) :
    Target.split target = ⟨target, none⟩ := by
  have hdrop : target.toList.dropWhile (· != '=') = [] := by
    refine List.dropWhile_eq_nil_iff.2 fun c hc => ?_
    simp only [bne_iff_ne, ne_eq]
    exact fun heq => h (heq ▸ hc)
  simp [Target.split, hdrop]

namespace Config

/-- The name can be brought up under itself: it is not empty, no mapping applies to it, and
it has a definition. -/
structure Activatable (config : Config) (name : String) : Prop where
  ne_empty : name ≠ ""
  unmapped : config.mapping? name = none
  defined : config.entity? name ≠ none

/-- The name can be brought up and is not recorded. -/
structure Open (config : Config) (store : Store) (name : String) : Prop extends
    config.Activatable name where
  unrecorded : store.get? name = none

/-- Open names lead from one of the targets to the name along dependencies. -/
inductive LeadsTo (config : Config) (store : Store) (targets : List String) : String → Prop
  | target {name : String} (mem : name ∈ targets) (isOpen : config.Open store name) :
      LeadsTo config store targets name
  | dependency {name dependency : String} (leads : LeadsTo config store targets name)
      (depends : config.DependsOn name dependency) (isOpen : config.Open store dependency) :
      LeadsTo config store targets dependency

variable {config : Config} {store : Store} {targets : List String} {name : String}

theorem LeadsTo.isOpen (h : config.LeadsTo store targets name) : config.Open store name := by
  cases h <;> assumption

theorem LeadsTo.mono {targets' : List String} (h : config.LeadsTo store targets name)
    (hsub : ∀ target ∈ targets, target ∈ targets') : config.LeadsTo store targets' name := by
  induction h with
  | target mem isOpen => exact .target (hsub _ mem) isOpen
  | dependency _ depends isOpen ih => exact .dependency ih depends isOpen

theorem LeadsTo.not_mem (h : config.LeadsTo store targets name)
    (htargets : ∀ target ∈ targets, '=' ∉ target.toList)
    (hdependencies : ∀ n d, config.DependsOn n d → '=' ∉ d.toList) : '=' ∉ name.toList := by
  cases h with
  | target mem _ => exact htargets _ mem
  | dependency _ depends _ => exact hdependencies _ _ depends

/-- An open name is accepted under itself. -/
theorem accept_of_open {e : Entity} (hplain : '=' ∉ name.toList)
    (hopen : config.Open store name) (he : config.entity? name = some e) :
    config.accept .start store [] name = .ok ⟨name, name, e⟩ := by
  refine accept_eq_ok.2 ⟨⟨name, none⟩, ?_, rfl, ?_, he, by simp⟩
  · simp [Target.check, Target.split_of_not_mem hplain, hopen.ne_empty]
  · simp [Target.logicalFor, hopen.unrecorded, Target.resolve, hopen.unmapped]

end Config

/-- A target without an equals sign asks for an instance under its own name. -/
theorem Instance.AskedBy.of_not_mem {i : Instance} {config : Config} {target : String}
    (h : i.AskedBy config .start target) (hplain : '=' ∉ target.toList) :
    i.name = target ∧ i.logical = target ∧ target ≠ "" ∧ config.mapping? target = none := by
  obtain ⟨t, ht, hname, hresolve⟩ := h
  obtain rfl := (Target.eq_split_of_check ht).trans (Target.split_of_not_mem hplain)
  have hne : target ≠ "" := by
    rintro rfl
    simp [Target.check, Target.split_of_not_mem hplain] at ht
  have hlogical := hresolve rfl
  cases hm : config.mapping? target with
  | none =>
      simp only [Target.resolve, hm, Except.ok.injEq] at hlogical
      exact ⟨hname.symm, hlogical.symm, hne, rfl⟩
  | some m => simp [Target.resolve, hm, Mapping.resolve?] at hlogical

namespace Walk

variable {config : Config} {targets : List String} {store store' : Store} {trace : List Moment}

theorem leadsTo_of_ended (h : Walk config .start [] targets store trace store')
    (htargets : ∀ target ∈ targets, '=' ∉ target.toList)
    (hdependencies : ∀ n d, config.DependsOn n d → '=' ∉ d.toList) {i : Instance}
    (hi : .ended i ∈ trace) : i.logical = i.name ∧ config.LeadsTo store targets i.name := by
  have hopen : ∀ {j : Instance} {d : String}, .ended j ∈ trace →
      j.AskedBy config .start d → '=' ∉ d.toList →
      j.name = d ∧ j.logical = j.name ∧ config.Open store j.name := by
    intro j d hj hasked hplain
    obtain ⟨hdef, hwas, -⟩ := h.changes_of_ended hj
    obtain ⟨rfl, hlogical, hne, hmap⟩ := hasked.of_not_mem hplain
    exact ⟨rfl, hlogical, ⟨hne, hmap, by simp [← hlogical, hdef]⟩, hwas⟩
  induction h.reached i hi with
  | asked mem names worked =>
      obtain ⟨hname, hlogical, ho⟩ := hopen worked names (htargets _ mem)
      exact ⟨hlogical, .target (hname ▸ mem) ho⟩
  | @through parent i d reached mem names worked ih =>
      obtain ⟨hparent, hleads⟩ := ih reached.worked
      have hdepends : config.DependsOn parent.name d :=
        ⟨parent.entity, hparent ▸ (h.changes_of_ended reached.worked).1, mem⟩
      obtain ⟨hname, hlogical, ho⟩ := hopen worked names (hdependencies _ _ hdepends)
      exact ⟨hlogical, .dependency hleads (hname ▸ hdepends) ho⟩

theorem get?_of_leadsTo (h : Walk config .start [] targets store trace store')
    (htargets : ∀ target ∈ targets, '=' ∉ target.toList)
    (hdependencies : ∀ n d, config.DependsOn n d → '=' ∉ d.toList) {name : String}
    (hleads : config.LeadsTo store targets name) : store'.get? name = some name := by
  -- An open name that is refused at the end was worked on.
  have hworked : ∀ {n : String}, config.LeadsTo store targets n →
      config.Refuses .start store' [] n →
      ∃ i : Instance, i.name = n ∧ i.logical = n ∧ .ended i ∈ trace := by
    intro n hn hrefused
    have hplain := hn.not_mem htargets hdependencies
    obtain ⟨e, he⟩ := Option.ne_none_iff_exists'.1 hn.isOpen.defined
    have hchanged : store'.get? n ≠ store.get? n := by
      intro hsame
      have hstill : config.Open store' n :=
        ⟨hn.isOpen.toActivatable, hsame.trans hn.isOpen.unrecorded⟩
      exact hrefused _ (Config.accept_of_open hplain hstill he)
    obtain ⟨i, rfl, hi⟩ := h.exists_ended hchanged
    exact ⟨i, rfl, (h.leadsTo_of_ended htargets hdependencies hi).1, hi⟩
  have hended : ∃ i : Instance, i.name = name ∧ i.logical = name ∧ .ended i ∈ trace := by
    induction hleads with
    | target mem isOpen => exact hworked (.target mem isOpen) (h.refuses.1 _ mem)
    | @dependency n d leads depends isOpen ih =>
        obtain ⟨i, -, hlogical, hi⟩ := ih
        obtain ⟨e, he, hd⟩ := depends
        have hentity : i.entity = e := by
          have hdef := (h.changes_of_ended hi).1
          rw [hlogical, he] at hdef
          exact (Option.some.inj hdef).symm
        exact hworked (.dependency leads ⟨e, he, hd⟩ isOpen)
          (h.refuses.2 i hi d (hentity ▸ hd))
  obtain ⟨i, rfl, hlogical, hi⟩ := hended
  rw [(h.changes_of_ended hi).2.2, hlogical]

/-- What a walk records of plain names. -/
theorem get?_eq_some_iff_leadsTo (h : Walk config .start [] targets store trace store')
    (htargets : ∀ target ∈ targets, '=' ∉ target.toList)
    (hdependencies : ∀ n d, config.DependsOn n d → '=' ∉ d.toList) (name logical : String) :
    store'.get? name = some logical ↔
      store.get? name = some logical ∨
        (config.LeadsTo store targets name ∧ logical = name) := by
  constructor
  · intro hget
    by_cases hsame : store'.get? name = store.get? name
    · exact .inl (hsame ▸ hget)
    · obtain ⟨i, rfl, hi⟩ := h.exists_ended hsame
      obtain ⟨hlogical, hleads⟩ := h.leadsTo_of_ended htargets hdependencies hi
      rw [(h.changes_of_ended hi).2.2, hlogical] at hget
      exact .inr ⟨hleads, (Option.some.inj hget).symm⟩
  · rintro (hget | ⟨hleads, rfl⟩)
    · by_contra hne
      obtain ⟨i, rfl, hi⟩ := h.exists_ended fun hsame => hne (hsame.trans hget)
      rw [(h.changes_of_ended hi).2.1] at hget
      cases hget
    · exact h.get?_of_leadsTo htargets hdependencies hleads

end Walk

namespace Session

variable {σ : Type}

/-- Bringing plain targets up in turn adds exactly the names that open names lead to, and
does so in every order of the targets. -/
theorem activate_closure (invoker : Invoker σ) (config : Config) (context : Context)
    (store : Store) (world : σ) (targets : List String)
    (htargets : ∀ target ∈ targets, '=' ∉ target.toList)
    (hdependencies : ∀ n d, config.DependsOn n d → '=' ∉ d.toList) :
    let final := ((begin store world).bringAll invoker config context .start targets).store
    (∀ name logical, final.get? name = some logical ↔
      store.get? name = some logical ∨
        (config.LeadsTo store targets name ∧ logical = name)) ∧
    ∀ targets', targets'.Perm targets →
      ((begin store world).bringAll invoker config context .start targets').store.entries =
        final.entries := by
  have hclosure : ∀ ts : List String, (∀ target ∈ ts, '=' ∉ target.toList) → ∀ name logical,
      ((begin store world).bringAll invoker config context .start ts).store.get? name =
          some logical ↔
        store.get? name = some logical ∨ (config.LeadsTo store ts name ∧ logical = name) := by
    intro ts hts
    obtain ⟨trace, h⟩ := exists_walks_bringAll invoker config context .start ts
      (begin store world)
    exact h.walk.get?_eq_some_iff_leadsTo hts hdependencies
  refine ⟨hclosure targets htargets, fun targets' hperm => Catalog.ext_get? fun name => ?_⟩
  have hmem : ∀ target, target ∈ targets' ↔ target ∈ targets := fun _ => hperm.mem_iff
  refine Option.ext fun logical => ?_
  refine (hclosure targets' (fun t ht => htargets t ((hmem t).1 ht)) name logical).trans
    (Iff.trans ?_ (hclosure targets htargets name logical).symm)
  refine or_congr_right (and_congr_left' ⟨fun h => ?_, fun h => ?_⟩)
  · exact h.mono fun t ht => (hmem t).1 ht
  · exact h.mono fun t ht => (hmem t).2 ht

/-- Two groups that depend on each other and on one interface. -/
def twinConfig : Config where
  entities := Catalog.ofList [
    ("eth0", .interface ⟨"eth0", none, [], [], .empty, ⟨"interfaces", 1⟩⟩),
    ("east", .group ⟨"east", ["eth0", "west", "ghost"], .empty, ⟨"interfaces", 2⟩⟩),
    ("west", .group ⟨"west", ["east", "eth0"], .empty, ⟨"interfaces", 3⟩⟩)]
  mappings := .empty
  allowLists := .empty

theorem activate_closure_twin :
    let store : Store := .ofEntries "state" (Catalog.empty.insert "wlan0" "wlan0")
    let invoker : Invoker Unit := fun _ w => ⟨none, [], w⟩
    let final := ((begin store ()).bringAll invoker twinConfig {} .start ["east", "west"]).store
    (∀ name logical, final.get? name = some logical ↔
      store.get? name = some logical ∨
        (twinConfig.LeadsTo store ["east", "west"] name ∧ logical = name)) ∧
    ∀ targets', targets'.Perm ["east", "west"] →
      ((begin store ()).bringAll invoker twinConfig {} .start targets').store.entries =
        final.entries := by
  have hplain : ∀ d ∈ twinConfig.entities.values.flatMap Entity.dependencies,
      '=' ∉ d.toList := by decide
  exact activate_closure _ twinConfig {} _ () ["east", "west"] (by decide)
    fun _ d ⟨e, he, hd⟩ =>
      hplain d (List.mem_flatMap.2 ⟨e, Config.mem_values_of_entity? he, hd⟩)

end Session

end NetHooks
