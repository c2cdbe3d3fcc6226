import NetHooks.Proofs.Config.Statement

/-!
# Keys of options

The keys that a compiled definition gives to hooks of its own lie under the prefix of types
or under that of protocols, each with an underscore after it. So they are none of the keys
by which a hook learns what it runs for.
-/
namespace NetHooks

namespace Environment

/-- Every key begins with the head and an underscore. -/
def Under (env : Environment) (head : String) : Prop :=
  ∀ key, env.get? key ≠ none → (head ++ "_").toList <+: key.toList

theorem under_empty (head : String) : Under .empty head := by
  simp [Under]

variable {env : Environment} {head : String}

theorem Under.insert (h : env.Under head) {key value : String}
    (hkey : (head ++ "_").toList <+: key.toList) : Under (Catalog.insert env key value) head := by
  intro k hk
  rw [Catalog.get?_insert] at hk
  by_cases heq : k = key
  · exact heq ▸ hkey
  · exact h k (by simpa [heq] using hk)

theorem Under.get?_eq_none (h : env.Under head) {key : String}
    (hkey : ¬(head ++ "_").toList <+: key.toList) : env.get? key = none :=
  Classical.byContradiction fun hne => hkey (h key hne)

end Environment

theorem isPrefix_optionKey (head option : String) :
    (head ++ "_").toList <+: (optionKey head option).toList := by
  simp [optionKey]

/-- Keys of options are added under their head. -/
theorem under_of_addOptionKeys {head : String} {env env' : Environment}
    {options : List (Location × Setting)} (hunder : env.Under head)
    (h : addOptionKeys head env options = .ok env') : env'.Under head := by
  induction options generalizing env with
  | nil =>
      cases h
      exact hunder
  | cons option rest ih =>
      simp only [addOptionKeys] at h
      split at h
      · cases h
      · exact ih (hunder.insert (isPrefix_optionKey head option.2.name)) h

/-- The keys of the type lie under its head, and those of each protocol under theirs. -/
structure Interface.KeysUnder (i : Interface) : Prop where
  type : ∀ t ∈ i.type?, t.environment.Under typeHead
  protocols : ∀ p ∈ i.protocols, p.environment.Under protocolHead

namespace Tree

variable {t : Tree}

theorem under_of_linkType {l : LinkType} (h : t.linkType = .ok l) :
    l.environment.Under typeHead := by
  obtain ⟨words, -, h⟩ := bind_eq_ok.1 h
  split at h
  · obtain ⟨options, -, h⟩ := bind_eq_ok.1 h
    obtain ⟨env, henv, h⟩ := bind_eq_ok.1 h
    cases h
    exact under_of_addOptionKeys ((Environment.under_empty _).insert (by simp)) henv
  · cases h
  · cases h

theorem under_of_protocol {p : Protocol} (h : t.protocol = .ok p) :
    p.environment.Under protocolHead := by
  obtain ⟨words, -, h⟩ := bind_eq_ok.1 h
  split at h
  · obtain ⟨options, -, h⟩ := bind_eq_ok.1 h
    obtain ⟨env, henv, h⟩ := bind_eq_ok.1 h
    cases h
    refine under_of_addOptionKeys (Environment.Under.insert ?_ (by simp)) henv
    exact (Environment.under_empty _).insert (by simp)
  all_goals cases h

/-- What the lines under an interface have declared so far has its keys where they belong. -/
structure InterfaceBody.KeysUnder (body : InterfaceBody) : Prop where
  type : ∀ t ∈ body.type?, t.1.environment.Under typeHead
  protocols : ∀ p ∈ body.protocols, p.environment.Under protocolHead

theorem keysUnder_of_addToInterface {name : String} {body body' : InterfaceBody}
    (hbody : body.KeysUnder) (h : addToInterface name body t = .ok body') :
    body'.KeysUnder := by
  simp only [addToInterface] at h
  split at h
  · obtain ⟨commands, -, h⟩ := bind_eq_ok.1 h
    cases h
    exact ⟨hbody.type, hbody.protocols⟩
  · split at h
    · split at h
      · cases h
      · obtain ⟨l, hl, h⟩ := bind_eq_ok.1 h
        cases h
        refine ⟨?_, hbody.protocols⟩
        simpa using under_of_linkType hl
    · split at h
      · obtain ⟨p, hp, h⟩ := bind_eq_ok.1 h
        cases h
        refine ⟨hbody.type, fun q hq => ?_⟩
        rcases List.mem_append.1 hq with hq | hq
        · exact hbody.protocols q hq
        · exact List.mem_singleton.1 hq ▸ under_of_protocol hp
      · cases h

theorem keysUnder_of_interface {i : Interface} (h : t.interface = .ok i) : i.KeysUnder := by
  obtain ⟨name, -, h⟩ := bind_eq_ok.1 h
  obtain ⟨body, hbody, h⟩ := bind_eq_ok.1 h
  cases h
  have hempty : InterfaceBody.KeysUnder ⟨none, [], .empty⟩ := ⟨by simp, by simp⟩
  have hkeys : body.KeysUnder :=
    foldlM_keeps (fun _ _ _ hb ht => keysUnder_of_addToInterface hb ht) hempty hbody
  refine ⟨fun l hl => ?_, hkeys.protocols⟩
  obtain ⟨typed, htyped, rfl⟩ := Option.map_eq_some_iff.1 hl
  exact hkeys.type typed htyped

end Tree

namespace Config

/-- Every interface has its keys where they belong. -/
def KeysUnder (config : Config) : Prop :=
  ∀ name i, config.entity? name = some (.interface i) → i.KeysUnder

variable {config config' : Config}

theorem KeysUnder.insert (hconfig : config.KeysUnder) {key : String} {e : Entity}
    (he : ∀ i, e = .interface i → i.KeysUnder) :
    KeysUnder { config with entities := config.entities.insert key e } := by
  intro name i hi
  simp only [entity?, Catalog.get?_insert] at hi
  split at hi
  · exact he i (Option.some.inj hi)
  · exact hconfig name i hi

theorem AddsRoot.keysUnder {t : Tree} (h : AddsRoot t config config')
    (hconfig : config.KeysUnder) : config'.KeysUnder := by
  cases h with
  | allowed => exact hconfig
  | interface _ hread =>
      refine hconfig.insert fun i hi => ?_
      cases hi
      exact Tree.keysUnder_of_interface hread
  | group => exact hconfig.insert fun i hi => by cases hi
  | mapping => exact hconfig

theorem keysUnder_of_compile {forest : Forest} (h : compile forest = .ok config) :
    config.KeysUnder :=
  compile_keeps (fun name i hi => by simp [empty, entity?] at hi)
    (fun _ _ _ hc ht => ht.keysUnder hc) h

end Config

end NetHooks
