import NetHooks.Config.Compile
import NetHooks.Proofs.Fallible

/-!
# Statements

A statement that is accepted extends an allow-list, or adds an interface, a group or a mapping
whose name is still free (`Config.AddsRoot`). So what all of these keep holds of every compiled
configuration. For one, no allow-list is left without members.
-/
namespace NetHooks

namespace Catalog

variable {α : Type}

theorem contains_iff_mem_names {c : Catalog α} {name : String} :
    c.contains name = true ↔ name ∈ c.names := by
  rw [contains, Option.isSome_iff_exists]
  constructor
  · rintro ⟨value, hvalue⟩
    exact List.mem_map.2 ⟨(name, value), mem_entries_iff.2 hvalue, rfl⟩
  · intro h
    obtain ⟨⟨n, value⟩, he, rfl⟩ := List.mem_map.1 h
    exact ⟨value, mem_entries_iff.1 he⟩

theorem names_insert_ne_nil (c : Catalog α) (name : String) (value : α) :
    (c.insert name value).names ≠ [] := by
  have hmem : name ∈ (c.insert name value).names :=
    contains_iff_mem_names.1 (by simp [contains])
  exact List.ne_nil_of_mem hmem

end Catalog

/-- What is filed last is held. -/
theorem NameSet.names_foldl_insert_ne_nil {members : List String} (h : members ≠ []) (s : NameSet) :
    (members.foldl (·.insert · ()) s).names ≠ [] := by
  rw [← List.dropLast_concat_getLast h, List.foldl_append]
  exact Catalog.names_insert_ne_nil _ _ _

/-- A statement that declares an allow-list names a member. -/
theorem Tree.ne_nil_of_allowed {t : Tree} {name : String} {members : List String}
    (h : t.allowed = .ok (name, members)) : members ≠ [] := by
  obtain ⟨-, -, h⟩ := bind_eq_ok.1 h
  obtain ⟨words, -, h⟩ := bind_eq_ok.1 h
  split at h
  · cases h
    exact List.cons_ne_nil _ _
  · cases h

namespace Config

variable {c c' : Config} {t : Tree}

theorem addEntity_eq_ok {e : Entity} : c.addEntity e = .ok c' ↔
    c.entity? e.name = none ∧ c' = { c with entities := c.entities.insert e.name e } := by
  rw [addEntity, entity?]
  cases c.entities.get? e.name with
  | some first => simp
  | none => simp [eq_comm]

theorem addMapping_eq_ok {m : Mapping} : c.addMapping m = .ok c' ↔
    c.mapping? m.name = none ∧ c' = { c with mappings := c.mappings.insert m.name m } := by
  rw [addMapping, mapping?]
  cases c.mappings.get? m.name with
  | some first => simp
  | none => simp [eq_comm]

/-- What a statement that is accepted makes of a configuration. -/
inductive AddsRoot (t : Tree) (c : Config) : Config → Prop
  | allowed {name : String} {members : List String} (keyword : t.keyword = "allow")
      (read : t.allowed = .ok (name, members)) : AddsRoot t c (c.addAllowed name members)
  | interface {i : Interface} (keyword : t.keyword = "iface" ∨ t.keyword = "interface")
      (read : t.interface = .ok i) (free : c.entity? i.name = none) :
      AddsRoot t c { c with entities := c.entities.insert i.name (.interface i) }
  | group {g : Group} (keyword : t.keyword = "group") (read : t.group = .ok g)
      (free : c.entity? g.name = none) :
      AddsRoot t c { c with entities := c.entities.insert g.name (.group g) }
  | mapping {m : Mapping} (keyword : t.keyword = "mapping") (read : t.mapping = .ok m)
      (free : c.mapping? m.name = none) :
      AddsRoot t c { c with mappings := c.mappings.insert m.name m }

theorem addRoot_eq_ok : c.addRoot t = .ok c' ↔ AddsRoot t c c' := by
  constructor
  · intro h
    simp only [addRoot] at h
    split at h
    next hkeyword =>
      obtain ⟨⟨name, members⟩, hread, h⟩ := bind_eq_ok.1 h
      cases h
      exact .allowed hkeyword hread
    split at h
    next hkeyword =>
      obtain ⟨i, hread, h⟩ := bind_eq_ok.1 h
      obtain ⟨hfree, rfl⟩ := addEntity_eq_ok.1 h
      exact .interface hkeyword hread hfree
    split at h
    next hkeyword =>
      obtain ⟨g, hread, h⟩ := bind_eq_ok.1 h
      obtain ⟨hfree, rfl⟩ := addEntity_eq_ok.1 h
      exact .group hkeyword hread hfree
    split at h
    next hkeyword =>
      obtain ⟨m, hread, h⟩ := bind_eq_ok.1 h
      obtain ⟨hfree, rfl⟩ := addMapping_eq_ok.1 h
      exact .mapping hkeyword hread hfree
    · cases h
  · intro h
    cases h with
    | allowed hkeyword hread =>
        rw [addRoot, if_pos hkeyword]
        exact bind_eq_ok.2 ⟨_, hread, rfl⟩
    | interface hkeyword hread hfree =>
        have hallow : t.keyword ≠ "allow" := by
          rcases hkeyword with hkeyword | hkeyword <;> simp [hkeyword]
        rw [addRoot, if_neg hallow, if_pos hkeyword]
        exact bind_eq_ok.2 ⟨_, hread, addEntity_eq_ok.2 ⟨hfree, rfl⟩⟩
    | group hkeyword hread hfree =>
        simp only [addRoot, hkeyword, String.reduceEq, or_self, if_false, if_true]
        exact bind_eq_ok.2 ⟨_, hread, addEntity_eq_ok.2 ⟨hfree, rfl⟩⟩
    | mapping hkeyword hread hfree =>
        simp only [addRoot, hkeyword, String.reduceEq, or_self, if_false, if_true]
        exact bind_eq_ok.2 ⟨_, hread, addMapping_eq_ok.2 ⟨hfree, rfl⟩⟩

/-- What every statement keeps holds of what a forest compiles to. -/
theorem compile_keeps {P : Config → Prop} {forest : Forest} (hempty : P empty)
    (hstep : ∀ t c c', P c → AddsRoot t c c' → P c') (h : compile forest = .ok c) : P c :=
  foldlM_keeps (fun _ t _ hc ht => hstep t _ _ hc (addRoot_eq_ok.1 ht)) hempty h

/-- Every allow-list has a member. -/
def Listed (c : Config) : Prop :=
  ∀ name list, c.allowList? name = some list → list.names ≠ []

theorem AddsRoot.listed (h : AddsRoot t c c') (hc : c.Listed) : c'.Listed := by
  cases h with
  | allowed _ hread =>
      intro name list hlist
      simp only [allowList?, addAllowed, Catalog.get?_insert] at hlist
      split at hlist
      · obtain rfl := Option.some.inj hlist
        exact NameSet.names_foldl_insert_ne_nil (Tree.ne_nil_of_allowed hread) _
      · exact hc name list hlist
  | interface => exact hc
  | group => exact hc
  | mapping => exact hc

theorem listed_of_compile {forest : Forest} (h : compile forest = .ok c) : c.Listed :=
  compile_keeps (fun name list hlist => by cases hlist) (fun _ _ _ hc ht => ht.listed hc) h

end Config

end NetHooks
