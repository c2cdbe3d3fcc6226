import NetHooks.Proofs.Config.Statement

/-!
# Statements add up

What a statement makes of a configuration is the configuration and what the statement declares by
itself (`Config.Adds`). Configurations that share no name have a union, which depends neither on
their order nor on how they are grouped. So two forests one after the other declare the union of
what they declare, and the order of the statements does not matter
(`Config.compile_append_and_perm`).
-/
namespace NetHooks

/-! ### Unions of catalogs -/

namespace Catalog

variable {α : Type} {f : α → α → α}

/-- Both catalogs, with what they both have for a name put together. -/
def combine (f : α → α → α) (c d : Catalog α) : Catalog α :=
  d.entries.foldl (fun acc e => acc.insert e.1 ((acc.get? e.1).elim e.2 (f · e.2))) c

theorem get?_foldl_combine {l : List (String × α)} (h : l.Pairwise fun a b => a.1 < b.1)
    (c : Catalog α) (name : String) :
    (l.foldl (fun acc e => acc.insert e.1 ((acc.get? e.1).elim e.2 (f · e.2))) c).get? name =
      Option.merge f (c.get? name) (findEntry name l) := by
  induction l generalizing c with
  | nil => simp [findEntry]
  | cons e rest ih =>
      obtain ⟨hlt, hrest⟩ := List.pairwise_cons.1 h
      rw [List.foldl_cons, ih hrest, get?_insert]
      by_cases hname : name = e.1
      · subst hname
        rw [findEntry_eq_none_of_forall_lt hlt, findEntry, if_pos rfl, if_pos rfl]
        cases c.get? e.1 <;> rfl
      · rw [if_neg hname, findEntry, if_neg hname]

@[simp] theorem get?_combine (c d : Catalog α) (name : String) :
    (c.combine f d).get? name = Option.merge f (c.get? name) (d.get? name) :=
  get?_foldl_combine d.ordered c name

theorem merge_assoc (c d e : Catalog α) : (c.merge d).merge e = c.merge (d.merge e) :=
  ext_get? fun name => by simp [Option.or_assoc]

@[simp] theorem empty_merge (c : Catalog α) : empty.merge c = c :=
  ext_get? fun name => by simp

/-- One new entry with a catalog filed over it. -/
theorem single_merge {c : Catalog α} {name : String} {value : α} (h : c.get? name = none) :
    (empty.insert name value).merge c = c.insert name value := by
  refine ext_get? fun key => ?_
  rw [get?_merge, get?_insert, get?_insert, get?_empty]
  by_cases hkey : key = name
  · subst hkey
    rw [h, Option.none_or]
  · rw [if_neg hkey, if_neg hkey, Option.or_none]

@[simp] theorem combine_empty (c : Catalog α) : c.combine f empty = c := rfl

theorem combine_single (c : Catalog α) (name : String) (value : α) :
    c.combine f (empty.insert name value) =
      c.insert name ((c.get? name).elim value (f · value)) :=
  rfl

theorem combine_assoc (hf : ∀ x y z, f (f x y) z = f x (f y z)) (c d e : Catalog α) :
    (c.combine f d).combine f e = c.combine f (d.combine f e) := by
  refine ext_get? fun name => ?_
  simp only [get?_combine]
  cases c.get? name <;> cases d.get? name <;> cases e.get? name <;> simp [Option.merge, hf]

theorem combine_comm (hf : ∀ x y, f x y = f y x) (c d : Catalog α) :
    c.combine f d = d.combine f c := by
  refine ext_get? fun name => ?_
  simp only [get?_combine]
  cases c.get? name <;> cases d.get? name <;> simp [Option.merge, hf]

end Catalog

theorem NameSet.merge_comm (s t : NameSet) : s.merge t = t.merge s := by
  refine Catalog.ext_get? fun name => ?_
  rw [Catalog.get?_merge, Catalog.get?_merge]
  cases s.get? name <;> cases t.get? name <;> rfl

/-- Names that are filed in a set are filed in an empty set and merged with it. -/
theorem NameSet.foldl_insert (members : List String) (s : NameSet) :
    members.foldl (·.insert · ()) s = s.merge (members.foldl (·.insert · ()) .empty) := by
  induction members generalizing s with
  | nil => exact Catalog.ext_get? fun name => by simp
  | cons m members ih =>
      have hfirst : s.insert m () = s.merge (Catalog.empty.insert m ()) := by
        refine Catalog.ext_get? fun name => ?_
        by_cases h : name = m <;> simp [h]
      rw [List.foldl_cons, List.foldl_cons, ih, ih (Catalog.empty.insert m ()), hfirst,
        Catalog.merge_assoc]

namespace Config

variable {c d e : Config}

/-! ### Unions of configurations -/

/-- No interface or group has a name in both, and no mapping has. -/
structure Disjoint (c d : Config) : Prop where
  entities : ∀ name, c.entity? name = none ∨ d.entity? name = none
  mappings : ∀ name, c.mapping? name = none ∨ d.mapping? name = none

/-- What either of the two declares. An allow-list of both has the members of both. -/
def union (c d : Config) : Config where
  entities := d.entities.merge c.entities
  mappings := d.mappings.merge c.mappings
  allowLists := c.allowLists.combine Catalog.merge d.allowLists

@[simp] theorem entity?_union (c d : Config) (name : String) :
    (c.union d).entity? name = (c.entity? name).or (d.entity? name) :=
  Catalog.get?_merge ..

@[simp] theorem mapping?_union (c d : Config) (name : String) :
    (c.union d).mapping? name = (c.mapping? name).or (d.mapping? name) :=
  Catalog.get?_merge ..

@[simp] theorem allowList?_union (c d : Config) (name : String) :
    (c.union d).allowList? name = Option.merge Catalog.merge (c.allowList? name) (d.allowList? name) :=
  Catalog.get?_combine ..

@[simp] theorem entity?_empty (name : String) : empty.entity? name = none := rfl

@[simp] theorem mapping?_empty (name : String) : empty.mapping? name = none := rfl

@[simp] theorem allowList?_empty (name : String) : empty.allowList? name = none := rfl

/-- Configurations with the same look-ups are equal. -/
theorem ext_lookup (hentities : ∀ name, c.entity? name = d.entity? name)
    (hmappings : ∀ name, c.mapping? name = d.mapping? name)
    (hallowLists : ∀ name, c.allowList? name = d.allowList? name) : c = d := by
  cases c
  cases d
  rw [mk.injEq]
  exact ⟨Catalog.ext_get? hentities, Catalog.ext_get? hmappings, Catalog.ext_get? hallowLists⟩

@[simp] theorem empty_union (c : Config) : empty.union c = c :=
  ext_lookup (by simp) (by simp) (by simp)

@[simp] theorem union_empty (c : Config) : c.union empty = c :=
  ext_lookup (by simp) (by simp) (by simp)

theorem union_assoc (c d e : Config) : (c.union d).union e = c.union (d.union e) := by
  refine ext_lookup (by simp [Option.or_assoc]) (by simp [Option.or_assoc]) fun name => ?_
  rw [allowList?, allowList?, union, union, union, union, Catalog.combine_assoc Catalog.merge_assoc]

theorem Disjoint.union_comm (h : c.Disjoint d) : c.union d = d.union c := by
  refine ext_lookup (fun name => ?_) (fun name => ?_) fun name => ?_
  · rcases h.entities name with hnone | hnone <;> simp [hnone]
  · rcases h.mappings name with hnone | hnone <;> simp [hnone]
  · rw [allowList?, allowList?, union, union, Catalog.combine_comm NameSet.merge_comm]

theorem Disjoint.symm (h : c.Disjoint d) : d.Disjoint c :=
  ⟨fun name => (h.entities name).symm, fun name => (h.mappings name).symm⟩

theorem disjoint_empty (c : Config) : c.Disjoint empty :=
  ⟨fun _ => .inr rfl, fun _ => .inr rfl⟩

theorem disjoint_union_right : c.Disjoint (d.union e) ↔ c.Disjoint d ∧ c.Disjoint e := by
  constructor
  · rintro ⟨hentities, hmappings⟩
    simp only [entity?_union, mapping?_union, Option.or_eq_none_iff] at hentities hmappings
    exact ⟨⟨fun name => (hentities name).imp_right And.left,
        fun name => (hmappings name).imp_right And.left⟩,
      ⟨fun name => (hentities name).imp_right And.right,
        fun name => (hmappings name).imp_right And.right⟩⟩
  · rintro ⟨hd, he⟩
    constructor
    · intro name
      rcases hd.entities name with hnone | hnone
      · exact .inl hnone
      · exact (he.entities name).imp_right fun h => by simp [hnone, h]
    · intro name
      rcases hd.mappings name with hnone | hnone
      · exact .inl hnone
      · exact (he.mappings name).imp_right fun h => by simp [hnone, h]

theorem disjoint_union_left : (c.union d).Disjoint e ↔ c.Disjoint e ∧ d.Disjoint e := by
  constructor
  · intro h
    obtain ⟨hc, hd⟩ := disjoint_union_right.1 h.symm
    exact ⟨hc.symm, hd.symm⟩
  · rintro ⟨hc, hd⟩
    exact (disjoint_union_right.2 ⟨hc.symm, hd.symm⟩).symm

/-! ### Computations that add to a configuration -/

/-- The computation adds what it makes of the empty configuration, and fails when names would be
declared twice. -/
def Adds (step : Config → Except SourceError Config) : Prop :=
  ∀ c e, step c = .ok e ↔ ∃ d, step empty = .ok d ∧ c.Disjoint d ∧ e = c.union d

theorem adds_ok : Adds .ok := by
  intro c e
  constructor
  · intro h
    exact ⟨empty, rfl, disjoint_empty c, by rw [union_empty, Except.ok.inj h]⟩
  · rintro ⟨d, hd, -, rfl⟩
    rw [← Except.ok.inj hd, union_empty]

theorem adds_error (error : SourceError) : Adds fun _ => .error error := by
  intro c e
  simp

/-- What is added may come of a computation that does not depend on the configuration. -/
theorem adds_of_bind {α : Type} {step : Config → α → Except SourceError Config}
    (h : ∀ a, Adds (step · a)) (x : Except SourceError α) : Adds fun c => x >>= step c := by
  cases x with
  | error error => exact adds_error error
  | ok a => exact h a

theorem Adds.bind {first second : Config → Except SourceError Config} (hfirst : Adds first)
    (hsecond : Adds second) : Adds fun c => first c >>= second := by
  intro c e
  simp only [bind_eq_ok]
  constructor
  · rintro ⟨between, hbetween, he⟩
    obtain ⟨d, hd, hcd, rfl⟩ := (hfirst c between).1 hbetween
    obtain ⟨d', hd', hdisjoint, rfl⟩ := (hsecond _ e).1 he
    obtain ⟨hcd', hdd'⟩ := disjoint_union_left.1 hdisjoint
    exact ⟨d.union d', ⟨d, hd, (hsecond d _).2 ⟨d', hd', hdd', rfl⟩⟩,
      disjoint_union_right.2 ⟨hcd, hcd'⟩, union_assoc c d d'⟩
  · rintro ⟨x, ⟨d, hd, hx⟩, hdisjoint, rfl⟩
    obtain ⟨d', hd', hdd', rfl⟩ := (hsecond d x).1 hx
    obtain ⟨hcd, hcd'⟩ := disjoint_union_right.1 hdisjoint
    exact ⟨c.union d, (hfirst c _).2 ⟨d, hd, hcd, rfl⟩,
      (hsecond _ _).2 ⟨d', hd', disjoint_union_left.2 ⟨hcd', hdd'⟩, (union_assoc c d d').symm⟩⟩

/-- What is added in turn can be added in the other order. -/
theorem Adds.exchange {first second : Config → Except SourceError Config} (hfirst : Adds first)
    (hsecond : Adds second) (h : first c >>= second = .ok e) : second c >>= first = .ok e := by
  obtain ⟨between, hbetween, he⟩ := bind_eq_ok.1 h
  obtain ⟨d, hd, hcd, rfl⟩ := (hfirst c between).1 hbetween
  obtain ⟨d', hd', hdisjoint, rfl⟩ := (hsecond _ e).1 he
  obtain ⟨hcd', hdd'⟩ := disjoint_union_left.1 hdisjoint
  refine bind_eq_ok.2 ⟨c.union d', (hsecond c _).2 ⟨d', hd', hcd', rfl⟩, ?_⟩
  refine (hfirst _ _).2 ⟨d, hd, disjoint_union_left.2 ⟨hcd, hdd'.symm⟩, ?_⟩
  rw [union_assoc, union_assoc, hdd'.union_comm]

theorem Adds.foldlM {α : Type} {step : Config → α → Except SourceError Config}
    (h : ∀ a, Adds (step · a)) (l : List α) : Adds fun c => l.foldlM step c := by
  induction l with
  | nil => exact adds_ok
  | cons a l ih =>
      simp only [List.foldlM_cons]
      exact (h a).bind ih

/-- The members of a list can be added in every order. -/
theorem foldlM_of_perm {α : Type} {step : Config → α → Except SourceError Config}
    (h : ∀ a, Adds (step · a)) {l l' : List α} (hperm : l.Perm l') {c e : Config}
    (he : l.foldlM step c = .ok e) : l'.foldlM step c = .ok e := by
  induction hperm generalizing c with
  | nil => exact he
  | cons a _ ih =>
      rw [List.foldlM_cons] at he ⊢
      obtain ⟨between, hbetween, hrest⟩ := bind_eq_ok.1 he
      exact bind_eq_ok.2 ⟨between, hbetween, ih hrest⟩
  | swap a b l =>
      simp only [List.foldlM_cons, ← bind_assoc] at he ⊢
      obtain ⟨between, hbetween, hrest⟩ := bind_eq_ok.1 he
      exact bind_eq_ok.2 ⟨between, (h b).exchange (h a) hbetween, hrest⟩
  | trans _ _ ih ih' => exact ih' (ih he)

/-! ### Statements -/

/-- A computation that adds one fixed configuration. -/
theorem adds_of_union {step : Config → Except SourceError Config} (d : Config)
    (h : ∀ c e, step c = .ok e ↔ c.Disjoint d ∧ e = c.union d) : Adds step := by
  have hself : step empty = .ok d :=
    (h empty d).2 ⟨(disjoint_empty d).symm, (empty_union d).symm⟩
  intro c e
  constructor
  · intro he
    exact ⟨d, hself, (h c e).1 he⟩
  · rintro ⟨d', hd', hdisjoint, rfl⟩
    obtain rfl : d' = d := Except.ok.inj (hd'.symm.trans hself)
    exact (h c _).2 ⟨hdisjoint, rfl⟩

/-- One interface or group. -/
def ofEntity (x : Entity) : Config :=
  ⟨Catalog.empty.insert x.name x, .empty, .empty⟩

/-- One mapping. -/
def ofMapping (m : Mapping) : Config :=
  ⟨.empty, Catalog.empty.insert m.name m, .empty⟩

/-- One allow-list. -/
def ofAllowed (name : String) (members : List String) : Config :=
  ⟨.empty, .empty, Catalog.empty.insert name (members.foldl (·.insert · ()) .empty)⟩

theorem disjoint_ofEntity {x : Entity} :
    c.Disjoint (ofEntity x) ↔ c.entity? x.name = none := by
  constructor
  · intro h
    exact (h.entities x.name).resolve_right (by simp [ofEntity, entity?])
  · intro hfree
    refine ⟨fun name => ?_, fun _ => .inr rfl⟩
    by_cases hname : name = x.name
    · exact .inl (hname ▸ hfree)
    · exact .inr (by simp [ofEntity, entity?, hname])

theorem disjoint_ofMapping {m : Mapping} :
    c.Disjoint (ofMapping m) ↔ c.mapping? m.name = none := by
  constructor
  · intro h
    exact (h.mappings m.name).resolve_right (by simp [ofMapping, mapping?])
  · intro hfree
    refine ⟨fun _ => .inr rfl, fun name => ?_⟩
    by_cases hname : name = m.name
    · exact .inl (hname ▸ hfree)
    · exact .inr (by simp [ofMapping, mapping?, hname])

theorem union_ofEntity {x : Entity} (hfree : c.entity? x.name = none) :
    c.union (ofEntity x) = { c with entities := c.entities.insert x.name x } := by
  rw [union, ofEntity, Catalog.single_merge hfree, Catalog.empty_merge, Catalog.combine_empty]

theorem union_ofMapping {m : Mapping} (hfree : c.mapping? m.name = none) :
    c.union (ofMapping m) = { c with mappings := c.mappings.insert m.name m } := by
  rw [union, ofMapping, Catalog.single_merge hfree, Catalog.empty_merge, Catalog.combine_empty]

theorem union_ofAllowed (c : Config) (name : String) (members : List String) :
    c.union (ofAllowed name members) = c.addAllowed name members := by
  rw [union, ofAllowed, Catalog.combine_single, Catalog.empty_merge, Catalog.empty_merge, addAllowed,
    NameSet.foldl_insert members ((c.allowLists.get? name).getD .empty)]
  cases c.allowLists.get? name <;> simp

theorem adds_addEntity (x : Entity) : Adds (·.addEntity x) := by
  refine adds_of_union (ofEntity x) fun c e => ?_
  rw [disjoint_ofEntity, addEntity_eq_ok]
  exact and_congr_right fun hfree => by rw [union_ofEntity hfree]

theorem adds_addMapping (m : Mapping) : Adds (·.addMapping m) := by
  refine adds_of_union (ofMapping m) fun c e => ?_
  rw [disjoint_ofMapping, addMapping_eq_ok]
  exact and_congr_right fun hfree => by rw [union_ofMapping hfree]

theorem adds_addAllowed (name : String) (members : List String) :
    Adds fun c => .ok (c.addAllowed name members) := by
  refine adds_of_union (ofAllowed name members) fun c e => ?_
  have hdisjoint : c.Disjoint (ofAllowed name members) := ⟨fun _ => .inr rfl, fun _ => .inr rfl⟩
  rw [union_ofAllowed, Except.ok.injEq]
  exact ⟨fun h => ⟨hdisjoint, h.symm⟩, fun h => h.2.symm⟩

/-- Every statement adds what it declares by itself. -/
theorem adds_addRoot (t : Tree) : Adds (·.addRoot t) := by
  simp only [addRoot]
  split
  · exact adds_of_bind (fun allowed => adds_addAllowed allowed.1 allowed.2) t.allowed
  · split
    · exact adds_of_bind (fun i => adds_addEntity (.interface i)) t.interface
    · split
      · exact adds_of_bind (fun g => adds_addEntity (.group g)) t.group
      · split
        · exact adds_of_bind adds_addMapping t.mapping
        · exact adds_error _

/-- The configuration has the interfaces and groups and the mappings of the two, and each allow-list
has the members that it has in either of them. -/
structure IsUnion (e c d : Config) : Prop where
  entities : ∀ name, e.entity? name = (c.entity? name).or (d.entity? name)
  mappings : ∀ name, e.mapping? name = (c.mapping? name).or (d.mapping? name)
  allowLists : ∀ name,
    e.allowList? name = Option.merge Catalog.merge (c.allowList? name) (d.allowList? name)

theorem isUnion_iff : e.IsUnion c d ↔ e = c.union d := by
  constructor
  · intro h
    refine ext_lookup (fun name => ?_) (fun name => ?_) fun name => ?_
    · rw [h.entities, entity?_union]
    · rw [h.mappings, mapping?_union]
    · rw [h.allowLists, allowList?_union]
  · rintro rfl
    exact ⟨entity?_union c d, mapping?_union c d, allowList?_union c d⟩

theorem compile_append {f g : Forest} : compile (f ++ g) = .ok e ↔
    ∃ c d, compile f = .ok c ∧ compile g = .ok d ∧ c.Disjoint d ∧ e = c.union d := by
  have hadds : ∀ c, g.foldlM addRoot c = .ok e ↔
      ∃ d, compile g = .ok d ∧ c.Disjoint d ∧ e = c.union d :=
    fun c => Adds.foldlM adds_addRoot g c e
  rw [compile, List.foldlM_append, bind_eq_ok]
  constructor
  · rintro ⟨c, hc, he⟩
    obtain ⟨d, hd, hdisjoint, heq⟩ := (hadds c).1 he
    exact ⟨c, d, hc, hd, hdisjoint, heq⟩
  · rintro ⟨c, d, hc, hd, hdisjoint, heq⟩
    exact ⟨c, hc, (hadds c).2 ⟨d, hd, hdisjoint, heq⟩⟩

/-- Two forests one after the other compile exactly when both compile and share no name, and then
to the union of what they compile to. The roots of a forest can stand in every order. -/
theorem compile_append_and_perm (f g : Forest) :
    ((∃ e, compile (f ++ g) = .ok e) ↔
      ∃ c d, compile f = .ok c ∧ compile g = .ok d ∧ c.Disjoint d) ∧
    (∀ c d e, compile f = .ok c → compile g = .ok d → compile (f ++ g) = .ok e →
      e.IsUnion c d) ∧
    ∀ f', f'.Perm f → ∀ c, compile f' = .ok c ↔ compile f = .ok c := by
  refine ⟨⟨?_, ?_⟩, ?_, fun f' hperm c => ⟨?_, ?_⟩⟩
  · rintro ⟨e, he⟩
    obtain ⟨c, d, hc, hd, hdisjoint, -⟩ := compile_append.1 he
    exact ⟨c, d, hc, hd, hdisjoint⟩
  · rintro ⟨c, d, hc, hd, hdisjoint⟩
    exact ⟨c.union d, compile_append.2 ⟨c, d, hc, hd, hdisjoint, rfl⟩⟩
  · intro c d e hc hd he
    obtain ⟨c', d', hc', hd', -, rfl⟩ := compile_append.1 he
    cases hc.symm.trans hc'
    cases hd.symm.trans hd'
    exact isUnion_iff.2 rfl
  · exact foldlM_of_perm adds_addRoot hperm
  · exact foldlM_of_perm adds_addRoot hperm.symm

/-- An interface and a list that holds it. -/
def wiredForest : Forest := [
  .node ⟨0, "iface eth0", ⟨"interfaces", 1⟩⟩ [],
  .node ⟨0, "allow auto eth0", ⟨"interfaces", 2⟩⟩ []]

/-- More members of the same list, and a mapping with the name of the interface. -/
def mappedForest : Forest := [
  .node ⟨0, "allow auto lan eth0", ⟨"interfaces", 3⟩⟩ [],
  .node ⟨0, "group lan eth0", ⟨"interfaces", 4⟩⟩ [],
  .node ⟨0, "mapping eth0", ⟨"interfaces", 5⟩⟩ []]

theorem compile_append_and_perm_mapped :
    ∃ c d e, compile wiredForest = .ok c ∧ compile mappedForest = .ok d ∧
      compile (wiredForest ++ mappedForest) = .ok e ∧ e.IsUnion c d ∧
      e.allowLists = Catalog.ofList [("auto", Catalog.ofList [("eth0", ()), ("lan", ())])] ∧
      (compile mappedForest.reverse = .ok d ↔ compile mappedForest = .ok d) := by
  refine ⟨_, _, _, rfl, rfl, rfl, ?_, by decide, ?_⟩
  · exact (compile_append_and_perm wiredForest mappedForest).2.1 _ _ _ rfl rfl rfl
  · exact (compile_append_and_perm mappedForest []).2.2 _ (List.reverse_perm _) _

end Config

end NetHooks
