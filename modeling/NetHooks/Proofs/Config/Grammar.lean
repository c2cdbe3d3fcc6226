import NetHooks.Proofs.Config.Definition

/-!
# The grammar of configurations

A forest compiles exactly when its trees are statements and no name is defined twice
(`Forest.Grammatical`). Then no line of it is left out: its trees are its definitions, mappings
and allow-lists, the lines under a definition are those of its type, its protocols and its
phases, and the configuration holds what each of them declares (`Config.compile_grammatical`).
-/
namespace NetHooks

/-! ### Filed entries -/

namespace Catalog

variable {α : Type} {c : Catalog α} {name : String} {value : α}

theorem get?_eq_none_iff : c.get? name = none ↔ name ∉ c.names := by
  rw [← contains_iff_mem_names, contains]
  simp

theorem perm_insertEntry {l : List (String × α)} (h : findEntry name l = none) :
    (insertEntry name value l).Perm ((name, value) :: l) := by
  induction l with
  | nil => exact .refl _
  | cons e l ih =>
      rw [findEntry] at h
      split at h
      · cases h
      next hne =>
        rw [insertEntry, if_neg hne]
        split
        · exact .refl _
        · exact ((ih h).cons e).trans (.swap _ _ _)

/-- What is filed under a free name comes to what was there. -/
theorem perm_entries_insert (h : c.get? name = none) {l : List (String × α)}
    (hl : c.entries.Perm l) : (c.insert name value).entries.Perm (l ++ [(name, value)]) :=
  ((perm_insertEntry h).trans (hl.cons _)).trans (List.perm_append_singleton _ l).symm

/-- Entries with different names are all filed. -/
theorem perm_entries_ofList {l : List (String × α)} (h : (l.map Prod.fst).Nodup) :
    (ofList l).entries.Perm l := by
  induction l using List.reverseRecOn with
  | nil => exact .refl _
  | append_singleton l e ih =>
      obtain ⟨hl, hnew⟩ := nodup_map_fst_concat.1 h
      have hfree : (ofList l).get? e.1 = none := by
        rw [get?_eq_none_iff, ← contains_iff_mem_names, contains_ofList]
        exact hnew
      have hinsert : ofList (l ++ [e]) = (ofList l).insert e.1 e.2 := by simp [ofList]
      rw [hinsert]
      exact perm_entries_insert hfree (ih hl)

theorem mem_names_insert {key : String} :
    key ∈ (c.insert name value).names ↔ key = name ∨ key ∈ c.names := by
  rw [← contains_iff_mem_names, ← contains_iff_mem_names, contains, contains, get?_insert]
  by_cases hkey : key = name <;> simp [hkey]

end Catalog

theorem NameSet.mem_names_foldl_insert {members : List String} {s : NameSet} {m : String} :
    m ∈ (members.foldl (·.insert · ()) s).names ↔ m ∈ members ∨ m ∈ s.names := by
  induction members generalizing s with
  | nil => simp
  | cons x members ih =>
      rw [List.foldl_cons, ih, Catalog.mem_names_insert, List.mem_cons]
      exact or_left_comm.trans or_assoc.symm

/-! ### Statements -/

namespace Tree

/-- What may stand at the top. -/
inductive IsStatement (t : Tree) : Prop
  | allow (keyword : t.keyword = "allow") (block : t.IsAllow)
  | interface (keyword : t.keyword = "iface" ∨ t.keyword = "interface") (block : t.IsInterface)
  | group (keyword : t.keyword = "group") (block : t.IsGroup)
  | mapping (keyword : t.keyword = "mapping") (block : t.IsMapping)

def entityOf (t : Tree) : Entity :=
  if t.keyword = "group" then .group t.groupOf else .interface t.interfaceOf

end Tree

namespace Forest

/-- The interfaces and groups of a forest. -/
def definitions (f : Forest) : Forest :=
  f.filter fun t => t.keyword ∈ ["iface", "interface", "group"]

/-- All trees are statements, and each name of a definition or of a mapping is given once. -/
structure Grammatical (f : Forest) : Prop where
  statements : ∀ t ∈ f, t.IsStatement
  definitions : (f.definitions.map (·.word 1)).Nodup
  mappings : ((headed "mapping" f).map (·.word 1)).Nodup

/-- Every tree is an allow-list, a definition or a mapping, and every line under a definition is
a type, a protocol or a phase. -/
structure Covered (f : Forest) : Prop where
  trees : f.Perm (headed "allow" f ++ (f.definitions ++ headed "mapping" f))
  lines : ∀ t ∈ f.definitions, t.children.Perm
    (("type" :: "proto" :: Phase.all.map Phase.keyword).flatMap (headed · t.children))

variable {f : Forest} {t : Tree}

theorem definitions_append (f g : Forest) :
    (f ++ g).definitions = f.definitions ++ g.definitions :=
  List.filter_append f g

theorem definitions_singleton_of_mem (h : t.keyword ∈ ["iface", "interface", "group"]) :
    definitions [t] = [t] :=
  List.filter_cons_of_pos (decide_eq_true h)

theorem definitions_singleton_of_not_mem (h : t.keyword ∉ ["iface", "interface", "group"]) :
    definitions [t] = [] :=
  List.filter_cons_of_neg (mt of_decide_eq_true h)

/-- Trees with keywords among these are those with each of them. -/
theorem perm_flatMap_headed {keywords : List String} (hnodup : keywords.Nodup)
    (h : ∀ t ∈ f, t.keyword ∈ keywords) : f.Perm (keywords.flatMap (headed · f)) := by
  induction keywords generalizing f with
  | nil =>
      have hnil : f = [] := List.eq_nil_iff_forall_not_mem.2 fun t ht => by simpa using h t ht
      simp [hnil]
  | cons k keywords ih =>
      obtain ⟨hk, hnodup⟩ := List.nodup_cons.1 hnodup
      let others : Forest := f.filter fun t => !decide (t.keyword = k)
      have hothers : ∀ t ∈ others, t.keyword ∈ keywords := by
        intro t ht
        obtain ⟨ht, hne⟩ := List.mem_filter.1 ht
        exact (List.mem_cons.1 (h t ht)).resolve_left (by simpa using hne)
      have hsame : keywords.flatMap (headed · others) = keywords.flatMap (headed · f) := by
        refine List.flatMap_congr fun k' hk' => ?_
        have hne : k' ≠ k := fun heq => hk (heq ▸ hk')
        rw [headed, headed, List.filter_filter]
        refine List.filter_congr fun t _ => ?_
        by_cases ht : t.keyword = k' <;> simp [ht, hne]
      rw [List.flatMap_cons, ← hsame]
      exact (List.filter_append_perm _ f).symm.trans ((ih hnodup hothers).append_left _)

theorem perm_trees (h : ∀ t ∈ f, t.IsStatement) :
    f.Perm (headed "allow" f ++ (f.definitions ++ headed "mapping" f)) := by
  have hkeyword : ∀ t ∈ f, t.keyword ∈ ["allow", "iface", "interface", "group", "mapping"] := by
    intro t ht
    cases h t ht with
    | allow keyword => simp [keyword]
    | interface keyword => rcases keyword with keyword | keyword <;> simp [keyword]
    | group keyword => simp [keyword]
    | mapping keyword => simp [keyword]
  have hsame : ∀ k ∈ ["iface", "interface", "group"], headed k f.definitions = headed k f := by
    intro k hk
    rw [headed, headed, definitions, List.filter_filter]
    refine List.filter_congr fun t _ => ?_
    by_cases ht : t.keyword = k
    · simp [ht, hk]
    · simp [ht]
  have hdefinitions : f.definitions.Perm
      (["iface", "interface", "group"].flatMap (headed · f)) := by
    rw [← List.flatMap_congr hsame]
    exact perm_flatMap_headed (by decide) fun t ht => of_decide_eq_true (List.mem_filter.1 ht).2
  have htrees := perm_flatMap_headed (by decide) hkeyword
  have hsplit : ["allow", "iface", "interface", "group", "mapping"].flatMap (headed · f) =
      headed "allow" f ++
        (["iface", "interface", "group"].flatMap (headed · f) ++ headed "mapping" f) := by
    simp
  rw [hsplit] at htrees
  exact htrees.trans ((hdefinitions.symm.append_right _).append_left _)

theorem Grammatical.covered (h : f.Grammatical) : f.Covered where
  trees := perm_trees h.statements
  lines t ht := by
    have hline : ∀ c ∈ t.children,
        c.keyword ∈ "type" :: "proto" :: Phase.all.map Phase.keyword := by
      have hphase (p : Phase) : p.keyword ∈ Phase.all.map Phase.keyword :=
        List.mem_map_of_mem p.mem_all
      obtain ⟨hmem, hkeyword⟩ := List.mem_filter.1 ht
      intro c hc
      cases h.statements t hmem with
      | allow keyword => simp [keyword] at hkeyword
      | interface _ block =>
          rcases block.lines c hc with ⟨p, hc, -⟩ | ⟨hc, -⟩ | ⟨hc, -⟩
          · rw [hc]
            exact List.mem_cons_of_mem _ (List.mem_cons_of_mem _ (hphase p))
          · simp [hc]
          · simp [hc]
      | group _ block =>
          obtain ⟨⟨p, -, hc⟩, -⟩ := block.lines c hc
          rw [hc]
          exact List.mem_cons_of_mem _ (List.mem_cons_of_mem _ (hphase p))
      | mapping keyword => simp [keyword] at hkeyword
    exact perm_flatMap_headed (by decide) hline

/-- The name of a further tree of a kind is new, or the tree is of another kind. -/
theorem nodup_names_append_singleton (kind : Tree → Bool) :
    (((f ++ [t]).filter kind).map (·.word 1)).Nodup ↔
      ((f.filter kind).map (·.word 1)).Nodup ∧
        (kind t = true → t.word 1 ∉ (f.filter kind).map (·.word 1)) := by
  rw [List.filter_append, List.map_append]
  by_cases ht : kind t = true
  · rw [List.filter_cons_of_pos ht, List.filter_nil, List.map_singleton, List.nodup_append']
    simp [ht]
  · rw [List.filter_cons_of_neg ht]
    simp [ht]

/-- A further tree is grammatical after a forest when it is a statement whose name is new. -/
theorem grammatical_append_singleton : Grammatical (f ++ [t]) ↔
    f.Grammatical ∧ t.IsStatement ∧
      (t.keyword ∈ ["iface", "interface", "group"] → t.word 1 ∉ f.definitions.map (·.word 1)) ∧
      (t.keyword = "mapping" → t.word 1 ∉ (headed "mapping" f).map (·.word 1)) := by
  have hdefinitions := nodup_names_append_singleton (f := f) (t := t)
    fun t => t.keyword ∈ ["iface", "interface", "group"]
  have hmappings := nodup_names_append_singleton (f := f) (t := t) fun t => t.keyword = "mapping"
  simp only [decide_eq_true_eq] at hdefinitions hmappings
  constructor
  · rintro ⟨hstatements, hnames, hmapped⟩
    obtain ⟨hf, ht⟩ := List.forall_mem_append.1 hstatements
    exact ⟨⟨hf, (hdefinitions.1 hnames).1, (hmappings.1 hmapped).1⟩, ht t List.mem_cons_self,
      (hdefinitions.1 hnames).2, (hmappings.1 hmapped).2⟩
  · rintro ⟨⟨hstatements, hnames, hmapped⟩, ht, hnew, hnewMapping⟩
    exact ⟨List.forall_mem_append.2 ⟨hstatements, by simpa using ht⟩,
      hdefinitions.2 ⟨hnames, hnew⟩, hmappings.2 ⟨hmapped, hnewMapping⟩⟩

end Forest

namespace Config

open Forest (headed)

/-- The configuration holds what the lines of the forest declare. -/
structure Declared (f : Forest) (c : Config) : Prop where
  definitions : c.entities.entries.Perm (f.definitions.map fun t => (t.word 1, t.entityOf))
  mappings : c.mappings.entries.Perm ((headed "mapping" f).map fun t => (t.word 1, t.mappingOf))
  lists : ∀ name, name ∈ c.allowLists.names ↔ ∃ t ∈ headed "allow" f, t.word 1 = name
  members : ∀ name list, c.allowList? name = some list → ∀ m, m ∈ list.names ↔
    ∃ t ∈ headed "allow" f, t.word 1 = name ∧ m ∈ t.wordList.drop 2

variable {c c' : Config} {f : Forest} {t : Tree}

theorem Declared.entity?_eq_none_iff (h : Declared f c) {name : String} :
    c.entity? name = none ↔ name ∉ f.definitions.map (·.word 1) := by
  rw [entity?, Catalog.get?_eq_none_iff, Catalog.names, (h.definitions.map Prod.fst).mem_iff,
    List.map_map]
  rfl

theorem Declared.mapping?_eq_none_iff (h : Declared f c) {name : String} :
    c.mapping? name = none ↔ name ∉ (headed "mapping" f).map (·.word 1) := by
  rw [mapping?, Catalog.get?_eq_none_iff, Catalog.names, (h.mappings.map Prod.fst).mem_iff,
    List.map_map]
  rfl

theorem Declared.addsAllowed (h : Declared f c) (hkeyword : t.keyword = "allow") :
    Declared (f ++ [t]) (c.addAllowed (t.word 1) (t.wordList.drop 2)) := by
  have hallow : headed "allow" (f ++ [t]) = headed "allow" f ++ [t] := by
    rw [Forest.headed_append, Forest.headed_singleton_of_eq hkeyword]
  have hdefinitions : (f ++ [t]).definitions = f.definitions := by
    rw [Forest.definitions_append, Forest.definitions_singleton_of_not_mem (by simp [hkeyword]),
      List.append_nil]
  have hmappings : headed "mapping" (f ++ [t]) = headed "mapping" f := by
    rw [Forest.headed_append, Forest.headed_singleton_of_ne (by simp [hkeyword]), List.append_nil]
  refine ⟨hdefinitions ▸ h.definitions, hmappings ▸ h.mappings, fun name => ?_, ?_⟩
  · rw [addAllowed, Catalog.mem_names_insert, h.lists, hallow]
    simp [or_comm, or_and_right, exists_or, eq_comm]
  · intro name list hlist m
    simp only [allowList?, addAllowed, Catalog.get?_insert] at hlist
    rw [hallow]
    simp only [List.mem_append, List.mem_singleton, or_and_right, exists_or, exists_eq_left]
    split at hlist
    next hname =>
      obtain rfl := Option.some.inj hlist
      have hold : m ∈ ((c.allowLists.get? (t.word 1)).getD .empty).names ↔
          ∃ u ∈ headed "allow" f, u.word 1 = name ∧ m ∈ u.wordList.drop 2 := by
        cases hget : c.allowLists.get? (t.word 1) with
        | some old => exact h.members name old (hname ▸ hget) m
        | none =>
            rw [Catalog.get?_eq_none_iff, ← hname, h.lists] at hget
            refine iff_of_false (by simp [Catalog.names, Catalog.empty]) ?_
            rintro ⟨u, hu, hword, -⟩
            exact hget ⟨u, hu, hword⟩
      rw [NameSet.mem_names_foldl_insert, hold]
      simp [hname, or_comm]
    next hname =>
      rw [h.members name list hlist m]
      simp [Ne.symm hname]

theorem Declared.addsEntity (h : Declared f c)
    (hkeyword : t.keyword ∈ ["iface", "interface", "group"])
    (hfree : c.entity? (t.word 1) = none) :
    Declared (f ++ [t]) { c with entities := c.entities.insert (t.word 1) t.entityOf } := by
  have hallow : headed "allow" (f ++ [t]) = headed "allow" f := by
    rw [Forest.headed_append, Forest.headed_singleton_of_ne (by rintro heq; simp [heq] at hkeyword),
      List.append_nil]
  have hmappings : headed "mapping" (f ++ [t]) = headed "mapping" f := by
    rw [Forest.headed_append, Forest.headed_singleton_of_ne (by rintro heq; simp [heq] at hkeyword),
      List.append_nil]
  refine ⟨?_, hmappings ▸ h.mappings, hallow ▸ h.lists, hallow ▸ h.members⟩
  rw [Forest.definitions_append, Forest.definitions_singleton_of_mem hkeyword, List.map_append]
  exact Catalog.perm_entries_insert hfree h.definitions

theorem Declared.addsMapping (h : Declared f c) (hkeyword : t.keyword = "mapping")
    (hfree : c.mapping? (t.word 1) = none) :
    Declared (f ++ [t]) { c with mappings := c.mappings.insert (t.word 1) t.mappingOf } := by
  have hallow : headed "allow" (f ++ [t]) = headed "allow" f := by
    rw [Forest.headed_append, Forest.headed_singleton_of_ne (by simp [hkeyword]), List.append_nil]
  have hdefinitions : (f ++ [t]).definitions = f.definitions := by
    rw [Forest.definitions_append, Forest.definitions_singleton_of_not_mem (by simp [hkeyword]),
      List.append_nil]
  refine ⟨hdefinitions ▸ h.definitions, ?_, hallow ▸ h.lists, hallow ▸ h.members⟩
  rw [Forest.headed_append, Forest.headed_singleton_of_eq hkeyword, List.map_append]
  exact Catalog.perm_entries_insert hfree h.mappings

/-- A statement that is accepted is declared with those before it. -/
theorem Declared.addsRoot (h : Declared f c) (hadds : AddsRoot t c c') :
    Declared (f ++ [t]) c' := by
  cases hadds with
  | allowed hkeyword hread =>
      obtain ⟨-, rfl, rfl⟩ := Tree.allowed_eq_ok.1 hread
      exact h.addsAllowed hkeyword
  | interface hkeyword hread hfree =>
      obtain ⟨-, rfl⟩ := Tree.interface_eq_ok.1 hread
      have hentity : t.entityOf = .interface t.interfaceOf := by
        rcases hkeyword with hkeyword | hkeyword <;> simp [Tree.entityOf, hkeyword]
      have hdefines : t.keyword ∈ ["iface", "interface", "group"] := by
        rcases hkeyword with hkeyword | hkeyword <;> simp [hkeyword]
      exact hentity ▸ h.addsEntity hdefines hfree
  | group hkeyword hread hfree =>
      obtain ⟨-, rfl⟩ := Tree.group_eq_ok.1 hread
      have hentity : t.entityOf = .group t.groupOf := by simp [Tree.entityOf, hkeyword]
      exact hentity ▸ h.addsEntity (by simp [hkeyword]) hfree
  | mapping hkeyword hread hfree =>
      obtain ⟨-, rfl⟩ := Tree.mapping_eq_ok.1 hread
      exact h.addsMapping hkeyword hfree

/-- Only a statement whose name is new is accepted. -/
theorem Declared.exists_addsRoot_iff (h : Declared f c) : (∃ c', AddsRoot t c c') ↔
    t.IsStatement ∧
      (t.keyword ∈ ["iface", "interface", "group"] → t.word 1 ∉ f.definitions.map (·.word 1)) ∧
      (t.keyword = "mapping" → t.word 1 ∉ (headed "mapping" f).map (·.word 1)) := by
  rw [← h.entity?_eq_none_iff, ← h.mapping?_eq_none_iff]
  constructor
  · rintro ⟨c', @⟨name, members, hkeyword, hread⟩ | @⟨i, hkeyword, hread, hfree⟩ |
      @⟨g, hkeyword, hread, hfree⟩ | @⟨m, hkeyword, hread, hfree⟩⟩
    · obtain ⟨hblock, -⟩ := Tree.allowed_eq_ok.1 hread
      exact ⟨.allow hkeyword hblock, by simp [hkeyword], by simp [hkeyword]⟩
    · obtain ⟨hblock, rfl⟩ := Tree.interface_eq_ok.1 hread
      refine ⟨.interface hkeyword hblock, fun _ => hfree, fun h => ?_⟩
      simp [h] at hkeyword
    · obtain ⟨hblock, rfl⟩ := Tree.group_eq_ok.1 hread
      exact ⟨.group hkeyword hblock, fun _ => hfree, by simp [hkeyword]⟩
    · obtain ⟨hblock, rfl⟩ := Tree.mapping_eq_ok.1 hread
      exact ⟨.mapping hkeyword hblock, by simp [hkeyword], fun _ => hfree⟩
  · rintro ⟨⟨hkeyword, hblock⟩ | ⟨hkeyword, hblock⟩ | ⟨hkeyword, hblock⟩ | ⟨hkeyword, hblock⟩,
      hfree, hfreeMapping⟩
    · exact ⟨_, .allowed hkeyword (Tree.allowed_eq_ok.2 ⟨hblock, rfl, rfl⟩)⟩
    · refine ⟨_, .interface hkeyword (Tree.interface_eq_ok.2 ⟨hblock, rfl⟩) (hfree ?_)⟩
      rcases hkeyword with hkeyword | hkeyword <;> simp [hkeyword]
    · exact ⟨_, .group hkeyword (Tree.group_eq_ok.2 ⟨hblock, rfl⟩) (hfree (by simp [hkeyword]))⟩
    · exact ⟨_, .mapping hkeyword (Tree.mapping_eq_ok.2 ⟨hblock, rfl⟩) (hfreeMapping hkeyword)⟩

theorem declared_nil : Declared [] empty where
  definitions := .refl _
  mappings := .refl _
  lists name := by simp [empty, Catalog.names, Catalog.empty, headed]
  members name list h := by cases h

theorem compile_append_singleton :
    compile (f ++ [t]) = .ok c' ↔ ∃ c, compile f = .ok c ∧ AddsRoot t c c' := by
  rw [compile, List.foldlM_append, bind_eq_ok]
  simp only [List.foldlM_cons, List.foldlM_nil, bind_pure, addRoot_eq_ok]
  rfl

theorem declared_of_compile (h : compile f = .ok c) : Declared f c := by
  induction f using List.reverseRecOn generalizing c with
  | nil =>
      cases h
      exact declared_nil
  | append_singleton f t ih =>
      obtain ⟨before, hf, hadds⟩ := compile_append_singleton.1 h
      exact (ih hf).addsRoot hadds

theorem exists_compile_iff : (∃ c, compile f = .ok c) ↔ f.Grammatical := by
  induction f using List.reverseRecOn with
  | nil => exact iff_of_true ⟨empty, rfl⟩ ⟨by simp, .nil, .nil⟩
  | append_singleton f t ih =>
      rw [Forest.grammatical_append_singleton, ← ih]
      simp only [compile_append_singleton]
      constructor
      · rintro ⟨c', c, hf, hadds⟩
        exact ⟨⟨c, hf⟩, (declared_of_compile hf).exists_addsRoot_iff.1 ⟨c', hadds⟩⟩
      · rintro ⟨⟨c, hf⟩, haccepted⟩
        obtain ⟨c', hadds⟩ := (declared_of_compile hf).exists_addsRoot_iff.2 haccepted
        exact ⟨c', c, hf, hadds⟩

/-- A definition was read from a statement and is filed under its name. -/
theorem exists_statement (h : compile f = .ok c) {name : String} {e : Entity}
    (he : c.entity? name = some e) :
    ∃ t ∈ f.definitions, t.word 1 = name ∧
      (t.keyword ≠ "group" ∧ t.IsInterface ∧ e = .interface t.interfaceOf ∨
        t.keyword = "group" ∧ t.IsGroup ∧ e = .group t.groupOf) := by
  have hentry : (name, e) ∈ c.entities.entries := Catalog.mem_entries_iff.2 he
  have hread := (declared_of_compile h).definitions.mem_iff.1 hentry
  obtain ⟨t, ht, heq⟩ := List.mem_map.1 hread
  obtain ⟨rfl, rfl⟩ := Prod.mk.inj heq
  have hmem := List.mem_filter.1 ht
  have hkeyword : t.keyword ∈ ["iface", "interface", "group"] := by simpa using hmem.2
  refine ⟨t, ht, rfl, ?_⟩
  cases (exists_compile_iff.1 ⟨c, h⟩).statements t hmem.1 with
  | allow hallow => simp [hallow] at hkeyword
  | interface hiface block =>
      have hgroup : t.keyword ≠ "group" := by
        rcases hiface with hiface | hiface <;> simp [hiface]
      exact .inl ⟨hgroup, block, if_neg hgroup⟩
  | group hgroup block => exact .inr ⟨hgroup, block, if_pos hgroup⟩
  | mapping hmapping => simp [hmapping] at hkeyword

/-- A forest compiles exactly when it is grammatical, and then every line of it has its place in
the configuration, which holds what the lines declare. -/
theorem compile_grammatical (f : Forest) :
    ((∃ c, compile f = .ok c) ↔ f.Grammatical) ∧
      ∀ c, compile f = .ok c → f.Covered ∧ Declared f c :=
  ⟨exists_compile_iff, fun c h =>
    ⟨(exists_compile_iff.1 ⟨c, h⟩).covered, declared_of_compile h⟩⟩

/-- A bridge with two lines for one phase and a quote that is left open, and a list on two
lines. -/
def bridgeForest : Forest :=
  let line (number level : Nat) (content : String) : Line := ⟨level, content, ⟨"interfaces", number⟩⟩
  Forest.ofLines [line 1 0 "iface br0", line 2 1 "type bridge", line 3 2 "ports eth0 eth1",
    line 4 1 "proto inet static", line 5 1 "up echo a", line 6 1 "up", line 7 2 "echo \"b",
    line 8 0 "allow auto br0", line 9 0 "group lan br0", line 10 1 "pre-up true",
    line 11 0 "allow auto lan"]

theorem compile_grammatical_bridge :
    ∃ c, compile bridgeForest = .ok c ∧ bridgeForest.Grammatical ∧ Declared bridgeForest c ∧
      (c.entity? "br0").map (fun e => match e with
        | .interface i => (i.commands.get .up, i.protocolKinds)
        | .group _ => ([], [])) = some (["echo a", "echo \"b"], ["inet"]) ∧
      c.allowLists = .ofList [("auto", .ofList [("br0", ()), ("lan", ())])] := by
  obtain ⟨haccepted, hdeclared⟩ := compile_grammatical bridgeForest
  exact ⟨_, rfl, haccepted.1 ⟨_, rfl⟩, (hdeclared _ rfl).2, by decide +kernel, by decide +kernel⟩

end Config

end NetHooks
