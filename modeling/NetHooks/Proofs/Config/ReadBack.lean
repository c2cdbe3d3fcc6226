import NetHooks.Proofs.Config.Definition
import NetHooks.Proofs.Config.Relocation
import NetHooks.Source.Library

/-!
# Configurations that are read back

The forest of a well-formed configuration compiles to the configuration, without its places
(`Config.WellFormed.compile_forest`): each tree compiles to its definition, and the definitions
are filed in the order of their names. With the text of the forest read back as such a forest, the
text of a configuration declares the configuration (`Config.compile_parseText_text`).
-/
namespace NetHooks

/-! ### Filing definitions -/

namespace Catalog

variable {α β σ τ ε : Type}

/-- Entries with new and different names are filed one after another. -/
theorem foldlM_of_pairwise {embed : Catalog β → σ} {add : σ → τ → Except ε σ}
    {tree : String × α → τ} {g : α → β} {l : List (String × α)}
    (hl : l.Pairwise fun a b => a.1 < b.1)
    (hadd : ∀ d : Catalog β, ∀ e ∈ l, d.get? e.1 = none →
      add (embed d) (tree e) = .ok (embed (d.insert e.1 (g e.2))))
    (d : Catalog β) (hd : ∀ e ∈ l, d.get? e.1 = none) :
    (l.map tree).foldlM add (embed d) =
      .ok (embed (l.foldl (fun d e => d.insert e.1 (g e.2)) d)) := by
  induction l generalizing d with
  | nil => rfl
  | cons e l ih =>
      obtain ⟨hlt, hpairwise⟩ := List.pairwise_cons.1 hl
      have hfirst := hadd d e List.mem_cons_self (hd e List.mem_cons_self)
      have hfree : ∀ x ∈ l, (d.insert e.1 (g e.2)).get? x.1 = none := by
        intro x hx
        have hne : x.1 ≠ e.1 := fun heq => String.lt_irrefl _ (heq ▸ hlt x hx)
        rw [get?_insert, if_neg hne, hd x (List.mem_cons_of_mem _ hx)]
      rw [List.map_cons, List.foldlM_cons]
      refine bind_eq_ok.2 ⟨_, hfirst, ?_⟩
      exact ih hpairwise (fun d x hx => hadd d x (List.mem_cons_of_mem _ hx)) _ hfree

/-- A catalog is built by filing its entries. -/
theorem foldlM_entries (embed : Catalog β → σ) (add : σ → τ → Except ε σ)
    (tree : String × α → τ) (g : α → β) (c : Catalog α)
    (hadd : ∀ d : Catalog β, ∀ e ∈ c.entries, d.get? e.1 = none →
      add (embed d) (tree e) = .ok (embed (d.insert e.1 (g e.2)))) :
    (c.entries.map tree).foldlM add (embed .empty) = .ok (embed (c.map g)) := by
  have hentries : c.entries.foldl (fun d e => d.insert e.1 (g e.2)) .empty = c.map g := by
    rw [← ofList_entries (c.map g), ofList, map, List.foldl_map]
  rw [foldlM_of_pairwise c.ordered hadd .empty fun _ _ => rfl, hentries]

end Catalog

/-! ### Commands -/

namespace Commands

variable {c d : Commands} {p : Phase} {ps : List Phase}

/-- Phases that were not mentioned before get their commands. -/
theorem slots_foldl_add (hps : ps.Nodup) (hd : ∀ p ∈ ps, d.slots p = none) (q : Phase) :
    ((ps.filterMap fun p => (c.slots p).map (p, ·)).foldl
      (fun d e => d.add e.1 e.2) d).slots q = if q ∈ ps then c.slots q else d.slots q := by
  induction ps generalizing d with
  | nil => simp
  | cons p ps ih =>
      obtain ⟨hp, hnodup⟩ := List.nodup_cons.1 hps
      obtain ⟨hdp, hdps⟩ := List.forall_mem_cons.1 hd
      cases hslot : c.slots p with
      | none =>
          rw [List.filterMap_cons_none (by simp [hslot]), ih hnodup hdps]
          by_cases hq : q = p
          · subst hq
            simp [hp, hslot, hdp]
          · simp [hq]
      | some commands =>
          have hnext : ∀ x ∈ ps, (d.add p commands).slots x = none := by
            intro x hx
            have hne : x ≠ p := fun heq => hp (heq ▸ hx)
            simp [add, hne, hdps x hx]
          rw [List.filterMap_cons_some (by simp [hslot]; rfl), List.foldl_cons, ih hnodup hnext]
          by_cases hq : q = p
          · subst hq
            simp [hp, hslot, add, get, hdp]
          · simp [hq, add]

/-- Commands are what their phases with their commands make up. -/
theorem foldl_add_toList (c : Commands) :
    c.toList.foldl (fun d e => d.add e.1 e.2) .empty = c := by
  refine ext_of_all fun q hq => ?_
  have hnodup : Phase.all.Nodup := by decide
  rw [toList, slots_foldl_add hnodup (fun _ _ => rfl), if_pos hq]

end Commands

/-! ### Environments -/

theorem LinkType.WellFormed.addOptionKeys_eq {t : LinkType} (h : t.WellFormed)
    (places : List Location) (hlength : t.options.length ≤ places.length) :
    addOptionKeys typeHead (Catalog.empty.insert (typeHead ++ "_TYPE") t.name)
      (places.zip t.options) = .ok t.environment :=
  (Tree.addOptionKeys_eq_ok_iff [(typeHead ++ "_TYPE", t.name)] (by simp) hlength).2
    ⟨h.keys, h.environment⟩

theorem Protocol.WellFormed.addOptionKeys_eq {p : Protocol} (h : p.WellFormed)
    (places : List Location) (hlength : p.options.length ≤ places.length) :
    addOptionKeys protocolHead
      ((Catalog.empty.insert (protocolHead ++ "_TYPE") p.kind).insert
        (protocolHead ++ "_METHOD") p.method) (places.zip p.options) = .ok p.environment :=
  (Tree.addOptionKeys_eq_ok_iff
    [(protocolHead ++ "_TYPE", p.kind), (protocolHead ++ "_METHOD", p.method)] (by simp)
    hlength).2 ⟨h.keys, h.environment⟩

/-! ### Trees -/

namespace Tree

open Words (IsBare)

variable {keyword name : String} {ws : List String} {n : Nat} {children : Forest}

theorem words_statement (h : Text.Heads keyword) :
    (node (.placeless n (statement keyword ws)) children).words = .ok (keyword :: ws) :=
  wordsAt_eq_ok.2 (NetHooks.words_statement h.bare ws)

theorem keyword_statement (h : Text.Heads keyword) :
    (node (.placeless n (statement keyword ws)) children).keyword = keyword :=
  firstToken_statement h.bare ws

theorem rest_statement (h : Text.Heads keyword) :
    (node (.placeless n (statement keyword [])) children).rest = "" := by
  have hafter := Text.afterFirstToken_eq_nil h.bare.2.2
  simp [rest, content, Line.placeless, statement, hafter]

theorem verbatim_placeless (content : String) :
    verbatim (node (.placeless n content) []) = .ok content := rfl

theorem setting_tree (s : Setting) : setting s.tree = .ok s := by
  have hwords : s.tree.words = .ok (s.name :: s.values) :=
    wordsAt_eq_ok.2 (words_quotedLine s.name s.values)
  exact bind_eq_ok.2 ⟨(), rfl, bind_eq_ok.2 ⟨_, hwords, rfl⟩⟩

theorem linkType_tree {t : LinkType} (h : t.WellFormed) : linkType t.tree = .ok t := by
  have hwords : t.tree.words = .ok ["type", t.name] :=
    words_statement (Text.heads_of_mem (by decide))
  have hsettings : t.tree.settings = .ok t.options := mapM_map_eq_ok setting_tree t.options
  have hkeys := h.addOptionKeys_eq (t.tree.children.map location) (by simp [LinkType.tree])
  exact bind_eq_ok.2 ⟨_, hwords, bind_eq_ok.2 ⟨_, hsettings, bind_eq_ok.2 ⟨_, hkeys, rfl⟩⟩⟩

theorem protocol_tree {p : Protocol} (h : p.WellFormed) : protocol p.tree = .ok p := by
  have hwords : p.tree.words = .ok ["proto", p.kind, p.method] :=
    words_statement (Text.heads_of_mem (by decide))
  have hsettings : p.tree.settings = .ok p.options := mapM_map_eq_ok setting_tree p.options
  have hkeys := h.addOptionKeys_eq (p.tree.children.map location) (by simp [Protocol.tree])
  exact bind_eq_ok.2 ⟨_, hwords, bind_eq_ok.2 ⟨_, hsettings, bind_eq_ok.2 ⟨_, hkeys, rfl⟩⟩⟩

/-- A phase line has only the commands under it. -/
theorem phaseCommands_tree (p : Phase) (commands : List String) :
    (p.tree commands).phaseCommands = .ok commands := by
  have hunder : (p.tree commands).children.mapM verbatim = .ok commands :=
    mapM_map_eq_ok verbatim_placeless commands
  have hrest : (p.tree commands).rest = "" := rest_statement p.heads_keyword
  rw [phaseCommands, hrest]
  exact bind_eq_ok.2 ⟨_, hunder, rfl⟩

theorem ofKeyword?_tree (p : Phase) (commands : List String) :
    Phase.ofKeyword? (p.tree commands).keyword = some p := by
  rw [Phase.tree, keyword_statement p.heads_keyword, Phase.ofKeyword?_keyword]

/-! ### Interfaces -/

theorem addToInterface_type {t : LinkType} (h : t.WellFormed) (name : String)
    (body : InterfaceBody) (hnone : body.type? = none) : addToInterface name body t.tree =
      .ok { body with type? := some (t, t.tree.location) } := by
  have hkeyword : t.tree.keyword = "type" := keyword_statement (Text.heads_of_mem (by decide))
  have hphase : Phase.ofKeyword? "type" = none := rfl
  simp only [addToInterface, hkeyword, hphase, if_pos, hnone]
  exact bind_eq_ok.2 ⟨_, linkType_tree h, rfl⟩

theorem addToInterface_protocol {p : Protocol} (h : p.WellFormed) (name : String)
    (body : InterfaceBody) : addToInterface name body p.tree =
      .ok { body with protocols := body.protocols ++ [p] } := by
  have hkeyword : p.tree.keyword = "proto" := keyword_statement (Text.heads_of_mem (by decide))
  have hphase : Phase.ofKeyword? "proto" = none := rfl
  simp only [addToInterface, hkeyword, hphase, if_pos, String.reduceEq, if_false]
  exact bind_eq_ok.2 ⟨_, protocol_tree h, rfl⟩

theorem addToInterface_phase (name : String) (body : InterfaceBody) (p : Phase)
    (commands : List String) : addToInterface name body (p.tree commands) =
      .ok { body with commands := body.commands.add p commands } := by
  rw [addToInterface, ofKeyword?_tree]
  exact bind_eq_ok.2 ⟨_, phaseCommands_tree p commands, rfl⟩

/-- The lines under an interface make up what it declares. -/
theorem foldlM_addToInterface {i : Interface} (h : i.WellFormed) :
    i.tree.children.foldlM (addToInterface i.name) ⟨none, [], .empty⟩ =
      .ok ⟨i.type?.map fun t => (t, t.tree.location), i.protocols, i.commands⟩ := by
  let type? : Option (LinkType × Location) := i.type?.map fun t => (t, t.tree.location)
  have htype : (i.type?.toList.map LinkType.tree).foldlM (addToInterface i.name)
      ⟨none, [], .empty⟩ = .ok ⟨type?, [], .empty⟩ := by
    cases ht : i.type? with
    | none => simp [type?, ht, pure, Except.pure]
    | some t =>
        have hadd := addToInterface_type (h.type t ht) i.name ⟨none, [], .empty⟩ rfl
        simp [type?, ht, hadd]
  have hprotocols : (i.protocols.map Protocol.tree).foldlM (addToInterface i.name)
      ⟨type?, [], .empty⟩ = .ok ⟨type?, i.protocols, .empty⟩ := by
    have hadd : ∀ ps, ∀ p ∈ i.protocols, addToInterface i.name ⟨type?, ps, .empty⟩ p.tree =
        .ok ⟨type?, ps ++ [p], .empty⟩ :=
      fun ps p hp => addToInterface_protocol (h.protocols p hp) i.name _
    rw [foldlM_map_eq_ok hadd, List.foldl_append_eq_append, ← List.flatMap_def,
      List.flatMap_singleton', List.nil_append]
  have hcommands : i.commands.forest.foldlM (addToInterface i.name)
      ⟨type?, i.protocols, .empty⟩ = .ok ⟨type?, i.protocols, i.commands⟩ := by
    have hadd : ∀ c, ∀ e ∈ i.commands.toList, addToInterface i.name ⟨type?, i.protocols, c⟩
        (e.1.tree e.2) = .ok ⟨type?, i.protocols, c.add e.1 e.2⟩ :=
      fun c e _ => addToInterface_phase i.name _ e.1 e.2
    rw [Commands.forest, foldlM_map_eq_ok hadd, Commands.foldl_add_toList]
  rw [Interface.tree, children_node, List.foldlM_append]
  refine bind_eq_ok.2 ⟨_, htype, ?_⟩
  rw [List.foldlM_append]
  exact bind_eq_ok.2 ⟨_, hprotocols, hcommands⟩

theorem singleName_statement (h : Text.Heads keyword) :
    (node (.placeless n (statement keyword [name])) children).singleName = .ok name :=
  bind_eq_ok.2 ⟨_, words_statement h, rfl⟩

theorem interface_tree {i : Interface} (h : i.WellFormed) :
    interface i.tree = .ok (i.relocate Location.forget) := by
  have hname : i.tree.singleName = .ok i.name :=
    singleName_statement (Text.heads_of_mem (by decide))
  have hkinds : distinctKinds i.protocols = i.protocolKinds := by rw [distinctKinds_eq, h.kinds]
  have htype : (i.type?.map fun t => (t, t.tree.location)).map Prod.fst = i.type? := by
    simp [Function.comp_def]
  refine bind_eq_ok.2 ⟨_, hname, bind_eq_ok.2 ⟨_, foldlM_addToInterface h, ?_⟩⟩
  simp only [Interface.relocate, hkinds, htype]
  rfl

/-! ### Groups, mappings and allow-lists -/

theorem addToGroup_phase (name : String) (c : Commands) {p : Phase} (hp : p.inGroup = true)
    (commands : List String) : addToGroup name c (p.tree commands) = .ok (c.add p commands) := by
  have hphase : (Phase.ofKeyword? (p.tree commands).keyword).filter Phase.inGroup = some p := by
    rw [ofKeyword?_tree, Option.filter_some, if_pos hp]
  rw [addToGroup, hphase]
  exact bind_eq_ok.2 ⟨_, phaseCommands_tree p commands, rfl⟩

theorem foldlM_addToGroup {g : Group} (h : g.WellFormed) :
    g.tree.children.foldlM (addToGroup g.name) .empty = .ok g.commands := by
  have hadd : ∀ c, ∀ e ∈ g.commands.toList, addToGroup g.name c (e.1.tree e.2) =
      .ok (c.add e.1 e.2) :=
    fun c e he => addToGroup_phase g.name c (h.phases e he) e.2
  rw [Group.tree, children_node, Commands.forest, foldlM_map_eq_ok hadd,
    Commands.foldl_add_toList]

theorem group_tree {g : Group} (h : g.WellFormed) :
    group g.tree = .ok (g.relocate Location.forget) := by
  have hwords : g.tree.words = .ok ("group" :: g.name :: g.dependencies) :=
    words_statement (Text.heads_of_mem (by decide))
  exact bind_eq_ok.2 ⟨_, hwords, bind_eq_ok.2 ⟨_, foldlM_addToGroup h, rfl⟩⟩

theorem mapping_tree (m : Mapping) : mapping m.tree = .ok (m.relocate Location.forget) := by
  have hname : m.tree.singleName = .ok m.name :=
    singleName_statement (Text.heads_of_mem (by decide))
  have hrules : m.tree.children.mapM verbatim = .ok m.rules :=
    mapM_map_eq_ok verbatim_placeless m.rules
  exact bind_eq_ok.2 ⟨_, hname, bind_eq_ok.2 ⟨_, hrules, rfl⟩⟩

theorem allowed_tree {name : String} {members : NameSet} (h : members.names ≠ []) :
    allowed (NameSet.tree name members) = .ok (name, members.names) := by
  have hwords : (NameSet.tree name members).words = .ok ("allow" :: name :: members.names) :=
    words_statement (Text.heads_of_mem (by decide))
  refine bind_eq_ok.2 ⟨(), rfl, bind_eq_ok.2 ⟨_, hwords, ?_⟩⟩
  cases hnames : members.names with
  | nil => exact absurd hnames h
  | cons m ms => rfl

end Tree

/-! ### Statements -/

namespace Config

variable {c d : Config}

theorem addRoot_entity {e : Entity} (h : e.WellFormed) (hfree : d.entities.get? e.name = none) :
    d.addRoot e.tree =
      .ok { d with entities := d.entities.insert e.name (e.relocate Location.forget) } := by
  cases e with
  | interface i =>
      have hkeyword : i.tree.keyword = "iface" :=
        Tree.keyword_statement (Text.heads_of_mem (by decide))
      exact addRoot_eq_ok.2 (.interface (.inl hkeyword) (Tree.interface_tree h) hfree)
  | group g =>
      have hkeyword : g.tree.keyword = "group" :=
        Tree.keyword_statement (Text.heads_of_mem (by decide))
      exact addRoot_eq_ok.2 (.group hkeyword (Tree.group_tree h) hfree)

theorem addRoot_mapping {m : Mapping} (hfree : d.mappings.get? m.name = none) :
    d.addRoot m.tree =
      .ok { d with mappings := d.mappings.insert m.name (m.relocate Location.forget) } := by
  have hkeyword : m.tree.keyword = "mapping" :=
    Tree.keyword_statement (Text.heads_of_mem (by decide))
  exact addRoot_eq_ok.2 (.mapping hkeyword (Tree.mapping_tree m) hfree)

/-- The names of a set, filed one after another, make up the set. -/
theorem foldl_insert_names (members : NameSet) :
    members.names.foldl (·.insert · ()) .empty = members := by
  have hentries : members.entries.foldl (fun d e => d.insert e.1 ()) .empty = members :=
    Catalog.ofList_entries members
  rw [Catalog.names, List.foldl_map, hentries]

theorem addRoot_allowed {name : String} {members : NameSet} (h : members.names ≠ [])
    (hfree : d.allowLists.get? name = none) : d.addRoot (NameSet.tree name members) =
      .ok { d with allowLists := d.allowLists.insert name members } := by
  have hkeyword : (NameSet.tree name members).keyword = "allow" :=
    Tree.keyword_statement (Text.heads_of_mem (by decide))
  have hadd : d.addAllowed name members.names =
      { d with allowLists := d.allowLists.insert name members } := by
    rw [addAllowed, hfree, Option.getD_none, foldl_insert_names]
  rw [← hadd]
  exact addRoot_eq_ok.2 (.allowed hkeyword (Tree.allowed_tree h))

theorem WellFormed.foldlM_entities (h : c.WellFormed) :
    (c.entities.entries.map fun e => e.2.tree).foldlM addRoot empty =
      .ok ⟨c.entities.map (Entity.relocate Location.forget), .empty, .empty⟩ := by
  let embed : Catalog Entity → Config := fun d => ⟨d, .empty, .empty⟩
  have hadd : ∀ d : Catalog Entity, ∀ e ∈ c.entities.entries, d.get? e.1 = none →
      addRoot (embed d) e.2.tree =
        .ok (embed (d.insert e.1 (e.2.relocate Location.forget))) := by
    intro d e he hfree
    obtain ⟨hname, he⟩ := h.entities e he
    rw [hname] at hfree ⊢
    exact addRoot_entity he hfree
  exact Catalog.foldlM_entries embed addRoot _ _ c.entities hadd

theorem WellFormed.foldlM_mappings (h : c.WellFormed) (entities : Catalog Entity) :
    (c.mappings.entries.map fun e => e.2.tree).foldlM addRoot ⟨entities, .empty, .empty⟩ =
      .ok ⟨entities, c.mappings.map (Mapping.relocate Location.forget), .empty⟩ := by
  let embed : Catalog Mapping → Config := fun d => ⟨entities, d, .empty⟩
  have hadd : ∀ d : Catalog Mapping, ∀ e ∈ c.mappings.entries, d.get? e.1 = none →
      addRoot (embed d) e.2.tree =
        .ok (embed (d.insert e.1 (e.2.relocate Location.forget))) := by
    intro d e he hfree
    rw [(h.mappings e he).1] at hfree ⊢
    exact addRoot_mapping hfree
  exact Catalog.foldlM_entries embed addRoot _ _ c.mappings hadd

theorem WellFormed.foldlM_allowLists (h : c.WellFormed) (entities : Catalog Entity)
    (mappings : Catalog Mapping) :
    (c.allowLists.entries.map fun e => NameSet.tree e.1 e.2).foldlM addRoot
      ⟨entities, mappings, .empty⟩ = .ok ⟨entities, mappings, c.allowLists⟩ := by
  let embed : Catalog NameSet → Config := fun d => ⟨entities, mappings, d⟩
  have hadd : ∀ d : Catalog NameSet, ∀ e ∈ c.allowLists.entries, d.get? e.1 = none →
      addRoot (embed d) (NameSet.tree e.1 e.2) = .ok (embed (d.insert e.1 (id e.2))) :=
    fun d e he hfree => addRoot_allowed (h.allowLists e he).2.nonempty hfree
  have hid : c.allowLists.map id = c.allowLists :=
    Catalog.ext_get? fun name => by rw [Catalog.get?_map, Option.map_id, id]
  have hfold := Catalog.foldlM_entries embed addRoot _ _ c.allowLists hadd
  rw [hid] at hfold
  exact hfold

/-- The forest of a well-formed configuration compiles to it. -/
theorem WellFormed.compile_forest (h : c.WellFormed) :
    compile c.forest = .ok (c.relocate Location.forget) := by
  rw [compile, forest, List.foldlM_append]
  refine bind_eq_ok.2 ⟨_, h.foldlM_entities, ?_⟩
  rw [List.foldlM_append]
  exact bind_eq_ok.2 ⟨_, h.foldlM_mappings _, h.foldlM_allowLists _ _⟩

theorem relocate_forget_forget (c : Config) :
    (c.relocate Location.forget).relocate Location.forget = c.relocate Location.forget := by
  have hentity : ∀ e : Entity,
      (e.relocate Location.forget).relocate Location.forget = e.relocate Location.forget := by
    intro e
    cases e <;> rfl
  have hentities : (c.entities.map (Entity.relocate Location.forget)).map
      (Entity.relocate Location.forget) = c.entities.map (Entity.relocate Location.forget) :=
    Catalog.ext_get? fun name => by
      rw [Catalog.get?_map, Catalog.get?_map, Option.map_map]
      exact congrArg (Option.map · _) (funext hentity)
  have hmappings : (c.mappings.map (Mapping.relocate Location.forget)).map
      (Mapping.relocate Location.forget) = c.mappings.map (Mapping.relocate Location.forget) :=
    Catalog.ext_get? fun name => by
      rw [Catalog.get?_map, Catalog.get?_map, Option.map_map]
      rfl
  simp only [relocate, hentities, hmappings]

/-- The written form of a well-formed configuration is read and compiled, and declares the
configuration, with other places. -/
theorem compile_parseText_text (library : Library) (path : String) (h : c.WellFormed) :
    ∃ f d, Forest.parseText library path c.text = .ok f ∧ compile f = .ok d ∧
      d.relocate Location.forget = c.relocate Location.forget := by
  obtain ⟨f, hf, hforest⟩ := Forest.exists_parseText_text library path h.writable
  have hcompile := compile_relocate Location.forget f
  rw [hforest, compile_relocate, h.compile_forest, relocated_ok, relocate_forget_forget] at hcompile
  cases hd : compile f with
  | error e => simp [hd] at hcompile
  | ok d =>
      rw [hd, relocated_ok, Except.ok.injEq] at hcompile
      exact ⟨f, d, hf, hd, hcompile.symm⟩

/-- Names, values and commands with the characters that mean something to a rule of reading. -/
def marksConfig : Config where
  entities := Catalog.ofList [
    ("e%h\\ \"0", .interface {
      name := "e%h\\ \"0"
      type? := some ⟨"vl an", [⟨"vlan-id", ["4%2", "\r"]⟩],
        Catalog.ofList [("IFACE_TYPE", "vl an"), ("IFACE_VLAN_ID", "4%2 \r")]⟩
      protocols := [⟨"inet", "", [], Catalog.ofList [("PROTO_TYPE", "inet"), ("PROTO_METHOD", "")]⟩]
      protocolKinds := ["inet"]
      commands := (Commands.empty.add .up ["echo \"50%%\" \\\\", "\u3000#\rifdef"]).add .postDown []
      location := ⟨"interfaces", 1⟩ }),
    ("include", .group ⟨"include", ["e%h\\ \"0", ""], Commands.empty.add .preUp ["%define%"],
      ⟨"interfaces", 7⟩⟩)]
  mappings := Catalog.ofList [("#", ⟨"#", ["match \\\\"], ⟨"interfaces", 9⟩⟩)]
  allowLists := Catalog.ofList [("auto", Catalog.ofList [("", ()), ("\\", ())])]

/-- Every rule of reading leaves such characters as they are. -/
theorem compile_parseText_text_marks : marksConfig.WellFormed ∧
    ∃ f d, Forest.parseText (FileTree.library ⟨[], []⟩) "interfaces" marksConfig.text = .ok f ∧
      compile f = .ok d ∧
      d.relocate Location.forget = marksConfig.relocate Location.forget := by
  have htype : LinkType.WellFormed ⟨"vl an", [⟨"vlan-id", ["4%2", "\r"]⟩],
      Catalog.ofList [("IFACE_TYPE", "vl an"), ("IFACE_VLAN_ID", "4%2 \r")]⟩ :=
    ⟨by decide, List.forall_mem_singleton.2 ⟨by decide, by decide⟩, by decide, by decide⟩
  have hprotocol : Protocol.WellFormed ⟨"inet", "", [],
      Catalog.ofList [("PROTO_TYPE", "inet"), ("PROTO_METHOD", "")]⟩ :=
    ⟨by decide, by decide, by simp, by decide, by decide⟩
  have hentities : ∀ e ∈ marksConfig.entities.entries, e.1 = e.2.name ∧ e.2.WellFormed := by
    refine List.forall_mem_cons.2 ⟨⟨rfl, ?_⟩, List.forall_mem_singleton.2 ⟨rfl, ?_⟩⟩
    · exact ⟨by decide, by simpa using htype, by simpa using hprotocol, by decide, by decide⟩
    · exact ⟨by decide, by decide, by decide, by decide⟩
  have hmappings : ∀ e ∈ marksConfig.mappings.entries, e.1 = e.2.name ∧ e.2.WellFormed :=
    List.forall_mem_singleton.2 ⟨rfl, by decide, by decide⟩
  have hallowLists : ∀ e ∈ marksConfig.allowLists.entries, Text.Feedless e.1 ∧ e.2.WellFormed :=
    List.forall_mem_singleton.2 ⟨by decide, by decide, by decide⟩
  have h : marksConfig.WellFormed := ⟨hentities, hmappings, hallowLists⟩
  exact ⟨h, compile_parseText_text _ _ h⟩

end Config

end NetHooks
