import NetHooks.Hook.Runner
import NetHooks.Proofs.Config.Grammar
import NetHooks.Proofs.Octets

/-!
# Variables

A process is handed its environment as texts, and in each of them the name of a variable ends at
the first equals sign. So a key is found as a variable only when it has no equals sign, and keys
that differ after one are found as the same variable (`Program.names_block`). Keys of options are
compared whole, and an option may be called anything: the options of a definition are variables of
their own exactly when they also differ before the first equals sign of their names
(`Interface.Gives.variables_of_compile`).
-/
namespace NetHooks

/-- The variable that a process finds for a key. -/
def variableName (key : String) : String :=
  String.ofList (key.toList.takeWhile (· != '='))

theorem variableName_eq_iff {key : String} : variableName key = key ↔ '=' ∉ key.toList := by
  constructor
  · intro h hmark
    rw [← h, variableName, String.toList_ofList] at hmark
    simpa using List.mem_takeWhile_imp hmark
  · intro h
    have hall : ∀ c ∈ key.toList, (c != '=') = true := by
      intro c hc
      simpa using fun heq : c = '=' => h (heq ▸ hc)
    rw [variableName, List.takeWhile_eq_self_iff.2 hall, String.ofList_toList]

section OptionKey

variable {head option : String} (hhead : '=' ∉ head.toList)
include hhead

theorem mem_optionKey_iff : '=' ∈ (optionKey head option).toList ↔ '=' ∈ option.toList := by
  simp [optionKey, hhead, optionKeyChars_eq, keeps_optionKeyChar.mem_flatMap_iff]

/-- The name of an option can be cut before the key is made of it. -/
theorem variableName_optionKey :
    variableName (optionKey head option) = optionKey head (variableName option) := by
  have hstart : ∀ c ∈ (head ++ "_").toList, (c != '=') = true := by
    intro c hc
    have hne : c ≠ '=' := by
      rintro rfl
      simp [hhead] at hc
    simpa using hne
  rw [variableName, optionKey, String.toList_append, List.takeWhile_append_of_pos hstart,
    String.toList_ofList, optionKeyChars_eq, keeps_optionKeyChar.takeWhile_flatMap,
    ← optionKeyChars_eq, String.ofList_append, String.ofList_toList, variableName, optionKey,
    String.toList_ofList]

end OptionKey

/-! ### What a process finds -/

namespace Program

variable {env : Environment}

/-- Nothing of the value belongs to the name of the variable. -/
theorem takeWhile_entry (name value : String) :
    (Octets.ofString (name ++ "=" ++ value)).takeWhile (· != '=') =
      Octets.ofString (variableName name) := by
  have hname : ∀ l : List Char, (l ++ '=' :: value.toList).takeWhile (· != '=') =
      l.takeWhile (· != '=') := by
    intro l
    induction l with
    | nil => rfl
    | cons c l ih => rw [List.cons_append, List.takeWhile_cons, List.takeWhile_cons, ih]
  have hentry : (name ++ "=" ++ value).toList = name.toList ++ '=' :: value.toList := by simp
  rw [Octets.ofString_eq, Octets.keeps_ofChar.takeWhile_flatMap, hentry, hname, Octets.ofString_eq,
    variableName, String.toList_ofList]

theorem dropWhile_entry {name : String} (h : '=' ∉ name.toList) (value : String) :
    ((Octets.ofString (name ++ "=" ++ value)).dropWhile (· != '=')).drop 1 =
      Octets.ofString value := by
  have hname : ∀ c ∈ name.toList, (c != '=') = true := by
    intro c hc
    simpa using fun heq : c = '=' => h (heq ▸ hc)
  have hentry : (name ++ "=" ++ value).toList = name.toList ++ '=' :: value.toList := by simp
  rw [Octets.ofString_eq, Octets.keeps_ofChar.dropWhile_flatMap, hentry,
    List.dropWhile_append_of_pos hname, List.dropWhile_cons_of_neg (by simp), List.flatMap_cons,
    Octets.keeps_ofChar.mark_eq, ← Octets.ofString_eq]
  rfl

theorem names_block (env : Environment) :
    (block env).map Prod.fst = (env.names.map variableName).map Octets.ofString := by
  rw [block, Catalog.names, List.map_map, List.map_map, List.map_map]
  exact List.map_congr_left fun e _ => takeWhile_entry e.1 e.2

/-- The keys are found as they are, with their values, when none has an equals sign. -/
theorem block_eq_iff :
    block env = env.entries.map (fun e => (Octets.ofString e.1, Octets.ofString e.2)) ↔
      ∀ key ∈ env.names, '=' ∉ key.toList := by
  constructor
  · intro h key hkey
    have hnames := congrArg (List.map Prod.fst) h
    rw [names_block, List.map_map, List.map_map, Catalog.names, List.map_map] at hnames
    obtain ⟨e, he, rfl⟩ := List.mem_map.1 hkey
    have hsame : Octets.ofString (variableName e.1) = Octets.ofString e.1 :=
      List.map_inj_left.1 hnames e he
    exact variableName_eq_iff.1 (Octets.ofString_injective hsame)
  · intro h
    refine List.map_congr_left fun e he => ?_
    have hname : '=' ∉ e.1.toList := h e.1 (List.mem_map_of_mem he)
    have hvariable := takeWhile_entry e.1 e.2
    rw [variableName_eq_iff.2 hname] at hvariable
    exact Prod.ext hvariable (dropWhile_entry hname e.2)

theorem nodup_names_block_iff :
    ((block env).map Prod.fst).Nodup ↔ (env.names.map variableName).Nodup := by
  rw [names_block]
  exact List.nodup_map_iff fun _ _ h => Octets.ofString_injective h

end Program

/-! ### The keys of a definition -/

/-- What a type or a protocol of the interface gives to hooks: the head of its keys, the keys that
stand before those of options, the options and the environment. -/
inductive Interface.Gives (i : Interface) :
    String → List String → List Setting → Environment → Prop
  | type {t : LinkType} (typed : i.type? = some t) :
      Gives i "IFACE" ["IFACE_TYPE"] t.options t.environment
  | protocol {p : Protocol} (declared : p ∈ i.protocols) :
      Gives i "PROTO" ["PROTO_TYPE", "PROTO_METHOD"] p.options p.environment

namespace Tree

variable {t l : Tree}

theorem IsInterface.isType (h : t.IsInterface) (hl : l ∈ Forest.headed "type" t.children) :
    l.IsType := by
  obtain ⟨hmem, hkeyword⟩ := List.mem_filter.1 hl
  have htype : l.keyword = "type" := by simpa using hkeyword
  cases h.lines l hmem with
  | phase p hphase => exact absurd (htype.symm.trans hphase) (Phase.type_ne_keyword p)
  | type _ line => exact line
  | protocol hproto => simp [hproto] at htype

theorem IsInterface.isProtocol (h : t.IsInterface) (hl : l ∈ Forest.headed "proto" t.children) :
    l.IsProtocol := by
  obtain ⟨hmem, hkeyword⟩ := List.mem_filter.1 hl
  have hproto : l.keyword = "proto" := by simpa using hkeyword
  cases h.lines l hmem with
  | phase p hphase => exact absurd (hproto.symm.trans hphase) (Phase.proto_ne_keyword p)
  | type htype => simp [htype] at hproto
  | protocol _ line => exact line

end Tree

namespace Interface

variable {forest : Forest} {config : Config} {name head : String} {i : Interface}
  {reserved : List String} {options : List Setting} {env : Environment}

theorem Gives.not_mem (h : i.Gives head reserved options env) :
    '=' ∉ head.toList ∧ ∀ key ∈ reserved, '=' ∉ key.toList := by
  cases h <;> decide

/-- The keys of options are different and none of those that stand before them. -/
theorem Gives.keys (hcompile : Config.compile forest = .ok config)
    (hdefined : config.entity? name = some (.interface i)) (h : i.Gives head reserved options env) :
    (reserved ++ options.map fun o => optionKey head o.name).Nodup ∧
      env.names.Perm (reserved ++ options.map fun o => optionKey head o.name) := by
  have hentries (fixed : List (String × String)) :
      (fixed ++ optionEntries head options).map Prod.fst =
        fixed.map Prod.fst ++ options.map fun o => optionKey head o.name := by
    simp [optionEntries]
  have hperm (fixed : List (String × String))
      (hkeys : (fixed.map Prod.fst ++ options.map fun o => optionKey head o.name).Nodup) :
      (Catalog.ofList (fixed ++ optionEntries head options)).names.Perm
        (fixed.map Prod.fst ++ options.map fun o => optionKey head o.name) := by
    rw [← hentries] at hkeys ⊢
    exact (Catalog.perm_entries_ofList hkeys).map Prod.fst
  have hnames (l : Tree) : (l.options.map fun o => optionKey head o.name) =
      l.children.map fun c => optionKey head (c.word 0) := by
    simp [Tree.options, Tree.option]
  obtain ⟨t, -, -, ⟨-, hread, hentity⟩ | ⟨-, -, hentity⟩⟩ := Config.exists_statement hcompile hdefined
  · obtain rfl := Entity.interface.inj hentity
    cases h with
    | type typed =>
        obtain ⟨l, hl, rfl⟩ := Option.map_eq_some_iff.1 typed
        have hkeys := (hread.isType (List.mem_of_head? hl)).options.keys
        rw [← hnames] at hkeys
        exact ⟨hkeys, hperm [("IFACE_TYPE", l.word 1)] hkeys⟩
    | protocol declared =>
        obtain ⟨l, hl, rfl⟩ := List.mem_map.1 declared
        have hkeys := (hread.isProtocol hl).options.keys
        rw [← hnames] at hkeys
        exact ⟨hkeys, hperm [("PROTO_TYPE", l.word 1), ("PROTO_METHOD", l.word 2)] hkeys⟩
  · cases hentity

/-- Keys have equals signs exactly when names of options do. Without them a process finds the keys
and values as they are, and each option in a variable of its own; and in general each option is in
a variable of its own when no two keys agree after the names were cut. -/
theorem Gives.variables_of_compile (hcompile : Config.compile forest = .ok config)
    (hdefined : config.entity? name = some (.interface i)) (h : i.Gives head reserved options env) :
    ((∀ key ∈ env.names, '=' ∉ key.toList) ↔ ∀ o ∈ options, '=' ∉ o.name.toList) ∧
    (Program.block env =
        env.entries.map (fun e => (Octets.ofString e.1, Octets.ofString e.2)) ↔
      ∀ o ∈ options, '=' ∉ o.name.toList) ∧
    (((Program.block env).map Prod.fst).Nodup ↔
      (reserved ++ options.map fun o => optionKey head (variableName o.name)).Nodup) ∧
    ((∀ o ∈ options, '=' ∉ o.name.toList) → ((Program.block env).map Prod.fst).Nodup) := by
  obtain ⟨hkeys, hperm⟩ := h.keys hcompile hdefined
  obtain ⟨hhead, hreserved⟩ := h.not_mem
  have hnames : (∀ key ∈ env.names, '=' ∉ key.toList) ↔ ∀ o ∈ options, '=' ∉ o.name.toList := by
    simp only [hperm.mem_iff, List.mem_append, List.mem_map]
    constructor
    · intro hplain o ho hmark
      exact hplain _ (.inr ⟨o, ho, rfl⟩) ((mem_optionKey_iff hhead).2 hmark)
    · rintro hplain key (hkey | ⟨o, ho, rfl⟩)
      · exact hreserved key hkey
      · exact fun hmark => hplain o ho ((mem_optionKey_iff hhead).1 hmark)
  have hcut : (reserved ++ options.map fun o => optionKey head o.name).map variableName =
      reserved ++ options.map fun o => optionKey head (variableName o.name) := by
    have hfixed : reserved.map variableName = reserved.map id :=
      List.map_congr_left fun key hkey => variableName_eq_iff.2 (hreserved key hkey)
    rw [List.map_append, hfixed, List.map_id, List.map_map]
    exact congrArg (reserved ++ ·) (List.map_congr_left fun o _ => variableName_optionKey hhead)
  have hnodup : ((Program.block env).map Prod.fst).Nodup ↔
      (reserved ++ options.map fun o => optionKey head (variableName o.name)).Nodup := by
    rw [Program.nodup_names_block_iff, (hperm.map variableName).nodup_iff, hcut]
  refine ⟨hnames, Program.block_eq_iff.trans hnames, hnodup, fun hplain => hnodup.2 ?_⟩
  have hsame : (options.map fun o => optionKey head (variableName o.name)) =
      options.map fun o => optionKey head o.name :=
    List.map_congr_left fun o ho => by rw [variableName_eq_iff.2 (hplain o ho)]
  rw [hsame]
  exact hkeys

/-- A type with an option, and one called as a process would be handed the first. -/
def forgingForest : Forest := [
  .node ⟨0, "iface eth0", ⟨"interfaces", 1⟩⟩ [
    .node ⟨1, "type ethernet", ⟨"interfaces", 2⟩⟩ [
      .node ⟨2, "mtu 1500", ⟨"interfaces", 3⟩⟩ [],
      .node ⟨2, "mtu=x 9000", ⟨"interfaces", 4⟩⟩ []],
    .node ⟨1, "proto inet static", ⟨"interfaces", 5⟩⟩ [
      .node ⟨2, "address 10.0.0.1", ⟨"interfaces", 6⟩⟩ []]]]

def forgingType : LinkType :=
  ⟨"ethernet", [⟨"mtu", ["1500"]⟩, ⟨"mtu=x", ["9000"]⟩], .ofList [("IFACE_TYPE", "ethernet"),
    ("IFACE_MTU", "1500"), ("IFACE_MTU=X", "9000")]⟩

def forgingProtocol : Protocol :=
  ⟨"inet", "static", [⟨"address", ["10.0.0.1"]⟩], .ofList [("PROTO_TYPE", "inet"),
    ("PROTO_METHOD", "static"), ("PROTO_ADDRESS", "10.0.0.1")]⟩

def forgingInterface : Interface :=
  ⟨"eth0", some forgingType, [forgingProtocol], ["inet"], .empty, ⟨"interfaces", 1⟩⟩

def forgingConfig : Config :=
  ⟨.ofList [("eth0", .interface forgingInterface)], .empty, .empty⟩

theorem variables_of_compile_forging :
    Config.compile forgingForest = .ok forgingConfig ∧
      ¬((Program.block forgingType.environment).map Prod.fst).Nodup ∧
      ((Program.block forgingProtocol.environment).map Prod.fst).Nodup := by
  have hcompile : Config.compile forgingForest = .ok forgingConfig := by rfl
  have hdefined : forgingConfig.entity? "eth0" = some (.interface forgingInterface) := by rfl
  have htype : forgingInterface.Gives "IFACE" ["IFACE_TYPE"] forgingType.options
      forgingType.environment := .type rfl
  have hprotocol : forgingInterface.Gives "PROTO" ["PROTO_TYPE", "PROTO_METHOD"]
      forgingProtocol.options forgingProtocol.environment := .protocol (List.mem_singleton.2 rfl)
  obtain ⟨-, -, hcut, -⟩ := htype.variables_of_compile hcompile hdefined
  obtain ⟨-, -, -, hplain⟩ := hprotocol.variables_of_compile hcompile hdefined
  exact ⟨hcompile, mt hcut.1 (by decide +kernel), hplain (by decide)⟩

/-- The process finds one variable twice. -/
theorem block_forging :
    Config.compile forgingForest = .ok forgingConfig ∧
      "IFACE_MTU=X" ∈ forgingType.environment.names ∧
      Program.block forgingType.environment = [("IFACE_MTU".toList, "1500".toList),
        ("IFACE_MTU".toList, "X=9000".toList), ("IFACE_TYPE".toList, "ethernet".toList)] := by
  refine ⟨by rfl, by decide +kernel, by decide +kernel⟩

end Interface

end NetHooks
