import NetHooks.Proofs.Config.Statement
import NetHooks.Proofs.Config.Written

/-!
# Blocks

What the lines under a definition may be, and what they declare: how many words a line has,
which keywords may stand under it, and where a block ends. A line of a phase, a type or a protocol
is accepted exactly when it is of its kind, and then it declares what its words and the lines
under it say (`Tree.phaseCommands_eq_ok`, `Tree.linkType_eq_ok`, `Tree.protocol_eq_ok`).
-/
namespace NetHooks

/-- A catalog has the names that it was made from. -/
theorem Catalog.contains_ofList {α : Type} {l : List (String × α)} {name : String} :
    (Catalog.ofList l).contains name = true ↔ name ∈ l.map Prod.fst := by
  induction l using List.reverseRecOn with
  | nil => simp [ofList, contains]
  | append_singleton l e ih =>
      have hinsert : ofList (l ++ [e]) = (ofList l).insert e.1 e.2 := by simp [ofList]
      rw [contains] at ih
      rw [hinsert, contains, get?_insert, List.map_append, List.mem_append]
      by_cases hname : name = e.1
      · simp [hname]
      · simp [hname, ih]

/-- Entries and one more have different names. -/
theorem Catalog.nodup_map_fst_concat {α : Type} {l : List (String × α)} {e : String × α} :
    ((l ++ [e]).map Prod.fst).Nodup ↔ (l.map Prod.fst).Nodup ∧ e.1 ∉ l.map Prod.fst := by
  rw [List.map_append, List.nodup_append']
  simp

/-- The trees that begin with the keyword, in their order. -/
def Forest.headed (keyword : String) (f : Forest) : Forest :=
  f.filter (·.keyword = keyword)

namespace Tree

open Forest (headed)

/-! ### Words -/

/-- The words of a line; none when it does not split. -/
def wordList (t : Tree) : List String :=
  match t.words with
  | .ok ws => ws
  | .error _ => []

def word (t : Tree) (n : Nat) : String :=
  t.wordList[n]?.getD ""

variable {t : Tree} {ws : List String}

theorem words_eq_ok_iff (h : ws ≠ []) : t.words = .ok ws ↔ t.wordList = ws := by
  rw [wordList]
  cases t.words with
  | error e => simp [h.symm]
  | ok ws' => simp

/-! ### The kinds of lines -/

/-- No line under it has a block of its own. -/
def Shallow (t : Tree) : Prop :=
  ∀ c ∈ t.children, c.children = []

structure IsOption (t : Tree) : Prop where
  block : t.children = []
  words : 1 ≤ t.wordList.length

/-- The lines under it are options whose keys are different, and none of the reserved ones. -/
structure HasOptions (head : String) (reserved : List String) (t : Tree) : Prop where
  lines : ∀ c ∈ t.children, c.IsOption
  keys : (reserved ++ t.children.map fun c => optionKey head (c.word 0)).Nodup

structure IsType (t : Tree) : Prop where
  words : t.wordList.length = 2
  options : t.HasOptions "IFACE" ["IFACE_TYPE"]

structure IsProtocol (t : Tree) : Prop where
  words : t.wordList.length = 3
  options : t.HasOptions "PROTO" ["PROTO_TYPE", "PROTO_METHOD"]

/-- What may stand under an interface. -/
inductive IsInterfaceLine (t : Tree) : Prop
  | phase (p : Phase) (keyword : t.keyword = p.keyword) (block : t.Shallow)
  | type (keyword : t.keyword = "type") (line : t.IsType)
  | protocol (keyword : t.keyword = "proto") (line : t.IsProtocol)

structure IsInterface (t : Tree) : Prop where
  words : t.wordList.length = 2
  lines : ∀ c ∈ t.children, c.IsInterfaceLine
  type : (headed "type" t.children).length ≤ 1

/-- What may stand under a group. -/
def IsGroupLine (t : Tree) : Prop :=
  (∃ p ∈ [Phase.preUp, .postUp, .preDown, .postDown], t.keyword = p.keyword) ∧ t.Shallow

structure IsGroup (t : Tree) : Prop where
  words : 2 ≤ t.wordList.length
  lines : ∀ c ∈ t.children, c.IsGroupLine

structure IsMapping (t : Tree) : Prop where
  words : t.wordList.length = 2
  block : t.Shallow

structure IsAllow (t : Tree) : Prop where
  words : 3 ≤ t.wordList.length
  block : t.children = []

/-! ### What they declare -/

def option (t : Tree) : Setting :=
  ⟨t.word 0, t.wordList.drop 1⟩

def options (t : Tree) : List Setting :=
  t.children.map option

def typeOf (t : Tree) : LinkType where
  name := t.word 1
  options := t.options
  environment := .ofList (("IFACE_TYPE", t.word 1) :: optionEntries "IFACE" t.options)

def protocolOf (t : Tree) : Protocol where
  kind := t.word 1
  method := t.word 2
  options := t.options
  environment := .ofList
    (("PROTO_TYPE", t.word 1) :: ("PROTO_METHOD", t.word 2) :: optionEntries "PROTO" t.options)

/-- The text after the keyword, if there is any, and the lines under it. -/
def commandsOf (t : Tree) : List String :=
  (if t.rest = "" then [] else [t.rest]) ++ t.children.map content

/-- The commands of each phase that has a line. -/
def phasesOf (lines : Forest) : Commands :=
  ⟨fun p => if headed p.keyword lines = [] then none
    else some ((headed p.keyword lines).flatMap commandsOf)⟩

theorem get_phasesOf (lines : Forest) (p : Phase) :
    (phasesOf lines).get p = (headed p.keyword lines).flatMap commandsOf := by
  simp only [phasesOf, Commands.get]
  split
  next hnone => simp [hnone]
  · rfl

def interfaceOf (t : Tree) : Interface where
  name := t.word 1
  type? := (headed "type" t.children).head?.map typeOf
  protocols := (headed "proto" t.children).map protocolOf
  protocolKinds := ((headed "proto" t.children).map (·.word 1)).eraseDups
  commands := phasesOf t.children
  location := t.location

def groupOf (t : Tree) : Group :=
  ⟨t.word 1, t.wordList.drop 2, phasesOf t.children, t.location⟩

def mappingOf (t : Tree) : Mapping :=
  ⟨t.word 1, t.children.map content, t.location⟩

/-! ### Lines -/

theorem noBlock_eq_ok : t.noBlock = .ok () ↔ t.children = [] := by
  rw [noBlock]
  cases t.children <;> simp

theorem verbatim_eq_ok {s : String} : t.verbatim = .ok s ↔ t.children = [] ∧ s = t.content := by
  rw [verbatim, bind_eq_ok, ← noBlock_eq_ok]
  constructor
  · rintro ⟨_, hblock, h⟩
    cases h
    exact ⟨hblock, rfl⟩
  · rintro ⟨hblock, rfl⟩
    exact ⟨(), hblock, rfl⟩

theorem phaseCommands_eq_ok {commands : List String} :
    t.phaseCommands = .ok commands ↔ t.Shallow ∧ commands = t.commandsOf := by
  have hunder (under : List String) : t.children.mapM verbatim = .ok under ↔
      t.Shallow ∧ under = t.children.map content :=
    mapM_eq_ok_iff (fun _ _ => verbatim_eq_ok)
  rw [phaseCommands, bind_eq_ok]
  simp only [hunder, String.isEmpty_iff, commandsOf]
  constructor
  · rintro ⟨_, ⟨hblock, rfl⟩, h⟩
    cases h
    exact ⟨hblock, rfl⟩
  · rintro ⟨hblock, rfl⟩
    exact ⟨_, ⟨hblock, rfl⟩, rfl⟩

theorem setting_eq_ok {s : Setting} : t.setting = .ok s ↔ t.IsOption ∧ s = t.option := by
  rw [setting, bind_eq_ok]
  constructor
  · rintro ⟨_, hblock, h⟩
    obtain ⟨ws, hws, h⟩ := bind_eq_ok.1 h
    split at h
    · cases h
    next name values =>
      cases h
      have hlist := (words_eq_ok_iff (List.cons_ne_nil _ _)).1 hws
      exact ⟨⟨noBlock_eq_ok.1 hblock, by simp [hlist]⟩, by simp [option, word, hlist]⟩
  · rintro ⟨⟨hblock, hwords⟩, rfl⟩
    refine ⟨(), noBlock_eq_ok.2 hblock, ?_⟩
    cases hlist : t.wordList with
    | nil => simp [hlist] at hwords
    | cons name values =>
        refine bind_eq_ok.2 ⟨_, (words_eq_ok_iff (List.cons_ne_nil _ _)).2 hlist, ?_⟩
        simp [option, word, hlist, pure, Except.pure]

theorem settings_eq_ok {options : List Setting} :
    t.settings = .ok options ↔ (∀ c ∈ t.children, c.IsOption) ∧ options = t.options :=
  mapM_eq_ok_iff (fun _ _ => setting_eq_ok)

/-! ### Options -/

/-- Options are accepted when their keys and those before them are different, and all of them
make up the environment. -/
theorem addOptionKeys_eq_ok_iff {head : String} (reserved : List (String × String))
    {places : List Location} {options : List Setting} {env : Environment}
    (hreserved : (reserved.map Prod.fst).Nodup) (hlength : options.length ≤ places.length) :
    addOptionKeys head (.ofList reserved) (places.zip options) = .ok env ↔
      ((reserved ++ optionEntries head options).map Prod.fst).Nodup ∧
        env = .ofList (reserved ++ optionEntries head options) := by
  induction options generalizing reserved places with
  | nil => simp [addOptionKeys, optionEntries, hreserved, eq_comm]
  | cons o options ih =>
      obtain ⟨l, places, rfl⟩ := List.exists_cons_of_length_pos (Nat.zero_lt_of_lt hlength)
      let entry : String × String := (optionKey head o.name, " ".intercalate o.values)
      have hsplit : reserved ++ optionEntries head (o :: options) =
          (reserved ++ [entry]) ++ optionEntries head options := by
        simp [optionEntries, entry]
      have hinsert : (Catalog.ofList reserved).insert entry.1 entry.2 =
          .ofList (reserved ++ [entry]) := by
        simp [Catalog.ofList]
      rw [List.zip_cons_cons, addOptionKeys, hsplit]
      by_cases hkey : entry.1 ∈ reserved.map Prod.fst
      · have hrefused : ¬(((reserved ++ [entry]) ++ optionEntries head options).map
            Prod.fst).Nodup := by
          intro hnodup
          rw [List.map_append, List.map_append] at hnodup
          exact List.disjoint_of_nodup_append hnodup.of_append_left hkey (by simp)
        rw [if_pos (Catalog.contains_ofList.2 hkey)]
        exact iff_of_false nofun fun h => hrefused h.1
      · have hnew : ¬(Catalog.ofList reserved).contains entry.1 = true :=
          mt Catalog.contains_ofList.1 hkey
        have hnodup : ((reserved ++ [entry]).map Prod.fst).Nodup :=
          Catalog.nodup_map_fst_concat.2 ⟨hreserved, hkey⟩
        rw [if_neg hnew, hinsert, ih _ hnodup (Nat.le_of_succ_le_succ hlength)]

theorem keys_options (head : String) (t : Tree) : (optionEntries head t.options).map Prod.fst =
    t.children.map fun c => optionKey head (c.word 0) := by
  simp [optionEntries, options, option]

theorem linkType_eq_ok {l : LinkType} : t.linkType = .ok l ↔ t.IsType ∧ l = t.typeOf := by
  have hkeys {name : String} {env : Environment} :
      addOptionKeys typeHead (Catalog.empty.insert (typeHead ++ "_TYPE") name)
        ((t.children.map location).zip t.options) = .ok env ↔
      (["IFACE_TYPE"] ++ t.children.map fun c => optionKey "IFACE" (c.word 0)).Nodup ∧
        env = .ofList (("IFACE_TYPE", name) :: optionEntries "IFACE" t.options) := by
    rw [← keys_options]
    exact addOptionKeys_eq_ok_iff [("IFACE_TYPE", name)] (by simp) (by simp [options])
  rw [linkType, bind_eq_ok]
  constructor
  · rintro ⟨ws, hws, h⟩
    split at h
    next first name =>
      obtain ⟨options, hoptions, h⟩ := bind_eq_ok.1 h
      obtain ⟨env, henv, h⟩ := bind_eq_ok.1 h
      obtain ⟨hlines, rfl⟩ := settings_eq_ok.1 hoptions
      obtain ⟨hnodup, rfl⟩ := hkeys.1 henv
      have hlist := (words_eq_ok_iff (List.cons_ne_nil _ _)).1 hws
      cases h
      exact ⟨⟨by simp [hlist], hlines, hnodup⟩, by simp [typeOf, word, hlist]⟩
    · cases h
    · cases h
  · rintro ⟨⟨hwords, hlines, hnodup⟩, rfl⟩
    obtain ⟨first, name, hlist⟩ := List.length_eq_two.1 hwords
    refine ⟨_, (words_eq_ok_iff (List.cons_ne_nil _ _)).2 hlist, ?_⟩
    refine bind_eq_ok.2 ⟨_, settings_eq_ok.2 ⟨hlines, rfl⟩, bind_eq_ok.2 ⟨_, hkeys.2 ⟨hnodup, rfl⟩, ?_⟩⟩
    simp [typeOf, word, hlist, pure, Except.pure]

theorem protocol_eq_ok {p : Protocol} : t.protocol = .ok p ↔ t.IsProtocol ∧ p = t.protocolOf := by
  have hkeys {kind method : String} {env : Environment} :
      addOptionKeys protocolHead
        ((Catalog.empty.insert (protocolHead ++ "_TYPE") kind).insert
          (protocolHead ++ "_METHOD") method)
        ((t.children.map location).zip t.options) = .ok env ↔
      (["PROTO_TYPE", "PROTO_METHOD"] ++
          t.children.map fun c => optionKey "PROTO" (c.word 0)).Nodup ∧
        env = .ofList (("PROTO_TYPE", kind) :: ("PROTO_METHOD", method) ::
          optionEntries "PROTO" t.options) := by
    rw [← keys_options]
    exact addOptionKeys_eq_ok_iff [("PROTO_TYPE", kind), ("PROTO_METHOD", method)] (by simp)
      (by simp [options])
  rw [protocol, bind_eq_ok]
  constructor
  · rintro ⟨ws, hws, h⟩
    split at h
    next first kind method =>
      obtain ⟨options, hoptions, h⟩ := bind_eq_ok.1 h
      obtain ⟨env, henv, h⟩ := bind_eq_ok.1 h
      obtain ⟨hlines, rfl⟩ := settings_eq_ok.1 hoptions
      obtain ⟨hnodup, rfl⟩ := hkeys.1 henv
      have hlist := (words_eq_ok_iff (List.cons_ne_nil _ _)).1 hws
      cases h
      exact ⟨⟨by simp [hlist], hlines, hnodup⟩, by simp [protocolOf, word, hlist]⟩
    · cases h
    · cases h
    · cases h
  · rintro ⟨⟨hwords, hlines, hnodup⟩, rfl⟩
    obtain ⟨first, kind, method, hlist⟩ := List.length_eq_three.1 hwords
    refine ⟨_, (words_eq_ok_iff (List.cons_ne_nil _ _)).2 hlist, ?_⟩
    refine bind_eq_ok.2 ⟨_, settings_eq_ok.2 ⟨hlines, rfl⟩, bind_eq_ok.2 ⟨_, hkeys.2 ⟨hnodup, rfl⟩, ?_⟩⟩
    simp [protocolOf, word, hlist, pure, Except.pure]

end Tree

end NetHooks
