import NetHooks.Config.Compile
import NetHooks.Proofs.Quoted
import NetHooks.Proofs.Source.Written

/-!
# The written form of configurations

A configuration is written as a forest (`Config.forest`), one tree for each definition: names,
options, values and members are quoted words, and commands and rules are lines of their own. A
configuration that could have been read (`Config.WellFormed`) can be written
(`Config.WellFormed.writable`).
-/
namespace NetHooks

/-! ### Trees -/

/-- A line without a place. -/
def Line.placeless (level : Nat) (content : String) : Line :=
  ⟨level, content, ⟨"", 0⟩⟩

def Setting.tree (s : Setting) : Tree :=
  .node (.placeless 2 (quotedLine s.name s.values)) []

def LinkType.tree (t : LinkType) : Tree :=
  .node (.placeless 1 (statement "type" [t.name])) (t.options.map Setting.tree)

def Protocol.tree (p : Protocol) : Tree :=
  .node (.placeless 1 (statement "proto" [p.kind, p.method])) (p.options.map Setting.tree)

/-- A phase with its commands. -/
def Phase.tree (p : Phase) (commands : List String) : Tree :=
  .node (.placeless 1 (statement p.keyword [])) (commands.map fun c => .node (.placeless 2 c) [])

def Commands.forest (c : Commands) : Forest :=
  c.toList.map fun (p, commands) => p.tree commands

def Interface.tree (i : Interface) : Tree :=
  .node (.placeless 0 (statement "iface" [i.name]))
    (i.type?.toList.map LinkType.tree ++ (i.protocols.map Protocol.tree ++ i.commands.forest))

def Group.tree (g : Group) : Tree :=
  .node (.placeless 0 (statement "group" (g.name :: g.dependencies))) g.commands.forest

def Entity.tree : Entity → Tree
  | interface i => i.tree
  | group g => g.tree

def Mapping.tree (m : Mapping) : Tree :=
  .node (.placeless 0 (statement "mapping" [m.name]))
    (m.rules.map fun r => .node (.placeless 1 r) [])

/-- An allow-list with its members. -/
def NameSet.tree (name : String) (members : NameSet) : Tree :=
  .node (.placeless 0 (statement "allow" (name :: members.names))) []

namespace Config

def forest (c : Config) : Forest :=
  c.entities.entries.map (fun e => e.2.tree) ++
    (c.mappings.entries.map (fun e => e.2.tree) ++
      c.allowLists.entries.map fun e => NameSet.tree e.1 e.2)

/-- The configuration as it is written. -/
def text (c : Config) : String :=
  c.forest.text

end Config

/-! ### Well-formed configurations -/

/-- The string has no line feed. -/
def Text.Feedless (s : String) : Prop :=
  '\n' ∉ s.toList

instance (s : String) : Decidable (Text.Feedless s) :=
  inferInstanceAs (Decidable (¬_))

open Text (Feedless)

structure Setting.WellFormed (s : Setting) : Prop where
  name : Feedless s.name
  values : ∀ v ∈ s.values, Feedless v

/-- The keys of options with their values. -/
def optionEntries (head : String) (options : List Setting) : List (String × String) :=
  options.map fun o => (optionKey head o.name, " ".intercalate o.values)

/-- What the environment of a type is made from. -/
def LinkType.entries (t : LinkType) : List (String × String) :=
  (typeHead ++ "_TYPE", t.name) :: optionEntries typeHead t.options

/-- What the environment of a protocol is made from. -/
def Protocol.entries (p : Protocol) : List (String × String) :=
  (protocolHead ++ "_TYPE", p.kind) :: (protocolHead ++ "_METHOD", p.method) ::
    optionEntries protocolHead p.options

structure LinkType.WellFormed (t : LinkType) : Prop where
  name : Feedless t.name
  options : ∀ o ∈ t.options, o.WellFormed
  keys : (t.entries.map Prod.fst).Nodup
  environment : t.environment = Catalog.ofList t.entries

structure Protocol.WellFormed (p : Protocol) : Prop where
  kind : Feedless p.kind
  method : Feedless p.method
  options : ∀ o ∈ p.options, o.WellFormed
  keys : (p.entries.map Prod.fst).Nodup
  environment : p.environment = Catalog.ofList p.entries

/-- Every command stands on a line of its own. -/
def Commands.WellFormed (c : Commands) : Prop :=
  ∀ e ∈ c.toList, ∀ command ∈ e.2, LogicalLine.Writable command.toList

instance (c : Commands) : Decidable c.WellFormed :=
  inferInstanceAs (Decidable (∀ e ∈ _, _))

structure Interface.WellFormed (i : Interface) : Prop where
  name : Feedless i.name
  type : ∀ t ∈ i.type?, t.WellFormed
  protocols : ∀ p ∈ i.protocols, p.WellFormed
  kinds : i.protocolKinds = (i.protocols.map Protocol.kind).eraseDups
  commands : i.commands.WellFormed

structure Group.WellFormed (g : Group) : Prop where
  name : Feedless g.name
  dependencies : ∀ d ∈ g.dependencies, Feedless d
  phases : ∀ e ∈ g.commands.toList, e.1.inGroup = true
  commands : g.commands.WellFormed

def Entity.WellFormed : Entity → Prop
  | interface i => i.WellFormed
  | group g => g.WellFormed

structure Mapping.WellFormed (m : Mapping) : Prop where
  name : Feedless m.name
  rules : ∀ r ∈ m.rules, LogicalLine.Writable r.toList

structure NameSet.WellFormed (members : NameSet) : Prop where
  nonempty : members.names ≠ []
  members : ∀ m ∈ members.names, Feedless m

/-- Definitions are kept under their names, and each is one that could have been read. -/
structure Config.WellFormed (c : Config) : Prop where
  entities : ∀ e ∈ c.entities.entries, e.1 = e.2.name ∧ e.2.WellFormed
  mappings : ∀ e ∈ c.mappings.entries, e.1 = e.2.name ∧ e.2.WellFormed
  allowLists : ∀ e ∈ c.allowLists.entries, Feedless e.1 ∧ e.2.WellFormed

/-! ### Lines -/

open Forest (Writable writable_cons writable_append writable_map writable_nil)

/-- The keyword begins a line that can be written and is no directive. -/
structure Text.Heads (keyword : String) : Prop where
  bare : Words.IsBare keyword
  uncommented : keyword.toList.head? ≠ some '#'
  ended : keyword.toList.getLast? ≠ some '\\'
  undirected : keyword ∉ Directive.keywords

theorem Text.heads_of_mem {keyword : String}
    (h : keyword ∈ ["iface", "group", "mapping", "allow", "type", "proto"] ++
      Phase.all.map Phase.keyword) : Text.Heads keyword := by
  have hall : ∀ k ∈ ["iface", "group", "mapping", "allow", "type", "proto"] ++
      Phase.all.map Phase.keyword, Words.IsBare k ∧ k.toList.head? ≠ some '#' ∧
        k.toList.getLast? ≠ some '\\' ∧ k ∉ Directive.keywords := by decide
  obtain ⟨hbare, huncommented, hended, hundirected⟩ := hall keyword h
  exact ⟨hbare, huncommented, hended, hundirected⟩

theorem Phase.heads_keyword (p : Phase) : Text.Heads p.keyword :=
  Text.heads_of_mem (List.mem_append_right _ (List.mem_map_of_mem p.mem_all))

namespace LogicalLine

open Text (isBlank firstToken)
open Words (operands quoted)

variable {keyword : String} {first : List Char} {ws : List String}

/-- Operands can be written after what begins and ends well. -/
theorem writable_append_operands (hfeed : '\n' ∉ first)
    (hstart : ∃ c ∈ first.head?, isBlank c = false ∧ c ≠ '#')
    (hend : ∃ c ∈ first.getLast?, isBlank c = false ∧ c ≠ '\\')
    (hdirective : String.ofList (firstToken (first ++ operands (ws.map String.toList))) ∉
      Directive.keywords)
    (hws : ∀ w ∈ ws, Feedless w) : Writable (first ++ operands (ws.map String.toList)) := by
  obtain ⟨c, hc, hsolid, hcomment⟩ := hstart
  have hhead : (first ++ operands (ws.map String.toList)).head? = some c := by
    rw [List.head?_append, Option.mem_def.1 hc]
    rfl
  obtain ⟨d, hd, hdsolid, hdslash⟩ : ∃ d, (first ++ operands (ws.map String.toList)).getLast? =
      some d ∧ isBlank d = false ∧ d ≠ '\\' := by
    obtain ⟨d, hd, hdsolid, hdslash⟩ := hend
    rw [Words.getLast?_append_operands]
    split
    · exact ⟨d, hd, hdsolid, hdslash⟩
    · exact ⟨'"', rfl, rfl, by decide⟩
  have hoperands : '\n' ∉ operands (ws.map String.toList) := by
    refine Words.not_mem_operands fun w hw => ?_
    obtain ⟨v, hv, rfl⟩ := List.mem_map.1 hw
    exact hws v hv
  have hindented : ∀ b, isBlank b = true → c ≠ b := by
    rintro b hb rfl
    exact absurd hb (by simp [hsolid])
  exact {
    feedless := by simp [hfeed, hoperands]
    ne_nil := fun hnil => by simp [hnil] at hhead
    unindented := by simp [hhead, hindented ' ' rfl, hindented '\t' rfl]
    uncommented := by simpa [hhead] using hcomment
    trimmed := Text.trimEnd_eq_of_getLast? hd hdsolid
    ended := continues_eq_false_of_getLast? hd hdslash
    undirected := hdirective }

theorem writable_statement (h : Text.Heads keyword) (hws : ∀ w ∈ ws, Feedless w) :
    Writable (statement keyword ws).toList := by
  obtain ⟨hne, -, hsolid⟩ := h.bare
  have hdirective := h.undirected
  rw [← firstToken_statement h.bare ws] at hdirective
  rw [statement, String.toList_ofList] at hdirective ⊢
  refine writable_append_operands ?_ ?_ ?_ hdirective hws
  · exact fun hfeed => absurd (hsolid _ hfeed) (by decide)
  · have hhead := List.head?_eq_some_head hne
    exact ⟨_, hhead, hsolid _ (List.head_mem hne), fun heq => h.uncommented (heq ▸ hhead)⟩
  · have hlast := List.getLast?_eq_some_getLast hne
    exact ⟨_, hlast, hsolid _ (List.getLast_mem hne), fun heq => h.ended (heq ▸ hlast)⟩

theorem writable_quotedLine {name : String} (hname : Feedless name) (hws : ∀ w ∈ ws, Feedless w) :
    Writable (quotedLine name ws).toList := by
  rw [quotedLine, String.toList_ofList]
  refine writable_append_operands (Words.not_mem_quoted hname) ⟨'"', rfl, rfl, by decide⟩
    ⟨'"', Words.getLast?_quoted _, rfl, by decide⟩ (fun hkeyword => ?_) hws
  -- A keyword of a directive has no quotes, and this token begins with one.
  refine (Directive.not_mem_of_mem_keywords hkeyword).2 ?_
  rw [String.toList_ofList]
  exact List.mem_cons_self

end LogicalLine

/-! ### Definitions -/

variable {n : Nat}

/-- A tree can be written under a keyword that heads lines. -/
theorem Forest.writable_statement {keyword : String} {ws : List String} {children : Forest}
    (h : Text.Heads keyword) (hws : ∀ w ∈ ws, Feedless w) (hchildren : Writable (n + 1) children) :
    Writable n [.node (.placeless n (statement keyword ws)) children] :=
  writable_cons.2 ⟨⟨rfl, LogicalLine.writable_statement h hws⟩, hchildren, writable_nil⟩

/-- Commands and rules can be written under their line. -/
theorem Forest.writable_verbatim {contents : List String}
    (h : ∀ c ∈ contents, LogicalLine.Writable c.toList) :
    Writable n (contents.map fun c => .node (.placeless n c) []) :=
  writable_map fun c hc => writable_cons.2 ⟨⟨rfl, h c hc⟩, writable_nil, writable_nil⟩

theorem Setting.WellFormed.writable {s : Setting} (h : s.WellFormed) : Writable 2 [s.tree] :=
  writable_cons.2 ⟨⟨rfl, LogicalLine.writable_quotedLine h.name h.values⟩, writable_nil,
    writable_nil⟩

theorem LinkType.WellFormed.writable {t : LinkType} (h : t.WellFormed) : Writable 1 [t.tree] :=
  Forest.writable_statement (Text.heads_of_mem (by decide)) (by simpa using h.name)
    (writable_map fun o ho => (h.options o ho).writable)

theorem Protocol.WellFormed.writable {p : Protocol} (h : p.WellFormed) : Writable 1 [p.tree] :=
  Forest.writable_statement (Text.heads_of_mem (by decide)) (by simpa using ⟨h.kind, h.method⟩)
    (writable_map fun o ho => (h.options o ho).writable)

theorem Commands.WellFormed.writable {c : Commands} (h : c.WellFormed) : Writable 1 c.forest :=
  writable_map fun e he => Forest.writable_statement e.1.heads_keyword (by simp)
    (Forest.writable_verbatim (h e he))

theorem Interface.WellFormed.writable {i : Interface} (h : i.WellFormed) : Writable 0 [i.tree] := by
  refine Forest.writable_statement (Text.heads_of_mem (by decide)) (by simpa using h.name) ?_
  refine writable_append.2 ⟨writable_map fun t ht => ?_, writable_append.2
    ⟨writable_map fun p hp => (h.protocols p hp).writable, h.commands.writable⟩⟩
  exact (h.type t (by simpa using ht)).writable

theorem Group.WellFormed.writable {g : Group} (h : g.WellFormed) : Writable 0 [g.tree] :=
  Forest.writable_statement (Text.heads_of_mem (by decide))
    (List.forall_mem_cons.2 ⟨h.name, h.dependencies⟩) h.commands.writable

theorem Entity.WellFormed.writable {e : Entity} (h : e.WellFormed) : Writable 0 [e.tree] := by
  cases e with
  | interface i => exact Interface.WellFormed.writable h
  | group g => exact Group.WellFormed.writable h

theorem Mapping.WellFormed.writable {m : Mapping} (h : m.WellFormed) : Writable 0 [m.tree] :=
  Forest.writable_statement (Text.heads_of_mem (by decide)) (by simpa using h.name)
    (Forest.writable_verbatim h.rules)

theorem NameSet.WellFormed.writable {name : String} {members : NameSet} (hname : Feedless name)
    (h : members.WellFormed) : Writable 0 [NameSet.tree name members] :=
  Forest.writable_statement (Text.heads_of_mem (by decide))
    (List.forall_mem_cons.2 ⟨hname, h.members⟩) writable_nil

/-- A well-formed configuration can be written. -/
theorem Config.WellFormed.writable {c : Config} (h : c.WellFormed) : Writable 0 c.forest := by
  refine writable_append.2 ⟨writable_map fun e he => ?_, writable_append.2
    ⟨writable_map fun e he => ?_, writable_map fun e he => ?_⟩⟩
  · exact (h.entities e he).2.writable
  · exact (h.mappings e he).2.writable
  · obtain ⟨hname, hmembers⟩ := h.allowLists e he
    exact hmembers.writable hname

end NetHooks
