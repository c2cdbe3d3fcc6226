import NetHooks.Catalog
import NetHooks.Config.Phase
import NetHooks.Source.Error

/-!
# Configurations

What a source declares: interfaces and groups under one set of names, mappings, and
allow-lists.
-/
namespace NetHooks

/-- Keys and values handed to a hook. -/
abbrev Environment := Catalog String

/-- The commands of a definition by phase. A phase that was mentioned without a command
has the empty list, one that was not mentioned has none. -/
structure Commands where
  slots : Phase → Option (List String)

namespace Commands

def empty : Commands := ⟨fun _ => none⟩

instance : Inhabited Commands := ⟨empty⟩

def get (c : Commands) (p : Phase) : List String :=
  (c.slots p).getD []

/-- Add commands after those that the phase has. -/
def add (c : Commands) (p : Phase) (commands : List String) : Commands :=
  ⟨fun q => if q = p then some (c.get p ++ commands) else c.slots q⟩

def toList (c : Commands) : List (Phase × List String) :=
  Phase.all.filterMap fun p => (c.slots p).map (p, ·)

theorem ext_of_all {c d : Commands} (h : ∀ p ∈ Phase.all, c.slots p = d.slots p) : c = d := by
  have : c.slots = d.slots := funext fun p => h p p.mem_all
  cases c; cases d; simp_all

instance : DecidableEq Commands := fun c d =>
  decidable_of_iff (∀ p ∈ Phase.all, c.slots p = d.slots p)
    ⟨ext_of_all, fun h _ _ => by rw [h]⟩

end Commands

/-- A named option and its values. -/
structure Setting where
  name : String
  values : List String
  deriving DecidableEq, Repr, Inhabited

/-- What kind of interface it is. -/
structure LinkType where
  name : String
  options : List Setting
  environment : Environment
  deriving DecidableEq

/-- One way in which an interface is addressed. -/
structure Protocol where
  kind : String
  method : String
  options : List Setting
  environment : Environment
  deriving DecidableEq

structure Interface where
  name : String
  type? : Option LinkType
  /-- In the order of the source. -/
  protocols : List Protocol
  /-- The kinds of protocol, each where it first occurs. -/
  protocolKinds : List String
  commands : Commands
  location : Location
  deriving DecidableEq

structure Group where
  name : String
  /-- The targets brought up in this order and down in the reverse order. -/
  dependencies : List String
  commands : Commands
  location : Location
  deriving DecidableEq

/-- A name that is to be resolved by rules. The rules are kept and give no name yet. -/
structure Mapping where
  name : String
  rules : List String
  location : Location
  deriving DecidableEq

/-- The name of the definition that an instance stands for. -/
def Mapping.resolve? (_ : Mapping) (_instance : String) : Option String := none

inductive Entity where
  | interface (i : Interface)
  | group (g : Group)
  deriving DecidableEq

namespace Entity

def name : Entity → String
  | interface i => i.name
  | group g => g.name

def label : Entity → String
  | interface _ => "interface"
  | group _ => "group"

def location : Entity → Location
  | interface i => i.location
  | group g => g.location

/-- The targets that are brought up with it, in the order of bringing up. -/
def dependencies : Entity → List String
  | interface _ => []
  | group g => g.dependencies

end Entity

abbrev NameSet := Catalog Unit

structure Config where
  entities : Catalog Entity
  mappings : Catalog Mapping
  allowLists : Catalog NameSet
  deriving DecidableEq

namespace Config

def empty : Config := ⟨.empty, .empty, .empty⟩

def entity? (c : Config) (name : String) : Option Entity :=
  c.entities.get? name

def mapping? (c : Config) (name : String) : Option Mapping :=
  c.mappings.get? name

def allowList? (c : Config) (name : String) : Option NameSet :=
  c.allowLists.get? name

end Config

end NetHooks
