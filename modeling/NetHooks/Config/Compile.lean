import NetHooks.Config.Basic
import NetHooks.Forest
import NetHooks.Hook.OptionKey

/-!
# Compiling forests

The configuration that a forest declares. Each root is one statement; everything that
can be checked before a hook runs is checked here, in the order of the lines.
-/
namespace NetHooks

namespace Tree

def missing (t : Tree) (expected : Operand) : SourceError :=
  .missingOperand t.keyword expected t.location

def excess (t : Tree) : SourceError :=
  .tooManyOperands t.keyword t.location

/-- Refuse an indented block. -/
def noBlock (t : Tree) : Except SourceError Unit :=
  if t.children.isEmpty then .ok () else .error (.unexpectedBlock t.keyword t.location)

/-- The one name after the keyword. -/
def singleName (t : Tree) : Except SourceError String := do
  match ← t.words with
  | [_, name] => .ok name
  | [_] => .error (t.missing .name)
  | _ => .error t.excess

/-- The content of a line that has no block. -/
def verbatim (t : Tree) : Except SourceError String := do
  t.noBlock
  return t.content

/-- The commands of a phase line: the text after the keyword, then each line under it. -/
def phaseCommands (t : Tree) : Except SourceError (List String) := do
  let under ← t.children.mapM verbatim
  return (if t.rest.isEmpty then [] else [t.rest]) ++ under

/-- A line under a type or a protocol. -/
def setting (t : Tree) : Except SourceError Setting := do
  t.noBlock
  match ← t.words with
  | [] => .error (t.missing .option)
  | name :: values => return ⟨name, values⟩

/-- The options of a type or protocol line, each with the place of its own line. -/
def settings (t : Tree) : Except SourceError (List Setting) :=
  t.children.mapM setting

end Tree

/-- Add one key for each option, and refuse a key that is taken. The places are those of
the option lines. -/
def addOptionKeys (head : String) (env : Environment) :
    List (Location × Setting) → Except SourceError Environment
  | [] => .ok env
  | (l, s) :: rest =>
      let key := optionKey head s.name
      if env.contains key then .error (.keyCollision s.name key l)
      else addOptionKeys head (env.insert key (" ".intercalate s.values)) rest

namespace Tree

def linkType (t : Tree) : Except SourceError LinkType := do
  match ← t.words with
  | [_, name] =>
      let options ← t.settings
      let reserved : Environment := Catalog.empty.insert (typeHead ++ "_TYPE") name
      let env ← addOptionKeys typeHead reserved ((t.children.map location).zip options)
      return ⟨name, options, env⟩
  | [_] => .error (t.missing .typeName)
  | _ => .error t.excess

def protocol (t : Tree) : Except SourceError Protocol := do
  match ← t.words with
  | [_, kind, method] =>
      let options ← t.settings
      let reserved : Environment :=
        (Catalog.empty.insert (protocolHead ++ "_TYPE") kind).insert
          (protocolHead ++ "_METHOD") method
      let env ← addOptionKeys protocolHead reserved ((t.children.map location).zip options)
      return ⟨kind, method, options, env⟩
  | [_] | [_, _] => .error (t.missing .protocol)
  | _ => .error t.excess

/-- What the lines under an interface have declared so far; the type with its place. -/
structure InterfaceBody where
  type? : Option (LinkType × Location)
  protocols : List Protocol
  commands : Commands

/-- Add one line under an interface. -/
def addToInterface (name : String) (body : InterfaceBody) (t : Tree) :
    Except SourceError InterfaceBody :=
  match Phase.ofKeyword? t.keyword with
  | some phase => do
      let commands ← t.phaseCommands
      return { body with commands := body.commands.add phase commands }
  | none =>
      if t.keyword = "type" then
        match body.type? with
        | some (_, first) => .error (.duplicate .type name first t.location)
        | none => do
            let type ← t.linkType
            return { body with type? := some (type, t.location) }
      else if t.keyword = "proto" then do
        let protocol ← t.protocol
        return { body with protocols := body.protocols ++ [protocol] }
      else .error (.unknownKeyword t.keyword (.interface name) t.location)

/-- Each kind once, where it first occurs. -/
def distinctKinds (protocols : List Protocol) : List String :=
  protocols.foldl (fun kinds p => if kinds.contains p.kind then kinds else kinds ++ [p.kind]) []

def interface (t : Tree) : Except SourceError Interface := do
  let name ← t.singleName
  let body ← t.children.foldlM (addToInterface name) ⟨none, [], .empty⟩
  return {
    name
    type? := body.type?.map (·.1)
    protocols := body.protocols
    protocolKinds := distinctKinds body.protocols
    commands := body.commands
    location := t.location }

/-- Add one line under a group. -/
def addToGroup (name : String) (commands : Commands) (t : Tree) : Except SourceError Commands :=
  match (Phase.ofKeyword? t.keyword).filter Phase.inGroup with
  | some phase => do
      let added ← t.phaseCommands
      return commands.add phase added
  | none => .error (.unknownKeyword t.keyword (.group name) t.location)

def group (t : Tree) : Except SourceError Group := do
  match ← t.words with
  | _ :: name :: dependencies =>
      let commands ← t.children.foldlM (addToGroup name) Commands.empty
      return ⟨name, dependencies, commands, t.location⟩
  | _ => .error (t.missing .name)

def mapping (t : Tree) : Except SourceError Mapping := do
  let name ← t.singleName
  let rules ← t.children.mapM verbatim
  return ⟨name, rules, t.location⟩

/-- The name of an allow-list and its members. -/
def allowed (t : Tree) : Except SourceError (String × List String) := do
  t.noBlock
  match ← t.words with
  | _ :: name :: m :: ms => return (name, m :: ms)
  | _ => .error (t.missing .members)

end Tree

namespace Config

def addEntity (c : Config) (e : Entity) : Except SourceError Config :=
  match c.entities.get? e.name with
  | some first => .error (.duplicate .entity e.name first.location e.location)
  | none => .ok { c with entities := c.entities.insert e.name e }

def addMapping (c : Config) (m : Mapping) : Except SourceError Config :=
  match c.mappings.get? m.name with
  | some first => .error (.duplicate .mapping m.name first.location m.location)
  | none => .ok { c with mappings := c.mappings.insert m.name m }

/-- Add members to an allow-list, which begins empty. -/
def addAllowed (c : Config) (name : String) (members : List String) : Config :=
  let old := (c.allowLists.get? name).getD .empty
  { c with allowLists := c.allowLists.insert name (members.foldl (·.insert · ()) old) }

/-- Add one statement. -/
def addRoot (c : Config) (t : Tree) : Except SourceError Config :=
  if t.keyword = "allow" then do
    let (name, members) ← t.allowed
    return c.addAllowed name members
  else if t.keyword = "iface" ∨ t.keyword = "interface" then do
    c.addEntity (.interface (← t.interface))
  else if t.keyword = "group" then do
    c.addEntity (.group (← t.group))
  else if t.keyword = "mapping" then do
    c.addMapping (← t.mapping)
  else .error (.unknownKeyword t.keyword .top t.location)

def compile (f : Forest) : Except SourceError Config :=
  f.foldlM addRoot empty

/-- Whether two forests declare the same in the same places, if both declare anything. -/
def compiledAlike? (f g : Forest) : Option Bool :=
  match compile f.normal, compile g.normal with
  | .ok c, .ok d => some (c == d)
  | _, _ => none

end Config

end NetHooks
