import NetHooks.CommandLine.Basic

/-!
# Describing definitions

What the definition file says of each name, or without names what kind of thing each of
its names is.
-/
namespace NetHooks

/-- A line of a description: a label in its column, and a text. -/
def labelled (label text : String) : String :=
  padded 14 label ++ " " ++ text

def Setting.line (s : Setting) : String :=
  labelled "" ("  " ++ s.name ++ " " ++ " ".intercalate s.values)

/-- How many commands there are in each phase that has any. -/
def Commands.countLines (c : Commands) : List String :=
  (Phase.all.filter fun p => !(c.get p).isEmpty).map fun p =>
    labelled (p.keyword ++ ":") (toString (c.get p).length ++ " command(s)")

def LinkType.lines (t : LinkType) : List String :=
  labelled "type:" t.name :: t.options.map Setting.line

def Protocol.lines (p : Protocol) : List String :=
  labelled "proto:" (p.kind ++ " " ++ p.method) :: p.options.map Setting.line

def Interface.lines (i : Interface) : List String :=
  i.type?.toList.flatMap LinkType.lines ++ i.protocols.flatMap Protocol.lines ++
    i.commands.countLines

def Group.lines (g : Group) : List String :=
  labelled "dependencies:"
    (if g.dependencies.isEmpty then "(none)" else " ".intercalate g.dependencies) ::
    g.commands.countLines

def kindLine (kind : String) (l : Location) : String :=
  labelled "kind:" (kind ++ " (" ++ l.toText ++ ")")

def Entity.description (e : Entity) : List String :=
  kindLine e.label e.location :: match e with
    | .interface i => i.lines
    | .group g => g.lines

def Mapping.description (m : Mapping) : List String :=
  kindLine "mapping" m.location :: m.rules.map (labelled "rule:")

namespace Config

/-- The description of the definition, or else of the mapping, of a name. -/
def describe? (c : Config) (name : String) : Option (List String) :=
  ((c.entity? name).map Entity.description).or ((c.mapping? name).map Mapping.description)

/-- Every name with its kind, in order. A name can be both defined and mapped. -/
def summary (c : Config) : List (String × String) :=
  let all := c.entities.values.map (fun e => (e.name, e.label)) ++
    c.mappings.names.map (·, "mapping")
  all.mergeSort fun a b => decide (a.1 < b.1 ∨ a.1 = b.1 ∧ a.2 ≤ b.2)

end Config

namespace Request

def summaryLine (r : Request) (e : String × String) : String :=
  "  " ++ r.terminal.paintPadded .cyan 20 e.1 ++ " " ++ r.terminal.paint .dim e.2

def unknownName (name : String) : String :=
  (Diagnostic.unknown name).message

/-- The definition that a target is about. -/
def definitionOf (target : String) : String :=
  let t := Target.split target
  t.logical?.getD t.instanceName

/-- Describe one target, or report that its name is not known. -/
def describeTarget (r : Request) (config : Config) (w : World) (target : String) : World :=
  let name := definitionOf target
  match config.describe? name with
  | some lines =>
      (lines.map ("  " ++ ·)).foldl World.print
        (w.print ("\n--- " ++ r.terminal.paint .yellow name ++ " ---"))
  | none => w.complain (r.warning (unknownName name))

/-- What is logged of a target whose name is not known. -/
def unknownLog (config : Config) (target : String) : Option LogEntry :=
  let name := definitionOf target
  if (config.describe? name).isSome then none else some ⟨.warn, unknownName name⟩

/-- Describe the selected targets, or sum up all names. -/
def describe (r : Request) (w : World) : Conclusion :=
  match (do let config ← r.readConfig w.tree; return (config, ← r.select config) :
      Except Failure (Config × Selection)) with
  | .error f => .failed f [] w
  | .ok (config, selection) =>
      if selection.targets.isEmpty then
        .done [] ((config.summary.map r.summaryLine).foldl World.print w)
      else
        .done (selection.targets.filterMap (unknownLog config))
          (selection.targets.foldl (r.describeTarget config) w)

end Request

end NetHooks
