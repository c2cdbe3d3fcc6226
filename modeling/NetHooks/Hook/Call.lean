import NetHooks.Config.Basic
import NetHooks.Context
import NetHooks.Hook.OptionKey
import NetHooks.Path

/-!
# Hook calls

What is asked of hooks in each phase of an interface or group, and the environment that
they are given. A call is a sweep of a hook directory or one command.
-/
namespace NetHooks

inductive Call where
  | sweep (directory : String) (order : Order) (environment : Environment)
  | command (text : String) (environment : Environment)
  deriving DecidableEq

def Call.environment : Call → Environment
  | sweep _ _ env => env
  | command _ env => env

/-- What a hook runs for. -/
inductive Subject where
  | interface (name : String)
  | group (name : String)
  deriving DecidableEq, Repr

namespace Subject

def key : Subject → String
  | interface _ => "IFACE"
  | group _ => "GROUP"

def name : Subject → String
  | interface name => name
  | group name => name

end Subject

namespace Environment

/-- The keys that every hook receives. -/
def base (context : Context) (subject : Subject) (logical : String) (mode : Mode)
    (phase : Phase) : Environment :=
  Catalog.ofList [
    (subject.key, subject.name),
    ("LOGICAL", logical),
    ("MODE", mode.keyword),
    ("PHASE", phase.keyword),
    ("PATH", context.searchPath),
    ("VERBOSE", if context.verbose then "1" else "0")]

/-- Layers of keys in one environment; a later layer wins. -/
def layered (layers : List Environment) : Environment :=
  layers.foldl Catalog.merge .empty

end Environment

namespace Context

def typeHookFolder (c : Context) : String :=
  Path.join c.hookRoot "iface.d"

def protocolHookFolder (c : Context) : String :=
  Path.join c.hookRoot "proto.d"

end Context

namespace Interface

/-- The keys of each protocol sweep of a phase, in the order of starting. -/
def protocolLayers (i : Interface) (phase : Phase) : List Environment :=
  if phase.sweepsProtocols then i.protocols.map (·.environment)
  else i.protocolKinds.map fun kind => Catalog.empty.insert (protocolHead ++ "_TYPE") kind

/-- The calls of one phase: the sweep for the type, the sweeps for the protocols, then the
commands. Stopping goes through the protocols backwards. -/
def phaseCalls (i : Interface) (context : Context) (instanceName : String) (mode : Mode)
    (phase : Phase) : List Call :=
  let base := Environment.base context (.interface instanceName) i.name mode phase
  let types := i.type?.toList.map fun t =>
    Call.sweep context.typeHookFolder mode.order (Environment.layered [base, t.environment])
  let protocols := (i.protocolLayers phase).map fun layer =>
    Call.sweep context.protocolHookFolder mode.order (Environment.layered [base, layer])
  let ordered := match mode with
    | .start => protocols
    | .stop => protocols.reverse
  types ++ ordered ++ (i.commands.get phase).map (Call.command · base)

/-- All calls of bringing an interface up or down. -/
def calls (i : Interface) (context : Context) (instanceName : String) (mode : Mode) : List Call :=
  mode.phases.flatMap (i.phaseCalls context instanceName mode)

end Interface

/-- The commands of a group in one of the phases around its dependencies. -/
def Group.phaseCalls (g : Group) (context : Context) (instanceName : String) (mode : Mode)
    (phase : Phase) : List Call :=
  (g.commands.get phase).map fun text =>
    Call.command text (Environment.base context (.group instanceName) g.name mode phase)

namespace Entity

/-- The calls before the dependencies. An interface has none, and all its calls stand here. -/
def callsBefore (e : Entity) (context : Context) (instanceName : String) (mode : Mode) :
    List Call :=
  match e with
  | interface i => i.calls context instanceName mode
  | group g => g.phaseCalls context instanceName mode mode.phaseBefore

/-- The calls after the dependencies. -/
def callsAfter (e : Entity) (context : Context) (instanceName : String) (mode : Mode) :
    List Call :=
  match e with
  | interface _ => []
  | group g => g.phaseCalls context instanceName mode mode.phaseAfter

end Entity

end NetHooks
