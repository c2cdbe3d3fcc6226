import NetHooks.Context
import NetHooks.FileTree
import NetHooks.Path.Template
import NetHooks.Settings.Toml

/-!
# Settings

A run context is put together from defaults, an optional settings file and what the
command line says. The command line wins over the settings, and both over the defaults.
-/
namespace NetHooks

structure Settings where
  configFile? : Option String := none
  stateFile? : Option String := none
  hookRoot? : Option String := none
  verbose? : Option Bool := none
  deriving DecidableEq, Repr, Inhabited

/-- What the command line says. -/
structure Overrides where
  configFile? : Option String := none
  stateFile? : Option String := none
  hookRoot? : Option String := none
  verbose : Bool := false
  dumpEnvironment : Bool := false
  noAct : Bool := false
  deriving DecidableEq, Repr, Inhabited

inductive ContextError where
  | unreadable (path : String) (cause : SystemError)
  | malformed (path : String)
  | badPath (cause : ExpansionError)
  deriving DecidableEq, Repr

namespace ContextError

def message : ContextError → String
  | unreadable path cause => "Could not read settings file '" ++ path ++ "': " ++ cause.message
  | malformed path => "Failed to parse settings file '" ++ path ++ "'"
  | badPath cause => cause.message

/-- The text of the error under this one, which a chain of causes repeats. -/
def cause? : ContextError → Option String
  | unreadable _ cause => some cause.message
  | _ => none

end ContextError

namespace Settings

/-- Add one pair. A key is known, stands once and has a value of its kind. -/
def add (s : Settings) (key : String) (value : Toml.Value) : Option Settings :=
  match key, value with
  | "config_file", .text v =>
      if s.configFile?.isNone then some { s with configFile? := some v } else none
  | "state_file", .text v =>
      if s.stateFile?.isNone then some { s with stateFile? := some v } else none
  | "hook_root", .text v =>
      if s.hookRoot?.isNone then some { s with hookRoot? := some v } else none
  | "verbose", .truth b =>
      if s.verbose?.isNone then some { s with verbose? := some b } else none
  | _, _ => none

def parse (text : String) : Option Settings := do
  let pairs ← Toml.parse text
  pairs.foldlM (fun s (key, value) => s.add key value) {}

def load (tree : FileTree) (path : String) : Except ContextError Settings :=
  match tree.readText path with
  | .error e => .error (.unreadable path e)
  | .ok text =>
      match parse text with
      | some s => .ok s
      | none => .error (.malformed path)

/-- The settings file that is read when none is asked for, if it is there. -/
def defaultFile : String := "/etc/ifhook/ifhook.toml"

def discover (tree : FileTree) (vars : Variables) (asked? : Option String) :
    Except ContextError Settings :=
  match asked? with
  | some template =>
      match expandPath vars template with
      | .error e => .error (.badPath e)
      | .ok path => load tree path
  | none => if tree.isFile defaultFile then load tree defaultFile else .ok {}

end Settings

namespace Context

/-- The path that was asked for, or else the default. -/
def pick (vars : Variables) (asked? set? : Option String) (default : String) :
    Except ContextError String :=
  match asked?.or set? with
  | none => .ok default
  | some template => (expandPath vars template).mapError .badPath

def resolve (vars : Variables) (settings : Settings) (overrides : Overrides) :
    Except ContextError Context := do
  let d : Context := {}
  return {
    configFile := ← pick vars overrides.configFile? settings.configFile? d.configFile
    stateFile := ← pick vars overrides.stateFile? settings.stateFile? d.stateFile
    hookRoot := ← pick vars overrides.hookRoot? settings.hookRoot? d.hookRoot
    verbose := overrides.verbose || settings.verbose?.getD false
    dumpEnvironment := overrides.dumpEnvironment
    noAct := overrides.noAct
    searchPath := (vars.get? "PATH").getD d.searchPath }

end Context

end NetHooks
