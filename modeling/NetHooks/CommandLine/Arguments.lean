import NetHooks.Settings.Basic

/-!
# Command-line arguments

An action, its targets, and options among them. An option takes its value from the rest of
its own argument or from the next one; flags may share one argument. Nothing but a target
may be given twice. After two hyphens everything is an action or a target.
-/
namespace NetHooks

/-- Why the arguments are not carried out: a fault, or a request for a text of its own. -/
inductive UsageError where
  | missingAction
  | unknownOption
  | missingValue
  /-- A value on an option that takes none. -/
  | unexpectedValue
  | repeatedOption
  | helpRequested
  | versionRequested
  deriving DecidableEq, Repr

namespace UsageError

/-- Nothing is wrong; a text was asked for. -/
def isRequest (e : UsageError) : Bool :=
  e == helpRequested || e == versionRequested

def message : UsageError → String
  | missingAction => "an action is required: up, down, list or query"
  | unknownOption => "an option is not known"
  | missingValue => "an option lacks its value"
  | unexpectedValue => "an option takes no value"
  | repeatedOption => "an option is given twice"
  | helpRequested =>
      "Usage: ifhook [OPTIONS] <ACTION> [TARGETS]...\n\n" ++
      "Actions:\n" ++
      "  up    (start)  activate the given targets\n" ++
      "  down  (stop)   deactivate the given targets\n" ++
      "  list  (ls)     show active instances\n" ++
      "  query (show)   describe definitions\n\n" ++
      "Options:\n" ++
      "  -a, --allow <NAME>        Restrict targets to the members of this allow-list\n" ++
      "  -v, --verbose             Print what runs\n" ++
      "  -e, --env                 Print the environment of every hook\n" ++
      "  -n, --no-act              Show what would run without running it\n" ++
      "  -i, --interfaces <PATH>   Interface definition file\n" ++
      "  -s, --state-file <PATH>   State file recording active instances\n" ++
      "  -H, --hook-root <PATH>    Directory containing the hook directories\n" ++
      "      --settings <PATH>     Settings file\n" ++
      "  -h, --help                Print help\n" ++
      "  -V, --version             Print version"
  | versionRequested => "ifhook 0.1.0"

end UsageError

/-- The options with a value. -/
inductive ValueOption where
  | allow
  | interfaces
  | stateFile
  | hookRoot
  | settings
  deriving DecidableEq, Repr

inductive Flag where
  | verbose
  | environment
  | noAct
  deriving DecidableEq, Repr

/-- What an option stands for. -/
inductive Meaning where
  | value (o : ValueOption)
  | flag (f : Flag)
  /-- A request in place of a run. -/
  | request (e : UsageError)
  deriving DecidableEq, Repr

namespace Meaning

def ofLetter? : Char → Option Meaning
  | 'a' => some (value .allow)
  | 'i' => some (value .interfaces)
  | 's' => some (value .stateFile)
  | 'H' => some (value .hookRoot)
  | 'v' => some (flag .verbose)
  | 'e' => some (flag .environment)
  | 'n' => some (flag .noAct)
  | 'h' => some (request .helpRequested)
  | 'V' => some (request .versionRequested)
  | _ => none

def ofName? : String → Option Meaning
  | "allow" => some (value .allow)
  | "interfaces" => some (value .interfaces)
  | "state-file" => some (value .stateFile)
  | "hook-root" => some (value .hookRoot)
  | "settings" => some (value .settings)
  | "verbose" => some (flag .verbose)
  | "env" => some (flag .environment)
  | "no-act" => some (flag .noAct)
  | "help" => some (request .helpRequested)
  | "version" => some (request .versionRequested)
  | _ => none

end Meaning

/-- What was read so far. An option is waiting from the moment it is named until the next
argument that could settle it; only then is it checked. -/
structure ArgumentsDraft where
  positionals : List String := []
  values : List (ValueOption × String) := []
  flags : List Flag := []
  waiting : Option (ValueOption × Option String) := none
  deriving DecidableEq, Repr

namespace ArgumentsDraft

def addValue (d : ArgumentsDraft) (o : ValueOption) (v : String) :
    Except UsageError ArgumentsDraft :=
  if (d.values.lookup o).isSome then .error .repeatedOption
  else .ok { d with values := d.values ++ [(o, v)] }

/-- Check the option that is waiting. -/
def settle (d : ArgumentsDraft) : Except UsageError ArgumentsDraft :=
  match d.waiting with
  | none => .ok d
  | some (_, none) => .error .missingValue
  | some (o, some v) => { d with waiting := none }.addValue o v

def addFlag (d : ArgumentsDraft) (f : Flag) : Except UsageError ArgumentsDraft := do
  let d ← d.settle
  if d.flags.contains f then .error .repeatedOption else .ok { d with flags := d.flags ++ [f] }

def addPositional (d : ArgumentsDraft) (s : String) : Except UsageError ArgumentsDraft := do
  let d ← d.settle
  return { d with positionals := d.positionals ++ [s] }

/-- Name an option, with the value that stands in its own argument. -/
def addOption (d : ArgumentsDraft) (o : ValueOption) (attached? : Option String) :
    Except UsageError ArgumentsDraft := do
  let d ← d.settle
  match attached? with
  | some v => d.addValue o v
  | none => return { d with waiting := some (o, none) }

def addRequest (d : ArgumentsDraft) (e : UsageError) : Except UsageError ArgumentsDraft := do
  let _ ← d.settle
  .error e

/-- The letters after one hyphen. The first that takes a value takes the rest for it, less
an equals sign in front. -/
def addLetters (d : ArgumentsDraft) : List Char → Except UsageError ArgumentsDraft
  | [] => .ok d
  | c :: rest =>
      match Meaning.ofLetter? c with
      | none => .error .unknownOption
      | some (.flag f) => do (← d.addFlag f).addLetters rest
      | some (.request e) => d.addRequest e
      | some (.value o) =>
          match rest with
          | [] => d.addOption o none
          | '=' :: v => d.addOption o (some (String.ofList v))
          | v => d.addOption o (some (String.ofList v))

/-- What stands after two hyphens, with a value after an equals sign. -/
def addNamed (d : ArgumentsDraft) (s : List Char) : Except UsageError ArgumentsDraft :=
  let attached? := match s.dropWhile (· != '=') with
    | [] => none
    | _ :: v => some (String.ofList v)
  match Meaning.ofName? (String.ofList (s.takeWhile (· != '='))), attached? with
  | none, _ => .error .unknownOption
  | some (.value o), v? => d.addOption o v?
  | some _, some _ => .error .unexpectedValue
  | some (.flag f), none => d.addFlag f
  | some (.request e), none => d.addRequest e

/-- An argument that is no option: the value that is waited for, or a positional. -/
def addPlain (d : ArgumentsDraft) (s : String) : Except UsageError ArgumentsDraft :=
  match d.waiting with
  | some (o, none) => .ok { d with waiting := some (o, some s) }
  | _ => d.addPositional s

/-- Read the arguments from the first on. -/
def read (d : ArgumentsDraft) : List String → Except UsageError ArgumentsDraft
  | [] => d.settle
  | s :: rest =>
      match s.toList with
      | ['-', '-'] => do (← rest.foldlM addPositional d).settle
      | '-' :: '-' :: name => do (← d.addNamed name).read rest
      | '-' :: c :: letters => do (← d.addLetters (c :: letters)).read rest
      | _ => do (← d.addPlain s).read rest

end ArgumentsDraft

structure Arguments where
  action : String
  targets : List String
  /-- The allow-list that restricts the targets. -/
  allow? : Option String
  settings? : Option String
  overrides : Overrides
  deriving DecidableEq, Repr

namespace Arguments

def parse (args : List String) : Except UsageError Arguments := do
  let d ← ({} : ArgumentsDraft).read args
  match d.positionals with
  | [] => .error .missingAction
  | action :: targets =>
      return {
        action
        targets
        allow? := d.values.lookup .allow
        settings? := d.values.lookup .settings
        overrides := {
          configFile? := d.values.lookup .interfaces
          stateFile? := d.values.lookup .stateFile
          hookRoot? := d.values.lookup .hookRoot
          verbose := d.flags.contains .verbose
          dumpEnvironment := d.flags.contains .environment
          noAct := d.flags.contains .noAct } }

end Arguments

end NetHooks
