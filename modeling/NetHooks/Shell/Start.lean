import NetHooks.Shell.Builtin.Names
import NetHooks.Shell.Builtin.Options
import NetHooks.Shell.Child

/-!
# Starting a shell

A shell takes its variables from the environment, and its options, its script and its
parameters from the words that it is started with.
-/
namespace NetHooks.Shell

namespace Start

/-- The variables that every shell has. -/
def ownVariables : List (String × String) :=
  [("IFS", " \t\n"), ("OPTIND", "1"), ("PATH", String.ofList usualSearchPath), ("PS1", "# "),
    ("PS2", "> "), ("PS4", "+ ")]

/-- The process as a shell that has just been started. -/
def fresh (p : Process) (image : Image) : Process where
  number := p.number
  parent := p.parent
  root := p.number
  title := image.title
  endpoints := p.endpoints
  ignored := (List.range (Signal.last + 1)).filter p.ignores
  place := p.place
  directory := Octets.ofString (Place.toPath p.place)
  mask := p.mask
  bindings := ownVariables.foldl (fun vars (name, value) =>
    vars.insert name { value? := some value.toList, isFixed := true }) .empty

/-- Give a variable a value of the shell's own, and leave its marks. -/
def give (name value : Octets) : Run Unit :=
  changeProcess fun p => p.setVariable name { p.binding name with value? := some value }

/-- Take the variables from the environment whose names are names. Separators of fields and the
index of options are not taken. -/
def takeEnvironment (environment : List (Octets × Octets)) : Run Unit := do
  environment.forM fun (name, value) =>
    if isName name then assign name value true else return
  give "IFS".toList " \t\n".toList
  give "OPTIND".toList ['1']
  changeProcess (·.restartOptions 1)
  give "PPID".toList (Octets.ofNat (← process).parent)

/-- Take the path of the directory from the environment, if it leads there. -/
def takeDirectory : Run Unit := do
  let m ← get
  let p := m.process
  let directory := match p.value? "PWD".toList with
    | some path =>
        if path.head? = some '/' && (m.tree.resolve (Octets.decode path)).toOption = some p.place then
          path
        else p.directory
    | none => p.directory
  changeProcess ({ · with directory })
  assign "PWD".toList directory true

/-- Where a script comes from. -/
inductive Source where
  | text (text : Octets)
  | file (path : Octets)
  | input
  deriving DecidableEq, Repr

/-- Take options, parameters and the sources of scripts from words. -/
def takeWords (ws : List Octets) : Run (List Source) := do
  let r ← Builtin.switchWords true true [] ws
  refuse
  let p ← process
  let begin_ (sources : List Source) (title : Octets) (parameters : List Octets) :
      Run (List Source) := do
    changeProcess ({ · with title, parameters })
    return sources
  match r.hasScript, r.operands with
  | true, [] => fail "-c requires an argument".toList
  | true, text :: ws =>
      let sources := .text text :: if p.isOn 's' then [.input] else []
      match ws with
      | [] => begin_ sources p.title []
      | name :: parameters => begin_ sources name parameters
  | false, [] =>
      changeProcess (·.setOption 's' true)
      begin_ [.input] p.title []
  | false, path :: parameters =>
      if p.isOn 's' then begin_ [.input] p.title (path :: parameters)
      else begin_ [.file path] p.title parameters
where
  refuse : Run Unit := Builtin.refuseJobControl

/-- What is read from an endpoint up to its end. -/
def readAll (e : Endpoint) : Run Octets := do
  let text := ((← get).system.unread? e).getD []
  changeSystem (·.consume e text.length true)
  return text

/-- The text of a file. A directory holds none. -/
def readFile (path : Octets) : Run Octets := do
  let lastNumber := (← get).system.lastNumber
  let text ← readAll (← Diversion.openFile .read path)
  Diversion.tidy lastNumber
  return text

/-- Run the script that a source gives. A shell is called by the name of its file, once that is
open. -/
def runSource (x : Interpreter) : Source → Run Unit
  | .text text => do
      let _ ← x.runText {} text
  | .file path => do
      let text ← readFile path
      changeProcess ({ · with title := path })
      let _ ← x.runFile text
  | .input => do
      match (← process).endpoint? 0 with
      | some e =>
          let _ ← x.runFile (← readAll e)
      | none => return

/-- Run a shell to its end. -/
def shell (x : Interpreter) (image : Image) (environment : List (Octets × Octets)) :
    Run ExitStatus := do
  changeProcess fun p => { fresh p image with title := "sh".toList }
  x.toEnd do
    takeEnvironment environment
    takeDirectory
    changeProcess ({ · with title := image.title })
    (← takeWords image.operands).forM (runSource x)

end Start

end NetHooks.Shell
