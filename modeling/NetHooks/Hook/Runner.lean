import NetHooks.Activation.Session
import NetHooks.Hook.Folder
import NetHooks.Shell.Execution
import NetHooks.Shell.Quoted
import NetHooks.Terminal

/-!
# Running hooks

The invoker that really starts hooks, one after another, in a world. The status of a hook
is reported and stops nothing.
-/
namespace NetHooks

/-- A program that can be started: a path and the operands after it. -/
structure Program where
  path : String
  operands : List String
  deriving DecidableEq, Repr

namespace Program

def ofHook (path : String) : Program := ⟨path, []⟩

/-- The shell on one command. -/
def ofCommand (text : String) : Program := ⟨Shell.Image.shellPath, ["-c", text]⟩

/-- The entries of an environment as a process finds them: each is one text, and its name
ends at the first equals sign. -/
def block (env : Environment) : List (Octets × Octets) :=
  env.entries.map fun (name, value) =>
    let entry := Octets.ofString (name ++ "=" ++ value)
    (entry.takeWhile (· != '='), (entry.dropWhile (· != '=')).drop 1)

/-- Some text cannot be handed to a process. -/
def holdsNul (p : Program) (env : Environment) : Bool :=
  (p.path :: p.operands ++ env.entries.flatMap fun (name, value) => [name, value]).any
    (·.contains '\x00')

/-- Start a program and wait for its end. -/
def start (p : Program) (env : Environment) (w : World) :
    Except SystemError (ExitStatus × World) :=
  if p.holdsNul env then .error .nulInData
  else
    let path := Octets.ofString p.path
    (Shell.Image.load w.tree path path (p.operands.map Octets.ofString) (block env)).map
      fun image => Shell.execute w image (block env)

end Program

namespace Hook

/-- The environment as it is printed, under its title. -/
def environmentLines (t : Terminal) (label : String) (env : Environment) : List String :=
  t.paint .dim ("# environment for " ++ label) ::
    env.entries.map fun (name, value) => name ++ "=" ++ (Shell.quote? value).getD value

def failureText (label : String) (status : ExitStatus) : String :=
  "'" ++ label ++ "' exited with " ++ status.toText

/-- What is shown when a hook starts. -/
def startLine (t : Terminal) (label : String) : String :=
  t.paint .blue "→" ++ " " ++ t.paint .green label

def warningLine (t : Terminal) (text : String) : String :=
  t.paint .yellow "warning:" ++ " " ++ text

/-- What came of one hook: why it did not start, what was logged, and the world. -/
structure Result where
  failure : Option SystemError
  log : List LogEntry
  world : World

/-- Run one hook under its label. -/
def run (context : Context) (t : Terminal) (label : String) (program : Program)
    (env : Environment) (w : World) : Result :=
  let w := if context.dumpEnvironment then (environmentLines t label env).foldl World.print w else w
  if context.noAct then
    ⟨none, [], w.print (t.paint .yellow "would run" ++ " " ++ t.paint .green label)⟩
  else
    let w := if context.verbose then w.print (startLine t label) else w
    match program.start env w with
    | .error e => ⟨some e, [], w⟩
    | .ok (status, w) =>
        if status.isSuccess then ⟨none, [], w⟩
        else
          let text := failureText label status
          let w := if context.verbose then w.print (warningLine t text) else w
          ⟨none, [⟨.warn, text⟩], w⟩

/-- Run the hooks one after another. One that does not start is logged. -/
def runAll (context : Context) (t : Terminal) (env : Environment) :
    List String → World → List LogEntry × World
  | [], w => ([], w)
  | path :: rest, w =>
      let r := run context t path (.ofHook path) env w
      let failed := r.failure.toList.map fun e => ⟨.warn, (HookError.unstarted path e).message⟩
      let (log, w) := runAll context t env rest r.world
      (r.log ++ failed ++ log, w)

/-- Carries calls out in the world. -/
def invoker (context : Context) (t : Terminal) : Invoker World
  | .sweep directory order env, w =>
      let (log, w) := runAll context t env (order.arrange (w.tree.hooks directory)) w
      ⟨none, log, w⟩
  | .command text env, w =>
      let r := run context t text (.ofCommand text) env w
      ⟨r.failure.map (.unstarted text ·), r.log, r.world⟩

end Hook

end NetHooks
