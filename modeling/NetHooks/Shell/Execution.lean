import NetHooks.ExitStatus
import NetHooks.Shell.Invocation
import NetHooks.World

/-!
# Shell execution

How commands of every kind run. A command inside another one is run with less depth, and a
loop goes no more than so many rounds, so every script ends; one that goes deeper than the
depth ends by a signal, as one does whose stack is full.
-/
namespace NetHooks.Shell

namespace Interpreter

/-! ### Loops -/

/-- How the commands of a loop end it or go on with it: a loop that is to be left, or resumed,
counts down the loops that are. -/
def loopSkip : Run (Option Skip) := do
  let skip? := (← process).skip?
  let counted (left : Nat) (skip : Nat → Skip) : Run (Option Skip) := do
    if left ≤ 1 then
      changeProcess ({ · with skip? := none })
      return some (skip 1)
    else
      changeProcess ({ · with skip? := some (skip (left - 1)) })
      return some (.breakOut 1)
  match skip? with
  | some (.breakOut n) => counted n .breakOut
  | some (.resume n) => counted n .resume
  | other => return other

/-- The loop goes on. -/
def goesOn : Option Skip → Bool
  | none | some (.resume _) => true
  | _ => false

/-- After so many rounds, what waits in the background has its turn. -/
def patience : Nat := 256

def takeTurns (x : Interpreter) (rounds : Nat) : Run Unit := do
  if rounds % patience = 0 then x.settle true true

/-- Repeat a body as long as a condition succeeds, or fails. -/
def repeatBody (x : Interpreter) (tested succeeds : Bool) (condition body : Command) :
    Nat → Nat → Run Nat
  | 0, _ => exhausted
  | rounds + 1, status => do
      x.takeTurns rounds
      let found ← x.evaluate { tested := true } condition
      let skip? ← loopSkip
      if skip?.isSome then
        let status := if skip? = some (.giveBack true) then found else status
        if goesOn skip? then repeatBody x tested succeeds condition body rounds status
        else return status
      else if (found == 0) != succeeds then return status
      else
        let status ← x.evaluate { tested } body
        if goesOn (← loopSkip) then repeatBody x tested succeeds condition body rounds status
        else return status

/-- Run a body once for each value of a variable. -/
def repeatFor (x : Interpreter) (tested : Bool) (name : Octets) (body : Command) :
    Nat → List Octets → Run Nat
  | status, [] => return status
  | _, value :: values => do
      assign name value false
      x.takeTurns values.length
      let status ← x.evaluate { tested } body
      if goesOn (← loopSkip) then repeatFor x tested name body status values
      else return status

/-- Run something as the body of a loop. -/
def looping (act : Run Nat) : Run Nat := do
  changeProcess fun p => { p with loops := p.loops + 1 }
  let status ← act
  changeProcess fun p => { p with loops := p.loops - 1 }
  return status

/-- The first of the arms with a pattern that fits. -/
def chooseArm (x : Interpreter) (subject : Octets) :
    List (List Word × Command) → Run (Option Command)
  | [] => return none
  | (patterns, body) :: arms => do
      if ← fitsOne patterns then return some body
      else if (← process).skip?.isSome then return none
      else chooseArm x subject arms
where
  fitsOne : List Word → Run Bool
    | [] => return false
    | w :: ws => do
        if Pattern.fits (← Expansion.pattern x.substitute w) subject then return true
        else fitsOne ws

/-! ### Commands behind redirections -/

def setLine (line : Nat) : Run Unit :=
  changeProcess ({ · with line })

/-- Run a command behind redirections; its status, and whether it ran at all. -/
def runRedirected (x : Interpreter) (tested : Bool) (line : Nat) (body : Command)
    (rs : List Redirection) : Run (Nat × Bool) := do
  setLine line
  let ds ← rs.mapM (Diversion.ofRedirection x.substitute)
  let before ← Diversion.before ds
  let status ← Diversion.carryOutAll x.substitute ds
  if status ≠ 0 then
    before.restore
    return (status, false)
  else
    let status ← before.around (x.evaluate { tested } body)
    before.restore
    return (status, true)

/-- Run a command as a process of its own; in this one, if it has nothing else to do. -/
def runSubshell (x : Interpreter) (at_ : Stance) (line : Nat) (body : Command)
    (rs : List Redirection) : Run Nat := do
  setLine line
  let ds ← rs.mapM (Diversion.ofRedirection x.substitute)
  let act : Run Unit := do
    ds.forM (Diversion.carryOut x.substitute)
    x.runLast at_.tested body
  if at_.last && !(← process).hasTraps then
    act
    return 0
  else waited [← x.fork id act]

/-- Start a command in the background. -/
def runInBackground (x : Interpreter) (line : Nat) (body : Command) (rs : List Redirection) :
    Run Nat := do
  setLine line
  let ds ← rs.mapM (Diversion.ofRedirection x.substitute)
  startWaiting 1 (.single (if ds.isEmpty then body
    else .subshell line body (ds.map (·.toRedirection))))
  return 0

/-- The programs that a pipeline names are looked for beforehand. -/
def lookAhead (commands : List Command) : Run Unit :=
  commands.forM fun c => do
    match c with
    | .simple _ _ (w :: _) _ =>
        if let some name := Word.plain? w then
          if isName name && !Shell.isBuiltin name && ((← process).function? name).isNone then
            let _ ← findPath none name
    | _ => return

/-! ### All commands -/

/-- Run a command: its status, and whether a failure of it ends the shell under the option for
that. -/
def outcome (x : Interpreter) (at_ : Stance) (c : Command) : Run (Nat × Bool) := do
  let tested := at_.tested
  match c with
  | .nothing => return (0, false)
  | .simple line assignments words rs => return (← x.runSimple at_ line assignments words rs, true)
  | .pipeline background commands =>
      lookAhead commands
      if background then
        startWaiting commands.length (.pipeline tested commands)
        return (0, true)
      else return (← x.pipeline tested commands, true)
  | .background line body rs => return (← x.runInBackground line body rs, true)
  | .subshell line body rs => return (← x.runSubshell at_ line body rs, true)
  | .redirected line body rs =>
      let (status, ran) ← x.runRedirected tested line body rs
      return (status, !ran)
  | .negation c =>
      let status ← x.evaluate { tested := true } c
      if (← process).skip?.isSome then return (status, false)
      else return (if status = 0 then 1 else 0, false)
  | .sequence first second =>
      let status ← x.evaluate { tested } first
      if (← process).skip?.isSome then return (status, false)
      else return (← x.evaluate at_ second, false)
  | .both first second =>
      let status ← x.evaluate { tested := true } first
      if status ≠ 0 || (← process).skip?.isSome then return (status, false)
      else return (← x.evaluate at_ second, false)
  | .either first second =>
      let status ← x.evaluate { tested := true } first
      if status = 0 || (← process).skip?.isSome then return (status, false)
      else return (← x.evaluate at_ second, false)
  | .branch condition yes no? =>
      let status ← x.evaluate { tested := true } condition
      if (← process).skip?.isSome then return (status, false)
      else if status = 0 then return (← x.evaluate at_ yes, false)
      else match no? with
        | some no => return (← x.evaluate at_ no, false)
        | none => return (0, false)
  | .loop succeeds condition body =>
      return (← looping (x.repeatBody tested succeeds condition body x.rounds 0), false)
  | .each line name words body =>
      setLine line
      let values ← Expansion.allFields x.substitute words
      return (← looping (x.repeatFor tested name body 0 values), false)
  | .choice line subject arms =>
      setLine line
      let subject ← Expansion.text x.substitute subject
      match ← x.chooseArm subject arms with
      | some .nothing | none => return (0, false)
      | some body => return (← x.evaluate at_ body, false)
  | .define _ name body =>
      changeProcess fun p => { p with functions := p.functions.insert (key name) body }
      return (0, false)

/-- The command runs at all: the option that lets nothing run is off. -/
def runs (c : Command) : Run Bool := do
  return !(c matches .nothing) && !(← process).isOn 'n'

/-- Run a command; its status. Signals are answered before it and after it. -/
def step (x : Interpreter) (at_ : Stance) (c : Command) : Run Nat := do
  if ← runs c then
    x.answerSignals
    let (status, ends) ← x.outcome at_ c
    setStatus status
    if ends && status ≠ 0 && !at_.tested && (← process).isOn 'e' then throw .leave
  x.answerSignals
  if at_.last then throw .leave
  return (← process).status

end Interpreter

/-- The number of the signal for a stack that is full. -/
def stackFull : Nat := 11

/-- Run a command, at most so deep. -/
def evaluate (rounds : Nat) : Nat → Stance → Command → Run Nat
  | 0, _, _ => throw (.ended (.signal stackFull))
  | depth + 1, at_, c => Interpreter.step ⟨evaluate rounds depth, rounds⟩ at_ c

/-- Depth and rounds enough for every script that ends soon. -/
def usualDepth : Nat := 20000
def usualRounds : Nat := 10000000

def interpreter : Interpreter := ⟨evaluate usualRounds usualDepth, usualRounds⟩

/-- The number of the process that starts a shell. -/
def starterNumber : Nat := 1

/-- A process that only starts another one: it has nothing to read, and the two outputs. -/
def starter (tree : FileTree) : Process where
  number := starterNumber + 1
  parent := starterNumber
  root := starterNumber + 1
  title := []
  endpoints := [(0, .sink), (1, .stdout), (2, .stderr)]
  place := tree.workplace
  directory := Octets.ofString (Place.toPath tree.workplace)

/-- Start a shell in a world, and wait for the end of all that it started. -/
def execute (w : World) (image : Image) (environment : List (Octets × Octets)) :
    ExitStatus × World :=
  let p := starter w.tree
  let act : Run ExitStatus := do
    let status ← asProcess { p with parent := p.number, number := p.number + 1 }
      (Start.shell interpreter image environment)
    interpreter.settle true false
    return status
  let (r, m) := act
    { process := p, system := { tree := w.tree }, lastProcess := p.number + 1 }
  let text (chunks : List Octets) : Bytes := Octets.toBytes chunks.reverse.flatten
  let status := match r with
    | .ok status | .error (.ended status) => status
    | .error _ => .code 2
  (status, { tree := m.system.tree
             stdout := w.stdout ++ text m.system.output
             stderr := w.stderr ++ text m.system.errors })

end NetHooks.Shell
