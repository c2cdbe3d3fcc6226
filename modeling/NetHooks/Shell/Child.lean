import NetHooks.Shell.Builtin.Jobs
import NetHooks.Shell.Diversion
import NetHooks.Shell.Script

/-!
# Child processes

A shell runs one child after another, each to its end. What it starts in the background waits
until something is waited for, or until the shell ends.

The members of a pipeline run from the first to the last. A member that writes more than its
pipe holds ends there, as if nobody read on; when the next one does want more, all of them
run once more, with larger pipes.
-/
namespace NetHooks.Shell

namespace Process

/-- A process in the background is not interrupted from a terminal, and reads nothing unless it
reads a pipe. -/
def inBackground (p : Process) (isFirst : Bool) : Process :=
  let p := { p with ignored := Signal.interrupt :: Signal.quit :: p.ignored }
  if isFirst then p.setEndpoint 0 (some .sink) else p

end Process

/-- A number for a new process. -/
def newNumber : Run Nat :=
  modifyGet fun m => (m.lastProcess + 1, { m with lastProcess := m.lastProcess + 1 })

/-- Run another process in the place of this one, and come back at its end. -/
def asProcess (child : Process) (act : Run ExitStatus) : Run ExitStatus := do
  let m ← get
  set { m with process := child, around := m.process.number :: m.around }
  let r ← captured act
  modify ({ · with process := m.process, around := m.around })
  Diversion.tidy m.system.lastNumber
  return match r with
    | .ok status | .error (.ended status) => status
    | .error _ => .code 2

namespace Interpreter

/-- Run what a process does to its end, with the action for its end. -/
def toEnd (x : Interpreter) (act : Run Unit) : Run ExitStatus := do
  match ← captured (do Signal.receiveSent; act) with
  | .error (.ended status) => return status
  | _ =>
      changeProcess fun p =>
        { p with finalStatus? := none, skip? := none, loops := 0, unwritten := [] }
      let p ← process
      match p.trap? 0 with
      | none => return .code (p.status % 256)
      | some action =>
          changeProcess fun p => { p.setTrap 0 none with finalStatus? := some p.status }
          match ← captured (x.runText {} action) with
          | .ok _ => return .code (p.status % 256)
          | .error (.ended status) => return status
          | .error _ => return .code ((← process).status % 256)

/-- Run a command as the last one of its process. -/
def runLast (x : Interpreter) (tested : Bool) (c : Command) : Run Unit := do
  let _ ← x.evaluate { tested, last := true } c
  throw .leave

/-! ### Pipelines -/

/-- How many octets a pipe holds that nobody reads. -/
def usualRoom : Nat := 65536

/-- The surroundings of a pipeline. -/
structure Setting where
  starter : Process
  background : Bool
  tested : Bool
  /-- What is done after each member, as long as the next one has not begun. -/
  between : Run Unit

/-- Run the members of a pipeline, where the first reads a pipe or what its starter reads. -/
def runMembers (x : Interpreter) (s : Setting) (room : Nat) :
    Option Nat → List (Nat × Command) → Run (List ExitStatus)
  | _, [] => return []
  | input?, (number, c) :: rest => do
      let output? ← if rest.isEmpty then pure none
        else some <$> modifyGet fun m =>
          let (n, system) := m.system.addPipe { room? := some room }
          (n, { m with system })
      let child := s.starter.child number
      let child := if s.background then child.inBackground input?.isNone else child
      let child := match input? with
        | some n => child.setEndpoint 0 (some (.pipe n true))
        | none => child
      let child := match output? with
        | some n => child.setEndpoint 1 (some (.pipe n false))
        | none => child
      let status ← asProcess child (x.toEnd (x.runLast s.tested c))
      s.between
      return status :: (← runMembers x s room output? rest)

/-- A pipe that is newer than a number was too small for what its reader wanted. -/
def someMissed (lastNumber : Nat) (m : Machine) : Bool :=
  m.system.pipes.any fun (n, p) => decide (lastNumber < n) && p.wasCutOff && p.wasMissed

/-- Run a pipeline, with larger pipes as long as they are too small and tries are left. -/
def runPipeline (x : Interpreter) (s : Setting) (members : List (Nat × Command)) :
    Nat → Nat → Run (List ExitStatus)
  | tries, room => do
      let before ← get
      let statuses ← x.runMembers s room none members
      match tries, someMissed before.system.lastNumber (← get) with
      | tries + 1, true =>
          set before
          runPipeline x s members tries (room * 16)
      | _, _ =>
          Diversion.tidy before.system.lastNumber
          return statuses

/-- How often the pipes of a pipeline are made larger. -/
def usualTries : Nat := 2

/-! ### In the background -/

/-- Note how a process in the background ended. -/
def noteEnd (number : Nat) (status : ExitStatus) : Run Unit :=
  modify fun m => { m with ended := (number, status) :: m.ended }

/-- The process hears of the end of a child, and of what was sent to it. -/
def hearOfChild : Run Unit := do
  if ((← process).trap? Signal.child).any (!·.isEmpty) then Signal.receive Signal.child
  Signal.receiveSent

/-- Run what has waited for its turn in the background. -/
def runWaiting (x : Interpreter) (between : Run Unit) (w : Waiting) : Run Unit := do
  match w.work with
  | .single body =>
      w.numbers.forM fun number => do
        let child := (w.starter.child number).inBackground true
        noteEnd number (← asProcess child (x.toEnd (x.runLast false body)))
        between
  | .pipeline tested commands =>
      let s : Setting := { starter := w.starter, background := true, tested, between }
      let statuses ← x.runPipeline s (w.numbers.zip commands) usualTries usualRoom
      (w.numbers.zip statuses).forM fun (number, status) => noteEnd number status

/-- Let run what waits for its turn: what this process has started, if `ownToo`, and what
processes have left behind that ended. A signal that is to be answered comes first, if
`stops`. -/
def settleWithin (x : Interpreter) (ownToo stops : Bool) : Nat → Run Unit
  | 0 => exhausted
  | rounds + 1 => do
      let m ← get
      if stops && (Builtin.brokenOff? m.process).isSome then return
      let isDue (w : Waiting) : Bool :=
        !m.around.contains w.starter.number && (ownToo || w.starter.number != m.process.number)
      match m.waiting.find? isDue with
      | none => return
      | some w =>
          set { m with waiting := m.waiting.filter (·.numbers != w.numbers) }
          x.runWaiting (settleWithin x false false rounds) w
          if ownToo then hearOfChild
          settleWithin x ownToo stops rounds

def settle (x : Interpreter) (ownToo stops : Bool) : Run Unit := do
  if (← get).waiting.isEmpty then return
  x.settleWithin ownToo stops x.rounds

/-- Start something in the background. Its last process is the one that is known. -/
def startWaiting (count : Nat) (work : Work) : Run Unit := do
  let m ← get
  let numbers := (List.range count).map (m.lastProcess + 1 + ·)
  set { m with
    lastProcess := m.lastProcess + count
    waiting := m.waiting ++ [(⟨m.process, numbers, work⟩ : Waiting)] }
  let number ← Job.claim
  changeProcess fun p =>
    { p with jobs := { number, processes := numbers } :: p.jobs, background? := numbers.getLast? }

/-! ### In the foreground -/

/-- Run something as a child, up to its end. -/
def fork (x : Interpreter) (prepare : Process → Process) (act : Run Unit) : Run ExitStatus := do
  let _ ← Job.claim
  x.settle true false
  let number ← newNumber
  let status ← asProcess (prepare ((← process).child number)) (x.toEnd act)
  x.settle false false
  return status

/-- The status of the last of children that were waited for. What ended by a signal is told. -/
def waited (statuses : List ExitStatus) : Run Nat := do
  statuses.forM fun s => do
    let notice := s.notice
    if !notice.isEmpty then complain (notice ++ ['\n'])
  hearOfChild
  return (statuses.getLastD (.code 0)).toNumber

/-- Run a pipeline and wait for it. -/
def pipeline (x : Interpreter) (tested : Bool) (commands : List Command) : Run Nat := do
  let _ ← Job.claim
  x.settle true false
  let members ← commands.mapM fun c => return (← newNumber, c)
  let s : Setting := {
    starter := ← process
    background := false
    tested
    between := x.settle false false }
  waited (← x.runPipeline s members usualTries usualRoom)

/-- Run a command and take what it prints. -/
def substitute (x : Interpreter) : Substituter := fun c => do
  if c matches .nothing then return []
  let m ← get
  let (n, system) := m.system.addPipe {}
  set { m with system }
  let status ← x.fork (·.setEndpoint 1 (some (.pipe n false))) (x.runLast false c)
  let text := ((← get).system.pipe n).contents
  Diversion.tidy m.system.lastNumber
  let status ← waited [status]
  changeProcess ({ · with outputStatus := status })
  return text

end Interpreter

end NetHooks.Shell
