import NetHooks.Shell.Grammar
import NetHooks.Shell.Signal

/-!
# Scripts

How a text is run: one complete command after another, each read only when the one before
it has run.
-/
namespace NetHooks.Shell

/-- How its surroundings look at a command. -/
structure Stance where
  /-- They look at its status, so that a failure does not end the shell. -/
  tested : Bool := false
  /-- Nothing comes after it in its process. -/
  last : Bool := false

/-- What runs the commands inside a command. -/
structure Interpreter where
  evaluate : Stance → Command → Run Nat
  /-- A bound for the rounds of a loop and the commands of a script. -/
  rounds : Nat

namespace Interpreter

/-- The first lines of a text, and the others. -/
def splitLines : Nat → Octets → Octets → Octets × Octets
  | 0, done, rest => (done.reverse, rest)
  | _, done, [] => (done.reverse, [])
  | n + 1, done, c :: rest =>
      if c = '\n' then splitLines n (c :: done) rest else splitLines (n + 1) (c :: done) rest

/-- The number of lines that were read between two inputs, where the text does not end. -/
def linesBetween (before : Input) : Except SyntaxError (Option Command × Input) → Option Nat
  | .error e => some (e.line + 1 - before.line)
  | .ok (_, after) => if after.rest.isEmpty then none else some (after.line - before.line)

/-- Of the lines that were not shown, show those that have been read now, if that is asked for;
those that are left. -/
def showLines (count? : Option Nat) (unshown : Octets) : Run Octets := do
  let (now, later) := match count? with
    | some n => splitLines n [] unshown
    | none => (unshown, [])
  if (← process).isOn 'v' then complain now
  return later

/-- Run the commands of an input, up to its end or to where the commands that follow are passed
over. The text of a file may be shown when it is read. -/
def runInput (x : Interpreter) (at_ : Stance) :
    Nat → Input → Option Octets → Nat → Run Nat
  | 0, _, _, _ => exhausted
  | rounds + 1, input, unshown?, status => do
      let r := Reader.next { input with aliases := (← process).aliases }
      let unshown? ← unshown?.mapM (showLines (linesBetween input r))
      match r with
      | .error e => do
          changeProcess ({ · with line := e.line, inputLine := e.line })
          fail e.message
      | .ok (none, _) => return status
      | .ok (some c, input) => do
          changeProcess ({ · with inputLine := input.line })
          let after ← x.evaluate at_ c
          let status := if c matches .nothing then status else after
          if (← process).skip?.isSome then return status
          runInput x at_ rounds input unshown? status

/-- Run a text. -/
def runText (x : Interpreter) (at_ : Stance) (text : Octets) : Run Nat :=
  x.runInput at_ x.rounds { rest := text } none 0

/-- Run the text of a file. To give back from it ends no more than the file. -/
def runFile (x : Interpreter) (text : Octets) : Run Nat := do
  let text := text.filter (· != '\x00')
  let status ← x.runInput {} x.rounds { rest := text } (some text) 0
  changeProcess fun p => match p.skip? with
    | some (.giveBack _) => { p with skip? := none }
    | _ => p
  return status

/-- Run the action of a signal. The status stays as it was, unless the action gives back one
of its own. -/
def runAction (x : Interpreter) (status : Nat) (action : Octets) : Run Unit := do
  let _ ← x.runText {} action
  if (← process).skip? ≠ some (.giveBack true) then setStatus status

/-- Answer a signal, if it has come in and nothing is passed over. -/
def answer (x : Interpreter) (status n : Nat) : Run Unit := do
  let p ← process
  if p.pending.contains n && p.skip?.isNone then
    changeProcess fun p => { p with pending := p.pending.filter (· != n) }
    match p.trap? n with
    | some action => x.runAction status action
    | none => return

/-- Answer the signals that have come in, in the order of their numbers. -/
def answerSignals (x : Interpreter) : Run Unit := do
  let p ← process
  if p.pending.isEmpty then return
  let status := p.finalStatus?.getD p.status
  changeProcess ({ · with finalStatus? := some status })
  (List.range (Signal.last + 1)).forM (x.answer status)
  changeProcess ({ · with finalStatus? := p.finalStatus? })

end Interpreter

end NetHooks.Shell
