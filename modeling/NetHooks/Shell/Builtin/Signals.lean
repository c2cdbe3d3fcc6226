import NetHooks.Shell.Builtin.Jobs

/-!
# Builtins for signals
-/
namespace NetHooks.Shell.Builtin

/-- List the actions at signals as commands that set them. -/
def listTraps : Run Unit := do
  (← process).traps.forM fun (n, action) =>
    printLine ("trap -- ".toList ++ singleQuoted action ++ ' ' :: (Signal.title n).toList)

/-- Set one action, or none, for signals. -/
def setTraps (action? : Option Octets) : List Octets → Run Nat
  | [] => return 0
  | w :: ws => do
      match Signal.ofText? 0 w with
      | some n =>
          changeProcess (·.setTrap n action?)
          setTraps action? ws
      | none =>
          complain ("trap: ".toList ++ w ++ ": bad trap\n".toList)
          return 1

def trap : Builtin := fun ws => do
  match ← operands ws with
  | [] =>
      listTraps
      return 0
  | [w] => setTraps none [w]
  | action :: signals =>
      if ((Octets.number? action).any (decide <| · ≤ Signal.last)) then
        setTraps none (action :: signals)
      else setTraps (if action = ['-'] then none else some action) signals

def killUsage : Run α :=
  fail ("Usage: kill [-s sigspec | -signum | -sigspec] [pid | job]... or\n" ++
    "kill -l [exitstatus]").toList

/-- List the names of all signals, or name the signal behind a number or a status. -/
def listSignals (ws : List Octets) : Run Unit := do
  match ws with
  | [] =>
      printLine ['0']
      ((List.range Signal.last).map (· + 1)).forM fun n => printLine (Signal.title n).toList
  | w :: _ =>
      let n ← countOperand w
      let n := if n > 128 then n - 128 else n
      if n = 0 || n > Signal.last then
        fail ("invalid signal number or exit status: ".toList ++ w)
      printLine (Signal.title n).toList

/-- Send a signal to a process. Groups of processes and jobs are not found. -/
def sendTo (signal : Nat) (w : Octets) : Run Bool := do
  match w with
  | '%' :: _ => do
      let _ ← jobOf w
      return false
  | '-' :: number => do
      let _ ← countOperand number
      return false
  | number => Signal.send signal (← countOperand number)

def sendToAll (signal : Nat) (ws : List Octets) : Run Nat := do
  let reached ← ws.mapM fun w => do
    let reached ← sendTo signal w
    if !reached then report "No such process\n".toList
    return reached
  return if reached.all id then 0 else 1

/-- The signal that options name. -/
def signalAmong : List (Char × Octets) → Run (Option Nat)
  | [] => return none
  | (_, w) :: rest => do
      if w.isEmpty then signalAmong rest
      else
        match Signal.ofText? 1 w with
        | some n => return (← signalAmong rest).or (some n)
        | none => fail ("invalid signal number or name: ".toList ++ w)

def kill : Builtin := fun ws => do
  let direct? := match ws with
    | ('-' :: name) :: _ => Signal.ofText? 1 name
    | _ => none
  let (isList, signal?, ws) ← match direct? with
    | some n => pure (false, some n, ws.drop 1)
    | none => do
        let (options, ws) ← options [('l', false), ('s', true)] ws
        pure (options.any (·.1 == 'l'), ← signalAmong options, ws)
  if isList then
    listSignals ws
    return 0
  else if ws.isEmpty then killUsage
  else sendToAll (signal?.getD Signal.usual) ws

end NetHooks.Shell.Builtin
