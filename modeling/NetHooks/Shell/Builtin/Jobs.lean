import NetHooks.Shell.Builtin.Basic
import NetHooks.Shell.Signal

/-!
# Builtins for jobs

A job is what was started together in the background. It is kept until its end has been
told or waited for.
-/
namespace NetHooks.Shell

namespace Machine

/-- How a job ended: as its last process did. Nothing if a process of it still runs. -/
def endOf? (m : Machine) (j : Job) : Option ExitStatus :=
  if j.processes.all fun n => (m.ended.lookup n).isSome then
    j.processes.getLast?.bind fun n => m.ended.lookup n
  else none

end Machine

namespace Job

/-- A job takes the first number that is free. One that was waited for makes room for it. -/
def claim : Run Nat := do
  let m ← get
  let isKept (n : Nat) : Bool := m.process.jobs.any fun j =>
    j.number == n && !(j.wasWaitedFor && (m.endOf? j).isSome)
  let numbers := (List.range (m.process.jobs.length + 1)).map (· + 1)
  let number := (numbers.find? fun n => !isKept n).getD 1
  changeProcess fun p => { p with jobs := p.jobs.filter (·.number != number) }
  return number

/-- The job was waited for. -/
def noteWaited (number : Nat) : Run Unit :=
  changeProcess fun p =>
    { p with
      jobs := p.jobs.map fun j => if j.number = number then { j with wasWaitedFor := true } else j }

end Job

namespace Builtin

def noJob (w : Octets) : Run α :=
  fail ("No such job: ".toList ++ w)

/-- The job that a text names; the last one if there is none. Commands of jobs are not kept,
so no text is found in them but the empty one. -/
def jobNamed (w? : Option Octets) : Run Job := do
  let jobs := (← process).jobs
  let current : Run Job := do
    match jobs.head? with
    | some j => return j
    | none => fail "No current job".toList
  match w? with
  | none | some ['%'] | some ['%', '+'] | some ['%', '%'] => current
  | some ['%', '-'] =>
      match jobs[1]? with
      | some j => return j
      | none => fail "No previous job".toList
  | some w =>
      match w with
      | ['%', '?'] =>
          match jobs with
          | [j] => return j
          | [] => noJob w
          | _ => fail (w ++ ": ambiguous".toList)
      | '%' :: number =>
          match (Octets.number? number).bind fun n => jobs.find? (·.number == n) with
          | some j => return j
          | none => noJob w
      | _ => noJob w

def jobOf (w : Octets) : Run Job :=
  jobNamed (some w)

/-- A text that is as long as it should be, or one blank longer. -/
def padded (length : Nat) (s : Octets) : Octets :=
  s ++ List.replicate (max 1 (length - s.length)) ' '

/-- The width of what stands before the command of a job. -/
def jobWidth : Nat := 33

/-- Show a job, and forget it if it has ended. -/
def showJob (withNumbers : Bool) (j : Job) : Run Unit := do
  let m ← get
  let mark := match m.process.jobs with
    | a :: rest =>
        if a.number = j.number then '+'
        else if (rest.head?.map (·.number)) = some j.number then '-'
        else ' '
    | [] => ' '
  let start := '[' :: Octets.ofNat j.number ++ [']', ' ', mark, ' ']
  let state := match m.endOf? j with
    | some status => status.description
    | none => "Running".toList
  let blank := List.replicate start.length ' '
  match j.processes with
  | [] => return
  | first :: others =>
      if withNumbers then
        print (padded jobWidth (start ++ Octets.ofNat first ++ ' ' :: state))
        others.forM fun n =>
          print (padded (jobWidth + 3) (" |\n".toList ++ blank ++ Octets.ofNat n ++ [' ']))
        print ['\n']
      else
        print (padded jobWidth (start ++ state) ++ (others.flatMap fun _ => " | ".toList) ++ ['\n'])
      if (m.endOf? j).isSome then
        changeProcess fun p => { p with jobs := p.jobs.filter (·.number != j.number) }

def jobs : Builtin := fun ws => do
  let (letters, ws) ← switches "lp" ws
  let chosen ← if ws.isEmpty then pure (← process).jobs else ws.mapM jobOf
  chosen.forM fun j => do
    if letters.getLast? == some 'p' then
      j.processes.head?.forM fun n => printLine (Octets.ofNat n)
    else showJob (letters.getLast? == some 'l') j
  return 0

/-- No job is under the control of a terminal. -/
def resumeJob : Builtin := fun ws => do
  let ws ← operands ws
  let _ ← jobNamed ws.head?
  fail ("job ".toList ++ (ws.head?.getD "(null)".toList) ++
    " not created under job control".toList)

/-! ### Waiting -/

/-- The status of a `wait` that a signal has broken off. -/
def brokenOff? (p : Process) : Option Nat :=
  (p.pending.filter (· != Signal.child)).getLast?.map (128 + ·)

/-- Wait for one job, or for none. -/
def waitFor (settle : Run Unit) (w : Octets) : Run (Option Nat) := do
  let job? ← match w with
    | '%' :: _ => some <$> jobOf w
    | _ => do
        let n ← countOperand w
        pure ((← process).jobs.find? (·.processes.getLast? == some n))
  match job? with
  | none => return none
  | some j =>
      let wasRunning := ((← get).endOf? j).isNone
      settle
      let m ← get
      match m.endOf? j with
      | none => return none
      | some status =>
          if wasRunning then
            j.processes.forM fun n => do
              let notice := ((m.ended.lookup n).getD default).notice
              if !notice.isEmpty then complain (notice ++ ['\n'])
          Job.noteWaited j.number
          return some status.toNumber

/-- Wait for jobs; `settle` runs what is in the background up to the next signal. -/
def wait (settle : Run Unit) : Builtin := fun ws => do
  match ← operands ws with
  | [] =>
      settle
      match brokenOff? (← process) with
      | some status => return status
      | none =>
          (← process).jobs.forM fun j => Job.noteWaited j.number
          return 0
  | ws => waitAll 127 ws
where
  waitAll (status : Nat) : List Octets → Run Nat
    | [] => return status
    | w :: ws => do
        let reached? ← waitFor settle w
        match brokenOff? (← process) with
        | some status => return status
        | none => waitAll (reached?.getD 127) ws

end Builtin

end NetHooks.Shell
