import NetHooks.Shell.Process

/-!
# Signals

What signals are called, what one does to a process, and what is told of a process that
ended by one.
-/
namespace NetHooks.Shell

namespace Signal

/-- The number of the signal that ends a process when none is named. -/
def usual : Nat := 15

/-- The number of the signal that no process can answer. -/
def kill : Nat := 9

/-- The number of the signal at the end of a child. -/
def child : Nat := 17

def interrupt : Nat := 2
def quit : Nat := 3

/-- The greatest number of a signal. -/
def last : Nat := 64

/-- The first and the middle one of the signals that have no meaning of their own. -/
def firstReal : Nat := 34
def middleReal : Nat := 49

/-- The name that a signal is listed by. The end of the shell counts as one. -/
def title (n : Nat) : String :=
  if n = 0 then "EXIT"
  else if n < 32 then (signalName? n).getD ""
  else if n < firstReal then toString n
  else if n = firstReal then "RTMIN"
  else if n ≤ middleReal then "RTMIN+" ++ toString (n - firstReal)
  else if n < last then "RTMAX-" ++ toString (last - n)
  else "RTMAX"

/-- A signal by its number or its name, from a number on. -/
def ofText? (least : Nat) (w : Octets) : Option Nat :=
  match Octets.number? w with
  | some n => if n ≤ last then some n else none
  | none =>
      let name := String.ofList (w.map Char.toUpper)
      ((List.range (last + 1)).drop least).find? fun n => title n == name

/-- What is told of a process that ended by a signal. -/
def texts : List String :=
  ["Hangup", "Interrupt", "Quit", "Illegal instruction", "Trace/breakpoint trap", "Aborted",
    "Bus error", "Floating point exception", "Killed", "User defined signal 1",
    "Segmentation fault", "User defined signal 2", "Broken pipe", "Alarm clock", "Terminated",
    "Stack fault", "Child exited", "Continued", "Stopped (signal)", "Stopped",
    "Stopped (tty input)", "Stopped (tty output)", "Urgent I/O condition",
    "CPU time limit exceeded", "File size limit exceeded", "Virtual timer expired",
    "Profiling timer expired", "Window changed", "I/O possible", "Power failure",
    "Bad system call"]

def text (n : Nat) : String :=
  if n < 32 then texts.getD (n - 1) ""
  else if n < firstReal then "Unknown signal " ++ toString n
  else "Real-time signal " ++ toString (n - firstReal)

/-- What a signal does to this process. -/
def receive (n : Nat) : Run Unit := do
  let p ← process
  if n = 0 then return
  else if n = kill then throw (.ended (.signal n))
  else if p.ignores n then return
  else if (p.trap? n).isSome then
    changeProcess fun p => { p with pending := p.pending.filter (· != n) ++ [n] }
  else if isHarmlessSignal n then return
  else throw (.ended (.signal n))

/-- Send a signal to the process of a number; whether there is one. -/
def send (n number : Nat) : Run Bool := do
  let m ← get
  if number = m.process.number then
    receive n
    return true
  else if m.around.contains number || m.waiting.any (·.numbers.contains number) then
    if n != 0 then set { m with sent := m.sent ++ [(number, n)] }
    return true
  else return false

/-- Receive what was sent to this process while another one ran. -/
def receiveSent : Run Unit := do
  let m ← get
  if m.sent.isEmpty then return
  else
    let (mine, sent) := m.sent.partition (·.1 == m.process.number)
    set { m with sent }
    mine.forM fun (_, n) => receive n

end Signal

end NetHooks.Shell

namespace NetHooks.ExitStatus

open Shell

/-- The status as the number that the shell has for it. -/
def toNumber : ExitStatus → Nat
  | .code n => n
  | .signal n => 128 + n

/-- What is told when a process that was waited for ends. -/
def notice : ExitStatus → Octets
  | .code _ => []
  | .signal n => if n = Signal.interrupt || n = brokenPipe then [] else (Signal.text n).toList

/-- How a job ended, in a list of jobs. -/
def description : ExitStatus → Octets
  | .code n => if n = 0 then "Done".toList else ("Done(" ++ toString n ++ ")").toList
  | .signal n => (Signal.text n).toList

end NetHooks.ExitStatus
