/-!
# Exit statuses

How a process ended: with a code of its own, or by a signal.
-/
namespace NetHooks

/-- The names of the signals from the first on. -/
def signalNames : List String :=
  ["HUP", "INT", "QUIT", "ILL", "TRAP", "ABRT", "BUS", "FPE", "KILL", "USR1", "SEGV", "USR2",
    "PIPE", "ALRM", "TERM", "STKFLT", "CHLD", "CONT", "STOP", "TSTP", "TTIN", "TTOU", "URG",
    "XCPU", "XFSZ", "VTALRM", "PROF", "WINCH", "IO", "PWR", "SYS"]

def signalName? (n : Nat) : Option String :=
  if n = 0 then none else signalNames[n - 1]?

def signalNumber? (name : String) : Option Nat :=
  (signalNames.findIdx? (· = name)).map (· + 1)

/-- A process goes on after the signal, unless it asked for something else. -/
def isHarmlessSignal (n : Nat) : Bool :=
  n = 0 || ((signalName? n).map (["CHLD", "CONT", "URG", "WINCH"].contains ·)).getD false

inductive ExitStatus where
  | code (n : Nat)
  | signal (n : Nat)
  deriving DecidableEq, Repr, Inhabited

namespace ExitStatus

def isSuccess (s : ExitStatus) : Bool :=
  s == code 0

def toText : ExitStatus → String
  | code n => "exit status: " ++ toString n
  | signal n =>
      match signalName? n with
      | some name => "signal: " ++ toString n ++ " (SIG" ++ name ++ ")"
      | none => "signal: " ++ toString n

end ExitStatus

end NetHooks
