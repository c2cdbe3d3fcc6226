import NetHooks.Shell.Builtin.Basic
import NetHooks.Shell.Condition
import NetHooks.Shell.Format

/-!
# Builtins that print and compare
-/
namespace NetHooks.Shell.Builtin

def echo : Builtin := fun ws => do
  print (Format.echo ws)
  return 0

def printf : Builtin := fun ws => do
  match ← operands ws with
  | [] => fail "usage: printf format [arg ...]".toList
  | format :: ws =>
      let p := Format.printf format ws
      p.complaints.forM report
      print p.text
      match p.fault? with
      | some fault => fail fault
      | none => return if p.complaints.isEmpty then 0 else 1

def condition : Builtin := fun ws => do
  match Condition.evaluate (← get).tree ws with
  | .ok b => return if b then 0 else 1
  | .error message => fail message

/-- A condition in brackets. Of the last word only the first octet counts. -/
def bracket : Builtin := fun ws => do
  if (ws.getLast?.bind (·.head?)) = some ']' then condition ws.dropLast
  else fail "missing ]".toList

end NetHooks.Shell.Builtin
