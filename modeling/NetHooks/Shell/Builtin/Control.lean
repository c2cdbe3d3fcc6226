import NetHooks.Shell.Builtin.Basic

/-!
# Builtins that end things
-/
namespace NetHooks.Shell.Builtin

/-- End the shell. In an action the status before the action counts. -/
def exit : Builtin := fun ws => do
  let p ← process
  let status ← match ws with
    | [] => pure (p.finalStatus?.getD p.status)
    | w :: _ => countOperand w
  setStatus status
  throw .leave

/-- End a function or a sourced file. -/
def giveBack : Builtin := fun ws => do
  let status ← match ws with
    | [] => pure (← process).status
    | w :: _ => countOperand w
  changeProcess ({ · with skip? := some (.giveBack (!ws.isEmpty)) })
  return status

/-- End loops, or go on with the next round of one. -/
def leaveLoops (skip : Nat → Skip) : Builtin := fun ws => do
  let n ← match ws with
    | [] => pure 1
    | w :: _ => countOperand w
  if n = 0 then illegalNumber (ws.headD [])
  let n := min n (← process).loops
  if n != 0 then changeProcess ({ · with skip? := some (skip n) })
  return 0

end NetHooks.Shell.Builtin
