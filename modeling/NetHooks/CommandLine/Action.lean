import NetHooks.CommandLine.Arguments
import NetHooks.CommandLine.Description
import NetHooks.CommandLine.Listing
import NetHooks.CommandLine.UpDown
import NetHooks.Hook.Runner

/-!
# Actions

From the arguments to the conclusion. The action is looked up before any file is read.
-/
namespace NetHooks

inductive Action where
  | up
  | down
  | list
  | query
  deriving DecidableEq, Repr

namespace Action

def ofName? : String → Option Action
  | "up" | "start" => some up
  | "down" | "stop" => some down
  | "list" | "ls" => some list
  | "query" | "show" => some query
  | _ => none

/-- Carry an action out. -/
def perform (a : Action) (invoker : Invoker World) (r : Request) (w : World)
    (files : TempFiles := .plain) : Conclusion :=
  match a with
  | up => r.bring invoker .start w files
  | down => r.bring invoker .stop w files
  | list => r.list w
  | query => r.describe w

end Action

namespace Arguments

/-- The context that settings and arguments give. -/
def context (a : Arguments) (vars : Variables) (tree : FileTree) : Except ContextError Context := do
  Context.resolve vars (← Settings.discover tree vars a.settings?) a.overrides

/-- Carry out what the arguments ask for, with hooks run in the world. -/
def run (a : Arguments) (vars : Variables) (t : Terminal) (w : World)
    (files : TempFiles := .plain) : Conclusion :=
  match Action.ofName? a.action with
  | none => .failed (.unknownAction a.action) [] w
  | some action =>
      match a.context vars w.tree with
      | .error e => .failed (.badContext e) [] w
      | .ok context =>
          action.perform (Hook.invoker context t) ⟨context, t, a.targets, a.allow?⟩ w files

end Arguments

end NetHooks
