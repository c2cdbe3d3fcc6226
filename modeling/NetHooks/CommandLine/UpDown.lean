import NetHooks.CommandLine.Basic

/-!
# Bringing targets up and down

The configuration is read and the targets are selected before anything is touched. Then
each target is brought up or down in turn, and the store is written once at the end, if it
has changed and the run is to act.
-/
namespace NetHooks

namespace Request

/-- The targets to work on. Something has to be asked for. -/
def workTargets (r : Request) (config : Config) : Except Failure Selection :=
  if r.targets.isEmpty && r.allow?.isNone then .error .noTargets else r.select config

/-- Report a target that the allow-list does not hold. -/
def noteRejected (r : Request) (w : World) (target : String) : World :=
  w.complain (r.warning ("'" ++ target ++ "' is not in allow-list '" ++ r.allow?.getD "" ++
    "', skipping"))

def rejectedLog (target : String) : LogEntry :=
  ⟨.warn, "'" ++ target ++ "' is not in the allow-list, skipping"⟩

/-- What is logged of the outcome of a target. -/
def outcomeLog : Outcome → LogEntry
  | .activated i logical => ⟨.info, "'" ++ i ++ "' is up (as '" ++ logical ++ "')"⟩
  | .deactivated i logical => ⟨.info, "'" ++ i ++ "' is down (was '" ++ logical ++ "')"⟩
  | .skipped d => ⟨.warn, d.message⟩

/-- Show the outcome of a target. A target that was skipped is reported as an error. -/
def showOutcome (r : Request) (o : Outcome) (w : World) : World :=
  let done (word instanceName : String) : World :=
    if r.context.verbose then w.print (r.terminal.paint .boldGreen word ++ " " ++ instanceName)
    else w
  match o with
  | .activated i _ => done "up" i
  | .deactivated i _ => done "down" i
  | .skipped d => w.complain (r.warning d.message)

/-- Bring one target up or down and report it. -/
def work (invoker : Invoker World) (r : Request) (config : Config) (mode : Mode)
    (s : Session World) (target : String) : Session World :=
  let (o, s) := s.bring invoker config r.context mode target
  { s with log := s.log ++ [outcomeLog o], world := r.showOutcome o s.world }

/-- Write the store if it is to be written. -/
def keep (r : Request) (store : Store) (w : World) (files : TempFiles := .plain) :
    Option Failure × World :=
  if r.context.noAct || !store.needsSaving then (none, w)
  else
    let (tree, e?) := store.persist w.tree files
    (e?.map .badStore, { w with tree })

/-- Bring all targets up or down. -/
def bring (invoker : Invoker World) (r : Request) (mode : Mode) (w : World)
    (files : TempFiles := .plain) : Conclusion :=
  match r.readConfig w.tree with
  | .error f => .failed f [] w
  | .ok config =>
      match r.workTargets config with
      | .error f => .failed f [] w
      | .ok selection =>
          let log := selection.rejected.map rejectedLog
          let w := selection.rejected.foldl r.noteRejected w
          match Store.load w.tree r.context.stateFile with
          | .error e => .failed (.badStore e) log w
          | .ok store =>
              let s := selection.targets.foldl (r.work invoker config mode) (Session.begin store w)
              let (failure, w) := r.keep s.store s.world files
              ⟨failure, log ++ s.log, s.calls, w⟩

end Request

end NetHooks
