import NetHooks.Activation.Target
import NetHooks.Hook.Call
import NetHooks.Store.Basic
import NetHooks.SystemError

/-!
# Sessions

Bringing targets up and down against a store. A target that is up already, or unknown,
is skipped and stops nothing; a failing hook is logged and stops nothing. A group first
brings up what it depends on, and an instance that is reached again while it is still
being worked on is skipped as a cycle.
-/
namespace NetHooks

inductive Severity where
  | info
  | warn
  deriving DecidableEq, Repr

structure LogEntry where
  severity : Severity
  text : String
  deriving DecidableEq, Repr

/-- Why a hook did not run. The status that a hook ends with is no error. -/
inductive HookError where
  | unlisted (directory : String) (cause : SystemError)
  | unstarted (label : String) (cause : SystemError)
  deriving DecidableEq, Repr

def HookError.message : HookError → String
  | unlisted directory cause =>
      "Hook directory '" ++ directory ++ "' could not be listed: " ++ cause.message
  | unstarted label cause => "'" ++ label ++ "' could not be executed: " ++ cause.message

/-- What came of a call: an error, what it logged, and the world after it. -/
structure Reply (σ : Type) where
  failure : Option HookError
  log : List LogEntry
  world : σ

/-- Whoever carries calls out in a world `σ`. -/
abbrev Invoker (σ : Type) := Call → σ → Reply σ

inductive Outcome where
  | activated (instanceName logical : String)
  | deactivated (instanceName logical : String)
  | skipped (diagnostic : Diagnostic)
  deriving DecidableEq, Repr

/-- An instance that is worked on: its name, the name that it is recorded under, and the
definition of that name. -/
structure Instance where
  name : String
  logical : String
  entity : Entity
  deriving DecidableEq

/-- The logical name that a target is worked on under. Only what is not recorded is brought
up, and only what is recorded is brought down, under the name that is recorded. -/
def Target.logicalFor (t : Target) (mode : Mode) (config : Config) (store : Store) :
    Except Diagnostic String :=
  match mode, store.get? t.instanceName with
  | .start, none => t.resolve config
  | .start, some logical => .error (.alreadyConfigured t.instanceName logical)
  | .stop, none => .error (.notConfigured t.instanceName)
  | .stop, some logical => .ok logical

/-- The instance to work on for a target, or why there is none. The names in `busy` are
being worked on. -/
def Config.accept (config : Config) (mode : Mode) (store : Store) (busy : List String)
    (target : String) : Except Diagnostic Instance :=
  match Target.check target with
  | .error d => .error d
  | .ok t =>
      match t.logicalFor mode config store with
      | .error d => .error d
      | .ok logical =>
          match config.entity? logical with
          | none => .error (.unknown logical)
          | some entity =>
              if busy.contains t.instanceName then .error (.dependencyCycle t.instanceName)
              else .ok ⟨t.instanceName, logical, entity⟩

namespace Instance

/-- What is reported of an instance that was worked on. -/
def outcome (i : Instance) : Mode → Outcome
  | .start => .activated i.name i.logical
  | .stop => .deactivated i.name i.logical

/-- Record an instance that is up, forget one that is down. -/
def settle (i : Instance) (mode : Mode) (store : Store) : Store :=
  match mode with
  | .start => store.insert i.name i.logical
  | .stop => store.erase i.name

end Instance

structure Session (σ : Type) where
  store : Store
  /-- The instances that are being worked on, innermost first. -/
  inProgress : List String
  /-- What was asked of hooks so far. -/
  calls : List Call
  log : List LogEntry
  world : σ

namespace Session

variable {σ : Type}

def begin (store : Store) (world : σ) : Session σ :=
  ⟨store, [], [], [], world⟩

/-- Have a call carried out and log its failure. -/
def call (invoker : Invoker σ) (s : Session σ) (c : Call) : Session σ :=
  let reply := invoker c s.world
  { s with
    calls := s.calls ++ [c]
    log := s.log ++ reply.log ++ reply.failure.toList.map fun e => ⟨.warn, e.message⟩
    world := reply.world }

def callAll (invoker : Invoker σ) (s : Session σ) (calls : List Call) : Session σ :=
  calls.foldl (call invoker) s

/-- What is logged of a dependency of a group. -/
def dependencyLog (group : String) : Outcome → List LogEntry
  | .skipped d@(.alreadyConfigured _ _) | .skipped d@(.notConfigured _) =>
      [⟨.info, "group '" ++ group ++ "': " ++ d.message⟩]
  | .skipped d => [⟨.warn, "group '" ++ group ++ "': " ++ d.message⟩]
  | _ => []

def noteDependency (s : Session σ) (group : String) (outcome : Outcome) : Session σ :=
  { s with log := s.log ++ dependencyLog group outcome }

def enter (s : Session σ) (instanceName : String) : Session σ :=
  { s with inProgress := instanceName :: s.inProgress }

/-- End the work on an instance. -/
def leave (s : Session σ) (i : Instance) (mode : Mode) : Session σ :=
  { s with inProgress := s.inProgress.tail, store := i.settle mode s.store }

/-- Bring a target up or down. Dependencies are brought down in the reverse order. `depth`
bounds the chain of dependencies: a longer chain would name an instance twice, so it is a
cycle. -/
def bringWithin (invoker : Invoker σ) (config : Config) (context : Context) (mode : Mode) :
    Nat → String → Session σ → Outcome × Session σ
  | 0, target, s => (.skipped (.dependencyCycle (Target.split target).instanceName), s)
  | depth + 1, target, s =>
      match config.accept mode s.store s.inProgress target with
      | .error d => (.skipped d, s)
      | .ok i =>
          let before := (s.enter i.name).callAll invoker (i.entity.callsBefore context i.name mode)
          let between := (mode.order.arrange i.entity.dependencies).foldl (fun s d =>
            let r := bringWithin invoker config context mode depth d s
            r.2.noteDependency i.entity.name r.1) before
          let after := between.callAll invoker (i.entity.callsAfter context i.name mode)
          (i.outcome mode, after.leave i mode)

end Session

/-- The instances that the groups of a configuration depend on, each once. -/
def Config.dependencyInstances (config : Config) : List String :=
  ((config.entities.values.flatMap Entity.dependencies).map
    fun d => (Target.split d).instanceName).eraseDups

/-- How deep targets can follow one another: the first may be no dependency, all others
are distinct dependencies, and the last is only looked at. -/
def Config.depth (config : Config) : Nat :=
  config.dependencyInstances.length + 2

namespace Session

variable {σ : Type}

def bring (invoker : Invoker σ) (config : Config) (context : Context) (mode : Mode)
    (target : String) (s : Session σ) : Outcome × Session σ :=
  bringWithin invoker config context mode config.depth target s

def activate (invoker : Invoker σ) (config : Config) (context : Context) (target : String)
    (s : Session σ) : Outcome × Session σ :=
  s.bring invoker config context .start target

def deactivate (invoker : Invoker σ) (config : Config) (context : Context) (target : String)
    (s : Session σ) : Outcome × Session σ :=
  s.bring invoker config context .stop target

end Session

end NetHooks
