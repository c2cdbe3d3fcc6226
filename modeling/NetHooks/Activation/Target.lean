import NetHooks.Config.Basic

/-!
# Targets

A target names an instance, and after an equals sign the definition that it stands for.
Without one, the definition is the one that a mapping gives, or has the instance's name.
-/
namespace NetHooks

/-- Why nothing was done for a target. -/
inductive Diagnostic where
  | invalidTarget (target : String)
  | alreadyConfigured (instanceName logical : String)
  | notConfigured (instanceName : String)
  | mappingUnresolved (name : String)
  | unknown (logical : String)
  | dependencyCycle (instanceName : String)
  deriving DecidableEq, Repr

def Diagnostic.message : Diagnostic → String
  | invalidTarget target => "invalid target '" ++ target ++ "'"
  | alreadyConfigured i logical =>
      "'" ++ i ++ "' is already configured (as '" ++ logical ++ "')"
  | notConfigured i => "'" ++ i ++ "' is not configured"
  | mappingUnresolved name => "mapping '" ++ name ++ "' did not resolve to a definition"
  | unknown logical => "unknown interface or group '" ++ logical ++ "'"
  | dependencyCycle i => "dependency cycle through '" ++ i ++ "'"

structure Target where
  instanceName : String
  /-- The definition, where the target names one. -/
  logical? : Option String
  deriving DecidableEq, Repr

namespace Target

/-- Cut a target at its first equals sign. -/
def split (target : String) : Target :=
  match target.toList.dropWhile (· != '=') with
  | [] => ⟨target, none⟩
  | _ :: logical =>
      ⟨String.ofList (target.toList.takeWhile (· != '=')), some (String.ofList logical)⟩

/-- A target whose parts can be recorded: neither of them is empty. -/
def check (target : String) : Except Diagnostic Target :=
  let t := split target
  if t.instanceName = "" ∨ t.logical? = some "" then .error (.invalidTarget target) else .ok t

/-- The name of the definition. -/
def resolve (t : Target) (config : Config) : Except Diagnostic String :=
  match t.logical? with
  | some logical => .ok logical
  | none =>
      match config.mapping? t.instanceName with
      | none => .ok t.instanceName
      | some m =>
          match m.resolve? t.instanceName with
          | some logical => .ok logical
          | none => .error (.mappingUnresolved m.name)

end Target

end NetHooks
