import NetHooks.Activation.Target

/-!
# Selections

Which of the requested targets an allow-list lets through. A target is looked up by its
instance. With a list and no request, every member of the list is a target.
-/
namespace NetHooks

structure Selection where
  /-- In the order of the request. -/
  targets : List String
  /-- The targets that the list does not hold. -/
  rejected : List String
  deriving DecidableEq, Repr

namespace Selection

/-- The names of a list. -/
def members (list : NameSet) : List String :=
  list.names

def isMember (list : NameSet) (target : String) : Bool :=
  list.contains (Target.split target).instanceName

/-- Let the targets through that the list holds. -/
def throughList (list : NameSet) (targets : List String) : Selection :=
  if targets.isEmpty then ⟨members list, []⟩
  else ⟨targets.filter (isMember list), targets.filter (!isMember list ·)⟩

def unknownListMessage (name : String) : String :=
  "No allow-list named '" ++ name ++ "' is defined"

end Selection

/-- The selected targets, or the name of a list that is not defined. -/
def Config.select (config : Config) (targets : List String) (list? : Option String) :
    Except String Selection :=
  match list? with
  | none => .ok ⟨targets, []⟩
  | some name =>
      match config.allowList? name with
      | none => .error name
      | some list => .ok (Selection.throughList list targets)

end NetHooks
