import NetHooks.Shell.Builtin.Basic
import NetHooks.Shell.Program
import NetHooks.Shell.SyntaxError

/-!
# What names of commands stand for

A name is a keyword, an alias, a function, a builtin or a program, the first of these that
there is. Programs that were found are remembered.
-/
namespace NetHooks.Shell

/-- The commands that the shell carries out itself. -/
def builtinNames : List String :=
  specialCommands ++ ["[", "alias", "bg", "cd", "chdir", "command", "echo", "false", "fg",
    "getopts", "hash", "jobs", "kill", "printf", "pwd", "read", "test", "true", "type", "ulimit",
    "umask", "unalias", "wait"]

def isBuiltin (name : Octets) : Bool :=
  builtinNames.contains (String.ofList name)

/-- Where programs are looked for when no path is set. -/
def usualSearchPath : Octets :=
  "/usr/local/sbin:/usr/local/bin:/usr/sbin:/usr/bin:/sbin:/bin".toList

namespace Process

def searchPath (p : Process) : Octets :=
  (p.value? "PATH".toList).getD []

def function? (p : Process) (name : Octets) : Option Command :=
  p.functions.get? (key name)

def located? (p : Process) (name : Octets) : Option Located :=
  p.located.find? (·.name == name)

/-- Remember where a program was found. -/
def locate (p : Process) (name path : Octets) : Process :=
  let l : Located := { name, path }
  if (p.located? name).isSome then
    { p with located := p.located.map fun k => if k.name = name then l else k }
  else { p with located := p.located ++ [l] }

end Process

/-- The place of a name among those that are kept by a number that its octets give. -/
def bucket (buckets : Nat) (name : Octets) : Nat :=
  let first := (name.head?.map Char.toNat).getD 0
  ((first * 16 + name.foldl (fun n c => n + c.toNat) 0) % 32768) % buckets

/-- The entries by the place of their names. -/
def byBucket (buckets : Nat) (name : α → Octets) (entries : List α) : List α :=
  (List.range buckets).flatMap fun n => entries.filter fun e => bucket buckets (name e) == n

/-- The path that a program is run by: a name with a slash is one itself. A path that is not
searched for the first time is remembered. -/
def findPath (searchPath? : Option Octets) (name : Octets) : Run (Except SystemError Octets) := do
  if name.contains '/' then return .ok name
  let m ← get
  let p := m.process
  match searchPath?, p.located? name with
  | none, some ⟨_, path, false⟩ => return .ok path
  | _, _ =>
      match findProgram m.tree (searchPath?.getD p.searchPath) name with
      | .ok path =>
          if searchPath?.isNone then changeProcess (·.locate name path)
          return .ok path
      | .error e => return .error e

namespace Builtin

/-! ### Aliases -/

def aliasText (a : Octets × Octets) : Octets :=
  a.1 ++ '=' :: singleQuoted a.2

def setAlias (p : Process) (name value : Octets) : Process :=
  if (p.aliases.lookup name).isSome then
    { p with aliases := p.aliases.map fun a => if a.1 = name then (name, value) else a }
  else { p with aliases := p.aliases ++ [(name, value)] }

def notFound (title : String) (w : Octets) : Run Nat := do
  complain (title.toList ++ ": ".toList ++ w ++ " not found\n".toList)
  return 1

def aliases : Builtin := fun ws => do
  if ws.isEmpty then
    (byBucket 39 (·.1) (← process).aliases).forM (printLine <| aliasText ·)
  let statuses ← ws.mapM fun w => do
    -- An equals sign in front belongs to the name.
    let name := w.take 1 ++ (w.drop 1).takeWhile (· != '=')
    match (w.drop name.length).tail?, (← process).aliases.lookup name with
    | some value, _ =>
        changeProcess (setAlias · name value)
        return 0
    | none, some value =>
        printLine (aliasText (name, value))
        return 0
    | none, none => notFound "alias" w
  return statuses.foldl max 0

def removeAliases : Builtin := fun ws => do
  let (letters, ws) ← switches "a" ws
  if !letters.isEmpty then
    changeProcess ({ · with aliases := [] })
    return 0
  let statuses ← ws.mapM fun w => do
    let p ← process
    if (p.aliases.lookup w).isSome then
      changeProcess ({ · with aliases := p.aliases.filter (·.1 != w) })
      return 0
    else notFound "unalias" w
  return statuses.foldl max 0

/-! ### Descriptions -/

/-- What a name stands for: in a sentence behind it, and as a command would name it. -/
def meaning? (m : Machine) (searchPath? : Option Octets) (w : Octets) :
    Option (Octets × Octets) :=
  let p := m.process
  let searched : Option (Octets × Octets) :=
    if w.contains '/' then
      if (m.tree.entryAt (Octets.decode w)).isSome then some (' ' :: w, w) else none
    else match findProgram m.tree (searchPath?.getD p.searchPath) w with
      | .ok path => some (' ' :: path, path)
      | .error _ => none
  if isKeyword w then some (" a shell keyword".toList, w)
  else if let some value := p.aliases.lookup w then
    some (" an alias for ".toList ++ value, "alias ".toList ++ aliasText (w, value))
  else if searchPath?.isNone && (p.function? w).isSome then some (" a shell function".toList, w)
  else if isSpecialCommand w then some (" a special shell builtin".toList, w)
  else if isBuiltin w then some (" a shell builtin".toList, w)
  else match searchPath?, p.located? w with
    | none, some l => some (" a tracked alias for ".toList ++ l.path, l.path)
    | _, _ => searched

/-- Tell what a name stands for. -/
def describe (verbose : Bool) (searchPath? : Option Octets) (w : Octets) : Run Nat := do
  match meaning? (← get) searchPath? w with
  | some (sentence, short) =>
      printLine (if verbose then w ++ " is".toList ++ sentence else short)
      return 0
  | none =>
      if verbose then printLine (w ++ ": not found".toList)
      return 127

def type : Builtin := fun ws => do
  let statuses ← ws.mapM (describe true none)
  return statuses.foldl max 0

/-- The builtin that runs commands, where it is asked for a description instead. -/
def command : Builtin := fun ws => do
  let (letters, ws) ← switches "pvV" ws
  let verbose := letters.contains 'V'
  let searchPath? := if letters.contains 'p' then some usualSearchPath else none
  match ws with
  | w :: _ => if verbose || letters.contains 'v' then describe verbose searchPath? w else return 0
  | [] => return 0

/-! ### Remembered programs -/

def reportMissing (w : Octets) (e : SystemError) : Run Unit :=
  report (w ++ ": ".toList ++ missingText e)

/-- Look for programs anew, to remember them. -/
def lookUp : List Octets → Run Nat
  | [] => return 0
  | w :: ws => do
      changeProcess fun p => { p with located := p.located.filter (·.name != w) }
      let p ← process
      let missing ←
        if (p.function? w).isSome || isBuiltin w then pure false
        else match ← findPath none w with
          | .ok _ => pure false
          | .error e => do
              reportMissing w e
              pure true
      let status ← lookUp ws
      return if missing then 1 else status

def remember : Builtin := fun ws => do
  let (letters, ws) ← switches "r" ws
  if !letters.isEmpty then changeProcess ({ · with located := [] })
  else if ws.isEmpty then
    (byBucket 31 Located.name (← process).located).forM fun l =>
      printLine (l.path ++ if l.isStale then ['*'] else [])
  else return ← lookUp ws
  return 0

end Builtin

end NetHooks.Shell
