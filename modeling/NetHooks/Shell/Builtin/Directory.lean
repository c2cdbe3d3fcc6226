import NetHooks.Shell.Builtin.Basic
import NetHooks.Shell.Program

/-!
# The working directory

A shell keeps the path that led to its directory. It goes up from a link to where the link
stands, and not to where it points.
-/
namespace NetHooks.Shell.Builtin

/-- The names of a path. -/
def steps (path : Octets) : List Octets :=
  (path.splitOn '/').filter (!·.isEmpty)

/-- Two slashes in front of a path are kept, if no third one follows. -/
def hasDoubleRoot : Octets → Bool
  | '/' :: '/' :: '/' :: _ => false
  | '/' :: '/' :: _ => true
  | _ => false

/-- Go on from a directory by names, where a parent step takes the last name away. -/
def follow (reached : List Octets) : List Octets → List Octets
  | [] => reached
  | w :: rest =>
      if w = ['.'] then follow reached rest
      else if w = ['.', '.'] then follow reached.dropLast rest
      else follow (reached ++ [w]) rest

/-- The path that a written path leads to from a directory. -/
def logicalPath (directory path : Octets) : Octets :=
  let isAbsolute := path.head? = some '/'
  let start := if isAbsolute then [] else steps directory
  let root := if hasDoubleRoot (if isAbsolute then path else directory) then "//" else "/"
  root.toList ++ ['/'].intercalate (follow start (steps path))

/-- Whether the last option asks for places instead of paths. -/
def wantsPlace (letters : List Char) : Bool :=
  letters.getLast? == some 'P'

/-- The path of a place. -/
def placePath (p : Process) : Octets :=
  Octets.ofString (Place.toPath p.place)

/-- Go to the directory that a path leads to; whether it is there. -/
def enter (byPlace : Bool) (path : Octets) : Run Bool := do
  let m ← get
  let p := m.process
  let path := if byPlace then path else logicalPath p.directory path
  match m.tree.resolve (Octets.decode path) with
  | .error _ => return false
  | .ok place =>
      if m.tree.find? place ≠ some .directory then return false
      assign "OLDPWD".toList p.directory true
      let directory := if byPlace then Octets.ofString (Place.toPath place) else path
      changeProcess fun p =>
        { p with place, directory, located := p.located.map ({ · with isStale := true }) }
      assign "PWD".toList directory true
      return true

/-- A path that the search for directories does not go before. -/
def isPlain (path : Octets) : Bool :=
  match (path.takeWhile (· != '/')) with
  | [] => path.head? = some '/'
  | ['.'] | ['.', '.'] => true
  | _ => false

/-- The directory that a path is searched for as, and whether it is told. -/
def searchDirectory (m : Machine) (path : Octets) : Octets × Bool :=
  let elements := match m.process.value? "CDPATH".toList with
    | none => []
    | some searchPath => (searchPath.splitOn ':').zip (candidates searchPath path)
  match elements.find? fun (_, candidate) => m.tree.isDirectory (Octets.decode candidate) with
  | some (element, candidate) => (candidate, !element.isEmpty)
  | none => (path, false)

def changeDirectory : Builtin := fun ws => do
  let (letters, ws) ← switches "LP" ws
  let m ← get
  let p := m.process
  let back := ws.head? = some ['-']
  let target := match ws with
    | [] => (p.value? "HOME".toList).getD []
    | w :: _ => if back then (p.value? "OLDPWD".toList).getD [] else w
  let target := if target.isEmpty then ['.'] else target
  let (path, told) := if isPlain target then (target, false) else searchDirectory m target
  if !(← enter (wantsPlace letters) path) then fail ("can't cd to ".toList ++ target)
  if back || told then printLine (← process).directory
  return 0

def printDirectory : Builtin := fun ws => do
  let (letters, _) ← switches "LP" ws
  let p ← process
  printLine (if wantsPlace letters then placePath p else p.directory)
  return 0

end NetHooks.Shell.Builtin
