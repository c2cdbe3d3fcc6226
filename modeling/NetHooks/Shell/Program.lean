import NetHooks.FileTree
import NetHooks.Shell.Command

/-!
# Programs

What starts when a file is executed. The only program there is, is the shell; a script
names an interpreter in its first line, which may be a script again.
-/
namespace NetHooks.Shell

/-- The shell with the name that it is called by and its operands. -/
structure Image where
  title : Octets
  operands : List Octets
  deriving DecidableEq, Repr

namespace Image

/-- The path of the shell. -/
def shellPath : String := "/bin/sh"

def isShell (tree : FileTree) (place : Place) : Bool :=
  (tree.resolve shellPath).toOption == some place

/-- The octets of a file that are looked at for an interpreter. -/
def headLength : Nat := 256

/-- What ends the name of an interpreter. -/
def endsName (c : Char) : Bool :=
  isBlank c || c == '\x00'

/-- The interpreter that the head of a script names, and its one operand. The head has to
show where the name ends. -/
def interpreter? (content : Octets) : Option (Octets × Option Octets) :=
  match content.take headLength with
  | '#' :: '!' :: rest =>
      let line := (rest.takeWhile (· != '\n')).dropWhile isBlank
      let isCut := !rest.contains '\n' && headLength ≤ content.length
      let name := line.takeWhile (!endsName ·)
      let trimmed := (line.reverse.dropWhile isBlank).reverse
      let operand := match trimmed.drop name.length with
        | c :: beyond => if c = '\x00' then [] else beyond.dropWhile isBlank
        | [] => []
      let operand := operand.takeWhile (· != '\x00')
      if name.isEmpty || (isCut && name.length = line.length) then none
      else some (name, if operand.isEmpty then none else some operand)
  | _ => none

/-- The octets of the file that a path leads to, if it may be executed. -/
def executable (tree : FileTree) (path : Octets) : Except SystemError (Place × Bytes) := do
  let place ← tree.resolve (Octets.decode path)
  match tree.find? place with
  | some (.file bytes mode) => if mayExecute mode then .ok (place, bytes) else .error .accessDenied
  | _ => .error .accessDenied

/-- The number of interpreters that one start goes through. -/
def interpreterLimit : Nat := 5

/-- What starts when a path is executed with a name and operands: the shell itself, or the
interpreter on the path in its place. -/
def loadWithin (tree : FileTree) :
    Nat → Octets → Octets → List Octets → Except SystemError Image
  | rounds, path, name, operands => do
      let (place, bytes) ← executable tree path
      if isShell tree place then return ⟨name, operands⟩
      match interpreter? (Octets.ofBytes (bytes.take headLength)), rounds with
      | none, _ => throw .notExecutable
      | some _, 0 => throw .tooManyLinks
      | some (interpreter, operand?), rounds + 1 =>
          loadWithin tree rounds interpreter interpreter (operand?.toList ++ path :: operands)

/-- The length that no text handed to a program reaches, and the room for all of them. -/
def textLimit : Nat := 131072
def roomForTexts : Nat := 2097152

/-- The texts can be handed to a program. -/
def fits (texts : List Octets) : Bool :=
  texts.all (fun t => decide (t.length < textLimit)) &&
    decide (texts.foldl (fun n t => n + t.length + 9) 0 ≤ roomForTexts)

/-- What starts when a path is executed in an environment. -/
def load (tree : FileTree) (path name : Octets) (operands : List Octets)
    (environment : List (Octets × Octets)) : Except SystemError Image := do
  let _ ← executable tree path
  if !fits (name :: operands ++ environment.map fun (n, v) => n ++ '=' :: v) then
    throw .argumentListTooLong
  loadWithin tree interpreterLimit path name operands

end Image

/-! ### Looking for programs -/

/-- The paths at which a program is looked for. -/
def candidates (searchPath name : Octets) : List Octets :=
  (searchPath.splitOn ':').map fun folder =>
    if folder.isEmpty then name else folder ++ '/' :: name

/-- The first candidate that is there and may be executed, or why there is none. -/
def findProgram (tree : FileTree) (searchPath name : Octets) : Except SystemError Octets :=
  go .notFound (candidates searchPath name)
where
  go (e : SystemError) : List Octets → Except SystemError Octets
    | [] => .error e
    | path :: rest =>
        match Image.executable tree path with
        | .ok _ => .ok path
        | .error .notFound | .error .notDirectory => go e rest
        | .error e => go e rest

/-- Why a program does not start, as the shell reports it. -/
def missingText : SystemError → Octets
  | .notFound | .notDirectory => "not found".toList
  | e => e.reason.1.toList

/-- The status of a command that does not start. -/
def missingStatus : SystemError → Nat
  | .notFound | .notDirectory | .tooManyLinks | .nameTooLong => 127
  | _ => 126

end NetHooks.Shell
