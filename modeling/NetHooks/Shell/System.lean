import NetHooks.FileTree
import NetHooks.Shell.Octets

/-!
# What processes share

Files, pipes and the two outputs, and the ends at which a process reads and writes them.

Processes run one after another. A process that writes to a pipe runs before the one that
reads it, so a pipe has room for so much only, and keeps in mind whether its writer was
cut off and whether its reader missed what the writer would have written.
-/
namespace NetHooks.Shell

/-- What a file may be used for through a descriptor. -/
structure Access where
  reads : Bool := false
  writes : Bool := false
  /-- What is written goes to the end of the file. -/
  appends : Bool := false
  deriving DecidableEq, Repr

/-- What a descriptor leads to. -/
inductive Endpoint where
  | sink
  | stdout
  | stderr
  | directory
  /-- A file, and the number of the offset that is kept for it. -/
  | file (place : Place) (offset : Nat) (access : Access)
  | pipe (number : Nat) (reads : Bool)
  deriving DecidableEq

structure Pipe where
  unread : Octets := []
  /-- What was written since the last reading, the last text first. -/
  written : List Octets := []
  /-- How many octets it still takes, if there is a limit. -/
  room? : Option Nat := none
  wasCutOff : Bool := false
  wasMissed : Bool := false

namespace Pipe

/-- All that is to be read. -/
def contents (p : Pipe) : Octets :=
  if p.written.isEmpty then p.unread else p.unread ++ p.written.reverse.flatten

/-- Take a text, or as much of it as there is room for. -/
def write (p : Pipe) (text : Octets) : Pipe :=
  match p.room? with
  | none => { p with written := text :: p.written }
  | some room =>
      let taken := text.take room
      { p with
        written := taken :: p.written
        room? := some (room - taken.length)
        wasCutOff := p.wasCutOff || decide (room < text.length) }

end Pipe

/-- What came of writing. -/
inductive Written where
  | done
  | refused
  /-- Nobody reads what is written. -/
  | broken
  deriving DecidableEq, Repr

structure System where
  tree : FileTree
  /-- What was printed, the last text first. -/
  output : List Octets := []
  errors : List Octets := []
  offsets : List (Nat × Nat) := []
  pipes : List (Nat × Pipe) := []
  /-- The number that was last given to an offset or a pipe. -/
  lastNumber : Nat := 0

namespace System

def offset (s : System) (n : Nat) : Nat :=
  (s.offsets.lookup n).getD 0

def setOffset (s : System) (n offset : Nat) : System :=
  { s with offsets := s.offsets.map fun e => if e.1 = n then (n, offset) else e }

def pipe (s : System) (n : Nat) : Pipe :=
  (s.pipes.lookup n).getD {}

def setPipe (s : System) (n : Nat) (p : Pipe) : System :=
  { s with pipes := s.pipes.map fun e => if e.1 = n then (n, p) else e }

/-- A new pipe. -/
def addPipe (s : System) (p : Pipe) : Nat × System :=
  let n := s.lastNumber + 1
  (n, { s with lastNumber := n, pipes := (n, p) :: s.pipes })

/-- A new offset at the beginning of a file. -/
def addOffset (s : System) : Nat × System :=
  let n := s.lastNumber + 1
  (n, { s with lastNumber := n, offsets := (n, 0) :: s.offsets })

/-- Forget the pipes and offsets that none of the endpoints leads to, of those that are
newer than a number. -/
def forget (s : System) (newerThan : Nat) (endpoints : List Endpoint) : System :=
  if s.lastNumber = newerThan then s
  else
    let isUsed (n : Nat) : Bool := decide (n ≤ newerThan) || endpoints.any fun
      | .file _ m _ => m == n
      | .pipe m _ => m == n
      | _ => false
    { s with
      offsets := s.offsets.filter fun e => isUsed e.1
      pipes := s.pipes.filter fun e => isUsed e.1 }

def fileBytes (s : System) (place : Place) : Bytes :=
  match s.tree.find? place with
  | some (.file bytes _) => bytes
  | _ => []

/-- Write a text to an endpoint. -/
def write (s : System) (e : Endpoint) (text : Octets) : Written × System :=
  match e with
  | .sink => (.done, s)
  | .stdout => (.done, { s with output := text :: s.output })
  | .stderr => (.done, { s with errors := text :: s.errors })
  | .directory | .pipe _ true => (.refused, s)
  | .pipe n false =>
      let p := (s.pipe n).write text
      (if p.wasCutOff then .broken else .done, s.setPipe n p)
  | .file place n access =>
      if !access.writes then (.refused, s)
      else
        let at_ := if access.appends then (s.fileBytes place).length else s.offset n
        let bytes := Octets.toBytes text
        let s := { s with tree := s.tree.writeAt place at_ bytes }
        (.done, s.setOffset n (at_ + bytes.length))

/-- What is to be read from an endpoint; nothing where it cannot be read from. -/
def unread? (s : System) (e : Endpoint) : Option Octets :=
  match e with
  | .sink => some []
  | .file place n access =>
      if access.reads then some (Octets.ofBytes ((s.fileBytes place).drop (s.offset n))) else none
  | .pipe n true => some (s.pipe n).contents
  | .stdout | .stderr | .directory | .pipe _ false => none

/-- Take so many octets from an endpoint; whether more were wanted than there are. -/
def consume (s : System) (e : Endpoint) (count : Nat) (wantsMore : Bool) : System :=
  match e with
  | .file _ n _ => s.setOffset n (s.offset n + count)
  | .pipe n true =>
      let p := s.pipe n
      s.setPipe n { p with
        unread := p.contents.drop count
        written := []
        wasMissed := p.wasMissed || (wantsMore && p.wasCutOff) }
  | _ => s

end System

end NetHooks.Shell
