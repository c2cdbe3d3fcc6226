import NetHooks.Path
import NetHooks.SystemError
import NetHooks.Text.Utf8

/-!
# File trees

Files, directories and symbolic links as a value. A place is a list of names from the
root; a tree says what stands at each place, and `locate` walks a written path to its
place, through links and parent steps, the way the system does.
-/
namespace NetHooks

/-- The names from the root down. -/
abbrev Place := List String

inductive Entry where
  | file (bytes : Bytes) (mode : Nat)
  | directory
  | link (target : String)
  /-- A device that reads as empty and swallows what is written. -/
  | sink
  deriving DecidableEq

def Entry.size : Entry → Nat
  | .file bytes _ => bytes.length
  | _ => 0

/-- The owner may read a file of the mode. -/
def mayRead (mode : Nat) : Bool := mode &&& 0o400 != 0

/-- The owner may write a file of the mode. -/
def mayWrite (mode : Nat) : Bool := mode &&& 0o200 != 0

/-- The owner may execute a file of the mode. -/
def mayExecute (mode : Nat) : Bool := mode &&& 0o100 != 0

structure FileTree where
  entries : List (Place × Entry)
  /-- Where relative paths start. -/
  workplace : Place

/-- What a path leads to: something, or a name that its directory does not hold. -/
inductive Spot where
  | present (place : Place)
  | absent (place : Place) (trailing : Bool)
  deriving DecidableEq

def Place.toPath (p : Place) : String :=
  "/" ++ "/".intercalate p

namespace FileTree

def find? (t : FileTree) (p : Place) : Option Entry :=
  if p = [] then some .directory
  else (t.entries.find? fun e => e.1 = p).map (·.2)

def remove (t : FileTree) (p : Place) : FileTree :=
  { t with entries := t.entries.filter fun e => e.1 ≠ p }

def put (t : FileTree) (p : Place) (e : Entry) : FileTree :=
  { t with entries := (p, e) :: t.entries.filter fun e => e.1 ≠ p }

/-- The longest name that a directory holds. -/
def nameLimit : Nat := 255

/-- The length that no path reaches. -/
def pathLimit : Nat := 4096

/-- The number of links that one walk goes through. -/
def linkLimit : Nat := 40

/-- Walk the names on from a place. Every step starts in a directory; a link is walked
from its own directory, and the last one only if `follow` asks for it. -/
def walk (t : FileTree) (follow : Bool) (links : Nat) (here : Place) :
    List String → Except SystemError Spot
  | [] => .ok (.present here)
  | name :: rest =>
      if t.find? here ≠ some .directory then .error .notDirectory
      else if name = "" ∨ name = "." then walk t follow links here rest
      else if name = ".." then walk t follow links here.dropLast rest
      else if nameLimit < name.utf8ByteSize then .error .nameTooLong
      else match t.find? (here ++ [name]) with
        | none =>
            if rest.all (· = "") then .ok (.absent (here ++ [name]) (!rest.isEmpty))
            else .error .notFound
        | some (.link target) =>
            if rest.isEmpty && !follow then .ok (.present (here ++ [name]))
            else match links with
              | 0 => .error .tooManyLinks
              | links + 1 =>
                  if target = "" then .error .notFound
                  else walk t follow links (if Path.isAbsolute target then [] else here)
                    (Path.names target ++ rest)
        | some _ => walk t follow links (here ++ [name]) rest
  termination_by rest => (links, rest.length)

/-- What no walk is begun for. -/
def refusal? (path : String) : Option SystemError :=
  if path.contains '\x00' then some .nulInPath
  else if path = "" then some .notFound
  else if pathLimit ≤ path.utf8ByteSize then some .nameTooLong
  else none

def start (t : FileTree) (path : String) : Place :=
  if Path.isAbsolute path then [] else t.workplace

def locate (t : FileTree) (path : String) (follow : Bool) : Except SystemError Spot :=
  match refusal? path with
  | some e => .error e
  | none => t.walk follow linkLimit (t.start path) (Path.names path)

/-- The place of something that exists, through every link. -/
def resolve (t : FileTree) (path : String) : Except SystemError Place :=
  match t.locate path true with
  | .ok (.present p) => .ok p
  | .ok (.absent _ _) => .error .notFound
  | .error e => .error e

def entryAt (t : FileTree) (path : String) : Option Entry :=
  match t.resolve path with
  | .ok p => t.find? p
  | .error _ => none

def isFile (t : FileTree) (path : String) : Bool :=
  match t.entryAt path with
  | some (.file _ _) => true
  | _ => false

def isDirectory (t : FileTree) (path : String) : Bool :=
  t.entryAt path == some .directory

/-- A file that anyone may execute. -/
def isExecutable (t : FileTree) (path : String) : Bool :=
  match t.entryAt path with
  | some (.file _ mode) => mode &&& 0o111 != 0
  | _ => false

/-- The one path of a place, or the path itself when nothing is there. -/
def identify (t : FileTree) (path : String) : String :=
  match t.resolve path with
  | .ok p => Place.toPath p
  | .error _ => path

def readBytes (t : FileTree) (path : String) : Except SystemError Bytes :=
  match t.resolve path with
  | .error e => .error e
  | .ok p =>
      match t.find? p with
      | some (.file bytes mode) => if mayRead mode then .ok bytes else .error .accessDenied
      | some .sink => .ok []
      | some .directory => .error .isDirectory
      | _ => .error .notFound

def readText (t : FileTree) (path : String) : Except SystemError String :=
  match t.readBytes path with
  | .error e => .error e
  | .ok bytes =>
      match Text.decode? bytes with
      | some s => .ok (String.ofList s)
      | none => .error .invalidText

/-- The name of an entry that stands right under a place. -/
def childName? (p : Place) (e : Place × Entry) : Option String :=
  match e.1.getLast? with
  | some name => if e.1.dropLast = p then some name else none
  | none => none

/-- The names in a directory, in ascending order. -/
def list (t : FileTree) (path : String) : Except SystemError (List String) :=
  match t.resolve path with
  | .error e => .error e
  | .ok p =>
      if t.find? p = some .directory then
        .ok ((t.entries.filterMap (childName? p)).mergeSort (fun a b => decide (a ≤ b)))
      else .error .notDirectory

/-- Hidden names and the names of backups are passed over. -/
def isPassedOver (name : String) : Bool :=
  name.toList.head? == some '.' || name.toList.getLast? == some '~'

/-- The paths of the regular files in a directory that are not passed over, in ascending
order of name. -/
def members (t : FileTree) (path : String) : Except SystemError (List String) :=
  (t.list path).map fun names =>
    ((names.filter (!isPassedOver ·)).map (Path.join path)).filter t.isFile

/-! ### Changes -/

def newFileMode : Nat := 0o644

/-- Write a file from its beginning, or on at its end, and make it if it is new. -/
def write (t : FileTree) (path : String) (bytes : Bytes) (append : Bool) :
    Except SystemError FileTree :=
  match t.locate path true with
  | .error e => .error e
  | .ok (.absent p trailing) =>
      if trailing then .error .isDirectory else .ok (t.put p (.file bytes newFileMode))
  | .ok (.present p) =>
      match t.find? p with
      | some (.file old mode) => .ok (t.put p (.file (if append then old ++ bytes else bytes) mode))
      | some .sink => .ok t
      | _ => .error .isDirectory

/-- How a file that is written is opened. -/
structure Opening where
  /-- What is in the file stays. -/
  keeps : Bool
  /-- The file is read as well. -/
  reads : Bool
  /-- No file is there yet. -/
  isNew : Bool
  /-- The mode of a file that is made. -/
  mode : Nat

/-- Open a file to write it, and make it if it is not there. -/
def openToWrite (t : FileTree) (path : String) (o : Opening) :
    Except SystemError (FileTree × Place) :=
  match t.locate path true with
  | .error e => .error e
  | .ok (.absent p trailing) =>
      if trailing then .error .isDirectory else .ok (t.put p (.file [] o.mode), p)
  | .ok (.present p) =>
      match t.find? p with
      | some (.file bytes mode) =>
          if o.isNew then .error .alreadyExists
          else if !mayWrite mode || (o.reads && !mayRead mode) then .error .accessDenied
          else .ok (t.put p (.file (if o.keeps then bytes else []) mode), p)
      | some .sink => .ok (t, p)
      | _ => .error .isDirectory

/-- The octets with a text written over them at an offset. A gap is filled with NULs. -/
def overwrite (bytes : Bytes) (offset : Nat) (text : Bytes) : Bytes :=
  bytes.take offset ++ List.replicate (offset - bytes.length) 0 ++ text ++
    bytes.drop (offset + text.length)

/-- Write a text into a file. -/
def writeAt (t : FileTree) (p : Place) (offset : Nat) (text : Bytes) : FileTree :=
  match t.find? p with
  | some (.file bytes mode) => t.put p (.file (overwrite bytes offset text) mode)
  | _ => t

/-- Write a file and give it a mode. -/
def makeFile (t : FileTree) (path : String) (bytes : Bytes) (mode : Nat) :
    Except SystemError FileTree := do
  let u ← t.write path bytes false
  match u.resolve path with
  | .ok p => return u.put p (.file bytes mode)
  | .error e => .error e

def makeDirectory (t : FileTree) (path : String) : Except SystemError FileTree :=
  match t.locate path false with
  | .error e => .error e
  | .ok (.present _) => .error .alreadyExists
  | .ok (.absent p _) => .ok (t.put p .directory)

def makeLink (t : FileTree) (path target : String) : Except SystemError FileTree :=
  match t.locate path false with
  | .error e => .error e
  | .ok (.present _) => .error .alreadyExists
  | .ok (.absent p _) => .ok (t.put p (.link target))

/-- Make a directory with the missing ones above it; `depth` bounds how many. The directories
that are made before one cannot be made stay. -/
def makeDirectoriesTo (t : FileTree) : Nat → String → FileTree × Option SystemError
  | 0, _ => (t, none)
  | depth + 1, path =>
      if path = "" then (t, none)
      else match t.makeDirectory path with
        | .ok u => (u, none)
        | .error .notFound =>
            match Path.parent? path with
            | none => (t, some .notFound)
            | some parent =>
                match t.makeDirectoriesTo depth parent with
                | (u, some e) => (u, some e)
                | (u, none) =>
                    match u.makeDirectory path with
                    | .ok v => (v, none)
                    | .error e => if u.isDirectory path then (u, none) else (u, some e)
        | .error e => if t.isDirectory path then (t, none) else (t, some e)

/-- The tree with the missing directories of a path, as far as they can be made. -/
def withDirectories (t : FileTree) (path : String) : FileTree × Option SystemError :=
  t.makeDirectoriesTo ((Path.names path).length + 1) path

def makeDirectories (t : FileTree) (path : String) : Except SystemError FileTree :=
  match t.withDirectories path with
  | (u, none) => .ok u
  | (_, some e) => .error e

/-- Whether the last name of a path is a step and not a name of its own. -/
def endsInStep (path : String) : Bool :=
  match (Path.names path).reverse.dropWhile (· = "") with
  | [] => true
  | name :: _ => name = "." || name = ".."

/-- Move the file at a place to a path in one step, in place of any file or link there. -/
def rename (t : FileTree) (p : Place) (path : String) : Except SystemError FileTree :=
  match t.find? p with
  | none => .error .notFound
  | some e =>
      match t.locate path (path.toList.getLast? == some '/') with
      | .error e => .error e
      | .ok (.absent q trailing) =>
          if trailing then .error .notDirectory else .ok ((t.remove p).put q e)
      | .ok (.present q) =>
          if endsInStep path then .error .busy
          else if path.toList.getLast? == some '/' then .error .notDirectory
          else if t.find? q = some .directory then .error .isDirectory
          else .ok ((t.remove p).put q e)

/-! ### What is bounded -/

/-- The paths of all places that hold something. -/
def identities (t : FileTree) : List String :=
  t.entries.map fun e => Place.toPath e.1

/-- A bound on the length of a text that can be read and on the size of a directory. -/
def extent (t : FileTree) : Nat :=
  t.entries.foldr (fun e n => e.2.size + n) t.entries.length

theorem length_entries_le_extent (t : FileTree) : t.entries.length ≤ t.extent := by
  have : ∀ (l : List (Place × Entry)) (n : Nat), n ≤ l.foldr (fun e n => e.2.size + n) n := by
    intro l n
    induction l with
    | nil => exact Nat.le_refl n
    | cons e l ih => exact Nat.le_trans ih (Nat.le_add_left ..)
  exact this ..

theorem mem_of_find? {t : FileTree} {p : Place} {e : Entry} (hp : p ≠ [])
    (h : t.find? p = some e) : (p, e) ∈ t.entries := by
  simp only [find?, hp, if_false, Option.map_eq_some_iff] at h
  obtain ⟨⟨q, f⟩, hq, rfl⟩ := h
  have hqp : q = p := by simpa using List.find?_some hq
  exact hqp ▸ List.mem_of_find?_eq_some hq

theorem readBytes_eq_ok {t : FileTree} {path : String} {bytes : Bytes}
    (h : t.readBytes path = .ok bytes) :
    ∃ p e, t.resolve path = .ok p ∧ (p, e) ∈ t.entries ∧ bytes.length ≤ e.size := by
  simp only [readBytes] at h
  split at h
  · cases h
  · next p hp =>
      split at h
      · next b mode he =>
          split at h
          · cases h
            exact ⟨p, _, hp, mem_of_find? (by rintro rfl; simp [find?] at he) he, Nat.le_refl _⟩
          · cases h
      · next he =>
          cases h
          exact ⟨p, _, hp, mem_of_find? (by rintro rfl; simp [find?] at he) he, Nat.zero_le _⟩
      · cases h
      · cases h

theorem size_le_extent {t : FileTree} {p : Place} {e : Entry} (h : (p, e) ∈ t.entries) :
    e.size ≤ t.extent := by
  have : ∀ (l : List (Place × Entry)) (n : Nat), (p, e) ∈ l →
      e.size ≤ l.foldr (fun e n => e.2.size + n) n := by
    intro l n h
    induction l with
    | nil => cases h
    | cons a l ih =>
        rcases List.mem_cons.1 h with rfl | h
        · exact Nat.le_add_right ..
        · exact Nat.le_trans (ih h) (Nat.le_add_left ..)
  exact this _ _ h

theorem readText_eq_ok {t : FileTree} {path s : String} (h : t.readText path = .ok s) :
    ∃ bytes cs, t.readBytes path = .ok bytes ∧ Text.decode? bytes = some cs ∧
      s = String.ofList cs := by
  simp only [readText] at h
  split at h
  · cases h
  · next bytes hb =>
      split at h
      · next cs hd => cases h; exact ⟨bytes, cs, hb, hd, rfl⟩
      · cases h

theorem identify_mem_identities {t : FileTree} {path s : String} (h : t.readText path = .ok s) :
    t.identify path ∈ t.identities := by
  obtain ⟨bytes, _, hb, -, -⟩ := readText_eq_ok h
  obtain ⟨p, e, hp, he, -⟩ := readBytes_eq_ok hb
  simp only [identify, hp]
  exact List.mem_map.2 ⟨(p, e), he, rfl⟩

theorem length_readText_le {t : FileTree} {path s : String} (h : t.readText path = .ok s) :
    s.length ≤ t.extent := by
  obtain ⟨bytes, cs, hb, hd, rfl⟩ := readText_eq_ok h
  obtain ⟨p, e, -, he, hle⟩ := readBytes_eq_ok hb
  have h₁ := Text.length_of_decode? hd
  have h₂ := size_le_extent he
  simp only [String.length_ofList]
  omega

theorem length_members_le {t : FileTree} {path : String} {ms : List String}
    (h : t.members path = .ok ms) : ms.length ≤ t.extent := by
  simp only [members, list] at h
  split at h
  · cases h
  · split at h
    · cases h
      refine Nat.le_trans (List.length_filter_le ..) ?_
      rw [List.length_map]
      refine Nat.le_trans (List.length_filter_le ..) ?_
      rw [List.length_mergeSort]
      exact Nat.le_trans (List.length_filterMap_le ..) t.length_entries_le_extent
    · cases h

end FileTree

end NetHooks
