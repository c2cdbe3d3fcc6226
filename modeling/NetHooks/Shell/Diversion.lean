import NetHooks.Shell.Expansion

/-!
# Redirections

How redirections are carried out: their words are expanded, files are opened, and the
descriptors lead to what was opened until they are put back.
-/
namespace NetHooks.Shell

/-- What a redirection leads to, with its word expanded. -/
inductive Goal where
  | file (mode : OpenMode) (path : Octets)
  /-- The same as another descriptor, or closed. -/
  | copy (source? : Option Nat)
  | document (text : Word) (expanded : Bool)

/-- A redirection that can be carried out. -/
structure Diversion where
  descriptor : Nat
  goal : Goal

namespace Diversion

/-- The descriptor that a text names, or none if it closes one. -/
def source (text : Octets) : Run (Option Nat) := do
  let bad : Run (Option Nat) := do
    changeProcess fun p => { p with line := p.inputLine }
    fail "Syntax error: Bad fd number".toList
  match text with
  | ['-'] => return none
  | [c] => if c.isDigit then return some (c.toNat - '0'.toNat) else bad
  | _ => bad

/-- The redirection with its word expanded. A document is expanded only when it is opened. -/
def ofRedirection (sub : Substituter) : Redirection → Run Diversion
  | .mk descriptor target => do
      match target with
      | .file mode path => return ⟨descriptor, .file mode (← Expansion.text sub path)⟩
      | .copy w => return ⟨descriptor, .copy (← source (← Expansion.text sub w))⟩
      | .document text expanded => return ⟨descriptor, .document text expanded⟩

/-- The word that gives a text and nothing else. -/
def literal (text : Octets) : Word :=
  text.map (Part.char · true)

/-- The redirection that does the same wherever it is carried out. -/
def toRedirection (d : Diversion) : Redirection :=
  .mk d.descriptor (match d.goal with
    | .file mode path => .file mode (literal path)
    | .copy source? => .copy (literal ((source?.map Octets.ofNat).getD ['-']))
    | .document text expanded => .document text expanded)

/-! ### Opening -/

/-- Report that a file cannot be opened, or made. -/
def cannot (make : Bool) (path : Octets) (e : SystemError) : Run α :=
  let reason := match e with
    | .notFound | .notDirectory => if make then "Directory nonexistent" else "No such file"
    | e => e.reason.1
  fail ("cannot ".toList ++ (if make then "create " else "open ").toList ++ path ++ ": ".toList ++
    reason.toList)

/-- The descriptor that a path names. -/
def descriptorOf? (path : Octets) : Option Nat :=
  match ["/dev/stdin", "/dev/stdout", "/dev/stderr"].findIdx? (·.toList == path) with
  | some n => some n
  | none =>
      let start := "/dev/fd/".toList
      if start.isPrefixOf path then Octets.number? (path.drop start.length) else none

/-- An endpoint at the beginning of a file. -/
def fileEnd (place : Place) (access : Access) : Run Endpoint := do
  let m ← get
  let (n, system) := m.system.addOffset
  set { m with system }
  return .file place n access

/-- Open a file to read it. -/
def openToRead (path : Octets) (name : String) : Run Endpoint := do
  let tree := (← get).tree
  match tree.resolve name with
  | .error e => cannot false path e
  | .ok place =>
      match tree.find? place with
      | some (.file _ mode) =>
          if mayRead mode then fileEnd place { reads := true } else cannot false path .accessDenied
      | some .sink => return .sink
      | _ => return .directory

/-- Open a file to write it. -/
def openToWrite (mode : OpenMode) (path : Octets) (name : String) : Run Endpoint := do
  let m ← get
  let p := m.process
  let tree := m.tree
  let keepsOld := mode = .write && p.isOn 'C'
  let entry? := tree.entryAt name
  match entry? with
  | some (.file ..) => if keepsOld then cannot true path .alreadyExists
  | _ => pure ()
  let opening : FileTree.Opening := {
    keeps := mode = .append || mode = .readWrite
    reads := mode = .readWrite
    isNew := keepsOld && entry?.isNone
    mode := 0o666 &&& (0o777 - p.mask) }
  match tree.openToWrite name opening with
  | .error e => cannot (!keepsOld || entry?.isNone) path e
  | .ok (tree, place) =>
      modify (·.setTree { tree with workplace := m.system.tree.workplace })
      if tree.find? place = some .sink then return .sink
      else
        fileEnd place { reads := mode = .readWrite, writes := true, appends := mode = .append }

/-- Open a file. A path that names a descriptor opens its file anew; what else a descriptor
leads to is taken as it is. -/
def openFile (mode : OpenMode) (path : Octets) : Run Endpoint := do
  let opened (name : String) : Run Endpoint :=
    if mode = .read then openToRead path name else openToWrite mode path name
  match descriptorOf? path with
  | none => opened (Octets.decode path)
  | some d =>
      match (← process).endpoint? d with
      | none => cannot (mode != .read) path .notFound
      | some (.file place _ _) => opened (Place.toPath place)
      | some e => return e

/-- Make a descriptor lead somewhere else. -/
def carryOut (sub : Substituter) (d : Diversion) : Run Unit := do
  let lead (e? : Option Endpoint) : Run Unit := changeProcess (·.setEndpoint d.descriptor e?)
  match d.goal with
  | .file mode path => lead (some (← openFile mode path))
  | .copy none => lead none
  | .copy (some n) =>
      if n = d.descriptor then return
      match (← process).endpoint? n with
      | some e => lead (some e)
      | none => fail (Octets.ofNat n ++ ": Bad file descriptor".toList)
  | .document w expanded =>
      let unread ← if expanded then Expansion.document sub w else pure (Word.characters w)
      let m ← get
      let (n, system) := m.system.addPipe { unread }
      set { m with system }
      lead (some (.pipe n true))

/-! ### Putting back -/

/-- What the descriptors of diversions lead to, and the number of the last pipe or offset. -/
structure Before where
  endpoints : List (Nat × Option Endpoint)
  lastNumber : Nat

def before (ds : List Diversion) : Run Before := do
  let m ← get
  return ⟨ds.map fun d => (d.descriptor, m.process.endpoint? d.descriptor), m.system.lastNumber⟩

/-- Forget what no descriptor leads to any more. -/
def tidy (lastNumber : Nat) : Run Unit :=
  modify fun m =>
    let kept := (m.process :: m.waiting.map (·.starter)).flatMap (·.endpoints.map (·.2))
    { m with system := m.system.forget lastNumber kept }

/-- Put descriptors back. -/
def Before.restore (b : Before) : Run Unit := do
  if b.endpoints.isEmpty then return
  changeProcess fun p => b.endpoints.foldr (fun (d, e?) p => p.setEndpoint d e?) p
  tidy b.lastNumber

/-- Run something; if it stops, put descriptors back before the stop goes on. -/
def Before.around (b : Before) (act : Run α) : Run α := do
  match ← captured act with
  | .ok a => return a
  | .error s =>
      b.restore
      throw s

/-- Carry diversions out one after another, where what descriptors lead to is put aside first.
The error output is then closed while another descriptor is made its source, so a message that
there is no such descriptor is lost. -/
def carryOutAside (sub : Substituter) : List Nat → List Diversion → Run Unit
  | _, [] => return
  | aside, d :: ds => do
      match d.goal with
      | .copy (some n) =>
          if n ≠ d.descriptor && !aside.contains d.descriptor &&
              ((← process).endpoint? n).isNone then
            changeProcess (·.setEndpoint d.descriptor none)
      | _ => pure ()
      carryOut sub d
      carryOutAside sub (d.descriptor :: aside) ds

/-- Carry diversions out; the status of that, where 2 means that one failed. -/
def carryOutAll (sub : Substituter) (ds : List Diversion) : Run Nat := do
  match ← captured (carryOutAside sub [] ds) with
  | .ok _ => return 0
  | .error .fault => return 2
  | .error s => throw s

end Diversion

end NetHooks.Shell
