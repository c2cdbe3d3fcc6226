import NetHooks.LogicalLine
import NetHooks.Path
import NetHooks.Source.Directive

/-!
# Feeds

A feed delivers the lines of a source one by one, with the lines of included files in
the place of their include line, without the lines under a guard that fails, and with
substitution done. It works in steps; `Feed.next` steps until a line, an error or the
end.

A guard lifts the lines under it by one level, so guards never show up as nesting.
-/
namespace NetHooks

/-- The files that sources are read from, and what bounds them: `files` holds the identity
of everything readable, `extent` bounds the length of each text and directory. -/
structure Library where
  identify : String → String
  read : String → Except SystemError String
  isFile : String → Bool
  isDirectory : String → Bool
  members : String → Except SystemError (List String)
  files : List String
  extent : Nat
  identify_mem : ∀ {path text}, read path = .ok text → identify path ∈ files
  length_read_le : ∀ {path text}, read path = .ok text → text.length ≤ extent
  length_members_le : ∀ {path paths}, members path = .ok paths → paths.length ≤ extent

/-- A delivered line. -/
structure Line where
  level : Nat
  content : String
  location : Location
  deriving DecidableEq, Repr, Inhabited

/-- A guard in force and the level of its line. -/
structure Guard where
  level : Nat
  enabled : Bool
  deriving DecidableEq, Repr

/-- A file that is opened: its identity and the lines not yet read. -/
structure Reading where
  identity : String
  rest : List LogicalLine
  deriving DecidableEq, Repr

/-- A file that is read, or waits to be opened. -/
structure Segment where
  path : String
  /-- The level of the line that included the file. -/
  offset : Nat
  levels : Indentation.Levels
  reading : Option Reading
  /-- The line that included the file. -/
  site : Option Location
  deriving DecidableEq, Repr

def Segment.pending (path : String) (offset : Nat) (site : Option Location) : Segment :=
  ⟨path, offset, .empty, none, site⟩

def Segment.isOpen (s : Segment) : Bool :=
  s.reading.isSome

structure Feed where
  definitions : Definitions
  /-- Innermost first. -/
  guards : List Guard
  /-- Innermost first. -/
  segments : List Segment
  /-- The identities of the files being read. -/
  active : List String

namespace Feed

/-- A feed that begins by opening the file. -/
def ofFile (path : String) : Feed :=
  ⟨.empty, [], [.pending path 0 none], []⟩

/-- A feed over a given text, which counts as the text of the file. -/
def ofText (library : Library) (path text : String) : Feed :=
  let identity := library.identify path
  ⟨.empty, [], [⟨path, 0, .empty, some ⟨identity, logicalLines text⟩, none⟩], [identity]⟩

inductive Step where
  /-- A step without a visible result. -/
  | working (feed : Feed)
  | delivered (line : Line) (feed : Feed)
  | failed (error : SourceError) (feed : Feed)
  | finished (feed : Feed)

/-- Open the innermost segment. A file that is being read is not opened again. -/
def openSegment (library : Library) (f : Feed) (s : Segment) (below : List Segment) : Step :=
  let identity := library.identify s.path
  if f.active.contains identity then
    .failed (.recursiveInclude s.path (s.site.getD ⟨s.path, 0⟩)) f
  else match library.read s.path with
    | .error e => .failed (.unreadable s.path e) f
    | .ok text =>
        .working { f with
          segments := { s with reading := some ⟨identity, logicalLines text⟩ } :: below
          active := identity :: f.active }

/-- The guards that still stand over a line at the level. -/
def standing (guards : List Guard) (level : Nat) : List Guard :=
  guards.dropWhile (level ≤ ·.level)

/-- Some guard hides the lines under it. -/
def isHidden : List Guard → Bool
  | [] => false
  | g :: _ => !g.enabled

/-- Put the files that an include line names before what is being read. -/
def includeFiles (library : Library) (f : Feed) (target : String) (level : Nat)
    (l : Location) : Step :=
  let path := Path.join ((Path.parent? l.file).getD "") target
  if library.isFile path then
    .working { f with segments := .pending path level (some l) :: f.segments }
  else if library.isDirectory path then
    match library.members path with
    | .error e => .failed (.unreadable path e) f
    | .ok paths =>
        .working { f with
          segments := paths.map (Segment.pending · level (some l)) ++ f.segments }
  else .failed (.includeNotFound path l) f

def obey (library : Library) (f : Feed) (level : Nat) (l : Location) : Directive → Step
  | .include target => includeFiles library f target level l
  | .define identifier value =>
      .working { f with definitions := f.definitions.insert identifier value }
  | .undefine identifier => .working { f with definitions := f.definitions.erase identifier }
  | .guard identifier wanted =>
      .working { f with
        guards := ⟨level, f.definitions.contains identifier == wanted⟩ :: f.guards }

/-- A line that no guard hides: obey it as a directive, or deliver it. -/
def takeLine (library : Library) (f : Feed) (level : Nat) (text : String) (l : Location) : Step :=
  let keyword := String.ofList (Text.firstToken text.toList)
  match Directive.read keyword text l with
  | .error e => .failed e f
  | .ok (some directive) => obey library f level l directive
  | .ok none =>
      match f.definitions.substitute text with
      | .error key => .failed (.unknownSubstitution key l) f
      | .ok content => .delivered ⟨level - f.guards.length, content, l⟩ f

/-- One step: open the innermost file, close it, or take its next line. -/
def step (library : Library) (f : Feed) : Step :=
  match f.segments with
  | [] => .finished f
  | s :: below =>
      match s.reading with
      | none => openSegment library f s below
      | some ⟨identity, []⟩ =>
          .working { f with segments := below, active := f.active.filter (· ≠ identity) }
      | some ⟨identity, line :: rest⟩ =>
          let l : Location := ⟨s.path, line.number⟩
          let s := { s with reading := some ⟨identity, rest⟩ }
          match s.levels.fit? line.width with
          | none => .failed (.badIndentation l) { f with segments := s :: below }
          | some levels =>
              let level := s.offset + levels.level
              let f := { f with
                segments := { s with levels } :: below
                guards := standing f.guards level }
              if isHidden f.guards then .working f
              else takeLine library f level line.text l

/-! ### How many steps there can be -/

/-- A bound on the steps that an unopened file takes while `closed` further files can be
opened: it opens, closes, and each of its lines may open that many members. -/
def fileCost (extent : Nat) : Nat → Nat
  | 0 => 1
  | closed + 1 => 2 + (extent + 1) * (1 + (extent + 1) * fileCost extent closed)

/-- The number of files that may still be opened above the segments. -/
def closedFiles (library : Library) (below : List Segment) : Nat :=
  library.files.length + 1 - below.countP Segment.isOpen

/-- A bound on the steps that are left. -/
def work (library : Library) : List Segment → Nat
  | [] => 0
  | s :: below =>
      work library below +
        match s.reading with
        | none => fileCost library.extent (closedFiles library below)
        | some r =>
            1 + r.rest.length *
              (1 + (library.extent + 1) * fileCost library.extent (closedFiles library below - 1))

theorem one_le_fileCost (extent closed : Nat) : 1 ≤ fileCost extent closed := by
  cases closed <;> simp only [fileCost] <;> omega

theorem fileCost_le_succ (extent closed : Nat) :
    fileCost extent closed ≤ fileCost extent (closed + 1) := by
  have h : fileCost extent closed ≤ (extent + 1) * fileCost extent closed :=
    Nat.le_mul_of_pos_left _ (Nat.succ_pos _)
  have h' : 1 + (extent + 1) * fileCost extent closed ≤
      (extent + 1) * (1 + (extent + 1) * fileCost extent closed) :=
    Nat.le_mul_of_pos_left _ (Nat.succ_pos _)
  simp only [fileCost]
  omega

theorem fileCost_mono {extent m n : Nat} (h : m ≤ n) : fileCost extent m ≤ fileCost extent n := by
  induction h with
  | refl => exact Nat.le_refl _
  | step _ ih => exact Nat.le_trans ih (fileCost_le_succ ..)

theorem fileCost_le_pow (extent closed : Nat) :
    fileCost extent closed ≤ Nat.pow (extent + 3) (2 * closed) := by
  change fileCost extent closed ≤ (extent + 3) ^ (2 * closed)
  induction closed with
  | zero => exact Nat.le_refl _
  | succ n ih =>
      have one := one_le_fileCost extent n
      have factor : 2 + (extent + 1) + (extent + 1) * (extent + 1) ≤ (extent + 3) ^ 2 := by
        rw [Nat.pow_two]
        have : (extent + 3) * (extent + 3) = (extent + 1) * (extent + 1) + 4 * extent + 8 := by
          simp only [Nat.add_mul, Nat.mul_add]
          omega
        omega
      calc fileCost extent (n + 1)
          = 2 + (extent + 1) + (extent + 1) * (extent + 1) * fileCost extent n := by
            rw [fileCost, Nat.mul_add (extent + 1) 1, Nat.mul_one, ← Nat.mul_assoc]
            omega
        _ ≤ (2 + (extent + 1)) * fileCost extent n +
              (extent + 1) * (extent + 1) * fileCost extent n :=
            Nat.add_le_add_right (Nat.le_mul_of_pos_right _ one) _
        _ = (2 + (extent + 1) + (extent + 1) * (extent + 1)) * fileCost extent n :=
            (Nat.add_mul ..).symm
        _ ≤ (extent + 3) ^ 2 * (extent + 3) ^ (2 * n) := Nat.mul_le_mul factor ih
        _ = (extent + 3) ^ (2 * (n + 1)) := by
            rw [← Nat.pow_add]
            congr 1
            omega

/-- The opened files and their lines that are left. -/
def pending (segments : List Segment) : Nat :=
  segments.foldr (fun s n => 1 + (s.reading.map (·.rest.length)).getD 0 + n) 0

/-- A bound on `work` that takes one power to compute. -/
def allowance (library : Library) (segments : List Segment) : Nat :=
  pending segments *
    (1 + (library.extent + 1) * Nat.pow (library.extent + 3) (2 * (library.files.length + 1)))

theorem work_le_allowance (library : Library) (segments : List Segment) :
    work library segments ≤ allowance library segments := by
  have cost (n : Nat) (h : n ≤ library.files.length + 1) : fileCost library.extent n ≤
      Nat.pow (library.extent + 3) (2 * (library.files.length + 1)) :=
    Nat.le_trans (fileCost_mono h) (fileCost_le_pow ..)
  induction segments with
  | nil => exact Nat.zero_le _
  | cons s below ih =>
      have closed : closedFiles library below ≤ library.files.length + 1 := Nat.sub_le ..
      have split : allowance library (s :: below) = allowance library below +
          (1 + (s.reading.map (·.rest.length)).getD 0) * (1 + (library.extent + 1) *
            Nat.pow (library.extent + 3) (2 * (library.files.length + 1))) := by
        simp only [allowance, pending, List.foldr_cons, Nat.add_mul]
        omega
      rw [split]
      simp only [work]
      refine Nat.add_le_add ih ?_
      cases s.reading with
      | none =>
          have := cost _ closed
          have : _ ≤ (library.extent + 1) *
              Nat.pow (library.extent + 3) (2 * (library.files.length + 1)) :=
            Nat.le_mul_of_pos_left _ (Nat.succ_pos _)
          simp only [Option.map_none, Option.getD_none]
          omega
      | some r =>
          have := cost (closedFiles library below - 1) (Nat.le_trans (Nat.sub_le ..) closed)
          simp only [Option.map_some, Option.getD_some, Nat.add_mul 1 r.rest.length, Nat.one_mul]
          refine Nat.add_le_add (by omega) (Nat.mul_le_mul_left _ ?_)
          exact Nat.add_le_add_left (Nat.mul_le_mul_left _ this) _

/-- Step until something is visible, at most `fuel` times. -/
def advance (library : Library) : Nat → Feed → Step
  | 0, f => .working f
  | fuel + 1, f =>
      match step library f with
      | .working g => advance library fuel g
      | s => s

/-- The next line, error or end. -/
def next (library : Library) (f : Feed) : Step :=
  advance library (allowance library f.segments + 1) f

/-- The lines up to the end or the first error. -/
structure Stream where
  lines : List Line
  failure : Option SourceError
  deriving DecidableEq, Repr

def drain (library : Library) : Nat → Feed → Stream
  | 0, _ => ⟨[], none⟩
  | fuel + 1, f =>
      match step library f with
      | .working g => drain library fuel g
      | .delivered line g =>
          let s := drain library fuel g
          { s with lines := line :: s.lines }
      | .failed e _ => ⟨[], some e⟩
      | .finished _ => ⟨[], none⟩

/-- Everything that the feed delivers. -/
def stream (library : Library) (f : Feed) : Stream :=
  drain library (allowance library f.segments + 1) f

end Feed

end NetHooks
