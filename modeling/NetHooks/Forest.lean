import NetHooks.Source.Feed

/-!
# Forests

The delivered lines as trees: a line is a child of the nearest line above it that is
one level shallower. Lines form a forest when the first is at level zero and none is
more than one level deeper than the line before it.
-/
namespace NetHooks

inductive Tree where
  | node (line : Line) (children : List Tree)
  deriving Inhabited, Repr

namespace Tree

def line : Tree → Line
  | node l _ => l

def children : Tree → List Tree
  | node _ cs => cs

def level (t : Tree) : Nat := t.line.level
def content (t : Tree) : String := t.line.content
def location (t : Tree) : Location := t.line.location

/-- The first token of the line; quotes do not count. -/
def keyword (t : Tree) : String :=
  String.ofList (Text.firstToken t.content.toList)

/-- The text after the keyword. -/
def rest (t : Tree) : String :=
  String.ofList (Text.afterFirstToken t.content.toList)

def words (t : Tree) : Except SourceError (List String) :=
  wordsAt t.content t.location

mutual

/-- The lines of a tree, each before its children, with their depths. -/
def preorder (depth : Nat) : Tree → List (Nat × Tree)
  | node l cs => (depth, node l cs) :: preorderAll (depth + 1) cs

def preorderAll (depth : Nat) : List Tree → List (Nat × Tree)
  | [] => []
  | t :: ts => preorder depth t ++ preorderAll depth ts

end

mutual

/-- The tree with its files named otherwise. -/
def renameFiles (f : String → String) : Tree → Tree
  | node l cs =>
      node { l with location := { l.location with file := f l.location.file } }
        (renameFilesAll f cs)

def renameFilesAll (f : String → String) : List Tree → List Tree
  | [] => []
  | t :: ts => renameFiles f t :: renameFilesAll f ts

end

end Tree

abbrev Forest := List Tree

namespace Forest

/-- The first line that lies deeper than `limit`, or than one level below the line
before it. -/
def firstMisplaced? (limit : Nat) : List Line → Option Line
  | [] => none
  | l :: rest => if limit < l.level then some l else firstMisplaced? (l.level + 1) rest

/-- Put a line before a forest, with the deeper trees that follow it as its children. -/
def graft (l : Line) (trees : Forest) : Forest :=
  .node l (trees.takeWhile (l.level < ·.level)) :: trees.dropWhile (l.level < ·.level)

def ofLines (lines : List Line) : Forest :=
  lines.foldr graft []

/-- The forest of a stream. A misplaced line is reported before the error that ended the
stream after it. -/
def ofStream (s : Feed.Stream) : Except SourceError Forest :=
  match firstMisplaced? 0 s.lines with
  | some l => .error (.unexpectedNesting l.location)
  | none =>
      match s.failure with
      | some e => .error e
      | none => .ok (ofLines s.lines)

def parseFile (library : Library) (path : String) : Except SourceError Forest :=
  ofStream (Feed.stream library (.ofFile path))

def parseText (library : Library) (path text : String) : Except SourceError Forest :=
  ofStream (Feed.stream library (.ofText library path text))

/-- The lines with their real depths, which determine the forest. -/
def flatten (f : Forest) : List (Nat × Line) :=
  (Tree.preorderAll 0 f).map fun (depth, t) => (depth, t.line)

/-- The forest with its paths in normal form. -/
def normal (f : Forest) : Forest :=
  Tree.renameFilesAll Path.normal f

/-- The forests have the same lines in the same places. -/
def agrees (f g : Forest) : Bool :=
  f.normal.flatten == g.normal.flatten

end Forest

end NetHooks
