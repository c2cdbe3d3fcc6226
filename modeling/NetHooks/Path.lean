import NetHooks.Text.Lines

/-!
# Paths

A path is kept as it was written: joining and taking the parent work on its text, so
that a message can name a file just as it was reached.
-/
namespace NetHooks.Path

def isAbsolute (p : String) : Bool :=
  p.toList.head? == some '/'

/-- The path of `q` seen from the directory `p`. An absolute `q` stands alone, and an
empty one leaves a separator at the end. -/
def join (p q : String) : String :=
  if isAbsolute q then q
  else if p.isEmpty || p.toList.getLast? == some '/' then p ++ q
  else p ++ "/" ++ q

/-- The names between separators, the empty ones included. -/
def names (p : String) : List String :=
  (Text.pieces '/' p.toList).map String.ofList

/-- A name at position `i` counts as a component unless it is empty or a dot; a dot in
front of a relative path counts. -/
def isComponent (absolute : Bool) (i : Nat) (name : String) : Bool :=
  !name.isEmpty && (name != "." || (i == 0 && !absolute))

/-- The positions of the components, last first. -/
def componentPositions (p : String) : List Nat :=
  ((names p).zipIdx.filter fun (name, i) => isComponent (isAbsolute p) i name).reverse.map (·.2)

/-- The path without its last component, as written up to the component before. -/
def parent? (p : String) : Option String :=
  match componentPositions p with
  | [] => none
  | [_] => some (if isAbsolute p then "/" else "")
  | _ :: i :: _ => some ("/".intercalate ((names p).take (i + 1)))

/-- The path with nothing but its components. Two paths that have the same are one path
written in two ways. -/
def normal (p : String) : String :=
  let kept := (names p).zipIdx.filter fun (name, i) => isComponent (isAbsolute p) i name
  (if isAbsolute p then "/" else "") ++ "/".intercalate (kept.map (·.1))

example : normal "conf.d/.//a/" = "conf.d/a" := by decide +kernel
example : normal "./a" = "./a" := by decide +kernel
example : parent? "conf.d/a" = some "conf.d" := by decide +kernel
example : parent? "./a" = some "." := by decide +kernel
example : parent? "a//./b/" = some "a" := by decide +kernel
example : parent? "/a" = some "/" := by decide +kernel
example : parent? "" = none := by decide +kernel

end NetHooks.Path
