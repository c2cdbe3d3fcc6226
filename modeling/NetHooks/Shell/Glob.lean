import NetHooks.FileTree
import NetHooks.Shell.Pattern

/-!
# Paths that fit a pattern

A pattern of a path is taken apart at its slashes. A part without special characters names
one entry, any other the entries of a directory that fit it.
-/
namespace NetHooks.Shell.Glob

/-- A bracket closes the set that an open one before the text begins. It takes a character
at least. -/
def closesSet : Octets → Bool
  | '!' :: rest => closes rest
  | rest => closes rest
where
  closes : Octets → Bool
    | '\\' :: c :: rest => c != '/' && (rest.head? == some ']' || closes rest)
    | c :: rest => c != '/' && (rest.head? == some ']' || closes rest)
    | [] => false

/-- The part of a pattern is special: it may fit more than one name. -/
def isSpecial : Octets → Bool
  | [] => false
  | '\\' :: _ :: rest => isSpecial rest
  | c :: rest => c == '*' || c == '?' || (c == '[' && closesSet rest) || isSpecial rest

/-- The parts between slashes. A backslash before a slash is dropped. -/
def parts (pattern : Octets) : List Octets :=
  go [] pattern
where
  go (part : Octets) : Octets → List Octets
    | [] => [part.reverse]
    | '\\' :: '/' :: rest => part.reverse :: go [] rest
    | '\\' :: c :: rest => go (c :: '\\' :: part) rest
    | '/' :: rest => part.reverse :: go [] rest
    | c :: rest => go (c :: part) rest

/-- What a part without special characters names. -/
def literal : Octets → Octets
  | '\\' :: c :: rest => c :: literal rest
  | c :: rest => c :: literal rest
  | [] => []

/-- The names in a directory that fit, its own and its parent's among them. A name with a
leading dot needs one in the pattern. -/
def names (tree : FileTree) (directory part : Octets) : List Octets :=
  let path := if directory.isEmpty then "." else Octets.decode directory
  let first := match part with
    | '\\' :: c :: _ => some c
    | c :: _ => some c
    | [] => none
  let pattern := Pattern.ofText part
  let all := ((tree.list path).toOption.map ([".", ".."] ++ ·)).getD []
  (all.map Octets.ofString).filter fun n =>
    (first == some '.' || n.head? != some '.') && pattern.fits n

def exists_ (tree : FileTree) (path : Octets) : Bool :=
  match tree.locate (Octets.decode path) false with
  | .ok (.present _) => true
  | _ => false

/-- The paths that fit the parts behind a directory that has been reached; whether a part
before was special. -/
def behind (tree : FileTree) (afterSpecial : Bool) (reached : Octets) : List Octets → List Octets
  | [] => []
  | part :: rest =>
      if !(part :: rest).any isSpecial then
        let path := reached ++ ['/'].intercalate ((part :: rest).map literal)
        if afterSpecial && exists_ tree path then [path] else []
      else if isSpecial part then
        (names tree reached part).flatMap fun name =>
          if rest.isEmpty then [reached ++ name]
          else behind tree true (reached ++ name ++ ['/']) rest
      else behind tree afterSpecial (reached ++ literal part ++ ['/']) rest

/-- The paths that fit a pattern, in the order of their octets. -/
def paths (tree : FileTree) (pattern : Octets) : List Octets :=
  (behind tree false [] (parts pattern)).mergeSort fun a b => !b.lex a fun c d => decide (c < d)

end NetHooks.Shell.Glob
