import NetHooks.FileTree

/-!
# Hook folders

The hooks of a directory are its executable files, other than hidden ones and backups.
-/
namespace NetHooks.FileTree

/-- The paths of the hooks in a directory, in ascending order of name. A directory that
is not there has none. -/
def hooks (t : FileTree) (directory : String) : List String :=
  if t.isDirectory directory then
    match t.list directory with
    | .error _ => []
    | .ok names =>
        ((names.filter (!isPassedOver ·)).map (Path.join directory)).filter t.isExecutable
  else []

end NetHooks.FileTree
