import NetHooks.FileTree

/-!
# Worlds

What a run can change: the files, and what was printed so far.
-/
namespace NetHooks

structure World where
  tree : FileTree
  stdout : Bytes
  stderr : Bytes

namespace World

/-- The world with nothing printed yet. -/
def ofTree (tree : FileTree) : World := ⟨tree, [], []⟩

/-- Print a line. -/
def print (w : World) (line : String) : World :=
  { w with stdout := w.stdout ++ Text.encode (line ++ "\n") }

/-- Print a line on the error stream. -/
def complain (w : World) (line : String) : World :=
  { w with stderr := w.stderr ++ Text.encode (line ++ "\n") }

@[simp] theorem tree_print (w : World) (line : String) : (w.print line).tree = w.tree := rfl

@[simp] theorem tree_complain (w : World) (line : String) : (w.complain line).tree = w.tree := rfl

end World

end NetHooks
