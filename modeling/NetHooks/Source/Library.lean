import NetHooks.FileTree
import NetHooks.Source.Feed

/-!
# The library of a file tree

Sources read from a file tree. Two paths name one source when they lead to one place.
-/
namespace NetHooks

def FileTree.library (t : FileTree) : Library where
  identify := t.identify
  read := t.readText
  isFile := t.isFile
  isDirectory := t.isDirectory
  members := t.members
  files := t.identities
  extent := t.extent
  identify_mem := FileTree.identify_mem_identities
  length_read_le := FileTree.length_readText_le
  length_members_le := FileTree.length_members_le

end NetHooks
