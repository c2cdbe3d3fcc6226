import NetHooks.FileTree

/-!
# Temporary files

A text is put at a path through a file beside it: the file is made, written and flushed, and then
it takes its place in one step. Each of these steps can fail, and a file that does not come to its
place is thrown away. What the steps do is left open (`TempFiles`); `TempFiles.plain` is what they
do where the only things in the way are those of the tree.
-/
namespace NetHooks

/-- The steps of a temporary file. -/
structure TempFiles where
  /-- Make an empty file in a directory, and tell its place. -/
  create : FileTree → String → Except SystemError (FileTree × Place)
  /-- Write a text into the file. What was written before a failure stays in it. -/
  write : FileTree → Place → Bytes → FileTree × Option SystemError
  flush : FileTree → Place → Option SystemError
  /-- Move the file to a path in one step. -/
  persist : FileTree → Place → String → Except SystemError FileTree
  /-- Throw the file away. -/
  discard : FileTree → Place → FileTree

namespace TempFiles

/-- The mode of a file that only its owner reads. -/
def privateMode : Nat := 0o600

/-- Put a text at a path through a temporary file in the folder. -/
def install (files : TempFiles) (t : FileTree) (folder path : String) (bytes : Bytes) :
    FileTree × Option SystemError :=
  match files.create t folder with
  | .error e => (t, some e)
  | .ok (made, p) =>
      match files.write made p bytes with
      | (written, some e) => (files.discard written p, some e)
      | (written, none) =>
          match files.flush written p with
          | some e => (files.discard written p, some e)
          | none =>
              match files.persist written p path with
              | .error e => (files.discard written p, some e)
              | .ok u => (u, none)

/-- Make a file in a folder, under the first of the names that is free. -/
def createAs (t : FileTree) (folder : String) : List String → Except SystemError (FileTree × Place)
  | [] => .error .alreadyExists
  | name :: names =>
      match t.locate (Path.join folder name) false with
      | .error e => .error e
      | .ok (.present _) => createAs t folder names
      | .ok (.absent p _) => .ok (t.put p (.file [] privateMode), p)

/-- The names that are tried for a temporary file. -/
def names (count : Nat) : List String :=
  (List.range count).map fun n => ".tmp" ++ toString n

/-- One name more than the tree has entries is free. Writing and flushing do not fail. -/
def plain : TempFiles where
  create t folder := createAs t folder (names (t.entries.length + 1))
  write t p bytes := (t.writeAt p 0 bytes, none)
  flush _ _ := none
  persist t p path := t.rename p path
  discard t p := t.remove p

end TempFiles

end NetHooks
