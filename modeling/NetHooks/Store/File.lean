import NetHooks.Store.Basic
import NetHooks.Store.Temporary

/-!
# Store files

A store is loaded from its file and put back through a temporary file: the new text is
written beside the file and then takes its place in one step.
-/
namespace NetHooks

inductive StoreError where
  | unreadable (path : String) (cause : SystemError)
  | unwritable (path : String) (cause : SystemError)
  deriving DecidableEq, Repr

namespace StoreError

def cause : StoreError → SystemError
  | unreadable _ cause => cause
  | unwritable _ cause => cause

def message : StoreError → String
  | unreadable path cause => "Could not read state file '" ++ path ++ "': " ++ cause.message
  | unwritable path cause => "Could not write state file '" ++ path ++ "': " ++ cause.message

end StoreError

namespace Store

/-- A file that is not there is an empty store. -/
def load (tree : FileTree) (path : String) : Except StoreError Store :=
  match tree.readText path with
  | .ok text => .ok (ofEntries path (Entries.parse text))
  | .error .notFound => .ok (ofEntries path .empty)
  | .error e => .error (.unreadable path e)

/-- The directory in which the new text of a store at the path is written. -/
def folderOf (path : String) : String :=
  match Path.parent? path with
  | some "" | none => "."
  | some parent => parent

def folder (s : Store) : String := folderOf s.path

/-- The tree with the store's text in its file. When the file cannot be put in place, the
directories that were made for it stay. -/
def persist (s : Store) (tree : FileTree) (files : TempFiles := .plain) :
    FileTree × Option StoreError :=
  match tree.withDirectories s.folder with
  | (made, some e) => (made, some (.unwritable s.path e))
  | (made, none) =>
      let (u, e?) := files.install made s.folder s.path (Text.encode s.entries.render)
      (u, e?.map (.unwritable s.path))

end Store

end NetHooks
