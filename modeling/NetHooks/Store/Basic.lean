import NetHooks.Catalog
import NetHooks.Text.Blank
import NetHooks.Text.Lines

/-!
# Stores

Which instances are up, and under which logical name each of them was brought up. A
store remembers what was loaded, so that it is written again only after a real change.
Its written form has one line `instance=logical` for each entry.
-/
namespace NetHooks

abbrev Entries := Catalog String

namespace Entries

/-- The entry of a line: what stands before the first equals sign and after it, trimmed.
A line without the sign, or with nothing on one side, has none. -/
def ofLine? (line : List Char) : Option (String × String) :=
  match line.dropWhile (· != '=') with
  | [] => none
  | _ :: after =>
      let instanceName := Text.trim (line.takeWhile (· != '='))
      let logical := Text.trim after
      if instanceName.isEmpty || logical.isEmpty then none
      else some (String.ofList instanceName, String.ofList logical)

/-- The entries of a text. Of two lines for one instance the later counts. -/
def parse (text : String) : Entries :=
  Catalog.ofList ((Text.lines text.toList).filterMap ofLine?)

def renderEntry (e : String × String) : String :=
  e.1 ++ "=" ++ e.2 ++ "\n"

/-- One line for each entry, in the order of instances. -/
def render (entries : Entries) : String :=
  String.join (entries.entries.map renderEntry)

end Entries

/-- What a store holds. What was loaded is kept apart from the first change on. -/
inductive StoreState where
  /-- No change was asked for. -/
  | pristine (entries : Entries)
  | changed (loaded current : Entries)
  deriving DecidableEq

structure Store where
  /-- Where the store is kept. -/
  path : String
  state : StoreState
  deriving DecidableEq

namespace Store

def ofEntries (path : String) (entries : Entries) : Store :=
  ⟨path, .pristine entries⟩

def entries (s : Store) : Entries :=
  match s.state with
  | .pristine entries => entries
  | .changed _ current => current

/-- The entries as they were loaded. -/
def loaded (s : Store) : Entries :=
  match s.state with
  | .pristine entries => entries
  | .changed loaded _ => loaded

/-- Change the entries. Before the first change, what was loaded is set apart. -/
def change (s : Store) (f : Entries → Entries) : Store :=
  match s.state with
  | .pristine entries => { s with state := .changed entries (f entries) }
  | .changed loaded current => { s with state := .changed loaded (f current) }

def get? (s : Store) (instanceName : String) : Option String :=
  s.entries.get? instanceName

def insert (s : Store) (instanceName logical : String) : Store :=
  s.change (·.insert instanceName logical)

/-- What the instance was recorded under, and the store without it. -/
def remove (s : Store) (instanceName : String) : Option String × Store :=
  (s.get? instanceName, s.change (·.erase instanceName))

def erase (s : Store) (instanceName : String) : Store :=
  (s.remove instanceName).2

/-- The entries differ from what was loaded. -/
def needsSaving (s : Store) : Bool :=
  match s.state with
  | .pristine _ => false
  | .changed loaded current => current != loaded

variable (s : Store) (f : Entries → Entries) (i j logical : String)

@[simp] theorem path_change : (s.change f).path = s.path := by
  cases h : s.state <;> simp [change, h]

@[simp] theorem entries_change : (s.change f).entries = f s.entries := by
  cases h : s.state <;> simp [change, entries, h]

@[simp] theorem loaded_change : (s.change f).loaded = s.loaded := by
  cases h : s.state <;> simp [change, loaded, h]

theorem needsSaving_eq : s.needsSaving = (s.entries != s.loaded) := by
  cases h : s.state <;> simp [needsSaving, entries, loaded, h]

@[simp] theorem get?_insert :
    (s.insert i logical).get? j = if j = i then some logical else s.get? j := by
  simp [insert, get?]

@[simp] theorem get?_erase : (s.erase i).get? j = if j = i then none else s.get? j := by
  simp [erase, remove, get?]

end Store

end NetHooks
