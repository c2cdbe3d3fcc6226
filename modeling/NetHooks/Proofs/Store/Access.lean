import Mathlib.Logic.Function.Basic
import NetHooks.Store.Basic

/-!
# Accesses to a store

A store answers one access after another as a plain map does. What was loaded is set apart by the
first change and stays known through all later ones, so at each point the store is to be written
exactly when its entries are others than those that were loaded (`Access.run_ofEntries`).
-/
namespace NetHooks

inductive Access where
  | insert (instanceName logical : String)
  | remove (instanceName : String)
  | get (instanceName : String)
  deriving DecidableEq, Repr

namespace Access

/-- What a plain map answers to an access, and the map after it. -/
def onMap (m : String → Option String) : Access → Option String × (String → Option String)
  | insert name logical => (none, Function.update m name (some logical))
  | remove name => (m name, Function.update m name none)
  | get name => (m name, m)

/-- What a store answers to an access, and the store after it. -/
def onStore (s : Store) : Access → Option String × Store
  | insert name logical => (none, s.insert name logical)
  | remove name => s.remove name
  | get name => (s.get? name, s)

/-- The answers to accesses one after another, and what is there after them. -/
def run {α : Type} (answer : α → Access → Option String × α) :
    List Access → α → List (Option String) × α
  | [], a => ([], a)
  | access :: rest, a =>
      let first := answer a access
      let later := run answer rest first.2
      (first.1 :: later.1, later.2)

/-- The store records what the map holds, and knows what was loaded. -/
structure Shows (loaded : Entries) (s : Store) (m : String → Option String) : Prop where
  loaded_eq : s.loaded = loaded
  get?_eq : ∀ name, s.get? name = m name

variable {loaded : Entries} {s : Store} {m : String → Option String}

theorem shows_ofEntries (path : String) (loaded : Entries) :
    Shows loaded (.ofEntries path loaded) loaded.get? :=
  ⟨rfl, fun _ => rfl⟩

/-- One access is answered alike, and what is there after it is alike again. -/
theorem Shows.access (h : Shows loaded s m) (access : Access) :
    (onStore s access).1 = (onMap m access).1 ∧
      Shows loaded (onStore s access).2 (onMap m access).2 := by
  cases access with
  | insert name logical =>
      have hloaded : (s.insert name logical).loaded = loaded := by
        simp [Store.insert, h.loaded_eq]
      refine ⟨rfl, hloaded, fun key => ?_⟩
      simp only [onStore, onMap, Store.get?_insert, Function.update_apply, h.get?_eq]
  | remove name =>
      have hloaded : (s.remove name).2.loaded = loaded := by
        simp [Store.remove, h.loaded_eq]
      refine ⟨h.get?_eq name, hloaded, fun key => ?_⟩
      change (s.erase name).get? key = Function.update m name none key
      simp only [Store.get?_erase, Function.update_apply, h.get?_eq]
  | get name => exact ⟨h.get?_eq name, h⟩

theorem Shows.run (h : Shows loaded s m) (accesses : List Access) :
    (run onStore accesses s).1 = (run onMap accesses m).1 ∧
      Shows loaded (run onStore accesses s).2 (run onMap accesses m).2 := by
  induction accesses generalizing s m with
  | nil => exact ⟨rfl, h⟩
  | cons access rest ih =>
      obtain ⟨hanswer, hnext⟩ := h.access access
      obtain ⟨hanswers, hlast⟩ := ih hnext
      refine ⟨?_, hlast⟩
      simp only [Access.run, hanswer, hanswers]

theorem Shows.needsSaving_iff (h : Shows loaded s m) :
    s.needsSaving = true ↔ s.entries ≠ loaded := by
  rw [Store.needsSaving_eq, h.loaded_eq, bne_iff_ne]

theorem Shows.entries_eq_iff (h : Shows loaded s m) :
    s.entries = loaded ↔ m = loaded.get? := by
  constructor
  · intro heq
    funext name
    rw [← h.get?_eq, Store.get?, heq]
  · intro heq
    apply Catalog.ext_get?
    intro name
    exact (h.get?_eq name).trans (congrFun heq name)

/-- After any accesses, a store has given the answers of a plain map and records what this map
holds, and it is to be written exactly when that is not what was loaded. -/
theorem run_ofEntries (path : String) (loaded : Entries) (accesses : List Access) :
    let store := run onStore accesses (.ofEntries path loaded)
    let map := run onMap accesses loaded.get?
    store.1 = map.1 ∧ (∀ name, store.2.entries.get? name = map.2 name) ∧
      (store.2.needsSaving = true ↔ store.2.entries ≠ loaded) ∧
      (store.2.needsSaving = true ↔ map.2 ≠ loaded.get?) := by
  intro store map
  obtain ⟨hanswers, hshows⟩ := (shows_ofEntries path loaded).run accesses
  have hsaving : store.2.needsSaving = true ↔ store.2.entries ≠ loaded := hshows.needsSaving_iff
  exact ⟨hanswers, hshows.get?_eq, hsaving, hsaving.trans (not_congr hshows.entries_eq_iff)⟩

/-- An entry that is taken back leaves nothing to write, and the loss of a loaded one does. -/
example :
    let loaded : Entries := Catalog.empty.insert "eth0" "eth0"
    let after (accesses : List Access) := (run onStore accesses (.ofEntries "state" loaded)).2
    (after [.insert "br0" "bridge", .insert "eth0" "eth0", .remove "br0"]).needsSaving = false ∧
      (after [.insert "br0" "bridge", .remove "eth0", .remove "br0"]).needsSaving = true := by
  decide

end Access

end NetHooks
