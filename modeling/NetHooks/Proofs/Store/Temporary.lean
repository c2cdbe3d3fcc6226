import NetHooks.Proofs.FileTree.Replacement
import NetHooks.Store.File

/-!
# Temporary files

What is relied on of the steps of a temporary file (`TempFiles.Lawful`) holds of those that run
(`TempFiles.lawful_plain`). Then a text is put at its path as a whole, or the tree is left as it was
(`TempFiles.Lawful.exists_takes_of_install`, `TempFiles.Lawful.eq_of_install_error`). A store that
cannot be written leaves at most new directories (`Store.persist_eq_error`).
-/
namespace NetHooks

namespace TempFiles

variable {files : TempFiles} {t u made written : FileTree} {folder path : String} {bytes : Bytes}
  {p : Place} {e : SystemError} {e? : Option SystemError}

/-- What the steps of a temporary file are documented to do. Each of them may fail at any time. -/
structure Lawful (files : TempFiles) : Prop where
  /-- The file is new in the directory, and only its owner reads it. A file that cannot be made
  leaves nothing. -/
  create : ∀ {t u folder p}, files.create t folder = .ok (u, p) → ∃ name trailing,
    t.locate (Path.join folder name) false = .ok (.absent p trailing) ∧
      u = t.put p (.file [] privateMode)
  /-- Before a failure some of the text is written, from its beginning on; without one all is. -/
  write : ∀ {t p mode} (bytes : Bytes), t.find? p = some (.file [] mode) → ∃ n,
    (files.write t p bytes).1 = t.put p (.file (bytes.take n) mode) ∧
      ((files.write t p bytes).2 = none → bytes.length ≤ n)
  /-- The file replaces what is at the path in one step, or nothing happens. -/
  persist : ∀ {t u p path bytes mode}, t.find? p = some (.file bytes mode) →
    files.persist t p path = .ok u →
      ∃ q, t.Takes path q ∧ u = (t.remove p).put q (.file bytes mode)
  /-- A file that is thrown away is removed. -/
  discard : ∀ t p, files.discard t p = t.remove p

/-! ### The steps that run -/

theorem exists_name_of_createAs {names : List String} (h : createAs t folder names = .ok (u, p)) :
    ∃ name trailing, t.locate (Path.join folder name) false = .ok (.absent p trailing) ∧
      u = t.put p (.file [] privateMode) := by
  induction names with
  | nil => cases h
  | cons name names ih =>
      rw [createAs] at h
      split at h
      · cases h
      · exact ih h
      next hlocate =>
        cases h
        exact ⟨name, _, hlocate, rfl⟩

theorem lawful_plain : plain.Lawful where
  create := exists_name_of_createAs
  write bytes h := ⟨bytes.length, by simp [plain, FileTree.writeAt, h, FileTree.overwrite], by simp⟩
  persist h := FileTree.exists_takes_of_rename h
  discard _ _ := rfl

/-! ### Putting a text in place -/

namespace Lawful

/-- The file that is written stands where nothing stood, and holds some of the text. -/
theorem exists_written (lawful : files.Lawful) (h : files.create t folder = .ok (made, p))
    (hwrite : files.write made p bytes = (written, e?)) : t.find? p = none ∧
      ∃ text, written = t.put p (.file text privateMode) ∧ (e? = none → text = bytes) := by
  obtain ⟨name, trailing, hlocate, rfl⟩ := lawful.create h
  have hnone : t.find? p = none := (FileTree.locate_eq_ok.1 hlocate).2.absent_place.2.1
  have hempty := FileTree.find?_put_self (t := t) (e := .file [] privateMode)
    (FileTree.ne_nil_of_find?_eq_none hnone)
  obtain ⟨n, htree, hall⟩ := lawful.write bytes hempty
  rw [hwrite] at htree hall
  exact ⟨hnone, bytes.take n, by simpa using htree,
    fun hdone => List.take_of_length_le (hall hdone)⟩

/-- Nothing is left of a text that could not be put in place. -/
theorem eq_of_install_error (lawful : files.Lawful)
    (h : files.install t folder path bytes = (u, some e)) : u = t := by
  -- Whichever step fails after the first, the file is thrown away.
  have hdiscard {made written : FileTree} {p : Place} {e? : Option SystemError}
      (hcreate : files.create t folder = .ok (made, p))
      (hwrite : files.write made p bytes = (written, e?)) : files.discard written p = t := by
    obtain ⟨hnone, text, rfl, -⟩ := lawful.exists_written hcreate hwrite
    rw [lawful.discard, FileTree.remove_put hnone]
  rw [install] at h
  split at h
  · cases h
    rfl
  next hcreate =>
    split at h
    next hwrite =>
      cases h
      exact hdiscard hcreate hwrite
    next hwrite =>
      split at h
      · cases h
        exact hdiscard hcreate hwrite
      split at h
      · cases h
        exact hdiscard hcreate hwrite
      · cases h

theorem exists_takes_of_install (lawful : files.Lawful)
    (h : files.install t folder path bytes = (u, none)) :
    ∃ q, t.Takes path q ∧ u = t.put q (.file bytes privateMode) := by
  rw [install] at h
  split at h
  · cases h
  next hcreate =>
    split at h
    · cases h
    next hwrite =>
      split at h
      · cases h
      split at h
      · cases h
      next hpersist =>
        cases h
        obtain ⟨hnone, text, rfl, htext⟩ := lawful.exists_written hcreate hwrite
        obtain rfl := htext rfl
        have hfile := FileTree.find?_put_self (t := t) (e := .file text privateMode)
          (FileTree.ne_nil_of_find?_eq_none hnone)
        obtain ⟨q, htakes, rfl⟩ := lawful.persist hfile hpersist
        exact ⟨q, FileTree.takes_of_put hnone htakes, by rw [FileTree.remove_put hnone]⟩

end Lawful

end TempFiles

/-! ### Stores -/

namespace Store

variable {s : Store} {files : TempFiles} {t u : FileTree}

/-- A store that is written is the file at its path, in a tree with the directories that were
missing. -/
theorem exists_of_persist (lawful : files.Lawful) (h : s.persist t files = (u, none)) :
    ∃ made p, t.makeDirectories s.folder = .ok made ∧ made.Takes s.path p ∧
      u = made.put p (.file (Text.encode s.entries.render) TempFiles.privateMode) := by
  rw [persist] at h
  split at h
  · cases h
  next made hmade =>
    rcases hinstall : files.install made s.folder s.path (Text.encode s.entries.render) with ⟨v, e?⟩
    simp only [hinstall, Prod.mk.injEq, Option.map_eq_none_iff] at h
    obtain ⟨rfl, rfl⟩ := h
    obtain ⟨p, htakes, hput⟩ := lawful.exists_takes_of_install hinstall
    exact ⟨made, p, FileTree.makeDirectories_eq_ok.2 hmade, htakes, hput⟩

/-- A store that cannot be written leaves the directories that were made for it, and nothing
else. -/
theorem persist_eq_error {e : StoreError} (lawful : files.Lawful)
    (h : s.persist t files = (u, some e)) :
    u = (t.withDirectories s.folder).1 ∧ ∃ cause, e = .unwritable s.path cause := by
  rw [persist] at h
  split at h
  next cause hmade =>
    cases h
    exact ⟨by rw [hmade], cause, rfl⟩
  next made hmade =>
    rcases hinstall : files.install made s.folder s.path (Text.encode s.entries.render) with ⟨v, e?⟩
    simp only [hinstall, Prod.mk.injEq, Option.map_eq_some_iff] at h
    obtain ⟨rfl, cause, rfl, rfl⟩ := h
    exact ⟨by rw [hmade, lawful.eq_of_install_error hinstall], cause, rfl⟩

end Store

end NetHooks
