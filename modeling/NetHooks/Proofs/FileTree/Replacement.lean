import NetHooks.Proofs.FileTree.Walk

/-!
# Replaced files

A file that is put at a path is read there afterwards (`FileTree.readBytes_put`). A file is moved
to a path only where it may be put (`FileTree.exists_takes_of_rename`), and the file that is moved
does not count for that (`FileTree.takes_of_put`). Making the directories of a path leaves the
files and links as they are (`FileTree.sameFiles_withDirectories`).
-/
namespace NetHooks

theorem Text.pieces_append_separator (separator : Char) (s : List Char) :
    pieces separator (s ++ [separator]) = pieces separator s ++ [[]] := by
  have hput (c : Char) {ls : List (List Char)} (h : ls ≠ []) :
      consToFirst c (ls ++ [[]]) = consToFirst c ls ++ [[]] := by
    cases ls with
    | nil => exact absurd rfl h
    | cons l ls => rfl
  induction s with
  | nil => simp [pieces]
  | cons c s ih =>
      simp only [List.cons_append, pieces, ih]
      split
      · rfl
      · exact hput c (pieces_ne_nil separator s)

namespace Path

variable {path : String}

/-- A path that ends in a separator has an empty name at its end. -/
theorem exists_names_eq_of_separator (h : path.toList.getLast? = some '/') :
    ∃ init, names path = init ++ [""] := by
  obtain ⟨s, hs⟩ := List.getLast?_eq_some_iff.1 h
  exact ⟨(Text.pieces '/' s).map String.ofList,
    by simp [names, hs, Text.pieces_append_separator]⟩

end Path

/-- What is read of something. -/
inductive Entry.ReadsAs : Entry → Bytes → Prop
  | file {bytes : Bytes} {mode : Nat} (may : mayRead mode = true) : ReadsAs (.file bytes mode) bytes
  | sink : ReadsAs .sink []

namespace FileTree

variable {t u : FileTree} {path : String} {bytes old : Bytes} {mode : Nat} {p : Place}

/-! ### Reading -/

theorem readBytes_eq_ok_iff : t.readBytes path = .ok bytes ↔
    ∃ p e, t.locate path true = .ok (.present p) ∧ t.find? p = some e ∧ e.ReadsAs bytes := by
  constructor
  · intro h
    rw [readBytes] at h
    split at h
    · cases h
    next p hp =>
      refine ⟨p, ?_⟩
      rw [resolve_eq_ok] at hp
      split at h
      next b mode he =>
        split at h
        next hmay =>
          cases h
          exact ⟨_, hp, he, .file hmay⟩
        · cases h
      next he =>
        cases h
        exact ⟨_, hp, he, .sink⟩
      · cases h
      · cases h
  · rintro ⟨p, e, hp, he, hread⟩
    rw [readBytes, resolve_eq_ok.2 hp]
    cases hread with
    | file may => simp [he, may]
    | sink => simp [he]

theorem readBytes_of_extends (h : Extends t u) (hread : t.readBytes path = .ok bytes) :
    u.readBytes path = .ok bytes := by
  obtain ⟨p, e, hp, he, hbytes⟩ := readBytes_eq_ok_iff.1 hread
  obtain ⟨hrefusal, hwalk⟩ := locate_eq_ok.1 hp
  have hstart : u.start path = t.start path := by simp only [start, h.workplace_eq]
  exact readBytes_eq_ok_iff.2
    ⟨p, e, locate_eq_ok.2 ⟨hrefusal, hstart ▸ hwalk.extend h⟩, h.find? p e he, hbytes⟩

/-! ### Replacing -/

/-- A file can be put at the place in one step: the path leads there, and no directory is in
the way. -/
def Takes (t : FileTree) (path : String) (p : Place) : Prop :=
  t.locate path false = .ok (.absent p false) ∨
    t.locate path false = .ok (.present p) ∧ t.find? p ≠ some .directory

theorem Takes.ne_directory (h : t.Takes path p) : t.find? p ≠ some .directory := by
  rcases h with h | ⟨-, h⟩
  · simp [(locate_eq_ok.1 h).2.absent_place.2.1]
  · exact h

theorem exists_takes_of_rename {e : Entry} (he : t.find? p = some e) (h : t.rename p path = .ok u) :
    ∃ q, t.Takes path q ∧ u = (t.remove p).put q e := by
  rw [rename, he] at h
  dsimp only at h
  split at h
  · cases h
  next q trailing hlocate =>
    split at h
    · cases h
    next htrailing =>
      cases h
      -- Behind a separator at the end the name would count as one of a directory.
      have hplain : ¬path.toList.getLast? = some '/' := by
        intro hseparator
        obtain ⟨init, hnames⟩ := Path.exists_names_eq_of_separator hseparator
        have hwalk := (locate_eq_ok.1 hlocate).2
        rw [hnames] at hwalk
        exact htrailing hwalk.trailing_of_last
      rw [beq_eq_false_iff_ne.2 hplain] at hlocate
      rw [Bool.not_eq_true] at htrailing
      exact ⟨q, .inl (htrailing ▸ hlocate), rfl⟩
  next q hlocate =>
    split at h
    · cases h
    split at h
    · cases h
    next hplain =>
      rw [Bool.not_eq_true] at hplain
      split at h
      · cases h
      next hdirectory =>
        cases h
        exact ⟨q, .inr ⟨hplain ▸ hlocate, hdirectory⟩, rfl⟩

/-- What may be put at a path beside a new file, may be put there without it. -/
theorem takes_of_put {q : Place} (hp : t.find? p = none)
    (h : (t.put p (.file bytes mode)).Takes path q) : t.Takes path q := by
  rcases h with h | ⟨h, hdirectory⟩
  · obtain ⟨hrefusal, hwalk⟩ := locate_eq_ok.1 h
    rcases hwalk.withdraw hp with hpast | ⟨hspot, -⟩
    · exact .inl (locate_eq_ok.2 ⟨hrefusal, hpast⟩)
    · cases hspot
  · obtain ⟨hrefusal, hwalk⟩ := locate_eq_ok.1 h
    rcases hwalk.withdraw hp with hpast | ⟨hspot, hfree⟩
    · refine .inr ⟨locate_eq_ok.2 ⟨hrefusal, hpast⟩, fun hq => hdirectory ?_⟩
      exact (extends_put hp).find? q _ hq
    · cases hspot
      exact .inl (locate_eq_ok.2 ⟨hrefusal, hfree⟩)

/-- What was put at a path is read there, unless the path led through a link that it took the
place of. -/
theorem readBytes_put (h : t.Takes path p) (may : mayRead mode = true)
    (hlink : (∀ target, t.find? p ≠ some (.link target)) ∨
      (t.put p (.file bytes mode)).locate path false = .ok (.present p)) :
    (t.put p (.file bytes mode)).readBytes path = .ok bytes := by
  have hroot : p ≠ [] := by
    rintro rfl
    exact h.ne_directory (by simp [find?])
  have hfile : (t.put p (.file bytes mode)).find? p = some (.file bytes mode) := find?_put_self hroot
  refine readBytes_eq_ok_iff.2 ⟨p, _, ?_, hfile, .file may⟩
  rcases hlink with hlink | hstill
  · obtain ⟨spot, hspot, hlocate⟩ : ∃ spot, (spot = .absent p false ∨ spot = .present p) ∧
        t.locate path false = .ok spot := by
      rcases h with h | ⟨h, -⟩
      · exact ⟨_, .inl rfl, h⟩
      · exact ⟨_, .inr rfl, h⟩
    obtain ⟨hrefusal, hwalk⟩ := locate_eq_ok.1 hlocate
    exact locate_eq_ok.2 ⟨hrefusal, hwalk.put hspot h.ne_directory hlink⟩
  · obtain ⟨hrefusal, hwalk⟩ := locate_eq_ok.1 hstill
    exact locate_eq_ok.2 ⟨hrefusal, hwalk.followed (by simp [hfile])⟩

/-! ### Making directories -/

/-- What each new directory keeps. -/
theorem withDirectories_keeps {P : FileTree → Prop}
    (hstep : ∀ t path u, P t → t.makeDirectory path = .ok u → P u) (ht : P t) (path : String) :
    P (t.withDirectories path).1 := by
  have hto (depth : Nat) : ∀ path, P (t.makeDirectoriesTo depth path).1 := by
    induction depth with
    | zero => exact fun _ => ht
    | succ depth ih =>
        intro path
        rw [makeDirectoriesTo]
        split
        · exact ht
        split
        next u hu => exact hstep t path u ht hu
        · split
          · exact ht
          next parent _ =>
            have hparent := ih parent
            split
            next heq => rwa [heq] at hparent
            next u heq =>
              rw [heq] at hparent
              split
              next v hv => exact hstep u path v hparent hv
              · split <;> exact hparent
        · split <;> exact ht
  exact hto _ path

theorem exists_place_of_makeDirectory (h : t.makeDirectory path = .ok u) :
    ∃ p, t.find? p = none ∧ u = t.put p .directory := by
  rw [makeDirectory] at h
  split at h
  · cases h
  · cases h
  next p trailing hlocate =>
    cases h
    exact ⟨p, (locate_eq_ok.1 hlocate).2.absent_place.2.1, rfl⟩

/-- Files and links stay as they are, also when not all of the directories can be made. -/
theorem sameFiles_withDirectories (t : FileTree) (path : String) :
    SameFiles t (t.withDirectories path).1 := by
  refine withDirectories_keeps (fun u path v hu hv => ?_) (SameFiles.refl t) path
  obtain ⟨p, hnone, rfl⟩ := exists_place_of_makeDirectory hv
  exact hu.trans (sameFiles_put_directory hnone)

/-- Nothing is made where there is a directory. -/
theorem withDirectories_of_isDirectory (h : t.isDirectory path = true) :
    t.withDirectories path = (t, none) := by
  obtain ⟨p, hp⟩ : ∃ p, t.resolve path = .ok p := by
    rw [isDirectory, entryAt] at h
    split at h
    next p hp => exact ⟨p, hp⟩
    · cases h
  obtain ⟨hrefusal, hwalk⟩ := locate_eq_ok.1 (resolve_eq_ok.1 hp)
  obtain ⟨q, hkept, -⟩ := hwalk.exists_kept
  have hmake : t.makeDirectory path = .error .alreadyExists := by
    rw [makeDirectory, locate_eq_ok.2 ⟨hrefusal, hkept⟩]
  rw [withDirectories, makeDirectoriesTo, hmake]
  simp [h]

theorem makeDirectories_eq_ok :
    t.makeDirectories path = .ok u ↔ t.withDirectories path = (u, none) := by
  rw [makeDirectories]
  split
  next heq => simp [heq]
  next heq => simp [heq]

end FileTree

end NetHooks
