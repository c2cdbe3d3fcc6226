import NetHooks.FileTree
import Mathlib.Data.List.Perm.Basic

/-!
# Members of directories

The files that a directory has for an include line are exactly its regular files that are not
passed over, in ascending order of name (`FileTree.members_eq_ok`).
-/
namespace NetHooks.FileTree

variable {tree : FileTree} {path : String} {entries names files : List String}

theorem pairwise_le_of_list (h : tree.list path = .ok entries) : entries.Pairwise (· ≤ ·) := by
  simp only [list] at h
  split at h
  · cases h
  · split at h
    · obtain rfl := Except.ok.inj h
      have hsorted := @List.pairwise_mergeSort _ (fun a b : String => decide (a ≤ b))
        (fun a b c hab hbc => by simpa using String.le_trans (by simpa using hab) (by simpa using hbc))
        (fun a b => by simpa using String.le_total a b)
      simpa using hsorted _
    · cases h

theorem members_eq_ok (listed : tree.list path = .ok entries)
    (eligible : names.Perm
      (entries.filter fun name => !isPassedOver name && tree.isFile (Path.join path name)))
    (ascending : names.Pairwise (· ≤ ·)) :
    tree.members path = .ok (names.map (Path.join path)) := by
  have hnames : names =
      entries.filter fun name => !isPassedOver name && tree.isFile (Path.join path name) :=
    eligible.eq_of_pairwise (fun _ _ _ _ hab hba => String.le_antisymm hab hba) ascending
      ((pairwise_le_of_list listed).filter _)
  rw [members, listed, hnames]
  simp only [Except.map, List.filter_map, List.filter_filter, Function.comp_def, Bool.and_comm]

/-- The files that a path names for an include line: a file itself, and the eligible files of
a directory. -/
inductive Named (tree : FileTree) (path : String) : List String → Prop
  | file (h : tree.isFile path = true) : Named tree path [path]
  | directory {entries names : List String} (h : tree.isDirectory path = true)
      (listed : tree.list path = .ok entries)
      (eligible : names.Perm
        (entries.filter fun name => !isPassedOver name && tree.isFile (Path.join path name)))
      (ascending : names.Pairwise (· ≤ ·)) : Named tree path (names.map (Path.join path))

theorem isFile_of_isDirectory (h : tree.isDirectory path = true) : tree.isFile path = false := by
  have hentry : tree.entryAt path = some .directory := by simpa [isDirectory] using h
  simp [isFile, hentry]

/-! ### Places -/

/-- A name that is no step and not too long. -/
def IsPlainName (name : String) : Prop :=
  ¬(name = "" ∨ name = ".") ∧ name ≠ ".." ∧ name.utf8ByteSize ≤ nameLimit

instance (name : String) : Decidable (IsPlainName name) :=
  inferInstanceAs (Decidable (_ ∧ _ ∧ _))

/-- Through directories a walk leads to the place of its names. -/
theorem walk_of_directories {follow : Bool} {links : Nat} {here p : Place} {e : Entry}
    (hplain : ∀ name ∈ p, IsPlainName name)
    (hdirectories : ∀ i < p.length, tree.find? (here ++ p.take i) = some .directory)
    (hend : tree.find? (here ++ p) = some e) (hlink : ∀ target, e ≠ .link target) :
    tree.walk follow links here p = .ok (.present (here ++ p)) := by
  induction p generalizing here with
  | nil => simp [walk]
  | cons name p ih =>
      obtain ⟨⟨hempty, hparent, hlength⟩, hrest⟩ := List.forall_mem_cons.1 hplain
      have hhere : tree.find? here = some .directory := by
        simpa using hdirectories 0 (by simp)
      have happend (q : Place) : here ++ name :: q = here ++ [name] ++ q := by simp
      have hdirectories' : ∀ i < p.length,
          tree.find? (here ++ [name] ++ p.take i) = some .directory := by
        intro i hi
        rw [← happend, ← List.take_succ_cons]
        exact hdirectories (i + 1) (Nat.succ_lt_succ hi)
      have hnext : tree.walk follow links (here ++ [name]) p = .ok (.present (here ++ name :: p)) := by
        rw [ih hrest hdirectories' (happend p ▸ hend), ← happend]
      obtain ⟨x, hx, hxlink⟩ : ∃ x, tree.find? (here ++ [name]) = some x ∧
          ∀ target, x ≠ .link target := by
        cases p with
        | nil => exact ⟨e, hend, hlink⟩
        | cons next p => exact ⟨.directory, by simpa using hdirectories' 0 (by simp), by simp⟩
      rw [walk, if_neg (by simp [hhere]), if_neg hempty, if_neg hparent,
        if_neg (Nat.not_lt.2 hlength), hx]
      cases x with
      | link target => exact absurd rfl (hxlink target)
      | _ => exact hnext

/-- A relative path through directories leads to the place of its names. -/
theorem resolve_of_directories {p : Place} {e : Entry} (hrefusal : refusal? path = none)
    (hrelative : Path.isAbsolute path = false) (hnames : Path.names path = p)
    (hplain : ∀ name ∈ p, IsPlainName name)
    (hdirectories : ∀ i < p.length, tree.find? (tree.workplace ++ p.take i) = some .directory)
    (hend : tree.find? (tree.workplace ++ p) = some e) (hlink : ∀ target, e ≠ .link target) :
    tree.resolve path = .ok (tree.workplace ++ p) := by
  have hstart : tree.start path = tree.workplace := by simp [start, hrelative]
  rw [resolve, locate, hrefusal]
  simp only [hstart, hnames, walk_of_directories hplain hdirectories hend hlink]

end NetHooks.FileTree
