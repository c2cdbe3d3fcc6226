import NetHooks.LogicalLine
import Mathlib.Data.List.Basic

/-!
# Numbers of logical lines

A logical line has the number of its first physical line, and so the numbers ascend.
-/
namespace NetHooks.LogicalLine

/-- The lines that are gathered begin with the one still open, and their numbers ascend. -/
theorem pairwise_number_gather (n : Nat) (d : Option Draft) (ps : List (List Char))
    (hd : ∀ x ∈ d, x.number < n) :
    (gather n d ps).Pairwise (·.number < ·.number) ∧
      ∀ x ∈ gather n d ps, (d.map (·.number)).getD n ≤ x.number := by
  fun_induction gather n d ps with
  | case1 => simp
  | case2 => simp
  | case3 n p ps width text hmeasure hskipped ih =>
      obtain ⟨hpairwise, hle⟩ := ih (by simp)
      exact ⟨hpairwise, fun x hx => Nat.le_of_succ_le (hle x hx)⟩
  | case4 n p ps width text hmeasure _ hcontinues ih =>
      exact ih (by simp)
  | case5 n p ps width text hmeasure _ _ ih =>
      obtain ⟨hpairwise, hle⟩ := ih (by simp)
      refine ⟨List.pairwise_cons.2 ⟨fun x hx => hle x hx, hpairwise⟩, ?_⟩
      intro x hx
      rcases List.mem_cons.1 hx with rfl | hx
      · exact Nat.le_refl n
      · exact Nat.le_of_succ_le (hle x hx)
  | case6 n d p ps text hcontinues ih =>
      exact ih fun x hx => Nat.lt_succ_of_lt (by simpa [← Option.some.inj hx] using hd d rfl)
  | case7 n d p ps text _ ih =>
      have hlt : d.number < n := hd d rfl
      obtain ⟨hpairwise, hle⟩ := ih (by simp)
      refine ⟨List.pairwise_cons.2 ⟨fun x hx => ?_, hpairwise⟩, ?_⟩
      · exact Nat.lt_trans hlt (hle x hx)
      · intro x hx
        rcases List.mem_cons.1 hx with rfl | hx
        · exact Nat.le_refl _
        · exact Nat.le_trans (Nat.le_of_lt hlt) (Nat.le_of_succ_le (hle x hx))

theorem pairwise_number_logicalLines (source : String) :
    (logicalLines source).Pairwise (·.number < ·.number) := by
  refine List.Pairwise.filterMap _ (R := fun x y : Draft => x.number < y.number) ?_
    (pairwise_number_gather 1 none _ (by simp)).1
  intro x y hxy a ha b hb
  have hnumber : ∀ {d : Draft} {line : LogicalLine}, finish d = some line → line.number = d.number := by
    intro d line h
    simp only [finish] at h
    split at h
    · cases h
    · exact (Option.some.inj h) ▸ rfl
  rw [hnumber ha, hnumber hb]
  exact hxy

end NetHooks.LogicalLine
