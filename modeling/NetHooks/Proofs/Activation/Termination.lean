import NetHooks.Proofs.Activation.Depth

/-!
# Bringing up and down comes to an end

There is one way at most to follow dependencies by calls inside calls, and as the bound on their
depth is never reached there is one from every session: each instance that is worked on inside
another is a dependency that was not in progress, so no more instances are worked on at once than
there are dependencies, and the target's own.
-/
namespace NetHooks

namespace Session

variable {σ : Type} {invoker : Invoker σ} {config : Config} {context : Context} {mode : Mode}

/-- There is one way to bring a target up or down. -/
theorem Brings.unique {m : Nat} {target : String} {s : Session σ} {r : Outcome × Session σ}
    (h : Brings invoker config context mode m target s r) :
    ∀ n r', Brings invoker config context mode n target s r' → n = m ∧ r' = r := by
  refine @Brings.rec σ invoker config context mode
    (fun m target s r _ => ∀ n r', Brings invoker config context mode n target s r' →
      n = m ∧ r' = r)
    (fun group m targets s t _ => ∀ n t',
      BringsAll invoker config context mode group n targets s t' → n = m ∧ t' = t)
    ?refused ?worked ?nil ?cons m target s r h
  case refused =>
    intro target s d refused n r' h'
    cases h' with
    | refused refused' =>
        cases refused.symm.trans refused'
        exact ⟨rfl, rfl⟩
    | worked accepted' _ => cases refused.symm.trans accepted'
  case worked =>
    intro m target s between i accepted _ ih n r' h'
    cases h' with
    | refused refused' => cases accepted.symm.trans refused'
    | worked accepted' dependencies' =>
        cases accepted.symm.trans accepted'
        obtain ⟨rfl, rfl⟩ := ih _ _ dependencies'
        exact ⟨rfl, rfl⟩
  case nil =>
    intro group s n t' h'
    cases h'
    exact ⟨rfl, rfl⟩
  case cons =>
    intro group d m k rest s t r _ _ ihFirst ihMore n t' h'
    cases h' with
    | cons first' more' =>
        obtain ⟨rfl, rfl⟩ := ihFirst _ _ first'
        obtain ⟨rfl, rfl⟩ := ihMore _ _ more'
        exact ⟨rfl, rfl⟩

/-- From every session a target is brought up or down in one way, and so it is done. No more
instances are worked on at once in it than there are instances that groups depend on, and one
more. What is in progress before is in progress after. -/
theorem bring_terminates (invoker : Invoker σ) (config : Config) (context : Context) (mode : Mode)
    (target : String) (s : Session σ) :
    (∃ n ≤ config.dependencyInstances.length + 1, ∀ m r,
      Brings invoker config context mode m target s r ↔
        m = n ∧ r = s.bring invoker config context mode target) ∧
    (s.bring invoker config context mode target).2.inProgress = s.inProgress := by
  obtain ⟨n, hn, hbrings⟩ := exists_brings_bring invoker config context mode target s
  refine ⟨⟨n, hn, fun m r => ⟨fun h => hbrings.unique m r h, ?_⟩⟩, hbrings.inProgress_eq⟩
  rintro ⟨rfl, rfl⟩
  exact hbrings

end Session

end NetHooks
