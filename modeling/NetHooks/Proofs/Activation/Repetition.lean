import NetHooks.Proofs.Activation.Depth
import NetHooks.Proofs.Activation.Failures
import NetHooks.Proofs.Activation.Fidelity

/-!
# Skipped steps and repeated passes

A step that is skipped leaves the session as it is, so it can be left out of a run. After a pass
through targets in one direction each of them is refused, so a second pass skips all of them.
-/
namespace NetHooks

/-- Nothing was done for the target. -/
def Outcome.IsSkipped (o : Outcome) : Prop :=
  ∃ d, o = .skipped d

namespace Session

variable {σ : Type} {invoker : Invoker σ} {config : Config} {context : Context}

/-! ### One step -/

theorem bring_of_error {mode : Mode} {target : String} {s : Session σ} {d : Diagnostic}
    (h : config.accept mode s.store s.inProgress target = .error d) :
    s.bring invoker config context mode target = (.skipped d, s) := by
  simp only [bring, Config.depth, bringWithin, h]

/-- A step that is skipped changes nothing. -/
theorem bring_of_isSkipped {mode : Mode} {target : String} {s : Session σ}
    (h : (s.bring invoker config context mode target).1.IsSkipped) :
    (s.bring invoker config context mode target).2 = s := by
  cases haccept : config.accept mode s.store s.inProgress target with
  | error d => rw [bring_of_error haccept]
  | ok i =>
      -- A target that is accepted is reported as brought up or down.
      obtain ⟨d, hd⟩ := h
      have houtcome := bring_outcome invoker config context mode target s
      rw [haccept, hd] at houtcome
      cases mode <;> cases houtcome

theorem bring_of_refuses {mode : Mode} {target : String} {s : Session σ}
    (h : config.Refuses mode s.store s.inProgress target) :
    ∃ d, s.bring invoker config context mode target = (.skipped d, s) := by
  cases haccept : config.accept mode s.store s.inProgress target with
  | error d => exact ⟨d, bring_of_error haccept⟩
  | ok i => exact absurd haccept (h i)

/-! ### Leaving steps out -/

/-- A step, its outcome and the session after it. -/
abbrev Event (σ : Type) := (Mode × String) × Outcome × Session σ

/-- Some events of a run are left out, and the step of each of them was skipped. -/
inductive Thinned : List (Event σ) → List (Event σ) → Prop
  | nil : Thinned [] []
  | keep {event : Event σ} {events kept : List (Event σ)} (rest : Thinned events kept) :
      Thinned (event :: events) (event :: kept)
  | drop {event : Event σ} {events kept : List (Event σ)} (skipped : event.2.1.IsSkipped)
      (rest : Thinned events kept) : Thinned (event :: events) kept

/-- The events of a run. -/
def record (invoker : Invoker σ) (config : Config) (context : Context)
    (steps : List (Mode × String)) (s : Session σ) : List (Event σ) :=
  steps.zip (s.history invoker config context steps)

theorem record_cons (step : Mode × String) (steps : List (Mode × String)) (s : Session σ) :
    s.record invoker config context (step :: steps) =
      (step, s.bring invoker config context step.1 step.2) ::
        (s.bring invoker config context step.1 step.2).2.record invoker config context steps :=
  rfl

/-- The steps that are left come to what they came to, and the run ends where it ended. -/
theorem record_of_thinned {steps : List (Mode × String)} {s : Session σ}
    {kept : List (Event σ)} (h : Thinned (s.record invoker config context steps) kept) :
    s.record invoker config context (kept.map Prod.fst) = kept ∧
      s.run invoker config context (kept.map Prod.fst) = s.run invoker config context steps := by
  induction steps generalizing s kept with
  | nil =>
      cases h
      exact ⟨rfl, rfl⟩
  | cons step steps ih =>
      rw [record_cons] at h
      cases h with
      | keep rest =>
          obtain ⟨hrecord, hrun⟩ := ih rest
          refine ⟨?_, hrun⟩
          rw [List.map_cons, record_cons, hrecord]
      | drop skipped rest =>
          have hsame := bring_of_isSkipped skipped
          rw [hsame] at rest
          obtain ⟨hrecord, hrun⟩ := ih rest
          refine ⟨hrecord, hrun.trans ?_⟩
          rw [run, run, List.foldl_cons, hsame]

/-! ### A second pass -/

theorem run_map (mode : Mode) (targets : List String) (s : Session σ) :
    s.run invoker config context (targets.map (mode, ·)) =
      s.bringAll invoker config context mode targets :=
  List.foldl_map

/-- After a pass through the targets each of them is refused. -/
theorem refuses_bringAll (invoker : Invoker σ) (context : Context) {mode : Mode}
    {targets : List String} {target : String} (htarget : target ∈ targets) (s : Session σ) :
    let after := s.bringAll invoker config context mode targets
    config.Refuses mode after.store after.inProgress target := by
  intro after
  obtain ⟨trace, hwalks⟩ := exists_walks_bringAll invoker config context mode targets s
  rw [hwalks.inProgress_eq]
  exact hwalks.walk.refuses.1 target htarget

/-- A pass through targets that are refused skips them all and changes nothing. -/
theorem pass_of_refuses {mode : Mode} {targets : List String} {s : Session σ}
    (h : ∀ target ∈ targets, config.Refuses mode s.store s.inProgress target) :
    s.run invoker config context (targets.map (mode, ·)) = s ∧
      ∀ r ∈ s.history invoker config context (targets.map (mode, ·)), r.1.IsSkipped := by
  induction targets with
  | nil => exact ⟨rfl, by simp [history]⟩
  | cons target targets ih =>
      obtain ⟨d, hbring⟩ := @bring_of_refuses σ invoker config context mode target s
        (h target List.mem_cons_self)
      obtain ⟨hrun, hskipped⟩ := ih fun t ht => h t (List.mem_cons_of_mem _ ht)
      constructor
      · rw [run] at hrun ⊢
        rw [List.map_cons, List.foldl_cons, hbring]
        exact hrun
      · intro r hr
        simp only [List.map_cons, history, hbring, List.mem_cons] at hr
        rcases hr with rfl | hr
        · exact ⟨d, rfl⟩
        · exact hskipped r hr

/-- Leaving skipped steps out of a run changes neither what comes of the others nor the session at
the end. Going through the same targets again in the same direction skips all of them, and the
session with its calls and its store stays as it is. -/
theorem skipped_inert (invoker : Invoker σ) (config : Config) (context : Context) (s : Session σ) :
    (∀ steps kept, Thinned (s.record invoker config context steps) kept →
      s.record invoker config context (kept.map Prod.fst) = kept ∧
        s.run invoker config context (kept.map Prod.fst) = s.run invoker config context steps) ∧
    ∀ (mode : Mode) (targets : List String),
      let after := s.run invoker config context (targets.map (mode, ·))
      after.run invoker config context (targets.map (mode, ·)) = after ∧
        ∀ r ∈ after.history invoker config context (targets.map (mode, ·)), r.1.IsSkipped := by
  refine ⟨fun steps kept => record_of_thinned, fun mode targets => ?_⟩
  intro after
  have hafter : after = s.bringAll invoker config context mode targets := run_map mode targets s
  refine pass_of_refuses fun target htarget => ?_
  rw [hafter]
  exact refuses_bringAll invoker context htarget s

/-- Of these steps one is not skipped, and it brings the interface up as well. -/
theorem skipped_inert_pair :
    let invoker : Invoker Nat := fun _ n => ⟨none, [], n + 1⟩
    let s : Session Nat := begin (.ofEntries "state" (Catalog.empty.insert "old" "gone")) 0
    let steps := [(.start, "ghost"), (.start, "lan"), (.start, "eth0"), (.stop, "old")]
    let kept := ((s.record invoker pairConfig {} steps).drop 1).take 1
    let after := s.run invoker pairConfig {} ([(.start, "lan"), (.start, "eth0")])
    Thinned (s.record invoker pairConfig {} steps) kept ∧
      s.record invoker pairConfig {} [(.start, "lan")] = kept ∧
      s.run invoker pairConfig {} [(.start, "lan")] = s.run invoker pairConfig {} steps ∧
      after.world = 2 ∧ after.run invoker pairConfig {} [(.start, "lan"), (.start, "eth0")] = after := by
  intro invoker s steps kept after
  have hthinned : Thinned (s.record invoker pairConfig {} steps) kept :=
    .drop ⟨_, rfl⟩ (.keep (.drop ⟨_, rfl⟩ (.drop ⟨_, rfl⟩ .nil)))
  have h := skipped_inert invoker pairConfig {} s
  exact ⟨hthinned, (h.1 steps kept hthinned).1, (h.1 steps kept hthinned).2, by decide,
    (h.2 .start ["lan", "eth0"]).1⟩

end Session

end NetHooks
