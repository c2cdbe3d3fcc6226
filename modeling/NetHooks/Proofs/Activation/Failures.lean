import NetHooks.Activation.Session
import Mathlib.Data.List.Forall2

/-!
# Failing hooks

Whether a call fails is logged and counts for nothing else. Sessions that agree on the store, on
what is in progress and on the calls so far take agreeing steps, whoever carries the calls out
(`Session.Agree`); and where the calls leave the same worlds, runs differ in their logs only
(`Session.history_of_actsAs`).
-/
namespace NetHooks

/-- The invoker leaves the worlds that the other leaves, whichever calls fail in either of them. -/
def Invoker.ActsAs {σ : Type} (b a : Invoker σ) : Prop :=
  ∀ c w, (b c w).world = (a c w).world

namespace Session

variable {σ τ : Type} {R : σ → τ → Prop} {a : Invoker σ} {b : Invoker τ} {config : Config}
  {context : Context} {mode : Mode} {s s' : Session σ} {t t' : Session τ}

/-- The sessions agree on everything but the log and the world, and their worlds are related. -/
structure Agree (R : σ → τ → Prop) (s : Session σ) (t : Session τ) : Prop where
  store_eq : t.store = s.store
  inProgress_eq : t.inProgress = s.inProgress
  calls_eq : t.calls = s.calls
  world : R s.world t.world

/-- The results are equal and the sessions agree. -/
def AgreeOn (R : σ → τ → Prop) (r : Outcome × Session σ) (r' : Outcome × Session τ) : Prop :=
  r'.1 = r.1 ∧ r.2.Agree R r'.2

namespace Agree

theorem enter (h : s.Agree R t) (name : String) : (s.enter name).Agree R (t.enter name) where
  store_eq := h.store_eq
  inProgress_eq := congrArg (name :: ·) h.inProgress_eq
  calls_eq := h.calls_eq
  world := h.world

theorem leave (h : s.Agree R t) (i : Instance) (mode : Mode) :
    (s.leave i mode).Agree R (t.leave i mode) where
  store_eq := congrArg (i.settle mode) h.store_eq
  inProgress_eq := congrArg List.tail h.inProgress_eq
  calls_eq := h.calls_eq
  world := h.world

theorem noteDependency (h : s.Agree R t) (group : String) (outcome : Outcome) :
    (s.noteDependency group outcome).Agree R (t.noteDependency group outcome) :=
  ⟨h.store_eq, h.inProgress_eq, h.calls_eq, h.world⟩

/-- Dependencies that are gone through alike leave agreeing sessions. -/
theorem foldl {visit : String → Session σ → Outcome × Session σ}
    {visit' : String → Session τ → Outcome × Session τ}
    (hvisit : ∀ d {s : Session σ} {t : Session τ}, s.Agree R t → AgreeOn R (visit d s) (visit' d t))
    (group : String) (targets : List String) (h : s.Agree R t) :
    (targets.foldl (fun s d =>
        let r := visit d s
        r.2.noteDependency group r.1) s).Agree R
      (targets.foldl (fun t d =>
        let r := visit' d t
        r.2.noteDependency group r.1) t) := by
  induction targets generalizing s t with
  | nil => exact h
  | cons d targets ih =>
      obtain ⟨houtcome, hagree⟩ := hvisit d h
      refine ih ?_
      simp only [houtcome]
      exact hagree.noteDependency group _

variable (hworld : ∀ c w v, R w v → R (a c w).world (b c v).world)
include hworld

/-- A call that fails leaves what the same call leaves when it does not. -/
theorem call (h : s.Agree R t) (c : Call) : (s.call a c).Agree R (t.call b c) where
  store_eq := h.store_eq
  inProgress_eq := h.inProgress_eq
  calls_eq := congrArg (· ++ [c]) h.calls_eq
  world := hworld c _ _ h.world

theorem callAll (h : s.Agree R t) (calls : List Call) :
    (s.callAll a calls).Agree R (t.callAll b calls) := by
  induction calls generalizing s t with
  | nil => exact h
  | cons c calls ih => exact ih (h.call hworld c)

/-- A target is accepted or refused alike, and its dependencies are gone through alike. -/
theorem bringWithin (h : s.Agree R t) (depth : Nat) (target : String) :
    AgreeOn R (s.bringWithin a config context mode depth target)
      (t.bringWithin b config context mode depth target) := by
  induction depth generalizing s t target with
  | zero => exact ⟨rfl, h⟩
  | succ depth ih =>
      simp only [Session.bringWithin, h.store_eq, h.inProgress_eq]
      cases config.accept mode s.store s.inProgress target with
      | error d => exact ⟨rfl, h⟩
      | ok i =>
          have hbefore := (h.enter i.name).callAll hworld (i.entity.callsBefore context i.name mode)
          have hbetween := foldl (fun d _ _ h => ih h d) i.entity.name
            (mode.order.arrange i.entity.dependencies) hbefore
          exact ⟨rfl, (hbetween.callAll hworld _).leave i mode⟩

end Agree

/-! ### Runs -/

/-- What comes of each step of a run, and the session after it. -/
def history (invoker : Invoker σ) (config : Config) (context : Context) :
    List (Mode × String) → Session σ → List (Outcome × Session σ)
  | [], _ => []
  | (mode, target) :: steps, s =>
      let r := s.bring invoker config context mode target
      r :: history invoker config context steps r.2

/-- Agreeing sessions agree after every step. -/
theorem Agree.history (hworld : ∀ c w v, R w v → R (a c w).world (b c v).world)
    (h : s.Agree R t) (steps : List (Mode × String)) :
    List.Forall₂ (AgreeOn R) (s.history a config context steps)
      (t.history b config context steps) := by
  induction steps generalizing s t with
  | nil => exact .nil
  | cons step steps ih =>
      have hstep : AgreeOn R (s.bring a config context step.1 step.2)
          (t.bring b config context step.1 step.2) := h.bringWithin hworld config.depth step.2
      exact .cons hstep (ih hstep.2)

/-- The session without its log. -/
def silent (s : Session σ) : Session σ :=
  { s with log := [] }

theorem AgreeOn.silent_eq {r r' : Outcome × Session σ} (h : AgreeOn Eq r r') :
    r'.map id silent = r.map id silent := by
  obtain ⟨houtcome, hstore, hinProgress, hcalls, hworld⟩ := h
  simp [Prod.map, silent, houtcome, hstore, hinProgress, hcalls, hworld]

/-- Two runs whose calls fail differently, and leave the same worlds, come step by step to the same
outcomes, calls and stores: the sessions differ in their logs only. -/
theorem history_of_actsAs {a b : Invoker σ} (h : b.ActsAs a) (config : Config) (context : Context)
    (steps : List (Mode × String)) (s : Session σ) :
    (s.history b config context steps).map (Prod.map id silent) =
      (s.history a config context steps).map (Prod.map id silent) := by
  have hworld : ∀ c w v, w = v → (a c w).world = (b c v).world := by
    rintro c w _ rfl
    exact (h c w).symm
  have hagree : List.Forall₂ (AgreeOn Eq) (s.history a config context steps)
      (s.history b config context steps) :=
    Agree.history hworld ⟨rfl, rfl, rfl, rfl⟩ steps
  have hsilent : List.Forall₂ Eq ((s.history a config context steps).map (Prod.map id silent))
      ((s.history b config context steps).map (Prod.map id silent)) :=
    List.forall₂_map_left_iff.2 (List.forall₂_map_right_iff.2
      (hagree.imp fun _ _ h => h.silent_eq.symm))
  rw [List.forall₂_eq_eq_eq] at hsilent
  exact hsilent.symm

/-- A group with a command and an interface with a command of its own. -/
def pairConfig : Config where
  entities := Catalog.ofList [
    ("eth0", .interface ⟨"eth0", none, [], [], Commands.empty.add .up ["link up"],
      ⟨"interfaces", 1⟩⟩),
    ("lan", .group ⟨"lan", ["eth0", "ghost"], Commands.empty.add .postUp ["announce"],
      ⟨"interfaces", 3⟩⟩)]
  mappings := .empty
  allowLists := .empty

/-- Calls count up the world; in one run all of them fail and in the other none. -/
theorem history_of_actsAs_pair :
    let well : Invoker Nat := fun _ n => ⟨none, [], n + 1⟩
    let ill : Invoker Nat := fun _ n => ⟨some (.unstarted "hook" .notFound), [], n + 1⟩
    let s : Session Nat := begin (.ofEntries "state" .empty) 0
    let steps := [(.start, "lan"), (.stop, "eth0"), (.start, "eth0")]
    ill.ActsAs well ∧
      (s.history ill pairConfig {} steps).map (Prod.map id silent) =
        (s.history well pairConfig {} steps).map (Prod.map id silent) ∧
      (s.history ill pairConfig {} steps).map (·.2.log.length) = [3, 3, 4] ∧
      (s.history well pairConfig {} steps).map (·.2.log.length) = [1, 1, 1] := by
  intro well ill s steps
  have hacts : ill.ActsAs well := fun _ _ => rfl
  exact ⟨hacts, history_of_actsAs hacts pairConfig {} steps s, by decide, by decide⟩

end Session

end NetHooks
