import NetHooks.Proofs.Activation.Fidelity
import NetHooks.Proofs.Activation.Hooks
import NetHooks.Proofs.Config.Grammar

/-!
# What hooks are told

A hook learns from its environment whom it runs for, in which phase and in which direction, and
what the options of one definition are. The keys of options stand apart from those that every hook
receives (`Environment.joins_layered`), so no option of a compiled configuration takes the place
of one of them, and none reaches a hook that runs for something else (`Turn.Tells`).
-/
namespace NetHooks

namespace Environment

/-- The environment has the keys of the base and keys of its own, with their values, and no others;
and no key is of both kinds. -/
structure Joins (env base own : Environment) : Prop where
  holds_base : ∀ key value, base.get? key = some value → env.get? key = some value
  holds_own : ∀ key value, own.get? key = some value → env.get? key = some value
  only : ∀ key, env.get? key ≠ none → base.get? key ≠ none ∨ own.get? key ≠ none
  apart : ∀ key, base.get? key = none ∨ own.get? key = none

variable {context : Context} {subject : Subject} {logical : String} {mode : Mode} {phase : Phase}
  {head key : String} {own : Environment}

theorem Joins.unique {env env' base : Environment} (h : Joins env base own)
    (h' : Joins env' base own) : env = env' := by
  have hnone {env : Environment} {key : String} (h : Joins env base own)
      (hbase : base.get? key = none) (hown : own.get? key = none) : env.get? key = none := by
    by_contra hkey
    rcases h.only key hkey with hkey | hkey
    · exact hkey hbase
    · exact hkey hown
  refine Catalog.ext_get? fun key => ?_
  cases hbase : base.get? key with
  | some value => rw [h.holds_base key value hbase, h'.holds_base key value hbase]
  | none =>
      cases hown : own.get? key with
      | some value => rw [h.holds_own key value hown, h'.holds_own key value hown]
      | none => rw [hnone h hbase hown, hnone h' hbase hown]

/-- The keys of options are none of those that every hook receives. -/
theorem get?_base_eq_none (hhead : head = typeHead ∨ head = protocolHead)
    (hkey : (head ++ "_").toList <+: key.toList) :
    (base context subject logical mode phase).get? key = none := by
  have hfree : ∀ k ∈ ["IFACE", "GROUP", "LOGICAL", "MODE", "PHASE", "PATH", "VERBOSE"],
      ¬(head ++ "_").toList <+: k.toList := by
    rcases hhead with rfl | rfl <;> decide
  have hother : ∀ k ∈ ["IFACE", "GROUP", "LOGICAL", "MODE", "PHASE", "PATH", "VERBOSE"],
      key ≠ k := by
    intro k hk heq
    exact hfree k hk (heq ▸ hkey)
  cases subject <;> simp_all [base, Catalog.ofList, Subject.key]

/-- A layer whose keys lie under a head of options joins the keys that every hook receives. -/
theorem joins_layered (hown : own.Under head) (hhead : head = typeHead ∨ head = protocolHead) :
    Joins (layered [base context subject logical mode phase, own])
      (base context subject logical mode phase) own := by
  have hget : ∀ key, (layered [base context subject logical mode phase, own]).get? key =
      (own.get? key).or ((base context subject logical mode phase).get? key) := by
    intro key
    simp [layered]
  have hapart : ∀ key, (base context subject logical mode phase).get? key = none ∨
      own.get? key = none := by
    intro key
    by_cases hkey : own.get? key = none
    · exact .inr hkey
    · exact .inl (get?_base_eq_none hhead (hown key hkey))
  refine ⟨fun key value hbase => ?_, fun key value hvalue => ?_, fun key hkey => ?_, hapart⟩
  · have hnone : own.get? key = none := (hapart key).resolve_left (by simp [hbase])
    rw [hget, hnone]
    exact hbase
  · rw [hget, hvalue]
    rfl
  · by_cases hnone : own.get? key = none
    · rw [hget, hnone] at hkey
      exact .inl hkey
    · exact .inr hnone

/-- Beside a layer under the head of protocols no key lies under that of types. -/
theorem get?_layered_eq_none (hown : own.Under protocolHead)
    (hkey : (typeHead ++ "_").toList <+: key.toList) :
    (layered [base context subject logical mode phase, own]).get? key = none := by
  have hbase : (base context subject logical mode phase).get? key = none :=
    get?_base_eq_none (.inl rfl) hkey
  have hnone : own.get? key = none := by
    refine hown.get?_eq_none fun hprotocol => ?_
    have hheads := List.prefix_of_prefix_length_le hkey hprotocol (by decide)
    exact absurd hheads (by decide)
  simp [layered, hbase, hnone]

end Environment

namespace Entity

/-- What a hook of the definition runs for. -/
def subject (e : Entity) (instanceName : String) : Subject :=
  match e with
  | interface _ => .interface instanceName
  | group _ => .group instanceName

/-- The phases of the work in this direction, in order. -/
def phases (e : Entity) (mode : Mode) : List Phase :=
  match e with
  | interface _ => mode.phases
  | group _ => [mode.phaseBefore, mode.phaseAfter]

end Entity

/-! ### Turns -/

/-- One phase of the work on an instance. -/
structure Turn where
  subject : Instance
  mode : Mode
  phase : Phase

namespace Turn

/-- What every hook of the turn is told: the instance, its definition, the direction and the
phase. -/
def base (context : Context) (t : Turn) : Environment :=
  Environment.base context (t.subject.entity.subject t.subject.name) t.subject.logical t.mode
    t.phase

def calls (context : Context) (t : Turn) : List Call :=
  match t.subject.entity with
  | .interface l => l.phaseCalls context t.subject.name t.mode t.phase
  | .group g => g.phaseCalls context t.subject.name t.mode t.phase

/-- A call of the turn, by what its environment has beside the keys that every hook receives. -/
inductive Tells (context : Context) (t : Turn) : Call → Prop
  | type {l : Interface} {type : LinkType} {env : Environment}
      (defined : t.subject.entity = .interface l) (typed : l.type? = some type)
      (told : env.Joins (t.base context) type.environment) :
      Tells context t (.sweep context.typeHookFolder t.mode.order env)
  | protocol {l : Interface} {p : Protocol} {env : Environment}
      (defined : t.subject.entity = .interface l) (declared : p ∈ l.protocols)
      (phase : t.phase = .up ∨ t.phase = .down)
      (told : env.Joins (t.base context) p.environment)
      (untyped : ∀ key, "IFACE_".toList <+: key.toList → env.get? key = none) :
      Tells context t (.sweep context.protocolHookFolder t.mode.order env)
  | kind {l : Interface} {p : Protocol} {env : Environment}
      (defined : t.subject.entity = .interface l) (declared : p ∈ l.protocols)
      (phase : t.phase ≠ .up ∧ t.phase ≠ .down)
      (told : env.Joins (t.base context) (Catalog.empty.insert "PROTO_TYPE" p.kind)) :
      Tells context t (.sweep context.protocolHookFolder t.mode.order env)
  | command {text : String} : Tells context t (.command text (t.base context))

variable {context : Context} {t : Turn} {c : Call}

theorem tells_of_mem_phaseCalls {l : Interface} (hdefined : t.subject.entity = .interface l)
    (hname : l.name = t.subject.logical) (hkeys : l.KeysUnder)
    (hkinds : ∀ kind ∈ l.protocolKinds, ∃ p ∈ l.protocols, p.kind = kind)
    (hc : c ∈ l.phaseCalls context t.subject.name t.mode t.phase) : t.Tells context c := by
  have hbase : Environment.base context (.interface t.subject.name) l.name t.mode t.phase =
      t.base context := by
    simp [base, hdefined, hname, Entity.subject]
  rcases Interface.mem_phaseCalls.1 hc with ⟨type, htype, rfl⟩ | ⟨own, hown, rfl⟩ | ⟨text, -, rfl⟩
  · have hjoins : Environment.Joins (Environment.layered [t.base context, type.environment])
        (t.base context) type.environment :=
      Environment.joins_layered (hkeys.type type htype) (.inl rfl)
    rw [hbase]
    exact .type hdefined htype hjoins
  · have hunder := Interface.under_of_mem_protocolLayers hkeys hown
    have hjoins : Environment.Joins (Environment.layered [t.base context, own]) (t.base context)
        own := Environment.joins_layered hunder (.inr rfl)
    rw [hbase]
    simp only [Interface.protocolLayers] at hown
    split at hown
    next hphase =>
      obtain ⟨p, hp, rfl⟩ := List.mem_map.1 hown
      have hupdown : t.phase = .up ∨ t.phase = .down := by
        cases hat : t.phase <;> simp_all [Phase.sweepsProtocols]
      exact .protocol hdefined hp hupdown hjoins fun key hkey =>
        Environment.get?_layered_eq_none hunder hkey
    next hphase =>
      obtain ⟨kind, hkind, rfl⟩ := List.mem_map.1 hown
      obtain ⟨p, hp, rfl⟩ := hkinds kind hkind
      have haround : t.phase ≠ .up ∧ t.phase ≠ .down := by
        cases hat : t.phase <;> simp_all [Phase.sweepsProtocols]
      exact .kind hdefined hp haround hjoins
  · exact hbase ▸ .command

/-- In a compiled configuration each call of a turn tells its hook what it should. -/
theorem tells_of_compile {forest : Forest} {config : Config}
    (hcompile : Config.compile forest = .ok config)
    (hdefined : config.entity? t.subject.logical = some t.subject.entity)
    (hc : c ∈ t.calls context) : t.Tells context c := by
  obtain ⟨tree, -, hname, ⟨-, -, hentity⟩ | ⟨-, -, hentity⟩⟩ := Config.exists_statement hcompile hdefined
  · have hkeys : tree.interfaceOf.KeysUnder :=
      Config.keysUnder_of_compile hcompile _ _ (hentity ▸ hdefined)
    rw [calls, hentity] at hc
    refine tells_of_mem_phaseCalls hentity hname hkeys (fun kind hkind => ?_) hc
    obtain ⟨line, hline, rfl⟩ := List.mem_map.1 (List.mem_eraseDups.1 hkind)
    exact ⟨line.protocolOf, List.mem_map.2 ⟨line, hline, rfl⟩, rfl⟩
  · rw [calls, hentity] at hc
    obtain ⟨text, -, rfl⟩ := List.mem_map.1 hc
    have hbase : Environment.base context (.group t.subject.name) tree.groupOf.name t.mode
        t.phase = t.base context := by
      simp [base, hentity, Entity.subject, Tree.groupOf, hname]
    exact hbase ▸ .command

end Turn

namespace Moment

/-- The phases that the moment begins: all those of an interface at once, and those of a group
around its dependencies. -/
def turns (mode : Mode) (m : Moment) : List Turn :=
  match m.subject.entity, m with
  | .interface _, .began i => mode.phases.map fun phase => ⟨i, mode, phase⟩
  | .interface _, .ended _ => []
  | .group _, .began i => [⟨i, mode, mode.phaseBefore⟩]
  | .group _, .ended i => [⟨i, mode, mode.phaseAfter⟩]

theorem calls_eq_turns (context : Context) (mode : Mode) (m : Moment) :
    m.calls context mode = (m.turns mode).flatMap (Turn.calls context) := by
  rcases m with ⟨name, logical, l | g⟩ | ⟨name, logical, l | g⟩
  · simp [calls, turns, subject, Entity.callsBefore, Interface.calls, List.flatMap_map, Turn.calls]
  · simp [calls, turns, subject, Entity.callsBefore, Turn.calls]
  · simp [calls, turns, subject, Entity.callsAfter]
  · simp [calls, turns, subject, Entity.callsAfter, Turn.calls]

theorem of_mem_turns {mode : Mode} {m : Moment} {t : Turn} (h : t ∈ m.turns mode) :
    t.subject = m.subject ∧ t.mode = mode ∧ t.phase ∈ t.subject.entity.phases mode := by
  rcases m with ⟨name, logical, l | g⟩ | ⟨name, logical, l | g⟩
  · obtain ⟨phase, hphase, rfl⟩ := List.mem_map.1 h
    exact ⟨rfl, rfl, hphase⟩
  · obtain rfl := List.mem_singleton.1 h
    exact ⟨rfl, rfl, List.mem_cons_self⟩
  · cases h
  · obtain rfl := List.mem_singleton.1 h
    exact ⟨rfl, rfl, List.mem_cons_of_mem _ List.mem_cons_self⟩

end Moment

/-! ### Runs -/

namespace Session

variable {σ : Type} {invoker : Invoker σ} {config : Config} {context : Context}

/-- One of the steps works on the instance in the direction of the turn, and the turn is a phase of
this work. -/
def Takes (invoker : Invoker σ) (config : Config) (context : Context) (s : Session σ)
    (steps : List (Mode × String)) (t : Turn) : Prop :=
  ∃ earlier target later, steps = earlier ++ (t.mode, target) :: later ∧
    config.entity? t.subject.logical = some t.subject.entity ∧
    t.phase ∈ t.subject.entity.phases t.mode ∧
    t.subject.Changes t.mode (s.run invoker config context earlier).store
      (s.run invoker config context (earlier ++ [(t.mode, target)])).store

theorem Takes.cons {step : Mode × String} {steps : List (Mode × String)} {s : Session σ} {t : Turn}
    (h : (s.bring invoker config context step.1 step.2).2.Takes invoker config context steps t) :
    s.Takes invoker config context (step :: steps) t := by
  obtain ⟨earlier, target, later, rfl, hdefined, hphase, hchanges⟩ := h
  exact ⟨step :: earlier, target, later, rfl, hdefined, hphase, hchanges⟩

theorem exists_turns_bring (invoker : Invoker σ) (config : Config) (context : Context)
    (step : Mode × String) (s : Session σ) :
    ∃ turns : List Turn, (s.bring invoker config context step.1 step.2).2.calls =
        s.calls ++ turns.flatMap (Turn.calls context) ∧
      ∀ t ∈ turns, ∀ steps, s.Takes invoker config context (step :: steps) t := by
  obtain ⟨trace, h⟩ := exists_walks_bring invoker config context step.1 step.2 s
  refine ⟨trace.flatMap (Moment.turns step.1), ?_, fun t ht steps => ?_⟩
  · have hcalls : Moment.calls context step.1 =
        fun m => (m.turns step.1).flatMap (Turn.calls context) :=
      funext (Moment.calls_eq_turns context step.1)
    rw [h.calls_eq, hcalls, List.flatMap_assoc]
  · obtain ⟨m, hm, ht⟩ := List.mem_flatMap.1 ht
    obtain ⟨hsubject, hmode, hphase⟩ := Moment.of_mem_turns ht
    obtain ⟨hdefined, hchanges⟩ := h.walk.changes_of_mem hm
    rw [← hsubject] at hdefined hchanges
    rw [← hmode] at hphase hchanges
    have hsteps : step :: steps = [] ++ (t.mode, step.2) :: steps := by rw [hmode]; rfl
    exact ⟨[], step.2, steps, hsteps, hdefined, hphase, by simpa [run, hmode] using hchanges⟩

/-- What a run asks of hooks is what turns of its steps ask. -/
theorem exists_turns_run (invoker : Invoker σ) (config : Config) (context : Context)
    (steps : List (Mode × String)) (s : Session σ) :
    ∃ turns : List Turn, (s.run invoker config context steps).calls =
        s.calls ++ turns.flatMap (Turn.calls context) ∧
      ∀ t ∈ turns, s.Takes invoker config context steps t := by
  induction steps generalizing s with
  | nil => exact ⟨[], by simp [run], by simp⟩
  | cons step steps ih =>
      obtain ⟨first, hfirst, htakes⟩ := exists_turns_bring invoker config context step s
      obtain ⟨rest, hrest, htakes'⟩ := ih (s.bring invoker config context step.1 step.2).2
      refine ⟨first ++ rest, ?_, fun t ht => ?_⟩
      · have hrun : s.run invoker config context (step :: steps) =
            (s.bring invoker config context step.1 step.2).2.run invoker config context steps := rfl
        rw [hrun, hrest, hfirst, List.flatMap_append, List.append_assoc]
      · rcases List.mem_append.1 ht with ht | ht
        · exact htakes t ht steps
        · exact (htakes' t ht).cons

/-- All calls of a run are those of turns of its steps, and each of them tells its hook whom it
runs for, in which direction and phase, and the options of one definition or none. -/
theorem turns_tell (invoker : Invoker σ) {forest : Forest} {config : Config}
    (hcompile : Config.compile forest = .ok config) (context : Context) (store : Store) (world : σ)
    (steps : List (Mode × String)) :
    ∃ turns : List Turn,
      ((begin store world).run invoker config context steps).calls =
        turns.flatMap (Turn.calls context) ∧
      ∀ t ∈ turns, (begin store world).Takes invoker config context steps t ∧
        ∀ c ∈ t.calls context, t.Tells context c := by
  obtain ⟨turns, hcalls, htakes⟩ :=
    exists_turns_run invoker config context steps (begin store world)
  refine ⟨turns, hcalls, fun t ht => ⟨htakes t ht, fun c hc => ?_⟩⟩
  obtain ⟨_, _, _, -, hdefined, -, -⟩ := htakes t ht
  exact Turn.tells_of_compile hcompile hdefined hc

/-- A type and a protocol whose options are called like keys that hooks receive. -/
def posingForest : Forest := [
  .node ⟨0, "iface eth0", ⟨"interfaces", 1⟩⟩ [
    .node ⟨1, "type ethernet", ⟨"interfaces", 2⟩⟩ [
      .node ⟨2, "mode jumbo", ⟨"interfaces", 3⟩⟩ []],
    .node ⟨1, "proto inet static", ⟨"interfaces", 4⟩⟩ [
      .node ⟨2, "iface-mtu 1500", ⟨"interfaces", 5⟩⟩ []]]]

def posingConfig : Config where
  entities := Catalog.ofList [
    ("eth0", .interface ⟨"eth0",
      some ⟨"ethernet", [⟨"mode", ["jumbo"]⟩],
        Catalog.ofList [("IFACE_TYPE", "ethernet"), ("IFACE_MODE", "jumbo")]⟩,
      [⟨"inet", "static", [⟨"iface-mtu", ["1500"]⟩], Catalog.ofList [("PROTO_TYPE", "inet"),
        ("PROTO_METHOD", "static"), ("PROTO_IFACE_MTU", "1500")]⟩],
      ["inet"], .empty, ⟨"interfaces", 1⟩⟩)]
  mappings := .empty
  allowLists := .empty

theorem turns_tell_posing :
    Config.compile posingForest = .ok posingConfig ∧
      let up := (begin (.ofEntries "state" .empty) ()).run (fun _ w => ⟨none, [], w⟩) posingConfig
        {} [(.start, "wan=eth0")]
      (∃ turns : List Turn, up.calls = turns.flatMap (Turn.calls {}) ∧
        ∀ t ∈ turns, ∀ c ∈ t.calls {}, t.Tells {} c) ∧
      up.calls.map (fun c => (c.environment.get? "MODE", c.environment.get? "IFACE_MODE",
        c.environment.get? "PROTO_IFACE_MTU")) = [
        (some "start", some "jumbo", none), (some "start", none, none),
        (some "start", some "jumbo", none), (some "start", none, some "1500"),
        (some "start", some "jumbo", none), (some "start", none, none)] := by
  have hcompile : Config.compile posingForest = .ok posingConfig := by rfl
  refine ⟨hcompile, ?_, by decide +kernel⟩
  obtain ⟨turns, hcalls, htell⟩ := turns_tell (fun _ w => ⟨none, [], w⟩) hcompile
    {} (.ofEntries "state" .empty) () [(.start, "wan=eth0")]
  exact ⟨turns, hcalls, fun t ht => (htell t ht).2⟩

end Session

end NetHooks
