import NetHooks.Proofs.Activation.Depth
import NetHooks.Proofs.Config.OptionKeys

/-!
# Hooks run for what changes

A hook learns from its environment which instance it runs for. The calls that name an
instance are those of the work on it, so they are one full sequence when the store changes
there, and there are none otherwise.
-/
namespace NetHooks

namespace Environment

/-- The hook runs for the instance, as an interface or as a group. -/
def Names (env : Environment) (name : String) : Prop :=
  env.get? "IFACE" = some name ∨ env.get? "GROUP" = some name

instance (env : Environment) (name : String) : Decidable (env.Names name) :=
  inferInstanceAs (Decidable (_ ∨ _))

theorem names_base (context : Context) (subject : Subject) (logical : String) (mode : Mode)
    (phase : Phase) (name : String) :
    (base context subject logical mode phase).Names name ↔ subject.name = name := by
  cases subject <;> simp [Names, base, Catalog.ofList, Subject.key, Subject.name]

/-- Keys under the heads of types and of protocols do not change whom a hook runs for. -/
theorem names_layered {env own : Environment} {head : String} (hown : own.Under head)
    (hhead : head = typeHead ∨ head = protocolHead) (name : String) :
    (layered [env, own]).Names name ↔ env.Names name := by
  have hkeys : own.get? "IFACE" = none ∧ own.get? "GROUP" = none := by
    rcases hhead with rfl | rfl
    · exact ⟨hown.get?_eq_none (by decide), hown.get?_eq_none (by decide)⟩
    · exact ⟨hown.get?_eq_none (by decide), hown.get?_eq_none (by decide)⟩
  simp [Names, layered, hkeys]

end Environment

namespace Interface

variable {i : Interface} {context : Context} {instanceName : String} {mode : Mode}
  {phase : Phase} {c : Call}

/-- A call of a phase is the sweep for the type, one of a layer of protocols, or a command. -/
theorem mem_phaseCalls : c ∈ i.phaseCalls context instanceName mode phase ↔
    let base := Environment.base context (.interface instanceName) i.name mode phase
    (∃ t ∈ i.type?, .sweep context.typeHookFolder mode.order
        (Environment.layered [base, t.environment]) = c) ∨
      (∃ own ∈ i.protocolLayers phase, .sweep context.protocolHookFolder mode.order
        (Environment.layered [base, own]) = c) ∨
      ∃ text ∈ i.commands.get phase, .command text base = c := by
  cases mode <;> simp [phaseCalls]

theorem under_of_mem_protocolLayers (hkeys : i.KeysUnder) {own : Environment}
    (h : own ∈ i.protocolLayers phase) : own.Under protocolHead := by
  simp only [protocolLayers] at h
  split at h
  · obtain ⟨p, hp, rfl⟩ := List.mem_map.1 h
    exact hkeys.protocols p hp
  · obtain ⟨kind, -, rfl⟩ := List.mem_map.1 h
    exact (Environment.under_empty _).insert (by simp)

theorem names_of_mem_phaseCalls (hkeys : i.KeysUnder)
    (hc : c ∈ i.phaseCalls context instanceName mode phase) (name : String) :
    c.environment.Names name ↔ instanceName = name := by
  have hbase := Environment.names_base context (.interface instanceName) i.name mode phase name
  have hsweep : ∀ {directory order head own}, own.Under head →
      head = typeHead ∨ head = protocolHead →
      c = .sweep directory order (Environment.layered
        [Environment.base context (.interface instanceName) i.name mode phase, own]) →
      (c.environment.Names name ↔ instanceName = name) := by
    rintro directory order head own hown hhead rfl
    exact (Environment.names_layered hown hhead name).trans hbase
  rcases mem_phaseCalls.1 hc with ⟨t, ht, rfl⟩ | ⟨own, hown, rfl⟩ | ⟨text, -, rfl⟩
  · exact hsweep (hkeys.type t ht) (.inl rfl) rfl
  · exact hsweep (under_of_mem_protocolLayers hkeys hown) (.inr rfl) rfl
  · exact hbase

end Interface

namespace Entity

/-- What is asked of hooks when the instance is brought up or down: all phases of an
interface, or those of a group around its dependencies. -/
def sequence (e : Entity) (context : Context) (instanceName : String) (mode : Mode) :
    List Call :=
  match e with
  | interface i => mode.phases.flatMap (i.phaseCalls context instanceName mode)
  | group g =>
      g.phaseCalls context instanceName mode mode.phaseBefore ++
        g.phaseCalls context instanceName mode mode.phaseAfter

theorem callsBefore_append_callsAfter (e : Entity) (context : Context) (instanceName : String)
    (mode : Mode) : e.callsBefore context instanceName mode ++
      e.callsAfter context instanceName mode = e.sequence context instanceName mode := by
  cases e with
  | interface i => exact List.append_nil _
  | group g => rfl

/-- Each call of a sequence names the instance and no other. -/
theorem names_of_mem_sequence {e : Entity} {context : Context} {instanceName : String}
    {mode : Mode} {c : Call} (hkeys : ∀ i, e = .interface i → i.KeysUnder)
    (hc : c ∈ e.sequence context instanceName mode) (name : String) :
    c.environment.Names name ↔ instanceName = name := by
  cases e with
  | interface i =>
      obtain ⟨phase, -, hc⟩ := List.mem_flatMap.1 hc
      exact Interface.names_of_mem_phaseCalls (hkeys i rfl) hc name
  | group g =>
      simp only [sequence, Group.phaseCalls, List.mem_append, List.mem_map] at hc
      rcases hc with ⟨text, -, rfl⟩ | ⟨text, -, rfl⟩
      · exact Environment.names_base context (.group instanceName) g.name mode _ name
      · exact Environment.names_base context (.group instanceName) g.name mode _ name

end Entity

/-- The calls that name the instance, in their order. -/
def Call.naming (name : String) (calls : List Call) : List Call :=
  calls.filter (·.environment.Names name)

namespace Walk

variable {config : Config} {mode : Mode} {busy targets : List String} {store store' : Store}
  {trace : List Moment}

/-- The calls that name an instance are those of its own moments. -/
theorem naming_calls (h : Walk config mode busy targets store trace store')
    (hkeys : config.KeysUnder) (context : Context) (name : String) :
    Call.naming name (trace.flatMap (Moment.calls context mode)) =
      (Moment.about name trace).flatMap (Moment.calls context mode) := by
  have hnames : ∀ m ∈ trace, ∀ c ∈ m.calls context mode,
      (c.environment.Names name ↔ m.subject.name = name) := by
    intro m hm c hc
    have hentity : ∀ i, m.subject.entity = .interface i → i.KeysUnder := fun i hi =>
      hkeys m.subject.logical i (hi ▸ (h.changes_of_mem hm).1)
    have hmem : c ∈ m.subject.entity.sequence context m.subject.name mode := by
      rw [← Entity.callsBefore_append_callsAfter]
      cases m with
      | began i => exact List.mem_append_left _ hc
      | ended i => exact List.mem_append_right _ hc
    exact Entity.names_of_mem_sequence hentity hmem name
  clear h
  induction trace with
  | nil => rfl
  | cons m trace ih =>
      have hrest := ih fun m' hm' => hnames m' (List.mem_cons_of_mem _ hm')
      have hfirst := hnames m List.mem_cons_self
      simp only [Call.naming] at hrest ⊢
      rw [List.flatMap_cons, List.filter_append, hrest, Moment.about_cons]
      by_cases hm : m.subject.name = name
      · rw [if_pos hm, List.flatMap_cons, List.filter_eq_self.2]
        exact fun c hc => decide_eq_true ((hfirst c hc).2 hm)
      · rw [if_neg hm, List.filter_eq_nil_iff.2, List.nil_append]
        exact fun c hc => by simpa using fun hn => hm ((hfirst c hc).1 hn)

/-- No call names what was left alone; what changed is named by one full sequence. -/
theorem naming_account (h : Walk config mode busy targets store trace store')
    (hkeys : config.KeysUnder) (context : Context) (name : String) :
    (Call.naming name (trace.flatMap (Moment.calls context mode)) = [] ∧
        store'.get? name = store.get? name) ∨
      ∃ i : Instance, i.name = name ∧ config.entity? i.logical = some i.entity ∧
        Call.naming name (trace.flatMap (Moment.calls context mode)) =
          i.entity.sequence context name mode ∧
        i.Changes mode store store' := by
  rw [h.naming_calls hkeys context name]
  rcases h.account name with ⟨hquiet, hsame⟩ | ⟨i, rfl, hdef, -, hwork, hchange⟩
  · exact .inl ⟨by rw [hquiet]; rfl, hsame⟩
  · refine .inr ⟨i, rfl, hdef, ?_, hchange⟩
    rw [hwork, ← Entity.callsBefore_append_callsAfter]
    simp [Moment.calls]

end Walk

namespace Session

variable {σ : Type}

theorem naming_account_bring (invoker : Invoker σ) {config : Config} (hkeys : config.KeysUnder)
    (context : Context) (mode : Mode) (target : String) (store : Store) (world : σ)
    (name : String) :
    let s := (bring invoker config context mode target (begin store world)).2
    (Call.naming name s.calls = [] ∧ s.store.get? name = store.get? name) ∨
      ∃ i : Instance, i.name = name ∧ config.entity? i.logical = some i.entity ∧
        Call.naming name s.calls = i.entity.sequence context name mode ∧
        i.Changes mode store s.store := by
  intro s
  obtain ⟨trace, h⟩ := exists_walks_bring invoker config context mode target (begin store world)
  have hcalls : s.calls = trace.flatMap (Moment.calls context mode) := h.calls_eq
  rw [hcalls]
  exact h.walk.naming_account hkeys context name

end Session

end NetHooks
