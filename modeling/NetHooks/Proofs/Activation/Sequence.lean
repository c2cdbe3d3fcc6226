import NetHooks.Proofs.Activation.Mirror

/-!
# Full sequences

What the lines of a definition ask of hooks when an instance is brought up or down is told here
from the lines alone (`Tree.Asks`): an interface has three phases, and a group the two around its
dependencies. The lines leave nothing open (`Tree.Asks.unique`). What they ask is what hooks are
asked for each instance whose entry in the store changes, once and in this order, and nothing is
asked for any other (`Session.hooks_run_for_changes`).
-/
namespace NetHooks

open Forest (headed)

/-! ### What lines ask -/

namespace Tree

/-- The keys that the sweeps for protocols have of their own in a phase of starting, in the order
of the sweeps: in `up` and `down` the options of each protocol, and in the phases around them each
kind of protocol once. -/
inductive ProtocolLayers (t : Tree) (phase : Phase) : List Environment → Prop
  | options (sweeps : phase = .up ∨ phase = .down) :
      ProtocolLayers t phase ((headed "proto" t.children).map (·.protocolOf.environment))
  | kinds {kinds : List String} (around : phase ≠ .up ∧ phase ≠ .down)
      (first : FirstOccurrences ((headed "proto" t.children).map (·.word 1)) kinds) :
      ProtocolLayers t phase (kinds.map fun kind => Catalog.ofList [("PROTO_TYPE", kind)])

/-- The commands of a phase, each with the environment. -/
def commandCalls (t : Tree) (phase : Phase) (env : Environment) : List Call :=
  ((headed phase.keyword t.children).flatMap commandsOf).map (.command · env)

/-- What an interface asks in one phase: a sweep for the type, if there is one, a sweep for each of
the layers of protocols, and the commands. All of them are given the base, and the sweeps the keys
of their own with it. -/
inductive AsksLayers (t : Tree) (context : Context) (order : Order) (phase : Phase)
    (base : Environment) (layers : List Environment) : List Call → Prop
  | intro {types protocols : List Environment}
      (typed : List.Forall₂ (fun line env => env.Joins base line.typeOf.environment)
        (headed "type" t.children) types)
      (layered : List.Forall₂ (fun own env => env.Joins base own) layers protocols) :
      AsksLayers t context order phase base layers
        (types.map (.sweep context.typeHookFolder order) ++
          protocols.map (.sweep context.protocolHookFolder order) ++ t.commandCalls phase base)

/-- Stopping goes through the hooks of a directory and through the protocols backwards. -/
inductive AsksInPhase (t : Tree) (context : Context) (instanceName : String) (phase : Phase) :
    Mode → List Call → Prop
  | start {layers : List Environment} {calls : List Call} (declared : t.ProtocolLayers phase layers)
      (asks : t.AsksLayers context .ascending phase
        (.base context (.interface instanceName) (t.word 1) .start phase) layers calls) :
      AsksInPhase t context instanceName phase .start calls
  | stop {layers : List Environment} {calls : List Call} (declared : t.ProtocolLayers phase layers)
      (asks : t.AsksLayers context .descending phase
        (.base context (.interface instanceName) (t.word 1) .stop phase) layers.reverse calls) :
      AsksInPhase t context instanceName phase .stop calls

/-- What a definition asks when an instance of it is brought up or down. -/
inductive Asks (t : Tree) (context : Context) (instanceName : String) : Mode → List Call → Prop
  | startInterface {first second third : List Call} (keyword : t.keyword ≠ "group")
      (preUp : t.AsksInPhase context instanceName .preUp .start first)
      (up : t.AsksInPhase context instanceName .up .start second)
      (postUp : t.AsksInPhase context instanceName .postUp .start third) :
      Asks t context instanceName .start (first ++ second ++ third)
  | stopInterface {first second third : List Call} (keyword : t.keyword ≠ "group")
      (preDown : t.AsksInPhase context instanceName .preDown .stop first)
      (down : t.AsksInPhase context instanceName .down .stop second)
      (postDown : t.AsksInPhase context instanceName .postDown .stop third) :
      Asks t context instanceName .stop (first ++ second ++ third)
  | startGroup (keyword : t.keyword = "group") :
      Asks t context instanceName .start
        (t.commandCalls .preUp (.base context (.group instanceName) (t.word 1) .start .preUp) ++
          t.commandCalls .postUp (.base context (.group instanceName) (t.word 1) .start .postUp))
  | stopGroup (keyword : t.keyword = "group") :
      Asks t context instanceName .stop
        (t.commandCalls .preDown (.base context (.group instanceName) (t.word 1) .stop .preDown) ++
          t.commandCalls .postDown
            (.base context (.group instanceName) (t.word 1) .stop .postDown))

variable {t : Tree} {context : Context} {instanceName : String} {mode : Mode} {phase : Phase}

theorem ProtocolLayers.unique {layers layers' : List Environment}
    (h : t.ProtocolLayers phase layers) (h' : t.ProtocolLayers phase layers') :
    layers = layers' := by
  cases h with
  | options sweeps =>
      cases h' with
      | options => rfl
      | kinds around => exact absurd sweeps (not_or.2 around)
  | kinds around first =>
      cases h' with
      | options sweeps => exact absurd sweeps (not_or.2 around)
      | kinds _ first' => rw [first.unique first']

theorem AsksLayers.unique {order : Order} {base : Environment} {layers : List Environment}
    {calls calls' : List Call} (h : t.AsksLayers context order phase base layers calls)
    (h' : t.AsksLayers context order phase base layers calls') : calls = calls' := by
  obtain ⟨typed, layered⟩ := h
  obtain ⟨typed', layered'⟩ := h'
  have htypes := List.right_unique_forall₂' (fun _ _ _ h h' => h.unique h') typed typed'
  have hlayers := List.right_unique_forall₂' (fun _ _ _ h h' => h.unique h') layered layered'
  rw [htypes, hlayers]

theorem AsksInPhase.unique {calls calls' : List Call}
    (h : t.AsksInPhase context instanceName phase mode calls)
    (h' : t.AsksInPhase context instanceName phase mode calls') : calls = calls' := by
  cases h with
  | start declared asks =>
      cases h' with
      | start declared' asks' =>
          obtain rfl := declared.unique declared'
          exact asks.unique asks'
  | stop declared asks =>
      cases h' with
      | stop declared' asks' =>
          obtain rfl := declared.unique declared'
          exact asks.unique asks'

/-- The lines of a definition leave nothing open. -/
theorem Asks.unique {calls calls' : List Call} (h : t.Asks context instanceName mode calls)
    (h' : t.Asks context instanceName mode calls') : calls = calls' := by
  cases h with
  | startInterface keyword preUp up postUp =>
      cases h' with
      | startGroup group => exact absurd group keyword
      | startInterface _ preUp' up' postUp' =>
          rw [preUp.unique preUp', up.unique up', postUp.unique postUp']
  | stopInterface keyword preDown down postDown =>
      cases h' with
      | stopGroup group => exact absurd group keyword
      | stopInterface _ preDown' down' postDown' =>
          rw [preDown.unique preDown', down.unique down', postDown.unique postDown']
  | startGroup keyword =>
      cases h' with
      | startInterface other => exact absurd keyword other
      | startGroup => rfl
  | stopGroup keyword =>
      cases h' with
      | stopInterface other => exact absurd keyword other
      | stopGroup => rfl

theorem protocolLayers_interfaceOf (t : Tree) (phase : Phase) :
    t.ProtocolLayers phase (t.interfaceOf.protocolLayers phase) := by
  by_cases hphase : phase = .up ∨ phase = .down
  · rw [Interface.protocolLayers_of_sweeps hphase, interfaceOf, List.map_map]
    exact .options hphase
  · have haround : phase ≠ .up ∧ phase ≠ .down := not_or.1 hphase
    rw [Interface.protocolLayers_of_around haround]
    exact .kinds haround (firstOccurrences_eraseDups _)

/-- Sweeps that are given the base with keys under the heads of options are those asked for. -/
theorem asksLayers_of_under (h : t.IsInterface) (context : Context) (order : Order)
    (subject : Subject) (logical : String) (mode : Mode) (phase : Phase)
    {layers : List Environment} (hlayers : ∀ own ∈ layers, own.Under protocolHead) :
    let base := Environment.base context subject logical mode phase
    t.AsksLayers context order phase base layers
      ((t.interfaceOf.type?.toList.map fun type =>
          .sweep context.typeHookFolder order (.layered [base, type.environment])) ++
        (layers.map fun own =>
          .sweep context.protocolHookFolder order (.layered [base, own])) ++
        t.commandCalls phase base) := by
  intro base
  have hkeys : t.interfaceOf.KeysUnder := keysUnder_of_interface (interface_eq_ok.2 ⟨h, rfl⟩)
  have htype := Interface.toList_type_interfaceOf h
  have htyped : List.Forall₂
      (fun (line : Tree) (env : Environment) => env.Joins base line.typeOf.environment)
      (headed "type" t.children)
      ((headed "type" t.children).map fun line => .layered [base, line.typeOf.environment]) := by
    refine List.forall₂_map_right_iff.2 (List.forall₂_same.2 fun line hline => ?_)
    have hmem : line.typeOf ∈ t.interfaceOf.type?.toList := htype ▸ List.mem_map_of_mem hline
    exact Environment.joins_layered (hkeys.type _ (Option.mem_toList.1 hmem)) (.inl rfl)
  have hlayered : List.Forall₂ (fun own (env : Environment) => env.Joins base own) layers
      (layers.map fun own => .layered [base, own]) :=
    List.forall₂_map_right_iff.2 (List.forall₂_same.2 fun own hown =>
      Environment.joins_layered (hlayers own hown) (.inr rfl))
  simpa only [htype, List.map_map, Function.comp_def] using AsksLayers.intro htyped hlayered

theorem asksInPhase_interfaceOf (h : t.IsInterface) (context : Context) (instanceName : String)
    (phase : Phase) (mode : Mode) : t.AsksInPhase context instanceName phase mode
      (t.interfaceOf.phaseCalls context instanceName mode phase) := by
  have hdeclared := protocolLayers_interfaceOf t phase
  have hkeys : t.interfaceOf.KeysUnder := keysUnder_of_interface (interface_eq_ok.2 ⟨h, rfl⟩)
  have hunder : ∀ own ∈ t.interfaceOf.protocolLayers phase, own.Under protocolHead :=
    fun _ hown => Interface.under_of_mem_protocolLayers hkeys hown
  cases mode with
  | start =>
      have hasks := asksLayers_of_under h context .ascending (.interface instanceName) (t.word 1)
        .start phase hunder
      simp only [commandCalls, ← get_phasesOf] at hasks
      exact .start hdeclared hasks
  | stop =>
      have hasks := asksLayers_of_under h context .descending (.interface instanceName) (t.word 1)
        .stop phase fun own hown => hunder own (List.mem_reverse.1 hown)
      simp only [commandCalls, ← get_phasesOf, List.map_reverse] at hasks
      exact .stop hdeclared hasks

theorem asks_interfaceOf (h : t.IsInterface) (keyword : t.keyword ≠ "group") (context : Context)
    (instanceName : String) (mode : Mode) : t.Asks context instanceName mode
      ((Entity.interface t.interfaceOf).sequence context instanceName mode) := by
  have hphase (phase : Phase) := asksInPhase_interfaceOf h context instanceName phase mode
  cases mode with
  | start =>
      have hasks := Asks.startInterface keyword (hphase .preUp) (hphase .up) (hphase .postUp)
      simpa [Entity.sequence, Mode.phases, Phase.activation] using hasks
  | stop =>
      have hasks := Asks.stopInterface keyword (hphase .preDown) (hphase .down) (hphase .postDown)
      simpa [Entity.sequence, Mode.phases, Phase.deactivation] using hasks

theorem asks_groupOf (keyword : t.keyword = "group") (context : Context) (instanceName : String)
    (mode : Mode) : t.Asks context instanceName mode
      ((Entity.group t.groupOf).sequence context instanceName mode) := by
  have hcalls (phase : Phase) : t.groupOf.phaseCalls context instanceName mode phase =
      t.commandCalls phase (.base context (.group instanceName) (t.word 1) mode phase) := by
    rw [commandCalls, ← get_phasesOf]
    rfl
  rw [Entity.sequence]
  simp only [hcalls]
  cases mode with
  | start => exact .startGroup keyword
  | stop => exact .stopGroup keyword

end Tree

/-- The full sequence of a definition is what the lines ask that declare it. -/
theorem Config.asks_iff_sequence {forest : Forest} {config : Config}
    (hcompile : Config.compile forest = .ok config) {logical : String} {e : Entity}
    (he : config.entity? logical = some e) (context : Context) (instanceName : String)
    (mode : Mode) : ∃ t ∈ forest.definitions, t.word 1 = logical ∧ ∀ calls,
      t.Asks context instanceName mode calls ↔ calls = e.sequence context instanceName mode := by
  have hiff {t : Tree} (h : t.Asks context instanceName mode (e.sequence context instanceName mode))
      (calls : List Call) : t.Asks context instanceName mode calls ↔
        calls = e.sequence context instanceName mode :=
    ⟨fun h' => h'.unique h, fun heq => heq ▸ h⟩
  obtain ⟨t, ht, hname, ⟨keyword, hblock, rfl⟩ | ⟨keyword, -, rfl⟩⟩ :=
    Config.exists_statement hcompile he
  · exact ⟨t, ht, hname, hiff (Tree.asks_interfaceOf hblock keyword context instanceName mode)⟩
  · exact ⟨t, ht, hname, hiff (Tree.asks_groupOf keyword context instanceName mode)⟩

namespace Session

variable {σ : Type}

/-- On the way up nothing recorded is altered; the calls that name the instance of a new entry are
those that the lines of its definition ask for, once and in their order, and no call names any other
instance. On the way down the same holds for the entries that are removed. -/
theorem hooks_run_for_changes (invoker : Invoker σ) {forest : Forest} {config : Config}
    (hcompile : Config.compile forest = .ok config) (context : Context) (target : String)
    (store : Store) (world : σ) :
    let up := (activate invoker config context target (begin store world)).2
    let down := (deactivate invoker config context target (begin store world)).2
    (∀ name logical, store.get? name = some logical → up.store.get? name = some logical) ∧
    (∀ name logical, store.get? name = none → up.store.get? name = some logical →
      ∃ t ∈ forest.definitions, t.word 1 = logical ∧ ∀ calls,
        t.Asks context name .start calls ↔ calls = Call.naming name up.calls) ∧
    (∀ name, store.get? name ≠ none ∨ up.store.get? name = none →
      Call.naming name up.calls = []) ∧
    (∀ name logical, down.store.get? name = some logical → store.get? name = some logical) ∧
    (∀ name logical, store.get? name = some logical → down.store.get? name = none →
      ∃ t ∈ forest.definitions, t.word 1 = logical ∧ ∀ calls,
        t.Asks context name .stop calls ↔ calls = Call.naming name down.calls) ∧
    ∀ name, store.get? name = none ∨ down.store.get? name ≠ none →
      Call.naming name down.calls = [] := by
  intro up down
  have hkeys := Config.keysUnder_of_compile hcompile
  have hup := naming_account_bring invoker hkeys context .start target store world
  have hdown := naming_account_bring invoker hkeys context .stop target store world
  refine ⟨fun name logical hwas => ?_, fun name logical hwas hnow => ?_, fun name hquiet => ?_,
    fun name logical hnow => ?_, fun name logical hwas hnow => ?_, fun name hquiet => ?_⟩
  · rcases hup name with ⟨-, hsame⟩ | ⟨i, rfl, -, -, hfree, -⟩
    · exact hsame.trans hwas
    · cases hfree.symm.trans hwas
  · rcases hup name with ⟨-, hsame⟩ | ⟨i, rfl, hdef, hcalls, -, hrecord⟩
    · cases hnow.symm.trans (hsame.trans hwas)
    · obtain rfl : i.logical = logical := Option.some.inj (hrecord.symm.trans hnow)
      exact hcalls ▸ Config.asks_iff_sequence hcompile hdef context i.name .start
  · rcases hup name with ⟨hcalls, -⟩ | ⟨i, rfl, -, -, hfree, hrecord⟩
    · exact hcalls
    · rcases hquiet with hquiet | hquiet
      · exact absurd hfree hquiet
      · cases hquiet.symm.trans hrecord
  · rcases hdown name with ⟨-, hsame⟩ | ⟨i, rfl, -, -, -, hgone⟩
    · exact hsame.symm.trans hnow
    · cases hgone.symm.trans hnow
  · rcases hdown name with ⟨-, hsame⟩ | ⟨i, rfl, hdef, hcalls, hrecord, -⟩
    · cases hnow.symm.trans (hsame.trans hwas)
    · obtain rfl : i.logical = logical := Option.some.inj (hrecord.symm.trans hwas)
      exact hcalls ▸ Config.asks_iff_sequence hcompile hdef context i.name .stop
  · rcases hdown name with ⟨hcalls, -⟩ | ⟨i, rfl, -, -, hrecord, hgone⟩
    · exact hcalls
    · rcases hquiet with hquiet | hquiet
      · cases hquiet.symm.trans hrecord
      · exact absurd hgone hquiet

/-- A group over one interface under two names. -/
def laneForest : Forest := [
  .node ⟨0, "iface eth0", ⟨"interfaces", 1⟩⟩ [
    .node ⟨1, "type ethernet", ⟨"interfaces", 2⟩⟩ [
      .node ⟨2, "mtu 1500", ⟨"interfaces", 3⟩⟩ []],
    .node ⟨1, "proto ipv4 dhcp", ⟨"interfaces", 4⟩⟩ [],
    .node ⟨1, "up echo link", ⟨"interfaces", 5⟩⟩ []],
  .node ⟨0, "group lane eth0 wan=eth0", ⟨"interfaces", 6⟩⟩ [
    .node ⟨1, "post-up echo done", ⟨"interfaces", 7⟩⟩ [],
    .node ⟨1, "pre-down echo bye", ⟨"interfaces", 8⟩⟩ []]]

def laneConfig : Config where
  entities := Catalog.ofList [
    ("eth0", .interface ⟨"eth0",
      some ⟨"ethernet", [⟨"mtu", ["1500"]⟩],
        Catalog.ofList [("IFACE_TYPE", "ethernet"), ("IFACE_MTU", "1500")]⟩,
      [⟨"ipv4", "dhcp", [], Catalog.ofList [("PROTO_TYPE", "ipv4"), ("PROTO_METHOD", "dhcp")]⟩],
      ["ipv4"], Commands.empty.add .up ["echo link"], ⟨"interfaces", 1⟩⟩),
    ("lane", .group ⟨"lane", ["eth0", "wan=eth0"],
      (Commands.empty.add .postUp ["echo done"]).add .preDown ["echo bye"], ⟨"interfaces", 6⟩⟩)]
  mappings := .empty
  allowLists := .empty

/-- A sweep for the interface under its other name. -/
def wanSweep (directory : String) (phase : Phase) (keys : List (String × String)) : Call :=
  .sweep directory .ascending
    (.layered [.base {} (.interface "wan") "eth0" .start phase, .ofList keys])

/-- Going up, the interface is worked on under both names; going down, the name that is not
recorded is left alone. -/
theorem hooks_run_for_changes_lane :
    let up := (activate (fun _ w => ⟨none, [], w⟩) laneConfig {} "lane"
      (begin (.ofEntries "state" .empty) ())).2
    let down := (deactivate (fun _ w => ⟨none, [], w⟩) laneConfig {} "lane"
      (begin (.ofEntries "state" (.ofList [("eth0", "eth0"), ("lane", "lane")])) ())).2
    let ethernet := [("IFACE_TYPE", "ethernet"), ("IFACE_MTU", "1500")]
    Config.compile laneForest = .ok laneConfig ∧
    (up.store.get? "wan" = some "eth0" ∧
      (∃ t ∈ laneForest.definitions, t.word 1 = "eth0" ∧ ∀ calls,
        t.Asks {} "wan" .start calls ↔ calls = Call.naming "wan" up.calls) ∧
      Call.naming "wan" up.calls = [
        wanSweep "/usr/libexec/ifhook/iface.d" .preUp ethernet,
        wanSweep "/usr/libexec/ifhook/proto.d" .preUp [("PROTO_TYPE", "ipv4")],
        wanSweep "/usr/libexec/ifhook/iface.d" .up ethernet,
        wanSweep "/usr/libexec/ifhook/proto.d" .up
          [("PROTO_TYPE", "ipv4"), ("PROTO_METHOD", "dhcp")],
        .command "echo link" (.base {} (.interface "wan") "eth0" .start .up),
        wanSweep "/usr/libexec/ifhook/iface.d" .postUp ethernet,
        wanSweep "/usr/libexec/ifhook/proto.d" .postUp [("PROTO_TYPE", "ipv4")]]) ∧
    (down.store.get? "lane" = none ∧
      (∃ t ∈ laneForest.definitions, t.word 1 = "lane" ∧ ∀ calls,
        t.Asks {} "lane" .stop calls ↔ calls = Call.naming "lane" down.calls) ∧
      Call.naming "lane" down.calls =
        [.command "echo bye" (.base {} (.group "lane") "lane" .stop .preDown)]) ∧
    Call.naming "wan" down.calls = [] := by
  intro up down ethernet
  have hcompile : Config.compile laneForest = .ok laneConfig := by rfl
  have hnew : up.store.get? "wan" = some "eth0" := by decide +kernel
  have hgone : down.store.get? "lane" = none := by decide +kernel
  obtain ⟨-, hstarted, -⟩ := hooks_run_for_changes (fun _ w => ⟨none, [], w⟩) hcompile {} "lane"
    (.ofEntries "state" .empty) ()
  obtain ⟨-, -, -, -, hstopped, hquiet⟩ := hooks_run_for_changes (fun _ w => ⟨none, [], w⟩) hcompile
    {} "lane" (.ofEntries "state" (.ofList [("eth0", "eth0"), ("lane", "lane")])) ()
  refine ⟨hcompile, ⟨hnew, hstarted "wan" "eth0" rfl hnew, by decide +kernel⟩,
    ⟨hgone, hstopped "lane" "lane" (by decide) hgone, by decide +kernel⟩, ?_⟩
  exact hquiet "wan" (.inl (by decide))

end Session

end NetHooks
