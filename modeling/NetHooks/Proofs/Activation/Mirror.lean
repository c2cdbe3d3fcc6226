import NetHooks.Proofs.Activation.Environment

/-!
# Stopping mirrors starting

An interface has three phases in each direction, and each of them is a round: the sweep for the
type, the sweeps for the protocols, then the commands. The sweeps of a round of stopping are those
of the round of starting that it mirrors, and those for protocols come in the reverse order
(`Interface.stop_mirrors_start`). What is reversed is the list of kinds, not that of protocols: a
kind that occurs again keeps the place of its first occurrence.
-/
namespace NetHooks

/-! ### The keys under a head -/

namespace Environment

variable {context : Context} {subject : Subject} {logical : String} {mode : Mode} {phase : Phase}
  {head : String} {own : Environment}

/-- The keys under a head, with their values. -/
def part (head : String) (env : Environment) : Environment :=
  ⟨env.entries.filter fun e => (head ++ "_").toList.isPrefixOf e.1.toList, env.ordered.filter _⟩

theorem get?_part (head key : String) (env : Environment) : (env.part head).get? key =
    if (head ++ "_").toList <+: key.toList then env.get? key else none := by
  refine Option.ext fun value => ?_
  rw [← Catalog.mem_entries_iff, part, List.mem_filter, Catalog.mem_entries_iff,
    List.isPrefixOf_iff_prefix]
  split
  next h => exact and_iff_left h
  next h => exact iff_of_false (fun hvalue => h hvalue.2) nofun

theorem part_layered (hown : own.Under head) (hhead : head = typeHead ∨ head = protocolHead) :
    (layered [base context subject logical mode phase, own]).part head = own := by
  refine Catalog.ext_get? fun key => ?_
  rw [get?_part]
  split
  next hkey => simp [layered, get?_base_eq_none hhead hkey]
  next hkey => exact (hown.get?_eq_none hkey).symm

end Environment

/-! ### First occurrences -/

/-- The values, each once, in the order in which they first occur. -/
structure FirstOccurrences (values distinct : List String) : Prop where
  once : distinct.Nodup
  members : ∀ v, v ∈ distinct ↔ v ∈ values
  ordered : distinct.Pairwise fun v w => values.idxOf v < values.idxOf w

theorem FirstOccurrences.unique {values distinct distinct' : List String}
    (h : FirstOccurrences values distinct) (h' : FirstOccurrences values distinct') :
    distinct = distinct' := by
  have hperm : distinct.Perm distinct' := (List.perm_ext_iff_of_nodup h.once h'.once).2 fun v =>
    (h.members v).trans (h'.members v).symm
  exact hperm.eq_of_pairwise (fun _ _ _ _ hlt hgt => absurd hgt hlt.not_gt) h.ordered h'.ordered

theorem pairwise_idxOf_eraseDups (values : List String) :
    values.eraseDups.Pairwise fun v w => values.idxOf v < values.idxOf w := by
  induction values using List.reverseRecOn with
  | nil => exact .nil
  | append_singleton values w ih =>
      -- a further value moves no first occurrence
      have hold : ∀ v ∈ values.eraseDups, (values ++ [w]).idxOf v = values.idxOf v :=
        fun v hv => List.idxOf_append_of_mem (List.mem_eraseDups.1 hv)
      have hkept : values.eraseDups.Pairwise fun v v' =>
          (values ++ [w]).idxOf v < (values ++ [w]).idxOf v' :=
        ih.imp_of_mem fun hv hv' hlt => by rwa [hold _ hv, hold _ hv']
      rw [eraseDups_append_singleton]
      split
      · exact hkept
      next hnew =>
        have hlast : ∀ v ∈ values.eraseDups, (values ++ [w]).idxOf v < (values ++ [w]).idxOf w := by
          intro v hv
          rw [hold v hv, List.idxOf_append_of_notMem hnew]
          exact Nat.lt_add_right _ (List.idxOf_lt_length_of_mem (List.mem_eraseDups.1 hv))
        refine List.pairwise_append.2 ⟨hkept, List.pairwise_singleton _ _, fun v hv w' hw' => ?_⟩
        exact List.mem_singleton.1 hw' ▸ hlast v hv

theorem firstOccurrences_eraseDups (values : List String) :
    FirstOccurrences values values.eraseDups where
  once := (pairwise_idxOf_eraseDups values).imp fun hlt heq => (heq ▸ hlt).false
  members _ := List.mem_eraseDups
  ordered := pairwise_idxOf_eraseDups values

/-! ### Rounds -/

/-- The phase of the other direction that mirrors this one. -/
def Phase.mirror : Phase → Phase
  | preUp => preDown
  | up => down
  | postUp => postDown
  | preDown => preUp
  | down => up
  | postDown => postUp

/-- What hooks are asked in one phase of an interface: what the sweeps for its type and those for
its protocols are given, and the commands, each in the order of the calls. -/
structure Round where
  types : List Environment
  protocols : List Environment
  commands : List String

namespace Round

/-- The calls of a round; the commands are given the environment. -/
def calls (r : Round) (context : Context) (order : Order) (env : Environment) : List Call :=
  r.types.map (.sweep context.typeHookFolder order) ++
    r.protocols.map (.sweep context.protocolHookFolder order) ++ r.commands.map (.command · env)

/-- The options of the type that each sweep for it is given. -/
def typeKeys (r : Round) : List Environment :=
  r.types.map (·.part typeHead)

/-- The options of protocols that each sweep for them is given. -/
def protocolKeys (r : Round) : List Environment :=
  r.protocols.map (·.part protocolHead)

/-- The sweeps are given the same options, and those for protocols come in the reverse order. -/
structure Mirrors (r r' : Round) : Prop where
  types : r.typeKeys = r'.typeKeys
  protocols : r.protocolKeys = r'.protocolKeys.reverse

end Round

open Forest (headed)

/-- The round has what the lines of a definition declare for the phase, in their order: one sweep
for the type, if there is one; in `up` and `down` one for each protocol, and in the phases around
them one for each kind of protocol; and the commands. -/
structure Tree.DeclaresRound (t : Tree) (phase : Phase) (r : Round) : Prop where
  single : r.types.length ≤ 1
  types : r.typeKeys = (headed "type" t.children).map (·.typeOf.environment)
  protocols : phase = .up ∨ phase = .down →
    r.protocolKeys = (headed "proto" t.children).map (·.protocolOf.environment)
  kinds : phase ≠ .up ∧ phase ≠ .down → ∃ kinds,
    FirstOccurrences ((headed "proto" t.children).map (·.word 1)) kinds ∧
      r.protocolKeys = kinds.map fun kind => Catalog.ofList [("PROTO_TYPE", kind)]
  commands : r.commands = (headed phase.keyword t.children).flatMap Tree.commandsOf

namespace Interface

variable {t : Tree} {i : Interface} {context : Context} {instanceName : String} {mode : Mode}
  {phase : Phase}

/-- The round of a phase. Stopping goes through the protocols backwards. -/
def round (i : Interface) (context : Context) (instanceName : String) (mode : Mode)
    (phase : Phase) : Round :=
  let base := Environment.base context (.interface instanceName) i.name mode phase
  let protocols := (i.protocolLayers phase).map fun own => Environment.layered [base, own]
  { types := i.type?.toList.map fun type => Environment.layered [base, type.environment]
    protocols := match mode with
      | .start => protocols
      | .stop => protocols.reverse
    commands := i.commands.get phase }

theorem phaseCalls_eq_round (i : Interface) (context : Context) (instanceName : String)
    (mode : Mode) (phase : Phase) : i.phaseCalls context instanceName mode phase =
      (i.round context instanceName mode phase).calls context mode.order
        (Environment.base context (.interface instanceName) i.name mode phase) := by
  cases mode <;> simp [phaseCalls, round, Round.calls, Function.comp_def]

/-- Of what a sweep for the type is given, the keys of the type are its options. -/
theorem typeKeys_round (hkeys : i.KeysUnder) :
    (i.round context instanceName mode phase).typeKeys =
      i.type?.toList.map (·.environment) := by
  simp only [Round.typeKeys, round, List.map_map]
  refine List.map_congr_left fun type htype => ?_
  exact Environment.part_layered (hkeys.type type (Option.mem_toList.1 htype)) (.inl rfl)

/-- Of what a sweep for protocols is given, the keys of protocols are its layer. -/
theorem protocolKeys_round (hkeys : i.KeysUnder) :
    (i.round context instanceName mode phase).protocolKeys = match mode with
      | .start => i.protocolLayers phase
      | .stop => (i.protocolLayers phase).reverse := by
  have hlayers : ((i.protocolLayers phase).map fun own => Environment.layered
        [Environment.base context (.interface instanceName) i.name mode phase, own]).map
          (·.part protocolHead) = i.protocolLayers phase := by
    rw [List.map_map]
    refine (List.map_congr_left fun own hown => ?_).trans (List.map_id _)
    exact Environment.part_layered (under_of_mem_protocolLayers hkeys hown) (.inr rfl)
  cases mode with
  | start => exact hlayers
  | stop => exact List.map_reverse.trans (congrArg List.reverse hlayers)

/-- The mirrored phase has the same layers of protocols. -/
theorem protocolLayers_mirror (i : Interface) (phase : Phase) :
    i.protocolLayers phase.mirror = i.protocolLayers phase := by
  cases phase <;> rfl

theorem round_stop_mirrors (hkeys : i.KeysUnder) :
    (i.round context instanceName .stop phase.mirror).Mirrors
      (i.round context instanceName .start phase) where
  types := by rw [typeKeys_round hkeys, typeKeys_round hkeys]
  protocols := by
    rw [protocolKeys_round hkeys, protocolKeys_round hkeys]
    exact congrArg List.reverse (i.protocolLayers_mirror phase)

theorem protocolLayers_of_sweeps (h : phase = .up ∨ phase = .down) :
    i.protocolLayers phase = i.protocols.map (·.environment) := by
  rcases h with rfl | rfl <;> rfl

/-- A layer of a kind is the key of the kind alone. -/
theorem protocolLayers_of_around (h : phase ≠ .up ∧ phase ≠ .down) :
    i.protocolLayers phase =
      i.protocolKinds.map fun kind => Catalog.ofList [("PROTO_TYPE", kind)] := by
  have haround : phase.sweepsProtocols = false := by
    cases phase <;> simp_all [Phase.sweepsProtocols]
  simp [protocolLayers, haround, Catalog.ofList, protocolHead]

/-- One type at most is declared, and it is the first. -/
theorem toList_type_interfaceOf (h : t.IsInterface) :
    t.interfaceOf.type?.toList = (headed "type" t.children).map Tree.typeOf := by
  have hone := h.type
  rw [Tree.interfaceOf]
  rcases htypes : headed "type" t.children with _ | ⟨line, _ | ⟨second, rest⟩⟩
  · rfl
  · rfl
  · simp [htypes] at hone

theorem get_commands_interfaceOf : t.interfaceOf.commands.get phase =
    (headed phase.keyword t.children).flatMap Tree.commandsOf :=
  Tree.get_phasesOf t.children phase

theorem declares_round_start (h : t.interface = .ok i) :
    t.DeclaresRound phase (i.round context instanceName .start phase) := by
  have hkeys := Tree.keysUnder_of_interface h
  obtain ⟨hblock, rfl⟩ := Tree.interface_eq_ok.1 h
  refine ⟨?_, ?_, fun hphase => ?_, fun hphase => ?_, get_commands_interfaceOf⟩
  · simpa only [round, toList_type_interfaceOf hblock, List.length_map] using hblock.type
  · rw [typeKeys_round hkeys, toList_type_interfaceOf hblock, List.map_map]
    rfl
  · rw [protocolKeys_round hkeys, protocolLayers_of_sweeps hphase, Tree.interfaceOf, List.map_map]
    rfl
  · refine ⟨t.interfaceOf.protocolKinds, firstOccurrences_eraseDups _, ?_⟩
    rw [protocolKeys_round hkeys, protocolLayers_of_around hphase]

/-- Each phase of stopping mirrors the phase of starting that it belongs to: both have a sweep for
the type or none has, with the same options; the sweeps for the protocols have the same options and
come in the reverse order; and the commands are those of the phase itself. -/
theorem stop_mirrors_start (h : t.interface = .ok i) (context : Context)
    (instanceName : String) :
    ∃ starting stopping : Phase → Round,
      i.calls context instanceName .start = Phase.activation.flatMap (fun p =>
        (starting p).calls context .ascending
          (.base context (.interface instanceName) (t.word 1) .start p)) ∧
      i.calls context instanceName .stop = Phase.deactivation.flatMap (fun p =>
        (stopping p).calls context .descending
          (.base context (.interface instanceName) (t.word 1) .stop p)) ∧
      (∀ p ∈ Phase.activation,
        t.DeclaresRound p (starting p) ∧ (stopping p.mirror).Mirrors (starting p)) ∧
      ∀ p ∈ Phase.deactivation, (stopping p).commands =
        (headed p.keyword t.children).flatMap Tree.commandsOf := by
  have hname : i.name = t.word 1 := by
    obtain ⟨-, rfl⟩ := Tree.interface_eq_ok.1 h
    rfl
  have hcalls (mode : Mode) : i.calls context instanceName mode = mode.phases.flatMap fun p =>
      (i.round context instanceName mode p).calls context mode.order
        (.base context (.interface instanceName) (t.word 1) mode p) := by
    rw [calls, ← hname]
    exact List.flatMap_congr fun p _ => i.phaseCalls_eq_round context instanceName mode p
  refine ⟨i.round context instanceName .start, i.round context instanceName .stop,
    hcalls .start, hcalls .stop, fun p _ => ⟨declares_round_start h, ?_⟩, fun p _ => ?_⟩
  · exact round_stop_mirrors (Tree.keysUnder_of_interface h)
  · obtain ⟨-, rfl⟩ := Tree.interface_eq_ok.1 h
    exact get_commands_interfaceOf

/-- A bridge with two protocols of one kind around another. -/
def bridgeBlock : Tree :=
  .node ⟨0, "iface eth0", ⟨"interfaces", 1⟩⟩ [
    .node ⟨1, "type bridge", ⟨"interfaces", 2⟩⟩ [],
    .node ⟨1, "proto ipv4 static", ⟨"interfaces", 3⟩⟩ [],
    .node ⟨1, "proto ipv6 static", ⟨"interfaces", 4⟩⟩ [],
    .node ⟨1, "proto ipv4 dhcp", ⟨"interfaces", 5⟩⟩ [],
    .node ⟨1, "down echo a", ⟨"interfaces", 6⟩⟩ [],
    .node ⟨1, "up echo b", ⟨"interfaces", 7⟩⟩ [],
    .node ⟨1, "down echo c", ⟨"interfaces", 8⟩⟩ []]

/-- What the lines of the bridge declare. -/
def bridge : Interface where
  name := "eth0"
  type? := some ⟨"bridge", [], Catalog.ofList [("IFACE_TYPE", "bridge")]⟩
  protocols := [
    ⟨"ipv4", "static", [], Catalog.ofList [("PROTO_TYPE", "ipv4"), ("PROTO_METHOD", "static")]⟩,
    ⟨"ipv6", "static", [], Catalog.ofList [("PROTO_TYPE", "ipv6"), ("PROTO_METHOD", "static")]⟩,
    ⟨"ipv4", "dhcp", [], Catalog.ofList [("PROTO_TYPE", "ipv4"), ("PROTO_METHOD", "dhcp")]⟩]
  protocolKinds := ["ipv4", "ipv6"]
  commands := ((Commands.empty.add .down ["echo a"]).add .up ["echo b"]).add .down ["echo c"]
  location := ⟨"interfaces", 1⟩

theorem stop_mirrors_start_bridge : bridgeBlock.interface = .ok bridge ∧
    (∃ starting stopping : Phase → Round,
      bridge.calls {} "wan" .stop = Phase.deactivation.flatMap (fun p =>
        (stopping p).calls {} .descending
          (.base {} (.interface "wan") (bridgeBlock.word 1) .stop p)) ∧
      bridgeBlock.DeclaresRound .up (starting .up) ∧ (stopping .down).Mirrors (starting .up)) ∧
    (bridge.calls {} "wan" .stop).map (fun c => (c.environment.get? "PHASE",
        c.environment.get? "PROTO_TYPE", c.environment.get? "PROTO_METHOD")) = [
      (some "pre-down", none, none), (some "pre-down", some "ipv6", none),
      (some "pre-down", some "ipv4", none),
      (some "down", none, none), (some "down", some "ipv4", some "dhcp"),
      (some "down", some "ipv6", some "static"), (some "down", some "ipv4", some "static"),
      (some "down", none, none), (some "down", none, none),
      (some "post-down", none, none), (some "post-down", some "ipv6", none),
      (some "post-down", some "ipv4", none)] := by
  have hread : bridgeBlock.interface = .ok bridge := by rfl
  refine ⟨hread, ?_, by decide +kernel⟩
  obtain ⟨starting, stopping, -, hstop, hphases, -⟩ := stop_mirrors_start hread {} "wan"
  exact ⟨starting, stopping, hstop, hphases .up (by decide)⟩

end Interface

end NetHooks
