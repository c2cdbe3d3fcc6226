import NetHooks.Proofs.Config.Block

/-!
# Definitions

The lines under an interface are taken one by one, and make up what their types, protocols and
phases declare, each in the order of the lines; only a second type is refused. So a definition, a
mapping or an allow-list is accepted exactly when it is of its kind (`Tree.interface_eq_ok`,
`Tree.group_eq_ok`, `Tree.mapping_eq_ok`, `Tree.allowed_eq_ok`).
-/
namespace NetHooks

/-! ### Lines by their keywords -/

theorem Phase.ofKeyword?_eq_some {keyword : String} {p : Phase} :
    ofKeyword? keyword = some p ↔ keyword = p.keyword := by
  refine ⟨fun h => ?_, fun h => h ▸ ofKeyword?_keyword p⟩
  have hfound : p.keyword = keyword := by simpa using List.find?_some h
  exact hfound.symm

theorem Phase.keyword_injective {p q : Phase} (h : p.keyword = q.keyword) : p = q :=
  Option.some.inj ((ofKeyword?_keyword p).symm.trans (h ▸ ofKeyword?_keyword q))

theorem Phase.type_ne_keyword (p : Phase) : "type" ≠ p.keyword := by cases p <;> decide

theorem Phase.proto_ne_keyword (p : Phase) : "proto" ≠ p.keyword := by cases p <;> decide

/-- A further value is kept when it is new. -/
theorem eraseDups_append_singleton (values : List String) (v : String) :
    (values ++ [v]).eraseDups =
      if v ∈ values then values.eraseDups else values.eraseDups ++ [v] := by
  rw [List.eraseDups_append]
  split
  next hold =>
    have hremoved : [v].removeAll values = [] := by simpa [List.removeAll] using hold
    rw [hremoved, List.eraseDups_nil, List.append_nil]
  next hnew =>
    have hkept : [v].removeAll values = [v] := by simpa [List.removeAll] using hnew
    rw [hkept]
    rfl

namespace Forest

variable {t : Tree} {keyword : String}

theorem headed_append (keyword : String) (f g : Forest) :
    headed keyword (f ++ g) = headed keyword f ++ headed keyword g :=
  List.filter_append f g

theorem headed_singleton_of_eq (h : t.keyword = keyword) : headed keyword [t] = [t] := by
  simp [headed, h]

theorem headed_singleton_of_ne (h : t.keyword ≠ keyword) : headed keyword [t] = [] := by
  simp [headed, h]

end Forest

namespace Tree

open Forest (headed headed_append headed_singleton_of_eq headed_singleton_of_ne)
open Phase (ofKeyword?_eq_some keyword_injective type_ne_keyword proto_ne_keyword)

variable {t : Tree} {lines : Forest} {name : String} {p : Phase}

/-- A phase line adds its commands to those of its phase. -/
theorem phasesOf_append_phase (h : t.keyword = p.keyword) :
    phasesOf (lines ++ [t]) = (phasesOf lines).add p t.commandsOf := by
  refine Commands.ext_of_all fun q _ => ?_
  simp only [phasesOf, Commands.add, Commands.get, headed_append]
  by_cases hq : q = p
  · subst hq
    rw [headed_singleton_of_eq h, List.flatMap_append, List.flatMap_singleton]
    cases hlines : headed q.keyword lines <;> simp
  · have hne : t.keyword ≠ q.keyword := fun heq => hq (keyword_injective (heq.symm.trans h))
    simp [headed_singleton_of_ne hne, hq]

theorem phasesOf_append_other (h : ∀ p : Phase, t.keyword ≠ p.keyword) :
    phasesOf (lines ++ [t]) = phasesOf lines := by
  refine Commands.ext_of_all fun q _ => ?_
  simp only [phasesOf, headed_append, headed_singleton_of_ne (h q), List.append_nil]

/-! ### Interfaces -/

/-- What a line that is accepted adds to an interface. -/
inductive AddsLine (t : Tree) (body : InterfaceBody) : InterfaceBody → Prop
  | phase {p : Phase} (keyword : t.keyword = p.keyword) (block : t.Shallow) :
      AddsLine t body { body with commands := body.commands.add p t.commandsOf }
  | type (keyword : t.keyword = "type") (line : t.IsType) (first : body.type? = none) :
      AddsLine t body { body with type? := some (t.typeOf, t.location) }
  | protocol (keyword : t.keyword = "proto") (line : t.IsProtocol) :
      AddsLine t body { body with protocols := body.protocols ++ [t.protocolOf] }

theorem addToInterface_eq_ok {body body' : InterfaceBody} :
    addToInterface name body t = .ok body' ↔ AddsLine t body body' := by
  constructor
  · intro h
    rw [addToInterface] at h
    split at h
    next p hp =>
      obtain ⟨commands, hcommands, h⟩ := bind_eq_ok.1 h
      obtain ⟨hblock, rfl⟩ := phaseCommands_eq_ok.1 hcommands
      cases h
      exact .phase (ofKeyword?_eq_some.1 hp) hblock
    next =>
      split at h
      next hkeyword =>
        split at h
        · cases h
        next hfirst =>
          obtain ⟨l, hl, h⟩ := bind_eq_ok.1 h
          obtain ⟨hline, rfl⟩ := linkType_eq_ok.1 hl
          cases h
          exact .type hkeyword hline hfirst
      split at h
      next hkeyword =>
        obtain ⟨p, hp, h⟩ := bind_eq_ok.1 h
        obtain ⟨hline, rfl⟩ := protocol_eq_ok.1 hp
        cases h
        exact .protocol hkeyword hline
      · cases h
  · intro h
    cases h with
    | phase hkeyword hblock =>
        rw [addToInterface, ofKeyword?_eq_some.2 hkeyword]
        exact bind_eq_ok.2 ⟨_, phaseCommands_eq_ok.2 ⟨hblock, rfl⟩, rfl⟩
    | type hkeyword hline hfirst =>
        have hphase : Phase.ofKeyword? "type" = none := rfl
        simp only [addToInterface, hkeyword, hphase, hfirst, if_true]
        exact bind_eq_ok.2 ⟨_, linkType_eq_ok.2 ⟨hline, rfl⟩, rfl⟩
    | protocol hkeyword hline =>
        have hphase : Phase.ofKeyword? "proto" = none := rfl
        simp only [addToInterface, hkeyword, hphase, String.reduceEq, if_false, if_true]
        exact bind_eq_ok.2 ⟨_, protocol_eq_ok.2 ⟨hline, rfl⟩, rfl⟩

/-- What lines under an interface have declared. -/
def bodyOf (lines : Forest) : InterfaceBody where
  type? := (headed "type" lines).head?.map fun t => (t.typeOf, t.location)
  protocols := (headed "proto" lines).map protocolOf
  commands := phasesOf lines

/-- A further line is accepted when it may stand there, and no second type. -/
theorem addsLine_bodyOf {body : InterfaceBody} : AddsLine t (bodyOf lines) body ↔
    t.IsInterfaceLine ∧ (t.keyword = "type" → headed "type" lines = []) ∧
      body = bodyOf (lines ++ [t]) := by
  have hphase {p : Phase} (h : t.keyword = p.keyword) : bodyOf (lines ++ [t]) =
      { bodyOf lines with commands := (phasesOf lines).add p t.commandsOf } := by
    have htype : t.keyword ≠ "type" := fun heq => type_ne_keyword p (heq.symm.trans h)
    have hproto : t.keyword ≠ "proto" := fun heq => proto_ne_keyword p (heq.symm.trans h)
    simp only [bodyOf, headed_append, headed_singleton_of_ne htype, headed_singleton_of_ne hproto,
      List.append_nil, phasesOf_append_phase h]
  have htype (h : t.keyword = "type") (hfirst : headed "type" lines = []) :
      bodyOf (lines ++ [t]) = { bodyOf lines with type? := some (t.typeOf, t.location) } := by
    have hother : ∀ p : Phase, t.keyword ≠ p.keyword := fun p => h ▸ type_ne_keyword p
    have hproto : t.keyword ≠ "proto" := by simp [h]
    simp [bodyOf, headed_append, headed_singleton_of_eq h, headed_singleton_of_ne hproto, hfirst,
      phasesOf_append_other hother]
  have hproto (h : t.keyword = "proto") : bodyOf (lines ++ [t]) =
      { bodyOf lines with protocols := (bodyOf lines).protocols ++ [t.protocolOf] } := by
    have hother : ∀ p : Phase, t.keyword ≠ p.keyword := fun p => h ▸ proto_ne_keyword p
    have htype : t.keyword ≠ "type" := by simp [h]
    simp [bodyOf, headed_append, headed_singleton_of_eq h, headed_singleton_of_ne htype,
      phasesOf_append_other hother]
  have hnone : (bodyOf lines).type? = none ↔ headed "type" lines = [] := by simp [bodyOf]
  constructor
  · rintro (@⟨p, hkeyword, hblock⟩ | ⟨hkeyword, hline, hfirst⟩ | ⟨hkeyword, hline⟩)
    · refine ⟨.phase p hkeyword hblock, fun h => ?_, (hphase hkeyword).symm⟩
      exact absurd (h.symm.trans hkeyword) (type_ne_keyword p)
    · have hfirst := hnone.1 hfirst
      exact ⟨.type hkeyword hline, fun _ => hfirst, (htype hkeyword hfirst).symm⟩
    · exact ⟨.protocol hkeyword hline, fun h => by simp [h] at hkeyword, (hproto hkeyword).symm⟩
  · rintro ⟨⟨p, hkeyword, hblock⟩ | ⟨hkeyword, hline⟩ | ⟨hkeyword, hline⟩, hfirst, rfl⟩
    · exact hphase hkeyword ▸ .phase hkeyword hblock
    · exact htype hkeyword (hfirst hkeyword) ▸ .type hkeyword hline (hnone.2 (hfirst hkeyword))
    · exact hproto hkeyword ▸ .protocol hkeyword hline

theorem foldlM_addToInterface_eq_ok {body : InterfaceBody} :
    lines.foldlM (addToInterface name) ⟨none, [], .empty⟩ = .ok body ↔
      (∀ c ∈ lines, c.IsInterfaceLine) ∧ (headed "type" lines).length ≤ 1 ∧
        body = bodyOf lines := by
  induction lines using List.reverseRecOn generalizing body with
  | nil =>
      have hempty : bodyOf [] = ⟨none, [], .empty⟩ := rfl
      simp [pure, Except.pure, headed, hempty, eq_comm]
  | append_singleton lines t ih =>
      have hcount : (headed "type" (lines ++ [t])).length ≤ 1 ↔
          (headed "type" lines).length ≤ 1 ∧ (t.keyword = "type" → headed "type" lines = []) := by
        by_cases htype : t.keyword = "type"
        · simp +contextual [headed_append, headed_singleton_of_eq htype, htype]
        · simp [headed_append, headed_singleton_of_ne htype, htype]
      rw [List.foldlM_append, bind_eq_ok, List.forall_mem_append, List.forall_mem_singleton, hcount]
      simp only [List.foldlM_cons, List.foldlM_nil, bind_pure, addToInterface_eq_ok, ih]
      constructor
      · rintro ⟨_, ⟨hlines, hone, rfl⟩, hadds⟩
        obtain ⟨hline, hfirst, rfl⟩ := addsLine_bodyOf.1 hadds
        exact ⟨⟨hlines, hline⟩, ⟨hone, hfirst⟩, rfl⟩
      · rintro ⟨⟨hlines, hline⟩, ⟨hone, hfirst⟩, rfl⟩
        exact ⟨_, ⟨hlines, hone, rfl⟩, addsLine_bodyOf.2 ⟨hline, hfirst, rfl⟩⟩

theorem singleName_eq_ok : t.singleName = .ok name ↔ t.wordList.length = 2 ∧ name = t.word 1 := by
  rw [singleName, bind_eq_ok]
  constructor
  · rintro ⟨ws, hws, h⟩
    split at h
    · have hlist := (words_eq_ok_iff (List.cons_ne_nil _ _)).1 hws
      cases h
      simp [word, hlist]
    · cases h
    · cases h
  · rintro ⟨hwords, rfl⟩
    obtain ⟨first, name, hlist⟩ := List.length_eq_two.1 hwords
    exact ⟨_, (words_eq_ok_iff (List.cons_ne_nil _ _)).2 hlist, by simp [word, hlist]⟩

theorem distinctKinds_eq (protocols : List Protocol) :
    distinctKinds protocols = (protocols.map Protocol.kind).eraseDups := by
  induction protocols using List.reverseRecOn with
  | nil => rfl
  | append_singleton ps p ih =>
      have hlast : distinctKinds (ps ++ [p]) = if (distinctKinds ps).contains p.kind
          then distinctKinds ps else distinctKinds ps ++ [p.kind] := by
        simp [distinctKinds]
      have hknown : (distinctKinds ps).contains p.kind = true ↔ p.kind ∈ ps.map Protocol.kind := by
        rw [ih, List.contains_iff_mem, List.mem_eraseDups]
      rw [hlast, List.map_append, List.map_singleton, eraseDups_append_singleton, ih]
      exact if_congr (ih ▸ hknown) rfl rfl

theorem interface_eq_ok {i : Interface} :
    t.interface = .ok i ↔ t.IsInterface ∧ i = t.interfaceOf := by
  have hresult : (⟨t.word 1, (bodyOf t.children).type?.map (·.1), (bodyOf t.children).protocols,
      distinctKinds (bodyOf t.children).protocols, (bodyOf t.children).commands, t.location⟩ :
      Interface) = t.interfaceOf := by
    simp [bodyOf, interfaceOf, distinctKinds_eq, protocolOf, Function.comp_def]
  rw [interface, bind_eq_ok]
  simp only [singleName_eq_ok]
  constructor
  · rintro ⟨_, ⟨hwords, rfl⟩, h⟩
    obtain ⟨body, hbody, h⟩ := bind_eq_ok.1 h
    obtain ⟨hlines, hone, rfl⟩ := foldlM_addToInterface_eq_ok.1 hbody
    cases h
    exact ⟨⟨hwords, hlines, hone⟩, hresult⟩
  · rintro ⟨⟨hwords, hlines, hone⟩, rfl⟩
    refine ⟨_, ⟨hwords, rfl⟩, bind_eq_ok.2 ⟨_, foldlM_addToInterface_eq_ok.2 ⟨hlines, hone, rfl⟩, ?_⟩⟩
    exact congrArg Except.ok hresult

/-! ### Groups, mappings and allow-lists -/

theorem addToGroup_eq_ok {commands commands' : Commands} :
    addToGroup name commands t = .ok commands' ↔
      t.IsGroupLine ∧ ∃ p : Phase, t.keyword = p.keyword ∧
        commands' = commands.add p t.commandsOf := by
  have hgroup (p : Phase) : p.inGroup = true ↔ p ∈ [Phase.preUp, .postUp, .preDown, .postDown] := by
    cases p <;> decide
  rw [addToGroup]
  constructor
  · intro h
    split at h
    next p hp =>
      obtain ⟨added, hadded, h⟩ := bind_eq_ok.1 h
      obtain ⟨hblock, rfl⟩ := phaseCommands_eq_ok.1 hadded
      obtain ⟨hkeyword, hp⟩ := Option.filter_eq_some_iff.1 hp
      have hkeyword := ofKeyword?_eq_some.1 hkeyword
      cases h
      exact ⟨⟨⟨p, (hgroup p).1 hp, hkeyword⟩, hblock⟩, p, hkeyword, rfl⟩
    · cases h
  · rintro ⟨⟨⟨p, hp, hkeyword⟩, hblock⟩, q, hq, rfl⟩
    obtain rfl := keyword_injective (hq.symm.trans hkeyword)
    have hphase : (Phase.ofKeyword? t.keyword).filter Phase.inGroup = some q :=
      Option.filter_eq_some_iff.2 ⟨ofKeyword?_eq_some.2 hq, (hgroup q).2 hp⟩
    rw [hphase]
    exact bind_eq_ok.2 ⟨_, phaseCommands_eq_ok.2 ⟨hblock, rfl⟩, rfl⟩

theorem foldlM_addToGroup_eq_ok {commands : Commands} :
    lines.foldlM (addToGroup name) .empty = .ok commands ↔
      (∀ c ∈ lines, c.IsGroupLine) ∧ commands = phasesOf lines := by
  induction lines using List.reverseRecOn generalizing commands with
  | nil =>
      have hempty : phasesOf [] = .empty := rfl
      simp [pure, Except.pure, hempty, eq_comm]
  | append_singleton lines t ih =>
      rw [List.foldlM_append, bind_eq_ok, List.forall_mem_append, List.forall_mem_singleton]
      simp only [List.foldlM_cons, List.foldlM_nil, bind_pure, addToGroup_eq_ok, ih]
      constructor
      · rintro ⟨_, ⟨hlines, rfl⟩, hline, p, hkeyword, rfl⟩
        exact ⟨⟨hlines, hline⟩, (phasesOf_append_phase hkeyword).symm⟩
      · rintro ⟨⟨hlines, hline⟩, rfl⟩
        obtain ⟨p, -, hkeyword⟩ := hline.1
        exact ⟨_, ⟨hlines, rfl⟩, hline, p, hkeyword, phasesOf_append_phase hkeyword⟩

theorem group_eq_ok {g : Group} : t.group = .ok g ↔ t.IsGroup ∧ g = t.groupOf := by
  rw [group, bind_eq_ok]
  constructor
  · rintro ⟨ws, hws, h⟩
    split at h
    · obtain ⟨commands, hcommands, h⟩ := bind_eq_ok.1 h
      obtain ⟨hlines, rfl⟩ := foldlM_addToGroup_eq_ok.1 hcommands
      have hlist := (words_eq_ok_iff (List.cons_ne_nil _ _)).1 hws
      cases h
      exact ⟨⟨by simp [hlist], hlines⟩, by simp [groupOf, word, hlist]⟩
    · cases h
  · rintro ⟨⟨hwords, hlines⟩, rfl⟩
    rcases hlist : t.wordList with _ | ⟨first, _ | ⟨name, dependencies⟩⟩
    · simp [hlist] at hwords
    · simp [hlist] at hwords
    · refine ⟨_, (words_eq_ok_iff (List.cons_ne_nil _ _)).2 hlist,
        bind_eq_ok.2 ⟨_, foldlM_addToGroup_eq_ok.2 ⟨hlines, rfl⟩, ?_⟩⟩
      simp [groupOf, word, hlist, pure, Except.pure]

theorem mapping_eq_ok {m : Mapping} : t.mapping = .ok m ↔ t.IsMapping ∧ m = t.mappingOf := by
  have hrules (rules : List String) : t.children.mapM verbatim = .ok rules ↔
      t.Shallow ∧ rules = t.children.map content :=
    mapM_eq_ok_iff (fun _ _ => verbatim_eq_ok)
  rw [mapping, bind_eq_ok]
  simp only [singleName_eq_ok]
  constructor
  · rintro ⟨_, ⟨hwords, rfl⟩, h⟩
    obtain ⟨rules, hread, h⟩ := bind_eq_ok.1 h
    obtain ⟨hblock, rfl⟩ := (hrules rules).1 hread
    cases h
    exact ⟨⟨hwords, hblock⟩, rfl⟩
  · rintro ⟨⟨hwords, hblock⟩, rfl⟩
    exact ⟨_, ⟨hwords, rfl⟩, bind_eq_ok.2 ⟨_, (hrules _).2 ⟨hblock, rfl⟩, rfl⟩⟩

theorem allowed_eq_ok {members : List String} : t.allowed = .ok (name, members) ↔
    t.IsAllow ∧ name = t.word 1 ∧ members = t.wordList.drop 2 := by
  rw [allowed, bind_eq_ok]
  constructor
  · rintro ⟨_, hblock, h⟩
    obtain ⟨ws, hws, h⟩ := bind_eq_ok.1 h
    split at h
    · have hlist := (words_eq_ok_iff (List.cons_ne_nil _ _)).1 hws
      cases h
      exact ⟨⟨by simp [hlist], noBlock_eq_ok.1 hblock⟩, by simp [word, hlist], by simp [hlist]⟩
    · cases h
  · rintro ⟨⟨hwords, hblock⟩, rfl, rfl⟩
    refine ⟨(), noBlock_eq_ok.2 hblock, ?_⟩
    rcases hlist : t.wordList with _ | ⟨first, _ | ⟨name, _ | ⟨m, ms⟩⟩⟩
    · simp [hlist] at hwords
    · simp [hlist] at hwords
    · simp [hlist] at hwords
    · refine bind_eq_ok.2 ⟨_, (words_eq_ok_iff (List.cons_ne_nil _ _)).2 hlist, ?_⟩
      simp [word, hlist, pure, Except.pure]

end Tree

end NetHooks
