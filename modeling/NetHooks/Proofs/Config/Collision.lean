import NetHooks.Proofs.Config.Grammar

/-!
# Options and their keys

The lines under a type or a protocol are its options, and each has a key of its own. When two of
them have the same key, or one has a key that the line above keeps for its own words, the line is
refused, and the first option whose key is taken is named (`addOptionKeys_eq_error_iff`). Nothing
else is refused for a key, so such an error of a whole source always comes from the first line of
this kind (`OptionBlock.compile_eq_keyCollision_iff`). Otherwise nothing is lost: every option and
every word of the line above is in the environment (`OptionBlock.environment_outcome`).
-/
namespace NetHooks

/-- Options are refused at the first of them whose key is taken. -/
theorem addOptionKeys_eq_error_iff {head : String} (fixed : List (String × String))
    {lines : Forest} {e : SourceError} (hfixed : (fixed.map Prod.fst).Nodup) :
    addOptionKeys head (.ofList fixed) ((lines.map Tree.location).zip (lines.map Tree.option)) =
        .error e ↔
      ∃ before c after, lines = before ++ c :: after ∧
        (fixed.map Prod.fst ++ before.map fun b => optionKey head (b.word 0)).Nodup ∧
        optionKey head (c.word 0) ∈
          fixed.map Prod.fst ++ before.map (fun b => optionKey head (b.word 0)) ∧
        e = .keyCollision (c.word 0) (optionKey head (c.word 0)) c.location := by
  induction lines generalizing fixed with
  | nil => simp [addOptionKeys]
  | cons t lines ih =>
      let entry : String × String := (optionKey head (t.word 0), " ".intercalate t.option.values)
      have hentry : (fixed ++ [entry]).map Prod.fst =
          fixed.map Prod.fst ++ [optionKey head (t.word 0)] := by
        simp [entry]
      have hname : t.option.name = t.word 0 := rfl
      rw [List.map_cons, List.map_cons, List.zip_cons_cons, addOptionKeys, hname]
      by_cases htaken : optionKey head (t.word 0) ∈ fixed.map Prod.fst
      · rw [if_pos (Catalog.contains_ofList.2 htaken)]
        constructor
        · intro h
          exact ⟨[], t, lines, rfl, by simpa using hfixed, by simpa using htaken,
            (Except.error.inj h).symm⟩
        · rintro ⟨before, c, after, hsplit, hnodup, hmem, rfl⟩
          cases before with
          | nil =>
              obtain ⟨rfl, rfl⟩ := List.cons.inj hsplit
              rfl
          | cons b before =>
              obtain ⟨rfl, rfl⟩ := List.cons.inj hsplit
              exact absurd (by simp) (List.disjoint_of_nodup_append hnodup htaken)
      · have hnew : ¬(Catalog.ofList fixed).contains entry.1 = true :=
          mt Catalog.contains_ofList.1 htaken
        have hinsert : (Catalog.ofList fixed).insert entry.1 entry.2 =
            .ofList (fixed ++ [entry]) := by
          simp [Catalog.ofList]
        have hnodup : ((fixed ++ [entry]).map Prod.fst).Nodup :=
          Catalog.nodup_map_fst_concat.2 ⟨hfixed, htaken⟩
        rw [if_neg hnew, hinsert, ih _ hnodup, hentry]
        constructor
        · rintro ⟨before, c, after, rfl, hkeys, hmem, rfl⟩
          exact ⟨t :: before, c, after, rfl, by simpa using hkeys, by simpa using hmem, rfl⟩
        · rintro ⟨before, c, after, hsplit, hkeys, hmem, rfl⟩
          cases before with
          | nil =>
              obtain ⟨rfl, rfl⟩ := List.cons.inj hsplit
              exact absurd (by simpa using hmem) htaken
          | cons b before =>
              obtain ⟨rfl, rfl⟩ := List.cons.inj hsplit
              exact ⟨before, c, after, rfl, by simpa using hkeys, by simpa using hmem, rfl⟩

/-- The kinds of lines that have options. -/
inductive OptionBlock where
  | type
  | protocol

namespace OptionBlock

def keyword : OptionBlock → String
  | type => "type"
  | protocol => "proto"

def head : OptionBlock → String
  | type => typeHead
  | protocol => protocolHead

/-- The keys of the words after the keyword. -/
def reserved : OptionBlock → List String
  | type => ["IFACE_TYPE"]
  | protocol => ["PROTO_TYPE", "PROTO_METHOD"]

/-- The environment that the line and its options declare. -/
def environment (k : OptionBlock) (t : Tree) : Except SourceError Environment :=
  match k with
  | type => t.linkType.map (·.environment)
  | protocol => t.protocol.map (·.environment)

/-- The key of an option by its line. -/
def key (k : OptionBlock) (c : Tree) : String :=
  optionKey k.head (c.word 0)

/-- The line has the words that it should, and all lines under it are options. -/
structure Reads (k : OptionBlock) (t : Tree) : Prop where
  words : t.wordList.length = k.reserved.length + 1
  lines : ∀ c ∈ t.children, c.IsOption

/-- Two options have the same key, or one has the key of a word. -/
def Collides (k : OptionBlock) (t : Tree) : Prop :=
  ¬(t.children.map k.key).Nodup ∨ ∃ c ∈ t.children, k.key c ∈ k.reserved

/-- The error names the first option whose key is taken. -/
def FirstTaken (k : OptionBlock) (t : Tree) (e : SourceError) : Prop :=
  ∃ before c after, t.children = before ++ c :: after ∧ (k.reserved ++ before.map k.key).Nodup ∧
    k.key c ∈ k.reserved ++ before.map k.key ∧ e = .keyCollision (c.word 0) (k.key c) c.location

/-- The words after the keyword, each under its key. -/
def fixed (k : OptionBlock) (t : Tree) : List (String × String) :=
  k.reserved.zip (t.wordList.drop 1)

variable {k : OptionBlock} {t : Tree} {e : SourceError}

theorem nodup_reserved (k : OptionBlock) : k.reserved.Nodup := by
  cases k <;> decide

theorem Reads.keys_fixed (h : k.Reads t) : (k.fixed t).map Prod.fst = k.reserved := by
  refine List.map_fst_zip ?_
  rw [List.length_drop, h.words]
  omega

theorem collides_iff : k.Collides t ↔ ¬(k.reserved ++ t.children.map k.key).Nodup := by
  rw [Collides, List.nodup_append']
  constructor
  · rintro (hkeys | ⟨c, hc, hkey⟩) ⟨-, hnodup, hdisjoint⟩
    · exact hkeys hnodup
    · exact hdisjoint hkey (List.mem_map_of_mem hc)
  · intro h
    by_contra hfree
    obtain ⟨hnodup, hkeys⟩ := not_or.1 hfree
    refine h ⟨k.nodup_reserved, not_not.1 hnodup, fun key hreserved hkey => hkeys ?_⟩
    obtain ⟨c, hc, rfl⟩ := List.mem_map.1 hkey
    exact ⟨c, hc, hreserved⟩

/-- What is left to check of a line that is otherwise right are the keys of its options. -/
theorem Reads.environment_eq (h : k.Reads t) : k.environment t =
    addOptionKeys k.head (.ofList (k.fixed t))
      ((t.children.map Tree.location).zip (t.children.map Tree.option)) := by
  have hsettings : t.settings = .ok (t.children.map Tree.option) :=
    Tree.settings_eq_ok.2 ⟨h.lines, rfl⟩
  cases k with
  | type =>
      obtain ⟨first, name, hlist⟩ := List.length_eq_two.1 h.words
      have hwords : t.words = .ok [first, name] :=
        (Tree.words_eq_ok_iff (List.cons_ne_nil _ _)).2 hlist
      have hfixed : Catalog.ofList (fixed type t) =
          Catalog.empty.insert (typeHead ++ "_TYPE") name := by
        rw [fixed, hlist]
        rfl
      rw [environment, Tree.linkType, hwords, hfixed]
      simp only [bind, Except.bind, hsettings, head]
      cases addOptionKeys typeHead (Catalog.empty.insert (typeHead ++ "_TYPE") name)
        ((t.children.map Tree.location).zip (t.children.map Tree.option)) <;> rfl
  | protocol =>
      obtain ⟨first, kind, method, hlist⟩ := List.length_eq_three.1 h.words
      have hwords : t.words = .ok [first, kind, method] :=
        (Tree.words_eq_ok_iff (List.cons_ne_nil _ _)).2 hlist
      have hfixed : Catalog.ofList (fixed protocol t) =
          (Catalog.empty.insert (protocolHead ++ "_TYPE") kind).insert
            (protocolHead ++ "_METHOD") method := by
        rw [fixed, hlist]
        rfl
      rw [environment, Tree.protocol, hwords, hfixed]
      simp only [bind, Except.bind, hsettings, head]
      cases addOptionKeys protocolHead ((Catalog.empty.insert (protocolHead ++ "_TYPE") kind).insert
        (protocolHead ++ "_METHOD") method)
        ((t.children.map Tree.location).zip (t.children.map Tree.option)) <;> rfl

/-! ### Errors and environments -/

theorem Reads.environment_eq_error_iff (h : k.Reads t) :
    k.environment t = .error e ↔ k.FirstTaken t e := by
  have hfixed : ((k.fixed t).map Prod.fst).Nodup := h.keys_fixed ▸ k.nodup_reserved
  rw [h.environment_eq, addOptionKeys_eq_error_iff _ hfixed, h.keys_fixed]
  rfl

theorem Reads.environment_eq_ok_iff (h : k.Reads t) {env : Environment} :
    k.environment t = .ok env ↔
      ¬k.Collides t ∧ env = .ofList (k.fixed t ++ optionEntries k.head t.options) := by
  have hfixed : ((k.fixed t).map Prod.fst).Nodup := h.keys_fixed ▸ k.nodup_reserved
  have hlength : (t.children.map Tree.option).length ≤ (t.children.map Tree.location).length := by
    simp
  rw [h.environment_eq, Tree.addOptionKeys_eq_ok_iff _ hfixed hlength, collides_iff, not_not,
    List.map_append, h.keys_fixed]
  exact and_congr_left' (by rw [← Tree.options, Tree.keys_options]; rfl)

theorem Reads.environment_holds (h : k.Reads t) (hfree : ¬k.Collides t) {env : Environment}
    (henv : env = .ofList (k.fixed t ++ optionEntries k.head t.options)) :
    env.entries.length = t.children.length + k.reserved.length ∧
    (∀ c ∈ t.children, env.get? (k.key c) = some (" ".intercalate (c.wordList.drop 1))) ∧
    ∀ n (hn : n < k.reserved.length), env.get? k.reserved[n] = some (t.word (n + 1)) := by
  have hnodup : ((k.fixed t ++ optionEntries k.head t.options).map Prod.fst).Nodup := by
    rw [List.map_append, h.keys_fixed, Tree.keys_options]
    exact not_not.1 (mt collides_iff.2 hfree)
  have hperm : env.entries.Perm (k.fixed t ++ optionEntries k.head t.options) :=
    henv ▸ Catalog.perm_entries_ofList hnodup
  have hget {key value : String}
      (hmem : (key, value) ∈ k.fixed t ++ optionEntries k.head t.options) :
      env.get? key = some value :=
    Catalog.mem_entries_iff.1 (hperm.mem_iff.2 hmem)
  have hfixed : (k.fixed t).length = k.reserved.length := by
    rw [← h.keys_fixed, List.length_map]
  refine ⟨?_, fun c hc => hget (List.mem_append_right _ ?_), fun n hn =>
    hget (List.mem_append_left _ ?_)⟩
  · have hoptions : (optionEntries k.head t.options).length = t.children.length := by
      simp [optionEntries, Tree.options]
    rw [hperm.length_eq, List.length_append, hfixed, hoptions, Nat.add_comm]
  · exact List.mem_map.2 ⟨c.option, List.mem_map_of_mem hc, rfl⟩
  · have hword : n < (t.wordList.drop 1).length := by
      rw [List.length_drop, h.words]
      omega
    have hvalue : (t.wordList.drop 1)[n] = t.word (n + 1) := by
      simp [Tree.word, h.words, hn]
    rw [← hvalue]
    exact List.mem_iff_getElem.2 ⟨n, hfixed ▸ hn, List.getElem_zip⟩

/-! ### Compilation -/

/-- The line stands under an interface, and all that is read before it is accepted. -/
inductive Arrives (k : OptionBlock) (t : Tree) (f : Forest) : Prop
  | intro {before after above below : Forest} {root : Tree} {c : Config} {name : String}
      {body : Tree.InterfaceBody} (roots : f = before ++ root :: after)
      (compiled : Config.compile before = .ok c)
      (keyword : root.keyword = "iface" ∨ root.keyword = "interface")
      (named : root.singleName = .ok name) (lines : root.children = above ++ t :: below)
      (accepted : above.foldlM (Tree.addToInterface name) ⟨none, [], .empty⟩ = .ok body)
      (kind : t.keyword = k.keyword) (first : k = .type → body.type? = none)

theorem addToInterface_eq_error (h : k.environment t = .error e) {name : String}
    {body : Tree.InterfaceBody} (hkind : t.keyword = k.keyword)
    (hfirst : k = .type → body.type? = none) :
    Tree.addToInterface name body t = .error e := by
  cases k with
  | type =>
      have hline : t.linkType = .error e := map_eq_error.1 h
      have hphase : Phase.ofKeyword? "type" = none := rfl
      simp only [Tree.addToInterface, hkind, keyword, hphase, hfirst rfl, if_true]
      exact bind_eq_error.2 (.inl hline)
  | protocol =>
      have hline : t.protocol = .error e := map_eq_error.1 h
      have hphase : Phase.ofKeyword? "proto" = none := rfl
      simp only [Tree.addToInterface, hkind, keyword, hphase, String.reduceEq, if_false, if_true]
      exact bind_eq_error.2 (.inl hline)

/-- The error of a line that is arrived at is that of the compilation. -/
theorem Arrives.compile_eq_error {f : Forest} (h : k.Arrives t f)
    (herror : k.environment t = .error e) : Config.compile f = .error e := by
  obtain @⟨before, after, above, below, root, c, name, body, rfl, hcompiled, hkeyword, hnamed,
    hlines, haccepted, hkind, hfirst⟩ := h
  have hline : Tree.addToInterface name body t = .error e :=
    addToInterface_eq_error herror hkind hfirst
  have hinterface : root.interface = .error e := by
    rw [Tree.interface, hlines]
    refine bind_eq_error.2 (.inr ⟨name, hnamed, bind_eq_error.2 (.inl ?_)⟩)
    exact foldlM_eq_error_iff.2 ⟨above, t, below, body, rfl, haccepted, hline⟩
  have hroot : c.addRoot root = .error e := by
    have hallow : root.keyword ≠ "allow" := by
      rcases hkeyword with hkeyword | hkeyword <;> simp [hkeyword]
    rw [Config.addRoot, if_neg hallow, if_pos hkeyword]
    exact bind_eq_error.2 (.inl hinterface)
  exact foldlM_eq_error_iff.2 ⟨before, root, after, c, rfl, hcompiled, hroot⟩

end OptionBlock

/-! ### Other errors -/

/-- The computation does not fail because of a key. -/
def Keyless {α : Type} (x : Except SourceError α) : Prop :=
  ∀ option key place, x ≠ .error (.keyCollision option key place)

namespace Keyless

variable {α β : Type}

theorem ok (a : α) : Keyless (.ok a) := nofun

theorem bind {x : Except SourceError α} {f : α → Except SourceError β} (hx : Keyless x)
    (hf : ∀ a, Keyless (f a)) : Keyless (x >>= f) := by
  intro option key place h
  rcases bind_eq_error.1 h with h | ⟨a, -, h⟩
  · exact hx option key place h
  · exact hf a option key place h

theorem foldlM {step : β → α → Except SourceError β} (h : ∀ b a, Keyless (step b a)) (l : List α)
    (b : β) : Keyless (l.foldlM step b) := by
  intro option key place herror
  obtain ⟨_, a, _, b', -, -, ha⟩ := foldlM_eq_error_iff.1 herror
  exact h b' a option key place ha

theorem mapM {f : α → Except SourceError β} (h : ∀ a, Keyless (f a)) (l : List α) :
    Keyless (l.mapM f) := by
  induction l with
  | nil => exact nofun
  | cons a l ih =>
      rw [List.mapM_cons]
      exact (h a).bind fun b => ih.bind fun bs => .ok _

end Keyless

namespace Tree

theorem keyless_words (t : Tree) : Keyless t.words := by
  intro option key place h
  obtain ⟨cause, -, h⟩ := mapError_eq_error.1 h
  cases h

theorem keyless_noBlock (t : Tree) : Keyless t.noBlock := by
  intro option key place h
  rw [noBlock] at h
  split at h <;> cases h

theorem keyless_singleName (t : Tree) : Keyless t.singleName := by
  refine t.keyless_words.bind fun ws option key place h => ?_
  split at h <;> cases h

theorem keyless_verbatim (t : Tree) : Keyless t.verbatim :=
  t.keyless_noBlock.bind fun _ => .ok _

theorem keyless_phaseCommands (t : Tree) : Keyless t.phaseCommands :=
  (Keyless.mapM keyless_verbatim t.children).bind fun _ => .ok _

theorem keyless_settings (t : Tree) : Keyless t.settings := by
  refine Keyless.mapM (fun c => ?_) t.children
  refine c.keyless_noBlock.bind fun _ => c.keyless_words.bind fun ws option key place h => ?_
  split at h <;> cases h

theorem keyless_addToGroup (name : String) (commands : Commands) (t : Tree) :
    Keyless (addToGroup name commands t) := by
  rw [addToGroup]
  split
  · exact t.keyless_phaseCommands.bind fun _ => .ok _
  · intro option key place h
    cases h

theorem keyless_group (t : Tree) : Keyless t.group := by
  refine t.keyless_words.bind fun ws => ?_
  split
  next name _ =>
    exact (Keyless.foldlM (keyless_addToGroup name) t.children .empty).bind fun _ => .ok _
  · exact nofun

theorem keyless_mapping (t : Tree) : Keyless t.mapping :=
  t.keyless_singleName.bind fun _ => (Keyless.mapM keyless_verbatim t.children).bind fun _ => .ok _

theorem keyless_allowed (t : Tree) : Keyless t.allowed := by
  refine t.keyless_noBlock.bind fun _ => t.keyless_words.bind fun ws option key place h => ?_
  split at h <;> cases h

end Tree

namespace OptionBlock

variable {k : OptionBlock} {t : Tree} {option key : String} {place : Location}

/-- Keys are compared only when all else about the line is right. -/
theorem reads_of_keyCollision
    (h : k.environment t = .error (.keyCollision option key place)) : k.Reads t := by
  cases k with
  | type =>
      rcases bind_eq_error.1 (map_eq_error.1 h) with h | ⟨ws, hwords, h⟩
      · exact absurd h (t.keyless_words _ _ _)
      · split at h
        next first name =>
          rcases bind_eq_error.1 h with h | ⟨options, hoptions, -⟩
          · exact absurd h (t.keyless_settings _ _ _)
          · have hlist := (Tree.words_eq_ok_iff (List.cons_ne_nil _ _)).1 hwords
            exact ⟨by simp [hlist, reserved], (Tree.settings_eq_ok.1 hoptions).1⟩
        · cases h
        · cases h
  | protocol =>
      rcases bind_eq_error.1 (map_eq_error.1 h) with h | ⟨ws, hwords, h⟩
      · exact absurd h (t.keyless_words _ _ _)
      · split at h
        next first kind method =>
          rcases bind_eq_error.1 h with h | ⟨options, hoptions, -⟩
          · exact absurd h (t.keyless_settings _ _ _)
          · have hlist := (Tree.words_eq_ok_iff (List.cons_ne_nil _ _)).1 hwords
            exact ⟨by simp [hlist, reserved], (Tree.settings_eq_ok.1 hoptions).1⟩
        all_goals cases h

/-- Of the lines under an interface only types and protocols are refused for a key. -/
theorem exists_of_addToInterface {name : String} {body : Tree.InterfaceBody}
    (h : Tree.addToInterface name body t = .error (.keyCollision option key place)) :
    ∃ k : OptionBlock, t.keyword = k.keyword ∧ (k = .type → body.type? = none) ∧
      k.environment t = .error (.keyCollision option key place) := by
  rw [Tree.addToInterface] at h
  split at h
  · exact absurd h ((t.keyless_phaseCommands.bind fun _ => .ok _) _ _ _)
  split at h
  next hkeyword =>
    split at h
    · cases h
    next hfirst =>
      rcases bind_eq_error.1 h with h | ⟨l, -, h⟩
      · exact ⟨.type, hkeyword, fun _ => hfirst, map_eq_error.2 h⟩
      · cases h
  split at h
  next hkeyword =>
    rcases bind_eq_error.1 h with h | ⟨p, -, h⟩
    · refine ⟨.protocol, hkeyword, fun hkind => ?_, map_eq_error.2 h⟩
      cases hkind
    · cases h
  · cases h

/-- Of the statements only interfaces are refused for a key. -/
theorem interface_of_addRoot {c : Config}
    (h : c.addRoot t = .error (.keyCollision option key place)) :
    (t.keyword = "iface" ∨ t.keyword = "interface") ∧
      t.interface = .error (.keyCollision option key place) := by
  have hentity (e : Entity) : Keyless (c.addEntity e) := by
    intro option key place h
    rw [Config.addEntity] at h
    split at h <;> cases h
  have hmapping (m : Mapping) : Keyless (c.addMapping m) := by
    intro option key place h
    rw [Config.addMapping] at h
    split at h <;> cases h
  rw [Config.addRoot] at h
  split at h
  · exact absurd h ((t.keyless_allowed.bind fun _ => .ok _) _ _ _)
  split at h
  next hkeyword =>
    rcases bind_eq_error.1 h with h | ⟨i, -, h⟩
    · exact ⟨hkeyword, h⟩
    · exact absurd h (hentity _ _ _ _)
  split at h
  · exact absurd h ((t.keyless_group.bind fun g => hentity (.group g)) _ _ _)
  split at h
  · exact absurd h ((t.keyless_mapping.bind hmapping) _ _ _)
  · cases h

/-- A forest is refused for a key by one of its lines, with the first option whose key is taken. -/
theorem compile_eq_keyCollision_iff {f : Forest} :
    Config.compile f = .error (.keyCollision option key place) ↔
      ∃ (k : OptionBlock) (t : Tree), k.Arrives t f ∧ k.Reads t ∧
        k.FirstTaken t (.keyCollision option key place) := by
  constructor
  · intro h
    obtain ⟨before, root, after, c, rfl, hcompiled, hroot⟩ := foldlM_eq_error_iff.1 h
    obtain ⟨hkeyword, hinterface⟩ := interface_of_addRoot hroot
    rcases bind_eq_error.1 hinterface with hname | ⟨name, hname, hlines⟩
    · exact absurd hname (root.keyless_singleName _ _ _)
    rcases bind_eq_error.1 hlines with hfold | ⟨body, -, hdone⟩
    · obtain ⟨above, t, below, body, hsplit, haccepted, hline⟩ := foldlM_eq_error_iff.1 hfold
      obtain ⟨k, hkind, hfirst, herror⟩ := exists_of_addToInterface hline
      have hreads : k.Reads t := reads_of_keyCollision herror
      exact ⟨k, t, .intro rfl hcompiled hkeyword hname hsplit haccepted hkind hfirst, hreads,
        hreads.environment_eq_error_iff.1 herror⟩
    · cases hdone
  · rintro ⟨k, t, harrives, hreads, hfirst⟩
    exact harrives.compile_eq_error (hreads.environment_eq_error_iff.2 hfirst)

/-- A forest is refused for a key exactly when a line that it arrives at has options that collide,
and the error names the first option whose key is taken. And a line whose words and options are
right is refused exactly when options collide; otherwise its environment has all options and words,
and nothing else. -/
theorem environment_outcome (f : Forest) :
    (∀ option key place, Config.compile f = .error (.keyCollision option key place) ↔
      ∃ (k : OptionBlock) (t : Tree), k.Arrives t f ∧ k.Reads t ∧
        k.FirstTaken t (.keyCollision option key place)) ∧
    ∀ (k : OptionBlock) (t : Tree), k.Reads t →
      ((∃ e, k.environment t = .error e) ↔ k.Collides t) ∧
      (∀ e, k.environment t = .error e ↔ k.FirstTaken t e) ∧
      (¬k.Collides t → ∃ env, k.environment t = .ok env ∧
        env.entries.length = t.children.length + k.reserved.length ∧
        (∀ c ∈ t.children, env.get? (k.key c) = some (" ".intercalate (c.wordList.drop 1))) ∧
        ∀ n (hn : n < k.reserved.length), env.get? k.reserved[n] = some (t.word (n + 1))) := by
  refine ⟨fun _ _ _ => compile_eq_keyCollision_iff, fun k t h =>
    ⟨?_, fun e => h.environment_eq_error_iff, fun hfree => ?_⟩⟩
  · constructor
    · rintro ⟨e, herror⟩
      by_contra hfree
      have hok := h.environment_eq_ok_iff.2 ⟨hfree, rfl⟩
      cases herror.symm.trans hok
    · intro hcollides
      cases hread : k.environment t with
      | error e => exact ⟨e, rfl⟩
      | ok env => exact absurd hcollides (h.environment_eq_ok_iff.1 hread).1
  · exact ⟨_, h.environment_eq_ok_iff.2 ⟨hfree, rfl⟩, h.environment_holds hfree rfl⟩

/-- Options whose names differ by a hyphen only. -/
def twinLine : Tree :=
  .node ⟨1, "proto ipv4 static", ⟨"interfaces", 2⟩⟩ [
    .node ⟨2, "foo-bar 1", ⟨"interfaces", 3⟩⟩ [], .node ⟨2, "foo_bar 2", ⟨"interfaces", 4⟩⟩ []]

def twinForest : Forest := [.node ⟨0, "iface eth0", ⟨"interfaces", 1⟩⟩ [twinLine]]

theorem environment_outcome_twin : protocol.Reads twinLine ∧ protocol.Collides twinLine ∧
    Config.compile twinForest =
      .error (.keyCollision "foo_bar" "PROTO_FOO_BAR" ⟨"interfaces", 4⟩) := by
  have hreads : protocol.Reads twinLine := by
    refine ⟨by decide, fun c hc => ?_⟩
    have hlines : c = .node ⟨2, "foo-bar 1", ⟨"interfaces", 3⟩⟩ [] ∨
        c = .node ⟨2, "foo_bar 2", ⟨"interfaces", 4⟩⟩ [] := by
      simpa [twinLine, Tree.children] using hc
    rcases hlines with rfl | rfl
    · exact ⟨rfl, by decide⟩
    · exact ⟨rfl, by decide⟩
  obtain ⟨hcompile, -⟩ := environment_outcome twinForest
  have hfirst : protocol.FirstTaken twinLine
      (.keyCollision "foo_bar" "PROTO_FOO_BAR" ⟨"interfaces", 4⟩) :=
    ⟨[.node ⟨2, "foo-bar 1", ⟨"interfaces", 3⟩⟩ []], .node ⟨2, "foo_bar 2", ⟨"interfaces", 4⟩⟩ [],
      [], rfl, by decide +kernel, by decide +kernel, by rfl⟩
  have hroots : twinForest = [] ++ .node ⟨0, "iface eth0", ⟨"interfaces", 1⟩⟩ [twinLine] :: [] := rfl
  have harrives : protocol.Arrives twinLine twinForest :=
    @Arrives.intro _ _ _ [] [] [] [] _ _ "eth0" _ hroots rfl (.inl rfl) rfl rfl rfl rfl nofun
  exact ⟨hreads, .inl (by decide +kernel),
    (hcompile _ _ _).2 ⟨protocol, twinLine, harrives, hreads, hfirst⟩⟩

end OptionBlock

end NetHooks
