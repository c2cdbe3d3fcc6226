import NetHooks.Proofs.Activation.Depth

/-!
# Interfaces come down in reverse

A target stands for a definition, whose dependencies are targets again. When no instance is
mentioned twice in all of this (`Config.MentionsOnce`), and none of them was recorded, what comes
up is a tree: bringing the target down again goes through it backwards, and the interfaces come
down in the reverse of the order in which they came up (`Walk.interfaces_fall`).
-/
namespace NetHooks

/-! ### What targets mention -/

namespace Config

/-- The dependencies of the definition that a target stands for; none when there is no such
definition. -/
def below (config : Config) (t : Target) : List String :=
  match t.resolve config with
  | .error _ => []
  | .ok logical => ((config.entity? logical).map Entity.dependencies).getD []

/-- The instance that a target mentions and those that are mentioned below it, so many levels
deep. A target that is not valid mentions none. -/
def mentioned (config : Config) : Nat → String → List String
  | 0, _ => []
  | depth + 1, target =>
      match Target.check target with
      | .error _ => []
      | .ok t => t.instanceName :: (config.below t).flatMap (config.mentioned depth)

/-- The instance is mentioned by one of the targets or below it. -/
def Mentions (config : Config) (targets : List String) (name : String) : Prop :=
  ∃ depth, name ∈ targets.flatMap (config.mentioned depth)

/-- No instance is mentioned twice, however deep. -/
def MentionsOnce (config : Config) (targets : List String) : Prop :=
  ∀ depth, (targets.flatMap (config.mentioned depth)).Nodup

variable {config : Config} {target name : String} {targets : List String} {t : Target}
  {depth deeper : Nat}

theorem mentioned_of_valid (h : Target.check target = .ok t) : config.mentioned (depth + 1) target =
    t.instanceName :: (config.below t).flatMap (config.mentioned depth) := by
  rw [mentioned, h]

theorem mentioned_mono (hle : depth ≤ deeper) (h : name ∈ config.mentioned depth target) :
    name ∈ config.mentioned deeper target := by
  induction depth generalizing deeper target with
  | zero => cases h
  | succ depth ih =>
      obtain ⟨deeper, rfl⟩ : ∃ n, deeper = n + 1 := Nat.exists_eq_succ_of_ne_zero (by omega)
      cases hcheck : Target.check target with
      | error d => simp [mentioned, hcheck] at h
      | ok t =>
          rw [mentioned_of_valid hcheck] at h ⊢
          rcases List.mem_cons.1 h with rfl | h
          · exact List.mem_cons_self
          · obtain ⟨d, hd, hname⟩ := List.mem_flatMap.1 h
            have hdeep := ih (Nat.le_of_succ_le_succ hle) hname
            exact List.mem_cons_of_mem _ (List.mem_flatMap.2 ⟨d, hd, hdeep⟩)

theorem mentions_cons : config.Mentions (target :: targets) name ↔
    (∃ depth, name ∈ config.mentioned depth target) ∨ config.Mentions targets name := by
  simp only [Mentions, List.flatMap_cons, List.mem_append, exists_or]

/-- A valid target mentions its instance, and what its dependencies mention. -/
theorem exists_mem_mentioned_iff (h : Target.check target = .ok t) :
    (∃ depth, name ∈ config.mentioned depth target) ↔
      name = t.instanceName ∨ config.Mentions (config.below t) name := by
  constructor
  · rintro ⟨_ | depth, hname⟩
    · cases hname
    · rw [mentioned_of_valid h] at hname
      exact (List.mem_cons.1 hname).imp_right fun hname => ⟨depth, hname⟩
  · rintro (rfl | ⟨depth, hname⟩)
    · exact ⟨1, by simp [mentioned_of_valid h]⟩
    · exact ⟨depth + 1, by rw [mentioned_of_valid h]; exact List.mem_cons_of_mem _ hname⟩

namespace MentionsOnce

theorem tail (h : config.MentionsOnce (target :: targets)) : config.MentionsOnce targets := by
  intro depth
  have hall := h depth
  rw [List.flatMap_cons] at hall
  exact hall.of_append_right

/-- What a target mentions the targets after it do not mention. -/
theorem not_mentions_tail (h : config.MentionsOnce (target :: targets))
    (hname : name ∈ config.mentioned depth target) : ¬config.Mentions targets name := by
  rintro ⟨deeper, hmore⟩
  obtain ⟨other, hother, hmore⟩ := List.mem_flatMap.1 hmore
  have hall := h (max depth deeper)
  rw [List.flatMap_cons] at hall
  have hfirst := mentioned_mono (Nat.le_max_left depth deeper) hname
  have hsecond := mentioned_mono (Nat.le_max_right depth deeper) hmore
  exact List.disjoint_of_nodup_append hall hfirst (List.mem_flatMap.2 ⟨other, hother, hsecond⟩)

end MentionsOnce

variable {store : Store} {busy : List String} {i : Instance}

/-- A target that is brought up stands for the definition of its instance. -/
theorem exists_below_of_accept (h : config.accept .start store busy target = .ok i) :
    ∃ t, Target.check target = .ok t ∧ t.instanceName = i.name ∧
      config.below t = i.entity.dependencies := by
  obtain ⟨t, ht, hname, hlogical, hdef, -⟩ := accept_eq_ok.1 h
  have hresolve := Target.resolve_of_logicalFor hlogical
  exact ⟨t, ht, hname, by simp [below, hresolve, hdef]⟩

theorem exists_mem_mentioned_of_accept (h : config.accept .start store busy target = .ok i) :
    (∃ depth, name ∈ config.mentioned depth target) ↔
      name = i.name ∨ config.Mentions i.entity.dependencies name := by
  obtain ⟨t, ht, hname, hbelow⟩ := exists_below_of_accept h
  rw [exists_mem_mentioned_iff ht, hname, hbelow]

theorem mentions_cons_of_accept (h : config.accept .start store busy target = .ok i) :
    config.Mentions (target :: targets) name ↔
      (name = i.name ∨ config.Mentions i.entity.dependencies name) ∨
        config.Mentions targets name := by
  rw [mentions_cons, exists_mem_mentioned_of_accept h]

/-- An instance, what is mentioned below it and what later targets mention are apart. -/
structure Apart (config : Config) (i : Instance) (targets : List String) : Prop where
  below : config.MentionsOnce i.entity.dependencies
  own : ¬config.Mentions i.entity.dependencies i.name
  later : ∀ name, name = i.name ∨ config.Mentions i.entity.dependencies name →
    ¬config.Mentions targets name

theorem MentionsOnce.apart (honce : config.MentionsOnce (target :: targets))
    (h : config.accept .start store busy target = .ok i) : config.Apart i targets := by
  obtain ⟨t, ht, hname, hbelow⟩ := exists_below_of_accept h
  have hnodup : ∀ depth,
      (i.name :: i.entity.dependencies.flatMap (config.mentioned depth)).Nodup := by
    intro depth
    have hall := honce (depth + 1)
    rw [List.flatMap_cons, mentioned_of_valid ht, hname, hbelow] at hall
    exact hall.of_append_left
  refine ⟨fun depth => (List.nodup_cons.1 (hnodup depth)).2, ?_, fun name hmention => ?_⟩
  · rintro ⟨depth, hown⟩
    exact (List.nodup_cons.1 (hnodup depth)).1 hown
  · obtain ⟨depth, hdepth⟩ := (exists_mem_mentioned_of_accept h).2 hmention
    exact honce.not_mentions_tail hdepth

end Config

/-! ### The interfaces of a walk -/

/-- The instance, if it is an interface. -/
def Instance.interface? (i : Instance) : Option Instance :=
  match i.entity with
  | .interface _ => some i
  | .group _ => none

/-- The instances whose interfaces are gone through, in order. All that is asked of hooks for an
interface is asked when the work on it begins. -/
def Moment.interfaces (trace : List Moment) : List Instance :=
  trace.filterMap fun
    | .began i => i.interface?
    | .ended _ => none

@[simp] theorem Moment.interfaces_nil : interfaces [] = [] := rfl

theorem Moment.interfaces_append (xs ys : List Moment) :
    interfaces (xs ++ ys) = interfaces xs ++ interfaces ys :=
  List.filterMap_append

theorem Moment.interfaces_work (i : Instance) (inner trace : List Moment) :
    interfaces (.began i :: (inner ++ .ended i :: trace)) =
      i.interface?.toList ++ (interfaces inner ++ interfaces trace) := by
  cases h : i.interface? <;> simp [interfaces, h]

/-- Work on an instance is gone through backwards when what is inside it and what follows it are:
an interface has nothing inside it, and a group counts for nothing itself. -/
theorem Moment.interfaces_reverse {i : Instance} {inner inner' trace first : List Moment}
    (hinner : interfaces inner' = (interfaces inner).reverse)
    (hrest : interfaces first = (interfaces trace).reverse)
    (halone : i.interface? ≠ none → interfaces inner = []) :
    interfaces (first ++ .began i :: (inner' ++ [.ended i])) =
      (interfaces (.began i :: (inner ++ .ended i :: trace))).reverse := by
  rw [interfaces_append, interfaces_work, interfaces_work, hinner, hrest, List.reverse_append,
    List.reverse_append]
  cases hinterface : i.interface? with
  | none => simp
  | some j =>
      have hnone : interfaces inner = [] := halone (by simp [hinterface])
      simp [hnone]

namespace Walk

variable {config : Config} {mode : Mode} {busy busy' targets more : List String}
  {store store' store'' up s s' : Store} {trace trace' rise fall : List Moment}

/-- There is one walk through targets from a store. -/
theorem unique (h : Walk config mode busy targets store trace store')
    (h' : Walk config mode busy targets store trace' store'') :
    trace' = trace ∧ store'' = store' := by
  induction h generalizing trace' store'' with
  | nil =>
      cases h'
      exact ⟨rfl, rfl⟩
  | skip refused _ ih =>
      cases h' with
      | skip _ rest' => exact ih rest'
      | work accepted' _ _ => cases refused.symm.trans accepted'
  | work accepted _ _ ihInner ihRest =>
      cases h' with
      | skip refused' _ => cases accepted.symm.trans refused'
      | work accepted' dependencies' rest' =>
          cases accepted.symm.trans accepted'
          obtain ⟨rfl, rfl⟩ := ihInner dependencies'
          obtain ⟨rfl, rfl⟩ := ihRest rest'
          exact ⟨rfl, rfl⟩

/-- A walk goes through some of its targets and then through the others. -/
theorem exists_of_append (h : Walk config mode busy (targets ++ more) store trace store') :
    ∃ between first after, Walk config mode busy targets store first between ∧
      Walk config mode busy more between after store' ∧ trace = first ++ after := by
  induction targets generalizing store trace with
  | nil => exact ⟨store, [], trace, .nil, h, rfl⟩
  | cons target targets ih =>
      cases h with
      | skip refused rest =>
          obtain ⟨between, first, after, hfirst, hafter, rfl⟩ := ih rest
          exact ⟨between, first, after, .skip refused hfirst, hafter, rfl⟩
      | work accepted dependencies rest =>
          obtain ⟨between, first, after, hfirst, hafter, rfl⟩ := ih rest
          exact ⟨between, _, after, .work accepted dependencies hfirst, hafter, by simp⟩

/-- Only what the targets mention is brought up. -/
theorem get?_of_not_mentions (h : Walk config .start busy targets store trace store')
    {name : String} (hname : ¬config.Mentions targets name) :
    store'.get? name = store.get? name := by
  induction h with
  | nil => rfl
  | skip _ _ ih => exact ih fun h => hname (Config.mentions_cons.2 (.inr h))
  | @work busy targets target store between store' inner trace i accepted _ _ ihInner ihRest =>
      obtain ⟨t, ht, hinstance, hbelow⟩ := Config.exists_below_of_accept accepted
      rw [Config.mentions_cons, Config.exists_mem_mentioned_iff ht, hinstance, hbelow] at hname
      obtain ⟨⟨hne, hinner⟩, hrest⟩ := by simpa only [not_or] using hname
      have hbetween : between.get? name = store.get? name := ihInner hinner
      calc store'.get? name
          = (i.settle .start between).get? name := ihRest hrest
        _ = between.get? name := Instance.get?_settle_of_ne hne .start between
        _ = store.get? name := hbetween

/-- An interface has no dependencies to go through. -/
theorem interfaces_dependencies {i : Instance}
    (h : Walk config mode busy (mode.order.arrange i.entity.dependencies) store trace store')
    (hinterface : i.interface? ≠ none) : Moment.interfaces trace = [] := by
  have hnone : mode.order.arrange i.entity.dependencies = [] := by
    cases hentity : i.entity with
    | interface => cases mode <;> rfl
    | group g => simp [Instance.interface?, hentity] at hinterface
  rw [hnone] at h
  cases h
  rfl

/-- What the later targets do not mention is, when they are down, as it was before they came
up. -/
theorem get?_of_later {name : String}
    (hsame : ∀ name, ¬config.Mentions targets name → s'.get? name = s.get? name)
    (hkept : s.get? name = up.get? name) (h : Walk config .start busy targets store rise up)
    (hname : ¬config.Mentions targets name) : s'.get? name = store.get? name :=
  calc s'.get? name
      = s.get? name := hsame name hname
    _ = up.get? name := hkept
    _ = store.get? name := h.get?_of_not_mentions hname

/-- A target is refused when nothing is recorded for its instance. -/
theorem eq_nil_of_unrecorded {target : String} (h : Walk config .stop busy [target] s trace s')
    (hfree : ∀ t, Target.check target = .ok t → s.get? t.instanceName = none) :
    trace = [] ∧ s' = s := by
  cases h with
  | skip _ hend =>
      cases hend
      exact ⟨rfl, rfl⟩
  | work accepted _ _ =>
      obtain ⟨t, ht, -, hlogical, -, -⟩ := Config.accept_eq_ok.1 accepted
      exact absurd (hfree t ht) (Target.not_settled_of_logicalFor hlogical)

/-- An instance that is recorded as it came up is worked on when its target is brought down. -/
theorem exists_fall_of_accept {target : String} {i : Instance}
    (haccept : config.accept .start store busy target = .ok i)
    (h : Walk config .stop busy' [target] s trace s') (hrecord : s.get? i.name = some i.logical)
    (hbusy : i.name ∉ busy') :
    ∃ inner between,
      Walk config .stop (i.name :: busy') i.entity.dependencies.reverse s inner between ∧
        trace = .began i :: (inner ++ [.ended i]) ∧ s' = i.settle .stop between := by
  obtain ⟨t, ht, hname, -, hdef, -⟩ := Config.accept_eq_ok.1 haccept
  have hagain : config.accept .stop s busy' target = .ok i :=
    Config.accept_eq_ok.2 ⟨t, ht, hname, by simp [Target.logicalFor, hname, hrecord], hdef, hbusy⟩
  cases h with
  | skip refused _ => cases refused.symm.trans hagain
  | work accepted dependencies hend =>
      cases accepted.symm.trans hagain
      cases hend
      exact ⟨_, _, dependencies, rfl, rfl⟩

/-- When targets that mention no instance twice were brought up, and what they mention is recorded
as they left it, bringing them down in the reverse order goes through the interfaces in the reverse
order, and forgets only what they mention. -/
theorem interfaces_fall (h : Walk config .start busy targets store rise up)
    (honce : config.MentionsOnce targets)
    (hfree : ∀ name, config.Mentions targets name → store.get? name = none)
    (h' : Walk config .stop busy' targets.reverse s fall s')
    (hkept : ∀ name, config.Mentions targets name → s.get? name = up.get? name ∧ name ∉ busy') :
    Moment.interfaces fall = (Moment.interfaces rise).reverse ∧
      ∀ name, ¬config.Mentions targets name → s'.get? name = s.get? name := by
  induction h generalizing busy' s fall s' with
  | nil =>
      cases h'
      exact ⟨rfl, fun _ _ => rfl⟩
  | @skip busy targets target store up rise d refused rest ih =>
      have hmore : ∀ {name}, config.Mentions targets name →
          config.Mentions (target :: targets) name := fun h => Config.mentions_cons.2 (.inr h)
      -- The later targets come down first.
      rw [List.reverse_cons] at h'
      obtain ⟨mid, first, after, hfirst, hafter, rfl⟩ := h'.exists_of_append
      obtain ⟨hreverse, hsame⟩ := ih honce.tail (fun name h => hfree name (hmore h)) hfirst
        fun name h => hkept name (hmore h)
      have hquiet : after = [] ∧ s' = mid := by
        refine hafter.eq_nil_of_unrecorded fun t ht => ?_
        have hdepth : t.instanceName ∈ config.mentioned 1 target := by
          simp [Config.mentioned_of_valid ht]
        have hown : config.Mentions (target :: targets) t.instanceName :=
          Config.mentions_cons.2 (.inl ⟨1, hdepth⟩)
        have hlater : ¬config.Mentions targets t.instanceName := honce.not_mentions_tail hdepth
        exact (get?_of_later hsame (hkept _ hown).1 rest hlater).trans (hfree _ hown)
      obtain ⟨rfl, rfl⟩ := hquiet
      exact ⟨by simpa using hreverse, fun name h => hsame name fun h' => h (hmore h')⟩
  | @work busy targets target store between up inner trace i accepted dependencies rest ihInner
      ihRest =>
      have hall : ∀ {name}, config.Mentions (target :: targets) name ↔
          (name = i.name ∨ config.Mentions i.entity.dependencies name) ∨
            config.Mentions targets name := Config.mentions_cons_of_accept accepted
      have hapart : config.Apart i targets := honce.apart accepted
      -- The later targets come down first, and leave what this one mentions.
      rw [List.reverse_cons] at h'
      obtain ⟨mid, first, after, hfirst, hafter, rfl⟩ := h'.exists_of_append
      have hfreeLater : ∀ name, config.Mentions targets name →
          (i.settle .start between).get? name = none := by
        intro name hname
        have hother := mt (hapart.later name) (not_not.2 hname)
        obtain ⟨hne, hinner⟩ := not_or.1 hother
        calc (i.settle .start between).get? name
            = between.get? name := Instance.get?_settle_of_ne hne .start between
          _ = store.get? name := dependencies.get?_of_not_mentions hinner
          _ = none := hfree name (hall.2 (.inr hname))
      obtain ⟨hreverse, hsame⟩ := ihRest honce.tail hfreeLater hfirst
        fun name h => hkept name (hall.2 (.inr h))
      have hmid : ∀ {name}, name = i.name ∨ config.Mentions i.entity.dependencies name →
          mid.get? name = (i.settle .start between).get? name := fun h =>
        get?_of_later hsame (hkept _ (hall.2 (.inl h))).1 rest (hapart.later _ h)
      -- Then the instance is worked on again, from what its dependencies left.
      have hrecord : mid.get? i.name = some i.logical :=
        (hmid (.inl rfl)).trans (by simp [Instance.settle])
      obtain ⟨inner', between', hinner', rfl, rfl⟩ := exists_fall_of_accept accepted hafter hrecord
        (hkept i.name (hall.2 (.inl (.inl rfl)))).2
      have hbelow : ∀ name, config.Mentions i.entity.dependencies name →
          mid.get? name = between.get? name ∧ name ∉ i.name :: busy' := by
        intro name hname
        have hne : name ≠ i.name := fun heq => hapart.own (heq ▸ hname)
        have hbusy : name ∉ busy' := (hkept name (hall.2 (.inl (.inr hname)))).2
        exact ⟨(hmid (.inr hname)).trans (Instance.get?_settle_of_ne hne .start between),
          List.not_mem_cons_of_ne_of_not_mem hne hbusy⟩
      obtain ⟨hreverse', hsame'⟩ := ihInner hapart.below
        (fun name h => hfree name (hall.2 (.inl (.inr h)))) hinner' hbelow
      constructor
      · exact Moment.interfaces_reverse hreverse' hreverse dependencies.interfaces_dependencies
      · intro name hname
        obtain ⟨hother, hlater⟩ := not_or.1 (mt hall.2 hname)
        obtain ⟨hne, hinner⟩ := not_or.1 hother
        calc (i.settle .stop between').get? name
            = between'.get? name := Instance.get?_settle_of_ne hne .stop between'
          _ = mid.get? name := hsame' name hinner
          _ = s.get? name := hsame name hlater

end Walk

namespace Session

variable {σ : Type}

/-- When neither the target nor anything below it mentions an instance twice or one that is
recorded, bringing the target up and then down goes through its interfaces in one order and then
in the reverse order. -/
theorem deactivate_reverses_activate (invoker : Invoker σ) (config : Config) (context : Context)
    (target : String) (store : Store) (world : σ)
    (honce : ∀ depth, (config.mentioned depth target).Nodup)
    (hfree : ∀ depth, ∀ name ∈ config.mentioned depth target, store.get? name = none) :
    let up := (activate invoker config context target (begin store world)).2
    let down := (deactivate invoker config context target up).2
    ∃ rise fall,
      (∀ trace, Walks config context .start [target] trace (begin store world) up ↔
        trace = rise) ∧
      (∀ trace, Walks config context .stop [target] trace up down ↔ trace = fall) ∧
      Moment.interfaces fall = (Moment.interfaces rise).reverse := by
  intro up down
  obtain ⟨rise, hrise⟩ := exists_walks_bring invoker config context .start target
    (begin store world)
  obtain ⟨fall, hfall⟩ := exists_walks_bring invoker config context .stop target up
  refine ⟨rise, fall, fun trace => ⟨fun h => (hrise.walk.unique h.walk).1, ?_⟩,
    fun trace => ⟨fun h => (hfall.walk.unique h.walk).1, ?_⟩, ?_⟩
  · rintro rfl
    exact hrise
  · rintro rfl
    exact hfall
  · have hidle : up.inProgress = [] := hrise.inProgress_eq
    have honceAll : config.MentionsOnce [target] := fun depth => by simpa using honce depth
    have hfreeAll : ∀ name, config.Mentions [target] name → store.get? name = none := by
      rintro name ⟨depth, hname⟩
      exact hfree depth name (by simpa using hname)
    have hback : Walk config .stop [] [target] up.store fall down.store := hidle ▸ hfall.walk
    exact (hrise.walk.interfaces_fall honceAll hfreeAll hback fun name _ =>
      ⟨rfl, List.not_mem_nil⟩).1

/-- A group in a group, an interface under a name of its own, and targets that cannot be brought
up. -/
def siteConfig : Config where
  entities := Catalog.ofList [
    ("eth0", .interface ⟨"eth0", none, [], [], (Commands.empty.add .up ["on"]).add .down ["off"],
      ⟨"interfaces", 1⟩⟩),
    ("lan", .group ⟨"lan", ["eth0", "ghost", "wan=eth0", "eth0="], .empty, ⟨"interfaces", 4⟩⟩),
    ("site", .group ⟨"site", ["lan", "air=eth0", "=eth0"], .empty, ⟨"interfaces", 5⟩⟩)]
  mappings := .empty
  allowLists := .empty

theorem deactivate_reverses_activate_site :
    let store : Store := .ofEntries "state" (Catalog.empty.insert "old" "eth0")
    let invoker : Invoker Unit := fun _ w => ⟨none, [], w⟩
    let up := (activate invoker siteConfig {} "site" (begin store ())).2
    let down := (deactivate invoker siteConfig {} "site" up).2
    siteConfig.mentioned 3 "site" = ["site", "lan", "eth0", "ghost", "wan", "air"] ∧
    down.calls.map (·.environment.get? "IFACE") =
      [some "eth0", some "wan", some "air", some "air", some "wan", some "eth0"] ∧
    ∃ rise fall,
      (∀ trace, Walks siteConfig {} .start ["site"] trace (begin store ()) up ↔ trace = rise) ∧
      (∀ trace, Walks siteConfig {} .stop ["site"] trace up down ↔ trace = fall) ∧
      Moment.interfaces fall = (Moment.interfaces rise).reverse := by
  intro store invoker up down
  have hall : ∀ depth, siteConfig.mentioned depth "site" = [] ∨
      siteConfig.mentioned depth "site" = ["site"] ∨
      siteConfig.mentioned depth "site" = ["site", "lan", "air"] ∨
      siteConfig.mentioned depth "site" = ["site", "lan", "eth0", "ghost", "wan", "air"] := by
    rintro (_ | _ | _ | depth)
    · exact .inl rfl
    · exact .inr (.inl rfl)
    · exact .inr (.inr (.inl rfl))
    · exact .inr (.inr (.inr rfl))
  have honce : ∀ depth, (siteConfig.mentioned depth "site").Nodup := fun depth => by
    rcases hall depth with h | h | h | h <;> rw [h] <;> decide
  have hfree : ∀ depth, ∀ name ∈ siteConfig.mentioned depth "site", store.get? name = none :=
    fun depth => by rcases hall depth with h | h | h | h <;> rw [h] <;> decide
  exact ⟨rfl, by decide +kernel,
    deactivate_reverses_activate invoker siteConfig {} "site" store () honce hfree⟩

end Session

end NetHooks
