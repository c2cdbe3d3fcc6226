import NetHooks.CommandLine.UpDown
import NetHooks.Proofs.Fallible
import NetHooks.Proofs.Source.Inlining
import NetHooks.Proofs.Store.Temporary

/-!
# The store of a run

A run that fails, and one that is not to act, leave every file as it was, whichever step of writing
the store fails; one that succeeds puts the store at its path if its entries have changed, and
touches no file itself otherwise (`Request.bring_store`). What hooks do to the files is left open,
but they leave the store alone: its path reads alike in every tree that the calls of the run lead
to (`FileTree.LedTo`).
-/
namespace NetHooks

/-! ### What work on targets keeps -/

namespace Session

variable {σ : Type} {invoker : Invoker σ} {P : Session σ → Prop}

/-- A property that each act of a session keeps. -/
structure Kept (invoker : Invoker σ) (P : Session σ → Prop) : Prop where
  call : ∀ s c, P s → P (s.call invoker c)
  enter : ∀ s name, P s → P (s.enter name)
  leave : ∀ s i mode, P s → P (s.leave i mode)
  noteDependency : ∀ s group outcome, P s → P (s.noteDependency group outcome)

namespace Kept

theorem callAll (h : Kept invoker P) {s : Session σ} (hs : P s) (calls : List Call) :
    P (s.callAll invoker calls) := by
  induction calls generalizing s with
  | nil => exact hs
  | cons c calls ih => exact ih (h.call s c hs)

theorem bringWithin (h : Kept invoker P) (config : Config) (context : Context) (mode : Mode)
    (depth : Nat) (target : String) {s : Session σ} (hs : P s) :
    P (bringWithin invoker config context mode depth target s).2 := by
  induction depth generalizing target s with
  | zero => exact hs
  | succ depth ih =>
      rw [Session.bringWithin]
      cases config.accept mode s.store s.inProgress target with
      | error d => exact hs
      | ok i =>
          have hdependencies (dependencies : List String) {s : Session σ} (hs : P s) :
              P (dependencies.foldl (fun s d =>
                let r := Session.bringWithin invoker config context mode depth d s
                r.2.noteDependency i.entity.name r.1) s) := by
            induction dependencies generalizing s with
            | nil => exact hs
            | cons d dependencies ihd => exact ihd (h.noteDependency _ _ _ (ih d hs))
          have hbefore := h.callAll (h.enter s i.name hs) (i.entity.callsBefore context i.name mode)
          have hbetween := hdependencies (mode.order.arrange i.entity.dependencies) hbefore
          exact h.leave _ i mode (h.callAll hbetween (i.entity.callsAfter context i.name mode))

end Kept

end Session

/-! ### Trees, lists and stores -/

/-- A tree that the calls lead to, carried out in any order and any number of times. -/
inductive FileTree.LedTo (invoker : Invoker World) (calls : List Call) (t : FileTree) :
    FileTree → Prop
  | start : LedTo invoker calls t t
  | call {c : Call} {w : World} (asked : c ∈ calls) (led : LedTo invoker calls t w.tree) :
      LedTo invoker calls t (invoker c w).world.tree

theorem FileTree.LedTo.mono {invoker : Invoker World} {calls more : List Call} {t u : FileTree}
    (h : LedTo invoker calls t u) (hmore : calls ⊆ more) : LedTo invoker more t u := by
  induction h with
  | start => exact .start
  | call asked _ ih => exact .call (hmore asked) ih

/-- Only a list that is not defined keeps targets from being selected. -/
theorem Config.select_eq_error {config : Config} {targets : List String} {list? : Option String}
    {name : String} : config.select targets list? = .error name ↔
      list? = some name ∧ config.allowList? name = none := by
  cases list? with
  | none => simp [select]
  | some asked =>
      cases hlist : config.allowList? asked with
      | none =>
          simp only [select, hlist, Except.error.injEq, Option.some.injEq]
          exact ⟨fun h => ⟨h, h ▸ hlist⟩, fun h => h.1⟩
      | some list =>
          simp only [select, hlist, reduceCtorEq, Option.some.injEq, false_iff, not_and]
          rintro rfl
          simp [hlist]

theorem Store.loaded_of_load {store : Store} {tree : FileTree} {path : String}
    (h : Store.load tree path = .ok store) :
    store.path = path ∧ store.loaded = store.entries := by
  rw [load] at h
  split at h
  · cases h
    exact ⟨rfl, rfl⟩
  · cases h
    exact ⟨rfl, rfl⟩
  · cases h

namespace Request

variable {r : Request} {invoker : Invoker World} {config : Config} {mode : Mode}
  {selection : Selection} {store : Store} {w : World} {files : TempFiles}

/-! ### The session -/

/-- The session in which the targets are worked on. -/
def session (invoker : Invoker World) (r : Request) (config : Config) (mode : Mode)
    (selection : Selection) (store : Store) (w : World) : Session World :=
  selection.targets.foldl (r.work invoker config mode)
    (Session.begin store (selection.rejected.foldl r.noteRejected w))

theorem tree_foldl_noteRejected (r : Request) (rejected : List String) (w : World) :
    (rejected.foldl r.noteRejected w).tree = w.tree := by
  induction rejected generalizing w with
  | nil => rfl
  | cons target rejected ih => exact ih _

@[simp] theorem tree_showOutcome (r : Request) (o : Outcome) (w : World) :
    (r.showOutcome o w).tree = w.tree := by
  cases o with
  | activated i logical =>
      simp only [showOutcome]
      split <;> rfl
  | deactivated i logical =>
      simp only [showOutcome]
      split <;> rfl
  | skipped d => rfl

/-- What was loaded stays known, and only the calls change files. -/
structure Tracks (invoker : Invoker World) (store : Store) (t : FileTree) (s : Session World) :
    Prop where
  path_eq : s.store.path = store.path
  loaded_eq : s.store.loaded = store.loaded
  led : t.LedTo invoker s.calls s.world.tree

theorem kept_tracks (invoker : Invoker World) (store : Store) (t : FileTree) :
    Session.Kept invoker (Tracks invoker store t) where
  call s c h := ⟨h.path_eq, h.loaded_eq,
    .call (by simp [Session.call]) (h.led.mono (by simp [Session.call]))⟩
  enter s name h := ⟨h.path_eq, h.loaded_eq, h.led⟩
  leave s i mode h := by
    have hpath : (i.settle mode s.store).path = s.store.path := by
      cases mode <;> simp [Instance.settle, Store.insert, Store.erase, Store.remove]
    have hloaded : (i.settle mode s.store).loaded = s.store.loaded := by
      cases mode <;> simp [Instance.settle, Store.insert, Store.erase, Store.remove]
    exact ⟨hpath.trans h.path_eq, hloaded.trans h.loaded_eq, h.led⟩
  noteDependency s group outcome h := ⟨h.path_eq, h.loaded_eq, h.led⟩

theorem tracks_work {t : FileTree} {s : Session World} (h : Tracks invoker store t s)
    (target : String) : Tracks invoker store t (r.work invoker config mode s target) := by
  have hbring := (kept_tracks invoker store t).bringWithin config r.context mode config.depth target h
  exact ⟨hbring.path_eq, hbring.loaded_eq, by simpa [work, Session.bring] using hbring.led⟩

theorem tracks_session (invoker : Invoker World) (r : Request) (config : Config) (mode : Mode)
    (selection : Selection) (store : Store) (w : World) :
    Tracks invoker store w.tree (r.session invoker config mode selection store w) := by
  have hfold (targets : List String) {s : Session World} (h : Tracks invoker store w.tree s) :
      Tracks invoker store w.tree (targets.foldl (r.work invoker config mode) s) := by
    induction targets generalizing s with
    | nil => exact h
    | cons target targets ih => exact ih (tracks_work h target)
  refine hfold selection.targets ⟨rfl, rfl, ?_⟩
  simpa [Session.begin, tree_foldl_noteRejected] using FileTree.LedTo.start

/-! ### Requests that are refused -/

/-- Why a request is refused before anything is done. -/
inductive Refused (r : Request) (tree : FileTree) : Failure → Prop
  | unparsed {e : SourceError} (h : Forest.parseFile tree.library r.context.configFile = .error e) :
      Refused r tree (.badConfig r.context.configFile e)
  | uncompiled {f : Forest} {e : SourceError}
      (parsed : Forest.parseFile tree.library r.context.configFile = .ok f)
      (h : Config.compile f = .error e) : Refused r tree (.badConfig r.context.configFile e)
  | noTargets {config : Config} (read : r.readConfig tree = .ok config) (targets : r.targets = [])
      (allow : r.allow? = none) : Refused r tree .noTargets
  | unknownList {config : Config} {name : String} (read : r.readConfig tree = .ok config)
      (allow : r.allow? = some name) (h : config.allowList? name = none) :
      Refused r tree (.unknownList name)
  | unreadable {config : Config} {selection : Selection} {e : SystemError}
      (read : r.readConfig tree = .ok config) (selected : r.workTargets config = .ok selection)
      (h : tree.readText r.context.stateFile = .error e) (present : e ≠ .notFound) :
      Refused r tree (.badStore (.unreadable r.context.stateFile e))

theorem refused_of_readConfig {tree : FileTree} {f : Failure} (h : r.readConfig tree = .error f) :
    Refused r tree f := by
  obtain ⟨e, he, rfl⟩ := mapError_eq_error.1 h
  rcases bind_eq_error.1 he with hparse | ⟨forest, hparse, hcompile⟩
  · exact .unparsed hparse
  · exact .uncompiled hparse hcompile

theorem refused_of_workTargets {tree : FileTree} {f : Failure} (hread : r.readConfig tree = .ok config)
    (h : r.workTargets config = .error f) : Refused r tree f := by
  rw [workTargets] at h
  split at h
  next hnone =>
    cases h
    obtain ⟨htargets, hallow⟩ : r.targets = [] ∧ r.allow? = none := by simpa using hnone
    exact .noTargets hread htargets hallow
  · obtain ⟨name, hselect, rfl⟩ := mapError_eq_error.1 h
    obtain ⟨hallow, hlist⟩ := Config.select_eq_error.1 hselect
    exact .unknownList hread hallow hlist

theorem refused_of_load {tree : FileTree} {e : StoreError} (hread : r.readConfig tree = .ok config)
    (hselected : r.workTargets config = .ok selection)
    (h : Store.load tree r.context.stateFile = .error e) : Refused r tree (.badStore e) := by
  rw [Store.load] at h
  split at h
  · cases h
  · cases h
  next cause hpresent htext =>
    cases h
    exact .unreadable hread hselected htext fun hcause => hpresent hcause

theorem bring_of_refused (invoker : Invoker World) (mode : Mode) (files : TempFiles) {f : Failure}
    (h : Refused r w.tree f) :
    ∃ log w', r.bring invoker mode w files = .failed f log w' ∧ w'.tree = w.tree := by
  have hconfig {e : SourceError}
      (he : (Forest.parseFile w.tree.library r.context.configFile >>= Config.compile) = .error e) :
      r.readConfig w.tree = .error (.badConfig r.context.configFile e) :=
    mapError_eq_error.2 ⟨e, he, rfl⟩
  cases h with
  | unparsed h =>
      exact ⟨[], w, by simp only [bring, hconfig (bind_eq_error.2 (.inl h))], rfl⟩
  | uncompiled parsed h =>
      exact ⟨[], w, by simp only [bring, hconfig (bind_eq_error.2 (.inr ⟨_, parsed, h⟩))], rfl⟩
  | @noTargets config read targets allow =>
      have hwork : r.workTargets config = .error .noTargets := by simp [workTargets, targets, allow]
      exact ⟨[], w, by simp only [bring, read, hwork], rfl⟩
  | @unknownList config name read allow h =>
      have hselect : r.select config = .error (.unknownList name) :=
        mapError_eq_error.2 ⟨name, Config.select_eq_error.2 ⟨allow, h⟩, rfl⟩
      have hwork : r.workTargets config = .error (.unknownList name) := by
        rw [workTargets, if_neg (by simp [allow]), hselect]
      exact ⟨[], w, by simp only [bring, read, hwork], rfl⟩
  | @unreadable config selection e read selected h present =>
      have htree := tree_foldl_noteRejected r selection.rejected w
      have hload : Store.load w.tree r.context.stateFile =
          .error (.unreadable r.context.stateFile e) := by
        rw [Store.load, h]
        split
        next heq => cases heq
        next heq => exact absurd (Except.error.inj heq) present
        next heq => rw [Except.error.inj heq]
      exact ⟨selection.rejected.map rejectedLog, selection.rejected.foldl r.noteRejected w,
        by simp only [bring, read, selected, htree, hload], htree⟩

/-! ### Requests that are carried out -/

/-- What is known of a request before its targets are worked on. -/
structure Loaded (r : Request) (tree : FileTree) (config : Config) (selection : Selection)
    (store : Store) : Prop where
  read : r.readConfig tree = .ok config
  selected : r.workTargets config = .ok selection
  stored : Store.load tree r.context.stateFile = .ok store

theorem refused_or_loaded (r : Request) (tree : FileTree) :
    (∃ f, Refused r tree f) ∨ ∃ config selection store, Loaded r tree config selection store := by
  cases hread : r.readConfig tree with
  | error f => exact .inl ⟨f, refused_of_readConfig hread⟩
  | ok config =>
      cases hselected : r.workTargets config with
      | error f => exact .inl ⟨f, refused_of_workTargets hread hselected⟩
      | ok selection =>
          cases hstored : Store.load tree r.context.stateFile with
          | error e => exact .inl ⟨_, refused_of_load hread hselected hstored⟩
          | ok store => exact .inr ⟨config, selection, store, hread, hselected, hstored⟩

/-- The session of a run at its end, and how the run ends after it: there is nothing to write,
the store cannot be written, or it is. -/
structure Ends (invoker : Invoker World) (r : Request) (w : World) (files : TempFiles)
    (store : Store) (s : Session World) (c : Conclusion) : Prop where
  path_eq : s.store.path = r.context.stateFile
  calls_eq : c.calls = s.calls
  led : w.tree.LedTo invoker c.calls s.world.tree
  idle : r.context.noAct = true ∨ s.store.entries = store.entries →
    c.failure = none ∧ c.world = s.world
  changed : r.context.noAct = false → s.store.entries ≠ store.entries →
    ∃ e?, s.store.persist s.world.tree files = (c.world.tree, e?) ∧ c.failure = e?.map .badStore

theorem Loaded.ends (h : Loaded r w.tree config selection store) (invoker : Invoker World)
    (mode : Mode) (files : TempFiles) :
    Ends invoker r w files store (r.session invoker config mode selection store w)
      (r.bring invoker mode w files) := by
  have htree := tree_foldl_noteRejected r selection.rejected w
  obtain ⟨hpath, hloaded⟩ := Store.loaded_of_load h.stored
  have htracks := tracks_session invoker r config mode selection store w
  have hbring : r.bring invoker mode w files =
      let s := r.session invoker config mode selection store w
      ⟨(r.keep s.store s.world files).1, selection.rejected.map rejectedLog ++ s.log, s.calls,
        (r.keep s.store s.world files).2⟩ := by
    simp only [bring, h.read, h.selected, htree, h.stored]
    rfl
  generalize r.session invoker config mode selection store w = s at htracks hbring ⊢
  rw [hbring]
  have hsaving : s.store.needsSaving = (s.store.entries != store.entries) := by
    rw [Store.needsSaving_eq, htracks.loaded_eq, hloaded]
  refine ⟨htracks.path_eq.trans hpath, rfl, htracks.led, fun hidle => ?_, fun hact hne => ?_⟩
  · have hkeep : r.keep s.store s.world files = (none, s.world) := by
      rw [keep, if_pos]
      rcases hidle with hnoAct | heq
      · simp [hnoAct]
      · simp [hsaving, heq]
    simp only [hkeep, and_self]
  · refine ⟨(s.store.persist s.world.tree files).2, ?_⟩
    have hkeep : r.keep s.store s.world files =
        ((s.store.persist s.world.tree files).2.map .badStore,
          { s.world with tree := (s.store.persist s.world.tree files).1 }) := by
      rw [keep, if_neg]
      simp [hsaving, hact, hne]
    simp only [hkeep, and_self]

namespace Ends

variable {s : Session World} {c : Conclusion}

theorem exists_unwritable (lawful : files.Lawful) (h : Ends invoker r w files store s c)
    {f : Failure} (hf : c.failure = some f) : r.context.noAct = false ∧
      (∃ cause, f = .badStore (.unwritable r.context.stateFile cause)) ∧
      c.world.tree = (s.world.tree.withDirectories (Store.folderOf r.context.stateFile)).1 := by
  have hbusy : ¬(r.context.noAct = true ∨ s.store.entries = store.entries) := by
    intro hidle
    rw [(h.idle hidle).1] at hf
    cases hf
  obtain ⟨hact, hne⟩ : r.context.noAct = false ∧ s.store.entries ≠ store.entries := by
    simpa using hbusy
  obtain ⟨e?, hpersist, hfailure⟩ := h.changed hact hne
  cases e? with
  | none =>
      rw [hfailure] at hf
      cases hf
  | some e =>
      obtain ⟨htree, cause, rfl⟩ := Store.persist_eq_error lawful hpersist
      rw [Store.folder, h.path_eq] at htree
      rw [h.path_eq] at hfailure
      exact ⟨hact, ⟨cause, Option.some.inj (hf.symm.trans hfailure)⟩, htree⟩

/-- A run without success makes directories at most, and one that is not to act not even these. -/
theorem tree_of_unwritten (lawful : files.Lawful) (h : Ends invoker r w files store s c)
    (hc : c.failure ≠ none ∨ r.context.noAct = true) :
    s.world.tree.SameFiles c.world.tree ∧
      (r.context.noAct = true ∨
          s.world.tree.isDirectory (Store.folderOf r.context.stateFile) = true →
        c.world.tree = s.world.tree) := by
  cases hf : c.failure with
  | none =>
      rw [(h.idle (.inl (hc.resolve_left (not_not.2 hf)))).2]
      exact ⟨.refl _, fun _ => rfl⟩
  | some f =>
      obtain ⟨hact, -, htree⟩ := h.exists_unwritable lawful hf
      rw [htree]
      refine ⟨FileTree.sameFiles_withDirectories _ _, fun hthere => ?_⟩
      have hfolder := hthere.resolve_left (by simp [hact])
      rw [FileTree.withDirectories_of_isDirectory hfolder]

theorem exists_written (lawful : files.Lawful) (h : Ends invoker r w files store s c)
    (hf : c.failure = none) (hact : r.context.noAct = false)
    (hne : s.store.entries ≠ store.entries) :
    ∃ made p, s.world.tree.makeDirectories s.store.folder = .ok made ∧
      made.Takes r.context.stateFile p ∧
      c.world.tree =
        made.put p (.file (Text.encode s.store.entries.render) TempFiles.privateMode) := by
  obtain ⟨e?, hpersist, hfailure⟩ := h.changed hact hne
  obtain rfl : e? = none := Option.map_eq_none_iff.1 (hfailure.symm.trans hf)
  obtain ⟨made, p, hmade, htakes, htree⟩ := Store.exists_of_persist lawful hpersist
  exact ⟨made, p, hmade, h.path_eq ▸ htakes, htree⟩

end Ends

/-- A run that fails or is not to act leaves every file and link as the hooks of the run left it,
whichever of the steps of the temporary file fails, and one that is refused asks nothing of hooks.
What was read at the path of the store still is. Only where directories had to be made may the path
lead to more than before, and then to a file that was there. A run that acts and succeeds writes
the store exactly when its entries are others than were loaded. The store is then what is read at
its path, unless the path led through the very link that the file took the place of. -/
theorem bring_store (invoker : Invoker World) (r : Request) (mode : Mode) (w : World)
    (files : TempFiles) (lawful : files.Lawful)
    (untouched : ∀ t, w.tree.LedTo invoker (r.bring invoker mode w files).calls t →
      t.readBytes r.context.stateFile = w.tree.readBytes r.context.stateFile) :
    let c := r.bring invoker mode w files
    let path := r.context.stateFile
    (∀ f, Refused r w.tree f → c.failure = some f ∧ c.calls = [] ∧ c.world.tree = w.tree) ∧
      (∀ f, c.failure = some f → Refused r w.tree f ∨
        r.context.noAct = false ∧ ∃ cause, f = .badStore (.unwritable path cause)) ∧
      (c.failure ≠ none ∨ r.context.noAct = true → ∃ t, w.tree.LedTo invoker c.calls t ∧
        t.SameFiles c.world.tree ∧
        (∀ bytes, w.tree.readBytes path = .ok bytes → c.world.tree.readBytes path = .ok bytes) ∧
        (r.context.noAct = true ∨ t.isDirectory (Store.folderOf path) = true →
          c.world.tree = t ∧ c.world.tree.readBytes path = w.tree.readBytes path)) ∧
      (c.failure = none → r.context.noAct = false → ∃ config selection store,
        Loaded r w.tree config selection store ∧
          let s := r.session invoker config mode selection store w
          let text := Text.encode s.store.entries.render
          (s.store.entries = store.entries → c.world.tree = s.world.tree ∧
            c.world.tree.readBytes path = w.tree.readBytes path) ∧
          (s.store.entries ≠ store.entries → ∃ made p,
            s.world.tree.makeDirectories s.store.folder = .ok made ∧ made.Takes path p ∧
              c.world.tree = made.put p (.file text TempFiles.privateMode) ∧
              ((∀ target, made.find? p ≠ some (.link target)) ∨
                  c.world.tree.locate path false = .ok (.present p) →
                c.world.tree.readBytes path = .ok text))) := by
  intro c path
  have hrefused (f : Failure) (hf : Refused r w.tree f) :
      c.failure = some f ∧ c.calls = [] ∧ c.world.tree = w.tree := by
    obtain ⟨log, w', hbring, htree⟩ := bring_of_refused invoker mode files hf
    simp only [c, hbring]
    exact ⟨rfl, rfl, htree⟩
  refine ⟨hrefused, ?_⟩
  rcases refused_or_loaded r w.tree with ⟨f, hf⟩ | ⟨config, selection, store, hloaded⟩
  · obtain ⟨hfailure, -, htree⟩ := hrefused f hf
    refine ⟨fun g hg => .inl ?_, fun _ => ?_, fun hnone => ?_⟩
    · cases hfailure.symm.trans hg
      exact hf
    · rw [htree]
      exact ⟨w.tree, .start, .refl _, fun _ hread => hread, fun _ => ⟨rfl, rfl⟩⟩
    · rw [hfailure] at hnone
      cases hnone
  have hends : Ends invoker r w files store _ c := hloaded.ends invoker mode files
  have hread := untouched _ hends.led
  refine ⟨fun f hf => .inr ?_, fun hc => ?_, fun hdone hact =>
    ⟨config, selection, store, hloaded, fun heq => ?_, fun hne => ?_⟩⟩
  · obtain ⟨hact, hcause, -⟩ := hends.exists_unwritable lawful hf
    exact ⟨hact, hcause⟩
  · obtain ⟨hsame, hthere⟩ := hends.tree_of_unwritten lawful hc
    refine ⟨_, hends.led, hsame, fun bytes hbytes => ?_, fun hcase => ?_⟩
    · exact FileTree.readBytes_of_extends hsame.toExtends (hread.trans hbytes)
    · exact ⟨hthere hcase, by rw [hthere hcase, hread]⟩
  · obtain ⟨-, hworld⟩ := hends.idle (.inr heq)
    exact ⟨congrArg World.tree hworld, by rw [hworld, hread]⟩
  · obtain ⟨made, p, hmade, htakes, htree⟩ := hends.exists_written lawful hdone hact hne
    refine ⟨made, p, hmade, htakes, htree, fun hlink => ?_⟩
    rw [htree] at hlink ⊢
    exact FileTree.readBytes_put htakes (by decide) hlink

/-- An interface with a command. -/
def wiredText : String := "iface eth0\n  up link\n"

def wiredWorld : World :=
  .ofTree ⟨[(["interfaces"], .file wiredText.toUTF8.toList 0o644),
    (["state"], .file (Text.encode "lo=lo\n") 0o600)], []⟩

def wiredConfig : Config where
  entities := Catalog.ofList [
    ("eth0", .interface ⟨"eth0", none, [], [], Commands.empty.add .up ["link"],
      ⟨"interfaces", 1⟩⟩)]
  mappings := .empty
  allowLists := .empty

def wiredRequest : Request :=
  ⟨{ configFile := "interfaces", stateFile := "state" }, {}, ["eth0"], none⟩

/-- The tree with a file that each call makes. -/
def noted (t : FileTree) : FileTree := t.put ["log"] (.file [] 0o644)

def noting : Invoker World := fun _ w => ⟨none, [], { w with tree := noted w.tree }⟩

theorem readConfig_wired : wiredRequest.readConfig wiredWorld.tree = .ok wiredConfig := by
  have hroot : wiredWorld.tree.resolve "interfaces" = .ok ["interfaces"] :=
    FileTree.resolve_of_directories (by simp [FileTree.refusal?]; decide) (by decide)
      (by decide +kernel) (by decide) (by decide) rfl (by simp)
  have htext : wiredWorld.tree.readText "interfaces" = .ok wiredText := by
    simp only [FileTree.readText, FileTree.readBytes, hroot]
    decide +kernel
  have hparse : Forest.parseFile wiredWorld.tree.library "interfaces" = .ok [
      .node ⟨0, "iface eth0", ⟨"interfaces", 1⟩⟩ [.node ⟨1, "up link", ⟨"interfaces", 2⟩⟩ []]] := by
    have hplain : ∀ line ∈ logicalLines wiredText, line.keyword ≠ "include" := by decide
    have hlines : Memory.empty.readOn "interfaces" 0 .empty (logicalLines wiredText) =
        .ok ([⟨0, "iface eth0", ⟨"interfaces", 1⟩⟩, ⟨1, "up link", ⟨"interfaces", 2⟩⟩],
          ⟨[2, 0]⟩, .empty) := by decide +kernel
    rw [Forest.parseFile_eq_parseText htext, Forest.parseText_of_readOn hplain hlines]
    rfl
  rw [readConfig, mapError_eq_ok]
  exact bind_eq_ok.2 ⟨_, hparse, rfl⟩

theorem ledTo_noting {calls : List Call} {t : FileTree} (h : wiredWorld.tree.LedTo noting calls t) :
    t = wiredWorld.tree ∨ t = noted wiredWorld.tree := by
  induction h with
  | start => exact .inl rfl
  | @call c w asked led ih =>
      right
      change noted w.tree = noted wiredWorld.tree
      rcases ih with ih | ih <;> rw [ih]
      rfl

/-- A disk that has room for the first four octets of a text. -/
def onFullDisk : TempFiles :=
  { TempFiles.plain with
    write := fun t p bytes =>
      (t.writeAt p 0 (bytes.take 4), some (.other "No space left on device (os error 28)")) }

theorem lawful_onFullDisk : onFullDisk.Lawful :=
  { TempFiles.lawful_plain with
    write := fun bytes h =>
      ⟨4, by simp [onFullDisk, FileTree.writeAt, h, FileTree.overwrite], by simp [onFullDisk]⟩ }

theorem find?_state {t : FileTree} (ht : t = wiredWorld.tree ∨ t = noted wiredWorld.tree) :
    t.find? ["state"] = some (.file (Text.encode "lo=lo\n") 0o600) := by
  rcases ht with rfl | rfl <;> rfl

theorem locate_state {t : FileTree} {bytes : Bytes} {mode : Nat} (ht : t.workplace = [])
    (hstate : t.find? ["state"] = some (.file bytes mode)) (follow : Bool) :
    t.locate "state" follow = .ok (.present ["state"]) := by
  have hnames : Path.names "state" = ["state"] := rfl
  have hrefusal : FileTree.refusal? "state" = none := by simp [FileTree.refusal?]; decide
  have hstart : t.start "state" = [] := by
    rw [FileTree.start, ht]
    decide
  rw [FileTree.locate_eq_ok, hnames, hstart]
  exact ⟨hrefusal, .enter rfl (by decide) hstate (by simp) .here⟩

theorem readBytes_state {t : FileTree} (ht : t = wiredWorld.tree ∨ t = noted wiredWorld.tree) :
    t.readBytes "state" = .ok (Text.encode "lo=lo\n") := by
  have hplace : t.workplace = [] := by rcases ht with rfl | rfl <;> rfl
  exact FileTree.readBytes_eq_ok_iff.2
    ⟨_, _, locate_state hplace (find?_state ht) true, find?_state ht, .file (by decide)⟩

/-- The directory of the path is there. -/
theorem isDirectory_noted : (noted wiredWorld.tree).isDirectory "." = true := by
  have hnames : Path.names "." = ["."] := rfl
  have hrefusal : FileTree.refusal? "." = none := by simp [FileTree.refusal?]; decide
  have hresolve : (noted wiredWorld.tree).resolve "." = .ok [] := by
    rw [FileTree.resolve_eq_ok, FileTree.locate_eq_ok, hnames]
    exact ⟨hrefusal, .stay rfl (.inr rfl) .here⟩
  rw [FileTree.isDirectory, FileTree.entryAt, hresolve]
  rfl

/-- No temporary file is in the way of the first. -/
theorem create_noted : TempFiles.plain.create (noted wiredWorld.tree) "." =
    .ok ((noted wiredWorld.tree).put [".tmp0"] (.file [] TempFiles.privateMode), [".tmp0"]) := by
  have htried : TempFiles.names ((noted wiredWorld.tree).entries.length + 1) =
      [".tmp0", ".tmp1", ".tmp2", ".tmp3"] := rfl
  have hpath : Path.join "." ".tmp0" = "./.tmp0" := rfl
  have hnames : Path.names "./.tmp0" = [".", ".tmp0"] := rfl
  have hrefusal : FileTree.refusal? "./.tmp0" = none := by simp [FileTree.refusal?]; decide
  have hlocate : (noted wiredWorld.tree).locate "./.tmp0" false =
      .ok (.absent [".tmp0"] false) := by
    rw [FileTree.locate_eq_ok, hnames]
    exact ⟨hrefusal, .stay rfl (.inr rfl) (.absent rfl (by decide) (by decide) (by simp))⟩
  change TempFiles.createAs _ _ (TempFiles.names _) = _
  rw [htried, TempFiles.createAs, hpath, hlocate]

theorem loaded_wired : Loaded wiredRequest wiredWorld.tree wiredConfig ⟨["eth0"], []⟩
    (.ofEntries "state" (Catalog.ofList [("lo", "lo")])) where
  read := readConfig_wired
  selected := rfl
  stored := by
    have hdecode : Text.decode? (Text.encode "lo=lo\n") = some "lo=lo\n".toList := by decide +kernel
    have hparse : Entries.parse (String.ofList "lo=lo\n".toList) =
        Catalog.ofList [("lo", "lo")] := rfl
    change Store.load wiredWorld.tree "state" = _
    simp only [Store.load, FileTree.readText, readBytes_state (.inl rfl), hdecode, hparse]

def wiredSession : Session World :=
  wiredRequest.session noting wiredConfig .start ⟨["eth0"], []⟩
    (.ofEntries "state" (Catalog.ofList [("lo", "lo")])) wiredWorld

theorem entries_wiredSession :
    wiredSession.store.entries = Catalog.ofList [("eth0", "eth0"), ("lo", "lo")] := rfl

theorem entries_ne_wiredSession : wiredSession.store.entries ≠
    (Store.ofEntries "state" (Catalog.ofList [("lo", "lo")])).entries := by
  rw [entries_wiredSession]
  decide

theorem tree_wiredSession : wiredSession.world.tree = noted wiredWorld.tree := rfl

theorem folder_wiredSession : wiredSession.store.folder = "." := rfl

theorem install_plain_noted (bytes : Bytes) :
    (TempFiles.plain.install (noted wiredWorld.tree) "." "state" bytes).2 = none := by
  have hstate (e : Entry) : ((noted wiredWorld.tree).put [".tmp0"] e).find? ["state"] =
      some (.file (Text.encode "lo=lo\n") 0o600) := by
    rw [FileTree.find?_put_of_ne (by decide), find?_state (.inr rfl)]
  have hwrite : TempFiles.plain.write ((noted wiredWorld.tree).put [".tmp0"]
      (.file [] TempFiles.privateMode)) [".tmp0"] bytes =
        ((noted wiredWorld.tree).put [".tmp0"] (.file bytes TempFiles.privateMode), none) := by
    simp [TempFiles.plain, FileTree.writeAt, FileTree.find?_put_self, FileTree.overwrite]
  have hlast : FileTree.endsInStep "state" = false := rfl
  have hpersist : TempFiles.plain.persist = FileTree.rename := rfl
  obtain ⟨u, hrename⟩ : ∃ u, ((noted wiredWorld.tree).put [".tmp0"]
      (.file bytes TempFiles.privateMode)).rename [".tmp0"] "state" = .ok u := by
    rw [FileTree.rename, FileTree.find?_put_self (by decide)]
    simp [hlast, hstate, locate_state rfl (hstate _)]
  have hflush (t : FileTree) (p : Place) : TempFiles.plain.flush t p = none := rfl
  simp only [TempFiles.install, create_noted, hwrite, hflush, hpersist, hrename]

theorem install_onFullDisk_noted (bytes : Bytes) :
    (onFullDisk.install (noted wiredWorld.tree) "." "state" bytes).2 =
      some (.other "No space left on device (os error 28)") := by
  have hcreate : onFullDisk.create (noted wiredWorld.tree) "." = _ := create_noted
  have hwrite (t : FileTree) (p : Place) : onFullDisk.write t p bytes =
      (t.writeAt p 0 (bytes.take 4), some (.other "No space left on device (os error 28)")) := rfl
  simp only [TempFiles.install, hcreate, hwrite]

/-- What a run ends with, if the text of its store is put in place or not. -/
theorem ends_wired (files : TempFiles) (e? : Option SystemError)
    (h : ∀ bytes, (files.install (noted wiredWorld.tree) "." "state" bytes).2 = e?) :
    let c := wiredRequest.bring noting .start wiredWorld files
    c.calls.length = 1 ∧ c.failure = e?.map fun e => .badStore (.unwritable "state" e) := by
  intro c
  have hends : Ends noting wiredRequest wiredWorld files _ wiredSession c :=
    loaded_wired.ends noting .start files
  obtain ⟨saved?, hpersist, hfailure⟩ := hends.changed rfl entries_ne_wiredSession
  have hpath : wiredSession.store.path = "state" := rfl
  have hsaved := congrArg Prod.snd hpersist
  rw [Store.persist, tree_wiredSession, folder_wiredSession, hpath,
    FileTree.withDirectories_of_isDirectory isDirectory_noted] at hsaved
  have hsaved : e?.map (StoreError.unwritable "state") = saved? := by
    rw [← h]
    exact hsaved
  refine ⟨by rw [hends.calls_eq]; rfl, hfailure.trans ?_⟩
  rw [← hsaved, Option.map_map]
  rfl

/-- On a full disk the run fails after its call, and the store is what it was before. -/
theorem bring_store_wired :
    let c := wiredRequest.bring noting .start wiredWorld
    let full := wiredRequest.bring noting .start wiredWorld onFullDisk
    (c.failure = none ∧ c.calls.length = 1 ∧
      c.world.tree.readBytes "state" = .ok (Text.encode "eth0=eth0\nlo=lo\n")) ∧
    (full.failure = some (.badStore (.unwritable "state"
        (.other "No space left on device (os error 28)"))) ∧ full.calls.length = 1 ∧
      full.world.tree.readBytes "state" = .ok (Text.encode "lo=lo\n")) := by
  intro c full
  have huntouched (calls : List Call) (t : FileTree) (ht : wiredWorld.tree.LedTo noting calls t) :
      t.readBytes "state" = wiredWorld.tree.readBytes "state" := by
    rw [readBytes_state (ledTo_noting ht), readBytes_state (.inl rfl)]
  obtain ⟨hcalls, hdone⟩ := ends_wired .plain none install_plain_noted
  obtain ⟨hcallsFull, hfailed⟩ := ends_wired onFullDisk (some _) install_onFullDisk_noted
  refine ⟨⟨hdone, hcalls, ?_⟩, hfailed, hcallsFull, ?_⟩
  · obtain ⟨-, -, -, hwritten⟩ := bring_store noting wiredRequest .start wiredWorld .plain
      TempFiles.lawful_plain (huntouched _)
    obtain ⟨config, selection, store, hloaded, -, hchanged⟩ := hwritten hdone rfl
    obtain rfl := Except.ok.inj (loaded_wired.read.symm.trans hloaded.read)
    obtain rfl := Except.ok.inj (loaded_wired.selected.symm.trans hloaded.selected)
    obtain rfl := Except.ok.inj (loaded_wired.stored.symm.trans hloaded.stored)
    obtain ⟨made, p, hmade, htakes, -, hcontent⟩ := hchanged entries_ne_wiredSession
    change wiredSession.world.tree.makeDirectories wiredSession.store.folder = .ok made at hmade
    rw [tree_wiredSession, folder_wiredSession, FileTree.makeDirectories_eq_ok,
      FileTree.withDirectories_of_isDirectory isDirectory_noted] at hmade
    obtain rfl := congrArg Prod.fst hmade
    -- The old store stands at the place, which is a file and no link.
    have hold := locate_state rfl (find?_state (.inr rfl)) false
    obtain rfl : p = ["state"] := by
      rcases htakes with h | ⟨h, -⟩
      · cases hold.symm.trans h
      · cases hold.symm.trans h
        rfl
    have hrender : wiredSession.store.entries.render = "eth0=eth0\nlo=lo\n" := by
      rw [entries_wiredSession]
      rfl
    rw [← hrender]
    exact hcontent (.inl (by simp [find?_state (.inr rfl)]))
  · obtain ⟨-, -, hunwritten, -⟩ := bring_store noting wiredRequest .start wiredWorld onFullDisk
      lawful_onFullDisk (huntouched _)
    obtain ⟨t, -, -, hkept, -⟩ := hunwritten (.inl (by simp [hfailed]))
    exact hkept _ (readBytes_state (.inl rfl))

end Request

end NetHooks
