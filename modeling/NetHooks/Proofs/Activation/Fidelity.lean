import NetHooks.Proofs.Activation.Depth
import NetHooks.Proofs.Store.Written
import NetHooks.Config.Compile

/-!
# What is recorded is read back

A run begins with the entries of a text and brings targets up and down. Neither side of a
recorded entry is ever empty, and no recorded name has an equals sign. So the entries are
read back from their written form exactly when all recorded names are plain; targets are not
refused for being otherwise.
-/
namespace NetHooks

namespace Target

/-- The parts of the target are plain. -/
structure Plain (target : String) : Prop where
  name : Text.Plain (split target).instanceName
  logical : ∀ l ∈ (split target).logical?, Text.Plain l

theorem toList_instanceName_split (target : String) :
    (split target).instanceName.toList = target.toList.takeWhile (· != '=') := by
  have hcut := List.takeWhile_append_dropWhile (p := (· != '=')) (l := target.toList)
  simp only [split]
  split
  next hdrop => simpa [hdrop] using hcut.symm
  next => simp

theorem not_mem_instanceName_split (target : String) :
    '=' ∉ (split target).instanceName.toList := by
  rw [toList_instanceName_split]
  intro hm
  simpa using List.mem_takeWhile_imp hm

theorem eq_of_resolve {t : Target} {config : Config} {logical : String}
    (h : t.resolve config = .ok logical) :
    t.logical? = some logical ∨ t.logical? = none ∧ logical = t.instanceName := by
  simp only [resolve] at h
  split at h
  next l hl => exact .inl (hl.trans (congrArg some (Except.ok.inj h)))
  next hl =>
    split at h
    · exact .inr ⟨hl, (Except.ok.inj h).symm⟩
    · simp [Mapping.resolve?] at h

end Target

namespace Instance

variable {i : Instance} {config : Config} {target : String}

theorem AskedBy.sided (h : i.AskedBy config .start target) : Entries.Sided (i.name, i.logical) := by
  obtain ⟨t, ht, hname, hresolve⟩ := h
  obtain rfl := Target.eq_split_of_check ht
  have hparts : (Target.split target).instanceName ≠ "" ∧
      (Target.split target).logical? ≠ some "" := by
    simp only [Target.check] at ht
    split at ht
    · cases ht
    next h => exact not_or.1 h
  refine ⟨hname ▸ hparts.1, hname ▸ Target.not_mem_instanceName_split target, ?_⟩
  rintro (hempty : i.logical = "")
  rcases Target.eq_of_resolve (hresolve rfl) with hl | ⟨-, hl⟩
  · exact hparts.2 (hempty ▸ hl)
  · exact hparts.1 (hl ▸ hempty)

theorem AskedBy.plain (h : i.AskedBy config .start target) (hplain : Target.Plain target) :
    Text.Plain i.name ∧ Text.Plain i.logical := by
  obtain ⟨t, ht, hname, hresolve⟩ := h
  obtain rfl := Target.eq_split_of_check ht
  refine ⟨hname ▸ hplain.name, ?_⟩
  rcases Target.eq_of_resolve (hresolve rfl) with hl | ⟨-, hl⟩
  · exact hplain.logical _ hl
  · exact hl ▸ hplain.name

end Instance

/-- What brings a target up in a run: a step, or a dependency of a definition. -/
def Config.Requests (config : Config) (steps : List (Mode × String)) (target : String) : Prop :=
  (.start, target) ∈ steps ∨ ∃ name, config.DependsOn name target

namespace Session

variable {σ : Type} {invoker : Invoker σ} {config : Config} {context : Context}

/-- Bring targets up and down in turn. -/
def run (invoker : Invoker σ) (config : Config) (context : Context)
    (steps : List (Mode × String)) (s : Session σ) : Session σ :=
  steps.foldl (fun s step => (s.bring invoker config context step.1 step.2).2) s

/-- What is true of all entries and of whatever is asked for stays true when a target is
brought up or down. -/
theorem get?_bring {P : String → String → Prop} {mode : Mode} {target : String} {s : Session σ}
    (hasked : ∀ (t : String) (i : Instance), mode = .start →
      (t = target ∨ ∃ n, config.DependsOn n t) → i.AskedBy config .start t → P i.name i.logical)
    (hs : ∀ name logical, s.store.get? name = some logical → P name logical)
    (name logical : String)
    (h : (s.bring invoker config context mode target).2.store.get? name = some logical) :
    P name logical := by
  obtain ⟨trace, hwalks⟩ := exists_walks_bring invoker config context mode target s
  by_cases hsame : (s.bring invoker config context mode target).2.store.get? name =
      s.store.get? name
  · exact hs name logical (hsame ▸ h)
  · obtain ⟨i, rfl, hi⟩ := hwalks.walk.exists_ended hsame
    obtain ⟨-, hchange⟩ := hwalks.walk.changes_of_ended hi
    obtain ⟨t, ht, hnames⟩ := hwalks.walk.exists_askedBy hi
    cases mode with
    | start =>
        obtain rfl : i.logical = logical := Option.some.inj (hchange.2.symm.trans h)
        exact hasked t i rfl (by simpa using ht) hnames
    | stop => cases hchange.2.symm.trans h

theorem get?_run {P : String → String → Prop} {steps : List (Mode × String)} {s : Session σ}
    (hasked : ∀ target (i : Instance), config.Requests steps target →
      i.AskedBy config .start target → P i.name i.logical)
    (hs : ∀ name logical, s.store.get? name = some logical → P name logical)
    (name logical : String)
    (h : (s.run invoker config context steps).store.get? name = some logical) :
    P name logical := by
  induction steps generalizing s with
  | nil => exact hs name logical h
  | cons step steps ih =>
      refine ih (fun target i ht hi => hasked target i ?_ hi) (get?_bring ?_ hs) h
      · exact ht.imp_left (List.mem_cons_of_mem _)
      · intro t i hmode ht hi
        refine hasked t i (ht.imp_left ?_) hi
        rintro rfl
        exact hmode ▸ List.mem_cons_self

/-- Entries are read back after a run exactly when the recorded names are plain; and they are
when all targets that are brought up have plain parts. -/
theorem parse_render_run (invoker : Invoker σ) (config : Config) (context : Context)
    (path text : String) (world : σ) (steps : List (Mode × String)) :
    let final := ((begin (.ofEntries path (Entries.parse text)) world).run invoker config context
      steps).store.entries
    (Entries.parse final.render = final ↔
      ∀ name logical, final.get? name = some logical → Text.Plain name ∧ Text.Plain logical) ∧
    ((∀ target, config.Requests steps target → Target.Plain target) →
      Entries.parse final.render = final) := by
  intro final
  have hloaded : ∀ name logical, (Entries.parse text).get? name = some logical →
      Entries.Writable (name, logical) := fun name logical h =>
    Entries.writable_of_mem_parse (Catalog.mem_entries_iff.2 h)
  have hsided : ∀ name logical, final.get? name = some logical →
      Entries.Sided (name, logical) :=
    get?_run (P := fun name logical => Entries.Sided (name, logical))
      (fun target i _ hi => hi.sided) fun name logical h => (hloaded name logical h).toSided
  have hexact : Entries.parse final.render = final ↔
      ∀ name logical, final.get? name = some logical → Text.Plain name ∧ Text.Plain logical := by
    rw [Entries.parse_render_iff]
    constructor
    · intro h name logical hget
      have hwritable := h (name, logical) (Catalog.mem_entries_iff.2 hget)
      exact ⟨hwritable.name_plain, hwritable.value_plain⟩
    · rintro h ⟨name, logical⟩ he
      have hget := Catalog.mem_entries_iff.1 he
      exact ⟨hsided name logical hget, (h name logical hget).1, (h name logical hget).2⟩
  refine ⟨hexact, fun hplain => hexact.2 ?_⟩
  exact get?_run (P := fun name logical => Text.Plain name ∧ Text.Plain logical)
    (fun target i ht hi => hi.plain (hplain target ht)) fun name logical h =>
      ⟨(hloaded name logical h).name_plain, (hloaded name logical h).value_plain⟩

/-- One interface and nothing else. -/
def soloForest : Forest := [.node ⟨0, "iface eth0", ⟨"interfaces", 1⟩⟩ []]

def soloConfig : Config where
  entities := Catalog.ofList [
    ("eth0", .interface ⟨"eth0", none, [], [], .empty, ⟨"interfaces", 1⟩⟩)]
  mappings := .empty
  allowLists := .empty

/-- A blank before the name is lost when the entry is read back. -/
theorem parse_render_run_blank :
    Config.compile soloForest = .ok soloConfig ∧
      let final := ((begin (.ofEntries "state" (Entries.parse "")) ()).run
        (fun _ w => ⟨none, [], w⟩) soloConfig {} [(.start, " eth0=eth0")]).store.entries
      final.get? " eth0" = some "eth0" ∧ Entries.parse final.render ≠ final := by
  refine ⟨by rfl, by decide, by decide⟩

end Session

end NetHooks
