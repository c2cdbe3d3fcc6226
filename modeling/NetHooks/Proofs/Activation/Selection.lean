import NetHooks.Activation.Selection
import NetHooks.Proofs.Activation.Closure
import NetHooks.Proofs.Config.Statement

/-!
# Members of allow-lists as targets

A list lets a target through by its instance, but the members that are targets when nothing is
asked for are whole words. So a member that names a definition for its instance is a target by
default, and as a request it is rejected unless its instance is a member as well.
-/
namespace NetHooks

namespace Selection

variable {list : NameSet} {targets : List String} {target : String}

theorem isMember_iff :
    isMember list target = true ↔ (Target.split target).instanceName ∈ list.names :=
  Catalog.contains_iff_mem_names

/-- The instance of every member is a member itself. -/
def HoldsInstances (list : NameSet) : Prop :=
  ∀ m ∈ list.names, (Target.split m).instanceName ∈ list.names

instance (list : NameSet) : Decidable (HoldsInstances list) :=
  inferInstanceAs (Decidable (∀ m ∈ list.names, _))

theorem holdsInstances_of_plain (h : ∀ m ∈ list.names, '=' ∉ m.toList) : HoldsInstances list := by
  intro m hm
  rw [Target.split_of_not_mem (h m hm)]
  exact hm

theorem throughList_of_ne_nil (h : targets ≠ []) : throughList list targets =
    ⟨targets.filter (isMember list), targets.filter (!isMember list ·)⟩ := by
  rw [throughList, if_neg (by simpa using h)]

/-- What is rejected was asked for, and the list does not hold its instance. -/
theorem mem_rejected_iff : target ∈ (throughList list targets).rejected ↔
    target ∈ targets ∧ (Target.split target).instanceName ∉ list.names := by
  cases targets with
  | nil => simp [throughList]
  | cons first rest =>
      rw [throughList_of_ne_nil (List.cons_ne_nil first rest), List.mem_filter, ← isMember_iff]
      simp

/-- A list with members lets nothing through exactly when it rejects all of a request. -/
theorem throughList_targets_eq_nil_iff (hlist : list.names ≠ []) :
    (throughList list targets).targets = [] ↔
      targets ≠ [] ∧ (throughList list targets).rejected = targets := by
  by_cases hnone : targets = []
  · subst hnone
    exact iff_of_false hlist fun h => h.1 rfl
  · simp only [throughList_of_ne_nil hnone, List.filter_eq_nil_iff, List.filter_eq_self]
    simp [hnone]

/-- All members are let through exactly when the list holds their instances. -/
theorem throughList_names_iff :
    throughList list list.names = ⟨list.names, []⟩ ↔ HoldsInstances list := by
  constructor
  · intro h m hm
    by_contra hrejected
    have hmem : m ∈ (throughList list list.names).rejected := mem_rejected_iff.2 ⟨hm, hrejected⟩
    rw [h] at hmem
    cases hmem
  · intro h
    have hmembers : ∀ m ∈ list.names, isMember list m = true := fun m hm => isMember_iff.2 (h m hm)
    cases hnames : list.names with
    | nil => simp [throughList, members, hnames]
    | cons first rest =>
        rw [hnames] at hmembers
        rw [throughList_of_ne_nil (List.cons_ne_nil first rest), List.filter_eq_self.2 hmembers,
          List.filter_eq_nil_iff.2 fun m hm => by simp [hmembers m hm]]

end Selection

namespace Config

open Selection (HoldsInstances throughList mem_rejected_iff throughList_names_iff)

/-- Without a request the members of a list are selected, in order. Asking for all of them selects
the same, and no request for a member is rejected, exactly when the list holds the instance of every
member; and a member that is asked for is rejected exactly when the list does not hold its own. -/
theorem select_members_iff {config : Config} {name : String} {list : NameSet}
    (h : config.allowList? name = some list) :
    (config.select [] (some name) = .ok ⟨list.names, []⟩ ∧ list.names.Pairwise (· < ·)) ∧
    (config.select list.names (some name) = config.select [] (some name) ↔ HoldsInstances list) ∧
    ((∀ targets selection, config.select targets (some name) = .ok selection →
      ∀ target ∈ selection.rejected, target ∉ list.names) ↔ HoldsInstances list) ∧
    (∀ targets selection, config.select targets (some name) = .ok selection →
      ∀ target ∈ targets, target ∈ list.names →
        (target ∈ selection.rejected ↔ (Target.split target).instanceName ∉ list.names)) ∧
    ((∀ m ∈ list.names, '=' ∉ m.toList) → HoldsInstances list) := by
  have hselect : ∀ targets, config.select targets (some name) = .ok (throughList list targets) :=
    fun targets => by simp only [select, h]
  have hdefault : config.select [] (some name) = .ok ⟨list.names, []⟩ := hselect []
  have hnames : list.names.Pairwise (· < ·) := List.pairwise_map.2 list.ordered
  refine ⟨⟨hdefault, hnames⟩, ?_, ⟨fun hkept m hm => ?_, ?_⟩, ?_, Selection.holdsInstances_of_plain⟩
  · rw [hdefault, hselect, Except.ok.injEq, throughList_names_iff]
  · by_contra hrejected
    exact hkept list.names _ (hselect list.names) m (mem_rejected_iff.2 ⟨hm, hrejected⟩) hm
  · intro hholds targets selection hok target hrejected hmem
    obtain rfl := Except.ok.inj ((hselect targets).symm.trans hok)
    exact (mem_rejected_iff.1 hrejected).2 (hholds target hmem)
  · intro targets selection hok target htarget _
    obtain rfl := Except.ok.inj ((hselect targets).symm.trans hok)
    rw [mem_rejected_iff]
    exact and_iff_right htarget

/-- A list that holds an instance under its own name and under another definition. -/
def sharedList : NameSet :=
  Catalog.ofList [("eth0", ()), ("eth0=lo", ())]

theorem select_members_iff_shared :
    let config : Config := ⟨.empty, .empty, Catalog.ofList [("auto", sharedList)]⟩
    config.allowList? "auto" = some sharedList ∧ HoldsInstances sharedList ∧
      config.select sharedList.names (some "auto") = config.select [] (some "auto") ∧
      config.select [] (some "auto") = .ok ⟨["eth0", "eth0=lo"], []⟩ := by
  intro config
  have hlist : config.allowList? "auto" = some sharedList := rfl
  have hholds : HoldsInstances sharedList := by decide
  obtain ⟨⟨hdefault, -⟩, hnames, -⟩ := select_members_iff hlist
  exact ⟨hlist, hholds, hnames.2 hholds, hdefault⟩

/-- A list whose only member names a definition for its instance. -/
def overrideForest : Forest := [
  .node ⟨0, "allow auto eth0=lo", ⟨"interfaces", 1⟩⟩ [],
  .node ⟨0, "iface lo", ⟨"interfaces", 2⟩⟩ []]

/-- The member is selected without a request, and rejected when it is asked for. -/
theorem select_members_override :
    ∃ config list, compile overrideForest = .ok config ∧ config.allowList? "auto" = some list ∧
      "eth0=lo" ∈ list.names ∧
      config.select [] (some "auto") = .ok ⟨["eth0=lo"], []⟩ ∧
      config.select list.names (some "auto") = .ok ⟨[], ["eth0=lo"]⟩ := by
  refine ⟨_, _, rfl, rfl, ?_, ?_, ?_⟩ <;> decide

end Config

end NetHooks
