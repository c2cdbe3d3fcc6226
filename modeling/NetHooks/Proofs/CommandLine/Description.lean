import NetHooks.CommandLine.Description
import NetHooks.Proofs.Activation.Selection
import NetHooks.Proofs.FileTree
import NetHooks.Proofs.Octets
import NetHooks.Proofs.Source.Inlining

/-!
# Descriptions and allow-lists

With an allow-list the definitions are described that the selected targets name, in their order.
A request of which the list lets nothing through is taken for no request, and all names are summed
up.
-/
namespace NetHooks

/-! ### What is printed -/

theorem Text.length_encode (text : String) : (encode text).length = text.utf8ByteSize := by
  rw [encode_eq_data]
  rfl

namespace World

/-- The octets of printed lines. -/
def shown (lines : List String) : Bytes :=
  lines.flatMap fun line => Text.encode (line ++ "\n")

theorem shown_append (lines more : List String) :
    shown (lines ++ more) = shown lines ++ shown more :=
  List.flatMap_append

theorem shown_eq_nil_iff {lines : List String} : shown lines = [] ↔ lines = [] := by
  constructor
  · intro h
    -- Even an empty line is shown with its line feed.
    refine List.eq_nil_iff_forall_not_mem.2 fun line hline => ?_
    have hlength := congrArg List.length (List.flatMap_eq_nil_iff.1 h line hline)
    rw [Text.length_encode, String.utf8ByteSize_append] at hlength
    have hfeed : "\n".utf8ByteSize = 1 := by decide
    simp [hfeed] at hlength
  · rintro rfl
    rfl

theorem stdout_foldl_print (lines : List String) (w : World) :
    (lines.foldl print w).stdout = w.stdout ++ shown lines := by
  induction lines generalizing w with
  | nil => exact (List.append_nil _).symm
  | cons line lines ih => rw [List.foldl_cons, ih, print, List.append_assoc]; rfl

end World

namespace Request

/-- What is printed of the definition of a name: the name as a heading and the description. -/
def sheet (r : Request) (config : Config) (name : String) : List String :=
  match config.describe? name with
  | some lines =>
      ("\n--- " ++ r.terminal.paint .yellow name ++ " ---") :: lines.map ("  " ++ ·)
  | none => []

/-- What is printed of the definitions that targets are about. -/
def sheets (r : Request) (config : Config) (targets : List String) : List String :=
  targets.flatMap fun target => r.sheet config (definitionOf target)

variable {r : Request} {config : Config} {w : World}

theorem stdout_describeTarget (r : Request) (config : Config) (w : World) (target : String) :
    (r.describeTarget config w target).stdout =
      w.stdout ++ World.shown (r.sheet config (definitionOf target)) := by
  simp only [describeTarget, sheet]
  cases config.describe? (definitionOf target) with
  | none => exact (List.append_nil _).symm
  | some lines =>
      rw [← World.stdout_foldl_print]
      rfl

theorem stdout_foldl_describeTarget (r : Request) (config : Config) (targets : List String)
    (w : World) :
    (targets.foldl (r.describeTarget config) w).stdout =
      w.stdout ++ World.shown (r.sheets config targets) := by
  induction targets generalizing w with
  | nil => exact (List.append_nil _).symm
  | cons target targets ih =>
      rw [List.foldl_cons, ih, stdout_describeTarget, sheets, sheets, List.flatMap_cons,
        World.shown_append, List.append_assoc]

/-! ### What is selected -/

theorem listed_of_readConfig (hread : r.readConfig w.tree = .ok config) : config.Listed := by
  obtain ⟨forest, -, hcompile⟩ := bind_eq_ok.1 (mapError_eq_ok.1 hread)
  exact Config.listed_of_compile hcompile

theorem describe_of_selected {selection : Selection} (hread : r.readConfig w.tree = .ok config)
    (hselect : r.select config = .ok selection) :
    r.describe w = if selection.targets = [] then
        .done [] ((config.summary.map r.summaryLine).foldl World.print w)
      else
        .done (selection.targets.filterMap (unknownLog config))
          (selection.targets.foldl (r.describeTarget config) w) := by
  have hboth : (do let config ← r.readConfig w.tree; return (config, ← r.select config) :
      Except Failure (Config × Selection)) = .ok (config, selection) :=
    bind_eq_ok.2 ⟨config, hread, bind_eq_ok.2 ⟨selection, hselect, rfl⟩⟩
  rw [describe, hboth]
  simp only [List.isEmpty_iff]

/-- With an allow-list the definitions are printed that the selected targets name, in their order,
or all names are summed up if none is selected. So nothing else is printed exactly when a target is
selected or there is nothing to sum up; and none is selected exactly when there is a request and the
list rejects all of it. -/
theorem describe_allowed_iff {name : String} {list : NameSet} (hallow : r.allow? = some name)
    (hread : r.readConfig w.tree = .ok config) (hlist : config.allowList? name = some list) :
    ∃ selection, config.select r.targets (some name) = .ok selection ∧
      (r.describe w).failure = none ∧
      (r.describe w).log = selection.targets.filterMap (unknownLog config) ∧
      (r.describe w).world.stdout = w.stdout ++ World.shown
        (if selection.targets = [] then config.summary.map r.summaryLine
          else r.sheets config selection.targets) ∧
      ((r.describe w).world.stdout = w.stdout ++ World.shown (r.sheets config selection.targets) ↔
        selection.targets ≠ [] ∨ config.summary = []) ∧
      (selection.targets = [] ↔ r.targets ≠ [] ∧ selection.rejected = r.targets) := by
  obtain ⟨selection, hthrough⟩ : ∃ selection, Selection.throughList list r.targets = selection :=
    ⟨_, rfl⟩
  have hconfig : config.select r.targets (some name) = .ok selection := by
    simp only [Config.select, hlist, hthrough]
  have hselect : r.select config = .ok selection := by
    rw [select, hallow, mapError_eq_ok]
    exact hconfig
  have hrejected : selection.targets = [] ↔ r.targets ≠ [] ∧ selection.rejected = r.targets := by
    rw [← hthrough]
    exact Selection.throughList_targets_eq_nil_iff (listed_of_readConfig hread name list hlist)
  refine ⟨selection, hconfig, ?_⟩
  rw [describe_of_selected hread hselect]
  by_cases hnone : selection.targets = []
  · -- No definition is described, so all that is shown is too much.
    rw [if_pos hnone, if_pos hnone, hnone]
    have hsummary : ((config.summary.map r.summaryLine).foldl World.print w).stdout =
        w.stdout ++ World.shown (config.summary.map r.summaryLine) :=
      World.stdout_foldl_print _ w
    refine ⟨rfl, rfl, hsummary, ?_, hnone ▸ hrejected⟩
    calc (Conclusion.done [] ((config.summary.map r.summaryLine).foldl World.print w)).world.stdout =
          w.stdout ++ World.shown (r.sheets config [])
        ↔ World.shown (config.summary.map r.summaryLine) = [] := by
          rw [show World.shown (r.sheets config []) = [] from rfl, Conclusion.done, hsummary]
          exact List.append_right_inj w.stdout
      _ ↔ config.summary = [] := by rw [World.shown_eq_nil_iff, List.map_eq_nil_iff]
      _ ↔ ([] : List String) ≠ [] ∨ config.summary = [] := by simp
  · rw [if_neg hnone, if_neg hnone]
    have hsheets := stdout_foldl_describeTarget r config selection.targets w
    exact ⟨rfl, rfl, hsheets, iff_of_true hsheets (.inl hnone), hrejected⟩

/-- Two definitions, and a list that holds the name of one. -/
def pairText : String := "allow auto lo\niface lo\niface eth0\n"

def pairWorld : World :=
  .ofTree ⟨[(["interfaces"], .file pairText.toUTF8.toList 0o644)], []⟩

def pairForest : Forest := [
  .node ⟨0, "allow auto lo", ⟨"interfaces", 1⟩⟩ [],
  .node ⟨0, "iface lo", ⟨"interfaces", 2⟩⟩ [],
  .node ⟨0, "iface eth0", ⟨"interfaces", 3⟩⟩ []]

def pairConfig : Config where
  entities := Catalog.ofList [
    ("lo", .interface ⟨"lo", none, [], [], .empty, ⟨"interfaces", 2⟩⟩),
    ("eth0", .interface ⟨"eth0", none, [], [], .empty, ⟨"interfaces", 3⟩⟩)]
  mappings := .empty
  allowLists := Catalog.ofList [("auto", Catalog.ofList [("lo", ())])]

/-- What is asked for through the list. -/
def pairRequest (targets : List String) : Request :=
  ⟨{ configFile := "interfaces" }, {}, targets, some "auto"⟩

theorem readConfig_pair (targets : List String) :
    (pairRequest targets).readConfig pairWorld.tree = .ok pairConfig := by
  have hroot : pairWorld.tree.resolve "interfaces" = .ok ["interfaces"] :=
    FileTree.resolve_of_directories (by simp [FileTree.refusal?]; decide) (by decide)
      (by decide +kernel) (by decide) (by decide) rfl (by simp)
  have htext : pairWorld.tree.readText "interfaces" = .ok pairText := by
    simp only [FileTree.readText, FileTree.readBytes, hroot]
    decide +kernel
  have hparse : Forest.parseFile pairWorld.tree.library "interfaces" = .ok pairForest := by
    have hplain : ∀ line ∈ logicalLines pairText, line.keyword ≠ "include" := by decide
    have hlines : Memory.empty.readOn "interfaces" 0 .empty (logicalLines pairText) =
        .ok (pairForest.lines, ⟨[0]⟩, .empty) := by decide +kernel
    rw [Forest.parseFile_eq_parseText htext, Forest.parseText_of_readOn hplain hlines]
    rfl
  have hcompile : Config.compile pairForest = .ok pairConfig := rfl
  rw [readConfig, mapError_eq_ok]
  exact bind_eq_ok.2 ⟨pairForest, hparse, hcompile⟩

theorem describe_allowed_iff_pair :
    let r := pairRequest ["lo", "eth0"]
    r.allow? = some "auto" ∧ r.readConfig pairWorld.tree = .ok pairConfig ∧
      pairConfig.allowList? "auto" = some (Catalog.ofList [("lo", ())]) ∧
      (r.describe pairWorld).failure = none ∧
      (r.describe pairWorld).world.stdout = World.shown
        ["\n--- lo ---", "  kind:          interface (interfaces:2)"] := by
  intro r
  have hallow : r.allow? = some "auto" := rfl
  have hread : r.readConfig pairWorld.tree = .ok pairConfig := readConfig_pair _
  have hlist : pairConfig.allowList? "auto" = some (Catalog.ofList [("lo", ())]) := by decide
  obtain ⟨selection, hselect, hfailure, -, -, hsheets, -⟩ := describe_allowed_iff hallow hread hlist
  have hlo : selection = ⟨["lo"], ["eth0"]⟩ :=
    Except.ok.inj (hselect.symm.trans (by decide))
  subst hlo
  refine ⟨hallow, hread, hlist, hfailure, ?_⟩
  rw [hsheets.2 (.inl (List.cons_ne_nil _ _))]
  rfl

/-- The list rejects what is asked for, and both definitions are summed up. -/
theorem describe_rejected_pair :
    let r := pairRequest ["eth0"]
    r.readConfig pairWorld.tree = .ok pairConfig ∧
      pairConfig.select r.targets r.allow? = .ok ⟨[], ["eth0"]⟩ ∧
      (r.describe pairWorld).world.stdout = World.shown
        ["  eth0                 interface", "  lo                   interface"] ∧
      (r.describe pairWorld).world.stdout ≠ World.shown (r.sheets pairConfig []) := by
  intro r
  have hread : r.readConfig pairWorld.tree = .ok pairConfig := readConfig_pair _
  have hconfig : pairConfig.select r.targets r.allow? = .ok ⟨[], ["eth0"]⟩ := by decide
  have hselect : r.select pairConfig = .ok ⟨[], ["eth0"]⟩ := mapError_eq_ok.2 hconfig
  have hsummary : pairConfig.summary.map r.summaryLine =
      ["  eth0                 interface", "  lo                   interface"] := by
    have hentities : pairConfig.entities.values.map (fun e => (e.name, e.label)) =
        [("eth0", "interface"), ("lo", "interface")] := by decide
    have hmappings : pairConfig.mappings.names = [] := rfl
    have hall : pairConfig.summary = [("eth0", "interface"), ("lo", "interface")] := by
      rw [Config.summary, hentities, hmappings]
      exact List.mergeSort_of_pairwise (by decide)
    rw [hall]
    rfl
  have hstdout : (r.describe pairWorld).world.stdout = World.shown
      ["  eth0                 interface", "  lo                   interface"] := by
    rw [describe_of_selected hread hselect, if_pos rfl, Conclusion.done, World.stdout_foldl_print,
      hsummary]
    rfl
  refine ⟨hread, hconfig, hstdout, ?_⟩
  rw [hstdout]
  exact mt World.shown_eq_nil_iff.1 (List.cons_ne_nil _ _)

end Request

end NetHooks
