import NetHooks.Proofs.Config.Relocation
import NetHooks.Proofs.FileTree
import NetHooks.Proofs.Source.Outermost
import NetHooks.Proofs.Source.Reindented
import NetHooks.Source.Library

/-!
# Including is inlining

An include line can be replaced by the lines of the files that it names, moved to its width:
whenever the source is read, so is the source after the replacement, and the forests and
what they declare differ in places only (`Forest.parseText_inlined`).

Up to the include line the two sources are read alike (`Feed.Run.replay`). Then the lines of
the files are read in their place (`Interchangeable.readOn_reindent`), and with the next line,
which is not wider than the include line, the two feeds take the same step.
-/
namespace NetHooks

open Feed (standing isHidden)
open Indentation (Levels)

/-! ### Included files -/

namespace Feed

variable {library : Library} {path file identity text : String} {active : List String}
  {below : List Segment} {n w : Nat} {site : Option Location} {outer : List Nat}
  {levels t t' u : Levels} {m m' after : Memory} {f g : Feed} {s : Stream} {lines : List Line}
  {y : LogicalLine} {rest : List LogicalLine}

theorem includeFiles_of_named {tree : FileTree} {target : String} {files : List String}
    {level number : Nat}
    (h : tree.Named (Path.join ((Path.parent? path).getD "") target) files) (f : Feed) :
    includeFiles tree.library f target level ⟨path, number⟩ = .working { f with
      segments := files.map (Segment.pending · level (some ⟨path, number⟩)) ++ f.segments } := by
  generalize hpath : Path.join ((Path.parent? path).getD "") target = p at h
  simp only [includeFiles, hpath, FileTree.library]
  cases h with
  | file h => rw [if_pos h]; rfl
  | directory h listed eligible ascending =>
      rw [if_neg (by simp [FileTree.isFile_of_isDirectory h]), if_pos h,
        FileTree.members_eq_ok listed eligible ascending]

/-- A file that waits to be opened, as it is after its opening. -/
def Opened.included (library : Library) (file : String) (n : Nat) (site : Option Location)
    (below : List Segment) (active : List String) : Opened :=
  ⟨file, library.identify file, n, site, below, library.identify file :: active⟩

theorem step_open (hactive : library.identify file ∉ active)
    (hread : library.read file = .ok text) :
    step library ⟨m.definitions, m.guards, .pending file n site :: below, active⟩ =
      .working ((Opened.included library file n site below active).feed .empty m
        (logicalLines text)) := by
  have hclosed : active.contains (library.identify file) = false := by simpa using hactive
  simp only [step, Segment.pending, openSegment, hclosed, hread]
  rfl

theorem step_close (hactive : library.identify file ∉ active) :
    step library ((Opened.included library file n site below active).feed levels m []) =
      .working ⟨m.definitions, m.guards, below, active⟩ := by
  have hkept : active.filter (fun a => decide (a ≠ library.identify file)) = active :=
    List.filter_eq_self.2 fun a ha => decide_eq_true fun heq => hactive (heq ▸ ha)
  simp only [step, Opened.included, Opened.feed]
  rw [List.filter_cons_of_neg (by simp), hkept]

/-- A file is opened, read and closed. -/
theorem run_included (hactive : library.identify file ∉ active)
    (hread : library.read file = .ok text)
    (hplain : ∀ x ∈ logicalLines text, x.keyword ≠ "include")
    (h : m.readOn file n .empty (logicalLines text) = .ok (lines, levels, after)) :
    Run library ⟨m.definitions, m.guards, .pending file n site :: below, active⟩ lines
      ⟨after.definitions, after.guards, below, active⟩ := by
  have hlines := @Opened.run_readOn library (.included library file n site below active) _ _ _ _ []
    _ _ h hplain
  rw [List.append_nil] at hlines
  have hclose : Run library
      ((Opened.included library file n site below active).feed levels after []) []
      ⟨after.definitions, after.guards, below, active⟩ := .working (step_close hactive) .nil
  have hrun := hlines.append hclose
  rw [List.append_nil] at hrun
  exact .working (step_open hactive hread) hrun

/-- In a feed that comes to its end, a file without include lines is opened and read. -/
theorem exists_readOn_of_pending
    (hs : Yields library ⟨m.definitions, m.guards, .pending file n site :: below, active⟩ s)
    (hok : s.failure = none) (hread : library.read file = .ok text)
    (hplain : ∀ x ∈ logicalLines text, x.keyword ≠ "include") :
    ∃ lines levels after s',
      m.readOn file n .empty (logicalLines text) = .ok (lines, levels, after) ∧
      Yields library ⟨after.definitions, after.guards, below, active⟩ s' ∧ s = s'.after lines := by
  by_cases hactive : library.identify file ∈ active
  · have hstep : step library ⟨m.definitions, m.guards, .pending file n site :: below, active⟩ =
        .failed (.recursiveInclude file (site.getD ⟨file, 0⟩))
          ⟨m.definitions, m.guards, .pending file n site :: below, active⟩ := by
      have hopened : active.contains (library.identify file) = true := by simpa using hactive
      simp only [step, Segment.pending, openSegment, hopened]
      rfl
    cases hs.unique (.failed hstep)
    cases hok
  · obtain ⟨s₁, hs₁, rfl⟩ := (Run.working (step_open hactive hread) .nil).yields_rest hs
    rw [← List.append_nil (logicalLines text)] at hs₁
    obtain ⟨lines, levels, after, s₂, h, -, -⟩ := Opened.exists_readOn_of_yields hs₁ hok hplain
    obtain ⟨s₃, hs₃, heq⟩ := (run_included hactive hread hplain h).yields_rest hs
    exact ⟨lines, levels, after, s₃, h, hs₃, heq⟩

theorem Yields.of_step_eq (hs : Yields library f s) (h : step library g = step library f) :
    Yields library g s := by
  cases hs with
  | finished last => exact .finished (h.trans last)
  | failed last => exact .failed (h.trans last)
  | working first more => exact .working (h.trans first) more
  | delivered first more => exact .delivered (h.trans first) more

/-- The line after the include line is taken alike. -/
theorem step_of_interchangeable (h : Interchangeable w t m t' m') (hwidths : t.widths = w :: outer)
    (hle : y.width ≤ w) (hfit : t.fit? y.width = some u) :
    step library ((Opened.alone path identity).feed t' m' (y :: rest)) =
      step library ((Opened.alone path identity).feed t m (y :: rest)) := by
  have hopens : t.Opens w outer := Levels.opens_of_widths hwidths
  have hlevel : u.level ≤ t.level := by
    have := hopens.level_le hle hfit
    simpa [Levels.level, hwidths] using this
  rw [← above_outermost_eq_alone, ← above_outermost_eq_alone, step_outermost rfl, step_outermost rfl]
  simp only [hfit, h.fits _ hle u hfit, h.standing_eq _ hlevel, h.definitions_eq]

/-- What is yielded of the files that an include line names and of the lines after it is
yielded of the lines in its place. -/
theorem exists_yields_inlined {files texts : List String} {later : List LogicalLine}
    (hwidths : t.widths = w :: outer) (hlater : ∀ y ∈ later.head?, y.width ≤ w)
    (hread : files.mapM library.read = .ok texts)
    (hplain : ∀ text ∈ texts, ∀ x ∈ logicalLines text, x.keyword ≠ "include")
    (h : Interchangeable w t m t' m') (hok : s.failure = none)
    (hs : Yields library ⟨m.definitions, m.guards, files.map (Segment.pending · t.level site) ++
      [outermost path identity t later], [identity]⟩ s) :
    ∃ s', Yields library ((Opened.alone path identity).feed t' m'
        (LogicalLine.inlined w texts ++ later)) s' ∧
      s'.failure = none ∧ Line.AlikeAll s.lines s'.lines := by
  induction files generalizing texts m t' m' s with
  | nil =>
      obtain rfl : [] = texts := Except.ok.inj hread
      have hs : Yields library ((Opened.alone path identity).feed t m later) s := hs
      cases later with
      | nil =>
          refine ⟨_, yields_alone_nil, rfl, ?_⟩
          rw [hs.unique yields_alone_nil]
          rfl
      | cons y later =>
          cases hfit : t.fit? y.width with
          | none =>
              obtain ⟨e, hstep⟩ := Opened.exists_step_feed_of_unfit hfit
              cases hs.unique (.failed hstep)
              cases hok
          | some u =>
              have hstep := @step_of_interchangeable library path identity _ _ _ _ _ _ _ _ later
                h hwidths (hlater y rfl) hfit
              exact ⟨s, hs.of_step_eq hstep, hok, rfl⟩
  | cons file files ih =>
      rw [List.mapM_cons] at hread
      obtain ⟨text, htext, hmore⟩ := bind_eq_ok.1 hread
      obtain ⟨texts, htexts, hall⟩ := bind_eq_ok.1 hmore
      obtain rfl := Except.ok.inj hall
      obtain ⟨hplainText, hplainTexts⟩ := List.forall_mem_cons.1 hplain
      obtain ⟨lines, levels, after, s₁, hlines, hs₁, rfl⟩ :=
        exists_readOn_of_pending hs hok htext hplainText
      obtain ⟨lines', u, after', hlines', h', halike⟩ :=
        @Interchangeable.readOn_reindent path _ _ _ _ _ _ _ _ _ _ _ h hwidths hlines
      have hok₁ : s₁.failure = none := hok
      obtain ⟨s₂, hs₂, hok₂, hrest⟩ := ih htexts hplainTexts h' hok₁ hs₁
      have hinlined : ∀ x ∈ LogicalLine.reindent w (logicalLines text), x.keyword ≠ "include" := by
        intro x hx
        obtain ⟨z, hz, hkeyword⟩ := LogicalLine.exists_of_mem_reindent hx
        exact hkeyword ▸ hplainText z hz
      have hrun : Run library ((Opened.alone path identity).feed t' m'
            (LogicalLine.reindent w (logicalLines text) ++ (LogicalLine.inlined w texts ++ later)))
          lines' _ := Opened.run_readOn hlines' hinlined
      refine ⟨s₂.after lines', ?_, hok₂, halike.append hrest⟩
      rw [LogicalLine.inlined, List.flatMap_cons, List.append_assoc]
      exact hrun.yields hs₂

/-- An include line that no guard hides puts the files that it names before its own. -/
theorem step_include {tree : FileTree} {target : String} {files : List String}
    (hfit : levels.fit? y.width = some t) (hvisible : isHidden (standing m.guards t.level) = false)
    (hread : Directive.read y.keyword y.text ⟨path, y.number⟩ = .ok (some (.include target)))
    (hnamed : tree.Named (Path.join ((Path.parent? path).getD "") target) files) :
    step tree.library ((Opened.alone path identity).feed levels m (y :: rest)) =
      .working ⟨m.definitions, standing m.guards t.level,
        files.map (Segment.pending · t.level (some ⟨path, y.number⟩)) ++
          [outermost path identity t rest], [identity]⟩ := by
  rw [← above_outermost_eq_alone, step_outermost rfl, hfit]
  simp only [hvisible, Bool.false_eq_true, if_false]
  rw [takeLine_of_directive hread, obey, includeFiles_of_named hnamed]
  simp only [List.append_nil]
  rfl

end Feed

/-! ### Sources -/

/-- The source `text'` is the source `text` with an include line that is reached, and that no
guard hides, replaced by the lines of the files that it names. These include nothing
themselves, and the next line is not wider than the include line. -/
inductive Inlined (tree : FileTree) (path text text' : String) : Prop
  | intro {earlier later : List LogicalLine} {line : LogicalLine} {before : List Line}
      {levels t : Levels} {m : Memory} {target : String} {files texts : List String}
      (lines : logicalLines text = earlier ++ line :: later)
      (reached : Feed.Run tree.library (.ofText tree.library path text) before
        ((Feed.Opened.alone path (tree.identify path)).feed levels m (line :: later)))
      (fits : levels.fit? line.width = some t)
      (visible : isHidden (standing m.guards t.level) = false)
      (includes : Directive.read line.keyword line.text ⟨path, line.number⟩ =
        .ok (some (.include target)))
      (named : tree.Named (Path.join ((Path.parent? path).getD "") target) files)
      (read : files.mapM tree.readText = .ok texts)
      (plain : ∀ text ∈ texts, ∀ x ∈ logicalLines text, x.keyword ≠ "include")
      (next : ∀ y ∈ later.head?, y.width ≤ line.width)
      (replaced : LogicalLine.AlikeAll
        (earlier ++ (LogicalLine.inlined line.width texts ++ later)) (logicalLines text'))

/-- A source that comes to its end does so with an include line inlined, with the same lines
in other places. -/
theorem Inlined.exists_yields {tree : FileTree} {path text text' : String} {s : Feed.Stream}
    (h : Inlined tree path text text')
    (hs : Feed.Yields tree.library (.ofText tree.library path text) s) (hok : s.failure = none) :
    ∃ s', Feed.Yields tree.library (.ofText tree.library path text') s' ∧ s'.failure = none ∧
      Line.AlikeAll s.lines s'.lines := by
  cases h with
  | @intro earlier later line before levels t m target files texts lines reached fits visible
      includes named read plain next replaced =>
  obtain ⟨outer, hwidths⟩ := Levels.widths_of_fit? fits
  let file := Feed.Opened.alone path (tree.identify path)
  let inlined := LogicalLine.inlined line.width texts ++ later
  -- Up to the include line.
  have habreast : Feed.Abreast path (tree.identify path) (line :: later) inlined
      (.ofText tree.library path text) (file.feed .empty .empty (earlier ++ inlined)) := by
    rw [Feed.ofText_eq_alone, lines, ← Feed.above_outermost_eq_alone, ← Feed.above_outermost_eq_alone]
    exact .intro .empty (.refl _) (.refl earlier)
  obtain ⟨before', hbefore, halike⟩ := reached.replay habreast
  obtain ⟨s₁, hs₁, rfl⟩ := reached.yields_rest hs
  -- The files, and the lines in their place.
  have hinclude := @Feed.step_include path (tree.identify path) _ _ _ _ later _ _ _ fits visible
    includes named
  obtain ⟨s₂, hs₂, rfl⟩ := (Feed.Run.working hinclude .nil).yields_rest hs₁
  have hok₂ : s₂.failure = none := hok
  obtain ⟨s₃, hs₃, hok₃, hrest⟩ := Feed.exists_yields_inlined hwidths next read plain
    (.of_fit? fits) hok₂ hs₂
  -- The same lines with the numbers that they have in the text.
  have hnumbers : (file.feed .empty .empty (earlier ++ inlined)).Alike
      (.ofText tree.library path text') := Feed.Opened.feed_alike replaced
  obtain ⟨s₄, hs₄, hlines, hfailure⟩ := (hbefore.yields hs₃).alike hnumbers
  refine ⟨s₄, hs₄, ?_, ?_⟩
  · simpa [hok₃] using hfailure
  · exact (halike.append hrest).trans hlines

namespace Forest

/-- A file is read like its text. -/
theorem parseFile_eq_parseText {library : Library} {path text : String}
    (h : library.read path = .ok text) : parseFile library path = parseText library path text := by
  have hopen : Feed.step library (.ofFile path) = .working (.ofText library path text) :=
    @Feed.step_open library _ _ [] [] 0 none .empty (by simp) h
  have hyields := Feed.Yields.working hopen (Feed.consistent_ofText library path text).yields_stream
  rw [parseFile, (Feed.consistent_ofFile library path).stream_eq hyields, parseText]

/-- When a source is read, given as a text or as the file that holds it, so is the source with
an include line inlined. The two forests have the same lines in other places, and they compile
to configurations that differ in places only, or fail alike. -/
theorem parseText_inlined {tree : FileTree} {path text text' : String} {f : Forest}
    (h : Inlined tree path text text')
    (hparse : parseText tree.library path text = .ok f ∨
      tree.readText path = .ok text ∧ parseFile tree.library path = .ok f) :
    ∃ g, parseText tree.library path text' = .ok g ∧
      g.relocate Location.forget = f.relocate Location.forget ∧
      relocated Location.forget (Config.relocate Location.forget) (Config.compile g) =
        relocated Location.forget (Config.relocate Location.forget) (Config.compile f) := by
  have hparse : parseText tree.library path text = .ok f := by
    rcases hparse with hparse | ⟨hread, hparse⟩
    · exact hparse
    · rwa [← parseFile_eq_parseText hread]
  have hs := (Feed.consistent_ofText tree.library path text).yields_stream
  obtain ⟨-, hok, -⟩ := ofStream_eq_ok.1 hparse
  obtain ⟨s, hs', hok', hlines⟩ := h.exists_yields hs hok
  obtain ⟨g, hg, hplaces⟩ := exists_ofStream_of_relocate hlines hok' hparse
  refine ⟨g, (parseText_of_yields hs').trans hg, hplaces, ?_⟩
  rw [← Config.compile_relocate, ← Config.compile_relocate, hplaces]

/-- A directory whose members close a block and begin one, included under a guard. -/
theorem parseText_inlined_directory :
    let text := "define X\nifndef Y\n  iface eth0\n    include conf.d\nallow auto eth0\n"
    let text' := "define X\nifndef Y\n  iface eth0\n    up true\n      echo\n    ifdef X\n" ++
      "      down false\nallow auto eth0\n"
    let tree : FileTree := ⟨[(["interfaces"], .file text.toUTF8.toList 0o644),
      (["conf.d"], .directory),
      (["conf.d", "b"], .file "ifdef X\n  down false\n".toUTF8.toList 0o644),
      (["conf.d", "a"], .file "  up true\n    echo\n".toUTF8.toList 0o644),
      (["conf.d", "a~"], .file [] 0o644)], []⟩
    let f : Forest := [.node ⟨0, "iface eth0", ⟨"interfaces", 3⟩⟩
        [.node ⟨1, "up true", ⟨"conf.d/a", 1⟩⟩ [.node ⟨2, "echo", ⟨"conf.d/a", 2⟩⟩ []],
          .node ⟨1, "down false", ⟨"conf.d/b", 2⟩⟩ []],
      .node ⟨0, "allow auto eth0", ⟨"interfaces", 5⟩⟩ []]
    Inlined tree "interfaces" text text' ∧ tree.readText "interfaces" = .ok text ∧
      parseFile tree.library "interfaces" = .ok f ∧
      ∃ g, parseText tree.library "interfaces" text' = .ok g ∧
        g.relocate Location.forget = f.relocate Location.forget := by
  intro text text' tree f
  have hroot : tree.resolve "interfaces" = .ok ["interfaces"] :=
    FileTree.resolve_of_directories (by simp [FileTree.refusal?]; decide) (by decide)
      (by decide +kernel) (by decide) (by decide) rfl (by simp)
  have hdir : tree.resolve "conf.d" = .ok ["conf.d"] :=
    FileTree.resolve_of_directories (by simp [FileTree.refusal?]; decide) (by decide)
      (by decide +kernel) (by decide) (by decide) rfl (by simp)
  have ha : tree.resolve "conf.d/a" = .ok ["conf.d", "a"] :=
    FileTree.resolve_of_directories (by simp [FileTree.refusal?]; decide) (by decide)
      (by decide +kernel) (by decide) (by decide) rfl (by simp)
  have hb : tree.resolve "conf.d/b" = .ok ["conf.d", "b"] :=
    FileTree.resolve_of_directories (by simp [FileTree.refusal?]; decide) (by decide)
      (by decide +kernel) (by decide) (by decide) rfl (by simp)
  have htext : tree.readText "interfaces" = .ok text := by
    simp only [FileTree.readText, FileTree.readBytes, hroot]
    decide +kernel
  have htextA : tree.readText "conf.d/a" = .ok "  up true\n    echo\n" := by
    simp only [FileTree.readText, FileTree.readBytes, ha]
    decide +kernel
  have htextB : tree.readText "conf.d/b" = .ok "ifdef X\n  down false\n" := by
    simp only [FileTree.readText, FileTree.readBytes, hb]
    decide +kernel
  have hnamed : tree.Named "conf.d" ["conf.d/a", "conf.d/b"] := by
    have hlist : tree.list "conf.d" = .ok ["a", "a~", "b"] := by
      simp only [FileTree.list, hdir]
      simp [tree, FileTree.find?, FileTree.childName?, List.mergeSort,
        List.MergeSort.Internal.splitInTwo]
    have hfiles : tree.isFile "conf.d/a" = true ∧ tree.isFile "conf.d/b" = true := by
      simp only [FileTree.isFile, FileTree.entryAt, ha, hb]
      decide
    have hjoin : Path.join "conf.d" "a" = "conf.d/a" ∧ Path.join "conf.d" "b" = "conf.d/b" := by
      decide
    have hdirectory : tree.isDirectory "conf.d" = true := by
      simp only [FileTree.isDirectory, FileTree.entryAt, hdir]
      decide
    have heligible : ["a", "b"] = ["a", "a~", "b"].filter fun name =>
        !FileTree.isPassedOver name && tree.isFile (Path.join "conf.d" name) := by
      have hpassed : FileTree.isPassedOver "a" = false ∧ FileTree.isPassedOver "a~" = true ∧
          FileTree.isPassedOver "b" = false := by decide
      simp [hpassed, hjoin, hfiles]
    have hdirectoryNamed := FileTree.Named.directory hdirectory hlist (.of_eq heligible) (by decide)
    rwa [List.map_cons, List.map_cons, hjoin.1, hjoin.2] at hdirectoryNamed
  let file := Feed.Opened.alone "interfaces" (tree.identify "interfaces")
  let later : List LogicalLine := [⟨5, 0, "allow auto eth0"⟩]
  let m : Memory := ⟨Catalog.insert .empty "X" "1", [⟨0, true⟩]⟩
  have hlines : logicalLines text =
      [⟨1, 0, "define X"⟩, ⟨2, 0, "ifndef Y"⟩, ⟨3, 2, "iface eth0"⟩] ++
        ⟨4, 4, "include conf.d"⟩ :: later := by decide
  have hbefore : Memory.empty.readOn "interfaces" 0 .empty
      [⟨1, 0, "define X"⟩, ⟨2, 0, "ifndef Y"⟩, ⟨3, 2, "iface eth0"⟩] =
        .ok ([⟨0, "iface eth0", ⟨"interfaces", 3⟩⟩], ⟨[2, 0]⟩, m) := by decide +kernel
  have hreached : Feed.Run tree.library (.ofText tree.library "interfaces" text)
      [⟨0, "iface eth0", ⟨"interfaces", 3⟩⟩]
      (file.feed ⟨[2, 0]⟩ m (⟨4, 4, "include conf.d"⟩ :: later)) := by
    rw [Feed.ofText_eq_alone, hlines]
    exact Feed.Opened.run_readOn hbefore (by decide)
  have hread : Directive.read "include" "include conf.d" ⟨"interfaces", 4⟩ =
      .ok (some (.include "conf.d")) := by decide
  have htarget : tree.Named (Path.join ((Path.parent? "interfaces").getD "") "conf.d")
      ["conf.d/a", "conf.d/b"] := by
    rwa [show Path.join ((Path.parent? "interfaces").getD "") "conf.d" = "conf.d" by decide +kernel]
  have hinlined : Inlined tree "interfaces" text text' :=
    .intro hlines hreached (t := ⟨[4, 2, 0]⟩) rfl rfl hread htarget
      (by rw [List.mapM_cons, List.mapM_cons, htextA, htextB]; rfl) (by decide) (by decide)
      (by decide)
  have hparse : parseText tree.library "interfaces" text = .ok f := by
    have hidentity {path : String} {place : Place} (h : tree.resolve path = .ok place) :
        tree.identify path = place.toPath := by rw [FileTree.identify, h]
    have hinclude := @Feed.step_include "interfaces" (tree.identify "interfaces") ⟨[2, 0]⟩
      ⟨[4, 2, 0]⟩ m ⟨4, 4, "include conf.d"⟩ later tree _ _ rfl rfl hread htarget
    let site : Option Location := some ⟨"interfaces", 4⟩
    let root := Feed.outermost "interfaces" (tree.identify "interfaces") ⟨[4, 2, 0]⟩ later
    let between : Memory := ⟨m.definitions, [⟨2, true⟩, ⟨0, true⟩]⟩
    have hrunA := @Feed.run_included tree.library "conf.d/a" _ [tree.identify "interfaces"]
      [.pending "conf.d/b" 2 site, root] 2 site ⟨[4, 2]⟩ m m
      [⟨1, "up true", ⟨"conf.d/a", 1⟩⟩, ⟨2, "echo", ⟨"conf.d/a", 2⟩⟩]
      (by simp [FileTree.library, hidentity ha, hidentity hroot]; decide) htextA (by decide)
      (by decide +kernel)
    have hrunB := @Feed.run_included tree.library "conf.d/b" _ [tree.identify "interfaces"]
      [root] 2 site ⟨[2, 0]⟩ m between [⟨1, "down false", ⟨"conf.d/b", 2⟩⟩]
      (by simp [FileTree.library, hidentity hb, hidentity hroot]; decide) htextB (by decide)
      (by decide +kernel)
    have hlast : between.readOn "interfaces" 0 ⟨[4, 2, 0]⟩ later =
        .ok ([⟨0, "allow auto eth0", ⟨"interfaces", 5⟩⟩], ⟨[0]⟩, ⟨m.definitions, []⟩) := by
      decide +kernel
    have hrest : Feed.Run tree.library (file.feed ⟨[4, 2, 0]⟩ between (later ++ [])) _ _ :=
      Feed.Opened.run_readOn hlast (by decide)
    have hyields := (hreached.append (.working hinclude (hrunA.append (hrunB.append hrest)))).yields
      Feed.yields_alone_nil
    rw [parseText_of_yields hyields]
    rfl
  refine ⟨hinlined, htext, ?_, ?_⟩
  · rw [parseFile_eq_parseText htext, hparse]
  · obtain ⟨g, hg, hplaces, -⟩ := parseText_inlined hinlined (.inl hparse)
    exact ⟨g, hg, hplaces⟩

end Forest

end NetHooks
