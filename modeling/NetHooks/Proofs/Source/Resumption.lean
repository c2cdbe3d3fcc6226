import NetHooks.Proofs.Source.Reachable

/-!
# Guards of included files

Guards are compared by level, and an included file is read from the level of the include line on.
So whatever the file leaves of its guards lies on that level or deeper (`Feed.Inside`), and the
line with which the including file goes on finds the guards of the include line, and one of the
included files at most. That one is on the level of the include line, and stands over deeper
lines only (`Feed.guards_after_include`).
-/
namespace NetHooks.Feed

open Indentation (Levels)

variable {library : Library} {f g next resumed : Feed} {origin : Origin} {tail : List Segment}
  {base before after : List Guard} {level n : Nat} {line y : LogicalLine} {l place : Location}

/-! ### While the included files are read -/

/-- Segments from the level on lie above the tail, and guards from the level on above the base. -/
structure Inside (level : Nat) (base : List Guard) (tail : List Segment) (f : Feed) : Prop where
  segments : ∃ inner : List Segment, f.segments = inner ++ tail ∧ ∀ s ∈ inner, level ≤ s.offset
  guards : ∃ inner : List Guard, f.guards = inner ++ base ∧ ∀ g ∈ inner, level ≤ g.level

/-- What a line leaves lies on its level. -/
theorem Inside.taken (h : Inside level base tail f) (hlevel : level ≤ n)
    (htaken : Taken library n l f g) : Inside level base tail g := by
  obtain ⟨inner, hinner, hoffset⟩ := h.segments
  obtain ⟨guards, hguards, hdeeper⟩ := h.guards
  obtain ⟨paths, hpaths, -⟩ := htaken.segments
  refine ⟨⟨paths.map (Segment.pending · n (some l)) ++ inner, ?_, ?_⟩, ?_⟩
  · rw [hpaths, hinner, List.append_assoc]
  · refine List.forall_mem_append.2 ⟨fun s hs => ?_, hoffset⟩
    obtain ⟨path, -, rfl⟩ := List.mem_map.1 hs
    exact hlevel
  · rcases htaken.guards with hsame | ⟨enabled, hnew⟩
    · exact ⟨guards, hsame.trans hguards, hdeeper⟩
    · exact ⟨⟨n, enabled⟩ :: guards, by rw [hnew, hguards, List.cons_append],
        List.forall_mem_cons.2 ⟨hlevel, hdeeper⟩⟩

/-- Before the tail is reached, the innermost segment lies above it. -/
theorem Inside.top {s : Segment} {below : List Segment} (h : Inside level base tail f)
    (hne : f.segments ≠ tail) (hs : f.segments = s :: below) :
    ∃ rest, below = rest ++ tail ∧ level ≤ s.offset ∧ ∀ x ∈ rest, level ≤ x.offset := by
  obtain ⟨_ | ⟨s', rest⟩, hinner, hoffset⟩ := h.segments
  · exact absurd hinner hne
  · obtain ⟨rfl, rfl⟩ := List.cons.inj (hs.symm.trans hinner)
    exact ⟨rest, rfl, List.forall_mem_cons.1 hoffset⟩

/-- Lines from the level on leave the guards of the base, which lie above it. -/
theorem Inside.reads (h : Inside level base tail f) (hne : f.segments ≠ tail)
    (hbase : ∀ g ∈ base, g.level < level) (hreads : f.Reads line n l g) :
    level ≤ n ∧ Inside level base tail g := by
  obtain ⟨guards, hguards, hdeeper⟩ := h.guards
  cases hreads with
  | @intro s below identity line rest levels hsegments reading fits =>
  obtain ⟨rest', rfl, hs, hrest⟩ := h.top hne hsegments
  have hlevel : level ≤ s.offset + levels.level := Nat.le_add_right_of_le hs
  refine ⟨hlevel, ⟨_ :: rest', rfl, List.forall_mem_cons.2 ⟨hs, hrest⟩⟩,
    standing guards (s.offset + levels.level), ?_, fun g hg =>
      hdeeper g ((standing_suffix guards _).subset hg)⟩
  rw [hguards]
  exact standing_append (fun g hg => Nat.lt_of_lt_of_le (hbase g hg) hlevel) guards

theorem Inside.step (h : Inside level base tail f) (hne : f.segments ≠ tail)
    (hbase : ∀ g ∈ base, g.level < level) : Inside level base tail (step library f).feed := by
  rcases step_cases library f with ⟨-, hstep⟩ | ⟨s, below, hs, -, hstep⟩ |
    ⟨s, below, identity, hs, -, hstep⟩ | ⟨s, below, identity, line, rest, hs, -, -, hstep⟩ |
    ⟨line, n, l, g, hreads⟩
  · exact hstep ▸ h
  · obtain ⟨rest, rfl, hoffset⟩ := h.top hne hs
    rw [hstep, openSegment]
    split
    · exact h
    · split
      · exact h
      · exact ⟨⟨_ :: rest, rfl, List.forall_mem_cons.2 hoffset⟩, h.guards⟩
  · obtain ⟨rest, rfl, hoffset⟩ := h.top hne hs
    rw [hstep]
    exact ⟨⟨rest, rfl, hoffset.2⟩, h.guards⟩
  · obtain ⟨rest', rfl, hoffset⟩ := h.top hne hs
    rw [hstep]
    exact ⟨⟨_ :: rest', rfl, List.forall_mem_cons.2 hoffset⟩, h.guards⟩
  · obtain ⟨hlevel, hinside⟩ := h.reads hne hbase hreads
    exact hinside.taken hlevel (hreads.taken library)

/-! ### The next line of the including file -/

/-- Steps, failing ones too, lead to the first feed that has these segments. -/
inductive Resumes (library : Library) (segments : List Segment) : Feed → Feed → Prop
  | here {f : Feed} (h : f.segments = segments) : Resumes library segments f f
  | later {f g : Feed} (h : f.segments ≠ segments)
      (more : Resumes library segments (step library f).feed g) : Resumes library segments f g

variable {segments : List Segment}

theorem Resumes.segments_eq (h : Resumes library segments f g) : g.segments = segments := by
  induction h with
  | here h => exact h
  | later _ _ ih => exact ih

theorem Resumes.reaches {root : Feed} (h : Resumes library segments f g)
    (hf : Reaches library root f) : Reaches library root g := by
  induction h with
  | here => exact hf
  | later _ _ ih => exact ih hf.step

theorem Resumes.inside (h : Resumes library tail f g) (hbase : ∀ g ∈ base, g.level < level)
    (hf : Inside level base tail f) : Inside level base tail g := by
  induction h with
  | here => exact hf
  | later hne _ ih => exact ih (hf.step hne hbase)

/-- In a run, a file goes on at level `n` behind what an include line at the level names:
`before` are the guards over the include line, and `after` those over the next line. -/
inductive Resumption (library : Library) (origin : Origin) (level : Nat) (before : List Guard)
    (n : Nat) (after : List Guard) : Prop
  | intro {f g resumed next : Feed} {line y : LogicalLine} {l place : Location} {target : String}
      (reached : Reaches library (origin.feed library) f)
      (reads : f.Reads line level l g) (atLine : g.guards = before)
      (visible : isHidden before = false)
      (names : Directive.read line.keyword line.text l = .ok (some (.include target)))
      (resumes : Resumes library g.segments (step library f).feed resumed)
      (goesOn : resumed.Reads y n place next) (atNext : next.guards = after)

/-- The next line of a file is at most one level deeper. -/
theorem Reads.le_succ (h : f.Reads line level l g) (hsegments : resumed.segments = g.segments)
    (hnext : resumed.Reads y n place next) : n ≤ level + 1 := by
  cases h with
  | @intro s below identity line rest levels hs reading fits =>
  cases hnext with
  | @intro s' below' identity' y rest' levels' hs' reading' fits' =>
  obtain ⟨rfl, -⟩ := List.cons.inj (hs'.symm.trans hsegments)
  have := Levels.level_le_succ fits'
  simp only at this ⊢
  omega

/-- Behind an include line, the guards over a line that is not deeper are those over the include
line that lie above it. Over a deeper line all of them stand, and at most one more, on the level
of the include line. -/
theorem guards_after_include (h : Resumption library origin level before n after) :
    (n ≤ level → after = before.filter (·.level < n)) ∧
      (level < n → after = before ∨ ∃ enabled, after = ⟨level, enabled⟩ :: before) := by
  cases h with
  | @intro f g resumed next line y l place target reached reads atLine visible names resumes goesOn
      atNext =>
  subst atLine atNext
  have hbefore : ∀ x ∈ g.guards, x.level < level := fun x hx =>
    reached.nested.lt_of_mem_standing (reads.guards_eq ▸ hx)
  have hinside : Inside level g.guards g.segments resumed :=
    resumes.inside hbefore <| Inside.taken ⟨⟨[], rfl, by simp⟩, ⟨[], rfl, by simp⟩⟩ (Nat.le_refl _)
      (reads.taken library)
  have hnested : Nested resumed.guards := (resumes.reaches reached.step).nested
  have hle : n ≤ level + 1 := reads.le_succ resumes.segments_eq goesOn
  obtain ⟨inner, hguards, hdeeper⟩ := hinside.guards
  rw [goesOn.guards_eq]
  refine ⟨fun hnot => ?_, fun hlt => ?_⟩
  · have hnone : inner.filter (·.level < n) = [] := List.filter_eq_nil_iff.2 fun x hx => by
      have := hdeeper x hx
      simp only [decide_eq_true_eq]
      omega
    rw [hnested.standing_eq_filter, hguards, List.filter_append, hnone, List.nil_append]
  · rw [hguards] at hnested ⊢
    have hinner : Nested inner := (List.pairwise_append.1 hnested).1
    rw [standing_append (fun x hx => Nat.lt_trans (hbefore x hx) hlt)]
    -- From the level of the include line up to the next line there is room for one guard.
    have hbetween : ∀ x ∈ standing inner n, level ≤ x.level ∧ x.level < n := fun x hx =>
      ⟨hdeeper x ((standing_suffix inner n).subset hx), hinner.lt_of_mem_standing hx⟩
    have hlength := (hinner.standing n).length_le hbetween
    match hstanding : standing inner n with
    | [] => exact .inl rfl
    | [⟨m, enabled⟩] =>
        obtain ⟨hm, hmn⟩ := hbetween ⟨m, enabled⟩ (by simp [hstanding])
        obtain rfl : m = level := by simp only at hm hmn; omega
        exact .inr ⟨enabled, rfl⟩
    | _ :: _ :: _ =>
        simp only [hstanding, List.length_cons] at hlength
        omega

/-- A file that ends under a guard, included inside a guard. -/
theorem guards_after_include_inside :
    let library := Library.ofTexts (.insert .empty "f" "iface eth0\nifdef X\n")
    let origin := Origin.text "interfaces" "ifndef Y\n  include f\n  up true\n"
    Resumption library origin 1 [⟨0, true⟩] 1 [⟨0, true⟩] ∧
      [⟨0, true⟩] = [⟨0, true⟩].filter fun g : Guard => decide (g.level < 1) := by
  intro library origin
  let f : Feed := (step library (origin.feed library)).feed
  let opened : Feed := (step library f).feed
  let resumed : Feed :=
    (step library (step library (step library (step library opened).feed).feed).feed).feed
  let up : LogicalLine := ⟨3, 2, "up true"⟩
  have hsegments : f.segments = [⟨"interfaces", 0, ⟨[0]⟩,
      some ⟨"interfaces", [⟨2, 2, "include f"⟩, up]⟩, none⟩] := by decide +kernel
  have hreads : f.Reads ⟨2, 2, "include f"⟩ 1 ⟨"interfaces", 2⟩ _ := .intro hsegments rfl rfl
  have hresumes : Resumes library [⟨"interfaces", 0, ⟨[2, 0]⟩, some ⟨"interfaces", [up]⟩, none⟩]
      opened resumed :=
    .later (by decide +kernel) <| .later (by decide +kernel) <| .later (by decide +kernel) <|
      .later (by decide +kernel) <| .here (by decide +kernel)
  have hgoesOn : resumed.Reads up 1 ⟨"interfaces", 3⟩ _ := .intro hresumes.segments_eq rfl rfl
  have hnames : Directive.read (LogicalLine.keyword ⟨2, 2, "include f"⟩) "include f"
      ⟨"interfaces", 2⟩ = .ok (some (.include "f")) := by decide +kernel
  have hresumption : Resumption library origin 1 [⟨0, true⟩] 1 [⟨0, true⟩] :=
    .intro (.step .refl) hreads (by decide +kernel) rfl hnames hresumes hgoesOn (by decide +kernel)
  exact ⟨hresumption, (guards_after_include hresumption).1 (Nat.le_refl 1)⟩

/-- The guard that a file ends with stays over the deeper line after the include line, and hides
it, though no guard stands over the include line. -/
theorem guards_after_include_deeper :
    let library := Library.ofTexts (.insert .empty "f" "iface eth0\nifdef X\n")
    let origin := Origin.text "interfaces" "include f\n    up true\n"
    Resumption library origin 0 [] 1 [⟨0, false⟩] ∧
      [⟨0, false⟩] ≠ [].filter (fun g : Guard => decide (g.level < 1)) ∧
      stream library (origin.feed library) = ⟨[⟨0, "iface eth0", ⟨"f", 1⟩⟩], none⟩ := by
  intro library origin
  let opened : Feed := (step library (origin.feed library)).feed
  let resumed : Feed :=
    (step library (step library (step library (step library opened).feed).feed).feed).feed
  let up : LogicalLine := ⟨2, 4, "up true"⟩
  have hsegments : (origin.feed library).segments = [⟨"interfaces", 0, .empty,
      some ⟨"interfaces", [⟨1, 0, "include f"⟩, up]⟩, none⟩] := by decide +kernel
  have hreads : (origin.feed library).Reads ⟨1, 0, "include f"⟩ 0 ⟨"interfaces", 1⟩ _ :=
    .intro hsegments rfl rfl
  have hresumes : Resumes library [⟨"interfaces", 0, ⟨[0]⟩, some ⟨"interfaces", [up]⟩, none⟩]
      opened resumed :=
    .later (by decide +kernel) <| .later (by decide +kernel) <| .later (by decide +kernel) <|
      .later (by decide +kernel) <| .here (by decide +kernel)
  have hgoesOn : resumed.Reads up 1 ⟨"interfaces", 2⟩ _ := .intro hresumes.segments_eq rfl rfl
  have hnames : Directive.read (LogicalLine.keyword ⟨1, 0, "include f"⟩) "include f"
      ⟨"interfaces", 1⟩ = .ok (some (.include "f")) := by decide +kernel
  have hresumption : Resumption library origin 0 [] 1 [⟨0, false⟩] :=
    .intro .refl hreads (by decide +kernel) rfl hnames hresumes hgoesOn (by decide +kernel)
  exact ⟨hresumption, by decide, by decide +kernel⟩

end NetHooks.Feed
