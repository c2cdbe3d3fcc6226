import NetHooks.Proofs.Forest
import NetHooks.Proofs.Indentation
import NetHooks.Proofs.LogicalLine
import NetHooks.Proofs.Source.SingleFile
import NetHooks.Source.Library

/-!
# Blocks of definitions

A definition leaves no line in the forest that its block could stand under. The first line that
is delivered from the block is misplaced when it lies more than one level below the line
delivered before the definition, and stands among the lines before the definition when it
does not (`Forest.parseText_definition_block`).
-/
namespace NetHooks

open Indentation (Levels)
open Feed (standing isHidden Nested)

namespace Memory

variable {path : String} {offset : Nat} {levels levels' : Levels} {m m' : Memory}
  {line : LogicalLine} {xs : List LogicalLine} {lines : List Line} {outer : List Nat} {w : Nat}
  {around : List Guard}

/-- While lines wider than `w` are read, its level stays open, and the guards around it stay
with deeper ones inside. -/
theorem readOn_of_wider (hopens : levels.Opens w outer)
    (haround : ∀ g ∈ around, g.level < offset + outer.length)
    (hguards : ∃ inner, m.guards = inner ++ around ∧ ∀ g ∈ inner, offset + outer.length < g.level)
    (hwider : ∀ x ∈ xs, w < x.width)
    (h : m.readOn path offset levels xs = .ok (lines, levels', m')) :
    levels'.Opens w outer ∧
      ∃ inner, m'.guards = inner ++ around ∧ ∀ g ∈ inner, offset + outer.length < g.level := by
  induction xs generalizing levels m lines with
  | nil =>
      obtain ⟨-, rfl, rfl⟩ := readOn_nil_eq_ok.1 h
      exact ⟨hopens, hguards⟩
  | cons x xs ih =>
      obtain ⟨t, o, between, more, hfit, hheed, hmore, -⟩ := readOn_cons_eq_ok.1 h
      obtain ⟨ht, hdeeper⟩ := hopens.fit?_of_lt (hwider x List.mem_cons_self) hfit
      obtain ⟨inner, hinner, hbelow⟩ := hguards
      have hstanding : standing m.guards (offset + t.level) =
          standing inner (offset + t.level) ++ around := by
        rw [hinner]
        refine Feed.standing_append (fun g hg => ?_) inner
        have := haround g hg
        omega
      have hkept : ∀ g ∈ standing inner (offset + t.level), offset + outer.length < g.level :=
        fun g hg => hbelow g ((Feed.standing_suffix inner _).subset hg)
      refine ih ht ?_ (fun y hy => hwider y (List.mem_cons_of_mem _ hy)) hmore
      rcases guards_heed hheed with hsame | ⟨enabled, hnew⟩
      · exact ⟨_, hsame.trans hstanding, hkept⟩
      · refine ⟨⟨offset + t.level, enabled⟩ :: standing inner (offset + t.level), ?_, ?_⟩
        · rw [hnew, hstanding]
          rfl
        · simpa using ⟨hdeeper, hkept⟩

/-- What is delivered of a line wider than `w` is deeper than the level of `w`, when both are
lifted by the guards over them. -/
theorem lt_level_of_wider {y : LogicalLine} {first : Line} {inner : List Guard}
    (hopens : levels.Opens w outer) (haround : ∀ g ∈ around, g.level < offset + outer.length)
    (hnested : Nested m.guards) (hguards : m.guards = inner ++ around)
    (hbelow : ∀ g ∈ inner, offset + outer.length < g.level) (hwider : w < y.width)
    (h : m.readOn path offset levels [y] = .ok ([first], levels', m')) :
    offset + outer.length - around.length < first.level := by
  obtain ⟨t, o, between, more, hfit, hheed, hmore, hfirst⟩ := readOn_cons_eq_ok.1 h
  obtain ⟨rfl, -, -⟩ := readOn_nil_eq_ok.1 hmore
  obtain rfl : o = some first := by cases o <;> simp_all
  obtain ⟨-, hdeeper⟩ := hopens.fit?_of_lt hwider hfit
  obtain ⟨-, hlevel, -⟩ := level_heed hheed
  rw [hguards] at hnested
  obtain ⟨hinner, hnestedAround, -⟩ := List.pairwise_append.1 hnested
  have hstanding : standing m.guards (offset + t.level) =
      standing inner (offset + t.level) ++ around := by
    rw [hguards]
    refine Feed.standing_append (fun g hg => ?_) inner
    have := haround g hg
    omega
  -- The guards inside lie between the two levels, one at each level at most.
  have hinside : (standing inner (offset + t.level)).length ≤
      offset + t.level - (offset + outer.length + 1) :=
    (Nested.standing hinner _).length_le fun g hg =>
      ⟨hbelow g ((Feed.standing_suffix inner _).subset hg), Nested.lt_of_mem_standing hinner hg⟩
  have houtside : around.length ≤ offset + outer.length - 0 :=
    Nested.length_le hnestedAround fun g hg => ⟨Nat.zero_le _, haround g hg⟩
  rw [hlevel, hstanding, List.length_append]
  omega

end Memory

/-- The first line that is delivered from the block of a definition which no guard hides.
Before it, `before` is delivered; the definition would be lifted to `level`. -/
inductive DefinitionBlock (path text : String) (before : List Line) (level : Nat) (first : Line) :
    Prop
  | intro {earlier inside later : List LogicalLine} {definition y : LogicalLine}
      {levels t inner u : Levels} {m between after : Memory}
      (lines : logicalLines text = earlier ++ definition :: (inside ++ y :: later))
      (reached : Memory.empty.readOn path 0 .empty earlier = .ok (before, levels, m))
      (keyword : definition.keyword = "define" ∨ definition.keyword = "undef")
      (fits : levels.fit? definition.width = some t)
      (visible : isHidden (standing m.guards t.level) = false)
      (lifted : level = t.level - (standing m.guards t.level).length)
      (block : ∀ x ∈ inside ++ [y], definition.width < x.width)
      (silent : m.readOn path 0 levels (definition :: inside) = .ok ([], inner, between))
      (delivered : between.readOn path 0 inner [y] = .ok ([first], u, after))

namespace DefinitionBlock

variable {path text : String} {before : List Line} {level : Nat} {first : Line}

/-- The first line of the block stays deeper than the definition when both are lifted. -/
theorem lt_level (h : DefinitionBlock path text before level first) : level < first.level := by
  cases h with
  | @intro earlier inside later definition y levels t inner u m between after lines reached
      keyword fits visible lifted block silent delivered =>
  obtain ⟨t', o, own, more, hfit, hheed, hinside, -⟩ := Memory.readOn_cons_eq_ok.1 silent
  obtain rfl : t' = t := Option.some.inj (hfit.symm.trans fits)
  obtain ⟨outer, hopens, hlevel⟩ := Levels.opens_of_fit? hfit
  have hnested : Nested m.guards := Memory.nested_readOn Feed.nested_nil reached
  have haround : ∀ g ∈ standing m.guards t'.level, g.level < 0 + outer.length := by
    intro g hg
    have := hnested.lt_of_mem_standing hg
    omega
  have hown : own.guards = [] ++ standing m.guards t'.level := by
    rw [Nat.zero_add] at hheed
    refine Memory.guards_heed_of_ne ?_ hheed
    rcases keyword with keyword | keyword <;> simp [keyword]
  obtain ⟨hstill, innerGuards, hguards, hbelow⟩ := Memory.readOn_of_wider hopens haround
    ⟨[], hown, by simp⟩ (fun x hx => block x (List.mem_append_left _ hx)) hinside
  have hlt := Memory.lt_level_of_wider hstill haround (Memory.nested_readOn hnested silent)
    hguards hbelow (block y (by simp)) delivered
  omega

/-- What the source yields begins with the lines before the definition and the first line of
its block; all other lines stand elsewhere. -/
theorem exists_stream (h : DefinitionBlock path text before level first)
    (hplain : ∀ line ∈ logicalLines text, line.keyword ≠ "include") (library : Library) :
    ∃ s : Feed.Stream, Feed.stream library (.ofText library path text) =
        s.after (before ++ [first]) ∧ ∀ l ∈ s.lines, l.location ≠ first.location := by
  cases h with
  | @intro earlier inside later definition y levels t inner u m between after lines reached
      keyword fits visible lifted block silent delivered =>
  simp only [lines, List.forall_mem_append, List.forall_mem_cons] at hplain
  obtain ⟨hplainEarlier, hplainDefinition, hplainInside, hplainFirst, hplainLater⟩ := hplain
  let file := Feed.Opened.alone path (library.identify path)
  have hearlier : Feed.Run library (file.feed .empty .empty (earlier ++ definition :: (inside ++ y :: later)))
      before (file.feed levels m ((definition :: inside) ++ y :: later)) :=
    Feed.Opened.run_readOn reached hplainEarlier
  have hinside : Feed.Run library (file.feed levels m ((definition :: inside) ++ y :: later)) []
      (file.feed inner between ([y] ++ later)) :=
    Feed.Opened.run_readOn silent (List.forall_mem_cons.2 ⟨hplainDefinition, hplainInside⟩)
  have hfirst : Feed.Run library (file.feed inner between ([y] ++ later)) [first]
      (file.feed u after later) :=
    Feed.Opened.run_readOn delivered (by simpa using hplainFirst)
  have hrun := hearlier.append (hinside.append hfirst)
  rw [← lines, ← Feed.ofText_eq_alone] at hrun
  obtain ⟨s, hyields, hs⟩ := hrun.yields_rest (Feed.consistent_ofText library path text).yields_stream
  refine ⟨s, by simpa using hs, fun l hl heq => ?_⟩
  obtain ⟨x, hx, hplace⟩ := Feed.location_of_yields_alone hplainLater hyields l hl
  have hplaceFirst : first.location = ⟨path, y.number⟩ := by
    obtain ⟨_, o, _, more, -, hheed, hmore, hfirst⟩ := Memory.readOn_cons_eq_ok.1 delivered
    obtain ⟨rfl, -, -⟩ := Memory.readOn_nil_eq_ok.1 hmore
    obtain rfl : o = some first := by cases o <;> simp_all
    exact (Memory.level_heed hheed).2.2
  have hnumbers : (y :: later).Pairwise (·.number < ·.number) := by
    have hall := LogicalLine.pairwise_number_logicalLines text
    rw [lines] at hall
    exact hall.sublist (.trans (.trans (List.sublist_append_right inside _)
      (List.sublist_cons_self definition _)) (List.sublist_append_right earlier _))
  have hlt : y.number < x.number := List.rel_of_pairwise_cons hnumbers hx
  rw [hplace, hplaceFirst, Location.mk.injEq] at heq
  omega

end DefinitionBlock

namespace Forest

/-- The first line of a definition's block is the first error exactly when it lies more than
one level below the line that was delivered last. In a forest that is read it stands among the
lines before the definition, as every line stands under the nearest line before it that is
less deep. -/
theorem parseText_definition_block {library : Library} {path text : String} {before : List Line}
    {level : Nat} {first : Line}
    (hplain : ∀ line ∈ logicalLines text, line.keyword ≠ "include")
    (hblock : DefinitionBlock path text before level first)
    (hplaced : firstMisplaced? 0 before = none) :
    level < first.level ∧
      (parseText library path text = .error (.unexpectedNesting first.location) ↔
        ∀ last ∈ before.getLast?, last.level + 1 < first.level) ∧
      ∀ f, parseText library path text = .ok f →
        (∃ more, f.lines = before ++ first :: more) ∧
          ∀ xs y more, f.lines = xs ++ y :: more → 0 < y.level →
            ∃ outside x between, xs = outside ++ x :: between ∧ x.level + 1 = y.level ∧
              (∀ l ∈ between, y.level ≤ l.level) ∧ Parent f x y := by
  obtain ⟨s, hs, hplaces⟩ := hblock.exists_stream hplain library
  have hlevel := hblock.lt_level
  have hlines : (Feed.stream library (.ofText library path text)).lines =
      before ++ first :: s.lines := by simp [hs]
  refine ⟨hlevel, ⟨fun herror last hlast => ?_, fun hdeep => ?_⟩, fun f hf => ?_⟩
  · by_contra hle
    obtain ⟨l, hl, hplace⟩ := exists_of_ofStream_eq_unexpectedNesting
      (Feed.consistent_ofText library path text).yields_stream.failure_ne herror
    rw [hlines, firstMisplaced?_append_cons_of_le hplaced hlast (by omega)] at hl
    exact hplaces l (mem_of_firstMisplaced? hl) hplace
  · refine ofStream_of_misplaced ?_
    rw [hlines]
    exact firstMisplaced?_append_cons hplaced (fun _ => by omega) hdeep
  · obtain ⟨hall, -, rfl⟩ := ofStream_eq_ok.1 hf
    rw [lines_ofLines]
    refine ⟨⟨s.lines, hlines⟩, fun xs y more hxs hy => ?_⟩
    rw [hxs] at hall ⊢
    exact exists_parent hall hy

/-- The block of a definition that is itself inside a block, with a guard in it. -/
theorem parseText_definition_block_inside :
    let text := "iface a\n  define X\n    ifdef X\n      up true\n"
    let before : List Line := [⟨0, "iface a", ⟨"interfaces", 1⟩⟩]
    let first : Line := ⟨2, "up true", ⟨"interfaces", 4⟩⟩
    (∀ line ∈ logicalLines text, line.keyword ≠ "include") ∧
      DefinitionBlock "interfaces" text before 1 first ∧ firstMisplaced? 0 before = none ∧
      parseText (FileTree.library ⟨[], []⟩) "interfaces" text =
        .error (.unexpectedNesting ⟨"interfaces", 4⟩) := by
  intro text before first
  have hplain : ∀ line ∈ logicalLines text, line.keyword ≠ "include" := by decide
  have hlines : logicalLines text =
      [⟨1, 0, "iface a"⟩] ++ ⟨2, 2, "define X"⟩ :: ([⟨3, 4, "ifdef X"⟩] ++ ⟨4, 6, "up true"⟩ :: []) := by
    decide
  let inside : Memory := ⟨Catalog.insert .empty "X" "1", [⟨2, true⟩]⟩
  have hreached : Memory.empty.readOn "interfaces" 0 .empty [⟨1, 0, "iface a"⟩] =
      .ok (before, ⟨[0]⟩, .empty) := by decide +kernel
  have hsilent : Memory.empty.readOn "interfaces" 0 ⟨[0]⟩ [⟨2, 2, "define X"⟩, ⟨3, 4, "ifdef X"⟩] =
      .ok ([], ⟨[4, 2, 0]⟩, inside) := by decide +kernel
  have hdelivered : inside.readOn "interfaces" 0 ⟨[4, 2, 0]⟩ [⟨4, 6, "up true"⟩] =
      .ok ([first], ⟨[6, 4, 2, 0]⟩, inside) := by decide +kernel
  have hblock : DefinitionBlock "interfaces" text before 1 first :=
    .intro hlines hreached (.inl (by decide)) rfl rfl rfl (by decide) hsilent hdelivered
  have hplaced : firstMisplaced? 0 before = none := by decide
  exact ⟨hplain, hblock, hplaced,
    (parseText_definition_block hplain hblock hplaced).2.1.2 (by decide)⟩

/-- A definition on the level of the line before it leaves its block to that line. -/
theorem parseText_definition_block_attached :
    let text := "iface eth0\ndefine X\n    up true\n"
    let before : List Line := [⟨0, "iface eth0", ⟨"interfaces", 1⟩⟩]
    let first : Line := ⟨1, "up true", ⟨"interfaces", 3⟩⟩
    (∀ line ∈ logicalLines text, line.keyword ≠ "include") ∧
      DefinitionBlock "interfaces" text before 0 first ∧
      parseText (FileTree.library ⟨[], []⟩) "interfaces" text =
        .ok [.node ⟨0, "iface eth0", ⟨"interfaces", 1⟩⟩ [.node first []]] := by
  intro text before first
  have hplain : ∀ line ∈ logicalLines text, line.keyword ≠ "include" := by decide
  have hlines : logicalLines text =
      [⟨1, 0, "iface eth0"⟩] ++ ⟨2, 0, "define X"⟩ :: ([] ++ ⟨3, 4, "up true"⟩ :: []) := by decide
  let defined : Memory := ⟨Catalog.insert .empty "X" "1", []⟩
  have hreached : Memory.empty.readOn "interfaces" 0 .empty [⟨1, 0, "iface eth0"⟩] =
      .ok (before, ⟨[0]⟩, .empty) := by decide +kernel
  have hsilent : Memory.empty.readOn "interfaces" 0 ⟨[0]⟩ [⟨2, 0, "define X"⟩] =
      .ok ([], ⟨[0]⟩, defined) := by decide +kernel
  have hdelivered : defined.readOn "interfaces" 0 ⟨[0]⟩ [⟨3, 4, "up true"⟩] =
      .ok ([first], ⟨[4, 0]⟩, defined) := by decide +kernel
  have hall : Memory.empty.readOn "interfaces" 0 .empty (logicalLines text) =
      .ok (before ++ [first], ⟨[4, 0]⟩, defined) := by decide +kernel
  refine ⟨hplain, .intro hlines hreached (.inl (by decide)) rfl rfl rfl (by decide) hsilent
    hdelivered, ?_⟩
  rw [parseText_of_readOn hplain hall]
  rfl

end Forest

end NetHooks
