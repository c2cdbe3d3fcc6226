import NetHooks.Proofs.Forest
import NetHooks.Proofs.Source.Outline
import NetHooks.Proofs.Source.SingleFile
import NetHooks.Source.Library

/-!
# The forest of an outline

What a source without includes means, by recursion over its outline with the definitions
carried along (`Outline.forest`): a guard that holds is replaced by what is in its block, one
that fails is dropped with its block, definitions vanish, and any other line is kept over
what is kept of its block. Reading the source gives the same forest, or the same first error
(`Forest.parseText_eq_outline`).
-/
namespace NetHooks

namespace Outline

open Feed (standing isHidden Nested)

/-- The forest of the entries at the depth, and the definitions after them; `asks` tells
which guards ask for a definition that is there. Sources with include lines are left out. -/
def forest (asks : LogicalLine → Bool) (path : String) (depth : Nat) (d : Definitions) :
    Outline → Except SourceError (Forest × Definitions)
  | done => .ok ([], d)
  | entry line block after =>
      let l : Location := ⟨path, line.number⟩
      match Directive.read line.keyword line.text l with
      | .error e => .error e
      | .ok (some (.include _)) => forest asks path depth d after
      | .ok (some (.define identifier value)) =>
          forest asks path depth (d.insert identifier value) after
      | .ok (some (.undefine identifier)) => forest asks path depth (d.erase identifier) after
      | .ok (some (.guard identifier _)) =>
          if d.contains identifier == asks line then do
            let (inner, d) ← forest asks path depth d block
            let (rest, d) ← forest asks path depth d after
            return (inner ++ rest, d)
          else forest asks path depth d after
      | .ok none =>
          match d.substitute line.text with
          | .error key => .error (.unknownSubstitution key l)
          | .ok content => do
              let (children, d) ← forest asks path (depth + 1) d block
              let (rest, d) ← forest asks path depth d after
              return (.node ⟨depth, content, l⟩ children :: rest, d)

/-- The forest of the outline of a text. -/
def forestOf (asks : LogicalLine → Bool) (path text : String) : Except SourceError Forest :=
  ((ofLines (logicalLines text)).forest asks path 0 .empty).map (·.1)

/-- No definition has a block under it. -/
def DefinitionsBare : Outline → Prop
  | done => True
  | entry line block after =>
      (line.keyword = "define" ∨ line.keyword = "undef" → block = done) ∧
        block.DefinitionsBare ∧ after.DefinitionsBare

instance decidableDefinitionsBare : (o : Outline) → Decidable o.DefinitionsBare
  | done => inferInstanceAs (Decidable True)
  | entry line block after =>
      have := decidableDefinitionsBare block
      have := decidableDefinitionsBare after
      inferInstanceAs (Decidable ((line.keyword = "define" ∨ line.keyword = "undef" → block = done) ∧
        block.DefinitionsBare ∧ after.DefinitionsBare))

/-! ### Reading an outline -/

/-- Reading the placed lines gives the forest and leaves `base` for a line at level `n`, or
gives the error after lines that can stand at the depth. -/
def Gives (path : String) (m : Memory) (ps : List (Nat × LogicalLine)) (n depth : Nat)
    (base : List Guard) : Except SourceError (Forest × Definitions) → Prop
  | .error e => ∃ ls, Forest.Placed depth ls ∧ ∀ more, m.readAll path (ps ++ more) = ⟨ls, some e⟩
  | .ok (f, d) => Forest.Leveled depth f ∧ ∃ guards, standing guards n = base ∧
      ∀ more, m.readAll path (ps ++ more) =
        (Memory.readAll path ⟨d, guards⟩ more).after (Forest.lines f)

variable {path : String} {m m' : Memory} {ps qs : List (Nat × LogicalLine)} {n n' depth : Nat}
  {base base' : List Guard} {line : LogicalLine}
  {r : Except SourceError (Forest × Definitions)}
  {k : Definitions → Except SourceError (Forest × Definitions)}

theorem gives_nil {d : Definitions} {guards : List Guard} (h : standing guards n = base) :
    Gives path ⟨d, guards⟩ [] n depth base (.ok ([], d)) :=
  ⟨Forest.leveled_nil, guards, h, fun _ => rfl⟩

theorem Gives.congr (hread : ∀ more, m.readAll path (qs ++ more) = m'.readAll path (ps ++ more))
    (h : Gives path m' ps n depth base r) : Gives path m qs n depth base r := by
  cases r with
  | error e =>
      obtain ⟨ls, hls, h⟩ := h
      exact ⟨ls, hls, fun more => (hread more).trans (h more)⟩
  | ok result =>
      obtain ⟨hleveled, guards, hguards, h⟩ := h
      exact ⟨hleveled, guards, hguards, fun more => (hread more).trans (h more)⟩

/-- A line that is not delivered leaves the reading to the lines after it. -/
theorem Gives.quiet (hheed : m.heed n line ⟨path, line.number⟩ = .ok (none, m'))
    (h : Gives path m' ps n' depth base r) : Gives path m ((n, line) :: ps) n' depth base r := by
  refine h.congr fun more => ?_
  rw [List.cons_append, Memory.readAll, hheed]
  rfl

/-- One part after another. -/
theorem Gives.append (h : Gives path m ps n' depth base' r)
    (hbase : ∀ guards, standing guards n' = base' → standing guards n = base)
    (hk : ∀ d guards, standing guards n = base → Gives path ⟨d, guards⟩ qs n depth base (k d)) :
    Gives path m (ps ++ qs) n depth base (do
      let (f, d) ← r
      let (g, d) ← k d
      return (f ++ g, d)) := by
  cases r with
  | error e =>
      obtain ⟨ls, hls, h⟩ := h
      exact ⟨ls, hls, fun more => by rw [List.append_assoc, h]⟩
  | ok result =>
      obtain ⟨f, d⟩ := result
      obtain ⟨hleveled, guards, hguards, h⟩ := h
      have hrest := hk d guards (hbase guards hguards)
      change Gives path m (ps ++ qs) n depth base (k d >>= fun (g, d) => .ok (f ++ g, d))
      cases hkd : k d with
      | error e =>
          obtain ⟨ls, hls, h'⟩ := hkd ▸ hrest
          refine ⟨Forest.lines f ++ ls, hleveled.placed.append hls, fun more => ?_⟩
          rw [List.append_assoc, h, h']
          rfl
      | ok result =>
          obtain ⟨g, d'⟩ := result
          obtain ⟨hleveled', guards', hguards', h'⟩ := hkd ▸ hrest
          refine ⟨Forest.leveled_append.2 ⟨hleveled, hleveled'⟩, guards', hguards', fun more => ?_⟩
          rw [List.append_assoc, h, h', Feed.Stream.after_after, Forest.lines_append]

/-- A delivered line over what its block gives. -/
theorem Gives.keep {content : String} {l : Location}
    (hheed : m.heed n line ⟨path, line.number⟩ = .ok (some ⟨depth, content, l⟩, m'))
    (h : Gives path m' ps (n + 1) (depth + 1) base r) :
    Gives path m ((n, line) :: ps) (n + 1) depth base (do
      let (cs, d) ← r
      return ([.node ⟨depth, content, l⟩ cs], d)) := by
  have hread : ∀ more, m.readAll path ((n, line) :: ps ++ more) =
      (m'.readAll path (ps ++ more)).after [⟨depth, content, l⟩] := by
    intro more
    rw [List.cons_append, Memory.readAll, hheed]
    rfl
  cases r with
  | error e =>
      obtain ⟨ls, hls, h⟩ := h
      refine ⟨⟨depth, content, l⟩ :: ls, hls.cons rfl, fun more => ?_⟩
      rw [hread, h]
      rfl
  | ok result =>
      obtain ⟨hleveled, guards, hguards, h⟩ := h
      refine ⟨?_, guards, hguards, fun more => ?_⟩
      · exact Forest.leveled_cons.2 ⟨rfl, hleveled, Forest.leveled_nil⟩
      · rw [hread, h, Feed.Stream.after_after, Forest.lines_cons]
        simp

theorem Gives.keep_append {content : String} {l : Location}
    (hheed : m.heed n line ⟨path, line.number⟩ = .ok (some ⟨depth, content, l⟩, m'))
    (h : Gives path m' ps (n + 1) (depth + 1) base r)
    (hbase : ∀ guards, standing guards (n + 1) = base → standing guards n = base)
    (hk : ∀ d guards, standing guards n = base → Gives path ⟨d, guards⟩ qs n depth base (k d)) :
    Gives path m ((n, line) :: (ps ++ qs)) n depth base (do
      let (cs, d) ← r
      let (ts, d) ← k d
      return (.node ⟨depth, content, l⟩ cs :: ts, d)) := by
  have hwhole := (Gives.keep hheed h).append hbase hk
  cases r <;> exact hwhole

/-- A line that is wrong ends the reading. -/
theorem gives_error {e : SourceError}
    (hheed : m.heed n line ⟨path, line.number⟩ = .error e) :
    Gives path m ((n, line) :: ps) n depth base (.error e) :=
  ⟨[], Forest.placed_nil, fun more => by rw [List.cons_append, Memory.readAll, hheed]⟩

/-- Under a guard that fails nothing is read. -/
theorem readAll_under_guard {d : Definitions} (hps : ∀ p ∈ ps, n < p.1) (more : List (Nat × LogicalLine)) :
    Memory.readAll path ⟨d, ⟨n, false⟩ :: base⟩ (ps ++ more) =
      Memory.readAll path ⟨d, ⟨n, false⟩ :: base⟩ more := by
  induction ps with
  | nil => rfl
  | cons p ps ih =>
      have hp : ¬p.1 ≤ n := Nat.not_le_of_lt (hps p List.mem_cons_self)
      have hheed : Memory.heed ⟨d, ⟨n, false⟩ :: base⟩ p.1 p.2 ⟨path, p.2.number⟩ =
          .ok (none, ⟨d, ⟨n, false⟩ :: base⟩) := by
        simp [Memory.heed, standing, hp, isHidden]
      rw [List.cons_append, Memory.readAll, hheed]
      exact ih fun q hq => hps q (List.mem_cons_of_mem _ hq)

/-! ### The forest is what is read -/

/-- Where no guard hides a line, the guards over it are as if they were alone. -/
theorem heed_eq {d : Definitions} {guards : List Guard} {l : Location} (hguards : standing guards n = base)
    (hhidden : isHidden base = false) : Memory.heed ⟨d, guards⟩ n line l =
      match Directive.read line.keyword line.text l with
      | .error e => .error e
      | .ok (some directive) => .ok (none, Memory.follow ⟨d, base⟩ n directive)
      | .ok none =>
          match d.substitute line.text with
          | .error key => .error (.unknownSubstitution key l)
          | .ok content => .ok (some ⟨n - base.length, content, l⟩, ⟨d, base⟩) := by
  cases hread : Directive.read line.keyword line.text l with
  | error e => simp [Memory.heed, hguards, hhidden, hread]
  | ok d? =>
      cases d? with
      | some directive => simp [Memory.heed, hguards, hhidden, hread]
      | none =>
          cases hcontent : d.substitute line.text <;>
            simp [Memory.heed, hguards, hhidden, hread, hcontent]

theorem standing_of_succ {guards deeper : List Guard} (h : standing guards (n + 1) = deeper)
    (hdeeper : standing deeper n = base) : standing guards n = base := by
  rw [← Feed.standing_standing (Nat.le_succ n), h, hdeeper]

/-- What an outline gives when the guards over its entries hold: its forest. -/
theorem gives_forest {asks : LogicalLine → Bool} {o : Outline} {d : Definitions} {guards : List Guard}
    (habove : ∀ g ∈ base, g.level < n) (hhidden : isHidden base = false)
    (hdepth : base.length + depth = n) (hguards : standing guards n = base)
    (hplain : ∀ line ∈ o.lines, line.keyword ≠ "include") (hbare : o.DefinitionsBare)
    (hasks : ∀ line ∈ o.lines, asks line = line.readsPresence) :
    Gives path ⟨d, guards⟩ (o.placed n) n depth base (o.forest asks path depth d) := by
  induction o generalizing n depth base d guards with
  | done => exact gives_nil hguards
  | entry line block after ihBlock ihAfter =>
      simp only [lines, List.forall_mem_cons, List.forall_mem_append] at hplain hasks
      obtain ⟨hplainLine, hplainBlock, hplainAfter⟩ := hplain
      obtain ⟨hasksLine, hasksBlock, hasksAfter⟩ := hasks
      obtain ⟨hbareLine, hbareBlock, hbareAfter⟩ := hbare
      have hstanding : standing base n = base := Feed.standing_of_forall_lt habove
      have hafter : ∀ d guards, standing guards n = base →
          Gives path ⟨d, guards⟩ (after.placed n) n depth base (after.forest asks path depth d) :=
        fun d guards h => ihAfter habove hhidden hdepth h hplainAfter hbareAfter hasksAfter
      have hheed := @heed_eq n base line d guards ⟨path, line.number⟩ hguards hhidden
      rw [placed, forest]
      cases hread : Directive.read line.keyword line.text ⟨path, line.number⟩ with
      | error e => exact gives_error (by rw [hheed, hread])
      | ok directive? =>
          rw [hread] at hheed
          cases directive? with
          | some directive =>
              obtain ⟨first, operands, -, hspells⟩ := Directive.spells_of_read hread
              refine Gives.quiet hheed ?_
              cases directive with
              | «include» target => exact absurd (Directive.keyword_of_read_include hread) hplainLine
              | define identifier value =>
                  have hkeyword : line.keyword = "define" := by cases hspells <;> assumption
                  rw [hbareLine (.inl hkeyword)]
                  exact hafter _ base hstanding
              | undefine identifier =>
                  have hkeyword : line.keyword = "undef" := by cases hspells; assumption
                  rw [hbareLine (.inr hkeyword)]
                  exact hafter _ base hstanding
              | guard identifier wanted =>
                  obtain rfl : asks line = wanted :=
                    hasksLine.trans (LogicalLine.readsPresence_of_read hread)
                  have hpopped : ∀ enabled, standing (⟨n, enabled⟩ :: base) n = base := by
                    simpa [standing] using hstanding
                  simp only [Memory.follow]
                  cases hheld : d.contains identifier == asks line with
                  | true =>
                      have hblock : Gives path ⟨d, ⟨n, true⟩ :: base⟩ (block.placed (n + 1)) (n + 1) depth
                          (⟨n, true⟩ :: base) (block.forest asks path depth d) := by
                        refine ihBlock ?_ rfl ?_ ?_ hplainBlock hbareBlock hasksBlock
                        · simpa using fun g hg => Nat.lt_succ_of_lt (habove g hg)
                        · rw [List.length_cons]
                          omega
                        · simp [standing]
                      exact hblock.append (fun guards h => standing_of_succ h (hpopped true)) hafter
                  | false =>
                      refine (hafter d _ (hpopped false)).congr fun more => ?_
                      rw [List.append_assoc, readAll_under_guard fun p hp => le_of_mem_placed hp]
          | none =>
              cases hcontent : d.substitute line.text with
              | error key => exact gives_error (by rw [hheed]; simp [hcontent])
              | ok content =>
                  have hlevel : n - base.length = depth := by omega
                  simp only [hcontent, hlevel] at hheed
                  have hdeeper : ∀ g ∈ base, g.level < n + 1 := fun g hg =>
                    Nat.lt_succ_of_lt (habove g hg)
                  have hblock : Gives path ⟨d, base⟩ (block.placed (n + 1)) (n + 1) (depth + 1) base
                      (block.forest asks path (depth + 1) d) :=
                    ihBlock hdeeper hhidden (by omega) (Feed.standing_of_forall_lt hdeeper)
                      hplainBlock hbareBlock hasksBlock
                  exact hblock.keep_append hheed (fun guards h => standing_of_succ h hstanding) hafter

theorem neverMisplaced_forest (asks : LogicalLine → Bool) (o : Outline) (d : Definitions) :
    NeverMisplaced (o.forest asks path depth d) := by
  induction o generalizing depth d with
  | done => exact .ok _
  | entry line block after ihBlock ihAfter =>
      have hread := @NeverMisplaced.read ⟨path, line.number⟩ line.keyword line.text
      rw [forest]
      split
      next e he => exact .error fun place heq => hread place (heq ▸ he)
      · exact ihAfter d
      · exact ihAfter _
      · exact ihAfter _
      · split
        · exact (ihBlock d).bind fun _ => (ihAfter _).bind fun _ => .ok _
        · exact ihAfter d
      · split
        · exact .error fun _ => nofun
        · exact (ihBlock d).bind fun _ => (ihAfter _).bind fun _ => .ok _

/-- What is given is built into the same forest, with every level a depth. -/
theorem Gives.ofStream_eq (h : Gives path m ps n 0 base r) :
    Forest.ofStream (m.readAll path ps) = r.map (·.1) ∧
      ∀ f, r.map (·.1) = .ok f → Forest.Leveled 0 f := by
  cases r with
  | error e =>
      obtain ⟨ls, hls, h⟩ := h
      have hread : m.readAll path ps = ⟨ls, some e⟩ := by simpa using h []
      rw [hread, Forest.ofStream, hls.none_misplaced]
      refine ⟨rfl, fun f hf => ?_⟩
      cases hf
  | ok result =>
      obtain ⟨f, d⟩ := result
      obtain ⟨hleveled, guards, -, h⟩ := h
      have hread : m.readAll path ps = ⟨Forest.lines f, none⟩ := by
        simpa [Memory.readAll, Feed.Stream.after] using h []
      rw [hread, Forest.ofStream, hleveled.placed.none_misplaced]
      simp only [Forest.ofLines_lines hleveled]
      exact ⟨rfl, fun g hg => Except.ok.inj hg ▸ hleveled⟩

/-- Reading a source by itself gives the forest of its outline, or the first error of it. -/
theorem parseText_eq_forest {library : Library} {text : String} {asks : LogicalLine → Bool}
    (hfits : none ∉ Indentation.levelsOf .empty ((logicalLines text).map (·.width)))
    (hplain : ∀ line ∈ logicalLines text, line.keyword ≠ "include")
    (hbare : (ofLines (logicalLines text)).DefinitionsBare)
    (hasks : ∀ line ∈ logicalLines text, asks line = line.readsPresence) :
    Forest.parseText library path text = forestOf asks path text ∧
      ∀ f, Forest.parseText library path text = .ok f → Forest.Leveled 0 f := by
  have hlines := lines_ofLines (logicalLines text)
  have hgives : Gives path .empty ((ofLines (logicalLines text)).placed 0) 0 0 []
      ((ofLines (logicalLines text)).forest asks path 0 .empty) :=
    gives_forest (by simp) rfl rfl rfl (by simpa [hlines] using hplain) hbare
      (by simpa [hlines] using hasks)
  have hsnd : ((ofLines (logicalLines text)).placed 0).map (·.2) = logicalLines text := by
    rw [map_snd_placed, hlines]
  have hlevels : Indentation.levelsOf .empty
      (((ofLines (logicalLines text)).placed 0).map (·.2.width)) =
        ((ofLines (logicalLines text)).placed 0).map (some ·.1) := by
    have hwidths := congrArg (List.map LogicalLine.width) hsnd
    rw [List.map_map] at hwidths
    exact (congrArg (Indentation.levelsOf .empty) hwidths).trans (levelsOf_ofLines hfits)
  have hyields : Feed.Yields library ((Feed.Opened.alone path (library.identify path)).feed
        .empty .empty (((ofLines (logicalLines text)).placed 0).map (·.2)))
      (Memory.empty.readAll path ((ofLines (logicalLines text)).placed 0)) := by
    refine Feed.yields_alone hlevels fun p hp => hplain p.2 ?_
    rw [← hsnd]
    exact List.mem_map_of_mem hp
  rw [hsnd, ← Feed.ofText_eq_alone] at hyields
  rw [Forest.parseText_of_yields hyields, hgives.ofStream_eq.1]
  exact ⟨rfl, hgives.ofStream_eq.2⟩

end Outline

namespace Forest

/-- Reading a source that includes nothing, whose lines fit and whose definitions have no
blocks, gives the forest of its outline or its first error. Each guard is taken as it is
spelled when separators stand around the keyword of each `ifdef`. No line is misplaced, and
every line that is kept stands at its depth. -/
theorem parseText_eq_outline {library : Library} {path text : String}
    (hfits : none ∉ Indentation.levelsOf .empty ((logicalLines text).map (·.width)))
    (hplain : ∀ line ∈ logicalLines text, line.keyword ≠ "include")
    (hbare : (Outline.ofLines (logicalLines text)).DefinitionsBare) :
    parseText library path text = Outline.forestOf LogicalLine.readsPresence path text ∧
      ((∀ line ∈ logicalLines text, line.keyword = "ifdef" →
          Words.isSeparated line.text.toList = true) →
        parseText library path text = Outline.forestOf LogicalLine.asksPresence path text) ∧
      (∀ place, parseText library path text ≠ .error (.unexpectedNesting place)) ∧
      ∀ f, parseText library path text = .ok f → Leveled 0 f := by
  obtain ⟨hread, hleveled⟩ := @Outline.parseText_eq_forest path library text
    LogicalLine.readsPresence hfits hplain hbare fun _ _ => rfl
  refine ⟨hread, fun hseparated => ?_, fun place => ?_, hleveled⟩
  · refine (Outline.parseText_eq_forest hfits hplain hbare fun line hline => ?_).1
    have hline := hseparated line hline
    simp only [LogicalLine.readsPresence, LogicalLine.asksPresence]
    cases hkeyword : decide (line.keyword = "ifdef") with
    | true => rw [hline (of_decide_eq_true hkeyword), Bool.and_true]
    | false => rfl
  · rw [hread]
    exact (Outline.neverMisplaced_forest _ _ _).map _ place

/-- A source with guards inside a block and a definition between guards. -/
theorem parseText_eq_outline_nested :
    let text := "ifdef X\n  iface a\ndefine X\nifdef X\n  iface b\n    ifndef X\n      down\n    up true\n"
    none ∉ Indentation.levelsOf .empty ((logicalLines text).map (·.width)) ∧
      (∀ line ∈ logicalLines text, line.keyword ≠ "include") ∧
      (Outline.ofLines (logicalLines text)).DefinitionsBare ∧
      (∀ line ∈ logicalLines text, line.keyword = "ifdef" →
          Words.isSeparated line.text.toList = true) ∧
      (parseText (FileTree.library ⟨[], []⟩) "interfaces" text).map flatten =
        .ok [(0, ⟨0, "iface b", ⟨"interfaces", 5⟩⟩), (1, ⟨1, "up true", ⟨"interfaces", 8⟩⟩)] := by
  intro text
  have hfits : none ∉ Indentation.levelsOf .empty ((logicalLines text).map (·.width)) := by decide
  have hplain : ∀ line ∈ logicalLines text, line.keyword ≠ "include" := by decide
  have hbare : (Outline.ofLines (logicalLines text)).DefinitionsBare := by decide
  have hseparated : ∀ line ∈ logicalLines text, line.keyword = "ifdef" →
      Words.isSeparated line.text.toList = true := by decide
  refine ⟨hfits, hplain, hbare, hseparated, ?_⟩
  rw [(parseText_eq_outline hfits hplain hbare).2.1 hseparated]
  decide +kernel

/-- A form feed before `ifdef` is no separator, and the guard asks for the opposite. -/
theorem parseText_ne_outline_form_feed :
    let text := "\x0cifdef X\n  iface a\n"
    none ∉ Indentation.levelsOf .empty ((logicalLines text).map (·.width)) ∧
      (∀ line ∈ logicalLines text, line.keyword ≠ "include") ∧
      (Outline.ofLines (logicalLines text)).DefinitionsBare ∧
      parseText (FileTree.library ⟨[], []⟩) "interfaces" text ≠
        Outline.forestOf LogicalLine.asksPresence "interfaces" text := by
  intro text
  have hfits : none ∉ Indentation.levelsOf .empty ((logicalLines text).map (·.width)) := by decide
  have hplain : ∀ line ∈ logicalLines text, line.keyword ≠ "include" := by decide
  have hbare : (Outline.ofLines (logicalLines text)).DefinitionsBare := by decide
  refine ⟨hfits, hplain, hbare, fun heq => ?_⟩
  rw [(@Outline.parseText_eq_forest _ _ _ LogicalLine.readsPresence hfits hplain hbare
    fun _ _ => rfl).1] at heq
  have hflat := congrArg (Except.map flatten) heq
  revert hflat
  decide +kernel

end Forest

end NetHooks
