import NetHooks.Proofs.LogicalLine
import NetHooks.Proofs.Text

/-!
# Continued lines

Whether a logical line goes on is decided by its last physical line alone: it does when that line
ends in an odd number of backslashes. The text gathered so far does not matter, because it always
ends in an even number (`continues_append`). So the logical lines of a source are what the rules
say of one physical line after another (`Follows`): their numbers ascend, and each has a text
without line feeds that ends in a character that is not blank (`logicalLines_outcome`).
-/
namespace NetHooks.LogicalLine

open Text (isBlank)

/-- A physical line and its number. -/
abbrev Numbered := List Char × Nat

def isIndent (c : Char) : Bool :=
  c == ' ' || c == '\t'

/-- The spaces and tabs that a line begins with. -/
def indentOf (p : List Char) : List Char :=
  p.takeWhile isIndent

/-- The line by itself ends in an odd number of backslashes. -/
def EndsOdd (p : List Char) : Prop :=
  ∃ body n, p = body ++ List.replicate (2 * n + 1) '\\' ∧ body.getLast? ≠ some '\\'

/-- A line that is dropped where no logical line is open: a blank one, or a comment. -/
def IsDropped (p : List Char) : Prop :=
  (∀ c ∈ p, isBlank c = true) ∨ ∃ comment, p = indentOf p ++ '#' :: comment

/-- The first physical lines make one logical line with this text, and the others are left. -/
inductive Joins : List Numbered → List Char → List Numbered → Prop
  | last {p : List Char} {n : Nat} {ps : List Numbered} (ends : ¬EndsOdd p) :
      Joins ((p, n) :: ps) p ps
  | atEnd {p : List Char} {n : Nat} (continues : EndsOdd p) : Joins [(p, n)] p.dropLast []
  | join {p text : List Char} {n : Nat} {ps rest : List Numbered} (continues : EndsOdd p)
      (next : Joins ps text rest) : Joins ((p, n) :: ps) (p.dropLast ++ text) rest

/-- The logical lines of physical lines, taken from the first on. -/
inductive Follows : List Numbered → List LogicalLine → Prop
  | nil : Follows [] []
  | dropped {p : List Char} {n : Nat} {ps : List Numbered} {ls : List LogicalLine}
      (skipped : IsDropped p) (rest : Follows ps ls) : Follows ((p, n) :: ps) ls
  | line {p text blanks : List Char} {c : Char} {n : Nat} {ps after : List Numbered}
      {ls : List LogicalLine} (opens : ¬IsDropped p)
      (joins : Joins ((p, n) :: ps) (indentOf p ++ (text ++ blanks)) after)
      (cut : ∀ b ∈ blanks, isBlank b = true) (last : text.getLast? = some c)
      (solid : isBlank c = false) (rest : Follows after ls) :
      Follows ((p, n) :: ps) (⟨n, (Indentation.measure p).1, String.ofList text⟩ :: ls)
  | hollow {p blanks : List Char} {n : Nat} {ps after : List Numbered} {ls : List LogicalLine}
      (opens : ¬IsDropped p) (joins : Joins ((p, n) :: ps) (indentOf p ++ blanks) after)
      (cut : ∀ b ∈ blanks, isBlank b = true) (rest : Follows after ls) : Follows ((p, n) :: ps) ls

variable {p text kept : List Char} {n : Nat} {ps rest : List Numbered} {ls : List LogicalLine}

/-! ### Backslashes -/

/-- The number of backslashes that a text ends in. -/
def slashes (text : List Char) : Nat :=
  (text.reverse.takeWhile (· == '\\')).length

theorem continues_eq (text : List Char) : continues text = (slashes text % 2 == 1) := rfl

theorem slashes_append_replicate {body : List Char} (h : body.getLast? ≠ some '\\') (k : Nat) :
    slashes (body ++ List.replicate k '\\') = k := by
  have hbody : body.reverse.takeWhile (· == '\\') = [] := by
    rw [← List.head?_reverse] at h
    cases hrev : body.reverse with
    | nil => rfl
    | cons c cs =>
        rw [hrev] at h
        exact List.takeWhile_cons_of_neg (by simpa using h)
  rw [slashes, List.reverse_append, List.reverse_replicate, List.takeWhile_append_of_pos (by simp),
    hbody, List.append_nil, List.length_replicate]

theorem exists_eq_append_replicate (text : List Char) :
    ∃ body, text = body ++ List.replicate (slashes text) '\\' ∧ body.getLast? ≠ some '\\' := by
  have hslashes : text.rtakeWhile (· == '\\') = List.replicate (slashes text) '\\' :=
    List.eq_replicate_iff.2 ⟨List.length_reverse, fun c hc => by
      simpa using List.mem_rtakeWhile_imp hc⟩
  refine ⟨text.rdropWhile (· == '\\'), ?_, fun hlast => ?_⟩
  · rw [← hslashes, List.rdropWhile_append_rtakeWhile]
  · obtain ⟨before, hbody⟩ := List.getLast?_eq_some_iff.1 hlast
    have hstop := List.rdropWhile_last_not (· == '\\') text (by simp [hbody])
    simp [hbody] at hstop

theorem continues_iff : continues p = true ↔ EndsOdd p := by
  rw [continues_eq, beq_iff_eq]
  constructor
  · intro h
    obtain ⟨body, hp, hbody⟩ := exists_eq_append_replicate p
    refine ⟨body, slashes p / 2, ?_, hbody⟩
    rw [show 2 * (slashes p / 2) + 1 = slashes p by omega]
    exact hp
  · rintro ⟨body, n, rfl, hbody⟩
    rw [slashes_append_replicate hbody]
    omega

/-- After a text that ends in an even number of backslashes, only what is appended counts. -/
theorem continues_append (h : continues kept = false) (p : List Char) :
    continues (kept ++ p) = continues p := by
  have heven : slashes kept % 2 ≠ 1 := by simpa [continues_eq] using h
  obtain ⟨body, hp, hbody⟩ := exists_eq_append_replicate p
  have hcount : slashes (kept ++ p) % 2 = slashes p % 2 := by
    cases body with
    | nil =>
        obtain ⟨before, hkept, hbefore⟩ := exists_eq_append_replicate kept
        have htext : kept ++ p = before ++ List.replicate (slashes kept + slashes p) '\\' := by
          rw [List.replicate_add, ← List.append_assoc, ← hkept,
            ← List.nil_append (List.replicate _ _), ← hp]
        rw [htext, slashes_append_replicate hbefore]
        omega
    | cons c body =>
        have hlast : (kept ++ c :: body).getLast? ≠ some '\\' := by
          rwa [List.getLast?_append_of_ne_nil _ (List.cons_ne_nil _ _)]
        have htext : kept ++ p = (kept ++ c :: body) ++ List.replicate (slashes p) '\\' := by
          rw [List.append_assoc, ← hp]
        rw [htext, slashes_append_replicate hlast]
  rw [continues_eq, continues_eq, hcount]

/-- Without its last backslash, a text that went on ends in an even number. -/
theorem continues_dropLast (h : continues text = true) : continues text.dropLast = false := by
  obtain ⟨body, n, rfl, hbody⟩ := continues_iff.1 h
  have hdrop : (body ++ List.replicate (2 * n + 1) '\\').dropLast =
      body ++ List.replicate (2 * n) '\\' := by
    rw [List.replicate_succ', ← List.append_assoc, List.dropLast_concat]
  rw [hdrop, continues_eq, slashes_append_replicate hbody]
  simp

theorem ne_nil_of_continues (h : continues p = true) : p ≠ [] := by
  rintro rfl
  cases h

/-! ### Indentation -/

theorem measureFrom_snd (width : Nat) (p : List Char) :
    (Indentation.measureFrom width p).2 = p.dropWhile isIndent := by
  fun_induction Indentation.measureFrom width p with
  | case1 width rest ih => exact ih
  | case2 width rest ih => exact ih
  | case3 width p hspace htab =>
      cases p with
      | nil => rfl
      | cons c p =>
          have hc : isIndent c = false := by
            rw [isIndent, Bool.or_eq_false_iff, beq_eq_false_iff_ne, beq_eq_false_iff_ne]
            exact ⟨fun h => hspace p (h ▸ rfl), fun h => htab p (h ▸ rfl)⟩
          exact (List.dropWhile_cons_of_neg (by simp [hc])).symm

theorem indentOf_append_measure (p : List Char) : indentOf p ++ (Indentation.measure p).2 = p := by
  rw [Indentation.measure, measureFrom_snd, indentOf, List.takeWhile_append_dropWhile]

theorem isIndent_of_mem_indentOf {c : Char} (h : c ∈ indentOf p) : isIndent c = true :=
  List.mem_takeWhile_imp h

theorem isBlank_of_isIndent {c : Char} (h : isIndent c = true) : isBlank c = true := by
  rw [isIndent, Bool.or_eq_true, beq_iff_eq, beq_iff_eq] at h
  rcases h with rfl | rfl <;> rfl

/-- An indentation has no backslashes. -/
theorem continues_indentOf (p : List Char) : continues (indentOf p) = false := by
  rw [Bool.eq_false_iff, ne_eq, continues_iff]
  rintro ⟨body, n, hindent, -⟩
  have hslash : '\\' ∈ indentOf p := by
    rw [hindent, List.replicate_succ']
    simp
  cases isIndent_of_mem_indentOf hslash

theorem isSkipped_measure_iff : isSkipped (Indentation.measure p).2 = true ↔ IsDropped p := by
  have hp := indentOf_append_measure p
  have hblank : (Text.trim (Indentation.measure p).2).isEmpty = true ↔
      ∀ c ∈ p, isBlank c = true := by
    rw [List.isEmpty_iff, Text.trim_eq_nil_iff]
    conv_rhs => rw [← hp, List.forall_mem_append]
    exact (and_iff_right fun c hc => isBlank_of_isIndent (isIndent_of_mem_indentOf hc)).symm
  have hcomment : ((Indentation.measure p).2.head? == some '#') = true ↔
      ∃ comment, p = indentOf p ++ '#' :: comment := by
    rw [beq_iff_eq, List.head?_eq_some_iff]
    constructor
    · rintro ⟨comment, hrest⟩
      exact ⟨comment, by rw [← hrest, hp]⟩
    · rintro ⟨comment, hsplit⟩
      exact ⟨comment, List.append_cancel_left (hp.trans hsplit)⟩
  rw [isSkipped, Bool.or_eq_true, hblank, hcomment, IsDropped]

/-! ### Joining -/

theorem dropLast_append_of_continues (h : continues p = true) (kept : List Char) :
    (kept ++ p).dropLast = kept ++ p.dropLast :=
  List.dropLast_append_of_ne_nil (ne_nil_of_continues h)

/-- An indentation stays in front of the text of its line. -/
theorem joins_append_iff (h : continues kept = false) :
    Joins ((kept ++ p, n) :: ps) (kept ++ text) rest ↔ Joins ((p, n) :: ps) text rest := by
  have hends : EndsOdd (kept ++ p) ↔ EndsOdd p := by
    rw [← continues_iff, ← continues_iff, continues_append h]
  constructor
  · generalize hline : kept ++ p = line
    generalize hjoined : kept ++ text = joined
    intro hjoins
    cases hjoins with
    | last ends =>
        obtain rfl := List.append_cancel_left (hjoined.trans hline.symm)
        exact .last (hends.not.1 (hline ▸ ends))
    | atEnd continues =>
        have hp := hends.1 (hline ▸ continues)
        rw [← hline, dropLast_append_of_continues (continues_iff.2 hp)] at hjoined
        obtain rfl := List.append_cancel_left hjoined
        exact .atEnd hp
    | join continues next =>
        have hp := hends.1 (hline ▸ continues)
        rw [← hline, dropLast_append_of_continues (continues_iff.2 hp), List.append_assoc]
          at hjoined
        obtain rfl := List.append_cancel_left hjoined
        exact .join hp next
  · intro hjoins
    cases hjoins with
    | last ends => exact .last (hends.not.2 ends)
    | atEnd continues =>
        rw [← dropLast_append_of_continues (continues_iff.2 continues)]
        exact .atEnd (hends.2 continues)
    | join continues next =>
        rw [← List.append_assoc, ← dropLast_append_of_continues (continues_iff.2 continues)]
        exact .join (hends.2 continues) next

theorem exists_joins (p : List Char) (n : Nat) (ps : List Numbered) :
    ∃ text rest, Joins ((p, n) :: ps) text rest ∧ rest.length ≤ ps.length := by
  induction ps generalizing p n with
  | nil =>
      by_cases hends : EndsOdd p
      · exact ⟨_, _, .atEnd hends, Nat.le_refl _⟩
      · exact ⟨_, _, .last hends, Nat.le_refl _⟩
  | cons q ps ih =>
      by_cases hends : EndsOdd p
      · obtain ⟨text, rest, hjoins, hlength⟩ := ih q.1 q.2
        exact ⟨_, _, .join hends hjoins, Nat.le_succ_of_le hlength⟩
      · exact ⟨_, _, .last hends, Nat.le_refl _⟩

theorem eq_cons_of_zipIdx {lines : List (List Char)} {k : Nat} (h : lines.zipIdx n = (p, k) :: ps) :
    k = n ∧ ∃ more, lines = p :: more ∧ ps = more.zipIdx (n + 1) := by
  cases lines with
  | nil => cases h
  | cons q more =>
      cases h
      exact ⟨rfl, more, rfl, rfl⟩

theorem gather_some_cons (n : Nat) (d : Draft) (p : List Char) (lines : List (List Char)) :
    gather n (some d) (p :: lines) =
      if continues (d.text ++ p) then
        gather (n + 1) (some { d with text := (d.text ++ p).dropLast }) lines
      else { d with text := d.text ++ p } :: gather (n + 1) none lines := by
  rw [gather]

/-- A line that is not dropped is taken up by an empty one. -/
theorem gather_none_cons (n : Nat) (p : List Char) (lines : List (List Char)) :
    gather n none (p :: lines) =
      if isSkipped (Indentation.measure p).2 then gather (n + 1) none lines
      else gather n (some ⟨n, (Indentation.measure p).1, []⟩)
        ((Indentation.measure p).2 :: lines) := by
  rw [gather, gather_some_cons]
  rfl

/-- The line that is open takes up what its physical lines make. -/
theorem gather_some {d : Draft} {lines : List (List Char)} (hd : continues d.text = false)
    (h : Joins (lines.zipIdx n) text rest) : ∃ m left, rest = left.zipIdx m ∧
      gather n (some d) lines = { d with text := d.text ++ text } :: gather m none left := by
  generalize hlines : lines.zipIdx n = numbered at h
  induction h generalizing n d lines with
  | @last p k ps ends =>
      obtain ⟨rfl, lines, rfl, rfl⟩ := eq_cons_of_zipIdx hlines
      have hstop : ¬continues (d.text ++ p) = true := by
        rwa [continues_append hd, continues_iff]
      exact ⟨_, lines, rfl, by rw [gather_some_cons, if_neg hstop]⟩
  | @atEnd p k ends =>
      obtain ⟨rfl, lines, rfl, hnone⟩ := eq_cons_of_zipIdx hlines
      obtain rfl : lines = [] := by simpa using hnone.symm
      have hp := continues_iff.2 ends
      have hgoes : continues (d.text ++ p) = true := by rwa [continues_append hd]
      refine ⟨0, [], rfl, ?_⟩
      rw [gather_some_cons, if_pos hgoes, dropLast_append_of_continues hp, gather, gather]
  | @join p text k ps rest ends next ih =>
      obtain ⟨rfl, lines, rfl, rfl⟩ := eq_cons_of_zipIdx hlines
      have hp := continues_iff.2 ends
      have hgoes : continues (d.text ++ p) = true := by rwa [continues_append hd]
      let d' : Draft := { d with text := (d.text ++ p).dropLast }
      obtain ⟨m, left, hrest, hgather⟩ := ih (d := d') (continues_dropLast hgoes) rfl
      refine ⟨m, left, hrest, ?_⟩
      rw [gather_some_cons, if_pos hgoes, hgather]
      simp only [d', dropLast_append_of_continues hp, List.append_assoc]

/-- A line opens with the text after its indentation. -/
theorem gather_none {p : List Char} {lines : List (List Char)} (hopens : ¬IsDropped p)
    (h : Joins ((p :: lines).zipIdx n) (indentOf p ++ text) rest) : ∃ m left, rest = left.zipIdx m ∧
      gather n none (p :: lines) =
        ⟨n, (Indentation.measure p).1, text⟩ :: gather m none left := by
  have hkept : ¬isSkipped (Indentation.measure p).2 = true := isSkipped_measure_iff.not.2 hopens
  have hjoins : Joins (((Indentation.measure p).2 :: lines).zipIdx n) text rest := by
    rw [List.zipIdx_cons] at h ⊢
    exact (joins_append_iff (continues_indentOf p)).1 (by rwa [indentOf_append_measure])
  rw [gather_none_cons, if_neg hkept]
  exact gather_some rfl hjoins

/-! ### Following the lines -/

theorem exists_follows (ps : List Numbered) : ∃ ls, Follows ps ls := by
  induction hn : ps.length using Nat.strong_induction_on generalizing ps with
  | _ n ih =>
      subst hn
      cases ps with
      | nil => exact ⟨[], .nil⟩
      | cons q ps =>
          obtain ⟨p, n⟩ := q
          by_cases hdropped : IsDropped p
          · obtain ⟨ls, hls⟩ := ih ps.length (Nat.lt_succ_self _) ps rfl
            exact ⟨ls, .dropped hdropped hls⟩
          · obtain ⟨text, rest, hjoins, hlength⟩ := exists_joins (Indentation.measure p).2 n ps
            have hwhole := (joins_append_iff (continues_indentOf p)).2 hjoins
            rw [indentOf_append_measure] at hwhole
            obtain ⟨ls, hls⟩ := ih rest.length (Nat.lt_succ_of_le hlength) rest rfl
            rw [← List.rdropWhile_append_rtakeWhile (p := isBlank) (l := text)] at hwhole
            have hcut : ∀ b ∈ text.rtakeWhile isBlank, isBlank b = true := fun b =>
              List.mem_rtakeWhile_imp
            by_cases hhollow : text.rdropWhile isBlank = []
            · rw [hhollow, List.nil_append] at hwhole
              exact ⟨ls, .hollow hdropped hwhole hcut hls⟩
            · have hsolid := List.rdropWhile_last_not isBlank text hhollow
              exact ⟨_, .line hdropped hwhole hcut (List.getLast?_eq_some_getLast hhollow)
                (Bool.eq_false_iff.2 hsolid) hls⟩

theorem finish_of_solid {number width : Nat} {text blanks : List Char} {c : Char}
    (cut : ∀ b ∈ blanks, isBlank b = true) (last : text.getLast? = some c)
    (solid : isBlank c = false) :
    finish ⟨number, width, text ++ blanks⟩ = some ⟨number, width, String.ofList text⟩ := by
  have htrim : Text.trimEnd (text ++ blanks) = text := by
    rw [Text.trimEnd_append cut, Text.trimEnd_eq_of_getLast? last solid]
  have hne : text.isEmpty = false := by
    cases text with
    | nil => cases last
    | cons => rfl
  rw [finish, htrim, hne]
  rfl

theorem finish_of_blank {number width : Nat} {blanks : List Char}
    (cut : ∀ b ∈ blanks, isBlank b = true) : finish ⟨number, width, blanks⟩ = none := by
  have htrim : Text.trimEnd blanks = [] := List.rdropWhile_eq_nil_iff.2 cut
  rw [finish, htrim]
  rfl

/-- The lines that are gathered are those that the rules give. -/
theorem Follows.gather_eq {lines : List (List Char)} (h : Follows (lines.zipIdx n) ls) :
    (gather n none lines).filterMap finish = ls := by
  generalize hlines : lines.zipIdx n = numbered at h
  induction h generalizing n lines with
  | nil =>
      obtain rfl : lines = [] := by simpa using hlines
      rfl
  | dropped skipped _ ih =>
      obtain ⟨rfl, lines, rfl, rfl⟩ := eq_cons_of_zipIdx hlines
      rw [gather_none_cons, if_pos (isSkipped_measure_iff.2 skipped)]
      exact ih rfl
  | line opens joins cut last solid _ ih =>
      obtain ⟨rfl, lines, rfl, rfl⟩ := eq_cons_of_zipIdx hlines
      obtain ⟨m, left, rfl, hgather⟩ := gather_none opens joins
      rw [hgather, List.filterMap_cons, finish_of_solid cut last solid]
      exact congrArg _ (ih rfl)
  | hollow opens joins cut _ ih =>
      obtain ⟨rfl, lines, rfl, rfl⟩ := eq_cons_of_zipIdx hlines
      obtain ⟨m, left, rfl, hgather⟩ := gather_none opens joins
      rw [hgather, List.filterMap_cons, finish_of_blank cut]
      exact ih rfl

theorem Joins.subset (h : Joins ps text rest) :
    (∀ c ∈ text, ∃ q ∈ ps, c ∈ q.1) ∧ rest ⊆ ps := by
  induction h with
  | last =>
      exact ⟨fun c hc => ⟨_, List.mem_cons_self, hc⟩, List.subset_cons_self _ _⟩
  | atEnd => exact ⟨fun c hc => ⟨_, List.mem_cons_self, (List.dropLast_subset _ hc)⟩, nofun⟩
  | join _ _ ih =>
      obtain ⟨htext, hrest⟩ := ih
      refine ⟨fun c hc => ?_, List.subset_cons_of_subset _ hrest⟩
      rcases List.mem_append.1 hc with hc | hc
      · exact ⟨_, List.mem_cons_self, (List.dropLast_subset _ hc)⟩
      · obtain ⟨q, hq, hc⟩ := htext c hc
        exact ⟨q, List.mem_cons_of_mem _ hq, hc⟩

/-- Each logical line ends in a character that is not blank, and has characters of the physical
lines only. -/
theorem Follows.solid_text (h : Follows ps ls) {l : LogicalLine} (hl : l ∈ ls) :
    (∃ c, l.text.toList.getLast? = some c ∧ isBlank c = false) ∧
      ∀ c ∈ l.text.toList, ∃ q ∈ ps, c ∈ q.1 := by
  induction h with
  | nil => cases hl
  | dropped _ _ ih =>
      obtain ⟨hlast, hmem⟩ := ih hl
      exact ⟨hlast, fun c hc => (hmem c hc).imp fun q hq => ⟨List.mem_cons_of_mem _ hq.1, hq.2⟩⟩
  | line _ joins _ last solid _ ih =>
      obtain ⟨htext, hrest⟩ := joins.subset
      rcases List.mem_cons.1 hl with rfl | hl
      · rw [String.toList_ofList]
        exact ⟨⟨_, last, solid⟩, fun c hc =>
          htext c (List.mem_append_right _ (List.mem_append_left _ hc))⟩
      · obtain ⟨hlast, hmem⟩ := ih hl
        exact ⟨hlast, fun c hc => (hmem c hc).imp fun q hq => ⟨hrest hq.1, hq.2⟩⟩
  | hollow _ joins _ _ ih =>
      obtain ⟨hlast, hmem⟩ := ih hl
      exact ⟨hlast, fun c hc => (hmem c hc).imp fun q hq => ⟨joins.subset.2 hq.1, hq.2⟩⟩

theorem logicalLines_eq_iff {source : String} :
    logicalLines source = ls ↔ Follows ((Text.lines source.toList).zipIdx 1) ls := by
  constructor
  · rintro rfl
    obtain ⟨ls, hls⟩ := exists_follows ((Text.lines source.toList).zipIdx 1)
    rwa [logicalLines, ofChars, hls.gather_eq]
  · exact Follows.gather_eq

/-- The logical lines of a source are those that the rules give for its physical lines. Their
numbers ascend, and their texts are not blank, have no line feeds and are trimmed at the end. -/
theorem logicalLines_outcome (source : String) :
    (∀ ls, logicalLines source = ls ↔ Follows ((Text.lines source.toList).zipIdx 1) ls) ∧
    (logicalLines source).Pairwise (·.number < ·.number) ∧
    ∀ l ∈ logicalLines source, Text.trim l.text.toList ≠ [] ∧ '\n' ∉ l.text.toList ∧
      Text.trimEnd l.text.toList = l.text.toList := by
  refine ⟨fun _ => logicalLines_eq_iff, pairwise_number_logicalLines source, fun l hl => ?_⟩
  obtain ⟨⟨c, hlast, hsolid⟩, hmem⟩ := (logicalLines_eq_iff.1 rfl).solid_text hl
  refine ⟨fun h => ?_, fun h => ?_, Text.trimEnd_eq_of_getLast? hlast hsolid⟩
  · have hblank := Text.trim_eq_nil_iff.1 h c (List.mem_of_getLast? hlast)
    rw [hsolid] at hblank
    cases hblank
  · obtain ⟨q, hq, hfeed⟩ := hmem _ h
    exact Text.not_mem_of_mem_lines (List.fst_mem_of_mem_zipIdx hq) hfeed

/-- A comment never goes on, but is a part of a line that goes on; of three backslashes two are
left; and nothing is left of a lone backslash at the end. -/
theorem logicalLines_outcome_comment :
    let source := "# no\\\n\tup a \\\\\\\n# b \n\\"
    let l : LogicalLine := ⟨2, 8, "up a \\\\# b"⟩
    logicalLines source = [l] ∧ Follows ((Text.lines source.toList).zipIdx 1) [l] ∧
      '\n' ∉ l.text.toList := by
  intro source l
  obtain ⟨hfollows, -, htext⟩ := logicalLines_outcome source
  have hlines : logicalLines source = [l] := by decide +kernel
  exact ⟨hlines, (hfollows _).1 hlines, (htext l (by simp [hlines])).2.1⟩

end NetHooks.LogicalLine
