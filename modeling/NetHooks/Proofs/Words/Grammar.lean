import NetHooks.Proofs.Fallible
import NetHooks.Proofs.Quoted

/-!
# The grammar of words

A line is words with separators between them. A word is pieces without anything between them, and a
piece is either a run of characters as they stand or a quoted section. Reading from the left, every
text is such a line, or a quoted section of it breaks off at a place where one of three things is
wrong (`Words.isLine_or_breaks`). The words of a line are the words that it is made of, and any
other text is refused for what is wrong where it breaks off (`words_outcome`).
-/
namespace NetHooks

namespace Words

/-- What stands between two quotes, and the characters that it stands for. -/
inductive Section : List Char → List Char → Prop
  | nil : Section [] []
  | escape {c : Char} {s w : List Char} (special : c = '"' ∨ c = '\\') (rest : Section s w) :
      Section ('\\' :: c :: s) (c :: w)
  | plain {c : Char} {s w : List Char} (quote : c ≠ '"') (slash : c ≠ '\\') (rest : Section s w) :
      Section (c :: s) (c :: w)

inductive Piece : List Char → List Char → Prop
  | bare {s : List Char} (ne_nil : s ≠ []) (plain : ∀ c ∈ s, c ≠ '"' ∧ isSeparator c = false) :
      Piece s s
  | quoted {s w : List Char} (content : Section s w) : Piece ('"' :: (s ++ ['"'])) w

/-- One piece or more make a word. -/
inductive Spells : List Char → List Char → Prop
  | piece {s w : List Char} (first : Piece s w) : Spells s w
  | append {s t w v : List Char} (before : Spells s w) (last : Piece t v) : Spells (s ++ t) (w ++ v)

def Separates (s : List Char) : Prop :=
  ∀ c ∈ s, isSeparator c = true

/-- One word or more, with separators between them. -/
inductive Row : List Char → List (List Char) → Prop
  | word {s w : List Char} (first : Spells s w) : Row s [w]
  | append {s gap t w : List Char} {ws : List (List Char)} (before : Row s ws) (ne_nil : gap ≠ [])
      (separates : Separates gap) (last : Spells t w) : Row (s ++ (gap ++ t)) (ws ++ [w])

/-- Words, with or without separators around them. -/
inductive IsLine : List Char → List (List Char) → Prop
  | blank {s : List Char} (separates : Separates s) : IsLine s []
  | row {before s after : List Char} {ws : List (List Char)} (left : Separates before)
      (words : Row s ws) (right : Separates after) : IsLine (before ++ (s ++ after)) ws

/-- What stands where a quoted section cannot go on. -/
inductive Fault : List Char → WordError → Prop
  | unterminatedQuote : Fault [] .unterminatedQuote
  | unterminatedEscape : Fault ['\\'] .unterminatedEscape
  | invalidEscape {c : Char} {rest : List Char} (quote : c ≠ '"') (slash : c ≠ '\\') :
      Fault ('\\' :: c :: rest) (.invalidEscape c)

/-- A quoted section is opened after a line, and breaks off. -/
inductive Breaks : List Char → WordError → Prop
  | intro {before s w rest : List Char} {ws : List (List Char)} {e : WordError}
      (line : IsLine before ws) (content : Section s w) (fault : Fault rest e) :
      Breaks (before ++ '"' :: (s ++ rest)) e

variable {s t w v gap : List Char} {ws : List (List Char)} {c : Char} {e : WordError}

/-! ### Every text -/

theorem Section.append (h : Section s w) (h' : Section t v) : Section (s ++ t) (w ++ v) := by
  induction h with
  | nil => exact h'
  | escape special _ ih => exact .escape special ih
  | plain quote slash _ ih => exact .plain quote slash ih

theorem Separates.append (h : Separates s) (h' : Separates t) : Separates (s ++ t) :=
  List.forall_mem_append.2 ⟨h, h'⟩

/-- A piece right after words goes on with the last of them. -/
theorem Row.append_piece (h : Row s ws) (hpiece : Piece t v) : ∃ ws', Row (s ++ t) ws' := by
  cases h with
  | word first => exact ⟨_, .word (first.append hpiece)⟩
  | append before ne_nil separates last =>
      rw [List.append_assoc, List.append_assoc]
      exact ⟨_, before.append ne_nil separates (last.append hpiece)⟩

theorem IsLine.append_separator (h : IsLine s ws) (hc : isSeparator c = true) :
    IsLine (s ++ [c]) ws := by
  have hlast : Separates [c] := List.forall_mem_singleton.2 hc
  cases h with
  | blank separates => exact .blank (separates.append hlast)
  | row left words right =>
      rw [List.append_assoc, List.append_assoc]
      exact .row left words (right.append hlast)

/-- A piece after a line begins a word when a separator stands before it, and goes on with one
otherwise. -/
theorem IsLine.append_piece (h : IsLine s ws) (hpiece : Piece t v) :
    ∃ ws', IsLine (s ++ t) ws' := by
  have hnone : Separates [] := List.forall_mem_nil _
  cases h with
  | blank separates =>
      refine ⟨[v], ?_⟩
      rw [← List.append_nil t]
      exact .row separates (.word (.piece hpiece)) hnone
  | @row before s after ws left words right =>
      obtain ⟨ws', hrow⟩ : ∃ ws', Row (s ++ (after ++ t)) ws' := by
        by_cases hafter : after = []
        · subst hafter
          exact words.append_piece hpiece
        · exact ⟨_, words.append hafter right (.piece hpiece)⟩
      refine ⟨ws', ?_⟩
      rw [List.append_assoc, List.append_assoc, ← List.append_nil (after ++ t),
        ← List.append_assoc s]
      exact .row left hrow hnone

/-- What one more character makes of a text that breaks off. -/
theorem Breaks.append (h : Breaks s e) (c : Char) :
    (∃ ws, IsLine (s ++ [c]) ws) ∨ ∃ e', Breaks (s ++ [c]) e' := by
  obtain @⟨before, s, w, rest, ws, _, line, content, fault⟩ := h
  rw [List.append_assoc, List.cons_append, List.append_assoc]
  cases fault with
  | unterminatedQuote =>
      rw [List.nil_append]
      by_cases hquote : c = '"'
      · subst hquote
        exact .inl (line.append_piece (.quoted content))
      · by_cases hslash : c = '\\'
        · subst hslash
          exact .inr ⟨_, .intro line content .unterminatedEscape⟩
        · have hcontent : Section (s ++ [c]) (w ++ [c]) :=
            content.append (.plain hquote hslash .nil)
          rw [← List.append_nil (s ++ [c])]
          exact .inr ⟨_, .intro line hcontent .unterminatedQuote⟩
  | unterminatedEscape =>
      rw [List.cons_append, List.nil_append]
      by_cases hspecial : c = '"' ∨ c = '\\'
      · have hcontent : Section (s ++ ['\\', c]) (w ++ [c]) :=
          content.append (.escape hspecial .nil)
        rw [← List.append_nil (s ++ ['\\', c])]
        exact .inr ⟨_, .intro line hcontent .unterminatedQuote⟩
      · obtain ⟨hquote, hslash⟩ := not_or.1 hspecial
        exact .inr ⟨_, .intro line content (.invalidEscape hquote hslash)⟩
  | invalidEscape quote slash => exact .inr ⟨_, .intro line content (.invalidEscape quote slash)⟩

-- The induction takes characters away at the end: what a text is depends on all that stands before
-- a character, and on nothing after it.
theorem isLine_or_breaks (s : List Char) : (∃ ws, IsLine s ws) ∨ ∃ e, Breaks s e := by
  induction s using List.reverseRecOn with
  | nil => exact .inl ⟨[], .blank (List.forall_mem_nil _)⟩
  | append_singleton s c ih =>
      rcases ih with ⟨ws, hline⟩ | ⟨e, hbreaks⟩
      · by_cases hquote : c = '"'
        · subst hquote
          exact .inr ⟨_, .intro hline .nil .unterminatedQuote⟩
        · by_cases hseparator : isSeparator c = true
          · exact .inl ⟨ws, hline.append_separator hseparator⟩
          · have hplain : ∀ x ∈ [c], x ≠ '"' ∧ isSeparator x = false :=
              List.forall_mem_singleton.2 ⟨hquote, Bool.eq_false_iff.2 hseparator⟩
            exact .inl (hline.append_piece (.bare (List.cons_ne_nil c []) hplain))
      · exact hbreaks.append c

/-! ### Reading -/

/-- What stands between quotes is what an escaped word looks like. -/
theorem section_iff : Section s w ↔ s = escaped w := by
  constructor
  · intro h
    induction h with
    | nil => rfl
    | escape special _ ih => rw [escaped_cons_of_special special, ih]
    | plain quote slash _ ih => rw [escaped_cons (not_or.2 ⟨quote, slash⟩), ih]
  · rintro rfl
    induction w with
    | nil => exact .nil
    | cons c w ih =>
        by_cases hc : c = '"' ∨ c = '\\'
        · rw [escaped_cons_of_special hc]
          exact .escape hc ih
        · obtain ⟨hquote, hslash⟩ := not_or.1 hc
          rw [escaped_cons hc]
          exact .plain hquote hslash ih

theorem Piece.scan_append (h : Piece s w) (d : Draft) (rest : List Char) :
    scan false d (s ++ rest) = scan false (some (w.reverse ++ d.getD [])) rest := by
  cases h with
  | bare ne_nil plain => exact scan_bare ne_nil plain d rest
  | quoted content =>
      obtain rfl := section_iff.1 content
      exact scan_quoted d w rest

theorem Spells.scan_append (h : Spells s w) (d : Draft) (rest : List Char) :
    scan false d (s ++ rest) = scan false (some (w.reverse ++ d.getD [])) rest := by
  induction h generalizing rest with
  | piece first => exact first.scan_append d rest
  | append before last ih =>
      rw [List.append_assoc, ih, last.scan_append]
      simp

/-- Separators end the word before them. -/
theorem Separates.scan_append (h : Separates gap) (hne : gap ≠ []) (d : Draft) (rest : List Char) :
    scan false d (gap ++ rest) = (scan false none rest).map d.finish := by
  obtain ⟨c, gap, rfl⟩ := List.exists_cons_of_ne_nil hne
  obtain ⟨hc, hgap⟩ := List.forall_mem_cons.1 h
  rw [List.cons_append, scan, if_neg (ne_quote_of_isBlank (isBlank_of_isSeparator hc)), if_pos hc,
    scan_separators hgap]

/-- After a line, its words are done but for the last, which may go on. -/
theorem Row.scan_append (h : Row s ws) : ∃ done last, ws = done ++ [last] ∧
    ∀ rest, scan false none (s ++ rest) =
      (scan false (some last.reverse) rest).map (done ++ ·) := by
  induction h with
  | @word s w first =>
      refine ⟨[], w, rfl, fun rest => ?_⟩
      rw [first.scan_append, Option.getD_none, List.append_nil]
      cases scan false (some w.reverse) rest <;> rfl
  | @append s gap t w ws _ ne_nil separates last ih =>
      obtain ⟨done, previous, rfl, hscan⟩ := ih
      refine ⟨done ++ [previous], w, rfl, fun rest => ?_⟩
      rw [List.append_assoc, hscan, List.append_assoc, separates.scan_append ne_nil,
        last.scan_append, Option.getD_none, List.append_nil]
      cases scan false (some w.reverse) rest <;> simp [Except.map, Draft.finish]

/-- Reading past a line leaves the words that are done, and the one that may go on. -/
theorem IsLine.scan_append (h : IsLine s ws) : ∃ done d, ws = done ++ Draft.finish d [] ∧
    ∀ rest, scan false none (s ++ rest) = (scan false d rest).map (done ++ ·) := by
  cases h with
  | blank separates =>
      refine ⟨[], none, rfl, fun rest => ?_⟩
      rw [scan_separators separates]
      cases scan false none rest <;> rfl
  | @row before s after ws left words right =>
      obtain ⟨done, last, rfl, hscan⟩ := words.scan_append
      by_cases hafter : after = []
      · subst hafter
        refine ⟨done, some last.reverse, by simp [Draft.finish], fun rest => ?_⟩
        rw [List.append_nil, List.append_assoc, scan_separators left, hscan]
      · refine ⟨done ++ [last], none, by simp [Draft.finish], fun rest => ?_⟩
        rw [List.append_assoc, scan_separators left, List.append_assoc, hscan,
          right.scan_append hafter]
        cases scan false none rest <;> simp [Except.map, Draft.finish]

theorem IsLine.splitChars_eq (h : IsLine s ws) : splitChars s = .ok ws := by
  obtain ⟨done, d, rfl, hscan⟩ := h.scan_append
  rw [splitChars, ← List.append_nil s, hscan, scan]
  rfl

theorem Fault.scan_eq (h : Fault s e) (d : Draft) : scan true d s = .error e := by
  cases h with
  | unterminatedQuote => rw [scan]
  | unterminatedEscape => rw [scan]
  | invalidEscape quote slash => rw [scan, if_neg (not_or.2 ⟨quote, slash⟩)]

theorem Breaks.splitChars_eq (h : Breaks s e) : splitChars s = .error e := by
  obtain @⟨before, s, w, rest, ws, _, line, content, fault⟩ := h
  obtain ⟨done, d, -, hscan⟩ := line.scan_append
  obtain rfl := section_iff.1 content
  rw [splitChars, hscan, scan, if_pos rfl, scan_escaped, fault.scan_eq]
  rfl

/-- A text is read as a line exactly when it is one. -/
theorem splitChars_eq_ok_iff : splitChars s = .ok ws ↔ IsLine s ws := by
  constructor
  · intro h
    rcases isLine_or_breaks s with ⟨ws', hline⟩ | ⟨e, hbreaks⟩
    · cases h.symm.trans hline.splitChars_eq
      exact hline
    · cases h.symm.trans hbreaks.splitChars_eq
  · exact IsLine.splitChars_eq

theorem splitChars_eq_error_iff : splitChars s = .error e ↔ Breaks s e := by
  constructor
  · intro h
    rcases isLine_or_breaks s with ⟨ws, hline⟩ | ⟨e', hbreaks⟩
    · cases h.symm.trans hline.splitChars_eq
    · cases h.symm.trans hbreaks.splitChars_eq
      exact hbreaks
  · exact Breaks.splitChars_eq

theorem intercalate_quoted (w : List Char) (ws : List (List Char)) :
    [' '].intercalate ((w :: ws).map quoted) = quoted w ++ operands ws := by
  induction ws generalizing w with
  | nil => simp [List.intercalate]
  | cons v ws ih =>
      rw [List.map_cons, List.map_cons, List.intercalate_cons_cons, ← List.map_cons, ih]
      simp

/-- Quoted words with a space between each two of them are read as they were written. -/
theorem splitChars_intercalate (ws : List (List Char)) :
    splitChars ([' '].intercalate (ws.map quoted)) = .ok ws := by
  cases ws with
  | nil => rfl
  | cons w ws => rw [intercalate_quoted, splitChars_quoted]

end Words

open Words (IsLine Breaks quoted)

theorem words_eq_ok_iff_isLine {line : String} {ws : List String} :
    words line = .ok ws ↔ IsLine line.toList (ws.map String.toList) := by
  rw [← Words.splitChars_eq_ok_iff]
  constructor
  · intro h
    obtain ⟨splits, hsplits, rfl⟩ := words_eq_ok h
    rw [hsplits, List.map_map, Function.comp_def]
    simp
  · intro h
    rw [words, h]
    simp [Except.map, Function.comp_def]

theorem words_eq_error_iff_breaks {line : String} {e : WordError} :
    words line = .error e ↔ Breaks line.toList e := by
  rw [words, map_eq_error, Words.splitChars_eq_error_iff]

/-- A line has the words that it is made of, and no text is made of different words. Any other text
breaks off in a quoted section, and is refused for what is wrong there. Quoted words with a space
between each two of them are read as they were written. -/
theorem words_outcome :
    (∀ line ws, words line = .ok ws ↔ IsLine line.toList (ws.map String.toList)) ∧
    (∀ s ws ws', IsLine s ws → IsLine s ws' → ws = ws') ∧
    (∀ line e, words line = .error e ↔ Breaks line.toList e) ∧
    ∀ ws : List String,
      words (" ".intercalate (ws.map fun w => String.ofList (quoted w.toList))) = .ok ws := by
  refine ⟨fun _ _ => words_eq_ok_iff_isLine, fun s ws ws' h h' => ?_,
    fun _ _ => words_eq_error_iff_breaks, fun ws => ?_⟩
  · exact Except.ok.inj (h.splitChars_eq.symm.trans h'.splitChars_eq)
  · have htext : (" ".intercalate (ws.map fun w => String.ofList (quoted w.toList))).toList =
        [' '].intercalate ((ws.map String.toList).map quoted) := by
      simp [String.toList_intercalate, Function.comp_def]
    rw [words, htext, Words.splitChars_intercalate]
    simp [Except.map, Function.comp_def]

/-- A quoted section in the middle of a word, an empty one, and a backslash outside; and a section
that breaks off. -/
theorem words_outcome_mixed :
    let line := "x\"y \\\"z\"w\t\"\" a\\b"
    let ws := ["xy \"zw".toList, [], "a\\b".toList]
    IsLine line.toList ws ∧ (∀ ws', IsLine line.toList ws' → ws' = ws) ∧
      Breaks "x \"y\\n\"".toList (.invalidEscape 'n') := by
  intro line ws
  obtain ⟨hok, hunique, herror, -⟩ := words_outcome
  have hline : IsLine line.toList ws := (hok line ["xy \"zw", "", "a\\b"]).1 (by decide)
  exact ⟨hline, fun ws' h => hunique line.toList ws' ws h hline, (herror _ _).1 (by decide)⟩

end NetHooks
