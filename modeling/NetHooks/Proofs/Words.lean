import NetHooks.Text.Blank
import NetHooks.Words
import Mathlib.Data.List.TakeWhile

/-!
# First tokens and first words

A line's first token ends at any blank character, its words end at separators only. So the
first word is the first token when separators stand around the token
(`Words.isSeparated`), and another word when any other blank does.
-/
namespace NetHooks

namespace Words

open Text (isBlank firstToken trimStart)

/-- Separators, and no other blanks, stand before the first token and right after it. -/
def isSeparated (s : List Char) : Bool :=
  (s.takeWhile isBlank).all isSeparator &&
    ((trimStart s).dropWhile fun c => !isBlank c).head?.all isSeparator

variable {s rest token : List Char} {ws : List (List Char)} {c : Char}

theorem isBlank_of_isSeparator (h : isSeparator c = true) : isBlank c = true := by
  simp only [isSeparator, Bool.or_eq_true, beq_iff_eq] at h
  rcases h with (rfl | rfl) | rfl <;> rfl

theorem not_isSeparator (h : isBlank c = false) : ¬isSeparator c = true := fun hc => by
  simp [isBlank_of_isSeparator hc] at h

theorem ne_quote_of_isBlank (h : isBlank c = true) : c ≠ '"' := by
  rintro rfl
  cases h

/-- A word in progress is how the first word begins. -/
theorem prefix_of_scan {quoted : Bool} {d : Draft} {w : List Char} (hd : d = some w)
    (h : scan quoted d s = .ok ws) : ∃ first more, ws = first :: more ∧ w.reverse <+: first := by
  fun_induction scan quoted d s generalizing w ws with
  | case1 d =>
      subst hd
      cases h
      exact ⟨_, _, rfl, List.prefix_refl _⟩
  | case2 d rest ih =>
      subst hd
      exact ih rfl h
  | case3 d c rest _ _ _ =>
      subst hd
      cases hscan : scan false none rest with
      | error e => simp [hscan, Except.map] at h
      | ok more =>
          simp only [hscan, Except.map, Draft.finish, Except.ok.injEq] at h
          exact ⟨_, _, h.symm, List.prefix_refl _⟩
  | case4 d c rest _ _ ih | case7 d c rest _ ih | case10 d c rest _ _ _ ih =>
      subst hd
      obtain ⟨first, more, rfl, hw⟩ := ih rfl h
      refine ⟨first, more, rfl, List.IsPrefix.trans ?_ hw⟩
      simp
  | case9 d rest _ _ ih => exact ih hd h
  | case5 | case6 | case8 => cases h

/-- Characters that are neither quotes nor separators are taken into the word. -/
theorem scan_bare (hne : token ≠ []) (h : ∀ c ∈ token, c ≠ '"' ∧ isSeparator c = false) (d : Draft)
    (rest : List Char) :
    scan false d (token ++ rest) = scan false (some (token.reverse ++ d.getD [])) rest := by
  induction token generalizing d with
  | nil => exact absurd rfl hne
  | cons c token ih =>
      obtain ⟨⟨hquote, hseparator⟩, htoken⟩ := List.forall_mem_cons.1 h
      rw [List.cons_append, scan, if_neg hquote, if_neg (Bool.not_eq_true _ ▸ hseparator)]
      by_cases hnil : token = []
      · subst hnil
        rfl
      · rw [ih hnil htoken]
        simp [Draft.push]

/-- Separators before the first word do not count. -/
theorem scan_separators {before : List Char} (h : ∀ c ∈ before, isSeparator c = true)
    (rest : List Char) : scan false none (before ++ rest) = scan false none rest := by
  induction before with
  | nil => rfl
  | cons c before ih =>
      have hc : isSeparator c = true := h c List.mem_cons_self
      rw [List.cons_append, scan, if_neg (ne_quote_of_isBlank (isBlank_of_isSeparator hc)),
        if_pos hc, ih fun c h' => h c (List.mem_cons_of_mem _ h')]
      cases scan false none rest <;> rfl

/-- A text is the blanks at its start, its first token and what stands after the token. -/
theorem eq_append_firstToken (s : List Char) :
    s = s.takeWhile isBlank ++ (firstToken s ++ (trimStart s).dropWhile fun c => !isBlank c) := by
  rw [firstToken, List.takeWhile_append_dropWhile, trimStart, List.takeWhile_append_dropWhile]

theorem isBlank_of_mem_firstToken (h : c ∈ firstToken s) : isBlank c = false := by
  simpa using List.mem_takeWhile_imp h

/-- A blank that is no separator is taken into a word. -/
theorem exists_of_scan_blank {d : Draft} (hblank : isBlank c = true)
    (hseparator : ¬isSeparator c = true) (h : scan false d (c :: rest) = .ok ws) :
    ∃ first ∈ ws.head?, c ∈ first := by
  rw [scan, if_neg (ne_quote_of_isBlank hblank), if_neg hseparator] at h
  obtain ⟨first, more, rfl, hprefix⟩ := prefix_of_scan rfl h
  exact ⟨first, rfl, hprefix.subset (by simp)⟩

variable (hne : token ≠ []) (hquote : '"' ∉ token) (hsolid : ∀ c ∈ token, isBlank c = false)

include hne hquote hsolid in
theorem scan_token_append (rest : List Char) :
    scan false none (token ++ rest) = scan false (some token.reverse) rest := by
  have hbare : ∀ c ∈ token, c ≠ '"' ∧ isSeparator c = false := fun c hc =>
    ⟨fun h => hquote (h ▸ hc), Bool.eq_false_iff.2 (not_isSeparator (hsolid c hc))⟩
  rw [scan_bare hne hbare, Option.getD_none, List.append_nil]

include hne hquote hsolid in
/-- A token before a separator or the end of the text is the first word. -/
theorem head?_scan_token (hrest : rest.head?.all isSeparator = true)
    (h : scan false none (token ++ rest) = .ok ws) : ws.head? = some token := by
  rw [scan_token_append hne hquote hsolid] at h
  cases rest with
  | nil =>
      cases h
      simp [Draft.finish]
  | cons c rest =>
      have hc : isSeparator c = true := by simpa using hrest
      rw [scan, if_neg (ne_quote_of_isBlank (isBlank_of_isSeparator hc)), if_pos hc] at h
      cases hmore : scan false none rest with
      | error e => simp [hmore, Except.map] at h
      | ok more =>
          simp only [hmore, Except.map, Except.ok.injEq] at h
          simp [← h, Draft.finish]

omit hne hquote hsolid in
/-- The first word is the first token when separators stand around it. -/
theorem head?_splitChars_of_isSeparated (hne : firstToken s ≠ []) (hquote : '"' ∉ firstToken s)
    (hs : isSeparated s = true) (h : splitChars s = .ok ws) : ws.head? = some (firstToken s) := by
  obtain ⟨hbefore, hafter⟩ := Bool.and_eq_true_iff.1 hs
  rw [splitChars, eq_append_firstToken s, scan_separators (List.all_eq_true.1 hbefore)] at h
  exact head?_scan_token hne hquote (fun c => isBlank_of_mem_firstToken) hafter h

omit hne hquote hsolid in
/-- When another blank stands before the first token or right after it, that blank is a part
of the first word. -/
theorem exists_blank_of_not_isSeparated (hne : firstToken s ≠ []) (hquote : '"' ∉ firstToken s)
    (hs : ¬isSeparated s = true) (h : splitChars s = .ok ws) :
    ∃ first ∈ ws.head?, ∃ c ∈ first, isBlank c = true := by
  rw [splitChars, eq_append_firstToken s] at h
  have hsplit := List.takeWhile_append_dropWhile (p := isSeparator) (l := s.takeWhile isBlank)
  have hstop := List.head?_dropWhile_not isSeparator (s.takeWhile isBlank)
  cases hdrop : (s.takeWhile isBlank).dropWhile isSeparator with
  | cons c blanks =>
      rw [hdrop] at hsplit hstop
      have hblank : isBlank c = true :=
        List.mem_takeWhile_imp (hsplit ▸ List.mem_append_right _ List.mem_cons_self)
      rw [← hsplit, List.append_assoc, scan_separators fun x => List.mem_takeWhile_imp] at h
      obtain ⟨first, hfirst, hc⟩ := exists_of_scan_blank hblank (by simpa using hstop) h
      exact ⟨first, hfirst, c, hc, hblank⟩
  | nil =>
      have hbefore : ∀ c ∈ s.takeWhile isBlank, isSeparator c = true := by
        simpa using hdrop
      rw [scan_separators hbefore,
        scan_token_append hne hquote fun c => isBlank_of_mem_firstToken] at h
      cases hafter : (trimStart s).dropWhile fun c => !isBlank c with
      | nil =>
          rw [isSeparated, hafter, List.all_eq_true.2 hbefore] at hs
          exact absurd rfl hs
      | cons c rest =>
          rw [isSeparated, hafter, List.all_eq_true.2 hbefore] at hs
          have hblank : isBlank c = true := by
            have hlast := List.head?_dropWhile_not (fun c => !isBlank c) (trimStart s)
            simpa [hafter] using hlast
          rw [hafter] at h
          obtain ⟨first, hfirst, hc⟩ := exists_of_scan_blank hblank (by simpa using hs) h
          exact ⟨first, hfirst, c, hc, hblank⟩

end Words

open Text (isBlank firstToken)

theorem words_eq_ok {line : String} {ws : List String} (h : words line = .ok ws) :
    ∃ splits, Words.splitChars line.toList = .ok splits ∧ ws = splits.map String.ofList := by
  rw [words] at h
  cases hsplits : Words.splitChars line.toList with
  | error e => simp [hsplits, Except.map] at h
  | ok splits => exact ⟨splits, rfl, by simpa [hsplits, Except.map] using h.symm⟩

/-- A word without blanks is the first word of a line exactly when it is its first token and
separators stand around it. -/
theorem head?_words_eq_iff {line word : String} {ws : List String}
    (hne : firstToken line.toList ≠ []) (hquote : '"' ∉ firstToken line.toList)
    (hword : ∀ c ∈ word.toList, isBlank c = false) (h : words line = .ok ws) :
    ws.head? = some word ↔
      String.ofList (firstToken line.toList) = word ∧ Words.isSeparated line.toList = true := by
  obtain ⟨splits, hsplits, rfl⟩ := words_eq_ok h
  rw [List.head?_map]
  by_cases hs : Words.isSeparated line.toList = true
  · rw [Words.head?_splitChars_of_isSeparated hne hquote hs hsplits]
    simp [hs]
  · obtain ⟨first, hfirst, c, hc, hblank⟩ :=
      Words.exists_blank_of_not_isSeparated hne hquote hs hsplits
    have hother : String.ofList first ≠ word := by
      rintro rfl
      simp [hword c (by simpa using hc)] at hblank
    rw [Option.mem_def.1 hfirst]
    simpa [hs] using hother

/-- The first word of a line that begins with an unquoted keyword is the keyword exactly when
separators stand around it. -/
theorem head?_words_eq_keyword_iff {line keyword : String} {ws : List String}
    (hkeyword : String.ofList (firstToken line.toList) = keyword) (hne : keyword.toList ≠ [])
    (hquote : '"' ∉ keyword.toList) (h : words line = .ok ws) :
    ws.head? = some keyword ↔ Words.isSeparated line.toList = true := by
  subst hkeyword
  rw [String.toList_ofList] at hne hquote
  have hsolid : ∀ c ∈ (String.ofList (firstToken line.toList)).toList, isBlank c = false := by
    simpa using fun c => Words.isBlank_of_mem_firstToken
  rw [head?_words_eq_iff hne hquote hsolid h]
  exact and_iff_right rfl

end NetHooks
