import NetHooks.Text.Blank
import NetHooks.Text.Lines
import Mathlib.Data.List.DropRight

/-!
# Trimmed text and lines

Trimmed text begins and ends with characters that are not blank. Lines have no line feeds,
and a line that does not end in a carriage return is read back as it was written.
-/
namespace NetHooks.Text

/-! ### Trimming -/

theorem trimEnd_isPrefix (s : List Char) : trimEnd s <+: s :=
  List.rdropWhile_prefix isBlank s

theorem trimEnd_trimEnd (s : List Char) : trimEnd (trimEnd s) = trimEnd s :=
  List.rdropWhile_idempotent isBlank s

theorem trimStart_trimStart (s : List Char) : trimStart (trimStart s) = trimStart s :=
  List.dropWhile_idempotent isBlank s

/-- What is taken from the end leaves the start trimmed. -/
theorem trimStart_trimEnd {s : List Char} (h : trimStart s = s) :
    trimStart (trimEnd s) = trimEnd s := by
  refine List.dropWhile_eq_self_iff.2 fun hpos => ?_
  have hlt := Nat.lt_of_lt_of_le hpos (trimEnd_isPrefix s).length_le
  rw [(trimEnd_isPrefix s).getElem hpos]
  exact List.dropWhile_eq_self_iff.1 h hlt

@[simp] theorem trim_trim (s : List Char) : trim (trim s) = trim s := by
  simp only [trim]
  rw [trimStart_trimEnd (trimStart_trimStart s), trimEnd_trimEnd]

theorem mem_of_mem_trim {s : List Char} {c : Char} (h : c ∈ trim s) : c ∈ s :=
  (List.dropWhile_suffix isBlank).subset ((trimEnd_isPrefix _).subset h)

theorem trimEnd_eq_of_trim_eq {s : List Char} (h : trim s = s) : trimEnd s = s := by
  rw [← h, trim, trimEnd_trimEnd]

theorem trimEnd_eq_of_getLast? {s : List Char} {c : Char} (h : s.getLast? = some c)
    (hc : isBlank c = false) : trimEnd s = s := by
  refine List.rdropWhile_eq_self_iff.2 fun hne => ?_
  have hlast : s.getLast hne = c :=
    Option.some.inj ((List.getLast?_eq_some_getLast hne).symm.trans h)
  simp [hlast, hc]

/-- Trimming leaves a text as it is when neither its first nor its last character is blank. -/
theorem trim_eq_self_iff {s : List Char} : trim s = s ↔
    (∀ c ∈ s.head?, isBlank c = false) ∧ ∀ c ∈ s.getLast?, isBlank c = false := by
  constructor
  · intro h
    have hstart : trimStart s = s := by
      have htrimmed := trimStart_trimEnd (trimStart_trimStart s)
      rwa [← trim, h] at htrimmed
    constructor
    · intro c hc
      obtain ⟨rest, rfl⟩ := List.head?_eq_some_iff.1 hc
      have hsolid := List.dropWhile_eq_self_iff.1 hstart (Nat.zero_lt_succ rest.length)
      rw [List.getElem_cons_zero] at hsolid
      simpa using hsolid
    · intro c hc
      obtain ⟨before, rfl⟩ := List.getLast?_eq_some_iff.1 hc
      simpa using List.rdropWhile_eq_self_iff.1 (trimEnd_eq_of_trim_eq h) (by simp)
  · rintro ⟨hfirst, hlast⟩
    have hstart : trimStart s = s := by
      cases s with
      | nil => rfl
      | cons c rest => simp [trimStart, hfirst c rfl]
    rw [trim, hstart]
    cases h : s.getLast? with
    | none =>
        rw [List.getLast?_eq_none_iff.1 h]
        rfl
    | some c => exact trimEnd_eq_of_getLast? h (hlast c h)

theorem trim_eq_nil_iff {s : List Char} : trim s = [] ↔ ∀ c ∈ s, isBlank c = true := by
  constructor
  · intro h c hc
    rw [← List.takeWhile_append_dropWhile (p := isBlank) (l := s)] at hc
    rcases List.mem_append.1 hc with hc | hc
    · exact List.mem_takeWhile_imp hc
    · exact List.rdropWhile_eq_nil_iff.1 h c hc
  · intro h
    have hstart : trimStart s = [] := List.dropWhile_eq_nil_iff.2 h
    rw [trim, hstart]
    rfl

theorem trimEnd_append {s blanks : List Char} (h : ∀ c ∈ blanks, isBlank c = true) :
    trimEnd (s ++ blanks) = trimEnd s := by
  rw [trimEnd, List.reverse_append,
    List.dropWhile_append_of_pos fun c hc => h c (List.mem_reverse.1 hc), trimEnd]

/-- A text begins with the token before its first blank. -/
theorem firstToken_append {token rest : List Char} (hsolid : ∀ c ∈ token, isBlank c = false)
    (hne : token ≠ []) (hrest : rest.head?.all isBlank = true) :
    firstToken (token ++ rest) = token := by
  have hstart : trimStart (token ++ rest) = token ++ rest := by
    cases token with
    | nil => exact absurd rfl hne
    | cons c token =>
        have hc : isBlank c = false := hsolid c List.mem_cons_self
        simp [trimStart, hc]
  have htake : rest.takeWhile (fun c => !isBlank c) = [] := by
    cases rest with
    | nil => rfl
    | cons c rest => simpa using hrest
  rw [firstToken, hstart, List.takeWhile_append_of_pos, htake, List.append_nil]
  simpa using hsolid

theorem afterFirstToken_eq_nil {token : List Char} (hsolid : ∀ c ∈ token, isBlank c = false) :
    afterFirstToken token = [] := by
  have hnone : (trimStart token).dropWhile (fun c => !isBlank c) = [] :=
    List.dropWhile_eq_nil_iff.2 fun c hc => by
      simp [hsolid c ((List.dropWhile_sublist _).subset hc)]
  rw [afterFirstToken, hnone]
  rfl

/-- A line that ends in trimmed text does not end in a carriage return. -/
theorem getLast?_append_ne_of_trimEnd_eq {s : List Char} (h : trimEnd s = s) (hne : s ≠ [])
    (before : List Char) : (before ++ s).getLast? ≠ some '\r' := by
  intro hlast
  rw [List.getLast?_append_of_ne_nil _ hne, List.getLast?_eq_some_getLast hne] at hlast
  have hsolid := List.rdropWhile_eq_self_iff.1 h hne
  rw [Option.some.inj hlast] at hsolid
  exact hsolid rfl

/-- Something is left when text that is trimmed at its end is trimmed. -/
theorem trim_ne_nil {s : List Char} (h : trimEnd s = s) (hne : s ≠ []) : trim s ≠ [] := by
  intro hnil
  have hsolid := List.rdropWhile_eq_self_iff.1 h hne
  exact hsolid (trim_eq_nil_iff.1 hnil _ (List.getLast_mem hne))

/-! ### Lines -/

theorem lines_cons {c : Char} {rest : List Char} (hfeed : c ≠ '\n')
    (hreturn : c = '\r' → rest.head? ≠ some '\n') :
    lines (c :: rest) = consToFirst c (lines rest) := by
  rw [lines]
  · rintro after rfl rfl
    exact hreturn rfl rfl
  · exact hfeed

/-- A line with its end is read as that line, when it has no line feed of its own and no
carriage return at its end. -/
theorem lines_append_feed {line : List Char} (hfeed : '\n' ∉ line)
    (hreturn : line.getLast? ≠ some '\r') (rest : List Char) :
    lines (line ++ '\n' :: rest) = line :: lines rest := by
  induction line with
  | nil => rfl
  | cons c line ih =>
      have hc : c ≠ '\n' := fun h => hfeed (h ▸ List.mem_cons_self)
      have hrest : '\n' ∉ line := fun h => hfeed (List.mem_cons_of_mem _ h)
      cases line with
      | nil =>
          have hlast : c ≠ '\r' := fun h => hreturn (by simp [h])
          rw [List.cons_append, lines_cons hc fun h => absurd h hlast]
          rfl
      | cons d line =>
          have hd : d ≠ '\n' := fun h => hrest (h ▸ List.mem_cons_self)
          rw [List.cons_append, lines_cons hc fun _ => by simpa using hd,
            ih hrest (by simpa using hreturn)]
          rfl

/-- Lines that are written one after another are read as they were written. -/
theorem lines_flatMap {α : Type} {line : α → List Char} {l : List α}
    (hfeed : ∀ a ∈ l, '\n' ∉ line a) (hreturn : ∀ a ∈ l, (line a).getLast? ≠ some '\r') :
    lines (l.flatMap fun a => line a ++ ['\n']) = l.map line := by
  induction l with
  | nil => rfl
  | cons a l ih =>
      obtain ⟨ha, hl⟩ := List.forall_mem_cons.1 hfeed
      obtain ⟨ha', hl'⟩ := List.forall_mem_cons.1 hreturn
      rw [List.flatMap_cons, List.append_assoc, List.singleton_append,
        lines_append_feed ha ha', ih hl hl', List.map_cons]

theorem not_mem_of_mem_lines {s line : List Char} (h : line ∈ lines s) : '\n' ∉ line := by
  fun_induction lines s generalizing line with
  | case1 => simp at h
  | case2 rest ih =>
      rcases List.mem_cons.1 h with rfl | h
      · simp
      · exact ih h
  | case3 rest ih =>
      rcases List.mem_cons.1 h with rfl | h
      · simp
      · exact ih h
  | case4 c rest _ hfeed ih =>
      have hc : '\n' ≠ c := fun heq => hfeed heq.symm
      cases hl : lines rest with
      | nil =>
          rw [hl] at h
          simp only [consToFirst, List.mem_singleton] at h
          simpa [h] using hc
      | cons first more =>
          rw [hl] at h ih
          rcases List.mem_cons.1 h with rfl | h
          · simpa [hc] using ih List.mem_cons_self
          · exact ih (List.mem_cons_of_mem _ h)

end NetHooks.Text
