import NetHooks.Proofs.Text
import NetHooks.Proofs.Words

/-!
# Quoted words

Any word can be written between double quotes, with a backslash before each quote and each
backslash of its own (`Words.quoted`). A line of quoted words, with a bare keyword before them or
without one, has these words (`words_statement`, `words_quotedLine`).
-/
namespace NetHooks

namespace Words

open Text (isBlank)

/-- The characters of a word as they stand between quotes. -/
def escaped (w : List Char) : List Char :=
  w.flatMap fun c => if c = '"' ∨ c = '\\' then ['\\', c] else [c]

def quoted (w : List Char) : List Char :=
  '"' :: (escaped w ++ ['"'])

/-- Quoted words, each with a space before it. -/
def operands (ws : List (List Char)) : List Char :=
  ws.flatMap fun w => ' ' :: quoted w

variable {c : Char} {token w : List Char} {ws : List (List Char)}

@[simp] theorem operands_nil : operands [] = [] := rfl

@[simp] theorem operands_cons (w : List Char) (ws : List (List Char)) :
    operands (w :: ws) = ' ' :: (quoted w ++ operands ws) := rfl

theorem escaped_cons_of_special (h : c = '"' ∨ c = '\\') (w : List Char) :
    escaped (c :: w) = '\\' :: c :: escaped w := by
  simp [escaped, h]

theorem escaped_cons (h : ¬(c = '"' ∨ c = '\\')) (w : List Char) :
    escaped (c :: w) = c :: escaped w := by
  simp [escaped, h]

/-! ### Reading -/

/-- Between quotes, what is escaped is taken into the word. -/
theorem scan_escaped (d w rest : List Char) :
    scan true (some d) (escaped w ++ rest) = scan true (some (w.reverse ++ d)) rest := by
  induction w generalizing d with
  | nil => rfl
  | cons c w ih =>
      have hnext : scan true (some (c :: d)) (escaped w ++ rest) =
          scan true (some ((c :: w).reverse ++ d)) rest := by
        rw [ih, List.reverse_cons, List.append_assoc, List.singleton_append]
      by_cases hc : c = '"' ∨ c = '\\'
      · rw [escaped_cons_of_special hc, List.cons_append, List.cons_append, scan, if_pos hc]
        exact hnext
      · obtain ⟨hquote, hslash⟩ := not_or.1 hc
        rw [escaped_cons hc, List.cons_append, scan, if_neg hquote]
        · exact hnext
        · simp [hslash]
        · simp [hslash]

theorem scan_quoted (d : Draft) (w rest : List Char) :
    scan false d (quoted w ++ rest) = scan false (some (w.reverse ++ d.getD [])) rest := by
  rw [quoted, List.cons_append, scan, if_pos rfl, List.append_assoc, scan_escaped,
    List.singleton_append, scan, if_pos rfl]
  · simp
  · simp

/-- Each operand ends the word before it. -/
theorem scan_operands (w : List Char) (ws : List (List Char)) :
    scan false (some w) (operands ws) = .ok (w.reverse :: ws) := by
  induction ws generalizing w with
  | nil => rfl
  | cons v ws ih =>
      have hspace : isSeparator ' ' = true := rfl
      rw [operands_cons, scan, if_neg (by decide), if_pos hspace, scan_quoted, Option.getD_none,
        List.append_nil, ih, List.reverse_reverse]
      rfl

theorem splitChars_quoted (w : List Char) (ws : List (List Char)) :
    splitChars (quoted w ++ operands ws) = .ok (w :: ws) := by
  rw [splitChars, scan_quoted, scan_operands]
  simp

theorem splitChars_token (hne : token ≠ []) (hquote : '"' ∉ token)
    (hsolid : ∀ c ∈ token, isBlank c = false) (ws : List (List Char)) :
    splitChars (token ++ operands ws) = .ok (token :: ws) := by
  rw [splitChars, scan_token_append hne hquote hsolid, scan_operands, List.reverse_reverse]

/-! ### Characters -/

theorem not_mem_quoted (h : '\n' ∉ w) : '\n' ∉ quoted w := by
  have hescaped : '\n' ∉ escaped w := by
    simp only [escaped, List.mem_flatMap, not_exists, not_and]
    intro c hc
    have hne : '\n' ≠ c := fun heq => h (heq ▸ hc)
    split <;> simp [hne]
  simp [quoted, hescaped]

theorem not_mem_operands (h : ∀ w ∈ ws, '\n' ∉ w) : '\n' ∉ operands ws := by
  simp only [operands, List.mem_flatMap, not_exists, not_and]
  intro w hw
  simp [not_mem_quoted (h w hw)]

@[simp] theorem getLast?_quoted (w : List Char) : (quoted w).getLast? = some '"' := by
  simp [quoted, List.getLast?_cons]

/-- Operands end in a quote, or there are none. -/
theorem getLast?_append_operands (before : List Char) (ws : List (List Char)) :
    (before ++ operands ws).getLast? = if ws = [] then before.getLast? else some '"' := by
  induction ws generalizing before with
  | nil => simp
  | cons w ws ih =>
      have hsplit : before ++ operands (w :: ws) = (before ++ ' ' :: quoted w) ++ operands ws := by
        simp
      have hlast : (before ++ ' ' :: quoted w).getLast? = some '"' := by
        simp [List.getLast?_append, List.getLast?_cons]
      rw [hsplit, ih, hlast]
      simp

/-- A keyword that stands at the start of a line without quotes. -/
def IsBare (keyword : String) : Prop :=
  keyword.toList ≠ [] ∧ '"' ∉ keyword.toList ∧ ∀ c ∈ keyword.toList, isBlank c = false

-- Goes through the characters of the keyword: an instance that goes through all characters is too
-- deep to evaluate.
instance (keyword : String) : Decidable (IsBare keyword) :=
  haveI : Decidable (∀ c ∈ keyword.toList, isBlank c = false) := List.decidableBAll _ _
  inferInstanceAs (Decidable (_ ∧ _ ∧ _))

end Words

open Words (IsBare quoted operands)

/-- A keyword with quoted words after it. -/
def statement (keyword : String) (ws : List String) : String :=
  String.ofList (keyword.toList ++ operands (ws.map String.toList))

/-- Quoted words. -/
def quotedLine (first : String) (ws : List String) : String :=
  String.ofList (quoted first.toList ++ operands (ws.map String.toList))

theorem words_statement {keyword : String} (h : IsBare keyword) (ws : List String) :
    words (statement keyword ws) = .ok (keyword :: ws) := by
  obtain ⟨hne, hquote, hsolid⟩ := h
  rw [words, statement, String.toList_ofList, Words.splitChars_token hne hquote hsolid]
  simp [Except.map, Function.comp_def]

theorem words_quotedLine (first : String) (ws : List String) :
    words (quotedLine first ws) = .ok (first :: ws) := by
  rw [words, quotedLine, String.toList_ofList, Words.splitChars_quoted]
  simp [Except.map, Function.comp_def]

theorem firstToken_statement {keyword : String} (h : IsBare keyword) (ws : List String) :
    String.ofList (Text.firstToken (statement keyword ws).toList) = keyword := by
  obtain ⟨hne, -, hsolid⟩ := h
  have hrest : (operands (ws.map String.toList)).head?.all Text.isBlank = true := by
    cases ws <;> rfl
  rw [statement, String.toList_ofList, Text.firstToken_append hsolid hne hrest,
    String.ofList_toList]

end NetHooks
