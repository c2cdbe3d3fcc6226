import NetHooks.LogicalLine
import NetHooks.Proofs.Fallible
import NetHooks.Proofs.Words
import NetHooks.Source.Directive

/-!
# What directives are read from

A directive is read from the words of a line: a first word, whatever it is, and the
operands. The keyword that the line begins with says which directive it is, but a guard
takes its sense from the first word: it asks for a definition that is there when the first
word is `ifdef`, and so when the keyword is `ifdef` with separators around it
(`Directive.wanted_iff_of_read`).
-/
namespace NetHooks

theorem wordsAt_eq_ok {text : String} {l : Location} {ws : List String} :
    wordsAt text l = .ok ws ↔ words text = .ok ws := by
  rw [wordsAt, mapError_eq_ok]

theorem eq_of_singleOperand {ws : List String} {keyword operand : String} {expected : Operand}
    {l : Location} (h : singleOperand ws keyword expected l = .ok operand) :
    ∃ first, ws = [first, operand] := by
  match ws, h with
  | [first, _], rfl => exact ⟨first, rfl⟩

theorem eq_of_checkedIdentifier {s identifier : String} {l : Location}
    (h : checkedIdentifier s l = .ok identifier) : identifier = s ∧ isIdentifier s = true := by
  simp only [checkedIdentifier] at h
  split at h
  next hvalid => exact ⟨(Except.ok.inj h).symm, hvalid⟩
  · cases h

namespace Directive

/-- The keywords of directives. -/
def keywords : List String := ["include", "define", "undef", "ifdef", "ifndef"]

/-- The directive of a keyword with the operands, after the first word. -/
inductive Spells (keyword first : String) : List String → Directive → Prop
  | include (target : String) (h : keyword = "include") :
      Spells keyword first [target] (.include target)
  | defineEmpty (identifier : String) (h : keyword = "define") (valid : isIdentifier identifier) :
      Spells keyword first [identifier] (.define identifier defaultValue)
  | define (identifier value : String) (h : keyword = "define")
      (valid : isIdentifier identifier) :
      Spells keyword first [identifier, value] (.define identifier value)
  | undefine (identifier : String) (h : keyword = "undef") (valid : isIdentifier identifier) :
      Spells keyword first [identifier] (.undefine identifier)
  | guard (identifier : String) (h : keyword = "ifdef" ∨ keyword = "ifndef")
      (valid : isIdentifier identifier) :
      Spells keyword first [identifier] (.guard identifier (first = "ifdef"))

variable {keyword text first : String} {l : Location} {d : Directive} {operands : List String}

/-- The words of a line with one checked operand. -/
theorem words_of_singleIdentifier {k : List String → String}
    {m : List String → String → Option Directive} {d? : Option Directive}
    (h : (do
      let ws ← wordsAt text l
      let operand ← singleOperand ws (k ws) .identifier l
      return m ws (← checkedIdentifier operand l)) = .ok d?) :
    ∃ first identifier, words text = .ok [first, identifier] ∧ isIdentifier identifier ∧
      d? = m [first, identifier] identifier := by
  obtain ⟨ws, hws, h₁⟩ := bind_eq_ok.1 h
  obtain ⟨operand, hoperand, h₂⟩ := bind_eq_ok.1 h₁
  obtain ⟨identifier, hidentifier, h₃⟩ := bind_eq_ok.1 h₂
  obtain ⟨first, rfl⟩ := eq_of_singleOperand hoperand
  obtain ⟨rfl, hvalid⟩ := eq_of_checkedIdentifier hidentifier
  exact ⟨first, identifier, wordsAt_eq_ok.1 hws, hvalid, (Except.ok.inj h₃).symm⟩

/-- A line that is accepted is no directive, or has the words that spell the one it is. -/
theorem read_cases {d? : Option Directive} (h : read keyword text l = .ok d?) :
    (keyword ∉ keywords ∧ d? = none) ∨
      ∃ first operands d, words text = .ok (first :: operands) ∧
        Spells keyword first operands d ∧ d? = some d := by
  simp only [read] at h
  split at h
  next hkeyword =>
    obtain ⟨ws, hws, h₁⟩ := bind_eq_ok.1 h
    obtain ⟨target, htarget, h₂⟩ := bind_eq_ok.1 h₁
    obtain ⟨first, rfl⟩ := eq_of_singleOperand htarget
    exact .inr ⟨first, _, _, wordsAt_eq_ok.1 hws, .include target hkeyword, (Except.ok.inj h₂).symm⟩
  split at h
  next hkeyword =>
    obtain ⟨ws, hws, h₁⟩ := bind_eq_ok.1 h
    split at h₁
    · cases h₁
    next first identifier =>
      obtain ⟨i, hi, h₂⟩ := bind_eq_ok.1 h₁
      obtain ⟨rfl, hvalid⟩ := eq_of_checkedIdentifier hi
      exact .inr ⟨first, _, _, wordsAt_eq_ok.1 hws, .defineEmpty i hkeyword hvalid,
        (Except.ok.inj h₂).symm⟩
    next first identifier value =>
      obtain ⟨i, hi, h₂⟩ := bind_eq_ok.1 h₁
      obtain ⟨rfl, hvalid⟩ := eq_of_checkedIdentifier hi
      exact .inr ⟨first, _, _, wordsAt_eq_ok.1 hws, .define i value hkeyword hvalid,
        (Except.ok.inj h₂).symm⟩
    · cases h₁
  split at h
  next hkeyword =>
    obtain ⟨first, identifier, hwords, hvalid, hd⟩ :=
      words_of_singleIdentifier (k := fun _ => "undef")
        (m := fun _ identifier => some (.undefine identifier)) h
    exact .inr ⟨first, _, _, hwords, .undefine identifier hkeyword hvalid, hd⟩
  split at h
  next hkeyword =>
    obtain ⟨first, identifier, hwords, hvalid, hd⟩ :=
      words_of_singleIdentifier (k := fun ws => ws.headD "")
        (m := fun ws identifier => some (.guard identifier (ws.headD "" = "ifdef"))) h
    exact .inr ⟨first, _, _, hwords, .guard identifier hkeyword hvalid, hd⟩
  · refine .inl ⟨?_, (Except.ok.inj h).symm⟩
    simp_all [keywords]

theorem read_of_not_mem (h : keyword ∉ keywords) : read keyword text l = .ok none := by
  simp only [keywords, List.mem_cons, List.not_mem_nil, or_false, not_or] at h
  simp [read, h]

theorem spells_of_read (h : read keyword text l = .ok (some d)) :
    ∃ first operands, words text = .ok (first :: operands) ∧ Spells keyword first operands d := by
  rcases read_cases h with ⟨-, hnone⟩ | ⟨first, operands, e, hwords, hspells, he⟩
  · cases hnone
  · cases he
    exact ⟨first, operands, hwords, hspells⟩

theorem keyword_of_read_include {target : String}
    (h : read keyword text l = .ok (some (.include target))) : keyword = "include" := by
  obtain ⟨first, operands, -, hspells⟩ := spells_of_read h
  cases hspells
  assumption

/-- The keyword of a directive has no quotes. -/
theorem not_mem_of_mem_keywords (h : keyword ∈ keywords) :
    keyword.toList ≠ [] ∧ '"' ∉ keyword.toList := by
  revert keyword
  decide

theorem Spells.mem_keywords (h : Spells keyword first operands d) : keyword ∈ keywords := by
  cases h with
  | guard _ h => rcases h with rfl | rfl <;> simp [keywords]
  | _ => simp_all [keywords]

/-- What a guard asks for. -/
theorem wanted_iff_of_read {identifier : String} {wanted : Bool}
    (hkeyword : String.ofList (Text.firstToken text.toList) = keyword)
    (h : read keyword text l = .ok (some (.guard identifier wanted))) :
    wanted = true ↔ keyword = "ifdef" ∧ Words.isSeparated text.toList = true := by
  obtain ⟨first, operands, hwords, hspells⟩ := spells_of_read h
  obtain ⟨hne, hquote⟩ := not_mem_of_mem_keywords hspells.mem_keywords
  rw [← hkeyword, String.toList_ofList] at hne hquote
  have hfirst := @head?_words_eq_iff text "ifdef" _ hne hquote (by simp [Text.isBlank]) hwords
  cases hspells
  rw [decide_eq_true_iff, ← hkeyword]
  simpa using hfirst

end Directive

/-! ### Directives of lines -/

namespace LogicalLine

/-- The first token of the line, which says whether it is a directive. -/
def keyword (line : LogicalLine) : String :=
  String.ofList (Text.firstToken line.text.toList)

/-- A guard as it is spelled asks for a definition that is there. -/
def asksPresence (line : LogicalLine) : Bool :=
  line.keyword = "ifdef"

/-- A guard as it is read asks for a definition that is there; a blank that separates no
words makes it ask for the opposite. -/
def readsPresence (line : LogicalLine) : Bool :=
  line.asksPresence && Words.isSeparated line.text.toList

theorem readsPresence_of_read {line : LogicalLine} {l : Location} {identifier : String}
    {wanted : Bool}
    (h : Directive.read line.keyword line.text l = .ok (some (.guard identifier wanted))) :
    line.readsPresence = wanted := by
  have hkeyword : String.ofList (Text.firstToken line.text.toList) = line.keyword := rfl
  rw [Bool.eq_iff_iff, Directive.wanted_iff_of_read hkeyword h]
  simp only [readsPresence, asksPresence, Bool.and_eq_true, decide_eq_true_eq]

end LogicalLine

/-! ### Errors of a line by itself -/

/-- The errors of a directive are about its words. -/
inductive SourceError.OfDirective (l : Location) : SourceError → Prop
  | badWords (cause : WordError) : OfDirective l (.badWords cause l)
  | missingOperand (keyword : String) (expected : Operand) :
      OfDirective l (.missingOperand keyword expected l)
  | tooManyOperands (keyword : String) : OfDirective l (.tooManyOperands keyword l)
  | invalidIdentifier (identifier : String) : OfDirective l (.invalidIdentifier identifier l)

section

variable {keyword text : String} {expected : Operand} {ws : List String} {l : Location}
  {e : SourceError}

theorem ofDirective_of_wordsAt (h : wordsAt text l = .error e) : e.OfDirective l := by
  rw [wordsAt] at h
  cases hwords : words text with
  | error cause =>
      rw [hwords] at h
      cases h
      exact .badWords cause
  | ok ws =>
      rw [hwords] at h
      cases h

theorem ofDirective_of_singleOperand (h : singleOperand ws keyword expected l = .error e) :
    e.OfDirective l := by
  unfold singleOperand at h
  split at h
  · cases h
  · cases h
    exact .missingOperand keyword expected
  · cases h
    exact .missingOperand keyword expected
  · cases h
    exact .tooManyOperands keyword

theorem ofDirective_of_checkedIdentifier (h : checkedIdentifier text l = .error e) :
    e.OfDirective l := by
  rw [checkedIdentifier] at h
  split at h
  · cases h
  · cases h
    exact .invalidIdentifier text

/-- An identifier that is checked and passed on. -/
theorem ofDirective_of_identifier {α : Type} {identifier : String} {make : String → α}
    (h : (checkedIdentifier identifier l >>= fun i => .ok (make i)) = .error e) :
    e.OfDirective l := by
  rcases bind_eq_error.1 h with h | ⟨i, -, h⟩
  · exact ofDirective_of_checkedIdentifier h
  · cases h

/-- A line with one operand. -/
theorem ofDirective_of_operand {α : Type} {k : List String → String}
    {make : List String → String → Except SourceError α}
    (hmake : ∀ ws operand, make ws operand = .error e → e.OfDirective l)
    (h : (wordsAt text l >>= fun ws =>
      singleOperand ws (k ws) expected l >>= make ws) = .error e) : e.OfDirective l := by
  rcases bind_eq_error.1 h with h | ⟨ws, -, h⟩
  · exact ofDirective_of_wordsAt h
  rcases bind_eq_error.1 h with h | ⟨operand, -, h⟩
  · exact ofDirective_of_singleOperand h
  · exact hmake ws operand h

theorem Directive.ofDirective_of_read (h : read keyword text l = .error e) : e.OfDirective l := by
  rw [read] at h
  split at h
  · refine ofDirective_of_operand (fun ws operand hmake => ?_) h
    cases hmake
  split at h
  · rcases bind_eq_error.1 h with h | ⟨ws, -, h⟩
    · exact ofDirective_of_wordsAt h
    split at h
    · cases h
      exact .missingOperand "define" .identifier
    · exact ofDirective_of_identifier h
    · exact ofDirective_of_identifier h
    · cases h
      exact .tooManyOperands "define"
  split at h
  · exact ofDirective_of_operand (fun _ _ => ofDirective_of_identifier) h
  split at h
  · exact ofDirective_of_operand (fun _ _ => ofDirective_of_identifier) h
  · cases h

end

/-- The computation does not complain about nesting. -/
def NeverMisplaced {α : Type} (x : Except SourceError α) : Prop :=
  ∀ place, x ≠ .error (.unexpectedNesting place)

namespace NeverMisplaced

variable {α β : Type} {l : Location}

theorem ok (a : α) : NeverMisplaced (.ok a) := fun _ => nofun

theorem error {e : SourceError} (h : ∀ place, e ≠ .unexpectedNesting place) :
    NeverMisplaced (.error e : Except SourceError α) := fun place heq =>
  h place (Except.error.inj heq)

theorem bind {x : Except SourceError α} {f : α → Except SourceError β} (hx : NeverMisplaced x)
    (hf : ∀ a, NeverMisplaced (f a)) : NeverMisplaced (x >>= f) := by
  cases x with
  | error e => exact error fun place heq => hx place (heq ▸ rfl)
  | ok a => exact hf a

theorem map {x : Except SourceError α} (hx : NeverMisplaced x) (f : α → β) :
    NeverMisplaced (x.map f) := by
  cases x with
  | error e => exact error fun place heq => hx place (heq ▸ rfl)
  | ok a => exact ok (f a)

theorem read (keyword text : String) : NeverMisplaced (Directive.read keyword text l) :=
  fun _ h => nomatch Directive.ofDirective_of_read h

end NeverMisplaced

end NetHooks
