import NetHooks.Proofs.Fallible
import NetHooks.Source.Definitions
import Mathlib.Data.List.TakeWhile

/-!
# Parts of a text

Before any definition is looked up, a text is cut from the left into tokens and characters that
stand for themselves (`Reads`), in one way only. Substitution puts a value in the place of each
token, and fails at the first token whose key has no definition (`substitute_outcome`). What a
value holds is never cut again, and a text whose percent signs are doubled comes back with single
ones.
-/
namespace NetHooks

namespace Definitions

open Text (isBlank)

/-- A character that stands for itself, or a key between percent signs. -/
inductive Part where
  | char (c : Char)
  | token (key : String)
  deriving DecidableEq, Repr

/-- The parts of a text. After a percent sign stands the longest run of characters that are neither
percent signs nor blanks; it is a key when a percent sign comes next. Otherwise the percent sign
stands for itself, and reading goes on right after it. -/
inductive Reads : List Char → List Part → Prop
  | nil : Reads [] []
  | char {c : Char} {s : List Char} {parts : List Part} (other : c ≠ '%') (rest : Reads s parts) :
      Reads (c :: s) (.char c :: parts)
  | token {key s : List Char} {parts : List Part} (solid : ∀ c ∈ key, c ≠ '%' ∧ isBlank c = false)
      (rest : Reads s parts) :
      Reads ('%' :: (key ++ '%' :: s)) (.token (String.ofList key) :: parts)
  | lone {run s : List Char} {parts : List Part} (solid : ∀ c ∈ run, c ≠ '%' ∧ isBlank c = false)
      (stops : ∀ c ∈ s.head?, isBlank c = true) (rest : Reads (run ++ s) parts) :
      Reads ('%' :: (run ++ s)) (.char '%' :: parts)

/-- Every part has a value but a token whose key has no definition. -/
def Part.IsDefined (d : Definitions) : Part → Prop
  | char _ => True
  | token key => key = "" ∨ d.contains key = true

instance (d : Definitions) (p : Part) : Decidable (p.IsDefined d) :=
  match p with
  | .char _ => isTrue trivial
  | .token key => inferInstanceAs (Decidable (key = "" ∨ d.contains key = true))

def Part.value (d : Definitions) : Part → List Char
  | char c => [c]
  | token key => if key = "" then ['%'] else ((d.get? key).getD "").toList

variable {d : Definitions} {s key after run : List Char} {parts : List Part}

/-! ### Tokens -/

theorem isKeyChar_iff {c : Char} : isKeyChar c = true ↔ c ≠ '%' ∧ isBlank c = false := by
  simp [isKeyChar]

theorem token?_append (solid : ∀ c ∈ key, c ≠ '%' ∧ isBlank c = false) (s : List Char) :
    token? (key ++ '%' :: s) = some (key, s) := by
  have hkey : ∀ c ∈ key, isKeyChar c = true := fun c hc => isKeyChar_iff.2 (solid c hc)
  have hstop : isKeyChar '%' = false := rfl
  rw [token?, List.dropWhile_append_of_pos hkey, List.takeWhile_append_of_pos hkey,
    List.dropWhile_cons_of_neg (by simp [hstop]), List.takeWhile_cons_of_neg (by simp [hstop]),
    List.append_nil]
  rfl

theorem token?_eq_none (solid : ∀ c ∈ run, c ≠ '%' ∧ isBlank c = false)
    (stops : ∀ c ∈ s.head?, isBlank c = true) : token? (run ++ s) = none := by
  have hrun : ∀ c ∈ run, isKeyChar c = true := fun c hc => isKeyChar_iff.2 (solid c hc)
  rw [token?, List.dropWhile_append_of_pos hrun]
  cases s with
  | nil => rfl
  | cons c s =>
      have hblank : isBlank c = true := stops c rfl
      have hne : c ≠ '%' := by
        rintro rfl
        cases hblank
      rw [List.dropWhile_cons_of_neg (by simp [isKeyChar, hblank])]
      split
      next hsplit => exact absurd (List.cons.inj hsplit).1 hne
      · rfl

/-- After a percent sign either a key and another percent sign stand, or a run that stops at a
blank or with the text. -/
theorem token?_cases (s : List Char) :
    (∃ key after, s = key ++ '%' :: after ∧ (∀ c ∈ key, c ≠ '%' ∧ isBlank c = false)) ∨
      ∃ run rest, s = run ++ rest ∧ (∀ c ∈ run, c ≠ '%' ∧ isBlank c = false) ∧
        ∀ c ∈ rest.head?, isBlank c = true := by
  have hsplit := List.takeWhile_append_dropWhile (p := isKeyChar) (l := s)
  have hsolid : ∀ c ∈ s.takeWhile isKeyChar, c ≠ '%' ∧ isBlank c = false := fun c hc =>
    isKeyChar_iff.1 (List.mem_takeWhile_imp hc)
  have hstop := List.head?_dropWhile_not isKeyChar s
  cases hrest : s.dropWhile isKeyChar with
  | nil =>
      rw [hrest] at hsplit
      exact .inr ⟨_, [], hsplit.symm, hsolid, nofun⟩
  | cons c rest =>
      rw [hrest] at hsplit hstop
      have hother : ¬(c ≠ '%' ∧ isBlank c = false) := by
        rw [← isKeyChar_iff]
        simpa using hstop
      by_cases hc : c = '%'
      · subst hc
        exact .inl ⟨_, rest, hsplit.symm, hsolid⟩
      · refine .inr ⟨_, c :: rest, hsplit.symm, hsolid, fun x hx => ?_⟩
        cases hx
        simpa [hc] using hother

/-! ### Parts -/

theorem exists_reads (s : List Char) : ∃ parts, Reads s parts := by
  induction hn : s.length using Nat.strong_induction_on generalizing s with
  | _ n ih =>
      subst hn
      cases s with
      | nil => exact ⟨[], .nil⟩
      | cons c s =>
          by_cases hc : c = '%'
          · subst hc
            rcases token?_cases s with ⟨key, after, rfl, hsolid⟩ | ⟨run, rest, rfl, hsolid, hstops⟩
            · obtain ⟨parts, hparts⟩ := ih after.length (by simp; omega) after rfl
              exact ⟨_, .token hsolid hparts⟩
            · obtain ⟨parts, hparts⟩ := ih (run ++ rest).length (by simp) _ rfl
              exact ⟨_, .lone hsolid hstops hparts⟩
          · obtain ⟨parts, hparts⟩ := ih s.length (by simp) s rfl
            exact ⟨_, .char hc hparts⟩

/-- What a text that begins with a percent sign begins with. -/
theorem Reads.of_percent (h : Reads ('%' :: s) parts) :
    (∃ key after rest, token? s = some (key, after) ∧ parts = .token (String.ofList key) :: rest ∧
      Reads after rest) ∨
    ∃ rest, token? s = none ∧ parts = .char '%' :: rest ∧ Reads s rest := by
  generalize htext : '%' :: s = text at h
  cases h with
  | nil => cases htext
  | char other _ => exact absurd (List.cons.inj htext).1.symm other
  | token solid rest =>
      obtain rfl := (List.cons.inj htext).2
      exact .inl ⟨_, _, _, token?_append solid _, rfl, rest⟩
  | lone solid stops rest =>
      obtain rfl := (List.cons.inj htext).2
      exact .inr ⟨_, token?_eq_none solid stops, rfl, rest⟩

theorem Reads.unique (h : Reads s parts) {parts' : List Part} (h' : Reads s parts') :
    parts' = parts := by
  induction h generalizing parts' with
  | nil => cases h'; rfl
  | char other _ ih =>
      cases h' with
      | char _ rest => rw [ih rest]
      | token => exact absurd rfl other
      | lone => exact absurd rfl other
  | token solid _ ih =>
      rcases h'.of_percent with ⟨key, after, rest, htoken, rfl, hrest⟩ | ⟨rest, htoken, -, -⟩
      · cases (token?_append solid _).symm.trans htoken
        rw [ih hrest]
      · cases (token?_append solid _).symm.trans htoken
  | lone solid stops _ ih =>
      rcases h'.of_percent with ⟨key, after, rest, htoken, -, -⟩ | ⟨rest, -, rfl, hrest⟩
      · cases (token?_eq_none solid stops).symm.trans htoken
      · rw [ih hrest]

/-! ### Values -/

/-- The value of a part, or the key that has no definition. -/
def Part.evaluate (d : Definitions) : Part → Except String (List Char)
  | char c => .ok [c]
  | token key => d.valueOf key.toList

theorem valueOf_toList (d : Definitions) (key : String) : d.valueOf key.toList =
    if key = "" then .ok ['%']
    else match d.get? key with
      | some value => .ok value.toList
      | none => .error key := by
  rw [valueOf, String.ofList_toList]
  by_cases hkey : key = ""
  · subst hkey
    rfl
  · exact (if_neg (by simpa using hkey)).trans (if_neg hkey).symm

theorem Part.evaluate_eq_ok {p : Part} {v : List Char} :
    p.evaluate d = .ok v ↔ p.IsDefined d ∧ v = p.value d := by
  cases p with
  | char c => simp [evaluate, IsDefined, value, eq_comm]
  | token key =>
      rw [evaluate, valueOf_toList, IsDefined, value]
      by_cases hkey : key = ""
      · subst hkey
        simpa using eq_comm
      · cases hget : d.get? key with
        | none => simp [hkey, Catalog.contains, hget]
        | some value => simp [hkey, Catalog.contains, hget, eq_comm]

theorem Part.evaluate_eq_error {p : Part} {key : String} :
    p.evaluate d = .error key ↔ p = .token key ∧ ¬p.IsDefined d := by
  cases p with
  | char c => simp [evaluate]
  | token k =>
      rw [evaluate, valueOf_toList, IsDefined]
      by_cases hk : k = ""
      · simp [hk]
      · cases hget : d.get? k with
        | none => simp [hk, Catalog.contains, hget]
        | some value => simp [hk, Catalog.contains, hget]

/-- The value of the first part comes before those of the others. -/
theorem flatten_mapM_cons (d : Definitions) (p : Part) (parts : List Part) :
    ((p :: parts).mapM (Part.evaluate d)).map List.flatten =
      p.evaluate d >>= fun v => ((parts.mapM (Part.evaluate d)).map List.flatten).map (v ++ ·) := by
  rw [List.mapM_cons]
  cases p.evaluate d with
  | error key => rfl
  | ok v => cases parts.mapM (Part.evaluate d) <;> rfl

theorem substituteChars_of_token (h : token? s = some (key, after)) (d : Definitions) :
    substituteChars d ('%' :: s) =
      d.valueOf key >>= fun v => (substituteChars d after).map (v ++ ·) := by
  rw [substituteChars, if_pos rfl]
  split
  next key' after' htoken =>
    cases h.symm.trans htoken
    cases d.valueOf key <;> rfl
  next htoken => cases h.symm.trans htoken

theorem substituteChars_of_lone (h : token? s = none) (d : Definitions) :
    substituteChars d ('%' :: s) = (substituteChars d s).map ('%' :: ·) := by
  rw [substituteChars, if_pos rfl]
  split
  next htoken => cases h.symm.trans htoken
  · rfl

/-- Substitution evaluates the parts in their order. -/
theorem Reads.substituteChars_eq (h : Reads s parts) (d : Definitions) :
    substituteChars d s = (parts.mapM (Part.evaluate d)).map List.flatten := by
  induction h with
  | nil => rw [substituteChars]; rfl
  | char other _ ih =>
      rw [substituteChars, if_neg other, ih, flatten_mapM_cons]
      rfl
  | token solid _ ih =>
      rw [substituteChars_of_token (token?_append solid _), ih, flatten_mapM_cons, Part.evaluate,
        String.toList_ofList]
  | lone solid stops _ ih =>
      rw [substituteChars_of_lone (token?_eq_none solid stops), ih, flatten_mapM_cons]
      rfl

theorem mapM_evaluate_eq_ok {values : List (List Char)} :
    parts.mapM (Part.evaluate d) = .ok values ↔
      (∀ p ∈ parts, p.IsDefined d) ∧ values = parts.map (Part.value d) :=
  mapM_eq_ok_iff fun _ _ => Part.evaluate_eq_ok

theorem Reads.substitute_eq_ok_iff {text : String} (h : Reads text.toList parts) {out : String} :
    d.substitute text = .ok out ↔
      (∀ p ∈ parts, p.IsDefined d) ∧ out.toList = parts.flatMap (Part.value d) := by
  rw [substitute, h.substituteChars_eq, List.flatMap_def]
  constructor
  · intro hout
    obtain ⟨chars, hchars, rfl⟩ := map_eq_ok.1 hout
    obtain ⟨values, hvalues, rfl⟩ := map_eq_ok.1 hchars
    obtain ⟨hdefined, rfl⟩ := mapM_evaluate_eq_ok.1 hvalues
    exact ⟨hdefined, String.toList_ofList⟩
  · rintro ⟨hdefined, hout⟩
    refine map_eq_ok.2 ⟨_, map_eq_ok.2 ⟨_, mapM_evaluate_eq_ok.2 ⟨hdefined, rfl⟩, rfl⟩, ?_⟩
    rw [← hout, String.ofList_toList]

theorem Reads.substitute_eq_error_iff {text : String} (h : Reads text.toList parts) {key : String} :
    d.substitute text = .error key ↔ ∃ before after, parts = before ++ .token key :: after ∧
      (∀ p ∈ before, p.IsDefined d) ∧ ¬(Part.token key).IsDefined d := by
  rw [substitute, map_eq_error, h.substituteChars_eq, map_eq_error, mapM_eq_error_iff]
  constructor
  · rintro ⟨before, p, after, values, rfl, hbefore, hp⟩
    obtain ⟨rfl, hundefined⟩ := Part.evaluate_eq_error.1 hp
    exact ⟨before, after, rfl, (mapM_evaluate_eq_ok.1 hbefore).1, hundefined⟩
  · rintro ⟨before, after, rfl, hbefore, hundefined⟩
    exact ⟨before, _, after, _, rfl, mapM_evaluate_eq_ok.2 ⟨hbefore, rfl⟩,
      Part.evaluate_eq_error.2 ⟨rfl, hundefined⟩⟩

/-! ### Doubled percent signs -/

/-- The text with its percent signs doubled. -/
def doubled (s : List Char) : List Char :=
  s.flatMap fun c => if c = '%' then ['%', '%'] else [c]

variable {c : Char}

@[simp] theorem doubled_nil : doubled [] = [] := rfl

theorem doubled_sign (s : List Char) : doubled ('%' :: s) = '%' :: '%' :: doubled s := rfl

theorem doubled_cons (h : c ≠ '%') (s : List Char) : doubled (c :: s) = c :: doubled s := by
  simp [doubled, h]

theorem doubled_eq_self (h : '%' ∉ s) : doubled s = s := by
  induction s with
  | nil => rfl
  | cons c s ih =>
      obtain ⟨hc, hs⟩ := not_or.1 (mt List.mem_cons.2 h)
      rw [doubled_cons (Ne.symm hc), ih hs]

@[simp] theorem mem_doubled : c ∈ doubled s ↔ c ∈ s := by
  simp only [doubled, List.mem_flatMap]
  constructor
  · rintro ⟨x, hx, hc⟩
    split at hc <;> simp_all
  · intro h
    refine ⟨c, h, ?_⟩
    split <;> simp_all

theorem reverse_doubled (s : List Char) : (doubled s).reverse = doubled s.reverse := by
  rw [doubled, List.reverse_flatMap, doubled]
  congr 1
  funext c
  simp only [Function.comp_apply]
  split <;> rfl

theorem takeWhile_doubled (p : Char → Bool) (s : List Char) :
    (doubled s).takeWhile p = doubled (s.takeWhile p) := by
  induction s with
  | nil => rfl
  | cons c s ih =>
      by_cases hc : c = '%'
      · subst hc
        cases hp : p '%' <;> simp [doubled_sign, hp, ih]
      · cases hp : p c <;> simp [doubled_cons hc, hp, ih]

theorem dropWhile_doubled (p : Char → Bool) (s : List Char) :
    (doubled s).dropWhile p = doubled (s.dropWhile p) := by
  induction s with
  | nil => rfl
  | cons c s ih =>
      by_cases hc : c = '%'
      · subst hc
        cases hp : p '%' <;> simp [doubled_sign, hp, ih]
      · cases hp : p c <;> simp [doubled_cons hc, hp, ih]

/-- Substitution undoes the doubling. -/
theorem substituteChars_doubled (d : Definitions) (s : List Char) :
    d.substituteChars (doubled s) = .ok s := by
  induction s with
  | nil => rw [doubled_nil, substituteChars]
  | cons c s ih =>
      by_cases hc : c = '%'
      · subst hc
        have htoken : token? ('%' :: doubled s) = some ([], doubled s) := rfl
        rw [doubled_sign, substituteChars_of_token htoken, ih]
        rfl
      · rw [doubled_cons hc, substituteChars, if_neg hc, ih]
        rfl

theorem substitute_doubled (d : Definitions) (text : String) :
    d.substitute (String.ofList (doubled text.toList)) = .ok text := by
  rw [substitute, String.toList_ofList, substituteChars_doubled]
  exact congrArg Except.ok (String.ofList_toList)

/-- Every text has its parts, and no others. Substitution gives the values of all parts one after
another, or the first key without a definition; and it undoes the doubling of percent signs. -/
theorem substitute_outcome (d : Definitions) :
    (∀ text : String, ∃! parts, Reads text.toList parts) ∧
    (∀ (text : String) (parts : List Part), Reads text.toList parts →
      (∀ out, d.substitute text = .ok out ↔
        (∀ p ∈ parts, p.IsDefined d) ∧ out.toList = parts.flatMap (Part.value d)) ∧
      ∀ key, d.substitute text = .error key ↔
        ∃ before after, parts = before ++ .token key :: after ∧
          (∀ p ∈ before, p.IsDefined d) ∧ ¬(Part.token key).IsDefined d) ∧
    ∀ text : String, d.substitute (String.ofList (doubled text.toList)) = .ok text := by
  refine ⟨fun text => ?_, fun text parts h => ?_, substitute_doubled d⟩
  · obtain ⟨parts, hparts⟩ := exists_reads text.toList
    exact ⟨parts, hparts, fun _ => hparts.unique⟩
  · exact ⟨fun _ => h.substitute_eq_ok_iff, fun _ => h.substitute_eq_error_iff⟩

/-- The second percent sign of a doubled one does not begin a token, a lone one does not end one,
and a value is not read again. -/
theorem substitute_outcome_nested :
    let d : Definitions := .ofList [("a", "%b%")]
    let parts : List Part := [.token "", .char 'a', .char '%', .char ' ', .token "a"]
    Reads "%%a% %a%".toList parts ∧ d.substitute "%%a% %a%" = .ok "%a% %b%" ∧
      Reads "%a%%b%%c%".toList [.token "a", .token "b", .token "c"] ∧
      d.substitute "%a%%b%%c%" = .error "b" := by
  intro d parts
  have hsolid (k : Char) (h : k ≠ '%' ∧ isBlank k = false) :
      ∀ c ∈ [k], c ≠ '%' ∧ isBlank c = false := List.forall_mem_singleton.2 h
  have hstops : ∀ c ∈ [' ', '%', 'a', '%'].head?, isBlank c = true := fun c hc => by
    cases hc
    rfl
  have hreads : Reads "%%a% %a%".toList parts :=
    @Reads.token [] _ _ nofun (.char (by decide) (@Reads.lone [] _ _ nofun hstops
      (.char (by decide) (.token (hsolid 'a' (by decide)) .nil))))
  have hreads' : Reads "%a%%b%%c%".toList [.token "a", .token "b", .token "c"] :=
    .token (hsolid 'a' (by decide)) (.token (hsolid 'b' (by decide))
      (.token (hsolid 'c' (by decide)) .nil))
  obtain ⟨-, houtcome, -⟩ := substitute_outcome d
  exact ⟨hreads, ((houtcome _ _ hreads).1 _).2 (by decide), hreads',
    ((houtcome _ _ hreads').2 "b").2 ⟨[.token "a"], [.token "c"], by decide⟩⟩

end Definitions

end NetHooks
