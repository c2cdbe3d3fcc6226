import NetHooks.Catalog
import NetHooks.Text.Alphanumeric

/-!
# Path templates

A path as a user writes it: `$NAME` and a name in braces stand for a variable, a name in
braces may carry a default after `:-`, two dollar signs stand for one, and a tilde in
front stands for the home directory. A tilde that a variable brought to the front stays.
-/
namespace NetHooks

/-- The variables of the process. -/
abbrev Variables := Catalog String

namespace PathTemplate

def isNameChar (c : Char) : Bool :=
  Text.isAlphanumeric c || c == '_'

def openBrace : Char := '\x7b'
def closeBrace : Char := '\x7d'

/-- Cut at the first `:-`. -/
def cutDefault : List Char → Option (List Char × List Char)
  | ':' :: '-' :: rest => some ([], rest)
  | c :: rest => (cutDefault rest).map fun (name, d) => (c :: name, d)
  | [] => none

/-- The name between braces and its default. A default needs a name before it. -/
def splitDefault (inner : List Char) : List Char × Option (List Char) :=
  match cutDefault inner with
  | some (c :: name, d) => (c :: name, some d)
  | _ => (inner, none)

/-- The value that a process finds under a name. A variable is one text, its name and its
value with an equals sign between them, and any equals sign may be taken for that one. -/
def valueOf? (vars : Variables) (name : List Char) : Option (List Char) :=
  if name.isEmpty then none
  else vars.entries.findSome? fun (key, value) =>
    let entry := key.toList ++ '=' :: value.toList
    if (name ++ ['=']).isPrefixOf entry then some (entry.drop (name.length + 1)) else none

example : valueOf? (.ofList [("A", "B=C")]) "A=B".toList = some ['C'] := by decide +kernel

/-- The value of a name, its default, or the name that is not set. -/
def lookUp (vars : Variables) (name : List Char) (default? : Option (List Char)) :
    Except String (List Char) :=
  match valueOf? vars name, default? with
  | some value, _ => .ok value
  | none, some d => .ok d
  | none, none => .error (String.ofList name)

/-- One piece at the head of a template that begins with a dollar sign, given what
follows the sign: what it stands for, and the rest. -/
def piece (vars : Variables) (after : List Char) : Except String (List Char × List Char) :=
  match after with
  | [] => .ok (['$'], [])
  | c :: rest =>
      if c = openBrace then
        match rest.dropWhile (· != closeBrace) with
        | [] => .ok (['$', openBrace], rest)
        | _ :: beyond =>
            let (name, default?) := splitDefault (rest.takeWhile (· != closeBrace))
            (lookUp vars name default?).map (·, beyond)
      else if isNameChar c then
        (lookUp vars (after.takeWhile isNameChar) none).map (·, after.dropWhile isNameChar)
      else if c = '$' then .ok (['$'], rest)
      else .ok (['$'], after)

theorem length_piece_le {vars : Variables} {after value beyond : List Char}
    (h : piece vars after = .ok (value, beyond)) : beyond.length ≤ after.length := by
  have hd : ∀ (p : Char → Bool) (l : List Char), (l.dropWhile p).length ≤ l.length := fun p l => by
    have := congrArg List.length (List.takeWhile_append_dropWhile (p := p) (l := l))
    simp only [List.length_append] at this
    omega
  have hm : ∀ (r : Except String (List Char)) (b : List Char),
      r.map (·, b) = .ok (value, beyond) → beyond = b := fun r b h => by
    cases r <;> simp_all [Except.map]
  cases after with
  | nil => simp only [piece] at h; cases h; exact Nat.le_refl _
  | cons c rest =>
      simp only [piece] at h
      split at h
      · split at h
        · cases h; simp
        · next x b hb =>
            have h₁ := hd (· != closeBrace) rest
            rw [hb] at h₁
            rw [hm _ _ h]
            simp only [List.length_cons] at *
            omega
      · split at h
        · rw [hm _ _ h]; exact hd ..
        · split at h <;> cases h <;> simp

/-- Put values for all variables. -/
def expandVariables (vars : Variables) : List Char → Except String (List Char)
  | [] => .ok []
  | c :: rest =>
      if c = '$' then
        match h : piece vars rest with
        | .error name => .error name
        | .ok (value, beyond) =>
            have := length_piece_le h
            (expandVariables vars beyond).map (value ++ ·)
      else (expandVariables vars rest).map (c :: ·)
  termination_by s => s.length

/-- Put the home directory for a tilde that stands alone in front. -/
def expandHome (home? : Option String) (s : List Char) : List Char :=
  match s, home? with
  | '~' :: rest, some home =>
      if rest.isEmpty || rest.head? == some '/' then home.toList ++ rest else s
  | _, _ => s

end PathTemplate

/-- A variable of a template that is not set. -/
structure ExpansionError where
  template : String
  missing : String
  deriving DecidableEq, Repr

def ExpansionError.message (e : ExpansionError) : String :=
  "Failed to expand path template '" ++ e.template ++ "': error looking key '" ++ e.missing ++
    "' up: environment variable not found"

/-- The home directory of a user for whom no variable names one. -/
def fallbackHome : String := "/root"

def homeOf (vars : Variables) : String :=
  match vars.get? "HOME" with
  | none | some "" => fallbackHome
  | some home => home

/-- The path that a template stands for. -/
def expandPath (vars : Variables) (template : String) : Except ExpansionError String :=
  let cs := template.toList
  match PathTemplate.expandVariables vars cs with
  | .error name => .error ⟨template, name⟩
  | .ok expanded =>
      if cs.head? != some '~' && expanded.head? == some '~' then .ok (String.ofList expanded)
      else .ok (String.ofList (PathTemplate.expandHome (some (homeOf vars)) expanded))

end NetHooks
