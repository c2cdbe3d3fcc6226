import NetHooks.Catalog
import NetHooks.Text.Blank

/-!
# Definitions and substitution

A definition gives a value to an identifier. Substitution goes over a text once, from
left to right: a percent sign, a key without percent signs or blanks, and a second
percent sign make a token. An empty key stands for one percent sign, any other key for
its value, which is not read again. A percent sign that begins no token stands for
itself.
-/
namespace NetHooks

/-- A letter, then letters, digits, underscores and dots, all ASCII. -/
def isIdentifier (s : String) : Bool :=
  match s.toList with
  | [] => false
  | c :: rest => c.isAlpha && rest.all fun c => c.isAlphanum || c == '_' || c == '.'

abbrev Definitions := Catalog String

namespace Definitions

def isKeyChar (c : Char) : Bool :=
  c != '%' && !Text.isBlank c

/-- The key of a token that the text continues, and the text after the token. -/
def token? (s : List Char) : Option (List Char × List Char) :=
  match s.dropWhile isKeyChar with
  | '%' :: rest => some (s.takeWhile isKeyChar, rest)
  | _ => none

theorem length_token?_lt {s key rest : List Char} (h : token? s = some (key, rest)) :
    rest.length < s.length := by
  simp only [token?] at h
  split at h
  · next r hr =>
      cases h
      have := congrArg List.length (List.takeWhile_append_dropWhile (p := isKeyChar) (l := s))
      simp only [hr, List.length_append, List.length_cons] at this
      omega
  · cases h

/-- What a key stands for, or the key that has no definition. -/
def valueOf (d : Definitions) (key : List Char) : Except String (List Char) :=
  if key.isEmpty then .ok ['%']
  else match d.get? (String.ofList key) with
    | some value => .ok value.toList
    | none => .error (String.ofList key)

/-- The text after substitution, or the first key that has no definition. -/
def substituteChars (d : Definitions) : List Char → Except String (List Char)
  | [] => .ok []
  | c :: rest =>
      if c = '%' then
        match h : token? rest with
        | some (key, after) =>
            have := length_token?_lt h
            match d.valueOf key with
            | .error key => .error key
            | .ok value => (substituteChars d after).map (value ++ ·)
        | none => (substituteChars d rest).map ('%' :: ·)
      else (substituteChars d rest).map (c :: ·)
  termination_by s => s.length

def substitute (d : Definitions) (s : String) : Except String String :=
  (substituteChars d s.toList).map String.ofList

end Definitions

end NetHooks
