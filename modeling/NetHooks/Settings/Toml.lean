/-!
# Settings syntax

The part of TOML in which settings are written: one key and one value on a line, blank
lines and comments. A value is a string in one of its four forms or a truth value. All
readers take the characters from where they stand and give what they read with the
characters after it.
-/
namespace NetHooks.Toml

inductive Value where
  | text (s : String)
  | truth (b : Bool)
  deriving DecidableEq, Repr

/-- What a reader read and what follows it. -/
abbrev Read (α : Type) := Option (α × List Char)

def isSpace (c : Char) : Bool :=
  c == ' ' || c == '\t'

def skipSpaces (s : List Char) : List Char :=
  s.dropWhile isSpace

/-- A character that may stand in a comment or a literal: no control character but tab. -/
def isPlain (c : Char) : Bool :=
  c == '\t' || (0x20 ≤ c.toNat && c.toNat != 0x7F)

/-- The end of a line, after an optional comment. -/
def lineEnd (s : List Char) : Option (List Char) :=
  let beyond := match skipSpaces s with
    | '#' :: rest => rest.dropWhile isPlain
    | rest => rest
  match beyond with
  | [] => some []
  | '\n' :: rest => some rest
  | '\r' :: '\n' :: rest => some rest
  | _ => none

def hexDigit? (c : Char) : Option Nat :=
  if c.isDigit then some (c.toNat - '0'.toNat)
  else if 'a' ≤ c ∧ c ≤ 'f' then some (c.toNat - 'a'.toNat + 10)
  else if 'A' ≤ c ∧ c ≤ 'F' then some (c.toNat - 'A'.toNat + 10)
  else none

/-- The character with a number in hexadecimal digits. -/
def hexChar? (digits : List Char) : Option Char := do
  let n ← digits.foldlM (fun n c => (hexDigit? c).map (n * 16 + ·)) 0
  if n.isValidChar then some (Char.ofNat n) else none

/-- What a letter stands for after a backslash. -/
def simpleEscape? : Char → Option Char
  | 'b' => some '\x08'
  | 't' => some '\t'
  | 'n' => some '\n'
  | 'f' => some '\x0c'
  | 'r' => some '\r'
  | 'e' => some '\x1b'
  | '"' => some '"'
  | '\\' => some '\\'
  | _ => none

/-- The number of hexadecimal digits that a letter announces after a backslash. -/
def hexLength? : Char → Option Nat
  | 'x' => some 2
  | 'u' => some 4
  | 'U' => some 8
  | _ => none

/-- The character that is written after a backslash. -/
def escape (s : List Char) : Read Char :=
  match s with
  | [] => none
  | c :: rest =>
      match simpleEscape? c, hexLength? c with
      | some e, _ => some (e, rest)
      | none, some n =>
          if rest.length < n then none
          else (hexChar? (rest.take n)).map (·, rest.drop n)
      | none, none => none

theorem length_escape_lt {s rest : List Char} {c : Char} (h : escape s = some (c, rest)) :
    rest.length < s.length := by
  cases s with
  | nil => cases h
  | cons d s =>
      simp only [escape] at h
      split at h
      · cases h; simp
      · split at h
        · cases h
        · obtain ⟨x, -, hx⟩ := Option.map_eq_some_iff.1 h
          cases hx
          simp only [List.length_drop, List.length_cons]
          omega
      · cases h

/-- A basic string after its opening quote. -/
def basic : List Char → Read (List Char)
  | [] => none
  | '"' :: rest => some ([], rest)
  | '\\' :: rest =>
      match h : escape rest with
      | some (c, beyond) =>
          have := length_escape_lt h
          (basic beyond).map fun (s, r) => (c :: s, r)
      | none => none
  | c :: rest => if isPlain c then (basic rest).map fun (s, r) => (c :: s, r) else none
  termination_by s => s.length

/-- A literal string after its opening quote. -/
def literal : List Char → Read (List Char)
  | [] => none
  | '\'' :: rest => some ([], rest)
  | c :: rest => if isPlain c then (literal rest).map fun (s, r) => (c :: s, r) else none

/-- The quotes that belong to a long string, before the three that close it. -/
def closing (quote : Char) (s : List Char) : List Char × List Char :=
  match s with
  | a :: b :: rest =>
      if a = quote ∧ b = quote then ([quote, quote], rest)
      else if a = quote then ([quote], b :: rest)
      else ([], s)
  | [a] => if a = quote then ([quote], []) else ([], s)
  | [] => ([], [])

/-- A line end follows, perhaps after spaces. -/
def endsLine (s : List Char) : Bool :=
  match skipSpaces s with
  | '\n' :: _ => true
  | '\r' :: '\n' :: _ => true
  | _ => false

/-- A long basic string after its opening quotes. A backslash at the end of a line skips
(`skipping`) to the next character that is no space and no line end. -/
def longBasic (skipping : Bool) : List Char → Read (List Char)
  | [] => none
  | '"' :: '"' :: '"' :: rest => some (closing '"' rest)
  | '\r' :: '\n' :: rest =>
      if skipping then longBasic true rest
      else (longBasic false rest).map fun (s, r) => ('\r' :: '\n' :: s, r)
  | '\\' :: rest =>
      if endsLine rest then longBasic true rest
      else match h : escape rest with
        | some (c, beyond) =>
            have := length_escape_lt h
            (longBasic false beyond).map fun (s, r) => (c :: s, r)
        | none => none
  | c :: rest =>
      if skipping && (isSpace c || c == '\n') then longBasic true rest
      else if isPlain c || c == '\n' then (longBasic false rest).map fun (s, r) => (c :: s, r)
      else none
  termination_by s => s.length

/-- A long literal string after its opening quotes. -/
def longLiteral : List Char → Read (List Char)
  | [] => none
  | '\'' :: '\'' :: '\'' :: rest => some (closing '\'' rest)
  | '\r' :: '\n' :: rest => (longLiteral rest).map fun (s, r) => ('\r' :: '\n' :: s, r)
  | c :: rest =>
      if isPlain c || c == '\n' then (longLiteral rest).map fun (s, r) => (c :: s, r) else none

/-- A line end right after the opening quotes is no part of a long string. -/
def dropLineEnd : List Char → List Char
  | '\n' :: rest => rest
  | '\r' :: '\n' :: rest => rest
  | s => s

def value (s : List Char) : Read Value :=
  let text := Option.map fun (cs, r) => (Value.text (String.ofList cs), r)
  match s with
  | '"' :: '"' :: '"' :: rest => text (longBasic false (dropLineEnd rest))
  | '"' :: rest => text (basic rest)
  | '\'' :: '\'' :: '\'' :: rest => text (longLiteral (dropLineEnd rest))
  | '\'' :: rest => text (literal rest)
  | 't' :: 'r' :: 'u' :: 'e' :: rest => some (.truth true, rest)
  | 'f' :: 'a' :: 'l' :: 's' :: 'e' :: rest => some (.truth false, rest)
  | _ => none

def isBareKeyChar (c : Char) : Bool :=
  c.isAlphanum || c == '_' || c == '-'

def key (s : List Char) : Read String :=
  match s with
  | '"' :: rest => (basic rest).map fun (cs, r) => (String.ofList cs, r)
  | '\'' :: rest => (literal rest).map fun (cs, r) => (String.ofList cs, r)
  | _ =>
      let name := s.takeWhile isBareKeyChar
      if name.isEmpty then none else some (String.ofList name, s.dropWhile isBareKeyChar)

/-- A key, an equals sign and a value. -/
def pair (s : List Char) : Read (String × Value) :=
  match key s with
  | none => none
  | some (k, rest) =>
      match skipSpaces rest with
      | '=' :: rest => (value (skipSpaces rest)).map fun (v, r) => ((k, v), r)
      | _ => none

/-- The pairs of a document, at most one for each of `fuel` lines. -/
def pairs : Nat → List Char → Option (List (String × Value))
  | 0, s => if s.isEmpty then some [] else none
  | _ + 1, [] => some []
  | fuel + 1, s =>
      match lineEnd s with
      | some rest => pairs fuel rest
      | none =>
          match pair (skipSpaces s) with
          | none => none
          | some (p, rest) =>
              match lineEnd rest with
              | none => none
              | some rest => (pairs fuel rest).map (p :: ·)

/-- A mark of the encoding in front is no part of the document. -/
def dropMark : List Char → List Char
  | '\uFEFF' :: rest => rest
  | s => s

/-- The pairs of a document in their order; `none` when a line is not of this form. -/
def parse (text : String) : Option (List (String × Value)) :=
  let s := dropMark text.toList
  pairs s.length s

end NetHooks.Toml
