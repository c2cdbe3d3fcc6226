import NetHooks.Shell.Octets

/-!
# Shell patterns

Patterns with `*`, `?` and sets in brackets. A character behind a backslash stands for
itself.
-/
namespace NetHooks.Shell

/-- What a set in brackets holds. -/
inductive Member where
  | range (first last : Char)
  /-- All characters of a named kind. -/
  | kind (name : String)
  deriving DecidableEq, Repr

/-- What one character of the text is compared with. -/
inductive One where
  | char (c : Char)
  | any
  /-- A character that some member holds, or none. -/
  | set (among : Bool) (members : List Member)
  deriving DecidableEq, Repr

inductive PatternItem where
  | one (o : One)
  | star
  deriving DecidableEq, Repr

abbrev Pattern := List PatternItem

/-- A character that is seen on paper. -/
def isGraphic (c : Char) : Bool :=
  decide ('!' ≤ c) && decide (c ≤ '~')

/-- The named kinds of characters. Octets beyond ASCII are of none. -/
def characterKinds : List (String × (Char → Bool)) :=
  [("alnum", Char.isAlphanum), ("alpha", Char.isAlpha),
    ("blank", fun c => c == ' ' || c == '\t'),
    ("cntrl", fun c => decide (c < ' ') || c == '\x7f'),
    ("digit", Char.isDigit), ("graph", isGraphic), ("lower", Char.isLower),
    ("print", fun c => c == ' ' || isGraphic c),
    ("punct", fun c => isGraphic c && !c.isAlphanum),
    ("space", fun c => c == ' ' || decide ('\t' ≤ c) && decide (c ≤ '\r')),
    ("upper", Char.isUpper),
    ("xdigit", fun c => c.isDigit || "abcdefABCDEF".toList.contains c)]

/-- The place of an octet in the order of ranges: those beyond ASCII come first. -/
def rangeOrder (c : Char) : Int :=
  if c.toNat < 128 then c.toNat else (c.toNat : Int) - 256

def Member.holds : Member → Char → Bool
  | .range a b, c => decide (rangeOrder a ≤ rangeOrder c) && decide (rangeOrder c ≤ rangeOrder b)
  | .kind name, c => (characterKinds.lookup name).any (· c)

def One.admits : One → Char → Bool
  | .char d, c => c == d
  | .any, _ => true
  | .set among members, c => members.any (·.holds c) == among

namespace Pattern

def fits : Pattern → Octets → Bool
  | [], s => s.isEmpty
  | .star :: p, [] => fits p []
  | .star :: p, c :: s => fits p (c :: s) || fits (.star :: p) s
  | .one _ :: _, [] => false
  | .one o :: p, c :: s => o.admits c && fits p s
  termination_by p s => p.length + s.length

/-- The named kind behind an open bracket, and what follows it. -/
def kind? (s : Octets) : Option (String × Octets) :=
  characterKinds.findSome? fun (name, _) =>
    let spelling := ':' :: name.toList ++ ":]".toList
    if spelling.isPrefixOf s then some (name, s.drop spelling.length) else none

/-- The members of a set up to its closing bracket, and what follows; nothing if no bracket
closes it. A bracket that comes first closes nothing. Each round takes a character, so the
length of the text is fuel enough. -/
def members? : Nat → Bool → Octets → Option (List Member × Octets)
  | 0, _, _ | _, _, [] => none
  | fuel + 1, isFirst, c :: rest => do
      if c = ']' && !isFirst then return ([], rest)
      match (if c = '[' then kind? rest else none) with
      | some (name, beyond) =>
          let (more, beyond) ← members? fuel false beyond
          return (.kind name :: more, beyond)
      | none =>
          let (a, rest) ← if c = '\\' then takeOne rest else some (c, rest)
          match rest with
          | '-' :: d :: beyond =>
              if d = ']' then go fuel a a rest
              else
                let (b, beyond) ← if d = '\\' then takeOne beyond else some (d, beyond)
                go fuel a b beyond
          | _ => go fuel a a rest
where
  takeOne : Octets → Option (Char × Octets)
    | [] => none
    | c :: rest => some (c, rest)
  go (fuel : Nat) (a b : Char) (rest : Octets) : Option (List Member × Octets) := do
    let (more, beyond) ← members? fuel false rest
    return (.range a b :: more, beyond)

/-- The set that an open bracket begins, and what follows it. -/
def set? (s : Octets) : Option (One × Octets) :=
  match s with
  | '!' :: inner => (members? (inner.length + 1) true inner).map fun (m, r) => (.set false m, r)
  | _ => (members? (s.length + 1) true s).map fun (m, r) => (.set true m, r)

/-- The pattern that a text is. Each round takes a character, so its length is fuel
enough. -/
def ofTextWithin : Nat → Octets → Pattern
  | 0, _ | _, [] => []
  | fuel + 1, c :: rest =>
      match c, rest with
      | '*', _ => .star :: ofTextWithin fuel rest
      | '?', _ => .one .any :: ofTextWithin fuel rest
      | '\\', d :: beyond => .one (.char d) :: ofTextWithin fuel beyond
      | '[', _ =>
          match set? rest with
          | some (o, beyond) => .one o :: ofTextWithin fuel beyond
          | none => .one (.char '[') :: ofTextWithin fuel rest
      | _, _ => .one (.char c) :: ofTextWithin fuel rest

def ofText (s : Octets) : Pattern :=
  ofTextWithin s.length s

/-- A text as far as a NUL, which ends what a pattern is compared with. -/
def untilNul (s : Octets) : Octets :=
  s.takeWhile (· != '\x00')

/-- The length of the shortest, or longest, head that fits. -/
def headLength? (p : Pattern) (longest : Bool) (s : Octets) : Option Nat :=
  let lengths := List.range (s.length + 1)
  (if longest then lengths.reverse else lengths).find? fun n => fits p (untilNul (s.take n))

/-- The length of what stands before the shortest, or longest, tail that fits. -/
def lengthBeforeTail? (p : Pattern) (longest : Bool) (s : Octets) : Option Nat :=
  let lengths := List.range (s.length + 1)
  (if longest then lengths else lengths.reverse).find? fun n => fits p (untilNul (s.drop n))

example : ofText "a\\*".toList = [.one (.char 'a'), .one (.char '*')] := by decide +kernel

example : fits (ofText "[a-c]*[!x]".toList) "bxy".toList = true := by cbv

end Pattern

end NetHooks.Shell
