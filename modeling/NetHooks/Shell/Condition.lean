import NetHooks.FileTree
import NetHooks.Shell.Octets

/-!
# Shell conditions

The expressions of `test`: properties of files, texts and numbers, joined by `-a`, `-o`,
`!` and parentheses. What a word means hangs on the words around it: a word that looks like
a unary operator is an operand where a binary operator follows it.
-/
namespace NetHooks.Shell.Condition

inductive Comparison where
  | text (holds : Octets → Octets → Bool)
  | number (holds : Int → Int → Bool)
  | files (holds : FileTree → Octets → Octets → Bool)

inductive Operator where
  /-- A property of one operand, by its letter. -/
  | unary (letter : Char)
  | binary (c : Comparison)
  | negation
  | both
  | either
  | openParen
  | closeParen

/-! ### Files -/

def entryOf (tree : FileTree) (path : Octets) (follow : Bool) : Option Entry :=
  match tree.locate (Octets.decode path) follow with
  | .ok (.present p) => tree.find? p
  | _ => none

def placeOf (tree : FileTree) (path : Octets) : Option Place :=
  (tree.resolve (Octets.decode path)).toOption

/-- The number of entries that were written after the one at a path. -/
def age? (tree : FileTree) (path : Octets) : Option Nat := do
  let place ← placeOf tree path
  tree.entries.findIdx? (·.1 = place)

/-- Both are there, and the first was written later. -/
def isNewer (tree : FileTree) (a b : Octets) : Bool :=
  match age? tree a, age? tree b with
  | some m, some n => decide (m < n)
  | _, _ => false

def isSame (tree : FileTree) (a b : Octets) : Bool :=
  match placeOf tree a, placeOf tree b with
  | some p, some q => p == q
  | _, _ => false

def hasMode (tree : FileTree) (path : Octets) (holds : Nat → Bool) : Bool :=
  match entryOf tree path true with
  | some (.file _ mode) => holds mode
  | _ => false

/-- The file may be used so, if its mode says so; a directory may be. -/
def mayUse (tree : FileTree) (path : Octets) (holds : Nat → Bool) (device : Bool) : Bool :=
  match entryOf tree path true with
  | some (.file _ mode) => holds mode
  | some .directory => true
  | some .sink => device
  | _ => false

/-- What a letter asks of an operand. -/
def hasProperty (tree : FileTree) (letter : Char) (w : Octets) : Bool :=
  let e := entryOf tree w true
  match letter with
  | 'n' => !w.isEmpty
  | 'z' => w.isEmpty
  | 'r' => mayUse tree w mayRead true
  | 'w' => mayUse tree w mayWrite true
  | 'x' => mayUse tree w mayExecute false
  | 'e' | 'O' | 'G' => e.isSome
  | 'f' => (e matches some (.file _ _))
  | 'd' => (e matches some .directory)
  | 'c' => (e matches some .sink)
  | 'h' | 'L' => (entryOf tree w false matches some (.link _))
  | 's' =>
      match e with
      | some (.file bytes _) => !bytes.isEmpty
      | some .directory => true
      | _ => false
  | 'u' => hasMode tree w fun mode => mode &&& 0o4000 != 0
  | 'g' => hasMode tree w fun mode => mode &&& 0o2000 != 0
  | 'k' => hasMode tree w fun mode => mode &&& 0o1000 != 0
  | _ => false

/-- The letters of unary operators. -/
def unaryLetters : List Char :=
  "rwxefdcbpugksztnhOGLS".toList

def operator? (w : Octets) : Option Operator :=
  match String.ofList w with
  | "=" => some (.binary (.text (· == ·)))
  | "!=" => some (.binary (.text (· != ·)))
  | "<" => some (.binary (.text fun a b => decide (a < b)))
  | ">" => some (.binary (.text fun a b => decide (b < a)))
  | "-eq" => some (.binary (.number (· == ·)))
  | "-ne" => some (.binary (.number (· != ·)))
  | "-lt" => some (.binary (.number fun a b => decide (a < b)))
  | "-le" => some (.binary (.number fun a b => decide (a ≤ b)))
  | "-gt" => some (.binary (.number fun a b => decide (b < a)))
  | "-ge" => some (.binary (.number fun a b => decide (b ≤ a)))
  | "-nt" => some (.binary (.files isNewer))
  | "-ot" => some (.binary (.files fun tree a b => isNewer tree b a))
  | "-ef" => some (.binary (.files isSame))
  | "!" => some .negation
  | "-a" => some .both
  | "-o" => some .either
  | "(" => some .openParen
  | ")" => some .closeParen
  | _ =>
      match w with
      | ['-', c] => if unaryLetters.contains c then some (.unary c) else none
      | _ => none

def isBinary (w : Octets) : Bool :=
  operator? w matches some (.binary _)

/-! ### Expressions -/

/-- What a word means, with those behind it. -/
inductive Meaning where
  | nothing
  | operand
  | operator (o : Operator)

def meaning : List Octets → Meaning
  | [] => .nothing
  | w :: rest =>
      match operator? w with
      | none => .operand
      | some (.unary c) =>
          match rest with
          | [] => .operand
          | [_] => .operator (.unary c)
          | next :: _ :: _ => if isBinary next then .operand else .operator (.unary c)
      | some .openParen => if rest.isEmpty then .operand else .operator .openParen
      | some o => .operator o

/-- Reads words, keeps those from the last one of what was read, and gives up with what is
wrong. -/
abbrev Reader := StateT (List Octets) (Except Octets)

def wrong (w : Octets) (reason : String) : Octets :=
  if w.isEmpty then reason.toList else w ++ ": ".toList ++ reason.toList

def numberOf (w : Octets) : Except Octets Int :=
  match Octets.integer? w with
  | some n => .ok n
  | none => .error ("Illegal number: ".toList ++ w)

/-- Go on to the next word. -/
def advance : Reader Unit := modify List.tail

def meaningBehind : Reader Meaning := do
  return meaning (← get).tail

def Comparison.apply (tree : FileTree) (a b : Octets) : Comparison → Except Octets Bool
  | .text holds => .ok (holds a b)
  | .files holds => .ok (holds tree a b)
  | .number holds => do return holds (← numberOf a) (← numberOf b)

/-- A comparison whose first operand is the present word. -/
def comparison (tree : FileTree) (c : Comparison) : Reader Bool := do
  match ← get with
  | a :: _ :: b :: rest =>
      set (b :: rest)
      c.apply tree a b
  | _ :: o :: _ => throw (wrong o "argument expected")
  | _ => return false

mutual

def disjunction (tree : FileTree) (fuel : Nat) (first : Meaning) : Reader Bool := do
  match fuel with
  | 0 => return false
  | fuel + 1 =>
      let a ← conjunction tree fuel first
      match ← meaningBehind with
      | .operator .either =>
          advance
          advance
          let b ← disjunction tree fuel (meaning (← get))
          return a || b
      | _ => return a

def conjunction (tree : FileTree) (fuel : Nat) (first : Meaning) : Reader Bool := do
  match fuel with
  | 0 => return false
  | fuel + 1 =>
      let a ← negation tree fuel first
      match ← meaningBehind with
      | .operator .both =>
          advance
          advance
          let b ← conjunction tree fuel (meaning (← get))
          return a && b
      | _ => return a

def negation (tree : FileTree) (fuel : Nat) (first : Meaning) : Reader Bool := do
  match fuel, first with
  | 0, _ => return false
  | fuel + 1, .operator .negation =>
      let next ← meaningBehind
      if !(next matches .nothing) then advance
      return !(← negation tree fuel next)
  | fuel + 1, _ => primary tree fuel first

def primary (tree : FileTree) (fuel : Nat) (first : Meaning) : Reader Bool := do
  match fuel, first with
  | 0, _ | _, .nothing => return false
  | fuel + 1, .operator .openParen =>
      advance
      match meaning (← get) with
      | .operator .closeParen => return false
      | next =>
          let b ← disjunction tree fuel next
          advance
          match meaning (← get) with
          | .operator .closeParen => return b
          | _ => throw "closing paren expected".toList
  | _ + 1, .operator (.unary letter) =>
      let o := (← get).headD []
      advance
      match ← get with
      | [] => throw (wrong o "argument expected")
      | w :: _ =>
          if letter = 't' then
            let _ ← numberOf w
          return hasProperty tree letter w
  | _ + 1, _ =>
      match ← meaningBehind with
      | .operator (.binary c) => comparison tree c
      | _ => return !((← get).headD []).isEmpty

end

/-- Whether the expression holds, with what the first word means. Behind it there may be one
word more, but no two. -/
def whole (tree : FileTree) (ws : List Octets) (first : Meaning) : Except Octets Bool := do
  let (b, rest) ← (disjunction tree (4 * ws.length + 4) first).run ws
  match rest with
  | w :: _ :: _ => throw (wrong w "unexpected operator")
  | _ => return b

/-- Three words with a binary operator between them are a comparison. An expression of three
or four words may stand in parentheses or behind a negation. -/
def evaluateWithin (tree : FileTree) : Nat → List Octets → Except Octets Bool
  | 0, _ | _, [] => .ok false
  | fuel + 1, ws => do
      let isPair := ws.length = 3 && (ws[1]?.map isBinary).getD false
      if isPair then whole tree ws .operand
      else if ws.length = 3 || ws.length = 4 then
        if ws.head? = some ['('] && ws.getLast? = some [')'] then
          let inner := ws.tail.dropLast
          whole tree inner (meaning inner)
        else if ws.head? = some ['!'] then
          return !(← evaluateWithin tree fuel ws.tail)
        else whole tree ws (meaning ws)
      else whole tree ws (meaning ws)

def evaluate (tree : FileTree) (ws : List Octets) : Except Octets Bool :=
  evaluateWithin tree ws.length ws

end NetHooks.Shell.Condition
