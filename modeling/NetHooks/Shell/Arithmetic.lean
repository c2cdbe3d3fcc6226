import NetHooks.Shell.Command

/-!
# Shell arithmetic

Expressions over 64-bit integers. Names stand for the values of variables, operators have
the usual precedence, and operators of one precedence go from left to right. A text is cut
into tokens, the tokens make an expression, and the expression has a value.
-/
namespace NetHooks.Shell.Arithmetic

inductive BinaryOp where
  | bitOr | bitXor | bitAnd | eq | ne | le | ge | lt | gt
  | shiftLeft | shiftRight | add | sub | mul | div | rem
  deriving DecidableEq, Repr

/-- How tightly the operator binds. -/
def BinaryOp.level : BinaryOp → Nat
  | .bitOr => 3
  | .bitXor => 4
  | .bitAnd => 5
  | .eq | .ne => 6
  | .le | .ge | .lt | .gt => 7
  | .shiftLeft | .shiftRight => 8
  | .add | .sub => 9
  | .mul | .div | .rem => 10

inductive Token where
  | number (n : Int64)
  | name (w : Octets)
  | operator (o : BinaryOp)
  /-- An assignment, of what the operator gives if there is one. -/
  | assign (o? : Option BinaryOp)
  | both
  | either
  | not
  | complement
  | openParen
  | closeParen
  | question
  | colon
  /-- A character that no expression has. -/
  | stray (c : Char)
  deriving DecidableEq

inductive Expression where
  | number (n : Int64)
  | name (w : Octets)
  | negative (e : Expression)
  | not (e : Expression)
  | complement (e : Expression)
  | binary (o : BinaryOp) (a b : Expression)
  /-- The second counts only if the first is not zero. -/
  | both (a b : Expression)
  /-- The second counts only if the first is zero. -/
  | either (a b : Expression)
  | choice (condition yes no : Expression)
  | assign (name : Octets) (o? : Option BinaryOp) (e : Expression)

inductive Fault where
  | expectingPrimary
  | expectingColon
  | expectingClose
  | expectingEnd
  | divisionByZero
  /-- The value of a variable is no number. -/
  | badNumber (value : Octets)
  deriving DecidableEq, Repr

/-- The fault as it is reported of a text. -/
def Fault.message (text : Octets) : Fault → Octets
  | .expectingPrimary => about "expecting primary"
  | .expectingColon => about "expecting ':'"
  | .expectingClose => about "expecting ')'"
  | .expectingEnd => about "expecting EOF"
  | .divisionByZero => about "division by zero"
  | .badNumber value => "Illegal number: ".toList ++ value
where
  about (reason : String) : Octets :=
    "arithmetic expression: ".toList ++ reason.toList ++ ": \"".toList ++ text ++ ['"']

/-! ### Numbers -/

def skipBlanks (s : Octets) : Octets :=
  s.dropWhile fun c => isBlank c || c == '\n'

/-- The value of a digit in the base. -/
def digit? (base : Nat) (c : Char) : Option Nat :=
  let n := if c.isDigit then c.toNat - '0'.toNat
    else if c.isLower then c.toNat - 'a'.toNat + 10
    else if c.isUpper then c.toNat - 'A'.toNat + 10
    else base
  if n < base then some n else none

def isDigitOf (base : Nat) (c : Char) : Bool :=
  (digit? base c).isSome

/-- The digits of the base that a text begins with, as a number, and what follows. -/
def takeDigits (base : Nat) (s : Octets) : Nat × Octets :=
  ((s.takeWhile (isDigitOf base)).foldl (fun n c => n * base + (digit? base c).getD 0) 0,
    s.dropWhile (isDigitOf base))

/-- The base that the letter after a zero asks for. -/
def baseOf? (x : Char) : Option Nat :=
  if x = 'x' || x = 'X' then some 16
  else if x = 'b' || x = 'B' then some 2
  else none

/-- The number that a text begins with, octal after a zero, hexadecimal after `0x` and binary
after `0b`, and what follows. -/
def takeNumber (s : Octets) : Option (Nat × Octets) :=
  match s with
  | '0' :: x :: c :: rest =>
      match baseOf? x with
      | some base =>
          if isDigitOf base c then some (takeDigits base (c :: rest)) else some (takeDigits 8 s)
      | none => some (takeDigits 8 s)
  | '0' :: rest => some (takeDigits 8 ('0' :: rest))
  | c :: rest => if c.isDigit then some (takeDigits 10 (c :: rest)) else none
  | [] => none

/-- The nearest number that there is. -/
def clamp (n : Int) : Int64 :=
  if n < Int64.minValue.toInt then Int64.minValue
  else if Int64.maxValue.toInt < n then Int64.maxValue
  else Int64.ofInt n

/-- The number with an optional sign that a text begins with, and what follows. -/
def takeInteger (s : Octets) : Option (Int × Octets) :=
  match s.dropWhile Octets.isSpace with
  | '-' :: rest => (takeNumber rest).map fun (n, rest) => (-(n : Int), rest)
  | '+' :: rest => (takeNumber rest).map fun (n, rest) => ((n : Int), rest)
  | s => (takeNumber s).map fun (n, rest) => ((n : Int), rest)

/-- A whole text as a number. White space around it does not count, and nothing else is zero. -/
def integer? (s : Octets) : Option Int64 :=
  if s.all Octets.isSpace then some 0
  else match takeInteger s with
    | some (n, rest) => if rest.all Octets.isSpace && (clamp n).toInt = n then some (clamp n) else none
    | none => none

/-! ### Reading -/

/-- The operator that a text begins with, the longest first. -/
def takeOperator : Octets → Option (Token × Octets)
  | '<' :: '<' :: '=' :: rest => some (.assign (some .shiftLeft), rest)
  | '>' :: '>' :: '=' :: rest => some (.assign (some .shiftRight), rest)
  | '|' :: '|' :: rest => some (.either, rest)
  | '&' :: '&' :: rest => some (.both, rest)
  | '=' :: '=' :: rest => some (.operator .eq, rest)
  | '!' :: '=' :: rest => some (.operator .ne, rest)
  | '<' :: '=' :: rest => some (.operator .le, rest)
  | '>' :: '=' :: rest => some (.operator .ge, rest)
  | '<' :: '<' :: rest => some (.operator .shiftLeft, rest)
  | '>' :: '>' :: rest => some (.operator .shiftRight, rest)
  | '<' :: rest => some (.operator .lt, rest)
  | '>' :: rest => some (.operator .gt, rest)
  | '=' :: rest => some (.assign none, rest)
  | '!' :: rest => some (.not, rest)
  | '~' :: rest => some (.complement, rest)
  | '(' :: rest => some (.openParen, rest)
  | ')' :: rest => some (.closeParen, rest)
  | '?' :: rest => some (.question, rest)
  | ':' :: rest => some (.colon, rest)
  | c :: rest => do
      let o ← [('|', BinaryOp.bitOr), ('^', .bitXor), ('&', .bitAnd), ('+', .add), ('-', .sub),
        ('*', .mul), ('/', .div), ('%', .rem)].lookup c
      match rest with
      | '=' :: rest => some (.assign (some o), rest)
      | _ => some (.operator o, rest)
  | [] => none

/-- The token that a text begins with, and what follows. -/
def takeToken (c : Char) (rest : Octets) : Token × Octets :=
  let s := c :: rest
  if isNameStart c then (.name (s.takeWhile isNameChar), s.dropWhile isNameChar)
  else match takeNumber s, takeOperator s with
    | some (n, rest), _ => (.number (clamp n), rest)
    | none, some t => t
    | none, none => (.stray c, rest)

/-- All tokens of a text. Each takes a character, so its length is fuel enough. -/
def tokens : Nat → Octets → List Token
  | 0, _ => []
  | fuel + 1, s =>
      match skipBlanks s with
      | [] => []
      | c :: rest =>
          let (t, beyond) := takeToken c rest
          t :: tokens fuel beyond

/-- Reads tokens and gives up at a fault. -/
abbrev Reader := StateT (List Token) (Except Fault)

/-- Pass over the token if it comes next. -/
def passes (t : Token) : Reader Bool := do
  if (← get).head? = some t then
    modify List.tail
    return true
  else return false

def expect (t : Token) (fault : Fault) : Reader Unit := do
  if !(← passes t) then throw fault

mutual

def primary (fuel : Nat) : Reader Expression := do
  match fuel, ← get with
  | fuel + 1, .openParen :: rest =>
      set rest
      let e ← assignment fuel
      expect .closeParen .expectingClose
      return e
  | _ + 1, .number n :: rest =>
      set rest
      return .number n
  | _ + 1, .name w :: rest =>
      set rest
      return .name w
  | fuel + 1, .operator .add :: rest =>
      set rest
      primary fuel
  | fuel + 1, .operator .sub :: rest =>
      set rest
      return .negative (← primary fuel)
  | fuel + 1, .not :: rest =>
      set rest
      return .not (← primary fuel)
  | fuel + 1, .complement :: rest =>
      set rest
      return .complement (← primary fuel)
  | _, _ => throw .expectingPrimary

/-- An expression whose operators all bind at least as tightly as the level. -/
def climb (fuel level : Nat) : Reader Expression := do
  match fuel with
  | 0 => throw .expectingPrimary
  | fuel + 1 => climbOn fuel level (← primary fuel)

/-- What follows a left operand. -/
def climbOn (fuel level : Nat) (left : Expression) : Reader Expression := do
  match fuel, ← get with
  | fuel + 1, .operator o :: rest =>
      if o.level < level then return left
      else
        set rest
        let right ← climb fuel (o.level + 1)
        climbOn fuel level (.binary o left right)
  | _, _ => return left

def conjunction (fuel : Nat) : Reader Expression := do
  match fuel with
  | 0 => throw .expectingPrimary
  | fuel + 1 =>
      let a ← climb fuel 0
      if ← passes .both then return .both a (← conjunction fuel) else return a

def disjunction (fuel : Nat) : Reader Expression := do
  match fuel with
  | 0 => throw .expectingPrimary
  | fuel + 1 =>
      let a ← conjunction fuel
      if ← passes .either then return .either a (← disjunction fuel) else return a

def conditional (fuel : Nat) : Reader Expression := do
  match fuel with
  | 0 => throw .expectingPrimary
  | fuel + 1 =>
      let a ← disjunction fuel
      if ← passes .question then
        let b ← assignment fuel
        expect .colon .expectingColon
        return .choice a b (← conditional fuel)
      else return a

def assignment (fuel : Nat) : Reader Expression := do
  match fuel, ← get with
  | fuel + 1, .name w :: .assign o? :: rest =>
      set rest
      return .assign w o? (← assignment fuel)
  | fuel + 1, _ => conditional fuel
  | 0, _ => throw .expectingPrimary

end

/-- The expression that a text is. -/
def parse (s : Octets) : Except Fault Expression := do
  let ts := tokens s.length s
  let (e, rest) ← (assignment (8 * ts.length + 8)).run ts
  if rest.isEmpty then return e else throw .expectingEnd

/-! ### Values -/

def ofBool (b : Bool) : Int64 := if b then 1 else 0

def BinaryOp.apply (o : BinaryOp) (a b : Int64) : Except Fault Int64 :=
  match o with
  | .bitOr => .ok (a ||| b)
  | .bitXor => .ok (a ^^^ b)
  | .bitAnd => .ok (a &&& b)
  | .eq => .ok (ofBool (a == b))
  | .ne => .ok (ofBool (a != b))
  | .le => .ok (ofBool (decide (a ≤ b)))
  | .ge => .ok (ofBool (decide (b ≤ a)))
  | .lt => .ok (ofBool (decide (a < b)))
  | .gt => .ok (ofBool (decide (b < a)))
  | .shiftLeft => .ok (a <<< b)
  | .shiftRight => .ok (a >>> b)
  | .add => .ok (a + b)
  | .sub => .ok (a - b)
  | .mul => .ok (a * b)
  | .div => if b = 0 then .error .divisionByZero else .ok (a / b)
  | .rem => if b = 0 then .error .divisionByZero else .ok (a % b)

/-- The text of a number. -/
def render (n : Int64) : Octets :=
  (toString n).toList

/-- What an expression assigned, the last first. -/
abbrev Assigned := List (Octets × Octets)

/-- The value of a variable; one that is not set counts as zero. -/
def lookUp (vars : Octets → Option Octets) (name : Octets) :
    StateT Assigned (Except Fault) Int64 := do
  match ((← get).lookup name).or (vars name) with
  | none => return 0
  | some value =>
      match integer? value with
      | some n => return n
      | none => throw (.badNumber value)

/-- The value of an expression over the values of variables, with what it assigns. -/
def Expression.value (vars : Octets → Option Octets) :
    Expression → StateT Assigned (Except Fault) Int64
  | .number n => return n
  | .name w => lookUp vars w
  | .negative e => return -(← e.value vars)
  | .not e => return ofBool ((← e.value vars) == 0)
  | .complement e => return ~~~(← e.value vars)
  | .binary o a b => do
      let m ← a.value vars
      o.apply m (← b.value vars)
  | .both a b => do
      if (← a.value vars) = 0 then return 0 else return ofBool ((← b.value vars) != 0)
  | .either a b => do
      if (← a.value vars) = 0 then return ofBool ((← b.value vars) != 0) else return 1
  | .choice c a b => do
      if (← c.value vars) = 0 then b.value vars else a.value vars
  | .assign w o? e => do
      let n ← e.value vars
      let n ← match o? with
        | none => pure n
        | some o => o.apply (← lookUp vars w) n
      modify ((w, render n) :: ·)
      return n

/-- The value of a text, and what it assigns, the first first. -/
def evaluate (vars : Octets → Option Octets) (s : Octets) : Except Fault (Int64 × Assigned) := do
  let (n, assigned) ← ((← parse s).value vars).run []
  return (n, assigned.reverse)

end NetHooks.Shell.Arithmetic
