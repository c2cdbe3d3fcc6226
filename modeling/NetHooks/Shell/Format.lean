import NetHooks.Shell.Decimal

/-!
# Shell output formats

What `echo` and `printf` make of their operands: escapes, and directives that are used
again as long as operands are left.
-/
namespace NetHooks.Shell.Format

def isOctal (c : Char) : Bool :=
  decide ('0' ≤ c) && decide (c ≤ '7')

def octet (n : Nat) : Char := Char.ofNat (n % 256)

/-- The octet of at most so many octal digits, and what follows them. -/
def takeOctal (count : Nat) (s : Octets) : Char × Octets :=
  let digits := (s.take count).takeWhile isOctal
  (octet (digits.foldl (fun n c => n * 8 + (c.toNat - '0'.toNat)) 0), s.drop digits.length)

/-- What a letter after a backslash stands for. -/
def letter? : Char → Option Char
  | 'a' => some '\x07'
  | 'b' => some '\x08'
  | 'e' => some '\x1b'
  | 'f' => some '\x0c'
  | 'n' => some '\n'
  | 'r' => some '\r'
  | 't' => some '\t'
  | 'v' => some '\x0b'
  | '\\' => some '\\'
  | _ => none

/-- What follows a backslash in a format: the character it stands for and the rest. A
backslash before anything else stands for itself. -/
def takeEscape (s : Octets) : Char × Octets :=
  match s with
  | [] => ('\\', [])
  | c :: rest =>
      if isOctal c then takeOctal 3 s
      else match letter? c with
        | some d => (d, rest)
        | none => ('\\', s)

theorem length_takeEscape_le (s : Octets) : (takeEscape s).2.length ≤ s.length := by
  cases s with
  | nil => simp [takeEscape]
  | cons c rest =>
      simp only [takeEscape]
      split
      · simp [takeOctal]
      · split <;> simp

/-- A text with its escapes replaced, and whether `\c` ended all output. An octal number
begins with a zero here. -/
def unescape : Octets → Octets × Bool
  | [] => ([], false)
  | '\\' :: 'c' :: _ => ([], true)
  | '\\' :: '0' :: digits =>
      let more := unescape (takeOctal 3 digits).2
      ((takeOctal 3 digits).1 :: more.1, more.2)
  | '\\' :: rest =>
      have := length_takeEscape_le rest
      let more := unescape (takeEscape rest).2
      ((takeEscape rest).1 :: more.1, more.2)
  | c :: rest =>
      let more := unescape rest
      (c :: more.1, more.2)
  termination_by s => s.length
  decreasing_by all_goals simp [takeOctal] <;> omega

/-- The operands with a blank between them, up to an end of all output. -/
def echoOperands : List Octets → Octets × Bool
  | [] => ([], false)
  | [w] => unescape w
  | w :: ws =>
      match unescape w with
      | (text, true) => (text, true)
      | (text, false) =>
          let (more, ended) := echoOperands ws
          (text ++ ' ' :: more, ended)

/-- What `echo` prints. -/
def echo (ws : List Octets) : Octets :=
  let silent := ws.head? == some "-n".toList
  match echoOperands (if silent then ws.tail else ws) with
  | (text, true) => text
  | (text, false) => if silent then text else text ++ ['\n']

/-! ### Directives -/

/-- A width or a precision. -/
inductive Measure where
  | none
  | fixed (n : Nat)
  /-- As an operand says. -/
  | operand
  deriving DecidableEq, Repr

structure Directive where
  flags : List Char
  width : Measure
  precision : Measure
  letter : Char

def isFlag (c : Char) : Bool :=
  "#-+ 0".toList.contains c

/-- The measure that a text begins with, and what follows. -/
def takeMeasure (s : Octets) : Measure × Octets :=
  match s with
  | '*' :: rest => (.operand, rest)
  | _ =>
      match Octets.number? (s.takeWhile Char.isDigit) with
      | some n => (.fixed n, s.dropWhile Char.isDigit)
      | none => (.none, s.dropWhile Char.isDigit)

/-- The precision behind a point, and what follows. -/
def takePrecision (s : Octets) : Measure × Octets :=
  match s with
  | '.' :: rest =>
      let (m, beyond) := takeMeasure rest
      (if m = .none then .fixed 0 else m, beyond)
  | _ => (.none, s)

/-- A directive after its percent sign. -/
def takeDirective (s : Octets) : Option (Directive × Octets) :=
  let width := takeMeasure (s.dropWhile isFlag)
  let precision := takePrecision width.2
  match precision.2 with
  | c :: rest => some (⟨s.takeWhile isFlag, width.1, precision.1, c⟩, rest)
  | [] => none

theorem length_dropWhile_le (p : Char → Bool) (l : Octets) :
    (l.dropWhile p).length ≤ l.length := by
  have := congrArg List.length (List.takeWhile_append_dropWhile (p := p) (l := l))
  simp only [List.length_append] at this
  omega

theorem length_takeMeasure_le (s : Octets) : (takeMeasure s).2.length ≤ s.length := by
  unfold takeMeasure
  split
  · simp
  · split <;> exact length_dropWhile_le ..

theorem length_takePrecision_le (s : Octets) : (takePrecision s).2.length ≤ s.length := by
  unfold takePrecision
  split
  · next rest =>
      have := length_takeMeasure_le rest
      simp only [List.length_cons]
      omega
  · exact Nat.le_refl _

theorem length_takeDirective_lt {s rest : Octets} {d : Directive}
    (h : takeDirective s = some (d, rest)) : rest.length < s.length := by
  have h₁ := length_dropWhile_le isFlag s
  have h₂ := length_takeMeasure_le (s.dropWhile isFlag)
  have h₃ := length_takePrecision_le (takeMeasure (s.dropWhile isFlag)).2
  simp only [takeDirective] at h
  split at h
  · next c r hr =>
      cases h
      rw [hr] at h₃
      simp only [List.length_cons] at h₃
      omega
  · cases h

/-! ### Operands -/

/-- What is wrong with an operand that is to be a number: a part of it is none, or it is out
of range. -/
def complaint? (w rest : Octets) (nothingRead isOut : Bool) : Option Octets :=
  let about (reason : String) : Option Octets := some (w ++ ": ".toList ++ reason.toList)
  if !rest.isEmpty then
    about (if nothingRead then "expected numeric value" else "not completely converted")
  else if isOut then about "Numerical result out of range"
  else none

/-- The number of the character behind a quote, which stands for that number. -/
def quotedNumber? (w : Octets) : Option Nat :=
  match w with
  | q :: rest => if q = '"' || q = '\'' then some ((rest.head?.map Char.toNat).getD 0) else none
  | [] => none

def leastInteger : Int := -9223372036854775808
def greatestInteger : Int := 9223372036854775807
def greatestNatural : Int := 18446744073709551615

/-- An operand as an integer, as far as it is one, the nearest one in range, with what is
wrong with it. -/
def integer (isSigned : Bool) (w : Octets) : Int × Option Octets :=
  match quotedNumber? w with
  | some n => (n, none)
  | none =>
      let s := w.dropWhile Octets.isSpace
      let (negative, digits) := match s with
        | '-' :: rest => (true, rest)
        | '+' :: rest => (false, rest)
        | _ => (false, s)
      match Arithmetic.takeNumber digits with
      | none => (0, complaint? w w true false)
      | some (n, rest) =>
          let n : Int := n
          if isSigned then
            let n := if negative then -n else n
            let kept := max leastInteger (min n greatestInteger)
            (kept, complaint? w rest false (n != kept))
          else if greatestNatural < n then (greatestNatural, complaint? w rest false true)
          else (if negative && n != 0 then greatestNatural + 1 - n else n,
            complaint? w rest false false)

/-- An operand as a floating-point number, with what is wrong with it. -/
def floating (w : Octets) : Floating × Option Octets :=
  match quotedNumber? w with
  | some n => ((Floating.ofQuotient false n 1).1, none)
  | none =>
      match Floating.take? w with
      | none => (.finite false 0 0, complaint? w w true false)
      | some (f, rest, isOut) => (f, complaint? w rest false isOut)

/-! ### Fields -/

/-- The measures of a directive as they hold: where the text begins and how long it is. -/
structure Layout where
  flags : List Char
  width : Nat
  precision? : Option Nat

namespace Layout

def has (l : Layout) (flag : Char) : Bool :=
  l.flags.contains flag

/-- The text in a field of the width. -/
def pad (l : Layout) (zeros : Bool) (sign text : Octets) : Octets :=
  let n := l.width - (sign.length + text.length)
  if l.has '-' then sign ++ text ++ List.replicate n ' '
  else if zeros then sign ++ List.replicate n '0' ++ text
  else List.replicate n ' ' ++ sign ++ text

/-- The sign of a number. -/
def sign (l : Layout) (isNegative : Bool) : Octets :=
  if isNegative then ['-'] else if l.has '+' then ['+'] else if l.has ' ' then [' '] else []

/-- The digits, as many as the precision asks for. A zero has none where it asks for none. -/
def digits (l : Layout) (base n : Nat) : Octets :=
  let ds := if n = 0 then [] else Nat.toDigits base n
  List.replicate ((l.precision?.getD 1) - ds.length) '0' ++ ds

def padInteger (l : Layout) (sign digits : Octets) : Octets :=
  l.pad (l.has '0' && l.precision?.isNone) sign digits

def decimal (l : Layout) (n : Int) : Octets :=
  l.padInteger (l.sign (decide (n < 0))) (l.digits 10 n.natAbs)

def octal (l : Layout) (n : Nat) : Octets :=
  let ds := l.digits 8 n
  l.padInteger [] (if l.has '#' && ds.head? != some '0' then '0' :: ds else ds)

def hexadecimal (l : Layout) (n : Nat) : Octets :=
  l.padInteger (if l.has '#' && n != 0 then "0x".toList else []) (l.digits 16 n)

def cut (l : Layout) (s : Octets) : Octets :=
  match l.precision? with
  | some n => s.take n
  | none => s

def floating (l : Layout) (letter : Char) (f : Floating) : Octets :=
  match f with
  | .infinite negative => l.pad false (l.sign negative) "inf".toList
  | .notANumber negative => l.pad false (l.sign negative) "nan".toList
  | .finite negative m e =>
      let precision := l.precision?.getD 6
      let text := match letter with
        | 'f' => Floating.fixed precision (l.has '#') m e
        | 'e' => Floating.scientific precision (l.has '#') m e
        | 'g' => Floating.general precision (l.has '#') m e
        | _ => Floating.hexadecimal l.precision? (l.has '#') m e
      let (head, text) := if letter = 'a' then (text.take 2, text.drop 2) else ([], text)
      l.pad (l.has '0') (l.sign negative ++ head) text

end Layout

/-- What one operand becomes, whether all output ends, and what is wrong with the operand. -/
structure Piece where
  text : Octets
  ended : Bool := false
  complaint? : Option Octets := none

/-- The text in capitals where the letter of its directive is one. -/
def inCaseOf (letter : Char) (text : Octets) : Octets :=
  if letter.isUpper then text.map Char.toUpper else text

/-- Apply a directive to an operand, if there is one; nothing comes of a directive that does
not exist. -/
def convert? (letter : Char) (l : Layout) (w? : Option Octets) : Option Piece :=
  let w := w?.getD []
  let unsigned (f : Nat → Octets) : Option Piece :=
    let (n, complaint?) := integer false w
    some { text := inCaseOf letter (f n.toNat), complaint? }
  match letter with
  | 's' => some { text := l.pad false [] (l.cut w) }
  | 'c' => some { text := l.pad false [] [w.headD '\x00'] }
  | 'b' =>
      let (text, ended) := unescape w
      some { text := l.pad false [] (l.cut text), ended }
  | 'd' | 'i' =>
      let (n, complaint?) := integer true w
      some { text := l.decimal n, complaint? }
  | 'u' => unsigned fun n => l.decimal n
  | 'o' => unsigned l.octal
  | 'x' | 'X' => unsigned l.hexadecimal
  | 'e' | 'E' | 'f' | 'F' | 'g' | 'G' | 'a' | 'A' =>
      let (f, complaint?) := floating w
      some { text := inCaseOf letter (l.floating letter.toLower f), complaint? }
  | _ => none

/-- A measure as it holds, taken from the operands if they are to say it, with the operands
that are left. -/
def Measure.value (operands : List Octets) : Measure → Option Int × List Octets × List Octets
  | .none => (Option.none, operands, [])
  | .fixed n => (some (n : Int), operands, [])
  | .operand =>
      let (n, complaint?) := integer true (operands.headD [])
      (some n, operands.tail, complaint?.toList)

/-- What is printed so far, and what is left. -/
structure Pass where
  text : Octets
  operands : List Octets
  ended : Bool := false
  complaints : List Octets := []
  /-- What is wrong with the format. -/
  fault? : Option Octets := none

/-- Apply a directive to the operands. A negative width sets the text to the left, and a
negative precision is none. -/
def apply (d : Directive) (spelling : Octets) (operands : List Octets) : Pass :=
  let (width?, operands, before) := d.width.value operands
  let (precision?, operands, behind) := d.precision.value operands
  let width := width?.getD 0
  let l : Layout := {
    flags := if width < 0 then '-' :: d.flags else d.flags
    width := width.natAbs
    precision? := precision?.bind fun n => if n < 0 then none else some n.toNat }
  match convert? d.letter l operands.head? with
  | none =>
      { text := [], operands, complaints := before ++ behind,
        fault? := some ('%' :: spelling ++ ": invalid directive".toList) }
  | some piece =>
      { text := piece.text, operands := operands.tail, ended := piece.ended,
        complaints := before ++ behind ++ piece.complaint?.toList }

/-- Go through a format once. -/
def pass (operands : List Octets) : Octets → Pass
  | [] => { text := [], operands }
  | '\\' :: rest =>
      have := length_takeEscape_le rest
      let p := pass operands (takeEscape rest).2
      { p with text := (takeEscape rest).1 :: p.text }
  | '%' :: '%' :: rest =>
      let p := pass operands rest
      { p with text := '%' :: p.text }
  | '%' :: rest =>
      match h : takeDirective rest with
      | none => { text := [], operands, fault? := some "missing format character".toList }
      | some (d, beyond) =>
          have := length_takeDirective_lt h
          let p := apply d (rest.take (rest.length - beyond.length)) operands
          if p.ended || p.fault?.isSome then p
          else
            let q := pass p.operands beyond
            { q with text := p.text ++ q.text, complaints := p.complaints ++ q.complaints }
  | c :: rest =>
      let p := pass operands rest
      { p with text := c :: p.text }
  termination_by s => s.length

/-- Use the format until no operand is left, or it takes none. -/
def passes (format : Octets) : Nat → List Octets → Pass
  | 0, operands => pass operands format
  | n + 1, operands =>
      let p := pass operands format
      if p.ended || p.fault?.isSome || p.operands.isEmpty || p.operands.length == operands.length
      then p
      else
        let q := passes format n p.operands
        { q with text := p.text ++ q.text, complaints := p.complaints ++ q.complaints }

def printf (format : Octets) (operands : List Octets) : Pass :=
  passes format operands.length operands

end NetHooks.Shell.Format
