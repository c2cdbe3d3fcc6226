import NetHooks.Shell.Arithmetic

/-!
# Floating-point numbers as text

A number is read as a quotient of naturals, rounded to 53 binary digits, and written from
its exact value. Rounding goes to the nearest number, from the middle to the even one.
-/
namespace NetHooks.Shell

/-- A floating-point number: a multiple of a power of two with at most 53 binary digits. -/
inductive Floating where
  | finite (isNegative : Bool) (significand : Nat) (exponent : Int)
  | infinite (isNegative : Bool)
  | notANumber (isNegative : Bool)
  deriving DecidableEq, Repr

/-- The quotient rounded to the nearest natural number, from the middle to the even one. -/
def roundQuotient (a b : Nat) : Nat :=
  let q := a / b
  let twice := 2 * (a % b)
  if twice < b then q else if b < twice then q + 1 else q + q % 2

example : roundQuotient 5 2 = 2 ∧ roundQuotient 7 2 = 4 ∧ roundQuotient 8 3 = 3 := by decide

namespace Floating

/-- The binary digits of a significand, and the least and the greatest exponent. -/
def digits : Nat := 53
def leastExponent : Int := -1074
def greatestExponent : Int := 971

/-- A number times a power of two, as a quotient. -/
def scale (a b : Nat) (e : Int) : Nat × Nat :=
  if e < 0 then (a, b * Nat.pow 2 (-e).toNat) else (a * Nat.pow 2 e.toNat, b)

/-- The number nearest to a quotient, and whether the quotient is out of range. -/
def ofQuotient (isNegative : Bool) (a b : Nat) : Floating × Bool :=
  if a = 0 then (.finite isNegative 0 leastExponent, false)
  else
    let guess : Int := (a.log2 : Int) - (b.log2 : Int) - digits
    let atLeast (e : Int) : Bool :=
      let (n, d) := scale a b (-e)
      decide (Nat.pow 2 (digits - 1) * d ≤ n)
    let e := if atLeast (guess + 1) then guess + 1 else guess
    let e := max e leastExponent
    let (n, d) := scale a b (-e)
    let m := roundQuotient n d
    let (m, e) := if m = Nat.pow 2 digits then (m / 2, e + 1) else (m, e)
    if greatestExponent < e then (.infinite isNegative, true)
    else (.finite isNegative m e, decide (m < Nat.pow 2 (digits - 1)) && n % d != 0)

/-! ### Reading -/

/-- The digits of a base with a point among them: their number, how many stand behind the
point, and what follows. Some digit has to be there. -/
def takeFraction (base : Nat) (s : Octets) : Option (Nat × Nat × Octets) :=
  let isDigit := Arithmetic.isDigitOf base
  let (whole, rest) := (s.takeWhile isDigit, s.dropWhile isDigit)
  let (fraction, rest) := match rest with
    | '.' :: more => (more.takeWhile isDigit, more.dropWhile isDigit)
    | _ => ([], rest)
  if whole.isEmpty && fraction.isEmpty then none
  else
    let rest := if fraction.isEmpty && whole.isEmpty then s else rest
    some ((Arithmetic.takeDigits base (whole ++ fraction)).1, fraction.length, rest)

/-- The exponent behind one of two letters, and what follows. -/
def takeExponent (small large : Char) (s : Octets) : Int × Octets :=
  match s with
  | c :: rest =>
      if c = small || c = large then
        let (negative, ds) := match rest with
          | '-' :: more => (true, more)
          | '+' :: more => (false, more)
          | _ => (false, rest)
        match Octets.number? (ds.takeWhile Char.isDigit) with
        | some n => (if negative then -n else n, ds.dropWhile Char.isDigit)
        | none => (0, s)
      else (0, s)
  | [] => (0, [])

/-- The text behind a word in any case, if it begins with it. -/
def afterWord? (word : String) (s : Octets) : Option Octets :=
  if (s.take word.length).map Char.toLower = word.toList then some (s.drop word.length) else none

/-- Beyond this power of ten no digits of a usual text bring a number back into range. -/
def farExponent : Int := 100000

/-- The quotient for digits with an exponent of ten. -/
def decimalQuotient (n places : Nat) (e : Int) : Nat × Nat :=
  let e := max (-farExponent) (min e farExponent) - places
  if e < 0 then (n, Nat.pow 10 (-e).toNat) else (n * Nat.pow 10 e.toNat, 1)

/-- The number that a text begins with, what follows, and whether it is out of range. -/
def take? (s : Octets) : Option (Floating × Octets × Bool) :=
  let s := s.dropWhile Octets.isSpace
  let (negative, t) := match s with
    | '-' :: rest => (true, rest)
    | '+' :: rest => (false, rest)
    | _ => (false, s)
  let hexadecimal := match t with
    | '0' :: x :: rest => if x = 'x' || x = 'X' then takeFraction 16 rest else none
    | _ => none
  match afterWord? "infinity" t, afterWord? "inf" t, afterWord? "nan" t with
  | some rest, _, _ | none, some rest, _ => some (.infinite negative, rest, false)
  | none, none, some rest => some (.notANumber negative, rest, false)
  | none, none, none =>
      match hexadecimal, takeFraction 10 t with
      | some (n, places, rest), _ =>
          let (e, rest) := takeExponent 'p' 'P' rest
          let e := max (-farExponent) (min e farExponent) - 4 * places
          let (a, b) := scale n 1 e
          let (f, isOut) := ofQuotient negative a b
          some (f, rest, isOut)
      | none, some (n, places, rest) =>
          let (e, rest) := takeExponent 'e' 'E' rest
          let (a, b) := decimalQuotient n places e
          let (f, isOut) := ofQuotient negative a b
          some (f, rest, isOut)
      | none, none => none

/-! ### Writing -/

/-- The digits with a point before the last so many, if there are any or it is asked for. -/
def withPoint (places : Nat) (keepsPoint : Bool) (n : Nat) : Octets :=
  let ds := Octets.ofNat n
  let ds := List.replicate (places + 1 - ds.length) '0' ++ ds
  let whole := ds.take (ds.length - places)
  if places = 0 && !keepsPoint then whole else whole ++ '.' :: ds.drop (ds.length - places)

/-- With so many places behind the point. -/
def fixed (places : Nat) (keepsPoint : Bool) (m : Nat) (e : Int) : Octets :=
  let (a, b) := scale m 1 e
  withPoint places keepsPoint (roundQuotient (a * Nat.pow 10 places) b)

/-- The power of ten that a positive quotient reaches. -/
def magnitude (a b : Nat) : Int :=
  if b ≤ a then ((Octets.ofNat (a / b)).length : Int) - 1
  else
    let n := (Octets.ofNat (b / a)).length
    if b ≤ a * Nat.pow 10 (n - 1) then -((n : Int) - 1) else -(n : Int)

/-- One digit and so many more, and the power of ten that they stand for. -/
def scientificDigits (places : Nat) (m : Nat) (e : Int) : Nat × Int :=
  if m = 0 then (0, 0)
  else
    let (a, b) := scale m 1 e
    let k := magnitude a b
    let shift := (places : Int) - k
    let n := if shift < 0 then roundQuotient a (b * Nat.pow 10 (-shift).toNat)
      else roundQuotient (a * Nat.pow 10 shift.toNat) b
    if n = Nat.pow 10 (places + 1) then (n / 10, k + 1) else (n, k)

/-- An exponent with its sign, of two digits at least. -/
def exponentText (leastDigits : Nat) (k : Int) : Octets :=
  let ds := Octets.ofNat k.natAbs
  (if k < 0 then '-' else '+') :: List.replicate (leastDigits - ds.length) '0' ++ ds

/-- With one digit before the point. -/
def scientific (places : Nat) (keepsPoint : Bool) (m : Nat) (e : Int) : Octets :=
  let (n, k) := scientificDigits places m e
  withPoint places keepsPoint n ++ 'e' :: exponentText 2 k

/-- The text without zeros at the end of what stands behind the point. -/
def trimZeros (s : Octets) : Octets :=
  if s.contains '.' then
    let kept := (s.reverse.dropWhile (· == '0')).reverse
    if kept.getLast? = some '.' then kept.dropLast else kept
  else s

/-- With so many digits that count, in the shorter of both ways. -/
def general (precision : Nat) (keepsPoint : Bool) (m : Nat) (e : Int) : Octets :=
  let precision := max precision 1
  let k := (scientificDigits (precision - 1) m e).2
  if -4 ≤ k && k < precision then
    let text := fixed ((precision : Int) - 1 - k).toNat keepsPoint m e
    if keepsPoint then text else trimZeros text
  else
    let text := scientific (precision - 1) keepsPoint m e
    if keepsPoint then text
    else trimZeros (text.takeWhile (· != 'e')) ++ text.dropWhile (· != 'e')

/-- In base sixteen, with the power of two that the digits stand for. -/
def hexadecimal (places? : Option Nat) (keepsPoint : Bool) (m : Nat) (e : Int) : Octets :=
  let short := digits - 1 - m.log2
  let (m, e) := if m = 0 then (0, -52)
    else if leastExponent ≤ e - short then (m <<< short, e - short)
    else (m <<< (e - leastExponent).toNat, leastExponent)
  let written := match places? with
    | none =>
        let text := Nat.toDigits 16 (m % Nat.pow 2 52)
        let text := List.replicate (13 - text.length) '0' ++ text
        (m / Nat.pow 2 52, (text.reverse.dropWhile (· == '0')).reverse)
    | some places =>
        let n := if places < 13 then roundQuotient m (Nat.pow 16 (13 - places))
          else m * Nat.pow 16 (places - 13)
        let text := Nat.toDigits 16 (n % Nat.pow 16 places)
        (n / Nat.pow 16 places, if places = 0 then [] else
          List.replicate (places - text.length) '0' ++ text)
  let point := if written.2.isEmpty && !keepsPoint then [] else ['.']
  "0x".toList ++ Octets.ofNat written.1 ++ point ++ written.2 ++ 'p' :: exponentText 1 (e + 52)

end Floating

example : Floating.fixed 1 false 9 (-2) = "2.2".toList := by decide +kernel

example : (Floating.ofQuotient false 1 10).1 = .finite false 7205759403792794 (-56) := by
  decide +kernel

end NetHooks.Shell
