import NetHooks.Text.Utf8

/-!
# Octets

The shell reads scripts and values octet by octet. Its text is a list of characters
that each stand for one octet, so nothing is lost of a script that is no UTF-8.
-/
namespace NetHooks

/-- Text in which each character stands for the octet of its number. -/
abbrev Octets := List Char

namespace Octets

def ofBytes (bytes : Bytes) : Octets :=
  bytes.map fun b => Char.ofNat b.toNat

def toBytes (s : Octets) : Bytes :=
  s.map fun c => c.toNat.toUInt8

/-- The octets of a text in UTF-8. -/
def ofString (s : String) : Octets :=
  ofBytes (Text.encode s)

/-- The text that the octets encode. -/
def decode (s : Octets) : String :=
  String.ofList (Text.decodeLossy (toBytes s))

theorem toNat_ofNat : ∀ n : Fin 256, (Char.ofNat n).toNat = n := by
  decide +kernel

@[simp] theorem toBytes_ofBytes (bytes : Bytes) : toBytes (ofBytes bytes) = bytes := by
  have h (b : UInt8) : (Char.ofNat b.toNat).toNat.toUInt8 = b := by
    rw [toNat_ofNat ⟨b.toNat, b.toNat_lt⟩]
    exact UInt8.ofNat_toNat
  simp only [toBytes, ofBytes, List.map_map]
  conv => rhs; rw [← List.map_id bytes]
  exact List.map_congr_left fun b _ => h b

/-- The decimal digits as a number. -/
def number? (s : Octets) : Option Nat :=
  if s.isEmpty || !s.all Char.isDigit then none
  else some (s.foldl (fun n c => n * 10 + (c.toNat - '0'.toNat)) 0)

/-- The white space around a number. -/
def isSpace (c : Char) : Bool :=
  c == ' ' || (decide ('\t' ≤ c) && decide (c ≤ '\r'))

/-- The decimal integer of 64 bits that a text is, with white space around it. -/
def integer? (s : Octets) : Option Int := do
  let s := s.dropWhile isSpace
  let (negative, s) := match s with
    | '-' :: rest => (true, rest)
    | '+' :: rest => (false, rest)
    | _ => (false, s)
  let n ← number? (s.takeWhile Char.isDigit)
  if !(s.dropWhile Char.isDigit).all isSpace then failure
  let n : Int := if negative then -n else n
  if n < -9223372036854775808 || 9223372036854775807 < n then failure
  return n

/-- The number that a text is, if it is one that counts things. -/
def count? (s : Octets) : Option Nat :=
  match integer? s with
  | some n => if n < 0 || 2147483647 < n then none else some n.toNat
  | none => none

/-- The decimal digits of a number. -/
def ofNat (n : Nat) : Octets :=
  Nat.toDigits 10 n

example : integer? " -7 ".toList = some (-7) := by decide +kernel

end Octets

end NetHooks
