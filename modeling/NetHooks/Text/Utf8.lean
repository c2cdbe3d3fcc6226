/-!
# UTF-8

Octets are decoded one at a time. Each well-formed sequence gives its character and
each maximal ill-formed part gives one gap, so the strict reading fails at a gap and
the lossy reading shows one replacement character for it.
-/
namespace NetHooks

abbrev Bytes := List UInt8

namespace Text

/-- A sequence in progress: the octets still owed, the range of the next one, and the
number read so far. -/
structure Pending where
  owed : Nat
  low : Nat
  high : Nat
  number : Nat

/-- The sequence that a lead octet opens. -/
def Pending.ofLead? (b : Nat) : Option Pending :=
  if 0xC2 ≤ b ∧ b ≤ 0xDF then some ⟨1, 0x80, 0xBF, b - 0xC0⟩
  else if b = 0xE0 then some ⟨2, 0xA0, 0xBF, 0⟩
  else if b = 0xED then some ⟨2, 0x80, 0x9F, 0xD⟩
  else if 0xE1 ≤ b ∧ b ≤ 0xEF then some ⟨2, 0x80, 0xBF, b - 0xE0⟩
  else if b = 0xF0 then some ⟨3, 0x90, 0xBF, 0⟩
  else if 0xF1 ≤ b ∧ b ≤ 0xF3 then some ⟨3, 0x80, 0xBF, b - 0xF0⟩
  else if b = 0xF4 then some ⟨3, 0x80, 0x8F, 4⟩
  else none

/-- The characters and gaps of the octets, given the sequence already open. -/
def decodeFrom : Option Pending → Bytes → List (Option Char)
  | none, [] => []
  | some _, [] => [none]
  | none, b :: rest =>
      if b.toNat < 0x80 then some (Char.ofNat b.toNat) :: decodeFrom none rest
      else match Pending.ofLead? b.toNat with
        | some p => decodeFrom (some p) rest
        | none => none :: decodeFrom none rest
  | some p, b :: rest =>
      if p.low ≤ b.toNat ∧ b.toNat ≤ p.high then
        let number := p.number * 64 + (b.toNat - 0x80)
        if p.owed = 1 then some (Char.ofNat number) :: decodeFrom none rest
        else decodeFrom (some ⟨p.owed - 1, 0x80, 0xBF, number⟩) rest
      else if b.toNat < 0x80 then none :: some (Char.ofNat b.toNat) :: decodeFrom none rest
      else match Pending.ofLead? b.toNat with
        | some q => none :: decodeFrom (some q) rest
        | none => none :: none :: decodeFrom none rest

theorem length_decodeFrom_le (p : Option Pending) (bytes : Bytes) :
    (decodeFrom p bytes).length ≤ bytes.length + p.toList.length := by
  fun_induction decodeFrom p bytes <;> simp_all <;> omega

/-- The text of well-formed octets. -/
def decode? (bytes : Bytes) : Option (List Char) :=
  (decodeFrom none bytes).mapM id

/-- The text of any octets, with U+FFFD for each gap. -/
def decodeLossy (bytes : Bytes) : List Char :=
  (decodeFrom none bytes).map (·.getD '\uFFFD')

theorem length_of_decode? {bytes : Bytes} {s : List Char} (h : decode? bytes = some s) :
    s.length ≤ bytes.length := by
  have h₁ := length_decodeFrom_le none bytes
  have h₂ : ∀ (l : List (Option Char)) (s : List Char),
      l.mapM id = some s → s.length = l.length := by
    intro l
    induction l with
    | nil => intro s h; simp_all
    | cons x l ih =>
        intro s h
        simp only [List.mapM_cons, Option.bind_eq_bind, Option.pure_def,
          Option.bind_eq_some_iff] at h
        obtain ⟨c, _, t, ht, hs⟩ := h
        cases hs
        simp [ih t ht]
  simp only [Option.toList_none, List.length_nil, Nat.add_zero] at h₁
  rw [h₂ _ _ h]
  exact h₁

def encode (s : String) : Bytes :=
  s.toUTF8.toList

end Text

end NetHooks
