import NetHooks.Hook.OptionKey
import NetHooks.Shell.Octets

/-!
# Written text and its marks

Text is put into upper case and into UTF-8 character by character, and an equals sign comes from
an equals sign alone (`Text.Keeps`). So it makes no difference whether text is cut at its first
equals sign before it is written or afterwards.
-/
namespace NetHooks

namespace Text

/-- Writing keeps the mark, and makes it of no other character. -/
structure Keeps (mark : Char) (write : Char → List Char) : Prop where
  mark_eq : write mark = [mark]
  eq_mark : ∀ c, mark ∈ write c → c = mark

variable {mark : Char} {write : Char → List Char}

theorem Keeps.mem_flatMap_iff (h : Keeps mark write) {s : List Char} :
    mark ∈ s.flatMap write ↔ mark ∈ s := by
  rw [List.mem_flatMap]
  constructor
  · rintro ⟨c, hc, hmark⟩
    exact h.eq_mark c hmark ▸ hc
  · intro hmark
    exact ⟨mark, hmark, by simp [h.mark_eq]⟩

theorem Keeps.forall_ne (h : Keeps mark write) {c : Char} (hc : c ≠ mark) :
    ∀ d ∈ write c, (d != mark) = true := by
  intro d hd
  have hne : d ≠ mark := by
    intro heq
    exact hc (h.eq_mark c (heq ▸ hd))
  simpa using hne

theorem Keeps.takeWhile_flatMap (h : Keeps mark write) (s : List Char) :
    (s.flatMap write).takeWhile (· != mark) = (s.takeWhile (· != mark)).flatMap write := by
  induction s with
  | nil => rfl
  | cons c s ih =>
      by_cases hc : c = mark
      · simp [hc, h.mark_eq]
      · rw [List.flatMap_cons, List.takeWhile_append_of_pos (h.forall_ne hc), ih,
          List.takeWhile_cons_of_pos (by simpa using hc), List.flatMap_cons]

theorem Keeps.dropWhile_flatMap (h : Keeps mark write) (s : List Char) :
    (s.flatMap write).dropWhile (· != mark) = (s.dropWhile (· != mark)).flatMap write := by
  induction s with
  | nil => rfl
  | cons c s ih =>
      by_cases hc : c = mark
      · simp [hc, h.mark_eq]
      · rw [List.flatMap_cons, List.dropWhile_append_of_pos (h.forall_ne hc), ih,
          List.dropWhile_cons_of_pos (by simpa using hc)]

/-! ### Upper case -/

theorem eq_of_ofNat_eq {n : Nat} (h : Char.ofNat n = '=') : n = 61 := by
  by_cases hvalid : n.isValidChar
  · rw [Char.ofNat, dif_pos hvalid] at h
    exact congrArg Char.toNat h
  · rw [Char.ofNat, dif_neg hvalid] at h
    cases h

theorem keeps_upperChar : Keeps '=' upperChar where
  mark_eq := by decide +kernel
  eq_mark c h := by
    have hexpansions : ∀ e ∈ caseExpansions, 61 ∉ e.2 := by decide +kernel
    -- The only number that a run could take to the equals sign lies outside the run.
    have hruns : ∀ r ∈ caseRuns, r.covers (61 - r.distance).toNat = false := by decide +kernel
    rw [upperChar] at h
    split at h
    next ns hns =>
      obtain ⟨before, after, hsplit, -⟩ := List.lookup_eq_some_iff.1 hns
      obtain ⟨n, hn, heq⟩ := List.mem_map.1 h
      have hmem : (c.toNat, ns) ∈ caseExpansions := by simp [hsplit]
      exact absurd (eq_of_ofNat_eq heq ▸ hn) (hexpansions _ hmem)
    next =>
      split at h
      next r hr =>
        have hnumber : (c.toNat + r.distance).toNat = 61 :=
          eq_of_ofNat_eq (List.mem_singleton.1 h).symm
        have hc : (61 - r.distance).toNat = c.toNat := by omega
        have hcovers := List.find?_some hr
        rw [← hc, hruns r (List.mem_of_find?_eq_some hr)] at hcovers
        cases hcovers
      next => exact (List.mem_singleton.1 h).symm

end Text

/-- A character of an option's name as it is written in the key. -/
def optionKeyChar (c : Char) : List Char :=
  Text.upperChar (if c = '-' then '_' else c)

theorem optionKeyChars_eq (option : List Char) :
    optionKeyChars option = option.flatMap optionKeyChar := by
  rw [optionKeyChars, Text.upper, List.flatMap_map]
  rfl

theorem keeps_optionKeyChar : Text.Keeps '=' optionKeyChar where
  mark_eq := Text.keeps_upperChar.mark_eq
  eq_mark c h := by
    have heq := Text.keeps_upperChar.eq_mark _ h
    split at heq
    · cases heq
    · exact heq

/-! ### UTF-8 -/

namespace Text

theorem loop_eq (bytes : ByteArray) (i : Nat) (read : List UInt8) :
    ByteArray.toList.loop bytes i read = read.reverse ++ bytes.data.toList.drop i := by
  fun_induction ByteArray.toList.loop bytes i read with
  | case1 i read h ih =>
      have hlength : i < bytes.data.toList.length := h
      have hget : bytes.get! i = bytes.data.toList[i] := by
        cases bytes
        exact getElem!_pos _ i h
      rw [ih, List.reverse_cons, List.append_assoc, List.drop_eq_getElem_cons hlength, hget]
      rfl
  | case2 i read h =>
      have hlength : bytes.data.toList.length ≤ i := Nat.le_of_not_lt h
      rw [List.drop_eq_nil_of_le hlength, List.append_nil]

theorem encode_eq_data (s : String) : encode s = s.toByteArray.data.toList :=
  loop_eq s.toByteArray 0 []

theorem encode_eq (s : String) : encode s = s.toList.flatMap String.utf8EncodeChar := by
  rw [encode_eq_data, ← String.utf8Encode_toList, List.utf8Encode, List.toList_data_toByteArray]

theorem encode_injective {s t : String} (h : encode s = encode t) : s = t := by
  rw [encode_eq_data, encode_eq_data, Array.toList_inj] at h
  exact String.toByteArray_inj.1 (ByteArray.ext h)

end Text

namespace Octets

/-- The octets of one character. -/
def ofChar (c : Char) : Octets :=
  ofBytes (String.utf8EncodeChar c)

theorem ofString_eq (s : String) : ofString s = s.toList.flatMap ofChar := by
  rw [ofString, Text.encode_eq, ofBytes, List.map_flatMap]
  rfl

theorem ofString_injective {s t : String} (h : ofString s = ofString t) : s = t := by
  have hbytes := congrArg toBytes h
  rw [ofString, ofString, toBytes_ofBytes, toBytes_ofBytes] at hbytes
  exact Text.encode_injective hbytes

/-- An octet of a character is the character itself, or it has the highest bit. -/
theorem eq_or_high {c : Char} {b : UInt8} (h : b ∈ String.utf8EncodeChar c) :
    b.toNat = c.val.toNat ∨ 128 ≤ b.toNat := by
  rw [String.utf8EncodeChar] at h
  split at h
  · obtain rfl := List.mem_singleton.1 h
    rw [UInt8.toNat_ofNat']
    omega
  refine .inr ?_
  split at h
  · simp only [List.mem_cons, List.not_mem_nil, or_false] at h
    rcases h with rfl | rfl <;> rw [UInt8.toNat_ofNat'] <;> omega
  split at h
  · simp only [List.mem_cons, List.not_mem_nil, or_false] at h
    rcases h with rfl | rfl | rfl <;> rw [UInt8.toNat_ofNat'] <;> omega
  · simp only [List.mem_cons, List.not_mem_nil, or_false] at h
    rcases h with rfl | rfl | rfl | rfl <;> rw [UInt8.toNat_ofNat'] <;> omega

theorem keeps_ofChar : Text.Keeps '=' ofChar where
  mark_eq := by decide
  eq_mark c h := by
    obtain ⟨b, hb, heq⟩ := List.mem_map.1 h
    have hnumber : b.toNat = 61 := Text.eq_of_ofNat_eq heq
    have hc : c.toNat = 61 := by
      rcases eq_or_high hb with hself | hhigh
      · exact hself.symm.trans hnumber
      · omega
    exact Char.toNat_inj.1 hc

end Octets

end NetHooks
