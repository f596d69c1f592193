import Mathlib.Algebra.Group.Nat.Defs
import Mathlib.Data.List.Basic

/-!
The byte sequences that encode a character in UTF-8, as ranges of their bytes,
and the high bits of a byte as a mask leaves them.
-/

namespace MediaStream.Lib.Utf8

section Bits

theorem and_high {n k : Nat} (hn : n < 2 ^ 8) (hk : k ≤ 8) :
    n &&& (2 ^ 8 - 2 ^ k) = n / 2 ^ k * 2 ^ k := by
  have hmask : 2 ^ 8 - 2 ^ k = (2 ^ (8 - k) - 1) <<< k := by
    rw [Nat.shiftLeft_eq, Nat.sub_mul, ← Nat.pow_add, Nat.sub_add_cancel hk, Nat.one_mul]
  rw [hmask, ← Nat.shiftRight_eq_div_pow, ← Nat.shiftLeft_eq]
  apply Nat.eq_of_testBit_eq
  intro i
  rw [Nat.testBit_and, Nat.testBit_shiftLeft, Nat.testBit_shiftLeft, Nat.testBit_shiftRight,
    Nat.testBit_two_pow_sub_one]
  by_cases hik : k ≤ i
  · rw [Nat.add_sub_cancel' hik]
    by_cases hi : i < 8
    · simp [hik, Nat.sub_lt_sub_right hik hi]
    · have hpow : 2 ^ 8 ≤ 2 ^ i := Nat.pow_le_pow_right (by decide) (Nat.le_of_not_lt hi)
      have hzero : n.testBit i = false := Nat.testBit_lt_two_pow (Nat.lt_of_lt_of_le hn hpow)
      simp [hzero]
  · simp [hik]

/-- The high bits of a byte, as a mask of its low `k` bits leaves them. -/
theorem toNat_and_high (b : UInt8) (k : Fin 9) :
    (b &&& UInt8.ofNat (256 - 2 ^ k.val)).toNat = b.toNat / 2 ^ k.val * 2 ^ k.val := by
  have hk : k.val ≤ 8 := Nat.le_of_lt_succ k.isLt
  have hmask : (256 - 2 ^ k.val) % 2 ^ 8 = 2 ^ 8 - 2 ^ k.val :=
    Nat.mod_eq_of_lt (Nat.sub_lt (by decide) (Nat.two_pow_pos _))
  rw [UInt8.toNat_and, UInt8.toNat_ofNat', hmask]
  exact and_high b.toNat_lt hk

theorem and_high_iff {mask value : UInt8} (k : Fin 9)
    (hmask : mask = UInt8.ofNat (256 - 2 ^ k.val)) (b : UInt8) :
    b &&& mask = value ↔ b.toNat / 2 ^ k.val * 2 ^ k.val = value.toNat := by
  rw [hmask, ← UInt8.toNat_inj, toNat_and_high]

variable {b value : UInt8}

theorem and_80_iff : b &&& 0x80 = value ↔ b.toNat / 128 * 128 = value.toNat := and_high_iff 7 rfl b

theorem and_c0_iff : b &&& 0xc0 = value ↔ b.toNat / 64 * 64 = value.toNat := and_high_iff 6 rfl b

theorem and_e0_iff : b &&& 0xe0 = value ↔ b.toNat / 32 * 32 = value.toNat := and_high_iff 5 rfl b

theorem and_f0_iff : b &&& 0xf0 = value ↔ b.toNat / 16 * 16 = value.toNat := and_high_iff 4 rfl b

theorem and_f8_iff : b &&& 0xf8 = value ↔ b.toNat / 8 * 8 = value.toNat := and_high_iff 3 rfl b

theorem and_fe_iff : b &&& 0xfe = value ↔ b.toNat / 2 * 2 = value.toNat := and_high_iff 1 rfl b

end Bits

section Encode

/-! The sequences of one to four bytes that are the encoding of a character. -/

variable {b0 b1 b2 b3 : UInt8}

theorem exists_char {v : Nat} (h : v.isValidChar) : ∃ c : Char, c.toNat = v :=
  ⟨Char.ofNatAux v h, rfl⟩

/-- The bits that a byte of an encoding has behind its mark. -/
theorem marked_iff {v n mark : Nat} (hn : 0 < n) (h : mark + n ≤ 256) {b : UInt8} :
    UInt8.ofNat (v % n + mark) = b ↔ b.toNat = v % n + mark := by
  have hlt : v % n < n := Nat.mod_lt v hn
  rw [← UInt8.toNat_inj, UInt8.toNat_ofNat', Nat.mod_eq_of_lt (by omega)]
  exact eq_comm

theorem encode1_iff : (∃ c, String.utf8EncodeChar c = [b0]) ↔ b0.toNat ≤ 0x7f := by
  constructor
  · rintro ⟨c, h⟩
    simp only [String.utf8EncodeChar, Char.toNat_val] at h
    split_ifs at h <;> simp [← UInt8.toNat_inj] at h
    omega
  · intro hb0
    obtain ⟨c, hc⟩ := exists_char (Or.inl (by omega) : b0.toNat.isValidChar)
    refine ⟨c, ?_⟩
    simp only [String.utf8EncodeChar, Char.toNat_val, hc]
    rw [if_pos hb0, UInt8.ofNat_toNat]

theorem encode2_eq {c : Char} : String.utf8EncodeChar c = [b0, b1] ↔
    (0x7f < c.toNat ∧ c.toNat ≤ 0x7ff) ∧ b0.toNat = c.toNat / 64 % 32 + 0xc0 ∧
      b1.toNat = c.toNat % 64 + 0x80 := by
  simp only [String.utf8EncodeChar, Char.toNat_val]
  split_ifs with h1 h2 h3
  · exact iff_of_false (by simp) (by omega)
  · rw [List.cons.injEq, List.cons.injEq, marked_iff (by decide) (by decide),
      marked_iff (by decide) (by decide)]
    simp [h2, Nat.lt_of_not_le h1]
  · exact iff_of_false (by simp) (by omega)
  · exact iff_of_false (by simp) (by omega)

theorem encode2_iff : (∃ c, String.utf8EncodeChar c = [b0, b1]) ↔
    (0xc2 ≤ b0.toNat ∧ b0.toNat ≤ 0xdf) ∧ 0x80 ≤ b1.toNat ∧ b1.toNat ≤ 0xbf := by
  simp only [encode2_eq]
  constructor
  · rintro ⟨c, hc, h0, h1⟩
    refine ⟨?_, ?_⟩ <;> omega
  · rintro ⟨hb0, hb1⟩
    obtain ⟨c, hc⟩ := exists_char (Or.inl (by omega) :
      (b0.toNat % 32 * 64 + b1.toNat % 64).isValidChar)
    refine ⟨c, ?_, ?_, ?_⟩ <;> omega

theorem encode3_eq {c : Char} : String.utf8EncodeChar c = [b0, b1, b2] ↔
    (0x7ff < c.toNat ∧ c.toNat ≤ 0xffff) ∧ b0.toNat = c.toNat / 4096 % 16 + 0xe0 ∧
      b1.toNat = c.toNat / 64 % 64 + 0x80 ∧ b2.toNat = c.toNat % 64 + 0x80 := by
  simp only [String.utf8EncodeChar, Char.toNat_val]
  split_ifs with h1 h2 h3
  · exact iff_of_false (by simp) (by omega)
  · exact iff_of_false (by simp) (by omega)
  · rw [List.cons.injEq, List.cons.injEq, List.cons.injEq, marked_iff (by decide) (by decide),
      marked_iff (by decide) (by decide), marked_iff (by decide) (by decide)]
    simp [h3, Nat.lt_of_not_le h2]
  · exact iff_of_false (by simp) (by omega)

theorem encode3_iff : (∃ c, String.utf8EncodeChar c = [b0, b1, b2]) ↔
    (0xe0 ≤ b0.toNat ∧ b0.toNat ≤ 0xef) ∧ (0x80 ≤ b1.toNat ∧ b1.toNat ≤ 0xbf) ∧
      (0x80 ≤ b2.toNat ∧ b2.toNat ≤ 0xbf) ∧ (b0.toNat = 0xe0 → 0xa0 ≤ b1.toNat) ∧
      (b0.toNat = 0xed → b1.toNat ≤ 0x9f) := by
  simp only [encode3_eq]
  constructor
  · rintro ⟨c, hc, h0, h1, h2⟩
    have hvalid : c.toNat < 0xd800 ∨ 0xdfff < c.toNat ∧ c.toNat < 0x110000 := c.valid
    refine ⟨?_, ?_, ?_, ?_, ?_⟩ <;> omega
  · rintro ⟨hb0, hb1, hb2, hlow, hhigh⟩
    obtain ⟨c, hc⟩ := exists_char (by unfold Nat.isValidChar; omega :
      (b0.toNat % 16 * 4096 + b1.toNat % 64 * 64 + b2.toNat % 64).isValidChar)
    refine ⟨c, ?_, ?_, ?_, ?_⟩ <;> omega

theorem encode4_eq {c : Char} : String.utf8EncodeChar c = [b0, b1, b2, b3] ↔
    0xffff < c.toNat ∧ b0.toNat = c.toNat / 262144 % 8 + 0xf0 ∧
      b1.toNat = c.toNat / 4096 % 64 + 0x80 ∧ b2.toNat = c.toNat / 64 % 64 + 0x80 ∧
      b3.toNat = c.toNat % 64 + 0x80 := by
  simp only [String.utf8EncodeChar, Char.toNat_val]
  split_ifs with h1 h2 h3
  · exact iff_of_false (by simp) (by omega)
  · exact iff_of_false (by simp) (by omega)
  · exact iff_of_false (by simp) (by omega)
  · rw [List.cons.injEq, List.cons.injEq, List.cons.injEq, List.cons.injEq,
      marked_iff (by decide) (by decide), marked_iff (by decide) (by decide),
      marked_iff (by decide) (by decide), marked_iff (by decide) (by decide)]
    simp [Nat.lt_of_not_le h3]

theorem encode4_iff : (∃ c, String.utf8EncodeChar c = [b0, b1, b2, b3]) ↔
    (0xf0 ≤ b0.toNat ∧ b0.toNat ≤ 0xf4) ∧ (0x80 ≤ b1.toNat ∧ b1.toNat ≤ 0xbf) ∧
      (0x80 ≤ b2.toNat ∧ b2.toNat ≤ 0xbf) ∧ (0x80 ≤ b3.toNat ∧ b3.toNat ≤ 0xbf) ∧
      (b0.toNat = 0xf0 → 0x90 ≤ b1.toNat) ∧ (b0.toNat = 0xf4 → b1.toNat ≤ 0x8f) := by
  simp only [encode4_eq]
  constructor
  · rintro ⟨c, hc, h0, h1, h2, h3⟩
    have hvalid : c.toNat < 0x110000 := by
      have hscalar : c.toNat < 0xd800 ∨ 0xdfff < c.toNat ∧ c.toNat < 0x110000 := c.valid
      omega
    refine ⟨?_, ?_, ?_, ?_, ?_, ?_⟩ <;> omega
  · rintro ⟨hb0, hb1, hb2, hb3, hlow, hhigh⟩
    obtain ⟨c, hc⟩ := exists_char (by unfold Nat.isValidChar; omega :
      (b0.toNat % 8 * 262144 + b1.toNat % 64 * 4096 + b2.toNat % 64 * 64 +
        b3.toNat % 64).isValidChar)
    refine ⟨c, ?_, ?_, ?_, ?_, ?_⟩ <;> omega

end Encode

end MediaStream.Lib.Utf8
