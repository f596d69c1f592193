import MediaStream.Lib.Utf8Encode

/-!
`ws/lib/validation.js`: which bytes are UTF-8, and which status codes a close
frame may carry. The checks mask the bits of single bytes; what they accept is
compared with the encoding of characters.
-/

namespace MediaStream.WebRTC.Ws

open Lib.Utf8

/-- Codes that may be sent in a close frame. -/
def isValidStatusCode (code : Nat) : Bool :=
  (1000 ≤ code && code ≤ 1014 && code ≠ 1004 && code ≠ 1005 && code ≠ 1006) ||
    (3000 ≤ code && code ≤ 4999)

/-- `buf[i]` is the head of the list, `buf[i + 1]` the next element. -/
def isValidUTF8 : List UInt8 → Bool
  | [] => true
  | b0 :: rest =>
    if b0 &&& 0x80 = 0 then isValidUTF8 rest
    else if b0 &&& 0xe0 = 0xc0 then
      match rest with
      | b1 :: rest =>
        if b1 &&& 0xc0 ≠ 0x80 ∨ b0 &&& 0xfe = 0xc0 then false
        else isValidUTF8 rest
      | _ => false
    else if b0 &&& 0xf0 = 0xe0 then
      match rest with
      | b1 :: b2 :: rest =>
        if b1 &&& 0xc0 ≠ 0x80 ∨ b2 &&& 0xc0 ≠ 0x80 ∨ (b0 = 0xe0 ∧ b1 &&& 0xe0 = 0x80) ∨
            (b0 = 0xed ∧ b1 &&& 0xe0 = 0xa0) then false
        else isValidUTF8 rest
      | _ => false
    else if b0 &&& 0xf8 = 0xf0 then
      match rest with
      | b1 :: b2 :: b3 :: rest =>
        if b1 &&& 0xc0 ≠ 0x80 ∨ b2 &&& 0xc0 ≠ 0x80 ∨ b3 &&& 0xc0 ≠ 0x80 ∨
            (b0 = 0xf0 ∧ b1 &&& 0xf0 = 0x80) ∨ (b0 = 0xf4 ∧ 0x8f < b1) ∨ 0xf4 < b0 then false
        else isValidUTF8 rest
      | _ => false
    else false

/-- What is left to check after one character. -/
theorem isValidUTF8_encode_append (c : Char) (rest : List UInt8) :
    isValidUTF8 (String.utf8EncodeChar c ++ rest) = isValidUTF8 rest := by
  have hlen := String.length_utf8EncodeChar c
  rcases c.utf8Size_eq with hsize | hsize | hsize | hsize
  · obtain ⟨b0, hc⟩ := List.length_eq_one_iff.mp (hlen.trans hsize)
    have hb := encode1_iff.mp ⟨c, hc⟩
    rw [hc, List.singleton_append]
    conv_lhs => unfold isValidUTF8
    rw [if_pos]
    rw [and_80_iff, UInt8.toNat_zero]
    omega
  · obtain ⟨b0, b1, hc⟩ := List.length_eq_two.mp (hlen.trans hsize)
    have hb := encode2_iff.mp ⟨c, hc⟩
    rw [hc, List.cons_append, List.singleton_append]
    conv_lhs => unfold isValidUTF8
    rw [if_neg, if_pos]
    · apply if_neg
      simp only [ne_eq, and_c0_iff, and_fe_iff, UInt8.reduceToNat]
      omega
    all_goals simp only [and_80_iff, and_e0_iff, UInt8.reduceToNat]
    all_goals omega
  · obtain ⟨b0, b1, b2, hc⟩ := List.length_eq_three.mp (hlen.trans hsize)
    have hb := encode3_iff.mp ⟨c, hc⟩
    rw [hc, List.cons_append, List.cons_append, List.singleton_append]
    conv_lhs => unfold isValidUTF8
    rw [if_neg, if_neg, if_pos]
    · apply if_neg
      simp only [ne_eq, and_c0_iff, and_e0_iff]
      simp only [← UInt8.toNat_inj, UInt8.reduceToNat]
      omega
    all_goals simp only [and_80_iff, and_e0_iff, and_f0_iff, UInt8.reduceToNat]
    all_goals omega
  · have hfour : ∃ b0 b1 b2 b3, String.utf8EncodeChar c = [b0, b1, b2, b3] :=
      List.length_eq_four.mp (hlen.trans hsize)
    obtain ⟨b0, b1, b2, b3, hc⟩ := hfour
    have hb := encode4_iff.mp ⟨c, hc⟩
    rw [hc, List.cons_append, List.cons_append, List.cons_append, List.singleton_append]
    conv_lhs => unfold isValidUTF8
    rw [if_neg, if_neg, if_neg, if_pos]
    · apply if_neg
      simp only [ne_eq, and_c0_iff, and_f0_iff]
      simp only [← UInt8.toNat_inj, UInt8.lt_iff_toNat_lt, UInt8.reduceToNat]
      omega
    all_goals simp only [and_80_iff, and_e0_iff, and_f0_iff, and_f8_iff, UInt8.reduceToNat]
    all_goals omega

/-- The check goes on after one character. -/
theorem exists_encode_append {b0 : UInt8} {buf : List UInt8}
    (h : isValidUTF8 (b0 :: buf) = true) :
    ∃ c rest, b0 :: buf = String.utf8EncodeChar c ++ rest ∧ isValidUTF8 rest = true := by
  unfold isValidUTF8 at h
  split_ifs at h with h1 h2 h3 h4
  · simp only [and_80_iff, UInt8.reduceToNat] at h1
    obtain ⟨c, hc⟩ := encode1_iff.mpr (show b0.toNat ≤ 0x7f by omega)
    exact ⟨c, buf, by rw [hc, List.singleton_append], h⟩
  · split at h
    · next b1 rest =>
      split_ifs at h with hbad
      simp only [ne_eq, and_c0_iff, and_e0_iff, and_fe_iff, UInt8.reduceToNat] at h2 hbad
      obtain ⟨c, hc⟩ : ∃ c, String.utf8EncodeChar c = [b0, b1] :=
        encode2_iff.mpr (by omega)
      exact ⟨c, rest, by rw [hc]; rfl, h⟩
    · cases h
  · split at h
    · next b1 b2 rest =>
      split_ifs at h with hbad
      simp only [ne_eq, and_c0_iff, and_e0_iff, and_f0_iff] at h3 hbad
      simp only [← UInt8.toNat_inj, UInt8.reduceToNat] at h3 hbad
      obtain ⟨c, hc⟩ : ∃ c, String.utf8EncodeChar c = [b0, b1, b2] :=
        encode3_iff.mpr (by omega)
      exact ⟨c, rest, by rw [hc]; rfl, h⟩
    · cases h
  · split at h
    · next b1 b2 b3 rest =>
      split_ifs at h with hbad
      simp only [ne_eq, and_c0_iff, and_f0_iff, and_f8_iff] at h4 hbad
      simp only [← UInt8.toNat_inj, UInt8.lt_iff_toNat_lt, UInt8.reduceToNat] at h4 hbad
      obtain ⟨c, hc⟩ : ∃ c, String.utf8EncodeChar c = [b0, b1, b2, b3] :=
        encode4_iff.mpr (by omega)
      exact ⟨c, rest, by rw [hc]; rfl, h⟩
    · cases h

/-- The check accepts the encodings of texts, and nothing else. -/
theorem isValidUTF8_iff (buf : List UInt8) :
    isValidUTF8 buf = true ↔ ∃ text : List Char, buf = text.flatMap String.utf8EncodeChar := by
  constructor
  · intro h
    induction hlen : buf.length using Nat.strongRecOn generalizing buf with
    | ind n ih =>
      cases buf with
      | nil => exact ⟨[], rfl⟩
      | cons b0 tail =>
        obtain ⟨c, rest, hsplit, hrest⟩ := exists_encode_append h
        have hshort : rest.length < n := by
          have hpos := String.length_utf8EncodeChar c ▸ c.utf8Size_pos
          rw [← hlen, hsplit, List.length_append]
          omega
        obtain ⟨text, htext⟩ := ih rest.length hshort rest hrest rfl
        exact ⟨c :: text, by rw [hsplit, htext, List.flatMap_cons]⟩
  · rintro ⟨text, rfl⟩
    induction text with
    | nil => rfl
    | cons c text ih =>
      rw [List.flatMap_cons, isValidUTF8_encode_append]
      exact ih

end MediaStream.WebRTC.Ws
