import Mathlib.Data.List.Basic

/-!
Decoding of UTF-8 that leaves out what is not UTF-8. A sequence is dropped up to
the first byte that cannot continue it, and decoding starts again with this byte.
-/

namespace MediaStream.Lib.Utf8

/-- A character of which some bytes are still owed. -/
structure Pending where
  /-- The bits that have been read. -/
  bits : Nat
  /-- The bytes owed after the next one. -/
  later : Nat
  /-- The next byte is in the range from `low` to `high`. -/
  low : Nat
  high : Nat

/-- The first byte of a sequence: the character it is, or what it begins. Other
bytes begin nothing. -/
def first (byte : Nat) : List Char × Option Pending :=
  if byte < 0x80 then ([Char.ofNat byte], none)
  else if 0xC2 ≤ byte ∧ byte ≤ 0xDF then ([], some ⟨byte % 32, 0, 0x80, 0xBF⟩)
  else if byte = 0xE0 then ([], some ⟨0, 1, 0xA0, 0xBF⟩)
  else if byte = 0xED then ([], some ⟨13, 1, 0x80, 0x9F⟩)
  else if 0xE1 ≤ byte ∧ byte ≤ 0xEF then ([], some ⟨byte % 16, 1, 0x80, 0xBF⟩)
  else if byte = 0xF0 then ([], some ⟨0, 2, 0x90, 0xBF⟩)
  else if 0xF1 ≤ byte ∧ byte ≤ 0xF3 then ([], some ⟨byte % 8, 2, 0x80, 0xBF⟩)
  else if byte = 0xF4 then ([], some ⟨4, 2, 0x80, 0x8F⟩)
  else ([], none)

/-- One more byte, and the characters it completes. -/
def next : Option Pending → Nat → List Char × Option Pending
  | none, byte => first byte
  | some p, byte =>
    if p.low ≤ byte ∧ byte ≤ p.high then
      match p.later with
      | 0 => ([Char.ofNat (p.bits * 64 + byte % 64)], none)
      | later + 1 => ([], some ⟨p.bits * 64 + byte % 64, later, 0x80, 0xBF⟩)
    else first byte

def decodeFrom : Option Pending → List UInt8 → List Char
  | _, [] => []
  | pending, byte :: rest =>
    (next pending byte.toNat).1 ++ decodeFrom (next pending byte.toNat).2 rest

def decodeIgnore (bytes : List UInt8) : List Char := decodeFrom none bytes

def ascii (text : List Char) : List UInt8 := text.map fun c => UInt8.ofNat c.toNat

/-- Whatever comes after it, ASCII text is decoded to itself. -/
theorem decodeIgnore_ascii {text : List Char} (h : ∀ c ∈ text, c.toNat < 0x80)
    (rest : List UInt8) : decodeIgnore (ascii text ++ rest) = text ++ decodeIgnore rest := by
  induction text with
  | nil => rfl
  | cons c text ih =>
    obtain ⟨hc, htext⟩ := List.forall_mem_cons.mp h
    have hbyte : (UInt8.ofNat c.toNat).toNat = c.toNat :=
      Nat.mod_eq_of_lt (Nat.lt_trans hc (by decide))
    have hnext : next none (UInt8.ofNat c.toNat).toNat = ([c], none) := by
      rw [hbyte, next, first, if_pos hc, Char.ofNat_toNat]
    change (next none (UInt8.ofNat c.toNat).toNat).1 ++
      decodeFrom (next none (UInt8.ofNat c.toNat).toNat).2 (ascii text ++ rest) = _
    rw [hnext]
    exact congrArg (c :: ·) (ih htext)

/-- An overlong form, a surrogate and a sequence that is cut off. -/
example : decodeIgnore [0xC0, 0x80, 65, 0xED, 0xA0, 0x80, 66, 0xE2, 0x82, 67, 0xF0, 0x9F] =
    ['A', 'B', 'C'] := by decide

end MediaStream.Lib.Utf8
