import Mathlib.Algebra.Group.Nat.Defs
import Mathlib.Data.List.Basic

/-!
Little-endian integers in byte lists, and writing into a buffer of fixed size:
what is written replaces a prefix, is cut at the end of the buffer, and leaves
the rest of the buffer as it was.
-/

namespace MediaStream.Lib.Bytes

/-- The `width` low bytes of a number, least significant first. -/
def le : Nat → Nat → List UInt8
  | 0, _ => []
  | width + 1, n => UInt8.ofNat n :: le width (n / 256)

def leNat : List UInt8 → Nat
  | [] => 0
  | byte :: rest => byte.toNat + 256 * leNat rest

@[simp] theorem length_le (width n : Nat) : (le width n).length = width := by
  induction width generalizing n with
  | zero => rfl
  | succ width ih => simp [le, ih]

theorem le_add (first second n : Nat) :
    le (first + second) n = le first n ++ le second (n / 256 ^ first) := by
  induction first generalizing n with
  | zero => simp [le]
  | succ first ih =>
    rw [Nat.succ_add_eq_add_succ, ← Nat.succ_eq_add_one, Nat.add_succ]
    simp only [le, ih, List.cons_append, Nat.div_div_eq_div_mul, Nat.pow_succ']

theorem leNat_le (width n : Nat) : leNat (le width n) = n % 256 ^ width := by
  induction width generalizing n with
  | zero => simp [le, leNat, Nat.mod_one]
  | succ width ih =>
    have hbyte : (UInt8.ofNat n).toNat = n % 256 := by simp
    rw [le, leNat, ih, hbyte, Nat.pow_succ', Nat.mod_mul]

theorem leNat_le_of_lt {width n : Nat} (h : n < 256 ^ width) : leNat (le width n) = n := by
  rw [leNat_le, Nat.mod_eq_of_lt h]

theorem leNat_zero (width : Nat) : leNat (List.replicate width 0) = 0 := by
  induction width with
  | zero => rfl
  | succ width ih => simp [List.replicate_succ, leNat, ih]

def field (memory : List UInt8) (offset width : Nat) : Nat :=
  leNat ((memory.drop offset).take width)

/-- The field that `value` occupies right after `front`. -/
theorem field_eq {memory : List UInt8} {offset width : Nat} (front value : List UInt8)
    (h : front ++ value <+: memory) (hoffset : front.length = offset)
    (hwidth : value.length = width) : field memory offset width = leNat value := by
  obtain ⟨back, rfl⟩ := h
  subst hoffset hwidth
  unfold field
  rw [List.append_assoc, List.drop_left, List.take_left]

def overwrite (buffer bytes : List UInt8) : List UInt8 :=
  bytes.take buffer.length ++ buffer.drop bytes.length

@[simp] theorem length_overwrite (buffer bytes : List UInt8) :
    (overwrite buffer bytes).length = buffer.length := by
  simp [overwrite]
  omega

theorem overwrite_full {buffer bytes : List UInt8} (h : bytes.length = buffer.length) :
    overwrite buffer bytes = bytes := by
  unfold overwrite
  rw [← h, List.take_length, h, List.drop_length, List.append_nil]

/-- Bytes beyond the end of the buffer are lost. -/
theorem overwrite_long {buffer bytes : List UInt8} (h : buffer.length ≤ bytes.length) :
    overwrite buffer bytes = bytes.take buffer.length := by
  unfold overwrite
  rw [List.drop_eq_nil_of_le h, List.append_nil]

theorem take_overwrite {buffer bytes : List UInt8} (h : bytes.length ≤ buffer.length) :
    (overwrite buffer bytes).take bytes.length = bytes := by
  unfold overwrite
  rw [List.take_of_length_le h, List.take_left]

structure Buffer (size : Nat) where
  bytes : List UInt8
  length_bytes : bytes.length = size

namespace Buffer

variable {size : Nat}

def zero : Buffer size where
  bytes := List.replicate size 0
  length_bytes := List.length_replicate

def store (b : Buffer size) (bytes : List UInt8) : Buffer size where
  bytes := overwrite b.bytes bytes
  length_bytes := (length_overwrite b.bytes bytes).trans b.length_bytes

/-- What has been written is at the start of the buffer. -/
theorem take_store (b : Buffer size) {bytes : List UInt8} (h : bytes.length ≤ size) :
    (b.store bytes).bytes.take bytes.length = bytes :=
  take_overwrite (by rwa [b.length_bytes])

theorem take_eq_nil {b : Buffer size} (hsize : size ≠ 0) {n : Nat} :
    b.bytes.take n = [] ↔ n = 0 := by
  rw [List.take_eq_nil_iff, or_iff_left_iff_imp]
  intro hnil
  have hlen := b.length_bytes
  rw [hnil] at hlen
  exact absurd hlen.symm hsize

end Buffer

/-- `count` consecutive pieces of `size` elements are the front of the list. -/
theorem flatMap_pieces {α : Type*} (l : List α) (size count : Nat) :
    ((List.range count).flatMap fun i => (l.drop (size * i)).take size) =
      l.take (size * count) := by
  induction count with
  | zero => simp
  | succ count ih =>
    rw [List.range_succ, List.flatMap_append, ih, Nat.mul_succ, List.take_add]
    simp

end MediaStream.Lib.Bytes
