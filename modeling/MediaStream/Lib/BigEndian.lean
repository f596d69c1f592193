import MediaStream.Lib.Bytes

/-!
Big-endian integers in byte lists, and bytes under a repeated key.
-/

namespace MediaStream.Lib.Bytes

/-- The `width` low bytes of a number, most significant first. -/
def be (width n : Nat) : List UInt8 := (le width n).reverse

def beNat (bytes : List UInt8) : Nat := leNat bytes.reverse

@[simp] theorem length_be (width n : Nat) : (be width n).length = width := by
  simp [be]

theorem beNat_be (width n : Nat) : beNat (be width n) = n % 256 ^ width := by
  rw [beNat, be, List.reverse_reverse, leNat_le]

theorem beNat_be_of_lt {width n : Nat} (h : n < 256 ^ width) : beNat (be width n) = n := by
  rw [beNat_be, Nat.mod_eq_of_lt h]

theorem leNat_lt (bytes : List UInt8) : leNat bytes < 256 ^ bytes.length := by
  induction bytes with
  | nil => exact Nat.one_pos
  | cons byte rest ih =>
    have hbyte := byte.toNat_lt
    rw [leNat, List.length_cons, Nat.pow_succ']
    omega

theorem le_leNat (bytes : List UInt8) : le bytes.length (leNat bytes) = bytes := by
  induction bytes with
  | nil => rfl
  | cons byte rest ih =>
    have hbyte := byte.toNat_lt
    have hlow : (byte.toNat + 256 * leNat rest) % 256 = byte.toNat := by omega
    have hhigh : (byte.toNat + 256 * leNat rest) / 256 = leNat rest := by omega
    rw [List.length_cons, leNat, le, hhigh, ih]
    congr 1
    apply UInt8.toNat_inj.mp
    rw [UInt8.toNat_ofNat']
    exact hlow

theorem beNat_lt (bytes : List UInt8) : beNat bytes < 256 ^ bytes.length := by
  rw [← List.length_reverse]
  exact leNat_lt bytes.reverse

theorem leNat_append (first second : List UInt8) :
    leNat (first ++ second) = leNat first + 256 ^ first.length * leNat second := by
  induction first with
  | nil => simp [leNat]
  | cons byte rest ih =>
    rw [List.cons_append, leNat, ih, leNat, List.length_cons, Nat.pow_succ', Nat.mul_add,
      Nat.mul_assoc, Nat.add_assoc]

theorem beNat_append (first second : List UInt8) :
    beNat (first ++ second) = beNat first * 256 ^ second.length + beNat second := by
  rw [beNat, List.reverse_append, leNat_append, List.length_reverse, Nat.mul_comm, Nat.add_comm]
  rfl

/-- Bytes are the number they are read as. -/
theorem be_beNat (bytes : List UInt8) : be bytes.length (beNat bytes) = bytes := by
  rw [be, beNat, ← List.length_reverse, le_leNat, List.reverse_reverse]

theorem be_add (first second n : Nat) :
    be (first + second) n = be first (n / 256 ^ second) ++ be second n := by
  rw [be, be, be, Nat.add_comm, le_add, List.reverse_append]

def xorKey (key : Nat → UInt8) (bytes : List UInt8) : List UInt8 :=
  bytes.mapIdx fun i byte => byte ^^^ key i

@[simp] theorem length_xorKey (key : Nat → UInt8) (bytes : List UInt8) :
    (xorKey key bytes).length = bytes.length := by
  simp [xorKey]

/-- The key takes off what it has put on. -/
@[simp] theorem xorKey_xorKey (key : Nat → UInt8) (bytes : List UInt8) :
    xorKey key (xorKey key bytes) = bytes := by
  unfold xorKey
  rw [List.mapIdx_mapIdx]
  apply List.ext_getElem
  · simp
  · intro i hleft hright
    rw [List.getElem_mapIdx, Function.comp_apply, UInt8.xor_assoc, UInt8.xor_self, UInt8.xor_zero]

theorem xorKey_zero (bytes : List UInt8) : xorKey (fun _ => 0) bytes = bytes := by
  unfold xorKey
  apply List.ext_getElem
  · simp
  · intro i hleft hright
    rw [List.getElem_mapIdx, UInt8.xor_zero]

end MediaStream.Lib.Bytes
