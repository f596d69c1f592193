import MediaStream.Lib.Bytes

/-!
C strings in arrays of bytes: a write that does not fit its array is refused, a
string ends at its first zero, and `strcmp` examines no byte behind it.
-/

namespace MediaStream.Lib.Bytes

def cString (memory : List UInt8) : List UInt8 := memory.takeWhile (· ≠ 0)

/-- Whether the strings in two arrays are equal, and how many bytes of each have
been examined; `none` if that would be one behind the end of an array. -/
def strcmp : List UInt8 → List UInt8 → Option (Bool × Nat)
  | a :: first, b :: second =>
    if a = b then
      if a = 0 then some (true, 1)
      else (strcmp first second).map fun r => (r.1, r.2 + 1)
    else some (false, 1)
  | _, _ => none

namespace Buffer

variable {size : Nat}

def write (b : Buffer size) (offset : Nat) (bytes : List UInt8) : Option (Buffer size) :=
  if h : offset + bytes.length ≤ size then
    some {
      bytes := b.bytes.take offset ++ bytes ++ b.bytes.drop (offset + bytes.length)
      length_bytes := by
        have hlen := b.length_bytes
        simp only [List.length_append, List.length_take, List.length_drop]
        omega }
  else none

/-- A write that fits leaves the bytes before it alone and puts its own behind them. -/
theorem write_eq_some {b : Buffer size} {offset : Nat} {bytes : List UInt8}
    (h : offset + bytes.length ≤ size) :
    ∃ after back, b.write offset bytes = some after ∧
      after.bytes = b.bytes.take offset ++ bytes ++ back := by
  unfold write
  rw [dif_pos h]
  exact ⟨_, _, rfl, rfl⟩

end Buffer

@[simp] theorem cString_append_zero (front back : List UInt8) :
    cString (front ++ 0 :: back) = cString front := by
  induction front with
  | nil => rfl
  | cons byte front ih =>
    unfold cString at ih ⊢
    rw [List.cons_append, List.takeWhile_cons, List.takeWhile_cons, ih]

theorem length_cString_le (memory : List UInt8) : (cString memory).length ≤ memory.length :=
  (List.takeWhile_prefix _).length_le

/-- Where both arrays hold a string, `strcmp` compares the strings and stops at
the end of the first one at the latest. -/
theorem strcmp_eq {first second : List UInt8} (hfirst : 0 ∈ first) (hsecond : 0 ∈ second) :
    ∃ examined ≤ (cString first).length + 1,
      strcmp first second = some (decide (cString first = cString second), examined) := by
  induction first generalizing second with
  | nil => cases hfirst
  | cons a first ih =>
    cases second with
    | nil => cases hsecond
    | cons b second =>
      by_cases hab : a = b
      · subst hab
        by_cases hzero : a = 0
        · subst hzero
          exact ⟨1, by simp, rfl⟩
        · have hrest : 0 ∈ first := (List.mem_cons.mp hfirst).resolve_left (Ne.symm hzero)
          have hother : 0 ∈ second := (List.mem_cons.mp hsecond).resolve_left (Ne.symm hzero)
          obtain ⟨examined, hle, hcmp⟩ := ih hrest hother
          have hcons : ∀ rest, cString (a :: rest) = a :: cString rest := by
            intro rest
            exact List.takeWhile_cons_of_pos (by simpa using hzero)
          refine ⟨examined + 1, ?_, ?_⟩
          · rw [hcons, List.length_cons]
            exact Nat.succ_le_succ hle
          · simp [strcmp, hzero, hcmp, hcons]
      · have hdiff : cString (a :: first) ≠ cString (b :: second) := by
          unfold cString
          rw [List.takeWhile_cons, List.takeWhile_cons]
          intro heq
          split at heq <;> split at heq <;> simp_all
        refine ⟨1, Nat.le_add_left _ _, ?_⟩
        simp [strcmp, hab, hdiff]

end MediaStream.Lib.Bytes
