import Mathlib.Data.List.Basic

/-!
One direction of a stream connection: the bytes that have been sent and not yet
received, in order. `recv` may cut them anywhere.
-/

namespace MediaStream.Lib.ByteStream

variable {α : Type*}

/-- A `recv` for at most `size` bytes that returns `n`: these bytes and what is
still in flight. -/
def recv (inFlight : List α) (size n : Nat) : Option (List α × List α) :=
  if 0 < n ∧ n ≤ size ∧ n ≤ inFlight.length then some (inFlight.take n, inFlight.drop n) else none

theorem recv_eq_some {inFlight chunk rest : List α} {size n : Nat} :
    recv inFlight size n = some (chunk, rest) ↔
      inFlight = chunk ++ rest ∧ chunk.length = n ∧ 0 < n ∧ n ≤ size := by
  unfold recv
  constructor
  · intro h
    rw [Option.ite_none_right_eq_some] at h
    obtain ⟨⟨hpos, hsize, hlen⟩, hcut⟩ := h
    obtain ⟨rfl, rfl⟩ := Prod.mk.inj (Option.some.inj hcut)
    exact ⟨(List.take_append_drop n inFlight).symm, List.length_take_of_le hlen, hpos, hsize⟩
  · rintro ⟨rfl, rfl, hpos, hsize⟩
    rw [if_pos ⟨hpos, hsize, by simp⟩, List.take_left, List.drop_left]

end MediaStream.Lib.ByteStream
