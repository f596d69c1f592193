import Mathlib.Algebra.Ring.Nat
import Mathlib.Data.List.SplitLengths

/-!
A stream that is received in chunks and processed in whole blocks, where what is
left over of a chunk is thrown away. The blocks of the stream come through, for
every stream, exactly when no chunk ends inside one of them.
-/

namespace MediaStream.Lib.Blocks

variable {α : Type*} {w n : Nat} {lengths : List Nat}

/-- The whole blocks of `w` elements at the start of a list. -/
def whole (w : Nat) (l : List α) : List α := l.take (l.length / w * w)

/-- Each chunk ends between two blocks, or past the last whole block. -/
def BetweenBlocks (w : Nat) (lengths : List Nat) : Prop :=
  ∀ i, (lengths.take i).sum % w = 0 ∨ lengths.sum / w * w ≤ (lengths.take i).sum

theorem whole_of_mod {l : List α} (h : l.length % w = 0) : whole w l = l := by
  rw [whole, Nat.div_mul_cancel (Nat.dvd_of_mod_eq_zero h), List.take_length]

theorem whole_eq_nil {l : List α} (h : l.length < w) : whole w l = [] := by
  rw [whole, Nat.div_eq_of_lt h, Nat.zero_mul, List.take_zero]

theorem add_div_mul (hn : n % w = 0) (m : Nat) : (n + m) / w * w = n + m / w * w := by
  obtain ⟨k, rfl⟩ := Nat.dvd_of_mod_eq_zero hn
  rcases Nat.eq_zero_or_pos w with rfl | hw
  · simp
  · rw [Nat.mul_add_div hw, Nat.add_mul, Nat.mul_comm k]

theorem whole_append {l : List α} (h : l.length % w = 0) (rest : List α) :
    whole w (l ++ rest) = l ++ whole w rest := by
  rw [whole, List.length_append, add_div_mul h, List.take_length_add_append, whole]

theorem betweenBlocks_cons_of_mod (hn : n % w = 0) :
    BetweenBlocks w (n :: lengths) ↔ BetweenBlocks w lengths := by
  have hsum : (n :: lengths).sum / w * w = n + lengths.sum / w * w := by
    rw [List.sum_cons, add_div_mul hn]
  constructor
  · intro h i
    have hcut := h (i + 1)
    rw [hsum, List.take_succ_cons, List.sum_cons, Nat.add_mod, hn, Nat.zero_add, Nat.mod_mod]
      at hcut
    exact hcut.imp_right Nat.le_of_add_le_add_left
  · intro h i
    cases i with
    | zero => exact Or.inl (Nat.zero_mod w)
    | succ i =>
      rw [hsum, List.take_succ_cons, List.sum_cons, Nat.add_mod, hn, Nat.zero_add, Nat.mod_mod]
      exact (h i).imp_right fun hle => Nat.add_le_add_left hle n

/-- Only the last whole block may end inside a chunk. -/
theorem betweenBlocks_cons_of_not_mod (hn : n % w ≠ 0) :
    BetweenBlocks w (n :: lengths) ↔ (n + lengths.sum) / w * w ≤ n := by
  constructor
  · intro h
    have hcut := (h 1).resolve_left (by simpa using hn)
    simpa using hcut
  · intro h i
    cases i with
    | zero => exact Or.inl (Nat.zero_mod w)
    | succ i =>
      rw [List.take_succ_cons, List.sum_cons, List.sum_cons]
      exact Or.inr (Nat.le_add_right_of_le h)

/-- Nothing is lost between chunks that end between blocks. -/
theorem flatMap_whole (hw : 0 < w) {chunks : List (List α)}
    (h : BetweenBlocks w (chunks.map List.length)) :
    chunks.flatMap (whole w) = whole w chunks.flatten := by
  induction chunks with
  | nil => exact (whole_eq_nil (l := []) hw).symm
  | cons c rest ih =>
    rw [List.map_cons] at h
    rw [List.flatMap_cons, List.flatten_cons]
    by_cases hc : c.length % w = 0
    · rw [betweenBlocks_cons_of_mod hc] at h
      rw [whole_append hc, ih h, whole_of_mod hc]
    · rw [betweenBlocks_cons_of_not_mod hc, ← List.length_flatten] at h
      have hblocks : (c.length + rest.flatten.length) / w = c.length / w := by
        apply Nat.le_antisymm
        · exact (Nat.le_div_iff_mul_le hw).mpr h
        · exact Nat.div_le_div_right (Nat.le_add_right ..)
      have hshort : rest.flatten.length < w := by
        have hlast := Nat.lt_div_mul_add (a := c.length + rest.flatten.length) hw
        omega
      have hnone : rest.flatMap (whole w) = [] := by
        apply List.flatMap_eq_nil_iff.mpr
        intro chunk hchunk
        apply whole_eq_nil
        exact Nat.lt_of_le_of_lt (List.sublist_flatten_of_mem hchunk).length_le hshort
      rw [hnone, List.append_nil, whole, whole, List.length_append, hblocks,
        List.take_append_of_le_length (Nat.div_mul_le_self ..)]

/-- A stream with a mark on the element right after the whole blocks of its first
chunk: it is lost when the chunk ends inside a block. -/
theorem marked_lost {a b : α} (hab : a ≠ b) (hn : n % w ≠ 0)
    (hinside : n < (n + lengths.sum) / w * w) :
    ∃ l : List α, l.length = n + lengths.sum ∧
      ((n :: lengths).splitLengths l).flatMap (whole w) ≠ whole w l := by
  have hsplit := Nat.div_add_mod' n w
  obtain ⟨after, hafter⟩ := Nat.exists_eq_add_of_lt (show n / w * w < n by omega)
  obtain ⟨more, hmore⟩ := Nat.exists_eq_add_of_lt
    (show n / w * w < (n + lengths.sum) / w * w by omega)
  let front := List.replicate (n / w * w) a
  have hfront : front.length = n / w * w := List.length_replicate
  let chunk := front ++ b :: List.replicate after a
  have hchunk : chunk.length = n := by
    rw [List.length_append, hfront, List.length_cons, List.length_replicate]
    omega
  have hlength : (chunk ++ List.replicate lengths.sum a).length = n + lengths.sum := by
    rw [List.length_append, hchunk, List.length_replicate]
  refine ⟨chunk ++ List.replicate lengths.sum a, hlength, fun hsame => ?_⟩
  have hmark : b ∈ whole w (chunk ++ List.replicate lengths.sum a) := by
    rw [whole, hlength, hmore, List.append_assoc, Nat.add_assoc, ← hfront,
      List.take_length_add_append, List.cons_append, List.take_succ_cons]
    exact List.mem_append_right _ List.mem_cons_self
  have hfirst : whole w chunk = front := by
    rw [whole, hchunk, ← hfront, List.take_left]
  rw [← hsame, List.splitLengths_cons, List.take_left' hchunk, List.drop_left' hchunk,
    List.flatMap_cons, hfirst] at hmark
  rcases List.mem_append.mp hmark with hin | hlater
  · exact hab (List.eq_of_mem_replicate hin).symm
  · obtain ⟨c, hc, hin⟩ := List.mem_flatMap.mp hlater
    have hall := List.mem_flatten_of_mem hc (List.mem_of_mem_take hin)
    rw [List.flatten_splitLengths _ _ List.length_replicate.le] at hall
    exact hab (List.eq_of_mem_replicate hall).symm

/-- Where a chunk ends inside a block, the start of the block is lost. -/
theorem flatMap_whole_iff {a b : α} (hab : a ≠ b) (hw : 0 < w) :
    (∀ l : List α, l.length = lengths.sum →
        (lengths.splitLengths l).flatMap (whole w) = whole w l) ↔ BetweenBlocks w lengths := by
  constructor
  · intro h
    induction lengths with
    | nil => exact fun i => Or.inl (by simp)
    | cons n rest ih =>
      by_cases hn : n % w = 0
      · apply (betweenBlocks_cons_of_mod hn).mpr
        apply ih
        intro l hl
        have hfirst : (List.replicate n a).length % w = 0 := by rw [List.length_replicate, hn]
        have hsame := h (List.replicate n a ++ l) (by simp [hl])
        rw [List.splitLengths_cons, List.take_left' List.length_replicate,
          List.drop_left' List.length_replicate, List.flatMap_cons, whole_of_mod hfirst,
          whole_append hfirst] at hsame
        exact List.append_cancel_left hsame
      · apply (betweenBlocks_cons_of_not_mod hn).mpr
        by_contra hinside
        obtain ⟨l, hl, hlost⟩ := marked_lost hab hn (Nat.lt_of_not_le hinside)
        exact hlost (h l (by rw [hl, List.sum_cons]))
  · intro h l hl
    have hlengths : (lengths.splitLengths l).map List.length = lengths :=
      List.map_splitLengths_length l lengths hl.ge
    rw [flatMap_whole hw (hlengths.symm ▸ h), List.flatten_splitLengths l lengths hl.le]

end MediaStream.Lib.Blocks
