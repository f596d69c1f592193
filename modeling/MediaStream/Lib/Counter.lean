import Mathlib.Algebra.Order.Ring.Int
import Mathlib.Algebra.Order.BigOperators.Group.List

/-!
Counters to which numbers are added one after the other. A counter of a machine
type takes the sums modulo some power of two; it is exact all the time as long as
the last total is one that the type has.
-/

namespace MediaStream.Lib

variable {α β ρ σ : Type*}

def totals [Add α] (start : α) : List α → List α
  | [] => []
  | n :: rest => (start + n) :: totals (start + n) rest

/-- A type of machine integers. Of the numbers from zero on, it has those below the
bound. -/
structure Counter (σ : Type*) [Add σ] where
  ofInt : Int → σ
  toInt : σ → Int
  bound : Int
  bound_pos : 0 < bound
  ofInt_add : ∀ m n, ofInt (m + n) = ofInt m + ofInt n
  exact_iff : ∀ n, 0 ≤ n → (toInt (ofInt n) = n ↔ n < bound)

namespace Counter

def int32 : Counter Int32 where
  ofInt := Int32.ofInt
  toInt := Int32.toInt
  bound := 2 ^ 31
  bound_pos := by decide
  ofInt_add := Int32.ofInt_add
  exact_iff n hn := by
    constructor
    · intro h
      rw [← h]
      exact Int32.toInt_lt _
    · intro hlt
      exact Int32.toInt_ofInt_of_le (by omega) hlt

def int64 : Counter Int64 where
  ofInt := Int64.ofInt
  toInt := Int64.toInt
  bound := 2 ^ 63
  bound_pos := by decide
  ofInt_add := Int64.ofInt_add
  exact_iff n hn := by
    constructor
    · intro h
      rw [← h]
      exact Int64.toInt_lt _
    · intro hlt
      exact Int64.toInt_ofInt_of_le (by omega) hlt

end Counter

/-- A counter of another type follows, if its additions do. -/
theorem map_totals [Add α] [Add β] {f : α → β} (hadd : ∀ m n, f (m + n) = f m + f n) (start : α)
    (l : List α) : (totals start l).map f = totals (f start) (l.map f) := by
  induction l generalizing start with
  | nil => rfl
  | cons n rest ih =>
    change f (start + n) :: (totals (start + n) rest).map f = _
    rw [ih, hadd]
    rfl

theorem getElem?_totals (start : Int) {l : List Int} {i : Nat} (hi : i < l.length) :
    (totals start l)[i]? = some (start + (l.take (i + 1)).sum) := by
  induction l generalizing start i with
  | nil => cases hi
  | cons n rest ih =>
    cases i with
    | zero => simp [totals]
    | succ i =>
      change (totals (start + n) rest)[i]? = _
      rw [ih (start + n) (Nat.lt_of_succ_lt_succ hi), List.take_succ_cons, List.sum_cons,
        Int.add_assoc]

theorem length_totals [Add α] (start : α) (l : List α) : (totals start l).length = l.length := by
  induction l generalizing start with
  | nil => rfl
  | cons n rest ih => exact congrArg Nat.succ (ih _)

variable [Add σ] (c : Counter σ) {l : List Int}

namespace Counter

theorem getElem?_totals {i : Nat} (hi : i < l.length) :
    (totals (c.ofInt 0) (l.map c.ofInt))[i]? = some (c.ofInt (l.take (i + 1)).sum) := by
  rw [← map_totals c.ofInt_add, List.getElem?_map, Lib.getElem?_totals 0 hi, Int.zero_add]
  rfl

/-- What is counted from zero is exact after every addition, exactly when the last
total is below the bound. -/
theorem totals_exact_iff (h : ∀ n ∈ l, 0 ≤ n) :
    (∀ i total, (totals (c.ofInt 0) (l.map c.ofInt))[i]? = some total →
      c.toInt total = (l.take (i + 1)).sum) ↔ l.sum < c.bound := by
  constructor
  · intro hexact
    rcases Nat.eq_zero_or_pos l.length with hempty | hpos
    · rw [List.length_eq_zero_iff.mp hempty]
      exact c.bound_pos
    · have hlast := hexact (l.length - 1) _ (c.getElem?_totals (by omega))
      rw [Nat.sub_add_cancel hpos, List.take_length] at hlast
      exact (c.exact_iff _ (List.sum_nonneg h)).mp hlast
  · intro hbound i total htotal
    have hi : i < l.length := by
      have hlt := (List.getElem?_eq_some_iff.mp htotal).1
      rwa [length_totals, List.length_map] at hlt
    have hnonneg : 0 ≤ (l.take (i + 1)).sum := by
      apply List.sum_nonneg
      intro n hn
      exact h n (List.mem_of_mem_take hn)
    obtain rfl := Option.some.inj ((c.getElem?_totals hi).symm.trans htotal)
    apply (c.exact_iff _ hnonneg).mpr
    exact Int.lt_of_le_of_lt ((List.take_sublist _ _).sum_le_sum h) hbound

/-- The same for records that keep the counter, where `value` is what it should be. -/
theorem records_exact_iff {records : List ρ} {counter : ρ → σ} {value : Nat → Int}
    (h : ∀ n ∈ l, 0 ≤ n) (hrecords : records.map counter = totals (c.ofInt 0) (l.map c.ofInt))
    (hvalue : ∀ i < l.length, (l.take (i + 1)).sum = value i) :
    (∀ i record, records[i]? = some record → c.toInt (counter record) = value i) ↔
      l.sum < c.bound := by
  have hlength : records.length = l.length := by
    have hlengths := congrArg List.length hrecords
    rwa [List.length_map, length_totals, List.length_map] at hlengths
  rw [← c.totals_exact_iff h, ← hrecords]
  constructor
  · intro hexact i total htotal
    rw [List.getElem?_map] at htotal
    obtain ⟨record, hrecord, rfl⟩ := Option.map_eq_some_iff.mp htotal
    have hi := (List.getElem?_eq_some_iff.mp hrecord).1
    rw [hvalue i (by omega)]
    exact hexact i record hrecord
  · intro hexact i record hrecord
    have hi := (List.getElem?_eq_some_iff.mp hrecord).1
    rw [← hvalue i (by omega)]
    apply hexact i
    rw [List.getElem?_map, hrecord]
    rfl

end Counter

end MediaStream.Lib
