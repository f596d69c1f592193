import Mathlib.Data.List.Nodup
import Mathlib.Data.List.Sort

/-!
Sorting by a key with an algorithm of which only the contract is known: the
result is a permutation and ascends in the key. Elements with equal keys may
come out in any order, as with `std::sort`; where the keys are distinct the
result is determined.
-/

namespace MediaStream.Lib

variable {α β : Type*} [LinearOrder β]

structure KeySort (key : α → β) where
  sort : List α → List α
  perm : ∀ l, (sort l).Perm l
  sorted : ∀ l, (sort l).Pairwise fun a b => key a ≤ key b

namespace KeySort

variable {key : α → β}

/-- A permutation of a strictly ascending list is sorted into that list. -/
theorem sort_eq (S : KeySort key) {l ascending : List α} (hperm : l.Perm ascending)
    (hascending : ascending.Pairwise fun a b => key a < key b) : S.sort l = ascending := by
  have hkeys : (ascending.map key).Nodup :=
    List.pairwise_map.mpr (hascending.imp fun hlt => hlt.ne)
  have hdistinct := List.inj_on_of_nodup_map hkeys
  have hall := (S.perm l).trans hperm
  refine List.Perm.eq_of_pairwise ?_ (S.sorted l) (hascending.imp fun hlt => hlt.le) hall
  intro a b ha hb hab hba
  exact hdistinct (hall.subset ha) hb (le_antisymm hab hba)

theorem mem_sort (S : KeySort key) {l : List α} {a : α} : a ∈ S.sort l ↔ a ∈ l :=
  (S.perm l).mem_iff

/-- Insertion sort meets the contract. -/
def insertion (key : α → β) : KeySort key where
  sort := List.insertionSort fun a b => key a ≤ key b
  perm := List.perm_insertionSort _
  sorted := by
    have htotal : Std.Total fun a b : α => key a ≤ key b := ⟨fun a b => le_total (key a) (key b)⟩
    have htrans : IsTrans α fun a b => key a ≤ key b := ⟨fun _ _ _ hab hbc => le_trans hab hbc⟩
    exact List.pairwise_insertionSort _

end KeySort

end MediaStream.Lib
