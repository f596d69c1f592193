import Mathlib.Data.List.Basic

/-!
A log of items from several sources that every reader follows from some point
on and up to some point, skipping its own items. Readers of one log agree on
the items of third parties over the stretch they share.
-/

namespace MediaStream.Lib.SharedLog

section Stretch

variable {ε : Type*}

/-- The entries at positions `lo ≤ i < hi`. -/
def between (log : List ε) (lo hi : Nat) : List ε :=
  (log.take hi).drop lo

theorem between_eq_nil (log : List ε) {lo hi : Nat} (h : hi ≤ lo) : between log lo hi = [] := by
  have hlen := List.length_take_le hi log
  exact List.drop_eq_nil_of_le (by omega)

/-- What is read up to a point does not change when the log grows. -/
theorem between_append {log : List ε} (more : List ε) (lo : Nat) {hi : Nat}
    (h : hi ≤ log.length) : between (log ++ more) lo hi = between log lo hi := by
  unfold between
  rw [List.take_append_of_le_length h]

theorem between_snoc {log : List ε} (entry : ε) {lo : Nat} (h : lo ≤ log.length) :
    between (log ++ [entry]) lo (log.length + 1) = between log lo log.length ++ [entry] := by
  unfold between
  rw [List.take_of_length_le (by simp), List.take_length, List.drop_append_of_le_length h]

theorem between_split (log : List ε) {lo middle hi : Nat} (hlo : lo ≤ middle)
    (hhi : middle ≤ hi) : between log lo hi = between log lo middle ++ between log middle hi := by
  unfold between
  rw [List.drop_take, List.drop_take, List.drop_take]
  have hsum : hi - lo = (middle - lo) + (hi - middle) := by omega
  have hdrop : middle = lo + (middle - lo) := by omega
  rw [hsum, List.take_add, List.drop_drop, ← hdrop]

end Stretch

variable {ι π : Type*} [DecidableEq ι]

def others (c : ι) (entries : List (ι × π)) : List (ι × π) :=
  entries.filter (·.1 ≠ c)

def ofSource (c : ι) (entries : List (ι × π)) : List π :=
  (entries.filter (·.1 = c)).map Prod.snd

@[simp] theorem others_append (c : ι) (first second : List (ι × π)) :
    others c (first ++ second) = others c first ++ others c second :=
  List.filter_append ..

theorem others_self (c : ι) (item : π) : others c [(c, item)] = [] := by
  simp [others]

theorem others_other {c source : ι} (item : π) (h : source ≠ c) :
    others c [(source, item)] = [(source, item)] := by
  simp [others, h]

theorem others_comm (c d : ι) (entries : List (ι × π)) :
    others c (others d entries) = others d (others c entries) :=
  List.filter_comm ..

@[simp] theorem ofSource_append (c : ι) (first second : List (ι × π)) :
    ofSource c (first ++ second) = ofSource c first ++ ofSource c second := by
  simp [ofSource]

theorem ofSource_self (c : ι) (item : π) : ofSource c [(c, item)] = [item] := by
  simp [ofSource]

theorem ofSource_other {c source : ι} (item : π) (h : source ≠ c) :
    ofSource c [(source, item)] = [] := by
  simp [ofSource, h]

/-- A stretch inside another one, with what a reader sees before and after it. -/
theorem others_between_within (log : List (ι × π)) (c d : ι) {lo hi start upto : Nat}
    (hlo : lo ≤ start) (hhi : upto ≤ hi) :
    others d (others c (between log start upto)) <:+: others d (others c (between log lo hi)) := by
  rcases Nat.le_total upto start with hempty | hne
  · rw [between_eq_nil log hempty]
    exact List.nil_infix
  · rw [between_split log hlo (Nat.le_trans hne hhi), between_split log hne hhi]
    simp only [others_append]
    exact ⟨_, _, List.append_assoc ..⟩

/-- Two readers see the items of third parties in one order: over the common
stretch of the log both read the same sequence without interruption. -/
theorem third_parties_agree (log : List (ι × π)) (c d : ι) (lo hi lo' hi' : Nat) :
    let common := others d (others c (between log (max lo lo') (min hi hi')))
    common <:+: others d (others c (between log lo hi)) ∧
      common <:+: others c (others d (between log lo' hi')) := by
  refine ⟨others_between_within log c d (Nat.le_max_left ..) (Nat.min_le_left ..), ?_⟩
  rw [others_comm c d]
  exact others_between_within log c d (Nat.le_max_right ..) (Nat.min_le_right ..)

end MediaStream.Lib.SharedLog
