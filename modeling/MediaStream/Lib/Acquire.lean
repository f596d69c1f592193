import Mathlib.Data.List.Basic

/-!
Attempts to acquire a resource, one after the other until one succeeds. An
attempt that fails gives back what it has acquired; then so does a series of
attempts, and of one that succeeds only the resource returned is held.
-/

namespace MediaStream.Lib.Acquire

variable {δ : Type*}

inductive Event (δ : Type*) where
  | acquire (d : δ)
  | use (d : δ)
  | release (d : δ)

def Event.isUse : Event δ → Bool
  | use _ => true
  | _ => false

variable [DecidableEq δ]

def hold (held : List δ) : Event δ → List δ
  | .acquire d => d :: held
  | .use _ => held
  | .release d => held.erase d

def held (events : List (Event δ)) : List δ := events.foldl hold []

/-- An attempt that uses what it acquires at most once, and holds its result only. -/
structure Attempt (δ : Type*) [DecidableEq δ] where
  result : Option δ
  events : List (Event δ)
  holds : ∀ before, events.foldl hold before = result.toList ++ before
  uses : events.countP Event.isUse ≤ 1

namespace Attempt

def refused : Attempt δ := ⟨none, [], fun _ => rfl, by simp⟩

def unused (d : δ) : Attempt δ :=
  ⟨none, [.acquire d, .release d], fun _ => List.erase_cons_head .., by simp [Event.isUse]⟩

def failed (d : δ) : Attempt δ :=
  ⟨none, [.acquire d, .use d, .release d], fun _ => List.erase_cons_head ..,
    by simp [List.countP_cons, Event.isUse]⟩

def successful (d : δ) : Attempt δ :=
  ⟨some d, [.acquire d, .use d], fun _ => rfl, by simp [Event.isUse]⟩

end Attempt

/-- The first attempt that succeeds is the last one made. -/
def firstSuccess : List (Attempt δ) → Option δ × List (Event δ)
  | [] => (none, [])
  | a :: rest =>
    match a.result with
    | some d => (some d, a.events)
    | none => ((firstSuccess rest).1, a.events ++ (firstSuccess rest).2)

/-- What a series of attempts comes to: the resource of the first that succeeds,
or none if all of them fail, and nothing else is held. -/
structure Clean (results : List (Option δ)) (series : Option δ × List (Event δ)) : Prop where
  uses : series.2.countP Event.isUse ≤ results.length
  success : ∀ d, series.1 = some d →
    (∃ before after, results = before ++ some d :: after ∧ ∀ r ∈ before, r = none) ∧
      held series.2 = [d]
  failure : series.1 = none → (∀ r ∈ results, r = none) ∧ held series.2 = []

theorem firstSuccess_cons_none {a : Attempt δ} (h : a.result = none) (rest : List (Attempt δ)) :
    firstSuccess (a :: rest) = ((firstSuccess rest).1, a.events ++ (firstSuccess rest).2) := by
  rw [firstSuccess, h]

theorem firstSuccess_cons_some {a : Attempt δ} {d : δ} (h : a.result = some d)
    (rest : List (Attempt δ)) : firstSuccess (a :: rest) = (some d, a.events) := by
  rw [firstSuccess, h]

theorem holds_firstSuccess (attempts : List (Attempt δ)) (before : List δ) :
    (firstSuccess attempts).2.foldl hold before = (firstSuccess attempts).1.toList ++ before := by
  induction attempts generalizing before with
  | nil => rfl
  | cons a rest ih =>
    cases h : a.result with
    | none =>
      rw [firstSuccess_cons_none h, List.foldl_append, a.holds, h]
      exact ih before
    | some d => rw [firstSuccess_cons_some h, a.holds, h]

theorem uses_firstSuccess_le (attempts : List (Attempt δ)) :
    (firstSuccess attempts).2.countP Event.isUse ≤ attempts.length := by
  induction attempts with
  | nil => exact Nat.zero_le _
  | cons a rest ih =>
    have ha := a.uses
    rw [List.length_cons]
    cases h : a.result with
    | none =>
      rw [firstSuccess_cons_none h, List.countP_append]
      omega
    | some d =>
      rw [firstSuccess_cons_some h]
      exact Nat.le_trans ha (Nat.succ_le_succ (Nat.zero_le _))

theorem result_firstSuccess (attempts : List (Attempt δ)) :
    (firstSuccess attempts).1 = (attempts.map Attempt.result).findSome? id := by
  induction attempts with
  | nil => rfl
  | cons a rest ih =>
    rw [List.map_cons, List.findSome?_cons]
    cases h : a.result with
    | none => exact (congrArg Prod.fst (firstSuccess_cons_none h rest)).trans ih
    | some d => exact congrArg Prod.fst (firstSuccess_cons_some h rest)

theorem clean_firstSuccess (attempts : List (Attempt δ)) :
    Clean (attempts.map Attempt.result) (firstSuccess attempts) := by
  have hheld : held (firstSuccess attempts).2 = (firstSuccess attempts).1.toList :=
    (holds_firstSuccess attempts []).trans (List.append_nil _)
  constructor
  case uses =>
    rw [List.length_map]
    exact uses_firstSuccess_le attempts
  case success =>
    intro d hd
    constructor
    · rw [result_firstSuccess] at hd
      obtain ⟨before, r, after, hsplit, hr, hbefore⟩ := List.findSome?_eq_some_iff.mp hd
      exact ⟨before, after, by rw [hsplit, ← hr]; rfl, hbefore⟩
    · rw [hheld, hd]
      rfl
  case failure =>
    intro hnone
    constructor
    · rw [result_firstSuccess] at hnone
      exact List.findSome?_eq_none_iff.mp hnone
    · rw [hheld, hnone]
      rfl

end MediaStream.Lib.Acquire
