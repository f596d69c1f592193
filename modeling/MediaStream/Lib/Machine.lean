import Mathlib.Data.List.Basic

/-!
Executable transition machines. A machine is a partial step function; the
action argument carries every choice the environment or the scheduler makes,
so a run is determined by its list of actions and "every interleaving" is
"every list of actions that the machine accepts".

A monitor reads the actions of a machine without influencing it. It is the
place for history variables: what has been received, sent or logged so far.
-/

namespace MediaStream.Lib

variable {σ α ω : Type*}

structure Machine (σ α : Type*) where
  step : σ → α → Option σ

namespace Machine

def run (M : Machine σ α) : σ → List α → Option σ
  | s, [] => some s
  | s, a :: rest => (M.step s a).bind fun next => M.run next rest

/-- The states some list of actions leads to. -/
def Reaches (M : Machine σ α) (start finish : σ) : Prop :=
  ∃ actions, M.run start actions = some finish

@[simp] theorem run_nil (M : Machine σ α) (s : σ) : M.run s [] = some s := rfl

@[simp] theorem run_cons (M : Machine σ α) (s : σ) (a : α) (rest : List α) :
    M.run s (a :: rest) = (M.step s a).bind fun next => M.run next rest := rfl

theorem run_append (M : Machine σ α) (s : σ) (first second : List α) :
    M.run s (first ++ second) =
      (M.run s first).bind fun middle => M.run middle second := by
  induction first generalizing s with
  | nil => rfl
  | cons a rest ih =>
    simp only [List.cons_append, run_cons, Option.bind_assoc]
    exact congrArg _ (funext fun next => ih next)

theorem Reaches.refl (M : Machine σ α) (s : σ) : M.Reaches s s := ⟨[], rfl⟩

theorem Reaches.tail {M : Machine σ α} {s middle finish : σ} {a : α}
    (h : M.Reaches s middle) (hstep : M.step middle a = some finish) :
    M.Reaches s finish := by
  obtain ⟨actions, hrun⟩ := h
  refine ⟨actions ++ [a], ?_⟩
  rw [run_append, hrun]
  simp [hstep]

theorem Reaches.trans {M : Machine σ α} {s middle finish : σ} (h : M.Reaches s middle)
    (h' : M.Reaches middle finish) : M.Reaches s finish := by
  obtain ⟨first, hfirst⟩ := h
  obtain ⟨second, hsecond⟩ := h'
  refine ⟨first ++ second, ?_⟩
  rw [run_append, hfirst]
  exact hsecond

/-- What every step preserves, every run preserves. -/
theorem run_preserves {M : Machine σ α} {P : σ → Prop}
    (hstep : ∀ s a next, P s → M.step s a = some next → P next)
    {start finish : σ} {actions : List α} (hstart : P start)
    (hrun : M.run start actions = some finish) : P finish := by
  induction actions generalizing start with
  | nil =>
    simp only [run_nil, Option.some.injEq] at hrun
    exact hrun ▸ hstart
  | cons a rest ih =>
    simp only [run_cons, Option.bind_eq_some_iff] at hrun
    obtain ⟨next, hnext, hrest⟩ := hrun
    exact ih (hstep start a next hstart hnext) hrest

/-- As before, about the state and what the actions so far have contributed. -/
theorem run_collects {β : Type*} {M : Machine σ α} {f : α → List β} {P : σ → List β → Prop}
    (hstep : ∀ s a next seen, P s seen → M.step s a = some next → P next (seen ++ f a))
    {start finish : σ} {actions : List α} {seen : List β} (hstart : P start seen)
    (hrun : M.run start actions = some finish) : P finish (seen ++ actions.flatMap f) := by
  induction actions generalizing start seen with
  | nil =>
    simp only [run_nil, Option.some.injEq] at hrun
    rw [List.flatMap_nil, List.append_nil]
    exact hrun ▸ hstart
  | cons a rest ih =>
    simp only [run_cons, Option.bind_eq_some_iff] at hrun
    obtain ⟨next, hnext, hrest⟩ := hrun
    rw [List.flatMap_cons, ← List.append_assoc]
    exact ih (hstep start a next seen hstart hnext) hrest

theorem Reaches.preserves {M : Machine σ α} {P : σ → Prop}
    (hstep : ∀ s a next, P s → M.step s a = some next → P next)
    {start finish : σ} (h : M.Reaches start finish) (hstart : P start) :
    P finish := by
  obtain ⟨actions, hrun⟩ := h
  exact run_preserves hstep hstart hrun

/-- What some step always brings nearer, some run reaches. -/
theorem reaches_of_progress {M : Machine σ α} {P done : σ → Prop} (measure : σ → Nat)
    (hprogress : ∀ s, P s → ¬done s →
      ∃ a next, M.step s a = some next ∧ P next ∧ measure next < measure s)
    {start : σ} (hstart : P start) :
    ∃ finish, M.Reaches start finish ∧ P finish ∧ done finish := by
  induction hbound : measure start using Nat.strongRecOn generalizing start with
  | ind bound ih =>
    by_cases hdone : done start
    · exact ⟨start, .refl M start, hstart, hdone⟩
    · obtain ⟨a, next, hstep, hnext, hless⟩ := hprogress start hstart hdone
      obtain ⟨finish, hreaches, hfinish⟩ := ih _ (hbound ▸ hless) hnext rfl
      exact ⟨finish, ((Reaches.refl M start).tail hstep).trans hreaches, hfinish⟩

/-- Steps that all take something from a measure are at most that many. -/
theorem length_le_of_decreases {M : Machine σ α} {measure : σ → Nat}
    (hless : ∀ s a next, M.step s a = some next → measure next < measure s) {start finish : σ}
    {actions : List α} (hrun : M.run start actions = some finish) :
    actions.length ≤ measure start := by
  induction actions generalizing start with
  | nil => exact Nat.zero_le _
  | cons a rest ih =>
    simp only [run_cons, Option.bind_eq_some_iff] at hrun
    obtain ⟨next, hnext, hrest⟩ := hrun
    exact Nat.succ_le_of_lt (Nat.lt_of_le_of_lt (ih hrest) (hless start a next hnext))

/-- The machine together with a history that `watch` extends at every step
from the state and the action. -/
def monitored (M : Machine σ α) (watch : σ → α → ω → ω) : Machine (σ × ω) α where
  step p a := (M.step p.1 a).map fun next => (next, watch p.1 a p.2)

theorem monitored_step {M : Machine σ α} {watch : σ → α → ω → ω}
    {p q : σ × ω} {a : α} :
    (M.monitored watch).step p a = some q ↔
      M.step p.1 a = some q.1 ∧ watch p.1 a p.2 = q.2 := by
  simp only [monitored, Option.map_eq_some_iff]
  constructor
  · rintro ⟨next, hnext, rfl⟩
    exact ⟨hnext, rfl⟩
  · rintro ⟨hnext, hwatch⟩
    exact ⟨q.1, hnext, by rw [hwatch]⟩

/-- A monitor never removes behaviour: every run of the machine is the state
part of a monitored run. -/
theorem monitored_complete {M : Machine σ α} (watch : σ → α → ω → ω)
    {start finish : σ} {actions : List α} (history : ω)
    (hrun : M.run start actions = some finish) :
    ∃ final, (M.monitored watch).run (start, history) actions =
      some (finish, final) := by
  induction actions generalizing start history with
  | nil =>
    simp only [run_nil, Option.some.injEq] at hrun
    exact ⟨history, by simp [hrun]⟩
  | cons a rest ih =>
    simp only [run_cons, Option.bind_eq_some_iff] at hrun
    obtain ⟨next, hnext, hrest⟩ := hrun
    obtain ⟨final, hfinal⟩ := ih (watch start a history) hrest
    refine ⟨final, ?_⟩
    simp only [run_cons, Option.bind_eq_some_iff]
    exact ⟨(next, watch start a history), monitored_step.mpr ⟨hnext, rfl⟩, hfinal⟩

def restrict (M : Machine σ α) (allowed : α → Bool) : Machine σ α where
  step s a := if allowed a then M.step s a else none

theorem restrict_step {M : Machine σ α} {allowed : α → Bool} {s next : σ} {a : α} :
    (M.restrict allowed).step s a = some next ↔ allowed a = true ∧ M.step s a = some next := by
  simp only [restrict, Option.ite_none_right_eq_some]

theorem Reaches.of_restrict {M : Machine σ α} {allowed : α → Bool} {start finish : σ}
    (h : (M.restrict allowed).Reaches start finish) : M.Reaches start finish := by
  apply h.preserves (P := M.Reaches start)
  · intro s a next hs hstep
    exact hs.tail (restrict_step.mp hstep).2
  · exact .refl M start

section Along

variable {M : Machine σ α} {Q I : σ → Prop} {P : σ → α → Prop} {start finish : σ}
  {actions : List α}

/-- `Q` holds in every state of the run, the first and the last included. -/
def Throughout (M : Machine σ α) (Q : σ → Prop) : σ → List α → Prop
  | s, [] => Q s
  | s, a :: rest => Q s ∧ ∀ next, M.step s a = some next → M.Throughout Q next rest

/-- Every step of the run meets `P` in the state it is taken from. -/
def Respects (M : Machine σ α) (P : σ → α → Prop) : σ → List α → Prop
  | _, [] => True
  | s, a :: rest => P s a ∧ ∀ next, M.step s a = some next → M.Respects P next rest

theorem Throughout.first (h : M.Throughout Q start actions) : Q start := by
  cases actions with
  | nil => exact h
  | cons a rest => exact h.1

theorem Throughout.last (h : M.Throughout Q start actions)
    (hrun : M.run start actions = some finish) : Q finish := by
  induction actions generalizing start with
  | nil =>
    simp only [run_nil, Option.some.injEq] at hrun
    exact hrun ▸ h
  | cons a rest ih =>
    simp only [run_cons, Option.bind_eq_some_iff] at hrun
    obtain ⟨next, hnext, hrest⟩ := hrun
    exact ih (h.2 next hnext) hrest

/-- What every step of the allowed kinds preserves holds throughout. -/
theorem throughout_of_steps {R : α → Prop}
    (hstep : ∀ s a next, I s → R a → M.step s a = some next → I next)
    (hgood : ∀ s, I s → Q s) (hstart : I start) (hactions : ∀ a ∈ actions, R a) :
    M.Throughout Q start actions := by
  induction actions generalizing start with
  | nil => exact hgood start hstart
  | cons a rest ih =>
    obtain ⟨hfirst, hrest⟩ := List.forall_mem_cons.mp hactions
    refine ⟨hgood start hstart, fun next hnext => ?_⟩
    exact ih (hstep start a next hstart hfirst hnext) hrest

theorem respects_of_forall (h : ∀ s a, P s a) (start : σ) (actions : List α) :
    M.Respects P start actions := by
  induction actions generalizing start with
  | nil => trivial
  | cons a rest ih => exact ⟨h start a, fun next _ => ih next⟩

theorem respects_iff_forall_mem {R : α → Prop} (hrun : M.run start actions = some finish) :
    M.Respects (fun _ a => R a) start actions ↔ ∀ a ∈ actions, R a := by
  induction actions generalizing start with
  | nil => simp [Respects]
  | cons a rest ih =>
    simp only [run_cons, Option.bind_eq_some_iff] at hrun
    obtain ⟨next, hnext, hrest⟩ := hrun
    simp [Respects, hnext, ih hrest]

/-- Where `P` says of each step whether it keeps `Q`, the runs that stay within
`Q` are those whose steps all meet `P`. The invariant may rely on `Q`. -/
theorem throughout_iff_respects
    (hstep : ∀ s a next, I s → Q s → M.step s a = some next → (Q next ↔ P s a))
    (hinv : ∀ s a next, I s → Q s → M.step s a = some next → Q next → I next)
    (hstart : I start) (hgood : Q start) (hrun : M.run start actions = some finish) :
    M.Throughout Q start actions ↔ M.Respects P start actions := by
  induction actions generalizing start with
  | nil => exact ⟨fun _ => trivial, fun _ => hgood⟩
  | cons a rest ih =>
    simp only [run_cons, Option.bind_eq_some_iff] at hrun
    obtain ⟨next, hnext, hrest⟩ := hrun
    have hiff := hstep start a next hstart hgood hnext
    have honly : ∀ other, M.step start a = some other → other = next := by
      intro other hother
      exact Option.some.inj (hother.symm.trans hnext)
    constructor
    · intro h
      have hkept := h.2 next hnext
      refine ⟨hiff.mp hkept.first, fun other hother => ?_⟩
      rw [honly other hother]
      exact (ih (hinv _ _ _ hstart hgood hnext hkept.first) hkept.first hrest).mp hkept
    · intro h
      have hnow := hiff.mpr h.1
      refine ⟨hgood, fun other hother => ?_⟩
      rw [honly other hother]
      exact (ih (hinv _ _ _ hstart hgood hnext hnow) hnow hrest).mpr (h.2 next hnext)

/-- The same where `Q` alone decides. -/
theorem throughout_iff_respects_of_step
    (hstep : ∀ s a next, Q s → M.step s a = some next → (Q next ↔ P s a))
    (hgood : Q start) (hrun : M.run start actions = some finish) :
    M.Throughout Q start actions ↔ M.Respects P start actions := by
  have hstart : True := trivial
  apply throughout_iff_respects (I := fun _ => True) _ _ hstart hgood hrun
  · intro s a next _ hs hnext
    exact hstep s a next hs hnext
  · intro s a next _ _ _ _
    trivial

/-- Conditions on the steps may be exchanged where an invariant makes them equal. -/
theorem respects_congr {P' : σ → α → Prop}
    (hinv : ∀ s a next, I s → M.step s a = some next → I next)
    (hiff : ∀ s a next, I s → M.step s a = some next → (P s a ↔ P' s a))
    (hstart : I start) (hrun : M.run start actions = some finish) :
    M.Respects P start actions ↔ M.Respects P' start actions := by
  induction actions generalizing start with
  | nil => exact Iff.rfl
  | cons a rest ih =>
    simp only [run_cons, Option.bind_eq_some_iff] at hrun
    obtain ⟨next, hnext, hrest⟩ := hrun
    have hlater := ih (hinv start a next hstart hnext) hrest
    simp [Respects, hnext, hiff start a next hstart hnext, hlater]

end Along

end Machine

end MediaStream.Lib
