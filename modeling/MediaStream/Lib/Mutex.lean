import Mathlib.Logic.Basic

/-!
Lock discipline over arbitrary threads: the owner field of a mutex names
exactly the thread that is inside a critical section. The three rules below
are the three things a step can do to it.
-/

namespace MediaStream.Lib.Mutex

variable {θ : Type*} {owner : Option θ} {inside after : θ → Prop} {t u : θ}

/-- The mutex is owned exactly by the thread inside its critical section. -/
def Held (owner : Option θ) (inside : θ → Prop) : Prop :=
  ∀ t, owner = some t ↔ inside t

theorem Held.exclusive (h : Held owner inside) (ht : inside t) (hu : inside u) : t = u := by
  have hown := (h t).mpr ht
  rw [(h u).mpr hu] at hown
  exact (Option.some.inj hown).symm

theorem Held.outside (h : Held owner inside) (hfree : owner = none) (t : θ) : ¬ inside t := by
  intro ht
  rw [hfree] at h
  cases (h t).mpr ht

theorem Held.move (h : Held owner inside) (hsame : ∀ u, after u ↔ inside u) :
    Held owner after := fun u => (h u).trans (hsame u).symm

theorem Held.acquire (h : Held owner inside) (hfree : owner = none)
    (hafter : ∀ u, after u ↔ u = t ∨ inside u) : Held (some t) after := by
  intro u
  rw [hafter, Option.some.injEq]
  constructor
  · intro htu
    exact Or.inl htu.symm
  · rintro (hut | hin)
    · exact hut.symm
    · exact absurd hin (h.outside hfree u)

theorem Held.release (h : Held owner inside) (ht : inside t)
    (hafter : ∀ u, after u ↔ u ≠ t ∧ inside u) : Held none after := by
  intro u
  rw [hafter]
  constructor
  · intro hnone
    cases hnone
  · rintro ⟨hne, hin⟩
    exact absurd (h.exclusive hin ht) hne

/-- What a step of `t` may do to the mutex: leave it alone, take it while it is
free, or release it. The last two arguments say whether `t` is inside before and
after the step. -/
def Moves (t : θ) (owner next : Option θ) (now soon : Prop) : Prop :=
  (next = owner ∧ (soon ↔ now)) ∨ (owner = none ∧ next = some t ∧ soon) ∨
    (now ∧ next = none ∧ ¬soon)

/-- A discipline that every thread keeps in its own steps is kept by all of them. -/
theorem Held.moves {later : Option θ} (h : Held owner inside)
    (hmoves : Moves t owner later (inside t) (after t))
    (hothers : ∀ u, u ≠ t → (after u ↔ inside u)) : Held later after := by
  rcases hmoves with ⟨hsame, hinside⟩ | ⟨hfree, htaken, hinside⟩ | ⟨hinside, hreleased, houtside⟩
  · rw [hsame]
    apply h.move
    intro u
    by_cases hut : u = t
    · rw [hut]
      exact hinside
    · exact hothers u hut
  · rw [htaken]
    apply h.acquire hfree
    intro u
    by_cases hut : u = t
    · rw [hut]
      simp [hinside]
    · rw [hothers u hut]
      simp [hut]
  · rw [hreleased]
    apply h.release hinside
    intro u
    by_cases hut : u = t
    · rw [hut]
      simp [houtside]
    · rw [hothers u hut]
      simp [hut]

end MediaStream.Lib.Mutex
