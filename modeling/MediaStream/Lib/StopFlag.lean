import MediaStream.Lib.Machine

/-!
Workers that share a flag which tells them to stop. The flag is never cleared,
and the step with which a worker returns does not touch it. A worker has then
left the flag set, in all states of a run, exactly when the flag is set before
every step with which one returns.
-/

namespace MediaStream.Lib

variable {σ α : Type*} {M : Machine σ α} {flag : σ → Bool} {done : σ → Prop}
  {returns : σ → α → Prop} {start finish : σ} {actions : List α}

structure StopFlag (M : Machine σ α) (flag : σ → Bool) (done : σ → Prop)
    (returns : σ → α → Prop) : Prop where
  stays : ∀ s a next, M.step s a = some next → flag s = true → flag next = true
  /-- Nobody has returned who does not return in some step. -/
  of_done : ∀ s a next, M.step s a = some next → done next → done s ∨ returns s a
  of_returns : ∀ s a next, M.step s a = some next → returns s a →
    done next ∧ flag next = flag s

namespace StopFlag

theorem step_iff (h : StopFlag M flag done returns) {s next : σ} {a : α}
    (hstep : M.step s a = some next) (hgood : done s → flag s = true) :
    (done next → flag next = true) ↔ (returns s a → flag s = true) := by
  constructor
  · intro hnext hreturns
    obtain ⟨hdone, hsame⟩ := h.of_returns s a next hstep hreturns
    exact hsame.symm.trans (hnext hdone)
  · intro hset hdone
    rcases h.of_done s a next hstep hdone with hbefore | hreturns
    · exact h.stays s a next hstep (hgood hbefore)
    · exact h.stays s a next hstep (hset hreturns)

theorem throughout_iff (h : StopFlag M flag done returns) (hstart : ¬done start)
    (hrun : M.run start actions = some finish) :
    M.Throughout (fun s => done s → flag s = true) start actions ↔
      M.Respects (fun s a => returns s a → flag s = true) start actions := by
  apply Machine.throughout_iff_respects_of_step _ _ hrun
  · intro s a next hgood hstep
    exact h.step_iff hstep hgood
  · intro hdone
    exact absurd hdone hstart

end StopFlag

end MediaStream.Lib
