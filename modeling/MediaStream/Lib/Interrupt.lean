import Mathlib.Data.List.Basic

/-!
A program between whose steps handlers run. Handlers that leave alone what the
program goes by are invisible: the program does what it does without them.
-/

namespace MediaStream.Lib.Interrupt

variable {α ι σ β : Type*}

/-- A step of the program, or a run of a handler. -/
inductive Event (α ι : Type*) where
  | step (a : α)
  | handler (i : ι)

def run (step : α → σ → σ) (handle : ι → σ → σ) : List (Event α ι) → σ → σ
  | [], s => s
  | .step a :: rest, s => run step handle rest (step a s)
  | .handler i :: rest, s => run step handle rest (handle i s)

def program : List (Event α ι) → List (Event α ι)
  | [] => []
  | .step a :: rest => .step a :: program rest
  | .handler _ :: rest => program rest

theorem view_run (view : σ → β) {step : α → σ → σ} {handle : ι → σ → σ}
    {events : List (Event α ι)}
    (hstep : ∀ a s s', view s = view s' → view (step a s) = view (step a s'))
    (hhandle : ∀ i, .handler i ∈ events → ∀ s, view (handle i s) = view s) {s s' : σ}
    (h : view s = view s') :
    view (run step handle events s) = view (run step handle (program events) s') := by
  induction events generalizing s s' with
  | nil => exact h
  | cons event rest ih =>
    have hlater : ∀ i, .handler i ∈ rest → ∀ s, view (handle i s) = view s := by
      intro i hi
      exact hhandle i (List.mem_cons_of_mem _ hi)
    cases event with
    | step a => exact ih hlater (hstep a s s' h)
    | handler i =>
      have hsame : view (handle i s) = view s := hhandle i List.mem_cons_self s
      exact ih hlater (hsame.trans h)

end MediaStream.Lib.Interrupt
