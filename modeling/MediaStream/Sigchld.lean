import MediaStream.Lib.Interrupt

/-!
The handlers for `SIGCHLD` of the two servers. Both save `errno` and collect the
children that have terminated. That of `TCPS.cpp` restores `errno` after each
child, that of `TCPLBSr.cpp` at its end. A handler may run between any two steps
of `main`, which prints `errno` when `accept` has failed.
-/

namespace MediaStream

open Lib

def echild : Int32 := 10

/-- What the calls of `waitpid` in one run of a handler return, and leave in
`errno`. The last one returns no child. -/
inductive Waitpid where
  /-- 0, which leaves `errno` as it is. -/
  | zero
  /-- -1, with `ECHILD`. -/
  | error
  | child (pid : Nat) (pos : 0 < pid) (errno : Int32) (later : Waitpid)

namespace Waitpid

def children : Waitpid → List Nat
  | zero | error => []
  | child pid _ _ later => pid :: later.children

def fails : Waitpid → Bool
  | zero => false
  | error => true
  | child _ _ _ later => later.fails

end Waitpid

/-- What the handlers and `main` work on. -/
structure Reaper where
  errno : Int32
  /-- The children that have been waited for. -/
  reaped : List Nat
  /-- The values of `errno` that `perror` has found. -/
  printed : List Int32

def Reaper.reap (s : Reaper) (pid : Nat) (errno : Int32) : Reaper :=
  { s with errno := errno, reaped := s.reaped ++ [pid] }

/-- A call of `main` that fails, and the `perror` after it. -/
inductive MainStep where
  | fail (errno : Int32)
  | perror

def MainStep.run : MainStep → Reaper → Reaper
  | fail errno, s => { s with errno := errno }
  | perror, s => { s with printed := s.printed ++ [s.errno] }

namespace TCPS

/-- The loop, which restores `errno` in its body. -/
def reapLoop (savedErrno : Int32) : Waitpid → Reaper → Reaper
  | .zero, s => s
  | .error, s => { s with errno := echild }
  | .child pid _ errno later, s =>
    reapLoop savedErrno later { s.reap pid errno with errno := savedErrno }

def sigchldHandler (calls : Waitpid) (s : Reaper) : Reaper :=
  let savedErrno := s.errno
  reapLoop savedErrno calls s

theorem reapLoop_eq (calls : Waitpid) (s : Reaper) :
    reapLoop s.errno calls s =
      { s with
        errno := if calls.fails then echild else s.errno
        reaped := s.reaped ++ calls.children } := by
  induction calls generalizing s with
  | zero => simp [reapLoop, Waitpid.fails, Waitpid.children]
  | error => simp [reapLoop, Waitpid.fails, Waitpid.children]
  | child pid pos errno later ih =>
    have hlater := ih { s with reaped := s.reaped ++ [pid] }
    rw [List.append_assoc] at hlater
    exact hlater

/-- `errno` is not restored after the call that fails. -/
theorem sigchldHandler_eq (calls : Waitpid) (s : Reaper) :
    sigchldHandler calls s =
      { s with
        errno := if calls.fails then echild else s.errno
        reaped := s.reaped ++ calls.children } :=
  reapLoop_eq calls s

end TCPS

namespace TCPMeasure.Audio

/-- The loop with an empty body. -/
def reapLoop : Waitpid → Reaper → Reaper
  | .zero, s => s
  | .error, s => { s with errno := echild }
  | .child pid _ errno later, s => reapLoop later (s.reap pid errno)

def sigchldHandler (calls : Waitpid) (s : Reaper) : Reaper :=
  let savedErrno := s.errno
  { reapLoop calls s with errno := savedErrno }

theorem sigchldHandler_eq (calls : Waitpid) (s : Reaper) :
    sigchldHandler calls s = { s with reaped := s.reaped ++ calls.children } := by
  have hloop : ∀ errno, { reapLoop calls s with errno := errno } =
      { s with errno := errno, reaped := s.reaped ++ calls.children } := by
    induction calls generalizing s with
    | zero => simp [reapLoop, Waitpid.children]
    | error => simp [reapLoop, Waitpid.children]
    | child pid pos errno later ih =>
      intro saved
      have hlater := ih (s.reap pid errno) saved
      change _ = { s with errno := saved, reaped := s.reaped ++ [pid] ++ _ } at hlater
      rw [List.append_assoc] at hlater
      exact hlater
  exact hloop s.errno

end TCPMeasure.Audio

/-- The handlers reap the same children, and `errno` is left as it was. -/
structure HandlersAgree (calls : Waitpid) (s : Reaper) : Prop where
  reaped : (TCPS.sigchldHandler calls s).reaped = (TCPMeasure.Audio.sigchldHandler calls s).reaped
  tcps : (TCPS.sigchldHandler calls s).errno = s.errno
  audio : (TCPMeasure.Audio.sigchldHandler calls s).errno = s.errno

/-- The handlers agree exactly when the last call of `waitpid` does not fail, or
`errno` is `ECHILD` already. -/
theorem handlersAgree_iff (calls : Waitpid) (s : Reaper) :
    HandlersAgree calls s ↔ calls.fails = false ∨ s.errno = echild := by
  have htcps := TCPS.sigchldHandler_eq calls s
  have haudio := TCPMeasure.Audio.sigchldHandler_eq calls s
  constructor
  · intro h
    cases hfails : calls.fails with
    | false => exact Or.inl rfl
    | true =>
      have herrno := h.tcps
      rw [htcps, hfails] at herrno
      exact Or.inr herrno.symm
  · intro h
    have herrno : (if calls.fails then echild else s.errno) = s.errno := by
      rcases h with hzero | hechild
      · rw [hzero]
        rfl
      · rw [hechild, ite_self]
    rw [herrno] at htcps
    constructor
    · rw [htcps, haudio]
    · rw [htcps]
    · rw [haudio]

/-- A signal finds no children, while `errno` is `EINTR`. -/
theorem errno_lost : ¬HandlersAgree .error ⟨4, [], []⟩ := by
  intro h
  exact absurd h.tcps (by decide)

section Interrupted

variable {events : List (Interrupt.Event MainStep Waitpid)}

/-- Handlers that leave `errno` alone are not seen in what `main` prints. -/
theorem printed_undisturbed {handler : Waitpid → Reaper → Reaper}
    (hhandler : ∀ calls, .handler calls ∈ events → ∀ s,
      (handler calls s).errno = s.errno ∧ (handler calls s).printed = s.printed) (s : Reaper) :
    (Interrupt.run MainStep.run handler events s).printed =
      (Interrupt.run MainStep.run handler (Interrupt.program events) s).printed := by
  have hsteps : ∀ (a : MainStep) (s s' : Reaper), (s.errno, s.printed) = (s'.errno, s'.printed) →
      ((a.run s).errno, (a.run s).printed) = ((a.run s').errno, (a.run s').printed) := by
    intro a s s' hsame
    obtain ⟨herrno, hprinted⟩ := Prod.mk.inj hsame
    cases a with
    | fail errno => exact Prod.ext rfl hprinted
    | perror =>
      apply Prod.ext herrno
      change s.printed ++ [s.errno] = s'.printed ++ [s'.errno]
      rw [herrno, hprinted]
  have hhandlers : ∀ calls, .handler calls ∈ events → ∀ s : Reaper,
      ((handler calls s).errno, (handler calls s).printed) = (s.errno, s.printed) := by
    intro calls hcalls s
    obtain ⟨herrno, hprinted⟩ := hhandler calls hcalls s
    exact Prod.ext herrno hprinted
  have hview := Interrupt.view_run (fun s : Reaper => (s.errno, s.printed)) hsteps hhandlers
    (rfl : (s.errno, s.printed) = (s.errno, s.printed))
  exact (Prod.mk.inj hview).2

/-- Whenever signals come, `main` of `TCPLBSr.cpp` prints why its calls have failed. -/
theorem TCPMeasure.Audio.printed_eq (s : Reaper) :
    (Interrupt.run MainStep.run sigchldHandler events s).printed =
      (Interrupt.run MainStep.run sigchldHandler (Interrupt.program events) s).printed := by
  apply printed_undisturbed
  intro calls _ s
  rw [sigchldHandler_eq]
  exact ⟨rfl, rfl⟩

/-- `main` of `TCPS.cpp` does, if no signal comes without children. -/
theorem TCPS.printed_eq (h : ∀ calls, .handler calls ∈ events → calls.fails = false)
    (s : Reaper) :
    (Interrupt.run MainStep.run sigchldHandler events s).printed =
      (Interrupt.run MainStep.run sigchldHandler (Interrupt.program events) s).printed := by
  apply printed_undisturbed
  intro calls hcalls s
  rw [sigchldHandler_eq, h calls hcalls]
  exact ⟨rfl, rfl⟩

end Interrupted

end MediaStream
