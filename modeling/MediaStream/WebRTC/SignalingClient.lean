import Mathlib.Algebra.Ring.Nat
import MediaStream.Lib.Machine

/-!
`SignalingClient.cpp`: the reading side from `connect` on. `ioc_.run()` is called
on a detached thread. It runs the handlers and returns for good when there is no
outstanding work; that work is the `async_read` which `read` starts and each
handler starts anew. `connect` starts the thread first.
-/

namespace MediaStream.WebRTC

open Lib

/-- Program points of `connect`. -/
inductive Connect where
  /-- At the construction of the detached thread. -/
  | thread
  /-- At `read()`. -/
  | read
  | done
  deriving DecidableEq

/-- The detached thread. -/
inductive Runner where
  | notStarted
  /-- In `ioc_.run()`, about to look for outstanding work. -/
  | check
  /-- In `ioc_.run()`, with work outstanding. -/
  | wait
  | returned
  deriving DecidableEq

structure SignalingClient where
  connect : Connect
  runner : Runner
  /-- There is an `async_read` whose handler has not returned. -/
  reading : Bool
  buffer : List UInt8
  /-- A callback has been set. -/
  onMessage : Bool
  /-- The messages whose handler has not run. -/
  incoming : List (List UInt8)
  /-- The bytes of the first of them that have been read. -/
  filled : Nat
  /-- The calls of the callback. -/
  calls : List (List UInt8)
  /-- A handler has been given an error. -/
  failed : Bool

inductive Act where
  /-- The next statement of `connect`. -/
  | connect
  | check
  /-- `n` more bytes of a message are read. -/
  | fill (n : Nat)
  /-- The handler runs for a message. -/
  | message
  /-- The handler runs with an error. -/
  | error
  deriving DecidableEq

namespace SignalingClient

/-- After the handshake, with a callback. -/
def init (messages : List (List UInt8)) : SignalingClient where
  connect := .thread
  runner := .notStarted
  reading := false
  buffer := []
  onMessage := true
  incoming := messages
  filled := 0
  calls := []
  failed := false

def read (s : SignalingClient) : SignalingClient := { s with reading := true }

def handler (s : SignalingClient) : SignalingClient :=
  let message := s.buffer
  { s with
    calls := if s.onMessage then s.calls ++ [message] else s.calls
    buffer := s.buffer.drop s.buffer.length }.read

def step (s : SignalingClient) : Act → Option SignalingClient
  | .connect => match s.connect with
    | .thread => some { s with connect := .read, runner := .check }
    | .read => some { s.read with connect := .done }
    | .done => none
  | .check =>
    if s.runner = .check then some { s with runner := if s.reading then .wait else .returned }
    else none
  | .fill n => match s.incoming with
    | m :: _ =>
      if s.runner = .wait ∧ s.reading = true ∧ 0 < n ∧ s.filled + n ≤ m.length then
        some { s with
          runner := .check
          buffer := s.buffer ++ (m.drop s.filled).take n
          filled := s.filled + n }
      else none
    | [] => none
  | .message => match s.incoming with
    | m :: rest =>
      if s.runner = .wait ∧ s.reading = true ∧ s.filled = m.length then
        some { s with runner := .check, reading := false, incoming := rest, filled := 0 }.handler
      else none
    | [] => none
  | .error =>
    if s.runner = .wait ∧ s.reading = true then
      some { s with runner := .check, reading := false, failed := true }
    else none

def machine : Machine SignalingClient Act := ⟨step⟩

/-- The callback has had the first messages, each once and byte for byte, and it
can still come to have all of them unless a read has failed. -/
structure Delivers (messages : List (List UInt8)) (s : SignalingClient) : Prop where
  calls : s.calls <+: messages
  rest : s.failed = false → ∃ finish, machine.Reaches s finish ∧ finish.calls = messages

/-- `ioc_.run()` looks for work only after `connect` has called `read`, unless there
is nothing to deliver. -/
def ReadFirst (messages : List (List UInt8)) (s : SignalingClient) (a : Act) : Prop :=
  a = .check → s.connect = .done ∨ messages = []

structure Intact (messages : List (List UInt8)) (s : SignalingClient) : Prop where
  onMessage : s.onMessage = true
  split : messages = s.calls ++ s.incoming
  buffer : ∀ m rest, s.incoming = m :: rest → s.buffer = m.take s.filled ∧ s.filled ≤ m.length
  early : s.connect ≠ .done →
    s.reading = false ∧ s.failed = false ∧ s.calls = [] ∧ s.runner ≠ .wait
  started : s.connect = .done → s.reading = true ∨ s.failed = true
  waiting : s.runner = .wait → s.reading = true
  running : s.runner = .notStarted ↔ s.connect = .thread

/-- `ioc_.run()` has returned, and there are messages left. -/
def Deaf (s : SignalingClient) : Prop :=
  s.runner = .returned ∧ s.failed = false ∧ s.incoming ≠ []

def remaining (s : SignalingClient) : Nat :=
  (match s.connect with | .thread => 5 | .read => 3 | .done => 0) +
    (if s.runner = .check then 1 else 0) + (if s.reading then 2 else 0) +
    2 * ((s.incoming.map fun m => m.length + 1).sum - s.filled)

section Step

variable {messages : List (List UInt8)} {s next : SignalingClient} {a : Act}

/-- What a step can do. -/
theorem step_cases (h : s.step a = some next) :
    (a = .connect ∧ s.connect = .thread ∧ next = { s with connect := .read, runner := .check }) ∨
    (a = .connect ∧ s.connect = .read ∧ next = { s.read with connect := .done }) ∨
    (a = .check ∧ s.runner = .check ∧
      next = { s with runner := if s.reading then .wait else .returned }) ∨
    (∃ n m rest, a = .fill n ∧ s.incoming = m :: rest ∧ s.runner = .wait ∧ 0 < n ∧
      s.filled + n ≤ m.length ∧ next = { s with
        runner := .check
        buffer := s.buffer ++ (m.drop s.filled).take n
        filled := s.filled + n }) ∨
    (∃ m rest, a = .message ∧ s.incoming = m :: rest ∧ s.runner = .wait ∧ s.reading = true ∧
      s.filled = m.length ∧ next =
        { s with runner := .check, reading := false, incoming := rest, filled := 0 }.handler) ∨
    a = .error ∧ s.runner = .wait ∧ s.reading = true ∧
      next = { s with runner := .check, reading := false, failed := true } := by
  cases a with
  | connect =>
    cases hpc : s.connect <;> simp only [step, hpc, reduceCtorEq, Option.some.injEq] at h
    case thread => exact Or.inl ⟨rfl, rfl, h.symm⟩
    case read => exact Or.inr (Or.inl ⟨rfl, rfl, h.symm⟩)
  | check =>
    simp only [step, Option.ite_none_right_eq_some, Option.some.injEq] at h
    exact Or.inr (Or.inr (Or.inl ⟨rfl, h.1, h.2.symm⟩))
  | fill n =>
    cases hincoming : s.incoming <;>
      simp only [step, hincoming, reduceCtorEq, Option.ite_none_right_eq_some,
        Option.some.injEq] at h
    case cons m rest =>
      obtain ⟨⟨hwait, -, hpos, hle⟩, rfl⟩ := h
      exact Or.inr (Or.inr (Or.inr (Or.inl ⟨n, m, rest, rfl, rfl, hwait, hpos, hle, rfl⟩)))
  | message =>
    cases hincoming : s.incoming <;>
      simp only [step, hincoming, reduceCtorEq, Option.ite_none_right_eq_some,
        Option.some.injEq] at h
    case cons m rest =>
      obtain ⟨⟨hwait, hreading, hfilled⟩, rfl⟩ := h
      exact Or.inr (Or.inr (Or.inr (Or.inr (Or.inl
        ⟨m, rest, rfl, rfl, hwait, hreading, hfilled, rfl⟩))))
  | error =>
    simp only [step, Option.ite_none_right_eq_some, Option.some.injEq] at h
    obtain ⟨⟨hwait, hreading⟩, rfl⟩ := h
    exact Or.inr (Or.inr (Or.inr (Or.inr (Or.inr ⟨rfl, hwait, hreading, rfl⟩))))

/-- Handlers only run once `read` has been called. -/
theorem Intact.done_of_wait (hs : Intact messages s) (hwait : s.runner = .wait) :
    s.connect = .done := by
  by_contra hearly
  exact (hs.early hearly).2.2.2 hwait

theorem not_thread (hdone : s.connect = .done) : s.connect ≠ .thread := by
  rw [hdone]
  nofun

theorem intact_step (hs : Intact messages s) (hstep : s.step a = some next) :
    Intact messages next := by
  rcases step_cases hstep with ⟨-, hpc, rfl⟩ | ⟨-, hpc, rfl⟩ | ⟨-, hpc, rfl⟩ |
    ⟨n, m, rest, -, hincoming, hwait, hpos, hle, rfl⟩ |
    ⟨m, rest, -, hincoming, hwait, hreading, hfilled, rfl⟩ | ⟨-, hwait, hreading, rfl⟩
  · obtain ⟨hreading, hfailed, hcalls, -⟩ := hs.early (by rw [hpc]; nofun)
    exact ⟨hs.onMessage, hs.split, hs.buffer, fun _ => ⟨hreading, hfailed, hcalls, nofun⟩, nofun,
      nofun, iff_of_false nofun nofun⟩
  · refine ⟨hs.onMessage, hs.split, hs.buffer, fun h => absurd rfl h, fun _ => Or.inl rfl,
      fun _ => rfl, iff_of_false (fun hrunner => ?_) nofun⟩
    cases hpc.symm.trans (hs.running.mp hrunner)
  · refine ⟨hs.onMessage, hs.split, hs.buffer, fun hearly => ?_, hs.started, ?_, ?_⟩
    · obtain ⟨hreading, hfailed, hcalls, -⟩ := hs.early hearly
      refine ⟨hreading, hfailed, hcalls, ?_⟩
      simp [hreading]
    · cases s.reading <;> simp
    · apply iff_of_false
      · cases s.reading <;> nofun
      · intro hthread
        cases hpc.symm.trans (hs.running.mpr hthread)
  · have hdone := hs.done_of_wait hwait
    refine ⟨hs.onMessage, hs.split, ?_, fun hearly => absurd hdone hearly, hs.started, nofun,
      iff_of_false nofun (not_thread hdone)⟩
    intro m' rest' hfirst
    obtain ⟨rfl, -⟩ := List.cons.inj (hincoming.symm.trans hfirst)
    obtain ⟨hbuffer, -⟩ := hs.buffer m rest hincoming
    refine ⟨?_, hle⟩
    change s.buffer ++ (m.drop s.filled).take n = m.take (s.filled + n)
    rw [List.take_add, hbuffer]
  · have hdone := hs.done_of_wait hwait
    obtain ⟨hbuffer, -⟩ := hs.buffer m rest hincoming
    rw [hfilled, List.take_length] at hbuffer
    refine ⟨hs.onMessage, ?_, ?_, fun hearly => absurd hdone hearly, fun _ => Or.inl rfl, nofun,
      iff_of_false nofun (not_thread hdone)⟩
    · change messages = (if s.onMessage then s.calls ++ [s.buffer] else s.calls) ++ rest
      rw [hs.onMessage, if_pos rfl, hbuffer, List.append_assoc, hs.split, hincoming]
      rfl
    · intro m' rest' _
      exact ⟨List.drop_length, Nat.zero_le _⟩
  · have hdone := hs.done_of_wait hwait
    exact ⟨hs.onMessage, hs.split, hs.buffer, fun hearly => absurd hdone hearly,
      fun _ => Or.inr rfl, nofun, iff_of_false nofun (not_thread hdone)⟩

theorem intact_init (messages : List (List UInt8)) : Intact messages (init messages) where
  onMessage := rfl
  split := rfl
  buffer := fun _ _ _ => ⟨rfl, Nat.zero_le _⟩
  early := fun _ => ⟨rfl, rfl, rfl, nofun⟩
  started := nofun
  waiting := nofun
  running := iff_of_true rfl rfl

/-- Every step takes something from what is left. -/
theorem remaining_step (hstep : s.step a = some next) : next.remaining < s.remaining := by
  rcases step_cases hstep with ⟨-, hpc, rfl⟩ | ⟨-, hpc, rfl⟩ | ⟨-, hpc, rfl⟩ |
    ⟨n, m, rest, -, hincoming, hwait, hpos, hle, rfl⟩ |
    ⟨m, rest, -, hincoming, hwait, hreading, hfilled, rfl⟩ | ⟨-, hwait, hreading, rfl⟩
  · simp only [remaining, hpc, if_true]
    split <;> omega
  · simp only [remaining, read, hpc, if_true]
    omega
  · have hpast : (if s.reading then Runner.wait else Runner.returned) ≠ .check := by
      split <;> nofun
    simp only [remaining, hpc, if_true, if_neg hpast]
    omega
  · simp only [remaining, hincoming, List.map_cons, List.sum_cons, hwait, reduceCtorEq, if_false,
      if_true]
    omega
  · simp only [remaining, handler, read, hincoming, List.map_cons, List.sum_cons, hwait, hfilled,
      hreading, reduceCtorEq, if_false, if_true]
    omega
  · simp only [remaining, hwait, hreading, reduceCtorEq, Bool.false_eq_true, if_false, if_true]
    omega

/-- While `ioc_.run()` has not returned and no read has failed, something other
than an error can happen. -/
theorem progress (hs : Intact messages s) (hfailed : s.failed = false)
    (hrunner : s.runner ≠ .returned) (hleft : s.incoming ≠ []) :
    ∃ a next, s.step a = some next ∧ a ≠ .error ∧ next.failed = false ∧
      next.runner ≠ .returned := by
  cases hpc : s.connect with
  | thread =>
    refine ⟨.connect, { s with connect := .read, runner := .check }, ?_, nofun, hfailed, nofun⟩
    simp only [step, hpc]
  | read =>
    refine ⟨.connect, { s.read with connect := .done }, ?_, nofun, hfailed, hrunner⟩
    simp only [step, hpc]
  | done =>
    have hreading : s.reading = true := by
      apply (hs.started hpc).resolve_right
      rw [hfailed]
      exact Bool.false_ne_true
    cases hwhere : s.runner with
    | notStarted => cases hpc.symm.trans (hs.running.mp hwhere)
    | check =>
      refine ⟨.check, { s with runner := .wait }, ?_, nofun, hfailed, nofun⟩
      simp only [step, hwhere, hreading, if_true]
    | wait =>
      obtain ⟨m, rest, hincoming⟩ := List.exists_cons_of_ne_nil hleft
      obtain ⟨-, hle⟩ := hs.buffer m rest hincoming
      rcases Nat.lt_or_eq_of_le hle with hlt | heq
      · have hstep : s.step (.fill (m.length - s.filled)) = some { s with
            runner := .check
            buffer := s.buffer ++ (m.drop s.filled).take (m.length - s.filled)
            filled := s.filled + (m.length - s.filled) } := by
          simp only [step, hincoming]
          exact if_pos ⟨hwhere, hreading, by omega, by omega⟩
        exact ⟨_, _, hstep, nofun, hfailed, nofun⟩
      · have hstep : s.step .message = some { s with
            runner := .check, reading := false, incoming := rest, filled := 0 }.handler := by
          simp only [step, hincoming]
          exact if_pos ⟨hwhere, hreading, heq⟩
        exact ⟨_, _, hstep, nofun, hfailed, nofun⟩
    | returned => exact absurd hwhere hrunner

/-- Once `ioc_.run()` has returned, nothing is delivered any more. -/
theorem deaf_step (hs : Intact messages s) (hdeaf : s.Deaf) (hstep : s.step a = some next) :
    next.Deaf ∧ next.calls = s.calls := by
  obtain ⟨hrunner, hfailed, hleft⟩ := hdeaf
  rcases step_cases hstep with ⟨-, hpc, rfl⟩ | ⟨-, hpc, rfl⟩ | ⟨-, hpc, rfl⟩ |
    ⟨n, m, rest, -, hincoming, hwait, hpos, hle, rfl⟩ |
    ⟨m, rest, -, hincoming, hwait, hreading, hfilled, rfl⟩ | ⟨-, hwait, hreading, rfl⟩
  · cases hrunner.symm.trans (hs.running.mpr hpc)
  · exact ⟨⟨hrunner, hfailed, hleft⟩, rfl⟩
  · cases hrunner.symm.trans hpc
  all_goals cases hrunner.symm.trans hwait

/-- Everything can still be delivered unless nobody runs the handlers. -/
theorem delivers_iff (hs : Intact messages s) : Delivers messages s ↔ ¬s.Deaf := by
  constructor
  · intro h hdeaf
    obtain ⟨finish, hreaches, hcalls⟩ := h.rest hdeaf.2.1
    have hstays : (Intact messages finish ∧ finish.Deaf) ∧ finish.calls = s.calls := by
      apply hreaches.preserves
        (P := fun t => (Intact messages t ∧ t.Deaf) ∧ t.calls = s.calls)
      · rintro t a next ⟨⟨hintact, ht⟩, hsame⟩ hstep
        obtain ⟨hnext, hcalls⟩ := deaf_step hintact ht hstep
        exact ⟨⟨intact_step hintact hstep, hnext⟩, hcalls.trans hsame⟩
      · exact ⟨⟨hs, hdeaf⟩, rfl⟩
    have hnone : s.incoming = [] := by
      have hsplit := hs.split
      rw [← hcalls, hstays.2] at hsplit
      exact List.append_right_eq_self.mp hsplit.symm
    exact hdeaf.2.2 hnone
  · intro hdeaf
    refine ⟨hs.split ▸ List.prefix_append .., fun hfailed => ?_⟩
    by_cases hleft : s.incoming = []
    · refine ⟨s, .refl machine s, ?_⟩
      rw [hs.split, hleft, List.append_nil]
    · have hrunner : s.runner ≠ .returned := fun h => hdeaf ⟨h, hfailed, hleft⟩
      let Alive := fun t => Intact messages t ∧ t.failed = false ∧ t.runner ≠ .returned
      have hgoes : ∀ t, Alive t → t.incoming ≠ [] →
          ∃ a next, machine.step t a = some next ∧ Alive next ∧ next.remaining < t.remaining := by
        rintro t ⟨hintact, halive⟩ hmore
        obtain ⟨a, next, hstep, -, hgood⟩ := progress hintact halive.1 halive.2 hmore
        exact ⟨a, next, hstep, ⟨intact_step hintact hstep, hgood⟩, remaining_step hstep⟩
      obtain ⟨finish, hreaches, ⟨hfinish, -⟩, hnone⟩ :=
        Machine.reaches_of_progress remaining hgoes ⟨hs, hfailed, hrunner⟩
      refine ⟨finish, hreaches, ?_⟩
      rw [hfinish.split, hnone, List.append_nil]

/-- A step makes the client deaf when it looks for work before `read` has been
called. -/
theorem deaf_iff (hs : Intact messages s) (hhears : ¬s.Deaf) (hstep : s.step a = some next) :
    ¬next.Deaf ↔ ReadFirst messages s a := by
  rcases step_cases hstep with ⟨rfl, hpc, rfl⟩ | ⟨rfl, hpc, rfl⟩ | ⟨rfl, hpc, rfl⟩ |
    ⟨n, m, rest, rfl, hincoming, hwait, hpos, hle, rfl⟩ |
    ⟨m, rest, rfl, hincoming, hwait, hreading, hfilled, rfl⟩ | ⟨rfl, hwait, hreading, rfl⟩
  case inr.inr.inl =>
    constructor
    · intro hnext _
      by_contra hearly
      obtain ⟨hconnect, hmessages⟩ := not_or.mp hearly
      obtain ⟨hreading, hfailed, hcalls, -⟩ := hs.early hconnect
      apply hnext
      refine ⟨by rw [hreading]; rfl, hfailed, ?_⟩
      have hsplit := hs.split
      rw [hcalls, List.nil_append] at hsplit
      exact hsplit ▸ hmessages
    · rintro hfirst ⟨hreturned, hfailed, hleft⟩
      have hreading : s.reading = false := by
        cases hreading : s.reading with
        | false => rfl
        | true =>
          rw [hreading] at hreturned
          cases hreturned
      rcases hfirst rfl with hdone | hnone
      · rcases hs.started hdone with hworks | hfails
        · exact Bool.false_ne_true (hreading.symm.trans hworks)
        · exact Bool.false_ne_true (hfailed.symm.trans hfails)
      · have hsplit := hs.split
        rw [hnone] at hsplit
        exact hleft (List.append_eq_nil_iff.mp hsplit.symm).2
  case inr.inl => exact iff_of_true hhears nofun
  all_goals exact iff_of_true (fun h => nomatch h.1) nofun

end Step

/-- In every state of a run the callback has had the first messages and can
still come to have all of them, exactly when `ioc_.run()` does not look for work
before `read` has been called. -/
theorem delivers_iff_readFirst {messages : List (List UInt8)} {actions : List Act}
    {finish : SignalingClient} (hrun : machine.run (init messages) actions = some finish) :
    machine.Throughout (Delivers messages) (init messages) actions ↔
      machine.Respects (ReadFirst messages) (init messages) actions := by
  have hstart := intact_init messages
  have hhears : ¬(init messages).Deaf := fun h => nomatch h.1
  apply Machine.throughout_iff_respects (I := Intact messages) _ _ hstart
    ((delivers_iff hstart).mpr hhears) hrun
  · intro s a next hs hdelivers hstep
    rw [delivers_iff (intact_step hs hstep)]
    exact deaf_iff hs ((delivers_iff hs).mp hdelivers) hstep
  · intro s a next hs _ hstep _
    exact intact_step hs hstep

/-- A run that can only be continued with an error has come to its end. -/
theorem delivered_of_quiet {messages : List (List UInt8)} {s : SignalingClient}
    (hs : Intact messages s) (h : Delivers messages s)
    (hquiet : ∀ a, a ≠ .error → machine.step s a = none) :
    s.failed = true ∨ s.calls = messages := by
  cases hfailed : s.failed with
  | true => exact Or.inl rfl
  | false =>
    by_cases hleft : s.incoming = []
    · apply Or.inr
      rw [hs.split, hleft, List.append_nil]
    · have hrunner : s.runner ≠ .returned := by
        intro hreturned
        exact (delivers_iff hs).mp h ⟨hreturned, hfailed, hleft⟩
      obtain ⟨a, next, hstep, ha, -⟩ := progress hs hfailed hrunner hleft
      cases hstep.symm.trans (hquiet a ha)

/-- No run goes on for ever. -/
theorem length_le_remaining {messages : List (List UInt8)} {actions : List Act}
    {finish : SignalingClient} (hrun : machine.run (init messages) actions = some finish) :
    actions.length ≤ (init messages).remaining :=
  Machine.length_le_of_decreases (fun _ _ _ => remaining_step) hrun

section Late

/-! The detached thread is faster than `connect`. -/

def lateRead : List Act := [.connect, .check, .connect]

theorem run_lateRead : ∃ s, machine.run (init [[1]]) lateRead = some s ∧ s.Deaf ∧
    s.calls = [] ∧ ∀ a, machine.step s a = none := by
  refine ⟨_, rfl, ⟨rfl, rfl, nofun⟩, rfl, ?_⟩
  intro a
  cases a <;> rfl

theorem delivers_iff_readFirst_late :
    machine.Throughout (Delivers [[1]]) (init [[1]]) lateRead ↔
      machine.Respects (ReadFirst [[1]]) (init [[1]]) lateRead := by
  obtain ⟨s, hrun, -⟩ := run_lateRead
  exact delivers_iff_readFirst hrun

/-- No read has failed, nothing more can happen, and the message is lost. -/
theorem late_read_delivers_nothing :
    ∃ s, machine.Reaches (init [[1]]) s ∧ s.failed = false ∧ s.calls = [] ∧
      (∀ a, machine.step s a = none) ∧ ¬Delivers [[1]] s := by
  obtain ⟨s, hrun, hdeaf, hcalls, hquiet⟩ := run_lateRead
  have hintact : Intact [[1]] s := by
    apply Machine.run_preserves (P := Intact [[1]]) _ (intact_init _) hrun
    intro s a next hs hstep
    exact intact_step hs hstep
  refine ⟨s, ⟨lateRead, hrun⟩, hdeaf.2.1, hcalls, hquiet, ?_⟩
  intro hdelivers
  exact (delivers_iff hintact).mp hdelivers hdeaf

end Late

end SignalingClient

end MediaStream.WebRTC
