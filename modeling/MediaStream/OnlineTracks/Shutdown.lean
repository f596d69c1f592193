import MediaStream.OnlineTracks.Process

/-!
Waking `main` up. The handler of SIGINT notifies `stop_condition` after it has
set `stop_streaming`; the failure branches of `audio_cap` and `play_audio` set
the flag and notify nobody. Nobody holds `fn_mute` while setting it, so even the
handler's notification can fall between `main`'s test of the flag and its
blocking.
-/

namespace MediaStream.OnlineTracks

open Lib

/-- The flag is set, `main` is blocked, and no thread is about to notify it. -/
def Process.LostWakeup (s : Process) : Prop :=
  s.stopStreaming = true ∧ s.main = .waiting ∧ s.notifying = 0

/-- The steps after which nobody wakes `main` up: no handler is running, and a
worker sets the flag while `main` waits, or `main` blocks on a test that was
made before the flag was set. -/
def LosesWakeup (s : Process) (a : Act) : Prop :=
  s.notifying = 0 ∧
    (s.main = .waiting ∧ a.silentStop = true ∨
      s.main = .block ∧ a = .main ∧ s.stopStreaming = true)

section Steps

variable {s next : Process} {a : Act}

/-- A worker's step loses the wakeup only by setting the flag itself. -/
theorem lostWakeup_worker (hnot : ¬s.LostWakeup)
    (hstop : next.stopStreaming = (s.stopStreaming || a.silentStop)) (hmain : next.main = s.main)
    (hnotifying : next.notifying = s.notifying) (ha : a ≠ .main) :
    next.LostWakeup ↔ LosesWakeup s a := by
  unfold Process.LostWakeup LosesWakeup
  rw [hstop, hmain, hnotifying, Bool.or_eq_true]
  constructor
  · rintro ⟨hset | hset, hwaiting, hidle⟩
    · exact absurd ⟨hset, hwaiting, hidle⟩ hnot
    · exact ⟨hidle, Or.inl ⟨hwaiting, hset⟩⟩
  · rintro ⟨hidle, ⟨hwaiting, hset⟩ | ⟨-, hblock, -⟩⟩
    · exact ⟨Or.inr hset, hwaiting, hidle⟩
    · exact absurd hblock ha

theorem lostWakeup_step (hnot : ¬s.LostWakeup) (hstep : Process.machine.step s a = some next) :
    next.LostWakeup ↔ LosesWakeup s a := by
  cases a with
  | audioCap a =>
    obtain ⟨hstop, hmain, hnotifying, -⟩ := audioCap_step hstep
    exact lostWakeup_worker hnot hstop hmain hnotifying nofun
  | playAudio a =>
    obtain ⟨hstop, -, hmain, hnotifying, -⟩ := playAudio_step hstep
    exact lostWakeup_worker hnot hstop hmain hnotifying nofun
  | main =>
    obtain ⟨hstop, -, hnotifying, -⟩ := main_step hstep
    unfold Process.LostWakeup LosesWakeup
    rw [hstop, hnotifying, main_waiting_iff hstep]
    constructor
    · rintro ⟨hset, hblock, hidle⟩
      exact ⟨hidle, Or.inr ⟨hblock, rfl, hset⟩⟩
    · rintro ⟨hidle, ⟨-, hworker⟩ | ⟨hblock, -, hset⟩⟩
      · cases hworker
      · exact ⟨hset, hblock, hidle⟩
  | sigint =>
    obtain ⟨-, -, -, hnotifying, -⟩ := sigint_step hstep
    constructor
    · rintro ⟨-, -, hidle⟩
      omega
    · rintro ⟨-, ⟨-, hworker⟩ | ⟨-, hblock, -⟩⟩
      · cases hworker
      · cases hblock
  | notifyAll =>
    obtain ⟨-, -, hawake, hpos, -⟩ := notifyAll_step hstep
    constructor
    · rintro ⟨-, hwaiting, -⟩
      exact absurd hwaiting hawake
    · rintro ⟨hidle, -⟩
      omega

/-- A lost wakeup is made up for by nothing but another SIGINT. -/
theorem lostWakeup_forever (h : s.LostWakeup) (hstep : Process.machine.step s a = some next)
    (ha : a ≠ .sigint) : next.LostWakeup := by
  obtain ⟨hset, hwaiting, hidle⟩ := h
  cases a with
  | audioCap a =>
    obtain ⟨hstop, hmain, hnotifying, -⟩ := audioCap_step hstep
    exact ⟨by rw [hstop, hset, Bool.true_or], hmain.trans hwaiting, hnotifying.trans hidle⟩
  | playAudio a =>
    obtain ⟨hstop, -, hmain, hnotifying, -⟩ := playAudio_step hstep
    exact ⟨by rw [hstop, hset, Bool.true_or], hmain.trans hwaiting, hnotifying.trans hidle⟩
  | main =>
    change s.mainStep s.main = some next at hstep
    rw [hwaiting] at hstep
    cases hstep
  | sigint => exact absurd rfl ha
  | notifyAll =>
    obtain ⟨-, -, -, hpos, -⟩ := notifyAll_step hstep
    omega

end Steps

section Runs

variable {s : Process}

/-- `main` hangs for good: the run never gets to the joins. -/
theorem hangs_of_lostWakeup {finish : Process} (h : s.LostWakeup)
    (hreach : (Process.machine.restrict (· ≠ .sigint)).Reaches s finish) :
    finish.main = .waiting := by
  have hlost : finish.LostWakeup := by
    apply hreach.preserves (P := Process.LostWakeup) _ h
    intro s a next hs hstep
    obtain ⟨hallowed, hstep⟩ := Machine.restrict_step.mp hstep
    exact lostWakeup_forever hs hstep (of_decide_eq_true hallowed)
  exact hlost.2.1

/-- No wakeup is lost exactly as long as no worker sets the flag while `main`
waits and `main` never blocks after the flag has been set, except while a handler
is on its way to `notify_all`. -/
theorem wakeup_kept_iff (buffer : Buffer) (actions : List Act) (finish : Process)
    (hrun : Process.machine.run (Process.init buffer) actions = some finish) :
    Process.machine.Throughout (fun s => ¬s.LostWakeup) (Process.init buffer) actions ↔
      Process.machine.Respects (fun s a => ¬LosesWakeup s a) (Process.init buffer) actions := by
  apply Machine.throughout_iff_respects_of_step _ _ hrun
  · intro s a next hs hstep
    rw [lostWakeup_step hs hstep]
  · intro hlost
    cases hlost.1

/-- `play_audio` gets an empty datagram while `main` waits. -/
def silentRun : List Act :=
  [.main, .main, .main, .main, .main, .playAudio .openPlayback, .playAudio .test,
    .playAudio (.recv [])]

theorem silentRun_lostWakeup :
    ∃ s, Process.machine.run (Process.init .zero) silentRun = some s ∧ s.LostWakeup :=
  ⟨_, rfl, rfl, rfl, rfl⟩

theorem wakeup_kept_iff_silentRun :
    ¬Process.machine.Respects (fun s a => ¬LosesWakeup s a) (Process.init .zero) silentRun := by
  intro h
  obtain ⟨s, hrun, hlost⟩ := silentRun_lostWakeup
  exact ((wakeup_kept_iff .zero _ _ hrun).mpr h).last hrun hlost

/-- No SIGINT has to arrive for `main` to hang. -/
theorem worker_loses_wakeup :
    ∃ s, Process.machine.Reaches (Process.init .zero) s ∧ s.LostWakeup ∧
      ∀ finish, (Process.machine.restrict (· ≠ .sigint)).Reaches s finish →
        finish.main = .waiting := by
  obtain ⟨s, hrun, hlost⟩ := silentRun_lostWakeup
  exact ⟨s, ⟨_, hrun⟩, hlost, fun finish => hangs_of_lostWakeup hlost⟩

/-- The handler runs between `main`'s test and its blocking. -/
example : ∃ s, Process.machine.Reaches (Process.init .zero) s ∧ s.LostWakeup :=
  ⟨_, ⟨[.main, .main, .main, .main, .sigint, .notifyAll, .main], rfl⟩, rfl, rfl, rfl⟩

end Runs

end MediaStream.OnlineTracks
