import MediaStream.Lib.StopFlag
import MediaStream.OnlineTracks.Process
import MediaStream.TCPS.Client.Process

/-!
`stop_streaming` when a worker has returned, in `UDPconn1.cpp` and in `TCPSC.cpp`.
Most branches that leave a loop set the flag first. A device that cannot be
opened does not, and neither does `audio_cap` when `snd_pcm_recover` fails: the
other worker then goes on alone.
-/

namespace MediaStream

open Lib

namespace OnlineTracks

namespace Process

/-- A worker that has returned has left the flag set. -/
def Stopped (s : Process) : Prop :=
  s.audioCap = .done ∨ s.playAudio = .done → s.stopStreaming = true

/-- Whether `snd_pcm_recover` has failed. -/
def watchRecover (_ : Process) (a : Act) (failed : Bool) : Bool :=
  failed || a = .audioCap .recoverError

def observed : Machine (Process × Bool) Act := machine.monitored watchRecover

/-- The flag is set by the time a device turns out not to open, and by the time
`audio_cap` returns after a failed `snd_pcm_recover`. -/
def Announced (p : Process × Bool) : Act → Prop
  | .audioCap .openCaptureError | .playAudio .openPlaybackError => p.1.stopStreaming = true
  | .audioCap .close => p.2 = true → p.1.stopStreaming = true
  | _ => True

/-- What is known of a worker past its loop. -/
structure Leaves (p : Process × Bool) : Prop where
  audioCap : p.1.audioCap = .close → p.1.stopStreaming = true ∨ p.2 = true
  playAudio : p.1.playAudio = .close → p.1.stopStreaming = true

end Process

/-- The steps with which a worker returns. -/
def Act.returns : Act → Bool
  | audioCap .openCaptureError | audioCap .close => true
  | playAudio .openPlaybackError | playAudio .close => true
  | _ => false

section Return

variable {s next : Process} {failed : Bool}

/-- Where a step of `audio_cap` can lead. -/
theorem audioCap_leaves {a : AudioCapAct} (h : Process.machine.step s (.audioCap a) = some next) :
    (next.audioCap = .done ↔ a = .openCaptureError ∨ a = .close) ∧
      (next.audioCap = .close → a = .recoverError ∨ next.stopStreaming = true) ∧
      (a = .close → s.audioCap = .close) ∧ s.audioCap ≠ .done := by
  cases audioCap_iff.mp h with
  | stop hpc hflag => simp [hpc, hflag]
  | openCapture hpc | openCaptureError hpc | test hpc _ | capture _ hpc _ | captureError hpc
  | recover hpc | recoverError hpc | send _ hpc | sendError _ hpc | close hpc => simp [hpc]

theorem playAudio_leaves {a : PlayAudioAct}
    (h : Process.machine.step s (.playAudio a) = some next) :
    (next.playAudio = .done ↔ a = .openPlaybackError ∨ a = .close) ∧
      (next.playAudio = .close → next.stopStreaming = true) ∧
      (a = .close → s.playAudio = .close) ∧ s.playAudio ≠ .done := by
  cases playAudio_iff.mp h with
  | stop hpc hflag => simp [hpc, hflag]
  | openPlayback hpc | openPlaybackError hpc | test hpc _ | recv _ hpc _ | recvZero hpc
  | recvError hpc | write _ hpc | underrun _ hpc | writeError _ hpc | prepare hpc
  | prepareError hpc | close hpc => simp [hpc]

/-- `main` starts the workers, and nothing but their own steps ends them. -/
theorem elsewhere_step {a : Act} (h : Process.machine.step s a = some next)
    (ha : a = .main ∨ a = .sigint ∨ a = .notifyAll) :
    (next.audioCap = s.audioCap ∨ next.audioCap = .openCapture) ∧
      (next.playAudio = s.playAudio ∨ next.playAudio = .openPlayback) := by
  rcases ha with rfl | rfl | rfl
  · refine ⟨(main_step h).2.2.2, ?_⟩
    cases main_iff.mp h with
    | startPlayback => exact Or.inr rfl
    | startCapture | lock | stopped | running | block | relock | unlock | joinCapture
    | joinPlayback | close => exact Or.inl rfl
  · obtain rfl := Option.some.inj h
    exact ⟨Or.inl rfl, Or.inl rfl⟩
  · obtain ⟨-, hnext⟩ := Option.ite_none_right_eq_some.mp h
    obtain rfl := Option.some.inj hnext
    exact ⟨Or.inl rfl, Or.inl rfl⟩

/-- A worker past its loop has been there before. -/
theorem elsewhere_past {a : Act} (h : Process.machine.step s a = some next)
    (ha : a = .main ∨ a = .sigint ∨ a = .notifyAll) :
    (∀ pc, pc = .close ∨ pc = .done → next.audioCap = pc → s.audioCap = pc) ∧
      ∀ pc, pc = .close ∨ pc = .done → next.playAudio = pc → s.playAudio = pc := by
  obtain ⟨hcap, hplay⟩ := elsewhere_step h ha
  constructor
  · rintro pc hpc rfl
    rcases hcap with hsame | hopen
    · exact hsame.symm
    · rw [hopen] at hpc
      rcases hpc with hpc | hpc <;> cases hpc
  · rintro pc hpc rfl
    rcases hplay with hsame | hopen
    · exact hsame.symm
    · rw [hopen] at hpc
      rcases hpc with hpc | hpc <;> cases hpc

/-- The flag is never cleared. -/
theorem stopStreaming_stays {a : Act} (h : Process.machine.step s a = some next)
    (hstop : s.stopStreaming = true) : next.stopStreaming = true := by
  by_cases ha : a = .sigint
  · subst ha
    exact (sigint_step h).1
  · rw [stopStreaming_step h ha, hstop, Bool.true_or]

theorem done_step {a : Act} (h : Process.machine.step s a = some next)
    (hdone : next.audioCap = .done ∨ next.playAudio = .done) :
    (s.audioCap = .done ∨ s.playAudio = .done) ∨ a.returns = true := by
  cases a with
  | audioCap a =>
    obtain ⟨-, -, -, hplay⟩ := audioCap_step h
    obtain ⟨hnow, -⟩ := audioCap_leaves h
    rw [hnow, hplay] at hdone
    rcases hdone with (rfl | rfl) | hbefore
    · exact Or.inr rfl
    · exact Or.inr rfl
    · exact Or.inl (Or.inr hbefore)
  | playAudio a =>
    obtain ⟨-, -, -, -, hcap⟩ := playAudio_step h
    obtain ⟨hnow, -⟩ := playAudio_leaves h
    rw [hnow, hcap] at hdone
    rcases hdone with hbefore | rfl | rfl
    · exact Or.inl (Or.inl hbefore)
    · exact Or.inr rfl
    · exact Or.inr rfl
  | main =>
    obtain ⟨hcap, hplay⟩ := elsewhere_past h (Or.inl rfl)
    exact Or.inl (hdone.imp (hcap _ (Or.inr rfl)) (hplay _ (Or.inr rfl)))
  | sigint =>
    obtain ⟨hcap, hplay⟩ := elsewhere_past h (Or.inr (Or.inl rfl))
    exact Or.inl (hdone.imp (hcap _ (Or.inr rfl)) (hplay _ (Or.inr rfl)))
  | notifyAll =>
    obtain ⟨hcap, hplay⟩ := elsewhere_past h (Or.inr (Or.inr rfl))
    exact Or.inl (hdone.imp (hcap _ (Or.inr rfl)) (hplay _ (Or.inr rfl)))

theorem returns_step {a : Act} (h : Process.machine.step s a = some next)
    (hreturns : a.returns = true) :
    (next.audioCap = .done ∨ next.playAudio = .done) ∧
      next.stopStreaming = s.stopStreaming := by
  cases a with
  | audioCap a =>
    have hstop := (audioCap_step h).1
    have hnow := (audioCap_leaves h).1
    cases a <;> cases hreturns <;> exact ⟨Or.inl (by simp [hnow]), hstop.trans (Bool.or_false _)⟩
  | playAudio a =>
    have hstop := (playAudio_step h).1
    have hnow := (playAudio_leaves h).1
    cases a <;> cases hreturns <;> exact ⟨Or.inr (by simp [hnow]), hstop.trans (Bool.or_false _)⟩
  | _ => cases hreturns

theorem stopFlag : StopFlag Process.observed (fun p => p.1.stopStreaming)
    (fun p => p.1.audioCap = .done ∨ p.1.playAudio = .done) (fun _ a => a.returns = true) where
  stays := fun _ _ _ h => stopStreaming_stays (Machine.monitored_step.mp h).1
  of_done := fun _ _ _ h => done_step (Machine.monitored_step.mp h).1
  of_returns := fun _ _ _ h => returns_step (Machine.monitored_step.mp h).1

/-- Of the four returns, that of `play_audio` past its loop finds the flag set. -/
theorem announced_iff {a : Act} (hleaves : Process.Leaves (s, failed))
    (h : Process.machine.step s a = some next) :
    (a.returns = true → s.stopStreaming = true) ↔ Process.Announced (s, failed) a := by
  cases a with
  | audioCap a =>
    cases a with
    | openCaptureError => exact ⟨fun hset => hset rfl, fun hset _ => hset⟩
    | close =>
      have hflag := hleaves.audioCap ((audioCap_leaves h).2.2.1 rfl)
      exact ⟨fun hset _ => hset rfl, fun hset _ => hflag.elim id hset⟩
    | _ => exact iff_of_true nofun trivial
  | playAudio a =>
    cases a with
    | openPlaybackError => exact ⟨fun hset => hset rfl, fun hset _ => hset⟩
    | close =>
      have hflag := hleaves.playAudio ((playAudio_leaves h).2.2.1 rfl)
      exact iff_of_true (fun _ => hflag) trivial
    | _ => exact iff_of_true nofun trivial
  | _ => exact iff_of_true nofun trivial

theorem leaves_step {a : Act} (hleaves : Process.Leaves (s, failed))
    (h : Process.machine.step s a = some next) :
    Process.Leaves (next, Process.watchRecover s a failed) := by
  have hstays := stopStreaming_stays h
  have hkept : s.audioCap = .close →
      next.stopStreaming = true ∨ Process.watchRecover s a failed = true := by
    intro hclose
    rcases hleaves.audioCap hclose with hstop | hfailed
    · exact Or.inl (hstays hstop)
    · have hold : failed = true := hfailed
      exact Or.inr (by rw [Process.watchRecover, hold, Bool.true_or])
  constructor
  case audioCap =>
    intro hclose
    cases a with
    | audioCap a =>
      rcases (audioCap_leaves h).2.1 hclose with rfl | hstop
      · exact Or.inr (Bool.or_true _)
      · exact Or.inl hstop
    | playAudio a =>
      obtain ⟨-, -, -, -, hsame⟩ := playAudio_step h
      exact hkept (hsame.symm.trans hclose)
    | main => exact hkept ((elsewhere_past h (Or.inl rfl)).1 _ (Or.inl rfl) hclose)
    | sigint => exact Or.inl (sigint_step h).1
    | notifyAll =>
      exact hkept ((elsewhere_past h (Or.inr (Or.inr rfl))).1 _ (Or.inl rfl) hclose)
  case playAudio =>
    intro hclose
    cases a with
    | audioCap a =>
      obtain ⟨-, -, -, hsame⟩ := audioCap_step h
      exact hstays (hleaves.playAudio (hsame.symm.trans hclose))
    | playAudio a => exact (playAudio_leaves h).2.1 hclose
    | main =>
      have hbefore := (elsewhere_past h (Or.inl rfl)).2 _ (Or.inl rfl) hclose
      exact hstays (hleaves.playAudio hbefore)
    | sigint => exact (sigint_step h).1
    | notifyAll =>
      have hbefore := (elsewhere_past h (Or.inr (Or.inr rfl))).2 _ (Or.inl rfl) hclose
      exact hstays (hleaves.playAudio hbefore)

theorem stopped_throughout_iff {buffer : Buffer} {actions : List Act} {finish : Process × Bool}
    (hrun : Process.observed.run (Process.init buffer, false) actions = some finish) :
    Process.observed.Throughout (fun p => p.1.Stopped) (Process.init buffer, false) actions ↔
      Process.observed.Respects Process.Announced (Process.init buffer, false) actions := by
  have hstart : ¬((Process.init buffer).audioCap = .done ∨
      (Process.init buffer).playAudio = .done) := by
    rintro (hdone | hdone) <;> cases hdone
  have hinside : Process.Leaves (Process.init buffer, false) := ⟨nofun, nofun⟩
  apply (stopFlag.throughout_iff hstart hrun).trans
  apply Machine.respects_congr (I := Process.Leaves) _ _ hinside hrun
  · rintro ⟨s, failed⟩ a ⟨next, later⟩ hleaves hstep
    obtain ⟨hnext, rfl⟩ := Machine.monitored_step.mp hstep
    exact leaves_step hleaves hnext
  · rintro ⟨s, failed⟩ a ⟨next, later⟩ hleaves hstep
    exact announced_iff hleaves (Machine.monitored_step.mp hstep).1

end Return

end OnlineTracks

namespace TCPS.Client

/-- Past the loop, before the return. -/
def AudioCap.closing : AudioCap → Bool
  | closeSockfd | closeLocal => true
  | _ => false

namespace Process

def Stopped (s : Process) : Prop :=
  s.audioCap = .done ∨ s.playAudio = .done → s.stopStreaming = true

def watchRecover (_ : Process) (a : Act) (failed : Bool) : Bool :=
  failed || a = .audioCap .recoverError

def observed (cfg : Setup) : Machine (Process × Bool) Act := (machine cfg).monitored watchRecover

def Announced (cfg : Setup) (p : Process × Bool) : Act → Prop
  | .audioCap .openCapture => cfg.captureOpens = false → p.1.stopStreaming = true
  | .playAudio .openPlayback => cfg.playbackOpens = false → p.1.stopStreaming = true
  | .audioCap .close => p.1.audioCap = .closeLocal → p.2 = true → p.1.stopStreaming = true
  | _ => True

structure Leaves (p : Process × Bool) : Prop where
  audioCap : p.1.audioCap.closing = true → p.1.stopStreaming = true ∨ p.2 = true
  playAudio : p.1.playAudio = .closeLocal → p.1.stopStreaming = true

end Process

section Return

variable {cfg : Setup} {s next : Process} {failed : Bool}

/-- Where a step of `audio_cap` can lead. -/
theorem audioCap_leaves {a : AudioCapAct}
    (h : (Process.machine cfg).step s (.audioCap a) = some next) :
    (next.audioCap = .done ↔ a = .openCapture ∧ cfg.captureOpens = false ∨
        a = .close ∧ s.audioCap = .closeLocal) ∧
      (next.audioCap.closing = true →
        s.audioCap.closing = true ∨ a = .recoverError ∨ next.stopStreaming = true) ∧
      next.playAudio = s.playAudio ∧
      (s.stopStreaming = true → next.stopStreaming = true) ∧
      (next.audioCap = .done → next.stopStreaming = s.stopStreaming) := by
  cases audioCap_iff.mp h with
  | openCapture hpc hdevice | openCaptureError hpc hdevice => simp [AudioCap.closing, hpc, hdevice]
  | stop hpc hflag => simp [AudioCap.closing, hpc, hflag]
  | test hpc _ | capture _ _ hpc _ | captureError hpc | recover _ hpc | recoverError hpc
  | send _ _ hpc | sendError _ _ hpc | sendPacket _ _ hpc _ | sendPacketError _ _ hpc
  | closeSockfd hpc | closeLocal hpc => simp [AudioCap.closing, Process.call, hpc]

theorem playAudio_leaves {a : PlayAudioAct}
    (h : (Process.machine cfg).step s (.playAudio a) = some next) :
    (next.playAudio = .done ↔ a = .openPlayback ∧ cfg.playbackOpens = false ∨
        a = .close ∧ s.playAudio = .closeLocal) ∧
      (next.playAudio = .closeLocal → next.stopStreaming = true) ∧
      next.audioCap = s.audioCap ∧
      (s.stopStreaming = true → next.stopStreaming = true) ∧
      (next.playAudio = .done → next.stopStreaming = s.stopStreaming) := by
  cases playAudio_iff.mp h with
  | openPlayback _ hdevice | openPlaybackError _ hdevice => simp [hdevice]
  | stop _ hflag => simp [hflag]
  | test hpc _ | recv _ hpc _ | recvEnd hpc | write _ _ hpc _ | underrun _ hpc
  | writeError _ hpc | prepare _ hpc | prepareError _ hpc | sendLocal _ hpc _
  | sendLocalError _ hpc | close hpc => simp [Process.call, hpc]

theorem stopStreaming_stays {a : Act} (h : (Process.machine cfg).step s a = some next)
    (hstop : s.stopStreaming = true) : next.stopStreaming = true := by
  cases a with
  | audioCap a => exact (audioCap_leaves h).2.2.2.1 hstop
  | playAudio a => exact (playAudio_leaves h).2.2.2.1 hstop
  | main => exact (main_step h).2.2.1.trans hstop

def Process.returns (cfg : Setup) (s : Process) : Act → Bool
  | .audioCap .openCapture => !cfg.captureOpens
  | .audioCap .close => s.audioCap = .closeLocal
  | .playAudio .openPlayback => !cfg.playbackOpens
  | .playAudio .close => s.playAudio = .closeLocal
  | _ => false

theorem done_step {a : Act} (h : (Process.machine cfg).step s a = some next)
    (hdone : next.audioCap = .done ∨ next.playAudio = .done) :
    (s.audioCap = .done ∨ s.playAudio = .done) ∨ s.returns cfg a = true := by
  cases a with
  | audioCap a =>
    obtain ⟨hnow, -, hplay, -⟩ := audioCap_leaves h
    rw [hnow, hplay] at hdone
    rcases hdone with (⟨rfl, hdevice⟩ | ⟨rfl, hpc⟩) | hbefore
    · exact Or.inr (by simp [Process.returns, hdevice])
    · exact Or.inr (by simp [Process.returns, hpc])
    · exact Or.inl (Or.inr hbefore)
  | playAudio a =>
    obtain ⟨hnow, -, hcap, -⟩ := playAudio_leaves h
    rw [hnow, hcap] at hdone
    rcases hdone with hbefore | ⟨rfl, hdevice⟩ | ⟨rfl, hpc⟩
    · exact Or.inl (Or.inl hbefore)
    · exact Or.inr (by simp [Process.returns, hdevice])
    · exact Or.inr (by simp [Process.returns, hpc])
  | main =>
    obtain ⟨hcap, hplay, -⟩ := main_step h
    rw [hcap, hplay] at hdone
    exact Or.inl hdone

theorem returns_step {a : Act} (h : (Process.machine cfg).step s a = some next)
    (hreturns : s.returns cfg a = true) :
    (next.audioCap = .done ∨ next.playAudio = .done) ∧
      next.stopStreaming = s.stopStreaming := by
  cases a with
  | audioCap a =>
    obtain ⟨hnow, -, -, -, hsame⟩ := audioCap_leaves h
    have hdone : next.audioCap = .done := by
      rw [hnow]
      cases a with
      | openCapture => exact Or.inl ⟨rfl, by simpa [Process.returns] using hreturns⟩
      | close => exact Or.inr ⟨rfl, by simpa [Process.returns] using hreturns⟩
      | _ => cases hreturns
    exact ⟨Or.inl hdone, hsame hdone⟩
  | playAudio a =>
    obtain ⟨hnow, -, -, -, hsame⟩ := playAudio_leaves h
    have hdone : next.playAudio = .done := by
      rw [hnow]
      cases a with
      | openPlayback => exact Or.inl ⟨rfl, by simpa [Process.returns] using hreturns⟩
      | close => exact Or.inr ⟨rfl, by simpa [Process.returns] using hreturns⟩
      | _ => cases hreturns
    exact ⟨Or.inr hdone, hsame hdone⟩
  | main => cases hreturns

theorem stopFlag (cfg : Setup) :
    StopFlag (Process.observed cfg) (fun p => p.1.stopStreaming)
      (fun p => p.1.audioCap = .done ∨ p.1.playAudio = .done)
      (fun p a => p.1.returns cfg a = true) where
  stays := fun _ _ _ h => stopStreaming_stays (Machine.monitored_step.mp h).1
  of_done := fun _ _ _ h => done_step (Machine.monitored_step.mp h).1
  of_returns := fun _ _ _ h => returns_step (Machine.monitored_step.mp h).1

/-- Of the four returns, that of `play_audio` past its loop finds the flag set. -/
theorem announced_iff {a : Act} (hleaves : Process.Leaves (s, failed))
    (h : (Process.machine cfg).step s a = some next) :
    (s.returns cfg a = true → s.stopStreaming = true) ↔
      Process.Announced cfg (s, failed) a := by
  cases a with
  | audioCap a =>
    cases a with
    | openCapture => simp [Process.returns, Process.Announced]
    | close =>
      simp only [Process.returns, Process.Announced, decide_eq_true_eq]
      constructor
      · exact fun hset hpc _ => hset hpc
      · intro hset hpc
        exact (hleaves.audioCap (by simp [hpc, AudioCap.closing])).elim id (hset hpc)
    | _ => exact iff_of_true nofun trivial
  | playAudio a =>
    cases a with
    | openPlayback => simp [Process.returns, Process.Announced]
    | close =>
      refine iff_of_true (fun hreturns => hleaves.playAudio ?_) trivial
      simpa [Process.returns] using hreturns
    | _ => exact iff_of_true nofun trivial
  | main => exact iff_of_true nofun trivial

theorem leaves_step {a : Act} (hleaves : Process.Leaves (s, failed))
    (h : (Process.machine cfg).step s a = some next) :
    Process.Leaves (next, Process.watchRecover s a failed) := by
  have hstays := stopStreaming_stays h
  have hkept : s.audioCap.closing = true →
      next.stopStreaming = true ∨ Process.watchRecover s a failed = true := by
    intro hclosing
    rcases hleaves.audioCap hclosing with hstop | hfailed
    · exact Or.inl (hstays hstop)
    · have hold : failed = true := hfailed
      exact Or.inr (by rw [Process.watchRecover, hold, Bool.true_or])
  cases a with
  | audioCap a =>
    obtain ⟨-, hclosing, hplay, -⟩ := audioCap_leaves h
    constructor
    · intro hnow
      rcases hclosing hnow with hbefore | rfl | hstop
      · exact hkept hbefore
      · exact Or.inr (Bool.or_true _)
      · exact Or.inl hstop
    · intro hnow
      exact hstays (hleaves.playAudio (hplay.symm.trans hnow))
  | playAudio a =>
    obtain ⟨-, hclosing, hcap, -⟩ := playAudio_leaves h
    constructor
    · intro hnow
      exact hkept (hcap ▸ hnow)
    · exact hclosing
  | main =>
    obtain ⟨hcap, hplay, -⟩ := main_step h
    constructor
    · intro hnow
      exact hkept (hcap ▸ hnow)
    · intro hnow
      exact hstays (hleaves.playAudio (hplay.symm.trans hnow))

theorem stopped_throughout_iff {buffer : Bytes.Buffer sizeofBuffer} {actions : List Act}
    {finish : Process × Bool}
    (hrun : (Process.observed cfg).run (Process.init buffer, false) actions = some finish) :
    (Process.observed cfg).Throughout (fun p => p.1.Stopped) (Process.init buffer, false)
        actions ↔
      (Process.observed cfg).Respects (Process.Announced cfg) (Process.init buffer, false)
        actions := by
  have hstart : ¬((Process.init buffer).audioCap = .done ∨
      (Process.init buffer).playAudio = .done) := by
    rintro (hdone | hdone) <;> cases hdone
  have hinside : Process.Leaves (Process.init buffer, false) := ⟨nofun, nofun⟩
  apply ((stopFlag cfg).throughout_iff hstart hrun).trans
  apply Machine.respects_congr (I := Process.Leaves) _ _ hinside hrun
  · rintro ⟨s, failed⟩ a ⟨next, later⟩ hleaves hstep
    obtain ⟨hnext, rfl⟩ := Machine.monitored_step.mp hstep
    exact leaves_step hleaves hnext
  · rintro ⟨s, failed⟩ a ⟨next, later⟩ hleaves hstep
    exact announced_iff hleaves (Machine.monitored_step.mp hstep).1

end Return

end TCPS.Client

/-- In both clients a worker that has returned has left `stop_streaming` set, in
every state of a run, exactly when no worker gives up on its device before the
flag is set. -/
theorem stopped_iff_announced {buffer : OnlineTracks.Buffer} {actions : List OnlineTracks.Act}
    {finish : OnlineTracks.Process × Bool} {cfg : TCPS.Client.Setup}
    {buffer' : Bytes.Buffer TCPS.Client.sizeofBuffer}
    {actions' : List TCPS.Client.Act} {finish' : TCPS.Client.Process × Bool}
    (hudp : OnlineTracks.Process.observed.run (OnlineTracks.Process.init buffer, false) actions =
      some finish)
    (htcp : (TCPS.Client.Process.observed cfg).run (TCPS.Client.Process.init buffer', false)
      actions' = some finish') :
    (OnlineTracks.Process.observed.Throughout (fun p => p.1.Stopped)
        (OnlineTracks.Process.init buffer, false) actions ↔
      OnlineTracks.Process.observed.Respects OnlineTracks.Process.Announced
        (OnlineTracks.Process.init buffer, false) actions) ∧
    ((TCPS.Client.Process.observed cfg).Throughout (fun p => p.1.Stopped)
        (TCPS.Client.Process.init buffer', false) actions' ↔
      (TCPS.Client.Process.observed cfg).Respects (TCPS.Client.Process.Announced cfg)
        (TCPS.Client.Process.init buffer', false) actions') :=
  ⟨OnlineTracks.stopped_throughout_iff hudp, TCPS.Client.stopped_throughout_iff htcp⟩

section SilentReturn

/-! The capture device cannot be opened. -/

def noCapture : TCPS.Client.Setup where
  cap := none
  playback := none
  captureOpens := false
  playbackOpens := true

theorem run_noCapture_udp : ∃ s, OnlineTracks.Process.observed.run
    (OnlineTracks.Process.init .zero, false) [.main, .audioCap .openCaptureError] =
      some (s, false) ∧ s.audioCap = .done ∧ s.stopStreaming = false := ⟨_, rfl, rfl, rfl⟩

theorem run_noCapture_tcp : ∃ s, (TCPS.Client.Process.observed noCapture).run
    (TCPS.Client.Process.init .zero, false) [.audioCap .openCapture] = some (s, false) ∧
      s.audioCap = .done ∧ s.stopStreaming = false := ⟨_, rfl, rfl, rfl⟩

/-- `audio_cap` has returned, and nothing tells `play_audio` to stop. -/
theorem silent_return :
    (∃ p, OnlineTracks.Process.observed.Reaches (OnlineTracks.Process.init .zero, false) p ∧
        ¬p.1.Stopped) ∧
      ∃ p, (TCPS.Client.Process.observed noCapture).Reaches
          (TCPS.Client.Process.init .zero, false) p ∧ ¬p.1.Stopped := by
  obtain ⟨s, hrun, hdone, hflag⟩ := run_noCapture_udp
  obtain ⟨t, hrun', hdone', hflag'⟩ := run_noCapture_tcp
  refine ⟨⟨(s, false), ⟨_, hrun⟩, ?_⟩, ⟨(t, false), ⟨_, hrun'⟩, ?_⟩⟩
  · intro hstopped
    exact Bool.false_ne_true (hflag.symm.trans (hstopped (Or.inl hdone)))
  · intro hstopped
    exact Bool.false_ne_true (hflag'.symm.trans (hstopped (Or.inl hdone')))

theorem stopped_iff_announced_noCapture :
    (OnlineTracks.Process.observed.Throughout (fun p => p.1.Stopped)
        (OnlineTracks.Process.init .zero, false) [.main, .audioCap .openCaptureError] ↔
      OnlineTracks.Process.observed.Respects OnlineTracks.Process.Announced
        (OnlineTracks.Process.init .zero, false) [.main, .audioCap .openCaptureError]) ∧
    ((TCPS.Client.Process.observed noCapture).Throughout (fun p => p.1.Stopped)
        (TCPS.Client.Process.init .zero, false) [.audioCap .openCapture] ↔
      (TCPS.Client.Process.observed noCapture).Respects (TCPS.Client.Process.Announced noCapture)
        (TCPS.Client.Process.init .zero, false) [.audioCap .openCapture]) := by
  obtain ⟨s, hrun, -⟩ := run_noCapture_udp
  obtain ⟨t, hrun', -⟩ := run_noCapture_tcp
  exact stopped_iff_announced hrun hrun'

end SilentReturn

end MediaStream
