import MediaStream.TCPattempt.Client

/-!
When `TCPclient2.cpp` comes to an end. Nobody but the two threads sets
`stop_streaming`, and `main` waits for both: a thread that leaves its loop without
setting the flag leaves the other one running. The flag is looked at once in a
round, and no call is given up for its sake.
-/

namespace MediaStream.TCPattempt

open Lib

def AudioCap.leaves (cfg : Setup) : AudioCap → Bool
  | closeLocal | done => true
  | openCapture => !cfg.captureOpens
  | _ => false

def PlayAudio.leaves (cfg : Setup) : PlayAudio → Bool
  | closeLocal | done => true
  | openPlayback => !cfg.playbackOpens
  | _ => false

def AudioCap.left : AudioCap → Bool
  | closeLocal | done => true
  | _ => false

def PlayAudio.left : PlayAudio → Bool
  | closeLocal | done => true
  | _ => false

/-- The thread is in a call that returns only when the other side lets it: `send`, or
`recv`. The calls of the sound library return by themselves. -/
def AudioCap.waits : AudioCap → Bool
  | send _ | sendLocal _ => true
  | _ => false

def PlayAudio.waits : PlayAudio → Bool
  | recv | sendLocal _ => true
  | _ => false

/-- Two steps of `audio_cap` leave without setting the flag. -/
def AudioCapAct.announced (cfg : Setup) (stop : Bool) : AudioCapAct → Prop
  | openCapture => cfg.captureOpens = false → stop = true
  | recoverError => stop = true
  | _ => True

def PlayAudioAct.announced (cfg : Setup) (stop : Bool) : PlayAudioAct → Prop
  | openPlayback => cfg.playbackOpens = false → stop = true
  | _ => True

/-- The steps of a thread that finds the flag set, at most. -/
def AudioCap.rank : AudioCap → Nat
  | openCapture => 3
  | capture => 6
  | recover => 5
  | send _ => 4
  | sendLocal _ => 3
  | test => 2
  | closeLocal => 1
  | done => 0

def PlayAudio.rank : PlayAudio → Nat
  | openPlayback => 3
  | recv => 6
  | write _ => 5
  | prepare _ => 4
  | sendLocal _ => 3
  | test => 2
  | closeLocal => 1
  | done => 0

def Main.rank : Main → Nat
  | joinCapture => 3
  | joinPlayback => 2
  | closeSockfd => 1
  | done => 0

namespace Process

/-- The flag is set, or neither thread needs it. -/
def Ending (cfg : Setup) (s : Process) : Prop :=
  s.stopStreaming = true ∨ s.audioCap.leaves cfg = true ∧ s.playAudio.leaves cfg = true

def rank (s : Process) : Nat := s.audioCap.rank + s.playAudio.rank + s.main.rank

/-- The step is not the return of a call that may be kept waiting. -/
def Own (s : Process) : Act → Prop
  | .audioCap _ => s.audioCap.waits = false
  | .playAudio _ => s.playAudio.waits = false
  | .main => True

/-- A thread is kept waiting in `send` or `recv`, and the other one is so too or has
returned. -/
def Waits (s : Process) : Prop :=
  (s.audioCap.waits = true ∨ s.playAudio.waits = true) ∧
    (s.audioCap.waits = true ∨ s.audioCap = .done) ∧
    (s.playAudio.waits = true ∨ s.playAudio = .done)

/-- A thread that has left its loop has left the flag set. -/
def Announces (s : Process) : Prop :=
  s.audioCap.left = true ∨ s.playAudio.left = true → s.stopStreaming = true

/-- The ways out on which nobody sets the flag are taken when it is set. -/
def AnnouncedBefore (cfg : Setup) (s : Process) : Act → Prop
  | .audioCap a => a.announced cfg s.stopStreaming
  | .playAudio a => a.announced cfg s.stopStreaming
  | .main => True

end Process

section Moves

variable {cfg : Setup} {stop stop' : Bool}

theorem audioCap_ends {pc pc' : AudioCap} {a : AudioCapAct} {calls : List Call}
    (h : AudioCapMove cfg stop pc a pc' calls stop') :
    (stop = true → stop' = true) ∧
      (stop = true ∨ pc.leaves cfg = true → pc'.rank < pc.rank) ∧
      (pc.leaves cfg = true → pc'.leaves cfg = true) := by
  cases h with
  | openCapture hdevice | openCaptureError hdevice =>
    simp [AudioCap.leaves, AudioCap.rank, hdevice]
  | test hflag | stop hflag => simp [AudioCap.leaves, AudioCap.rank, hflag]
  | capture | captureError | recover | recoverError | send | sendError | sendLocal
  | sendLocalError | close => simp [AudioCap.leaves, AudioCap.rank]

theorem playAudio_ends {pc pc' : PlayAudio} {a : PlayAudioAct} {calls : List Call}
    (h : PlayAudioMove cfg stop pc a pc' calls stop') :
    (stop = true → stop' = true) ∧
      (stop = true ∨ pc.leaves cfg = true → pc'.rank < pc.rank) ∧
      (pc.leaves cfg = true → pc'.leaves cfg = true) := by
  cases h with
  | openPlayback hdevice | openPlaybackError hdevice =>
    simp [PlayAudio.leaves, PlayAudio.rank, hdevice]
  | test hflag | stop hflag => simp [PlayAudio.leaves, PlayAudio.rank, hflag]
  | recv | recvEnd | write | underrun | writeError | prepare | prepareError | sendLocal
  | sendLocalError | close => simp [PlayAudio.leaves, PlayAudio.rank]

theorem audioCap_announces {pc pc' : AudioCap} {a : AudioCapAct} {calls : List Call}
    (h : AudioCapMove cfg stop pc a pc' calls stop') (hbefore : pc.left = true → stop = true) :
    (pc'.left = true → stop' = true) ↔ a.announced cfg stop := by
  cases h with
  | openCapture hdevice | openCaptureError hdevice =>
    simp [AudioCap.left, AudioCapAct.announced, hdevice]
  | test hflag | stop hflag => simp [AudioCap.left, AudioCapAct.announced, hflag]
  | close => simpa [AudioCap.left, AudioCapAct.announced] using hbefore
  | capture | captureError | recover | recoverError | send | sendError | sendLocal
  | sendLocalError => simp [AudioCap.left, AudioCapAct.announced]

theorem playAudio_announces {pc pc' : PlayAudio} {a : PlayAudioAct} {calls : List Call}
    (h : PlayAudioMove cfg stop pc a pc' calls stop') (hbefore : pc.left = true → stop = true) :
    (pc'.left = true → stop' = true) ↔ a.announced cfg stop := by
  cases h with
  | openPlayback hdevice | openPlaybackError hdevice =>
    simp [PlayAudio.left, PlayAudioAct.announced, hdevice]
  | test hflag | stop hflag => simp [PlayAudio.left, PlayAudioAct.announced, hflag]
  | close => simpa [PlayAudio.left, PlayAudioAct.announced] using hbefore
  | recv | recvEnd | write | underrun | writeError | prepare | prepareError | sendLocal
  | sendLocalError => simp [PlayAudio.left, PlayAudioAct.announced]

end Moves

section Steps

variable {cfg : Setup} {s next : Process}

theorem ending_step {a : Act} (h : s.Ending cfg)
    (hstep : (Process.machine cfg).step s a = some next) :
    next.Ending cfg ∧ next.rank < s.rank := by
  cases a with
  | audioCap a =>
    obtain ⟨calls, hmove, -, hplay, hmain, -⟩ := audioCap_move hstep
    obtain ⟨hflag, hrank, hleaves⟩ := audioCap_ends hmove
    constructor
    · rw [Process.Ending, hplay]
      exact h.imp hflag fun hboth => ⟨hleaves hboth.1, hboth.2⟩
    · have hless := hrank (h.imp_right And.left)
      unfold Process.rank
      rw [hplay, hmain]
      omega
  | playAudio a =>
    obtain ⟨calls, hmove, -, hcap, hmain⟩ := playAudio_move hstep
    obtain ⟨hflag, hrank, hleaves⟩ := playAudio_ends hmove
    constructor
    · rw [Process.Ending, hcap]
      exact h.imp hflag fun hboth => ⟨hboth.1, hleaves hboth.2⟩
    · have hless := hrank (h.imp_right And.right)
      unfold Process.rank
      rw [hcap, hmain]
      omega
  | main =>
    rcases main_cases hstep with ⟨hpc, -, rfl⟩ | ⟨hpc, -, rfl⟩ | ⟨hpc, rfl⟩
    all_goals
      refine ⟨h, ?_⟩
      simp only [Process.rank, Process.call, hpc, Main.rank]
      omega

theorem exists_audioCapStep (cfg : Setup) (h : s.audioCap ≠ .done) :
    ∃ a next, s.audioCapStep cfg a s.audioCap = some next := by
  cases hpc : s.audioCap with
  | openCapture => exact ⟨.openCapture, _, rfl⟩
  | test => exact ⟨.test, _, rfl⟩
  | capture => exact ⟨.captureError, _, rfl⟩
  | recover => exact ⟨.recover, _, rfl⟩
  | send audio => exact ⟨.send, _, rfl⟩
  | sendLocal audio => exact ⟨.sendLocal, _, rfl⟩
  | closeLocal => exact ⟨.close, _, rfl⟩
  | done => exact absurd hpc h

theorem exists_playAudioStep (cfg : Setup) (h : s.playAudio ≠ .done) :
    ∃ a next, s.playAudioStep cfg a s.playAudio = some next := by
  cases hpc : s.playAudio with
  | openPlayback => exact ⟨.openPlayback, _, rfl⟩
  | test => exact ⟨.test, _, rfl⟩
  | recv => exact ⟨.recvEnd, _, rfl⟩
  | write buffer => exact ⟨.underrun, _, rfl⟩
  | prepare buffer => exact ⟨.prepare, _, rfl⟩
  | sendLocal buffer => exact ⟨.sendLocal, _, rfl⟩
  | closeLocal => exact ⟨.close, _, rfl⟩
  | done => exact absurd hpc h

/-- Whoever is neither done nor kept waiting can do something, and `main` waits only
for the threads. -/
theorem own_step_or_waits (h : s.main ≠ .done) :
    (∃ a next, (Process.machine cfg).step s a = some next ∧ s.Own a) ∨ s.Waits := by
  by_cases hcap : s.audioCap = .done ∨ s.audioCap.waits = true
  · by_cases hplay : s.playAudio = .done ∨ s.playAudio.waits = true
    · by_cases hwaits : s.audioCap.waits = true ∨ s.playAudio.waits = true
      · exact Or.inr ⟨hwaits, hcap.symm, hplay.symm⟩
      obtain ⟨hcapWaits, hplayWaits⟩ := not_or.mp hwaits
      have hcapDone := hcap.resolve_right hcapWaits
      have hplayDone := hplay.resolve_right hplayWaits
      have hmain : ∃ next, s.mainStep s.main = some next := by
        cases hpc : s.main with
        | joinCapture => exact ⟨_, if_pos hcapDone⟩
        | joinPlayback => exact ⟨_, if_pos hplayDone⟩
        | closeSockfd => exact ⟨_, rfl⟩
        | done => exact absurd hpc h
      obtain ⟨next, hnext⟩ := hmain
      exact Or.inl ⟨.main, next, hnext, trivial⟩
    · obtain ⟨hdone, hwaits⟩ := not_or.mp hplay
      obtain ⟨a, next, hnext⟩ := exists_playAudioStep cfg hdone
      exact Or.inl ⟨.playAudio a, next, hnext, eq_false_of_ne_true hwaits⟩
  · obtain ⟨hdone, hwaits⟩ := not_or.mp hcap
    obtain ⟨a, next, hnext⟩ := exists_audioCapStep cfg hdone
    exact Or.inl ⟨.audioCap a, next, hnext, eq_false_of_ne_true hwaits⟩

/-- A thread that is still in its loop can go round. -/
theorem going_step (h : ¬s.Ending cfg) :
    ∃ a next, (Process.machine cfg).step s a = some next ∧ ¬next.Ending cfg := by
  obtain ⟨hflag, hboth⟩ := not_or.mp h
  have hflag : s.stopStreaming = false := by simpa using hflag
  by_cases hcap : s.audioCap.leaves cfg = true
  · have hplay : s.playAudio.leaves cfg = false := by
      simpa using fun hplay => hboth ⟨hcap, hplay⟩
    have hmove : ∃ a next, s.playAudioStep cfg a s.playAudio = some next ∧
        next.stopStreaming = false ∧ next.playAudio.leaves cfg = false := by
      cases hpc : s.playAudio with
      | openPlayback =>
        have hopens : cfg.playbackOpens = true := by simpa [hpc, PlayAudio.leaves] using hplay
        exact ⟨.openPlayback, _, rfl, hflag, by simp [hopens, PlayAudio.leaves]⟩
      | test => exact ⟨.test, _, rfl, hflag, by simp [hflag, PlayAudio.leaves]⟩
      | recv => exact ⟨.recv [0], _, rfl, hflag, rfl⟩
      | write buffer => exact ⟨.underrun, _, rfl, hflag, rfl⟩
      | prepare buffer => exact ⟨.prepare, _, rfl, hflag, rfl⟩
      | sendLocal buffer => exact ⟨.sendLocal, _, rfl, hflag, rfl⟩
      | closeLocal | done => simp [hpc, PlayAudio.leaves] at hplay
    obtain ⟨a, next, hnext, hstop, hgoes⟩ := hmove
    refine ⟨.playAudio a, next, hnext, ?_⟩
    simp [Process.Ending, hstop, hgoes]
  · have hcap : s.audioCap.leaves cfg = false := by simpa using hcap
    have hmove : ∃ a next, s.audioCapStep cfg a s.audioCap = some next ∧
        next.stopStreaming = false ∧ next.audioCap.leaves cfg = false := by
      cases hpc : s.audioCap with
      | openCapture =>
        have hopens : cfg.captureOpens = true := by simpa [hpc, AudioCap.leaves] using hcap
        exact ⟨.openCapture, _, rfl, hflag, by simp [hopens, AudioCap.leaves]⟩
      | test => exact ⟨.test, _, rfl, hflag, by simp [hflag, AudioCap.leaves]⟩
      | capture => exact ⟨.captureError, _, rfl, hflag, rfl⟩
      | recover => exact ⟨.recover, _, rfl, hflag, rfl⟩
      | send audio => exact ⟨.send, _, rfl, hflag, rfl⟩
      | sendLocal audio => exact ⟨.sendLocal, _, rfl, hflag, rfl⟩
      | closeLocal | done => simp [hpc, AudioCap.leaves] at hcap
    obtain ⟨a, next, hnext, hstop, hgoes⟩ := hmove
    refine ⟨.audioCap a, next, hnext, ?_⟩
    simp [Process.Ending, hstop, hgoes]

theorem announces_step {a : Act} (h : s.Announces)
    (hstep : (Process.machine cfg).step s a = some next) :
    next.Announces ↔ s.AnnouncedBefore cfg a := by
  cases a with
  | audioCap a =>
    obtain ⟨calls, hmove, -, hplay, -⟩ := audioCap_move hstep
    have hown := audioCap_announces hmove fun hleft => h (Or.inl hleft)
    have hother : s.playAudio.left = true → next.stopStreaming = true :=
      fun hleft => (audioCap_ends hmove).1 (h (Or.inr hleft))
    unfold Process.Announces
    rw [hplay, or_imp, hown]
    exact and_iff_left hother
  | playAudio a =>
    obtain ⟨calls, hmove, -, hcap, -⟩ := playAudio_move hstep
    have hown := playAudio_announces hmove fun hleft => h (Or.inr hleft)
    have hother : s.audioCap.left = true → next.stopStreaming = true :=
      fun hleft => (playAudio_ends hmove).1 (h (Or.inl hleft))
    unfold Process.Announces
    rw [hcap, or_imp, hown]
    exact and_iff_right hother
  | main =>
    rcases main_cases hstep with ⟨-, -, rfl⟩ | ⟨-, -, rfl⟩ | ⟨-, rfl⟩
    all_goals exact iff_of_true h trivial

end Steps

section Runs

variable {cfg : Setup} {s finish : Process} {actions : List Act}

theorem ending_run (h : s.Ending cfg) (hrun : (Process.machine cfg).run s actions = some finish) :
    actions.length ≤ s.rank := by
  induction actions generalizing s with
  | nil => exact Nat.zero_le _
  | cons a rest ih =>
    obtain ⟨next, hstep, hrest⟩ := Option.bind_eq_some_iff.mp hrun
    obtain ⟨hnext, hless⟩ := ending_step h hstep
    exact Nat.succ_le_of_lt (Nat.lt_of_le_of_lt (ih hnext hrest) hless)

theorem going_run (h : ¬s.Ending cfg) (n : Nat) :
    ∃ actions finish, (Process.machine cfg).run s actions = some finish ∧ actions.length = n := by
  induction n generalizing s with
  | zero => exact ⟨[], s, rfl, rfl⟩
  | succ n ih =>
    obtain ⟨a, next, hstep, hnext⟩ := going_step h
    obtain ⟨actions, finish, hrun, hlen⟩ := ih hnext
    refine ⟨a :: actions, finish, ?_, by rw [List.length_cons, hlen]⟩
    rw [Machine.run_cons, hstep]
    exact hrun

theorem rank_le (s : Process) : s.rank ≤ 15 := by
  have hcap : s.audioCap.rank ≤ 6 := by cases s.audioCap <;> simp [AudioCap.rank]
  have hplay : s.playAudio.rank ≤ 6 := by cases s.playAudio <;> simp [PlayAudio.rank]
  have hmain : s.main.rank ≤ 3 := by cases s.main <;> simp [Main.rank]
  unfold Process.rank
  omega

/-- The client ends with the next fifteen steps, whatever they are and in whatever
order, exactly if the flag is set or neither thread can get back to testing it.
Until `main` has returned, it is only in `send` and `recv` that it can be kept from
going on. From any other state there are runs of every length. -/
theorem ends_within_iff (s : Process) :
    ((∀ actions finish, (Process.machine cfg).run s actions = some finish →
      actions.length ≤ 15 ∧ (finish.main = .done ∨ finish.Waits ∨
        ∃ a next, (Process.machine cfg).step finish a = some next ∧ finish.Own a)) ↔
      s.Ending cfg) ∧
    (¬s.Ending cfg → ∀ n, ∃ actions finish,
      (Process.machine cfg).run s actions = some finish ∧ actions.length = n) := by
  refine ⟨⟨fun h => ?_, fun h actions finish hrun => ?_⟩, going_run⟩
  · by_contra hgoing
    obtain ⟨actions, finish, hrun, hlen⟩ := going_run hgoing 16
    have hshort := (h actions finish hrun).1
    omega
  · refine ⟨Nat.le_trans (ending_run h hrun) (rank_le s), ?_⟩
    by_cases hdone : finish.main = .done
    · exact Or.inl hdone
    · exact Or.inr (own_step_or_waits hdone).symm

/-- Throughout a run a thread that has left its loop has left the flag set, exactly if
the flag was set before any failure of `snd_pcm_recover` and before any device could
not be opened. -/
theorem announces_throughout_iff
    (hrun : (Process.machine cfg).run .init actions = some finish) :
    (Process.machine cfg).Throughout Process.Announces .init actions ↔
      (Process.machine cfg).Respects (Process.AnnouncedBefore cfg) .init actions := by
  apply Machine.throughout_iff_respects_of_step _ _ hrun
  · intro s a next hgood hstep
    exact announces_step hgood hstep
  · rintro (hleft | hleft) <;> cases hleft

def unrecovered : List Act :=
  [.audioCap .openCapture, .audioCap .test, .audioCap .captureError, .audioCap .recoverError]

theorem announces_throughout_iff_unrecovered :
    (Process.machine ⟨true, true⟩).Throughout Process.Announces .init unrecovered ↔
      (Process.machine ⟨true, true⟩).Respects (Process.AnnouncedBefore ⟨true, true⟩) .init
        unrecovered := by
  have hrun : ∃ s, (Process.machine ⟨true, true⟩).run .init unrecovered = some s := ⟨_, rfl⟩
  obtain ⟨s, hrun⟩ := hrun
  exact announces_throughout_iff hrun

end Runs

end MediaStream.TCPattempt
