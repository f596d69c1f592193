import MediaStream.CaptureSend
import MediaStream.OnlineTracks.Conversation

/-!
The audio of a conversation between `UDPconn1` and `UDPconn2`. `audio_cap` sends as
many bytes as it has captured, one datagram for each read, and an empty one after an
error it has recovered from. What `play_audio` gives to the sound card is one
datagram at a time.
-/

namespace MediaStream.OnlineTracks

open Lib

structure Log where
  captured : List Payload
  offered : List Payload

namespace Log

def empty : Log := ⟨[], []⟩

def after (log : Log) (s : Process) : Act → Log
  | .audioCap (.capture audio) => { log with captured := log.captured ++ [audio] }
  | .audioCap .recover => { log with captured := log.captured ++ [[]] }
  | .playAudio .write | .playAudio .underrun | .playAudio .writeError =>
    match s.playAudio with
    | .write buffer =>
      { log with
        offered := log.offered ++ [buffer.take (buffer.length / frameBytes * frameBytes)] }
    | _ => log
  | _ => log

end Log

def WholeFrames (audio : Payload) : Prop :=
  audio.length % frameBytes = 0 ∧ audio.length ≤ sizeofBuffer

namespace Process

def Unsent (s : Process) (unsent : List Payload) : Prop :=
  match s.audioCap with
  | .send frCapture => unsent = [s.payload frCapture]
  | .close | .done => unsent.length ≤ 1
  | _ => unsent = []

end Process

/-- A log agrees with the program, and with what `peer` has sent to it. -/
structure Recorded (s : Process) (log : Log) (peer : List Payload) : Prop where
  starts : s.Starts
  sent : ∃ unsent, log.captured = s.sent ++ unsent ∧ s.Unsent unsent
  whole : ∀ audio ∈ log.captured, WholeFrames audio
  write : ∀ buffer, s.playAudio = .write buffer → buffer ≠ [] ∧ buffer ∈ peer
  offered : ∀ audio ∈ log.offered, audio ≠ [] ∧ audio ∈ peer

section Steps

variable {s next : Process} {log : Log} {peer : List Payload}

theorem WholeFrames.take {audio : Payload} (h : WholeFrames audio) :
    audio.take (audio.length / frameBytes * frameBytes) = audio := by
  rw [Nat.div_mul_cancel (Nat.dvd_of_mod_eq_zero h.1), List.take_length]

theorem forall_whole_concat {captured : List Payload} {audio : Payload}
    (h : ∀ block ∈ captured, WholeFrames block) (haudio : WholeFrames audio) :
    ∀ block ∈ captured ++ [audio], WholeFrames block := by
  intro block hblock
  rcases List.mem_append.mp hblock with hold | hnew
  · exact h block hold
  · rwa [List.mem_singleton.mp hnew]

theorem recorded_audioCap {a : AudioCapAct} (h : Recorded s log peer)
    (hstep : Process.machine.step s (.audioCap a) = some next) :
    Recorded next (log.after s (.audioCap a)) peer := by
  obtain ⟨-, hmain, -, hplay⟩ := audioCap_step hstep
  obtain ⟨unsent, hcaptured, hunsent⟩ := h.sent
  have hstarts : s.audioCap ≠ .idle → next.Starts := by
    intro hbusy hstart
    exact absurd (h.starts (hmain ▸ hstart)) hbusy
  have hwrite : ∀ buffer, next.playAudio = .write buffer → buffer ≠ [] ∧ buffer ∈ peer := by
    rw [hplay]
    exact h.write
  cases audioCap_iff.mp hstep with
  | capture audio hpc hframes =>
    obtain rfl : unsent = [] := by simpa [Process.Unsent, hpc] using hunsent
    refine ⟨hstarts (by simp [hpc]), ⟨[audio], ?_, ?_⟩, forall_whole_concat h.whole hframes, hwrite,
      h.offered⟩
    · simp [Log.after, hcaptured]
    · exact congrArg (fun block => [block]) (payload_store hframes s.buffer).symm
  | recover hpc =>
    obtain rfl : unsent = [] := by simpa [Process.Unsent, hpc] using hunsent
    refine ⟨hstarts (by simp [hpc]), ⟨[[]], ?_, ?_⟩, ?_, hwrite, h.offered⟩
    · simp [Log.after, hcaptured]
    · simp [Process.Unsent, Process.payload]
    · exact forall_whole_concat h.whole ⟨rfl, Nat.zero_le _⟩
  | send frCapture hpc =>
    obtain rfl : unsent = [s.payload frCapture] := by simpa [Process.Unsent, hpc] using hunsent
    exact ⟨hstarts (by simp [hpc]), ⟨[], by simpa [Log.after] using hcaptured, rfl⟩,
      h.whole, hwrite, h.offered⟩
  | sendError frCapture hpc =>
    obtain rfl : unsent = [s.payload frCapture] := by simpa [Process.Unsent, hpc] using hunsent
    exact ⟨hstarts (by simp [hpc]), ⟨_, hcaptured, Nat.le_refl 1⟩, h.whole, hwrite, h.offered⟩
  | close hpc =>
    refine ⟨hstarts (by simp [hpc]), ⟨unsent, hcaptured, ?_⟩, h.whole, hwrite, h.offered⟩
    simpa [Process.Unsent, hpc] using hunsent
  | openCapture hpc | openCaptureError hpc | test hpc _ | stop hpc _ | captureError hpc
  | recoverError hpc =>
    obtain rfl : unsent = [] := by simpa [Process.Unsent, hpc] using hunsent
    exact ⟨hstarts (by simp [hpc]), ⟨[], hcaptured, by simp [Process.Unsent]⟩, h.whole, hwrite,
      h.offered⟩

theorem unsent_congr (hpoint : next.audioCap = s.audioCap) (hbuffer : next.buffer = s.buffer)
    (unsent : List Payload) : next.Unsent unsent ↔ s.Unsent unsent := by
  unfold Process.Unsent Process.payload
  rw [hpoint, hbuffer]

/-- What leaves `audio_cap` alone leaves its part of the log alone. -/
theorem Recorded.elsewhere {log' : Log} (h : Recorded s log peer) (hstarts : next.Starts)
    (hpoint : next.audioCap = s.audioCap) (hbuffer : next.buffer = s.buffer)
    (hsent : next.sent = s.sent) (hcaptured : log'.captured = log.captured)
    (hwrite : ∀ buffer, next.playAudio = .write buffer → buffer ≠ [] ∧ buffer ∈ peer)
    (hoffered : ∀ audio ∈ log'.offered, audio ≠ [] ∧ audio ∈ peer) :
    Recorded next log' peer := by
  obtain ⟨unsent, hall, hunsent⟩ := h.sent
  refine ⟨hstarts, ⟨unsent, by rw [hcaptured, hall, hsent], ?_⟩, hcaptured ▸ h.whole, hwrite,
    hoffered⟩
  exact (unsent_congr hpoint hbuffer unsent).mpr hunsent

theorem recorded_playAudio {a : PlayAudioAct} (h : Recorded s log peer)
    (hpeer : ∀ block ∈ peer, WholeFrames block)
    (hdelivered : ∀ payload, a = .recv payload → payload ∈ peer)
    (hstep : Process.machine.step s (.playAudio a) = some next) :
    Recorded next (log.after s (.playAudio a)) peer := by
  obtain ⟨-, hsent, hmain, -, hpoint⟩ := playAudio_step hstep
  have hbuffer : next.buffer = s.buffer := by
    cases playAudio_iff.mp hstep <;> rfl
  have hstarts : next.Starts := by
    unfold Process.Starts
    rw [hmain, hpoint]
    exact h.starts
  -- The calls of `snd_pcm_writei`, whatever they return.
  have hoffers : ∀ buffer, s.playAudio = .write buffer →
      ∀ audio ∈ log.offered ++ [buffer.take (buffer.length / frameBytes * frameBytes)],
        audio ≠ [] ∧ audio ∈ peer := by
    intro buffer hpc audio haudio
    obtain ⟨hsome, hmem⟩ := h.write buffer hpc
    rcases List.mem_append.mp haudio with hold | hnew
    · exact h.offered audio hold
    · rw [List.mem_singleton.mp hnew, (hpeer buffer hmem).take]
      exact ⟨hsome, hmem⟩
  cases playAudio_iff.mp hstep with
  | recv payload hpc hsome =>
    have hmem := hdelivered payload rfl
    have hfits : payload.take sizeofBuffer = payload :=
      List.take_of_length_le (hpeer payload hmem).2
    refine h.elsewhere hstarts hpoint hbuffer hsent rfl (fun buffer hbuffer => ?_) h.offered
    obtain rfl : payload = buffer := hfits.symm.trans (PlayAudio.write.inj hbuffer)
    exact ⟨hsome, hmem⟩
  | write buffer hpc | underrun buffer hpc | writeError buffer hpc =>
    refine h.elsewhere hstarts hpoint hbuffer hsent ?_ (fun _ => PlayAudio.noConfusion) ?_
    · simp only [Log.after, hpc]
    · simpa only [Log.after, hpc] using hoffers buffer hpc
  | openPlayback | openPlaybackError | test | stop | recvZero | recvError | prepare | prepareError
  | close =>
    exact h.elsewhere hstarts hpoint hbuffer hsent rfl (fun _ => PlayAudio.noConfusion) h.offered

theorem recorded_step {a : Act} (h : Recorded s log peer)
    (hpeer : ∀ block ∈ peer, WholeFrames block)
    (hdelivered : ∀ payload, a = .playAudio (.recv payload) → payload ∈ peer)
    (hstep : Process.machine.step s a = some next) : Recorded next (log.after s a) peer := by
  cases a with
  | audioCap a => exact recorded_audioCap h hstep
  | playAudio a =>
    exact recorded_playAudio h hpeer (fun payload ha => hdelivered payload (ha ▸ rfl)) hstep
  | main =>
    have hstarts := (elsewhere_captured (fun _ => Act.noConfusion) h.starts hstep).1
    cases main_iff.mp hstep with
    | startCapture hpc =>
      obtain ⟨unsent, hall, hunsent⟩ := h.sent
      have hidle := h.starts hpc
      refine ⟨hstarts, ⟨unsent, hall, ?_⟩, h.whole, h.write, h.offered⟩
      simpa [Process.Unsent, hidle] using hunsent
    | startPlayback hpc =>
      exact h.elsewhere hstarts rfl rfl rfl rfl (fun _ => PlayAudio.noConfusion) h.offered
    | lock | stopped | running | block | relock | unlock | joinCapture | joinPlayback | close =>
      exact h.elsewhere hstarts rfl rfl rfl rfl h.write h.offered
  | sigint =>
    have hstarts := (elsewhere_captured (fun _ => Act.noConfusion) h.starts hstep).1
    obtain rfl := Option.some.inj hstep
    exact h.elsewhere hstarts rfl rfl rfl rfl h.write h.offered
  | notifyAll =>
    have hstarts := (elsewhere_captured (fun _ => Act.noConfusion) h.starts hstep).1
    obtain ⟨-, hnext⟩ := Option.ite_none_right_eq_some.mp hstep
    obtain rfl := Option.some.inj hnext
    exact h.elsewhere hstarts rfl rfl rfl rfl h.write h.offered

theorem Recorded.mono {peer' : List Payload} (h : Recorded s log peer) (hpeer : peer ⊆ peer') :
    Recorded s log peer' where
  starts := h.starts
  sent := h.sent
  whole := h.whole
  write buffer hpc := (h.write buffer hpc).imp_right fun hmem => hpeer hmem
  offered audio haudio := (h.offered audio haudio).imp_right fun hmem => hpeer hmem

/-- What has been sent stays sent. -/
theorem sent_subset {a : Act} (hstep : Process.machine.step s a = some next) :
    s.sent ⊆ next.sent := by
  have hsame : next.sent = s.sent → s.sent ⊆ next.sent := fun h => h ▸ List.Subset.refl _
  cases a with
  | audioCap a =>
    rcases (audioCap_sent hstep).1 with heq | ⟨frCapture, -, hnew⟩
    · exact hsame heq
    · rw [hnew]
      exact List.subset_append_left _ _
  | playAudio a => exact hsame (playAudio_step hstep).2.1
  | main => exact hsame (main_step hstep).2.1
  | sigint => exact hsame (sigint_step hstep).2.1
  | notifyAll => exact hsame (notifyAll_step hstep).2.1

end Steps

namespace Conversation

def watch (s : Conversation) (a : Side × Act) (logs : Side → Log) : Side → Log :=
  Function.update logs a.1 ((logs a.1).after (s a.1) a.2)

def logged : Machine (Conversation × (Side → Log)) (Side × Act) := machine.monitored watch

/-- Both logs agree with their programs. -/
def Documented (p : Conversation × (Side → Log)) : Prop :=
  ∀ i, Recorded (p.1 i) (p.2 i) (p.1 i.other).sent

theorem Documented.whole {p : Conversation × (Side → Log)} (h : Documented p) (i : Side) :
    ∀ block ∈ (p.1 i).sent, WholeFrames block := by
  obtain ⟨unsent, hall, -⟩ := (h i).sent
  intro block hblock
  apply (h i).whole
  rw [hall]
  exact List.mem_append_left _ hblock

theorem documented_step {p next : Conversation × (Side → Log)} {a : Side × Act}
    (h : Documented p) (hstep : logged.step p a = some next) : Documented next := by
  obtain ⟨i, a⟩ := a
  obtain ⟨s, logs⟩ := p
  obtain ⟨s', logs'⟩ := next
  obtain ⟨hnext, hwatch⟩ := Machine.monitored_step.mp hstep
  obtain ⟨q, hq, hupdate, hdelivered⟩ := conversation_step hnext
  obtain rfl : Function.update s i q = s' := hupdate
  obtain rfl : watch s (i, a) logs = logs' := hwatch
  have hother : i.other ≠ i := by cases i <;> decide
  have hpeer : i.other.other = i := by cases i <;> rfl
  have hq' := recorded_step (h i) (h.whole i.other) hdelivered hq
  intro k
  by_cases hk : k = i
  · subst hk
    simpa [watch, Function.update_of_ne hother] using hq'
  · obtain rfl : k = i.other := by
      cases i <;> cases k <;> first | rfl | exact absurd rfl hk
    have hkept := (h i.other).mono (hpeer ▸ sent_subset hq)
    simpa [watch, Function.update_of_ne hother, hpeer] using hkept

theorem documented_init (buffer : Side → Buffer) :
    Documented (init buffer, fun _ => Log.empty) := by
  intro i
  exact ⟨fun _ => rfl, ⟨[], rfl, rfl⟩, List.forall_mem_nil _, fun _ => PlayAudio.noConfusion,
    List.forall_mem_nil _⟩

/-- Whatever fails on either side and whatever the network loses, doubles or holds back, a side has
sent its reads one by one, all but the last one at most, and what it gives to its sound card are
reads of the other side, each as a whole and none of them empty. -/
theorem plays_reads {buffer : Side → Buffer} {actions : List (Side × Act)} {s : Conversation}
    {logs : Side → Log}
    (hrun : logged.run (init buffer, fun _ => Log.empty) actions = some (s, logs)) (i : Side) :
    (∃ unsent, (logs i).captured = (s i).sent ++ unsent ∧ unsent.length ≤ 1) ∧
      ∀ audio ∈ (logs i).offered, audio ≠ [] ∧ audio ∈ (logs i.other).captured := by
  have h : Documented (s, logs) :=
    Machine.run_preserves (fun _ _ _ h hstep => documented_step h hstep)
      (documented_init buffer) hrun
  constructor
  · obtain ⟨unsent, hall, hunsent⟩ := (h i).sent
    refine ⟨unsent, hall, ?_⟩
    unfold Process.Unsent at hunsent
    split at hunsent <;> simp_all
  · intro audio haudio
    obtain ⟨hsome, hmem⟩ := (h i).offered audio haudio
    obtain ⟨unsent, hall, -⟩ := (h i.other).sent
    refine ⟨hsome, ?_⟩
    rw [hall]
    exact List.mem_append_left _ hmem

def oneFrame : List (Side × Act) :=
  [(.conn1, .main), (.conn2, .main), (.conn2, .main), (.conn2, .playAudio .openPlayback),
    (.conn2, .playAudio .test), (.conn1, .audioCap .openCapture), (.conn1, .audioCap .test),
    (.conn1, .audioCap (.capture [1, 2, 3, 4])), (.conn1, .audioCap .send),
    (.conn2, .playAudio (.recv [1, 2, 3, 4])), (.conn2, .playAudio .write)]

theorem plays_reads_oneFrame : ∃ s logs,
    logged.run (init fun _ => .zero, fun _ => Log.empty) oneFrame = some (s, logs) ∧
      (logs .conn2).offered = [[1, 2, 3, 4]] ∧ [1, 2, 3, 4] ∈ (logs .conn1).captured := by
  have hoffered : (logged.run (init fun _ => .zero, fun _ => Log.empty) oneFrame).map
      (fun p => (p.2 .conn2).offered) = some [[1, 2, 3, 4]] := by decide +kernel
  obtain ⟨⟨s, logs⟩, hrun, hlog⟩ := Option.map_eq_some_iff.mp hoffered
  have hmem : [1, 2, 3, 4] ∈ (logs .conn2).offered := by
    rw [show (logs .conn2).offered = [[1, 2, 3, 4]] from hlog]
    exact List.mem_singleton_self _
  exact ⟨s, logs, hrun, hlog, ((plays_reads hrun .conn2).2 _ hmem).2⟩

end Conversation

end MediaStream.OnlineTracks
