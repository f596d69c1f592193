import MediaStream.Lib.Bytes
import MediaStream.Lib.Machine

/-!
One process of `Online_Tracks`: `main`, `audio_cap`, `play_audio` and the handler
of SIGINT. `UDPconn1.cpp` and `UDPconn2.cpp` differ in their ports and addresses
only.

An action is what a thread does up to its next visible effect, with the results
of the calls it makes. The handler runs on any thread, between any two steps:
`sigint` sets the flag and `notifyAll` is the rest of it. `main` alone locks
`fn_mute`, so the mutex has no place in the state.
-/

namespace MediaStream.OnlineTracks

open Lib Lib.Bytes

abbrev Payload := List UInt8

/-- The constants of one program, under the names it gives them. -/
structure Config where
  port1 : UInt16
  port2 : UInt16
  client1Ip : String
  client2Ip : String

def udpconn1 : Config where
  port1 := 12345
  port2 := 54321
  client1Ip := "192.168.1.83"
  client2Ip := "192.168.1.85"

def udpconn2 : Config where
  port1 := 54321
  port2 := 12345
  client1Ip := "192.168.1.85"
  client2Ip := "192.168.1.83"

/-- `BUFFSIZE`, in frames. -/
def buffSize : Nat := 1024

def frameBytes : Nat := 2 * 2

/-- `sizeof(buffer)` of both threads. -/
def sizeofBuffer : Nat := buffSize * frameBytes

abbrev Buffer := Bytes.Buffer sizeofBuffer

inductive AudioCap where
  /-- `capture_th` does not exist yet. -/
  | idle
  | openCapture
  /-- At the test of `stop_streaming`. -/
  | test
  | capture
  /-- At `snd_pcm_recover`. -/
  | recover
  | send (frCapture : Nat)
  /-- Past the loop. -/
  | close
  | done
  deriving DecidableEq

inductive PlayAudio where
  | idle
  | openPlayback
  | test
  | recv
  /-- At `snd_pcm_writei`, with the bytes that have been received. -/
  | write (buffer : Payload)
  /-- At `snd_pcm_prepare`. -/
  | prepare
  | close
  | done
  deriving DecidableEq

inductive Main where
  | startCapture
  | startPlayback
  | lock
  /-- In `stop_condition.wait`, at the test of the predicate. -/
  | testStop
  /-- The predicate was false: `main` releases `fn_mute` and blocks. -/
  | block
  | waiting
  /-- Notified. -/
  | relock
  | unlock
  | joinCapture
  | joinPlayback
  | close
  | done
  deriving DecidableEq

structure Process where
  stopStreaming : Bool
  buffer : Buffer
  audioCap : AudioCap
  playAudio : PlayAudio
  main : Main
  /-- Running handlers that have not come to `notify_all`. -/
  notifying : Nat
  /-- The datagrams sent so far. -/
  sent : List Payload

/-- `buffer` is not initialised. -/
def Process.init (buffer : Buffer) : Process where
  stopStreaming := false
  buffer := buffer
  audioCap := .idle
  playAudio := .idle
  main := .startCapture
  notifying := 0
  sent := []

inductive AudioCapAct where
  | openCapture
  | openCaptureError
  | test
  /-- `snd_pcm_readi` returns the frames of `audio`. -/
  | capture (audio : List UInt8)
  | captureError
  /-- `snd_pcm_recover` returns zero. -/
  | recover
  | recoverError
  | send
  | sendError
  | close
  deriving DecidableEq

inductive PlayAudioAct where
  | openPlayback
  | openPlaybackError
  | test
  | recv (payload : Payload)
  | recvError
  | write
  /-- `snd_pcm_writei` returns `-EPIPE`. -/
  | underrun
  | writeError
  | prepare
  | prepareError
  | close
  deriving DecidableEq

inductive Act where
  | audioCap (a : AudioCapAct)
  | playAudio (a : PlayAudioAct)
  | main
  | sigint
  | notifyAll
  deriving DecidableEq

namespace Process

/-- What `sendto` is called with: `byte_send` bytes from the start of `buffer`. -/
def payload (s : Process) (frCapture : Nat) : Payload :=
  s.buffer.bytes.take (frCapture * frameBytes)

theorem payload_eq_nil {s : Process} {frCapture : Nat} :
    s.payload frCapture = [] ↔ frCapture = 0 := by
  rw [payload, Bytes.Buffer.take_eq_nil (by decide), Nat.mul_eq_zero]
  exact or_iff_left (by decide)

def audioCapStep (s : Process) : AudioCapAct → AudioCap → Option Process
  | .openCapture, .openCapture => some { s with audioCap := .test }
  | .openCaptureError, .openCapture => some { s with audioCap := .done }
  | .test, .test => some { s with audioCap := if s.stopStreaming then .close else .capture }
  | .capture audio, .capture =>
    if audio.length % frameBytes = 0 ∧ audio.length ≤ sizeofBuffer then
      some { s with
        buffer := s.buffer.store audio
        audioCap := .send (audio.length / frameBytes) }
    else none
  | .captureError, .capture => some { s with audioCap := .recover }
  | .recover, .recover => some { s with audioCap := .send 0 }
  | .recoverError, .recover => some { s with audioCap := .close }
  | .send, .send frCapture =>
    some { s with sent := s.sent ++ [s.payload frCapture], audioCap := .test }
  | .sendError, .send _ => some { s with stopStreaming := true, audioCap := .close }
  | .close, .close => some { s with audioCap := .done }
  | _, _ => none

def playAudioStep (s : Process) : PlayAudioAct → PlayAudio → Option Process
  | .openPlayback, .openPlayback => some { s with playAudio := .test }
  | .openPlaybackError, .openPlayback => some { s with playAudio := .done }
  | .test, .test => some { s with playAudio := if s.stopStreaming then .close else .recv }
  | .recv payload, .recv =>
    -- `byte_num` is the length of what fits into `buffer`.
    let received := payload.take sizeofBuffer
    if received.length = 0 then some { s with stopStreaming := true, playAudio := .close }
    else some { s with playAudio := .write received }
  | .recvError, .recv => some { s with stopStreaming := true, playAudio := .close }
  | .write, .write _ => some { s with playAudio := .test }
  | .underrun, .write _ => some { s with playAudio := .prepare }
  | .writeError, .write _ => some { s with stopStreaming := true, playAudio := .close }
  | .prepare, .prepare => some { s with playAudio := .test }
  | .prepareError, .prepare => some { s with stopStreaming := true, playAudio := .close }
  | .close, .close => some { s with playAudio := .done }
  | _, _ => none

def mainStep (s : Process) : Main → Option Process
  | .startCapture => some { s with audioCap := .openCapture, main := .startPlayback }
  | .startPlayback => some { s with playAudio := .openPlayback, main := .lock }
  | .lock => some { s with main := .testStop }
  | .testStop => some { s with main := if s.stopStreaming then .unlock else .block }
  | .block => some { s with main := .waiting }
  | .waiting => none
  | .relock => some { s with main := .testStop }
  | .unlock => some { s with main := .joinCapture }
  | .joinCapture => if s.audioCap = .done then some { s with main := .joinPlayback } else none
  | .joinPlayback => if s.playAudio = .done then some { s with main := .close } else none
  | .close => some { s with main := .done }
  | .done => none

def step (s : Process) : Act → Option Process
  | .audioCap a => s.audioCapStep a s.audioCap
  | .playAudio a => s.playAudioStep a s.playAudio
  | .main => s.mainStep s.main
  | .sigint => some { s with stopStreaming := true, notifying := s.notifying + 1 }
  | .notifyAll =>
    if 0 < s.notifying then
      some { s with
        notifying := s.notifying - 1
        main := if s.main = .waiting then .relock else s.main }
    else none

def machine : Machine Process Act := ⟨step⟩

end Process

/-- Every way a step of `audio_cap` can go, with its guards. -/
inductive AudioCapStep (s : Process) : AudioCapAct → Process → Prop where
  | openCapture (hpc : s.audioCap = .openCapture) :
      AudioCapStep s .openCapture { s with audioCap := .test }
  | openCaptureError (hpc : s.audioCap = .openCapture) :
      AudioCapStep s .openCaptureError { s with audioCap := .done }
  | test (hpc : s.audioCap = .test) (hflag : s.stopStreaming = false) :
      AudioCapStep s .test { s with audioCap := .capture }
  | stop (hpc : s.audioCap = .test) (hflag : s.stopStreaming = true) :
      AudioCapStep s .test { s with audioCap := .close }
  | capture (audio : List UInt8) (hpc : s.audioCap = .capture)
      (hframes : audio.length % frameBytes = 0 ∧ audio.length ≤ sizeofBuffer) :
      AudioCapStep s (.capture audio)
        { s with
          buffer := s.buffer.store audio
          audioCap := .send (audio.length / frameBytes) }
  | captureError (hpc : s.audioCap = .capture) :
      AudioCapStep s .captureError { s with audioCap := .recover }
  | recover (hpc : s.audioCap = .recover) :
      AudioCapStep s .recover { s with audioCap := .send 0 }
  | recoverError (hpc : s.audioCap = .recover) :
      AudioCapStep s .recoverError { s with audioCap := .close }
  | send (frCapture : Nat) (hpc : s.audioCap = .send frCapture) :
      AudioCapStep s .send { s with sent := s.sent ++ [s.payload frCapture], audioCap := .test }
  | sendError (frCapture : Nat) (hpc : s.audioCap = .send frCapture) :
      AudioCapStep s .sendError { s with stopStreaming := true, audioCap := .close }
  | close (hpc : s.audioCap = .close) :
      AudioCapStep s .close { s with audioCap := .done }

inductive PlayAudioStep (s : Process) : PlayAudioAct → Process → Prop where
  | openPlayback (hpc : s.playAudio = .openPlayback) :
      PlayAudioStep s .openPlayback { s with playAudio := .test }
  | openPlaybackError (hpc : s.playAudio = .openPlayback) :
      PlayAudioStep s .openPlaybackError { s with playAudio := .done }
  | test (hpc : s.playAudio = .test) (hflag : s.stopStreaming = false) :
      PlayAudioStep s .test { s with playAudio := .recv }
  | stop (hpc : s.playAudio = .test) (hflag : s.stopStreaming = true) :
      PlayAudioStep s .test { s with playAudio := .close }
  | recv (payload : Payload) (hpc : s.playAudio = .recv) (hsome : payload ≠ []) :
      PlayAudioStep s (.recv payload)
        { s with playAudio := .write (payload.take sizeofBuffer) }
  | recvZero (hpc : s.playAudio = .recv) :
      PlayAudioStep s (.recv []) { s with stopStreaming := true, playAudio := .close }
  | recvError (hpc : s.playAudio = .recv) :
      PlayAudioStep s .recvError { s with stopStreaming := true, playAudio := .close }
  | write (buffer : Payload) (hpc : s.playAudio = .write buffer) :
      PlayAudioStep s .write { s with playAudio := .test }
  | underrun (buffer : Payload) (hpc : s.playAudio = .write buffer) :
      PlayAudioStep s .underrun { s with playAudio := .prepare }
  | writeError (buffer : Payload) (hpc : s.playAudio = .write buffer) :
      PlayAudioStep s .writeError { s with stopStreaming := true, playAudio := .close }
  | prepare (hpc : s.playAudio = .prepare) :
      PlayAudioStep s .prepare { s with playAudio := .test }
  | prepareError (hpc : s.playAudio = .prepare) :
      PlayAudioStep s .prepareError { s with stopStreaming := true, playAudio := .close }
  | close (hpc : s.playAudio = .close) :
      PlayAudioStep s .close { s with playAudio := .done }

inductive MainStep (s : Process) : Process → Prop where
  | startCapture (hpc : s.main = .startCapture) :
      MainStep s { s with audioCap := .openCapture, main := .startPlayback }
  | startPlayback (hpc : s.main = .startPlayback) :
      MainStep s { s with playAudio := .openPlayback, main := .lock }
  | lock (hpc : s.main = .lock) : MainStep s { s with main := .testStop }
  | stopped (hpc : s.main = .testStop) (hflag : s.stopStreaming = true) :
      MainStep s { s with main := .unlock }
  | running (hpc : s.main = .testStop) (hflag : s.stopStreaming = false) :
      MainStep s { s with main := .block }
  | block (hpc : s.main = .block) : MainStep s { s with main := .waiting }
  | relock (hpc : s.main = .relock) : MainStep s { s with main := .testStop }
  | unlock (hpc : s.main = .unlock) : MainStep s { s with main := .joinCapture }
  | joinCapture (hpc : s.main = .joinCapture) (hdone : s.audioCap = .done) :
      MainStep s { s with main := .joinPlayback }
  | joinPlayback (hpc : s.main = .joinPlayback) (hdone : s.playAudio = .done) :
      MainStep s { s with main := .close }
  | close (hpc : s.main = .close) : MainStep s { s with main := .done }

/-- The branches of `audio_cap` that set `stop_streaming`. -/
def AudioCapAct.stops : AudioCapAct → Bool
  | sendError => true
  | _ => false

def PlayAudioAct.stops : PlayAudioAct → Bool
  | recv payload => payload = []
  | recvError | writeError | prepareError => true
  | _ => false

/-- A worker's step that sets `stop_streaming` without notifying. -/
def Act.silentStop : Act → Bool
  | audioCap a => a.stops
  | playAudio a => a.stops
  | _ => false

section Threads

variable {s next : Process}

theorem received_eq_nil {payload : Payload} :
    (payload.take sizeofBuffer).length = 0 ↔ payload = [] := by
  rw [List.length_eq_zero_iff, List.take_eq_nil_iff]
  constructor
  · rintro (hsize | hnil)
    · exact absurd hsize (by decide)
    · exact hnil
  · exact Or.inr

theorem audioCap_iff {a : AudioCapAct} :
    Process.machine.step s (.audioCap a) = some next ↔ AudioCapStep s a next := by
  change s.audioCapStep a s.audioCap = some next ↔ _
  constructor
  · intro h
    cases a <;> cases hpc : s.audioCap <;>
      simp only [hpc, Process.audioCapStep, Option.ite_none_right_eq_some, reduceCtorEq,
        Option.some.injEq] at h
    case test.test =>
      split at h
      · next hflag => exact h ▸ .stop hpc hflag
      · next hflag => exact h ▸ .test hpc (Bool.of_not_eq_true hflag)
    case capture.capture audio =>
      obtain ⟨hframes, rfl⟩ := h
      exact .capture audio hpc hframes
    case openCapture.openCapture => exact h ▸ .openCapture hpc
    case openCaptureError.openCapture => exact h ▸ .openCaptureError hpc
    case captureError.capture => exact h ▸ .captureError hpc
    case recover.recover => exact h ▸ .recover hpc
    case recoverError.recover => exact h ▸ .recoverError hpc
    case send.send frCapture => exact h ▸ .send frCapture hpc
    case sendError.send frCapture => exact h ▸ .sendError frCapture hpc
    case close.close => exact h ▸ .close hpc
  · intro h
    cases h with
    | test hpc hflag | stop hpc hflag =>
      rw [hpc, Process.audioCapStep, hflag]
      rfl
    | capture audio hpc hframes => rw [hpc, Process.audioCapStep, if_pos hframes]
    | openCapture hpc | openCaptureError hpc | captureError hpc | recover hpc
    | recoverError hpc | send _ hpc | sendError _ hpc | close hpc =>
      rw [hpc]
      rfl

theorem playAudio_iff {a : PlayAudioAct} :
    Process.machine.step s (.playAudio a) = some next ↔ PlayAudioStep s a next := by
  change s.playAudioStep a s.playAudio = some next ↔ _
  constructor
  · intro h
    cases a <;> cases hpc : s.playAudio <;>
      simp only [hpc, Process.playAudioStep, received_eq_nil, reduceCtorEq,
        Option.some.injEq] at h
    case test.test =>
      split at h
      · next hflag => exact h ▸ .stop hpc hflag
      · next hflag => exact h ▸ .test hpc (Bool.of_not_eq_true hflag)
    case recv.recv payload =>
      split at h
      · next hnil =>
        subst hnil
        exact Option.some.inj h ▸ .recvZero hpc
      · next hsome => exact Option.some.inj h ▸ .recv payload hpc hsome
    case openPlayback.openPlayback => exact h ▸ .openPlayback hpc
    case openPlaybackError.openPlayback => exact h ▸ .openPlaybackError hpc
    case recvError.recv => exact h ▸ .recvError hpc
    case write.write buffer => exact h ▸ .write buffer hpc
    case underrun.write buffer => exact h ▸ .underrun buffer hpc
    case writeError.write buffer => exact h ▸ .writeError buffer hpc
    case prepare.prepare => exact h ▸ .prepare hpc
    case prepareError.prepare => exact h ▸ .prepareError hpc
    case close.close => exact h ▸ .close hpc
  · intro h
    cases h with
    | test hpc hflag | stop hpc hflag =>
      rw [hpc, Process.playAudioStep, hflag]
      rfl
    | recv payload hpc hsome =>
      rw [hpc, Process.playAudioStep, if_neg (received_eq_nil.not.mpr hsome)]
    | recvZero hpc | openPlayback hpc | openPlaybackError hpc | recvError hpc | write _ hpc
    | underrun _ hpc | writeError _ hpc | prepare hpc | prepareError hpc | close hpc =>
      rw [hpc]
      rfl

theorem main_iff : Process.machine.step s .main = some next ↔ MainStep s next := by
  change s.mainStep s.main = some next ↔ _
  constructor
  · intro h
    cases hpc : s.main <;>
      simp only [hpc, Process.mainStep, Option.ite_none_right_eq_some, reduceCtorEq,
        Option.some.injEq] at h
    case startCapture => exact h ▸ .startCapture hpc
    case startPlayback => exact h ▸ .startPlayback hpc
    case lock => exact h ▸ .lock hpc
    case testStop =>
      split at h
      · next hflag => exact h ▸ .stopped hpc hflag
      · next hflag => exact h ▸ .running hpc (Bool.of_not_eq_true hflag)
    case block => exact h ▸ .block hpc
    case relock => exact h ▸ .relock hpc
    case unlock => exact h ▸ .unlock hpc
    case joinCapture =>
      obtain ⟨hdone, rfl⟩ := h
      exact .joinCapture hpc hdone
    case joinPlayback =>
      obtain ⟨hdone, rfl⟩ := h
      exact .joinPlayback hpc hdone
    case close => exact h ▸ .close hpc
  · intro h
    cases h with
    | stopped hpc hflag | running hpc hflag =>
      rw [hpc, Process.mainStep, hflag]
      rfl
    | joinCapture hpc hdone | joinPlayback hpc hdone =>
      rw [hpc, Process.mainStep, if_pos hdone]
    | startCapture hpc | startPlayback hpc | lock hpc | block hpc | relock hpc | unlock hpc
    | close hpc =>
      rw [hpc]
      rfl

/-- What the others see of a step of `audio_cap`. -/
theorem audioCap_step {a : AudioCapAct} (h : Process.machine.step s (.audioCap a) = some next) :
    next.stopStreaming = (s.stopStreaming || a.stops) ∧ next.main = s.main ∧
      next.notifying = s.notifying ∧ next.playAudio = s.playAudio := by
  cases audioCap_iff.mp h <;> simp [AudioCapAct.stops]

/-- What `audio_cap` sends, and after which calls it sends nothing. -/
theorem audioCap_sent {a : AudioCapAct} (h : Process.machine.step s (.audioCap a) = some next) :
    (next.sent = s.sent ∨
      ∃ frCapture, s.audioCap = .send frCapture ∧ next.sent = s.sent ++ [s.payload frCapture]) ∧
    (next.audioCap = .send 0 → a = .recover ∨ a = .capture []) := by
  cases audioCap_iff.mp h with
  | send frCapture hpc => exact ⟨Or.inr ⟨frCapture, hpc, rfl⟩, AudioCap.noConfusion⟩
  | capture audio hpc hframes =>
    refine ⟨Or.inl rfl, fun hsend => Or.inr ?_⟩
    have hzero : audio.length / frameBytes = 0 := AudioCap.send.inj hsend
    have hlen := Nat.div_add_mod audio.length frameBytes
    rw [hzero, hframes.1, Nat.mul_zero, Nat.add_zero] at hlen
    rw [List.length_eq_zero_iff.mp hlen.symm]
  | recover => exact ⟨Or.inl rfl, fun _ => Or.inl rfl⟩
  | openCapture | openCaptureError | test | stop | captureError | recoverError | sendError
  | close => exact ⟨Or.inl rfl, AudioCap.noConfusion⟩

/-- What the others see of a step of `play_audio`. -/
theorem playAudio_step {a : PlayAudioAct}
    (h : Process.machine.step s (.playAudio a) = some next) :
    next.stopStreaming = (s.stopStreaming || a.stops) ∧ next.sent = s.sent ∧
      next.main = s.main ∧ next.notifying = s.notifying ∧ next.audioCap = s.audioCap := by
  cases playAudio_iff.mp h with
  | recv payload hpc hsome => simp [PlayAudioAct.stops, hsome]
  | _ => simp [PlayAudioAct.stops]

/-- `main` only reads the flag. -/
theorem main_step (h : Process.machine.step s .main = some next) :
    next.stopStreaming = s.stopStreaming ∧ next.sent = s.sent ∧
      next.notifying = s.notifying ∧
      (next.audioCap = s.audioCap ∨ next.audioCap = .openCapture) := by
  cases main_iff.mp h <;> simp

/-- `main` blocks at one point only. -/
theorem main_waiting_iff (h : Process.machine.step s .main = some next) :
    next.main = .waiting ↔ s.main = .block := by
  cases main_iff.mp h with
  | block hpc => exact iff_of_true rfl hpc
  | startCapture hpc | startPlayback hpc | lock hpc | stopped hpc _ | running hpc _ | relock hpc
  | unlock hpc | joinCapture hpc _ | joinPlayback hpc _ | close hpc => simp [hpc]

theorem sigint_step (h : Process.machine.step s .sigint = some next) :
    next.stopStreaming = true ∧ next.sent = s.sent ∧ next.main = s.main ∧
      next.notifying = s.notifying + 1 ∧ next.audioCap = s.audioCap := by
  obtain rfl := Option.some.inj h
  exact ⟨rfl, rfl, rfl, rfl, rfl⟩

theorem notifyAll_step (h : Process.machine.step s .notifyAll = some next) :
    next.stopStreaming = s.stopStreaming ∧ next.sent = s.sent ∧ next.main ≠ .waiting ∧
      0 < s.notifying ∧ next.audioCap = s.audioCap := by
  change (if 0 < s.notifying then _ else _) = _ at h
  rw [Option.ite_none_right_eq_some] at h
  obtain ⟨hpos, hnext⟩ := h
  obtain rfl := Option.some.inj hnext
  refine ⟨rfl, rfl, ?_, hpos, rfl⟩
  by_cases hwaiting : s.main = .waiting
  · simp [hwaiting]
  · simp [hwaiting]

/-- Who sets the flag. -/
theorem stopStreaming_step {a : Act} (h : Process.machine.step s a = some next)
    (ha : a ≠ .sigint) : next.stopStreaming = (s.stopStreaming || a.silentStop) := by
  cases a with
  | audioCap a => exact (audioCap_step h).1
  | playAudio a => exact (playAudio_step h).1
  | main => simp [(main_step h).1, Act.silentStop]
  | sigint => exact absurd rfl ha
  | notifyAll => simp [(notifyAll_step h).1, Act.silentStop]

/-- A step leaves nothing empty to be sent, unless `snd_pcm_readi` came back
without frames. -/
theorem send_zero_step {a : Act} (h : Process.machine.step s a = some next)
    (hsend : next.audioCap = .send 0) :
    s.audioCap = .send 0 ∨ a = .audioCap .recover ∨ a = .audioCap (.capture []) := by
  cases a with
  | audioCap a =>
    rcases (audioCap_sent h).2 hsend with rfl | rfl
    · exact Or.inr (Or.inl rfl)
    · exact Or.inr (Or.inr rfl)
  | playAudio a =>
    obtain ⟨-, -, -, -, hcap⟩ := playAudio_step h
    exact Or.inl (hcap.symm.trans hsend)
  | main =>
    obtain ⟨-, -, -, hcap | hcap⟩ := main_step h
    · exact Or.inl (hcap.symm.trans hsend)
    · cases hcap.symm.trans hsend
  | sigint =>
    obtain ⟨-, -, -, -, hcap⟩ := sigint_step h
    exact Or.inl (hcap.symm.trans hsend)
  | notifyAll =>
    obtain ⟨-, -, -, -, hcap⟩ := notifyAll_step h
    exact Or.inl (hcap.symm.trans hsend)

/-- An empty datagram is the work of a thread that is about to send nothing. -/
theorem sent_nil_step {a : Act} (h : Process.machine.step s a = some next)
    (hsent : [] ∈ next.sent) : [] ∈ s.sent ∨ s.audioCap = .send 0 := by
  cases a with
  | audioCap a =>
    obtain ⟨hsame | ⟨frCapture, hpc, hnew⟩, -⟩ := audioCap_sent h
    · exact Or.inl (hsame ▸ hsent)
    · rw [hnew, List.mem_append, List.mem_singleton, eq_comm, Process.payload_eq_nil] at hsent
      rcases hsent with hold | rfl
      · exact Or.inl hold
      · exact Or.inr hpc
  | playAudio a =>
    obtain ⟨-, hsame, -⟩ := playAudio_step h
    exact Or.inl (hsame ▸ hsent)
  | main =>
    obtain ⟨-, hsame, -⟩ := main_step h
    exact Or.inl (hsame ▸ hsent)
  | sigint =>
    obtain ⟨-, hsame, -⟩ := sigint_step h
    exact Or.inl (hsame ▸ hsent)
  | notifyAll =>
    obtain ⟨-, hsame, -⟩ := notifyAll_step h
    exact Or.inl (hsame ▸ hsent)

end Threads

end MediaStream.OnlineTracks
