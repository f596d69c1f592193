import Mathlib.Algebra.Group.Int.Defs
import MediaStream.Lib.Bytes
import MediaStream.Lib.Machine

/-!
The streaming client `TCPSC.cpp`: `main`, `audio_cap` and `play_audio` from the
moment both threads exist. What has happened before, the connections to the
server and to the two Python views, is a `Setup`; it also says whether the sound
card can be opened.

An action is what a thread does up to its next call on a socket, with the results
of its calls. `calls` records these calls. A call with descriptor -1 fails and
names no socket.
-/

namespace MediaStream.TCPS.Client

open Lib Lib.Bytes

def buffSize : Nat := 1024

def frameBytes : Nat := 2 * 2

/-- `sizeof(buffer)` of both threads. -/
def sizeofBuffer : Nat := buffSize * frameBytes

def maxRetries : Nat := 5

/-- `while (retries-- > 0)`, which a `connect` that succeeds leaves: `retries` after it,
and the calls of `connect`. The loop has made `attempt` attempts before. -/
def retryLoop (connects : Nat → Bool) : Nat → Nat → Int × Nat
  | 0, _ => (-1, 0)
  | retries + 1, attempt =>
    if connects attempt then (retries, 1)
    else
      let later := retryLoop connects retries (attempt + 1)
      (later.1, later.2 + 1)

/-- The sockets, under the names `main` gives their descriptors. -/
inductive Socket where
  | sockfd
  | localSockfdCap
  | localSockfdPlayback
  deriving DecidableEq

/-- What `main` and the threads meet before their loops. The server connection
stands. -/
structure Setup where
  /-- The outcomes of `connect`, if `socket` gives a socket for the capture view. -/
  cap : Option (Nat → Bool)
  playback : Option (Nat → Bool)
  captureOpens : Bool
  playbackOpens : Bool

/-- `if (retries <= 0)` the descriptor becomes -1. -/
def kept (connects : Nat → Bool) : Bool := ¬(retryLoop connects maxRetries 0).1 ≤ 0

/-- The socket that the descriptor of a view names when the threads start. -/
def viewSocket (socket : Socket) (view : Option (Nat → Bool)) : Option Socket :=
  if view.any kept then some socket else none

namespace Setup

def localSockfdCap (cfg : Setup) : Option Socket := viewSocket .localSockfdCap cfg.cap

def localSockfdPlayback (cfg : Setup) : Option Socket :=
  viewSocket .localSockfdPlayback cfg.playback

def opened (cfg : Setup) : Socket → Bool
  | .sockfd => true
  | .localSockfdCap => cfg.cap.isSome
  | .localSockfdPlayback => cfg.playback.isSome

end Setup

/-- A call on a socket. An error, or the end of the stream, comes without bytes. -/
inductive Call where
  | send (socket : Socket) (bytes : Option (List UInt8))
  | recv (socket : Socket) (bytes : Option (List UInt8))
  | close (socket : Socket)
  deriving DecidableEq

def Call.socket : Call → Socket
  | send socket _ | recv socket _ | close socket => socket

inductive AudioCap where
  | openCapture
  /-- At the test of `stop_streaming`. -/
  | test
  | capture
  /-- At `snd_pcm_recover`. -/
  | recover
  | send (frCapture : Nat) (timestamp : Int)
  /-- At the `send` for the Python visualizer. -/
  | sendPacket (frCapture : Nat) (timestamp : Int)
  /-- Past the loop. -/
  | closeSockfd
  | closeLocal
  | done
  deriving DecidableEq

inductive PlayAudio where
  | openPlayback
  | test
  | recv
  /-- At `snd_pcm_writei`, with the bytes that have been received. -/
  | write (buffer : List UInt8)
  /-- At `snd_pcm_prepare`. -/
  | prepare (buffer : List UInt8)
  /-- At the `send` for the Python visualizer. -/
  | sendLocal (buffer : List UInt8)
  | closeLocal
  | done
  deriving DecidableEq

/-- Program points of `main` after the threads have been started. -/
inductive Main where
  | joinCapture
  | joinPlayback
  | closeSockfd
  | closeCap
  | closePlayback
  | done
  deriving DecidableEq

structure Process where
  stopStreaming : Bool
  /-- The `buffer` of `audio_cap`. -/
  buffer : Bytes.Buffer sizeofBuffer
  audioCap : AudioCap
  playAudio : PlayAudio
  main : Main
  /-- The frames that `snd_pcm_writei` has taken. -/
  played : List UInt8
  calls : List Call

/-- `buffer` is not initialised. -/
def Process.init (buffer : Bytes.Buffer sizeofBuffer) : Process where
  stopStreaming := false
  buffer := buffer
  audioCap := .openCapture
  playAudio := .openPlayback
  main := .joinCapture
  played := []
  calls := []

inductive AudioCapAct where
  | openCapture
  | test
  /-- `snd_pcm_readi` returns the frames of `audio`, and the clock is read. -/
  | capture (audio : List UInt8) (now : Int)
  | captureError
  /-- `snd_pcm_recover` returns zero. -/
  | recover (now : Int)
  | recoverError
  | send
  | sendError
  | sendPacket
  | sendPacketError
  | close
  deriving DecidableEq

inductive PlayAudioAct where
  | openPlayback
  | test
  | recv (bytes : List UInt8)
  /-- `recv` returns zero or fails. -/
  | recvEnd
  /-- `snd_pcm_writei` takes a number of frames. -/
  | write (frames : Nat)
  /-- `snd_pcm_writei` returns `-EPIPE`. -/
  | underrun
  | writeError
  | prepare
  | prepareError
  | sendLocal
  | sendLocalError
  | close
  deriving DecidableEq

inductive Act where
  | audioCap (a : AudioCapAct)
  | playAudio (a : PlayAudioAct)
  | main
  deriving DecidableEq

def framesPlay (buffer : List UInt8) : Nat := buffer.length / frameBytes

namespace Process

/-- The bytes `byte_send` at the start of `buffer`. -/
def captured (s : Process) (frCapture : Nat) : List UInt8 :=
  s.buffer.bytes.take (frCapture * frameBytes)

/-- `packet`: the timestamp as an `int64_t`, and the captured bytes. -/
def packet (s : Process) (frCapture : Nat) (timestamp : Int) : List UInt8 :=
  le 8 (timestamp % 2 ^ 64).toNat ++ s.captured frCapture

def call (s : Process) (socket : Option Socket) (c : Socket → Call) : Process :=
  { s with calls := s.calls ++ (socket.map c).toList }

def audioCapStep (cfg : Setup) (s : Process) : AudioCapAct → AudioCap → Option Process
  | .openCapture, .openCapture =>
    some { s with audioCap := if cfg.captureOpens then .test else .done }
  | .test, .test => some { s with audioCap := if s.stopStreaming then .closeSockfd else .capture }
  | .capture audio now, .capture =>
    if audio.length % frameBytes = 0 ∧ audio.length ≤ sizeofBuffer then
      some { s with
        buffer := s.buffer.store audio
        audioCap := .send (audio.length / frameBytes) now }
    else none
  | .captureError, .capture => some { s with audioCap := .recover }
  | .recover now, .recover => some { s with audioCap := .send 0 now }
  | .recoverError, .recover => some { s with audioCap := .closeSockfd }
  | .send, .send frCapture timestamp =>
    some { s.call (some .sockfd) (.send · (s.captured frCapture)) with
      audioCap := .sendPacket frCapture timestamp }
  | .sendError, .send _ _ =>
    some { s.call (some .sockfd) (.send · none) with
      stopStreaming := true
      audioCap := .closeSockfd }
  | .sendPacket, .sendPacket frCapture timestamp =>
    if cfg.localSockfdCap = none then none
    else some { s.call cfg.localSockfdCap (.send · (s.packet frCapture timestamp)) with
      audioCap := .test }
  | .sendPacketError, .sendPacket _ _ =>
    some { s.call cfg.localSockfdCap (.send · none) with
      stopStreaming := true
      audioCap := .closeSockfd }
  | .close, .closeSockfd => some { s.call (some .sockfd) .close with audioCap := .closeLocal }
  | .close, .closeLocal => some { s.call cfg.localSockfdCap .close with audioCap := .done }
  | _, _ => none

def playAudioStep (cfg : Setup) (s : Process) : PlayAudioAct → PlayAudio → Option Process
  | .openPlayback, .openPlayback =>
    some { s with playAudio := if cfg.playbackOpens then .test else .done }
  | .test, .test => some { s with playAudio := if s.stopStreaming then .closeLocal else .recv }
  | .recv bytes, .recv =>
    if 0 < bytes.length ∧ bytes.length ≤ sizeofBuffer then
      some { s.call (some .sockfd) (.recv · bytes) with playAudio := .write bytes }
    else none
  | .recvEnd, .recv =>
    some { s.call (some .sockfd) (.recv · none) with
      stopStreaming := true
      playAudio := .closeLocal }
  | .write frames, .write buffer =>
    if frames ≤ framesPlay buffer then
      some { s with
        played := s.played ++ buffer.take (frames * frameBytes)
        playAudio := .sendLocal buffer }
    else none
  | .underrun, .write buffer => some { s with playAudio := .prepare buffer }
  | .writeError, .write _ => some { s with stopStreaming := true, playAudio := .closeLocal }
  | .prepare, .prepare buffer => some { s with playAudio := .sendLocal buffer }
  | .prepareError, .prepare _ => some { s with stopStreaming := true, playAudio := .closeLocal }
  | .sendLocal, .sendLocal buffer =>
    if cfg.localSockfdPlayback = none then none
    else some { s.call cfg.localSockfdPlayback (.send · buffer) with playAudio := .test }
  | .sendLocalError, .sendLocal _ =>
    some { s.call cfg.localSockfdPlayback (.send · none) with
      stopStreaming := true
      playAudio := .closeLocal }
  | .close, .closeLocal => some { s.call cfg.localSockfdPlayback .close with playAudio := .done }
  | _, _ => none

def mainStep (cfg : Setup) (s : Process) : Main → Option Process
  | .joinCapture => if s.audioCap = .done then some { s with main := .joinPlayback } else none
  | .joinPlayback => if s.playAudio = .done then some { s with main := .closeSockfd } else none
  | .closeSockfd => some { s.call (some .sockfd) .close with main := .closeCap }
  | .closeCap => some { s.call cfg.localSockfdCap .close with main := .closePlayback }
  | .closePlayback => some { s.call cfg.localSockfdPlayback .close with main := .done }
  | .done => none

def step (cfg : Setup) (s : Process) : Act → Option Process
  | .audioCap a => s.audioCapStep cfg a s.audioCap
  | .playAudio a => s.playAudioStep cfg a s.playAudio
  | .main => s.mainStep cfg s.main

def machine (cfg : Setup) : Machine Process Act := ⟨step cfg⟩

end Process

/-- Every way a step of `audio_cap` can go, with its guards. -/
inductive AudioCapStep (cfg : Setup) (s : Process) : AudioCapAct → Process → Prop where
  | openCapture (hpc : s.audioCap = .openCapture) (hdevice : cfg.captureOpens = true) :
      AudioCapStep cfg s .openCapture { s with audioCap := .test }
  | openCaptureError (hpc : s.audioCap = .openCapture) (hdevice : cfg.captureOpens = false) :
      AudioCapStep cfg s .openCapture { s with audioCap := .done }
  | test (hpc : s.audioCap = .test) (hflag : s.stopStreaming = false) :
      AudioCapStep cfg s .test { s with audioCap := .capture }
  | stop (hpc : s.audioCap = .test) (hflag : s.stopStreaming = true) :
      AudioCapStep cfg s .test { s with audioCap := .closeSockfd }
  | capture (audio : List UInt8) (now : Int) (hpc : s.audioCap = .capture)
      (hframes : audio.length % frameBytes = 0 ∧ audio.length ≤ sizeofBuffer) :
      AudioCapStep cfg s (.capture audio now)
        { s with
          buffer := s.buffer.store audio
          audioCap := .send (audio.length / frameBytes) now }
  | captureError (hpc : s.audioCap = .capture) :
      AudioCapStep cfg s .captureError { s with audioCap := .recover }
  | recover (now : Int) (hpc : s.audioCap = .recover) :
      AudioCapStep cfg s (.recover now) { s with audioCap := .send 0 now }
  | recoverError (hpc : s.audioCap = .recover) :
      AudioCapStep cfg s .recoverError { s with audioCap := .closeSockfd }
  | send (frCapture : Nat) (timestamp : Int) (hpc : s.audioCap = .send frCapture timestamp) :
      AudioCapStep cfg s .send
        { s.call (some .sockfd) (.send · (s.captured frCapture)) with
          audioCap := .sendPacket frCapture timestamp }
  | sendError (frCapture : Nat) (timestamp : Int) (hpc : s.audioCap = .send frCapture timestamp) :
      AudioCapStep cfg s .sendError
        { s.call (some .sockfd) (.send · none) with
          stopStreaming := true
          audioCap := .closeSockfd }
  | sendPacket (frCapture : Nat) (timestamp : Int)
      (hpc : s.audioCap = .sendPacket frCapture timestamp)
      (hview : cfg.localSockfdCap = some .localSockfdCap) :
      AudioCapStep cfg s .sendPacket
        { s.call (some .localSockfdCap) (.send · (s.packet frCapture timestamp)) with
          audioCap := .test }
  | sendPacketError (frCapture : Nat) (timestamp : Int)
      (hpc : s.audioCap = .sendPacket frCapture timestamp) :
      AudioCapStep cfg s .sendPacketError
        { s.call cfg.localSockfdCap (.send · none) with
          stopStreaming := true
          audioCap := .closeSockfd }
  | closeSockfd (hpc : s.audioCap = .closeSockfd) :
      AudioCapStep cfg s .close
        { s.call (some .sockfd) .close with audioCap := .closeLocal }
  | closeLocal (hpc : s.audioCap = .closeLocal) :
      AudioCapStep cfg s .close
        { s.call cfg.localSockfdCap .close with audioCap := .done }

inductive PlayAudioStep (cfg : Setup) (s : Process) : PlayAudioAct → Process → Prop where
  | openPlayback (hpc : s.playAudio = .openPlayback) (hdevice : cfg.playbackOpens = true) :
      PlayAudioStep cfg s .openPlayback { s with playAudio := .test }
  | openPlaybackError (hpc : s.playAudio = .openPlayback)
      (hdevice : cfg.playbackOpens = false) :
      PlayAudioStep cfg s .openPlayback { s with playAudio := .done }
  | test (hpc : s.playAudio = .test) (hflag : s.stopStreaming = false) :
      PlayAudioStep cfg s .test { s with playAudio := .recv }
  | stop (hpc : s.playAudio = .test) (hflag : s.stopStreaming = true) :
      PlayAudioStep cfg s .test { s with playAudio := .closeLocal }
  | recv (bytes : List UInt8) (hpc : s.playAudio = .recv)
      (hsize : 0 < bytes.length ∧ bytes.length ≤ sizeofBuffer) :
      PlayAudioStep cfg s (.recv bytes)
        { s.call (some .sockfd) (.recv · bytes) with playAudio := .write bytes }
  | recvEnd (hpc : s.playAudio = .recv) :
      PlayAudioStep cfg s .recvEnd
        { s.call (some .sockfd) (.recv · none) with
          stopStreaming := true
          playAudio := .closeLocal }
  | write (frames : Nat) (buffer : List UInt8) (hpc : s.playAudio = .write buffer)
      (hframes : frames ≤ framesPlay buffer) :
      PlayAudioStep cfg s (.write frames)
        { s with
          played := s.played ++ buffer.take (frames * frameBytes)
          playAudio := .sendLocal buffer }
  | underrun (buffer : List UInt8) (hpc : s.playAudio = .write buffer) :
      PlayAudioStep cfg s .underrun { s with playAudio := .prepare buffer }
  | writeError (buffer : List UInt8) (hpc : s.playAudio = .write buffer) :
      PlayAudioStep cfg s .writeError
        { s with stopStreaming := true, playAudio := .closeLocal }
  | prepare (buffer : List UInt8) (hpc : s.playAudio = .prepare buffer) :
      PlayAudioStep cfg s .prepare { s with playAudio := .sendLocal buffer }
  | prepareError (buffer : List UInt8) (hpc : s.playAudio = .prepare buffer) :
      PlayAudioStep cfg s .prepareError
        { s with stopStreaming := true, playAudio := .closeLocal }
  | sendLocal (buffer : List UInt8) (hpc : s.playAudio = .sendLocal buffer)
      (hview : cfg.localSockfdPlayback = some .localSockfdPlayback) :
      PlayAudioStep cfg s .sendLocal
        { s.call (some .localSockfdPlayback) (.send · buffer) with playAudio := .test }
  | sendLocalError (buffer : List UInt8) (hpc : s.playAudio = .sendLocal buffer) :
      PlayAudioStep cfg s .sendLocalError
        { s.call cfg.localSockfdPlayback (.send · none) with
          stopStreaming := true
          playAudio := .closeLocal }
  | close (hpc : s.playAudio = .closeLocal) :
      PlayAudioStep cfg s .close
        { s.call cfg.localSockfdPlayback .close with playAudio := .done }

inductive MainStep (cfg : Setup) (s : Process) : Process → Prop where
  | joinCapture (hpc : s.main = .joinCapture) (hdone : s.audioCap = .done) :
      MainStep cfg s { s with main := .joinPlayback }
  | joinPlayback (hpc : s.main = .joinPlayback) (hdone : s.playAudio = .done) :
      MainStep cfg s { s with main := .closeSockfd }
  | closeSockfd (hpc : s.main = .closeSockfd) :
      MainStep cfg s { s.call (some .sockfd) .close with main := .closeCap }
  | closeCap (hpc : s.main = .closeCap) :
      MainStep cfg s { s.call cfg.localSockfdCap .close with main := .closePlayback }
  | closePlayback (hpc : s.main = .closePlayback) :
      MainStep cfg s { s.call cfg.localSockfdPlayback .close with main := .done }

/-- The descriptor is kept exactly when an attempt but the last of the budget
succeeds. -/
theorem retryLoop_pos_iff {connects : Nat → Bool} (retries attempt : Nat) :
    0 < (retryLoop connects retries attempt).1 ↔
      ∃ i, i + 1 < retries ∧ connects (attempt + i) = true := by
  induction retries generalizing attempt with
  | zero => simp [retryLoop]
  | succ retries ih =>
    unfold retryLoop
    cases hfirst : connects attempt with
    | true =>
      simp only [if_true, Int.natCast_pos]
      constructor
      · intro hpos
        exact ⟨0, by omega, hfirst⟩
      · rintro ⟨i, hi, -⟩
        omega
    | false =>
      simp only [Bool.false_eq_true, if_false, ih]
      constructor
      · rintro ⟨i, hi, hconnects⟩
        exact ⟨i + 1, by omega, by rwa [Nat.add_comm i, ← Nat.add_assoc]⟩
      · rintro ⟨i, hi, hconnects⟩
        cases i with
        | zero => exact absurd (hfirst.symm.trans hconnects) Bool.false_ne_true
        | succ i => exact ⟨i, by omega, by rwa [Nat.add_assoc, Nat.add_comm 1]⟩

theorem kept_iff {connects : Nat → Bool} :
    kept connects = true ↔ ∃ i < 4, connects i = true := by
  have hbound : ∀ i, i + 1 < maxRetries ↔ i < 4 := by
    intro i
    unfold maxRetries
    omega
  rw [kept, decide_eq_true_iff, Int.not_le, retryLoop_pos_iff]
  simp only [hbound, Nat.zero_add]

theorem viewSocket_cases (socket : Socket) (view : Option (Nat → Bool)) :
    viewSocket socket view = none ∨ viewSocket socket view = some socket := by
  unfold viewSocket
  split
  · exact Or.inr rfl
  · exact Or.inl rfl

/-- A view keeps its socket when one of the first four attempts succeeds. -/
theorem viewSocket_eq_some {socket : Socket} {view : Option (Nat → Bool)} :
    viewSocket socket view = some socket ↔
      ∃ connects, view = some connects ∧ ∃ attempt < 4, connects attempt = true := by
  cases view with
  | none => simp [viewSocket]
  | some connects => simp [viewSocket, kept_iff]

theorem localSockfdCap_cases (cfg : Setup) :
    cfg.localSockfdCap = none ∨ cfg.localSockfdCap = some .localSockfdCap :=
  viewSocket_cases _ _

theorem localSockfdPlayback_cases (cfg : Setup) :
    cfg.localSockfdPlayback = none ∨ cfg.localSockfdPlayback = some .localSockfdPlayback :=
  viewSocket_cases _ _

section Threads

variable {cfg : Setup} {s next : Process}

theorem audioCap_iff {a : AudioCapAct} :
    (Process.machine cfg).step s (.audioCap a) = some next ↔ AudioCapStep cfg s a next := by
  change s.audioCapStep cfg a s.audioCap = some next ↔ _
  constructor
  · intro h
    cases a <;> cases hpc : s.audioCap <;>
      simp only [hpc, Process.audioCapStep, Option.ite_none_right_eq_some,
        Option.ite_none_left_eq_some, reduceCtorEq, Option.some.injEq] at h
    case openCapture.openCapture =>
      subst h
      cases hdevice : cfg.captureOpens with
      | true => exact .openCapture hpc hdevice
      | false => exact .openCaptureError hpc hdevice
    case test.test =>
      split at h
      · next hflag => exact h ▸ .stop hpc hflag
      · next hflag => exact h ▸ .test hpc (Bool.of_not_eq_true hflag)
    case capture.capture audio now =>
      obtain ⟨hframes, rfl⟩ := h
      exact .capture audio now hpc hframes
    case captureError.capture => exact h ▸ .captureError hpc
    case recover.recover now => exact h ▸ .recover now hpc
    case recoverError.recover => exact h ▸ .recoverError hpc
    case send.send frCapture timestamp => exact h ▸ .send frCapture timestamp hpc
    case sendError.send frCapture timestamp => exact h ▸ .sendError frCapture timestamp hpc
    case sendPacket.sendPacket frCapture timestamp =>
      obtain ⟨hsocket, rfl⟩ := h
      have hview := (localSockfdCap_cases cfg).resolve_left hsocket
      rw [hview]
      exact .sendPacket frCapture timestamp hpc hview
    case sendPacketError.sendPacket frCapture timestamp =>
      exact h ▸ .sendPacketError frCapture timestamp hpc
    case close.closeSockfd => exact h ▸ .closeSockfd hpc
    case close.closeLocal => exact h ▸ .closeLocal hpc
  · intro h
    cases h with
    | openCapture hpc hdevice | openCaptureError hpc hdevice =>
      rw [hpc, Process.audioCapStep, hdevice]
      rfl
    | test hpc hflag | stop hpc hflag =>
      rw [hpc, Process.audioCapStep, hflag]
      rfl
    | capture audio now hpc hframes => rw [hpc, Process.audioCapStep, if_pos hframes]
    | sendPacket frCapture timestamp hpc hview =>
      rw [hpc, Process.audioCapStep, hview, if_neg (Option.some_ne_none _)]
    | captureError hpc | recover _ hpc | recoverError hpc | send _ _ hpc | sendError _ _ hpc
    | sendPacketError _ _ hpc | closeSockfd hpc | closeLocal hpc =>
      rw [hpc]
      rfl

theorem playAudio_iff {a : PlayAudioAct} :
    (Process.machine cfg).step s (.playAudio a) = some next ↔ PlayAudioStep cfg s a next := by
  change s.playAudioStep cfg a s.playAudio = some next ↔ _
  constructor
  · intro h
    cases a <;> cases hpc : s.playAudio <;>
      simp only [hpc, Process.playAudioStep, Option.ite_none_right_eq_some,
        Option.ite_none_left_eq_some, reduceCtorEq, Option.some.injEq] at h
    case openPlayback.openPlayback =>
      subst h
      cases hdevice : cfg.playbackOpens with
      | true => exact .openPlayback hpc hdevice
      | false => exact .openPlaybackError hpc hdevice
    case test.test =>
      split at h
      · next hflag => exact h ▸ .stop hpc hflag
      · next hflag => exact h ▸ .test hpc (Bool.of_not_eq_true hflag)
    case recv.recv bytes =>
      obtain ⟨hsize, rfl⟩ := h
      exact .recv bytes hpc hsize
    case recvEnd.recv => exact h ▸ .recvEnd hpc
    case write.write frames buffer =>
      obtain ⟨hframes, rfl⟩ := h
      exact .write frames buffer hpc hframes
    case underrun.write buffer => exact h ▸ .underrun buffer hpc
    case writeError.write buffer => exact h ▸ .writeError buffer hpc
    case prepare.prepare buffer => exact h ▸ .prepare buffer hpc
    case prepareError.prepare buffer => exact h ▸ .prepareError buffer hpc
    case sendLocal.sendLocal buffer =>
      obtain ⟨hsocket, rfl⟩ := h
      have hview := (localSockfdPlayback_cases cfg).resolve_left hsocket
      rw [hview]
      exact .sendLocal buffer hpc hview
    case sendLocalError.sendLocal buffer => exact h ▸ .sendLocalError buffer hpc
    case close.closeLocal => exact h ▸ .close hpc
  · intro h
    cases h with
    | openPlayback hpc hdevice | openPlaybackError hpc hdevice =>
      rw [hpc, Process.playAudioStep, hdevice]
      rfl
    | test hpc hflag | stop hpc hflag =>
      rw [hpc, Process.playAudioStep, hflag]
      rfl
    | recv bytes hpc hsize => rw [hpc, Process.playAudioStep, if_pos hsize]
    | write frames buffer hpc hframes => rw [hpc, Process.playAudioStep, if_pos hframes]
    | sendLocal buffer hpc hview =>
      rw [hpc, Process.playAudioStep, hview, if_neg (Option.some_ne_none _)]
    | recvEnd hpc | underrun _ hpc | writeError _ hpc | prepare _ hpc | prepareError _ hpc
    | sendLocalError _ hpc | close hpc =>
      rw [hpc]
      rfl

theorem main_iff : (Process.machine cfg).step s .main = some next ↔ MainStep cfg s next := by
  change s.mainStep cfg s.main = some next ↔ _
  constructor
  · intro h
    cases hpc : s.main <;>
      simp only [hpc, Process.mainStep, Option.ite_none_right_eq_some, reduceCtorEq,
        Option.some.injEq] at h
    case joinCapture =>
      obtain ⟨hdone, rfl⟩ := h
      exact .joinCapture hpc hdone
    case joinPlayback =>
      obtain ⟨hdone, rfl⟩ := h
      exact .joinPlayback hpc hdone
    case closeSockfd => exact h ▸ .closeSockfd hpc
    case closeCap => exact h ▸ .closeCap hpc
    case closePlayback => exact h ▸ .closePlayback hpc
  · intro h
    cases h with
    | joinCapture hpc hdone | joinPlayback hpc hdone =>
      rw [hpc, Process.mainStep, if_pos hdone]
    | closeSockfd hpc | closeCap hpc | closePlayback hpc =>
      rw [hpc]
      rfl

/-- A call that `f` does not look at. -/
theorem filterMap_call {β : Type*} {f : Call → Option β} {socket : Option Socket}
    {c : Socket → Call} (h : ∀ name, socket = some name → f (c name) = none) :
    (s.call socket c).calls.filterMap f = s.calls.filterMap f := by
  cases socket with
  | none => exact congrArg (List.filterMap f) (List.append_nil _)
  | some name =>
    apply List.filterMap_append.trans
    rw [Option.map_some, Option.toList_some, List.filterMap_cons_none (h name rfl),
      List.filterMap_nil, List.append_nil]

/-- What the others see of a step of `play_audio`. It closes at the end only. -/
theorem playAudio_step {a : PlayAudioAct}
    (h : (Process.machine cfg).step s (.playAudio a) = some next) :
    next.audioCap = s.audioCap ∧ next.main = s.main ∧ s.playAudio ≠ .done ∧
      ∃ new, next.calls = s.calls ++ new ∧
        ((∀ call ∈ new, ∀ socket, call ≠ .close socket) ∨
          new = (cfg.localSockfdPlayback.map Call.close).toList) := by
  have hrunning : ∀ pc, s.playAudio = pc → pc ≠ .done → s.playAudio ≠ .done := by
    rintro pc rfl hne
    exact hne
  cases playAudio_iff.mp h with
  | recv _ hpc _ | recvEnd hpc | sendLocal _ hpc _ | sendLocalError _ hpc =>
    exact ⟨rfl, rfl, hrunning _ hpc PlayAudio.noConfusion, _, rfl, Or.inl (by simp)⟩
  | close hpc => exact ⟨rfl, rfl, hrunning _ hpc PlayAudio.noConfusion, _, rfl, Or.inr rfl⟩
  | openPlayback hpc _ | openPlaybackError hpc _ | test hpc _ | stop hpc _ | write _ _ hpc _
  | underrun _ hpc | writeError _ hpc | prepare _ hpc | prepareError _ hpc =>
    exact ⟨rfl, rfl, hrunning _ hpc PlayAudio.noConfusion, [], (List.append_nil _).symm,
      Or.inl (by simp)⟩

/-- What the others see of a step of `main`. It joins or closes. -/
theorem main_step (h : (Process.machine cfg).step s .main = some next) :
    next.audioCap = s.audioCap ∧ next.playAudio = s.playAudio ∧
      next.stopStreaming = s.stopStreaming ∧ next.played = s.played ∧
      ∃ socket, next.calls = (s.call socket .close).calls := by
  cases main_iff.mp h with
  | joinCapture | joinPlayback => exact ⟨rfl, rfl, rfl, rfl, none, (List.append_nil _).symm⟩
  | closeSockfd | closeCap | closePlayback => exact ⟨rfl, rfl, rfl, rfl, _, rfl⟩

/-- A thread whose device cannot be opened returns at once. -/
theorem audioCap_closed {a : AudioCapAct} (hdevice : cfg.captureOpens = false)
    (hpc : s.audioCap = .openCapture ∨ s.audioCap = .done)
    (h : (Process.machine cfg).step s (.audioCap a) = some next) :
    next = { s with audioCap := .done } := by
  change s.audioCapStep cfg a s.audioCap = some next at h
  rcases hpc with hpc | hpc <;> rw [hpc] at h <;> cases a <;>
    simp only [Process.audioCapStep, reduceCtorEq, Option.some.injEq, hdevice, Bool.false_eq_true,
      if_false] at h
  exact h.symm

theorem playAudio_closed {a : PlayAudioAct} (hdevice : cfg.playbackOpens = false)
    (hpc : s.playAudio = .openPlayback ∨ s.playAudio = .done)
    (h : (Process.machine cfg).step s (.playAudio a) = some next) :
    next = { s with playAudio := .done } := by
  change s.playAudioStep cfg a s.playAudio = some next at h
  rcases hpc with hpc | hpc <;> rw [hpc] at h <;> cases a <;>
    simp only [Process.playAudioStep, reduceCtorEq, Option.some.injEq, hdevice,
      Bool.false_eq_true, if_false] at h
  exact h.symm

end Threads

end MediaStream.TCPS.Client
