import Mathlib.Algebra.Group.Nat.Defs
import MediaStream.Lib.Machine

/-!
The client `TCPclient2.cpp` from the moment its two threads exist: `main` has
connected to the server and to the two Python views, and returns before if one
of these connections fails. Each thread closes the socket of its view when it
leaves its loop, and `main` closes the server's after both have been joined.

An action is what a thread does up to its next call, with the results of its
calls. `calls` records the calls on sockets.
-/

namespace MediaStream.TCPattempt

open Lib

def buffSize : Nat := 1024

def frameBytes : Nat := 2 * 2

/-- `sizeof(buffer)` of both threads. -/
def sizeofBuffer : Nat := buffSize * frameBytes

/-- The sockets, under the names `main` gives their descriptors. -/
inductive Socket where
  | sockfd
  | localSockfdCapture
  | localSockfdPlayback
  deriving DecidableEq

structure Setup where
  captureOpens : Bool
  playbackOpens : Bool

inductive Call where
  | send (socket : Socket) (bytes : Option (List UInt8))
  | recv (socket : Socket) (bytes : Option (List UInt8))
  | close (socket : Socket)
  deriving DecidableEq

def Call.socket : Call → Socket
  | send socket _ | recv socket _ | close socket => socket

inductive AudioCap where
  | openCapture
  /-- At the test of `stop_streaming`. -/
  | test
  | capture
  /-- At `snd_pcm_recover`. -/
  | recover
  /-- With the first `byte_send` bytes of `buffer`. -/
  | send (audio : List UInt8)
  /-- At the `send` for the Python visualizer. -/
  | sendLocal (audio : List UInt8)
  /-- Past the loop. -/
  | closeLocal
  | done
  deriving DecidableEq

inductive PlayAudio where
  | openPlayback
  | test
  | recv
  /-- At `snd_pcm_writei`, with the bytes that have been received. -/
  | write (buffer : List UInt8)
  /-- At `snd_pcm_prepare`. -/
  | prepare (buffer : List UInt8)
  /-- At the `send` for the Python visualizer. -/
  | sendLocal (buffer : List UInt8)
  | closeLocal
  | done
  deriving DecidableEq

inductive Main where
  | joinCapture
  | joinPlayback
  | closeSockfd
  | done
  deriving DecidableEq

structure Process where
  stopStreaming : Bool
  audioCap : AudioCap
  playAudio : PlayAudio
  main : Main
  /-- The frames that `snd_pcm_writei` has taken. -/
  played : List UInt8
  calls : List Call

def Process.init : Process where
  stopStreaming := false
  audioCap := .openCapture
  playAudio := .openPlayback
  main := .joinCapture
  played := []
  calls := []

inductive AudioCapAct where
  | openCapture
  | test
  /-- `snd_pcm_readi` returns the frames of `audio`. -/
  | capture (audio : List UInt8)
  | captureError
  /-- `snd_pcm_recover` returns zero. -/
  | recover
  | recoverError
  | send
  | sendError
  | sendLocal
  | sendLocalError
  | close
  deriving DecidableEq

inductive PlayAudioAct where
  | openPlayback
  | test
  | recv (bytes : List UInt8)
  /-- `recv` returns zero or fails. -/
  | recvEnd
  /-- `snd_pcm_writei` takes a number of frames. -/
  | write (frames : Nat)
  /-- `snd_pcm_writei` returns `-EPIPE`. -/
  | underrun
  | writeError
  | prepare
  | prepareError
  | sendLocal
  | sendLocalError
  | close
  deriving DecidableEq

inductive Act where
  | audioCap (a : AudioCapAct)
  | playAudio (a : PlayAudioAct)
  | main
  deriving DecidableEq

namespace Process

def call (s : Process) (c : Call) : Process := { s with calls := s.calls ++ [c] }

def audioCapStep (cfg : Setup) (s : Process) : AudioCapAct → AudioCap → Option Process
  | .openCapture, .openCapture =>
    some { s with audioCap := if cfg.captureOpens then .test else .done }
  | .test, .test => some { s with audioCap := if s.stopStreaming then .closeLocal else .capture }
  | .capture audio, .capture =>
    if audio.length % frameBytes = 0 ∧ audio.length ≤ sizeofBuffer then
      some { s with audioCap := .send audio }
    else none
  | .captureError, .capture => some { s with audioCap := .recover }
  -- `fr_capture` is zero
  | .recover, .recover => some { s with audioCap := .send [] }
  | .recoverError, .recover => some { s with audioCap := .closeLocal }
  | .send, .send audio => some { s.call (.send .sockfd audio) with audioCap := .sendLocal audio }
  | .sendError, .send _ =>
    some { s.call (.send .sockfd none) with stopStreaming := true, audioCap := .closeLocal }
  | .sendLocal, .sendLocal audio =>
    some { s.call (.send .localSockfdCapture audio) with audioCap := .test }
  | .sendLocalError, .sendLocal _ =>
    some { s.call (.send .localSockfdCapture none) with
      stopStreaming := true
      audioCap := .closeLocal }
  | .close, .closeLocal => some { s.call (.close .localSockfdCapture) with audioCap := .done }
  | _, _ => none

def playAudioStep (cfg : Setup) (s : Process) : PlayAudioAct → PlayAudio → Option Process
  | .openPlayback, .openPlayback =>
    some { s with playAudio := if cfg.playbackOpens then .test else .done }
  | .test, .test => some { s with playAudio := if s.stopStreaming then .closeLocal else .recv }
  | .recv bytes, .recv =>
    if 0 < bytes.length ∧ bytes.length ≤ sizeofBuffer then
      some { s.call (.recv .sockfd bytes) with playAudio := .write bytes }
    else none
  | .recvEnd, .recv =>
    some { s.call (.recv .sockfd none) with stopStreaming := true, playAudio := .closeLocal }
  | .write frames, .write buffer =>
    -- `frames_play` are asked for
    if frames ≤ buffer.length / frameBytes then
      some { s with
        played := s.played ++ buffer.take (frames * frameBytes)
        playAudio := .sendLocal buffer }
    else none
  | .underrun, .write buffer => some { s with playAudio := .prepare buffer }
  | .writeError, .write _ => some { s with stopStreaming := true, playAudio := .closeLocal }
  | .prepare, .prepare buffer => some { s with playAudio := .sendLocal buffer }
  | .prepareError, .prepare _ => some { s with stopStreaming := true, playAudio := .closeLocal }
  | .sendLocal, .sendLocal buffer =>
    some { s.call (.send .localSockfdPlayback buffer) with playAudio := .test }
  | .sendLocalError, .sendLocal _ =>
    some { s.call (.send .localSockfdPlayback none) with
      stopStreaming := true
      playAudio := .closeLocal }
  | .close, .closeLocal => some { s.call (.close .localSockfdPlayback) with playAudio := .done }
  | _, _ => none

def mainStep (s : Process) : Main → Option Process
  | .joinCapture => if s.audioCap = .done then some { s with main := .joinPlayback } else none
  | .joinPlayback => if s.playAudio = .done then some { s with main := .closeSockfd } else none
  | .closeSockfd => some { s.call (.close .sockfd) with main := .done }
  | .done => none

def step (cfg : Setup) (s : Process) : Act → Option Process
  | .audioCap a => s.audioCapStep cfg a s.audioCap
  | .playAudio a => s.playAudioStep cfg a s.playAudio
  | .main => s.mainStep s.main

def machine (cfg : Setup) : Machine Process Act := ⟨step cfg⟩

end Process

/-- What a step of `audio_cap` does: where it goes, the calls it makes, and whether it stops the
streaming. -/
inductive AudioCapMove (cfg : Setup) (stop : Bool) :
    AudioCap → AudioCapAct → AudioCap → List Call → Bool → Prop where
  | openCapture (hdevice : cfg.captureOpens = true) :
      AudioCapMove cfg stop .openCapture .openCapture .test [] stop
  | openCaptureError (hdevice : cfg.captureOpens = false) :
      AudioCapMove cfg stop .openCapture .openCapture .done [] stop
  | test (hflag : stop = false) : AudioCapMove cfg stop .test .test .capture [] stop
  | stop (hflag : stop = true) : AudioCapMove cfg stop .test .test .closeLocal [] stop
  | capture (audio : List UInt8)
      (hframes : audio.length % frameBytes = 0 ∧ audio.length ≤ sizeofBuffer) :
      AudioCapMove cfg stop .capture (.capture audio) (.send audio) [] stop
  | captureError : AudioCapMove cfg stop .capture .captureError .recover [] stop
  | recover : AudioCapMove cfg stop .recover .recover (.send []) [] stop
  | recoverError : AudioCapMove cfg stop .recover .recoverError .closeLocal [] stop
  | send (audio : List UInt8) :
      AudioCapMove cfg stop (.send audio) .send (.sendLocal audio) [.send .sockfd audio] stop
  | sendError (audio : List UInt8) :
      AudioCapMove cfg stop (.send audio) .sendError .closeLocal [.send .sockfd none] true
  | sendLocal (audio : List UInt8) :
      AudioCapMove cfg stop (.sendLocal audio) .sendLocal .test
        [.send .localSockfdCapture audio] stop
  | sendLocalError (audio : List UInt8) :
      AudioCapMove cfg stop (.sendLocal audio) .sendLocalError .closeLocal
        [.send .localSockfdCapture none] true
  | close : AudioCapMove cfg stop .closeLocal .close .done [.close .localSockfdCapture] stop

inductive PlayAudioMove (cfg : Setup) (stop : Bool) :
    PlayAudio → PlayAudioAct → PlayAudio → List Call → Bool → Prop where
  | openPlayback (hdevice : cfg.playbackOpens = true) :
      PlayAudioMove cfg stop .openPlayback .openPlayback .test [] stop
  | openPlaybackError (hdevice : cfg.playbackOpens = false) :
      PlayAudioMove cfg stop .openPlayback .openPlayback .done [] stop
  | test (hflag : stop = false) : PlayAudioMove cfg stop .test .test .recv [] stop
  | stop (hflag : stop = true) : PlayAudioMove cfg stop .test .test .closeLocal [] stop
  | recv (bytes : List UInt8) (hsize : 0 < bytes.length ∧ bytes.length ≤ sizeofBuffer) :
      PlayAudioMove cfg stop .recv (.recv bytes) (.write bytes) [.recv .sockfd bytes] stop
  | recvEnd : PlayAudioMove cfg stop .recv .recvEnd .closeLocal [.recv .sockfd none] true
  | write (frames : Nat) (buffer : List UInt8) (hframes : frames ≤ buffer.length / frameBytes) :
      PlayAudioMove cfg stop (.write buffer) (.write frames) (.sendLocal buffer) [] stop
  | underrun (buffer : List UInt8) :
      PlayAudioMove cfg stop (.write buffer) .underrun (.prepare buffer) [] stop
  | writeError (buffer : List UInt8) :
      PlayAudioMove cfg stop (.write buffer) .writeError .closeLocal [] true
  | prepare (buffer : List UInt8) :
      PlayAudioMove cfg stop (.prepare buffer) .prepare (.sendLocal buffer) [] stop
  | prepareError (buffer : List UInt8) :
      PlayAudioMove cfg stop (.prepare buffer) .prepareError .closeLocal [] true
  | sendLocal (buffer : List UInt8) :
      PlayAudioMove cfg stop (.sendLocal buffer) .sendLocal .test
        [.send .localSockfdPlayback buffer] stop
  | sendLocalError (buffer : List UInt8) :
      PlayAudioMove cfg stop (.sendLocal buffer) .sendLocalError .closeLocal
        [.send .localSockfdPlayback none] true
  | close : PlayAudioMove cfg stop .closeLocal .close .done [.close .localSockfdPlayback] stop

section Step

variable {cfg : Setup} {s next : Process}

theorem audioCap_move {a : AudioCapAct}
    (h : (Process.machine cfg).step s (.audioCap a) = some next) :
    ∃ calls, AudioCapMove cfg s.stopStreaming s.audioCap a next.audioCap calls
        next.stopStreaming ∧
      next.calls = s.calls ++ calls ∧ next.playAudio = s.playAudio ∧ next.main = s.main ∧
      next.played = s.played := by
  change s.audioCapStep cfg a s.audioCap = some next at h
  cases a <;> cases hpc : s.audioCap <;>
    simp only [hpc, Process.audioCapStep, Option.ite_none_right_eq_some, reduceCtorEq,
      Option.some.injEq] at h
  case openCapture.openCapture =>
    subst h
    refine ⟨[], ?_, (List.append_nil _).symm, rfl, rfl, rfl⟩
    cases hdevice : cfg.captureOpens with
    | true => exact .openCapture hdevice
    | false => exact .openCaptureError hdevice
  case test.test =>
    subst h
    refine ⟨[], ?_, (List.append_nil _).symm, rfl, rfl, rfl⟩
    cases hflag : s.stopStreaming with
    | true => simpa [hflag] using AudioCapMove.stop hflag
    | false => simpa [hflag] using AudioCapMove.test hflag
  case capture.capture audio =>
    obtain ⟨hframes, rfl⟩ := h
    exact ⟨[], .capture audio hframes, (List.append_nil _).symm, rfl, rfl, rfl⟩
  case captureError.capture =>
    subst h
    exact ⟨[], .captureError, (List.append_nil _).symm, rfl, rfl, rfl⟩
  case recover.recover =>
    subst h
    exact ⟨[], .recover, (List.append_nil _).symm, rfl, rfl, rfl⟩
  case recoverError.recover =>
    subst h
    exact ⟨[], .recoverError, (List.append_nil _).symm, rfl, rfl, rfl⟩
  case send.send audio =>
    subst h
    exact ⟨_, .send audio, rfl, rfl, rfl, rfl⟩
  case sendError.send audio =>
    subst h
    exact ⟨_, .sendError audio, rfl, rfl, rfl, rfl⟩
  case sendLocal.sendLocal audio =>
    subst h
    exact ⟨_, .sendLocal audio, rfl, rfl, rfl, rfl⟩
  case sendLocalError.sendLocal audio =>
    subst h
    exact ⟨_, .sendLocalError audio, rfl, rfl, rfl, rfl⟩
  case close.closeLocal =>
    subst h
    exact ⟨_, .close, rfl, rfl, rfl, rfl⟩

theorem playAudio_move {a : PlayAudioAct}
    (h : (Process.machine cfg).step s (.playAudio a) = some next) :
    ∃ calls, PlayAudioMove cfg s.stopStreaming s.playAudio a next.playAudio calls
        next.stopStreaming ∧
      next.calls = s.calls ++ calls ∧ next.audioCap = s.audioCap ∧ next.main = s.main := by
  change s.playAudioStep cfg a s.playAudio = some next at h
  cases a <;> cases hpc : s.playAudio <;>
    simp only [hpc, Process.playAudioStep, Option.ite_none_right_eq_some, reduceCtorEq,
      Option.some.injEq] at h
  case openPlayback.openPlayback =>
    subst h
    refine ⟨[], ?_, (List.append_nil _).symm, rfl, rfl⟩
    cases hdevice : cfg.playbackOpens with
    | true => exact .openPlayback hdevice
    | false => exact .openPlaybackError hdevice
  case test.test =>
    subst h
    refine ⟨[], ?_, (List.append_nil _).symm, rfl, rfl⟩
    cases hflag : s.stopStreaming with
    | true => simpa [hflag] using PlayAudioMove.stop hflag
    | false => simpa [hflag] using PlayAudioMove.test hflag
  case recv.recv bytes =>
    obtain ⟨hsize, rfl⟩ := h
    exact ⟨_, .recv bytes hsize, rfl, rfl, rfl⟩
  case recvEnd.recv =>
    subst h
    exact ⟨_, .recvEnd, rfl, rfl, rfl⟩
  case write.write frames buffer =>
    obtain ⟨hframes, rfl⟩ := h
    exact ⟨[], .write frames buffer hframes, (List.append_nil _).symm, rfl, rfl⟩
  case underrun.write buffer =>
    subst h
    exact ⟨[], .underrun buffer, (List.append_nil _).symm, rfl, rfl⟩
  case writeError.write buffer =>
    subst h
    exact ⟨[], .writeError buffer, (List.append_nil _).symm, rfl, rfl⟩
  case prepare.prepare buffer =>
    subst h
    exact ⟨[], .prepare buffer, (List.append_nil _).symm, rfl, rfl⟩
  case prepareError.prepare buffer =>
    subst h
    exact ⟨[], .prepareError buffer, (List.append_nil _).symm, rfl, rfl⟩
  case sendLocal.sendLocal buffer =>
    subst h
    exact ⟨_, .sendLocal buffer, rfl, rfl, rfl⟩
  case sendLocalError.sendLocal buffer =>
    subst h
    exact ⟨_, .sendLocalError buffer, rfl, rfl, rfl⟩
  case close.closeLocal =>
    subst h
    exact ⟨_, .close, rfl, rfl, rfl⟩

/-- What a step of `main` does. -/
theorem main_cases (h : (Process.machine cfg).step s .main = some next) :
    (s.main = .joinCapture ∧ s.audioCap = .done ∧ next = { s with main := .joinPlayback }) ∨
      (s.main = .joinPlayback ∧ s.playAudio = .done ∧ next = { s with main := .closeSockfd }) ∨
      (s.main = .closeSockfd ∧ next = { s.call (.close .sockfd) with main := .done }) := by
  change s.mainStep s.main = some next at h
  cases hpc : s.main <;>
    simp only [hpc, Process.mainStep, Option.ite_none_right_eq_some, reduceCtorEq,
      Option.some.injEq] at h
  case joinCapture => exact Or.inl ⟨rfl, h.1, h.2.symm⟩
  case joinPlayback => exact Or.inr (Or.inl ⟨rfl, h.1, h.2.symm⟩)
  case closeSockfd => exact Or.inr (Or.inr ⟨rfl, h.symm⟩)

end Step

end MediaStream.TCPattempt
