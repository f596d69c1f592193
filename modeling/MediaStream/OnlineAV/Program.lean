import MediaStream.Lib.Machine
import MediaStream.OnlineAV.Node
import MediaStream.OnlineAV.VideoSend

/-!
The process around a node: `main` and its six threads. The node also sends to
itself: its HELLO comes back to its own socket, and once `LookForPeers` has
entered the node's own address, so do its audio packets and its video fragments.

An action is what a thread does up to its next visible effect, with the results
of its calls; each critical section of `peer_mute` is one action. Datagrams may
be lost and arrive in any order.
-/

namespace MediaStream.OnlineAV

open Lib

inductive SendHello where
  | test
  | sendto
  | sleep
  | done
  deriving DecidableEq

inductive AudioRecAndSend where
  | test
  | readi
  | done
  deriving DecidableEq

inductive VideoRecandSend where
  | openCamera
  | test
  | read
  /-- In the fragment loop, with the fragments that are left. -/
  | sendto (fragments : List VideoFragment)
  | done

def VideoRecandSend.isDone : VideoRecandSend → Bool
  | done => true
  | _ => false

/-- Past the test of `running`, with fragments to send. -/
def VideoRecandSend.sends : VideoRecandSend → Bool
  | read | sendto (_ :: _) => true
  | _ => false

/-- Program points of `LookForPeers`, `AudioPlayback` and `VideoPlayback`. -/
inductive Receiver where
  | test
  | recv
  /-- A frame has been handed to `cv::imdecode`. -/
  | imdecode
  | done
  deriving DecidableEq

inductive Thread where
  | broadcast
  | listen
  | sendAudio
  | playAudio
  | sendVideo
  | playVideo
  deriving DecidableEq

/-- In the order in which `main` joins them. -/
def threads : List Thread := [.broadcast, .listen, .sendAudio, .playAudio, .sendVideo, .playVideo]

inductive Main where
  /-- In `std::cin.get()`. -/
  | get
  /-- The threads that are still to be joined. -/
  | join (threads : List Thread)
  | done
  deriving DecidableEq

structure Program where
  running : Bool
  /-- `peer_List` and what the receivers keep. -/
  node : Node
  /-- Datagrams on their way to `sockfd`, with their sources. -/
  inFlight : List (SockaddrIn × Datagram)
  sendHello : SendHello
  audio : AudioRecAndSend
  /-- `sequence` of `AudioRecAndSend`. -/
  sequence : UInt32
  video : VideoRecandSend
  /-- `frame_seq` of `VideoRecandSend`. -/
  frameSeq : UInt32
  receiver : Loop → Receiver
  main : Main

def Program.init : Program where
  running := true
  node := Node.init
  inFlight := []
  sendHello := .test
  audio := .test
  sequence := 0
  video := .openCamera
  frameSeq := 0
  receiver := fun _ => .test
  main := .get

/-- An action that sends says whether the copy for the node itself arrives. -/
inductive Act where
  | testHello
  | sendHello (arrives : Bool)
  | sleep
  | testAudio
  /-- `snd_pcm_readi` fills the packet, and it is sent to every peer. -/
  | sendAudio (samples : Samples) (arrives : Bool)
  /-- `snd_pcm_readi` fails and `snd_pcm_prepare` does not. -/
  | audioError
  | audioDeviceError
  | openCamera
  | openCameraError
  | testVideo
  /-- A frame has been read and encoded. -/
  | readFrame (frame : EncFrame)
  | readError
  | sendFragment (arrives : Bool)
  | frameSent
  | testReceiver (loop : Loop)
  /-- `recv` returns the datagram at a place of `inFlight`. -/
  | recv (loop : Loop) (i : Nat)
  | recvError (loop : Loop)
  /-- The frame is empty or shown; `cv::waitKey` returns ESC or not. -/
  | imdecode (esc : Bool)
  /-- A remote host sends a datagram. -/
  | remote (source : SockaddrIn) (d : Datagram)
  | lose (i : Nat)
  | enter
  | join

def Effect.isShown : Effect → Bool
  | shown _ => true
  | _ => false

namespace Program

variable (S : FragmentSort) (own : SockaddrIn)

def sentToPeers (s : Program) (arrives : Bool) (d : Datagram) : List (SockaddrIn × Datagram) :=
  if arrives ∧ own ∈ s.node.peerList then s.inFlight ++ [(own, d)] else s.inFlight

def setReceiver (s : Program) (loop : Loop) (pc : Receiver) : Program :=
  { s with receiver := Function.update s.receiver loop pc }

def returned (s : Program) : Thread → Bool
  | .broadcast => s.sendHello = .done
  | .listen => s.receiver .lookForPeers = .done
  | .sendAudio => s.audio = .done
  | .playAudio => s.receiver .audioPlayback = .done
  | .sendVideo => s.video.isDone
  | .playVideo => s.receiver .videoPlayback = .done

/-- Where a receiver goes on: `VideoPlayback` may have a whole frame. -/
def afterRecv (effects : List Effect) : Receiver :=
  if effects.any Effect.isShown then .imdecode else .test

def step (s : Program) : Act → Option Program
  | .testHello =>
    if s.sendHello = .test then
      some { s with sendHello := if s.running then .sendto else .done }
    else none
  | .sendHello arrives =>
    if s.sendHello = .sendto then
      some { s with
        sendHello := .sleep
        inFlight := if arrives then s.inFlight ++ [(own, .hello)] else s.inFlight }
    else none
  | .sleep => if s.sendHello = .sleep then some { s with sendHello := .test } else none
  | .testAudio =>
    if s.audio = .test then some { s with audio := if s.running then .readi else .done } else none
  | .sendAudio samples arrives =>
    if s.audio = .readi then
      some { s with
        audio := .test
        sequence := s.sequence + 1
        inFlight := s.sentToPeers own arrives (.audio s.sequence samples) }
    else none
  | .audioError => if s.audio = .readi then some { s with audio := .test } else none
  | .audioDeviceError =>
    if s.audio = .readi then some { s with audio := .done, running := false } else none
  | .openCamera => match s.video with
    | .openCamera => some { s with video := .test }
    | _ => none
  | .openCameraError => match s.video with
    | .openCamera => some { s with video := .done, running := false }
    | _ => none
  | .testVideo => match s.video with
    | .test => some { s with video := if s.running then .read else .done }
    | _ => none
  | .readFrame frame => match s.video with
    | .read => some { s with video := .sendto (frame.fragments s.frameSeq) }
    | _ => none
  | .readError => match s.video with
    | .read => some { s with video := .test }
    | _ => none
  | .sendFragment arrives => match s.video with
    | .sendto (fragment :: rest) =>
      some { s with
        video := .sendto rest
        inFlight := s.sentToPeers own arrives (.video fragment) }
    | _ => none
  | .frameSent => match s.video with
    | .sendto [] => some { s with video := .test, frameSeq := s.frameSeq + 1 }
    | _ => none
  | .testReceiver loop =>
    if s.receiver loop = .test then
      some (s.setReceiver loop (if s.running then .recv else .done))
    else none
  | .recv loop i =>
    if s.receiver loop = .recv then
      s.inFlight[i]?.map fun d =>
        { s with
          node := (s.node.receive S ⟨loop, d.1, d.2⟩).1
          inFlight := s.inFlight.eraseIdx i
          receiver := Function.update s.receiver loop
            (afterRecv (s.node.receive S ⟨loop, d.1, d.2⟩).2) }
    else none
  | .recvError loop =>
    if s.receiver loop = .recv then some (s.setReceiver loop .test) else none
  | .imdecode esc =>
    if s.receiver .videoPlayback = .imdecode then
      some { s.setReceiver .videoPlayback .test with running := s.running && !esc }
    else none
  | .remote source d => some { s with inFlight := s.inFlight ++ [(source, d)] }
  | .lose i =>
    if i < s.inFlight.length then some { s with inFlight := s.inFlight.eraseIdx i } else none
  | .enter =>
    if s.main = .get then
      some { s with running := false, main := .join threads }
    else none
  | .join => match s.main with
    | .join [] => some { s with main := .done }
    | .join (t :: rest) => if s.returned t then some { s with main := .join rest } else none
    | _ => none

def machine : Machine Program Act := ⟨step S own⟩

/-- Every way a step can go, with its guards. -/
inductive Step (s : Program) : Act → Program → Prop where
  | testHello (hpc : s.sendHello = .test) :
      Step s .testHello { s with sendHello := if s.running then .sendto else .done }
  | sendHello (arrives : Bool) (hpc : s.sendHello = .sendto) :
      Step s (.sendHello arrives)
        { s with
          sendHello := .sleep
          inFlight := if arrives then s.inFlight ++ [(own, .hello)] else s.inFlight }
  | sleep (hpc : s.sendHello = .sleep) : Step s .sleep { s with sendHello := .test }
  | testAudio (hpc : s.audio = .test) :
      Step s .testAudio { s with audio := if s.running then .readi else .done }
  | sendAudio (samples : Samples) (arrives : Bool) (hpc : s.audio = .readi) :
      Step s (.sendAudio samples arrives)
        { s with
          audio := .test
          sequence := s.sequence + 1
          inFlight := s.sentToPeers own arrives (.audio s.sequence samples) }
  | audioError (hpc : s.audio = .readi) : Step s .audioError { s with audio := .test }
  | audioDeviceError (hpc : s.audio = .readi) :
      Step s .audioDeviceError { s with audio := .done, running := false }
  | openCamera (hpc : s.video = .openCamera) : Step s .openCamera { s with video := .test }
  | openCameraError (hpc : s.video = .openCamera) :
      Step s .openCameraError { s with video := .done, running := false }
  | testVideo (hpc : s.video = .test) :
      Step s .testVideo { s with video := if s.running then .read else .done }
  | readFrame (frame : EncFrame) (hpc : s.video = .read) :
      Step s (.readFrame frame) { s with video := .sendto (frame.fragments s.frameSeq) }
  | readError (hpc : s.video = .read) : Step s .readError { s with video := .test }
  | sendFragment (arrives : Bool) (fragment : VideoFragment) (rest : List VideoFragment)
      (hpc : s.video = .sendto (fragment :: rest)) :
      Step s (.sendFragment arrives)
        { s with
          video := .sendto rest
          inFlight := s.sentToPeers own arrives (.video fragment) }
  | frameSent (hpc : s.video = .sendto []) :
      Step s .frameSent { s with video := .test, frameSeq := s.frameSeq + 1 }
  | testReceiver (loop : Loop) (hpc : s.receiver loop = .test) :
      Step s (.testReceiver loop) (s.setReceiver loop (if s.running then .recv else .done))
  | recv (loop : Loop) (i : Nat) (d : SockaddrIn × Datagram) (hpc : s.receiver loop = .recv)
      (hd : s.inFlight[i]? = some d) :
      Step s (.recv loop i)
        { s with
          node := (s.node.receive S ⟨loop, d.1, d.2⟩).1
          inFlight := s.inFlight.eraseIdx i
          receiver := Function.update s.receiver loop
            (afterRecv (s.node.receive S ⟨loop, d.1, d.2⟩).2) }
  | recvError (loop : Loop) (hpc : s.receiver loop = .recv) :
      Step s (.recvError loop) (s.setReceiver loop .test)
  | imdecode (esc : Bool) (hpc : s.receiver .videoPlayback = .imdecode) :
      Step s (.imdecode esc)
        { s.setReceiver .videoPlayback .test with running := s.running && !esc }
  | remote (source : SockaddrIn) (d : Datagram) :
      Step s (.remote source d) { s with inFlight := s.inFlight ++ [(source, d)] }
  | lose (i : Nat) (hi : i < s.inFlight.length) :
      Step s (.lose i) { s with inFlight := s.inFlight.eraseIdx i }
  | enter (hpc : s.main = .get) :
      Step s .enter { s with running := false, main := .join threads }
  | join (t : Thread) (rest : List Thread) (hpc : s.main = .join (t :: rest))
      (hreturned : s.returned t = true) : Step s .join { s with main := .join rest }
  | joined (hpc : s.main = .join []) : Step s .join { s with main := .done }

variable {S own} {s next : Program} {a : Act}

/-- Inversion of `step`. -/
theorem step_cases (h : (machine S own).step s a = some next) : Step S own s a next := by
  change s.step S own a = some next at h
  cases a with
  | openCamera | openCameraError | testVideo | readFrame | readError | frameSent =>
    simp only [step] at h
    split at h <;> simp only [reduceCtorEq, Option.some.injEq] at h
    next hpc =>
    subst h
    constructor
    exact hpc
  | sendFragment arrives =>
    simp only [step] at h
    split at h <;> simp only [reduceCtorEq, Option.some.injEq] at h
    next fragment rest hpc => exact h ▸ .sendFragment arrives fragment rest hpc
  | join =>
    simp only [step] at h
    split at h
    · next hpc => exact Option.some.inj h ▸ .joined hpc
    · next t rest hpc =>
      obtain ⟨hreturned, hnext⟩ := Option.ite_none_right_eq_some.mp h
      exact Option.some.inj hnext ▸ .join t rest hpc hreturned
    · cases h
  | remote source d => exact Option.some.inj h ▸ .remote source d
  | recv loop i =>
    simp only [step, Option.ite_none_right_eq_some, Option.map_eq_some_iff] at h
    obtain ⟨hpc, d, hd, rfl⟩ := h
    exact .recv loop i d hpc hd
  | _ =>
    simp only [step, Option.ite_none_right_eq_some, Option.some.injEq] at h
    obtain ⟨hpc, rfl⟩ := h
    constructor
    exact hpc

end Program

end MediaStream.OnlineAV
