import MediaStream.TCPMeasure.Basic
import MediaStream.TCPS.Server

/-!
The audio latency program: any number of `TCPLBCl` clients at one `TCPLBSr`
server. A client sends each captured block behind a timestamp and then waits in
`recv` for an acknowledgement, which the server does not send; it relays to a
client what the other clients have sent. A second thread of the client receives
from the same socket and plays what it gets.

Client `c` is the one whose connection `accept` returned as number `c`. What it
does on its socket are the client actions of that connection. Both threads
receive from the connection's stream, so either may take any bytes of it.
-/

namespace MediaStream.TCPMeasure.Audio

open Lib
open TCPS (Server Chunk latencyRelay)

def buffSize : Nat := 4096

def frameBytes : Nat := 2 * 2

/-- Program points of `send_audio_with_metrics`. Nothing sets `stop_streaming`. -/
inductive SendAudio where
  | openCapture
  /-- At `snd_pcm_readi`. -/
  | capture
  /-- `packet` is complete. -/
  | send (packet : Chunk) (timestamp : Int)
  /-- At the `recv` for the acknowledgement. -/
  | recv (timestamp : Int)
  /-- Past the loop. -/
  | report
  | done
  deriving DecidableEq

inductive ReceiveAndPlay where
  | openPlayback
  | recv
  /-- At `snd_pcm_writei`, with the bytes that have been received. -/
  | write (buffer : Chunk)
  | done
  deriving DecidableEq

structure Client where
  sender : SendAudio
  /-- An `int64_t`: the source leaves undefined what here wraps. -/
  totalBytesSent : Int64
  player : ReceiveAndPlay

/-- Both threads have been started. -/
def Client.init : Client where
  sender := .openCapture
  totalBytesSent := 0
  player := .openPlayback

structure Session where
  server : Server
  client : Nat → Client

inductive ClientAct where
  | openCapture
  | openCaptureError
  /-- `snd_pcm_readi` returns the frames of `audio`; the clock is read and the
  packet built. -/
  | capture (audio : Chunk) (now : Int)
  /-- `snd_pcm_readi` fails and `snd_pcm_recover` returns zero. -/
  | recovered (now : Int)
  | captureError
  | send
  | sendError
  /-- `recv` returns `n` bytes into `ack`; `ack_time` is read. -/
  | recvAck (n : Nat) (ackTime : Int)
  | recvAckZero
  | recvAckError
  /-- `end_time` is read. -/
  | report (endTime : Int)
  | openPlayback
  | openPlaybackError
  | recv (n : Nat)
  | recvZero
  | recvError
  /-- `snd_pcm_writei` takes the frames, or fails and is recovered from. -/
  | write
  | writeError
  /-- `main` has joined both threads. -/
  | close
  deriving DecidableEq

inductive Act where
  | client (c : Nat) (a : ClientAct)
  /-- A step of a server thread, or of the network. -/
  | server (a : TCPS.Act)
  deriving DecidableEq

def playedBytes (buffer : Chunk) : Chunk :=
  buffer.take (buffer.length / frameBytes * frameBytes)

namespace Session

def setSender (s : Session) (c : Nat) (pc : SendAudio) : Session :=
  { s with client := Function.update s.client c { s.client c with sender := pc } }

def setPlayer (s : Session) (c : Nat) (pc : ReceiveAndPlay) : Session :=
  { s with client := Function.update s.client c { s.client c with player := pc } }

def socket (s : Session) (a : TCPS.Act) : Option Session :=
  ((TCPS.server latencyRelay).step s.server a).map fun next => { s with server := next }

/-- The bytes that the client's threads have not received yet. -/
def inFlight (s : Session) (c : Nat) : Chunk :=
  (s.server.stream c).drop (s.server.read c)

/-- The server has closed the connection and everything has been received. -/
def Closed (s : Session) (c : Nat) : Prop :=
  s.server.handler c = some .done ∧ s.inFlight c = []

instance (s : Session) (c : Nat) : Decidable (s.Closed c) :=
  inferInstanceAs (Decidable (_ ∧ _))

def senderStep (s : Session) (c : Nat) : ClientAct → SendAudio → Option Session
  | .openCapture, .openCapture => some (s.setSender c .capture)
  | .openCaptureError, .openCapture => some (s.setSender c .done)
  | .capture audio now, .capture =>
    if audio.length % frameBytes = 0 ∧ audio.length ≤ buffSize then
      some (s.setSender c (.send (msTimestamp now ++ audio) now))
    else none
  | .recovered now, .capture => some (s.setSender c (.send (msTimestamp now) now))
  | .captureError, .capture => some (s.setSender c .report)
  | .send, .send packet timestamp =>
    (s.socket (.clientSend c packet)).map fun sent =>
      { sent with
        client := Function.update sent.client c
          { sent.client c with
            sender := .recv timestamp
            totalBytesSent := (sent.client c).totalBytesSent +
              Int64.ofNat (packet.length - timestampSize) } }
  | .sendError, .send _ _ => some (s.setSender c .report)
  | .recvAck n _, .recv _ =>
    if 0 < n ∧ n ≤ timestampSize then
      (s.socket (.clientRead c n)).map fun read => read.setSender c .capture
    else none
  | .recvAckZero, .recv _ => if s.Closed c then some (s.setSender c .capture) else none
  | .recvAckError, .recv _ => some (s.setSender c .capture)
  | .report _, .report => some (s.setSender c .done)
  | _, _ => none

def playerStep (s : Session) (c : Nat) : ClientAct → ReceiveAndPlay → Option Session
  | .openPlayback, .openPlayback => some (s.setPlayer c .recv)
  | .openPlaybackError, .openPlayback => some (s.setPlayer c .done)
  | .recv n, .recv =>
    if 0 < n ∧ n ≤ buffSize then
      (s.socket (.clientRead c n)).map fun read =>
        read.setPlayer c (.write ((s.inFlight c).take n))
    else none
  | .recvZero, .recv => if s.Closed c then some (s.setPlayer c .done) else none
  | .recvError, .recv => some (s.setPlayer c .done)
  | .write, .write _ => some (s.setPlayer c .recv)
  | .writeError, .write _ => some (s.setPlayer c .recv)
  | _, _ => none

def clientStep (s : Session) (c : Nat) (a : ClientAct) : Option Session :=
  match a with
  | .openPlayback | .openPlaybackError | .recv _ | .recvZero | .recvError | .write | .writeError =>
    s.playerStep c a (s.client c).player
  | .close =>
    if (s.client c).sender = .done ∧ (s.client c).player = .done then s.socket (.clientShut c)
    else none
  | _ => s.senderStep c a (s.client c).sender

def step (s : Session) : Act → Option Session
  | .client c a => if c < s.server.accepted then s.clientStep c a else none
  | .server (.clientSend ..) | .server (.clientRead ..) | .server (.clientShut _) => none
  | .server a => s.socket a

def machine : Machine Session Act := ⟨step⟩

end Session

/-- No call fails, no connection is closed and nobody connects any more. -/
def Act.regular : Act → Bool
  | client _ .openCapture | client _ (.capture ..) | client _ (.recovered _) | client _ .send
  | client _ (.recvAck ..) | client _ .openPlayback | client _ (.recv _) | client _ .write
  | server (.recv ..) | server (.lockBroadcast _) | server (.iterate _) => true
  | _ => false

def Session.afterSend (s : Session) (c : Nat) (packet : Chunk) (timestamp : Int) : Session where
  server := { s.server with
    inbound := Function.update s.server.inbound c (s.server.inbound c ++ packet) }
  client := Function.update s.client c
    { s.client c with
      sender := .recv timestamp
      totalBytesSent := (s.client c).totalBytesSent +
        Int64.ofNat (packet.length - timestampSize) }

def Session.afterRead (s : Session) (c n : Nat) : Session :=
  { s with server :=
      { s.server with read := Function.update s.server.read c (s.server.read c + n) } }

/-- Every way a regular step can go, with its guards. -/
inductive Step (s : Session) : Act → Session → Prop where
  | openCapture (c : Nat) (hc : c < s.server.accepted) (hpc : (s.client c).sender = .openCapture) :
      Step s (.client c .openCapture) (s.setSender c .capture)
  | capture (c : Nat) (audio : Chunk) (now : Int) (hc : c < s.server.accepted)
      (hpc : (s.client c).sender = .capture) (hframes : audio.length % frameBytes = 0)
      (hsize : audio.length ≤ buffSize) :
      Step s (.client c (.capture audio now))
        (s.setSender c (.send (msTimestamp now ++ audio) now))
  | recovered (c : Nat) (now : Int) (hc : c < s.server.accepted)
      (hpc : (s.client c).sender = .capture) :
      Step s (.client c (.recovered now)) (s.setSender c (.send (msTimestamp now) now))
  | send (c : Nat) (packet : Chunk) (timestamp : Int) (hc : c < s.server.accepted)
      (hpc : (s.client c).sender = .send packet timestamp) :
      Step s (.client c .send) (s.afterSend c packet timestamp)
  | recvAck (c n : Nat) (ackTime timestamp : Int) (hc : c < s.server.accepted)
      (hpc : (s.client c).sender = .recv timestamp) (hpos : 0 < n) (hsize : n ≤ timestampSize)
      (hn : s.server.read c + n ≤ (s.server.stream c).length) :
      Step s (.client c (.recvAck n ackTime)) ((s.afterRead c n).setSender c .capture)
  | openPlayback (c : Nat) (hc : c < s.server.accepted)
      (hpc : (s.client c).player = .openPlayback) :
      Step s (.client c .openPlayback) (s.setPlayer c .recv)
  | recv (c n : Nat) (hc : c < s.server.accepted) (hpc : (s.client c).player = .recv)
      (hpos : 0 < n) (hsize : n ≤ buffSize)
      (hn : s.server.read c + n ≤ (s.server.stream c).length) :
      Step s (.client c (.recv n))
        ((s.afterRead c n).setPlayer c (.write ((s.inFlight c).take n)))
  | write (c : Nat) (buffer : Chunk) (hc : c < s.server.accepted)
      (hpc : (s.client c).player = .write buffer) :
      Step s (.client c .write) (s.setPlayer c .recv)
  | server (a : TCPS.Act) (next : Server) (hregular : (Act.server a).regular = true)
      (hstep : TCPS.Step latencyRelay s.server a next) :
      Step s (.server a) { s with server := next }

theorem socket_eq_some {s next : Session} {a : TCPS.Act} :
    s.socket a = some next ↔
      ∃ server, TCPS.Step latencyRelay s.server a server ∧ { s with server := server } = next := by
  simp only [Session.socket, Option.map_eq_some_iff, TCPS.step_iff]

theorem socket_clientRead {s next : Session} {c n : Nat}
    (h : s.socket (.clientRead c n) = some next) :
    s.server.read c + n ≤ (s.server.stream c).length ∧ next = s.afterRead c n := by
  obtain ⟨server, hstep, rfl⟩ := socket_eq_some.mp h
  cases hstep with
  | clientRead _ _ hc hn => exact ⟨hn, rfl⟩

theorem socket_clientSend {s next : Session} {c : Nat} {packet : Chunk}
    (h : s.socket (.clientSend c packet) = some next) :
    next = { s with server := { s.server with
      inbound := Function.update s.server.inbound c (s.server.inbound c ++ packet) } } := by
  obtain ⟨server, hstep, rfl⟩ := socket_eq_some.mp h
  cases hstep with
  | clientSend _ _ hc hopen => rfl

private theorem senderStep_cases {s next : Session} {c : Nat} {a : ClientAct}
    (hregular : (Act.client c a).regular = true) (hc : c < s.server.accepted)
    (h : s.senderStep c a (s.client c).sender = some next) : Step s (.client c a) next := by
  cases a <;> cases hpc : (s.client c).sender <;>
    simp only [hpc, Session.senderStep, Option.map_eq_some_iff, Option.ite_none_right_eq_some,
      reduceCtorEq, Option.some.injEq] at h
  case openCapture.openCapture => exact h ▸ .openCapture c hc hpc
  case capture.capture audio now =>
    obtain ⟨⟨hframes, hsize⟩, rfl⟩ := h
    exact .capture c audio now hc hpc hframes hsize
  case recovered.capture now => exact h ▸ .recovered c now hc hpc
  case send.send packet timestamp =>
    obtain ⟨sent, hsent, rfl⟩ := h
    obtain rfl := socket_clientSend hsent
    exact .send c packet timestamp hc hpc
  case recvAck.recv n ackTime timestamp =>
    obtain ⟨⟨hpos, hsize⟩, read, hread, rfl⟩ := h
    obtain ⟨hn, rfl⟩ := socket_clientRead hread
    exact .recvAck c n ackTime timestamp hc hpc hpos hsize hn
  all_goals cases hregular

private theorem playerStep_cases {s next : Session} {c : Nat} {a : ClientAct}
    (hregular : (Act.client c a).regular = true) (hc : c < s.server.accepted)
    (h : s.playerStep c a (s.client c).player = some next) : Step s (.client c a) next := by
  cases a <;> cases hpc : (s.client c).player <;>
    simp only [hpc, Session.playerStep, Option.map_eq_some_iff, Option.ite_none_right_eq_some,
      reduceCtorEq, Option.some.injEq] at h
  case openPlayback.openPlayback => exact h ▸ .openPlayback c hc hpc
  case recv.recv n =>
    obtain ⟨⟨hpos, hsize⟩, read, hread, rfl⟩ := h
    obtain ⟨hn, rfl⟩ := socket_clientRead hread
    exact .recv c n hc hpc hpos hsize hn
  case write.write buffer => exact h ▸ .write c buffer hc hpc
  all_goals cases hregular

/-- Inversion of `Session.step` at the actions of a regular run. -/
theorem step_cases {s next : Session} {a : Act} (hregular : a.regular = true)
    (h : Session.machine.step s a = some next) : Step s a next := by
  change s.step a = some next at h
  cases a with
  | server a =>
    have hsocket : s.socket a = some next := by
      cases a <;> first | exact h | cases hregular
    obtain ⟨server, hstep, rfl⟩ := socket_eq_some.mp hsocket
    exact .server a server hregular hstep
  | client c a =>
    simp only [Session.step, Option.ite_none_right_eq_some] at h
    cases a with
    | openPlayback | recv n | write => exact playerStep_cases hregular h.1 h.2
    | openCapture | capture audio now | recovered now | send | recvAck n ackTime =>
      exact senderStep_cases hregular h.1 h.2
    | _ => cases hregular

end MediaStream.TCPMeasure.Audio
