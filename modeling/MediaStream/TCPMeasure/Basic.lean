import Mathlib.Algebra.Group.Int.Defs
import MediaStream.Lib.Bytes
import MediaStream.Lib.ByteStream
import MediaStream.Lib.Machine

/-!
The basic measurement program: `send_data_with_metrics` of the client and
`handle_client` of the server at the two ends of one connection. The client
sends messages of 1024 bytes with a timestamp at the head and receives once
after each; the server sends the first eight bytes of its buffer back after
every `recv`, whatever that has returned.

Every system call is an action of its own. A `recv` may return any part of what
is in flight, a call may fail at any time, and `recv` returns zero once the
other end has closed and nothing is in flight any more. Times are readings of
`steady_clock` in nanoseconds.
-/

namespace MediaStream.TCPMeasure

open Lib Lib.Bytes

def buffSize : Nat := 1024

/-- `sizeof(int64_t)`, the size of a timestamp and of `ack`. -/
def timestampSize : Nat := 8

@[ext]
structure Buffer where
  bytes : List UInt8
  length_bytes : bytes.length = buffSize

namespace Buffer

/-- `memset(buffer, 'A', sizeof(buffer))` -/
def dummy : Buffer where
  bytes := List.replicate buffSize 65
  length_bytes := List.length_replicate

def store (b : Buffer) (bytes : List UInt8) : Buffer where
  bytes := overwrite b.bytes bytes
  length_bytes := (length_overwrite _ _).trans b.length_bytes

/-- What `memcpy` reads into a timestamp. -/
def head (b : Buffer) : List UInt8 := b.bytes.take timestampSize

theorem length_head (b : Buffer) : b.head.length = timestampSize := by
  rw [head, List.length_take, b.length_bytes]
  rfl

end Buffer

def milliseconds (nanoseconds : Int) : Int := nanoseconds.tdiv 1000000

def msTimestamp (timestamp : Int) : List UInt8 :=
  le timestampSize (milliseconds timestamp % 2 ^ 64).toNat

@[simp] theorem length_msTimestamp (timestamp : Int) :
    (msTimestamp timestamp).length = timestampSize := by
  simp [msTimestamp]

/-- Program points of `send_data_with_metrics`, and of `main` after it. Nothing
sets `stop_streaming`, so the loop is left through `break` only. -/
inductive SendData where
  | loop
  /-- `buffer` is complete. -/
  | send (timestamp : Int)
  | recv (timestamp : Int)
  | sleep
  /-- Past the loop, before `end_time` is read. -/
  | report
  | close
  | done
  deriving DecidableEq

inductive HandleClient where
  | recv
  | send (bytesReceived : Nat) (clientTimestamp : List UInt8)
  /-- The acknowledgement has been sent, nothing has been counted yet. -/
  | log (bytesReceived : Nat)
  | close
  | done
  deriving DecidableEq

structure Exchange where
  client : SendData
  /-- The client's `buffer`. -/
  message : Buffer
  clientStart : Int
  /-- An `int`: the source leaves undefined what here wraps. -/
  dataSent : Int32
  server : HandleClient
  /-- The server's `buffer`. -/
  buffer : Buffer
  serverStart : Int
  /-- An `int` as well. -/
  totalBytes : Int32
  toServer : List UInt8
  toClient : List UInt8

/-- Both loops are about to start. The server's `buffer` is not initialised. -/
def Exchange.init (stack : Buffer) (clientStart serverStart : Int) : Exchange where
  client := .loop
  message := .dummy
  clientStart := clientStart
  dataSent := 0
  server := .recv
  buffer := stack
  serverStart := serverStart
  totalBytes := 0
  toServer := []
  toClient := []

inductive ClientAct where
  /-- The clock is read and the timestamp copied into `buffer`. -/
  | timestamp (now : Int)
  | send
  | sendError
  /-- `recv` returns `n` bytes of acknowledgements; `ack_time` is read. -/
  | recv (n : Nat) (ackTime : Int)
  | recvZero
  | recvError
  | wake
  /-- `end_time` is read. -/
  | finish (endTime : Int)
  | close
  deriving DecidableEq

inductive ServerAct where
  | recv (n : Nat)
  | recvZero
  | recvError
  | send
  | sendError
  /-- `total_bytes` is updated and `current_time` read. -/
  | log (currentTime : Int)
  | close
  deriving DecidableEq

inductive Act where
  | client (a : ClientAct)
  | server (a : ServerAct)
  deriving DecidableEq

/-- No system call fails. -/
def Act.regular : Act → Bool
  | client .sendError | client .recvError | server .recvError | server .sendError => false
  | _ => true

namespace Exchange

def clientStep (s : Exchange) : ClientAct → SendData → Option Exchange
  | .timestamp now, .loop =>
    some { s with message := s.message.store (msTimestamp now), client := .send now }
  | .send, .send timestamp =>
    some { s with
      toServer := s.toServer ++ s.message.bytes
      dataSent := s.dataSent + Int32.ofNat buffSize
      client := .recv timestamp }
  | .sendError, .send _ => some { s with client := .report }
  | .recv n _, .recv _ =>
    (ByteStream.recv s.toClient timestampSize n).map fun received =>
      { s with toClient := received.2, client := .sleep }
  | .recvZero, .recv _ =>
    if s.toClient = [] ∧ s.server = .done then some { s with client := .sleep } else none
  | .recvError, .recv _ => some { s with client := .sleep }
  | .wake, .sleep => some { s with client := .loop }
  | .finish _, .report => some { s with client := .close }
  | .close, .close => some { s with client := .done }
  | _, _ => none

def serverStep (s : Exchange) : ServerAct → HandleClient → Option Exchange
  | .recv n, .recv =>
    (ByteStream.recv s.toServer buffSize n).map fun received =>
      { s with
        toServer := received.2
        buffer := s.buffer.store received.1
        server := .send n (s.buffer.store received.1).head }
  | .recvZero, .recv =>
    if s.toServer = [] ∧ s.client = .done then some { s with server := .close } else none
  | .recvError, .recv => some { s with server := .close }
  | .send, .send bytesReceived clientTimestamp =>
    some { s with toClient := s.toClient ++ clientTimestamp, server := .log bytesReceived }
  | .sendError, .send _ _ => some { s with server := .close }
  | .log _, .log bytesReceived =>
    some { s with totalBytes := s.totalBytes + Int32.ofNat bytesReceived, server := .recv }
  | .close, .close => some { s with server := .done }
  | _, _ => none

def step (s : Exchange) : Act → Option Exchange
  | .client a => s.clientStep a s.client
  | .server a => s.serverStep a s.server

def machine : Machine Exchange Act := ⟨step⟩

end Exchange

open Exchange

/-- Every way a step can go, with its guards. -/
inductive Step (s : Exchange) : Act → Exchange → Prop where
  | timestamp (now : Int) (hpc : s.client = .loop) :
      Step s (.client (.timestamp now))
        { s with message := s.message.store (msTimestamp now), client := .send now }
  | clientSend (timestamp : Int) (hpc : s.client = .send timestamp) :
      Step s (.client .send)
        { s with
          toServer := s.toServer ++ s.message.bytes
          dataSent := s.dataSent + Int32.ofNat buffSize
          client := .recv timestamp }
  | clientSendError (timestamp : Int) (hpc : s.client = .send timestamp) :
      Step s (.client .sendError) { s with client := .report }
  | clientRecv (timestamp ackTime : Int) (ack rest : List UInt8)
      (hpc : s.client = .recv timestamp) (hflight : s.toClient = ack ++ rest)
      (hpos : 0 < ack.length) (hsize : ack.length ≤ timestampSize) :
      Step s (.client (.recv ack.length ackTime)) { s with toClient := rest, client := .sleep }
  | clientRecvZero (timestamp : Int) (hpc : s.client = .recv timestamp)
      (hempty : s.toClient = []) (hdone : s.server = .done) :
      Step s (.client .recvZero) { s with client := .sleep }
  | clientRecvError (timestamp : Int) (hpc : s.client = .recv timestamp) :
      Step s (.client .recvError) { s with client := .sleep }
  | wake (hpc : s.client = .sleep) : Step s (.client .wake) { s with client := .loop }
  | finish (endTime : Int) (hpc : s.client = .report) :
      Step s (.client (.finish endTime)) { s with client := .close }
  | clientClose (hpc : s.client = .close) : Step s (.client .close) { s with client := .done }
  | serverRecv (chunk rest : List UInt8) (hpc : s.server = .recv)
      (hflight : s.toServer = chunk ++ rest) (hpos : 0 < chunk.length)
      (hsize : chunk.length ≤ buffSize) :
      Step s (.server (.recv chunk.length))
        { s with
          toServer := rest
          buffer := s.buffer.store chunk
          server := .send chunk.length (s.buffer.store chunk).head }
  | serverRecvZero (hpc : s.server = .recv) (hempty : s.toServer = []) (hdone : s.client = .done) :
      Step s (.server .recvZero) { s with server := .close }
  | serverRecvError (hpc : s.server = .recv) :
      Step s (.server .recvError) { s with server := .close }
  | serverSend (bytesReceived : Nat) (clientTimestamp : List UInt8)
      (hpc : s.server = .send bytesReceived clientTimestamp) :
      Step s (.server .send)
        { s with toClient := s.toClient ++ clientTimestamp, server := .log bytesReceived }
  | serverSendError (bytesReceived : Nat) (clientTimestamp : List UInt8)
      (hpc : s.server = .send bytesReceived clientTimestamp) :
      Step s (.server .sendError) { s with server := .close }
  | log (currentTime : Int) (bytesReceived : Nat) (hpc : s.server = .log bytesReceived) :
      Step s (.server (.log currentTime))
        { s with totalBytes := s.totalBytes + Int32.ofNat bytesReceived, server := .recv }
  | serverClose (hpc : s.server = .close) : Step s (.server .close) { s with server := .done }

private theorem clientStep_iff {s next : Exchange} {a : ClientAct} :
    s.clientStep a s.client = some next ↔ Step s (.client a) next := by
  constructor
  · intro h
    cases a <;> cases hpc : s.client <;>
      simp only [hpc, clientStep, Option.map_eq_some_iff, Option.ite_none_right_eq_some,
        reduceCtorEq, Option.some.injEq, Prod.exists, ByteStream.recv_eq_some] at h
    case timestamp.loop now => exact h ▸ .timestamp now hpc
    case send.send timestamp => exact h ▸ .clientSend timestamp hpc
    case sendError.send timestamp => exact h ▸ .clientSendError timestamp hpc
    case recv.recv n ackTime timestamp =>
      obtain ⟨ack, rest, ⟨hflight, rfl, hpos, hsize⟩, rfl⟩ := h
      exact .clientRecv timestamp ackTime ack rest hpc hflight hpos hsize
    case recvZero.recv timestamp =>
      obtain ⟨⟨hempty, hdone⟩, rfl⟩ := h
      exact .clientRecvZero timestamp hpc hempty hdone
    case recvError.recv timestamp => exact h ▸ .clientRecvError timestamp hpc
    case wake.sleep => exact h ▸ .wake hpc
    case finish.report endTime => exact h ▸ .finish endTime hpc
    case close.close => exact h ▸ .clientClose hpc
  · intro h
    cases h with
    | clientRecv timestamp ackTime ack rest hpc hflight hpos hsize =>
      rw [hpc, clientStep, ByteStream.recv_eq_some.mpr ⟨hflight, rfl, hpos, hsize⟩]
      rfl
    | clientRecvZero timestamp hpc hempty hdone =>
      rw [hpc, clientStep, if_pos ⟨hempty, hdone⟩]
    | timestamp _ hpc | clientSend _ hpc | clientSendError _ hpc | clientRecvError _ hpc
    | wake hpc | finish _ hpc | clientClose hpc =>
      rw [hpc]
      rfl

private theorem serverStep_iff {s next : Exchange} {a : ServerAct} :
    s.serverStep a s.server = some next ↔ Step s (.server a) next := by
  constructor
  · intro h
    cases a <;> cases hpc : s.server <;>
      simp only [hpc, serverStep, Option.map_eq_some_iff, Option.ite_none_right_eq_some,
        reduceCtorEq, Option.some.injEq, Prod.exists, ByteStream.recv_eq_some] at h
    case recv.recv n =>
      obtain ⟨chunk, rest, ⟨hflight, rfl, hpos, hsize⟩, rfl⟩ := h
      exact .serverRecv chunk rest hpc hflight hpos hsize
    case recvZero.recv =>
      obtain ⟨⟨hempty, hdone⟩, rfl⟩ := h
      exact .serverRecvZero hpc hempty hdone
    case recvError.recv => exact h ▸ .serverRecvError hpc
    case send.send bytesReceived clientTimestamp =>
      exact h ▸ .serverSend bytesReceived clientTimestamp hpc
    case sendError.send bytesReceived clientTimestamp =>
      exact h ▸ .serverSendError bytesReceived clientTimestamp hpc
    case log.log currentTime bytesReceived => exact h ▸ .log currentTime bytesReceived hpc
    case close.close => exact h ▸ .serverClose hpc
  · intro h
    cases h with
    | serverRecv chunk rest hpc hflight hpos hsize =>
      rw [hpc, serverStep, ByteStream.recv_eq_some.mpr ⟨hflight, rfl, hpos, hsize⟩]
      rfl
    | serverRecvZero hpc hempty hdone =>
      rw [hpc, serverStep, if_pos ⟨hempty, hdone⟩]
    | serverRecvError hpc | serverSend _ _ hpc | serverSendError _ _ hpc | log _ _ hpc
    | serverClose hpc =>
      rw [hpc]
      rfl

/-- The steps of the machine are exactly those of `Step`. -/
theorem step_iff {s next : Exchange} {a : Act} :
    machine.step s a = some next ↔ Step s a next := by
  cases a with
  | client a => exact clientStep_iff
  | server a => exact serverStep_iff

end MediaStream.TCPMeasure
