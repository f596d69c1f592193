import MediaStream.Lib.BigEndian
import MediaStream.Lib.PullParser
import MediaStream.WebRTC.Ws.Validation

/-!
`ws/lib/receiver.js`: the parser of the frames that come over a connection. No
extension has been negotiated, binary data is handed over as a buffer, and events
are emitted in the tick in which the bytes arrive; these are the defaults of the
signaling server.
-/

namespace MediaStream.WebRTC.Ws

open Lib Lib.Bytes

structure Options where
  isServer : Bool
  maxPayload : Int
  skipUTF8Validation : Bool

/-- The longest message that is accepted. The constructor keeps the option as a 32-bit
number, and what is not positive is no limit. -/
def Options.limit (o : Options) : Nat := (o.maxPayload.bmod (2 ^ 32)).toNat

inductive State where
  | getInfo
  | getPayloadLength16
  | getPayloadLength64
  | getMask
  | getData
  deriving DecidableEq

inductive ErrorCtor where
  | error
  | rangeError
  deriving DecidableEq

structure ReceiverError where
  ctor : ErrorCtor
  message : String
  statusCode : Nat
  code : String
  deriving DecidableEq

def createError (ctor : ErrorCtor) (message : String) (prefixed : Bool) (statusCode : Nat)
    (errorCode : String) : ReceiverError where
  ctor := ctor
  message := if prefixed then "Invalid WebSocket frame: " ++ message else message
  statusCode := statusCode
  code := errorCode

inductive ReceiverEvent where
  | message (data : List UInt8) (isBinary : Bool)
  | ping (data : List UInt8)
  | pong (data : List UInt8)
  | conclude (code : Nat) (reason : List UInt8)
  | error (e : ReceiverError)
  /-- An exception leaves the receiver. -/
  | thrown
  deriving DecidableEq

/-- The frame and the message that are being read. -/
structure Reading where
  payloadLength : Nat
  mask : List UInt8
  /-- The opcode of the message whose fragments are coming in, or 0. -/
  fragmented : Nat
  masked : Bool
  fin : Bool
  opcode : Nat
  totalPayloadLength : Nat
  messageLength : Nat
  fragments : List (List UInt8)
  errored : Bool
  state : State
  deriving DecidableEq

/-- How a handler leaves the receiver, and whether the loop goes on. -/
structure Outcome where
  reading : Reading
  events : List ReceiverEvent
  loop : Bool

def unmask (buffer mask : List UInt8) : List UInt8 :=
  xorKey (fun i => mask.getD (i &&& 3) 0) buffer

/-- Under a mask of zeros nothing changes. -/
theorem unmask_zero {mask : List UInt8}
    (h : mask.getD 0 0 ||| mask.getD 1 0 ||| mask.getD 2 0 ||| mask.getD 3 0 = 0)
    (buf : List UInt8) : unmask buf mask = buf := by
  simp only [UInt8.or_eq_zero_iff] at h
  obtain ⟨⟨⟨h0, h1⟩, h2⟩, h3⟩ := h
  have hkey : (fun i => mask.getD (i &&& 3) 0) = fun _ => 0 := by
    funext i
    have hlow : i &&& 3 = i % 4 := Nat.and_two_pow_sub_one_eq_mod i 2
    rw [hlow]
    have hcases : i % 4 = 0 ∨ i % 4 = 1 ∨ i % 4 = 2 ∨ i % 4 = 3 := by omega
    rcases hcases with hi | hi | hi | hi <;> rw [hi] <;> assumption
  unfold unmask
  rw [hkey, xorKey_zero]

@[simp] theorem unmask_unmask (buf mask : List UInt8) : unmask (unmask buf mask) mask = buf :=
  xorKey_xorKey _ _

/-- `concat` of `buffer-util.js`. Copying beyond the end of the target throws. -/
def concat (list : List (List UInt8)) (totalLength : Nat) : Option (List UInt8) :=
  match list with
  | [] => some []
  | [buf] => some buf
  | _ => if list.flatten.length ≤ totalLength then some list.flatten else none

namespace Reading

def init : Reading where
  payloadLength := 0
  mask := []
  fragmented := 0
  masked := false
  fin := false
  opcode := 0
  totalPayloadLength := 0
  messageLength := 0
  fragments := []
  errored := false
  state := .getInfo

def goOn (p : Reading) (events : List ReceiverEvent) : Outcome := ⟨p, events, true⟩

def fail (p : Reading) (e : ReceiverError) : Outcome :=
  ⟨{ p with errored := true }, [.error e], false⟩

def throws (p : Reading) : Outcome := ⟨{ p with errored := true }, [.thrown], false⟩

/-- The end of `haveLength`. -/
def expectData (p : Reading) : Outcome :=
  if p.masked then goOn { p with state := .getMask } [] else goOn { p with state := .getData } []

def haveLength (o : Options) (p : Reading) : Outcome :=
  if p.payloadLength ≠ 0 ∧ p.opcode < 0x08 then
    let p := { p with totalPayloadLength := p.totalPayloadLength + p.payloadLength }
    if o.limit < p.totalPayloadLength ∧ 0 < o.limit then
      p.fail (createError .rangeError "Max payload size exceeded" false 1009
        "WS_ERR_UNSUPPORTED_MESSAGE_LENGTH")
    else p.expectData
  else p.expectData

/-- The opcode the frame is read under, or why it is refused. -/
def frameOpcode (p : Reading) : Except ReceiverError Nat :=
  if p.opcode = 0x00 then
    if p.fragmented = 0 then
      .error (createError .rangeError "invalid opcode 0" true 1002 "WS_ERR_INVALID_OPCODE")
    else .ok p.fragmented
  else if p.opcode = 0x01 ∨ p.opcode = 0x02 then
    if p.fragmented ≠ 0 then
      .error (createError .rangeError s!"invalid opcode {p.opcode}" true 1002
        "WS_ERR_INVALID_OPCODE")
    else .ok p.opcode
  else if 0x07 < p.opcode ∧ p.opcode < 0x0b then
    if ¬p.fin then
      .error (createError .rangeError "FIN must be set" true 1002 "WS_ERR_EXPECTED_FIN")
    else if 0x7d < p.payloadLength ∨ (p.opcode = 0x08 ∧ p.payloadLength = 1) then
      .error (createError .rangeError s!"invalid payload length {p.payloadLength}" true 1002
        "WS_ERR_INVALID_CONTROL_PAYLOAD_LENGTH")
    else .ok p.opcode
  else
    .error (createError .rangeError s!"invalid opcode {p.opcode}" true 1002
      "WS_ERR_INVALID_OPCODE")

/-- What follows the opcode: the mask bit and the length. -/
def checkMask (o : Options) (p : Reading) : Outcome :=
  if o.isServer ∧ ¬p.masked then
    p.fail (createError .rangeError "MASK must be set" true 1002 "WS_ERR_EXPECTED_MASK")
  else if ¬o.isServer ∧ p.masked then
    p.fail (createError .rangeError "MASK must be clear" true 1002 "WS_ERR_UNEXPECTED_MASK")
  else if p.payloadLength = 126 then goOn { p with state := .getPayloadLength16 } []
  else if p.payloadLength = 127 then goOn { p with state := .getPayloadLength64 } []
  else p.haveLength o

def getInfo (o : Options) (p : Reading) (b0 b1 : UInt8) : Outcome :=
  if b0 &&& 0x30 ≠ 0x00 then
    p.fail (createError .rangeError "RSV2 and RSV3 must be clear" true 1002
      "WS_ERR_UNEXPECTED_RSV_2_3")
  else if b0 &&& 0x40 = 0x40 then
    p.fail (createError .rangeError "RSV1 must be clear" true 1002 "WS_ERR_UNEXPECTED_RSV_1")
  else
    let p := { p with
      fin := b0 &&& 0x80 = 0x80
      opcode := (b0 &&& 0x0f).toNat
      payloadLength := (b1 &&& 0x7f).toNat }
    match p.frameOpcode with
    | .error e => p.fail e
    | .ok opcode =>
      checkMask o { p with
        opcode := opcode
        fragmented := if ¬p.fin ∧ p.fragmented = 0 then opcode else p.fragmented
        masked := b1 &&& 0x80 = 0x80 }

def getPayloadLength16 (o : Options) (p : Reading) (buf : List UInt8) : Outcome :=
  haveLength o { p with payloadLength := beNat buf }

def getPayloadLength64 (o : Options) (p : Reading) (buf : List UInt8) : Outcome :=
  let num := beNat (buf.take 4)
  if 2 ^ (53 - 32) - 1 < num then
    p.fail (createError .rangeError "Unsupported WebSocket frame: payload length > 2^53 - 1" false
      1009 "WS_ERR_UNSUPPORTED_DATA_PAYLOAD_LENGTH")
  else haveLength o { p with payloadLength := num * 2 ^ 32 + beNat (buf.drop 4) }

def getMask (p : Reading) (buf : List UInt8) : Outcome :=
  goOn { p with mask := buf, state := .getData } []

def reset (p : Reading) : Reading :=
  { p with totalPayloadLength := 0, messageLength := 0, fragmented := 0, fragments := [] }

def dataMessage (o : Options) (p : Reading) : Outcome :=
  if ¬p.fin then goOn { p with state := .getInfo } []
  else
    match concat p.fragments p.messageLength with
    | none => p.reset.throws
    | some data =>
      if p.opcode = 2 then goOn { p.reset with state := .getInfo } [.message data true]
      else if ¬o.skipUTF8Validation ∧ ¬isValidUTF8 data then
        p.reset.fail (createError .error "invalid UTF-8 sequence" true 1007 "WS_ERR_INVALID_UTF8")
      else goOn { p.reset with state := .getInfo } [.message data false]

def controlMessage (o : Options) (p : Reading) (data : List UInt8) : Outcome :=
  if p.opcode = 0x08 then
    if data.length = 0 then ⟨{ p with state := .getInfo }, [.conclude 1005 []], false⟩
    else
      let code := beNat (data.take 2)
      if ¬isValidStatusCode code then
        p.fail (createError .rangeError s!"invalid status code {code}" true 1002
          "WS_ERR_INVALID_CLOSE_CODE")
      else
        let buf := data.drop 2
        if ¬o.skipUTF8Validation ∧ ¬isValidUTF8 buf then
          p.fail (createError .error "invalid UTF-8 sequence" true 1007 "WS_ERR_INVALID_UTF8")
        else ⟨{ p with state := .getInfo }, [.conclude code buf], false⟩
  else goOn { p with state := .getInfo } [if p.opcode = 0x09 then .ping data else .pong data]

/-- The bytes of the payload without their mask. A mask of zeros is left alone. -/
def payload (p : Reading) (buf : List UInt8) : List UInt8 :=
  if p.masked ∧ p.mask.getD 0 0 ||| p.mask.getD 1 0 ||| p.mask.getD 2 0 ||| p.mask.getD 3 0 ≠ 0
  then unmask buf p.mask else buf

def addFragment (p : Reading) (data : List UInt8) : Reading :=
  if data.length ≠ 0 then
    { p with messageLength := p.totalPayloadLength, fragments := p.fragments ++ [data] }
  else p

def getData (o : Options) (p : Reading) (buf : List UInt8) : Outcome :=
  if 0x07 < p.opcode then p.controlMessage o (p.payload buf)
  else (p.addFragment (p.payload buf)).dataMessage o

def wanted (p : Reading) : Nat :=
  match p.state with
  | .getInfo => 2
  | .getPayloadLength16 => 2
  | .getPayloadLength64 => 8
  | .getMask => 4
  | .getData => p.payloadLength

def handle (o : Options) (p : Reading) (buf : List UInt8) : Outcome :=
  match p.state with
  | .getInfo => p.getInfo o (buf.getD 0 0) (buf.getD 1 0)
  | .getPayloadLength16 => p.getPayloadLength16 o buf
  | .getPayloadLength64 => p.getPayloadLength64 o buf
  | .getMask => p.getMask buf
  | .getData => p.getData o buf

/-- A close frame has been read. -/
def concluded (p : Reading) : Bool := p.opcode = 0x08 && p.state = .getInfo

end Reading

structure Receiver where
  bufferedBytes : Nat
  buffers : List (List UInt8)
  loop : Bool
  reading : Reading

namespace Receiver

def init : Receiver where
  bufferedBytes := 0
  buffers := []
  loop := false
  reading := .init

/-- The loop of `consume`. -/
def copy : List (List UInt8) → Nat → List UInt8 × List (List UInt8)
  | [], _ => ([], [])
  | buf :: rest, n =>
    if buf.length ≤ n then
      if 0 < n - buf.length then
        (buf ++ (copy rest (n - buf.length)).1, (copy rest (n - buf.length)).2)
      else (buf, rest)
    else (buf.take n, buf.drop n :: rest)

def consume (r : Receiver) (n : Nat) : List UInt8 × Receiver :=
  let r := { r with bufferedBytes := r.bufferedBytes - n }
  match r.buffers with
  | [] => ([], r)
  | buf :: rest =>
    if n = buf.length then (buf, { r with buffers := rest })
    else if n < buf.length then (buf.take n, { r with buffers := buf.drop n :: rest })
    else ((copy (buf :: rest) n).1, { r with buffers := (copy (buf :: rest) n).2 })

/-- One pass of the loop: each handler waits for its bytes and consumes them. A
frame without payload has none to consume. -/
def pass (o : Options) (r : Receiver) : Receiver × List ReceiverEvent :=
  if r.bufferedBytes < r.reading.wanted then ({ r with loop := false }, [])
  else
    let (buf, r) := if r.reading.wanted = 0 then ([], r) else r.consume r.reading.wanted
    let out := r.reading.handle o buf
    ({ r with reading := out.reading, loop := out.loop }, out.events)

def startLoop (o : Options) : Nat → Receiver → Receiver × List ReceiverEvent
  | 0, r => (r, [])
  | fuel + 1, r =>
    let (next, events) := r.pass o
    if next.loop then ((startLoop o fuel next).1, events ++ (startLoop o fuel next).2)
    else (next, events)

/-- A chunk is written to the receiver. After an error the stream writes nothing
more to it. -/
def write (o : Options) (r : Receiver) (chunk : List UInt8) : Receiver × List ReceiverEvent :=
  if r.reading.errored then (r, [])
  else if r.reading.concluded then (r, [])
  else
    let r := { r with
      bufferedBytes := r.bufferedBytes + chunk.length
      buffers := r.buffers ++ [chunk]
      loop := true }
    startLoop o (2 * r.bufferedBytes + 2) r

def receive (o : Options) : Receiver → List (List UInt8) → Receiver × List ReceiverEvent
  | r, [] => (r, [])
  | r, chunk :: rest =>
    let (next, events) := r.write o chunk
    ((receive o next rest).1, events ++ (receive o next rest).2)

end Receiver

/-- Nothing is emitted after it. -/
def ReceiverEvent.terminal : ReceiverEvent → Bool
  | .conclude .. | .error _ | .thrown => true
  | .message .. | .ping _ | .pong _ => false

namespace Reading

variable {o : Options} {p q : Reading} {buf : List UInt8}

/-- What a handler can do to a receiver that has neither failed nor been closed. -/
inductive Handled (p : Reading) : Outcome → Prop
  | failed (q : Reading) (e : ReceiverError) (hcode : isValidStatusCode e.statusCode = true) :
      Handled p (q.fail e)
  | thrown (q : Reading) : Handled p q.throws
  | closed (q : Reading) (code : Nat) (reason : List UInt8) (hopcode : q.opcode = 0x08)
      (herrored : q.errored = p.errored) :
      Handled p ⟨{ q with state := .getInfo }, [.conclude code reason], false⟩
  | went (q : Reading) (events : List ReceiverEvent) (herrored : q.errored = p.errored)
      (hopen : q.concluded = false) (hevents : ∀ e ∈ events, e.terminal = false)
      (hdata : p.state = .getData → q.state = .getInfo) : Handled p (q.goOn events)

theorem not_concluded_of_state (h : q.state ≠ .getInfo) : q.concluded = false := by
  simp [concluded, h]

theorem not_concluded_of_opcode (h : q.opcode ≠ 0x08) : q.concluded = false := by
  simp [concluded, h]

theorem handled_expectData (hstate : p.state ≠ .getData) (herrored : q.errored = p.errored) :
    Handled p q.expectData := by
  unfold expectData
  split
  · exact .went _ _ herrored (not_concluded_of_state (by simp)) (by simp)
      (fun h => absurd h hstate)
  · exact .went _ _ herrored (not_concluded_of_state (by simp)) (by simp)
      (fun h => absurd h hstate)

theorem handled_haveLength (hstate : p.state ≠ .getData) (herrored : q.errored = p.errored) :
    Handled p (haveLength o q) := by
  unfold haveLength
  dsimp only
  split
  · split
    · exact .failed _ _ rfl
    · exact handled_expectData hstate herrored
  · exact handled_expectData hstate herrored

theorem handled_checkMask (hstate : p.state ≠ .getData) (herrored : q.errored = p.errored) :
    Handled p (checkMask o q) := by
  unfold checkMask
  split
  · exact .failed _ _ rfl
  · split
    · exact .failed _ _ rfl
    · split
      · exact .went _ _ herrored (not_concluded_of_state (by simp)) (by simp)
          (fun h => absurd h hstate)
      · split
        · exact .went _ _ herrored (not_concluded_of_state (by simp)) (by simp)
            (fun h => absurd h hstate)
        · exact handled_haveLength hstate herrored

/-- An error says with which code the connection is to be closed. -/
theorem statusCode_of_refused {e : ReceiverError} (h : p.frameOpcode = .error e) :
    isValidStatusCode e.statusCode = true := by
  unfold frameOpcode at h
  split_ifs at h <;> (obtain rfl := Except.error.inj h; rfl)

theorem handled_getInfo (hstate : p.state ≠ .getData) (b0 b1 : UInt8) :
    Handled p (p.getInfo o b0 b1) := by
  unfold getInfo
  split
  · exact .failed _ _ rfl
  · split
    · exact .failed _ _ rfl
    · dsimp only
      split
      · next hrefused => exact .failed _ _ (statusCode_of_refused hrefused)
      · exact handled_checkMask hstate rfl

theorem handled_dataMessage (hopcode : q.opcode ≤ 0x07) (herrored : q.errored = p.errored) :
    Handled p (dataMessage o q) := by
  have hopen : q.opcode ≠ 0x08 := by omega
  unfold dataMessage
  split
  · exact .went _ _ herrored (not_concluded_of_opcode hopen) (by simp) (fun _ => rfl)
  · split
    · exact .thrown _
    · split
      · exact .went _ _ herrored (not_concluded_of_opcode hopen) (by simp [ReceiverEvent.terminal])
          (fun _ => rfl)
      · split
        · exact .failed _ _ rfl
        · exact .went _ _ herrored (not_concluded_of_opcode hopen)
            (by simp [ReceiverEvent.terminal]) (fun _ => rfl)

theorem handled_controlMessage (data : List UInt8) : Handled p (p.controlMessage o data) := by
  unfold controlMessage
  split
  · next hopcode =>
    split
    · exact .closed _ _ _ hopcode rfl
    · dsimp only
      split
      · exact .failed _ _ rfl
      · split
        · exact .failed _ _ rfl
        · exact .closed _ _ _ hopcode rfl
  · next hopcode =>
    refine .went _ _ rfl (not_concluded_of_opcode hopcode) ?_ (fun _ => rfl)
    split <;> simp [ReceiverEvent.terminal]

@[simp] theorem addFragment_opcode (p : Reading) (data : List UInt8) :
    (p.addFragment data).opcode = p.opcode := by
  unfold addFragment
  split <;> rfl

@[simp] theorem addFragment_errored (p : Reading) (data : List UInt8) :
    (p.addFragment data).errored = p.errored := by
  unfold addFragment
  split <;> rfl

@[simp] theorem addFragment_fin (p : Reading) (data : List UInt8) :
    (p.addFragment data).fin = p.fin := by
  unfold addFragment
  split <;> rfl

@[simp] theorem addFragment_fragmented (p : Reading) (data : List UInt8) :
    (p.addFragment data).fragmented = p.fragmented := by
  unfold addFragment
  split <;> rfl

@[simp] theorem addFragment_totalPayloadLength (p : Reading) (data : List UInt8) :
    (p.addFragment data).totalPayloadLength = p.totalPayloadLength := by
  unfold addFragment
  split <;> rfl

theorem handled_getData : Handled p (p.getData o buf) := by
  unfold getData
  split
  · exact handled_controlMessage _
  · next hopcode =>
    apply handled_dataMessage
    · rw [addFragment_opcode]
      exact Nat.not_lt.mp hopcode
    · exact addFragment_errored p _

theorem handled_handle (o : Options) (p : Reading) (buf : List UInt8) :
    Handled p (p.handle o buf) := by
  unfold handle
  split
  · next hstate => exact handled_getInfo (by simp [hstate]) _ _
  · next hstate => exact handled_haveLength (by simp [hstate]) rfl
  · next hstate =>
    unfold getPayloadLength64
    dsimp only
    split
    · exact .failed _ _ rfl
    · exact handled_haveLength (by simp [hstate]) rfl
  · next hstate =>
    exact .went _ _ rfl (not_concluded_of_state (by simp)) (by simp) (by simp [hstate])
  · exact handled_getData

/-- The loop goes on as long as the receiver has neither failed nor been closed. -/
theorem loop_handle (hopen : p.errored = false) :
    (p.handle o buf).loop =
      !((p.handle o buf).reading.errored || (p.handle o buf).reading.concluded) := by
  have h := handled_handle o p buf
  generalize p.handle o buf = out at h
  cases h with
  | failed q e hcode => rfl
  | thrown q => rfl
  | closed q code reason hopcode herrored => simp [concluded, hopcode]
  | went q events herrored hconcluded hevents hdata => simp [goOn, herrored, hopen, hconcluded]

end Reading

end MediaStream.WebRTC.Ws
