import MediaStream.WebRTC.Ws.Receiver

/-!
`ws/lib/sender.js`: frames for the other side. Without an extension nothing is
compressed, and without blobs nothing is queued, so each call writes one frame.
-/

namespace MediaStream.WebRTC.Ws

open Lib Lib.Bytes

structure FrameOptions where
  fin : Bool
  /-- The generated masking key, if the data is to be masked. -/
  mask : Option (List UInt8)
  opcode : Nat
  rsv1 : Bool

/-- `mask` of `buffer-util.js`, the same loop as `unmask`. -/
def applyMask (source mask : List UInt8) : List UInt8 :=
  xorKey (fun i => mask.getD (i &&& 3) 0) source

namespace Sender

/-- The buffers that `frame` returns, one after the other. -/
def frame (data : List UInt8) (options : FrameOptions) : List UInt8 :=
  let dataLength := data.length
  let payloadLength :=
    if 65536 ≤ dataLength then 127 else if 125 < dataLength then 126 else dataLength
  let first : UInt8 :=
    if options.fin then UInt8.ofNat options.opcode ||| 0x80 else UInt8.ofNat options.opcode
  let first := if options.rsv1 then first ||| 0x40 else first
  let length :=
    if payloadLength = 126 then be 2 dataLength
    else if payloadLength = 127 then 0 :: 0 :: be 6 dataLength
    else []
  match options.mask with
  | none => first :: UInt8.ofNat payloadLength :: (length ++ data)
  | some mask =>
    let skipMasking : Bool :=
      mask.getD 0 0 ||| mask.getD 1 0 ||| mask.getD 2 0 ||| mask.getD 3 0 = 0
    first :: (UInt8.ofNat payloadLength ||| 0x80) ::
      (length ++ (mask ++ if skipMasking then data else applyMask data mask))

end Sender

structure Sender where
  firstFragment : Bool

namespace Sender

def init : Sender := ⟨true⟩

def close (sender : Sender) (code : Option Nat) (data : List UInt8) (mask : Option (List UInt8)) :
    Except String (Sender × List UInt8) :=
  let options : FrameOptions := { fin := true, mask := mask, opcode := 0x08, rsv1 := false }
  match code with
  | none => .ok (sender, frame [] options)
  | some code =>
    if ¬isValidStatusCode code then .error "First argument must be a valid error code number"
    else if data.length = 0 then .ok (sender, frame (be 2 code) options)
    else if 123 < data.length then .error "The message must not be greater than 123 bytes"
    else .ok (sender, frame (be 2 code ++ data) options)

def ping (sender : Sender) (data : List UInt8) (mask : Option (List UInt8)) :
    Except String (Sender × List UInt8) :=
  if 125 < data.length then .error "The data size must not be greater than 125 bytes"
  else .ok (sender, frame data { fin := true, mask := mask, opcode := 0x09, rsv1 := false })

def pong (sender : Sender) (data : List UInt8) (mask : Option (List UInt8)) :
    Except String (Sender × List UInt8) :=
  if 125 < data.length then .error "The data size must not be greater than 125 bytes"
  else .ok (sender, frame data { fin := true, mask := mask, opcode := 0x0a, rsv1 := false })

def send (sender : Sender) (data : List UInt8) (binary fin : Bool) (mask : Option (List UInt8)) :
    Except String (Sender × List UInt8) :=
  let opcode := if sender.firstFragment then if binary then 2 else 1 else 0
  .ok (⟨fin⟩, frame data { fin := fin, mask := mask, opcode := opcode, rsv1 := false })

end Sender

inductive SendOp where
  | send (data : List UInt8) (binary fin : Bool) (mask : Option (List UInt8))
  | ping (data : List UInt8) (mask : Option (List UInt8))
  | pong (data : List UInt8) (mask : Option (List UInt8))
  | close (code : Option Nat) (data : List UInt8) (mask : Option (List UInt8))

namespace Sender

def call (sender : Sender) : SendOp → Except String (Sender × List UInt8)
  | .send data binary fin mask => sender.send data binary fin mask
  | .ping data mask => sender.ping data mask
  | .pong data mask => sender.pong data mask
  | .close code data mask => sender.close code data mask

def run : Sender → List SendOp → Except String (List UInt8)
  | _, [] => .ok []
  | sender, op :: rest =>
    match sender.call op with
    | .error e => .error e
    | .ok (next, bytes) =>
      match run next rest with
      | .error e => .error e
      | .ok more => .ok (bytes ++ more)

end Sender

end MediaStream.WebRTC.Ws
