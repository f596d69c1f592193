import MediaStream.Lib.Capture
import MediaStream.Lib.Multicast
import MediaStream.OnlineAV.Peers

/-!
What `AudioRecAndSend` sends of what it captures. `snd_pcm_readi` may return with
fewer frames than `Buff_Size`; the packet goes out with all of its samples.
-/

namespace MediaStream.OnlineAV

open Lib Lib.Bytes Lib.Multicast

def frameBytes : Nat := 2 * 2

/-- What `snd_pcm_readi(captureman, packet.audio_data, Buff_Size)` returns. -/
abbrev Frames := Capture.Frames frameBytes 1024

/-- The results of the calls in one pass of the loop. -/
inductive AudioPass where
  /-- `snd_pcm_readi` fails, and `snd_pcm_prepare` succeeds or not. -/
  | readiError (prepared : Bool)
  /-- The frames, and the peers at the time of the copy. -/
  | readi (frames : Frames) (peersList : List SockaddrIn)

def Samples.buffer (samples : Samples) : Bytes.Buffer (1024 * frameBytes) :=
  ⟨samples.bytes, samples.length_bytes⟩

def Samples.ofBuffer (buffer : Bytes.Buffer (1024 * frameBytes)) : Samples :=
  ⟨buffer.bytes, buffer.length_bytes⟩

/-- The packets that are sent, each with the peers it is sent to. -/
def audioRecAndSend (packet : AudioPacket) (sequence : UInt32) :
    List AudioPass → List (List SockaddrIn × AudioPacket)
  | [] => []
  | .readiError prepared :: rest => if prepared then audioRecAndSend packet sequence rest else []
  | .readi frames peersList :: rest =>
    let next : AudioPacket := { packet with
      aSequence := sequence
      audioData := .ofBuffer (packet.audioData.buffer.store frames.bytes) }
    (peersList, next) :: audioRecAndSend next (sequence + 1) rest

def initialPacket : AudioPacket where
  aSequence := 0
  timestamp := 0
  audioData := .silence

/-- The reads that return frames, before the loop ends. -/
def reads : List AudioPass → List Frames
  | [] => []
  | .readiError prepared :: rest => if prepared then reads rest else []
  | .readi frames _ :: rest => frames :: reads rest

def datagrams (sent : List (List SockaddrIn × AudioPacket)) : List (SockaddrIn × AudioPacket) :=
  multicast (sent.map Prod.fst) (sent.map Prod.snd)

def sentAudio (sent : List (List SockaddrIn × AudioPacket)) : List UInt8 :=
  sent.flatMap fun (_, packet) => packet.audioData.bytes

/-- A peer that is in the list at every pass gets the audio that is sent. -/
def EachHears (sent : List (List SockaddrIn × AudioPacket)) : Prop :=
  ∀ peer, (∀ s ∈ sent, s.1.Nodup ∧ peer ∈ s.1) →
    (received peer (datagrams sent)).flatMap (·.audioData.bytes) = sentAudio sent

theorem eachHears (sent : List (List SockaddrIn × AudioPacket)) : EachHears sent := by
  intro peer hpeer
  rw [datagrams, received_sent hpeer, List.flatMap_map]
  rfl

/-- Each packet carries the buffer as the last read has left it. -/
theorem sentAudio_eq (packet : AudioPacket) (sequence : UInt32) (passes : List AudioPass) :
    sentAudio (audioRecAndSend packet sequence passes) =
      (Capture.contents packet.audioData.buffer ((reads passes).map some)).flatten := by
  induction passes generalizing packet sequence with
  | nil => rfl
  | cons pass rest ih =>
    cases pass with
    | readiError prepared =>
      cases prepared with
      | true => exact ih packet sequence
      | false => rfl
    | readi frames peersList =>
      change _ ++ sentAudio (audioRecAndSend _ (sequence + 1) rest) = _ ++ List.flatten _
      rw [ih]
      rfl

/-- What is sent is what has been captured exactly when each read that does not
fail returns all of the frames asked for. -/
theorem sentAudio_eq_captured_iff (passes : List AudioPass) :
    sentAudio (audioRecAndSend initialPacket 0 passes) =
        Capture.captured ((reads passes).map some) ↔
      ∀ frames ∈ reads passes, frames.Full := by
  rw [sentAudio_eq, Capture.flatten_contents_eq_iff]
  simp only [List.forall_mem_map]
  exact Iff.rfl

end MediaStream.OnlineAV
