import Mathlib.Data.List.Basic
import MediaStream.Lib.Bytes

/-!
The datagrams of the audio/video node and their layout in memory on a 64-bit
little-endian machine: `Video_Fragment` has 1424 bytes, `Audio_Packet` 4112.
A receiver that treats a datagram as a `Video_Fragment` overlays its first
1424 bytes on the structure, whatever was sent.
-/

namespace MediaStream.OnlineAV

open Lib.Bytes

def fdataSize : Nat := 1400

/-- `sizeof(Video_Fragment)`: three `uint32_t`, a `bool` with three bytes of
padding, a `size_t` and the data. -/
def sizeofVideoFragment : Nat := 1424

/-- `Buff_Size * Channels` samples of two bytes. -/
def audioDataSize : Nat := 1024 * 2 * 2

/-- `sizeof(Audio_Packet)`: a `uint32_t` with four bytes of padding, a
`uint64_t` and the samples. -/
def sizeofAudioPacket : Nat := 4112

@[ext]
structure VideoFragment where
  frameSeq : UInt32
  fragmentI : UInt32
  totalFragments : UInt32
  lastFragment : Bool
  fragmentS : UInt64
  fdata : List UInt8
  length_fdata : fdata.length = fdataSize

structure Samples where
  bytes : List UInt8
  length_bytes : bytes.length = audioDataSize

def Samples.silence : Samples where
  bytes := List.replicate audioDataSize 0
  length_bytes := List.length_replicate

structure AudioPacket where
  aSequence : UInt32
  timestamp : UInt64
  audioData : Samples

namespace VideoFragment

/-- The structure as `sendto` reads it from memory. -/
def bytes (f : VideoFragment) : List UInt8 :=
  le 4 f.frameSeq.toNat ++ le 4 f.fragmentI.toNat ++ le 4 f.totalFragments.toNat ++
    [if f.lastFragment then 1 else 0] ++ [0, 0, 0] ++ le 8 f.fragmentS.toNat ++ f.fdata

def ofMemory (memory : List UInt8) (h : memory.length = sizeofVideoFragment) : VideoFragment where
  frameSeq := UInt32.ofNat (field memory 0 4)
  fragmentI := UInt32.ofNat (field memory 4 4)
  totalFragments := UInt32.ofNat (field memory 8 4)
  lastFragment := field memory 12 1 ≠ 0
  fragmentS := UInt64.ofNat (field memory 16 8)
  fdata := memory.drop 24
  length_fdata := by simp [h, sizeofVideoFragment, fdataSize]

/-- The memory of `Video_Fragment fragment = {}` after
`recv(sockfd, &fragment, sizeof(fragment), 0)`. -/
def received (datagram : List UInt8) : List UInt8 :=
  overwrite (List.replicate sizeofVideoFragment 0) datagram

/-- The fragment that `VideoPlayback` reads out of a datagram. -/
def recv (datagram : List UInt8) : VideoFragment :=
  ofMemory (received datagram) (by simp [received])

/-- The bytes `[Fdata, Fdata + fragment_s)`, as far as they are in the array. -/
def data (f : VideoFragment) : List UInt8 := f.fdata.take f.fragmentS.toNat

def InBounds (f : VideoFragment) : Prop := f.fragmentS.toNat ≤ fdataSize

instance (f : VideoFragment) : Decidable f.InBounds :=
  inferInstanceAs (Decidable (_ ≤ _))

theorem length_bytes (f : VideoFragment) : f.bytes.length = sizeofVideoFragment := by
  simp [bytes, f.length_fdata, fdataSize, sizeofVideoFragment]

theorem received_bytes (f : VideoFragment) : received f.bytes = f.bytes :=
  overwrite_full (by rw [length_bytes, List.length_replicate])

private theorem uint32_field (x : UInt32) : UInt32.ofNat (leNat (le 4 x.toNat)) = x := by
  rw [leNat_le_of_lt x.toNat_lt, UInt32.ofNat_toNat]

private theorem uint64_field (x : UInt64) : UInt64.ofNat (leNat (le 8 x.toNat)) = x := by
  rw [leNat_le_of_lt x.toNat_lt, UInt64.ofNat_toNat]

/-- A fragment survives the wire. -/
@[simp] theorem recv_bytes (f : VideoFragment) : recv f.bytes = f := by
  have hframe : field f.bytes 0 4 = leNat (le 4 f.frameSeq.toNat) :=
    field_eq [] _ (by simp [bytes]) rfl (by simp)
  have hindex : field f.bytes 4 4 = leNat (le 4 f.fragmentI.toNat) :=
    field_eq (le 4 f.frameSeq.toNat) _ (by simp [bytes]) (by simp) (by simp)
  have htotal : field f.bytes 8 4 = leNat (le 4 f.totalFragments.toNat) :=
    field_eq (le 4 f.frameSeq.toNat ++ le 4 f.fragmentI.toNat) _ (by simp [bytes]) (by simp)
      (by simp)
  have hlast : field f.bytes 12 1 = leNat [if f.lastFragment then 1 else 0] :=
    field_eq (le 4 f.frameSeq.toNat ++ le 4 f.fragmentI.toNat ++ le 4 f.totalFragments.toNat) _
      (by simp [bytes]) (by simp) rfl
  have hsize : field f.bytes 16 8 = leNat (le 8 f.fragmentS.toNat) :=
    field_eq (le 4 f.frameSeq.toNat ++ le 4 f.fragmentI.toNat ++ le 4 f.totalFragments.toNat ++
      [if f.lastFragment then 1 else 0] ++ [0, 0, 0]) _ (by simp [bytes]) (by simp) (by simp)
  ext1 <;> simp only [recv, ofMemory, received_bytes]
  · rw [hframe, uint32_field]
  · rw [hindex, uint32_field]
  · rw [htotal, uint32_field]
  · rw [hlast]
    cases f.lastFragment <;> rfl
  · rw [hsize, uint64_field]
  · exact List.drop_left' (by simp)

end VideoFragment

namespace AudioPacket

def bytes (p : AudioPacket) : List UInt8 :=
  le 4 p.aSequence.toNat ++ [0, 0, 0, 0] ++ le 8 p.timestamp.toNat ++ p.audioData.bytes

theorem length_bytes (p : AudioPacket) : p.bytes.length = sizeofAudioPacket := by
  simp [bytes, p.audioData.length_bytes, audioDataSize, sizeofAudioPacket]

/-- The packet `AudioRecAndSend` sends: `packet = {}`, of which only the
sequence number and the samples are ever set. -/
def captured (sequence : UInt32) (samples : Samples) : AudioPacket where
  aSequence := sequence
  timestamp := 0
  audioData := samples

end AudioPacket

/-- `"HELLO"`, without its terminating zero. -/
def helloBytes : List UInt8 := [72, 69, 76, 76, 79]

/-- The datagrams the node's own threads send. -/
inductive Datagram where
  | hello
  | audio (sequence : UInt32) (samples : Samples)
  | video (f : VideoFragment)

namespace Datagram

def bytes : Datagram → List UInt8
  | hello => helloBytes
  | audio sequence samples => (AudioPacket.captured sequence samples).bytes
  | video f => f.bytes

def isVideo : Datagram → Bool
  | video _ => true
  | _ => false

/-- The datagram as `VideoPlayback` reads it. -/
def overlay (d : Datagram) : VideoFragment := VideoFragment.recv d.bytes

@[simp] theorem overlay_video (f : VideoFragment) : (video f).overlay = f :=
  VideoFragment.recv_bytes f

end Datagram

namespace VideoFragment

theorem received_audio (p : AudioPacket) : received p.bytes = p.bytes.take sizeofVideoFragment := by
  have hlen : sizeofVideoFragment ≤ p.bytes.length := by
    rw [p.length_bytes]
    decide
  unfold received
  rw [overwrite_long (by rwa [List.length_replicate]), List.length_replicate]

private theorem audio_field {p : AudioPacket} {offset width : Nat} (front value : List UInt8)
    (h : front ++ value <+: p.bytes) (hoffset : front.length = offset)
    (hwidth : value.length = width) (hfits : offset + width ≤ sizeofVideoFragment) :
    field (received p.bytes) offset width = leNat value := by
  rw [received_audio]
  refine field_eq front value (List.prefix_take_iff.mpr ⟨h, ?_⟩) hoffset hwidth
  rw [List.length_append]
  omega

/-- An audio packet lands under its own sequence number. -/
theorem recv_audio_frameSeq (p : AudioPacket) : (recv p.bytes).frameSeq = p.aSequence := by
  have hfield : field (received p.bytes) 0 4 = leNat (le 4 p.aSequence.toNat) :=
    audio_field [] _ (by simp [AudioPacket.bytes]) rfl (by simp) (by decide)
  simp only [recv, ofMemory, hfield, uint32_field]

/-- `last_fragment` of an audio packet is a byte in the middle of its timestamp. -/
theorem recv_audio_lastFragment (p : AudioPacket) :
    (recv p.bytes).lastFragment = decide (p.timestamp.toNat / 2 ^ 32 % 256 ≠ 0) := by
  have htimestamp : le 8 p.timestamp.toNat =
      le 4 p.timestamp.toNat ++ (UInt8.ofNat (p.timestamp.toNat / 2 ^ 32) ::
        le 3 (p.timestamp.toNat / 2 ^ 32 / 256)) :=
    le_add 4 4 p.timestamp.toNat
  have hfield : field (received p.bytes) 12 1 =
      leNat [UInt8.ofNat (p.timestamp.toNat / 2 ^ 32)] :=
    audio_field (le 4 p.aSequence.toNat ++ [0, 0, 0, 0] ++ le 4 p.timestamp.toNat) _
      (by simp [AudioPacket.bytes, htimestamp]) (by simp) rfl (by decide)
  simp only [recv, ofMemory, hfield]
  simp [leNat]

/-- `fragment_s` of an audio packet is what its first four samples spell. -/
theorem recv_audio_fragmentS (p : AudioPacket) :
    (recv p.bytes).fragmentS = UInt64.ofNat (leNat (p.audioData.bytes.take 8)) := by
  have hsamples : (p.audioData.bytes.take 8).length = 8 := by
    rw [List.length_take, p.audioData.length_bytes]
    rfl
  have hfield : field (received p.bytes) 16 8 = leNat (p.audioData.bytes.take 8) := by
    refine audio_field (le 4 p.aSequence.toNat ++ [0, 0, 0, 0] ++ le 8 p.timestamp.toNat) _ ?_
      (by simp) hsamples (by decide)
    exact List.prefix_append_right_inj _ |>.mpr (List.take_prefix 8 _)
  simp only [recv, ofMemory, hfield]

theorem received_hello : received helloBytes = helloBytes ++ List.replicate 1419 0 := by
  unfold received overwrite
  rw [List.length_replicate, List.drop_replicate]
  rfl

/-- A `HELLO` lands under the number its first four letters spell. -/
theorem recv_hello_frameSeq : (recv helloBytes).frameSeq = 0x4C4C4548 := by
  have hfield : field (received helloBytes) 0 4 = leNat [72, 69, 76, 76] :=
    field_eq [] _ (received_hello ▸ ⟨79 :: List.replicate 1419 0, rfl⟩) rfl rfl
  simp only [recv, ofMemory, hfield]
  rfl

theorem recv_hello_lastFragment : (recv helloBytes).lastFragment = false := by
  have hzeros : (List.replicate 1419 0 : List UInt8) =
      List.replicate 7 0 ++ [0] ++ List.replicate 1411 0 := by
    rw [← List.replicate_succ', List.replicate_append_replicate]
  have hfield : field (received helloBytes) 12 1 = leNat [0] :=
    field_eq (helloBytes ++ List.replicate 7 0) _
      ⟨List.replicate 1411 0, by rw [received_hello, hzeros]; simp only [List.append_assoc]⟩
      rfl rfl
  simp only [recv, ofMemory, hfield]
  rfl

theorem recv_hello_fragmentS : (recv helloBytes).fragmentS = 0 := by
  have hzeros : (List.replicate 1419 0 : List UInt8) =
      List.replicate 11 0 ++ List.replicate 8 0 ++ List.replicate 1400 0 := by
    rw [List.replicate_append_replicate, List.replicate_append_replicate]
  have hfield : field (received helloBytes) 16 8 = leNat (List.replicate 8 0) :=
    field_eq (helloBytes ++ List.replicate 11 0) _
      ⟨List.replicate 1400 0, by rw [received_hello, hzeros]; simp only [List.append_assoc]⟩
      rfl rfl
  simp only [recv, ofMemory, hfield]
  rfl

-- What a datagram is read as is known from the lemmas above, not by computing.
attribute [irreducible] recv

end VideoFragment

end MediaStream.OnlineAV
