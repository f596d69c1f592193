import Mathlib.Data.List.DropRight
import MediaStream.OnlineAV.Node

/-!
What `AudioPlayback` plays. It keeps one `Audio_Packet`, into which every datagram
it gets is received, and it plays all the samples of that after each one. A greeting
does not reach the samples, a video fragment covers the front of them, and only an
audio packet makes them anew.
-/

namespace MediaStream.OnlineAV

open Lib.Bytes

def coveredSize : Nat := sizeofVideoFragment - audioDataOffset

def Datagram.fragment : Datagram → Option VideoFragment
  | video f => some f
  | _ => none

def Datagram.audioSamples : Datagram → Option Samples
  | audio _ samples => some samples
  | _ => none

def lastAudio (datagrams : List Datagram) : Samples :=
  (datagrams.filterMap Datagram.audioSamples).getLast?.getD .silence

def fragmentSince (datagrams : List Datagram) : Option VideoFragment :=
  ((datagrams.rtakeWhile fun d => !d.isAudio).filterMap Datagram.fragment).getLast?

def cover (samples : Samples) : Option VideoFragment → List UInt8
  | none => samples.bytes
  | some f => f.bytes.drop audioDataOffset ++ samples.bytes.drop coveredSize

/-- The samples played after these datagrams. -/
def played (datagrams : List Datagram) : List UInt8 :=
  cover (lastAudio datagrams) (fragmentSince datagrams)

section Last

variable {datagrams : List Datagram} {d : Datagram}

theorem lastAudio_concat :
    lastAudio (datagrams ++ [d]) = d.audioSamples.getD (lastAudio datagrams) := by
  unfold lastAudio
  rw [List.filterMap_append]
  cases d <;> simp [Datagram.audioSamples]

theorem fragmentSince_concat : fragmentSince (datagrams ++ [d]) =
    if d.isAudio then none else d.fragment.or (fragmentSince datagrams) := by
  unfold fragmentSince
  rw [List.rtakeWhile_concat]
  cases d <;> simp [Datagram.isAudio, Datagram.fragment]

end Last

section Memory

variable {packet : List UInt8} {datagrams : List Datagram}

/-- What lies behind the bytes written stays. -/
theorem drop_overwrite_of_le {bytes : List UInt8} {n : Nat} (hbytes : bytes.length ≤ n)
    (hsize : bytes.length ≤ packet.length) : (overwrite packet bytes).drop n = packet.drop n := by
  unfold overwrite
  rw [List.take_of_length_le hsize, List.drop_append, List.drop_eq_nil_of_le hbytes,
    List.nil_append, List.drop_drop]
  congr 1
  omega

theorem drop_overwrite {bytes : List UInt8} {n : Nat} (hn : n ≤ bytes.length)
    (hsize : bytes.length ≤ packet.length) :
    (overwrite packet bytes).drop n = bytes.drop n ++ packet.drop bytes.length := by
  unfold overwrite
  rw [List.take_of_length_le hsize, List.drop_append_of_le_length hn]

theorem drop_cover (samples : Samples) (f : Option VideoFragment) :
    (cover samples f).drop coveredSize = samples.bytes.drop coveredSize := by
  cases f with
  | none => rfl
  | some f =>
    apply List.drop_left'
    simp [f.length_bytes, coveredSize]

/-- What a datagram does to the samples in the packet. -/
theorem played_concat (hlen : packet.length = sizeofAudioPacket)
    (h : packet.drop audioDataOffset = played datagrams) (d : Datagram) :
    (overwrite packet d.bytes).drop audioDataOffset = played (datagrams ++ [d]) := by
  unfold played
  rw [lastAudio_concat, fragmentSince_concat]
  cases d with
  | hello =>
    have hbehind : (overwrite packet helloBytes).drop audioDataOffset =
        packet.drop audioDataOffset := by
      apply drop_overwrite_of_le (by decide)
      rw [hlen]
      decide
    exact hbehind.trans h
  | audio sequence samples =>
    have hwhole : (Datagram.audio sequence samples).bytes.length = packet.length :=
      (AudioPacket.length_bytes _).trans hlen.symm
    rw [overwrite_full hwhole]
    exact List.drop_left' (by simp [audioDataOffset, AudioPacket.captured])
  | video f =>
    have hfront : (overwrite packet f.bytes).drop audioDataOffset =
        f.bytes.drop audioDataOffset ++ packet.drop f.bytes.length := by
      apply drop_overwrite
      · rw [f.length_bytes]
        decide
      · rw [f.length_bytes, hlen]
        decide
    have hbehind : packet.drop f.bytes.length = (lastAudio datagrams).bytes.drop coveredSize := by
      rw [f.length_bytes, ← drop_cover _ (fragmentSince datagrams)]
      change _ = (played datagrams).drop coveredSize
      rw [← h, List.drop_drop]
      rfl
    exact hfront.trans (congrArg _ hbehind)

/-- The latest audio packet is played as it is exactly if no fragment covers it with
anything else. -/
theorem played_eq_iff (datagrams : List Datagram) :
    played datagrams = (lastAudio datagrams).bytes ↔
      ∀ f, fragmentSince datagrams = some f →
        f.bytes.drop audioDataOffset = (lastAudio datagrams).bytes.take coveredSize := by
  unfold played
  cases fragmentSince datagrams with
  | none => simp [cover]
  | some f =>
    have hsplit := List.take_append_drop coveredSize (lastAudio datagrams).bytes
    have hfront : cover (lastAudio datagrams) (some f) =
        (lastAudio datagrams).bytes.take coveredSize ++
          (lastAudio datagrams).bytes.drop coveredSize ↔
        f.bytes.drop audioDataOffset = (lastAudio datagrams).bytes.take coveredSize :=
      List.append_left_inj _
    rw [hsplit] at hfront
    rw [hfront]
    constructor
    · rintro hsame f' hf'
      exact Option.some.inj hf' ▸ hsame
    · exact fun hcovered => hcovered f rfl

end Memory

def toAudioPlayback (deliveries : List Delivery) : List Datagram :=
  (deliveries.filter fun d => d.loop = .audioPlayback).map Delivery.datagram

section Runs

variable {S : FragmentSort} {n : Node} {deliveries : List Delivery}

/-- The other loops play nothing, and leave the packet alone. -/
theorem silent_receive {d : Delivery} (h : d.loop ≠ .audioPlayback) :
    (n.receive S d).2.filterMap Effect.samples = [] ∧ (n.receive S d).1.packet = n.packet := by
  unfold Node.receive
  cases hloop : d.loop with
  | lookForPeers => exact ⟨rfl, rfl⟩
  | audioPlayback => exact absurd hloop h
  | videoPlayback =>
    refine ⟨?_, rfl⟩
    cases (handleFragment S n.buffer d.datagram.overlay).2 <;> rfl

theorem written_from (before : List Datagram) (hlen : n.packet.length = sizeofAudioPacket)
    (h : n.packet.drop audioDataOffset = played before) :
    (n.effects S deliveries).flatten.filterMap Effect.samples =
      (List.range (toAudioPlayback deliveries).length).map fun k =>
        played (before ++ (toAudioPlayback deliveries).take (k + 1)) := by
  induction deliveries generalizing n before with
  | nil => rfl
  | cons d rest ih =>
    have hkept : (n.receive S d).1.packet.length = sizeofAudioPacket :=
      length_packet_receive.trans hlen
    rw [Node.effects, List.flatten_cons, List.filterMap_append]
    by_cases hloop : d.loop = .audioPlayback
    · have hreceive : n.receive S d = n.audioPlayback d.datagram.bytes := by
        rw [Node.receive, hloop]
      have hplayed := played_concat hlen h d.datagram
      have hmine : toAudioPlayback (d :: rest) = d.datagram :: toAudioPlayback rest := by
        simp [toAudioPlayback, hloop]
      rw [hmine, List.length_cons, List.range_succ_eq_map, List.map_cons, List.map_map,
        ih (before ++ [d.datagram]) hkept (by rw [hreceive]; exact hplayed), hreceive]
      simp only [Node.audioPlayback, Effect.samples, List.filterMap_cons, List.filterMap_nil,
        hplayed, List.singleton_append, List.take_succ_cons, List.take_zero]
      simp [Function.comp_def]
    · obtain ⟨hsilent, hpacket⟩ := silent_receive (S := S) (n := n) hloop
      have hmine : toAudioPlayback (d :: rest) = toAudioPlayback rest := by
        simp [toAudioPlayback, hloop]
      rw [hsilent, List.nil_append, hmine, ih before hkept (by rw [hpacket]; exact h)]

theorem played_init : Node.init.packet.drop audioDataOffset = played [] := by
  have hsize : sizeofAudioPacket - audioDataOffset = audioDataSize := by decide
  have hzeros : Node.init.packet.drop audioDataOffset =
      List.replicate (sizeofAudioPacket - audioDataOffset) 0 := List.drop_replicate
  rw [hzeros, hsize]
  rfl

/-- However the kernel shares the datagrams out, `AudioPlayback` plays one block for
each that it gets: the latest audio packet, covered by the last video fragment that
has come since. -/
theorem blocks_played (S : FragmentSort) (deliveries : List Delivery) :
    (Node.init.effects S deliveries).flatten.filterMap Effect.samples =
      (List.range (toAudioPlayback deliveries).length).map fun k =>
        played ((toAudioPlayback deliveries).take (k + 1)) := by
  exact written_from [] List.length_replicate played_init

end Runs

end MediaStream.OnlineAV
