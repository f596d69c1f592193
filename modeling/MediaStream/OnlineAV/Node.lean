import MediaStream.OnlineAV.Peers
import MediaStream.OnlineAV.VideoPlayback

/-!
One node: `LookForPeers`, `AudioPlayback` and `VideoPlayback` all receive from
`sockfd`, and the kernel gives every datagram to one of them. Nothing in a
datagram says which loop it is for, and none of them passes on what it cannot
use.
-/

namespace MediaStream.OnlineAV

open Lib.Bytes

inductive Loop where
  | lookForPeers
  | audioPlayback
  | videoPlayback
  deriving DecidableEq

structure Delivery where
  loop : Loop
  source : SockaddrIn
  datagram : Datagram

inductive Effect where
  /-- `snd_pcm_writei(playbackman, packet.audio_data, Buff_Size)` -/
  | written (samples : List UInt8)
  /-- `push_back` -/
  | entered (fragment : VideoFragment)
  /-- `cv::imdecode` -/
  | shown (h : Handover)

/-- What the loops keep from one datagram to the next: `peer_List`, the memory of
`AudioPlayback`'s `packet`, and `fragment_buffer`. -/
structure Node where
  peerList : List SockaddrIn
  packet : List UInt8
  buffer : FragmentBuffer

/-- The offset of `audio_data` in an `Audio_Packet`. -/
def audioDataOffset : Nat := 16

namespace Node

def init : Node where
  peerList := []
  packet := List.replicate sizeofAudioPacket 0
  buffer := FragmentBuffer.empty

/-- One pass of `AudioPlayback`: `recv` overwrites the front of `packet`, and
whatever its samples are then, they are played. -/
def audioPlayback (n : Node) (datagram : List UInt8) : Node × List Effect :=
  ({ n with packet := overwrite n.packet datagram },
    [.written ((overwrite n.packet datagram).drop audioDataOffset)])

def receive (S : FragmentSort) (n : Node) (d : Delivery) : Node × List Effect :=
  match d.loop with
  | .lookForPeers =>
    ({ n with peerList := lookForPeers n.peerList d.source d.datagram.bytes }, [])
  | .audioPlayback => n.audioPlayback d.datagram.bytes
  | .videoPlayback =>
    ({ n with buffer := (handleFragment S n.buffer d.datagram.overlay).1 },
      .entered d.datagram.overlay ::
        ((handleFragment S n.buffer d.datagram.overlay).2.map Effect.shown).toList)

def run (S : FragmentSort) (n : Node) (deliveries : List Delivery) : Node :=
  deliveries.foldl (fun n d => (n.receive S d).1) n

def effects (S : FragmentSort) (n : Node) : List Delivery → List (List Effect)
  | [] => []
  | d :: rest => (n.receive S d).2 :: effects S (n.receive S d).1 rest

end Node

def Effect.samples : Effect → Option (List UInt8)
  | written samples => some samples
  | _ => none

def Datagram.samples : Datagram → Option (List UInt8)
  | audio _ samples => some samples.bytes
  | _ => none

def Datagram.isAudio : Datagram → Bool
  | audio _ _ => true
  | _ => false

/-- The datagram has been used as it should: its samples, if it is an audio
packet, and nothing else have been played, and it has been entered into
`fragment_buffer` if it is a video fragment. -/
def Used (d : Delivery) (effects : List Effect) : Prop :=
  effects.filterMap Effect.samples = d.datagram.samples.toList ∧
    ∀ f, d.datagram = .video f → .entered f ∈ effects

/-- Every datagram is used as it should, and the source of every greeting gets
into `peer_List`. -/
def Demultiplexed (S : FragmentSort) (deliveries : List Delivery) : Prop :=
  List.Forall₂ Used deliveries (Node.init.effects S deliveries) ∧
    ∀ d ∈ deliveries, d.datagram = .hello → d.source ∈ (Node.init.run S deliveries).peerList

section Runs

variable {S : FragmentSort} {n : Node} {d : Delivery}

theorem length_packet_receive : ((n.receive S d).1.packet).length = n.packet.length := by
  unfold Node.receive
  cases d.loop with
  | lookForPeers => rfl
  | audioPlayback => exact length_overwrite _ _
  | videoPlayback => rfl

/-- A whole audio packet replaces all samples. -/
theorem written_of_audio {sequence : UInt32} {samples : Samples}
    (hn : n.packet.length = sizeofAudioPacket) :
    (overwrite n.packet (Datagram.audio sequence samples).bytes).drop audioDataOffset =
      samples.bytes := by
  have hlen : (Datagram.audio sequence samples).bytes.length = n.packet.length := by
    rw [hn]
    exact AudioPacket.length_bytes _
  rw [overwrite_full hlen]
  exact List.drop_left' (by simp [audioDataOffset, AudioPacket.captured])

/-- A datagram is used as it should exactly by the loop for its kind. -/
theorem used_iff (hn : n.packet.length = sizeofAudioPacket) :
    Used d (n.receive S d).2 ↔
      (d.datagram.isAudio = true ↔ d.loop = .audioPlayback) ∧
        (d.datagram.isVideo = true → d.loop = .videoPlayback) := by
  obtain ⟨loop, source, datagram⟩ := d
  unfold Used
  cases loop with
  | lookForPeers =>
    cases datagram <;> simp [Node.receive, Datagram.samples, Datagram.isAudio, Datagram.isVideo]
  | audioPlayback =>
    cases datagram with
    | hello =>
      simp [Node.receive, Node.audioPlayback, Datagram.samples, Datagram.isAudio, Effect.samples]
    | audio sequence samples =>
      simp only [Node.receive, Node.audioPlayback, written_of_audio hn]
      simp [Datagram.samples, Datagram.isAudio, Datagram.isVideo, Effect.samples]
    | video f =>
      simp [Node.receive, Node.audioPlayback, Datagram.samples, Datagram.isAudio, Effect.samples]
  | videoPlayback =>
    have hplayed : ∀ handed : Option Handover,
        (handed.map Effect.shown).toList.filterMap Effect.samples = [] := by
      rintro (_ | h) <;> rfl
    have hnothing : ∀ f (handed : Option Handover),
        ((Effect.entered f) :: (handed.map Effect.shown).toList).filterMap Effect.samples = [] :=
      fun _ handed => hplayed handed
    simp only [Node.receive, hnothing]
    cases datagram <;> simp [Datagram.samples, Datagram.isAudio, Datagram.isVideo]

theorem forall_used_iff {deliveries : List Delivery} (hn : n.packet.length = sizeofAudioPacket) :
    List.Forall₂ Used deliveries (n.effects S deliveries) ↔
      ∀ d ∈ deliveries, (d.datagram.isAudio = true ↔ d.loop = .audioPlayback) ∧
        (d.datagram.isVideo = true → d.loop = .videoPlayback) := by
  induction deliveries generalizing n with
  | nil => simp [Node.effects]
  | cons d rest ih =>
    rw [Node.effects, List.forall₂_cons, used_iff hn, ih (by rw [length_packet_receive, hn]),
      List.forall_mem_cons]

theorem mem_peerList_run {deliveries : List Delivery} {peer : SockaddrIn} :
    peer ∈ (n.run S deliveries).peerList ↔
      peer ∈ n.peerList ∨ ∃ d ∈ deliveries, d.loop = .lookForPeers ∧
        readsHello d.datagram.bytes = true ∧ d.source = peer := by
  induction deliveries generalizing n with
  | nil => simp [Node.run]
  | cons d rest ih =>
    have hfirst : peer ∈ (n.receive S d).1.peerList ↔ peer ∈ n.peerList ∨
        d.loop = .lookForPeers ∧ readsHello d.datagram.bytes = true ∧ d.source = peer := by
      unfold Node.receive
      cases d.loop with
      | lookForPeers =>
        rw [mem_lookForPeers, eq_comm (a := peer)]
        simp
      | audioPlayback => simp [Node.audioPlayback]
      | videoPlayback => simp
    rw [Node.run, List.foldl_cons, ← Node.run, ih, hfirst, List.exists_mem_cons_iff, or_assoc]

/-- Demultiplexing works exactly when the kernel knows the right loops: the
audio packets, and nothing else, go to `AudioPlayback`, the video fragments to
`VideoPlayback`, and of every peer that sends a HELLO at least one reaches
`LookForPeers`. -/
theorem demultiplexed_iff (S : FragmentSort) (deliveries : List Delivery) :
    Demultiplexed S deliveries ↔
      (∀ d ∈ deliveries, (d.datagram.isAudio = true ↔ d.loop = .audioPlayback) ∧
        (d.datagram.isVideo = true → d.loop = .videoPlayback)) ∧
      ∀ d ∈ deliveries, d.datagram = .hello →
        ∃ greeting ∈ deliveries, greeting.datagram = .hello ∧
          greeting.loop = .lookForPeers ∧ greeting.source = d.source := by
  unfold Demultiplexed
  rw [forall_used_iff List.length_replicate]
  refine and_congr_right fun hloops => forall_congr' fun d => forall_congr' fun hd =>
    forall_congr' fun _ => ?_
  rw [mem_peerList_run]
  constructor
  · rintro (hnone | ⟨greeting, hgreeting, hloop, hreads, hsource⟩)
    · cases hnone
    · refine ⟨greeting, hgreeting, ?_, hloop, hsource⟩
      obtain ⟨haudio, hvideo⟩ := hloops greeting hgreeting
      cases hkind : greeting.datagram with
      | hello => rfl
      | audio sequence samples =>
        rw [hkind, readsHello_audio] at hreads
        cases hreads
      | video f =>
        rw [hloop, hkind] at hvideo
        exact absurd (hvideo rfl) (by decide)
  · rintro ⟨greeting, hgreeting, hkind, hloop, hsource⟩
    refine Or.inr ⟨greeting, hgreeting, hloop, ?_, hsource⟩
    rw [hkind]
    exact readsHello_hello

/-- An audio packet that `LookForPeers` gets is never played. -/
theorem audio_to_lookForPeers_lost :
    ¬Demultiplexed (Lib.KeySort.insertion _)
      [⟨.lookForPeers, ⟨0, 12345⟩, .audio 0 .silence⟩] := by
  rintro ⟨hused, -⟩
  rw [forall_used_iff List.length_replicate] at hused
  have hloop := (hused _ (List.mem_singleton_self _)).1.mp rfl
  cases hloop

end Runs

end MediaStream.OnlineAV
