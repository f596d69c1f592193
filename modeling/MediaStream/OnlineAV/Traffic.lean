import MediaStream.Lib.Insertion
import MediaStream.OnlineAV.SentFrame

/-!
HELLO strings and audio packets in front of `VideoPlayback`, which takes every
datagram for a `Video_Fragment`. An audio packet lands in `fragment_buffer` under
its own sequence number, a HELLO under the number its letters spell; neither has
`last_fragment` set, but both count.

What is in the packets and in the fragments is left open. To see which number a
buffer belongs to, paint the fragments of one number and keep the audio silent.
-/

namespace MediaStream.OnlineAV

open Lib Lib.Bytes Lib.Collector

def EncFrame.painted (b : UInt8) (e : EncFrame) : EncFrame where
  bytes := List.replicate e.bytes.length b
  length_lt := by
    rw [List.length_replicate]
    exact e.length_lt

namespace VideoFragment

/-- A fragment as a `VideoRecandSend` builds it. -/
def WellFormed (f : VideoFragment) : Prop := ∃ (e : EncFrame) (frameSeq : UInt32),
  f ∈ e.fragments frameSeq

def painted (b : UInt8) (f : VideoFragment) : VideoFragment :=
  { f with
    fdata := overwrite (List.replicate fdataSize 0) (List.replicate f.fragmentS.toNat b)
    length_fdata := by simp }

variable {f : VideoFragment}

theorem WellFormed.painted (h : f.WellFormed) (b : UInt8) : (f.painted b).WellFormed := by
  obtain ⟨e, frameSeq, hf⟩ := h
  obtain ⟨i, hi, rfl⟩ := EncFrame.mem_fragments.mp hf
  have hsize : (e.painted b).frameSize = e.frameSize := by
    simp only [EncFrame.frameSize, EncFrame.painted, List.length_replicate]
  have htotal : (e.painted b).totalFragments = e.totalFragments := by
    rw [EncFrame.totalFragments, hsize, EncFrame.totalFragments]
  refine ⟨e.painted b, frameSeq, EncFrame.mem_fragments.mpr ⟨i, by rwa [htotal], ?_⟩⟩
  have hpiece : (((e.painted b).bytes.drop (EncFrame.offset (UInt32.ofNat i)).toNat).take
      (e.fragmentS (UInt32.ofNat i)).toNat) =
        List.replicate (e.fragmentS (UInt32.ofNat i)).toNat b := by
    rw [EncFrame.painted, List.drop_replicate, List.take_replicate, EncFrame.toNat_offset hi,
      EncFrame.toNat_fragmentS hi]
    congr 1
    omega
  have hfragmentS : (e.painted b).fragmentS (UInt32.ofNat i) = e.fragmentS (UInt32.ofNat i) := by
    rw [EncFrame.fragmentS, hsize, EncFrame.fragmentS]
  simp only [VideoFragment.painted, EncFrame.fragment, htotal, hfragmentS, hpiece]

@[simp] theorem frameSeq_painted (b : UInt8) : (f.painted b).frameSeq = f.frameSeq := by
  simp only [painted]

theorem completes_painted (b : UInt8) : completes (f.painted b) = completes f := by
  funext size
  rw [completes, completes, painted]

theorem WellFormed.fragmentS_pos (h : f.WellFormed) : 0 < f.fragmentS.toNat := by
  obtain ⟨e, frameSeq, hf⟩ := h
  obtain ⟨i, hi, rfl⟩ := EncFrame.mem_fragments.mp hf
  have hpos : 0 < (e.fragment frameSeq (UInt32.ofNat i)).data.length :=
    EncFrame.length_data_pos hi
  rw [data, List.length_take] at hpos
  omega

theorem WellFormed.data_painted (h : f.WellFormed) (b : UInt8) :
    (f.painted b).data = List.replicate f.fragmentS.toNat b := by
  obtain ⟨e, frameSeq, hf⟩ := h
  obtain ⟨i, hi, rfl⟩ := EncFrame.mem_fragments.mp hf
  have hbounds : (e.fragment frameSeq (UInt32.ofNat i)).InBounds := EncFrame.inBounds_fragment hi
  generalize e.fragment frameSeq (UInt32.ofNat i) = f at hbounds
  have hfits : (List.replicate f.fragmentS.toNat b).length ≤
      (List.replicate fdataSize (0 : UInt8)).length := by
    rw [List.length_replicate, List.length_replicate]
    exact hbounds
  have htake := take_overwrite hfits
  rw [List.length_replicate] at htake
  simp only [data, VideoFragment.painted, htake]

end VideoFragment

namespace Datagram

def number (d : Datagram) : UInt32 := d.overlay.frameSeq

def completes (d : Datagram) : Nat → Bool := OnlineAV.completes d.overlay

def WellFormed : Datagram → Prop
  | video f => f.WellFormed
  | _ => True

/-- Silence in an audio packet, and in a fragment a value that depends on the
number of its frame. -/
def painted (b : UInt32 → UInt8) : Datagram → Datagram
  | hello => hello
  | audio sequence _ => audio sequence .silence
  | video f => video (f.painted (b f.frameSeq))

def blank : Datagram → Datagram := painted fun _ => 0

def size : Datagram → Nat
  | video f => f.fragmentS.toNat
  | _ => 0

theorem number_audio (sequence : UInt32) (samples : Samples) :
    (audio sequence samples).number = sequence :=
  VideoFragment.recv_audio_frameSeq _

theorem number_hello : hello.number = 0x4C4C4548 :=
  VideoFragment.recv_hello_frameSeq

theorem number_video (f : VideoFragment) : (video f).number = f.frameSeq := by
  rw [number, overlay_video]

theorem lastFragment_of_other {d : Datagram} (h : d.isVideo = false) :
    d.overlay.lastFragment = false := by
  cases d with
  | hello => exact VideoFragment.recv_hello_lastFragment
  | audio sequence samples =>
    rw [overlay, bytes, VideoFragment.recv_audio_lastFragment]
    simp [AudioPacket.captured]
  | video f => cases h

/-- Nothing but a video fragment makes a frame complete. -/
theorem completes_of_other {d : Datagram} (h : d.isVideo = false) (size : Nat) :
    d.completes size = false := by
  rw [completes, OnlineAV.completes, lastFragment_of_other h, Bool.false_and]

variable {d : Datagram} {b : UInt32 → UInt8}

@[simp] theorem isVideo_painted : (d.painted b).isVideo = d.isVideo := by
  cases d <;> simp only [painted, isVideo]

@[simp] theorem number_painted : (d.painted b).number = d.number := by
  cases d with
  | hello => rfl
  | audio sequence samples => rw [painted, number_audio, number_audio]
  | video f =>
    rw [painted, number_video, number_video, VideoFragment.frameSeq_painted]

@[simp] theorem completes_painted : (d.painted b).completes = d.completes := by
  cases d with
  | hello => rfl
  | audio sequence samples =>
    funext size
    rw [completes_of_other rfl, completes_of_other rfl]
  | video f =>
    rw [painted, completes, completes, overlay_video, overlay_video,
      VideoFragment.completes_painted]

theorem blank_painted : (d.painted b).blank = d.blank := by
  cases d with
  | hello => rfl
  | audio sequence samples => rfl
  | video f => simp only [blank, painted, VideoFragment.painted]

theorem WellFormed.painted (h : d.WellFormed) : (d.painted b).WellFormed := by
  cases d with
  | hello => trivial
  | audio sequence samples => trivial
  | video f => exact VideoFragment.WellFormed.painted h _

theorem WellFormed.data_painted (h : d.WellFormed) :
    (d.painted b).overlay.data = List.replicate d.size (b d.number) := by
  cases d with
  | hello =>
    rw [Datagram.painted, VideoFragment.data, overlay, bytes, VideoFragment.recv_hello_fragmentS]
    rfl
  | audio sequence samples =>
    have hzero : (VideoFragment.recv (audio sequence .silence).bytes).fragmentS = 0 := by
      apply (VideoFragment.recv_audio_fragmentS _).trans
      change UInt64.ofNat (leNat ((List.replicate audioDataSize 0).take 8)) = 0
      rw [List.take_replicate, leNat_zero]
      rfl
    rw [Datagram.painted, VideoFragment.data, overlay, hzero]
    rfl
  | video f =>
    rw [Datagram.painted, overlay_video, VideoFragment.WellFormed.data_painted h, number_video,
      size]

end Datagram

section Paint

variable {κ : Type*} [DecidableEq κ]

/-- Under all paints, buffers show whose they are and how long. -/
theorem eq_of_painted {first second : List (κ × Nat)} (hpos : ∀ p ∈ first, 0 < p.2)
    (h : ∀ b : κ → UInt8, first.map (fun p => List.replicate p.2 (b p.1)) =
      second.map fun p => List.replicate p.2 (b p.1)) : first = second := by
  induction first generalizing second with
  | nil => exact (List.map_eq_nil_iff.mp (h fun _ => 0).symm).symm
  | cons p first ih =>
    cases second with
    | nil => cases h fun _ => 0
    | cons q second =>
      obtain ⟨hp, hfirst⟩ := List.forall_mem_cons.mp hpos
      have hheads := fun b => List.replicate_inj.mp (List.cons.inj (h b)).1
      have htails := ih hfirst fun b => (List.cons.inj (h b)).2
      have hkey : q.1 = p.1 := by
        obtain ⟨-, hzero | hsame⟩ := hheads fun k => if k = p.1 then 1 else 0
        · omega
        · by_contra hne
          simp [hne] at hsame
      rw [htails, Prod.ext hkey.symm (hheads fun _ => 0).1]

end Paint

section Runs

variable {S : FragmentSort} {traffic : List Datagram}

/-- The same buffers are handed over as without the other traffic. -/
def SameVideo (S : FragmentSort) (traffic : List Datagram) : Prop :=
  (handovers S FragmentBuffer.empty (traffic.map Datagram.bytes)).map Handover.reassembledFrame =
    (handovers S FragmentBuffer.empty
      ((traffic.filter Datagram.isVideo).map Datagram.bytes)).map Handover.reassembledFrame

/-- The same traffic, whatever is in the audio packets and in the fragments. -/
def Alike (heard traffic : List Datagram) : Prop :=
  heard.map Datagram.blank = traffic.map Datagram.blank ∧ ∀ d ∈ heard, d.WellFormed

/-- The other traffic changes no buffer, whatever is in the datagrams. -/
def Unnoticed (S : FragmentSort) (traffic : List Datagram) : Prop :=
  ∀ heard, Alike heard traffic → SameVideo S heard

def collected (traffic : List Datagram) : List (UInt32 × List Datagram) :=
  output Datagram.number Datagram.completes (fun _ => none) traffic

theorem handovers_traffic (S : FragmentSort) (traffic : List Datagram) :
    handovers S FragmentBuffer.empty (traffic.map Datagram.bytes) =
      (collected traffic).map fun part => ⟨part.1, S.sort (part.2.map Datagram.overlay)⟩ :=
  handovers_map (fun _ => rfl) traffic

/-- Paint does not change the groups. -/
theorem collected_painted (b : UInt32 → UInt8) (traffic : List Datagram) :
    collected (traffic.map (Datagram.painted b)) =
      (collected traffic).map fun part => (part.1, part.2.map (Datagram.painted b)) := by
  have hnumber : Datagram.number ∘ Datagram.painted b = Datagram.number :=
    funext fun _ => Datagram.number_painted
  have hcompletes : Datagram.completes ∘ Datagram.painted b = Datagram.completes :=
    funext fun _ => Datagram.completes_painted
  have hmap : collected (traffic.map (Datagram.painted b)) =
      (output (Datagram.number ∘ Datagram.painted b) (Datagram.completes ∘ Datagram.painted b)
        (fun _ => none) traffic).map fun part => (part.1, part.2.map (Datagram.painted b)) :=
    output_map (Datagram.painted b) (fun _ => none) traffic
  rwa [hnumber, hcompletes] at hmap

/-- Painted buffers. -/
theorem buffers_painted (S : FragmentSort) (b : UInt32 → UInt8)
    (h : ∀ d ∈ traffic, d.WellFormed) :
    (handovers S FragmentBuffer.empty
        ((traffic.map (Datagram.painted b)).map Datagram.bytes)).map Handover.reassembledFrame =
      ((collected traffic).map fun part => (part.1, (part.2.map Datagram.size).sum)).map
        fun p => List.replicate p.2 (b p.1) := by
  rw [handovers_traffic, collected_painted, List.map_map, List.map_map, List.map_map]
  apply List.map_congr_left
  intro part hpart
  have hmem := (output_sound hpart rfl).2
  have hdata : ∀ d ∈ part.2,
      (d.painted b).overlay.data = List.replicate d.size (b part.1) := by
    intro d hd
    obtain ⟨htraffic, hnumber⟩ := hmem d hd
    rw [(h d htraffic).data_painted, hnumber]
  refine List.eq_replicate_iff.mpr ⟨?_, fun x hx => ?_⟩
  · change ((S.sort _).flatMap VideoFragment.data).length = _
    rw [List.length_flatMap, ((S.perm _).map _).sum_nat, List.map_map, List.map_map]
    refine congrArg List.sum (List.map_congr_left fun d hd => ?_)
    rw [Function.comp_apply, Function.comp_apply, hdata d hd, List.length_replicate]
  · obtain ⟨f, hf, hxf⟩ := List.mem_flatMap.mp hx
    rw [S.mem_sort, List.map_map] at hf
    obtain ⟨d, hd, rfl⟩ := List.mem_map.mp hf
    rw [Function.comp_apply, hdata d hd] at hxf
    exact List.eq_of_mem_replicate hxf

theorem size_pos (h : ∀ d ∈ traffic, d.WellFormed) {d : Datagram} (hd : d ∈ traffic)
    (hvideo : d.isVideo = true) : 0 < d.size := by
  have hwell := h d hd
  cases d with
  | video f => exact VideoFragment.WellFormed.fragmentS_pos hwell
  | hello => cases hvideo
  | audio sequence samples => cases hvideo

/-- The final datagram of a group is a video fragment. -/
theorem sum_size_pos (h : ∀ d ∈ traffic, d.WellFormed) {part : UInt32 × List Datagram}
    (hpart : part ∈ collected traffic) : 0 < (part.2.map Datagram.size).sum := by
  obtain ⟨⟨front, d, hgroup, -, hfires⟩, hmem⟩ := output_sound hpart rfl
  have hvideo : d.isVideo = true := by
    by_contra hother
    rw [Datagram.completes_of_other (by simpa using hother)] at hfires
    cases hfires
  have hpos := size_pos h (hmem d (by simp [hgroup])).1 hvideo
  rw [hgroup, List.map_append, List.sum_append, List.map_singleton, List.sum_singleton]
  omega

/-- The sizes of the groups of one number. -/
theorem sizes_of_number (traffic : List Datagram) (frameSeq : UInt32) :
    ((((collected traffic).map fun part => (part.1, (part.2.map Datagram.size).sum)).filter
        (·.1 = frameSeq)).map Prod.snd) =
      (groups Datagram.completes [] (traffic.filter (·.number = frameSeq))).map
        fun group => (group.map Datagram.size).sum := by
  have hkey := groups_of_key Datagram.number Datagram.completes (fun _ => none) traffic frameSeq
  rw [show entry (fun _ => none) frameSeq = ([] : List Datagram) from rfl] at hkey
  rw [← hkey, List.filter_map, List.map_map, List.map_map]
  rfl

theorem apart_of_sameVideo (hwell : ∀ d ∈ traffic, d.WellFormed)
    (h : ∀ b, SameVideo S (traffic.map (Datagram.painted b))) (frameSeq : UInt32) :
    Apart Datagram.completes Datagram.isVideo (traffic.filter (·.number = frameSeq)) := by
  have hvideo : ∀ b, (traffic.map (Datagram.painted b)).filter Datagram.isVideo =
      (traffic.filter Datagram.isVideo).map (Datagram.painted b) := by
    intro b
    have hcomp : Datagram.isVideo ∘ Datagram.painted b = Datagram.isVideo :=
      funext fun _ => Datagram.isVideo_painted
    rw [List.filter_map, hcomp]
  have hsame : ((collected traffic).map fun part => (part.1, (part.2.map Datagram.size).sum)) =
      (collected (traffic.filter Datagram.isVideo)).map
        fun part => (part.1, (part.2.map Datagram.size).sum) := by
    apply eq_of_painted (List.forall_mem_map.mpr fun part hpart => sum_size_pos hwell hpart)
    intro b
    have hbuffers := h b
    rwa [SameVideo, hvideo, buffers_painted S b hwell,
      buffers_painted S b fun d hd => hwell d (List.mem_of_mem_filter hd)] at hbuffers
  have hsizes := congrArg (fun l => (l.filter (·.1 = frameSeq)).map Prod.snd) hsame
  simp only [sizes_of_number] at hsizes
  rw [List.filter_comm] at hsizes
  refine apart_of_same_weights ?_ ?_ ?_ hsizes
  · exact fun d hd hkeep => size_pos hwell (List.mem_of_mem_filter hd) hkeep
  · intro d _ hdrop
    refine ⟨?_, Datagram.completes_of_other hdrop⟩
    cases d with
    | video f => cases hdrop
    | hello => rfl
    | audio sequence samples => rfl
  · intro d _ size size' hfires hfires'
    simp only [Datagram.completes, completes, Bool.and_eq_true, decide_eq_true_iff]
      at hfires hfires'
    rw [hfires.2, hfires'.2]

/-- Keeping apart does not depend on what is in the datagrams. -/
theorem apart_blank (frameSeq : UInt32) :
    Apart Datagram.completes Datagram.isVideo
        ((traffic.map Datagram.blank).filter (·.number = frameSeq)) ↔
      Apart Datagram.completes Datagram.isVideo (traffic.filter (·.number = frameSeq)) := by
  have hnumber : (fun d : Datagram => decide (d.number = frameSeq)) ∘ Datagram.blank =
      fun d => decide (d.number = frameSeq) := by
    funext d
    rw [Function.comp_apply, Datagram.blank, Datagram.number_painted]
  have hcompletes : Datagram.completes ∘ Datagram.blank = Datagram.completes :=
    funext fun _ => Datagram.completes_painted
  have hvideo : Datagram.isVideo ∘ Datagram.blank = Datagram.isVideo :=
    funext fun _ => Datagram.isVideo_painted
  rw [List.filter_map, hnumber, apart_map, hcompletes, hvideo]

theorem sameVideo_of_apart (h : ∀ frameSeq, Apart Datagram.completes Datagram.isVideo
    (traffic.filter (·.number = frameSeq))) : SameVideo S traffic := by
  have hequal : collected traffic = collected (traffic.filter Datagram.isVideo) :=
    output_filter_of_apart (fun _ => rfl) h
  rw [SameVideo, handovers_traffic, handovers_traffic, hequal]

/-- Whatever is in the audio packets and in the fragments, the other traffic goes
unnoticed exactly when, for every frame number, the datagrams that land under it
begin with video fragments only that complete one frame after the other, and no
further one completes, whether the other datagrams among them are counted or not. -/
theorem other_traffic_unnoticed_iff (S : FragmentSort) (hwell : ∀ d ∈ traffic, d.WellFormed) :
    Unnoticed S traffic ↔
      ∀ frameSeq, Apart Datagram.completes Datagram.isVideo
        (traffic.filter (·.number = frameSeq)) := by
  constructor
  · intro h
    refine apart_of_sameVideo hwell fun b => h _ ⟨?_, List.forall_mem_map.mpr fun d hd => ?_⟩
    · rw [List.map_map]
      apply List.map_congr_left
      intro d _
      exact Datagram.blank_painted
    · exact (hwell d hd).painted
  · rintro h heard ⟨halike, -⟩
    apply sameVideo_of_apart
    intro frameSeq
    rw [← apart_blank, halike, apart_blank]
    exact h frameSeq

/-- The one fragment of a frame, and an audio packet with the same number. -/
def onlyFragment : VideoFragment := oneByte.fragment 0 (UInt32.ofNat 0)

theorem onlyFragment_wellFormed : onlyFragment.WellFormed :=
  ⟨oneByte, 0, EncFrame.mem_fragments.mpr ⟨0, by decide, rfl⟩⟩

theorem number_onlyFragment : (Datagram.video onlyFragment).number = 0 := by
  rw [Datagram.number_video]
  rfl

theorem completes_onlyFragment (size : Nat) :
    (Datagram.video onlyFragment).completes size = decide (size = 1) := by
  rw [Datagram.completes, Datagram.overlay_video]
  rfl

theorem group_onlyFragment : Group Datagram.completes [Datagram.video onlyFragment] :=
  ⟨[], _, rfl, silent_nil _ 0, by rw [completes_onlyFragment]; rfl⟩

/-- The packet comes when the frame has been shown. -/
theorem other_traffic_unnoticed_iff_after :
    Unnoticed (KeySort.insertion _) [.video onlyFragment, .audio 0 .silence] := by
  refine (other_traffic_unnoticed_iff _ ?_).mpr fun frameSeq => ?_
  · simp [Datagram.WellFormed, onlyFragment_wellFormed]
  · by_cases hzero : frameSeq = 0
    · subst hzero
      refine ⟨[[.video onlyFragment]], [.audio 0 .silence], ?_, ?_, ?_, silent_nil _ 0⟩
      · simp [number_onlyFragment, Datagram.number_audio]
      · simpa using ⟨group_onlyFragment, rfl⟩
      · exact silent_cons.mpr ⟨Datagram.completes_of_other rfl _, silent_nil _ _⟩
    · refine ⟨[], [], ?_, by simp, silent_nil _ 0, silent_nil _ 0⟩
      simp [number_onlyFragment, Datagram.number_audio, Ne.symm hzero]

/-- The packet comes first: the entry has two elements when the frame of one
fragment is complete, and the frame is not shown. -/
theorem audio_before_noticed :
    (∀ d ∈ [Datagram.audio 0 .silence, .video onlyFragment], d.WellFormed) ∧
      ¬SameVideo (KeySort.insertion _) [.audio 0 .silence, .video onlyFragment] := by
  refine ⟨by simp [Datagram.WellFormed, onlyFragment_wellFormed], ?_⟩
  intro hvideo
  have hsilent : Silent Datagram.completes 0 [.audio 0 .silence, .video onlyFragment] := by
    refine silent_cons.mpr ⟨Datagram.completes_of_other rfl _, silent_cons.mpr ⟨?_, silent_nil _ _⟩⟩
    rw [completes_onlyFragment]
    rfl
  have hnumber : ∀ d ∈ [Datagram.audio 0 .silence, .video onlyFragment], d.number = 0 := by
    simp [number_onlyFragment, Datagram.number_audio]
  have hcount := congrArg List.length hvideo
  rw [handovers_traffic, handovers_traffic, collected, collected, output_of_one_key hnumber,
    output_of_one_key fun d hd => hnumber d (List.mem_of_mem_filter hd)] at hcount
  simp only [List.length_map] at hcount
  rw [show entry (fun _ => none) (0 : UInt32) = ([] : List Datagram) from rfl,
    (pending_of_silent (p := []) hsilent).2] at hcount
  have hone := (groups_of_group group_onlyFragment []).1
  rw [List.append_nil] at hone
  have halone : [Datagram.audio 0 .silence, .video onlyFragment].filter Datagram.isVideo =
      [.video onlyFragment] := by
    simp [Datagram.isVideo]
  rw [halone, hone] at hcount
  cases hcount

end Runs

end MediaStream.OnlineAV
