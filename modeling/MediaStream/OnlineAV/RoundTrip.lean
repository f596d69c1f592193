import Mathlib.Data.Set.List
import MediaStream.OnlineAV.SentFrame

/-!
From `VideoRecandSend` to `VideoPlayback` over a network that loses and
reorders datagrams: what is handed to `cv::imdecode` are frames that were sent,
each at most once, and which ones depends on where the flagged fragment of a
frame arrives.
-/

namespace MediaStream.OnlineAV

open Lib Lib.Collector

section OneFrame

variable {S : FragmentSort} {m : FragmentBuffer} {e : EncFrame} {frameSeq : UInt32}
  {arrivals : List VideoFragment}

/-- `cv::imdecode` is called once, with the bytes of the frame, and
`fragment_buffer` is left without an entry for it. -/
def Delivered (S : FragmentSort) (m : FragmentBuffer) (e : EncFrame) (frameSeq : UInt32)
    (datagrams : List (List UInt8)) : Prop :=
  (handovers S m datagrams).map Handover.reassembledFrame = [e.bytes] ∧
    fragmentBuffer S m datagrams frameSeq = none

/-- Delivery in terms of the groups of the datagrams. -/
theorem delivered_iff (hm : m frameSeq = none) (h : ∀ f ∈ arrivals, f.frameSeq = frameSeq) :
    Delivered S m e frameSeq (arrivals.map VideoFragment.bytes) ↔
      (groups completes [] arrivals).map
          (fun group => (S.sort group).flatMap VideoFragment.data) = [e.bytes] ∧
        pending completes [] arrivals = [] := by
  have hentry : entry m frameSeq = [] := by simp [entry, hm]
  have htidy : Tidy m frameSeq := by simp [Tidy, hm]
  have hall : arrivals.filter (·.frameSeq = frameSeq) = arrivals :=
    List.filter_eq_self.mpr fun f hf => by simp [h f hf]
  unfold Delivered
  rw [handovers_bytes, fragmentBuffer_bytes, output_of_one_key h, hentry, List.map_map,
    List.map_map, (tidy_buffer htidy arrivals).none_iff, entry_buffer, hentry, hall]
  rfl

/-- Complete and without repetitions, a frame gets through exactly when its
flagged fragment is handled last. -/
theorem delivered_iff_final {front : List VideoFragment} {final : VideoFragment}
    (hm : m frameSeq = none) (h : (front ++ [final]).Perm (e.fragments frameSeq)) :
    Delivered S m e frameSeq ((front ++ [final]).map VideoFragment.bytes) ↔
      e.CountFits ∧ final.lastFragment = true := by
  obtain ⟨hgroups, hpending⟩ := EncFrame.groups_of_perm h
  rw [delivered_iff hm fun f hf => EncFrame.frameSeq_of_mem (h.subset hf), hgroups, hpending]
  cases hlast : final.lastFragment with
  | false => simp
  | true =>
    simp only [if_true, List.map_cons, List.map_nil, and_true, List.cons.injEq]
    rw [EncFrame.sort_fragments S h]
    exact EncFrame.flatMap_data_eq_iff

/-- Reassembly depends on the order: exactly the non-empty frames whose count
fits `uint32_t` get through, and these only when the `last_fragment` datagram
is the final one. -/
theorem reassembly_order_dependence (hm : m frameSeq = none)
    (harrivals : arrivals.Perm (e.fragments frameSeq)) :
    Delivered S m e frameSeq (arrivals.map VideoFragment.bytes) ↔
      e.bytes ≠ [] ∧ e.CountFits ∧
        ∃ final ∈ arrivals.getLast?, final.lastFragment = true := by
  rcases List.eq_nil_or_concat' arrivals with rfl | ⟨front, final, rfl⟩
  · simp [Delivered, handovers]
  · have hsome : e.fragments frameSeq ≠ [] := by
      intro hnone
      simpa [hnone] using harrivals.length_eq
    have hcount : 0 < e.totalFragments.toNat := by
      rw [← EncFrame.length_fragments e frameSeq]
      exact List.length_pos_iff.mpr hsome
    have hbytes := EncFrame.bytes_ne_nil hcount
    rw [delivered_iff_final hm harrivals]
    simp [hbytes]

theorem reassembly_order_dependence_inOrder :
    Delivered (KeySort.insertion _) FragmentBuffer.empty twoFragments 0
      ((twoFragments.fragments 0).map VideoFragment.bytes) := by
  refine (reassembly_order_dependence rfl (List.Perm.refl _)).mpr
    ⟨twoFragments_nonempty, twoFragments_fits, ?_⟩
  · refine ⟨twoFragments.fragment 0 (UInt32.ofNat 1), ?_, ?_⟩
    · rw [twoFragments_fragments]
      rfl
    · rw [EncFrame.lastFragment_fragment (by rw [twoFragments_total]; decide), twoFragments_total]
      rfl

/-- The two fragments the other way round are never handed over. -/
theorem reversed_not_delivered :
    (twoFragments.fragments 0).reverse.Perm (twoFragments.fragments 0) ∧
      ¬Delivered (KeySort.insertion _) FragmentBuffer.empty twoFragments 0
        ((twoFragments.fragments 0).reverse.map VideoFragment.bytes) := by
  refine ⟨List.reverse_perm _, ?_⟩
  have hperm := List.reverse_perm (twoFragments.fragments 0)
  have hreverse : (twoFragments.fragments 0).reverse =
      [twoFragments.fragment 0 (UInt32.ofNat 1)] ++
        [twoFragments.fragment 0 (UInt32.ofNat 0)] := by
    rw [twoFragments_fragments]
    rfl
  rw [hreverse] at hperm ⊢
  rw [delivered_iff_final rfl hperm,
    EncFrame.lastFragment_fragment (by rw [twoFragments_total]; decide), twoFragments_total]
  simp

end OneFrame

section ManyFrames

variable {S : FragmentSort} {frames : List EncFrame} {arrivals : List VideoFragment}

/-- What arrives with the number of a frame is part of the frame, once. -/
theorem subperm_of_number (hframes : frames.length ≤ 2 ^ 32)
    (harrivals : arrivals.Subperm (videoFragments 0 frames)) (i : Fin frames.length) :
    (arrivals.filter (·.frameSeq = UInt32.ofNat i)).Subperm
      (frames[i].fragments (UInt32.ofNat i)) := by
  have hlen : 0 + frames.length ≤ 2 ^ 32 := by omega
  have hfilter := filter_videoFragments hlen i.isLt
  rw [Nat.zero_add] at hfilter
  have hsub := harrivals.filter (·.frameSeq = UInt32.ofNat i)
  rwa [show (0 : UInt32) = UInt32.ofNat 0 from rfl, hfilter] at hsub

/-- A group that is handed over is a whole frame. -/
theorem group_is_frame (hframes : frames.length ≤ 2 ^ 32)
    (harrivals : arrivals.Subperm (videoFragments 0 frames)) {part : UInt32 × List VideoFragment}
    (hpart : part ∈ output VideoFragment.frameSeq completes FragmentBuffer.empty arrivals) :
    ∃ i : Fin frames.length, part.1 = UInt32.ofNat i ∧
      part.2.Perm (frames[i].fragments (UInt32.ofNat i)) := by
  obtain ⟨f, hf, hkey⟩ := key_of_output hpart
  obtain ⟨i, hi, hmem⟩ := (mem_videoFragments 0).mp (harrivals.subset hf)
  rw [Nat.zero_add] at hmem
  have hnumber : part.1 = UInt32.ofNat i := by rw [← hkey, EncFrame.frameSeq_of_mem hmem]
  refine ⟨⟨i, hi⟩, hnumber, ?_⟩
  have hgroup := mem_output_iff.mp hpart
  rw [hnumber] at hgroup
  rcases EncFrame.groups_of_subperm (subperm_of_number hframes harrivals ⟨i, hi⟩) with
    hnone | ⟨hperm, hgroups, -⟩
  · rw [FragmentBuffer.entry_empty, hnone] at hgroup
    cases hgroup
  · rw [FragmentBuffer.entry_empty, hgroups,
      List.mem_singleton] at hgroup
    rwa [hgroup]

/-- No number is handed over twice. -/
theorem nodup_numbers (hframes : frames.length ≤ 2 ^ 32)
    (harrivals : arrivals.Subperm (videoFragments 0 frames)) :
    ((output VideoFragment.frameSeq completes FragmentBuffer.empty arrivals).map
      Prod.fst).Nodup := by
  apply List.nodup_iff_count_le_one.mpr
  intro k
  by_cases hk : k ∈ (output VideoFragment.frameSeq completes FragmentBuffer.empty arrivals).map
      Prod.fst
  · obtain ⟨part, hpart, rfl⟩ := List.mem_map.mp hk
    obtain ⟨i, hnumber, -⟩ := group_is_frame hframes harrivals hpart
    rw [count_output, hnumber, FragmentBuffer.entry_empty]
    rcases EncFrame.groups_of_subperm (subperm_of_number hframes harrivals i) with
      hnone | ⟨-, hgroups, -⟩
    · simp [hnone]
    · simp [hgroups]
  · rw [List.count_eq_zero_of_not_mem hk]
    exact Nat.zero_le _

/-- Every hand-over is one of the frames, with its own number and bytes. -/
theorem shown_frames (hframes : frames.length ≤ 2 ^ 32) (hfits : ∀ e ∈ frames, e.CountFits)
    (harrivals : arrivals.Subperm (videoFragments 0 frames)) :
    ∃ shown : List (Fin frames.length),
      shown.map (fun i : Fin frames.length => (UInt32.ofNat i, frames[i].bytes)) =
        (handovers S FragmentBuffer.empty (arrivals.map VideoFragment.bytes)).map
          Handover.shown := by
  rw [← Set.mem_range, Set.range_list_map, handovers_bytes, List.map_map]
  rintro pair hpair
  obtain ⟨part, hpart, rfl⟩ := List.mem_map.mp hpair
  obtain ⟨i, hnumber, hperm⟩ := group_is_frame hframes harrivals hpart
  refine ⟨i, Prod.ext hnumber.symm ?_⟩
  change frames[i].bytes = (S.sort part.2).flatMap VideoFragment.data
  rw [EncFrame.sort_fragments S hperm]
  exact (EncFrame.flatMap_data_eq_iff.mpr (hfits _ (List.getElem_mem _))).symm

theorem handed_of_lastAfterOthers (hframes : frames.length ≤ 2 ^ 32)
    (harrivals : arrivals.Subperm (videoFragments 0 frames)) (i : Fin frames.length)
    (horder : frames[i].LastAfterOthers (UInt32.ofNat i) arrivals) :
    (∃ h ∈ handovers S FragmentBuffer.empty (arrivals.map VideoFragment.bytes),
        h.frameSeq = UInt32.ofNat i) ∧
      fragmentBuffer S FragmentBuffer.empty (arrivals.map VideoFragment.bytes)
        (UInt32.ofNat i) = none := by
  have htidy : Tidy FragmentBuffer.empty (UInt32.ofNat i) := by simp [Tidy, FragmentBuffer.empty]
  obtain ⟨hperm, front, final, hitems, hlast⟩ := EncFrame.complete_of_lastAfterOthers
    (subperm_of_number hframes harrivals i) horder.filter
  rw [hitems] at hperm
  obtain ⟨hgroups, hpending⟩ := EncFrame.groups_of_perm hperm
  rw [if_pos hlast] at hgroups hpending
  constructor
  · have hkey := groups_of_key VideoFragment.frameSeq completes FragmentBuffer.empty arrivals
      (UInt32.ofNat i)
    rw [FragmentBuffer.entry_empty, hitems, hgroups] at hkey
    obtain ⟨part, hpart, -⟩ := List.mem_map.mp (hkey ▸ List.mem_singleton_self _)
    obtain ⟨hmem, hnumber⟩ := List.mem_filter.mp hpart
    rw [handovers_bytes]
    exact ⟨_, List.mem_map_of_mem hmem, by simpa using hnumber⟩
  · rw [fragmentBuffer_bytes, (tidy_buffer htidy arrivals).none_iff, entry_buffer,
      FragmentBuffer.entry_empty, hitems, hpending]

/-- Round trip: what is handed over are frames that were sent, as they were
encoded, each at most once; and a frame whose flagged fragment arrives after
all its others is handed over and leaves no entry. -/
theorem video_round_trip (S : FragmentSort) (peersAt : Nat → List SockaddrIn)
    (receiver : SockaddrIn)
    (hregistered : ∀ t, (peersAt t).count receiver = 1)
    (hframes : frames.length ≤ 2 ^ 32) (hfits : ∀ e ∈ frames, e.CountFits)
    (harrivals : arrivals.Subperm (addressedTo receiver (videoRecandSend peersAt frames))) :
    ∃ shown : List (Fin frames.length), shown.Nodup ∧
      (handovers S FragmentBuffer.empty (arrivals.map VideoFragment.bytes)).map
          Handover.reassembledFrame = shown.map (fun i : Fin frames.length => frames[i].bytes) ∧
      ∀ i : Fin frames.length, frames[i].LastAfterOthers (UInt32.ofNat i) arrivals →
        i ∈ shown ∧
          fragmentBuffer S FragmentBuffer.empty (arrivals.map VideoFragment.bytes)
            (UInt32.ofNat i) = none := by
  rw [addressedTo_videoRecandSend hregistered] at harrivals
  obtain ⟨shown, hshown⟩ : ∃ shown : List (Fin frames.length),
      shown.map (fun i : Fin frames.length => (UInt32.ofNat i, frames[i].bytes)) =
        (handovers S FragmentBuffer.empty (arrivals.map VideoFragment.bytes)).map
          Handover.shown :=
    shown_frames hframes hfits harrivals
  refine ⟨shown, ?_, ?_, ?_⟩
  · have hnodup := nodup_numbers hframes harrivals
    have hnumbers : (output VideoFragment.frameSeq completes FragmentBuffer.empty arrivals).map
        Prod.fst = shown.map fun i : Fin frames.length => UInt32.ofNat i := by
      have hfirst := congrArg (List.map Prod.fst) hshown
      rw [handovers_bytes] at hfirst
      simpa [Function.comp_def, Handover.shown] using hfirst.symm
    rw [hnumbers] at hnodup
    exact hnodup.of_map
  · have hsecond := congrArg (List.map Prod.snd) hshown
    simpa [Function.comp_def, Handover.shown] using hsecond.symm
  · intro i horder
    obtain ⟨hhanded, hnone⟩ := handed_of_lastAfterOthers (S := S) hframes harrivals i horder
    refine ⟨?_, hnone⟩
    obtain ⟨h, hmem, hnumber⟩ := hhanded
    have hpair := List.mem_map_of_mem (f := Handover.shown) hmem
    rw [← hshown, List.mem_map] at hpair
    obtain ⟨j, hj, hpair⟩ := hpair
    have hindex : UInt32.ofNat j = UInt32.ofNat i := (Prod.mk.inj hpair).1.trans hnumber
    rw [ofNat_inj (by omega) (by omega)] at hindex
    rwa [← Fin.ext hindex]

/-- The frame of two fragments, sent to one registered peer and received in
sending order, is shown once. -/
theorem video_round_trip_twoFragments :
    (handovers (KeySort.insertion _) FragmentBuffer.empty
        ((addressedTo ⟨0, 12345⟩ (videoRecandSend (fun _ => [⟨0, 12345⟩]) [twoFragments])).map
          VideoFragment.bytes)).map Handover.reassembledFrame = [twoFragments.bytes] := by
  obtain ⟨shown, hnodup, hbytes, hcomplete⟩ :=
    video_round_trip (KeySort.insertion _) (fun _ => [⟨0, 12345⟩]) ⟨0, 12345⟩
      (fun _ => rfl) (show [twoFragments].length ≤ 2 ^ 32 by decide)
      (by simpa using twoFragments_fits) (List.Subperm.refl _)
  have hsent : addressedTo ⟨0, 12345⟩ (videoRecandSend (fun _ => [⟨0, 12345⟩]) [twoFragments]) =
      twoFragments.fragments 0 := by
    rw [addressedTo_videoRecandSend fun _ => rfl, videoFragments, videoFragments, List.append_nil]
  have hpos : 0 < twoFragments.totalFragments.toNat := by
    rw [twoFragments_total]
    decide
  have hmem : (0 : Fin 1) ∈ shown := by
    refine (hcomplete 0 ?_).1
    rw [hsent]
    exact EncFrame.lastAfterOthers_fragments hpos
  have hshown : shown = [0] := by
    apply List.Perm.eq_singleton
    apply (List.perm_ext_iff_of_nodup hnodup (List.nodup_singleton _)).mpr
    intro i
    rw [show i = 0 from Subsingleton.elim (α := Fin 1) i 0]
    simp [hmem]
  rw [hbytes, hshown]
  rfl

end ManyFrames

end MediaStream.OnlineAV
