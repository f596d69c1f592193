import MediaStream.Lib.Insertion
import MediaStream.OnlineAV.Contents

/-!
Copies of datagrams in front of `VideoPlayback`. Completeness is a comparison of
counts, so a copy can make a frame complete too early, keep it from becoming
complete, or show it once more; this module says exactly when none of this
happens.

Which datagram of the sender an arrival is, and whether it is a copy, is kept as
a ghost next to it; the code never sees it.
-/

namespace MediaStream.OnlineAV

open Lib Lib.Collector

variable {frames : List EncFrame}

structure Arrival (frames : List EncFrame) where
  sent : Sent frames
  copy : Bool

namespace Arrival

def original (a : Arrival frames) : Bool := !a.copy

def fragment (c : Contents frames) (a : Arrival frames) : VideoFragment := a.sent.fragment c

def number (a : Arrival frames) : UInt32 := UInt32.ofNat a.sent.frame

def lastFragment (a : Arrival frames) : Bool := (a.fragment (Contents.own frames)).lastFragment

def completes (a : Arrival frames) (size : Nat) : Bool :=
  a.lastFragment && decide (size = (frames.get a.sent.frame).totalFragments.toNat)

/-- It does not depend on the contents. -/
theorem completes_fragment (c : Contents frames) (a : Arrival frames) :
    OnlineAV.completes (a.fragment c) = a.completes := by
  funext size
  simp only [OnlineAV.completes, completes, lastFragment, fragment, Sent.fragment,
    EncFrame.fragment, c.totalFragments_encoding, (Contents.own frames).totalFragments_encoding]

end Arrival

/-- What arrives from one sender: some of its datagrams in any order, none of
them twice, and copies of datagrams that have come before. -/
structure WithCopies (arrivals : List (Arrival frames)) : Prop where
  nodup : ((arrivals.filter Arrival.original).map Arrival.sent).Nodup
  repeats : Repeats Arrival.original Arrival.sent arrivals

def handoversOf (S : FragmentSort) (c : Contents frames) (arrivals : List (Arrival frames)) :
    List Handover :=
  handovers S FragmentBuffer.empty (arrivals.map fun a => (a.fragment c).bytes)

/-- The same buffers are handed over as without the copies, and every one is the
encoding of a frame. -/
def SameBuffers (S : FragmentSort) (c : Contents frames) (arrivals : List (Arrival frames)) :
    Prop :=
  (handoversOf S c arrivals).map Handover.reassembledFrame =
      (handoversOf S c (arrivals.filter Arrival.original)).map Handover.reassembledFrame ∧
    ∀ h ∈ handoversOf S c arrivals, ∃ i, h.reassembledFrame = (c.encoding i).bytes

/-- The copies change no buffer, whatever is in the frames. -/
def Transparent (S : FragmentSort) (arrivals : List (Arrival frames)) : Prop :=
  ∀ c, SameBuffers S c arrivals

/-- A stretch of arrivals is one whole frame without copies, the flagged
datagram at its end. -/
def WholeFrame (part : List (Arrival frames)) : Prop :=
  IsFrame (part.map Arrival.sent) ∧ (∀ a ∈ part, a.original = true) ∧
    ∃ final ∈ part.getLast?, final.lastFragment = true

/-- The copies among the arrivals with one number do no harm: first come whole
frames without copies, then a rest in which no datagram completes anything,
whether the copies are counted or not. -/
def CopiesHarmless (items : List (Arrival frames)) : Prop :=
  ∃ (parts : List (List (Arrival frames))) (rest : List (Arrival frames)),
    items = parts.flatten ++ rest ∧ (∀ part ∈ parts, WholeFrame part) ∧
      Silent Arrival.completes 0 rest ∧ Silent Arrival.completes 0 (rest.filter Arrival.original)

section OneNumber

variable {part items : List (Arrival frames)}

theorem uniform_of_perm {i : Fin frames.length}
    (hperm : (part.map Arrival.sent).Perm (Sent.ofFrame i)) :
    Uniform Arrival.completes Arrival.lastFragment (frames.get i).totalFragments.toNat part := by
  intro a ha size
  obtain rfl : a.sent.frame = i :=
    Sent.mem_ofFrame.mp (hperm.subset (List.mem_map_of_mem ha))
  rfl

/-- Whole frames are the groups of originals that are frames. -/
theorem wholeFrame_iff :
    WholeFrame part ↔
      (Group Arrival.completes part ∧ ∀ a ∈ part, a.original = true) ∧
        IsFrame (part.map Arrival.sent) := by
  constructor
  · rintro ⟨⟨i, hperm, hfits⟩, horiginal, final, hfinal, hflag⟩
    refine ⟨⟨?_, horiginal⟩, i, hperm, hfits⟩
    have hlen := hperm.length_eq
    have huniform := uniform_of_perm hperm
    obtain ⟨front, rfl⟩ := List.getLast?_eq_some_iff.mp hfinal
    rw [List.length_map, List.length_append, List.length_singleton, Sent.length_ofFrame] at hlen
    exact huniform.group hlen hflag
  · rintro ⟨⟨⟨front, a, rfl, -, hfires⟩, horiginal⟩, hframe⟩
    refine ⟨hframe, horiginal, a, by simp, ?_⟩
    rw [Arrival.completes, Bool.and_eq_true] at hfires
    exact hfires.1

theorem copiesHarmless_iff :
    CopiesHarmless items ↔
      Apart Arrival.completes Arrival.original items ∧
        ∀ group ∈ groups Arrival.completes [] items, IsFrame (group.map Arrival.sent) := by
  constructor
  · rintro ⟨parts, rest, rfl, hparts, hrest, hkept⟩
    have hgroups : ∀ part ∈ parts, Group Arrival.completes part :=
      fun part hpart => (wholeFrame_iff.mp (hparts part hpart)).1.1
    refine ⟨⟨parts, rest, rfl, fun part hpart => (wholeFrame_iff.mp (hparts part hpart)).1, hrest,
      hkept⟩, ?_⟩
    rw [(groups_complete parts rest hgroups hrest).1]
    exact fun part hpart => (hparts part hpart).1
  · rintro ⟨⟨parts, rest, rfl, hparts, hrest, hkept⟩, hframes⟩
    rw [(groups_complete parts rest (fun part hpart => (hparts part hpart).1) hrest).1] at hframes
    exact ⟨parts, rest, rfl,
      fun part hpart => wholeFrame_iff.mpr ⟨hparts part hpart, hframes part hpart⟩, hrest, hkept⟩

end OneNumber

def handedOver (arrivals : List (Arrival frames)) : List (UInt32 × List (Arrival frames)) :=
  output Arrival.number Arrival.completes (fun _ => none) arrivals

theorem handoversOf_eq (S : FragmentSort) (c : Contents frames) (arrivals : List (Arrival frames)) :
    handoversOf S c arrivals =
      (handedOver arrivals).map fun part => ⟨part.1, S.sort (part.2.map (Arrival.fragment c))⟩ := by
  have hcompletes : completes ∘ Arrival.fragment c = Arrival.completes :=
    funext (Arrival.completes_fragment c)
  rw [handoversOf, handedOver,
    handovers_map (g := Arrival.fragment c) fun a => VideoFragment.recv_bytes (a.fragment c),
    hcompletes]
  rfl

/-- The buffers are those of the groups. -/
theorem buffers_eq (S : FragmentSort) (c : Contents frames) (arrivals : List (Arrival frames)) :
    (handoversOf S c arrivals).map Handover.reassembledFrame =
      (handedOver arrivals).map fun part => reassembled S c (part.2.map Arrival.sent) := by
  rw [handoversOf_eq, List.map_map]
  apply List.map_congr_left
  intro part _
  rw [reassembled, List.map_map]
  rfl

theorem sameBuffers_iff {S : FragmentSort} {c : Contents frames}
    {arrivals : List (Arrival frames)} :
    SameBuffers S c arrivals ↔
      (handedOver arrivals).map (fun part => reassembled S c (part.2.map Arrival.sent)) =
          (handedOver (arrivals.filter Arrival.original)).map
            (fun part => reassembled S c (part.2.map Arrival.sent)) ∧
        ∀ part ∈ handedOver arrivals, ∃ i,
          reassembled S c (part.2.map Arrival.sent) = (c.encoding i).bytes := by
  have hframes : (∀ h ∈ handoversOf S c arrivals, ∃ i, h.reassembledFrame = (c.encoding i).bytes) ↔
      ∀ b ∈ (handoversOf S c arrivals).map Handover.reassembledFrame,
        ∃ i, b = (c.encoding i).bytes := by
    rw [List.forall_mem_map]
  rw [SameBuffers, hframes, buffers_eq, buffers_eq, List.forall_mem_map]

/-- Whole frames are handed over and nothing else, the same ones in the same
order as without the copies. -/
def SameFrames (arrivals : List (Arrival frames)) : Prop :=
  List.Forall₂ (fun part original => part.1 = original.1 ∧
      (part.2.map Arrival.sent).Perm (original.2.map Arrival.sent))
    (handedOver arrivals) (handedOver (arrivals.filter Arrival.original)) ∧
  ∀ part ∈ handedOver arrivals, IsFrame (part.2.map Arrival.sent)

section Runs

variable {S : FragmentSort} {arrivals : List (Arrival frames)}

/-- The final datagram of a group says how many there are. -/
theorem exists_final {part : UInt32 × List (Arrival frames)} (h : part ∈ handedOver arrivals) :
    ∃ d ∈ part.2.map Arrival.sent, UInt32.ofNat d.frame = part.1 ∧
      (part.2.map Arrival.sent).length = (frames.get d.frame).totalFragments.toNat := by
  obtain ⟨⟨front, a, hgroup, -, hfires⟩, hmem⟩ := output_sound h rfl
  have ha : a ∈ part.2 := by simp [hgroup]
  rw [Arrival.completes, Bool.and_eq_true, decide_eq_true_iff] at hfires
  refine ⟨a.sent, List.mem_map_of_mem ha, (hmem a ha).2, ?_⟩
  rw [List.length_map, hgroup, List.length_append, List.length_singleton, hfires.2]

/-- Transparency whatever the contents is a matter of the frames. -/
theorem sameFrames_of_transparent (h : Transparent S arrivals) : SameFrames arrivals := by
  simp only [Transparent, sameBuffers_iff, forall_and] at h
  obtain ⟨hsame, hframes⟩ := h
  have hwhole : ∀ part ∈ handedOver arrivals, ∀ c, ∃ i,
      reassembled S c (part.2.map Arrival.sent) = (c.encoding i).bytes :=
    fun part hpart c => hframes c part hpart
  have hpairs : ∀ c, List.Forall₂ (fun part original =>
      reassembled S c (part.2.map Arrival.sent) = reassembled S c (original.2.map Arrival.sent))
      (handedOver arrivals) (handedOver (arrivals.filter Arrival.original)) := by
    intro c
    have hmaps := hsame c
    rwa [← List.forall₂_eq_eq_eq, List.forall₂_map_left_iff, List.forall₂_map_right_iff] at hmaps
  constructor
  · refine List.forall₂_iff_zip.mpr ⟨(hpairs (Contents.own frames)).length_eq, ?_⟩
    intro part original hzip
    obtain ⟨hpart, horiginal⟩ := List.of_mem_zip hzip
    have hbuffers := fun c => List.forall₂_zip (hpairs c) hzip
    have hwhole' : ∀ c, ∃ i,
        reassembled S c (original.2.map Arrival.sent) = (c.encoding i).bytes := by
      intro c
      rw [← hbuffers]
      exact hwhole part hpart c
    obtain ⟨d, hd, hnumber, hlen⟩ := exists_final hpart
    obtain ⟨e, he, hnumber', hlen'⟩ := exists_final horiginal
    have hframe : e.frame = d.frame := same_of_reassembled hwhole' hbuffers hd he
    have hperm := (perm_of_reassembled (hwhole part hpart) hd hlen).1
    have hperm' := (perm_of_reassembled hwhole' he hlen').1
    rw [hframe] at hnumber' hperm'
    exact ⟨hnumber.symm.trans hnumber', hperm.trans hperm'.symm⟩
  · intro part hpart
    obtain ⟨d, hd, -, hlen⟩ := exists_final hpart
    exact ⟨d.frame, perm_of_reassembled (hwhole part hpart) hd hlen⟩

/-- What is handed over for one number. -/
theorem handedOver_of_number (arrivals : List (Arrival frames)) (frameSeq : UInt32) :
    ((handedOver arrivals).filter (·.1 = frameSeq)).map Prod.snd =
      groups Arrival.completes [] (arrivals.filter (·.number = frameSeq)) :=
  groups_of_key Arrival.number Arrival.completes (fun _ => none) arrivals frameSeq

theorem isFrame_of_handedOver :
    (∀ part ∈ handedOver arrivals, IsFrame (part.2.map Arrival.sent)) ↔
      ∀ frameSeq, ∀ group ∈ groups Arrival.completes [] (arrivals.filter (·.number = frameSeq)),
        IsFrame (group.map Arrival.sent) := by
  constructor
  · intro hframes frameSeq group hgroup
    exact hframes (frameSeq, group) (mem_output_iff.mpr hgroup)
  · rintro hframes ⟨frameSeq, group⟩ hpart
    exact hframes frameSeq group (mem_output_iff.mp hpart)

/-- The groups of one number are the same, too. -/
theorem same_groups_of_number (h : SameFrames arrivals) (frameSeq : UInt32) :
    List.Forall₂ (fun part original =>
        (part.map Arrival.sent).Perm (original.map Arrival.sent))
      (groups Arrival.completes [] (arrivals.filter (·.number = frameSeq)))
      (groups Arrival.completes []
        ((arrivals.filter (·.number = frameSeq)).filter Arrival.original)) := by
  rw [List.filter_comm, ← handedOver_of_number, ← handedOver_of_number,
    List.forall₂_map_left_iff, List.forall₂_map_right_iff]
  refine (List.rel_filter ?_ h.1).imp fun _ _ hsame => hsame.2
  rintro part original ⟨hnumber, -⟩
  simp only [hnumber]

theorem harmless_of_sameFrames (h : WithCopies arrivals) (hsame : SameFrames arrivals)
    (frameSeq : UInt32) : CopiesHarmless (arrivals.filter (·.number = frameSeq)) := by
  refine copiesHarmless_iff.mpr ⟨?_, isFrame_of_handedOver.mp hsame.2 frameSeq⟩
  have hnodup : (((arrivals.filter (·.number = frameSeq)).filter Arrival.original).map
      Arrival.sent).Nodup := by
    rw [List.filter_comm]
    exact h.nodup.sublist (List.filter_sublist.map _)
  refine apart_of_same_groups (h.repeats.filter fun a b hident => ?_) hnodup
    (same_groups_of_number hsame frameSeq)
  rw [Arrival.number, Arrival.number, hident]

/-- Harmless copies are transparent. -/
theorem transparent_of_harmless
    (h : ∀ frameSeq, CopiesHarmless (arrivals.filter (·.number = frameSeq))) :
    Transparent S arrivals := by
  simp only [copiesHarmless_iff, forall_and] at h
  obtain ⟨hapart, hframes⟩ := h
  have hequal : handedOver arrivals = handedOver (arrivals.filter Arrival.original) :=
    output_filter_of_apart (fun _ => rfl) hapart
  refine fun c => sameBuffers_iff.mpr ⟨by rw [← hequal], fun part hpart => ?_⟩
  exact reassembled_of_isFrame S c (isFrame_of_handedOver.mpr hframes part hpart)

/-- Transparency of copies: whatever is in the frames, the buffers are the same
as without the copies and are encodings of frames that were sent, exactly when
the copies do no harm under any number. -/
theorem duplicates_transparent_iff (S : FragmentSort) (h : WithCopies arrivals) :
    Transparent S arrivals ↔
      ∀ frameSeq, CopiesHarmless (arrivals.filter (·.number = frameSeq)) :=
  ⟨fun htransparent => harmless_of_sameFrames h (sameFrames_of_transparent htransparent),
    transparent_of_harmless⟩

/-- A frame as it is sent. -/
theorem wholeFrame_ofFrame {i : Fin frames.length} (hpos : 0 < (frames.get i).totalFragments.toNat)
    (hfits : (frames.get i).CountFits) :
    WholeFrame ((Sent.ofFrame i).map fun d => Arrival.mk d false) := by
  obtain ⟨others, final, hsnoc, hflag, -⟩ :=
    EncFrame.fragments_eq_snoc (UInt32.ofNat i) hpos
  have hsent : ((Sent.ofFrame i).map fun d => Arrival.mk d false).map Arrival.sent =
      Sent.ofFrame i := by
    rw [List.map_map]
    exact List.map_id _
  refine ⟨⟨i, List.Perm.of_eq hsent, hfits⟩, by simp [Arrival.original], ?_⟩
  have hlast : ((Sent.ofFrame i).getLast?).map (Sent.fragment (Contents.own frames)) =
      some final := by
    rw [← List.getLast?_map, Sent.map_fragment_ofFrame]
    exact hsnoc ▸ List.getLast?_concat
  obtain ⟨d, hd, rfl⟩ := Option.map_eq_some_iff.mp hlast
  exact ⟨⟨d, false⟩, by simp [hd], hflag⟩

def firstSent : Sent [twoFragments] where
  frame := 0
  index := 0
  index_lt := by
    change 0 < twoFragments.totalFragments.toNat
    rw [twoFragments_total]
    decide

def lateCopy : List (Arrival [twoFragments]) :=
  (Sent.ofFrame 0).map (fun d => Arrival.mk d false) ++ [⟨firstSent, true⟩]

theorem withCopies_lateCopy : WithCopies lateCopy := by
  have hfilter : lateCopy.filter Arrival.original =
      (Sent.ofFrame 0).map fun d => Arrival.mk d false := by
    rw [lateCopy, List.filter_append, List.filter_eq_self.mpr (by simp [Arrival.original])]
    simp [Arrival.original]
  constructor
  · rw [hfilter, List.map_map]
    exact (List.map_id _).symm ▸ Sent.nodup_ofFrame 0
  · refine (repeats_of_kept (by simp [Arrival.original])).concat ?_
      (o := Arrival.mk firstSent false) rfl rfl
    exact List.mem_map_of_mem (Sent.mem_ofFrame.mpr rfl)

theorem number_lateCopy {a : Arrival [twoFragments]} : a.number = 0 := by
  rw [Arrival.number, Nat.lt_one_iff.mp a.sent.frame.isLt]
  rfl

theorem harmless_lateCopy (frameSeq : UInt32) :
    CopiesHarmless (lateCopy.filter (·.number = frameSeq)) := by
  by_cases hzero : frameSeq = 0
  · rw [hzero, List.filter_eq_self.mpr fun a _ => by simp [number_lateCopy]]
    refine ⟨[(Sent.ofFrame 0).map fun d => Arrival.mk d false], [⟨firstSent, true⟩], ?_, ?_, ?_, ?_⟩
    · rw [lateCopy, List.flatten_singleton]
    · exact List.forall_mem_singleton.mpr
        (wholeFrame_ofFrame firstSent.index_lt twoFragments_fits)
    · rw [silent_cons, ← Arrival.completes_fragment (Contents.own _)]
      exact ⟨completes_twoFragments (by decide), silent_nil _ _⟩
    · exact silent_nil _ 0
  · rw [List.filter_eq_nil_iff.mpr fun a _ => by simpa [number_lateCopy] using Ne.symm hzero]
    exact ⟨[], [], rfl, by simp, silent_nil _ 0, silent_nil _ 0⟩

theorem duplicates_transparent_iff_lateCopy :
    Transparent (KeySort.insertion _) lateCopy :=
  (duplicates_transparent_iff (KeySort.insertion _) withCopies_lateCopy).mpr harmless_lateCopy

def onlySent : Sent [oneByte] where
  frame := 0
  index := 0
  index_lt := by decide

def doubled : List (Arrival [oneByte]) := [⟨onlySent, false⟩] ++ [⟨onlySent, true⟩]

/-- The second time it shows the frame again. -/
theorem doubled_not_transparent :
    WithCopies doubled ∧ ¬SameBuffers (KeySort.insertion _) (Contents.own [oneByte]) doubled := by
  have hfirst : Repeats Arrival.original Arrival.sent [Arrival.mk onlySent false] :=
    repeats_of_kept (by simp [Arrival.original])
  refine ⟨⟨List.nodup_singleton _, hfirst.concat (List.mem_singleton_self _) rfl rfl⟩, ?_⟩
  intro hbuffers
  have hgroup : ∀ copy, Group Arrival.completes [Arrival.mk onlySent copy] := by
    refine fun copy => ⟨[], ⟨onlySent, copy⟩, rfl, silent_nil _ 0, ?_⟩
    rw [← Arrival.completes_fragment (Contents.own _)]
    change completes (oneByte.fragment 0 (UInt32.ofNat 0)) 1 = true
    decide
  have hnumber : ∀ a ∈ doubled, a.number = 0 := by
    intro a ha
    rcases List.mem_append.mp ha with ha | ha <;>
    · rw [List.mem_singleton.mp ha]
      rfl
  have htwo : groups Arrival.completes [] doubled =
      [[Arrival.mk onlySent false], [Arrival.mk onlySent true]] :=
    (groups_complete [[Arrival.mk onlySent false], [Arrival.mk onlySent true]] []
      (by simp [hgroup]) (silent_nil _ 0)).1
  have hone : groups Arrival.completes [] (doubled.filter Arrival.original) =
      [[⟨onlySent, false⟩]] :=
    (groups_of_group (hgroup false) []).1
  have hcount := congrArg List.length (sameBuffers_iff.mp hbuffers).1
  rw [handedOver, handedOver, output_of_one_key hnumber,
    output_of_one_key fun a ha => hnumber a (List.mem_of_mem_filter ha)] at hcount
  simp only [List.length_map, show entry (fun _ => none) (0 : UInt32) = ([] : List (Arrival _))
    from rfl, htwo, hone] at hcount
  cases hcount

end Runs

end MediaStream.OnlineAV
