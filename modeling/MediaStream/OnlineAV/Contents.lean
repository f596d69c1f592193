import Mathlib.Data.List.FinRange
import Mathlib.Data.List.OfFn
import MediaStream.OnlineAV.SentFrame

/-!
The datagrams of one sender with the contents of its frames left open: of a
frame only the length is fixed, and with it the number of its fragments.

Which fragments are in a buffer is not visible in its bytes when two frames are
alike. Over all contents it is: paint some fragments with ones and all others
with zeros, and compare.
-/

namespace MediaStream.OnlineAV

open Lib

variable {frames : List EncFrame}

/-- Encodings of the same lengths as the frames. -/
structure Contents (frames : List EncFrame) where
  encoding : Fin frames.length → EncFrame
  length_encoding : ∀ i, (encoding i).bytes.length = (frames.get i).bytes.length

namespace Contents

def own (frames : List EncFrame) : Contents frames where
  encoding := frames.get
  length_encoding _ := rfl

theorem totalFragments_encoding (c : Contents frames) (i : Fin frames.length) :
    (c.encoding i).totalFragments = (frames.get i).totalFragments := by
  simp only [EncFrame.totalFragments, EncFrame.frameSize, c.length_encoding]

theorem countFits_encoding (c : Contents frames) (i : Fin frames.length) :
    (c.encoding i).CountFits ↔ (frames.get i).CountFits := by
  simp only [EncFrame.CountFits, EncFrame.fragmentCount, c.length_encoding]

end Contents

/-- A datagram of the sender: the fragment with the given index of one of its
frames. -/
@[ext] structure Sent (frames : List EncFrame) where
  frame : Fin frames.length
  index : Nat
  index_lt : index < (frames.get frame).totalFragments.toNat

namespace Sent

def fragment (c : Contents frames) (d : Sent frames) : VideoFragment :=
  (c.encoding d.frame).fragment (UInt32.ofNat d.frame) (UInt32.ofNat d.index)

def ofFrame (i : Fin frames.length) : List (Sent frames) :=
  (List.finRange (frames.get i).totalFragments.toNat).map
    fun j : Fin (frames.get i).totalFragments.toNat => ⟨i, j, j.isLt⟩

theorem mem_ofFrame {i : Fin frames.length} {d : Sent frames} : d ∈ ofFrame i ↔ d.frame = i := by
  constructor
  · intro hd
    obtain ⟨j, -, rfl⟩ := List.mem_map.mp hd
    rfl
  · rintro rfl
    exact List.mem_map.mpr ⟨⟨d.index, d.index_lt⟩, List.mem_finRange _, rfl⟩

theorem length_ofFrame (i : Fin frames.length) :
    (ofFrame i).length = (frames.get i).totalFragments.toNat := by
  rw [ofFrame, List.length_map, List.length_finRange]

theorem map_fragment_ofFrame (c : Contents frames) (i : Fin frames.length) :
    (ofFrame i).map (fragment c) = (c.encoding i).fragments (UInt32.ofNat i) := by
  rw [ofFrame, EncFrame.fragments, c.totalFragments_encoding, ← List.map_coe_finRange_eq_range,
    List.map_map, List.map_map]
  rfl

theorem nodup_ofFrame (i : Fin frames.length) : (ofFrame i).Nodup := by
  apply List.Nodup.of_map (fragment (Contents.own frames))
  rw [map_fragment_ofFrame]
  exact EncFrame.nodup_fragments _ _

theorem index_lt_encoding (c : Contents frames) (d : Sent frames) :
    d.index < (c.encoding d.frame).totalFragments.toNat := by
  rw [c.totalFragments_encoding]
  exact d.index_lt

end Sent

/-- What `reassembled_frame` holds when a group of datagrams is handed over. -/
def reassembled (S : FragmentSort) (c : Contents frames) (group : List (Sent frames)) :
    List UInt8 :=
  (S.sort (group.map (Sent.fragment c))).flatMap VideoFragment.data

/-- All datagrams of a frame that is sent whole, each once. -/
def IsFrame (group : List (Sent frames)) : Prop :=
  ∃ i : Fin frames.length, group.Perm (Sent.ofFrame i) ∧ (frames.get i).CountFits

section Reassembled

variable {S : FragmentSort} {c : Contents frames} {group : List (Sent frames)}

theorem reassembled_of_perm {i : Fin frames.length} (h : group.Perm (Sent.ofFrame i)) :
    reassembled S c group = (c.encoding i).bytes ↔ (frames.get i).CountFits := by
  have hfragments := h.map (Sent.fragment c)
  rw [Sent.map_fragment_ofFrame] at hfragments
  rw [reassembled, EncFrame.sort_fragments S hfragments, EncFrame.flatMap_data_eq_iff,
    c.countFits_encoding]

theorem reassembled_of_isFrame (S : FragmentSort) (c : Contents frames) (h : IsFrame group) :
    ∃ i, reassembled S c group = (c.encoding i).bytes := by
  obtain ⟨i, hperm, hfits⟩ := h
  exact ⟨i, (reassembled_of_perm hperm).mpr hfits⟩

theorem mem_reassembled {b : UInt8} :
    b ∈ reassembled S c group ↔ ∃ d ∈ group, b ∈ (d.fragment c).data := by
  rw [reassembled, List.mem_flatMap]
  simp only [S.mem_sort, List.mem_map, exists_exists_and_eq_and]

end Reassembled

section Paint

def paint (chosen : Bool) : UInt8 := if chosen then 1 else 0

theorem paint_inj {chosen other : Bool} : paint chosen = paint other ↔ chosen = other := by
  revert chosen other
  decide

/-- Contents of which only the chosen fragments can be told. -/
def painted (frames : List EncFrame) (chosen : Fin frames.length → Nat → Bool) :
    Contents frames where
  encoding i :=
    { bytes := (List.range (frames.get i).bytes.length).map fun j =>
        paint (chosen i (j / fdataSize))
      length_lt := by
        rw [List.length_map, List.length_range]
        exact (frames.get i).length_lt }
  length_encoding i := by rw [List.length_map, List.length_range]

variable {chosen : Fin frames.length → Nat → Bool} {b : UInt8}

theorem mem_bytes_painted {i : Fin frames.length} :
    b ∈ ((painted frames chosen).encoding i).bytes ↔
      ∃ j < (frames.get i).bytes.length, paint (chosen i (j / fdataSize)) = b := by
  simp [painted]

theorem mem_data_painted {d : Sent frames} :
    b ∈ (d.fragment (painted frames chosen)).data ↔ paint (chosen d.frame d.index) = b := by
  have hlt := d.index_lt_encoding (painted frames chosen)
  have hall : ∀ b ∈ (d.fragment (painted frames chosen)).data,
      b = paint (chosen d.frame d.index) := by
    intro b hb
    rw [Sent.fragment, EncFrame.data_fragment hlt] at hb
    obtain ⟨j, hj, rfl⟩ := List.mem_iff_getElem.mp hb
    have hsize : j < fdataSize := by
      rw [List.length_take] at hj
      omega
    have hpiece : (fdataSize * d.index + j) / fdataSize = d.index := by
      rw [Nat.mul_add_div (by decide), Nat.div_eq_of_lt hsize, Nat.add_zero]
    simp [painted, hpiece]
  constructor
  · exact fun hb => (hall b hb).symm
  · rintro rfl
    have hpos : 0 < (d.fragment (painted frames chosen)).data.length :=
      EncFrame.length_data_pos hlt
    have hfirst := List.getElem_mem hpos
    rwa [hall _ hfirst] at hfirst

variable {S : FragmentSort} {group other : List (Sent frames)} {d : Sent frames}

theorem mem_reassembled_painted :
    b ∈ reassembled S (painted frames chosen) group ↔
      ∃ d ∈ group, paint (chosen d.frame d.index) = b := by
  rw [mem_reassembled]
  simp only [mem_data_painted]

/-- With one frame painted, only a buffer that is this frame has ones. -/
theorem encoding_of_reassembled {i : Fin frames.length}
    (h : reassembled S (painted frames fun i _ => i = d.frame) group =
      ((painted frames fun i _ => i = d.frame).encoding i).bytes) (hd : d ∈ group) :
    i = d.frame := by
  have hone : paint true ∈ reassembled S (painted frames fun i _ => i = d.frame) group :=
    mem_reassembled_painted.mpr ⟨d, hd, by simp⟩
  rw [h, mem_bytes_painted] at hone
  obtain ⟨-, -, hpaint⟩ := hone
  simpa using paint_inj.mp hpaint

/-- A buffer that is a frame whatever the contents has fragments of one frame only. -/
theorem frame_of_reassembled (h : ∀ c, ∃ i, reassembled S c group = (c.encoding i).bytes)
    (hd : d ∈ group) {e : Sent frames} (he : e ∈ group) : e.frame = d.frame := by
  obtain ⟨i, hi⟩ := h (painted frames fun i _ => i = d.frame)
  have hframe := encoding_of_reassembled hi hd
  have hmem : paint (e.frame = d.frame) ∈
      reassembled S (painted frames fun i _ => i = d.frame) group :=
    mem_reassembled_painted.mpr ⟨e, he, rfl⟩
  rw [hi, mem_bytes_painted] at hmem
  obtain ⟨-, -, hpaint⟩ := hmem
  simpa [hframe] using (paint_inj.mp hpaint).symm

/-- And all of them. -/
theorem mem_of_reassembled (h : ∀ c, ∃ i, reassembled S c group = (c.encoding i).bytes)
    (hd : d ∈ group) {e : Sent frames} (he : e.frame = d.frame) : e ∈ group := by
  -- Of the frame only `e` is painted, of the other frames everything.
  obtain ⟨i, hi⟩ := h (painted frames fun i k => i ≠ d.frame || k = e.index)
  by_contra hmissing
  have hother : ∀ b ∈ group, b.index ≠ e.index := by
    intro b hb hindex
    have hsame : b = e := Sent.ext ((frame_of_reassembled h hd hb).trans he.symm) hindex
    exact hmissing (hsame ▸ hb)
  have hframe : i = d.frame := by
    have hzero : paint false ∈
        reassembled S (painted frames fun i k => i ≠ d.frame || k = e.index) group :=
      mem_reassembled_painted.mpr ⟨d, hd, by simp [hother d hd]⟩
    rw [hi, mem_bytes_painted] at hzero
    obtain ⟨j, -, hpaint⟩ := hzero
    have hnot := paint_inj.mp hpaint
    simp only [Bool.or_eq_false_iff, decide_eq_false_iff_not, not_not] at hnot
    exact hnot.1
  have hone : paint true ∈
      reassembled S (painted frames fun i k => i ≠ d.frame || k = e.index) group := by
    have hstart := EncFrame.start_lt e.index_lt
    rw [hi, mem_bytes_painted]
    refine ⟨fdataSize * e.index, ?_, ?_⟩
    · rwa [hframe, ← he]
    · rw [Nat.mul_div_cancel_left _ (by decide)]
      simp
  obtain ⟨b, hb, hpaint⟩ := mem_reassembled_painted.mp hone
  simpa [frame_of_reassembled h hd hb, hother b hb] using paint_inj.mp hpaint

/-- So with the number of fragments of the frame it is the frame. -/
theorem perm_of_reassembled (h : ∀ c, ∃ i, reassembled S c group = (c.encoding i).bytes)
    (hd : d ∈ group) (hlen : group.length = (frames.get d.frame).totalFragments.toNat) :
    group.Perm (Sent.ofFrame d.frame) ∧ (frames.get d.frame).CountFits := by
  have hsub : (Sent.ofFrame d.frame).Subperm group :=
    (Sent.nodup_ofFrame d.frame).subperm
      fun e he => mem_of_reassembled h hd (Sent.mem_ofFrame.mp he)
  have hperm := (hsub.perm_of_length_le (by rw [Sent.length_ofFrame, hlen])).symm
  obtain ⟨i, hi⟩ := h (painted frames fun i _ => i = d.frame)
  have hframe := encoding_of_reassembled hi hd
  rw [hframe] at hi
  exact ⟨hperm, (reassembled_of_perm hperm).mp hi⟩

/-- Two buffers that are frames are the same one if they never differ. -/
theorem same_of_reassembled (h : ∀ c, ∃ i, reassembled S c other = (c.encoding i).bytes)
    (hsame : ∀ c, reassembled S c group = reassembled S c other)
    (hd : d ∈ group) {e : Sent frames} (he : e ∈ other) : e.frame = d.frame := by
  have hone : paint true ∈ reassembled S (painted frames fun i _ => i = d.frame) other := by
    rw [← hsame]
    exact mem_reassembled_painted.mpr ⟨d, hd, by simp⟩
  obtain ⟨b, hb, hpaint⟩ := mem_reassembled_painted.mp hone
  have hframe : b.frame = d.frame := by simpa using paint_inj.mp hpaint
  rw [← hframe]
  exact frame_of_reassembled h hb he

end Paint

end MediaStream.OnlineAV
