import MediaStream.OnlineAV.VideoSend

/-!
The fragment loop of `VideoRecandSend` with its counter, and the arithmetic it
is made of: an encoded frame is cut into consecutive pieces of 1400 bytes, of
which only the final one may be shorter.
-/

namespace MediaStream.OnlineAV

namespace EncFrame

/-- `for (uint32_t fragment_i = 0; fragment_i < total_fragments; ++fragment_i)`,
from a value of the counter on. -/
def fragmentLoop (e : EncFrame) (frameSeq fragmentI : UInt32) : List VideoFragment :=
  if fragmentI < e.totalFragments then
    e.fragment frameSeq fragmentI :: e.fragmentLoop frameSeq (fragmentI + 1)
  else []
termination_by e.totalFragments.toNat - fragmentI.toNat
decreasing_by
  rename_i hlt
  have hbound := UInt32.lt_iff_toNat_lt.mp hlt
  have htotal := e.totalFragments.toNat_lt
  have hnext : (fragmentI + 1).toNat = fragmentI.toNat + 1 := by
    rw [UInt32.toNat_add]
    exact Nat.mod_eq_of_lt (by change fragmentI.toNat + 1 < 2 ^ 32; omega)
  omega

/-- The fragments cut the frame exactly. -/
structure Partitions (e : EncFrame) (sent : List VideoFragment) : Prop where
  /-- Each index once, in order. -/
  indices : sent.map (·.fragmentI.toNat) = List.range sent.length
  total : ∀ f ∈ sent, f.totalFragments.toNat = sent.length
  /-- `fragment_i * max_fragment_s` is not reduced modulo `2 ^ 64`. -/
  no_overflow : ∀ f ∈ sent, (offset f.fragmentI).toNat = fdataSize * f.fragmentI.toNat
  /-- `frame_size - offset` does not wrap. -/
  no_underflow : ∀ f ∈ sent, (offset f.fragmentI).toNat ≤ e.frameSize.toNat
  /-- What `std::memcpy` reads lies inside `enc_frame`. -/
  source : ∀ f ∈ sent, (offset f.fragmentI).toNat + f.fragmentS.toNat ≤ e.bytes.length
  size : ∀ f ∈ sent, 1 ≤ f.fragmentS.toNat ∧ f.fragmentS.toNat ≤ fdataSize
  full : ∀ f ∈ sent, f.fragmentS.toNat < fdataSize → f.fragmentI.toNat + 1 = sent.length
  last : ∀ f ∈ sent, f.lastFragment = true ↔ f.fragmentI.toNat + 1 = sent.length
  /-- `Fdata[0, fragment_s)` over the indices. -/
  data : sent.flatMap VideoFragment.data = e.bytes
  empty : sent = [] ↔ e.bytes = []

variable {e : EncFrame} {frameSeq fragmentI : UInt32}

@[simp] theorem fragmentI_fragment : (e.fragment frameSeq fragmentI).fragmentI = fragmentI := rfl

@[simp] theorem fragmentS_fragment :
    (e.fragment frameSeq fragmentI).fragmentS = e.fragmentS fragmentI := rfl

@[simp] theorem totalFragments_fragment :
    (e.fragment frameSeq fragmentI).totalFragments = e.totalFragments := rfl

theorem fragmentLoop_stop (h : ¬fragmentI < e.totalFragments) :
    e.fragmentLoop frameSeq fragmentI = [] := by
  rw [fragmentLoop, if_neg h]

/-- What is left of the loop after `i` passes. -/
theorem fragmentLoop_from {left i : Nat} (h : i + left = e.totalFragments.toNat) :
    e.fragmentLoop frameSeq (UInt32.ofNat i) =
      (List.range' i left).map fun k => e.fragment frameSeq (UInt32.ofNat k) := by
  induction left generalizing i with
  | zero =>
    have htotal := e.totalFragments.toNat_lt
    have hi : (UInt32.ofNat i).toNat = i := by
      rw [UInt32.toNat_ofNat']
      exact Nat.mod_eq_of_lt (by omega)
    apply fragmentLoop_stop
    rw [UInt32.lt_iff_toNat_lt, hi]
    omega
  | succ left ih =>
    have hi : i < e.totalFragments.toNat := by omega
    have hlt : UInt32.ofNat i < e.totalFragments := by
      rw [UInt32.lt_iff_toNat_lt, toNat_index hi]
      exact hi
    have hnext : UInt32.ofNat i + 1 = UInt32.ofNat (i + 1) := (UInt32.ofNat_add i 1).symm
    rw [fragmentLoop, if_pos hlt, hnext, ih (by omega), List.range'_succ, List.map_cons]

/-- The loop with its counter sends the fragments one index after the other. -/
theorem fragmentLoop_eq (e : EncFrame) (frameSeq : UInt32) :
    e.fragmentLoop frameSeq 0 = e.fragments frameSeq := by
  rw [fragments, List.range_eq_range']
  exact fragmentLoop_from (Nat.zero_add e.totalFragments.toNat)

theorem indices_fragments :
    (e.fragments frameSeq).map (·.fragmentI.toNat) = List.range e.totalFragments.toNat := by
  have hindex : ∀ i ∈ List.range e.totalFragments.toNat,
      (e.fragment frameSeq (UInt32.ofNat i)).fragmentI.toNat = i := by
    intro i hi
    exact toNat_index (List.mem_range.mp hi)
  rw [fragments, List.map_map]
  exact (List.map_congr_left hindex).trans (List.map_id _)

/-- The piece that one pass copies. -/
theorem piece_fragment {i : Nat} (h : i < e.totalFragments.toNat) (hfits : e.CountFits) :
    1 ≤ (e.fragmentS (UInt32.ofNat i)).toNat ∧
      fdataSize * i + (e.fragmentS (UInt32.ofNat i)).toNat ≤ e.bytes.length ∧
      ((e.fragmentS (UInt32.ofNat i)).toNat < fdataSize → i + 1 = e.totalFragments.toNat) := by
  have hstart := start_lt h
  rw [toNat_fragmentS h]
  rw [toNat_totalFragments_of_fits hfits] at h ⊢
  unfold fragmentCount fdataSize at *
  omega

/-- The fragment loop is an exact partition of every frame whose fragment count
fits its counter. -/
theorem partitions_fragmentLoop (e : EncFrame) (frameSeq : UInt32) (hfits : e.CountFits) :
    e.Partitions (e.fragmentLoop frameSeq 0) := by
  have hlength := length_fragments e frameSeq
  rw [fragmentLoop_eq]
  constructor
  case indices => rw [indices_fragments, hlength]
  case data => exact flatMap_data_eq_iff.mpr hfits
  case empty =>
    rw [← List.length_eq_zero_iff, hlength, ← List.length_eq_zero_iff,
      toNat_totalFragments_of_fits hfits]
    unfold fragmentCount fdataSize
    omega
  all_goals
    intro f hf
    obtain ⟨i, hi, rfl⟩ := mem_fragments.mp hf
    obtain ⟨hpos, hsource, hfull⟩ := piece_fragment hi hfits
  case total => rw [hlength, totalFragments_fragment]
  case no_overflow =>
    rw [fragmentI_fragment, toNat_offset hi, toNat_index hi]
  case no_underflow =>
    rw [fragmentI_fragment, toNat_offset hi, toNat_frameSize]
    exact Nat.le_of_lt (start_lt hi)
  case source =>
    rw [fragmentI_fragment, fragmentS_fragment, toNat_offset hi]
    exact hsource
  case size => exact ⟨hpos, inBounds_fragment hi⟩
  case full =>
    intro hlt
    rw [fragmentI_fragment, toNat_index hi, hlength]
    exact hfull hlt
  case last =>
    rw [lastFragment_fragment hi, fragmentI_fragment, toNat_index hi, hlength, decide_eq_true_iff]

def overhang : EncFrame := ⟨List.replicate 1401 255, by rw [List.length_replicate]; decide⟩

theorem partitions_overhang :
    (overhang.fragmentLoop 0 0).length = 2 ∧ overhang.Partitions (overhang.fragmentLoop 0 0) := by
  have hcount : overhang.fragmentCount = 2 := by
    have hlength : overhang.bytes.length = 1401 := List.length_replicate
    rw [fragmentCount, hlength]
    rfl
  have hfits : overhang.CountFits := by
    rw [CountFits, hcount]
    decide
  refine ⟨?_, partitions_fragmentLoop overhang 0 hfits⟩
  rw [fragmentLoop_eq, length_fragments, toNat_totalFragments_of_fits hfits, hcount]

end EncFrame

end MediaStream.OnlineAV
