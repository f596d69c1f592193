import Mathlib.Data.List.TakeDrop
import MediaStream.OnlineAV.Peers

/-!
`VideoRecandSend`: an encoded frame is cut into fragments of at most 1400 bytes,
and every fragment goes to every peer that is in `peer_List` at that moment.
-/

namespace MediaStream.OnlineAV

open Lib.Bytes

/-- `enc_frame`, a `std::vector<uchar>`. On a 64-bit machine such a vector has
fewer than `2 ^ 63` elements. -/
structure EncFrame where
  bytes : List UInt8
  length_lt : bytes.length < 2 ^ 63

/-- `sizeof(Video_Fragment::Fdata)` as a `size_t`. -/
def maxFragmentS : UInt64 := 1400

namespace EncFrame

def frameSize (e : EncFrame) : UInt64 := UInt64.ofNat e.bytes.length

/-- The quotient is a `size_t`; the assignment keeps its low 32 bits. -/
def totalFragments (e : EncFrame) : UInt32 :=
  ((e.frameSize + maxFragmentS - 1) / maxFragmentS).toUInt32

def fragmentCount (e : EncFrame) : Nat := (e.bytes.length + (fdataSize - 1)) / fdataSize

/-- The fragment count fits `uint32_t`. -/
def CountFits (e : EncFrame) : Prop := e.fragmentCount < 2 ^ 32

instance (e : EncFrame) : Decidable e.CountFits := inferInstanceAs (Decidable (_ < _))

def offset (fragmentI : UInt32) : UInt64 := fragmentI.toUInt64 * maxFragmentS

def fragmentS (e : EncFrame) (fragmentI : UInt32) : UInt64 :=
  min maxFragmentS (e.frameSize - offset fragmentI)

def fragment (e : EncFrame) (frameSeq fragmentI : UInt32) : VideoFragment where
  frameSeq := frameSeq
  fragmentI := fragmentI
  totalFragments := e.totalFragments
  lastFragment := fragmentI = e.totalFragments - 1
  fragmentS := e.fragmentS fragmentI
  fdata := overwrite (List.replicate fdataSize 0)
    ((e.bytes.drop (offset fragmentI).toNat).take (e.fragmentS fragmentI).toNat)
  length_fdata := by simp

def fragments (e : EncFrame) (frameSeq : UInt32) : List VideoFragment :=
  (List.range e.totalFragments.toNat).map fun i => e.fragment frameSeq (UInt32.ofNat i)

end EncFrame

/-- The fragments of all frames, numbered from `frameSeq` on; the counter wraps. -/
def videoFragments (frameSeq : UInt32) : List EncFrame → List VideoFragment
  | [] => []
  | e :: rest => e.fragments frameSeq ++ videoFragments (frameSeq + 1) rest

def sendToPeers (peerList : List SockaddrIn) (fragment : VideoFragment) :
    List (SockaddrIn × VideoFragment) :=
  peerList.map fun peer => (peer, fragment)

/-- What is sent for a list of fragments. `peersAt t` is `peer_List` when the
lock is taken for the `t`-th time: `LookForPeers` may add to it between any two
fragments. -/
def sendFragments (peersAt : Nat → List SockaddrIn) :
    Nat → List VideoFragment → List (SockaddrIn × VideoFragment)
  | _, [] => []
  | t, fragment :: rest =>
    sendToPeers (peersAt t) fragment ++ sendFragments peersAt (t + 1) rest

/-- All datagrams of the video sender, for the frames that were captured and encoded. -/
def videoRecandSend (peersAt : Nat → List SockaddrIn) (frames : List EncFrame) :
    List (SockaddrIn × VideoFragment) :=
  sendFragments peersAt 0 (videoFragments 0 frames)

def addressedTo (peer : SockaddrIn) (sent : List (SockaddrIn × VideoFragment)) :
    List VideoFragment :=
  (sent.filter (·.1 = peer)).map Prod.snd

namespace EncFrame

variable {e : EncFrame} {frameSeq : UInt32}

theorem toNat_frameSize : e.frameSize.toNat = e.bytes.length := by
  have hlt := e.length_lt
  simp only [frameSize, UInt64.toNat_ofNat']
  omega

theorem toNat_totalFragments : e.totalFragments.toNat = e.fragmentCount % 2 ^ 32 := by
  have hlt := e.length_lt
  have hsum : (e.frameSize + maxFragmentS - 1).toNat = e.bytes.length + (fdataSize - 1) := by
    have hmax : maxFragmentS.toNat = 1400 := rfl
    have hone : (1 : UInt64).toNat = 1 := rfl
    rw [UInt64.toNat_sub, UInt64.toNat_add, toNat_frameSize, hmax, hone, fdataSize]
    omega
  rw [totalFragments, UInt64.toNat_toUInt32, UInt64.toNat_div, hsum]
  rfl

theorem toNat_totalFragments_of_fits (h : e.CountFits) :
    e.totalFragments.toNat = e.fragmentCount := by
  rw [toNat_totalFragments, Nat.mod_eq_of_lt h]

theorem length_le_count : e.bytes.length ≤ fdataSize * e.fragmentCount := by
  unfold fragmentCount fdataSize
  omega

theorem count_pos_iff : 0 < e.fragmentCount ↔ e.bytes ≠ [] := by
  rw [← List.length_pos_iff]
  unfold fragmentCount fdataSize
  omega

theorem bytes_ne_nil (h : 0 < e.totalFragments.toNat) : e.bytes ≠ [] := by
  rw [toNat_totalFragments] at h
  exact count_pos_iff.mp (Nat.lt_of_lt_of_le h (Nat.mod_le _ _))

theorem totalFragments_pos (h : e.bytes ≠ []) (hfits : e.CountFits) :
    0 < e.totalFragments.toNat := by
  rw [toNat_totalFragments_of_fits hfits]
  exact count_pos_iff.mpr h

/-- Every fragment that is sent starts inside the frame. -/
theorem start_lt {i : Nat} (h : i < e.totalFragments.toNat) :
    fdataSize * i < e.bytes.length := by
  rw [toNat_totalFragments] at h
  have hcount : i < e.fragmentCount := Nat.lt_of_lt_of_le h (Nat.mod_le _ _)
  unfold fragmentCount fdataSize at *
  omega

theorem toNat_index {i : Nat} (h : i < e.totalFragments.toNat) :
    (UInt32.ofNat i).toNat = i := by
  have hlt := e.totalFragments.toNat_lt
  rw [UInt32.toNat_ofNat']
  exact Nat.mod_eq_of_lt (by omega)

theorem toNat_offset {i : Nat} (h : i < e.totalFragments.toNat) :
    (offset (UInt32.ofNat i)).toNat = fdataSize * i := by
  have hstart := start_lt h
  have hlt := e.length_lt
  have hmax : maxFragmentS.toNat = fdataSize := rfl
  rw [offset, UInt64.toNat_mul, UInt32.toNat_toUInt64, toNat_index h, hmax, Nat.mul_comm]
  exact Nat.mod_eq_of_lt (by omega)

theorem toNat_min (a b : UInt64) : (min a b).toNat = min a.toNat b.toNat := by
  change (if a ≤ b then a else b).toNat = _
  simp only [UInt64.le_iff_toNat_le, Nat.min_def]
  split <;> rfl

theorem toNat_fragmentS {i : Nat} (h : i < e.totalFragments.toNat) :
    (e.fragmentS (UInt32.ofNat i)).toNat = min fdataSize (e.bytes.length - fdataSize * i) := by
  have hstart := start_lt h
  have hmax : maxFragmentS.toNat = fdataSize := rfl
  have hle : offset (UInt32.ofNat i) ≤ e.frameSize := by
    rw [UInt64.le_iff_toNat_le, toNat_offset h, toNat_frameSize]
    exact Nat.le_of_lt hstart
  have hrest : (e.frameSize - offset (UInt32.ofNat i)).toNat = e.bytes.length - fdataSize * i := by
    rw [UInt64.toNat_sub_of_le _ _ hle, toNat_frameSize, toNat_offset h]
  rw [fragmentS, ← hrest, ← hmax, toNat_min]

/-- A fragment carries its piece of the frame. -/
theorem data_fragment {i : Nat} (h : i < e.totalFragments.toNat) :
    (e.fragment frameSeq (UInt32.ofNat i)).data =
      (e.bytes.drop (fdataSize * i)).take fdataSize := by
  have hstart := start_lt h
  have hpiece : (e.bytes.drop (fdataSize * i)).take
      (min fdataSize (e.bytes.length - fdataSize * i)) =
      (e.bytes.drop (fdataSize * i)).take fdataSize :=
    List.take_eq_take_iff.mpr (by rw [List.length_drop]; omega)
  have hlength : ((e.bytes.drop (fdataSize * i)).take fdataSize).length =
      min fdataSize (e.bytes.length - fdataSize * i) := by
    rw [List.length_take, List.length_drop]
  simp only [VideoFragment.data, fragment, toNat_offset h, toNat_fragmentS h, hpiece]
  rw [← hlength]
  exact take_overwrite (by rw [hlength, List.length_replicate]; omega)

theorem length_data_pos {i : Nat} (h : i < e.totalFragments.toNat) :
    0 < (e.fragment frameSeq (UInt32.ofNat i)).data.length := by
  have hstart := start_lt h
  have hsize : 0 < fdataSize := by decide
  rw [data_fragment h, List.length_take, List.length_drop]
  omega

theorem inBounds_fragment {i : Nat} (h : i < e.totalFragments.toNat) :
    (e.fragment frameSeq (UInt32.ofNat i)).InBounds := by
  change (e.fragmentS (UInt32.ofNat i)).toNat ≤ fdataSize
  rw [toNat_fragmentS h]
  exact Nat.min_le_left _ _

theorem lastFragment_fragment {i : Nat} (h : i < e.totalFragments.toNat) :
    (e.fragment frameSeq (UInt32.ofNat i)).lastFragment =
      decide (i + 1 = e.totalFragments.toNat) := by
  have hlt := e.totalFragments.toNat_lt
  have hone : (1 : UInt32).toNat = 1 := rfl
  have hle : (1 : UInt32) ≤ e.totalFragments := by
    rw [UInt32.le_iff_toNat_le, hone]
    omega
  simp only [fragment, decide_eq_decide]
  rw [← UInt32.toNat_inj, toNat_index h, UInt32.toNat_sub_of_le _ _ hle, hone]
  omega

theorem length_fragments (e : EncFrame) (frameSeq : UInt32) :
    (e.fragments frameSeq).length = e.totalFragments.toNat := by
  simp [fragments]

theorem mem_fragments {f : VideoFragment} :
    f ∈ e.fragments frameSeq ↔
      ∃ i < e.totalFragments.toNat, f = e.fragment frameSeq (UInt32.ofNat i) := by
  simp [fragments, eq_comm]

theorem fragments_ascend :
    (e.fragments frameSeq).Pairwise fun a b => a.fragmentI.toNat < b.fragmentI.toNat := by
  refine List.pairwise_map.mpr (List.Pairwise.imp_of_mem ?_ List.pairwise_lt_range)
  intro i j hi hj hlt
  simpa [fragment, toNat_index (List.mem_range.mp hi), toNat_index (List.mem_range.mp hj)]
    using hlt

theorem nodup_fragments (e : EncFrame) (frameSeq : UInt32) : (e.fragments frameSeq).Nodup :=
  fragments_ascend.imp fun hlt heq => by simp [heq] at hlt

/-- The data of the fragments, one after the other. -/
theorem flatMap_data :
    (e.fragments frameSeq).flatMap VideoFragment.data =
      e.bytes.take (fdataSize * e.totalFragments.toNat) := by
  rw [← flatMap_pieces, fragments, List.flatMap_map]
  apply List.flatMap_congr
  intro i hi
  exact data_fragment (List.mem_range.mp hi)

/-- A frame is sent whole when the count fits. -/
theorem take_eq_bytes_iff :
    e.bytes.take (fdataSize * e.totalFragments.toNat) = e.bytes ↔ e.CountFits := by
  rw [List.take_eq_self_iff, toNat_totalFragments]
  constructor
  · intro hle
    by_contra hbig
    have hcount : 2 ^ 32 ≤ e.fragmentCount := Nat.le_of_not_lt hbig
    have hmod := Nat.mod_lt e.fragmentCount (show 0 < 2 ^ 32 by decide)
    unfold fragmentCount fdataSize at *
    omega
  · intro hfits
    rw [Nat.mod_eq_of_lt hfits]
    exact length_le_count

theorem flatMap_data_eq_iff :
    (e.fragments frameSeq).flatMap VideoFragment.data = e.bytes ↔ e.CountFits := by
  rw [flatMap_data, take_eq_bytes_iff]

end EncFrame

theorem addressedTo_sendFragments {peersAt : Nat → List SockaddrIn} {peer : SockaddrIn}
    (h : ∀ t, (peersAt t).count peer = 1) (t : Nat) (fragments : List VideoFragment) :
    addressedTo peer (sendFragments peersAt t fragments) = fragments := by
  induction fragments generalizing t with
  | nil => rfl
  | cons fragment rest ih =>
    have hfilter : (peersAt t).filter (· = peer) = [peer] := by
      rw [List.filter_eq, h t]
      rfl
    have hfirst : addressedTo peer (sendToPeers (peersAt t) fragment) = [fragment] := by
      simp only [addressedTo, sendToPeers, List.filter_map, Function.comp_def, hfilter]
      rfl
    have happend : addressedTo peer (sendFragments peersAt t (fragment :: rest)) =
        addressedTo peer (sendToPeers (peersAt t) fragment) ++
          addressedTo peer (sendFragments peersAt (t + 1) rest) := by
      simp [addressedTo, sendFragments]
    rw [happend, hfirst, ih, List.singleton_append]

/-- A peer that is registered throughout is sent every fragment once, in order. -/
theorem addressedTo_videoRecandSend {peersAt : Nat → List SockaddrIn} {peer : SockaddrIn}
    (h : ∀ t, (peersAt t).count peer = 1) (frames : List EncFrame) :
    addressedTo peer (videoRecandSend peersAt frames) = videoFragments 0 frames :=
  addressedTo_sendFragments h 0 _

end MediaStream.OnlineAV
