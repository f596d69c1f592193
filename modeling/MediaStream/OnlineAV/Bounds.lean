import MediaStream.OnlineAV.VideoPlayback

/-!
The reads of `VideoPlayback` from the fragments it has stored. `fragment_s`
comes from the wire and is compared with nothing, so the range
`[Fdata, Fdata + fragment_s)` of a hostile datagram reaches beyond the array.
-/

namespace MediaStream.OnlineAV

open Lib Lib.Collector

/-- Every range that is appended to `reassembled_frame` lies in its array. -/
def ReadsInBounds (S : FragmentSort) (datagrams : List (List UInt8)) : Prop :=
  ∀ h ∈ handovers S FragmentBuffer.empty datagrams, ∀ f ∈ h.fragments, f.InBounds

/-- The arrivals with one frame number contain a stretch that completes: it
begins at the first of them or where another such stretch ends, and its final
datagram is the first in it to have `last_fragment` set and a
`total_fragments` equal to the number of datagrams of the stretch so far. -/
def CompletedStretch (arrivals group : List VideoFragment) : Prop :=
  ∃ (parts : List (List VideoFragment)) (back : List VideoFragment),
    arrivals = parts.flatten ++ (group ++ back) ∧
      (∀ part ∈ parts, Group completes part) ∧ Group completes group

/-- All reads are in bounds exactly when no datagram of a stretch that
completes has a `fragment_s` above 1400. -/
theorem reads_in_bounds_iff (S : FragmentSort) (datagrams : List (List UInt8)) :
    ReadsInBounds S datagrams ↔
      ∀ frameSeq group,
        CompletedStretch ((datagrams.map VideoFragment.recv).filter (·.frameSeq = frameSeq)) group →
          ∀ f ∈ group, f.fragmentS.toNat ≤ fdataSize := by
  unfold ReadsInBounds
  rw [handovers_eq]
  constructor
  · intro hreads frameSeq group hstretch f hf
    have hgroup : (frameSeq, group) ∈ output VideoFragment.frameSeq completes FragmentBuffer.empty
        (datagrams.map VideoFragment.recv) :=
      mem_output_iff.mpr (mem_groups_iff.mpr hstretch)
    exact hreads _ (List.mem_map_of_mem hgroup) f (S.mem_sort.mpr hf)
  · intro hbounds h hh f hf
    obtain ⟨⟨frameSeq, group⟩, hpart, rfl⟩ := List.mem_map.mp hh
    exact hbounds frameSeq group (mem_groups_iff.mp (mem_output_iff.mp hpart)) f
      (S.mem_sort.mp hf)

def oversized : VideoFragment where
  frameSeq := 0
  fragmentI := 0
  totalFragments := 1
  lastFragment := true
  fragmentS := 1401
  fdata := List.replicate fdataSize 0
  length_fdata := List.length_replicate

theorem oversized_reads_beyond :
    ¬ReadsInBounds (KeySort.insertion _) [oversized.bytes] := by
  rw [← List.map_singleton, ReadsInBounds, handovers_bytes]
  have hgroup : Group completes [oversized] := ⟨[], oversized, rfl, silent_nil completes 0, rfl⟩
  have hmem : (0, [oversized]) ∈
      output VideoFragment.frameSeq completes FragmentBuffer.empty [oversized] := by
    rw [mem_output_iff]
    exact mem_groups_iff.mpr ⟨[], [], rfl, by simp, hgroup⟩
  intro hreads
  exact absurd (hreads _ (List.mem_map_of_mem hmem) oversized
    ((KeySort.insertion _).mem_sort.mpr (List.mem_singleton_self _))) (by decide)

end MediaStream.OnlineAV
