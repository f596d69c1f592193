import MediaStream.OnlineAV.Leftovers

/-!
What becomes of the datagrams that `VideoPlayback` receives, whatever is in them:
each is in one of the frames that are handed to `cv::imdecode`, or it stays in
`fragment_buffer`.
-/

namespace MediaStream.OnlineAV

open Lib Lib.Collector

section Accounts

variable {S : FragmentSort}

/-- The datagrams with one number, in the order of their arrival: those of the
frames that have been handed over, and those that are stored. A frame ends with
the first datagram that is flagged as the last and gives the number of datagrams
that have come since the frame before; among those that are stored there is none. -/
structure Accounts (S : FragmentSort) (p : Player) (arrivals : List VideoFragment)
    (frameSeq : UInt32) (frames : List (List VideoFragment)) : Prop where
  arrivals : arrivals.filter (·.frameSeq = frameSeq) = frames.flatten ++ p.buffer.index frameSeq
  handed : (p.handed.filter (·.frameSeq = frameSeq)).map Handover.fragments = frames.map S.sort
  frames : ∀ frame ∈ frames, Group completes frame
  stored : Silent completes 0 (p.buffer.index frameSeq)

theorem handovers_of_number (datagrams : List (List UInt8)) (k : UInt32) :
    ((handovers S FragmentBuffer.empty datagrams).filter (·.frameSeq = k)).map
        Handover.fragments =
      (groups completes [] ((datagrams.map VideoFragment.recv).filter (·.frameSeq = k))).map
        S.sort := by
  have hgroups := groups_of_key VideoFragment.frameSeq completes FragmentBuffer.empty
    (datagrams.map VideoFragment.recv) k
  rw [FragmentBuffer.entry_empty] at hgroups
  rw [← hgroups, handovers_eq, List.filter_map, List.map_map, List.map_map]
  rfl

theorem index_fragmentBuffer (datagrams : List (List UInt8)) (k : UInt32) :
    (fragmentBuffer S FragmentBuffer.empty datagrams).index k =
      pending completes [] ((datagrams.map VideoFragment.recv).filter (·.frameSeq = k)) := by
  rw [fragmentBuffer_eq]
  exact entry_buffer _ _

/-- In every run of `VideoPlayback`, whatever is received and whenever it stops. -/
theorem videoPlayback_accounts (S : FragmentSort) (rounds : List Round) (k : UInt32) :
    ∃ frames, Accounts S (videoPlayback S rounds)
      ((receivedDatagrams S rounds).map VideoFragment.recv) k frames := by
  obtain ⟨hhanded, hbuffer⟩ := videoPlayback_eq (S := S) rounds
  obtain ⟨hsplit, hgroups, hsilent⟩ := groups_sound
    (((receivedDatagrams S rounds).map VideoFragment.recv).filter (·.frameSeq = k))
    (silent_nil completes 0)
  refine ⟨_, ?_, ?_, hgroups, ?_⟩
  · rw [hbuffer, index_fragmentBuffer, ← hsplit, List.nil_append]
  · rw [hhanded, handovers_of_number]
  · rw [hbuffer, index_fragmentBuffer]
    exact hsilent

end Accounts

end MediaStream.OnlineAV
