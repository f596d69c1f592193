import Mathlib.Data.List.Nodup
import MediaStream.OnlineAV.Packets

/-!
`LookForPeers`: the sender of a datagram that reads as the C string `HELLO` is
added to `peer_List` unless it is there already. The list is only ever extended.
-/

namespace MediaStream.OnlineAV

/-- An IPv4 address and a port, what `find_if` tells one peer from another by. -/
structure SockaddrIn where
  sinAddr : UInt32
  sinPort : UInt16
  deriving DecidableEq

/-- `sizeof(buffer) - 1` -/
def helloBufferSize : Nat := 1023

/-- `strcmp(buffer, "HELLO") == 0`, when `Audio_rec` bytes have been received and
a zero has been put behind them. -/
def readsHello (datagram : List UInt8) : Bool :=
  (datagram.take helloBufferSize).takeWhile (· ≠ 0) = helloBytes

/-- One pass of the loop, for a datagram and its source. -/
def lookForPeers (peerList : List SockaddrIn) (source : SockaddrIn) (datagram : List UInt8) :
    List SockaddrIn :=
  if 0 < datagram.length then
    if readsHello datagram then
      if source ∈ peerList then peerList else peerList ++ [source]
    else peerList
  else peerList

theorem readsHello_nil : readsHello [] = false := by decide

theorem mem_lookForPeers {peerList : List SockaddrIn} {source peer : SockaddrIn}
    {datagram : List UInt8} :
    peer ∈ lookForPeers peerList source datagram ↔
      peer ∈ peerList ∨ readsHello datagram = true ∧ peer = source := by
  unfold lookForPeers
  cases datagram with
  | nil => simp [readsHello_nil]
  | cons byte rest =>
    rw [if_pos (List.length_pos_of_ne_nil (List.cons_ne_nil _ _))]
    cases hreads : readsHello (byte :: rest) with
    | false => simp
    | true =>
      by_cases hmem : source ∈ peerList
      · simp only [hmem, if_true, true_and]
        constructor
        · exact Or.inl
        · rintro (hold | rfl)
          · exact hold
          · exact hmem
      · simp [hmem]

theorem nodup_lookForPeers {peerList : List SockaddrIn} (h : peerList.Nodup)
    (source : SockaddrIn) (datagram : List UInt8) :
    (lookForPeers peerList source datagram).Nodup := by
  unfold lookForPeers
  split
  · split
    · split
      · exact h
      · rename_i hnew
        exact List.nodup_append.mpr ⟨h, List.nodup_singleton _, fun a ha b hb => by
          rw [List.mem_singleton.mp hb]
          rintro rfl
          exact hnew ha⟩
    · exact h
  · exact h

theorem readsHello_hello : readsHello Datagram.hello.bytes = true := by decide

/-- The string ends at a zero. -/
theorem length_string_le (n : Nat) (front back : List UInt8) :
    (((front ++ 0 :: back).take n).takeWhile (· ≠ 0)).length ≤ front.length := by
  induction front generalizing n with
  | nil => cases n <;> simp
  | cons byte front ih =>
    cases n with
    | zero => simp
    | succ n =>
      rw [List.cons_append, List.take_succ_cons, List.takeWhile_cons]
      split
      · exact Nat.succ_le_succ (ih n)
      · exact Nat.zero_le _

/-- An audio packet never reads as a greeting: the padding after its sequence
number ends the string too early. -/
theorem readsHello_audio (sequence : UInt32) (samples : Samples) :
    readsHello (Datagram.audio sequence samples).bytes = false := by
  apply decide_eq_false
  intro hreads
  obtain ⟨back, hbytes⟩ : ∃ back, (Datagram.audio sequence samples).bytes =
      Lib.Bytes.le 4 sequence.toNat ++ 0 :: back := by
    simp [Datagram.bytes, AudioPacket.bytes, AudioPacket.captured]
  have hlen := length_string_le helloBufferSize (Lib.Bytes.le 4 sequence.toNat) back
  rw [← hbytes, hreads, Lib.Bytes.length_le] at hlen
  exact absurd hlen (by decide)

end MediaStream.OnlineAV
