import MediaStream.IPcheck.Stream
import MediaStream.Lib.Decimal
import MediaStream.Lib.Multicast

/-!
The peers of `IPcheckstream.cpp`. `peer_addresses` holds the texts of addresses,
and `listenForPeers` adds the source of whatever it receives, unless that is
`127.0.0.1`. Both threads hold `peer_mutex` while they use the set.
-/

namespace MediaStream.IPcheck

open Lib

/-- The four bytes of `sin_addr`, in network order. -/
structure InAddr where
  a : UInt8
  b : UInt8
  c : UInt8
  d : UInt8
  deriving DecidableEq

/-- A byte in decimal. -/
def byteText (byte : UInt8) : List Char := Decimal.print byte.toNat

def inetNtoa (addr : InAddr) : String :=
  .ofList (byteText addr.a ++ '.' :: (byteText addr.b ++ '.' ::
    (byteText addr.c ++ '.' :: byteText addr.d)))

abbrev Datagram := InAddr × List UInt8

/-- `hello_msg`, of `strlen(hello_msg)` bytes. -/
def helloMsg : List UInt8 := [72, 69, 76, 76, 79]

/-- `sizeof(buffer) - 1` -/
def bufferRoom : Nat := 64 - 1

/-- One pass of the loop of `listenForPeers`. The list is in the order of arrival, where
a `std::set` sorts; no result depends on the order. -/
def listenForPeers (peerAddresses : List String) (datagram : Datagram) : List String :=
  let bytesReceived := (datagram.2.take bufferRoom).length
  if 0 < bytesReceived then
    let peerIp := inetNtoa datagram.1
    if peerIp ∉ peerAddresses ∧ peerIp ≠ "127.0.0.1" then peerAddresses ++ [peerIp]
    else peerAddresses
  else peerAddresses

section InetNtoa

/-- What stands before the first dot is known. -/
theorem append_dot_inj {front front' back back' : List Char} (h : '.' ∉ front) (h' : '.' ∉ front')
    (hsame : front ++ '.' :: back = front' ++ '.' :: back') : front = front' ∧ back = back' := by
  have htake : ∀ {l : List Char} (rest : List Char), '.' ∉ l →
      (l ++ '.' :: rest).takeWhile (· ≠ '.') = l := by
    intro l rest hl
    rw [List.takeWhile_append_of_pos]
    · simp
    · intro c hc
      apply decide_eq_true
      rintro rfl
      exact hl hc
  have hfront : front = front' := by
    rw [← htake back h, hsame, htake back' h']
  subst hfront
  exact ⟨rfl, (List.cons.inj (List.append_cancel_left hsame)).2⟩

theorem dot_not_mem_byteText (byte : UInt8) : '.' ∉ byteText byte := by
  intro hmem
  rcases Decimal.isDigit_of_mem_print hmem with hdigit | hminus
  · cases hdigit
  · cases hminus

theorem byteText_injective {byte byte' : UInt8} (h : byteText byte = byteText byte') :
    byte = byte' := by
  apply UInt8.toNat_inj.mp
  exact Int.ofNat.inj (Decimal.print_injective h)

/-- An address is known by its text. -/
theorem inetNtoa_injective {addr addr' : InAddr} (h : inetNtoa addr = inetNtoa addr') :
    addr = addr' := by
  obtain ⟨ha, hrest⟩ := append_dot_inj (dot_not_mem_byteText _) (dot_not_mem_byteText _)
    (String.ofList_injective h)
  obtain ⟨hb, hrest⟩ := append_dot_inj (dot_not_mem_byteText _) (dot_not_mem_byteText _) hrest
  obtain ⟨hc, hd⟩ := append_dot_inj (dot_not_mem_byteText _) (dot_not_mem_byteText _) hrest
  cases addr
  cases addr'
  obtain rfl := byteText_injective ha
  obtain rfl := byteText_injective hb
  obtain rfl := byteText_injective hc
  obtain rfl := byteText_injective hd
  rfl

end InetNtoa

section Listen

variable {peerAddresses : List String} {datagram : Datagram}

def Adds (peerAddresses : List String) (datagram : Datagram) : Prop :=
  datagram.2 ≠ [] ∧ inetNtoa datagram.1 ∉ peerAddresses ∧ inetNtoa datagram.1 ≠ "127.0.0.1"

theorem room_pos_iff (payload : List UInt8) :
    0 < (payload.take bufferRoom).length ↔ payload ≠ [] := by
  rw [List.length_pos_iff, ne_eq, List.take_eq_nil_iff]
  constructor
  · intro h hnil
    exact h (Or.inr hnil)
  · rintro h (hroom | hnil)
    · cases hroom
    · exact h hnil

theorem listenForPeers_of_adds (h : Adds peerAddresses datagram) :
    listenForPeers peerAddresses datagram = peerAddresses ++ [inetNtoa datagram.1] := by
  obtain ⟨hbytes, hnew⟩ := h
  exact (if_pos ((room_pos_iff _).mpr hbytes)).trans (if_pos hnew)

theorem listenForPeers_of_not_adds (h : ¬Adds peerAddresses datagram) :
    listenForPeers peerAddresses datagram = peerAddresses := by
  unfold listenForPeers
  by_cases hbytes : datagram.2 = []
  · exact if_neg fun hpos => (room_pos_iff _).mp hpos hbytes
  · rw [if_pos ((room_pos_iff _).mpr hbytes), if_neg]
    intro hnew
    exact h ⟨hbytes, hnew⟩

theorem mem_listenForPeers {p : String} (h : p ∈ peerAddresses) :
    p ∈ listenForPeers peerAddresses datagram := by
  by_cases hadds : Adds peerAddresses datagram
  · rw [listenForPeers_of_adds hadds]
    exact List.mem_append_left _ h
  · rwa [listenForPeers_of_not_adds hadds]

end Listen

end MediaStream.IPcheck
