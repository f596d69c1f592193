import Mathlib.Logic.Function.Basic
import MediaStream.Lib.Multicast
import MediaStream.OnlineAV.SharedPeers

/-!
The numbers a peer sees: `sequence` is raised once for every packet that is
captured, a failed read raises nothing, and the copy of `peer_List` that a packet
is sent to has every peer once. What a peer is sent is therefore numbered without
a gap from the first packet after its registration on, modulo `2 ^ 32`.
-/

namespace MediaStream.OnlineAV

open Lib Lib.Bytes Lib.Multicast

structure AudioLog where
  /-- The packets in order, each with `peer_List` as it was copied for it. -/
  packets : List (AudioPacket × List SockaddrIn)
  /-- The packets in the order of their `sendto`, each with its destination. -/
  sent : List (SockaddrIn × AudioPacket)
  /-- How many packets there had been when the peer was added. -/
  joined : SockaddrIn → Option Nat

namespace AudioLog

def init : AudioLog where
  packets := []
  sent := []
  joined := fun _ => none

/-- Every packet once to every peer in its copy of the list. -/
def due (log : AudioLog) : List (SockaddrIn × AudioPacket) :=
  log.packets.flatMap fun p => sendAll p.2 p.1

end AudioLog

/-- The `a_sequence` values addressed to a peer. -/
def numbersTo (peer : SockaddrIn) (sent : List (SockaddrIn × AudioPacket)) : List UInt32 :=
  (received peer sent).map AudioPacket.aSequence

/-- The `n` numbers from the `k`-th on; `uint32_t` wraps. -/
def consecutive (k n : Nat) : List UInt32 := (List.range' k n).map UInt32.ofNat

def AudioSender.owed (t : AudioSender) : List (SockaddrIn × AudioPacket) :=
  match t.point with
  | .sendto peersList => sendAll peersList t.packet
  | _ => []

/-- A packet has its number, and its copy of the list has not been made. -/
def AudioPoint.numbered : AudioPoint → Bool
  | lock | copy => true
  | _ => false

namespace SharedPeers

def logAudio (s : SharedPeers) (a : Act) (log : AudioLog) : AudioLog :=
  match a with
  | .listen .findIf =>
    if s.listener.peerAddr ∈ s.shared.peerList then log
    else { log with
      joined := Function.update log.joined s.listener.peerAddr (some log.packets.length) }
  | .sendAudio .copy =>
    { log with packets := log.packets ++ [(s.audio.packet, s.shared.peerList)] }
  | .sendAudio .sendto => { log with sent := log.sent ++ s.audio.owed.take 1 }
  | _ => log

def numbering : Machine (SharedPeers × AudioLog) Act := machine.monitored logAudio

/-- The invariant: the log against the list and the counter. -/
structure Numbered (s : SharedPeers) (log : AudioLog) : Prop where
  nodup : s.shared.peerList.Nodup
  lists : ∀ p ∈ log.packets, p.2.Nodup
  counted : log.packets.map (·.1.aSequence) = consecutive 0 log.packets.length
  members : ∀ peer, peer ∈ s.shared.peerList ↔ (log.joined peer).isSome
  bounded : ∀ peer, ∀ k ∈ log.joined peer, k ≤ log.packets.length
  counter : s.audio.sequence =
    UInt32.ofNat (log.packets.length + if s.audio.point.numbered then 1 else 0)
  packet : s.audio.point.numbered → s.audio.packet.aSequence = UInt32.ofNat log.packets.length
  sent : log.sent ++ s.audio.owed = log.due
  numbers : ∀ peer, numbersTo peer log.due = match log.joined peer with
    | none => []
    | some k => consecutive k (log.packets.length - k)
  /-- The packet at hand is owed to a peer once at most. -/
  owed : (s.audio.owed.map Prod.fst).Nodup

end SharedPeers

section Numbers

variable {peer : SockaddrIn} {packet : AudioPacket}

theorem numbersTo_append (first second : List (SockaddrIn × AudioPacket)) :
    numbersTo peer (first ++ second) = numbersTo peer first ++ numbersTo peer second := by
  simp [numbersTo]

/-- A packet goes once to each peer of a list without repetitions. -/
theorem numbersTo_sendAll {peersList : List SockaddrIn} (h : peersList.Nodup) :
    numbersTo peer (sendAll peersList packet) =
      if peer ∈ peersList then [packet.aSequence] else [] := by
  rw [numbersTo, received_sendAll h]
  split <;> rfl

theorem consecutive_succ (k n : Nat) :
    consecutive k (n + 1) = consecutive k n ++ [UInt32.ofNat (k + n)] := by
  simp [consecutive, List.range'_concat]

end Numbers

namespace SharedPeers

variable {s next : SharedPeers} {log : AudioLog} {a : Act}

/-- A step that neither numbers, copies nor sends. -/
theorem numbered_quiet (h : Numbered s log) (hlist : next.shared.peerList = s.shared.peerList)
    (hsequence : next.audio.sequence = s.audio.sequence)
    (hpacket : next.audio.packet = s.audio.packet)
    (hnumbered : next.audio.point.numbered = s.audio.point.numbered)
    (howed : next.audio.owed = s.audio.owed) : Numbered next log where
  nodup := hlist ▸ h.nodup
  lists := h.lists
  counted := h.counted
  members := hlist ▸ h.members
  bounded := h.bounded
  counter := by
    rw [hsequence, hnumbered]
    exact h.counter
  packet := by
    rw [hpacket, hnumbered]
    exact h.packet
  sent := howed ▸ h.sent
  numbers := h.numbers
  owed := howed ▸ h.owed

theorem numbered_congr (h : Numbered s log) (hlist : next.shared.peerList = s.shared.peerList)
    (haudio : next.audio = s.audio) : Numbered next log := by
  apply numbered_quiet h hlist <;> rw [haudio]

/-- A new peer starts with the next packet. -/
theorem numbered_findIf (h : Numbered s log) (hstep : s.step (.listen .findIf) = some next) :
    Numbered next (logAudio s (.listen .findIf) log) := by
  obtain ⟨hmove, haudio, -⟩ := step_listen hstep
  have hlist := Listener.step_findIf hmove
  unfold logAudio
  by_cases hmem : s.listener.peerAddr ∈ s.shared.peerList
  · rw [Listener.register, if_pos hmem] at hlist
    simp only [hmem, if_true]
    exact numbered_congr h hlist haudio
  · have hnone : log.joined s.listener.peerAddr = none := by
      rw [h.members, Option.not_isSome_iff_eq_none] at hmem
      exact hmem
    simp only [hmem, if_false]
    constructor
    case nodup =>
      rw [hlist]
      exact Listener.nodup_register h.nodup _
    case members =>
      intro peer
      rw [hlist, Listener.mem_register, h.members]
      by_cases hpeer : peer = s.listener.peerAddr
      · simp [hpeer]
      · simp [hpeer]
    case bounded =>
      intro peer
      by_cases hpeer : peer = s.listener.peerAddr
      · simp [hpeer]
      · simpa [hpeer] using h.bounded peer
    case numbers =>
      intro peer
      by_cases hpeer : peer = s.listener.peerAddr
      · have hempty := h.numbers peer
        rw [hpeer, hnone] at hempty
        simp only [hpeer, Function.update_self, Nat.sub_self]
        exact hempty
      · simp only [Function.update_of_ne hpeer]
        exact h.numbers peer
    case lists => exact h.lists
    case counted => exact h.counted
    all_goals rw [haudio]
    case counter => exact h.counter
    case packet => exact h.packet
    case sent => exact h.sent
    case owed => exact h.owed

theorem due_concat (log : AudioLog) (packet : AudioPacket) (peersList : List SockaddrIn) :
    { log with packets := log.packets ++ [(packet, peersList)] }.due =
      log.due ++ sendAll peersList packet := by
  simp [AudioLog.due]

/-- The copy of the list: the packet is due to every peer in it. -/
theorem numbered_copy (h : Numbered s log) (hpoint : s.audio.point = .copy)
    (hlist : next.shared.peerList = s.shared.peerList)
    (haudio : next.audio = { s.audio with point := .sendto s.shared.peerList }) :
    Numbered next (logAudio s (.sendAudio .copy) log) := by
  obtain ⟨hnodup, hlists, hcounted, hmembers, hbounded, hcounter, hpacket, hsent, hnumbers, -⟩ := h
  rw [hpoint] at hcounter hpacket
  have hnumber := hpacket rfl
  have howed : next.audio.owed = sendAll s.shared.peerList s.audio.packet := by
    rw [haudio]
    rfl
  have hbefore : s.audio.owed = [] := by
    rw [AudioSender.owed, hpoint]
  have hdue := due_concat log s.audio.packet s.shared.peerList
  unfold logAudio
  constructor
  case nodup => exact hlist ▸ hnodup
  case lists =>
    intro p hp
    rcases List.mem_append.mp hp with hold | hnew
    · exact hlists p hold
    · rw [List.mem_singleton.mp hnew]
      exact hnodup
  case counted =>
    rw [List.map_append, hcounted, List.length_append, List.length_singleton, consecutive_succ,
      Nat.zero_add, List.map_singleton, hnumber]
  case members => exact hlist ▸ hmembers
  case bounded =>
    intro peer k hk
    rw [List.length_append]
    exact Nat.le_add_right_of_le (hbounded peer k hk)
  case counter =>
    rw [haudio, List.length_append]
    exact hcounter
  case packet =>
    rw [haudio]
    exact nofun
  case sent =>
    rw [hdue, howed, ← hsent, hbefore, List.append_nil]
  case owed =>
    rw [howed, map_fst_sendAll]
    exact hnodup
  case numbers =>
    intro peer
    rw [hdue, numbersTo_append, numbersTo_sendAll hnodup, hnumbers, hnumber, List.length_append,
      List.length_singleton]
    cases hjoined : log.joined peer with
    | none =>
      have hout : peer ∉ s.shared.peerList := by
        rw [hmembers, hjoined]
        exact Bool.false_ne_true
      simp [hout]
    | some k =>
      have hin : peer ∈ s.shared.peerList := by
        rw [hmembers, hjoined]
        rfl
      have hle := hbounded peer k hjoined
      have hlen : log.packets.length + 1 - k = log.packets.length - k + 1 := by omega
      have hlast : k + (log.packets.length - k) = log.packets.length := by omega
      simp only [hin, if_true, hlen, consecutive_succ, hlast]

/-- The packet at hand goes to the next peer of the copy. -/
theorem numbered_sendto (h : Numbered s log) {peer : SockaddrIn} {rest : List SockaddrIn}
    (hpoint : s.audio.point = .sendto (peer :: rest))
    (hlist : next.shared.peerList = s.shared.peerList)
    (haudio : next.audio = { s.audio with point := .sendto rest }) :
    Numbered next (logAudio s (.sendAudio .sendto) log) := by
  obtain ⟨hnodup, hlists, hcounted, hmembers, hbounded, hcounter, -, hsent, hnumbers, howed⟩ := h
  have hbefore : s.audio.owed = (peer, s.audio.packet) :: next.audio.owed := by
    rw [AudioSender.owed, hpoint, haudio]
    rfl
  rw [hpoint] at hcounter
  rw [hbefore] at howed
  unfold logAudio
  constructor
  case nodup => exact hlist ▸ hnodup
  case lists => exact hlists
  case counted => exact hcounted
  case members => exact hlist ▸ hmembers
  case bounded => exact hbounded
  case counter =>
    rw [haudio]
    exact hcounter
  case packet =>
    rw [haudio]
    exact nofun
  case sent =>
    rw [hbefore] at hsent ⊢
    rw [List.append_assoc]
    exact hsent
  case numbers => exact hnumbers
  case owed => exact (List.nodup_cons.mp howed).2

/-- A packet gets the next number. -/
theorem numbered_readi (h : Numbered s log) {samples : Samples} (hpoint : s.audio.point = .readi)
    (hlist : next.shared.peerList = s.shared.peerList)
    (haudio : next.audio = {
      point := .lock
      packet := { s.audio.packet with aSequence := s.audio.sequence, audioData := samples }
      sequence := s.audio.sequence + 1 }) : Numbered next log := by
  obtain ⟨hnodup, hlists, hcounted, hmembers, hbounded, hcounter, -, hsent, hnumbers, -⟩ := h
  rw [hpoint] at hcounter
  rw [AudioSender.owed, hpoint] at hsent
  constructor
  case nodup => exact hlist ▸ hnodup
  case members => exact hlist ▸ hmembers
  case lists => exact hlists
  case counted => exact hcounted
  case bounded => exact hbounded
  case numbers => exact hnumbers
  all_goals rw [haudio]
  case counter =>
    rw [hcounter]
    exact (UInt32.ofNat_add log.packets.length 1).symm
  case packet => exact fun _ => hcounter
  case sent => exact hsent
  case owed => exact List.nodup_nil

theorem numbered_sendAudio {a : AudioAct} (h : Numbered s log)
    (hstep : s.step (.sendAudio a) = some next) :
    Numbered next (logAudio s (.sendAudio a) log) := by
  obtain ⟨hmove, -, -⟩ := step_sendAudio hstep
  have hlist := AudioSender.step_peerList hmove
  have hcases := AudioSender.step_cases hmove
  cases a with
  | test =>
    obtain ⟨hpoint, -, haudio⟩ := hcases
    apply numbered_quiet h hlist <;> rw [haudio]
    · rw [hpoint]
      cases s.shared.running <;> rfl
    · rw [AudioSender.owed, AudioSender.owed, hpoint]
      cases s.shared.running <;> rfl
  | readi samples =>
    obtain ⟨hpoint, -, haudio⟩ := hcases
    exact numbered_readi h hpoint hlist haudio
  | readiError prepared =>
    obtain ⟨hpoint, -, haudio⟩ := hcases
    apply numbered_quiet h hlist <;> rw [haudio]
    · rw [hpoint]
      cases prepared <;> rfl
    · rw [AudioSender.owed, AudioSender.owed, hpoint]
      cases prepared <;> rfl
  | lock =>
    obtain ⟨hpoint, -, -, haudio⟩ := hcases
    apply numbered_quiet h hlist <;> rw [haudio]
    · rw [hpoint]
      rfl
    · rw [AudioSender.owed, AudioSender.owed, hpoint]
  | copy =>
    obtain ⟨hpoint, -, haudio⟩ := hcases
    exact numbered_copy h hpoint hlist haudio
  | sendto =>
    obtain ⟨peer, rest, hpoint, -, haudio⟩ := hcases
    exact numbered_sendto h hpoint hlist haudio
  | unlock =>
    obtain ⟨hpoint, -, haudio⟩ := hcases
    apply numbered_quiet h hlist <;> rw [haudio]
    · rw [hpoint]
      rfl
    · rw [AudioSender.owed, AudioSender.owed, hpoint]
      rfl

theorem numbered_step (h : Numbered s log) (hstep : s.step a = some next) :
    Numbered next (logAudio s a log) := by
  cases a with
  | stop =>
    rw [step_stop hstep]
    exact numbered_congr h rfl rfl
  | listen a =>
    obtain ⟨hmove, haudio, -⟩ := step_listen hstep
    cases a with
    | findIf => exact numbered_findIf h hstep
    | _ =>
      have hlist := (Listener.step_peerList hmove).resolve_right (fun hfind => nomatch hfind.1)
      exact numbered_congr h hlist haudio
  | sendAudio a => exact numbered_sendAudio h hstep
  | sendVideo a =>
    obtain ⟨hmove, -, haudio⟩ := step_sendVideo hstep
    exact numbered_congr h (VideoSender.step_peerList hmove) haudio

theorem numbered_of_reaches {buffer : Buffer (helloBufferSize + 1)}
    (hreach : numbering.Reaches (init buffer, .init) (s, log)) : Numbered s log := by
  apply hreach.preserves (P := fun p => Numbered p.1 p.2)
  · rintro ⟨s, log⟩ a ⟨next, later⟩ h hstep
    obtain ⟨hnext, rfl⟩ := Machine.monitored_step.mp hstep
    exact numbered_step h hnext
  · constructor
    case nodup => exact List.nodup_nil
    case lists => exact nofun
    case counted => rfl
    case members => exact fun peer => ⟨nofun, nofun⟩
    case bounded => exact nofun
    case counter => rfl
    case packet => exact nofun
    case sent => rfl
    case numbers => exact fun _ => rfl
    case owed => exact List.nodup_nil

theorem numbersTo_owed {t : AudioSender} (peer : SockaddrIn)
    (h : (t.owed.map Prod.fst).Nodup) :
    ∃ number, numbersTo peer t.owed = if peer ∈ t.owed.map Prod.fst then [number] else [] := by
  refine ⟨t.packet.aSequence, ?_⟩
  unfold AudioSender.owed at h ⊢
  split
  · rename_i peersList hpoint
    have hpeers : (sendAll peersList t.packet).map Prod.fst = peersList := map_fst_sendAll _ _
    rw [hpoint] at h
    simp only [hpeers] at h ⊢
    exact numbersTo_sendAll h
  · rfl

/-- Every packet goes once to every peer that is in the list when it is sent, and
each peer is sent consecutive numbers, from that of the first packet after its
registration up to the present one. -/
theorem numbers_consecutive {buffer : Buffer (helloBufferSize + 1)}
    (hreach : numbering.Reaches (init buffer, .init) (s, log)) :
    log.packets.map (·.1.aSequence) = consecutive 0 log.packets.length ∧
      (log.sent ++ s.audio.owed = log.due ∧ ∀ p ∈ log.packets, p.2.Nodup) ∧
      ∀ peer, (peer ∈ s.shared.peerList ↔ (log.joined peer).isSome) ∧
        (log.joined peer = none → numbersTo peer log.sent = []) ∧
        ∀ k, log.joined peer = some k →
          ∃ n, numbersTo peer log.sent = consecutive k n ∧
            k + n + (if peer ∈ s.audio.owed.map Prod.fst then 1 else 0) =
              log.packets.length := by
  have h := numbered_of_reaches hreach
  refine ⟨h.counted, ⟨h.sent, h.lists⟩, fun peer => ⟨h.members peer, ?_, ?_⟩⟩
  · intro hjoined
    have hdue := h.numbers peer
    rw [← h.sent, numbersTo_append, hjoined] at hdue
    exact (List.append_eq_nil_iff.mp hdue).1
  · intro k hjoined
    have hdue := h.numbers peer
    have hle := h.bounded peer k hjoined
    obtain ⟨number, howed⟩ := numbersTo_owed peer h.owed
    rw [← h.sent, numbersTo_append, hjoined, howed] at hdue
    simp only at hdue
    by_cases hin : peer ∈ s.audio.owed.map Prod.fst
    · rw [if_pos hin] at hdue ⊢
      obtain ⟨n, hn⟩ : ∃ n, log.packets.length - k = n + 1 := by
        apply Nat.exists_eq_succ_of_ne_zero
        intro hzero
        rw [hzero] at hdue
        exact List.append_ne_nil_of_right_ne_nil _ (List.cons_ne_nil _ _) hdue
      rw [hn, consecutive_succ] at hdue
      exact ⟨n, (List.append_inj' hdue rfl).1, by omega⟩
    · rw [if_neg hin, List.append_nil] at hdue
      rw [if_neg hin]
      exact ⟨log.packets.length - k, hdue, by omega⟩

def packetPass : List Act :=
  [.sendAudio .test, .sendAudio (.readi .silence), .sendAudio .lock, .sendAudio .copy,
    .sendAudio .sendto, .sendAudio .unlock]

theorem run_two_packets : ∃ s log, numbering.run (init Buffer.zero, .init)
    ([Act.listen .test, .listen (.recvfrom (some (⟨1, 2⟩, helloBytes))), .listen .strcmp,
      .listen .lock, .listen .findIf, .listen .unlock] ++ packetPass ++ packetPass) =
      some (s, log) ∧ log.joined ⟨1, 2⟩ = some 0 ∧ log.packets.length = 2 ∧
    s.audio.owed = [] := ⟨_, _, rfl, rfl, rfl, rfl⟩

/-- The first peer is sent the first two packets. -/
theorem numbers_consecutive_twoPackets :
    ∃ s log, numbering.Reaches (init Buffer.zero, .init) (s, log) ∧
      ∃ n, numbersTo ⟨1, 2⟩ log.sent = consecutive 0 n ∧ n = 2 := by
  obtain ⟨s, log, hrun, hjoined, hpackets, howed⟩ := run_two_packets
  obtain ⟨n, hsent, hn⟩ := (numbers_consecutive ⟨_, hrun⟩).2.2 ⟨1, 2⟩ |>.2.2 0 hjoined
  rw [howed, hpackets] at hn
  exact ⟨s, log, ⟨_, hrun⟩, n, hsent, by simpa using hn⟩

end SharedPeers

end MediaStream.OnlineAV
