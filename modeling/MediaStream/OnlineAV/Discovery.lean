import MediaStream.OnlineAV.SharedPeers

/-!
What `peer_List` holds: the sources of the greetings that `LookForPeers` is
through with, each once, in the order in which they were first heard. Its
`buffer` is used again for every datagram, but `strcmp` never gets behind the
zero that is put after the bytes just received.
-/

namespace MediaStream.OnlineAV

open Lib Lib.Bytes

def greeters (datagrams : List (SockaddrIn × List UInt8)) : List SockaddrIn :=
  ((datagrams.filter fun d => cString d.2 = helloBytes).map Prod.fst).eraseDups

def ListenPoint.pending : ListenPoint → Bool
  | strcmp _ | lock | findIf => true
  | _ => false

/-- All datagrams that `recvfrom` has returned, with their sources. -/
def ListenAct.hear (a : ListenAct) (heard : List (SockaddrIn × List UInt8)) :
    List (SockaddrIn × List UInt8) :=
  match a with
  | recvfrom (some d) => heard ++ [d]
  | _ => heard

namespace Listener

def processed (l : Listener) (heard : List (SockaddrIn × List UInt8)) :
    List (SockaddrIn × List UInt8) :=
  if l.point.pending then heard.dropLast else heard

/-- The comparison stays inside `buffer`, and every byte of it that `strcmp`
examines is one of the last datagram's or the zero behind them. -/
def Fresh (l : Listener) (audioRec : Nat) (heard : List (SockaddrIn × List UInt8)) : Prop :=
  ∃ d buffer equal examined, heard.getLast? = some d ∧
    l.buffer.write audioRec [0] = some buffer ∧
    strcmp buffer.bytes helloLiteral = some (equal, examined) ∧
    buffer.bytes.take examined <+: d.2.take helloBufferSize ++ [0]

/-- What the local variables of `LookForPeers` have to do with what it has heard. -/
def Knows (l : Listener) (heard : List (SockaddrIn × List UInt8)) : Prop :=
  match l.point with
  | .strcmp audioRec => ∃ front payload, heard = front ++ [(l.peerAddr, payload)] ∧
      audioRec = (payload.take helloBufferSize).length ∧
      l.buffer.bytes.take audioRec = payload.take helloBufferSize
  | .lock | .findIf => ∃ front payload, heard = front ++ [(l.peerAddr, payload)] ∧
      cString payload = helloBytes
  | .overrun => False
  | _ => True

structure Discovers (s : Shared) (l : Listener) (heard : List (SockaddrIn × List UInt8)) :
    Prop where
  knows : l.Knows heard
  peers : s.peerList = greeters (l.processed heard)

end Listener

theorem eraseDups_concat {α : Type*} [DecidableEq α] (l : List α) (a : α) :
    (l ++ [a]).eraseDups = if a ∈ l then l.eraseDups else l.eraseDups ++ [a] := by
  rw [List.eraseDups_append]
  by_cases hmem : a ∈ l
  · simp [List.removeAll, hmem]
  · simp [List.removeAll, hmem, List.eraseDups_cons]

theorem greeters_concat (datagrams : List (SockaddrIn × List UInt8))
    (d : SockaddrIn × List UInt8) :
    greeters (datagrams ++ [d]) =
      if cString d.2 = helloBytes then Listener.register d.1 (greeters datagrams)
      else greeters datagrams := by
  unfold greeters Listener.register
  by_cases hgreets : cString d.2 = helloBytes
  · simp only [List.filter_append, List.map_append, hgreets, List.filter_cons, decide_true,
      if_true, List.filter_nil, List.map_cons, List.map_nil, eraseDups_concat,
      List.mem_eraseDups]
  · simp [List.filter_append, hgreets]

/-- Cutting a datagram to 1023 bytes makes no difference to whether it is a greeting. -/
theorem cString_take (payload : List UInt8) :
    cString (payload.take helloBufferSize) = helloBytes ↔ cString payload = helloBytes := by
  have htake : cString (payload.take helloBufferSize) =
      (cString payload).take helloBufferSize := List.take_takeWhile.symm
  rw [htake]
  constructor
  · intro hcut
    have hlen : ((cString payload).take helloBufferSize).length = helloBytes.length := by
      rw [hcut]
    have hsize : helloBytes.length < helloBufferSize := by decide
    rw [List.length_take] at hlen
    rwa [List.take_of_length_le (by omega)] at hcut
  · intro hgreets
    rw [hgreets]
    rfl

theorem readsHello_eq (payload : List UInt8) :
    readsHello payload = decide (cString payload = helloBytes) :=
  decide_eq_decide.mpr (cString_take payload)

/-- One pass of `LookForPeers` keeps the list what it should be. -/
theorem greeters_lookForPeers (datagrams : List (SockaddrIn × List UInt8))
    (d : SockaddrIn × List UInt8) :
    greeters (datagrams ++ [d]) = lookForPeers (greeters datagrams) d.1 d.2 := by
  rw [greeters_concat, lookForPeers, readsHello_eq]
  obtain ⟨source, payload⟩ := d
  cases payload with
  | nil => rfl
  | cons byte rest => simp [Listener.register]

namespace Listener

variable {l : Listener} {heard : List (SockaddrIn × List UInt8)}

theorem processed_of_pending (h : l.point.pending = true) :
    l.processed heard = heard.dropLast := if_pos h

theorem processed_of_not_pending (h : l.point.pending = false) : l.processed heard = heard := by
  unfold processed
  rw [h]
  rfl

theorem knows_received (l : Listener) (source : SockaddrIn) (payload : List UInt8) :
    (l.received source (payload.take helloBufferSize)).Knows (heard ++ [(source, payload)]) := by
  have hfits : 0 + (payload.take helloBufferSize).length ≤ helloBufferSize + 1 := by
    rw [List.length_take]
    omega
  obtain ⟨buffer, back, hwrite, hbytes⟩ := Buffer.write_eq_some (b := l.buffer) hfits
  unfold received
  rw [hwrite]
  by_cases hpos : 0 < (payload.take helloBufferSize).length
  · simp only [hpos, if_true]
    refine ⟨heard, payload, rfl, rfl, ?_⟩
    rw [hbytes, List.take_zero, List.nil_append, List.take_left]
  · simp only [hpos, if_false]
    trivial

/-- The string in `buffer` behind the terminating zero is never looked at. -/
theorem compared_spec {front : List (SockaddrIn × List UInt8)} {payload : List UInt8}
    {audioRec : Nat} (hheard : heard = front ++ [(l.peerAddr, payload)])
    (hrec : audioRec = (payload.take helloBufferSize).length)
    (hbytes : l.buffer.bytes.take audioRec = payload.take helloBufferSize) :
    l.Fresh audioRec heard ∧ ∃ buffer, l.compared audioRec =
      { l with
        point := if cString payload = helloBytes then .lock else .test
        buffer := buffer } := by
  have hfits : audioRec + [(0 : UInt8)].length ≤ helloBufferSize + 1 := by
    rw [hrec, List.length_take, List.length_singleton]
    omega
  obtain ⟨buffer, back, hwrite, hafter⟩ := Buffer.write_eq_some (b := l.buffer) hfits
  have hmemory : buffer.bytes = payload.take helloBufferSize ++ 0 :: back := by
    rw [hafter, hbytes, List.append_assoc, List.singleton_append]
  have hzero : 0 ∈ buffer.bytes := by
    rw [hmemory]
    exact List.mem_append_right _ List.mem_cons_self
  have hstring : cString buffer.bytes = cString (payload.take helloBufferSize) := by
    rw [hmemory, cString_append_zero]
  have hliteral : cString helloLiteral = helloBytes := by decide
  have hterminated : 0 ∈ helloLiteral := by decide
  obtain ⟨examined, hexamined, hcmp⟩ := strcmp_eq hzero hterminated
  rw [hstring, hliteral] at hcmp
  constructor
  · refine ⟨(l.peerAddr, payload), buffer, _, examined, by simp [hheard], hwrite, hcmp, ?_⟩
    have hshort : examined ≤ (payload.take helloBufferSize ++ [0]).length := by
      rw [List.length_append, List.length_singleton]
      rw [hstring] at hexamined
      exact hexamined.trans (Nat.succ_le_succ (length_cString_le _))
    have hsplit : buffer.bytes = (payload.take helloBufferSize ++ [0]) ++ back := by
      rw [hmemory, List.append_assoc, List.singleton_append]
    rw [hsplit, List.take_append_of_le_length hshort]
    exact List.take_prefix _ _
  · refine ⟨buffer, ?_⟩
    unfold compared
    rw [hwrite]
    simp only [hcmp, decide_eq_true_eq, cString_take]

theorem point_received (l : Listener) (source : SockaddrIn) {bytes : List UInt8}
    (h : bytes.length ≤ helloBufferSize + 1) :
    (l.received source bytes).point = if 0 < bytes.length then .strcmp bytes.length else .test := by
  have hfits : 0 + bytes.length ≤ helloBufferSize + 1 := by omega
  obtain ⟨buffer, -, hwrite, -⟩ := Buffer.write_eq_some (b := l.buffer) hfits
  unfold received
  rw [hwrite]

/-- A datagram without bytes is no greeting; its pass ends at once. -/
theorem greeters_received (l : Listener) (source : SockaddrIn) (payload : List UInt8) :
    greeters ((l.received source (payload.take helloBufferSize)).processed
      (heard ++ [(source, payload)])) = greeters heard := by
  have hlen : (payload.take helloBufferSize).length ≤ helloBufferSize + 1 := by
    rw [List.length_take]
    omega
  have hpoint := point_received l source hlen
  by_cases hpos : 0 < (payload.take helloBufferSize).length
  · rw [if_pos hpos] at hpoint
    rw [processed_of_pending (by rw [hpoint]; rfl), List.dropLast_concat]
  · have hnil : payload = [] := by
      have hsize : helloBufferSize = 1023 := rfl
      rw [List.length_take] at hpos
      exact List.length_eq_zero_iff.mp (by omega)
    subst hnil
    rw [if_neg hpos] at hpoint
    rw [processed_of_not_pending (by rw [hpoint]; rfl), greeters_concat]
    rfl

/-- A datagram that is no greeting is done with after `strcmp`. -/
theorem discovers_strcmp {s after : Shared} {next : Listener} (h : Discovers s l heard)
    (hstep : l.step s .strcmp = some (after, next)) : Discovers after next heard := by
  obtain ⟨hknows, hpeers⟩ := h
  unfold Knows at hknows
  unfold processed at hpeers
  simp only [step] at hstep
  split at hstep <;> cases hstep
  rename_i audioRec hpoint
  rw [hpoint] at hknows hpeers
  obtain ⟨front, payload, hheard, hrec, hbytes⟩ := hknows
  obtain ⟨-, buffer, hcompared⟩ := compared_spec hheard hrec hbytes
  rw [hcompared]
  by_cases hgreets : cString payload = helloBytes
  · simp only [hgreets, if_true]
    exact ⟨⟨front, payload, hheard, hgreets⟩, hpeers⟩
  · simp only [hgreets, if_false]
    refine ⟨trivial, ?_⟩
    rw [processed_of_not_pending rfl, hpeers, hheard]
    change greeters ((front ++ [_]).dropLast) = greeters (front ++ [_])
    rw [List.dropLast_concat, greeters_concat, if_neg hgreets]

/-- A greeting is done with when its source is on the list. -/
theorem discovers_findIf {s after : Shared} {next : Listener} (h : Discovers s l heard)
    (hstep : l.step s .findIf = some (after, next)) : Discovers after next heard := by
  obtain ⟨hknows, hpeers⟩ := h
  unfold Knows at hknows
  unfold processed at hpeers
  simp only [step] at hstep
  split at hstep <;> cases hstep
  rename_i hpoint
  rw [hpoint] at hknows hpeers
  obtain ⟨front, payload, hheard, hgreets⟩ := hknows
  refine ⟨trivial, ?_⟩
  have hfront : s.peerList = greeters front := by
    rw [hpeers, hheard]
    change greeters ((front ++ [_]).dropLast) = _
    rw [List.dropLast_concat]
  rw [processed_of_not_pending rfl, hfront, hheard]
  change _ = greeters (front ++ [_])
  rw [greeters_concat, if_pos hgreets]

theorem discovers_step {s after : Shared} {next : Listener} {a : ListenAct}
    (h : Discovers s l heard) (hstep : l.step s a = some (after, next)) :
    Discovers after next (a.hear heard) := by
  have ⟨hknows, hpeers⟩ := h
  unfold Knows at hknows
  unfold processed at hpeers
  cases a with
  | test =>
    simp only [step] at hstep
    split at hstep <;> cases hstep
    rename_i hpoint
    rw [hpoint] at hpeers
    cases s.running <;> exact ⟨trivial, hpeers⟩
  | recvfrom result =>
    rcases result with _ | ⟨source, payload⟩
    · simp only [step] at hstep
      split at hstep <;> cases hstep
      rename_i hpoint
      rw [hpoint] at hpeers
      exact ⟨trivial, hpeers⟩
    · simp only [step] at hstep
      split at hstep <;> cases hstep
      rename_i hpoint
      rw [hpoint] at hpeers
      refine ⟨knows_received l source payload, ?_⟩
      rw [ListenAct.hear, greeters_received]
      exact hpeers
  | strcmp => exact discovers_strcmp h hstep
  | lock =>
    simp only [step] at hstep
    split at hstep
    · split at hstep <;> cases hstep
      rename_i hpoint hfree
      rw [hpoint] at hknows hpeers
      exact ⟨hknows, hpeers⟩
    · cases hstep
  | findIf => exact discovers_findIf h hstep
  | unlock =>
    simp only [step] at hstep
    split at hstep <;> cases hstep
    rename_i hpoint
    rw [hpoint] at hpeers
    exact ⟨trivial, hpeers⟩

end Listener

namespace SharedPeers

def hear (_ : SharedPeers) (a : Act) (heard : List (SockaddrIn × List UInt8)) :
    List (SockaddrIn × List UInt8) :=
  match a with
  | .listen a => a.hear heard
  | _ => heard

def discovery : Machine (SharedPeers × List (SockaddrIn × List UInt8)) Act :=
  machine.monitored hear

variable {s next : SharedPeers} {heard : List (SockaddrIn × List UInt8)} {a : Act}

theorem discovers_step (h : Listener.Discovers s.shared s.listener heard)
    (hstep : s.step a = some next) :
    Listener.Discovers next.shared next.listener (hear s a heard) := by
  cases a with
  | stop =>
    rw [step_stop hstep]
    exact ⟨h.knows, h.peers⟩
  | listen a => exact Listener.discovers_step h (step_listen hstep).1
  | sendAudio a =>
    obtain ⟨hmove, hlistener, -⟩ := step_sendAudio hstep
    rw [hlistener]
    exact ⟨h.knows, (AudioSender.step_peerList hmove).trans h.peers⟩
  | sendVideo a =>
    obtain ⟨hmove, hlistener, -⟩ := step_sendVideo hstep
    rw [hlistener]
    exact ⟨h.knows, (VideoSender.step_peerList hmove).trans h.peers⟩

/-- What holds in every state of every run. -/
theorem discovers_of_reaches {buffer : Buffer (helloBufferSize + 1)}
    (hreach : discovery.Reaches (init buffer, []) (s, heard)) :
    Listener.Discovers s.shared s.listener heard ∧ s.Locked ∧ s.shared.peerList.Nodup := by
  apply hreach.preserves (P := fun p =>
    Listener.Discovers p.1.shared p.1.listener p.2 ∧ p.1.Locked ∧ p.1.shared.peerList.Nodup)
  · rintro ⟨s, heard⟩ a ⟨next, later⟩ ⟨hdiscovers, hlocked, hnodup⟩ hstep
    obtain ⟨hnext, rfl⟩ := Machine.monitored_step.mp hstep
    exact ⟨discovers_step hdiscovers hnext, locked_step hlocked hnext, nodup_step hnodup hnext⟩
  · exact ⟨⟨trivial, rfl⟩, locked_init buffer, List.nodup_nil⟩

theorem peerList_grows {later : SharedPeers} (h : machine.Reaches s later) :
    s.shared.peerList <+: later.shared.peerList := by
  apply h.preserves (P := fun t : SharedPeers => s.shared.peerList <+: t.shared.peerList)
  · intro t a next ht hstep
    exact ht.trans (peerList_extends hstep)
  · exact List.prefix_rfl

/-- `peer_List` is at every moment the list of those whose greeting has been
dealt with, each once and in order of arrival; it grows at its end only, and
never while a sender walks over it; `buffer` is neither left nor read where an
earlier datagram shows. -/
theorem peerList_discovered {buffer : Buffer (helloBufferSize + 1)}
    (hreach : discovery.Reaches (init buffer, []) (s, heard)) :
    s.shared.peerList = greeters (s.listener.processed heard) ∧
      s.shared.peerList.Nodup ∧
      (∀ later, machine.Reaches s later → s.shared.peerList <+: later.shared.peerList) ∧
      (∀ t, t ≠ .listen → s.Inside t → ∀ a next, s.step a = some next →
        next.shared.peerList = s.shared.peerList) ∧
      s.listener.point ≠ .overrun ∧
      ∀ audioRec, s.listener.point = .strcmp audioRec → s.listener.Fresh audioRec heard := by
  obtain ⟨⟨hknows, hpeers⟩, hlocked, hnodup⟩ := discovers_of_reaches hreach
  refine ⟨hpeers, hnodup, fun later => peerList_grows, ?_, ?_, ?_⟩
  · intro t ht hinside a next hstep
    exact peerList_frozen hlocked hstep ht hinside
  · intro hover
    rw [Listener.Knows, hover] at hknows
    exact hknows
  · intro audioRec hpoint
    rw [Listener.Knows, hpoint] at hknows
    obtain ⟨front, payload, hheard, hrec, hbytes⟩ := hknows
    exact (Listener.compared_spec hheard hrec hbytes).1

def greetingPass (source : SockaddrIn) : List Act :=
  [.listen .test, .listen (.recvfrom (some (source, helloBytes))), .listen .strcmp,
    .listen .lock, .listen .findIf, .listen .unlock]

/-- One greets twice, and another one after it. -/
theorem run_greetings : ∃ s, discovery.run (init Buffer.zero, [])
    (greetingPass ⟨1, 2⟩ ++ greetingPass ⟨1, 2⟩ ++ greetingPass ⟨3, 4⟩) =
      some (s, [(⟨1, 2⟩, helloBytes), (⟨1, 2⟩, helloBytes), (⟨3, 4⟩, helloBytes)]) ∧
    s.shared.peerList = [⟨1, 2⟩, ⟨3, 4⟩] := ⟨_, rfl, rfl⟩

theorem peerList_discovered_greetings :
    ∃ s heard, discovery.Reaches (init Buffer.zero, []) (s, heard) ∧
      s.shared.peerList = [⟨1, 2⟩, ⟨3, 4⟩] ∧ heard.length = 3 ∧
      s.shared.peerList = greeters (s.listener.processed heard) := by
  obtain ⟨s, hrun, hlist⟩ := run_greetings
  exact ⟨s, _, ⟨_, hrun⟩, hlist, rfl, (peerList_discovered ⟨_, hrun⟩).1⟩

end SharedPeers

end MediaStream.OnlineAV
