import MediaStream.TCPMeasure.Audio.Session
import MediaStream.TCPS.ClientList

/-!
When the latency clients stall. Every sender waits for an acknowledgement, but
what keeps a sender going are the bytes the other clients have sent, and the
playback threads take these from the same sockets. All senders wait for good
once a playback thread has taken the last bytes there were.
-/

namespace MediaStream.TCPMeasure.Audio

open Lib
open TCPS (Server Chunk latencyRelay Ok)

def relaying : TCPS.HandleC → Bool
  | .recv | .lockBroadcast _ | .broadcast _ _ => true
  | .lockErase | .erase | .close | .done => false

/-- The handler holds a chunk that some other client is still to be sent. -/
def Unrelayed (server : Server) (c : Nat) : Prop :=
  (∃ buffer, server.handler c = some (.lockBroadcast buffer)) ∨
    ∃ buffer i, server.handler c = some (.broadcast buffer i) ∧
      ∃ fd ∈ server.clients.drop i, fd ≠ server.clientSocket c

namespace Session

/-- `n` clients are connected: the server has registered them all, their
handlers run, and nothing has been sent. -/
structure Connected (n : Nat) (s : Session) : Prop where
  reached : (TCPS.server latencyRelay).Reaches Server.init s.server
  accepted : s.server.accepted = n
  handlers : ∀ c < n, s.server.handler c = some .recv
  links : ∀ c < n, s.server.link c = .up
  silent : ∀ c < n, s.server.inbound c = [] ∧ s.server.stream c = [] ∧ s.server.read c = 0
  clients : ∀ c < n, s.client c = Client.init

def Waiting (s : Session) (c : Nat) : Prop :=
  ∃ timestamp, (s.client c).sender = .recv timestamp

/-- Every sender is blocked, nothing is in flight on any connection, and no
handler holds an unrelayed chunk. -/
structure Stuck (n : Nat) (s : Session) : Prop where
  waiting : ∀ c < n, s.Waiting c
  inbound : ∀ c < n, s.server.inbound c = []
  inFlight : ∀ c < n, s.inFlight c = []
  relayed : ∀ c < n, ¬Unrelayed s.server c

/-- A playback thread takes the last bytes in flight while every sender waits
and no handler has a chunk to relay. -/
def Drains (n : Nat) (s : Session) (a : Act) : Prop :=
  ∃ c k, a = .client c (.recv k) ∧ (∀ d < n, s.Waiting d) ∧ (∀ d < n, s.server.inbound d = []) ∧
    (∀ d < n, ¬Unrelayed s.server d) ∧ (∀ d < n, d ≠ c → s.inFlight d = []) ∧
    (s.inFlight c).length = k

/-- What holds of all clients while the calls succeed. -/
structure Flowing (n : Nat) (s : Session) : Prop where
  ok : Ok s.server
  accepted : s.server.accepted = n
  handlers : ∀ c < n, ∃ pc, s.server.handler c = some pc ∧ relaying pc = true
  links : ∀ c < n, s.server.link c = .up
  reads : ∀ c < n, s.server.read c ≤ (s.server.stream c).length
  held : ∀ c buffer, s.server.Holds c buffer → buffer ≠ []
  packets : ∀ c packet timestamp, c < n → (s.client c).sender = .send packet timestamp →
    packet ≠ []

end Session

section Steps

variable {n : Nat} {s next : Session} {a : Act}

theorem setSender_sender (s : Session) (c d : Nat) (pc : SendAudio) :
    ((s.setSender c pc).client d).sender = if d = c then pc else (s.client d).sender := by
  by_cases hdc : d = c
  · simp [Session.setSender, hdc]
  · simp [Session.setSender, hdc]

theorem setPlayer_sender (s : Session) (c d : Nat) (pc : ReceiveAndPlay) :
    ((s.setPlayer c pc).client d).sender = (s.client d).sender := by
  by_cases hdc : d = c
  · simp [Session.setPlayer, hdc]
  · simp [Session.setPlayer, hdc]

theorem afterSend_sender (s : Session) (c d : Nat) (packet : Chunk) (timestamp : Int) :
    ((s.afterSend c packet timestamp).client d).sender =
      if d = c then .recv timestamp else (s.client d).sender := by
  by_cases hdc : d = c
  · simp [Session.afterSend, hdc]
  · simp [Session.afterSend, hdc]

theorem msTimestamp_append_ne_nil (now : Int) (audio : Chunk) : msTimestamp now ++ audio ≠ [] := by
  apply List.append_ne_nil_of_left_ne_nil
  apply List.ne_nil_of_length_pos
  rw [length_msTimestamp]
  decide

/-- The connection at a position of `clients` is one of the `n`. -/
theorem Session.Flowing.receiver (hs : s.Flowing n) {i : Nat} {fd : TCPS.Fd}
    (hfd : s.server.clients[i]? = some fd) :
    ∃ d < n, s.server.clientSocket d = fd ∧ s.server.table fd = some d := by
  obtain ⟨d, hreg, hsock, htable⟩ := hs.ok.conn_at hfd
  have hopen := hs.ok.open_of_registered hreg
  exact ⟨d, hs.accepted ▸ hopen.1, hsock, htable⟩

theorem flowing_server {a : TCPS.Act} {server : Server} (hs : s.Flowing n)
    (hregular : (Act.server a).regular = true) (hstep : TCPS.Step latencyRelay s.server a server) :
    Session.Flowing n { s with server := server } := by
  have hok := TCPS.ok_step hs.ok (TCPS.step_iff.mpr hstep)
  have hheld : ∀ c buffer, server.Holds c buffer → buffer ≠ [] := by
    intro c buffer hholds
    rcases TCPS.holds_step hstep hholds with hold | ⟨_, -, -, hne⟩
    · exact hs.held c buffer hold
    · exact hne
  have hmove : ∀ {c pc} {other : Server}, relaying pc = true →
      other.handler = Function.update s.server.handler c (some pc) → ∀ d < n, ∃ q,
      other.handler d = some q ∧ relaying q = true := by
    intro c pc other hpc hhandler d hd
    rw [hhandler]
    by_cases hdc : d = c
    · exact ⟨pc, by rw [hdc, Function.update_self], hpc⟩
    · rw [Function.update_of_ne hdc]
      exact hs.handlers d hd
  cases hstep with
  | recv c k hrun hpc hpos hsize hk =>
    exact ⟨hok, hs.accepted, hmove rfl rfl, hs.links, hs.reads, hheld, hs.packets⟩
  | lockBroadcast c buffer hrun hpc hfree =>
    exact ⟨hok, hs.accepted, hmove rfl rfl, hs.links, hs.reads, hheld, hs.packets⟩
  | iterateEnd c buffer i hrun hpc hsent hend =>
    exact ⟨hok, hs.accepted, hmove rfl rfl, hs.links, hs.reads, hheld, hs.packets⟩
  | iterateSelf c buffer i hrun hpc hsent hfd =>
    exact ⟨hok, hs.accepted, hmove rfl rfl, hs.links, hs.reads, hheld, hs.packets⟩
  | iterateSend c buffer i fd hrun hpc hsent hfd hother =>
    obtain ⟨d, hdn, -, htable⟩ := hs.receiver hfd
    have hsend : s.server.send latencyRelay fd buffer = _ := TCPS.send_up htable (hs.links d hdn)
    simp only [hsend] at hok hheld ⊢
    refine ⟨hok, hs.accepted, hmove rfl rfl, hs.links, ?_, hheld, hs.packets⟩
    intro e he
    have hread := hs.reads e he
    by_cases hed : e = d
    · subst hed
      simp only [TCPS.Server.setHandler_stream, TCPS.Server.setHandler_read, Function.update_self,
        List.length_append]
      omega
    · simpa [hed] using hread
  | _ => cases hregular

/-- What a client does touches its connection's bytes only. -/
theorem flowing_client {inbound : Nat → Chunk} {read : Nat → Nat} (hs : s.Flowing n)
    (hserver : next.server = { s.server with inbound := inbound, read := read })
    (hreads : ∀ c < n, read c ≤ (s.server.stream c).length)
    (hpackets : ∀ c packet timestamp, c < n → (next.client c).sender = .send packet timestamp →
      packet ≠ []) : Session.Flowing n next := by
  constructor
  case ok =>
    rw [hserver]
    exact ⟨hs.ok.loop, hs.ok.fresh, hs.ok.table, hs.ok.nodup, hs.ok.mem, hs.ok.lock⟩
  case accepted =>
    rw [hserver]
    exact hs.accepted
  case handlers =>
    rw [hserver]
    exact hs.handlers
  case links =>
    rw [hserver]
    exact hs.links
  case reads =>
    rw [hserver]
    exact hreads
  case held =>
    rw [hserver]
    exact hs.held
  case packets => exact hpackets

theorem flowing_step (hs : s.Flowing n) (hstep : Step s a next) : next.Flowing n := by
  have hkept : ∀ {c d packet timestamp pc} {other : Session}, d < n →
      (other.client d).sender = (if d = c then pc else (s.client d).sender) →
      (∀ packet timestamp, pc = .send packet timestamp → packet ≠ []) →
      (other.client d).sender = .send packet timestamp → packet ≠ [] := by
    intro c d packet timestamp pc other hd hsender hpc hsend
    rw [hsender] at hsend
    split at hsend
    · exact hpc _ _ hsend
    · exact hs.packets d packet timestamp hd hsend
  have hread : ∀ {c k}, s.server.read c + k ≤ (s.server.stream c).length → ∀ d < n,
      Function.update s.server.read c (s.server.read c + k) d ≤ (s.server.stream d).length := by
    intro c k hk d hd
    by_cases hdc : d = c
    · rw [hdc, Function.update_self]
      exact hk
    · rw [Function.update_of_ne hdc]
      exact hs.reads d hd
  cases hstep with
  | openCapture c hc hpc =>
    refine flowing_client hs rfl hs.reads ?_
    intro d packet timestamp hd
    exact hkept hd (setSender_sender s c d _) (by simp)
  | capture c audio now hc hpc hframes hsize =>
    refine flowing_client hs rfl hs.reads ?_
    intro d packet timestamp hd
    apply hkept hd (setSender_sender s c d _)
    rintro _ _ ⟨⟩
    exact msTimestamp_append_ne_nil now audio
  | recovered c now hc hpc =>
    refine flowing_client hs rfl hs.reads ?_
    intro d packet timestamp hd
    apply hkept hd (setSender_sender s c d _)
    rintro _ _ ⟨⟩
    exact List.append_nil (msTimestamp now) ▸ msTimestamp_append_ne_nil now []
  | send c packet timestamp hc hpc =>
    refine flowing_client hs rfl hs.reads ?_
    intro d packet timestamp hd
    exact hkept hd (afterSend_sender s c d _ _) (by simp)
  | recvAck c k ackTime timestamp hc hpc hpos hsize hk =>
    refine flowing_client hs rfl (hread hk) ?_
    intro d packet timestamp hd
    exact hkept hd (setSender_sender _ c d _) (by simp)
  | openPlayback c hc hpc =>
    refine flowing_client hs rfl hs.reads ?_
    intro d packet timestamp hd
    rw [setPlayer_sender]
    exact hs.packets d packet timestamp hd
  | recv c k hc hpc hpos hsize hk =>
    refine flowing_client hs rfl (hread hk) ?_
    intro d packet timestamp hd
    rw [setPlayer_sender]
    exact hs.packets d packet timestamp hd
  | write c buffer hc hpc =>
    refine flowing_client hs rfl hs.reads ?_
    intro d packet timestamp hd
    rw [setPlayer_sender]
    exact hs.packets d packet timestamp hd
  | server a server hregular hserver => exact flowing_server hs hregular hserver

theorem not_stuck_of_sender {c : Nat} (hc : c < n)
    (hpc : ∀ timestamp, (s.client c).sender ≠ .recv timestamp) : ¬s.Stuck n := by
  intro hstuck
  obtain ⟨timestamp, hwaiting⟩ := hstuck.waiting c hc
  exact hpc timestamp hwaiting

/-- There is a client besides the one whose handler is about to broadcast. -/
theorem Session.Flowing.exists_other (hs : s.Flowing n) (hn : 2 ≤ n) {c : Nat} (hc : c < n) :
    ∃ fd ∈ s.server.clients, fd ≠ s.server.clientSocket c := by
  have hother : ∃ d < n, d ≠ c := by
    by_cases hzero : c = 0
    · exact ⟨1, by omega, by omega⟩
    · exact ⟨0, by omega, by omega⟩
  obtain ⟨d, hd, hdc⟩ := hother
  have hreg : ∀ e < n, s.server.Registered e := by
    intro e he
    obtain ⟨pc, hpc, hrelaying⟩ := hs.handlers e he
    refine Or.inr ⟨pc, hpc, ?_⟩
    cases pc <;> first | rfl | cases hrelaying
  refine ⟨_, (hs.ok.mem _).mpr ⟨d, hreg d hd, rfl⟩, fun hsame => hdc ?_⟩
  exact hs.ok.socket_injective (hs.ok.open_of_registered (hreg d hd))
    (hs.ok.open_of_registered (hreg c hc)) hsame

theorem unrelayed_broadcast {server : Server} {c i : Nat} {buffer : Chunk}
    (hpc : server.handler c = some (.broadcast buffer i)) (h : Unrelayed server c) :
    ∃ fd ∈ server.clients.drop i, fd ≠ server.clientSocket c := by
  rcases h with ⟨_, hlock⟩ | ⟨_, _, hbroadcast, hrest⟩
  · cases hpc.symm.trans hlock
  · obtain ⟨-, rfl⟩ := TCPS.HandleC.broadcast.inj (Option.some.inj (hpc.symm.trans hbroadcast))
    exact hrest

theorem unrelayed_other {server after : Server} {c d : Nat} {pc : TCPS.HandleC}
    (h : Unrelayed server d) (hdc : d ≠ c)
    (hhandler : after.handler = Function.update server.handler c (some pc))
    (hclients : after.clients = server.clients)
    (hsocket : after.clientSocket = server.clientSocket) : Unrelayed after d := by
  unfold Unrelayed at h ⊢
  rw [hhandler, hclients, hsocket, Function.update_of_ne hdc]
  exact h

/-- A step of the server leaves a chunk to relay or bytes to read, unless it is
the end of a broadcast that has reached everybody. -/
theorem stuck_server {a : TCPS.Act} {server : Server} (hn : 2 ≤ n) (hs : s.Flowing n)
    (hregular : (Act.server a).regular = true) (hstep : TCPS.Step latencyRelay s.server a server)
    (hstuck : Session.Stuck n { s with server := server }) : s.Stuck n := by
  obtain ⟨hwaiting, hinbound, hinFlight, hrelayed⟩ := hstuck
  have hlt : ∀ {c pc}, s.server.handler c = some pc → c < n := fun hpc =>
    hs.accepted ▸ hs.ok.accepted_of_handler hpc
  cases hstep with
  | recv c k hrun hpc hpos hsize hk =>
    exact absurd (Or.inl ⟨_, Function.update_self ..⟩) (hrelayed c (hlt hpc))
  | lockBroadcast c buffer hrun hpc hfree =>
    refine absurd (Or.inr ⟨buffer, 0, Function.update_self .., ?_⟩) (hrelayed c (hlt hpc))
    exact hs.exists_other hn (hlt hpc)
  | iterateEnd c buffer i hrun hpc hsent hend =>
    refine ⟨hwaiting, hinbound, hinFlight, fun d hd hunrelayed => ?_⟩
    by_cases hdc : d = c
    · subst hdc
      obtain ⟨fd, hfd, -⟩ := unrelayed_broadcast hpc hunrelayed
      rw [List.drop_eq_nil_of_le (List.getElem?_eq_none_iff.mp hend)] at hfd
      cases hfd
    · exact hrelayed d hd (unrelayed_other hunrelayed hdc rfl rfl rfl)
  | iterateSelf c buffer i hrun hpc hsent hfd =>
    refine ⟨hwaiting, hinbound, hinFlight, fun d hd hunrelayed => ?_⟩
    by_cases hdc : d = c
    · subst hdc
      obtain ⟨fd, hmem, hother⟩ := unrelayed_broadcast hpc hunrelayed
      obtain ⟨hi, hget⟩ := List.getElem?_eq_some_iff.mp hfd
      rw [List.drop_eq_getElem_cons hi, hget, List.mem_cons] at hmem
      refine hrelayed d hd (Or.inr ⟨buffer, i + 1, Function.update_self .., fd, ?_, hother⟩)
      exact hmem.resolve_left hother
    · exact hrelayed d hd (unrelayed_other hunrelayed hdc rfl rfl rfl)
  | iterateSend c buffer i fd hrun hpc hsent hfd hother =>
    exfalso
    obtain ⟨d, hd, -, htable⟩ := hs.receiver hfd
    have hsend : s.server.send latencyRelay fd buffer = _ := TCPS.send_up htable (hs.links d hd)
    have hread := hs.reads d hd
    have hpos := List.length_pos_iff.mpr (hs.held c buffer (Or.inr ⟨i, hpc⟩))
    have hempty := hinFlight d hd
    simp only [hsend, Session.inFlight, TCPS.Server.setHandler_stream,
      TCPS.Server.setHandler_read, Function.update_self, List.drop_eq_nil_iff,
      List.length_append] at hempty
    omega
  | _ => cases hregular

theorem waiting_setPlayer {c d : Nat} {pc : ReceiveAndPlay} :
    (s.setPlayer c pc).Waiting d ↔ s.Waiting d := by
  simp only [Session.Waiting, setPlayer_sender]

theorem stuck_setPlayer {c : Nat} {pc : ReceiveAndPlay} (h : (s.setPlayer c pc).Stuck n) :
    s.Stuck n :=
  ⟨fun d hd => waiting_setPlayer.mp (h.waiting d hd), h.inbound, h.inFlight, h.relayed⟩

theorem not_drains (ha : ∀ c k, a ≠ .client c (.recv k)) : ¬s.Drains n a := by
  rintro ⟨c, k, rfl, -⟩
  exact ha c k rfl

/-- The clients come to a standstill by one kind of step only. -/
theorem stuck_step (hn : 2 ≤ n) (hs : s.Flowing n) (hgood : ¬s.Stuck n) (hstep : Step s a next) :
    next.Stuck n ↔ s.Drains n a := by
  have hset : ∀ {c pc} {other : Session}, c < s.server.accepted →
      (∀ timestamp, pc ≠ .recv timestamp) → ¬(other.setSender c pc).Stuck n := by
    intro c pc other hc hne
    apply not_stuck_of_sender (hs.accepted ▸ hc)
    rw [setSender_sender, if_pos rfl]
    exact hne
  cases hstep with
  | openCapture c hc hpc =>
    exact iff_of_false (hset hc (by simp)) (not_drains (by simp))
  | capture c audio now hc hpc hframes hsize =>
    exact iff_of_false (hset hc (by simp)) (not_drains (by simp))
  | recovered c now hc hpc =>
    exact iff_of_false (hset hc (by simp)) (not_drains (by simp))
  | recvAck c k ackTime timestamp hc hpc hpos hsize hk =>
    exact iff_of_false (hset hc (by simp)) (not_drains (by simp))
  | send c packet timestamp hc hpc =>
    refine iff_of_false (fun hstuck => ?_) (not_drains (by simp))
    have hcn : c < n := hs.accepted ▸ hc
    have hempty := hstuck.inbound c hcn
    simp only [Session.afterSend, Function.update_self] at hempty
    exact hs.packets c packet timestamp hcn hpc (List.append_eq_nil_iff.mp hempty).2
  | openPlayback c hc hpc =>
    refine iff_of_false (fun hstuck => hgood ?_) (not_drains (by simp))
    exact stuck_setPlayer hstuck
  | write c buffer hc hpc =>
    refine iff_of_false (fun hstuck => hgood ?_) (not_drains (by simp))
    exact stuck_setPlayer hstuck
  | recv c k hc hpc hpos hsize hk =>
    constructor
    · rintro ⟨hwaiting, hinbound, hinFlight, hrelayed⟩
      refine ⟨c, k, rfl, fun d hd => waiting_setPlayer.mp (hwaiting d hd), hinbound, hrelayed,
        fun d hd hdc => ?_, ?_⟩
      · have hempty := hinFlight d hd
        simpa [Session.inFlight, Session.setPlayer, Session.afterRead, hdc] using hempty
      · have hempty := hinFlight c (hs.accepted ▸ hc)
        simp only [Session.inFlight, Session.setPlayer, Session.afterRead, Function.update_self,
          List.drop_eq_nil_iff] at hempty
        simp only [Session.inFlight, List.length_drop]
        omega
    · rintro ⟨e, l, hact, hwaiting, hinbound, hrelayed, hinFlight, hlength⟩
      obtain ⟨rfl, hl⟩ := Act.client.inj hact
      obtain rfl := ClientAct.recv.inj hl
      refine ⟨fun d hd => waiting_setPlayer.mpr (hwaiting d hd), hinbound, fun d hd => ?_, hrelayed⟩
      by_cases hdc : d = c
      · subst hdc
        simp only [Session.inFlight, Session.setPlayer, Session.afterRead, Function.update_self,
          List.drop_eq_nil_iff]
        simp only [Session.inFlight, List.length_drop] at hlength
        omega
      · have hempty := hinFlight d hd hdc
        simpa [Session.inFlight, Session.setPlayer, Session.afterRead, hdc] using hempty
  | server a server hregular hserver =>
    refine iff_of_false (fun hstuck => hgood ?_) (not_drains (by simp))
    exact stuck_server hn hs hregular hserver hstuck

theorem flowing_of_connected (h : s.Connected n) : s.Flowing n where
  ok := TCPS.ok_of_reaches h.reached
  accepted := h.accepted
  handlers c hc := ⟨_, h.handlers c hc, rfl⟩
  links := h.links
  reads c hc := by
    rw [(h.silent c hc).2.2]
    exact Nat.zero_le _
  held c buffer hholds := by
    by_cases hc : c < n
    · rcases hholds with hpc | ⟨i, hpc⟩ <;> cases (h.handlers c hc).symm.trans hpc
    · have hfresh := (TCPS.ok_of_reaches h.reached).fresh c (by rw [h.accepted]; omega)
      rcases hholds with hpc | ⟨i, hpc⟩ <;> cases hfresh.symm.trans hpc
  packets c packet timestamp hc hpc := by
    rw [h.clients c hc] at hpc
    cases hpc

end Steps

section Runs

variable {n : Nat} {start finish : Session} {actions : List Act}

/-- The latency clients are never stuck in exactly those runs in which no
playback thread takes the last bytes in flight while every sender waits for an
acknowledgement. -/
theorem latency_deadlock_free_iff (hn : 2 ≤ n) (hstart : start.Connected n)
    (hrun : (Session.machine.restrict Act.regular).run start actions = some finish) :
    (Session.machine.restrict Act.regular).Throughout (fun s => ¬s.Stuck n) start actions ↔
      (Session.machine.restrict Act.regular).Respects (fun s a => ¬s.Drains n a) start actions := by
  apply Machine.throughout_iff_respects (I := Session.Flowing n)
  · intro s a next hs hgood hstep
    obtain ⟨hregular, hmachine⟩ := Machine.restrict_step.mp hstep
    exact not_congr (stuck_step hn hs hgood (step_cases hregular hmachine))
  · intro s a next hs _ hstep _
    obtain ⟨hregular, hmachine⟩ := Machine.restrict_step.mp hstep
    exact flowing_step hs (step_cases hregular hmachine)
  · exact flowing_of_connected hstart
  · apply not_stuck_of_sender (c := 0) (by omega)
    rw [hstart.clients 0 (by omega)]
    simp [Client.init]
  · exact hrun

def connectRun : List TCPS.Act :=
  [.accept 4, .lockPush, .pushBack, .spawn, .accept 5, .lockPush, .pushBack, .spawn]

def twoClients : Session where
  server := ((TCPS.server latencyRelay).run Server.init connectRun).getD Server.init
  client _ := .init

theorem forall_lt_two {P : Nat → Prop} (hfirst : P 0) (hsecond : P 1) : ∀ c < 2, P c := by
  intro c hc
  rcases c with _ | _ | c
  · exact hfirst
  · exact hsecond
  · omega

theorem twoClients_connected : twoClients.Connected 2 where
  reached := ⟨connectRun, rfl⟩
  accepted := rfl
  handlers := forall_lt_two rfl rfl
  links := forall_lt_two rfl rfl
  silent := forall_lt_two ⟨rfl, rfl, rfl⟩ ⟨rfl, rfl, rfl⟩
  clients := forall_lt_two rfl rfl

def stallRun : List Act :=
  [.client 0 .openCapture, .client 0 .openPlayback, .client 1 .openCapture,
    .client 1 .openPlayback, .client 0 (.capture [1, 2, 3, 4] 0),
    .client 1 (.capture [5, 6, 7, 8] 0), .client 0 .send, .client 1 .send, .server (.recv 0 12),
    .server (.lockBroadcast 0), .server (.iterate 0), .server (.iterate 0), .server (.iterate 0),
    .server (.recv 1 12), .server (.lockBroadcast 1), .server (.iterate 1), .server (.iterate 1),
    .server (.iterate 1), .client 0 (.recv 12), .client 1 (.recv 12)]

theorem stallRun_stuck :
    ∃ s, (Session.machine.restrict Act.regular).run twoClients stallRun = some s ∧ s.Stuck 2 := by
  refine ⟨_, rfl, forall_lt_two ⟨0, rfl⟩ ⟨0, rfl⟩, forall_lt_two rfl rfl, forall_lt_two rfl rfl,
    forall_lt_two ?_ ?_⟩
  · rintro (⟨_, hpc⟩ | ⟨_, _, hpc, -⟩) <;> cases hpc
  · rintro (⟨_, hpc⟩ | ⟨_, _, hpc, -⟩) <;> cases hpc

theorem latency_deadlock_free_iff_stallRun :
    ¬(Session.machine.restrict Act.regular).Respects (fun s a => ¬s.Drains 2 a) twoClients
      stallRun := by
  intro h
  obtain ⟨s, hrun, hstuck⟩ := stallRun_stuck
  exact ((latency_deadlock_free_iff (Nat.le_refl 2) twoClients_connected hrun).mpr h).last hrun
    hstuck

/-- Two clients connect, send a block each, and wait for good. -/
theorem latency_clients_stall :
    ∃ s, (Session.machine.restrict Act.regular).Reaches twoClients s ∧
      twoClients.Connected 2 ∧ s.Stuck 2 := by
  obtain ⟨s, hrun, hstuck⟩ := stallRun_stuck
  exact ⟨s, ⟨stallRun, hrun⟩, twoClients_connected, hstuck⟩

end Runs

end MediaStream.TCPMeasure.Audio
