import MediaStream.WebRTC.SignalingServer
import MediaStream.WebRTC.Ws.Events
import MediaStream.WebRTC.Ws.RoundTrip

/-!
The process of `WebRTCServer.js` with `ws` under it: chunks of bytes come from
the clients, receivers make messages of them, the listeners relay the messages,
and senders make bytes of what is relayed. `WebRTCServer.js` listens to messages
only, so an error of a receiver is an `'error'` event that nobody handles, and it
ends the process.
-/

namespace MediaStream.WebRTC

open Lib Lib.Multicast Ws

/-- The options of `new WebSocket.Server({ port: 8080 })`. -/
def serverOptions : Options where
  isServer := true
  maxPayload := 100 * 1024 * 1024
  skipUTF8Validation := false

structure SignalingProcess where
  server : SignalingServer
  receivers : Nat → Receiver
  /-- The calls of the senders, with the connection they belong to. -/
  calls : List (Nat × SendOp)
  /-- An exception or an error event was not handled. -/
  crashed : Bool

namespace SignalingProcess

inductive Act where
  | connection
  /-- The socket of a connection hands over a chunk. -/
  | data (ws : Nat) (chunk : List UInt8)
  /-- The socket of a connection ends. -/
  | closing (ws : Nat)
  | close (ws : Nat)

def init : SignalingProcess where
  server := .init
  receivers _ := .init
  calls := []
  crashed := false

/-- `client.send(data)`, which calls the sender when the connection is open. -/
def send (p : SignalingProcess) (client : Nat) (data : Data) : Except String SignalingProcess :=
  match p.server.send client data with
  | .error e => .error e
  | .ok server =>
    .ok { p with
      server := server
      calls :=
        if p.server.readyState client = .open then
          p.calls ++ [(client, SendOp.send data.bytes (!data.isString) true none)]
        else p.calls }

def each (ws : Nat) (message : Data) (p : SignalingProcess) (client : Nat) :
    Except String SignalingProcess :=
  if client ≠ ws ∧ p.server.readyState client = .open then p.send client message else .ok p

def incoming (p : SignalingProcess) (ws : Nat) (message : Data) :
    Except String SignalingProcess :=
  p.server.clients.foldlM (each ws message) p

/-- `websocket.close(code, data)` -/
def closeWebSocket (p : SignalingProcess) (ws : Nat) (code : Option Nat) (data : List UInt8) :
    SignalingProcess :=
  if p.server.readyState ws = .open then
    let p := { p with server := p.server.setReadyState ws .closing }
    match Sender.init.close code data none with
    | .error _ => { p with crashed := true }
    | .ok _ => { p with calls := p.calls ++ [(ws, SendOp.close code data none)] }
  else p

/-- `websocket.pong(data)` -/
def pong (p : SignalingProcess) (ws : Nat) (data : List UInt8) : SignalingProcess :=
  if p.server.readyState ws = .open then
    match Sender.init.pong data none with
    | .error _ => { p with crashed := true }
    | .ok _ => { p with calls := p.calls ++ [(ws, SendOp.pong data none)] }
  else p

def emit (ws : Nat) (p : SignalingProcess) : ReceiverEvent → SignalingProcess
  | .message data _ =>
    match p.incoming ws (.buffer data) with
    | .error _ => { p with crashed := true }
    | .ok next => next
  | .ping data => p.pong ws data
  | .pong _ => p
  | .conclude code reason => p.closeWebSocket ws (if code = 1005 then none else some code) reason
  | .error e => { p.closeWebSocket ws (some e.statusCode) [] with crashed := true }
  | .thrown => { p with crashed := true }

def setReceiver (p : SignalingProcess) (ws : Nat) (receiver : Receiver) : SignalingProcess :=
  { p with receivers := Function.update p.receivers ws receiver }

def step (p : SignalingProcess) (a : Act) : Option SignalingProcess :=
  if p.crashed then none
  else
    match a with
    | .connection => (p.server.step .connection).map fun server => { p with server := server }
    | .data ws chunk =>
      if ws < p.server.connections ∧ p.server.readyState ws ≠ .closed then
        let (receiver, events) := (p.receivers ws).write serverOptions chunk
        some (events.foldl (emit ws) (p.setReceiver ws receiver))
      else none
    | .closing ws => (p.server.step (.closing ws)).map fun server => { p with server := server }
    | .close ws => (p.server.step (.close ws)).map fun server => { p with server := server }

def machine : Machine SignalingProcess Act := ⟨step⟩

def chunksOf (ws : Nat) (acts : List Act) : List (List UInt8) :=
  acts.filterMap fun a =>
    match a with
    | .data source chunk => if source = ws then some chunk else none
    | _ => none

def messages (events : List ReceiverEvent) : List Frame :=
  events.filterMap fun e =>
    match e with
    | .message data isBinary => some ⟨data, isBinary⟩
    | _ => none

@[simp] theorem messages_nil : messages [] = [] := rfl

theorem messages_append (first second : List ReceiverEvent) :
    messages (first ++ second) = messages first ++ messages second :=
  List.filterMap_append

@[simp] theorem chunksOf_nil (ws : Nat) : chunksOf ws [] = [] := rfl

theorem chunksOf_append (ws : Nat) (first second : List Act) :
    chunksOf ws (first ++ second) = chunksOf ws first ++ chunksOf ws second :=
  List.filterMap_append

section Incoming

variable {p : SignalingProcess} {ws : Nat}

def sendTo (p : SignalingProcess) (members : List Nat) (frame : Frame) : SignalingProcess :=
  { p with
    server := p.server.sendTo members frame
    calls := p.calls ++ sendAll members (.send frame.payload frame.binary true none) }

theorem sendTo_append (p : SignalingProcess) (first second : List Nat) (frame : Frame) :
    p.sendTo (first ++ second) frame = (p.sendTo first frame).sendTo second frame := by
  unfold sendTo
  rw [SignalingServer.sendTo_append]
  simp [sendAll]

theorem each_eq (message : Data) (client : Nat) :
    each ws message p client =
      .ok (p.sendTo (p.server.recipients ws [client]) ⟨message.bytes, !message.isString⟩) := by
  unfold each SignalingServer.recipients sendTo
  rw [List.filter_singleton]
  by_cases hmeant : client ≠ ws ∧ p.server.readyState client = .open
  · rw [if_pos hmeant, decide_eq_true hmeant, send, SignalingServer.send, hmeant.2]
    rfl
  · rw [if_neg hmeant, decide_eq_false hmeant]
    simp [sendAll, SignalingServer.sendTo]

/-- The listener sends the message to the others that are open, and nothing is thrown. -/
theorem foldlM_each (message : Data) (clients : List Nat) :
    clients.foldlM (each ws message) p =
      .ok (p.sendTo (p.server.recipients ws clients) ⟨message.bytes, !message.isString⟩) := by
  induction clients generalizing p with
  | nil => simp [SignalingServer.recipients, sendTo, SignalingServer.sendTo, sendAll, pure,
      Except.pure]
  | cons client rest ih =>
    rw [List.foldlM_cons, each_eq]
    apply (ih (p := p.sendTo (p.server.recipients ws [client]) _)).trans
    have hsplit : p.server.recipients ws (client :: rest) =
        p.server.recipients ws [client] ++ p.server.recipients ws rest :=
      List.filter_append [client] rest
    rw [hsplit, sendTo_append]
    rfl

theorem incoming_eq (bytes : List UInt8) :
    p.incoming ws (.buffer bytes) =
      .ok (p.sendTo (p.server.recipients ws p.server.clients) ⟨bytes, true⟩) :=
  foldlM_each (.buffer bytes) p.server.clients

end Incoming

/-- A call that writes a data or a pong frame. -/
def Plain (op : SendOp) : Prop :=
  (∃ data, op = .send data true true none ∧ data.length ≤ serverOptions.limit) ∨
    ∃ data, op = .pong data none ∧ data.length ≤ 125

/-- A call that writes a close frame. -/
def Closing (op : SendOp) : Prop :=
  ∃ code data, op = .close code data none ∧ (∀ c ∈ code, isValidStatusCode c = true) ∧
    data.length ≤ 123 ∧ isValidUTF8 data = true

def dataFrames (ops : List SendOp) : List Frame :=
  ops.filterMap fun op =>
    match op with
    | .send data binary _ _ => some ⟨data, binary⟩
    | _ => none

/-- What the sender of a client has been called for: the messages that have been relayed to it,
pongs, and a close frame at the end at most. -/
structure Called (server : SignalingServer) (calls : List (Nat × SendOp)) (client : Nat) :
    Prop where
  order : ∃ front last, received client calls = front ++ last ∧ (∀ op ∈ front, Plain op) ∧
    (last = [] ∨ ((server.readyState client = .closing ∨ server.readyState client = .closed) ∧
      ∃ op, Closing op ∧ last = [op]))
  sent : dataFrames (received client calls) = received client server.sent

/-- The server in terms of messages, and what the senders have been called for. -/
structure Core (p : SignalingProcess) (log : List Relayed) : Prop where
  run : ∃ events, SignalingServer.observed.run (.init, []) events = some (p.server, log)
  fresh : ∀ client, p.server.connections ≤ client → p.server.readyState client = .connecting
  called : ∀ client, Called p.server p.calls client

section Core

variable {p : SignalingProcess} {log : List Relayed} {ws : Nat}

theorem tracked_init : SignalingServer.Tracked .init [] := by
  refine ⟨List.nodup_nil, by simp [SignalingServer.init], ?_, fun _ => rfl⟩
  intro client hopen
  cases hopen

theorem Core.tracked (h : Core p log) : SignalingServer.Tracked p.server log := by
  obtain ⟨events, hrun⟩ := h.run
  apply Machine.run_preserves (P := fun q : SignalingServer × List Relayed =>
    SignalingServer.Tracked q.1 q.2) _ tracked_init hrun
  rintro ⟨s, seen⟩ e ⟨next, later⟩ htracked hstep
  obtain ⟨hnext, rfl⟩ := Machine.monitored_step.mp hstep
  exact SignalingServer.tracked_step htracked hnext

/-- One more step of the server. -/
theorem Core.step_run (h : Core p log) {e : Event} {next : SignalingServer}
    (hstep : p.server.step e = some next) :
    ∃ events, SignalingServer.observed.run (.init, []) events =
      some (next, SignalingServer.watch p.server e log) := by
  obtain ⟨events, hrun⟩ := h.run
  refine ⟨events ++ [e], ?_⟩
  rw [Machine.run_append, hrun]
  simp [SignalingServer.observed, SignalingServer.machine, Machine.monitored, hstep]

theorem dataFrames_append (first second : List SendOp) :
    dataFrames (first ++ second) = dataFrames first ++ dataFrames second :=
  List.filterMap_append

theorem received_singleton (client : Nat) (op : SendOp) (ws : Nat) :
    received client [(ws, op)] = if client = ws then [op] else [] := by
  by_cases h : client = ws
  · simp [received, h]
  · simp [received, h, Ne.symm h]

/-- A call for an open connection. -/
theorem Called.append {server next : SignalingServer} {calls more : List (Nat × SendOp)}
    {client : Nat} (h : Called server calls client) (hstate : server.readyState client = .open)
    (hplain : ∀ op ∈ received client more, Plain op)
    (hsent : received client next.sent =
      received client server.sent ++ dataFrames (received client more)) :
    Called next (calls ++ more) client := by
  obtain ⟨front, last, hcalls, hfront, hlast⟩ := h.order
  have hnone : last = [] := by
    rcases hlast with hnil | ⟨hclosing | hclosed, -⟩
    · exact hnil
    · cases hstate.symm.trans hclosing
    · cases hstate.symm.trans hclosed
  subst hnone
  refine ⟨⟨front ++ received client more, [], ?_, fun op hop => ?_, Or.inl rfl⟩, ?_⟩
  · rw [received_append, hcalls, List.append_nil, List.append_nil]
  · rcases List.mem_append.mp hop with hold | hnew
    · exact hfront op hold
    · exact hplain op hnew
  · rw [received_append, dataFrames_append, h.sent, hsent]

/-- Nothing happens to the client. -/
theorem Called.same {server next : SignalingServer} {calls more : List (Nat × SendOp)}
    {client : Nat} (h : Called server calls client)
    (hstate : next.readyState client = server.readyState client)
    (hnone : received client more = []) (hsent : received client next.sent =
      received client server.sent) : Called next (calls ++ more) client := by
  obtain ⟨front, last, hcalls, hfront, hlast⟩ := h.order
  refine ⟨⟨front, last, ?_, hfront, ?_⟩, ?_⟩
  · rw [received_append, hnone, List.append_nil, hcalls]
  · rw [hstate]
    exact hlast
  · rw [received_append, hnone, List.append_nil, h.sent, hsent]

/-- A message that has been received. -/
theorem Core.message (h : Core p log) (hknown : ws < p.server.connections)
    (hstate : p.server.readyState ws ≠ .closed) (data : List UInt8) (isBinary : Bool)
    (hshort : data.length ≤ serverOptions.limit) :
    Core (p.sendTo (p.server.recipients ws p.server.clients) ⟨data, true⟩)
      (log ++ [p.server.relayed ws ⟨data, isBinary⟩]) := by
  have hnodup : (p.server.recipients ws p.server.clients).Nodup :=
    h.tracked.nodup.filter _
  have hstep : p.server.step (.message ws ⟨data, isBinary⟩) =
      some (p.server.sendTo (p.server.recipients ws p.server.clients) ⟨data, true⟩) := by
    simp only [SignalingServer.step]
    rw [if_pos ⟨hknown, hstate⟩, SignalingServer.incoming_eq]
    rfl
  refine ⟨h.step_run hstep, h.fresh, fun client => ?_⟩
  have hmore : received client (sendAll (p.server.recipients ws p.server.clients)
      (SendOp.send data true true none)) =
      if client ∈ p.server.recipients ws p.server.clients then
        [.send data true true none] else [] := received_sendAll hnodup _
  have hsent : received client (p.server.sendTo (p.server.recipients ws p.server.clients)
      ⟨data, true⟩).sent = received client p.server.sent ++
      if client ∈ p.server.recipients ws p.server.clients then [⟨data, true⟩] else [] := by
    change received client (p.server.sent ++ _) = _
    rw [received_append, received_sendAll hnodup]
  by_cases hmem : client ∈ p.server.recipients ws p.server.clients
  · rw [if_pos hmem] at hmore hsent
    apply (h.called client).append ((SignalingServer.mem_recipients h.tracked).mp hmem).2
    · rw [hmore]
      intro op hop
      rw [List.mem_singleton.mp hop]
      exact Or.inl ⟨data, rfl, hshort⟩
    · rw [hmore]
      exact hsent
  · rw [if_neg hmem] at hmore hsent
    exact (h.called client).same rfl hmore (hsent.trans (List.append_nil _))

/-- A pong for an open connection. -/
theorem Core.pong (h : Core p log) (ws : Nat) {data : List UInt8} (hshort : data.length ≤ 125) :
    Core (p.pong ws data) log ∧ (p.pong ws data).server = p.server ∧
      (p.pong ws data).receivers = p.receivers ∧ (p.pong ws data).crashed = p.crashed := by
  unfold SignalingProcess.pong
  split
  · next hopen =>
    have hcall : Sender.init.pong data none = .ok (Sender.init, Sender.frame data
        { fin := true, mask := none, opcode := 0x0a, rsv1 := false }) :=
      if_neg (Nat.not_lt.mpr hshort)
    rw [hcall]
    refine ⟨⟨h.run, h.fresh, fun client => ?_⟩, rfl, rfl, rfl⟩
    have hmore := received_singleton client (.pong data none) ws
    by_cases hclient : client = ws
    · rw [if_pos hclient] at hmore
      apply (h.called client).append (hclient ▸ hopen)
      · rw [hmore]
        intro op hop
        rw [List.mem_singleton.mp hop]
        exact Or.inr ⟨data, rfl, hshort⟩
      · rw [hmore]
        exact (List.append_nil _).symm
    · rw [if_neg hclient] at hmore
      exact (h.called client).same rfl hmore rfl
  · exact ⟨h, rfl, rfl, rfl⟩

/-- A close frame for an open connection, and nothing for another. -/
theorem Core.closeWebSocket (h : Core p log) (hknown : ws < p.server.connections)
    (hstate : p.server.readyState ws ≠ .closed) {code : Option Nat} {data : List UInt8}
    (hcode : ∀ c ∈ code, isValidStatusCode c = true) (hshort : data.length ≤ 123)
    (hvalid : isValidUTF8 data = true) :
    Core (p.closeWebSocket ws code data) log ∧
      (p.closeWebSocket ws code data).server.connections = p.server.connections ∧
      (p.closeWebSocket ws code data).server.readyState ws ≠ .closed ∧
      (p.closeWebSocket ws code data).receivers = p.receivers ∧
      (p.closeWebSocket ws code data).crashed = p.crashed := by
  unfold SignalingProcess.closeWebSocket
  split
  · next hopen =>
    have hcall : ∃ bytes, Sender.init.close code data none = .ok (Sender.init, bytes) := by
      unfold Sender.close
      cases code with
      | none => exact ⟨_, rfl⟩
      | some c =>
        simp only
        rw [if_neg (not_not.mpr (hcode c rfl))]
        split
        · exact ⟨_, rfl⟩
        · rw [if_neg (Nat.not_lt.mpr hshort)]
          exact ⟨_, rfl⟩
    obtain ⟨bytes, hcall⟩ := hcall
    have hstep : p.server.step (.closing ws) = some (p.server.setReadyState ws .closing) :=
      if_pos hopen
    have hself : (p.server.setReadyState ws .closing).readyState ws = .closing :=
      Function.update_self ..
    simp only [hcall]
    refine ⟨⟨h.step_run hstep, fun client hclient => ?_, fun client => ?_⟩, rfl,
      by rw [hself]; simp, trivial, trivial⟩
    · have hother : client ≠ ws := by
        rintro rfl
        exact absurd hknown (Nat.not_lt.mpr hclient)
      exact (Function.update_of_ne hother ..).trans (h.fresh client hclient)
    · have hmore := received_singleton client (.close code data none) ws
      by_cases hclient : client = ws
      · subst hclient
        rw [if_pos rfl] at hmore
        obtain ⟨front, last, hcalls, hfront, hlast⟩ := (h.called client).order
        have hnone : last = [] := by
          rcases hlast with hnil | ⟨hclosing | hclosed, -⟩
          · exact hnil
          · cases hopen.symm.trans hclosing
          · cases hopen.symm.trans hclosed
        subst hnone
        refine ⟨⟨front, [.close code data none], ?_, hfront, Or.inr ⟨Or.inl hself, _,
          ⟨code, data, rfl, hcode, hshort, hvalid⟩, rfl⟩⟩, ?_⟩
        · rw [received_append, hcalls, List.append_nil, hmore]
        · rw [received_append, dataFrames_append, (h.called client).sent, hmore]
          exact List.append_nil _
      · rw [if_neg hclient] at hmore
        exact (h.called client).same (Function.update_of_ne hclient ..) hmore rfl
  · exact ⟨h, rfl, hstate, rfl, rfl⟩

/-- What the listeners of `ws` do with an event: a message is relayed, and an error ends the
process. -/
theorem Core.emit (h : Core p log) (hknown : ws < p.server.connections)
    (hstate : p.server.readyState ws ≠ .closed) (hrunning : p.crashed = false) {e : ReceiverEvent}
    (hlawful : e.Lawful serverOptions) :
    ∃ more, Core (p.emit ws e) (log ++ more) ∧ more.map Relayed.frame = messages [e] ∧
      (∀ r ∈ more, r.source = ws) ∧ (p.emit ws e).server.connections = p.server.connections ∧
      (p.emit ws e).server.readyState ws ≠ .closed ∧ (p.emit ws e).receivers = p.receivers ∧
      ((p.emit ws e).crashed = true ↔ ∃ error, e = .error error) := by
  cases e with
  | message data isBinary =>
    have hshort : data.length ≤ serverOptions.limit := hlawful.1.resolve_left (by decide)
    have hemit : p.emit ws (.message data isBinary) =
        p.sendTo (p.server.recipients ws p.server.clients) ⟨data, true⟩ := by
      simp only [SignalingProcess.emit, incoming_eq]
    rw [hemit]
    refine ⟨_, h.message hknown hstate data isBinary hshort, rfl, ?_, rfl, hstate, rfl, ?_⟩
    · intro r hr
      rw [List.mem_singleton.mp hr]
      rfl
    · exact iff_of_false (by rw [sendTo, hrunning]; exact Bool.false_ne_true) (by simp)
  | ping data =>
    obtain ⟨hcore, hserver, hreceivers, hcrashed⟩ := h.pong ws hlawful
    change ∃ more, Core (p.pong ws data) (log ++ more) ∧ _
    refine ⟨[], by rwa [List.append_nil], rfl, by simp, by rw [SignalingProcess.emit, hserver],
      by rwa [SignalingProcess.emit, hserver], hreceivers, ?_⟩
    rw [SignalingProcess.emit, hcrashed, hrunning]
    simp
  | pong data =>
    refine ⟨[], by rwa [List.append_nil], rfl, by simp, rfl, hstate, rfl, ?_⟩
    rw [SignalingProcess.emit, hrunning]
    simp
  | conclude code reason =>
    have hcode : ∀ c ∈ (if code = 1005 then none else some code), isValidStatusCode c = true := by
      intro c hc
      split at hc
      · cases hc
      · next hnot =>
        obtain rfl := Option.some.inj hc
        rcases hlawful with ⟨h1005, -⟩ | ⟨hvalid, -⟩
        · exact absurd h1005 hnot
        · exact hvalid
    have hreason : reason.length ≤ 123 ∧ isValidUTF8 reason = true := by
      rcases hlawful with ⟨-, rfl⟩ | ⟨-, hshort, hskip | hvalid⟩
      · exact ⟨Nat.zero_le _, rfl⟩
      · cases hskip
      · exact ⟨hshort, hvalid⟩
    obtain ⟨hcore, hconnections, hopen, hreceivers, hcrashed⟩ :=
      h.closeWebSocket hknown hstate hcode hreason.1 hreason.2
    refine ⟨[], by rw [List.append_nil]; exact hcore, rfl, by simp, hconnections, hopen, hreceivers,
      ?_⟩
    rw [SignalingProcess.emit, hcrashed, hrunning]
    simp
  | error e =>
    have hcode : ∀ c ∈ some e.statusCode, isValidStatusCode c = true := by
      intro c hc
      obtain rfl := Option.some.inj hc
      exact hlawful
    obtain ⟨hcore, hconnections, hopen, hreceivers, hcrashed⟩ :=
      h.closeWebSocket hknown hstate hcode (by simp : ([] : List UInt8).length ≤ 123) rfl
    refine ⟨[], ?_, rfl, by simp, hconnections, hopen, hreceivers, by simp [SignalingProcess.emit]⟩
    rw [List.append_nil]
    exact ⟨hcore.run, hcore.fresh, hcore.called⟩
  | thrown => exact hlawful.elim

end Core

end SignalingProcess

end MediaStream.WebRTC
