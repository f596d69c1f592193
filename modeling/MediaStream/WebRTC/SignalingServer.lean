import Mathlib.Logic.Function.Basic
import MediaStream.Lib.Machine
import MediaStream.Lib.Multicast

/-!
`WebRTCServer.js`: each message of a client is sent to the other clients whose
connection is open. The listener is given a `Buffer` for text and binary messages
alike, and `client.send(message)` without options makes a binary frame of it, so
what arrives as text leaves as binary.
-/

namespace MediaStream.WebRTC

open Lib Lib.Multicast

inductive ReadyState where
  | connecting
  | open
  | closing
  | closed
  deriving DecidableEq

/-- A data message on the wire. -/
structure Frame where
  payload : List UInt8
  binary : Bool
  deriving DecidableEq

inductive Data where
  | string (bytes : List UInt8)
  | buffer (bytes : List UInt8)

namespace Data

def bytes : Data → List UInt8
  | string bytes | buffer bytes => bytes

/-- `typeof data === 'string'` -/
def isString : Data → Bool
  | string _ => true
  | buffer _ => false

end Data

/-- Connections are numbered in the order in which they come. -/
structure SignalingServer where
  connections : Nat
  /-- `wss.clients`, in insertion order. -/
  clients : List Nat
  readyState : Nat → ReadyState
  /-- The frames that have been sent, with their receivers. -/
  sent : List (Nat × Frame)

inductive Event where
  | connection
  /-- A message of the client reaches its listener. -/
  | message (ws : Nat) (frame : Frame)
  /-- A closing handshake begins, or the socket ends. -/
  | closing (ws : Nat)
  | close (ws : Nat)

namespace SignalingServer

def init : SignalingServer where
  connections := 0
  clients := []
  readyState _ := .connecting
  sent := []

/-- `client.send(data)` -/
def send (s : SignalingServer) (client : Nat) (data : Data) : Except String SignalingServer :=
  match s.readyState client with
  | .connecting => .error "WebSocket is not open: readyState 0 (CONNECTING)"
  | .open => .ok { s with sent := s.sent ++ [(client, ⟨data.bytes, !data.isString⟩)] }
  | .closing | .closed => .ok s

def each (ws : Nat) (message : Data) (s : SignalingServer) (client : Nat) :
    Except String SignalingServer :=
  if client ≠ ws ∧ s.readyState client = .open then s.send client message else .ok s

def incoming (s : SignalingServer) (ws : Nat) (message : Data) : Except String SignalingServer :=
  s.clients.foldlM (each ws message) s

def setReadyState (s : SignalingServer) (ws : Nat) (state : ReadyState) : SignalingServer :=
  { s with readyState := Function.update s.readyState ws state }

def step (s : SignalingServer) : Event → Option SignalingServer
  | .connection =>
    some { s.setReadyState s.connections .open with
      connections := s.connections + 1
      clients := s.clients ++ [s.connections] }
  | .message ws frame =>
    if ws < s.connections ∧ s.readyState ws ≠ .closed then
      (s.incoming ws (.buffer frame.payload)).toOption
    else none
  | .closing ws => if s.readyState ws = .open then some (s.setReadyState ws .closing) else none
  | .close ws =>
    if ws < s.connections ∧ s.readyState ws ≠ .closed then
      some { s.setReadyState ws .closed with clients := s.clients.erase ws }
    else none

def machine : Machine SignalingServer Event := ⟨step⟩

end SignalingServer

/-- A message and its surroundings when it reaches the listener. -/
structure Relayed where
  source : Nat
  frame : Frame
  isOpen : Nat → Bool

def Relayed.addressed (r : Relayed) (client : Nat) : Bool := client ≠ r.source && r.isOpen client

namespace SignalingServer

def relayed (s : SignalingServer) (ws : Nat) (frame : Frame) : Relayed where
  source := ws
  frame := frame
  isOpen client := s.readyState client = .open

def watch (s : SignalingServer) (e : Event) (log : List Relayed) : List Relayed :=
  match e with
  | .message ws frame => log ++ [s.relayed ws frame]
  | _ => log

def observed : Machine (SignalingServer × List Relayed) Event := machine.monitored watch

/-- Each client has been sent the messages meant for it, each once and as it was,
and two clients have been sent those meant for both in the same order. -/
structure Relays (s : SignalingServer) (log : List Relayed) : Prop where
  sent : ∀ client, received client s.sent = (log.filter (·.addressed client)).map Relayed.frame
  order : ∀ client other, ((log.filter fun r => r.addressed client && r.addressed other).map
    Relayed.frame).Sublist (received client s.sent)

/-- No text message comes while another client is open. -/
def NoText (s : SignalingServer) : Event → Prop
  | .message ws frame =>
    frame.binary = false → ∀ client, client ≠ ws → s.readyState client ≠ .open
  | _ => True

def asBinary (r : Relayed) : Frame := { r.frame with binary := true }

structure Tracked (s : SignalingServer) (log : List Relayed) : Prop where
  nodup : s.clients.Nodup
  known : ∀ client ∈ s.clients, client < s.connections
  present : ∀ client, s.readyState client = .open → client ∈ s.clients
  sent : ∀ client, received client s.sent = (log.filter (·.addressed client)).map asBinary

section Incoming

variable {s : SignalingServer} {ws : Nat}

/-- The clients of a list that a message of `ws` is sent to. -/
def recipients (s : SignalingServer) (ws : Nat) (clients : List Nat) : List Nat :=
  clients.filter fun client => client ≠ ws ∧ s.readyState client = .open

def sendTo (s : SignalingServer) (members : List Nat) (frame : Frame) : SignalingServer :=
  { s with sent := s.sent ++ sendAll members frame }

theorem sendTo_append (s : SignalingServer) (first second : List Nat) (frame : Frame) :
    s.sendTo (first ++ second) frame = (s.sendTo first frame).sendTo second frame := by
  unfold sendTo sendAll
  rw [List.map_append, List.append_assoc]

/-- `send` is only called for open connections, so it does not throw. -/
theorem each_eq (message : Data) (client : Nat) :
    each ws message s client =
      .ok (s.sendTo (s.recipients ws [client]) ⟨message.bytes, !message.isString⟩) := by
  unfold each recipients sendTo
  rw [List.filter_singleton]
  by_cases hmeant : client ≠ ws ∧ s.readyState client = .open
  · rw [if_pos hmeant, decide_eq_true hmeant, send, hmeant.2]
    rfl
  · rw [if_neg hmeant, decide_eq_false hmeant]
    simp [sendAll]

theorem foldlM_each (message : Data) (clients : List Nat) :
    clients.foldlM (each ws message) s =
      .ok (s.sendTo (s.recipients ws clients) ⟨message.bytes, !message.isString⟩) := by
  induction clients generalizing s with
  | nil => simp [recipients, sendTo, sendAll, pure, Except.pure]
  | cons client rest ih =>
    rw [List.foldlM_cons, each_eq]
    apply (ih (s := s.sendTo (s.recipients ws [client]) _)).trans
    have hsplit : s.recipients ws (client :: rest) =
        s.recipients ws [client] ++ s.recipients ws rest := List.filter_append [client] rest
    rw [hsplit, sendTo_append]
    rfl

/-- A `Buffer` is sent as a binary message. -/
theorem incoming_eq (bytes : List UInt8) :
    s.incoming ws (.buffer bytes) =
      .ok (s.sendTo (s.recipients ws s.clients) ⟨bytes, true⟩) :=
  foldlM_each (.buffer bytes) s.clients

end Incoming

section Step

variable {s next : SignalingServer} {log : List Relayed} {e : Event}

/-- What a step can do. -/
theorem step_cases (h : s.step e = some next) :
    (e = .connection ∧ next = { s.setReadyState s.connections .open with
      connections := s.connections + 1
      clients := s.clients ++ [s.connections] }) ∨
    (∃ ws frame, e = .message ws frame ∧
      next = s.sendTo (s.recipients ws s.clients) ⟨frame.payload, true⟩) ∨
    (∃ ws, e = .closing ws ∧ s.readyState ws = .open ∧ next = s.setReadyState ws .closing) ∨
    ∃ ws, e = .close ws ∧
      next = { s.setReadyState ws .closed with clients := s.clients.erase ws } := by
  cases e with
  | connection =>
    exact Or.inl ⟨rfl, (Option.some.inj h).symm⟩
  | message ws frame =>
    simp only [step, incoming_eq, Except.toOption, Option.ite_none_right_eq_some,
      Option.some.injEq] at h
    exact Or.inr (Or.inl ⟨ws, frame, rfl, h.2.symm⟩)
  | closing ws =>
    simp only [step, Option.ite_none_right_eq_some, Option.some.injEq] at h
    exact Or.inr (Or.inr (Or.inl ⟨ws, rfl, h.1, h.2.symm⟩))
  | close ws =>
    simp only [step, Option.ite_none_right_eq_some, Option.some.injEq] at h
    exact Or.inr (Or.inr (Or.inr ⟨ws, rfl, h.2.symm⟩))

/-- Another state than `OPEN` is no way to become open. -/
theorem open_of_set {ws client : Nat} {state : ReadyState} (hstate : state ≠ .open)
    (hopen : (s.setReadyState ws state).readyState client = .open) :
    client ≠ ws ∧ s.readyState client = .open := by
  change Function.update s.readyState ws state client = .open at hopen
  by_cases hsame : client = ws
  · subst hsame
    rw [Function.update_self] at hopen
    exact absurd hopen hstate
  · rw [Function.update_of_ne hsame] at hopen
    exact ⟨hsame, hopen⟩

theorem mem_recipients (h : Tracked s log) {ws client : Nat} :
    client ∈ s.recipients ws s.clients ↔ client ≠ ws ∧ s.readyState client = .open := by
  rw [recipients, List.mem_filter, decide_eq_true_iff, and_iff_right_iff_imp]
  exact fun hmeant => h.present client hmeant.2

theorem addressed_relayed (s : SignalingServer) (ws : Nat) (frame : Frame) (client : Nat) :
    (s.relayed ws frame).addressed client = true ↔
      client ≠ ws ∧ s.readyState client = .open := by
  change (decide (client ≠ ws) && decide (s.readyState client = .open)) = true ↔ _
  rw [Bool.and_eq_true, decide_eq_true_iff, decide_eq_true_iff]

theorem tracked_message (h : Tracked s log) (ws : Nat) (frame : Frame) :
    Tracked (s.sendTo (s.recipients ws s.clients) ⟨frame.payload, true⟩)
      (watch s (.message ws frame) log) := by
  refine ⟨h.nodup, h.known, h.present, fun client => ?_⟩
  change received client (s.sent ++ _) = ((log ++ [s.relayed ws frame]).filter _).map asBinary
  have hnodup : (s.recipients ws s.clients).Nodup := h.nodup.filter _
  rw [received_append, received_sendAll hnodup, h.sent client, List.filter_append,
    List.map_append, List.filter_singleton]
  apply congrArg
  by_cases hmeant : client ≠ ws ∧ s.readyState client = .open
  · rw [if_pos ((mem_recipients h).mpr hmeant), (addressed_relayed ..).mpr hmeant]
    rfl
  · have hnot : (s.relayed ws frame).addressed client = false := by
      rw [← Bool.not_eq_true, addressed_relayed]
      exact hmeant
    rw [if_neg fun hmem => hmeant ((mem_recipients h).mp hmem), hnot]
    rfl

theorem tracked_step (h : Tracked s log) (hstep : s.step e = some next) :
    Tracked next (watch s e log) := by
  rcases step_cases hstep with ⟨rfl, rfl⟩ | ⟨ws, frame, rfl, rfl⟩ | ⟨ws, rfl, hopen, rfl⟩ |
    ⟨ws, rfl, rfl⟩
  · have hnew : s.connections ∉ s.clients := by
      intro hmem
      exact Nat.lt_irrefl _ (h.known _ hmem)
    refine ⟨?_, ?_, ?_, h.sent⟩
    · exact List.nodup_append.mpr ⟨h.nodup, List.nodup_singleton _, by grind⟩
    · intro client hclient
      rcases List.mem_append.mp hclient with hold | hlast
      · exact Nat.lt_succ_of_lt (h.known client hold)
      · exact List.mem_singleton.mp hlast ▸ Nat.lt_succ_self _
    · intro client hopen
      by_cases hlast : client = s.connections
      · exact List.mem_append_right _ (List.mem_singleton.mpr hlast)
      · apply List.mem_append_left
        apply h.present
        exact (Function.update_of_ne hlast ..).symm.trans hopen
  · exact tracked_message h ws frame
  · refine ⟨h.nodup, h.known, ?_, h.sent⟩
    intro client hclient
    exact h.present client (open_of_set (by nofun) hclient).2
  · refine ⟨h.nodup.erase ws, ?_, ?_, h.sent⟩
    · intro client hclient
      exact h.known client (List.mem_of_mem_erase hclient)
    · intro client hclient
      obtain ⟨hother, hopen⟩ := open_of_set (by nofun) hclient
      exact (List.mem_erase_of_ne hother).mpr (h.present client hopen)

/-- The kind is all that can go wrong. -/
theorem relays_iff (h : Tracked s log) :
    Relays s log ↔ ∀ r ∈ log, ∀ client, r.addressed client = true → r.frame.binary = true := by
  have hkind : ∀ r : Relayed, asBinary r = r.frame ↔ r.frame.binary = true := by
    rintro ⟨source, ⟨payload, binary⟩, isOpen⟩
    simp [asBinary, eq_comm]
  constructor
  · intro hrelays r hr client hmeant
    have hsame := (h.sent client).symm.trans (hrelays.sent client)
    exact (hkind r).mp (List.map_inj_left.mp hsame r (List.mem_filter.mpr ⟨hr, hmeant⟩))
  · intro hall
    have hsent : ∀ client, received client s.sent =
        (log.filter (·.addressed client)).map Relayed.frame := by
      intro client
      rw [h.sent client]
      apply List.map_inj_left.mpr
      intro r hr
      obtain ⟨hmem, hmeant⟩ := List.mem_filter.mp hr
      exact (hkind r).mpr (hall r hmem client hmeant)
    refine ⟨hsent, fun client other => ?_⟩
    rw [hsent client]
    apply List.Sublist.map
    have hboth : (log.filter fun r => r.addressed client && r.addressed other) =
        (log.filter (·.addressed client)).filter (·.addressed other) := by
      rw [List.filter_filter]
      apply List.filter_congr
      intro r _
      exact Bool.and_comm ..
    rw [hboth]
    exact List.filter_sublist

theorem relays_step (h : Tracked s log) (hrelays : Relays s log)
    (hstep : s.step e = some next) : Relays next (watch s e log) ↔ s.NoText e := by
  rw [relays_iff (tracked_step h hstep)]
  have hbefore := (relays_iff h).mp hrelays
  cases e with
  | message ws frame =>
    constructor
    · intro hall htext client hother hopen
      have hbinary := hall (s.relayed ws frame) (List.mem_append_right _ List.mem_cons_self) client
        ((addressed_relayed ..).mpr ⟨hother, hopen⟩)
      exact Bool.false_ne_true (htext.symm.trans hbinary)
    · intro hnone r hr client hmeant
      rcases List.mem_append.mp hr with hold | hlast
      · exact hbefore r hold client hmeant
      · obtain rfl := List.mem_singleton.mp hlast
        obtain ⟨hother, hopen⟩ := (addressed_relayed ..).mp hmeant
        by_contra hkind
        exact hnone ((Bool.not_eq_true _).mp hkind) client hother hopen
  | _ => exact iff_of_true hbefore trivial

end Step

/-- In every state of a run each client has been sent the messages of the others
that came while it was open, once, in order and unchanged, exactly when no text
message has come while another client was open. -/
theorem relays_iff_noText {events : List Event} {finish : SignalingServer × List Relayed}
    (hrun : observed.run (init, []) events = some finish) :
    observed.Throughout (fun p => Relays p.1 p.2) (init, []) events ↔
      observed.Respects (fun p e => p.1.NoText e) (init, []) events := by
  have hstart : Tracked init [] := by
    refine ⟨List.nodup_nil, nofun, ?_, fun _ => rfl⟩
    intro client hopen
    cases hopen
  have hgood : Relays init [] := (relays_iff hstart).mpr nofun
  apply Machine.throughout_iff_respects (Q := fun p : SignalingServer × List Relayed =>
    Relays p.1 p.2) (I := fun p => Tracked p.1 p.2) _ _ hstart hgood hrun
  · rintro ⟨s, log⟩ e ⟨next, later⟩ htracked hrelays hstep
    obtain ⟨hnext, rfl⟩ := Machine.monitored_step.mp hstep
    exact relays_step htracked hrelays hnext
  · rintro ⟨s, log⟩ e ⟨next, later⟩ htracked _ hstep _
    obtain ⟨hnext, rfl⟩ := Machine.monitored_step.mp hstep
    exact tracked_step htracked hnext

section Text

/-! Two clients, and a text message of the first one. -/

def textRun : List Event := [.connection, .connection, .message 0 ⟨[104, 105], false⟩]

theorem run_textRun : ∃ s, observed.run (init, []) textRun = some s ∧
    received 1 s.1.sent = [⟨[104, 105], true⟩] ∧
    ((s.2.filter (·.addressed 1)).map Relayed.frame) = [⟨[104, 105], false⟩] :=
  ⟨_, rfl, rfl, rfl⟩

theorem relays_iff_noText_textRun :
    observed.Throughout (fun p => Relays p.1 p.2) (init, []) textRun ↔
      observed.Respects (fun p e => p.1.NoText e) (init, []) textRun := by
  obtain ⟨s, hrun, -⟩ := run_textRun
  exact relays_iff_noText hrun

/-- The text arrives as a binary message. -/
theorem text_becomes_binary :
    ∃ p, observed.Reaches (init, []) p ∧ received 1 p.1.sent = [⟨[104, 105], true⟩] ∧
      ¬Relays p.1 p.2 := by
  obtain ⟨p, hrun, hreceived, hmeant⟩ := run_textRun
  refine ⟨p, ⟨textRun, hrun⟩, hreceived, ?_⟩
  intro hrelays
  have hsame := hrelays.sent 1
  rw [hreceived, hmeant] at hsame
  cases hsame

end Text

end SignalingServer

end MediaStream.WebRTC
