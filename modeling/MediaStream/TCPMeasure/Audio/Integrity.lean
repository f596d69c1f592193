import MediaStream.TCPMeasure.Audio.Stall
import MediaStream.TCPS.Broadcast

/-!
What two latency clients play. The server relays to each client the bytes of
the other one in order, but they are packets, and the two threads that receive
them know nothing of packets: the one that waits for acknowledgements takes
eight bytes, the one that plays takes what there is, plays the whole frames of
it and drops the rest.
-/

namespace MediaStream.TCPMeasure.Audio

open Lib
open TCPS (Server Chunk latencyRelay Ok)

/-- A byte of a packet, and whether it belongs to the audio behind the
timestamp. -/
structure Mark where
  byte : UInt8
  audio : Bool
  deriving DecidableEq

/-- The bytes of a packet with their roles. -/
def marks (packet : Chunk) : List Mark :=
  (packet.take timestampSize).map (Mark.mk · false) ++
    (packet.drop timestampSize).map (Mark.mk · true)

def other (c : Nat) : Nat := 1 - c

structure Recording where
  /-- The audio `snd_pcm_readi` has returned. -/
  captured : Nat → Chunk
  /-- The bytes of the packets that have been sent. -/
  sent : Nat → List Mark
  /-- The bytes `snd_pcm_writei` has been or is about to be called with. -/
  played : Nat → List Mark
  /-- The bytes `snd_pcm_writei` has been called with. -/
  written : Nat → Chunk

namespace Recording

def empty : Recording where
  captured _ := []
  sent _ := []
  played _ := []
  written _ := []

/-- The next `n` bytes that the threads of `c` receive. -/
def upcoming (s : Session) (h : Recording) (c n : Nat) : List Mark :=
  ((h.sent (other c)).drop (s.server.read c)).take n

def watch (s : Session) (a : Act) (h : Recording) : Recording :=
  match a with
  | .client c (.capture audio _) =>
    { h with captured := Function.update h.captured c (h.captured c ++ audio) }
  | .client c .send =>
    match (s.client c).sender with
    | .send packet _ => { h with sent := Function.update h.sent c (h.sent c ++ marks packet) }
    | _ => h
  | .client c (.recv n) =>
    { h with
      played := Function.update h.played c
        (h.played c ++ (h.upcoming s c n).take (n / frameBytes * frameBytes)) }
  | .client c .write =>
    match (s.client c).player with
    | .write buffer =>
      { h with written := Function.update h.written c (h.written c ++ playedBytes buffer) }
    | _ => h
  | _ => h

end Recording

def recorded : Machine (Session × Recording) Act :=
  (Session.machine.restrict Act.regular).monitored Recording.watch

/-- What `b` has played is a prefix of what the other client has captured, and
it is all the audio among the bytes that the threads of `b` have received. -/
def Intact (b : Nat) (p : Session × Recording) : Prop :=
  p.2.written b <+: p.2.captured (other b) ∧
    p.2.played b = ((p.2.sent (other b)).take (p.1.server.read b)).filter Mark.audio

/-- An acknowledgement of `b` consists of timestamp bytes, and what its playback
thread receives is audio up to the last whole frame, and no audio behind it. -/
def Separates (b : Nat) (p : Session × Recording) (a : Act) : Prop :=
  match a with
  | .client c (.recvAck n _) => c = b → ∀ mark ∈ p.2.upcoming p.1 b n, mark.audio = false
  | .client c (.recv n) => c = b →
    (∀ mark ∈ (p.2.upcoming p.1 b n).take (n / frameBytes * frameBytes), mark.audio = true) ∧
      ∀ mark ∈ (p.2.upcoming p.1 b n).drop (n / frameBytes * frameBytes), mark.audio = false
  | _ => True

section Lists

variable {α : Type*} (p : α → Bool) (l : List α)

theorem filter_take_add (k n : Nat) :
    (l.take (k + n)).filter p = (l.take k).filter p ++ ((l.drop k).take n).filter p := by
  rw [List.take_add, List.filter_append]

/-- A prefix is all that passes a test when it passes and nothing behind it does. -/
theorem take_eq_filter_iff (m : Nat) :
    l.take m = l.filter p ↔ (∀ x ∈ l.take m, p x = true) ∧ ∀ x ∈ l.drop m, p x = false := by
  have hsplit : l.filter p = (l.take m).filter p ++ (l.drop m).filter p := by
    rw [← List.filter_append, List.take_append_drop]
  constructor
  · intro h
    have hall : ∀ x ∈ l.take m, p x = true := by
      intro x hx
      rw [h] at hx
      exact (List.mem_filter.mp hx).2
    refine ⟨hall, fun x hx => ?_⟩
    rw [hsplit, List.filter_eq_self.mpr hall, List.self_eq_append_right] at h
    have hnot := List.filter_eq_nil_iff.mp h x hx
    simpa using hnot
  · rintro ⟨hfront, hback⟩
    have hnone : (l.drop m).filter p = [] := by
      apply List.filter_eq_nil_iff.mpr
      intro x hx
      simp [hback x hx]
    rw [hsplit, List.filter_eq_self.mpr hfront, hnone, List.append_nil]

end Lists

def held (server : Server) (a b : Nat) : Chunk :=
  match server.handler a with
  | some (.lockBroadcast buffer) => buffer
  | some (.broadcast buffer i) =>
    if ((server.clients.drop i).map server.table).contains (some b) then buffer else []
  | _ => []

/-- What `a` has sent: relayed to `b`, held by the handler, or not received. -/
def carried (server : Server) (a b : Nat) : Chunk :=
  server.stream b ++ held server a b ++ server.inbound a

section Relay

variable {s : Session} {server : Server} {a : TCPS.Act} {c d : Nat}

theorem held_remaining {clients : List TCPS.Fd} {table : TCPS.Fd → Option Nat} {buffer : Chunk}
    {i : Nat} (hpc : server.handler c = some (.broadcast buffer i))
    (hclients : server.clients = clients) (htable : server.table = table)
    (hin : some d ∈ (clients.drop i).map table) : held server c d = buffer := by
  subst hclients htable
  simp only [held, hpc, List.contains_iff_mem.mpr hin, if_true]

theorem held_passed {clients : List TCPS.Fd} {table : TCPS.Fd → Option Nat} {buffer : Chunk}
    {i : Nat} (hpc : server.handler c = some (.broadcast buffer i))
    (hclients : server.clients = clients) (htable : server.table = table)
    (hout : some d ∉ (clients.drop i).map table) : held server c d = [] := by
  subst hclients htable
  simp only [held, hpc, List.contains_iff_mem, if_neg hout]

theorem carried_other {pc : TCPS.HandleC} {e : Nat} (hce : c ≠ e)
    (hhandler : server.handler = Function.update s.server.handler e (some pc))
    (hclients : server.clients = s.server.clients) (htable : server.table = s.server.table)
    (hstream : server.stream d = s.server.stream d)
    (hinbound : server.inbound c = s.server.inbound c) :
    carried server c d = carried s.server c d := by
  unfold carried held
  rw [hhandler, hclients, htable, hstream, hinbound, Function.update_of_ne hce]

/-- The server neither loses nor invents bytes on the way from `c` to `d`, nor
mixes others into them. -/
theorem carried_step (hs : s.Flowing 2) (hc : c < 2) (hd : d < 2) (hcd : c ≠ d)
    (hregular : (Act.server a).regular = true)
    (hstep : TCPS.Step latencyRelay s.server a server) :
    carried server c d = carried s.server c d := by
  have hregistered : s.server.Registered d := by
    obtain ⟨pc, hpc, hrelaying⟩ := hs.handlers d hd
    refine Or.inr ⟨pc, hpc, ?_⟩
    cases pc <;> first | rfl | cases hrelaying
  cases hstep with
  | recv e k hrun hpc hpos hsize hk =>
    by_cases hce : c = e
    · subst hce
      simp [carried, held, hpc]
    · exact carried_other hce rfl rfl rfl rfl (Function.update_of_ne hce _ _)
  | lockBroadcast e buffer hrun hpc hfree =>
    by_cases hce : c = e
    · subst hce
      have hmem := (TCPS.mem_table_clients hs.ok).mpr hregistered
      simp only [carried, held, hpc, TCPS.Server.setHandler_handler, Function.update_self,
        List.drop_zero, TCPS.Server.setHandler_clients, TCPS.Server.setHandler_table,
        List.contains_iff_mem.mpr hmem, if_true, TCPS.Server.setHandler_stream,
        TCPS.Server.setHandler_inbound]
    · exact carried_other hce rfl rfl rfl rfl rfl
  | iterateEnd e buffer i hrun hpc hsent hend =>
    by_cases hce : c = e
    · subst hce
      have hempty := List.drop_eq_nil_of_le (List.getElem?_eq_none_iff.mp hend)
      simp [carried, held, hpc, hempty]
    · exact carried_other hce rfl rfl rfl rfl rfl
  | iterateSelf e buffer i hrun hpc hsent hfd =>
    by_cases hce : c = e
    · subst hce
      have htable := (TCPS.table_of_mem hs.ok (List.mem_of_getElem? hfd)).mpr
        ⟨Or.inr ⟨_, hpc, rfl⟩, rfl⟩
      have hrest := TCPS.mem_remaining (c := d) hfd htable
      rw [or_iff_right hcd.symm] at hrest
      have hself := s.server.setHandler_self c (.broadcast buffer (i + 1))
      unfold carried
      by_cases hin : some d ∈ (s.server.clients.drop (i + 1)).map s.server.table
      · rw [held_remaining hself rfl rfl hin, held_remaining hpc rfl rfl (hrest.mpr hin)]
        rfl
      · rw [held_passed hself rfl rfl hin, held_passed hpc rfl rfl (mt hrest.mp hin)]
        rfl
    · exact carried_other hce rfl rfl rfl rfl rfl
  | iterateSend e buffer i fd hrun hpc hsent hfd hother =>
    obtain ⟨target, htarget, hsock, htable⟩ := hs.receiver hfd
    have hsend : s.server.send latencyRelay fd buffer = _ :=
      TCPS.send_up htable (hs.links target htarget)
    have hne : target ≠ e := by
      rintro rfl
      exact hother hsock.symm
    have hclients : (s.server.send latencyRelay fd buffer).clients = s.server.clients := by
      rw [hsend]
    have hnumbers : (s.server.send latencyRelay fd buffer).table = s.server.table := by
      rw [hsend]
    have he : e < 2 := hs.accepted ▸ hs.ok.accepted_of_handler hpc
    by_cases hce : c = e
    · subst hce
      obtain rfl : target = d := by omega
      have hrest := (TCPS.mem_remaining (c := target) hfd htable).mpr (Or.inl rfl)
      have hpassed := TCPS.target_passed hs.ok hfd htable
      unfold carried
      rw [held_passed (TCPS.Server.setHandler_self _ _ _) hclients hnumbers hpassed,
        held_remaining hpc rfl rfl hrest, List.append_nil, hsend]
      simp
    · obtain rfl : target = c := by omega
      rw [hsend]
      exact carried_other hce rfl rfl rfl (Function.update_of_ne hcd.symm _ _) rfl
  | _ => cases hregular

theorem carried_send (packet : Chunk) (timestamp : Int) :
    carried (s.afterSend c packet timestamp).server c d = carried s.server c d ++ packet := by
  have hheld : held (s.afterSend c packet timestamp).server c d = held s.server c d := rfl
  unfold carried
  rw [hheld]
  simp [Session.afterSend]

theorem carried_send_other {e : Nat} (hce : c ≠ e) (packet : Chunk) (timestamp : Int) :
    carried (s.afterSend e packet timestamp).server c d = carried s.server c d := by
  have hheld : held (s.afterSend e packet timestamp).server c d = held s.server c d := rfl
  unfold carried
  rw [hheld]
  simp [Session.afterSend, hce]

end Relay

def unsent : SendAudio → Chunk
  | .send packet _ => packet.drop timestampSize
  | _ => []

def unwritten : ReceiveAndPlay → Chunk
  | .write buffer => playedBytes buffer
  | _ => []

/-- What ties the recording to the state, for the way to `b`. -/
structure Recorded (b : Nat) (s : Session) (h : Recording) : Prop where
  flowing : s.Flowing 2
  captured : h.captured (other b) =
    ((h.sent (other b)).filter Mark.audio).map Mark.byte ++ unsent (s.client (other b)).sender
  relayed : (h.sent (other b)).map Mark.byte = carried s.server (other b) b
  played : h.written b ++ unwritten (s.client b).player = (h.played b).map Mark.byte

theorem marks_bytes (packet : Chunk) : (marks packet).map Mark.byte = packet := by
  have hrole : ∀ (role : Bool) (bytes : Chunk),
      (bytes.map (Mark.mk · role)).map Mark.byte = bytes := by
    intro role bytes
    rw [List.map_map]
    exact List.map_id _
  rw [marks, List.map_append, hrole, hrole, List.take_append_drop]

theorem marks_audio (packet : Chunk) :
    ((marks packet).filter Mark.audio).map Mark.byte = packet.drop timestampSize := by
  have hstamp : ((packet.take timestampSize).map (Mark.mk · false)).filter Mark.audio = [] := by
    rw [List.filter_map]
    simp [Function.comp_def]
  have haudio : ((packet.drop timestampSize).map (Mark.mk · true)).filter Mark.audio =
      (packet.drop timestampSize).map (Mark.mk · true) := by
    rw [List.filter_map]
    simp [Function.comp_def]
  rw [marks, List.filter_append, hstamp, haudio, List.nil_append, List.map_map]
  exact List.map_id _

section Steps

variable {b : Nat} {s next : Session} {h : Recording} {a : Act}

theorem setPlayer_player (s : Session) (c d : Nat) (pc : ReceiveAndPlay) :
    ((s.setPlayer c pc).client d).player = if d = c then pc else (s.client d).player := by
  by_cases hdc : d = c
  · simp [Session.setPlayer, hdc]
  · simp [Session.setPlayer, hdc]

theorem setSender_player (s : Session) (c d : Nat) (pc : SendAudio) :
    ((s.setSender c pc).client d).player = (s.client d).player := by
  by_cases hdc : d = c
  · simp [Session.setSender, hdc]
  · simp [Session.setSender, hdc]

theorem afterSend_player (s : Session) (c d : Nat) (packet : Chunk) (timestamp : Int) :
    ((s.afterSend c packet timestamp).client d).player = (s.client d).player := by
  by_cases hdc : d = c
  · simp [Session.afterSend, hdc]
  · simp [Session.afterSend, hdc]

theorem captured_step (hr : Recorded b s h) (hstep : Step s a next) :
    (h.watch s a).captured (other b) =
      (((h.watch s a).sent (other b)).filter Mark.audio).map Mark.byte ++
        unsent (next.client (other b)).sender := by
  have hold := hr.captured
  cases hstep with
  | openCapture c hc hpc =>
    rw [setSender_sender]
    split
    · next hcb =>
      rw [hcb, hpc] at hold
      rw [hcb]
      exact hold
    · exact hold
  | capture c audio now hc hpc hframes hsize =>
    rw [setSender_sender]
    split
    · next hcb =>
      rw [hcb, hpc] at hold
      rw [hcb]
      simp only [Recording.watch, Function.update_self, hold, unsent, List.append_nil]
      rw [List.drop_left' (length_msTimestamp now)]
    · next hcb =>
      simp only [Recording.watch, Function.update_of_ne hcb]
      exact hold
  | recovered c now hc hpc =>
    rw [setSender_sender]
    split
    · next hcb =>
      rw [hcb, hpc] at hold
      rw [hcb]
      have hempty : (msTimestamp now).drop timestampSize = [] :=
        List.drop_eq_nil_of_le (Nat.le_of_eq (length_msTimestamp now))
      simp only [Recording.watch, hold, unsent, hempty]
    · exact hold
  | send c packet timestamp hc hpc =>
    rw [afterSend_sender]
    split
    · next hcb =>
      rw [hcb, hpc] at hold
      rw [hcb]
      simp only [Recording.watch, hpc, Function.update_self, hold, unsent, List.filter_append,
        List.map_append, marks_audio, List.append_nil]
    · next hcb =>
      simp only [Recording.watch, hpc, Function.update_of_ne hcb]
      exact hold
  | recvAck c k ackTime timestamp hc hpc hpos hsize hk =>
    rw [setSender_sender]
    split
    · next hcb =>
      rw [hcb, hpc] at hold
      rw [hcb]
      exact hold
    · exact hold
  | openPlayback c hc hpc | recv c k hc hpc hpos hsize hk =>
    rw [setPlayer_sender]
    exact hold
  | write c buffer hc hpc =>
    rw [setPlayer_sender]
    simp only [Recording.watch, hpc]
    exact hold
  | server a server hregular hserver => cases a <;> exact hold

/-- The bytes a thread of `b` receives next are the next bytes of its stream. -/
theorem upcoming_bytes (hr : Recorded b s h) {k : Nat}
    (hk : s.server.read b + k ≤ (s.server.stream b).length) :
    (h.upcoming s b k).map Mark.byte = (s.inFlight b).take k := by
  rw [Recording.upcoming, List.map_take, List.map_drop, hr.relayed, carried, List.append_assoc,
    List.drop_append_of_le_length (by omega), List.take_append_of_le_length]
  · rfl
  · rw [List.length_drop]
    omega

theorem relayed_step (hb : b < 2) (hr : Recorded b s h) (hstep : Step s a next) :
    ((h.watch s a).sent (other b)).map Mark.byte = carried next.server (other b) b := by
  have hold := hr.relayed
  have hother : other b < 2 ∧ other b ≠ b := by
    unfold other
    omega
  cases hstep with
  | send c packet timestamp hc hpc =>
    by_cases hcb : other b = c
    · subst hcb
      rw [carried_send]
      simp only [Recording.watch, hpc, Function.update_self, List.map_append, marks_bytes, hold]
    · rw [carried_send_other hcb]
      simp only [Recording.watch, hpc, Function.update_of_ne hcb]
      exact hold
  | server a server hregular hserver =>
    have hkept := carried_step hr.flowing hother.1 hb hother.2 hregular hserver
    rw [hkept, ← hold]
    cases a <;> rfl
  | write c buffer hc hpc =>
    simp only [Recording.watch, hpc]
    exact hold
  | _ => exact hold

theorem played_step (hr : Recorded b s h) (hstep : Step s a next) :
    (h.watch s a).written b ++ unwritten (next.client b).player =
      ((h.watch s a).played b).map Mark.byte := by
  have hold := hr.played
  cases hstep with
  | recv c k hc hpc hpos hsize hk =>
    rw [setPlayer_player]
    split
    · next hcb =>
      subst hcb
      rw [hpc] at hold
      have hlength : ((s.inFlight b).take k).length = k := by
        rw [List.length_take, Session.inFlight, List.length_drop]
        omega
      simp only [unwritten, List.append_nil] at hold
      simp only [Recording.watch, Function.update_self, List.map_append, List.map_take,
        upcoming_bytes hr hk, ← hold, unwritten, playedBytes, hlength]
    · next hcb =>
      simp only [Recording.watch, Function.update_of_ne hcb]
      exact hold
  | write c buffer hc hpc =>
    rw [setPlayer_player]
    split
    · next hcb =>
      subst hcb
      rw [hpc] at hold
      simp only [Recording.watch, hpc, Function.update_self, unwritten, List.append_nil]
      exact hold
    · next hcb =>
      simp only [Recording.watch, hpc, Function.update_of_ne hcb]
      exact hold
  | openPlayback c hc hpc =>
    rw [setPlayer_player]
    split
    · next hcb =>
      subst hcb
      rw [hpc] at hold
      exact hold
    · exact hold
  | openCapture c hc hpc | capture c audio now hc hpc hframes hsize
  | recovered c now hc hpc | recvAck c k ackTime timestamp hc hpc hpos hsize hk =>
    rw [setSender_player]
    exact hold
  | send c packet timestamp hc hpc =>
    rw [afterSend_player]
    simp only [Recording.watch, hpc]
    exact hold
  | server a server hregular hserver => cases a <;> exact hold

theorem recorded_step (hb : b < 2) (hr : Recorded b s h) (hstep : Step s a next) :
    Recorded b next (h.watch s a) where
  flowing := flowing_step hr.flowing hstep
  captured := captured_step hr hstep
  relayed := relayed_step hb hr hstep
  played := played_step hr hstep

/-- What has been received came from what has been sent. -/
theorem read_le_sent (hb : b < 2) (hr : Recorded b s h) :
    s.server.read b ≤ (h.sent (other b)).length := by
  have hread := hr.flowing.reads b hb
  have hlength := congrArg List.length hr.relayed
  simp only [List.length_map, carried, List.length_append] at hlength
  omega

/-- Playing all the received audio and nothing else is playing a prefix. -/
theorem intact_iff (hr : Recorded b s h) :
    Intact b (s, h) ↔
      h.played b = ((h.sent (other b)).take (s.server.read b)).filter Mark.audio := by
  constructor
  · exact fun hintact => hintact.2
  · intro hplayed
    refine ⟨?_, hplayed⟩
    have hwritten : h.written b <+: (h.played b).map Mark.byte := ⟨_, hr.played⟩
    have hreceived : (h.played b).map Mark.byte <+:
        ((h.sent (other b)).filter Mark.audio).map Mark.byte := by
      rw [hplayed]
      exact ((List.take_prefix _ _).filter _).map _
    have hcaptured : ((h.sent (other b)).filter Mark.audio).map Mark.byte <+:
        h.captured (other b) := ⟨_, hr.captured.symm⟩
    exact hwritten.trans (hreceived.trans hcaptured)

theorem filter_eq_nil_iff_false (l : List Mark) :
    l.filter Mark.audio = [] ↔ ∀ mark ∈ l, mark.audio = false := by
  simp [List.filter_eq_nil_iff]

theorem read_server {a : TCPS.Act} {server : Server} (hregular : (Act.server a).regular = true)
    (hstep : TCPS.Step latencyRelay s.server a server) : server.read = s.server.read := by
  cases hstep with
  | recv | lockBroadcast | iterateEnd | iterateSelf => rfl
  | iterateSend c buffer i fd =>
    obtain ⟨stream, running, hsend⟩ := TCPS.send_frame latencyRelay s.server fd buffer
    rw [hsend]
    rfl
  | _ => cases hregular

/-- The audio that is played stays all the audio that is received. -/
theorem separates_step (hb : b < 2) (hr : Recorded b s h)
    (hplayed : h.played b = ((h.sent (other b)).take (s.server.read b)).filter Mark.audio)
    (hstep : Step s a next) :
    (h.watch s a).played b =
      (((h.watch s a).sent (other b)).take (next.server.read b)).filter Mark.audio ↔
        Separates b (s, h) a := by
  cases hstep with
  | openCapture | capture | recovered | openPlayback => exact iff_of_true hplayed trivial
  | write c buffer hc hpc =>
    simp only [Recording.watch, hpc]
    exact iff_of_true hplayed trivial
  | server a server hregular hserver =>
    refine iff_of_true ?_ trivial
    simp only [read_server hregular hserver]
    cases a <;> exact hplayed
  | send c packet timestamp hc hpc =>
    refine iff_of_true ?_ trivial
    simp only [Recording.watch, hpc]
    by_cases hcb : other b = c
    · subst hcb
      rw [Function.update_self]
      change h.played b = List.filter _ (List.take (s.server.read b) _)
      rw [List.take_append_of_le_length (read_le_sent hb hr)]
      exact hplayed
    · rw [Function.update_of_ne hcb]
      exact hplayed
  | recvAck c k ackTime timestamp hc hpc hpos hsize hk =>
    by_cases hcb : c = b
    · subst hcb
      simp only [Recording.watch, Session.setSender, Session.afterRead, Function.update_self,
        filter_take_add, Separates, forall_const]
      rw [hplayed, List.self_eq_append_right, ← filter_eq_nil_iff_false]
      rfl
    · refine iff_of_true ?_ fun hsame => absurd hsame hcb
      simp only [Recording.watch, Session.setSender, Session.afterRead,
        Function.update_of_ne (Ne.symm hcb)]
      exact hplayed
  | recv c k hc hpc hpos hsize hk =>
    by_cases hcb : c = b
    · subst hcb
      simp only [Recording.watch, Session.setPlayer, Session.afterRead, Function.update_self,
        filter_take_add, Separates, forall_const]
      rw [hplayed, List.append_cancel_left_eq, ← take_eq_filter_iff]
      rfl
    · refine iff_of_true ?_ fun hsame => absurd hsame hcb
      simp only [Recording.watch, Session.setPlayer, Session.afterRead,
        Function.update_of_ne (Ne.symm hcb)]
      exact hplayed

end Steps

section Runs

variable {b : Nat} {start : Session} {finish : Session × Recording} {actions : List Act}

theorem recorded_of_connected (hstart : start.Connected 2) (hb : b < 2) :
    Recorded b start .empty := by
  have hother : other b < 2 := by
    unfold other
    omega
  obtain ⟨hinbound, -, -⟩ := hstart.silent _ hother
  obtain ⟨-, hstream, -⟩ := hstart.silent b hb
  constructor
  case flowing => exact flowing_of_connected hstart
  case captured =>
    rw [hstart.clients _ hother]
    rfl
  case relayed => simp [Recording.empty, carried, held, hinbound, hstream, hstart.handlers _ hother]
  case played =>
    rw [hstart.clients b hb]
    rfl

/-- What a client plays is what the other one has captured, in exactly those
runs in which its acknowledgements are timestamp bytes and its playback thread
receives whole frames of audio. -/
theorem playback_intact_iff (hstart : start.Connected 2) (hb : b < 2)
    (hrun : recorded.run (start, .empty) actions = some finish) :
    recorded.Throughout (Intact b) (start, .empty) actions ↔
      recorded.Respects (Separates b) (start, .empty) actions := by
  apply Machine.throughout_iff_respects (I := fun p => Recorded b p.1 p.2)
  · rintro ⟨s, h⟩ a ⟨next, after⟩ hr hintact hstep
    obtain ⟨hsession, hwatch⟩ := Machine.monitored_step.mp hstep
    obtain ⟨hregular, hmachine⟩ := Machine.restrict_step.mp hsession
    simp only at hr hwatch hmachine
    subst hwatch
    have hcases := step_cases hregular hmachine
    rw [intact_iff (recorded_step hb hr hcases)]
    exact separates_step hb hr ((intact_iff hr).mp hintact) hcases
  · rintro ⟨s, h⟩ a ⟨next, after⟩ hr - hstep -
    obtain ⟨hsession, hwatch⟩ := Machine.monitored_step.mp hstep
    obtain ⟨hregular, hmachine⟩ := Machine.restrict_step.mp hsession
    exact hwatch ▸ recorded_step hb hr (step_cases hregular hmachine)
  · exact recorded_of_connected hstart hb
  · rw [intact_iff (recorded_of_connected hstart hb)]
    simp [Recording.empty]
  · exact hrun

/-- The first client sends one block, and the playback thread of the second one
receives the packet as a whole. -/
def packetRun : List Act :=
  [.client 1 .openPlayback, .client 0 .openCapture, .client 0 (.capture [1, 2, 3, 4] 0),
    .client 0 .send, .server (.recv 0 12), .server (.lockBroadcast 0), .server (.iterate 0),
    .server (.iterate 0), .server (.iterate 0), .client 1 (.recv 12), .client 1 .write]

theorem packetRun_not_intact :
    ∃ p, recorded.run (twoClients, .empty) packetRun = some p ∧ p.2.captured 0 = [1, 2, 3, 4] ∧
      p.2.written 1 = [0, 0, 0, 0, 0, 0, 0, 0, 1, 2, 3, 4] ∧ ¬Intact 1 p := by
  refine ⟨_, rfl, rfl, rfl, ?_⟩
  rintro ⟨hfront, -⟩
  have hlength := hfront.length_le
  exact absurd hlength (by decide)

theorem playback_intact_iff_packetRun :
    ¬recorded.Respects (Separates 1) (twoClients, .empty) packetRun := by
  intro h
  obtain ⟨p, hrun, -, -, hnot⟩ := packetRun_not_intact
  exact hnot (((playback_intact_iff twoClients_connected (by decide) hrun).mpr h).last hrun)

/-- The timestamp is played in front of the audio. -/
theorem playback_plays_timestamps :
    ∃ p, recorded.Reaches (twoClients, .empty) p ∧ twoClients.Connected 2 ∧
      p.2.captured 0 = [1, 2, 3, 4] ∧
      p.2.written 1 = [0, 0, 0, 0, 0, 0, 0, 0, 1, 2, 3, 4] ∧ ¬Intact 1 p := by
  obtain ⟨p, hrun, hcaptured, hwritten, hnot⟩ := packetRun_not_intact
  exact ⟨p, ⟨_, hrun⟩, twoClients_connected, hcaptured, hwritten, hnot⟩

end Runs

end MediaStream.TCPMeasure.Audio
