import MediaStream.TCPMeasure.Progress

/-!
Which acknowledgement the client reads for which message. The server takes
every result of `recv` for a message, so the two ends stay in step as long as
the connection happens to deliver messages and acknowledgements whole: one
message split by `recv` is answered twice, and the client reads every later
answer one message too late.
-/

namespace MediaStream.TCPMeasure

open Lib Exchange

structure Transcript where
  /-- The timestamps put at the head of the messages. -/
  stamps : List (List UInt8)
  /-- What the client had read whenever it computed a latency. -/
  acks : List (List UInt8)
  /-- How many bytes the server has received. -/
  received : Nat
  /-- How many acknowledgements the server has sent. -/
  sent : Nat

namespace Transcript

def empty : Transcript := { stamps := [], acks := [], received := 0, sent := 0 }

def watch (s : Exchange) : Act → Transcript → Transcript
  | .client (.timestamp now), t => { t with stamps := t.stamps ++ [msTimestamp now] }
  | .client (.recv n _), t => { t with acks := t.acks ++ [s.toClient.take n] }
  | .server (.recv n), t => { t with received := t.received + n }
  | .server .send, t => { t with sent := t.sent + 1 }
  | _, t => t

end Transcript

namespace Exchange

def transcribed : Machine (Exchange × Transcript) Act :=
  (machine.restrict Act.regular).monitored Transcript.watch

/-- How many acknowledgements the server is about to send. -/
def owed (s : Exchange) : Nat :=
  match s.server with
  | .send .. => 1
  | _ => 0

/-- The k-th latency is computed with the k-th timestamp, and there is one
acknowledgement for each 1024 bytes that have arrived. -/
def Matched (p : Exchange × Transcript) : Prop :=
  p.2.acks <+: p.2.stamps ∧ p.2.received = buffSize * (p.2.sent + p.1.owed)

end Exchange

/-- The server receives a whole message, the client a whole acknowledgement. -/
def Act.whole : Act → Prop
  | server (.recv n) => n = buffSize
  | client (.recv n _) => n = timestampSize
  | _ => True

theorem Buffer.head_store (b : Buffer) {bytes : List UInt8}
    (h : timestampSize ≤ bytes.length) : (b.store bytes).head = bytes.take timestampSize := by
  have hsize : timestampSize ≤ b.bytes.length := by
    rw [b.length_bytes]
    decide
  have hfits : timestampSize ≤ (bytes.take b.bytes.length).length := by
    rw [List.length_take]
    omega
  simp only [Buffer.head, Buffer.store, Bytes.overwrite]
  rw [List.take_append_of_le_length hfits, List.take_take, Nat.min_eq_left hsize]

theorem Buffer.head_store_msTimestamp (b : Buffer) (timestamp : Int) :
    (b.store (msTimestamp timestamp)).head = msTimestamp timestamp := by
  have hlength := length_msTimestamp timestamp
  rw [Buffer.head_store b (Nat.le_of_eq hlength.symm),
    List.take_of_length_le (Nat.le_of_eq hlength)]

theorem Buffer.store_bytes (b message : Buffer) : b.store message.bytes = message :=
  Buffer.ext (Bytes.overwrite_full (message.length_bytes.trans b.length_bytes.symm))

namespace Exchange

def Settled (s : Exchange) : Prop :=
  s.server = .recv ∨ ∃ bytesReceived, s.server = .log bytesReceived

theorem Settled.owed {s : Exchange} (h : s.Settled) : s.owed = 0 := by
  rcases h with hpc | ⟨_, hpc⟩ <;> simp [Exchange.owed, hpc]

/-- The message the client waits for an answer to has not been read, has been
read, or has been answered. -/
inductive Pending (s : Exchange) (stamp : List UInt8) : Prop where
  | message (hserver : s.Settled) (hto : s.toServer = s.message.bytes)
      (hhead : s.message.head = stamp) (hfrom : s.toClient = [])
  | answer (bytesReceived : Nat) (hserver : s.server = .send bytesReceived stamp)
      (hto : s.toServer = []) (hfrom : s.toClient = [])
  | ack (hserver : s.Settled) (hto : s.toServer = []) (hfrom : s.toClient = stamp)

structure Quiet (s : Exchange) : Prop where
  server : s.Settled
  toServer : s.toServer = []
  toClient : s.toClient = []

/-- The two ends agree on the message they are at. -/
inductive InStep (s : Exchange) (t : Transcript) : Prop where
  | idle (hclient : s.client = .loop ∨ s.client = .sleep) (hquiet : s.Quiet)
      (hacks : t.stamps = t.acks)
  | send (timestamp : Int) (hclient : s.client = .send timestamp) (hquiet : s.Quiet)
      (hhead : s.message.head = msTimestamp timestamp)
      (hacks : t.stamps = t.acks ++ [msTimestamp timestamp])
  | recv (timestamp : Int) (hclient : s.client = .recv timestamp)
      (hpending : s.Pending (msTimestamp timestamp))
      (hacks : t.stamps = t.acks ++ [msTimestamp timestamp])

end Exchange

section Runs

variable {p q : Exchange × Transcript} {a : Act}

theorem transcribed_step : transcribed.step p a = some q ↔
    a.regular = true ∧ Step p.1 a q.1 ∧ Transcript.watch p.1 a p.2 = q.2 := by
  rw [transcribed, Machine.monitored_step, Machine.restrict_step, step_iff, and_assoc]

theorem transcribed_tail {start : Exchange × Transcript} {next : Exchange}
    (h : transcribed.Reaches start p) (hstep : Step p.1 a next) (hregular : a.regular = true) :
    transcribed.Reaches start (next, Transcript.watch p.1 a p.2) :=
  h.tail (transcribed_step.mpr ⟨hregular, hstep, rfl⟩)

/-- A whole message is everything the server has in front of it. -/
theorem eq_of_whole {chunk rest : List UInt8} {message : Buffer}
    (h : message.bytes = chunk ++ rest) (hwhole : chunk.length = buffSize) :
    chunk = message.bytes ∧ rest = [] := by
  have hlength := congrArg List.length h
  rw [message.length_bytes, List.length_append, hwhole] at hlength
  have hrest : rest = [] := List.eq_nil_of_length_eq_zero (by omega)
  rw [hrest, List.append_nil] at h
  exact ⟨h.symm, hrest⟩

/-- A whole acknowledgement is everything the client has in front of it. -/
theorem eq_of_wholeAck {ack rest : List UInt8} {timestamp : Int}
    (h : ack ++ rest = msTimestamp timestamp) (hwhole : ack.length = timestampSize) :
    ack = msTimestamp timestamp ∧ rest = [] := by
  have hlength := congrArg List.length h
  rw [List.length_append, length_msTimestamp, hwhole] at hlength
  have hrest : rest = [] := List.eq_nil_of_length_eq_zero (by omega)
  rw [hrest, List.append_nil] at h
  exact ⟨h, hrest⟩

variable {s next : Exchange} {stamp : List UInt8}

/-- What the server does to a message that the client waits for. -/
theorem pending_server_step {a : ServerAct} (h : s.Pending stamp)
    (hstep : Step s (.server a) next) (hregular : (Act.server a).regular = true)
    (hwhole : (Act.server a).whole) (hclient : s.client ≠ .done) : next.Pending stamp := by
  cases hstep with
  | serverRecv chunk rest hpc hflight hpos hsize =>
    cases h with
    | message hserver hto hhead hfrom =>
      obtain ⟨rfl, rfl⟩ := eq_of_whole (hto.symm.trans hflight) hwhole
      refine .answer s.message.bytes.length ?_ rfl hfrom
      simp only [Buffer.store_bytes, hhead]
    | answer bytesReceived hserver => cases hpc.symm.trans hserver
    | ack hserver hto =>
      obtain ⟨rfl, -⟩ := List.append_eq_nil_iff.mp (hflight.symm.trans hto)
      cases hpos
  | serverSend bytesReceived clientTimestamp hpc =>
    cases h with
    | answer _ hserver hto hfrom =>
      obtain ⟨rfl, rfl⟩ := HandleClient.send.inj (hpc.symm.trans hserver)
      exact .ack (Or.inr ⟨_, rfl⟩) hto (by simp only [hfrom, List.nil_append])
    | message hserver | ack hserver =>
      rcases hserver with hserver | ⟨_, hserver⟩ <;> cases hpc.symm.trans hserver
  | log currentTime bytesReceived hpc =>
    cases h with
    | message _ hto hhead hfrom => exact .message (Or.inl rfl) hto hhead hfrom
    | answer _ hserver => cases hpc.symm.trans hserver
    | ack _ hto hfrom => exact .ack (Or.inl rfl) hto hfrom
  | serverRecvZero hpc hempty hdone => exact absurd hdone hclient
  | serverRecvError | serverSendError => cases hregular
  | serverClose hpc =>
    cases h with
    | answer _ hserver => cases hpc.symm.trans hserver
    | message hserver | ack hserver =>
      rcases hserver with hserver | ⟨_, hserver⟩ <;> cases hpc.symm.trans hserver

theorem quiet_server_step {a : ServerAct} (h : s.Quiet) (hstep : Step s (.server a) next)
    (hregular : (Act.server a).regular = true) (hclient : s.client ≠ .done) : next.Quiet := by
  obtain ⟨hserver, hto, hfrom⟩ := h
  cases hstep with
  | serverRecv chunk rest hpc hflight hpos hsize =>
    obtain ⟨rfl, -⟩ := List.append_eq_nil_iff.mp (hflight.symm.trans hto)
    cases hpos
  | log currentTime bytesReceived hpc => exact ⟨Or.inl rfl, hto, hfrom⟩
  | serverRecvZero hpc hempty hdone => exact absurd hdone hclient
  | serverRecvError | serverSendError => cases hregular
  | serverSend _ _ hpc | serverClose hpc =>
    rcases hserver with hserver | ⟨_, hserver⟩ <;> cases hpc.symm.trans hserver

theorem server_step_message {a : ServerAct} (hstep : Step s (.server a) next) :
    next.message = s.message := by
  cases hstep <;> rfl

variable {t : Transcript}

theorem watch_server (s : Exchange) (a : ServerAct) (t : Transcript) :
    (Transcript.watch s (.server a) t).stamps = t.stamps ∧
      (Transcript.watch s (.server a) t).acks = t.acks := by
  cases a <;> exact ⟨rfl, rfl⟩

theorem inStep_server_step {a : ServerAct} (h : InStep s t) (hstep : Step s (.server a) next)
    (hregular : (Act.server a).regular = true) (hwhole : (Act.server a).whole) :
    InStep next (Transcript.watch s (.server a) t) := by
  have hclient := client_server_step hstep
  obtain ⟨hstamps, hread⟩ := watch_server s a t
  cases h with
  | idle hpc hquiet hacks =>
    have hrunning : s.client ≠ .done := by
      rcases hpc with hpc | hpc <;> simp [hpc]
    refine .idle (hclient ▸ hpc) (quiet_server_step hquiet hstep hregular hrunning) ?_
    rw [hstamps, hread, hacks]
  | send timestamp hpc hquiet hhead hacks =>
    have hrunning : s.client ≠ .done := by simp [hpc]
    refine .send timestamp (hclient.trans hpc)
      (quiet_server_step hquiet hstep hregular hrunning) ?_ ?_
    · rw [server_step_message hstep, hhead]
    · rw [hstamps, hread, hacks]
  | recv timestamp hpc hpending hacks =>
    have hrunning : s.client ≠ .done := by simp [hpc]
    refine .recv timestamp (hclient.trans hpc)
      (pending_server_step hpending hstep hregular hwhole hrunning) ?_
    rw [hstamps, hread, hacks]

/-- The client reads the answer to the message it has sent. -/
theorem pending_client_recv {ack rest : List UInt8} (h : s.Pending stamp)
    (hflight : s.toClient = ack ++ rest) (hpos : 0 < ack.length) :
    s.Settled ∧ s.toServer = [] ∧ ack ++ rest = stamp := by
  cases h with
  | ack hserver hto hfrom => exact ⟨hserver, hto, hflight.symm.trans hfrom⟩
  | message _ _ _ hfrom | answer _ _ _ hfrom =>
    obtain ⟨rfl, -⟩ := List.append_eq_nil_iff.mp (hflight.symm.trans hfrom)
    cases hpos

theorem pending_server_ne_done (h : s.Pending stamp) : s.server ≠ .done := by
  intro hdone
  cases h with
  | answer _ hserver => cases hdone.symm.trans hserver
  | message hserver | ack hserver =>
    rcases hserver with hserver | ⟨_, hserver⟩ <;> cases hdone.symm.trans hserver

theorem inStep_client_step {a : ClientAct} (h : InStep s t) (hstep : Step s (.client a) next)
    (hregular : (Act.client a).regular = true) (hwhole : (Act.client a).whole) :
    InStep next (Transcript.watch s (.client a) t) := by
  cases hstep with
  | timestamp now hpc =>
    cases h with
    | idle hclient hquiet hacks =>
      refine .send now rfl ⟨hquiet.server, hquiet.toServer, hquiet.toClient⟩ ?_ ?_
      · exact Buffer.head_store_msTimestamp _ _
      · simp only [Transcript.watch, hacks]
    | send _ hclient | recv _ hclient => cases hpc.symm.trans hclient
  | clientSend timestamp hpc =>
    cases h with
    | send _ hclient hquiet hhead hacks =>
      obtain rfl := SendData.send.inj (hpc.symm.trans hclient)
      refine .recv timestamp rfl (.message hquiet.server ?_ hhead hquiet.toClient) hacks
      simp only [hquiet.toServer, List.nil_append]
    | idle hclient => rcases hclient with hclient | hclient <;> cases hpc.symm.trans hclient
    | recv _ hclient => cases hpc.symm.trans hclient
  | clientRecv timestamp ackTime ack rest hpc hflight hpos hsize =>
    cases h with
    | recv _ hclient hpending hacks =>
      obtain rfl := SendData.recv.inj (hpc.symm.trans hclient)
      obtain ⟨hserver, hto, hstamp⟩ := pending_client_recv hpending hflight hpos
      obtain ⟨hack, hrest⟩ := eq_of_wholeAck hstamp hwhole
      refine .idle (Or.inr rfl) ⟨hserver, hto, hrest⟩ ?_
      have htaken : s.toClient.take ack.length = msTimestamp timestamp := by
        rw [hflight, List.take_left, hack]
      simp only [Transcript.watch, htaken]
      exact hacks
    | idle hclient => rcases hclient with hclient | hclient <;> cases hpc.symm.trans hclient
    | send _ hclient => cases hpc.symm.trans hclient
  | clientRecvZero timestamp hpc hempty hdone =>
    cases h with
    | recv _ hclient hpending => exact absurd hdone (pending_server_ne_done hpending)
    | idle hclient => rcases hclient with hclient | hclient <;> cases hpc.symm.trans hclient
    | send _ hclient => cases hpc.symm.trans hclient
  | wake hpc =>
    cases h with
    | idle hclient hquiet hacks =>
      exact .idle (Or.inl rfl) ⟨hquiet.server, hquiet.toServer, hquiet.toClient⟩ hacks
    | send _ hclient | recv _ hclient => cases hpc.symm.trans hclient
  | clientSendError | clientRecvError => cases hregular
  | finish endTime hpc | clientClose hpc =>
    cases h with
    | idle hclient => rcases hclient with hclient | hclient <;> cases hpc.symm.trans hclient
    | send _ hclient | recv _ hclient => cases hpc.symm.trans hclient

theorem inStep_step (h : InStep p.1 p.2) (hstep : transcribed.step p a = some q)
    (hwhole : a.whole) : InStep q.1 q.2 := by
  obtain ⟨hregular, hstep, hwatch⟩ := transcribed_step.mp hstep
  rw [← hwatch]
  cases a with
  | client a => exact inStep_client_step h hstep hregular hwhole
  | server a => exact inStep_server_step h hstep hregular hwhole

/-- A server that receives less than a message is about to answer too often. -/
theorem matched_server_step {a : ServerAct} (hmatched : Matched (s, t))
    (hstep : Step s (.server a) next) (hregular : (Act.server a).regular = true) :
    Matched (next, Transcript.watch s (.server a) t) ↔ (Act.server a).whole := by
  obtain ⟨hread, hcount⟩ := hmatched
  obtain ⟨hstamps, hacks⟩ := watch_server s a t
  have hread' : (Transcript.watch s (.server a) t).acks <+:
      (Transcript.watch s (.server a) t).stamps := by
    rw [hstamps, hacks]
    exact hread
  cases hstep with
  | serverRecv chunk rest hpc hflight hpos hsize =>
    have howed : s.owed = 0 := by simp only [Exchange.owed, hpc]
    simp only [howed] at hcount
    have hnext : t.received + chunk.length = buffSize * (t.sent + 1) ↔
        chunk.length = buffSize := by
      rw [hcount, Nat.mul_add, Nat.mul_add]
      omega
    exact ⟨fun hafter => hnext.mp hafter.2, fun hwhole => ⟨hread', hnext.mpr hwhole⟩⟩
  | serverSend bytesReceived clientTimestamp hpc =>
    have howed : s.owed = 1 := by simp only [Exchange.owed, hpc]
    simp only [howed] at hcount
    exact ⟨fun _ => trivial, fun _ => ⟨hread', hcount⟩⟩
  | log currentTime bytesReceived hpc =>
    have howed : s.owed = 0 := by simp only [Exchange.owed, hpc]
    simp only [howed] at hcount
    exact ⟨fun _ => trivial, fun _ => ⟨hread', hcount⟩⟩
  | serverRecvZero hpc =>
    have howed : s.owed = 0 := by simp only [Exchange.owed, hpc]
    simp only [howed] at hcount
    exact ⟨fun _ => trivial, fun _ => ⟨hread', hcount⟩⟩
  | serverClose hpc =>
    have howed : s.owed = 0 := by simp only [Exchange.owed, hpc]
    simp only [howed] at hcount
    exact ⟨fun _ => trivial, fun _ => ⟨hread', hcount⟩⟩
  | serverRecvError | serverSendError => cases hregular

theorem owed_client_step {a : ClientAct} (hstep : Step s (.client a) next) :
    next.owed = s.owed := by
  cases hstep <;> rfl

/-- A client that receives less than an acknowledgement has not read its timestamp. -/
theorem matched_client_step {a : ClientAct} (h : InStep s t) (hmatched : Matched (s, t))
    (hstep : Step s (.client a) next) :
    Matched (next, Transcript.watch s (.client a) t) ↔ (Act.client a).whole := by
  obtain ⟨hread, hcount⟩ := hmatched
  have howed := owed_client_step hstep
  rw [← howed] at hcount
  cases hstep with
  | clientRecv timestamp ackTime ack rest hpc hflight hpos hsize =>
    cases h with
    | recv _ hclient hpending hacks =>
      obtain rfl := SendData.recv.inj (hpc.symm.trans hclient)
      obtain ⟨-, -, hstamp⟩ := pending_client_recv hpending hflight hpos
      have htaken : s.toClient.take ack.length = ack := by rw [hflight, List.take_left]
      have hnext : t.acks ++ [s.toClient.take ack.length] <+: t.stamps ↔
          ack.length = timestampSize := by
        rw [hacks, htaken, List.prefix_append_right_inj]
        constructor
        · intro hprefix
          have heq := List.cons_prefix_cons.mp hprefix
          rw [heq.1, length_msTimestamp]
        · intro hwhole
          have heq := (eq_of_wholeAck hstamp hwhole).1
          exact List.cons_prefix_cons.mpr ⟨heq, List.prefix_rfl⟩
      exact ⟨fun hafter => hnext.mp hafter.1, fun hwhole => ⟨hnext.mpr hwhole, hcount⟩⟩
    | idle hclient => rcases hclient with hclient | hclient <;> cases hpc.symm.trans hclient
    | send _ hclient => cases hpc.symm.trans hclient
  | timestamp now hpc =>
    exact ⟨fun _ => trivial, fun _ => ⟨hread.trans (List.prefix_append _ _), hcount⟩⟩
  | clientSend | clientSendError | clientRecvZero | clientRecvError | wake | finish
  | clientClose => exact ⟨fun _ => trivial, fun _ => ⟨hread, hcount⟩⟩

theorem matched_step (h : InStep p.1 p.2) (hmatched : Matched p)
    (hstep : transcribed.step p a = some q) : Matched q ↔ a.whole := by
  obtain ⟨hregular, hstep, hwatch⟩ := transcribed_step.mp hstep
  have hq : q = (q.1, Transcript.watch p.1 a p.2) := by rw [hwatch]
  rw [hq]
  cases a with
  | client a => exact matched_client_step h hmatched hstep
  | server a => exact matched_server_step hmatched hstep hregular

end Runs

def transcribedInit (stack : Buffer) (clientStart serverStart : Int) : Exchange × Transcript :=
  (.init stack clientStart serverStart, .empty)

/-- The acknowledgements match the messages in all states of exactly those runs
in which every `recv` returns a whole message or a whole acknowledgement. -/
theorem acknowledgements_match_iff {stack : Buffer} {clientStart serverStart : Int}
    {actions : List Act} {finish : Exchange × Transcript}
    (hrun : transcribed.run (transcribedInit stack clientStart serverStart) actions =
      some finish) :
    transcribed.Throughout Matched (transcribedInit stack clientStart serverStart) actions ↔
      transcribed.Respects (fun _ a => a.whole) (transcribedInit stack clientStart serverStart)
        actions := by
  apply Machine.throughout_iff_respects (I := fun p => InStep p.1 p.2)
  · intro s a next hin hmatched hstep
    exact matched_step hin hmatched hstep
  · intro s a next hin hmatched hstep hnext
    exact inStep_step hin hstep ((matched_step hin hmatched hstep).mp hnext)
  · exact .idle (Or.inl rfl) ⟨Or.inl rfl, rfl, rfl⟩ rfl
  · exact ⟨List.nil_prefix, rfl⟩
  · exact hrun

/-- The first message is received as a whole, and so is its acknowledgement. -/
def firstMessage : List Act :=
  [.client (.timestamp 0), .client .send, .server (.recv 1024), .server .send,
    .client (.recv 8 5000000), .server (.log 3000000000)]

theorem acknowledgements_match_firstMessage :
    transcribed.Throughout Matched (transcribedInit .dummy 0 0) firstMessage := by
  have hsome : (transcribed.run (transcribedInit .dummy 0 0) firstMessage).isSome := by
    decide +kernel
  obtain ⟨finish, hrun⟩ := Option.isSome_iff_exists.mp hsome
  refine (acknowledgements_match_iff hrun).mpr ?_
  rw [Machine.respects_iff_forall_mem hrun]
  simp [firstMessage, Act.whole, buffSize, timestampSize]

/-- A first message that arrives in two pieces is answered twice, and the second
latency is computed with the bytes at the head of the second piece. -/
theorem splitMessage_reaches (stack : Buffer) (clientStart serverStart first second : Int)
    {front back : List UInt8}
    (hcut : (Buffer.dummy.store (msTimestamp first)).bytes = front ++ back)
    (hfront : timestampSize ≤ front.length) (hback : timestampSize ≤ back.length) :
    ∃ p, transcribed.Reaches (transcribedInit stack clientStart serverStart) p ∧
      p.2.stamps = [msTimestamp first, msTimestamp second] ∧
      p.2.acks = [front.take timestampSize, back.take timestampSize] ∧
      p.2.received = buffSize ∧ p.2.sent = 2 := by
  have hlength := congrArg List.length hcut
  rw [Buffer.length_bytes, List.length_append] at hlength
  have hpos : 0 < timestampSize := by decide
  have hone : (front.take timestampSize).length = timestampSize := List.length_take_of_le hfront
  have htwo : (back.take timestampSize).length = timestampSize := List.length_take_of_le hback
  rw [← List.nil_append (Buffer.store _ _).bytes] at hcut
  have hstart := Machine.Reaches.refl transcribed (transcribedInit stack clientStart serverStart)
  have hready := transcribed_tail hstart (.timestamp first rfl) rfl
  have hsent := transcribed_tail hready (.clientSend first rfl) rfl
  have htaken := transcribed_tail hsent (.serverRecv front back rfl hcut (by omega) (by omega)) rfl
  have hanswered := transcribed_tail htaken (.serverSend _ _ rfl) rfl
  have hread := transcribed_tail hanswered
    (.clientRecv first 0 (front.take timestampSize) [] rfl
      (by simp only [Buffer.head_store _ hfront]; exact (List.append_nil _).symm)
      (by omega) (by omega)) rfl
  have hlogged := transcribed_tail hread (.log 0 _ rfl) rfl
  have hagain := transcribed_tail hlogged
    (.serverRecv back [] rfl (List.append_nil _).symm (by omega) (by omega)) rfl
  have hstale := transcribed_tail hagain (.serverSend _ _ rfl) rfl
  have hwoken := transcribed_tail hstale (.wake rfl) rfl
  have hnext := transcribed_tail hwoken (.timestamp second rfl) rfl
  have hlast := transcribed_tail hnext (.clientSend second rfl) rfl
  have hlate := transcribed_tail hlast
    (.clientRecv second 0 (back.take timestampSize) [] rfl
      (by simp only [Buffer.head_store _ hback]; exact (List.append_nil _).symm)
      (by omega) (by omega)) rfl
  refine ⟨_, hlate, rfl, ?_, ?_, rfl⟩
  · simp only [Transcript.watch, Buffer.head_store _ hfront, Buffer.head_store _ hback]
    simp only [List.nil_append, List.take_length]
    change [] ++ [List.take _ ([] ++ _)] ++ _ = _
    rw [List.nil_append, List.nil_append, List.take_length, List.singleton_append]
  · change 0 + front.length + back.length = buffSize
    omega

theorem Buffer.dummy_store {bytes : List UInt8} (h : bytes.length ≤ buffSize) :
    (Buffer.dummy.store bytes).bytes = bytes ++ List.replicate (buffSize - bytes.length) 65 := by
  simp only [Buffer.store, Bytes.overwrite, Buffer.dummy, List.length_replicate,
    List.take_of_length_le h, List.drop_replicate]

/-- 1000 bytes and 24: the second latency is computed with eight times `'A'`. -/
theorem acknowledgements_match_splitMessage :
    ∃ p, transcribed.Reaches (transcribedInit .dummy 0 0) p ∧
      p.2.stamps = [msTimestamp 0, msTimestamp 500000000] ∧
      p.2.acks = [msTimestamp 0, List.replicate 8 65] ∧
      p.2.received = buffSize ∧ p.2.sent = 2 ∧ ¬Matched p := by
  obtain ⟨message, hmessage⟩ : ∃ message, message = Buffer.dummy.store (msTimestamp 0) := ⟨_, rfl⟩
  have hfront : (message.bytes.take 1000).length = 1000 := by
    rw [List.length_take, message.length_bytes]
    decide
  have hback : message.bytes.drop 1000 = List.replicate 24 65 := by
    have hstamp : (msTimestamp 0).length ≤ buffSize := by decide
    rw [hmessage, Buffer.dummy_store hstamp, List.drop_append, length_msTimestamp,
      List.drop_eq_nil_of_le (by decide), List.drop_replicate]
    rfl
  have hhead : (message.bytes.take 1000).take timestampSize = msTimestamp 0 := by
    have hstored := Buffer.head_store_msTimestamp .dummy 0
    rw [← hmessage, Buffer.head] at hstored
    rw [List.take_take, Nat.min_eq_left (by decide), hstored]
  have hcut : (Buffer.dummy.store (msTimestamp 0)).bytes =
      message.bytes.take 1000 ++ message.bytes.drop 1000 := by
    rw [List.take_append_drop, hmessage]
  obtain ⟨p, hreach, hstamps, hacks, hreceived, hsent⟩ :=
    splitMessage_reaches .dummy 0 0 0 500000000 hcut
      (by rw [hfront]; decide) (by rw [hback]; decide)
  rw [hhead, hback] at hacks
  refine ⟨p, hreach, hstamps, hacks, hreceived, hsent, ?_⟩
  rintro ⟨hmatched, -⟩
  rw [hstamps, hacks] at hmatched
  have hlast := List.cons_prefix_cons.mp (List.cons_prefix_cons.mp hmatched).2
  exact absurd hlast.1 (by decide)

end MediaStream.TCPMeasure
