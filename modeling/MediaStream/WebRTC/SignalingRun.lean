import MediaStream.WebRTC.SignalingProcess

/-!
Runs of the signaling process. What the receivers make of the bytes is what the
message-level server relays, what the senders write is what its clients are
meant to get, and the only way to end the process is a stream that its receiver
answers with an error.
-/

namespace MediaStream.WebRTC

open Lib Lib.Multicast Ws

namespace SignalingProcess

section Step

variable {p next : SignalingProcess} {log : List Relayed} {ws : Nat} {acts : List Act} {a : Act}

/-- The events of a chunk, one after the other. -/
theorem Core.emitAll (h : Core p log) (hknown : ws < p.server.connections)
    (hstate : p.server.readyState ws ≠ .closed) (hrunning : p.crashed = false)
    {emitted : List ReceiverEvent} (hlawful : ∀ e ∈ emitted, e.Lawful serverOptions)
    (hlast : ∀ e ∈ emitted.dropLast, e.terminal = false) :
    ∃ more, Core (emitted.foldl (SignalingProcess.emit ws) p) (log ++ more) ∧
      more.map Relayed.frame = messages emitted ∧ (∀ r ∈ more, r.source = ws) ∧
      (emitted.foldl (SignalingProcess.emit ws) p).receivers = p.receivers ∧
      ((emitted.foldl (SignalingProcess.emit ws) p).crashed = true ↔
        ∃ e, .error e ∈ emitted) := by
  induction emitted generalizing p log with
  | nil =>
    refine ⟨[], by rwa [List.append_nil], rfl, by simp, rfl, ?_⟩
    simp [hrunning]
  | cons e rest ih =>
    obtain ⟨hfirst, hrest⟩ := List.forall_mem_cons.mp hlawful
    obtain ⟨more, hcore, hframes, hsource, hconnections, hopen, hreceivers, hcrashed⟩ :=
      h.emit hknown hstate hrunning hfirst
    cases rest with
    | nil =>
      refine ⟨more, hcore, hframes, hsource, hreceivers, hcrashed.trans ?_⟩
      simp [eq_comm]
    | cons e' rest =>
      have hgoes : e.terminal = false := hlast e (by simp)
      have hlive : (p.emit ws e).crashed = false := by
        rw [← Bool.not_eq_true, hcrashed]
        rintro ⟨error, rfl⟩
        cases hgoes
      obtain ⟨later, hlater, hmessages, hsources, hkept, hend⟩ := ih hcore
        (hconnections ▸ hknown) hopen hlive hrest fun e'' he'' => hlast e'' (by simp [he''])
      refine ⟨more ++ later, ?_, ?_, ?_, ?_, ?_⟩
      · rw [← List.append_assoc]
        exact hlater
      · rw [List.map_append, hframes, hmessages, ← messages_append]
        rfl
      · intro r hr
        rcases List.mem_append.mp hr with hold | hnew
        · exact hsource r hold
        · exact hsources r hnew
      · exact hkept.trans hreceivers
      · apply hend.trans
        have hnot : ∀ error, e ≠ .error error := by
          rintro error rfl
          cases hgoes
        constructor
        · rintro ⟨error, hmem⟩
          exact ⟨error, List.mem_cons_of_mem e hmem⟩
        · rintro ⟨error, hmem⟩
          rcases List.mem_cons.mp hmem with heq | hlater
          · exact absurd heq.symm (hnot error)
          · exact ⟨error, hlater⟩

def emitted (ws : Nat) (acts : List Act) : List ReceiverEvent :=
  (Receiver.receive serverOptions .init (chunksOf ws acts)).2

/-- The process after some acts: the receivers have read the chunks, and what they have emitted
has been relayed. -/
structure Traced (p : SignalingProcess) (log : List Relayed) (acts : List Act) : Prop where
  core : Core p log
  receivers : ∀ ws,
    p.receivers ws = (Receiver.receive serverOptions .init (chunksOf ws acts)).1
  relayed : ∀ ws, (log.filter (·.source = ws)).map Relayed.frame = messages (emitted ws acts)
  crashed : p.crashed = true ↔ ∃ ws e, .error e ∈ emitted ws acts

theorem traced_init : Traced init [] [] where
  core := by
    refine ⟨⟨[], rfl⟩, fun _ _ => rfl, fun _ => ⟨⟨[], [], rfl, by simp, Or.inl rfl⟩, rfl⟩⟩
  receivers _ := rfl
  relayed _ := rfl
  crashed := by
    apply iff_of_false Bool.false_ne_true
    rintro ⟨ws, e, hmem⟩
    cases hmem

/-- An act that brings no bytes. -/
theorem Traced.quiet (h : Traced p log acts) {server : SignalingServer}
    (hcore : Core { p with server := server } log) (hnone : ∀ ws, chunksOf ws [a] = []) :
    Traced { p with server := server } log (acts ++ [a]) := by
  have hsame : ∀ ws, chunksOf ws (acts ++ [a]) = chunksOf ws acts := by
    intro ws
    rw [chunksOf_append, hnone, List.append_nil]
  refine ⟨hcore, fun ws => ?_, fun ws => ?_, ?_⟩
  · rw [hsame]
    exact h.receivers ws
  · rw [emitted, hsame]
    exact h.relayed ws
  · simp only [emitted, hsame]
    exact h.crashed

/-- A step of the server that sends nothing. -/
theorem Core.server_step (h : Core p log) {e : Event} {server : SignalingServer}
    (hstep : p.server.step e = some server) (hwatch : SignalingServer.watch p.server e log = log)
    (hfresh : ∀ client, server.connections ≤ client → server.readyState client = .connecting)
    (hcalled : ∀ client, Called server p.calls client) : Core { p with server := server } log := by
  refine ⟨?_, hfresh, hcalled⟩
  obtain ⟨events, hrun⟩ := h.step_run hstep
  exact ⟨events, hwatch ▸ hrun⟩

/-- The connection of the client changes its state, but never back from closing. -/
theorem Called.move {server later : SignalingServer} {calls : List (Nat × SendOp)} {client : Nat}
    (h : Called server calls client) (hsent : later.sent = server.sent)
    (hstate : server.readyState client = .closing ∨ server.readyState client = .closed →
      later.readyState client = .closing ∨ later.readyState client = .closed) :
    Called later calls client := by
  obtain ⟨front, last, hcalls, hfront, hlast⟩ := h.order
  refine ⟨⟨front, last, hcalls, hfront, ?_⟩, hsent ▸ h.sent⟩
  rcases hlast with hnil | ⟨hgone, hop⟩
  · exact Or.inl hnil
  · exact Or.inr ⟨hstate hgone, hop⟩

theorem Traced.connection (h : Traced p log acts) {server : SignalingServer}
    (hstep : p.server.step .connection = some server) :
    Traced { p with server := server } log (acts ++ [Act.connection]) := by
  apply h.quiet _ (fun _ => rfl)
  obtain rfl := Option.some.inj hstep
  apply h.core.server_step hstep rfl
  · intro client hclient
    have hother : client ≠ p.server.connections := Nat.ne_of_gt hclient
    exact (Function.update_of_ne hother ..).trans (h.core.fresh client (Nat.le_of_lt hclient))
  · intro client
    refine Called.move (h.core.called client) rfl fun hgone => ?_
    have hother : client ≠ p.server.connections := by
      rintro rfl
      rw [h.core.fresh _ (Nat.le_refl _)] at hgone
      rcases hgone with hclosing | hclosed
      · cases hclosing
      · cases hclosed
    change Function.update p.server.readyState _ _ client = _ ∨
      Function.update p.server.readyState _ _ client = _
    rw [Function.update_of_ne hother]
    exact hgone

/-- The state of a connection is set to `CLOSING` or `CLOSED`. -/
theorem Traced.leaving (h : Traced p log acts) {server : SignalingServer} {e : Event}
    {state : ReadyState} (hstep : p.server.step e = some server)
    (hwatch : SignalingServer.watch p.server e log = log)
    (hreadyState : server.readyState = Function.update p.server.readyState ws state)
    (hstate : state = .closing ∨ state = .closed) (hsent : server.sent = p.server.sent)
    (hconnections : server.connections = p.server.connections) (hknown : ws < p.server.connections)
    (hnone : ∀ client, chunksOf client [a] = []) :
    Traced { p with server := server } log (acts ++ [a]) := by
  apply h.quiet _ hnone
  apply h.core.server_step hstep hwatch
  · intro client hclient
    rw [hconnections] at hclient
    have hother : client ≠ ws := by
      rintro rfl
      exact absurd hknown (Nat.not_lt.mpr hclient)
    rw [hreadyState, Function.update_of_ne hother]
    exact h.core.fresh client hclient
  · intro client
    apply (h.core.called client).move hsent
    intro hgone
    rw [hreadyState]
    by_cases hsame : client = ws
    · subst hsame
      rw [Function.update_self]
      exact hstate
    · rw [Function.update_of_ne hsame]
      exact hgone

/-- A chunk: its receiver reads it, and what the receiver emits is relayed. -/
theorem Traced.data (h : Traced p log acts) (hrunning : p.crashed = false)
    (hknown : ws < p.server.connections) (hstate : p.server.readyState ws ≠ .closed)
    (chunk : List UInt8) :
    ∃ later, Traced
      (((p.receivers ws).write serverOptions chunk).2.foldl (SignalingProcess.emit ws)
        (p.setReceiver ws ((p.receivers ws).write serverOptions chunk).1))
      later (acts ++ [Act.data ws chunk]) := by
  obtain ⟨hlawful, hlast⟩ := lawful_write serverOptions (chunksOf ws acts) chunk
  rw [← h.receivers ws] at hlawful hlast
  have hcore : Core (p.setReceiver ws ((p.receivers ws).write serverOptions chunk).1) log :=
    ⟨h.core.run, h.core.fresh, h.core.called⟩
  obtain ⟨more, hmore, hframes, hsource, hkept, hcrashed⟩ :=
    hcore.emitAll hknown hstate hrunning hlawful hlast
  have hself : chunksOf ws (acts ++ [Act.data ws chunk]) = chunksOf ws acts ++ [chunk] := by
    rw [chunksOf_append]
    simp [chunksOf]
  have hother : ∀ client, client ≠ ws →
      chunksOf client (acts ++ [Act.data ws chunk]) = chunksOf client acts := by
    intro client hclient
    rw [chunksOf_append]
    simp [chunksOf, Ne.symm hclient]
  have hnow : Receiver.receive serverOptions .init (chunksOf ws (acts ++ [Act.data ws chunk])) =
      (((p.receivers ws).write serverOptions chunk).1,
        emitted ws acts ++ ((p.receivers ws).write serverOptions chunk).2) := by
    rw [hself, Receiver.receive_concat, ← h.receivers ws]
    rfl
  refine ⟨log ++ more, hmore, fun client => ?_, fun client => ?_, ?_⟩
  · rw [hkept]
    by_cases hclient : client = ws
    · subst hclient
      rw [hnow]
      exact Function.update_self ..
    · rw [hother client hclient, ← h.receivers client]
      exact Function.update_of_ne hclient ..
  · rw [List.filter_append, List.map_append, h.relayed client]
    by_cases hclient : client = ws
    · subst hclient
      have hall : more.filter (·.source = client) = more :=
        List.filter_eq_self.mpr fun r hr => decide_eq_true (hsource r hr)
      rw [hall, hframes, ← messages_append]
      unfold emitted
      rw [hnow]
      rfl
    · have hnone : more.filter (·.source = client) = [] := by
        apply List.filter_eq_nil_iff.mpr
        intro r hr hsame
        exact hclient ((decide_eq_true_eq.mp hsame).symm.trans (hsource r hr))
      rw [hnone, List.map_nil, List.append_nil, emitted, emitted, hother client hclient]
  · rw [hcrashed]
    constructor
    · rintro ⟨e, hmem⟩
      refine ⟨ws, e, ?_⟩
      rw [emitted, hnow]
      exact List.mem_append_right _ hmem
    · rintro ⟨client, e, hmem⟩
      have hbefore : ∀ client e, ReceiverEvent.error e ∉ emitted client acts := by
        intro client e hold
        exact Bool.false_ne_true (hrunning.symm.trans (h.crashed.mpr ⟨client, e, hold⟩))
      by_cases hclient : client = ws
      · subst hclient
        rw [emitted, hnow] at hmem
        rcases List.mem_append.mp hmem with hold | hnew
        · exact absurd hold (hbefore _ e)
        · exact ⟨e, hnew⟩
      · rw [emitted, hother client hclient] at hmem
        exact absurd hmem (hbefore client e)

theorem traced_step (h : Traced p log acts) (hstep : p.step a = some next) :
    ∃ later, Traced next later (acts ++ [a]) := by
  unfold step at hstep
  split at hstep
  · cases hstep
  · next hlive =>
    have hrunning : p.crashed = false := Bool.not_eq_true _ ▸ hlive
    cases a with
    | connection =>
      obtain ⟨server, hserver, rfl⟩ := Option.map_eq_some_iff.mp hstep
      exact ⟨log, h.connection hserver⟩
    | data ws chunk =>
      simp only [Option.ite_none_right_eq_some, Option.some.injEq] at hstep
      obtain ⟨⟨hknown, hstate⟩, rfl⟩ := hstep
      exact h.data hrunning hknown hstate chunk
    | closing ws =>
      obtain ⟨server, hserver, rfl⟩ := Option.map_eq_some_iff.mp hstep
      have hgiven := hserver
      simp only [SignalingServer.step, Option.ite_none_right_eq_some, Option.some.injEq] at hgiven
      obtain ⟨hopen, rfl⟩ := hgiven
      have hknown : ws < p.server.connections := by
        by_contra hout
        cases hopen.symm.trans (h.core.fresh ws (Nat.not_lt.mp hout))
      exact ⟨log, h.leaving hserver rfl rfl (Or.inl rfl) rfl rfl hknown fun _ => rfl⟩
    | close ws =>
      obtain ⟨server, hserver, rfl⟩ := Option.map_eq_some_iff.mp hstep
      have hgiven := hserver
      simp only [SignalingServer.step, Option.ite_none_right_eq_some, Option.some.injEq] at hgiven
      obtain ⟨⟨hknown, hstate⟩, rfl⟩ := hgiven
      exact ⟨log, h.leaving hserver rfl rfl (Or.inr rfl) rfl rfl hknown fun _ => rfl⟩

theorem traced_run (hrun : machine.run init acts = some p) : ∃ log, Traced p log acts := by
  have hall : [] ++ acts.flatMap (fun a => [a]) = acts := List.flatMap_singleton' acts
  rw [← hall]
  apply Machine.run_collects (P := fun p seen => ∃ log, Traced p log seen) _
    ⟨[], traced_init⟩ hrun
  rintro p a next seen ⟨log, hlog⟩ hstep
  exact traced_step hlog hstep

end Step

section Hears

variable {o : Options} {front last ops : List SendOp} {op : SendOp}

theorem Plain.fits (h : Plain op) (hclient : o.isServer = false) : op.Fits o := by
  have hkey : op.key = none ∧ op.data.length ≤ serverOptions.limit := by
    rcases h with ⟨data, rfl, hlong⟩ | ⟨data, rfl, hshort⟩
    · exact ⟨rfl, hlong⟩
    · exact ⟨rfl, Nat.le_trans hshort (by decide)⟩
  exact ⟨by rw [hkey.1, hclient]; rfl, by simp [hkey.1], Nat.lt_of_le_of_lt hkey.2 (by decide)⟩

theorem Closing.fits (h : Closing op) (hclient : o.isServer = false) : op.Fits o := by
  obtain ⟨code, data, rfl, -, hshort, -⟩ := h
  exact ⟨hclient.symm, by simp [SendOp.key], Nat.lt_of_le_of_lt hshort (by decide)⟩

/-- A sender does what the server calls it for. -/
theorem run_called (hfront : ∀ op ∈ front, Plain op)
    (hlast : last = [] ∨ ∃ op, Closing op ∧ last = [op]) :
    ∃ bytes, Sender.run .init (front ++ last) = .ok bytes := by
  induction front with
  | nil =>
    rcases hlast with rfl | ⟨op, ⟨code, data, rfl, hcode, hshort, -⟩, rfl⟩
    · exact ⟨[], rfl⟩
    · cases code with
      | none => exact ⟨_, rfl⟩
      | some c =>
        have hcall : ∃ bytes, Sender.close .init (some c) data none = .ok (.init, bytes) := by
          unfold Sender.close
          simp only
          rw [if_neg (not_not.mpr (hcode c rfl))]
          split
          · exact ⟨_, rfl⟩
          · rw [if_neg (Nat.not_lt.mpr hshort)]
            exact ⟨_, rfl⟩
        obtain ⟨bytes, hcall⟩ := hcall
        exact ⟨bytes ++ [], by simp [Sender.run, Sender.call, hcall]⟩
  | cons op rest ih =>
    obtain ⟨hop, hrest⟩ := List.forall_mem_cons.mp hfront
    obtain ⟨more, hmore⟩ := ih hrest
    have hcall : ∃ bytes, Sender.call .init op = .ok (.init, bytes) := by
      rcases hop with ⟨data, rfl, -⟩ | ⟨data, rfl, hshort⟩
      · exact ⟨_, rfl⟩
      · exact ⟨_, if_neg (Nat.not_lt.mpr hshort)⟩
    obtain ⟨bytes, hcall⟩ := hcall
    exact ⟨bytes ++ more, by simp [Sender.run, hcall, hmore]⟩

/-- A client that takes messages as long as the server does can read what it is called for. -/
theorem readable_called (hlong : o.limit = 0 ∨ serverOptions.limit ≤ o.limit)
    (hfront : ∀ op ∈ front, Plain op) (hlast : last = [] ∨ ∃ op, Closing op ∧ last = [op]) :
    Readable o none (front ++ last) := by
  induction front with
  | nil =>
    rcases hlast with rfl | ⟨op, ⟨code, data, rfl, -, -, hvalid⟩, rfl⟩
    · trivial
    · exact ⟨Or.inr hvalid, rfl⟩
  | cons op rest ih =>
    obtain ⟨hop, hrest⟩ := List.forall_mem_cons.mp hfront
    rcases hop with ⟨data, rfl, hshort⟩ | ⟨data, rfl, -⟩
    · exact ⟨hlong.imp_right hshort.trans, fun _ => Or.inl rfl, ih hrest⟩
    · exact ih hrest

/-- The messages that are said are the ones the sender is called for. -/
theorem messages_said (hfront : ∀ op ∈ front, Plain op)
    (hlast : last = [] ∨ ∃ op, Closing op ∧ last = [op]) :
    messages (said none (front ++ last)) = dataFrames (front ++ last) := by
  induction front with
  | nil =>
    rcases hlast with rfl | ⟨op, ⟨code, data, rfl, -⟩, rfl⟩
    · rfl
    · cases code <;> rfl
  | cons op rest ih =>
    obtain ⟨hop, hrest⟩ := List.forall_mem_cons.mp hfront
    rcases hop with ⟨data, rfl, -⟩ | ⟨data, rfl, -⟩
    · exact congrArg (Frame.mk data true :: ·) (ih hrest)
    · exact ih hrest

/-- What a client hears of what its sender has been called for. -/
theorem Called.hears {server : SignalingServer} {calls : List (Nat × SendOp)} {client : Nat}
    (h : Called server calls client) (hclient : o.isServer = false)
    (hlong : o.limit = 0 ∨ serverOptions.limit ≤ o.limit) :
    ∃ bytes, Sender.run .init (received client calls) = .ok bytes ∧
      ∀ chunks : List (List UInt8), chunks.flatten = bytes →
        messages (Receiver.receive o .init chunks).2 = received client server.sent := by
  obtain ⟨front, last, hcalls, hfront, hending⟩ := h.order
  have hlast : last = [] ∨ ∃ op, Closing op ∧ last = [op] := hending.imp_right And.right
  obtain ⟨bytes, hrun⟩ := run_called hfront hlast
  have hfits : ∀ op ∈ front ++ last, op.Fits o := by
    intro op hop
    rcases List.mem_append.mp hop with hplain | hclosing
    · exact (hfront op hplain).fits hclient
    · rcases hlast with rfl | ⟨op', hop', rfl⟩
      · cases hclosing
      · exact List.mem_singleton.mp hclosing ▸ hop'.fits hclient
  obtain ⟨frames, s, rfl, haccept⟩ :=
    run_frames hfits (readable_called hlong hfront hlast) hrun
  refine ⟨_, hcalls ▸ hrun, fun chunks hchunks => ?_⟩
  rw [(receive_init o chunks).1, hchunks, events_frames haccept, messages_said hfront hlast,
    ← hcalls]
  exact h.sent

end Hears

section Main

variable {p : SignalingProcess} {acts : List Act}

/-- Nothing ends the process but a stream that breaks the protocol, and any one of these, from any
client, ends it. -/
theorem crashed_iff (hrun : machine.run init acts = some p) :
    p.crashed = true ↔ ∃ ws e, .error e ∈ emitted ws acts := by
  obtain ⟨log, h⟩ := traced_run hrun
  exact h.crashed

/-- A client that does not mask. -/
def unmaskedActs : List Act := [.connection, .connection, .data 1 [0x82, 0]]

theorem crashed_iff_unmaskedActs :
    ∃ p, machine.run init unmaskedActs = some p ∧ p.crashed = true ∧
      ∃ ws e, .error e ∈ emitted ws unmaskedActs := by
  have hdied : (machine.run init unmaskedActs).map SignalingProcess.crashed = some true := by
    decide +kernel
  obtain ⟨p, hrun, hcrashed⟩ := Option.map_eq_some_iff.mp hdied
  exact ⟨p, hrun, hcrashed, (crashed_iff hrun).mp hcrashed⟩

end Main

end SignalingProcess

end MediaStream.WebRTC
