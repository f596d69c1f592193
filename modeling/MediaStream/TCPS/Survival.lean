import MediaStream.TCPS.ClientList

/-!
What a client can do to the process of the relay. `TCPS.cpp` leaves `SIGPIPE`
at its default action: a broadcast that reaches a connection which its peer has
reset ends the process, although the code below `send` would only report the
error and go on. `TCPLBSr.cpp` ignores the signal.
-/

namespace MediaStream.TCPS

open Lib

/-- One iteration of a send loop calls `send` for a connection that has been
reset. -/
def Server.SendsToReset (s : Server) (a : Act) : Prop :=
  ∃ c d, a = .iterate c ∧ s.target c = some d ∧ s.link d = .reset

/-- What the clients of a running server rely on. -/
structure Serving (cfg : Config) (s : Server) : Prop where
  running : s.running = true
  listed : ∀ c, s.Registered c →
    s.clientSocket c ∈ s.clients ∧ s.table (s.clientSocket c) = some c
  /-- Nothing but its own handler removes a client. -/
  stays : ∀ a next c, (server cfg).step s a = some next → s.Registered c → a ≠ .erase c →
    next.Registered c
  /-- A broadcast that has come to a client delivers its chunk. -/
  relayed : ∀ c buffer i d, s.handler c = some (.broadcast buffer i) → s.target c = some d →
    s.link d = .up → s.Returned cfg c →
    ∃ next, (server cfg).step s (.iterate c) = some next ∧ next.stream d = s.stream d ++ buffer

section Steps

variable {cfg : Config} {s next : Server} {a : Act} {c d : Nat}

theorem registered_step (hok : Ok s) (hstep : Step cfg s a next) (hc : s.Registered c)
    (ha : a ≠ .erase c) : next.Registered c := by
  have hmove : ∀ {d p q} {other : Server}, s.handler d = some p →
      other.handler = Function.update s.handler d (some q) →
      other.acceptLoop = s.acceptLoop → q.listed = p.listed → other.Registered c :=
    fun hpc hhandler hloop hlisted => (registered_move hpc hhandler hloop hlisted).mpr hc
  cases hstep with
  | clientSend | clientRead | clientShut | linkDown | acceptError => exact hc
  | accept newFd hrun hpc hfd => simpa [Server.Registered, hpc] using hc
  | lockPush d hrun hpc hfree => simpa [Server.Registered, hpc] using hc
  | pushBack d hrun hpc =>
    simp only [Server.Registered, hpc, reduceCtorEq, false_or] at hc
    exact Or.inr hc
  | spawn d hrun hpc =>
    rcases hc with hspawn | ⟨pc, hhandler, hlisted⟩
    · rw [hpc] at hspawn
      obtain rfl := AcceptLoop.spawn.inj hspawn
      exact Or.inr ⟨.recv, Function.update_self .., rfl⟩
    · have hnone := ((hok.loop d).mp (by simp [hpc, AcceptLoop.conn])).2
      have hcd : c ≠ d := by
        rintro rfl
        cases hnone.symm.trans hhandler
      exact Or.inr ⟨pc, (Function.update_of_ne hcd _ _).trans hhandler, hlisted⟩
  | recv d n hrun hpc hpos hsize hn => exact hmove hpc rfl rfl rfl
  | recvZero d hrun hpc hempty hshut => exact hmove hpc rfl rfl rfl
  | recvError d hrun hpc => exact hmove hpc rfl rfl rfl
  | lockBroadcast d buffer hrun hpc hfree => exact hmove hpc rfl rfl rfl
  | iterateEnd d buffer i hrun hpc hsent hend => exact hmove hpc rfl rfl rfl
  | iterateSelf d buffer i hrun hpc hsent hfd => exact hmove hpc rfl rfl rfl
  | iterateSend d buffer i fd hrun hpc hsent hfd hother =>
    obtain ⟨stream, running, hsend⟩ := send_frame cfg s fd buffer
    rw [hsend]
    exact hmove hpc rfl rfl rfl
  | lockErase d hrun hpc hfree => exact hmove hpc rfl rfl rfl
  | close d hrun hpc => exact hmove hpc rfl rfl rfl
  | erase d hrun hpc =>
    have hcd : c ≠ d := by
      rintro rfl
      exact ha rfl
    simpa [Server.Registered, Server.setHandler, hcd] using hc

theorem sendsToReset_iterate : s.SendsToReset (.iterate c) ↔
    ∃ d, s.target c = some d ∧ s.link d = .reset := by
  constructor
  · rintro ⟨k, d, hk, htarget, hlink⟩
    obtain rfl := Act.iterate.inj hk
    exact ⟨d, htarget, hlink⟩
  · rintro ⟨d, htarget, hlink⟩
    exact ⟨c, d, rfl, htarget, hlink⟩

theorem send_running {buffer : Chunk} {fd : Fd} (hrunning : s.running = true)
    (htable : s.table fd = some d) :
    (s.send cfg fd buffer).running = true ↔ ¬(cfg.ignoreSigpipe = false ∧ s.link d = .reset) := by
  unfold Server.send
  simp only [htable]
  cases s.link d with
  | up => simp [hrunning]
  | broken => simp [hrunning]
  | reset => cases cfg.ignoreSigpipe <;> simp [hrunning]

/-- Only `SIGPIPE` ends the process. -/
theorem running_step (hok : Ok s) (hstep : Step cfg s a next) (hrunning : s.running = true) :
    next.running = true ↔ ¬(cfg.ignoreSigpipe = false ∧ s.SendsToReset a) := by
  cases hstep with
  | iterateSend c buffer i fd hrun hpc hsent hfd hother =>
    obtain ⟨d, -, -, htable⟩ := hok.conn_at hfd
    have htarget : s.target c = some d := by simp [Server.target, hpc, hfd, hother, htable]
    simp only [sendsToReset_iterate, htarget, Option.some.injEq, exists_eq_left']
    exact send_running hrunning htable
  | iterateEnd c buffer i hrun hpc hsent hend =>
    have htarget : s.target c = none := by simp [Server.target, hpc, hend]
    simp [sendsToReset_iterate, htarget, hrunning]
  | iterateSelf c buffer i hrun hpc hsent hfd =>
    have htarget : s.target c = none := by simp [Server.target, hpc, hfd]
    simp [sendsToReset_iterate, htarget, hrunning]
  | _ => simp [Server.SendsToReset, hrunning]

theorem relayed_of_running (hrunning : s.running = true) {buffer : Chunk} {i : Nat}
    (hpc : s.handler c = some (.broadcast buffer i)) (htarget : s.target c = some d)
    (hlink : s.link d = .up) (hsent : s.Returned cfg c) :
    ∃ next, (server cfg).step s (.iterate c) = some next ∧
      next.stream d = s.stream d ++ buffer := by
  obtain ⟨fd, hfd, hother, htable⟩ := (target_eq_some hpc).mp htarget
  refine ⟨_, step_iff.mpr (.iterateSend c buffer i fd hrunning hpc hsent hfd hother), ?_⟩
  simp [Server.send, htable, hlink]

theorem serving_iff (hok : Ok s) : Serving cfg s ↔ s.running = true := by
  constructor
  · exact Serving.running
  · intro hrunning
    constructor
    case running => exact hrunning
    case listed =>
      intro c hc
      have hopen := hok.open_of_registered hc
      exact ⟨(hok.mem _).mpr ⟨c, hc, rfl⟩, (hok.table _ c).mpr ⟨hopen, rfl⟩⟩
    case stays => exact fun a next c hstep hc ha => registered_step hok (step_cases hstep) hc ha
    case relayed =>
      exact fun c buffer i d hpc htarget hlink hsent =>
        relayed_of_running hrunning hpc htarget hlink hsent

end Steps

section Runs

variable {cfg : Config} {finish : Server} {actions : List Act}

theorem serving_throughout_iff
    (hrun : (server cfg).run Server.init actions = some finish) :
    (server cfg).Throughout (Serving cfg) Server.init actions ↔
      (server cfg).Respects (fun s a => ¬(cfg.ignoreSigpipe = false ∧ s.SendsToReset a))
        Server.init actions := by
  apply Machine.throughout_iff_respects (I := Ok)
  · intro s a next hok hserving hstep
    rw [serving_iff (ok_step hok hstep)]
    exact running_step hok (step_cases hstep) hserving.running
  · exact fun s a next hok _ hstep _ => ok_step hok hstep
  · exact ok_init
  · exact (serving_iff ok_init).mpr rfl
  · exact hrun

/-- The relay keeps running, with its remaining clients registered and served,
in exactly those runs in which no broadcast calls `send` for a connection that
its peer has reset. -/
theorem relay_survives_iff (hrun : (server relay).run Server.init actions = some finish) :
    (server relay).Throughout (Serving relay) Server.init actions ↔
      (server relay).Respects (fun s a => ¬s.SendsToReset a) Server.init actions := by
  simpa [relay] using serving_throughout_iff hrun

/-- The latency server keeps running whatever its clients do. -/
theorem latencyRelay_survives
    (hrun : (server latencyRelay).run Server.init actions = some finish) :
    (server latencyRelay).Throughout (Serving latencyRelay) Server.init actions := by
  rw [serving_throughout_iff hrun]
  exact Machine.respects_of_forall (by simp [latencyRelay]) _ _

/-- Three clients; the second vanishes while the first sends. -/
def resetRun : List Act :=
  [.accept 4, .lockPush, .pushBack, .spawn, .accept 5, .lockPush, .pushBack, .spawn,
    .accept 6, .lockPush, .pushBack, .spawn, .clientSend 0 [1, 2, 3, 4], .recv 0 4,
    .linkDown 1 .reset, .lockBroadcast 0, .iterate 0, .iterate 0]

/-- The process is gone before the third client gets its chunk, while the
latency server delivers it. -/
theorem relay_survives_reset :
    (∃ s, (server relay).run Server.init resetRun = some s ∧ s.running = false ∧
      s.handler 2 = some .recv ∧ s.stream 2 = [] ∧ ∀ a, a.thread ≠ none →
        (server relay).step s a = none) ∧
    ∃ s, (server latencyRelay).run Server.init (resetRun ++ [Act.iterate 0]) = some s ∧
      s.stream 2 = [1, 2, 3, 4] := by
  refine ⟨⟨_, rfl, rfl, rfl, rfl, ?_⟩, ⟨_, rfl, rfl⟩⟩
  intro a ha
  cases a <;> first | rfl | exact absurd rfl ha

theorem relay_survives_iff_resetRun :
    ¬(server relay).Respects (fun s a => ¬s.SendsToReset a) Server.init resetRun := by
  intro h
  have hserving := ((relay_survives_iff rfl).mpr h).last (rfl : _ = some _)
  exact absurd hserving.running Bool.false_ne_true

end Runs

end MediaStream.TCPS
