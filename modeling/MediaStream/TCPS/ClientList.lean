import Mathlib.Data.List.Nodup
import MediaStream.Lib.Mutex
import MediaStream.TCPS.Server

/-!
The invariant of the `clients` vector: it lists exactly the descriptors of the
connections between their `push_back` and their `erase`, without repetition,
and the mutex is held exactly by the thread that is in a critical section.
Descriptor numbers may be reused by the kernel at any time after `close`.
-/

namespace MediaStream.TCPS

open Lib

def HandleC.listed : HandleC → Bool
  | .recv | .lockBroadcast _ | .broadcast _ _ | .lockErase | .erase => true
  | .close | .done => false

/-- Inside one of the two critical sections of `handle_c`. -/
def HandleC.locked : HandleC → Bool
  | .broadcast _ _ | .erase => true
  | .recv | .lockBroadcast _ | .lockErase | .close | .done => false

def AcceptLoop.conn : AcceptLoop → Option Nat
  | .accept => none
  | .lockPush c | .push c | .spawn c => some c

namespace Server

/-- The connection's descriptor has been pushed onto `clients` and its handler
has not erased it. -/
def Registered (s : Server) (c : Nat) : Prop :=
  s.acceptLoop = .spawn c ∨ ∃ pc, s.handler c = some pc ∧ pc.listed = true

/-- Accepted and not closed. -/
def Open (s : Server) (c : Nat) : Prop :=
  c < s.accepted ∧ s.handler c ≠ some .done

def Live (s : Server) (c : Nat) : Prop :=
  s.acceptLoop = .spawn c ∨ ∃ pc, s.handler c = some pc ∧ pc ≠ .done

/-- The thread is between a `lock_guard` and its destruction. -/
def Inside (s : Server) : Thread → Prop
  | .main => ∃ c, s.acceptLoop = .push c
  | .handler c => ∃ pc, s.handler c = some pc ∧ pc.locked = true

end Server

structure Ok (s : Server) : Prop where
  loop : ∀ c, s.acceptLoop.conn = some c ↔ c < s.accepted ∧ s.handler c = none
  fresh : ∀ c, s.accepted ≤ c → s.handler c = none
  table : ∀ fd c, s.table fd = some c ↔ s.Open c ∧ s.clientSocket c = fd
  nodup : s.clients.Nodup
  mem : ∀ fd, fd ∈ s.clients ↔ ∃ c, s.Registered c ∧ s.clientSocket c = fd
  lock : Mutex.Held s.clientM s.Inside

section Invariant

variable {cfg : Config} {s next : Server} {a : Act} {c d : Nat} {p q : HandleC}

theorem Ok.accepted_of_handler (h : Ok s) (hpc : s.handler c = some p) : c < s.accepted := by
  by_contra hge
  have hnone := h.fresh c (by omega)
  rw [hpc] at hnone
  cases hnone

theorem Ok.open_of_registered (h : Ok s) (hc : s.Registered c) : s.Open c := by
  rcases hc with hspawn | ⟨pc, hpc, hlisted⟩
  · obtain ⟨hlt, hnone⟩ := (h.loop c).mp (by simp [hspawn, AcceptLoop.conn])
    exact ⟨hlt, by simp [hnone]⟩
  · refine ⟨h.accepted_of_handler hpc, ?_⟩
    rintro hdone
    rw [hpc, Option.some.injEq] at hdone
    subst hdone
    cases hlisted

/-- Two open connections never share a descriptor number. -/
theorem Ok.socket_injective (h : Ok s) (hc : s.Open c) (hd : s.Open d)
    (heq : s.clientSocket c = s.clientSocket d) : c = d := by
  have hfirst := (h.table (s.clientSocket d) c).mpr ⟨hc, heq⟩
  have hsecond := (h.table (s.clientSocket d) d).mpr ⟨hd, rfl⟩
  rw [hfirst] at hsecond
  exact Option.some.inj hsecond

/-- The connection whose descriptor is at a position of `clients`. -/
theorem Ok.conn_at (h : Ok s) {i : Nat} {fd : Fd} (hfd : s.clients[i]? = some fd) :
    ∃ d, s.Registered d ∧ s.clientSocket d = fd ∧ s.table fd = some d := by
  obtain ⟨d, hreg, hsock⟩ := (h.mem fd).mp (List.mem_of_getElem? hfd)
  exact ⟨d, hreg, hsock, (h.table fd d).mpr ⟨h.open_of_registered hreg, hsock⟩⟩

section Moves

/-! How a new program point of one handler changes the predicates. -/

variable (hpc : s.handler c = some p)
  (hhandler : next.handler = Function.update s.handler c (some q))
  (hloop : next.acceptLoop = s.acceptLoop)
include hpc hhandler hloop

theorem registered_move (hlisted : q.listed = p.listed) :
    next.Registered d ↔ s.Registered d := by
  unfold Server.Registered
  rw [hhandler, hloop]
  by_cases hdc : d = c
  · subst hdc
    simp [hpc, hlisted]
  · simp [hdc]

omit hloop in
theorem fresh_move (h : Ok s) (haccepted : next.accepted = s.accepted) (d : Nat)
    (hd : next.accepted ≤ d) : next.handler d = none := by
  have hlt := h.accepted_of_handler hpc
  have hdc : d ≠ c := by omega
  rw [hhandler, Function.update_of_ne hdc]
  exact h.fresh d (by omega)

theorem loop_move (h : Ok s) (haccepted : next.accepted = s.accepted) (d : Nat) :
    next.acceptLoop.conn = some d ↔ d < next.accepted ∧ next.handler d = none := by
  rw [hloop, h.loop, haccepted, hhandler]
  by_cases hdc : d = c
  · subst hdc
    simp [hpc]
  · simp [hdc]

omit hloop in
theorem open_move (haccepted : next.accepted = s.accepted) (hp : p ≠ .done) (hq : q ≠ .done) :
    next.Open d ↔ s.Open d := by
  unfold Server.Open
  rw [haccepted, hhandler]
  by_cases hdc : d = c
  · subst hdc
    simp [hpc, hp, hq]
  · simp [hdc]

omit hpc in
theorem inside_move (t : Thread) :
    next.Inside t ↔ (t = .handler c ∧ q.locked = true) ∨ (t ≠ .handler c ∧ s.Inside t) := by
  cases t with
  | main => simp [Server.Inside, hloop]
  | handler d =>
    by_cases hdc : d = c
    · subst hdc
      simp [Server.Inside, hhandler]
    · simp [Server.Inside, hhandler, hdc]

theorem inside_same (hlocked : q.locked = p.locked) (t : Thread) :
    next.Inside t ↔ s.Inside t := by
  rw [inside_move hhandler hloop t]
  by_cases ht : t = .handler c
  · subst ht
    simp [Server.Inside, hpc, hlocked]
  · simp [ht]

omit hpc in
theorem inside_acquire (hin : q.locked = true) (t : Thread) :
    next.Inside t ↔ t = .handler c ∨ s.Inside t := by
  rw [inside_move hhandler hloop t]
  by_cases ht : t = .handler c
  · simp [ht, hin]
  · simp [ht]

omit hpc in
theorem inside_release (hout : q.locked = false) (t : Thread) :
    next.Inside t ↔ t ≠ .handler c ∧ s.Inside t := by
  rw [inside_move hhandler hloop t]
  simp [hout]

end Moves

/-- A handler that stays listed, or stays unlisted, keeps the client list in
order. Only the mutex has to be looked at. -/
theorem Ok.move (h : Ok s) (hpc : s.handler c = some p)
    (hhandler : next.handler = Function.update s.handler c (some q))
    (hloop : next.acceptLoop = s.acceptLoop)
    (hlisted : q.listed = p.listed) (hpDone : p ≠ .done) (hqDone : q ≠ .done)
    (hclients : next.clients = s.clients) (hsocket : next.clientSocket = s.clientSocket)
    (htable : next.table = s.table) (haccepted : next.accepted = s.accepted)
    (hlock : Mutex.Held next.clientM next.Inside) : Ok next where
  loop := loop_move hpc hhandler hloop h haccepted
  fresh := fresh_move hpc hhandler h haccepted
  table fd d := by
    rw [htable, hsocket, open_move hpc hhandler haccepted hpDone hqDone, h.table]
  nodup := hclients ▸ h.nodup
  mem fd := by
    simp only [hclients, hsocket, registered_move hpc hhandler hloop hlisted, h.mem]
  lock := hlock

/-- The kernel hands out a number that is not open; the new connection is not
registered yet. -/
theorem Ok.accept (h : Ok s) (newFd : Fd) (hpc : s.acceptLoop = .accept)
    (hfd : s.table newFd = none) :
    Ok { s with
      acceptLoop := .lockPush s.accepted
      clientSocket := Function.update s.clientSocket s.accepted newFd
      table := Function.update s.table newFd (some s.accepted)
      accepted := s.accepted + 1 } where
  loop c := by
    have hold := h.loop c
    have hnew := h.fresh c
    simp only [hpc, AcceptLoop.conn, reduceCtorEq, false_iff, not_and, Option.some.injEq] at hold ⊢
    constructor
    · rintro rfl
      exact ⟨by omega, hnew (by omega)⟩
    · rintro ⟨hlt, hnone⟩
      by_contra hne
      exact hold (by omega) hnone
  fresh c hc := h.fresh c (by simp only at hc; omega)
  table fd c := by
    have hold := h.table fd c
    unfold Server.Open at hold ⊢
    simp only [Function.update_apply]
    by_cases hc : c = s.accepted
    · subst hc
      have hnew := h.fresh s.accepted (Nat.le_refl _)
      have hnot : s.table fd ≠ some s.accepted := by
        rw [Ne, hold]
        omega
      by_cases hfd' : fd = newFd
      · simp [hfd', hnew]
      · simp [hfd', hnot, hnew, Ne.symm hfd']
    · have hlt : c < s.accepted + 1 ↔ c < s.accepted := by omega
      rw [hlt, if_neg hc, ← hold]
      by_cases hfd' : fd = newFd
      · simp only [hfd', if_true, hfd, Option.some.injEq, reduceCtorEq, iff_false]
        exact fun heq => hc heq.symm
      · simp [hfd']
  nodup := h.nodup
  mem fd := by
    have hkept : ∀ c, s.Registered c →
        Function.update s.clientSocket s.accepted newFd c = s.clientSocket c := by
      intro c hreg
      have hlt := (h.open_of_registered hreg).1
      exact Function.update_of_ne (by omega) _ _
    rw [h.mem]
    apply exists_congr
    intro c
    constructor
    · rintro ⟨hreg, hsock⟩
      exact ⟨by simpa [Server.Registered, hpc] using hreg, (hkept c hreg).trans hsock⟩
    · rintro ⟨hreg, hsock⟩
      have hreg' : s.Registered c := by simpa [Server.Registered, hpc] using hreg
      exact ⟨hreg', (hkept c hreg').symm.trans hsock⟩
  lock := h.lock.move fun t => by
    cases t <;> simp [Server.Inside, hpc]

theorem Ok.lockPush (h : Ok s) (hpc : s.acceptLoop = .lockPush c) (hfree : s.clientM = none) :
    Ok { s with clientM := some .main, acceptLoop := .push c } where
  loop d := by simpa [hpc, AcceptLoop.conn] using h.loop d
  fresh := h.fresh
  table := h.table
  nodup := h.nodup
  mem fd := by simpa [Server.Registered, hpc] using h.mem fd
  lock := h.lock.acquire hfree fun t => by
    cases t <;> simp [Server.Inside, hpc]

/-- The pushed descriptor is new in `clients`: an open connection with the
same number would be the pushed one. -/
theorem Ok.pushBack (h : Ok s) (hpc : s.acceptLoop = .push c) :
    Ok { s with
      clients := s.clients ++ [s.clientSocket c]
      clientM := none
      acceptLoop := .spawn c } where
  loop d := by simpa [hpc, AcceptLoop.conn] using h.loop d
  fresh := h.fresh
  table := h.table
  nodup := by
    obtain ⟨hlt, hnone⟩ := (h.loop c).mp (by simp [hpc, AcceptLoop.conn])
    rw [List.nodup_append_comm, List.singleton_append, List.nodup_cons]
    refine ⟨fun hmem => ?_, h.nodup⟩
    obtain ⟨d, hreg, hsock⟩ := (h.mem _).mp hmem
    have hdc := h.socket_injective (h.open_of_registered hreg) ⟨hlt, by simp [hnone]⟩ hsock
    simp [Server.Registered, hpc, hdc, hnone] at hreg
  mem fd := by
    simp only [List.mem_append, List.mem_singleton, h.mem]
    simp only [Server.Registered, hpc, AcceptLoop.spawn.injEq, reduceCtorEq, false_or]
    constructor
    · rintro (⟨d, hreg, hsock⟩ | rfl)
      · exact ⟨d, Or.inr hreg, hsock⟩
      · exact ⟨c, Or.inl rfl, rfl⟩
    · rintro ⟨d, rfl | hreg, hsock⟩
      · exact Or.inr hsock.symm
      · exact Or.inl ⟨d, hreg, hsock⟩
  lock := h.lock.release (t := .main) ⟨c, hpc⟩ fun t => by
    cases t <;> simp [Server.Inside]

theorem Ok.spawn (h : Ok s) (hpc : s.acceptLoop = .spawn c) :
    Ok { s.setHandler c .recv with acceptLoop := .accept } := by
  obtain ⟨hlt, hnone⟩ := (h.loop c).mp (by simp [hpc, AcceptLoop.conn])
  constructor
  case loop =>
    intro d
    have hold := h.loop d
    by_cases hdc : d = c
    · simp [AcceptLoop.conn, Server.setHandler, hdc]
    · simpa [AcceptLoop.conn, Server.setHandler, hdc, Ne.symm hdc, hpc] using hold
  case fresh =>
    intro d hd
    have hdc : d ≠ c := by
      rintro rfl
      exact absurd hlt (by simpa [Server.setHandler] using hd)
    simpa [Server.setHandler, hdc] using h.fresh d hd
  case table =>
    intro fd d
    have hold := h.table fd d
    by_cases hdc : d = c
    · subst hdc
      simpa [Server.Open, Server.setHandler, hnone] using hold
    · simpa [Server.Open, Server.setHandler, hdc] using hold
  case nodup => exact h.nodup
  case mem =>
    intro fd
    refine (h.mem fd).trans (exists_congr fun d => and_congr_left' ?_)
    by_cases hdc : d = c
    · simp [Server.Registered, Server.setHandler, hdc, hpc, HandleC.listed]
    · simp [Server.Registered, Server.setHandler, hdc, Ne.symm hdc, hpc]
  case lock =>
    apply h.lock.move
    intro t
    cases t with
    | main => simp [Server.Inside, hpc]
    | handler d =>
      by_cases hdc : d = c
      · simp [Server.Inside, Server.setHandler, hdc, hnone, HandleC.locked]
      · simp [Server.Inside, Server.setHandler, hdc]

/-- The handler's own descriptor leaves the list, and no other connection in
the list has that number. -/
theorem Ok.erase (h : Ok s) (hpc : s.handler c = some .erase) :
    Ok { s.setHandler c .close with
      clients := Server.eraseClient s.clients (s.clientSocket c)
      clientM := none } := by
  have hlt := h.accepted_of_handler hpc
  have hopen : s.Open c := ⟨hlt, by simp [hpc]⟩
  constructor
  case loop => exact loop_move hpc rfl rfl h rfl
  case fresh => exact fresh_move hpc rfl h rfl
  case table =>
    intro fd d
    refine (h.table fd d).trans (and_congr_left' ?_)
    symm
    exact open_move hpc rfl rfl (by simp) (by simp)
  case nodup => exact h.nodup.filter _
  case mem =>
    intro fd
    simp only [Server.eraseClient, List.mem_filter, h.mem, decide_eq_true_eq]
    constructor
    · rintro ⟨⟨d, hreg, hsock⟩, hne⟩
      have hdc : d ≠ c := by
        rintro rfl
        exact hne hsock.symm
      exact ⟨d, by simpa [Server.Registered, Server.setHandler, hdc] using hreg, hsock⟩
    · rintro ⟨d, hreg, hsock⟩
      have hloop : s.acceptLoop ≠ .spawn c := by
        intro hspawn
        have hnone := ((h.loop c).mp (by simp [hspawn, AcceptLoop.conn])).2
        rw [hpc] at hnone
        cases hnone
      have hdc : d ≠ c := by
        rintro rfl
        simp [Server.Registered, Server.setHandler, HandleC.listed, hloop] at hreg
      have hreg' : s.Registered d := by
        simpa [Server.Registered, Server.setHandler, hdc] using hreg
      refine ⟨⟨d, hreg', hsock⟩, ?_⟩
      rintro rfl
      exact hdc (h.socket_injective (h.open_of_registered hreg') hopen hsock)
  case lock =>
    exact h.lock.release (t := .handler c) ⟨.erase, hpc, rfl⟩
      (inside_release (q := .close) rfl rfl rfl)

/-- Closing frees the number; the connection was not registered any more. -/
theorem Ok.close (h : Ok s) (hpc : s.handler c = some .close) :
    Ok { s.setHandler c .done with
      table := Function.update s.table (s.clientSocket c) none } := by
  have hlt := h.accepted_of_handler hpc
  have hopen : s.Open c := ⟨hlt, by simp [hpc]⟩
  constructor
  case loop => exact loop_move hpc rfl rfl h rfl
  case fresh => exact fresh_move hpc rfl h rfl
  case table =>
    intro fd d
    have hold := h.table fd d
    by_cases hdc : d = c
    · subst hdc
      by_cases hfd : fd = s.clientSocket d
      · simp [Server.Open, Server.setHandler, hfd]
      · have hnot : s.table fd ≠ some d := fun heq => hfd (hold.mp heq).2.symm
        simp [Server.Open, Server.setHandler, hfd, hnot]
    · by_cases hfd : fd = s.clientSocket c
      · have hown := (h.table fd c).mpr ⟨hopen, hfd.symm⟩
        have hnot : ¬ (s.Open d ∧ s.clientSocket d = fd) := by
          rw [← hold, hown]
          simpa using Ne.symm hdc
        subst hfd
        simpa [Server.Open, Server.setHandler, hdc] using hnot
      · simpa [Server.Open, Server.setHandler, hdc, hfd] using hold
  case nodup => exact h.nodup
  case mem =>
    intro fd
    refine (h.mem fd).trans (exists_congr fun d => and_congr_left' ?_)
    symm
    exact registered_move (q := .done) hpc rfl rfl rfl
  case lock => exact h.lock.move (inside_same (q := .done) hpc rfl rfl rfl)

theorem ok_init : Ok Server.init where
  loop c := by simp [Server.init, AcceptLoop.conn]
  fresh c _ := rfl
  table fd c := by simp [Server.init, Server.Open]
  nodup := List.nodup_nil
  mem fd := by simp [Server.init, Server.Registered]
  lock t := by cases t <;> simp [Server.init, Server.Inside]

/-- Every step of every thread keeps the invariant. -/
theorem ok_step (h : Ok s) (hstep : (server cfg).step s a = some next) : Ok next := by
  cases step_cases hstep with
  | clientSend c bytes hc hopen => exact ⟨h.loop, h.fresh, h.table, h.nodup, h.mem, h.lock⟩
  | clientRead c n hc hn => exact ⟨h.loop, h.fresh, h.table, h.nodup, h.mem, h.lock⟩
  | clientShut c hc => exact ⟨h.loop, h.fresh, h.table, h.nodup, h.mem, h.lock⟩
  | linkDown c l hc hl => exact ⟨h.loop, h.fresh, h.table, h.nodup, h.mem, h.lock⟩
  | acceptError hrun hpc => exact h
  | accept newFd hrun hpc hfd => exact h.accept newFd hpc hfd
  | lockPush c hrun hpc hfree => exact h.lockPush hpc hfree
  | pushBack c hrun hpc => exact h.pushBack hpc
  | spawn c hrun hpc => exact h.spawn hpc
  | recv c n hrun hpc hpos hsize hn =>
    exact h.move hpc rfl rfl rfl (by simp) (by simp) rfl rfl rfl rfl
      (h.lock.move (inside_same hpc rfl rfl rfl))
  | recvZero c hrun hpc hempty hshut =>
    exact h.move hpc rfl rfl rfl (by simp) (by simp) rfl rfl rfl rfl
      (h.lock.move (inside_same hpc rfl rfl rfl))
  | recvError c hrun hpc =>
    exact h.move hpc rfl rfl rfl (by simp) (by simp) rfl rfl rfl rfl
      (h.lock.move (inside_same hpc rfl rfl rfl))
  | lockBroadcast c buffer hrun hpc hfree =>
    exact h.move hpc rfl rfl rfl (by simp) (by simp) rfl rfl rfl rfl
      (h.lock.acquire hfree (inside_acquire rfl rfl rfl))
  | iterateEnd c buffer i hrun hpc hsent hend =>
    exact h.move hpc rfl rfl rfl (by simp) (by simp) rfl rfl rfl rfl
      (h.lock.release (t := .handler c) ⟨_, hpc, rfl⟩ (inside_release rfl rfl rfl))
  | iterateSelf c buffer i hrun hpc hsent hfd =>
    exact h.move hpc rfl rfl rfl (by simp) (by simp) rfl rfl rfl rfl
      (h.lock.move (inside_same hpc rfl rfl rfl))
  | iterateSend c buffer i fd hrun hpc hsent hfd hother =>
    obtain ⟨stream, running, hsend⟩ := send_frame cfg s fd buffer
    rw [hsend]
    exact h.move hpc rfl rfl rfl (by simp) (by simp) rfl rfl rfl rfl
      (h.lock.move (inside_same hpc rfl rfl rfl))
  | lockErase c hrun hpc hfree =>
    exact h.move hpc rfl rfl rfl (by simp) (by simp) rfl rfl rfl rfl
      (h.lock.acquire hfree (inside_acquire rfl rfl rfl))
  | erase c hrun hpc => exact h.erase hpc
  | close c hrun hpc => exact h.close hpc

theorem ok_of_reaches (h : (server cfg).Reaches Server.init s) : Ok s :=
  h.preserves (fun _ _ _ hok hstep => ok_step hok hstep) ok_init

theorem Ok.registered_of_listed (h : Ok s) (hpc : s.handler c = some p)
    (hlisted : p.listed = true) : s.clientSocket c ∈ s.clients :=
  (h.mem _).mpr ⟨c, Or.inr ⟨p, hpc, hlisted⟩, rfl⟩

theorem live_of_registered (h : s.Registered c) : s.Live c := by
  rcases h with hspawn | ⟨pc, hpc, hlisted⟩
  · exact Or.inl hspawn
  · refine Or.inr ⟨pc, hpc, ?_⟩
    rintro rfl
    cases hlisted

theorem Ok.open_of_live (h : Ok s) (hc : s.Live c) : s.Open c := by
  rcases hc with hspawn | ⟨pc, hpc, hdone⟩
  · exact h.open_of_registered (Or.inl hspawn)
  · exact ⟨h.accepted_of_handler hpc, by simp [hpc, hdone]⟩

/-- What `erase` removes is one entry, the handler's own, and the number still
belongs to the handler's connection. -/
theorem Ok.erase_own (h : Ok s) (hpc : s.handler c = some .erase) :
    s.table (s.clientSocket c) = some c ∧
      ∃ front back, s.clients = front ++ s.clientSocket c :: back ∧
        Server.eraseClient s.clients (s.clientSocket c) = front ++ back := by
  have hmem := h.registered_of_listed hpc rfl
  have hopen := h.open_of_registered (Or.inr ⟨_, hpc, rfl⟩)
  refine ⟨(h.table _ c).mpr ⟨hopen, rfl⟩, ?_⟩
  obtain ⟨front, back, hsplit⟩ := List.append_of_mem hmem
  refine ⟨front, back, hsplit, ?_⟩
  have hnodup := h.nodup
  rw [hsplit, List.nodup_middle, List.nodup_cons] at hnodup
  have hkeep : ∀ fd ∈ front ++ back, fd ≠ s.clientSocket c := by
    rintro fd hfd rfl
    exact hnodup.1 hfd
  rw [hsplit, Server.eraseClient, List.filter_append, List.filter_cons_of_neg (by simp),
    ← List.filter_append]
  exact List.filter_eq_self.mpr fun fd hfd => by simpa using hkeep fd hfd

/-- In every reachable state of the server, whatever numbers the kernel
reuses: `clients` has no repetition; each descriptor in it is open and belongs
to exactly one connection with a running or about to be created handler; the
handlers that have not erased themselves are listed; a broadcast only sends to
open, registered connections; and an `erase` removes its own entry only. -/
theorem clients_track_connections (h : (server cfg).Reaches Server.init s) :
    s.clients.Nodup ∧
    (∀ fd ∈ s.clients, ∃ c, s.table fd = some c ∧ s.Live c ∧ s.clientSocket c = fd ∧
      ∀ d, s.Live d → s.clientSocket d = fd → d = c) ∧
    (∀ c pc, s.handler c = some pc → pc.listed = true → s.clientSocket c ∈ s.clients) ∧
    (∀ c buffer i fd, s.handler c = some (.broadcast buffer i) → s.clients[i]? = some fd →
      fd ≠ s.clientSocket c →
      ∃ d, d ≠ c ∧ s.table fd = some d ∧ s.clientSocket d = fd ∧ s.Open d ∧ s.Registered d) ∧
    (∀ c next, (server cfg).step s (.erase c) = some next →
      s.table (s.clientSocket c) = some c ∧
      (∃ front back, s.clients = front ++ s.clientSocket c :: back ∧
        next.clients = front ++ back) ∧
      ∀ d, d ≠ c → s.Registered d → s.clientSocket d ∈ next.clients) := by
  have hok := ok_of_reaches h
  refine ⟨hok.nodup, ?_, fun c pc hpc hlisted => hok.registered_of_listed hpc hlisted, ?_, ?_⟩
  · intro fd hfd
    obtain ⟨c, hreg, rfl⟩ := (hok.mem fd).mp hfd
    have hopen := hok.open_of_registered hreg
    refine ⟨c, (hok.table _ c).mpr ⟨hopen, rfl⟩, live_of_registered hreg, rfl, ?_⟩
    intro d hlive hsock
    exact hok.socket_injective (hok.open_of_live hlive) hopen hsock
  · intro c buffer i fd hpc hfd hother
    obtain ⟨d, hreg, hsock, htable⟩ := hok.conn_at hfd
    refine ⟨d, ?_, htable, hsock, hok.open_of_registered hreg, hreg⟩
    rintro rfl
    exact hother hsock.symm
  · intro c next hstep
    have hnext := ok_step hok hstep
    cases step_cases hstep with
    | erase c hrun hpc =>
      obtain ⟨htable, herase⟩ := hok.erase_own hpc
      refine ⟨htable, herase, ?_⟩
      intro d hdc hreg
      refine (hnext.mem _).mpr ⟨d, ?_, rfl⟩
      simpa [Server.Registered, Server.setHandler, hdc] using hreg

/-- Two connections; the first leaves and its number 4 is given to a third
one while the second broadcasts. -/
def reuseRun : List Act :=
  [.accept 4, .lockPush, .pushBack, .spawn, .accept 5, .lockPush, .pushBack, .spawn,
    .recvError 0, .lockErase 0, .erase 0, .close 0, .clientSend 1 [7, 8],
    .accept 4, .lockPush, .pushBack, .recv 1 2, .lockBroadcast 1, .iterate 1]

theorem clients_track_connections_reuse :
    ∃ s, (server relay).run Server.init reuseRun = some s ∧ s.clients = [5, 4] ∧
      s.handler 0 = some .done ∧ s.handler 1 = some (.broadcast [7, 8] 1) ∧
      s.table 4 = some 2 ∧
      ∃ d, d ≠ 1 ∧ s.table 4 = some d ∧ s.clientSocket d = 4 ∧ s.Open d ∧ s.Registered d := by
  refine ⟨_, rfl, rfl, rfl, rfl, rfl, ?_⟩
  have hreach : (server relay).Reaches Server.init _ := ⟨reuseRun, rfl⟩
  exact (clients_track_connections hreach).2.2.2.1 1 [7, 8] 1 4 rfl rfl (by decide)

end Invariant

end MediaStream.TCPS
