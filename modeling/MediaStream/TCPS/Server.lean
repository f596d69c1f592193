import Mathlib.Logic.Function.Basic
import MediaStream.Lib.Machine

/-!
The relay server: the accept loop of `main` and any number of `handle_c`
threads over the shared `clients` vector and its mutex `client_m`. Every
acquisition and release of the mutex, every iteration of the send loop and
every system call is a separate action, so a run may interleave the threads
at any of these points.

Connections are numbered in the order `accept` returned them. The threads
only know descriptor numbers; which connection a number means is the kernel's
descriptor table, and the kernel reuses a number once it has been closed.

The same code runs in the latency server, whose `handle_client` is this
`handle_c` and whose `main` ignores `SIGPIPE` first.
-/

namespace MediaStream.TCPS

open Lib

abbrev Fd := Nat

abbrev Chunk := List UInt8

/-- `BUFFSIZE`, the size of the buffer a handler passes to `recv`. -/
def buffSize : Nat := 4096

/-- What a `send` on the connection meets. It never returns to `up`. -/
inductive Link where
  | up
  /-- Down with an error other than `EPIPE`: `send` returns -1. -/
  | broken
  /-- Reset by the peer: `send` raises `SIGPIPE` and fails with `EPIPE`. -/
  | reset
  deriving DecidableEq

/-- Program points of a `handle_c` thread. -/
inductive HandleC where
  /-- At `recv` in the loop condition. -/
  | recv
  /-- `recv` has filled `buffer`; at the `lock_guard` of the broadcast. -/
  | lockBroadcast (buffer : Chunk)
  /-- Holding `client_m`, with the loop's iterator at position `i`. The last `send` may
  not have returned yet. -/
  | broadcast (buffer : Chunk) (i : Nat)
  /-- Past the loop, at the `lock_guard` of the removal. -/
  | lockErase
  /-- Holding `client_m`, at the `erase`. -/
  | erase
  | close
  | done
  deriving DecidableEq

/-- Program points of the accept loop, with the connection `new_fd` belongs to. -/
inductive AcceptLoop where
  | accept
  | lockPush (c : Nat)
  /-- Holding `client_m`, at the `push_back`. -/
  | push (c : Nat)
  | spawn (c : Nat)
  deriving DecidableEq

inductive Thread where
  | main
  | handler (c : Nat)
  deriving DecidableEq

structure Server where
  /-- The process exists: no signal has terminated it. -/
  running : Bool
  clients : List Fd
  /-- The thread that holds `client_m`. -/
  clientM : Option Thread
  acceptLoop : AcceptLoop
  /-- The handler thread of each connection, once it has been created. -/
  handler : Nat → Option HandleC
  /-- The value `accept` returned for the connection. -/
  clientSocket : Nat → Fd
  /-- The kernel's table of the open connection descriptors. -/
  table : Fd → Option Nat
  accepted : Nat
  /-- Bytes of the client that `recv` has not returned yet. -/
  inbound : Nat → Chunk
  /-- The client has closed its sending direction. -/
  shut : Nat → Bool
  link : Nat → Link
  /-- All bytes that `send` has been given for the connection, while it is up. -/
  stream : Nat → Chunk
  /-- How many of these the client has read. -/
  read : Nat → Nat

/-- The state of the process when the accept loop is entered. -/
def Server.init : Server where
  running := true
  clients := []
  clientM := none
  acceptLoop := .accept
  handler _ := none
  clientSocket _ := 0
  table _ := none
  accepted := 0
  inbound _ := []
  shut _ := false
  link _ := .up
  stream _ := []
  read _ := 0

structure Config where
  /-- `main` has called `signal(SIGPIPE, SIG_IGN)`. -/
  ignoreSigpipe : Bool
  /-- How many unread bytes a connection holds. `send` waits with the rest. -/
  sendBuffer : Option Nat

/-- `TCPS.cpp` leaves `SIGPIPE` at its default action. -/
def relay : Config := { ignoreSigpipe := false, sendBuffer := none }

/-- `TCPLBSr.cpp` ignores it. -/
def latencyRelay : Config := { ignoreSigpipe := true, sendBuffer := none }

inductive Act where
  /-- The client of `c` sends bytes to the server. -/
  | clientSend (c : Nat) (bytes : Chunk)
  | clientRead (c : Nat) (n : Nat)
  | clientShut (c : Nat)
  | linkDown (c : Nat) (l : Link)
  | acceptError
  | accept (newFd : Fd)
  | lockPush
  | pushBack
  | spawn
  /-- `recv` returns the next `n` bytes. -/
  | recv (c : Nat) (n : Nat)
  | recvZero (c : Nat)
  | recvError (c : Nat)
  | lockBroadcast (c : Nat)
  /-- One iteration of the send loop, or its end. -/
  | iterate (c : Nat)
  | lockErase (c : Nat)
  | erase (c : Nat)
  | close (c : Nat)
  deriving DecidableEq

namespace Server

def setHandler (s : Server) (c : Nat) (pc : HandleC) : Server :=
  { s with handler := Function.update s.handler c (some pc) }

section SetHandler

variable (s : Server) (c : Nat) (pc : HandleC)

@[simp] theorem setHandler_handler :
    (s.setHandler c pc).handler = Function.update s.handler c (some pc) := rfl

theorem setHandler_self : (s.setHandler c pc).handler c = some pc := Function.update_self ..

@[simp] theorem setHandler_running : (s.setHandler c pc).running = s.running := rfl

@[simp] theorem setHandler_clients : (s.setHandler c pc).clients = s.clients := rfl

@[simp] theorem setHandler_clientM : (s.setHandler c pc).clientM = s.clientM := rfl

@[simp] theorem setHandler_acceptLoop : (s.setHandler c pc).acceptLoop = s.acceptLoop := rfl

@[simp] theorem setHandler_clientSocket : (s.setHandler c pc).clientSocket = s.clientSocket := rfl

@[simp] theorem setHandler_table : (s.setHandler c pc).table = s.table := rfl

@[simp] theorem setHandler_accepted : (s.setHandler c pc).accepted = s.accepted := rfl

@[simp] theorem setHandler_inbound : (s.setHandler c pc).inbound = s.inbound := rfl

@[simp] theorem setHandler_link : (s.setHandler c pc).link = s.link := rfl

@[simp] theorem setHandler_stream : (s.setHandler c pc).stream = s.stream := rfl

@[simp] theorem setHandler_read : (s.setHandler c pc).read = s.read := rfl

end SetHandler

/-- The connection cannot hold all bytes that `send` has been given, so `send` has
taken what fits and waits with the rest. -/
def full (cfg : Config) (s : Server) (d : Nat) : Prop :=
  ∃ size ∈ cfg.sendBuffer, s.link d = .up ∧ size < (s.stream d).length - s.read d

instance (cfg : Config) (s : Server) (d : Nat) : Decidable (s.full cfg d) :=
  match h : cfg.sendBuffer with
  | none => isFalse (by simp [full, h])
  | some size =>
    decidable_of_iff (s.link d = .up ∧ size < (s.stream d).length - s.read d)
      (by simp [full, h])

/-- `send(fd, buffer, byte_num, 0)`; its result is only reported, so the call
is its effect on the connections and on the process. -/
def send (cfg : Config) (s : Server) (fd : Fd) (buffer : Chunk) : Server :=
  match s.table fd with
  | none => s
  | some d =>
    match s.link d with
    | .up => { s with stream := Function.update s.stream d (s.stream d ++ buffer) }
    | .broken => s
    | .reset => if cfg.ignoreSigpipe then s else { s with running := false }

/-- The connection the next iteration of the send loop of `c` calls `send`
for, if it calls `send` at all. -/
def target (s : Server) (c : Nat) : Option Nat :=
  match s.handler c with
  | some (.broadcast _ i) =>
    match s.clients[i]? with
    | some othersAddr =>
      if othersAddr ≠ s.clientSocket c then s.table othersAddr else none
    | none => none
  | _ => none

/-- The connection that the last iteration of the send loop of `c` has called `send`
for. -/
def sending (s : Server) (c : Nat) : Option Nat :=
  match s.handler c with
  | some (.broadcast buffer (i + 1)) => (s.setHandler c (.broadcast buffer i)).target c
  | _ => none

/-- The last `send` of the loop of `c` has returned. -/
def Returned (cfg : Config) (s : Server) (c : Nat) : Prop := ¬∃ d ∈ s.sending c, s.full cfg d

instance (cfg : Config) (s : Server) (c : Nat) : Decidable (s.Returned cfg c) :=
  inferInstanceAs (Decidable (¬_))

/-- The body of `for (int others_addr : clients)` at the iterator's position,
or the end of the loop, which destroys the `lock_guard`. -/
def iterate (cfg : Config) (s : Server) (c : Nat) (buffer : Chunk) (i : Nat) :
    Server :=
  match s.clients[i]? with
  | none => { s with clientM := none }.setHandler c .recv
  | some othersAddr =>
    (if othersAddr ≠ s.clientSocket c then s.send cfg othersAddr buffer else s).setHandler c
      (.broadcast buffer (i + 1))

/-- `clients.erase(std::remove(clients.begin(), clients.end(), client_socket), clients.end())`. -/
def eraseClient (clients : List Fd) (clientSocket : Fd) : List Fd :=
  clients.filter (· ≠ clientSocket)

/-- What an action of the accept loop does, when its program point is there. -/
def mainStep (s : Server) : Act → AcceptLoop → Option Server
  | .acceptError, .accept => some s
  | .accept newFd, .accept =>
    -- the kernel returns a number that is not open
    if s.table newFd = none then
      some { s with
        acceptLoop := .lockPush s.accepted
        clientSocket := Function.update s.clientSocket s.accepted newFd
        table := Function.update s.table newFd (some s.accepted)
        accepted := s.accepted + 1 }
    else none
  | .lockPush, .lockPush c =>
    if s.clientM = none then
      some { s with clientM := some .main, acceptLoop := .push c }
    else none
  | .pushBack, .push c =>
    some { s with
      clients := s.clients ++ [s.clientSocket c]
      clientM := none
      acceptLoop := .spawn c }
  | .spawn, .spawn c => some { s.setHandler c .recv with acceptLoop := .accept }
  | _, _ => none

def handlerStep (cfg : Config) (s : Server) (c : Nat) : Act → HandleC → Option Server
  | .recv _ n, .recv =>
    if 0 < n ∧ n ≤ buffSize ∧ n ≤ (s.inbound c).length then
      some { s.setHandler c (.lockBroadcast ((s.inbound c).take n)) with
        inbound := Function.update s.inbound c ((s.inbound c).drop n) }
    else none
  | .recvZero _, .recv =>
    if s.inbound c = [] ∧ s.shut c = true then some (s.setHandler c .lockErase) else none
  | .recvError _, .recv => some (s.setHandler c .lockErase)
  | .lockBroadcast _, .lockBroadcast buffer =>
    if s.clientM = none then
      some { s.setHandler c (.broadcast buffer 0) with clientM := some (.handler c) }
    else none
  | .iterate _, .broadcast buffer i =>
    if s.Returned cfg c then some (s.iterate cfg c buffer i) else none
  | .lockErase _, .lockErase =>
    if s.clientM = none then
      some { s.setHandler c .erase with clientM := some (.handler c) }
    else none
  | .erase _, .erase =>
    some { s.setHandler c .close with
      clients := eraseClient s.clients (s.clientSocket c)
      clientM := none }
  | .close _, .close =>
    some { s.setHandler c .done with
      table := Function.update s.table (s.clientSocket c) none }
  | _, _ => none

def clientStep (s : Server) : Act → Option Server
  | .clientSend c bytes =>
    if c < s.accepted ∧ s.shut c = false then
      some { s with inbound := Function.update s.inbound c (s.inbound c ++ bytes) }
    else none
  | .clientRead c n =>
    if c < s.accepted ∧ s.read c + n ≤ (s.stream c).length then
      some { s with read := Function.update s.read c (s.read c + n) }
    else none
  | .clientShut c =>
    if c < s.accepted then some { s with shut := Function.update s.shut c true } else none
  | .linkDown c l =>
    if c < s.accepted ∧ l ≠ .up then some { s with link := Function.update s.link c l }
    else none
  | _ => none

end Server

/-- The thread that performs an action; `none` for the clients and the network. -/
def Act.thread : Act → Option Thread
  | .clientSend .. | .clientRead .. | .clientShut .. | .linkDown .. => none
  | .acceptError | .accept _ | .lockPush | .pushBack | .spawn => some .main
  | .recv c _ | .recvZero c | .recvError c | .lockBroadcast c | .iterate c
  | .lockErase c | .erase c | .close c => some (.handler c)

namespace Server

def step (cfg : Config) (s : Server) (a : Act) : Option Server :=
  match a.thread with
  | none => s.clientStep a
  | some .main => if s.running then s.mainStep a s.acceptLoop else none
  | some (.handler c) =>
    if s.running then (s.handler c).bind (s.handlerStep cfg c a) else none

end Server

def server (cfg : Config) : Machine Server Act := ⟨Server.step cfg⟩

/-- Every way a step can go, with its guards. The invariants below are proved
by cases on this relation, never by unfolding `Server.step`. -/
inductive Step (cfg : Config) (s : Server) : Act → Server → Prop where
  | clientSend (c : Nat) (bytes : Chunk) (hc : c < s.accepted) (hopen : s.shut c = false) :
      Step cfg s (.clientSend c bytes)
        { s with inbound := Function.update s.inbound c (s.inbound c ++ bytes) }
  | clientRead (c : Nat) (n : Nat) (hc : c < s.accepted)
      (hn : s.read c + n ≤ (s.stream c).length) :
      Step cfg s (.clientRead c n) { s with read := Function.update s.read c (s.read c + n) }
  | clientShut (c : Nat) (hc : c < s.accepted) :
      Step cfg s (.clientShut c) { s with shut := Function.update s.shut c true }
  | linkDown (c : Nat) (l : Link) (hc : c < s.accepted) (hl : l ≠ .up) :
      Step cfg s (.linkDown c l) { s with link := Function.update s.link c l }
  | acceptError (hrun : s.running = true) (hpc : s.acceptLoop = .accept) :
      Step cfg s .acceptError s
  | accept (newFd : Fd) (hrun : s.running = true) (hpc : s.acceptLoop = .accept)
      (hfd : s.table newFd = none) :
      Step cfg s (.accept newFd)
        { s with
          acceptLoop := .lockPush s.accepted
          clientSocket := Function.update s.clientSocket s.accepted newFd
          table := Function.update s.table newFd (some s.accepted)
          accepted := s.accepted + 1 }
  | lockPush (c : Nat) (hrun : s.running = true) (hpc : s.acceptLoop = .lockPush c)
      (hlock : s.clientM = none) :
      Step cfg s .lockPush { s with clientM := some .main, acceptLoop := .push c }
  | pushBack (c : Nat) (hrun : s.running = true) (hpc : s.acceptLoop = .push c) :
      Step cfg s .pushBack
        { s with
          clients := s.clients ++ [s.clientSocket c]
          clientM := none
          acceptLoop := .spawn c }
  | spawn (c : Nat) (hrun : s.running = true) (hpc : s.acceptLoop = .spawn c) :
      Step cfg s .spawn { s.setHandler c .recv with acceptLoop := .accept }
  | recv (c : Nat) (n : Nat) (hrun : s.running = true) (hpc : s.handler c = some .recv)
      (hpos : 0 < n) (hsize : n ≤ buffSize) (hn : n ≤ (s.inbound c).length) :
      Step cfg s (.recv c n)
        { s.setHandler c (.lockBroadcast ((s.inbound c).take n)) with
          inbound := Function.update s.inbound c ((s.inbound c).drop n) }
  | recvZero (c : Nat) (hrun : s.running = true) (hpc : s.handler c = some .recv)
      (hempty : s.inbound c = []) (hshut : s.shut c = true) :
      Step cfg s (.recvZero c) (s.setHandler c .lockErase)
  | recvError (c : Nat) (hrun : s.running = true) (hpc : s.handler c = some .recv) :
      Step cfg s (.recvError c) (s.setHandler c .lockErase)
  | lockBroadcast (c : Nat) (buffer : Chunk) (hrun : s.running = true)
      (hpc : s.handler c = some (.lockBroadcast buffer)) (hlock : s.clientM = none) :
      Step cfg s (.lockBroadcast c)
        { s.setHandler c (.broadcast buffer 0) with clientM := some (.handler c) }
  | iterateEnd (c : Nat) (buffer : Chunk) (i : Nat) (hrun : s.running = true)
      (hpc : s.handler c = some (.broadcast buffer i)) (hsent : s.Returned cfg c)
      (hend : s.clients[i]? = none) :
      Step cfg s (.iterate c) ({ s with clientM := none }.setHandler c .recv)
  | iterateSelf (c : Nat) (buffer : Chunk) (i : Nat) (hrun : s.running = true)
      (hpc : s.handler c = some (.broadcast buffer i)) (hsent : s.Returned cfg c)
      (hfd : s.clients[i]? = some (s.clientSocket c)) :
      Step cfg s (.iterate c) (s.setHandler c (.broadcast buffer (i + 1)))
  | iterateSend (c : Nat) (buffer : Chunk) (i : Nat) (fd : Fd) (hrun : s.running = true)
      (hpc : s.handler c = some (.broadcast buffer i)) (hsent : s.Returned cfg c)
      (hfd : s.clients[i]? = some fd) (hother : fd ≠ s.clientSocket c) :
      Step cfg s (.iterate c)
        ((s.send cfg fd buffer).setHandler c (.broadcast buffer (i + 1)))
  | lockErase (c : Nat) (hrun : s.running = true) (hpc : s.handler c = some .lockErase)
      (hlock : s.clientM = none) :
      Step cfg s (.lockErase c) { s.setHandler c .erase with clientM := some (.handler c) }
  | erase (c : Nat) (hrun : s.running = true) (hpc : s.handler c = some .erase) :
      Step cfg s (.erase c)
        { s.setHandler c .close with
          clients := Server.eraseClient s.clients (s.clientSocket c)
          clientM := none }
  | close (c : Nat) (hrun : s.running = true) (hpc : s.handler c = some .close) :
      Step cfg s (.close c)
        { s.setHandler c .done with
          table := Function.update s.table (s.clientSocket c) none }

private theorem clientStep_cases {cfg : Config} {s next : Server} {a : Act}
    (h : s.clientStep a = some next) : Step cfg s a next := by
  cases a <;> simp only [Server.clientStep, Option.ite_none_right_eq_some, reduceCtorEq,
    Option.some.injEq] at h
  case clientSend c bytes => obtain ⟨⟨hc, hopen⟩, rfl⟩ := h; exact .clientSend c bytes hc hopen
  case clientRead c n => obtain ⟨⟨hc, hn⟩, rfl⟩ := h; exact .clientRead c n hc hn
  case clientShut c => obtain ⟨hc, rfl⟩ := h; exact .clientShut c hc
  case linkDown c l => obtain ⟨⟨hc, hl⟩, rfl⟩ := h; exact .linkDown c l hc hl

private theorem mainStep_cases {cfg : Config} {s next : Server} {a : Act}
    (hrun : s.running = true) (h : s.mainStep a s.acceptLoop = some next) :
    Step cfg s a next := by
  cases a <;> cases hpc : s.acceptLoop <;>
    simp only [hpc, Server.mainStep, Option.ite_none_right_eq_some, reduceCtorEq,
      Option.some.injEq] at h
  case acceptError.accept => exact h ▸ .acceptError hrun hpc
  case accept.accept newFd => obtain ⟨hfd, rfl⟩ := h; exact .accept newFd hrun hpc hfd
  case lockPush.lockPush c => obtain ⟨hlock, rfl⟩ := h; exact .lockPush c hrun hpc hlock
  case pushBack.push c => exact h ▸ .pushBack c hrun hpc
  case spawn.spawn c => exact h ▸ .spawn c hrun hpc

/-- One pass of the send loop either ends it, skips the handler's own
descriptor or calls `send` for another one. -/
private theorem iterate_cases {cfg : Config} {s : Server} {c : Nat} {buffer : Chunk}
    {i : Nat} (hrun : s.running = true) (hpc : s.handler c = some (.broadcast buffer i))
    (hsent : s.Returned cfg c) : Step cfg s (.iterate c) (s.iterate cfg c buffer i) := by
  unfold Server.iterate
  cases hfd : s.clients[i]? with
  | none => exact .iterateEnd c buffer i hrun hpc hsent hfd
  | some fd =>
    by_cases hself : fd = s.clientSocket c
    · simp only [hself, ne_eq, not_true_eq_false, if_false]
      exact .iterateSelf c buffer i hrun hpc hsent (hself ▸ hfd)
    · simp only [ne_eq, hself, not_false_eq_true, if_true]
      exact .iterateSend c buffer i fd hrun hpc hsent hfd hself

private theorem handlerStep_cases {cfg : Config} {s next : Server} {a : Act} {c : Nat}
    {pc : HandleC} (hthread : a.thread = some (.handler c)) (hrun : s.running = true)
    (hpc : s.handler c = some pc) (h : s.handlerStep cfg c a pc = some next) :
    Step cfg s a next := by
  cases a <;> simp only [Act.thread, Option.some.injEq, Thread.handler.injEq, reduceCtorEq]
    at hthread <;> subst hthread <;> cases pc <;>
    simp only [Server.handlerStep, Option.ite_none_right_eq_some, reduceCtorEq,
      Option.some.injEq] at h
  case recv.recv c n => obtain ⟨⟨hpos, hsize, hn⟩, rfl⟩ := h; exact .recv c n hrun hpc hpos hsize hn
  case recvZero.recv c =>
    obtain ⟨⟨hempty, hshut⟩, rfl⟩ := h
    exact .recvZero c hrun hpc hempty hshut
  case recvError.recv c => exact h ▸ .recvError c hrun hpc
  case lockBroadcast.lockBroadcast c buffer =>
    obtain ⟨hlock, rfl⟩ := h
    exact .lockBroadcast c buffer hrun hpc hlock
  case iterate.broadcast c buffer i =>
    obtain ⟨hsent, rfl⟩ := h
    exact iterate_cases hrun hpc hsent
  case lockErase.lockErase c => obtain ⟨hlock, rfl⟩ := h; exact .lockErase c hrun hpc hlock
  case erase.erase c => exact h ▸ .erase c hrun hpc
  case close.close c => exact h ▸ .close c hrun hpc

/-- Inversion of `Server.step`. -/
theorem step_cases {cfg : Config} {s next : Server} {a : Act}
    (h : (server cfg).step s a = some next) : Step cfg s a next := by
  change s.step cfg a = some next at h
  unfold Server.step at h
  cases hthread : a.thread with
  | none => exact clientStep_cases (by simpa only [hthread] using h)
  | some t =>
    cases t with
    | main =>
      simp only [hthread, Option.ite_none_right_eq_some] at h
      exact mainStep_cases h.1 h.2
    | handler c =>
      simp only [hthread, Option.ite_none_right_eq_some, Option.bind_eq_some_iff] at h
      obtain ⟨hrun, pc, hpc, hstep⟩ := h
      exact handlerStep_cases hthread hrun hpc hstep

section Threads

variable {cfg : Config} {s : Server} {a : Act} {c : Nat} {pc : HandleC}

theorem step_client (ha : a.thread = none) : s.step cfg a = s.clientStep a := by
  rw [Server.step, ha]

theorem step_main (ha : a.thread = some .main) (hrun : s.running = true) :
    s.step cfg a = s.mainStep a s.acceptLoop := by
  rw [Server.step, ha]
  exact if_pos hrun

theorem step_handler (ha : a.thread = some (.handler c)) (hrun : s.running = true)
    (hpc : s.handler c = some pc) : s.step cfg a = s.handlerStep cfg c a pc := by
  rw [Server.step, ha]
  exact (if_pos hrun).trans (by rw [hpc, Option.bind_some])

end Threads

private theorem step_of_cases {cfg : Config} {s next : Server} {a : Act} (h : Step cfg s a next) :
    (server cfg).step s a = some next := by
  change s.step cfg a = some next
  cases h with
  | clientSend c bytes hc hopen => exact (step_client rfl).trans (if_pos ⟨hc, hopen⟩)
  | clientRead c n hc hn => exact (step_client rfl).trans (if_pos ⟨hc, hn⟩)
  | clientShut c hc => exact (step_client rfl).trans (if_pos hc)
  | linkDown c l hc hl => exact (step_client rfl).trans (if_pos ⟨hc, hl⟩)
  | acceptError hrun hpc | pushBack c hrun hpc | spawn c hrun hpc =>
    rw [step_main rfl hrun, hpc]
    rfl
  | accept newFd hrun hpc hfd =>
    rw [step_main rfl hrun, hpc]
    exact if_pos hfd
  | lockPush c hrun hpc hlock =>
    rw [step_main rfl hrun, hpc]
    exact if_pos hlock
  | recv c n hrun hpc hpos hsize hn =>
    exact (step_handler rfl hrun hpc).trans (if_pos ⟨hpos, hsize, hn⟩)
  | recvZero c hrun hpc hempty hshut =>
    exact (step_handler rfl hrun hpc).trans (if_pos ⟨hempty, hshut⟩)
  | recvError c hrun hpc | erase c hrun hpc | close c hrun hpc =>
    exact step_handler rfl hrun hpc
  | lockBroadcast c buffer hrun hpc hlock =>
    exact (step_handler rfl hrun hpc).trans (if_pos hlock)
  | lockErase c hrun hpc hlock => exact (step_handler rfl hrun hpc).trans (if_pos hlock)
  | iterateEnd c buffer i hrun hpc hsent hend =>
    rw [step_handler rfl hrun hpc, Server.handlerStep, if_pos hsent, Server.iterate, hend]
  | iterateSelf c buffer i hrun hpc hsent hfd =>
    rw [step_handler rfl hrun hpc, Server.handlerStep, if_pos hsent, Server.iterate, hfd]
    simp only [ne_eq, not_true_eq_false, if_false]
  | iterateSend c buffer i fd hrun hpc hsent hfd hother =>
    rw [step_handler rfl hrun hpc, Server.handlerStep, if_pos hsent, Server.iterate, hfd]
    simp only [ne_eq, hother, not_false_eq_true, if_true]

/-- The steps of the machine are exactly those of `Step`. -/
theorem step_iff {cfg : Config} {s next : Server} {a : Act} :
    (server cfg).step s a = some next ↔ Step cfg s a next :=
  ⟨step_cases, step_of_cases⟩

theorem target_eq_some {s : Server} {c d : Nat} {buffer : Chunk} {i : Nat}
    (hpc : s.handler c = some (.broadcast buffer i)) :
    s.target c = some d ↔
      ∃ fd, s.clients[i]? = some fd ∧ fd ≠ s.clientSocket c ∧ s.table fd = some d := by
  simp only [Server.target, hpc]
  cases s.clients[i]? with
  | none => simp
  | some fd => simp

/-- `send` touches nothing but the streams and, through `SIGPIPE`, the process. -/
theorem send_frame (cfg : Config) (s : Server) (fd : Fd) (buffer : Chunk) :
    ∃ stream running, s.send cfg fd buffer = { s with stream := stream, running := running } := by
  unfold Server.send
  split
  · exact ⟨s.stream, s.running, rfl⟩
  · split
    · exact ⟨_, s.running, rfl⟩
    · exact ⟨s.stream, s.running, rfl⟩
    · split
      · exact ⟨s.stream, s.running, rfl⟩
      · exact ⟨s.stream, false, rfl⟩

theorem send_up {cfg : Config} {s : Server} {fd : Fd} {d : Nat} {buffer : Chunk}
    (htable : s.table fd = some d) (hup : s.link d = .up) :
    s.send cfg fd buffer =
      { s with stream := Function.update s.stream d (s.stream d ++ buffer) } := by
  simp [Server.send, htable, hup]

theorem send_stream_down {cfg : Config} {s : Server} {fd : Fd} {d : Nat} {buffer : Chunk}
    (htable : s.table fd = some d) (hdown : s.link d ≠ .up) :
    (s.send cfg fd buffer).stream = s.stream := by
  cases hlink : s.link d with
  | up => exact absurd hlink hdown
  | broken => simp [Server.send, htable, hlink]
  | reset =>
    simp only [Server.send, htable, hlink]
    split <;> rfl

/-- The handler of `k` has received the chunk and not sent it to everybody. -/
def Server.Holds (s : Server) (k : Nat) (buffer : Chunk) : Prop :=
  s.handler k = some (.lockBroadcast buffer) ∨ ∃ i, s.handler k = some (.broadcast buffer i)

/-- A chunk that a handler gets hold of has just been received. -/
theorem holds_step {cfg : Config} {s next : Server} {a : Act} {k : Nat} {buffer : Chunk}
    (hstep : Step cfg s a next) (hholds : next.Holds k buffer) :
    s.Holds k buffer ∨ ∃ n, a = .recv k n ∧ buffer = (s.inbound k).take n ∧ buffer ≠ [] := by
  have hmove : ∀ {c q} {other : Server}, other.Holds k buffer →
      other.handler = Function.update s.handler c (some q) →
      (q = .lockBroadcast buffer ∨ (∃ i, q = .broadcast buffer i) → k = c → s.Holds k buffer) →
      s.Holds k buffer := by
    intro c q other hother hhandler hself
    unfold Server.Holds at hother ⊢
    rw [hhandler] at hother
    by_cases hkc : k = c
    · subst hkc
      simp only [Function.update_self, Option.some.injEq] at hother
      exact hself hother rfl
    · rwa [Function.update_of_ne hkc] at hother
  cases hstep with
  | clientSend | clientRead | clientShut | linkDown | acceptError | accept | lockPush
  | pushBack => exact Or.inl hholds
  | recv c n hrun hpc hpos hsize hn =>
    by_cases hkc : k = c
    · subst hkc
      rcases hholds with hself | ⟨i, hself⟩
      · simp only [Server.setHandler_handler, Function.update_self, Option.some.injEq,
          HandleC.lockBroadcast.injEq] at hself
        refine Or.inr ⟨n, rfl, hself.symm, List.ne_nil_of_length_pos ?_⟩
        rw [← hself, List.length_take_of_le hn]
        exact hpos
      · simp at hself
    · refine Or.inl (hmove hholds rfl ?_)
      intro _ hself
      exact absurd hself hkc
  | lockBroadcast c chunk hrun hpc hfree =>
    refine Or.inl (hmove hholds rfl ?_)
    rintro (⟨⟨⟩⟩ | ⟨i, ⟨⟩⟩) rfl
    exact Or.inl hpc
  | iterateSelf c chunk j hrun hpc hsent hfd =>
    refine Or.inl (hmove hholds rfl ?_)
    rintro (⟨⟨⟩⟩ | ⟨i, ⟨⟩⟩) rfl
    exact Or.inr ⟨j, hpc⟩
  | iterateSend c chunk j fd hrun hpc hsent hfd hother =>
    obtain ⟨stream, running, hsend⟩ := send_frame cfg s fd chunk
    rw [hsend] at hholds
    refine Or.inl (hmove hholds rfl ?_)
    rintro (⟨⟨⟩⟩ | ⟨i, ⟨⟩⟩) rfl
    exact Or.inr ⟨j, hpc⟩
  | _ =>
    refine Or.inl (hmove hholds rfl ?_)
    rintro (⟨⟨⟩⟩ | ⟨i, ⟨⟩⟩)

end MediaStream.TCPS
