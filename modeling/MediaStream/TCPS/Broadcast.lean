import MediaStream.Lib.SharedLog
import MediaStream.TCPS.ClientList

/-!
The relay as an atomic broadcast. The order in which the handlers acquire
`client_m` for their send loops is one global log of (source, chunk) pairs; each
connection is sent exactly the log's entries of the other connections from its
`push_back` to its removal, up to its first failed `send`.

The history variables are recorded by a monitor from the actions of the
server. No step of the server reads them.
-/

namespace MediaStream.TCPS

open Lib SharedLog

structure History where
  /-- The chunks in the order in which their handlers acquired `client_m`. -/
  log : List (Nat × Chunk)
  /-- The length of the log at the connection's `push_back`. -/
  joined : Nat → Option Nat
  /-- The length of the log at the removal from `clients`. -/
  removed : Nat → Option Nat
  /-- The position in the log of the chunk whose `send` failed first. -/
  failed : Nat → Option Nat
  /-- What `recv` has returned to the handler of the connection. -/
  received : Nat → List Chunk

namespace History

def init : History where
  log := []
  joined _ := none
  removed _ := none
  failed _ := none
  received _ := []

def watch (s : Server) (a : Act) (h : History) : History :=
  match a with
  | .pushBack =>
    match s.acceptLoop with
    | .push c => { h with joined := Function.update h.joined c (some h.log.length) }
    | _ => h
  | .recv c n =>
    { h with received := Function.update h.received c (h.received c ++ [(s.inbound c).take n]) }
  | .lockBroadcast c =>
    match s.handler c with
    | some (.lockBroadcast buffer) => { h with log := h.log ++ [(c, buffer)] }
    | _ => h
  | .iterate c =>
    match s.target c with
    | some d =>
      if s.link d ≠ .up ∧ h.failed d = none then
        { h with failed := Function.update h.failed d (some (h.log.length - 1)) }
      else h
    | none => h
  | .erase c => { h with removed := Function.update h.removed c (some h.log.length) }
  | _ => h

/-- The length of the part of the log that is meant for the connection. -/
def upto (h : History) (c : Nat) : Nat :=
  min ((h.failed c).getD h.log.length) ((h.removed c).getD h.log.length)

/-- The chunks of the other connections between the `push_back` of `c` and its
removal, cut at its first failed `send`. -/
def addressed (h : History) (c : Nat) : List (Nat × Chunk) :=
  match h.joined c with
  | none => []
  | some start => others c (between h.log start (h.upto c))

end History

namespace Server

/-- The broadcast in progress: its source, its chunk and the iterator. -/
def broadcasting (s : Server) : Option (Nat × Chunk × Nat) :=
  match s.clientM with
  | some (.handler k) =>
    match s.handler k with
    | some (.broadcast buffer i) => some (k, buffer, i)
    | _ => none
  | _ => none

/-- What the broadcast in progress still has to send to `c`: its chunk, while
the iterator has not passed `c` and no `send` to `c` has failed. -/
def owed (s : Server) (h : History) (c : Nat) : Chunk :=
  match s.broadcasting with
  | none => []
  | some (k, buffer, i) =>
    if c ≠ k ∧ some c ∈ (s.clients.drop i).map s.table ∧ h.failed c = none then buffer else []

def held (s : Server) (c : Nat) : List Chunk :=
  match s.handler c with
  | some (.lockBroadcast buffer) => [buffer]
  | _ => []

end Server

def observed (cfg : Config) : Machine (Server × History) Act :=
  (server cfg).monitored History.watch

/-- What ties the history to the state. -/
structure Tracks (s : Server) (h : History) : Prop where
  ok : Ok s
  early : ∀ c, s.accepted ≤ c ∨ s.acceptLoop = .lockPush c ∨ s.acceptLoop = .push c →
    h.joined c = none
  registered : ∀ c, s.Registered c ↔ h.joined c ≠ none ∧ h.removed c = none
  unjoined : ∀ c, h.joined c = none → s.stream c = [] ∧ h.removed c = none
  bounded : ∀ c, (∀ j ∈ h.joined c, j ≤ h.log.length) ∧ (∀ r ∈ h.removed c, r ≤ h.log.length) ∧
    ∀ i ∈ h.failed c, i ≤ h.log.length
  down : ∀ c, h.failed c ≠ none → s.link c ≠ .up
  /-- The chunk of the broadcast in progress ends the log, and nobody has
  joined or left since it was added. -/
  current : ∀ k buffer i, s.handler k = some (.broadcast buffer i) →
    ∃ front, h.log = front ++ [(k, buffer)] ∧
      ∀ c, (∀ j ∈ h.joined c, j ≤ front.length) ∧ ∀ r ∈ h.removed c, r ≤ front.length
  stream : ∀ c, s.stream c ++ s.owed h c = (h.addressed c).flatMap Prod.snd
  received : ∀ c, h.received c = ofSource c h.log ++ s.held c

section Owed

variable {s next : Server} {h after : History} {k c : Nat} {buffer : Chunk} {i : Nat}

theorem broadcasting_iff (hok : Ok s) :
    s.broadcasting = some (k, buffer, i) ↔ s.handler k = some (.broadcast buffer i) := by
  constructor
  · intro hb
    unfold Server.broadcasting at hb
    grind
  · intro hpc
    have hlock := (hok.lock (.handler k)).mpr ⟨_, hpc, rfl⟩
    simp [Server.broadcasting, hlock, hpc]

theorem broadcasting_congr (hok : Ok s) (hnext : Ok next)
    (hsame : ∀ k buffer i, next.handler k = some (.broadcast buffer i) ↔
      s.handler k = some (.broadcast buffer i)) : next.broadcasting = s.broadcasting := by
  apply Option.ext
  rintro ⟨k, buffer, i⟩
  rw [broadcasting_iff hok, broadcasting_iff hnext, hsame]

/-- Steps outside the send loop leave everybody's claim to the current chunk
as it is. -/
theorem owed_congr (hok : Ok s) (hnext : Ok next)
    (hsame : ∀ k buffer i, next.handler k = some (.broadcast buffer i) ↔
      s.handler k = some (.broadcast buffer i))
    (hclients : next.clients = s.clients) (htable : ∀ fd ∈ s.clients, next.table fd = s.table fd)
    (hfailed : after.failed = h.failed) : next.owed after c = s.owed h c := by
  unfold Server.owed
  rw [broadcasting_congr hok hnext hsame, hclients, hfailed]
  have hmap : ∀ i, (s.clients.drop i).map next.table = (s.clients.drop i).map s.table := fun i =>
    List.map_congr_left fun fd hfd => htable fd (List.mem_of_mem_drop hfd)
  simp only [hmap]

theorem owed_of_broadcast (hok : Ok s) (hpc : s.handler k = some (.broadcast buffer i)) :
    s.owed h c =
      if c ≠ k ∧ some c ∈ (s.clients.drop i).map s.table ∧ h.failed c = none then buffer
      else [] := by
  unfold Server.owed
  rw [(broadcasting_iff hok).mpr hpc]

theorem owed_of_no_broadcast (hnone : s.broadcasting = none) : s.owed h c = [] := by
  unfold Server.owed
  rw [hnone]

/-- While another critical section holds the mutex, or none, no chunk is owed. -/
theorem broadcasting_none (hok : Ok s)
    (hquiet : ∀ k buffer i, s.handler k ≠ some (.broadcast buffer i)) :
    s.broadcasting = none := by
  apply Option.ext
  rintro ⟨k, buffer, i⟩
  simpa [broadcasting_iff hok] using hquiet k buffer i

theorem no_broadcast_of_free (hok : Ok s) (hfree : s.clientM = none) (k : Nat) (buffer : Chunk)
    (i : Nat) : s.handler k ≠ some (.broadcast buffer i) := fun hpc =>
  hok.lock.outside hfree (.handler k) ⟨_, hpc, rfl⟩

theorem no_broadcast_of_push (hok : Ok s) (hpush : s.acceptLoop = .push c) (k : Nat)
    (buffer : Chunk) (i : Nat) : s.handler k ≠ some (.broadcast buffer i) := fun hpc => by
  have hsame :=
    hok.lock.exclusive (t := Thread.main) (u := Thread.handler k) ⟨c, hpush⟩ ⟨_, hpc, rfl⟩
  cases hsame

theorem no_broadcast_of_erase (hok : Ok s) (herase : s.handler c = some .erase) (k : Nat)
    (buffer : Chunk) (i : Nat) : s.handler k ≠ some (.broadcast buffer i) := fun hpc => by
  have hsame := hok.lock.exclusive (t := Thread.handler c) (u := Thread.handler k) ⟨_, herase, rfl⟩
    ⟨_, hpc, rfl⟩
  cases hsame
  rw [herase] at hpc
  cases hpc

/-- A registered connection whose handler exists has a listed handler. -/
theorem registered_handler (hok : Ok s) {p : HandleC} (hpc : s.handler c = some p)
    (hreg : s.Registered c) : p.listed = true := by
  rcases hreg with hspawn | ⟨q, hq, hlisted⟩
  · have hnone := ((hok.loop c).mp (by simp [hspawn, AcceptLoop.conn])).2
    rw [hpc] at hnone
    cases hnone
  · rw [hpc, Option.some.injEq] at hq
    exact hq ▸ hlisted

theorem table_of_mem (hok : Ok s) {fd : Fd} (hfd : fd ∈ s.clients) :
    s.table fd = some c ↔ s.Registered c ∧ s.clientSocket c = fd := by
  constructor
  · intro htable
    obtain ⟨d, hreg, hsock⟩ := (hok.mem fd).mp hfd
    have hd := (hok.table fd d).mpr ⟨hok.open_of_registered hreg, hsock⟩
    rw [htable, Option.some.injEq] at hd
    subst hd
    exact ⟨hreg, hsock⟩
  · rintro ⟨hreg, hsock⟩
    exact (hok.table fd c).mpr ⟨hok.open_of_registered hreg, hsock⟩

theorem mem_table_clients (hok : Ok s) : some c ∈ s.clients.map s.table ↔ s.Registered c := by
  rw [List.mem_map]
  constructor
  · rintro ⟨fd, hfd, htable⟩
    exact ((table_of_mem hok hfd).mp htable).1
  · intro hreg
    have hfd := (hok.mem _).mpr ⟨c, hreg, rfl⟩
    exact ⟨_, hfd, (table_of_mem hok hfd).mpr ⟨hreg, rfl⟩⟩

variable {fd : Fd} {d : Nat}

/-- The iterator passes one connection at a time. -/
theorem mem_remaining (hfd : s.clients[i]? = some fd) (htable : s.table fd = some d) :
    some c ∈ (s.clients.drop i).map s.table ↔
      c = d ∨ some c ∈ (s.clients.drop (i + 1)).map s.table := by
  obtain ⟨hlt, hget⟩ := List.getElem?_eq_some_iff.mp hfd
  rw [List.drop_eq_getElem_cons hlt, hget, List.map_cons, List.mem_cons, htable, Option.some.injEq]

theorem target_passed (hok : Ok s) (hfd : s.clients[i]? = some fd) (htable : s.table fd = some d) :
    some d ∉ (s.clients.drop (i + 1)).map s.table := by
  rw [List.mem_map]
  rintro ⟨other, hother, hd⟩
  obtain ⟨hlt, hget⟩ := List.getElem?_eq_some_iff.mp hfd
  have hmem : other ∈ s.clients := List.mem_of_mem_drop hother
  have hsock := ((table_of_mem hok hmem).mp hd).2
  have hsock' := ((table_of_mem hok (List.mem_of_getElem? hfd)).mp htable).2
  have hnodup : (s.clients.drop i).Nodup := hok.nodup.sublist (List.drop_sublist ..)
  rw [List.drop_eq_getElem_cons hlt, hget, List.nodup_cons] at hnodup
  exact hnodup.1 (by rwa [← hsock', hsock])

end Owed

section Steps

variable {s next : Server} {h after : History}

/-- Steps that neither touch the send loop, the registration nor the log. -/
theorem Tracks.frame (ht : Tracks s h) (hok : Ok next)
    (hlog : after.log = h.log) (hjoined : after.joined = h.joined)
    (hremoved : after.removed = h.removed) (hfailed : after.failed = h.failed)
    (hstream : next.stream = s.stream) (hclients : next.clients = s.clients)
    (htable : ∀ fd ∈ s.clients, next.table fd = s.table fd)
    (hregistered : ∀ c, next.Registered c ↔ s.Registered c)
    (hsame : ∀ k buffer i, next.handler k = some (.broadcast buffer i) ↔
      s.handler k = some (.broadcast buffer i))
    (hlink : ∀ c, s.link c ≠ .up → next.link c ≠ .up)
    (hearly : ∀ c, next.accepted ≤ c ∨ next.acceptLoop = .lockPush c ∨ next.acceptLoop = .push c →
      s.accepted ≤ c ∨ s.acceptLoop = .lockPush c ∨ s.acceptLoop = .push c)
    (hreceived : ∀ c, after.received c = ofSource c h.log ++ next.held c) : Tracks next after where
  ok := hok
  early c hc := by
    rw [hjoined]
    exact ht.early c (hearly c hc)
  registered c := by rw [hjoined, hremoved, hregistered, ht.registered]
  unjoined c := by
    rw [hjoined, hremoved, hstream]
    exact ht.unjoined c
  bounded c := by
    rw [hlog, hjoined, hremoved, hfailed]
    exact ht.bounded c
  down c hc := by
    rw [hfailed] at hc
    exact hlink c (ht.down c hc)
  current k buffer i hpc := by
    rw [hlog, hjoined, hremoved]
    exact ht.current k buffer i ((hsame k buffer i).mp hpc)
  stream c := by
    have haddressed : after.addressed c = h.addressed c := by
      unfold History.addressed History.upto
      rw [hlog, hjoined, hremoved, hfailed]
    rw [hstream, owed_congr ht.ok hok hsame hclients htable hfailed, haddressed, ht.stream]
  received c := by
    rw [hlog]
    exact hreceived c

/-- A handler that is neither in the send loop before nor after. -/
theorem same_broadcasts {c : Nat} {p q : HandleC}
    (hpc : s.handler c = some p) (hhandler : next.handler = Function.update s.handler c (some q))
    (hp : ∀ buffer i, p ≠ .broadcast buffer i) (hq : ∀ buffer i, q ≠ .broadcast buffer i)
    (k : Nat) (buffer : Chunk) (i : Nat) :
    next.handler k = some (.broadcast buffer i) ↔ s.handler k = some (.broadcast buffer i) := by
  rw [hhandler]
  by_cases hkc : k = c
  · subst hkc
    simp [hpc, hp, hq]
  · simp [hkc]

theorem held_update {c : Nat} {q : HandleC}
    (hhandler : next.handler = Function.update s.handler c (some q)) {d : Nat} (hdc : d ≠ c) :
    next.held d = s.held d := by
  unfold Server.held
  rw [hhandler, Function.update_of_ne hdc]

/-- A handler that does not wait for a broadcast before nor after. -/
theorem held_move {c : Nat} {p q : HandleC} (hpc : s.handler c = some p)
    (hhandler : next.handler = Function.update s.handler c (some q))
    (hp : ∀ buffer, p ≠ .lockBroadcast buffer) (hq : ∀ buffer, q ≠ .lockBroadcast buffer)
    (d : Nat) : next.held d = s.held d := by
  by_cases hdc : d = c
  · subst hdc
    simp [Server.held, hhandler, hpc, hp, hq]
  · exact held_update hhandler hdc

/-- What clients and network do to a connection. -/
theorem Tracks.network (ht : Tracks s h) {inbound : Nat → Chunk} {shut : Nat → Bool}
    {link : Nat → Link} {read : Nat → Nat} (hok : Ok next)
    (hnext : next = { s with inbound := inbound, shut := shut, link := link, read := read })
    (hlink : ∀ c, s.link c ≠ .up → link c ≠ .up) : Tracks next h := by
  subst hnext
  exact ht.frame hok rfl rfl rfl rfl rfl rfl (fun _ _ => rfl) (fun _ => Iff.rfl)
    (fun _ _ _ => Iff.rfl) hlink (fun _ hd => hd) ht.received

/-- A handler goes from one program point to another, both outside the
broadcast and on the same side of the removal. -/
theorem Tracks.move (ht : Tracks s h) {c : Nat} {p q : HandleC} {clientM : Option Thread}
    {table : Fd → Option Nat} (hpc : s.handler c = some p) (hok : Ok next)
    (hnext : next = { s.setHandler c q with clientM := clientM, table := table })
    (hlisted : q.listed = p.listed) (htable : ∀ fd ∈ s.clients, table fd = s.table fd)
    (hp : ∀ buffer i, p ≠ .lockBroadcast buffer ∧ p ≠ .broadcast buffer i)
    (hq : ∀ buffer i, q ≠ .lockBroadcast buffer ∧ q ≠ .broadcast buffer i) : Tracks next h := by
  subst hnext
  refine ht.frame hok rfl rfl rfl rfl rfl rfl htable
    (fun d => registered_move hpc rfl rfl hlisted)
    (same_broadcasts hpc rfl (fun buffer i => (hp buffer i).2) fun buffer i => (hq buffer i).2)
    (fun _ hd => hd) (fun _ hd => hd) fun d => ?_
  rw [held_move hpc rfl (fun buffer => (hp buffer 0).1) fun buffer => (hq buffer 0).1]
  exact ht.received d

/-- `recv` hands one chunk to the handler, which now holds it. -/
theorem Tracks.recv (ht : Tracks s h) {c n : Nat} (hpc : s.handler c = some .recv)
    (hok : Ok next)
    (hnext : next = { s.setHandler c (.lockBroadcast ((s.inbound c).take n)) with
      inbound := Function.update s.inbound c ((s.inbound c).drop n) }) :
    Tracks next (h.watch s (.recv c n)) := by
  subst hnext
  refine ht.frame hok rfl rfl rfl rfl rfl rfl (fun _ _ => rfl)
    (fun d => registered_move hpc rfl rfl rfl) (same_broadcasts hpc rfl (by simp) (by simp))
    (fun _ hd => hd) (fun _ hd => hd) ?_
  intro d
  have hold := ht.received d
  by_cases hdc : d = c
  · subst hdc
    simp only [Server.held, hpc, List.append_nil] at hold
    simp [History.watch, Server.held, Server.setHandler, hold]
  · rw [held_update rfl hdc]
    simpa [History.watch, hdc] using hold

/-- The connection starts to follow the log at its current end. -/
theorem Tracks.pushBack (ht : Tracks s h) {c : Nat} (hpc : s.acceptLoop = .push c)
    (hok : Ok next)
    (hnext : next = { s with
      clients := s.clients ++ [s.clientSocket c]
      clientM := none
      acceptLoop := .spawn c }) :
    Tracks next (h.watch s .pushBack) := by
  subst hnext
  have hnew := ht.early c (Or.inr (Or.inr hpc))
  obtain ⟨hempty, hkept⟩ := ht.unjoined c hnew
  have hquiet := no_broadcast_of_push ht.ok hpc
  have hwatch : h.watch s .pushBack =
      { h with joined := Function.update h.joined c (some h.log.length) } := by
    simp [History.watch, hpc]
  rw [hwatch]
  constructor
  case ok => exact hok
  case early =>
    intro d hd
    have hdc : d ≠ c := by
      rintro rfl
      have hlt := (hok.open_of_registered (Or.inl rfl)).1
      simp only [reduceCtorEq, or_false] at hd hlt
      omega
    simpa [hdc] using ht.early d (hd.imp_right (by simp))
  case registered =>
    intro d
    have hold := ht.registered d
    simp only [Server.Registered, hpc, reduceCtorEq, false_or] at hold
    by_cases hdc : d = c
    · simp [Server.Registered, hdc, hkept]
    · simp [Server.Registered, hdc, Ne.symm hdc, hold]
  case unjoined =>
    intro d hd
    have hdc : d ≠ c := by
      rintro rfl
      simp at hd
    exact ht.unjoined d (by simpa [hdc] using hd)
  case bounded =>
    intro d
    by_cases hdc : d = c
    · simpa [hdc] using (ht.bounded c).2
    · simpa [hdc] using ht.bounded d
  case down => exact ht.down
  case current =>
    intro k buffer i hk
    exact absurd hk (hquiet k buffer i)
  case stream =>
    intro d
    have hold := ht.stream d
    rw [owed_of_no_broadcast (broadcasting_none ht.ok hquiet)] at hold
    rw [owed_of_no_broadcast (broadcasting_none hok hquiet)]
    by_cases hdc : d = c
    · subst hdc
      have hupto : h.upto d ≤ h.log.length := by
        unfold History.upto
        rw [hkept]
        exact Nat.min_le_right ..
      simp only [History.addressed, Function.update_self, hempty, List.append_nil]
      rw [between_eq_nil]
      · rfl
      · exact hupto
    · simpa [History.addressed, History.upto, hdc] using hold
  case received => exact ht.received

/-- The removal fixes the end of the connection's part of the log. -/
theorem Tracks.erase (ht : Tracks s h) {c : Nat} (hpc : s.handler c = some .erase)
    (hok : Ok next)
    (hnext : next = { s.setHandler c .close with
      clients := Server.eraseClient s.clients (s.clientSocket c)
      clientM := none }) :
    Tracks next (h.watch s (.erase c)) := by
  subst hnext
  have hreg : s.Registered c := Or.inr ⟨_, hpc, rfl⟩
  obtain ⟨hjoined, hkept⟩ := (ht.registered c).mp hreg
  have hquiet := no_broadcast_of_erase ht.ok hpc
  have hquiet' : ∀ k buffer i,
      (s.setHandler c .close).handler k ≠ some (.broadcast buffer i) := by
    intro k buffer i
    by_cases hkc : k = c
    · simp [Server.setHandler, hkc]
    · simpa [Server.setHandler, hkc] using hquiet k buffer i
  have hspawn : s.acceptLoop ≠ .spawn c := by
    intro hloop
    have hnone := ((ht.ok.loop c).mp (by simp [hloop, AcceptLoop.conn])).2
    rw [hpc] at hnone
    cases hnone
  simp only [History.watch]
  constructor
  case ok => exact hok
  case early => exact ht.early
  case registered =>
    intro d
    by_cases hdc : d = c
    · subst hdc
      simp [Server.Registered, Server.setHandler, HandleC.listed, hspawn]
    · have hold := ht.registered d
      simpa [Server.Registered, Server.setHandler, hdc] using hold
  case unjoined =>
    intro d hd
    have hdc : d ≠ c := by
      rintro rfl
      exact hjoined hd
    simpa [hdc] using ht.unjoined d hd
  case bounded =>
    intro d
    by_cases hdc : d = c
    · obtain ⟨hj, -, hi⟩ := ht.bounded c
      subst hdc
      exact ⟨hj, by simp, hi⟩
    · simpa [hdc] using ht.bounded d
  case down => exact ht.down
  case current =>
    intro k buffer i hk
    exact absurd hk (hquiet' k buffer i)
  case stream =>
    intro d
    have hold := ht.stream d
    rw [owed_of_no_broadcast (broadcasting_none ht.ok hquiet)] at hold
    rw [owed_of_no_broadcast (broadcasting_none hok hquiet')]
    by_cases hdc : d = c
    · subst hdc
      simpa [History.addressed, History.upto, hkept] using hold
    · simpa [History.addressed, History.upto, hdc] using hold
  case received =>
    intro d
    rw [held_move hpc rfl (by simp) (by simp)]
    exact ht.received d

/-- What a new entry of the log adds to the part meant for a connection. -/
theorem addressed_snoc (c : Nat) (entry : Nat × Chunk)
    (hbound : (∀ j ∈ h.joined c, j ≤ h.log.length) ∧ (∀ r ∈ h.removed c, r ≤ h.log.length) ∧
      ∀ i ∈ h.failed c, i ≤ h.log.length) :
    ({ h with log := h.log ++ [entry] } : History).addressed c =
      if h.joined c ≠ none ∧ h.removed c = none ∧ h.failed c = none then
        h.addressed c ++ others c [entry]
      else h.addressed c := by
  obtain ⟨hj, hr, hi⟩ := hbound
  cases hjoined : h.joined c with
  | none => simp [History.addressed, hjoined]
  | some j =>
    have hjle := hj j hjoined
    cases hremoved : h.removed c with
    | none =>
      cases hfailed : h.failed c with
      | none =>
        simp [History.addressed, History.upto, hjoined, hremoved, hfailed, between_snoc entry hjle]
      | some i =>
        have hile := hi i hfailed
        simp [History.addressed, History.upto, hjoined, hremoved, hfailed, Nat.min_eq_left hile,
          Nat.min_eq_left (Nat.le_succ_of_le hile), between_append [entry] j hile]
    | some r =>
      have hrle := hr r hremoved
      have hcut : ∀ n, h.log.length ≤ n →
          min ((h.failed c).getD n) r = min ((h.failed c).getD h.log.length) r := by
        intro n hn
        cases h.failed c with
        | none => simp [Nat.min_eq_right hrle, Nat.min_eq_right (Nat.le_trans hrle hn)]
        | some i => rfl
      have hle : min ((h.failed c).getD h.log.length) r ≤ h.log.length :=
        Nat.le_trans (Nat.min_le_right ..) hrle
      simp [History.addressed, History.upto, hjoined, hremoved, hcut (h.log.length + 1) (by omega),
        between_append [entry] j hle]

/-- Acquiring the mutex appends the chunk to the log; from then on the chunk is
owed to every registered connection but its source. -/
theorem Tracks.lockBroadcast (ht : Tracks s h) {c : Nat} {buffer : Chunk}
    (hpc : s.handler c = some (.lockBroadcast buffer)) (hfree : s.clientM = none)
    (hok : Ok next)
    (hnext : next = { s.setHandler c (.broadcast buffer 0) with clientM := some (.handler c) }) :
    Tracks next (h.watch s (.lockBroadcast c)) := by
  subst hnext
  have hwatch : h.watch s (.lockBroadcast c) = { h with log := h.log ++ [(c, buffer)] } := by
    simp [History.watch, hpc]
  have hquiet := no_broadcast_of_free ht.ok hfree
  have hself : (s.setHandler c (.broadcast buffer 0)).handler c = some (.broadcast buffer 0) := by
    simp [Server.setHandler]
  rw [hwatch]
  constructor
  case ok => exact hok
  case early => exact ht.early
  case registered =>
    intro d
    refine Iff.trans ?_ (ht.registered d)
    exact registered_move hpc rfl rfl rfl
  case unjoined => exact ht.unjoined
  case bounded =>
    intro d
    obtain ⟨hj, hr, hi⟩ := ht.bounded d
    simp only [List.length_append, List.length_singleton]
    exact ⟨fun j hj' => Nat.le_succ_of_le (hj j hj'), fun r hr' => Nat.le_succ_of_le (hr r hr'),
      fun i hi' => Nat.le_succ_of_le (hi i hi')⟩
  case down => exact ht.down
  case current =>
    intro k buffer' i hk
    have hkc : k = c := by
      by_contra hne
      exact hquiet k buffer' i (by simpa [Server.setHandler, hne] using hk)
    subst hkc
    rw [hself, Option.some.injEq, HandleC.broadcast.injEq] at hk
    exact ⟨h.log, by rw [hk.1], fun d => ⟨(ht.bounded d).1, (ht.bounded d).2.1⟩⟩
  case stream =>
    intro d
    have hold := ht.stream d
    rw [owed_of_no_broadcast (broadcasting_none ht.ok hquiet), List.append_nil] at hold
    rw [owed_of_broadcast hok hself, addressed_snoc d _ (ht.bounded d), List.drop_zero]
    have hmem : some d ∈ s.clients.map s.table ↔ h.joined d ≠ none ∧ h.removed d = none :=
      (mem_table_clients ht.ok).trans (ht.registered d)
    by_cases hdc : d = c
    · subst hdc
      simp [Server.setHandler, others_self, hold]
    · simp only [ne_eq, hdc, not_false_eq_true, true_and, Server.setHandler, hmem, and_assoc]
      split
      · simp [hold, others_other buffer (Ne.symm hdc)]
      · simp [hold]
  case received =>
    intro d
    have hold := ht.received d
    by_cases hdc : d = c
    · subst hdc
      simpa [Server.held, Server.setHandler, hpc, ofSource_self] using hold
    · simpa [Server.held, Server.setHandler, hdc, ofSource_other buffer (Ne.symm hdc)] using hold

/-- The end of the loop: the iterator has passed every connection. -/
theorem Tracks.iterateEnd (ht : Tracks s h) {c i : Nat} {buffer : Chunk}
    (hpc : s.handler c = some (.broadcast buffer i)) (hend : s.clients[i]? = none)
    (hok : Ok next) (hnext : next = { s with clientM := none }.setHandler c .recv) :
    Tracks next h := by
  subst hnext
  have hquiet : ∀ k buffer' j,
      Function.update s.handler c (some .recv) k ≠ some (.broadcast buffer' j) := by
    intro k buffer' j
    by_cases hkc : k = c
    · simp [hkc]
    · rw [Function.update_of_ne hkc]
      intro hk
      have hsame := ht.ok.lock.exclusive (t := Thread.handler k) (u := Thread.handler c)
        ⟨_, hk, rfl⟩ ⟨_, hpc, rfl⟩
      exact hkc (Thread.handler.inj hsame)
  constructor
  case ok => exact hok
  case early => exact ht.early
  case registered =>
    intro d
    refine Iff.trans ?_ (ht.registered d)
    exact registered_move hpc rfl rfl rfl
  case unjoined => exact ht.unjoined
  case bounded => exact ht.bounded
  case down => exact ht.down
  case current => exact fun k buffer' j hk => absurd hk (hquiet k buffer' j)
  case stream =>
    intro d
    have hold := ht.stream d
    have hpassed : s.clients.drop i = [] :=
      List.drop_eq_nil_of_le (List.getElem?_eq_none_iff.mp hend)
    rw [owed_of_broadcast ht.ok hpc, hpassed] at hold
    rw [owed_of_no_broadcast (broadcasting_none hok hquiet)]
    simpa using hold
  case received =>
    intro d
    rw [held_move hpc rfl (by simp) (by simp)]
    exact ht.received d

/-- One iteration: only the connection `d` at the iterator is concerned, and
its stream is complete afterwards. -/
theorem Tracks.advance (ht : Tracks s h) {c i d : Nat} {buffer : Chunk} {fd : Fd}
    (hpc : s.handler c = some (.broadcast buffer i)) (hfd : s.clients[i]? = some fd)
    (htable : s.table fd = some d) (hok : Ok next)
    (hnext : ∃ stream running, next = { s with stream := stream, running := running }.setHandler c
      (.broadcast buffer (i + 1)))
    (hlog : after = { h with failed := after.failed })
    (hkept : ∀ e, e ≠ d → next.stream e = s.stream e ∧ after.failed e = h.failed e)
    (hstart : h.joined d = none → next.stream d = [])
    (hfailed : after.failed d ≠ none → s.link d ≠ .up)
    (hbound : ∀ j ∈ after.failed d, j ≤ h.log.length)
    (hdone : next.stream d = (after.addressed d).flatMap Prod.snd) : Tracks next after := by
  obtain ⟨stream, running, rfl⟩ := hnext
  have hjoined : after.joined = h.joined := by rw [hlog]
  have hremoved : after.removed = h.removed := by rw [hlog]
  have hentries : after.log = h.log := by rw [hlog]
  have hself : Function.update s.handler c (some (.broadcast buffer (i + 1))) c =
      some (.broadcast buffer (i + 1)) := Function.update_self ..
  constructor
  case ok => exact hok
  case early =>
    rw [hjoined]
    exact ht.early
  case registered =>
    intro e
    rw [hjoined, hremoved]
    refine Iff.trans ?_ (ht.registered e)
    exact registered_move hpc rfl rfl rfl
  case unjoined =>
    intro e he
    rw [hjoined] at he
    rw [hremoved]
    refine ⟨?_, (ht.unjoined e he).2⟩
    by_cases hed : e = d
    · subst hed
      exact hstart he
    · exact ((hkept e hed).1).trans (ht.unjoined e he).1
  case bounded =>
    intro e
    rw [hentries, hjoined, hremoved]
    obtain ⟨hj, hr, hi⟩ := ht.bounded e
    refine ⟨hj, hr, ?_⟩
    by_cases hed : e = d
    · subst hed
      exact hbound
    · rw [(hkept e hed).2]
      exact hi
  case down =>
    intro e he
    by_cases hed : e = d
    · subst hed
      exact hfailed he
    · rw [(hkept e hed).2] at he
      exact ht.down e he
  case current =>
    intro k buffer' j hk
    rw [hentries, hjoined, hremoved]
    by_cases hkc : k = c
    · subst hkc
      rw [Server.setHandler_handler, hself, Option.some.injEq, HandleC.broadcast.injEq] at hk
      rw [← hk.1]
      exact ht.current k buffer i hpc
    · rw [Server.setHandler_handler, Function.update_of_ne hkc] at hk
      exact ht.current k buffer' j hk
  case stream =>
    intro e
    rw [owed_of_broadcast hok hself]
    by_cases hed : e = d
    · subst hed
      rw [if_neg fun hcond => target_passed ht.ok hfd htable hcond.2.1, List.append_nil]
      exact hdone
    · have hold := ht.stream e
      obtain ⟨hstream, hfailed'⟩ := hkept e hed
      rw [owed_of_broadcast ht.ok hpc] at hold
      simp only [mem_remaining hfd htable, hed, false_or] at hold
      have haddressed : after.addressed e = h.addressed e := by
        unfold History.addressed History.upto
        rw [hentries, hjoined, hremoved, hfailed']
      rw [haddressed, hstream, hfailed', ← hold]
      rfl
  case received =>
    intro e
    have hold := ht.received e
    have hreceived : after.received = h.received := by rw [hlog]
    rw [hreceived, hentries, held_move hpc rfl (by simp) (by simp)]
    exact hold

/-- The handler's own descriptor: the source is owed nothing. -/
theorem Tracks.iterateSelf (ht : Tracks s h) {c i : Nat} {buffer : Chunk}
    (hpc : s.handler c = some (.broadcast buffer i))
    (hfd : s.clients[i]? = some (s.clientSocket c))
    (hok : Ok (s.setHandler c (.broadcast buffer (i + 1)))) :
    Tracks (s.setHandler c (.broadcast buffer (i + 1))) h := by
  have htable : s.table (s.clientSocket c) = some c :=
    (table_of_mem ht.ok (List.mem_of_getElem? hfd)).mpr ⟨Or.inr ⟨_, hpc, rfl⟩, rfl⟩
  refine ht.advance hpc hfd htable hok ⟨s.stream, s.running, rfl⟩ rfl (fun _ _ => ⟨rfl, rfl⟩)
    (fun hc => (ht.unjoined c hc).1) (ht.down c) (ht.bounded c).2.2 ?_
  have hold := ht.stream c
  rw [owed_of_broadcast ht.ok hpc] at hold
  simpa using hold

/-- During a broadcast, a registered connection other than the source has been
sent everything before the current chunk, if no `send` to it has failed. -/
theorem Tracks.addressed_current (ht : Tracks s h) {c i d : Nat} {buffer : Chunk}
    (hpc : s.handler c = some (.broadcast buffer i)) (hdc : d ≠ c) (hreg : s.Registered d)
    (hfailed : h.failed d = none) :
    (h.addressed d).flatMap Prod.snd =
      (({ h with failed := Function.update h.failed d (some (h.log.length - 1)) } :
        History).addressed d).flatMap Prod.snd ++ buffer := by
  obtain ⟨front, hlog, hle⟩ := ht.current c buffer i hpc
  obtain ⟨hjoined, hremoved⟩ := (ht.registered d).mp hreg
  obtain ⟨j, hj⟩ := Option.ne_none_iff_exists'.mp hjoined
  have hjle := (hle d).1 j hj
  have hlen : h.log.length = front.length + 1 := by rw [hlog]; simp
  simp only [History.addressed, History.upto, hj, hremoved, hfailed, Option.getD_none,
    Function.update_self, Option.getD_some, Nat.min_self]
  rw [Nat.min_eq_left (by omega), hlen, Nat.add_sub_cancel, hlog, between_snoc _ hjle,
    between_append _ _ (Nat.le_refl _), others_append, others_other buffer (Ne.symm hdc)]
  simp

/-- One `send`: it appends the chunk, or it fails and from then on keeps
failing. The position of the first failure is where the stream ends. -/
theorem Tracks.iterateSend (ht : Tracks s h) {cfg : Config} {c i : Nat} {buffer : Chunk} {fd : Fd}
    (hpc : s.handler c = some (.broadcast buffer i)) (hfd : s.clients[i]? = some fd)
    (hother : fd ≠ s.clientSocket c)
    (hok : Ok ((s.send cfg fd buffer).setHandler c (.broadcast buffer (i + 1)))) :
    Tracks ((s.send cfg fd buffer).setHandler c (.broadcast buffer (i + 1)))
      (h.watch s (.iterate c)) := by
  obtain ⟨d, hreg, hsock, htable⟩ := ht.ok.conn_at hfd
  have hdc : d ≠ c := by
    rintro rfl
    exact hother hsock.symm
  have htarget : s.target c = some d := by
    simp [Server.target, hpc, hfd, hother, htable]
  have hjoined := ((ht.registered d).mp hreg).1
  have howed : s.owed h d = if h.failed d = none then buffer else [] := by
    have hmem := (mem_remaining (c := d) hfd htable).mpr (Or.inl rfl)
    rw [owed_of_broadcast ht.ok hpc]
    simp only [hdc, hmem, ne_eq, not_false_eq_true, true_and]
  have hold := ht.stream d
  rw [howed] at hold
  obtain ⟨stream, running, hsend⟩ := send_frame cfg s fd buffer
  have hshape : ∃ stream running, (s.send cfg fd buffer).setHandler c (.broadcast buffer (i + 1)) =
      { s with stream := stream, running := running }.setHandler c (.broadcast buffer (i + 1)) :=
    ⟨stream, running, by rw [hsend]⟩
  by_cases hup : s.link d = .up
  · have hfailed : h.failed d = none := by
      by_contra hne
      exact ht.down d hne hup
    have hwatch : h.watch s (.iterate c) = h := by
      simp [History.watch, htarget, hup]
    have hstream : (s.send cfg fd buffer).stream =
        Function.update s.stream d (s.stream d ++ buffer) := by
      rw [send_up htable hup]
    rw [hwatch]
    refine ht.advance hpc hfd htable hok hshape rfl ?_ (fun hc => absurd hc hjoined)
      (ht.down d) (ht.bounded d).2.2 ?_
    · intro e hed
      exact ⟨by simp [hstream, hed], rfl⟩
    · rw [if_pos hfailed] at hold
      simpa [hstream] using hold
  · have hstream : (s.send cfg fd buffer).stream = s.stream := send_stream_down htable hup
    by_cases hfailed : h.failed d = none
    · have hwatch : h.watch s (.iterate c) =
          { h with failed := Function.update h.failed d (some (h.log.length - 1)) } := by
        simp [History.watch, htarget, hup, hfailed]
      rw [hwatch]
      refine ht.advance hpc hfd htable hok hshape rfl ?_ (fun hc => absurd hc hjoined)
        (fun _ => hup) ?_ ?_
      · intro e hed
        exact ⟨by simp [hstream], by simp [hed]⟩
      · simp
      · rw [if_pos hfailed, ht.addressed_current hpc hdc hreg hfailed] at hold
        simpa [hstream] using hold
    · have hwatch : h.watch s (.iterate c) = h := by
        simp [History.watch, htarget, hfailed]
      rw [hwatch]
      refine ht.advance hpc hfd htable hok hshape rfl ?_ (fun hc => absurd hc hjoined)
        (ht.down d) (ht.bounded d).2.2 ?_
      · intro e hed
        exact ⟨by simp [hstream], rfl⟩
      · rw [if_neg hfailed] at hold
        simpa [hstream] using hold

theorem tracks_init : Tracks Server.init History.init where
  ok := ok_init
  early _ _ := rfl
  registered c := by simp [Server.init, History.init, Server.Registered]
  unjoined _ _ := ⟨rfl, rfl⟩
  bounded c := by simp [History.init]
  down c hc := absurd rfl hc
  current k buffer i hk := by cases hk
  stream c := rfl
  received c := rfl

/-- Every step keeps the history in accordance with the state. -/
theorem tracks_step {cfg : Config} {a : Act} (ht : Tracks s h)
    (hstep : (observed cfg).step (s, h) a = some (next, after)) : Tracks next after := by
  obtain ⟨hserver, hwatch⟩ := Machine.monitored_step.mp hstep
  simp only at hserver hwatch
  have hok := ok_step ht.ok hserver
  have hcases := step_cases hserver
  subst hwatch
  cases hcases with
  | clientSend c bytes hc hopen => exact ht.network hok rfl fun _ hd => hd
  | clientRead c n hc hn => exact ht.network hok rfl fun _ hd => hd
  | clientShut c hc => exact ht.network hok rfl fun _ hd => hd
  | linkDown c l hc hl =>
    apply ht.network hok rfl
    intro d hd
    by_cases hdc : d = c
    · simp [hdc, hl]
    · simpa [hdc] using hd
  | acceptError hrun hpc => exact ht
  | accept newFd hrun hpc hfd =>
    refine ht.frame hok rfl rfl rfl rfl rfl rfl ?_ ?_ (fun _ _ _ => Iff.rfl) (fun _ hd => hd)
      ?_ ht.received
    · intro fd hmem
      have hne : fd ≠ newFd := by
        rintro rfl
        obtain ⟨c, hreg, hsock⟩ := (ht.ok.mem fd).mp hmem
        rw [(table_of_mem ht.ok hmem).mpr ⟨hreg, hsock⟩] at hfd
        cases hfd
      simp [hne]
    · intro c
      simp [Server.Registered, hpc]
    · intro c hc
      left
      simp only [AcceptLoop.lockPush.injEq, reduceCtorEq, or_false] at hc
      omega
  | lockPush c hrun hpc hfree =>
    refine ht.frame hok rfl rfl rfl rfl rfl rfl (fun _ _ => rfl) ?_ (fun _ _ _ => Iff.rfl)
      (fun _ hd => hd) ?_ ht.received
    · intro d
      simp [Server.Registered, hpc]
    · intro d hd
      simp only [reduceCtorEq, AcceptLoop.push.injEq, false_or] at hd
      simpa [hpc] using hd
  | pushBack c hrun hpc => exact ht.pushBack hpc hok rfl
  | spawn c hrun hpc =>
    obtain ⟨hlt, hnone⟩ := (ht.ok.loop c).mp (by simp [hpc, AcceptLoop.conn])
    refine ht.frame hok rfl rfl rfl rfl rfl rfl (fun _ _ => rfl) ?_ ?_ (fun _ hd => hd) ?_ ?_
    · intro d
      by_cases hdc : d = c
      · simp [Server.Registered, hdc, hpc, HandleC.listed]
      · simp [Server.Registered, hdc, Ne.symm hdc, hpc]
    · intro k buffer i
      by_cases hkc : k = c
      · simp [hkc, hnone]
      · simp [hkc]
    · intro d hd
      exact Or.inl (by simpa using hd)
    · intro d
      have hold := ht.received d
      by_cases hdc : d = c
      · subst hdc
        simpa [History.watch, Server.held, hnone] using hold
      · simpa [History.watch, Server.held, hdc] using hold
  | recv c n hrun hpc hpos hsize hn => exact ht.recv hpc hok rfl
  | recvZero c hrun hpc hempty hshut =>
    exact ht.move hpc hok rfl rfl (fun _ _ => rfl) (by simp) (by simp)
  | recvError c hrun hpc => exact ht.move hpc hok rfl rfl (fun _ _ => rfl) (by simp) (by simp)
  | lockBroadcast c buffer hrun hpc hfree => exact ht.lockBroadcast hpc hfree hok rfl
  | iterateEnd c buffer i hrun hpc hsent hend =>
    have hwatch : h.watch s (.iterate c) = h := by
      simp [History.watch, Server.target, hpc, hend]
    rw [hwatch]
    exact ht.iterateEnd hpc hend hok rfl
  | iterateSelf c buffer i hrun hpc hsent hfd =>
    have hwatch : h.watch s (.iterate c) = h := by
      simp [History.watch, Server.target, hpc, hfd]
    rw [hwatch]
    exact ht.iterateSelf hpc hfd hok
  | iterateSend c buffer i fd hrun hpc hsent hfd hother => exact ht.iterateSend hpc hfd hother hok
  | lockErase c hrun hpc hfree =>
    exact ht.move hpc hok rfl rfl (fun _ _ => rfl) (by simp) (by simp)
  | erase c hrun hpc => exact ht.erase hpc hok rfl
  | close c hrun hpc =>
    -- The handler has removed its entry: no listed number is closed.
    refine ht.move hpc hok rfl rfl (fun fd hmem => ?_) (by simp) (by simp)
    have hne : fd ≠ s.clientSocket c := by
      rintro rfl
      have hown := (ht.ok.table _ c).mpr ⟨⟨ht.ok.accepted_of_handler hpc, by simp [hpc]⟩, rfl⟩
      obtain ⟨hreg, -⟩ := (table_of_mem ht.ok hmem).mp hown
      have hlisted := registered_handler ht.ok hpc hreg
      cases hlisted
    simp [hne]

end Steps

section Runs

variable {cfg : Config} {s : Server} {h : History} {actions : List Act}

theorem tracks_of_run
    (hrun : (observed cfg).run (Server.init, History.init) actions = some (s, h)) : Tracks s h :=
  Machine.run_preserves (P := fun p => Tracks p.1 p.2)
    (fun _ _ _ ht hstep => tracks_step ht hstep) tracks_init hrun

/-- Atomic broadcast, in every state of every run. The log of acquisitions that
the run leaves is one sequence of (source, chunk) pairs such that the bytes
written to a connection, with the part of a broadcast in progress that is still
to be sent to it, are the log's chunks of the other connections from its
`push_back` to its removal, cut at its first failed `send`; nothing is still to
be sent when no broadcast is in progress. The log restricted to a source is what
its handler has received, but for the chunk it holds while it waits for
`client_m`; and any two connections see the chunks of third parties in one
order. -/
theorem relay_is_atomic_broadcast (hrun : (server cfg).run Server.init actions = some s) :
    ∃ h, (observed cfg).run (Server.init, History.init) actions = some (s, h) ∧
      (∀ c, s.stream c ++ s.owed h c = (h.addressed c).flatMap Prod.snd) ∧
      (s.broadcasting = none → ∀ c, s.stream c = (h.addressed c).flatMap Prod.snd) ∧
      (∀ c, h.received c = ofSource c h.log ++ s.held c) ∧
      (∀ c d start start', h.joined c = some start → h.joined d = some start' →
        let common := others d (others c
          (between h.log (max start start') (min (h.upto c) (h.upto d))))
        common <:+: others d (h.addressed c) ∧ common <:+: others c (h.addressed d)) := by
  obtain ⟨h, hobserved⟩ := Machine.monitored_complete History.watch History.init hrun
  have ht := tracks_of_run hobserved
  refine ⟨h, hobserved, ht.stream, ?_, ht.received, ?_⟩
  · intro hnone c
    rw [← ht.stream c, owed_of_no_broadcast hnone, List.append_nil]
  · intro c d start start' hc hd
    simp only [History.addressed, hc, hd]
    exact third_parties_agree h.log c d start (h.upto c) start' (h.upto d)

/-- Three clients; the second joins between two chunks of the first, and the
connection of the third breaks in the middle of a broadcast. -/
def threeClientRun : List Act :=
  [.accept 4, .lockPush, .pushBack, .spawn, .accept 5, .lockPush, .pushBack, .spawn,
    .clientSend 0 [1, 2, 3], .recv 0 2, .lockBroadcast 0, .iterate 0, .iterate 0, .iterate 0,
    .accept 6, .lockPush, .pushBack, .spawn, .clientSend 1 [9], .recv 1 1, .recv 0 1,
    .lockBroadcast 1, .iterate 1, .linkDown 2 .broken, .iterate 1, .iterate 1, .iterate 1]

theorem relay_is_atomic_broadcast_threeClients :
    ∃ s h, (observed relay).run (Server.init, History.init) threeClientRun = some (s, h) ∧
      h.log = [(0, [1, 2]), (1, [9])] ∧ s.stream 0 = [9] ∧ s.stream 1 = [1, 2] ∧
      s.stream 2 = [] ∧ h.failed 2 = some 1 ∧ s.held 0 = [[3]] ∧
      ∀ c, h.received c = ofSource c h.log ++ s.held c := by
  obtain ⟨h, hobserved, -, -, hreceived, -⟩ :=
    relay_is_atomic_broadcast (rfl : (server relay).run Server.init threeClientRun = some _)
  obtain rfl := (Prod.mk.inj (Option.some.inj hobserved)).2
  exact ⟨_, _, rfl, rfl, rfl, rfl, rfl, rfl, rfl, hreceived⟩

end Runs

end MediaStream.TCPS
