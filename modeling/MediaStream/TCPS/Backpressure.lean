import MediaStream.TCPS.ClientList

/-!
The relay over connections with a finite send buffer. A handler holds
`client_m` while it sends, and `send` takes what the buffer of the receiving
connection has room for and waits with the rest, so a client that does not read
can stop everybody else. It is the only way the server can stop while there is
work for it.
-/

namespace MediaStream.TCPS

open Lib

/-- `TCPS.cpp` over connections that hold `size` unread bytes. -/
def boundedRelay (size : Nat) : Config := { relay with sendBuffer := some size }

/-- What goes on by itself: the steps of the server's threads whose calls
succeed, and the reading of every client but `c`. -/
def Act.progress (c : Nat) : Act → Bool
  | .lockPush | .pushBack | .spawn | .recv .. | .recvZero _ | .lockBroadcast _ | .iterate _
  | .lockErase _ | .erase _ | .close _ => true
  | .clientRead d n => d ≠ c ∧ 0 < n
  | .clientSend .. | .clientShut _ | .linkDown .. | .acceptError | .accept _ | .recvError _ => false

namespace Server

/-- Bytes of `k` are on their way to `d`: not received yet, held by the
handler, or in a broadcast that has not come to `d`. -/
def HasData (s : Server) (k d : Nat) : Prop :=
  match s.handler k with
  | some .recv => s.inbound k ≠ []
  | some (.lockBroadcast _) => True
  | some (.broadcast _ i) => s.inbound k ≠ [] ∨ some d ∈ (s.clients.drop i).map s.table
  | _ => False

/-- Somebody other than `c` waits for the server: a client for the data of
another one, or a new connection for its registration. -/
def HasWork (s : Server) (c : Nat) : Prop :=
  (∃ k d, k ≠ c ∧ d ≠ c ∧ d ≠ k ∧ s.Registered d ∧ s.link d = .up ∧ s.HasData k d) ∨
    ∃ k, s.acceptLoop = .lockPush k

/-- No step is enabled but those of `c`. -/
def Frozen (cfg : Config) (s : Server) (c : Nat) : Prop :=
  ∀ a, a.progress c = true → (server cfg).step s a = none

/-- A handler holds `client_m` and is blocked in `send` to `c`. -/
def BlockedOn (cfg : Config) (s : Server) (c : Nat) : Prop :=
  ∃ k, s.clientM = some (.handler k) ∧ s.sending k = some c ∧ s.full cfg c

/-- The handler waits: for the mutex, or in `recv` with nothing to receive. -/
def Waits (s : Server) (d : Nat) : Prop :=
  match s.handler d with
  | none | some .done | some (.lockBroadcast _) | some .lockErase => True
  | some .recv => s.inbound d = [] ∧ s.shut d = false
  | _ => False

end Server

section Steps

variable {cfg : Config} {s next : Server} {a : Act} {c k : Nat}

theorem frozen_refuses (h : s.Frozen cfg c) (ha : a.progress c = true)
    (hstep : Step cfg s a next) : False := by
  have hsome := step_iff.mpr hstep
  rw [h a ha] at hsome
  cases hsome

/-- A connection for which `send` waits has bytes to read. -/
theorem full_unread {d : Nat} (hfull : s.full cfg d) : s.read d + 1 ≤ (s.stream d).length := by
  obtain ⟨size, -, -, hunread⟩ := hfull
  omega

/-- The last `send` of a broadcast was for a client of the server. -/
theorem registered_of_sending (hok : Ok s) {d : Nat} (hsending : s.sending k = some d) :
    s.Registered d := by
  unfold Server.sending at hsending
  split at hsending
  · next buffer i hpc =>
    obtain ⟨fd, hfd, -, htable⟩ := (target_eq_some (s.setHandler_self k _)).mp hsending
    obtain ⟨e, hreg, -, he⟩ := hok.conn_at hfd
    obtain rfl := Option.some.inj (he.symm.trans htable)
    exact hreg
  · cases hsending

/-- The holder of the mutex can go on, unless it is blocked in `send`. -/
theorem blockedOn_of_holder (hok : Ok s) (hrunning : s.running = true) {t : Thread}
    (hlock : s.clientM = some t) (hfrozen : s.Frozen cfg c) : s.BlockedOn cfg c := by
  have hinside := (hok.lock t).mp hlock
  cases t with
  | main =>
    obtain ⟨d, hpc⟩ := hinside
    exact (frozen_refuses hfrozen rfl (.pushBack d hrunning hpc)).elim
  | handler k =>
    obtain ⟨pc, hpc, hlocked⟩ := hinside
    cases pc with
    | erase => exact (frozen_refuses hfrozen rfl (.erase k hrunning hpc)).elim
    | broadcast buffer i =>
      by_cases hsent : s.Returned cfg k
      · -- The loop goes on.
        cases hfd : s.clients[i]? with
        | none =>
          exact (frozen_refuses hfrozen rfl (.iterateEnd k buffer i hrunning hpc hsent hfd)).elim
        | some fd =>
          by_cases hself : fd = s.clientSocket k
          · rw [hself] at hfd
            exact (frozen_refuses hfrozen rfl
              (.iterateSelf k buffer i hrunning hpc hsent hfd)).elim
          · exact (frozen_refuses hfrozen rfl
              (.iterateSend k buffer i fd hrunning hpc hsent hfd hself)).elim
      · obtain ⟨d, hsending, hfull⟩ := not_not.mp hsent
        by_cases hdc : d = c
        · exact ⟨k, hlock, hdc ▸ hsending, hdc ▸ hfull⟩
        · -- `d` has bytes to read, and it reads.
          have hopen := hok.open_of_registered (registered_of_sending hok hsending)
          exact (frozen_refuses hfrozen (by simp [Act.progress, hdc])
            (.clientRead d 1 hopen.1 (full_unread hfull))).elim
    | _ => cases hlocked

/-- Where there is work, somebody holds the mutex or can go on. -/
theorem locked_of_hasWork (hrunning : s.running = true) (hwork : s.HasWork c)
    (hok : Ok s) (hfrozen : s.Frozen cfg c) : s.clientM ≠ none := by
  intro hfree
  rcases hwork with ⟨k, d, -, -, -, -, -, hdata⟩ | ⟨k, hpc⟩
  · unfold Server.HasData at hdata
    split at hdata
    · next hpc =>
      obtain ⟨byte, rest, hcons⟩ := List.exists_cons_of_ne_nil hdata
      exact frozen_refuses hfrozen rfl
        (.recv k 1 hrunning hpc Nat.one_pos (by decide) (by simp [hcons]))
    · next buffer hpc =>
      exact frozen_refuses hfrozen rfl (.lockBroadcast k buffer hrunning hpc hfree)
    · next buffer i hpc => exact hok.lock.outside hfree (.handler k) ⟨_, hpc, rfl⟩
    · exact hdata
  · exact frozen_refuses hfrozen rfl (.lockPush k hrunning hpc hfree)

/-- A blocked `send` stops all who wait for the mutex or for data. -/
theorem frozen_of_blocked (hok : Ok s) (hlock : s.clientM = some (.handler k))
    (hsending : s.sending k = some c) (hfull : s.full cfg c) (hothers : ∀ d, d ≠ k → s.Waits d)
    (hspawn : ∀ d, s.acceptLoop ≠ .spawn d)
    (hread : ∀ d, d ≠ c → s.read d = (s.stream d).length) : s.Frozen cfg c := by
  obtain ⟨pc, hpc, hlocked⟩ := (hok.lock _).mp hlock
  have hbroadcast : ∃ buffer i, pc = .broadcast buffer i := by
    cases pc with
    | broadcast buffer i => exact ⟨buffer, i, rfl⟩
    | erase => simp [Server.sending, hpc] at hsending
    | _ => cases hlocked
  obtain ⟨buffer, i, rfl⟩ := hbroadcast
  have hnot : ∀ {d p}, s.handler d = some p → (∀ buffer i, p ≠ .broadcast buffer i) →
      s.Waits d := by
    intro d p hp hne
    apply hothers
    rintro rfl
    rw [hpc] at hp
    exact hne _ _ (Option.some.inj hp).symm
  have hsender : ∀ {d chunk j}, s.handler d = some (.broadcast chunk j) → d = k := by
    intro d chunk j hp
    have hholds := (hok.lock (.handler d)).mpr ⟨_, hp, rfl⟩
    exact Thread.handler.inj (Option.some.inj (hholds.symm.trans hlock))
  intro a ha
  cases hstep : (server cfg).step s a with
  | none => rfl
  | some next =>
    exfalso
    cases step_iff.mp hstep with
    | clientRead d n hd hn =>
      simp only [Act.progress, Bool.decide_and, Bool.and_eq_true, decide_eq_true_eq] at ha
      have hall := hread d ha.1
      omega
    | lockPush d hrun hpush hfree | lockBroadcast d buffer hrun hp hfree
    | lockErase d hrun hp hfree => cases hlock.symm.trans hfree
    | pushBack d hrun hpush =>
      have hmain := (hok.lock .main).mpr ⟨d, hpush⟩
      cases hlock.symm.trans hmain
    | spawn d hrun hpc => exact hspawn d hpc
    | recv d n hrun hp hpos hsize hn =>
      have hwaits := hnot hp (by simp)
      simp only [Server.Waits, hp] at hwaits
      rw [hwaits.1, List.length_nil] at hn
      omega
    | recvZero d hrun hp hempty hshut =>
      have hwaits := hnot hp (by simp)
      simp [Server.Waits, hp, hshut] at hwaits
    | iterateEnd d chunk j hrun hp hsent | iterateSelf d chunk j hrun hp hsent
    | iterateSend d chunk j fd hrun hp hsent =>
      obtain rfl := hsender hp
      exact hsent ⟨c, hsending, hfull⟩
    | erase d hrun hp | close d hrun hp =>
      have hwaits := hnot hp (by simp)
      simp [Server.Waits, hp] at hwaits
    | _ => cases ha

end Steps

section Runs

variable {s : Server} {c size : Nat}

/-- While the process runs, the server stops with work to do only when a
handler that holds `client_m` is blocked in `send` to the client that does not
read. -/
theorem frozen_only_in_send
    (hreach : (server (boundedRelay size)).Reaches Server.init s) (hrunning : s.running = true)
    (hwork : s.HasWork c) (hfrozen : s.Frozen (boundedRelay size) c) :
    s.BlockedOn (boundedRelay size) c := by
  have hok := ok_of_reaches hreach
  have hlocked := locked_of_hasWork hrunning hwork hok hfrozen
  obtain ⟨t, hlock⟩ := Option.ne_none_iff_exists'.mp hlocked
  exact blockedOn_of_holder hok hrunning hlock hfrozen

/-- The second client reads nothing. Its connection holds six bytes: the first four,
and two of the next. -/
def frozenRun : List Act :=
  [.accept 4, .lockPush, .pushBack, .spawn, .accept 5, .lockPush, .pushBack, .spawn,
    .accept 6, .lockPush, .pushBack, .spawn, .clientSend 0 [1, 2, 3, 4, 5, 6, 7, 8], .recv 0 4,
    .lockBroadcast 0, .iterate 0, .iterate 0, .iterate 0, .iterate 0, .clientRead 2 4, .recv 0 4,
    .lockBroadcast 0, .iterate 0, .iterate 0, .accept 7]

theorem frozenRun_frozen :
    ∃ s, (server (boundedRelay 6)).run Server.init frozenRun = some s ∧ s.running = true ∧
      s.link 1 = .up ∧ s.Registered 2 ∧ s.link 2 = .up ∧ s.HasData 0 2 ∧
      s.acceptLoop = .lockPush 3 ∧ s.Frozen (boundedRelay 6) 1 := by
  refine ⟨_, rfl, rfl, rfl, Or.inr ⟨_, rfl, rfl⟩, rfl, Or.inr (by decide), rfl, ?_⟩
  have hreach : (server (boundedRelay 6)).Reaches Server.init _ := ⟨frozenRun, rfl⟩
  refine frozen_of_blocked (k := 0) (ok_of_reaches hreach) rfl rfl ?_ ?_ ?_ ?_
  · exact ⟨6, rfl, rfl, by decide⟩
  · intro d hd
    rcases d with _ | _ | _ | d
    · exact absurd rfl hd
    · exact ⟨rfl, rfl⟩
    · exact ⟨rfl, rfl⟩
    · trivial
  · intro d hd
    cases hd
  · intro d hd
    rcases d with _ | _ | _ | d
    · rfl
    · exact absurd rfl hd
    · rfl
    · rfl

theorem frozen_only_in_send_frozenRun :
    ∃ s, (server (boundedRelay 6)).run Server.init frozenRun = some s ∧
      s.BlockedOn (boundedRelay 6) 1 := by
  obtain ⟨s, hrun, hrunning, -, -, -, -, hpush, hfrozen⟩ := frozenRun_frozen
  exact ⟨s, hrun, frozen_only_in_send ⟨_, hrun⟩ hrunning (Or.inr ⟨3, hpush⟩) hfrozen⟩

/-- The second client is connected and reads nothing. The third one has read
all it was sent and waits for the rest, a fourth one waits for its
registration, and nothing moves. -/
theorem client_that_does_not_read_freezes :
    ∃ s, (server (boundedRelay 6)).run Server.init frozenRun = some s ∧
      (∀ n, .clientRead 1 n ∉ frozenRun) ∧ s.link 1 = .up ∧ s.HasWork 1 ∧ s.HasData 0 2 ∧
      s.Frozen (boundedRelay 6) 1 := by
  obtain ⟨s, hrun, -, hlink, hreg, hup, hdata, hpush, hfrozen⟩ := frozenRun_frozen
  refine ⟨s, hrun, ?_, hlink, ?_, hdata, hfrozen⟩
  · intro n
    simp [frozenRun]
  · exact Or.inl ⟨0, 2, by decide, by decide, by decide, hreg, hup, hdata⟩

end Runs

end MediaStream.TCPS
