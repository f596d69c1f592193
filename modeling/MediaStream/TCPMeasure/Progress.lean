import MediaStream.TCPMeasure.Basic

/-!
The measurement program does not deadlock. The server answers chunks and not
messages, and the client may receive less than a whole acknowledgement, but the
answer to a chunk follows the chunk: from the moment a message has been sent
until the client has received something, there are bytes in front of the
server, an answer it is about to send, or bytes in front of the client.
-/

namespace MediaStream.TCPMeasure

open Lib Exchange

namespace Exchange

def ClientBlocked (s : Exchange) : Prop :=
  (∃ timestamp, s.client = .recv timestamp) ∧ s.toClient = []

def ServerBlocked (s : Exchange) : Prop :=
  s.server = .recv ∧ s.toServer = []

/-- The server is about to send an answer of at least one byte. -/
def Answering (s : Exchange) : Prop :=
  ∃ bytesReceived clientTimestamp,
    s.server = .send bytesReceived clientTimestamp ∧ clientTimestamp ≠ []

def ServerLeft (s : Exchange) : Prop :=
  s.server = .close ∨ s.server = .done

/-- There is something the client will receive, or nobody left to wait for. -/
def Outstanding (s : Exchange) : Prop :=
  s.toServer ≠ [] ∨ s.Answering ∨ s.toClient ≠ [] ∨ s.ServerLeft

/-- The client never waits for nothing. -/
def NeverStarved (s : Exchange) : Prop :=
  ∀ timestamp, s.client = .recv timestamp → s.Outstanding

theorem Outstanding.of_server_recv {s : Exchange} (h : s.Outstanding) (hpc : s.server = .recv) :
    s.toServer ≠ [] ∨ s.toClient ≠ [] := by
  rcases h with hmessage | ⟨_, _, hanswer, -⟩ | hack | hclose | hdone
  · exact Or.inl hmessage
  · cases hpc.symm.trans hanswer
  · exact Or.inr hack
  · cases hpc.symm.trans hclose
  · cases hpc.symm.trans hdone

end Exchange

section Runs

variable {s next : Exchange} {a : Act}

/-- What is outstanding stays so until the client receives. -/
theorem outstanding_server_step {a : ServerAct} (hs : s.Outstanding)
    (hstep : Step s (.server a) next) : next.Outstanding := by
  cases hstep with
  | serverRecv chunk rest hpc hflight hpos hsize =>
    refine Or.inr (Or.inl ⟨_, _, rfl, List.ne_nil_of_length_pos ?_⟩)
    rw [Buffer.length_head]
    decide
  | serverSend bytesReceived clientTimestamp hpc =>
    rcases hs with hmessage | ⟨_, _, hanswer, hne⟩ | hack | hclose | hdone
    · exact Or.inl hmessage
    · obtain ⟨-, rfl⟩ := HandleClient.send.inj (hpc.symm.trans hanswer)
      exact Or.inr (Or.inr (Or.inl (List.append_ne_nil_of_right_ne_nil _ hne)))
    · exact Or.inr (Or.inr (Or.inl (List.append_ne_nil_of_left_ne_nil hack _)))
    · cases hpc.symm.trans hclose
    · cases hpc.symm.trans hdone
  | log currentTime bytesReceived hpc =>
    rcases hs with hmessage | ⟨_, _, hanswer, -⟩ | hack | hclose | hdone
    · exact Or.inl hmessage
    · cases hpc.symm.trans hanswer
    · exact Or.inr (Or.inr (Or.inl hack))
    · cases hpc.symm.trans hclose
    · cases hpc.symm.trans hdone
  | serverRecvZero | serverRecvError | serverSendError =>
    exact Or.inr (Or.inr (Or.inr (Or.inl rfl)))
  | serverClose => exact Or.inr (Or.inr (Or.inr (Or.inr rfl)))

theorem client_server_step {a : ServerAct} (hstep : Step s (.server a) next) :
    next.client = s.client := by
  cases hstep <;> rfl

theorem neverStarved_step (hs : s.NeverStarved) (hstep : Step s a next) : next.NeverStarved := by
  intro timestamp hpc
  cases a with
  | server a =>
    rw [client_server_step hstep] at hpc
    exact outstanding_server_step (hs timestamp hpc) hstep
  | client a =>
    -- Only `send` leads to `recv`, and what it has sent is still all in flight.
    cases hstep with
    | clientSend =>
      refine Or.inl (List.append_ne_nil_of_right_ne_nil _ (List.ne_nil_of_length_pos ?_))
      rw [s.message.length_bytes]
      decide
    | _ => cases hpc

theorem neverStarved_of_reaches {stack : Buffer} {clientStart serverStart : Int}
    (h : machine.Reaches (.init stack clientStart serverStart) s) : s.NeverStarved :=
  h.preserves (P := NeverStarved) (fun _ _ _ hs hstep => neverStarved_step hs (step_iff.mp hstep))
    fun _ hpc => nomatch hpc

/-- The two ends never both wait for the other. -/
theorem exchange_deadlock_free {stack : Buffer} {clientStart serverStart : Int}
    (h : machine.Reaches (.init stack clientStart serverStart) s) :
    ¬(s.ClientBlocked ∧ s.ServerBlocked) := by
  rintro ⟨⟨⟨timestamp, hwaiting⟩, hnoAck⟩, hserver, hnoMessage⟩
  have houtstanding := neverStarved_of_reaches h timestamp hwaiting
  rcases houtstanding.of_server_recv hserver with hmessage | hack
  · exact hmessage hnoMessage
  · exact hack hnoAck

/-- The server takes 1000 bytes of the first message and answers; the client
sends the second message and waits, with nothing in flight to it. -/
theorem exchange_deadlock_free_splitMessage :
    ∃ s, machine.Reaches (.init .dummy 0 0) s ∧ s.ClientBlocked ∧ ¬s.ServerBlocked := by
  have hstart := Machine.Reaches.refl machine (Exchange.init .dummy 0 0)
  have hready := hstart.tail (step_iff.mpr (.timestamp 0 rfl))
  have hsent := hready.tail (step_iff.mpr (.clientSend 0 rfl))
  let first := Buffer.dummy.store (msTimestamp 0)
  have hfirst : (first.bytes.take 1000).length = 1000 := by
    rw [List.length_take, first.length_bytes]
    decide
  have hcut : [] ++ first.bytes = first.bytes.take 1000 ++ first.bytes.drop 1000 := by
    rw [List.nil_append, List.take_append_drop]
  have htaken := hsent.tail (step_iff.mpr (.serverRecv (first.bytes.take 1000)
    (first.bytes.drop 1000) rfl hcut (by rw [hfirst]; decide) (by rw [hfirst]; decide)))
  have hanswered := htaken.tail (step_iff.mpr (.serverSend _ _ rfl))
  let answer := (Buffer.dummy.store (first.bytes.take 1000)).head
  have hanswer : answer.length = timestampSize := Buffer.length_head _
  have hwhole : [] ++ answer = answer ++ [] := by
    rw [List.nil_append, List.append_nil]
  have hread := hanswered.tail (step_iff.mpr (.clientRecv 0 0 answer [] rfl hwhole
    (by rw [hanswer]; decide) (Nat.le_of_eq hanswer)))
  have hwoken := hread.tail (step_iff.mpr (.wake rfl))
  have hagain := hwoken.tail (step_iff.mpr (.timestamp 500000000 rfl))
  have hlast := hagain.tail (step_iff.mpr (.clientSend 500000000 rfl))
  exact ⟨_, hlast, ⟨⟨_, rfl⟩, rfl⟩, fun hserver =>
    exchange_deadlock_free hlast ⟨⟨⟨_, rfl⟩, rfl⟩, hserver⟩⟩

theorem exists_serverRecv (hpc : s.server = .recv) (hflight : s.toServer ≠ []) :
    ∃ a next, a.regular = true ∧ Step s a next := by
  obtain ⟨byte, rest, hcons⟩ := List.exists_cons_of_ne_nil hflight
  exact ⟨_, _, rfl, .serverRecv [byte] rest hpc hcons Nat.one_pos (by decide : 1 ≤ buffSize)⟩

theorem exists_clientRecv {timestamp : Int} (hpc : s.client = .recv timestamp)
    (hflight : s.toClient ≠ []) : ∃ a next, a.regular = true ∧ Step s a next := by
  obtain ⟨byte, rest, hcons⟩ := List.exists_cons_of_ne_nil hflight
  exact ⟨_, _, rfl,
    .clientRecv timestamp 0 [byte] rest hpc hcons Nat.one_pos (by decide : 1 ≤ timestampSize)⟩

/-- A server that is neither in `recv` nor gone can go on. -/
theorem exists_server_step (hrecv : s.server ≠ .recv) (hdone : s.server ≠ .done) :
    ∃ a next, a.regular = true ∧ Step s a next := by
  cases hpc : s.server with
  | recv => exact absurd hpc hrecv
  | send bytesReceived clientTimestamp => exact ⟨_, _, rfl, .serverSend _ _ hpc⟩
  | log bytesReceived => exact ⟨_, _, rfl, .log 0 _ hpc⟩
  | close => exact ⟨_, _, rfl, .serverClose hpc⟩
  | done => exact absurd hpc hdone

/-- Until both ends are done, one of them can go on without a failing call. -/
theorem exists_regular_step {stack : Buffer} {clientStart serverStart : Int}
    (h : machine.Reaches (.init stack clientStart serverStart) s)
    (hrunning : ¬(s.client = .done ∧ s.server = .done)) :
    ∃ a next, a.regular = true ∧ Step s a next := by
  cases hclient : s.client with
  | loop => exact ⟨_, _, rfl, .timestamp 0 hclient⟩
  | send timestamp => exact ⟨_, _, rfl, .clientSend _ hclient⟩
  | sleep => exact ⟨_, _, rfl, .wake hclient⟩
  | report => exact ⟨_, _, rfl, .finish 0 hclient⟩
  | close => exact ⟨_, _, rfl, .clientClose hclient⟩
  | recv timestamp =>
    by_cases hrecv : s.server = .recv
    · rcases (neverStarved_of_reaches h timestamp hclient).of_server_recv hrecv with
        hmessage | hack
      · exact exists_serverRecv hrecv hmessage
      · exact exists_clientRecv hclient hack
    · by_cases hdone : s.server = .done
      · by_cases hack : s.toClient = []
        · exact ⟨_, _, rfl, .clientRecvZero timestamp hclient hack hdone⟩
        · exact exists_clientRecv hclient hack
      · exact exists_server_step hrecv hdone
  | done =>
    by_cases hrecv : s.server = .recv
    · by_cases hmessage : s.toServer = []
      · exact ⟨_, _, rfl, .serverRecvZero hrecv hmessage hclient⟩
      · exact exists_serverRecv hrecv hmessage
    · apply exists_server_step hrecv
      intro hdone
      exact hrunning ⟨hclient, hdone⟩

end Runs

end MediaStream.TCPMeasure
