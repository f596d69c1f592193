import MediaStream.Lib.Counter
import MediaStream.TCPMeasure.Audio.Stall

/-!
The bytes that a client of the audio latency program counts, in an `int64_t` where
the basic program has an `int`. `send` puts a timestamp and the audio behind it on
the wire, and only the audio is counted.
-/

namespace MediaStream.TCPMeasure.Audio

open Lib
open TCPS (Chunk)

def SendAudio.packets : SendAudio → List Chunk
  | send packet _ => [packet]
  | _ => []

/-- The packets that client `c` has given to `send`. -/
def watchSent (c : Nat) (s : Session) (a : Act) (packets : List Chunk) : List Chunk :=
  if a = .client c .send then packets ++ (s.client c).sender.packets else packets

def sending (c : Nat) : Machine (Session × List Chunk) Act :=
  Session.machine.monitored (watchSent c)

/-- A packet that is about to be sent begins with a timestamp. -/
def Client.Stamped (client : Client) : Prop :=
  ∀ packet ∈ client.sender.packets, timestampSize ≤ packet.length

/-- What an action other than `send` does to a client. -/
structure Client.Keeps (client later : Client) : Prop where
  totalBytesSent : later.totalBytesSent = client.totalBytesSent
  stamped : client.Stamped → later.Stamped

structure Client.Counts (client later : Client) (packet : Chunk) : Prop where
  sent : client.sender.packets = [packet]
  sender : later.sender.packets = []
  totalBytesSent : later.totalBytesSent =
    client.totalBytesSent + Int64.ofNat (packet.length - timestampSize)

section Clients

variable {s next : Session} {c d : Nat}

theorem Client.Keeps.of_eq {client later : Client} (h : later = client) : client.Keeps later :=
  h ▸ ⟨rfl, id⟩

theorem keeps_setSender {pc : SendAudio}
    (hpc : ∀ packet ∈ pc.packets, timestampSize ≤ packet.length) :
    (s.client d).Keeps ((s.setSender c pc).client d) := by
  unfold Session.setSender
  by_cases h : d = c
  · subst h
    simp only [Function.update_self]
    exact ⟨rfl, fun _ => hpc⟩
  · simp only [Function.update_of_ne h]
    exact .of_eq rfl

theorem keeps_setPlayer (pc : ReceiveAndPlay) :
    (s.client d).Keeps ((s.setPlayer c pc).client d) := by
  unfold Session.setPlayer
  by_cases h : d = c
  · subst h
    simp only [Function.update_self]
    exact ⟨rfl, fun hstamped => hstamped⟩
  · simp only [Function.update_of_ne h]
    exact .of_eq rfl

theorem client_socket {a : TCPS.Act} (h : s.socket a = some next) : next.client = s.client := by
  obtain ⟨server, -, rfl⟩ := Option.map_eq_some_iff.mp h
  rfl

theorem keeps_playerStep {a : ClientAct} {pc : ReceiveAndPlay}
    (h : s.playerStep c a pc = some next) : (s.client d).Keeps (next.client d) := by
  cases a <;> cases pc <;>
    simp only [Session.playerStep, Option.map_eq_some_iff, Option.ite_none_right_eq_some,
      reduceCtorEq, Option.some.injEq] at h
  case recv.recv n =>
    obtain ⟨-, read, hread, rfl⟩ := h
    rw [← client_socket hread]
    exact keeps_setPlayer _
  case recvZero.recv =>
    obtain ⟨-, rfl⟩ := h
    exact keeps_setPlayer _
  all_goals
    subst h
    exact keeps_setPlayer _

theorem senderStep_client {a : ClientAct}
    (h : s.senderStep c a (s.client c).sender = some next) :
    Act.client c a ≠ .client d .send ∧ (s.client d).Keeps (next.client d) ∨
      Act.client c a = .client d .send ∧
        ∃ packet, (s.client d).Counts (next.client d) packet := by
  have hempty : ∀ packet ∈ ([] : List Chunk), timestampSize ≤ packet.length :=
    List.forall_mem_nil _
  cases a <;> cases hpc : (s.client c).sender <;>
    simp only [hpc, Session.senderStep, Option.map_eq_some_iff, Option.ite_none_right_eq_some,
      reduceCtorEq, Option.some.injEq] at h
  case send.send packet timestamp =>
    obtain ⟨sent, hsent, rfl⟩ := h
    rw [client_socket hsent]
    by_cases hd : d = c
    · subst hd
      refine Or.inr ⟨rfl, packet, ?_⟩
      simp only [Function.update_self]
      exact ⟨by rw [hpc]; rfl, rfl, rfl⟩
    · refine Or.inl ⟨by simp [Ne.symm hd], ?_⟩
      simp only [Function.update_of_ne hd]
      exact .of_eq rfl
  case capture.capture audio now =>
    obtain ⟨-, rfl⟩ := h
    refine Or.inl ⟨by simp, keeps_setSender ?_⟩
    intro packet hpacket
    rw [List.mem_singleton.mp hpacket, List.length_append, length_msTimestamp]
    exact Nat.le_add_right _ _
  case recovered.capture now =>
    subst h
    refine Or.inl ⟨by simp, keeps_setSender ?_⟩
    intro packet hpacket
    rw [List.mem_singleton.mp hpacket, length_msTimestamp]
  case recvAck.recv n ackTime timestamp =>
    obtain ⟨-, read, hread, rfl⟩ := h
    refine Or.inl ⟨by simp, ?_⟩
    rw [← client_socket hread]
    exact keeps_setSender hempty
  case recvAckZero.recv timestamp =>
    obtain ⟨-, rfl⟩ := h
    exact Or.inl ⟨by simp, keeps_setSender hempty⟩
  all_goals
    subst h
    exact Or.inl ⟨by simp, keeps_setSender hempty⟩

/-- Only its own `send` makes a client count. -/
theorem client_step {a : Act} (hstep : Session.machine.step s a = some next) :
    a ≠ .client d .send ∧ (s.client d).Keeps (next.client d) ∨
      a = .client d .send ∧ ∃ packet, (s.client d).Counts (next.client d) packet := by
  change s.step a = some next at hstep
  cases a with
  | server a =>
    have hsocket : s.socket a = some next := by
      cases a <;> first | exact hstep | cases hstep
    exact Or.inl ⟨by simp, .of_eq (by rw [client_socket hsocket])⟩
  | client c a =>
    simp only [Session.step, Option.ite_none_right_eq_some] at hstep
    obtain ⟨-, hclient⟩ := hstep
    cases a with
    | close =>
      obtain ⟨-, hsocket⟩ := Option.ite_none_right_eq_some.mp hclient
      exact Or.inl ⟨by simp, .of_eq (by rw [client_socket hsocket])⟩
    | openPlayback | openPlaybackError | recv n | recvZero | recvError | write | writeError =>
      exact Or.inl ⟨by simp, keeps_playerStep hclient⟩
    | _ => exact senderStep_client hclient

end Clients

/-- The audio in some packets: the bytes on the wire but for the timestamps. -/
def audioBytes (packets : List Chunk) : Int :=
  packets.flatten.length - timestampSize * packets.length

/-- The counter of a client and the packets it has sent. -/
structure Totalled (c : Nat) (s : Session) (packets : List Chunk) : Prop where
  total : (s.client c).totalBytesSent = Int64.ofInt (audioBytes packets)
  stamped : (s.client c).Stamped
  nonneg : 0 ≤ audioBytes packets

theorem totalled_step {s next : Session} {c : Nat} {packets : List Chunk} {a : Act}
    (h : Totalled c s packets) (hstep : Session.machine.step s a = some next) :
    Totalled c next (watchSent c s a packets) := by
  rcases client_step (d := c) hstep with ⟨hother, hkeeps⟩ | ⟨rfl, packet, hcounts⟩
  · rw [watchSent, if_neg hother]
    exact ⟨hkeeps.totalBytesSent.trans h.total, hkeeps.stamped h.stamped, h.nonneg⟩
  · rw [watchSent, if_pos rfl, hcounts.sent]
    have hlong : timestampSize ≤ packet.length :=
      h.stamped packet (hcounts.sent ▸ List.mem_singleton_self _)
    have hmore : audioBytes (packets ++ [packet]) =
        audioBytes packets + ((packet.length - timestampSize : Nat) : Int) := by
      simp only [audioBytes, List.flatten_append, List.flatten_singleton, List.length_append,
        List.length_singleton]
      push_cast [hlong, Int.mul_add]
      omega
    refine ⟨?_, ?_, ?_⟩
    · rw [hcounts.totalBytesSent, h.total, hmore, Int64.ofInt_add, ← Int64.ofInt_eq_ofNat]
    · intro later hlater
      rw [hcounts.sender] at hlater
      cases hlater
    · rw [hmore]
      exact Int.add_nonneg h.nonneg (Int.natCast_nonneg _)

/-- In every run the counter of a client is what its packets put on the wire, without
the eight bytes of each timestamp, exactly as long as that fits into 64 bits. -/
theorem totalBytesSent_exact_iff {start s : Session} {c : Nat} {actions : List Act}
    {packets : List Chunk} (hstart : start.client c = .init)
    (hrun : (sending c).run (start, []) actions = some (s, packets)) :
    (s.client c).totalBytesSent.toInt = packets.flatten.length - timestampSize * packets.length ↔
      (packets.flatten.length - timestampSize * packets.length : Int) < 2 ^ 63 := by
  have hinit : Totalled c start [] := by
    refine ⟨by rw [hstart]; rfl, ?_, Int.le_refl 0⟩
    rw [hstart]
    exact List.forall_mem_nil _
  have hfinish : Totalled c s packets := by
    apply Machine.run_preserves (P := fun p : Session × List Chunk => Totalled c p.1 p.2) _
      hinit hrun
    rintro ⟨s, packets⟩ a ⟨next, later⟩ hs hstep
    obtain ⟨hnext, rfl⟩ := Machine.monitored_step.mp hstep
    exact totalled_step hs hnext
  rw [hfinish.total]
  exact Counter.int64.exact_iff _ hfinish.nonneg

def frameSent : List Act :=
  [.client 0 .openCapture, .client 0 (.capture [1, 2, 3, 4] 0), .client 0 .send]

theorem totalBytesSent_exact_iff_frameSent :
    ∃ s packet, (sending 0).run (twoClients, []) frameSent = some (s, [packet]) ∧
      packet.length = 12 ∧
      ((s.client 0).totalBytesSent.toInt = [packet].flatten.length - timestampSize * 1 ↔
        ([packet].flatten.length - timestampSize * 1 : Int) < 2 ^ 63) := by
  have hstart : twoClients.client 0 = .init := rfl
  have hrun : ∃ s packet, (sending 0).run (twoClients, []) frameSent = some (s, [packet]) ∧
      packet.length = 12 := ⟨_, _, rfl, rfl⟩
  obtain ⟨s, packet, hrun, hlength⟩ := hrun
  exact ⟨s, packet, hrun, hlength, totalBytesSent_exact_iff hstart hrun⟩

end MediaStream.TCPMeasure.Audio
