import Mathlib.Algebra.Ring.Int.Defs
import MediaStream.TCPMeasure.Bandwidth

/-!
The figures of the two threads in a run of both ends. What the server reports and
what the client counts is what the loops compute from the results of their calls.
The server counts a chunk once its acknowledgement has been sent, and the chunk of a
failed acknowledgement never; and since it counts nothing that the client has not
sent, messages that fit into the client's `int` fit into the server's.
-/

namespace MediaStream.TCPMeasure

open Lib HandlePass SendPass

structure Figures where
  handled : List HandlePass
  reports : List Report
  passes : List SendPass
  sent : List Sent

namespace Figures

def empty : Figures where
  handled := []
  reports := []
  passes := []
  sent := []

def log (f : Figures) (s : Exchange) (bytesReceived : Nat) (currentTime : Int) : Figures :=
  { f with
    handled := f.handled ++ [⟨bytesReceived, true, currentTime⟩]
    reports := f.reports ++
      [⟨s.totalBytes + Int32.ofNat bytesReceived, seconds (currentTime - s.serverStart)⟩] }

def pass (f : Figures) (s : Exchange) (timestamp : Int) (ackTime : Option Int) : Figures :=
  { f with
    passes := f.passes ++ [⟨timestamp, true, ackTime⟩]
    sent := f.sent ++ [⟨s.dataSent, ackTime.map fun ackTime =>
      Int32.ofInt (milliseconds (ackTime - timestamp))⟩] }

def watch (s : Exchange) (a : Act) (f : Figures) : Figures :=
  match a with
  | .server (.log currentTime) =>
    match s.server with
    | .log bytesReceived => f.log s bytesReceived currentTime
    | _ => f
  | .client (.recv _ ackTime) =>
    match s.client with
    | .recv timestamp => f.pass s timestamp (some ackTime)
    | _ => f
  | .client .recvZero | .client .recvError =>
    match s.client with
    | .recv timestamp => f.pass s timestamp none
    | _ => f
  | _ => f

end Figures

/-- The messages that have been counted in a pass that goes on. -/
def SendData.underway : SendData → Nat
  | recv _ => 1
  | _ => 0

/-- The server's figures are those of `handleClient`. -/
structure Reported (s : Exchange) (f : Figures) : Prop where
  reports : f.reports = handleClient s.serverStart 0 f.handled
  counts : ∀ pass ∈ f.handled, pass.Counts
  totalBytes : s.totalBytes = Int32.ofInt (f.handled.map bytesReceived).sum
  inHand : ∀ bytesReceived clientTimestamp, s.server = .send bytesReceived clientTimestamp ∨
    s.server = .log bytesReceived → 0 < bytesReceived

/-- The client's figures are those of `sendData`. -/
structure Counted (s : Exchange) (f : Figures) : Prop where
  sent : f.sent = sendData 0 f.passes
  delivered : ∀ pass ∈ f.passes, pass.sent = true
  dataSent : s.dataSent = Int32.ofInt (1024 * (f.passes.length + s.client.underway))

section Loops

end Loops

section Steps

variable {s next : Exchange} {f : Figures}

/-- What the server's figures rest on is the server's own. -/
theorem client_step_server {a : ClientAct} (hstep : Step s (.client a) next) :
    next.server = s.server ∧ next.totalBytes = s.totalBytes ∧
      next.serverStart = s.serverStart := by
  cases hstep <;> exact ⟨rfl, rfl, rfl⟩

theorem server_step_client {a : ServerAct} (hstep : Step s (.server a) next) :
    next.client = s.client ∧ next.dataSent = s.dataSent := by
  cases hstep <;> exact ⟨rfl, rfl⟩

theorem Reported.of_same {s' : Exchange} {f' : Figures} (h : Reported s f)
    (hstate : s'.server = s.server ∧ s'.totalBytes = s.totalBytes ∧
      s'.serverStart = s.serverStart)
    (hfigures : f'.handled = f.handled ∧ f'.reports = f.reports) : Reported s' f' := by
  obtain ⟨hserver, htotal, hstart⟩ := hstate
  obtain ⟨hhandled, hreports⟩ := hfigures
  constructor
  · rw [hreports, hstart, hhandled]
    exact h.reports
  · rw [hhandled]
    exact h.counts
  · rw [htotal, hhandled]
    exact h.totalBytes
  · rw [hserver]
    exact h.inHand

end Steps

section Runs

variable {stack : Buffer} {clientStart serverStart : Int} {actions : List Act} {s : Exchange}
  {f : Figures}

def wholeExchange : List Act :=
  [.client (.timestamp 0), .client .send, .server (.recv 1024), .server .send,
    .server (.log 3000000000), .client (.recv 8 5000000)]

end Runs

def recvResults (actions : List Act) : List Nat :=
  actions.filterMap fun
    | .server (.recv n) => some n
    | _ => none

def messages (actions : List Act) : Nat := actions.count (.client .send)

/-- What the server has received and not counted: a chunk in hand, and the one whose
acknowledgement has failed. -/
def HandleClient.Lacks (seen : List Act) (last : List Nat) : HandleClient → Prop
  | recv => .server .sendError ∉ seen ∧ last = []
  | send n _ | log n => .server .sendError ∉ seen ∧ last = [n]
  | close | done =>
    .server .sendError ∉ seen ∧ last = [] ∨ .server .sendError ∈ seen ∧ ∃ n, last = [n]

/-- The counters, and the bytes between the two ends. -/
structure Tallied (s : Exchange) (seen : List Act) : Prop where
  totalBytes : ∃ counted last, recvResults seen = counted ++ last ∧
    s.totalBytes = Int32.ofInt counted.sum ∧ s.server.Lacks seen last
  dataSent : s.dataSent = Int32.ofInt (1024 * messages seen)
  bounded : (recvResults seen).sum + s.toServer.length ≤ 1024 * messages seen

section Counting

variable {s next : Exchange} {seen : List Act}

theorem recvResults_concat (seen : List Act) (a : Act) :
    recvResults (seen ++ [a]) = recvResults seen ++ recvResults [a] :=
  List.filterMap_append

theorem messages_concat (seen : List Act) (a : Act) :
    messages (seen ++ [a]) = messages seen + messages [a] :=
  List.count_append

/-- An action other than a failed acknowledgement makes the server lack nothing. -/
theorem lacks_concat {a : Act} (ha : a ≠ .server .sendError) {last : List Nat}
    {pc : HandleClient} : pc.Lacks (seen ++ [a]) last ↔ pc.Lacks seen last := by
  have hmem : (.server .sendError ∈ seen ++ [a]) ↔ .server .sendError ∈ seen := by
    simp [ha.symm]
  cases pc <;> simp only [HandleClient.Lacks, hmem]

/-- The client's actions leave the server's count alone. -/
theorem tallied_client {a : ClientAct} (h : Tallied s seen) (hstep : Step s (.client a) next)
    (hsent : next.dataSent = s.dataSent + Int32.ofInt (1024 * messages [.client a]))
    (hflight : next.toServer.length = s.toServer.length + 1024 * messages [.client a]) :
    Tallied next (seen ++ [Act.client a]) := by
  obtain ⟨hserver, htotal, -⟩ := client_step_server hstep
  obtain ⟨counted, last, hresults, hcounted, hlacks⟩ := h.totalBytes
  have hsame : recvResults (seen ++ [Act.client a]) = recvResults seen := by
    rw [recvResults_concat]
    exact List.append_nil _
  constructor
  · refine ⟨counted, last, hsame.trans hresults, htotal.trans hcounted, ?_⟩
    rw [hserver]
    exact (lacks_concat (by simp)).mpr hlacks
  · rw [hsent, h.dataSent, messages_concat, ← Int32.ofInt_add]
    push_cast
    rw [Int.mul_add]
  · rw [hsame, hflight, messages_concat]
    have := h.bounded
    omega

/-- The client sends nothing. -/
theorem tallied_quiet {a : ClientAct} (h : Tallied s seen) (hstep : Step s (.client a) next)
    (hquiet : messages [.client a] = 0) (hsent : next.dataSent = s.dataSent)
    (hflight : next.toServer = s.toServer) : Tallied next (seen ++ [Act.client a]) := by
  refine tallied_client h hstep ?_ ?_
  · rw [hquiet, hsent]
    exact (Int32.add_zero _).symm
  · rw [hquiet, hflight]
    rfl

theorem tallied_server {a : ServerAct} (h : Tallied s seen) (hstep : Step s (.server a) next)
    (hcount : ∃ counted last, recvResults (seen ++ [Act.server a]) = counted ++ last ∧
      next.totalBytes = Int32.ofInt counted.sum ∧
      next.server.Lacks (seen ++ [Act.server a]) last)
    (hflight : (recvResults [.server a]).sum + next.toServer.length = s.toServer.length) :
    Tallied next (seen ++ [Act.server a]) := by
  obtain ⟨-, hdata⟩ := server_step_client hstep
  have hsame : messages (seen ++ [Act.server a]) = messages seen := messages_concat seen _
  refine ⟨hcount, by rw [hdata, hsame]; exact h.dataSent, ?_⟩
  rw [recvResults_concat, List.sum_append, hsame]
  have := h.bounded
  omega

/-- The server receives nothing and counts nothing. -/
theorem tallied_idle {a : ServerAct} (h : Tallied s seen) (hstep : Step s (.server a) next)
    (hquiet : recvResults [.server a] = []) (htotal : next.totalBytes = s.totalBytes)
    (hflight : next.toServer = s.toServer)
    (hlacks : ∀ last, s.server.Lacks seen last →
      next.server.Lacks (seen ++ [Act.server a]) last) :
    Tallied next (seen ++ [Act.server a]) := by
  obtain ⟨counted, last, hresults, hcounted, hlast⟩ := h.totalBytes
  refine tallied_server h hstep ⟨counted, last, ?_, htotal.trans hcounted, hlacks last hlast⟩ ?_
  · rw [recvResults_concat, hquiet, List.append_nil, hresults]
  · rw [hquiet, hflight]
    exact Nat.zero_add _

/-- A chunk is received, acknowledged and counted, in this order. -/
theorem tallied_step {a : Act} (h : Tallied s seen) (hstep : Step s a next) :
    Tallied next (seen ++ [a]) := by
  cases hstep with
  | clientSend timestamp hpc =>
    refine tallied_client h (.clientSend timestamp hpc) rfl ?_
    have hmessage : s.message.bytes.length = 1024 := s.message.length_bytes
    simp [hmessage, messages]
  | timestamp now hpc => exact tallied_quiet h (.timestamp now hpc) rfl rfl rfl
  | clientSendError timestamp hpc =>
    exact tallied_quiet h (.clientSendError timestamp hpc) rfl rfl rfl
  | clientRecv timestamp ackTime ack rest hpc hflight hpos hsize =>
    exact tallied_quiet h (.clientRecv timestamp ackTime ack rest hpc hflight hpos hsize) rfl rfl
      rfl
  | clientRecvZero timestamp hpc hempty hdone =>
    exact tallied_quiet h (.clientRecvZero timestamp hpc hempty hdone) rfl rfl rfl
  | clientRecvError timestamp hpc =>
    exact tallied_quiet h (.clientRecvError timestamp hpc) rfl rfl rfl
  | wake hpc => exact tallied_quiet h (.wake hpc) rfl rfl rfl
  | finish endTime hpc => exact tallied_quiet h (.finish endTime hpc) rfl rfl rfl
  | clientClose hpc => exact tallied_quiet h (.clientClose hpc) rfl rfl rfl
  | serverRecv chunk rest hpc hflight hpos hsize =>
    obtain ⟨counted, last, hresults, hcounted, hlacks⟩ := h.totalBytes
    rw [hpc] at hlacks
    obtain ⟨hfine, rfl⟩ := hlacks
    refine tallied_server h (.serverRecv chunk rest hpc hflight hpos hsize)
      ⟨counted, [chunk.length], ?_, hcounted, ?_⟩ ?_
    · rw [recvResults_concat, hresults, List.append_nil]
      rfl
    · exact (lacks_concat (by simp)).mpr ⟨hfine, rfl⟩
    · simp [hflight, recvResults]
  | serverRecvZero hpc hempty hdone =>
    apply tallied_idle h (.serverRecvZero hpc hempty hdone) rfl rfl rfl
    intro last hlacks
    rw [hpc] at hlacks
    exact (lacks_concat (by simp)).mpr (Or.inl hlacks)
  | serverRecvError hpc =>
    apply tallied_idle h (.serverRecvError hpc) rfl rfl rfl
    intro last hlacks
    rw [hpc] at hlacks
    exact (lacks_concat (by simp)).mpr (Or.inl hlacks)
  | serverSend n clientTimestamp hpc =>
    apply tallied_idle h (.serverSend n clientTimestamp hpc) rfl rfl rfl
    intro last hlacks
    rw [hpc] at hlacks
    exact (lacks_concat (by simp)).mpr hlacks
  | serverSendError n clientTimestamp hpc =>
    -- The chunk in hand stays the one that is lacking.
    apply tallied_idle h (.serverSendError n clientTimestamp hpc) rfl rfl rfl
    intro last hlacks
    rw [hpc] at hlacks
    exact Or.inr ⟨List.mem_append_right _ (List.mem_singleton_self _), n, hlacks.2⟩
  | log currentTime n hpc =>
    obtain ⟨counted, last, hresults, hcounted, hlacks⟩ := h.totalBytes
    rw [hpc] at hlacks
    obtain ⟨hfine, rfl⟩ := hlacks
    refine tallied_server h (.log currentTime n hpc) ⟨counted ++ [n], [], ?_, ?_, ?_⟩
      (Nat.zero_add _)
    · rw [recvResults_concat, hresults, List.append_nil]
      exact List.append_nil _
    · rw [List.sum_append, List.sum_singleton, Int.natCast_add, Int32.ofInt_add,
        ← Int32.ofInt_eq_ofNat, ← hcounted]
    · exact (lacks_concat (by simp)).mpr ⟨hfine, rfl⟩
  | serverClose hpc =>
    apply tallied_idle h (.serverClose hpc) rfl rfl rfl
    intro last hlacks
    rw [hpc] at hlacks
    exact (lacks_concat (by simp)).mpr hlacks

variable {stack : Buffer} {clientStart serverStart : Int} {actions : List Act}

theorem tallied_run
    (hrun : Exchange.machine.run (Exchange.init stack clientStart serverStart) actions = some s) :
    Tallied s actions := by
  have hstart : Tallied (Exchange.init stack clientStart serverStart) [] :=
    ⟨⟨[], [], rfl, rfl, List.not_mem_nil, rfl⟩, rfl, Nat.le_refl 0⟩
  have hcollected := Machine.run_collects (f := fun a => [a]) (P := Tallied)
    (fun s a next seen hs hstep => tallied_step hs (step_iff.mp hstep)) hstart hrun
  simpa using hcollected

/-- As long as the messages fit into an `int`, both ends count exactly: the server what
its `recv` calls have returned but for what it lacks, the client every message. -/
theorem counters_exact
    (hrun : Exchange.machine.run (Exchange.init stack clientStart serverStart) actions = some s)
    (hfits : 1024 * messages actions < 2 ^ 31) :
    (∃ counted last, recvResults actions = counted ++ last ∧
      s.totalBytes.toInt = counted.sum ∧ s.server.Lacks actions last) ∧
    s.dataSent.toInt = 1024 * messages actions := by
  obtain ⟨⟨counted, last, hresults, hcounted, hlacks⟩, hdata, hbounded⟩ := tallied_run hrun
  rw [hresults, List.sum_append] at hbounded
  refine ⟨⟨counted, last, hresults, ?_, hlacks⟩, ?_⟩
  · rw [hcounted]
    apply (Counter.int32.exact_iff _ (Int.natCast_nonneg _)).mpr
    change _ < (2 ^ 31 : Int)
    omega
  · rw [hdata]
    apply (Counter.int32.exact_iff _ (by omega)).mpr
    change _ < (2 ^ 31 : Int)
    omega

/-- A second message arrives in part, and its acknowledgement fails. -/
def failedExchange : List Act :=
  wholeExchange ++ [Act.client .wake, .client (.timestamp 500000000), .client .send,
    .server (.recv 1000), .server .sendError]

theorem counters_exact_failedExchange : ∃ s,
    Exchange.machine.run (Exchange.init .dummy 0 0) failedExchange = some s ∧
      recvResults failedExchange = [1024, 1000] ∧
      (∃ counted last, recvResults failedExchange = counted ++ last ∧
        s.totalBytes.toInt = counted.sum ∧ s.server.Lacks failedExchange last) ∧
      s.dataSent.toInt = 2048 := by
  have hsome : (Exchange.machine.run (Exchange.init .dummy 0 0) failedExchange).isSome := by
    decide +kernel
  obtain ⟨s, hrun⟩ := Option.isSome_iff_exists.mp hsome
  exact ⟨s, hrun, by decide, counters_exact hrun (by decide)⟩

end Counting

end MediaStream.TCPMeasure
