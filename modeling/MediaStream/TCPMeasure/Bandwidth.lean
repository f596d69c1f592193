import Mathlib.Data.List.TakeWhile
import MediaStream.Lib.Counter
import MediaStream.TCPMeasure.Basic

/-!
The bandwidths that the basic measurement program logs: `handle_client` one after
each chunk, `send_data_with_metrics` one at its end. A bandwidth is a number of
bytes, counted in an `int`, divided by a time in whole seconds.
-/

namespace MediaStream.TCPMeasure

open Lib

def seconds (nanoseconds : Int) : Int := nanoseconds.tdiv 1000000000

structure HandlePass where
  bytesReceived : Int
  /-- `send` returns something else than -1. -/
  acknowledged : Bool
  currentTime : Int

structure Report where
  totalBytes : Int32
  elapsedTime : Int

/-- The reports of `handle_client` from a pass on. -/
def handleClient (startTime : Int) (totalBytes : Int32) : List HandlePass → List Report
  | [] => []
  | pass :: rest =>
    if pass.bytesReceived ≤ 0 then []
    else if pass.acknowledged then
      let total := totalBytes + Int32.ofInt pass.bytesReceived
      { totalBytes := total, elapsedTime := seconds (pass.currentTime - startTime) } ::
        handleClient startTime total rest
    else []

/-- The results of the calls in one pass of the loop of `send_data_with_metrics`. -/
structure SendPass where
  timestamp : Int
  /-- `send` returns something else than -1. -/
  sent : Bool
  /-- Read if `recv` returns something. -/
  ackTime : Option Int

structure Sent where
  dataSent : Int32
  latency : Option Int32

def sendData (dataSent : Int32) : List SendPass → List Sent
  | [] => []
  | pass :: rest =>
    if pass.sent then
      let total := dataSent + Int32.ofNat buffSize
      { dataSent := total
        latency := pass.ackTime.map fun ackTime =>
          Int32.ofInt (milliseconds (ackTime - pass.timestamp)) } :: sendData total rest
    else []

/-- The passes, and `duration`. -/
def sendDataWithMetrics (startTime : Int) (passes : List SendPass) (endTime : Int) :
    List Sent × Int :=
  (sendData 0 passes, seconds (endTime - startTime))

namespace HandlePass

def Counts (pass : HandlePass) : Prop := 0 < pass.bytesReceived ∧ pass.acknowledged = true

instance (pass : HandlePass) : Decidable pass.Counts := inferInstanceAs (Decidable (_ ∧ _))

def logged (passes : List HandlePass) : List HandlePass :=
  passes.takeWhile fun pass => pass.Counts

end HandlePass

namespace SendPass

def delivered (passes : List SendPass) : List SendPass := passes.takeWhile SendPass.sent

end SendPass

open HandlePass SendPass

/-- After every chunk the bytes are counted exactly, and the time is not zero. -/
structure HandleExact (startTime : Int) (passes : List HandlePass) : Prop where
  totalBytes : ∀ i report, (handleClient startTime 0 passes)[i]? = some report →
    report.totalBytes.toInt = ((passes.take (i + 1)).map bytesReceived).sum
  elapsedTime : ∀ report ∈ handleClient startTime 0 passes, report.elapsedTime ≠ 0

/-- After every message 1024 bytes have been counted for each, and the time is not
zero at the end. -/
structure SendExact (startTime : Int) (passes : List SendPass) (endTime : Int) : Prop where
  dataSent : ∀ (i : Nat) sent, (sendDataWithMetrics startTime passes endTime).1[i]? = some sent →
    sent.dataSent.toInt = 1024 * ((i : Int) + 1)
  duration : (sendDataWithMetrics startTime passes endTime).2 ≠ 0

theorem seconds_ne_zero_iff {nanoseconds : Int} (h : 0 ≤ nanoseconds) :
    seconds nanoseconds ≠ 0 ↔ 1000000000 ≤ nanoseconds := by
  unfold seconds
  rw [Int.tdiv_eq_ediv_of_nonneg h]
  omega

section Handle

variable {startTime : Int} {passes : List HandlePass}

theorem logged_cons_of_counts {pass : HandlePass} (h : pass.Counts) (rest : List HandlePass) :
    logged (pass :: rest) = pass :: logged rest :=
  List.takeWhile_cons_of_pos (decide_eq_true h)

theorem logged_cons_of_not_counts {pass : HandlePass} (h : ¬pass.Counts)
    (rest : List HandlePass) : logged (pass :: rest) = [] := by
  apply List.takeWhile_cons_of_neg
  rwa [decide_eq_true_eq]

theorem counts_of_mem_logged {pass : HandlePass} (h : pass ∈ logged passes) : pass.Counts := by
  have hcounts := List.mem_takeWhile_imp h
  exact of_decide_eq_true hcounts

theorem logged_eq_self (h : ∀ pass ∈ passes, pass.Counts) : logged passes = passes := by
  apply List.takeWhile_eq_self_iff.mpr
  intro pass hpass
  exact decide_eq_true (h pass hpass)

theorem take_logged {k : Nat} (h : k ≤ (logged passes).length) :
    (logged passes).take k = passes.take k := by
  have hfront : logged passes = passes.take (logged passes).length :=
    List.prefix_iff_eq_take.mp (List.takeWhile_prefix _)
  rw [hfront, List.take_take, Nat.min_eq_left h]

theorem handleClient_cons {pass : HandlePass} (h : pass.Counts) (total : Int32)
    (rest : List HandlePass) :
    handleClient startTime total (pass :: rest) =
      { totalBytes := total + Int32.ofInt pass.bytesReceived
        elapsedTime := seconds (pass.currentTime - startTime) } ::
        handleClient startTime (total + Int32.ofInt pass.bytesReceived) rest := by
  rw [handleClient, if_neg (Int.not_le.mpr h.1), if_pos h.2]

/-- There is one report for each pass that is logged. -/
theorem handleClient_reports (startTime : Int) (total : Int32) (passes : List HandlePass) :
    (handleClient startTime total passes).map Report.totalBytes =
        totals total ((logged passes).map fun pass => Int32.ofInt pass.bytesReceived) ∧
      (handleClient startTime total passes).map Report.elapsedTime =
        (logged passes).map fun pass => seconds (pass.currentTime - startTime) := by
  induction passes generalizing total with
  | nil => exact ⟨rfl, rfl⟩
  | cons pass rest ih =>
    by_cases h : pass.Counts
    · obtain ⟨hbytes, htimes⟩ := ih (total + Int32.ofInt pass.bytesReceived)
      rw [logged_cons_of_counts h, handleClient_cons h]
      exact ⟨congrArg (_ :: ·) hbytes, congrArg (_ :: ·) htimes⟩
    · have hnone : handleClient startTime total (pass :: rest) = [] := by
        rw [handleClient]
        split
        · rfl
        · rename_i hpos
          exact if_neg fun hsent => h ⟨Int.not_le.mp hpos, hsent⟩
      rw [logged_cons_of_not_counts h, hnone]
      exact ⟨rfl, rfl⟩

/-- The bytes are counted exactly as long as an `int` can hold them. -/
theorem totalBytes_exact_iff :
    (∀ i report, (handleClient startTime 0 passes)[i]? = some report →
      report.totalBytes.toInt = ((passes.take (i + 1)).map bytesReceived).sum) ↔
      ((logged passes).map bytesReceived).sum < 2 ^ 31 := by
  have hnonneg : ∀ n ∈ (logged passes).map bytesReceived, 0 ≤ n := by
    intro n hn
    obtain ⟨pass, hpass, rfl⟩ := List.mem_map.mp hn
    exact Int.le_of_lt (counts_of_mem_logged hpass).1
  have hcounter : (handleClient startTime 0 passes).map Report.totalBytes =
      totals (Counter.int32.ofInt 0)
        (((logged passes).map bytesReceived).map Counter.int32.ofInt) := by
    rw [List.map_map]
    exact (handleClient_reports startTime 0 passes).1
  apply Counter.int32.records_exact_iff hnonneg hcounter
  intro i hi
  rw [List.length_map] at hi
  rw [← List.map_take, take_logged hi]

/-- The first report is the one that comes too early. -/
theorem elapsedTime_ne_zero_iff
    (h : (startTime :: (logged passes).map currentTime).Pairwise (· ≤ ·)) :
    (∀ report ∈ handleClient startTime 0 passes, report.elapsedTime ≠ 0) ↔
      ∀ first ∈ (logged passes).head?, startTime + 1000000000 ≤ first.currentTime := by
  have htimes : (∀ report ∈ handleClient startTime 0 passes, report.elapsedTime ≠ 0) ↔
      ∀ pass ∈ logged passes, seconds (pass.currentTime - startTime) ≠ 0 := by
    rw [← List.forall_mem_map (P := (· ≠ 0)), (handleClient_reports startTime 0 passes).2,
      List.forall_mem_map]
  obtain ⟨hlater, hsorted⟩ := List.pairwise_cons.mp h
  have hlate : ∀ pass ∈ logged passes, seconds (pass.currentTime - startTime) ≠ 0 ↔
      startTime + 1000000000 ≤ pass.currentTime := by
    intro pass hpass
    have hafter := hlater _ (List.mem_map_of_mem hpass)
    rw [seconds_ne_zero_iff (by omega)]
    omega
  rw [htimes]
  constructor
  · intro hall first hfirst
    have hmem := List.mem_of_mem_head? hfirst
    exact (hlate first hmem).mp (hall first hmem)
  · intro hfirst pass hpass
    apply (hlate pass hpass).mpr
    cases hlogged : logged passes with
    | nil =>
      rw [hlogged] at hpass
      cases hpass
    | cons first rest =>
      rw [hlogged] at hpass hfirst hsorted
      have hstart := hfirst first rfl
      rcases List.mem_cons.mp hpass with rfl | hrest
      · exact hstart
      · have hle := List.rel_of_pairwise_cons hsorted (List.mem_map_of_mem hrest)
        omega

end Handle

section Send

variable {passes : List SendPass}

/-- Each message adds 1024. -/
theorem sendData_dataSent (total : Int32) (passes : List SendPass) :
    (sendData total passes).map Sent.dataSent =
      totals total (List.replicate (delivered passes).length (Int32.ofInt 1024)) := by
  induction passes generalizing total with
  | nil => rfl
  | cons pass rest ih =>
    unfold sendData delivered
    cases hsent : pass.sent with
    | true =>
      rw [List.takeWhile_cons_of_pos hsent]
      exact congrArg (_ :: ·) (ih _)
    | false =>
      rw [List.takeWhile_cons_of_neg (by rw [hsent]; exact Bool.false_ne_true)]
      rfl

/-- The messages are counted exactly as long as an `int` can hold their bytes. -/
theorem dataSent_exact_iff :
    (∀ (i : Nat) sent, (sendData 0 passes)[i]? = some sent →
      sent.dataSent.toInt = 1024 * ((i : Int) + 1)) ↔
      1024 * (delivered passes).length < 2 ^ 31 := by
  have hsum : ∀ n : Nat, (List.replicate n (1024 : Int)).sum = 1024 * n := by
    intro n
    rw [List.sum_replicate, nsmul_eq_mul, Int.mul_comm]
  have hcounter : (sendData 0 passes).map Sent.dataSent =
      totals (Counter.int32.ofInt 0)
        ((List.replicate (delivered passes).length (1024 : Int)).map Counter.int32.ofInt) := by
    rw [List.map_replicate]
    exact sendData_dataSent 0 passes
  have hnonneg : ∀ n ∈ List.replicate (delivered passes).length (1024 : Int), 0 ≤ n := by
    intro n hn
    rw [List.eq_of_mem_replicate hn]
    decide
  have hbound : 1024 * (delivered passes).length < 2 ^ 31 ↔
      (List.replicate (delivered passes).length (1024 : Int)).sum < Counter.int32.bound := by
    rw [hsum]
    change _ ↔ _ < (2 ^ 31 : Int)
    omega
  rw [hbound]
  apply Counter.int32.records_exact_iff hnonneg hcounter
  intro i hi
  rw [List.length_replicate] at hi
  rw [List.take_replicate, hsum, Nat.min_eq_left hi]
  rfl

/-- A client that waits half a second after each message has been at it for a second
once it comes to the third one. -/
theorem duration_ne_zero_of_paced {startTime endTime : Int} {first second third : SendPass}
    {rest : List SendPass}
    (hpaced : ((first :: second :: third :: rest).map SendPass.timestamp).IsChain
      fun earlier later => earlier + 500000000 ≤ later)
    (hstart : startTime ≤ first.timestamp) (hfinish : third.timestamp ≤ endTime) :
    (sendDataWithMetrics startTime (first :: second :: third :: rest) endTime).2 ≠ 0 := by
  obtain ⟨hsecond, hrest⟩ := List.isChain_cons_cons.mp hpaced
  have hthird := (List.isChain_cons_cons.mp hrest).1
  apply (seconds_ne_zero_iff _).mpr <;> omega

end Send

/-- Where no clock goes back, the server's figures are exact exactly when the bytes
of all chunks fit into an `int` and the first report comes a second after the start
or later, and the client's when the bytes of all messages do and it ends a second
after the start or later. -/
theorem accounting_exact_iff {serverStart clientStart endTime : Int} {handled : List HandlePass}
    {sent : List SendPass}
    (hserver : (serverStart :: (logged handled).map currentTime).Pairwise (· ≤ ·))
    (hclient : clientStart ≤ endTime) :
    (HandleExact serverStart handled ↔
        ((logged handled).map bytesReceived).sum < 2 ^ 31 ∧
          ∀ first ∈ (logged handled).head?, serverStart + 1000000000 ≤ first.currentTime) ∧
      (SendExact clientStart sent endTime ↔
        1024 * (delivered sent).length < 2 ^ 31 ∧ clientStart + 1000000000 ≤ endTime) := by
  have hduration : (sendDataWithMetrics clientStart sent endTime).2 ≠ 0 ↔
      clientStart + 1000000000 ≤ endTime := by
    change seconds (endTime - clientStart) ≠ 0 ↔ _
    rw [seconds_ne_zero_iff (by omega)]
    omega
  rw [← totalBytes_exact_iff, ← elapsedTime_ne_zero_iff hserver, ← dataSent_exact_iff,
    ← hduration]
  constructor
  · constructor
    · intro h
      exact ⟨h.totalBytes, h.elapsedTime⟩
    · rintro ⟨hbytes, htime⟩
      exact ⟨hbytes, htime⟩
  · constructor
    · intro h
      exact ⟨h.dataSent, h.duration⟩
    · rintro ⟨hbytes, htime⟩
      exact ⟨hbytes, htime⟩

/-- Two messages half a second apart, and an attempt at a third one. -/
def twoMessages : List SendPass :=
  [⟨0, true, some 1000000⟩, ⟨500000000, true, none⟩, ⟨1000000000, false, none⟩]

theorem accounting_exact_iff_twoMessages :
    HandleExact 0 [⟨1024, true, 1000000000⟩, ⟨1024, true, 1500000000⟩] ∧
      SendExact 0 twoMessages 1000000000 := by
  have hboth : (HandleExact 0 [⟨1024, true, 1000000000⟩, ⟨1024, true, 1500000000⟩] ↔ _) ∧
      (SendExact 0 twoMessages 1000000000 ↔ _) := accounting_exact_iff (by decide) (by decide)
  exact ⟨hboth.1.mpr (by decide), hboth.2.mpr (by decide)⟩

/-- A chunk in the first second is divided by zero, and so is a message before an
early end; two gigabytes are more than the server's `int` can hold. -/
theorem early_and_long_not_exact :
    ¬HandleExact 0 [⟨1024, true, 500000000⟩] ∧
      ¬SendExact 0 [⟨0, true, none⟩, ⟨500000000, false, none⟩] 500000000 ∧
      ¬HandleExact 0 (List.replicate 2097152 ⟨1024, true, 1000000000⟩) := by
  refine ⟨?_, ?_, ?_⟩
  · intro h
    exact h.elapsedTime _ (List.mem_singleton_self _) rfl
  · intro h
    exact h.duration rfl
  · intro h
    have hcounts : ∀ pass ∈ List.replicate 2097152 (⟨1024, true, 1000000000⟩ : HandlePass),
        pass.Counts := by
      intro pass hpass
      rw [List.eq_of_mem_replicate hpass]
      decide
    have hbound := totalBytes_exact_iff.mp h.totalBytes
    rw [logged_eq_self hcounts, List.map_replicate, List.sum_replicate] at hbound
    exact absurd hbound (by decide)

end MediaStream.TCPMeasure
