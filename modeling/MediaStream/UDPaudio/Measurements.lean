import Mathlib.Data.Rat.Defs
import MediaStream.UDPaudio.Streamer

/-!
`Measurements.py`, which receives the datagrams of `audio_sender` and reads the
time in front of the audio. The audio may be anything: what is decoded of it
comes after the first `'|'`.
-/

namespace MediaStream.UDPaudio.Measurements

open Lib

/-- `data_str.split('|', 1)`, of which two parts are expected. -/
def split (dataStr : List Char) : Option (List Char × List Char) :=
  match dataStr.dropWhile (· ≠ '|') with
  | [] => none
  | _ :: rest => some (dataStr.takeWhile (· ≠ '|'), rest)

variable {t : Decimal.Characters}

/-- `send_timestamp`, unless there is a `ValueError`. -/
def sendTimestamp (t : Decimal.Characters) (data : List UInt8) : Option Int :=
  (split (Utf8.decodeIgnore data)).bind fun (timestampStr, _) => Decimal.parse t timestampStr

inductive Reception where
  /-- A datagram, and the time at which it has been received. -/
  | datagram (bytes : List UInt8) (receiveTimestamp : Int)
  | timeout

/-- `latencies` after the given number of passes. A `ValueError` ends the loop. The
quotients are exact, where Python divides floats. -/
def latencies (t : Decimal.Characters) : Nat → List Reception → List ℚ
  | passes + 1, .datagram bytes receiveTimestamp :: rest =>
    match sendTimestamp t (bytes.take 4096) with
    | some sent => (receiveTimestamp - sent) / 10 ^ 6 :: latencies t passes rest
    | none => []
  | passes + 1, .timeout :: rest => latencies t passes rest
  | 0, _ | _, [] => []

theorem split_append {text : List Char} (h : '|' ∉ text) (rest : List Char) :
    split (text ++ '|' :: rest) = some (text, rest) := by
  have hall : ∀ c ∈ text, decide (c ≠ '|') = true := by
    intro c hc
    apply decide_eq_true
    rintro rfl
    exact h hc
  unfold split
  rw [List.dropWhile_append_of_pos hall, List.takeWhile_append_of_pos hall]
  simp

theorem bar_not_mem_print (n : Int) : '|' ∉ Decimal.print n := by
  intro hmem
  rcases Decimal.isDigit_of_mem_print hmem with hdigit | hminus
  · cases hdigit
  · cases hminus

/-- Every timestamp is read back from its packet, whatever the audio behind it is
and wherever the datagram is cut. -/
theorem sendTimestamp_packetData (t : Decimal.Characters) (timestamp : Int64) (buffer : Buffer) :
    sendTimestamp t ((packetData timestamp buffer).take 4096) = some timestamp.toInt := by
  have hfits : (Utf8.ascii (header timestamp)).length ≤ 4096 :=
    Nat.le_trans (length_header_le timestamp) (by decide)
  unfold sendTimestamp packetData
  rw [List.take_append, List.take_of_length_le hfits,
    Utf8.decodeIgnore_ascii fun c hc => lt_of_mem_header hc, header, List.append_assoc,
    List.singleton_append, split_append (bar_not_mem_print _), Option.bind_some]
  exact Decimal.parse_print timestamp.toInt

/-- The same for a header in front of anything. -/
theorem sendTimestamp_header (timestamp : Int64) (audio : List UInt8) :
    sendTimestamp t (Utf8.ascii (header timestamp) ++ audio) = some timestamp.toInt := by
  unfold sendTimestamp
  rw [Utf8.decodeIgnore_ascii fun c hc => lt_of_mem_header hc, header, List.append_assoc,
    List.singleton_append, split_append (bar_not_mem_print _), Option.bind_some]
  exact Decimal.parse_print timestamp.toInt

def reception : Option (Int64 × Buffer × Int) → Reception
  | none => .timeout
  | some (timestamp, buffer, receiveTimestamp) =>
    .datagram (packetData timestamp buffer) receiveTimestamp

/-- Each pass in which a packet comes adds its latency, whatever the audio in it is, and
a pass that times out adds nothing. -/
theorem latencies_received (passes : Nat) (receptions : List (Option (Int64 × Buffer × Int))) :
    latencies t passes (receptions.map reception) =
      (receptions.take passes).filterMap fun received =>
        received.map fun (timestamp, _, receiveTimestamp) =>
          ((receiveTimestamp - timestamp.toInt) / 10 ^ 6 : ℚ) := by
  induction receptions generalizing passes with
  | nil => cases passes <;> rfl
  | cons received rest ih =>
    cases passes with
    | zero => cases received <;> rfl
    | succ passes =>
      cases received with
      | none => simpa [reception, latencies] using ih passes
      | some packet =>
        obtain ⟨timestamp, buffer, receiveTimestamp⟩ := packet
        have hfits : (Utf8.ascii (header timestamp)).length ≤ 4096 :=
          Nat.le_trans (length_header_le timestamp) (by decide)
        have hread : sendTimestamp t ((packetData timestamp buffer).take 4096) =
            some timestamp.toInt := by
          unfold packetData
          rw [List.take_append, List.take_of_length_le hfits]
          exact sendTimestamp_header timestamp _
        rw [List.map_cons, reception, latencies, hread]
        simp [ih]

end MediaStream.UDPaudio.Measurements
