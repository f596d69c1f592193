import MediaStream.Lib.Bytes
import MediaStream.Lib.Decimal
import MediaStream.Lib.Utf8

/-!
`UDPaudio.cpp`. `audio_sender` puts the time in front of each captured block, as
decimal text that a `'|'` ends. `audio_receiver` has a buffer for one block and
plays all that it receives into it.
-/

namespace MediaStream.UDPaudio

open Lib Lib.Bytes

/-- `SAMPLE_SIZE * CHANNELS * 2` -/
def sizeofBuffer : Nat := 1024 * 2 * 2

abbrev Buffer := Bytes.Buffer sizeofBuffer

/-- `timestamp_str + "|"` -/
def header (timestamp : Int64) : List Char := Decimal.print timestamp.toInt ++ ['|']

def packetData (timestamp : Int64) (buffer : Buffer) : List UInt8 :=
  Utf8.ascii (header timestamp) ++ buffer.bytes

/-- The results of the calls in one pass of the loop of `audio_sender`. -/
inductive Capture where
  | readError
  /-- `pa_simple_read` fills the buffer, and the clock is read. -/
  | read (buffer : Buffer) (timestamp : Int64)
  /-- `send_to` throws. -/
  | sendError (buffer : Buffer) (timestamp : Int64)

def audioSender : List Capture → List (List UInt8)
  | .read buffer timestamp :: rest => packetData timestamp buffer :: audioSender rest
  | .readError :: _ | .sendError _ _ :: _ | [] => []

/-- `receive_from` cuts the datagram to the length of the buffer. The buffer after
it, and what `pa_simple_write` is called with. -/
def receive (buffer : Buffer) (datagram : List UInt8) : Buffer × List UInt8 :=
  let length := min datagram.length sizeofBuffer
  (buffer.store datagram, (buffer.store datagram).bytes.take length)

/-- The blocks that are played. Each datagram comes with the success of
`pa_simple_write`. -/
def audioReceiver : Buffer → List (List UInt8 × Bool) → List (List UInt8)
  | _, [] => []
  | buffer, (datagram, written) :: rest =>
    let (next, block) := receive buffer datagram
    block :: if written then audioReceiver next rest else []

/-- What stands in the buffer is what fits of the datagram. -/
theorem receive_eq (buffer : Buffer) (datagram : List UInt8) :
    (receive buffer datagram).2 = datagram.take sizeofBuffer := by
  have hsize := buffer.length_bytes
  change (overwrite buffer.bytes datagram).take (min datagram.length sizeofBuffer) = _
  rcases Nat.le_total datagram.length sizeofBuffer with hshort | hlong
  · rw [Nat.min_eq_left hshort, take_overwrite (by rwa [hsize]), List.take_of_length_le hshort]
  · rw [Nat.min_eq_right hlong, overwrite_long (by rwa [hsize]), hsize, List.take_take,
      Nat.min_self]

/-- As long as playing succeeds, each datagram is played by itself. -/
theorem audioReceiver_eq (buffer : Buffer) (datagrams : List (List UInt8)) :
    audioReceiver buffer (datagrams.map fun datagram => (datagram, true)) =
      datagrams.map fun datagram => datagram.take sizeofBuffer := by
  induction datagrams generalizing buffer with
  | nil => rfl
  | cons datagram rest ih =>
    change (receive buffer datagram).2 :: audioReceiver (receive buffer datagram).1 _ = _
    rw [receive_eq, ih]
    rfl

section Header

theorem lt_of_mem_header {timestamp : Int64} {c : Char} (hc : c ∈ header timestamp) :
    c.toNat < 0x80 := by
  rcases List.mem_append.mp hc with hprint | hbar
  · rcases Decimal.isDigit_of_mem_print hprint with hdigit | rfl
    · simp only [Char.isDigit, Bool.and_eq_true, decide_eq_true_eq] at hdigit
      exact Nat.lt_of_le_of_lt hdigit.2 (by decide)
    · decide
  · rw [List.mem_singleton.mp hbar]
    decide

theorem header_ne_nil (timestamp : Int64) : Utf8.ascii (header timestamp) ≠ [] := by
  unfold Utf8.ascii header
  rw [List.map_append]
  exact List.append_ne_nil_of_right_ne_nil _ (List.cons_ne_nil _ _)

/-- Nineteen digits, a sign and the bar. -/
theorem length_header_le (timestamp : Int64) : (Utf8.ascii (header timestamp)).length ≤ 21 := by
  have hbound : timestamp.toInt.natAbs < 10 ^ 19 := by
    have hlow := timestamp.le_toInt
    have hhigh := timestamp.toInt_lt
    omega
  have hprint := Decimal.length_print_le (by decide) hbound
  rw [Utf8.ascii, List.length_map, header, List.length_append, List.length_singleton]
  exact Nat.succ_le_succ hprint

end Header

section Repeats

variable {α : Type*} {front l : List α}

/-- The list is `front` over and over again, cut off at some point. -/
def Repeats (front l : List α) : Prop :=
  ∀ i < l.length, l[i]? = front[i % front.length]?

instance [DecidableEq α] : Decidable (Repeats front l) :=
  inferInstanceAs (Decidable (∀ i < l.length, l[i]? = front[i % front.length]?))

/-- Pushed back by `front`, a list stays the same as far as it goes when it is
`front` repeated. -/
theorem take_append_eq_iff (hfront : front ≠ []) :
    (front ++ l).take l.length = l ↔ Repeats front l := by
  have hpos : 0 < front.length := List.length_pos_of_ne_nil hfront
  have hpointwise : (front ++ l).take l.length = l ↔ ∀ i < l.length, (front ++ l)[i]? = l[i]? := by
    constructor
    · intro h i hi
      rw [← congrArg (·[i]?) h]
      exact (List.getElem?_take_of_lt hi).symm
    · intro h
      apply List.ext_getElem?
      intro i
      by_cases hi : i < l.length
      · rw [List.getElem?_take_of_lt hi, h i hi]
      · rw [List.getElem?_eq_none (by simp; omega), List.getElem?_eq_none (by omega)]
  -- Past the first period, both sides speak of the element one period earlier.
  have hback : ∀ i, front.length ≤ i → (front ++ l)[i]? = l[i - front.length]? ∧
      front[i % front.length]? = front[(i - front.length) % front.length]? := by
    intro i hi
    exact ⟨List.getElem?_append_right hi, by rw [Nat.mod_eq_sub_mod hi]⟩
  rw [hpointwise]
  constructor
  · intro h i
    induction i using Nat.strongRecOn with
    | ind i ih =>
      intro hi
      rw [← h i hi]
      by_cases hfirst : i < front.length
      · rw [List.getElem?_append_left hfirst, Nat.mod_eq_of_lt hfirst]
      · obtain ⟨hlist, hmod⟩ := hback i (by omega)
        rw [hlist, hmod]
        exact ih _ (by omega) (by omega)
  · intro h i hi
    rw [h i hi]
    by_cases hfirst : i < front.length
    · rw [List.getElem?_append_left hfirst, Nat.mod_eq_of_lt hfirst]
    · obtain ⟨hlist, hmod⟩ := hback i (by omega)
      rw [hlist, hmod]
      exact h _ (by omega)

end Repeats

/-- The captured block is played exactly when it is the text of its own header
over and over again. -/
theorem receive_packetData_iff (timestamp : Int64) (block buffer : Buffer) :
    (receive buffer (packetData timestamp block)).2 = block.bytes ↔
      Repeats (Utf8.ascii (header timestamp)) block.bytes := by
  rw [receive_eq, packetData, ← take_append_eq_iff (header_ne_nil timestamp), block.length_bytes]

/-- Silence is not played. -/
theorem silence_not_played :
    ¬∀ timestamp (block buffer : Buffer),
      (receive buffer (packetData timestamp block)).2 = block.bytes := by
  intro h
  have hsilence := h 0 .zero .zero
  rw [receive_eq] at hsilence
  have hfirst := congrArg List.head? hsilence
  have hzero : (Bytes.Buffer.zero : Buffer).bytes.head? = some 0 := rfl
  have hdigit : ((packetData 0 .zero).take sizeofBuffer).head? = some 48 := rfl
  rw [hzero, hdigit] at hfirst
  cases hfirst

end MediaStream.UDPaudio
