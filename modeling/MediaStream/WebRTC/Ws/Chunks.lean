import MediaStream.WebRTC.Ws.Receiver

/-!
The receiver as a parser that is fed: the list of buffers, the counter of their
bytes and the loop flag are one way to keep the input that waits. What is
emitted depends on the bytes alone, not on the chunks the socket has made of
them.
-/

namespace MediaStream.WebRTC.Ws

open Lib

namespace Reading

variable {p : Reading}

/-- Without a payload the frame is complete at once, and the next one begins. -/
theorem rank_handle (hwanted : p.wanted = 0) (o : Options) (buf : List UInt8) :
    p.state = .getData ∧
      ((p.handle o buf).reading.errored = true ∨ (p.handle o buf).reading.state = .getInfo) := by
  have hdata : p.state = .getData := by
    unfold wanted at hwanted
    split at hwanted <;> first | assumption | cases hwanted
  refine ⟨hdata, ?_⟩
  have h := handled_handle o p buf
  generalize p.handle o buf = out at h
  cases h with
  | failed q e hcode => exact Or.inl rfl
  | thrown q => exact Or.inl rfl
  | closed q code reason hopcode herrored => exact Or.inr rfl
  | went q events herrored hconcluded hevents hnext => exact Or.inr (hnext hdata)

end Reading

/-- The handlers, apart from how the input is kept. -/
def parser (o : Options) : PullParser Reading UInt8 ReceiverEvent where
  need p := if p.errored || p.concluded then none else some p.wanted
  take p buf := ((p.handle o buf).reading, (p.handle o buf).events)
  rank p := if p.errored then 0 else if p.state = .getData then 1 else 0
  rank_lt p hneed := by
    split at hneed
    · cases hneed
    · next hgoes =>
      simp only [Bool.or_eq_true, not_or, Bool.not_eq_true] at hgoes
      obtain ⟨hdata, hnext⟩ := Reading.rank_handle (Option.some.inj hneed) o []
      rw [hgoes.1, hdata]
      rcases hnext with herrored | hinfo
      · simp [herrored]
      · simp [hinfo]

section Parser

variable {o : Options} {p : Reading}

theorem need_eq_none : (parser o).need p = none ↔ (p.errored || p.concluded) = true := by
  simp only [parser]
  split
  · next hstop => exact iff_of_true rfl hstop
  · next hgoes => exact iff_of_false (by simp) hgoes

theorem need_eq_some {n : Nat} : (parser o).need p = some n ↔
    (p.errored || p.concluded) = false ∧ p.wanted = n := by
  simp [parser]

end Parser

namespace Receiver

variable {o : Options} {r : Receiver}

def Counted (r : Receiver) : Prop := r.bufferedBytes = r.buffers.flatten.length

/-- The receiver without its way to keep the input. -/
def fed (r : Receiver) : PullParser.Fed Reading UInt8 := ⟨r.reading, r.buffers.flatten⟩

theorem copy_eq {buffers : List (List UInt8)} {n : Nat} (h : n ≤ buffers.flatten.length) :
    (copy buffers n).1 = buffers.flatten.take n ∧
      (copy buffers n).2.flatten = buffers.flatten.drop n := by
  induction buffers generalizing n with
  | nil => simp [copy]
  | cons buf rest ih =>
    rw [List.flatten_cons, List.length_append] at h
    unfold copy
    split
    · next hle =>
      rw [List.flatten_cons, List.take_append, List.drop_append, List.take_of_length_le hle,
        List.drop_eq_nil_of_le hle]
      split
      · obtain ⟨htake, hdrop⟩ := ih (n := n - buf.length) (by omega)
        exact ⟨congrArg _ htake, hdrop⟩
      · next hnone =>
        have hzero : n - buf.length = 0 := by omega
        simp [hzero]
    · next hlt =>
      have hshort : n - buf.length = 0 := by omega
      rw [List.flatten_cons, List.flatten_cons, List.take_append, List.drop_append, hshort]
      simp

/-- `consume` takes the first bytes off the buffers. -/
theorem consume_eq (hcounted : r.Counted) {n : Nat} (hpos : 0 < n) (h : n ≤ r.bufferedBytes) :
    (r.consume n).1 = r.buffers.flatten.take n ∧
      (r.consume n).2.buffers.flatten = r.buffers.flatten.drop n ∧
      (r.consume n).2.Counted ∧ (r.consume n).2.reading = r.reading := by
  suffices hsplit : (r.consume n).1 = r.buffers.flatten.take n ∧
      (r.consume n).2.buffers.flatten = r.buffers.flatten.drop n ∧
      (r.consume n).2.bufferedBytes = r.bufferedBytes - n ∧
      (r.consume n).2.reading = r.reading by
    obtain ⟨htake, hdrop, hcount, hreading⟩ := hsplit
    refine ⟨htake, hdrop, ?_, hreading⟩
    unfold Counted
    rw [hcount, hdrop, List.length_drop, hcounted]
  obtain ⟨bufferedBytes, buffers, loop, reading⟩ := r
  obtain rfl : bufferedBytes = buffers.flatten.length := hcounted
  obtain ⟨htake, hdrop⟩ := copy_eq h
  cases buffers with
  | nil => exact absurd (Nat.lt_of_lt_of_le hpos h) (Nat.lt_irrefl 0)
  | cons buf rest =>
    unfold consume
    by_cases heq : n = buf.length
    · subst heq
      simp
    · by_cases hlt : n < buf.length
      · have hnone : n - buf.length = 0 := by omega
        simp [heq, hlt, List.take_append, List.drop_append, hnone]
      · simp only [if_neg heq, if_neg hlt]
        exact ⟨htake, hdrop, trivial, trivial⟩

/-- A handler that wants more than there is leaves the loop. -/
theorem pass_short (hcounted : r.Counted) (h : r.buffers.flatten.length < r.reading.wanted) :
    r.pass o = ({ r with loop := false }, []) := by
  unfold pass
  rw [hcounted, if_pos h]

/-- Otherwise it is given its bytes. -/
theorem pass_take (hcounted : r.Counted) (h : r.reading.wanted ≤ r.buffers.flatten.length) :
    let out := r.reading.handle o (r.buffers.flatten.take r.reading.wanted)
    (r.pass o).2 = out.events ∧ (r.pass o).1.reading = out.reading ∧ (r.pass o).1.loop = out.loop ∧
      (r.pass o).1.buffers.flatten = r.buffers.flatten.drop r.reading.wanted ∧
      (r.pass o).1.Counted := by
  have hle : r.reading.wanted ≤ r.bufferedBytes := hcounted ▸ h
  unfold pass
  rw [if_neg (Nat.not_lt.mpr hle)]
  by_cases hzero : r.reading.wanted = 0
  · rw [if_pos hzero]
    simp only [hzero, List.take_zero, List.drop_zero]
    exact ⟨trivial, trivial, trivial, trivial, hcounted⟩
  · rw [if_neg hzero]
    obtain ⟨htake, hdrop, hcount, hreading⟩ := consume_eq hcounted (Nat.pos_of_ne_zero hzero) hle
    simp only [htake, hreading]
    exact ⟨trivial, trivial, trivial, hdrop, hcount⟩

def remaining (r : Receiver) : Nat :=
  2 * r.buffers.flatten.length + if r.reading.state = .getData then 1 else 0

/-- The loop does what the parser does with the bytes that have been buffered, and comes to an
end. -/
theorem startLoop_eq {fuel : Nat} (hcounted : r.Counted)
    (hgoes : (r.reading.errored || r.reading.concluded) = false) (hfuel : r.remaining < fuel) :
    ((startLoop o fuel r).1.fed, (startLoop o fuel r).2) =
        (parser o).drain r.reading r.buffers.flatten ∧
      (startLoop o fuel r).1.Counted ∧ (startLoop o fuel r).1.loop = false := by
  induction fuel generalizing r with
  | zero => exact absurd hfuel (Nat.not_lt_zero _)
  | succ fuel ih =>
    have hneed : (parser o).need r.reading = some r.reading.wanted := need_eq_some.mpr ⟨hgoes, rfl⟩
    unfold startLoop
    rcases Nat.lt_or_ge r.buffers.flatten.length r.reading.wanted with hshort | hle
    · rw [pass_short hcounted hshort, PullParser.drain_short hneed hshort]
      exact ⟨rfl, hcounted, rfl⟩
    · obtain ⟨hevents, hreading, hloop, hdrop, hcount⟩ := pass_take (o := o) hcounted hle
      have hopen : r.reading.errored = false := (Bool.or_eq_false_iff.mp hgoes).1
      rw [Reading.loop_handle hopen, ← hreading] at hloop
      have hlen := List.length_take_of_le hle
      have hdrain := PullParser.drain_take hneed hlen
        (r.buffers.flatten.drop r.reading.wanted)
      rw [List.take_append_drop] at hdrain
      have htake : (parser o).take r.reading (r.buffers.flatten.take r.reading.wanted) =
          ((r.pass o).1.reading, (r.pass o).2) := by
        rw [hevents, hreading]
        rfl
      rw [htake] at hdrain
      rw [hdrain, ← hdrop]
      generalize hpass : r.pass o = passed at *
      obtain ⟨next, events⟩ := passed
      simp only at *
      cases hstop : next.reading.errored || next.reading.concluded with
      | true =>
        rw [hstop, Bool.not_true] at hloop
        have hnone : (parser o).need next.reading = none := need_eq_none.mpr hstop
        rw [PullParser.drain_stopped hnone]
        simp only [hloop, Bool.false_eq_true, if_false, List.append_nil]
        exact ⟨rfl, hcount, trivial⟩
      | false =>
        rw [hstop, Bool.not_false] at hloop
        have hless : next.remaining < fuel := by
          unfold remaining at hfuel ⊢
          rw [hdrop, List.length_drop]
          have hsmall : (if next.reading.state = .getData then 1 else 0) ≤ 1 := by
            split <;> omega
          rcases Nat.eq_zero_or_pos r.reading.wanted with hzero | hpos
          · obtain ⟨hdata, hnext⟩ := Reading.rank_handle hzero o
              (r.buffers.flatten.take r.reading.wanted)
            rw [← hreading] at hnext
            have hinfo : next.reading.state = .getInfo := by
              apply hnext.resolve_left
              rw [(Bool.or_eq_false_iff.mp hstop).1]
              exact Bool.false_ne_true
            rw [if_pos hdata] at hfuel
            rw [hinfo, if_neg (by simp)]
            omega
          · omega
        obtain ⟨heq, hlater, hend⟩ := ih hcount hstop hless
        simp only [hloop, if_true]
        refine ⟨?_, hlater, hend⟩
        rw [← heq]

/-- A chunk is fed to the parser. -/
theorem write_eq (hcounted : r.Counted) (chunk : List UInt8) :
    ((r.write o chunk).1.fed, (r.write o chunk).2) = (parser o).feed r.fed chunk ∧
      (r.write o chunk).1.Counted := by
  unfold write PullParser.feed
  cases herrored : r.reading.errored with
  | true =>
    have hnone : (parser o).need r.fed.state = none := need_eq_none.mpr (by simp [fed, herrored])
    rw [if_pos rfl, if_pos hnone]
    exact ⟨rfl, hcounted⟩
  | false =>
    cases hconcluded : r.reading.concluded with
    | true =>
      have hnone : (parser o).need r.fed.state = none :=
        need_eq_none.mpr (by simp [fed, hconcluded])
      rw [if_pos hnone]
      exact ⟨rfl, hcounted⟩
    | false =>
      have hgoes : (r.reading.errored || r.reading.concluded) = false := by
        rw [herrored, hconcluded]
        rfl
      have hsome : (parser o).need r.fed.state ≠ none := by
        rw [Ne, need_eq_none]
        exact Bool.eq_false_iff.mp hgoes
      have hflat : (r.buffers ++ [chunk]).flatten = r.buffers.flatten ++ chunk := by simp
      have hcount : Counted { r with
          bufferedBytes := r.bufferedBytes + chunk.length
          buffers := r.buffers ++ [chunk]
          loop := true } := by
        change r.bufferedBytes + chunk.length = (r.buffers ++ [chunk]).flatten.length
        rw [hflat, List.length_append, hcounted]
      have hfuel : remaining { r with
          bufferedBytes := r.bufferedBytes + chunk.length
          buffers := r.buffers ++ [chunk]
          loop := true } < 2 * (r.bufferedBytes + chunk.length) + 2 := by
        unfold remaining
        rw [← hcount]
        split <;> simp
      obtain ⟨heq, hlater, -⟩ := startLoop_eq (o := o) hcount hgoes hfuel
      rw [if_neg hsome]
      simp only [Bool.false_eq_true, if_false]
      refine ⟨?_, hlater⟩
      rw [heq]
      exact congrArg _ hflat

theorem receive_eq (hcounted : r.Counted) (chunks : List (List UInt8)) :
    ((receive o r chunks).1.fed, (receive o r chunks).2) = (parser o).feedAll r.fed chunks := by
  induction chunks generalizing r with
  | nil => rfl
  | cons chunk rest ih =>
    obtain ⟨heq, hcount⟩ := write_eq (o := o) hcounted chunk
    have hlater := ih hcount
    unfold receive PullParser.feedAll
    rw [← heq, ← hlater]

/-- One chunk more. -/
theorem receive_concat (chunks : List (List UInt8)) (chunk : List UInt8) :
    receive o r (chunks ++ [chunk]) =
      (((receive o r chunks).1.write o chunk).1,
        (receive o r chunks).2 ++ ((receive o r chunks).1.write o chunk).2) := by
  induction chunks generalizing r with
  | nil => simp [receive]
  | cons first rest ih => simp [receive, ih]

end Receiver

section Chunks

variable {o : Options}

theorem settled_init (o : Options) : (parser o).Settled Receiver.init.fed := by
  intro n hneed
  obtain ⟨-, rfl⟩ := need_eq_some.mp hneed
  exact Nat.two_pos

/-- What the receiver makes of a byte stream. -/
def events (o : Options) (bytes : List UInt8) : List ReceiverEvent :=
  ((parser o).drain .init bytes).2

/-- Whatever chunks the socket makes of the bytes, the receiver emits the same and is left in the
same place. -/
theorem receive_init (o : Options) (chunks : List (List UInt8)) :
    (Receiver.receive o .init chunks).2 = events o chunks.flatten ∧
      (Receiver.receive o .init chunks).1.reading =
        ((parser o).drain .init chunks.flatten).1.state := by
  have heq := Receiver.receive_eq (o := o) (r := .init) rfl chunks
  obtain ⟨hstate, hevents⟩ := PullParser.feedAll_eq_drain (settled_init o) chunks
  rw [← heq] at hstate hevents
  exact ⟨hevents, hstate⟩

/-- Where the network cuts the bytes makes no difference to what is emitted, and none to what the
receiver waits for. -/
theorem receive_cut {chunks chunks' : List (List UInt8)} (h : chunks.flatten = chunks'.flatten) :
    (Receiver.receive o .init chunks).2 = (Receiver.receive o .init chunks').2 ∧
      (Receiver.receive o .init chunks).1.reading =
        (Receiver.receive o .init chunks').1.reading := by
  obtain ⟨hevents, hreading⟩ := receive_init o chunks
  obtain ⟨hevents', hreading'⟩ := receive_init o chunks'
  exact ⟨by rw [hevents, hevents', h], by rw [hreading, hreading', h]⟩

/-- A ping and half of a header, in one chunk and byte by byte. -/
theorem receive_cut_ping :
    let o : Options := ⟨true, 16, false⟩
    let whole : List (List UInt8) := [[0x89, 0x81, 1, 2, 3, 4, 0x60, 0x82]]
    let single : List (List UInt8) := [[0x89], [0x81], [1], [2], [3], [4], [], [0x60], [0x82]]
    (Receiver.receive o .init whole).2 = [.ping [0x61]] ∧
      (Receiver.receive o .init whole).2 = (Receiver.receive o .init single).2 ∧
      (Receiver.receive o .init whole).1.reading = (Receiver.receive o .init single).1.reading :=
  ⟨by decide +kernel, receive_cut rfl⟩

end Chunks

end MediaStream.WebRTC.Ws
