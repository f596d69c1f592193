import MediaStream.Lib.Bytes

/-!
A capture device that fills a buffer from its start, with fewer frames than asked
for or with none. A loop that sends all of its buffer after each read sends what
has been captured only if every read fills the buffer.
-/

namespace MediaStream.Lib.Capture

open Bytes

/-- The frames that one read returns, at most `requested` of `frameBytes` bytes. -/
structure Frames (frameBytes requested : Nat) where
  bytes : List UInt8
  whole : bytes.length % frameBytes = 0
  length_le : bytes.length ≤ requested * frameBytes

variable {frameBytes requested : Nat}

def Frames.Full (f : Frames frameBytes requested) : Prop :=
  f.bytes.length = requested * frameBytes

instance (f : Frames frameBytes requested) : Decidable f.Full :=
  inferInstanceAs (Decidable (_ = _))

/-- What a read puts into the buffer. One that fails puts nothing there. -/
def written : Option (Frames frameBytes requested) → List UInt8
  | none => []
  | some f => f.bytes

def captured (reads : List (Option (Frames frameBytes requested))) : List UInt8 :=
  reads.flatMap written

def contents (buffer : Buffer (requested * frameBytes)) :
    List (Option (Frames frameBytes requested)) → List (List UInt8)
  | [] => []
  | read :: rest =>
    (buffer.store (written read)).bytes :: contents (buffer.store (written read)) rest

theorem length_written_le (read : Option (Frames frameBytes requested)) :
    (written read).length ≤ requested * frameBytes := by
  cases read with
  | none => exact Nat.zero_le _
  | some f => exact f.length_le

theorem captured_cons (read : Option (Frames frameBytes requested))
    (rest : List (Option (Frames frameBytes requested))) :
    captured (read :: rest) = written read ++ captured rest := List.flatMap_cons

theorem length_captured_le (reads : List (Option (Frames frameBytes requested))) :
    (captured reads).length ≤ reads.length * (requested * frameBytes) := by
  induction reads with
  | nil => exact Nat.zero_le _
  | cons read rest ih =>
    rw [captured_cons, List.length_append, List.length_cons, Nat.succ_mul, Nat.add_comm]
    exact Nat.add_le_add ih (length_written_le read)

theorem length_flatten_contents (buffer : Buffer (requested * frameBytes))
    (reads : List (Option (Frames frameBytes requested))) :
    (contents buffer reads).flatten.length = reads.length * (requested * frameBytes) := by
  induction reads generalizing buffer with
  | nil => rw [List.length_nil, Nat.zero_mul]; rfl
  | cons read rest ih =>
    rw [contents, List.flatten_cons, List.length_append, ih, (buffer.store _).length_bytes,
      List.length_cons, Nat.succ_mul, Nat.add_comm]

/-- The contents of the buffer, read by read, are what has been captured exactly
when each read fills the buffer. -/
theorem flatten_contents_eq_iff (buffer : Buffer (requested * frameBytes))
    (reads : List (Option (Frames frameBytes requested))) :
    (contents buffer reads).flatten = captured reads ↔
      ∀ read ∈ reads, (written read).length = requested * frameBytes := by
  constructor
  · intro h
    have hlength := congrArg List.length h
    rw [length_flatten_contents] at hlength
    -- Every read counts: none can make up for what another one lacks.
    clear h
    induction reads with
    | nil => exact nofun
    | cons read rest ih =>
      rw [captured_cons, List.length_append, List.length_cons, Nat.succ_mul] at hlength
      have hread := length_written_le read
      have hrest := length_captured_le rest
      rw [List.forall_mem_cons]
      constructor
      · omega
      · apply ih
        omega
  · intro h
    induction reads generalizing buffer with
    | nil => rfl
    | cons read rest ih =>
      obtain ⟨hread, hrest⟩ := List.forall_mem_cons.mp h
      have hstore : (buffer.store (written read)).bytes = written read :=
        overwrite_full (hread.trans buffer.length_bytes.symm)
      rw [contents, List.flatten_cons, ih _ hrest, hstore, captured_cons]

/-- A read that asks for something fills the buffer only if it does not fail. -/
theorem written_full_iff (hsize : requested * frameBytes ≠ 0)
    (read : Option (Frames frameBytes requested)) :
    (written read).length = requested * frameBytes ↔ ∃ f, read = some f ∧ f.Full := by
  cases read with
  | none =>
    constructor
    · intro h
      exact absurd h.symm hsize
    · rintro ⟨f, hread, -⟩
      cases hread
  | some f =>
    constructor
    · intro h
      exact ⟨f, rfl, h⟩
    · rintro ⟨f', hread, hfull⟩
      obtain rfl := Option.some.inj hread
      exact hfull

end MediaStream.Lib.Capture
