import Mathlib.Data.List.Basic

/-!
The head of a message as lines that end in a carriage return and a line feed, with
an empty line behind the last of them. Lines in which neither of the two occurs are
read back as they were written.
-/

namespace MediaStream.Lib.HeadLines

def crlf : List Char := ['\r', '\n']

/-- The lines of the head, and what follows the empty line. `current` has what was
read of the line already. -/
def read (current : List Char) : List Char → Option (List (List Char) × List Char)
  | [] => none
  | '\r' :: '\n' :: rest =>
    match current with
    | [] => some ([], rest)
    | _ => (read [] rest).map fun later => (current :: later.1, later.2)
  | c :: rest => read (current ++ [c]) rest

def write (lines : List (List Char)) (body : List Char) : List Char :=
  lines.flatMap (· ++ crlf) ++ (crlf ++ body)

def Plain (line : List Char) : Prop := line ≠ [] ∧ '\r' ∉ line

theorem read_char {c : Char} (h : c ≠ '\r') (current rest : List Char) :
    read current (c :: rest) = read (current ++ [c]) rest := by
  rw [read]
  rintro tail rfl _
  exact absurd rfl h

theorem read_line {line : List Char} (h : '\r' ∉ line) (current rest : List Char) :
    read current (line ++ rest) = read (current ++ line) rest := by
  induction line generalizing current with
  | nil => simp
  | cons c line ih =>
    rw [List.mem_cons, not_or] at h
    rw [List.cons_append, read_char (Ne.symm h.1), ih h.2]
    simp

theorem read_end {current : List Char} (h : current ≠ []) (rest : List Char) :
    read current (crlf ++ rest) =
      (read [] rest).map fun later => (current :: later.1, later.2) := by
  obtain ⟨c, line, rfl⟩ := List.exists_cons_of_ne_nil h
  rfl

theorem read_write {lines : List (List Char)} (h : ∀ line ∈ lines, Plain line)
    (body : List Char) : read [] (write lines body) = some (lines, body) := by
  induction lines with
  | nil => rfl
  | cons line lines ih =>
    obtain ⟨⟨hne, hplain⟩, hlines⟩ := List.forall_mem_cons.mp h
    have hsplit : write (line :: lines) body = line ++ (crlf ++ write lines body) := by
      simp [write]
    rw [hsplit, read_line hplain, List.nil_append, read_end hne, ih hlines]
    rfl

end MediaStream.Lib.HeadLines
