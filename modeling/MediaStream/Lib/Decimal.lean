import Mathlib.Algebra.Group.Nat.Defs
import Mathlib.Data.List.DropRight

/-!
Integers as decimal text. What is read may have blanks around it, a sign, and
single underscores between digits. Which characters are blanks and digits is a
matter of a character table; only its ASCII part is fixed.
-/

namespace MediaStream.Lib.Decimal

structure Characters where
  isSpace : Char → Bool
  digit : Char → Option Nat
  digit_ascii : ∀ c, c.isDigit = true → digit c = some (c.toNat - '0'.toNat)
  not_space : ∀ c, c.isDigit = true ∨ c = '-' → isSpace c = false

namespace Characters

def ascii : Characters where
  isSpace c := c = ' ' ∨ 9 ≤ c.toNat ∧ c.toNat ≤ 13
  digit c := if c.isDigit then some (c.toNat - '0'.toNat) else none
  digit_ascii _ h := if_pos h
  not_space c h := by
    have hcode : c.isDigit = true → 48 ≤ c.toNat := by
      intro hdigit
      simp only [Char.isDigit, Bool.and_eq_true, decide_eq_true_eq] at hdigit
      exact hdigit.1
    rw [decide_eq_false_iff_not]
    rintro (rfl | ⟨-, hhigh⟩)
    · rcases h with hdigit | hminus
      · exact absurd (hcode hdigit) (by decide)
      · cases hminus
    · rcases h with hdigit | rfl
      · exact absurd (hcode hdigit) (by omega)
      · exact absurd hhigh (by decide)

end Characters

def print (n : Int) : List Char :=
  if n < 0 then '-' :: Nat.toDigits 10 n.natAbs else Nat.toDigits 10 n.natAbs

variable {t : Characters}

/-- The digits after those that have made `value`. `digit` says whether the last
character was one. -/
def number (t : Characters) (value : Nat) (digit : Bool) : List Char → Option Nat
  | [] => if digit then some value else none
  | c :: rest =>
    match t.digit c with
    | some d => number t (10 * value + d) true rest
    | none => if c = '_' ∧ digit then number t value false rest else none

def strip (t : Characters) (text : List Char) : List Char :=
  (text.dropWhile t.isSpace).rdropWhile t.isSpace

def signed (t : Characters) : List Char → Option Int
  | [] => none
  | c :: rest =>
    if c = '-' then (number t 0 false rest).map fun n : Nat => -(n : Int)
    else if c = '+' then (number t 0 false rest).map Int.ofNat
    else (number t 0 false (c :: rest)).map Int.ofNat

def parse (t : Characters) (text : List Char) : Option Int := signed t (strip t text)

theorem number_digits {digits : List Char} (h : ∀ c ∈ digits, c.isDigit = true) (value : Nat)
    {digit : Bool} (hsome : digits ≠ [] ∨ digit = true) :
    number t value digit digits = some (Nat.ofDigitChars 10 digits value) := by
  induction digits generalizing value digit with
  | nil =>
    rw [number, if_pos (hsome.resolve_left (absurd rfl)), Nat.ofDigitChars_nil]
  | cons c rest ih =>
    obtain ⟨hc, hrest⟩ := List.forall_mem_cons.mp h
    rw [number, t.digit_ascii c hc, Nat.ofDigitChars_cons]
    exact ih hrest _ (Or.inr rfl)

theorem number_toDigits (n : Nat) : number t 0 false (Nat.toDigits 10 n) = some n := by
  have hdigits : ∀ c ∈ Nat.toDigits 10 n, c.isDigit = true := fun c hc =>
    Nat.isDigit_of_mem_toDigits (by decide) (by decide) hc
  rw [number_digits hdigits 0 (Or.inl Nat.toDigits_ne_nil), Nat.ofDigitChars_ten_toDigits]

theorem strip_eq_self {text : List Char} (h : ∀ c ∈ text, t.isSpace c = false) :
    strip t text = text := by
  have hfront : text.dropWhile t.isSpace = text := by
    cases text with
    | nil => rfl
    | cons c rest => rw [List.dropWhile_cons_of_neg]; simp [h c List.mem_cons_self]
  rw [strip, hfront, List.rdropWhile_eq_self_iff]
  intro hne
  rw [h _ (List.getLast_mem hne)]
  exact Bool.false_ne_true

theorem isDigit_of_mem_print {n : Int} {c : Char} (hc : c ∈ print n) :
    c.isDigit = true ∨ c = '-' := by
  have hdigits : c ∈ Nat.toDigits 10 n.natAbs → c.isDigit = true := fun hmem =>
    Nat.isDigit_of_mem_toDigits (by decide) (by decide) hmem
  unfold print at hc
  split at hc
  · rcases List.mem_cons.mp hc with hminus | hmem
    · exact Or.inr hminus
    · exact Or.inl (hdigits hmem)
  · exact Or.inl (hdigits hc)

/-- What is printed is read back. -/
theorem parse_print (n : Int) : parse t (print n) = some n := by
  rw [parse, strip_eq_self fun c hc => t.not_space c (isDigit_of_mem_print hc)]
  unfold print
  split
  case isTrue hneg =>
    rw [signed, if_pos rfl, number_toDigits, Option.map_some]
    congr 1
    omega
  case isFalse hnonneg =>
    have hvalue : (Int.ofNat n.natAbs) = n := by
      rw [Int.ofNat_eq_natCast]
      omega
    have hnumber := number_toDigits (t := t) n.natAbs
    cases hdigits : Nat.toDigits 10 n.natAbs with
    | nil => exact absurd hdigits Nat.toDigits_ne_nil
    | cons c rest =>
      have hc : c.isDigit = true :=
        Nat.isDigit_of_mem_toDigits (by decide) (by decide) (hdigits ▸ List.mem_cons_self)
      have hminus : c ≠ '-' := by
        rintro rfl
        cases hc
      have hplus : c ≠ '+' := by
        rintro rfl
        cases hc
      rw [signed, if_neg hminus, if_neg hplus, ← hdigits, hnumber, Option.map_some, hvalue]

theorem print_injective {n m : Int} (h : print n = print m) : n = m := by
  have hparse := congrArg (parse .ascii) h
  rw [parse_print, parse_print] at hparse
  exact Option.some.inj hparse

theorem length_print_le {n : Int} {k : Nat} (hk : 0 < k) (h : n.natAbs < 10 ^ k) :
    (print n).length ≤ k + 1 := by
  have hdigits : (Nat.toDigits 10 n.natAbs).length ≤ k :=
    (Nat.length_toDigits_le_iff (by decide) hk).mpr h
  unfold print
  split
  · exact Nat.succ_le_succ hdigits
  · exact Nat.le_succ_of_le hdigits

end MediaStream.Lib.Decimal
