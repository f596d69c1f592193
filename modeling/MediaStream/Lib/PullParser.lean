import Mathlib.Data.List.Basic

/-!
Parsers that are fed. A parser says how many elements it wants before its next
step, and is then given just these; what has come beyond them waits. How the
input was cut into chunks can only be seen in what is waiting, never in the
state or in the events.

A step that wants nothing is allowed as long as `rank` says how many of them can
follow one another.
-/

namespace MediaStream.Lib

structure PullParser (σ β ε : Type*) where
  /-- How much the parser waits for, if it has not stopped. -/
  need : σ → Option Nat
  take : σ → List β → σ × List ε
  rank : σ → Nat
  rank_lt : ∀ s, need s = some 0 → rank (take s []).1 < rank s

namespace PullParser

variable {σ β ε : Type*}

structure Fed (σ β : Type*) where
  state : σ
  waiting : List β

/-- As many steps as the input allows, with their events. -/
def drain (P : PullParser σ β ε) (s : σ) (input : List β) : Fed σ β × List ε :=
  match _ : P.need s with
  | none => (⟨s, input⟩, [])
  | some n =>
    if n ≤ input.length then
      let later := P.drain (P.take s (input.take n)).1 (input.drop n)
      (later.1, (P.take s (input.take n)).2 ++ later.2)
    else (⟨s, input⟩, [])
termination_by (input.length, P.rank s)
decreasing_by
  rcases Nat.eq_zero_or_pos n with rfl | hpos
  · exact Prod.Lex.right _ (P.rank_lt s ‹_›)
  · apply Prod.Lex.left
    rw [List.length_drop]
    omega

/-- One more chunk of input. A parser that has stopped leaves it alone. -/
def feed (P : PullParser σ β ε) (fed : Fed σ β) (chunk : List β) : Fed σ β × List ε :=
  if P.need fed.state = none then (fed, []) else P.drain fed.state (fed.waiting ++ chunk)

def feedAll (P : PullParser σ β ε) : Fed σ β → List (List β) → Fed σ β × List ε
  | fed, [] => (fed, [])
  | fed, chunk :: rest =>
    let later := P.feedAll (P.feed fed chunk).1 rest
    (later.1, (P.feed fed chunk).2 ++ later.2)

/-- Nothing can be done before more input comes. -/
def Settled (P : PullParser σ β ε) (fed : Fed σ β) : Prop :=
  ∀ n, P.need fed.state = some n → fed.waiting.length < n

section Drain

variable {P : PullParser σ β ε} {s : σ} {input : List β}

theorem drain_stopped (h : P.need s = none) : P.drain s input = (⟨s, input⟩, []) := by
  unfold drain
  split
  · rfl
  · next hneed => cases h.symm.trans hneed

theorem drain_short {n : Nat} (h : P.need s = some n) (hshort : input.length < n) :
    P.drain s input = (⟨s, input⟩, []) := by
  unfold drain
  split
  · rfl
  · next n' hneed =>
    obtain rfl := Option.some.inj (h.symm.trans hneed)
    rw [if_neg (Nat.not_le.mpr hshort)]

/-- The step for the wanted bytes, and then the rest. -/
theorem drain_take {n : Nat} {wanted : List β} (h : P.need s = some n) (hlen : wanted.length = n)
    (more : List β) : P.drain s (wanted ++ more) =
      ((P.drain (P.take s wanted).1 more).1,
        (P.take s wanted).2 ++ (P.drain (P.take s wanted).1 more).2) := by
  subst hlen
  rw [drain]
  split
  · next hneed => cases hneed.symm.trans h
  · next n hneed =>
    obtain rfl := Option.some.inj (h.symm.trans hneed)
    rw [if_pos (by simp), List.take_left, List.drop_left]

theorem drain_settled (h : P.Settled ⟨s, input⟩) : P.drain s input = (⟨s, input⟩, []) := by
  cases hneed : P.need s with
  | none => exact drain_stopped hneed
  | some n => exact drain_short hneed (h n hneed)

/-- A property of the state and of the events so far that every step keeps. -/
theorem drain_collects {I : σ → List ε → Prop}
    (hstep : ∀ s seen n wanted, I s seen → P.need s = some n → wanted.length = n →
      I (P.take s wanted).1 (seen ++ (P.take s wanted).2))
    {seen : List ε} (hstart : I s seen) :
    I (P.drain s input).1.state (seen ++ (P.drain s input).2) := by
  induction s, input using drain.induct P generalizing seen with
  | case1 s input hneed =>
    rw [drain_stopped hneed]
    simpa using hstart
  | case2 s input n hneed hle ih =>
    have hlen : (input.take n).length = n := List.length_take_of_le hle
    rw [← List.take_append_drop n input, drain_take hneed hlen, ← List.append_assoc]
    exact ih (hstep s seen n _ hstart hneed hlen)
  | case3 s input n hneed hle =>
    rw [drain_short hneed (Nat.not_le.mp hle)]
    simpa using hstart

/-- The parser goes on until it is stopped or out of input. -/
theorem settled_drain : P.Settled (P.drain s input).1 := by
  induction s, input using drain.induct P with
  | case1 s input hneed =>
    rw [drain_stopped hneed]
    intro n hn
    cases hneed.symm.trans hn
  | case2 s input n hneed hle ih =>
    rw [← List.take_append_drop n input, drain_take hneed (List.length_take_of_le hle)]
    exact ih
  | case3 s input n hneed hle =>
    rw [drain_short hneed (Nat.not_le.mp hle)]
    intro n' hn'
    obtain rfl := Option.some.inj (hneed.symm.trans hn')
    exact Nat.not_le.mp hle

/-- What comes later is read from where the parser has got to. -/
theorem drain_append (P : PullParser σ β ε) (s : σ) (input more : List β) :
    P.drain s (input ++ more) =
      ((P.drain (P.drain s input).1.state ((P.drain s input).1.waiting ++ more)).1,
        (P.drain s input).2 ++
          (P.drain (P.drain s input).1.state ((P.drain s input).1.waiting ++ more)).2) := by
  induction s, input using drain.induct P with
  | case1 s input hneed =>
    have hstays : P.drain s input = (⟨s, input⟩, []) := drain_stopped hneed
    rw [hstays]
    simp
  | case2 s input n hneed hle ih =>
    have hlen : (input.take n).length = n := List.length_take_of_le hle
    have hcut := List.take_append_drop n input
    have hbefore := drain_take hneed hlen (input.drop n)
    rw [hcut] at hbefore
    have hlater := drain_take hneed hlen (input.drop n ++ more)
    rw [← List.append_assoc, hcut] at hlater
    rw [hlater, ih, hbefore]
    simp only [List.append_assoc]
  | case3 s input n hneed hle =>
    have hstays : P.drain s input = (⟨s, input⟩, []) := drain_short hneed (Nat.not_le.mp hle)
    rw [hstays]
    simp

end Drain

section Feed

variable {P : PullParser σ β ε} {fed : Fed σ β}

theorem settled_feed (h : P.Settled fed) (chunk : List β) : P.Settled (P.feed fed chunk).1 := by
  unfold feed
  split
  · exact h
  · exact settled_drain

/-- Where the input was cut makes no difference to the state and the events. -/
theorem feedAll_eq_drain (h : P.Settled fed) (chunks : List (List β)) :
    (P.feedAll fed chunks).1.state =
        (P.drain fed.state (fed.waiting ++ chunks.flatten)).1.state ∧
      (P.feedAll fed chunks).2 = (P.drain fed.state (fed.waiting ++ chunks.flatten)).2 := by
  induction chunks generalizing fed with
  | nil =>
    rw [List.flatten_nil, List.append_nil, drain_settled h]
    exact ⟨rfl, rfl⟩
  | cons chunk rest ih =>
    obtain ⟨hstate, hevents⟩ := ih (settled_feed h chunk)
    simp only [feedAll, List.flatten_cons]
    by_cases hstop : P.need fed.state = none
    · have hfeed : P.feed fed chunk = (fed, []) := if_pos hstop
      rw [hfeed, drain_stopped hstop] at hstate hevents
      rw [hfeed, drain_stopped hstop]
      exact ⟨hstate, hevents⟩
    · have hfeed : P.feed fed chunk = P.drain fed.state (fed.waiting ++ chunk) := if_neg hstop
      rw [hfeed] at hstate hevents
      rw [hfeed, ← List.append_assoc, drain_append P fed.state (fed.waiting ++ chunk)]
      exact ⟨hstate, congrArg _ hevents⟩

end Feed

end PullParser

end MediaStream.Lib
