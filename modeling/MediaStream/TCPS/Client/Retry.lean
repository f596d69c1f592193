import MediaStream.Connect
import MediaStream.TCPS.Client.Process

/-!
The two loops in `main` that connect the visualizer sockets, against the loop of
`connect_server`. They connect one socket again and again, and decide from the
counter whether it has been connected.
-/

namespace MediaStream.TCPS.Client

open Lib.Acquire

/-- The part of `main` that connects a view, the same for both, once `socket` has
returned `sockfd`: the descriptor that is kept, and the calls. -/
def connectView (maxRetries sockfd : Nat) (connects : Nat → Bool) : Option Nat × SocketEvents :=
  let loop := retryLoop connects maxRetries 0
  (if loop.1 ≤ 0 then none else some sockfd,
    .acquire sockfd :: List.replicate loop.2 (.use sockfd))

/-- The same outcomes of `connect` for `connect_server`, whose other calls succeed. -/
def connecting (sockfd : Nat → Nat) (connects : Nat → Bool) (i : Nat) : ConnectPass where
  socket := some (sockfd i)
  inetPton := true
  connect := connects i

def attempts (events : SocketEvents) : Nat := events.countP Event.isUse

/-- As many attempts as `connect_server` makes, a descriptor if one of them
succeeds, and -1 with no socket left if all of them fail. -/
structure Agrees (n sockfd : Nat) (fresh : Nat → Nat) (connects : Nat → Bool) : Prop where
  attempts : attempts (connectView n sockfd connects).2 =
    attempts (connectServer n (connecting fresh connects)).2
  kept : (connectView n sockfd connects).1.isSome ↔ ∃ i < n, connects i = true
  failed : (connectView n sockfd connects).1 = none ∧ held (connectView n sockfd connects).2 = [] ↔
    ∀ i < n, connects i = false

section Loop

variable (sockfd : Nat) {fresh : Nat → Nat} {connects : Nat → Bool}

/-- The views that the threads are started with are those that `main` keeps. -/
theorem isSome_connectView (connects : Nat → Bool) :
    (connectView maxRetries sockfd connects).1.isSome = kept connects := by
  unfold connectView kept
  by_cases h : (retryLoop connects maxRetries 0).1 ≤ 0 <;> simp [h]

/-- Both loops stop at the first success. -/
theorem attempts_retryLoop (retries attempt : Nat) :
    (retryLoop connects retries attempt).2 =
      attempts (retryConnect (connecting fresh connects) retries attempt).2 := by
  induction retries generalizing attempt with
  | zero => rfl
  | succ retries ih =>
    rw [retryLoop, retryConnect]
    have hlater := ih (attempt + 1)
    unfold attempts at hlater ⊢
    cases hconnects : connects attempt with
    | true => simp [connecting, hconnects, Event.isUse]
    | false => simp [connecting, hconnects, Event.isUse, List.countP_cons, hlater]

theorem attempts_connectView (n : Nat) :
    attempts (connectView n sockfd connects).2 =
      attempts (connectServer n (connecting fresh connects)).2 := by
  have huses : attempts (connectView n sockfd connects).2 = (retryLoop connects n 0).2 := by
    simp [attempts, connectView, Event.isUse, List.countP_replicate]
  exact huses.trans (attempts_retryLoop n 0)

/-- Whatever the attempts come to, the socket stays open. -/
theorem held_connectView (n : Nat) : held (connectView n sockfd connects).2 = [sockfd] := by
  have huses : ∀ k, (List.replicate k (Event.use sockfd)).foldl hold [sockfd] = [sockfd] := by
    intro k
    induction k with
    | zero => rfl
    | succ k ih => exact ih
  exact huses _

theorem isSome_connectView_iff (n : Nat) :
    (connectView n sockfd connects).1.isSome ↔ ∃ i, i + 1 < n ∧ connects i = true := by
  have hpos : 0 < (retryLoop connects n 0).1 ↔ ∃ i, i + 1 < n ∧ connects (0 + i) = true :=
    retryLoop_pos_iff n 0
  simp only [Nat.zero_add] at hpos
  rw [← hpos, ← Int.not_le]
  unfold connectView
  by_cases h : (retryLoop connects n 0).1 ≤ 0 <;> simp [h]

/-- The loops agree exactly when an attempt before the last one succeeds. -/
theorem agrees_iff (n sockfd : Nat) (fresh : Nat → Nat) (connects : Nat → Bool) :
    Agrees n sockfd fresh connects ↔ ∃ i, i + 1 < n ∧ connects i = true := by
  have hattempts : attempts (connectView n sockfd connects).2 =
      attempts (connectServer n (connecting fresh connects)).2 := attempts_connectView sockfd n
  have hopen : held (connectView n sockfd connects).2 ≠ [] := by
    rw [held_connectView]
    exact List.cons_ne_nil _ _
  rw [← isSome_connectView_iff sockfd]
  constructor
  · intro h
    by_contra hlost
    -- Then no attempt has succeeded, and the socket should have been closed.
    have hall : ∀ i < n, connects i = false := by
      intro i hi
      cases hsuccess : connects i with
      | true => exact absurd (h.kept.mpr ⟨i, hi, hsuccess⟩) hlost
      | false => rfl
    exact hopen (h.failed.mpr hall).2
  · intro hkept
    obtain ⟨i, hi, hsuccess⟩ := (isSome_connectView_iff sockfd n).mp hkept
    have hsome : ∃ i < n, connects i = true := ⟨i, by omega, hsuccess⟩
    refine ⟨hattempts, iff_of_true hkept hsome, iff_of_false ?_ ?_⟩
    · rintro ⟨-, hnone⟩
      exact hopen hnone
    · intro hall
      exact Bool.false_ne_true ((hall i (by omega)).symm.trans hsuccess)

end Loop

/-- The last of five attempts succeeds: the descriptor is thrown away, and the
socket stays connected. -/
theorem last_success_lost :
    (connectView 5 3 (· == 4)).1 = none ∧ held (connectView 5 3 (· == 4)).2 = [3] ∧
      ¬Agrees 5 3 (fun _ => 3) (· == 4) := by
  have hnone : (connectView 5 3 (· == 4)).1 = none := rfl
  refine ⟨hnone, rfl, ?_⟩
  intro h
  have hkept := h.kept.mpr ⟨4, by decide, rfl⟩
  rw [hnone] at hkept
  cases hkept

end MediaStream.TCPS.Client
