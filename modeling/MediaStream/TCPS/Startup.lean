import MediaStream.Lib.Acquire

/-!
How `TCPS.cpp` and `TCPserver2.cpp` come to listen: `main` takes the addresses that
`getaddrinfo` gives one after the other, until a socket can be bound. A socket that
cannot be bound is closed, one whose option cannot be set ends the program.
-/

namespace MediaStream.TCPS

open Lib.Acquire

structure BindPass where
  socket : Option Nat
  setsockopt : Bool
  bind : Bool
  deriving DecidableEq

inductive Startup where
  /-- `main` is in its accept loop. -/
  | serving (sockfd : Nat)
  /-- `exit`, or a return from `main`. -/
  | exited (status : Nat)
  deriving DecidableEq

/-- How `for (p = servinfo; p != NULL; p = p->ai_next)` is left. -/
inductive BindLoop where
  | bound (sockfd : Nat)
  | exited
  /-- `p` is null. -/
  | unbound

def bindLoop : List BindPass → BindLoop × List (Event Nat)
  | [] => (.unbound, [])
  | p :: next =>
    match p.socket with
    | none => bindLoop next
    | some sockfd =>
      if p.setsockopt then
        if p.bind then (.bound sockfd, [.acquire sockfd, .use sockfd])
        else
          let later := bindLoop next
          (later.1, [.acquire sockfd, .use sockfd, .release sockfd] ++ later.2)
      else (.exited, [.acquire sockfd])

/-- `main` up to its accept loop. `servinfo` is none if `getaddrinfo` fails. -/
def startup (servinfo : Option (List BindPass)) (listen sigaction : Bool) :
    Startup × List (Event Nat) :=
  match servinfo with
  | none => (.exited 1, [])
  | some addresses =>
    match bindLoop addresses with
    | (.unbound, calls) => (.exited 2, calls)
    | (.exited, calls) => (.exited 1, calls)
    | (.bound sockfd, calls) =>
      if listen && sigaction then (.serving sockfd, calls) else (.exited 1, calls)

namespace BindPass

/-- Nothing comes of this address, and the next one is tried. -/
def Skipped (p : BindPass) : Prop := p.socket = none ∨ p.setsockopt = true ∧ p.bind = false

def attempt (p : BindPass) : Attempt Nat :=
  match p.socket with
  | none => .refused
  | some sockfd =>
    if p.setsockopt then if p.bind then .successful sockfd else .failed sockfd
    else ⟨some sockfd, [.acquire sockfd], fun _ => rfl, Nat.zero_le _⟩

theorem skipped_iff (p : BindPass) : p.Skipped ↔ p.attempt.result = none := by
  obtain ⟨socket, setsockopt, bind⟩ := p
  cases socket <;> cases setsockopt <;> cases bind <;>
    simp [Skipped, attempt, Attempt.refused, Attempt.successful, Attempt.failed]

end BindPass

section Loop

variable {addresses before : List BindPass} {p : BindPass}

/-- The calls of the loop are those of attempts made until one is kept. -/
theorem bindLoop_calls (addresses : List BindPass) :
    (bindLoop addresses).2 = (firstSuccess (addresses.map BindPass.attempt)).2 := by
  induction addresses with
  | nil => rfl
  | cons p next ih =>
    obtain ⟨socket, setsockopt, bind⟩ := p
    rw [List.map_cons]
    cases socket with
    | none => exact ih
    | some sockfd =>
      cases setsockopt with
      | false => rfl
      | true =>
        cases bind with
        | true => rfl
        | false => exact congrArg ([.acquire sockfd, .use sockfd, .release sockfd] ++ ·) ih

/-- What the loop comes to is decided by the first address that is not skipped. -/
theorem bindLoop_first (after : List BindPass) (hbefore : ∀ q ∈ before, q.Skipped)
    {sockfd : Nat} (hsocket : p.socket = some sockfd) (hp : ¬p.Skipped) :
    (bindLoop (before ++ p :: after)).1 = (if p.setsockopt then .bound sockfd else .exited) ∧
      held (bindLoop (before ++ p :: after)).2 = [sockfd] := by
  constructor
  · induction before with
    | nil =>
      obtain ⟨socket, setsockopt, bind⟩ := p
      obtain rfl : socket = some sockfd := hsocket
      cases setsockopt with
      | false => rfl
      | true =>
        cases bind with
        | true => rfl
        | false => exact absurd (Or.inr ⟨rfl, rfl⟩) hp
    | cons q before ih =>
      obtain ⟨hq, hrest⟩ := List.forall_mem_cons.mp hbefore
      obtain ⟨socket, setsockopt, bind⟩ := q
      cases socket with
      | none => exact ih hrest
      | some fd =>
        obtain ⟨rfl, rfl⟩ : setsockopt = true ∧ bind = false := by
          simpa [BindPass.Skipped] using hq
        exact ih hrest
  · have hresult : p.attempt.result = some sockfd := by
      obtain ⟨socket, setsockopt, bind⟩ := p
      obtain rfl : socket = some sockfd := hsocket
      cases setsockopt <;> cases bind <;>
        simp_all [BindPass.Skipped, BindPass.attempt, Attempt.successful]
    have hnone : ((before.map BindPass.attempt).map Attempt.result).findSome? id = none := by
      rw [List.findSome?_eq_none_iff]
      intro r hr
      obtain ⟨a, ha, rfl⟩ := List.mem_map.mp hr
      obtain ⟨q, hq, rfl⟩ := List.mem_map.mp ha
      exact q.skipped_iff.mp (hbefore q hq)
    have hfirst : (firstSuccess ((before ++ p :: after).map BindPass.attempt)).1 = some sockfd := by
      rw [result_firstSuccess, List.map_append, List.map_append, List.findSome?_append, hnone,
        List.map_cons, List.map_cons, List.findSome?_cons, hresult]
      rfl
    rw [bindLoop_calls, held, holds_firstSuccess, hfirst]
    rfl

theorem bindLoop_skipped (h : ∀ q ∈ addresses, q.Skipped) :
    (bindLoop addresses).1 = .unbound ∧ held (bindLoop addresses).2 = [] := by
  constructor
  · induction addresses with
    | nil => rfl
    | cons q rest ih =>
      obtain ⟨hq, hrest⟩ := List.forall_mem_cons.mp h
      obtain ⟨socket, setsockopt, bind⟩ := q
      cases socket with
      | none => exact ih hrest
      | some fd =>
        obtain ⟨rfl, rfl⟩ : setsockopt = true ∧ bind = false := by
          simpa [BindPass.Skipped] using hq
        exact ih hrest
  · have hnone : (firstSuccess (addresses.map BindPass.attempt)).1 = none := by
      rw [result_firstSuccess, List.findSome?_eq_none_iff]
      intro r hr
      obtain ⟨a, ha, rfl⟩ := List.mem_map.mp hr
      obtain ⟨q, hq, rfl⟩ := List.mem_map.mp ha
      exact q.skipped_iff.mp (h q hq)
    rw [bindLoop_calls, held, holds_firstSuccess, hnone]
    rfl

/-- All addresses are skipped, or one is the first that is not. -/
theorem skipped_or_first (addresses : List BindPass) :
    (∀ q ∈ addresses, q.Skipped) ∨ ∃ before p after sockfd, addresses = before ++ p :: after ∧
      (∀ q ∈ before, q.Skipped) ∧ p.socket = some sockfd ∧ ¬p.Skipped := by
  induction addresses with
  | nil => exact Or.inl (List.forall_mem_nil _)
  | cons q rest ih =>
    by_cases hq : q.Skipped
    · rcases ih with hall | ⟨before, p, after, sockfd, rfl, hbefore, hp⟩
      · exact Or.inl (List.forall_mem_cons.mpr ⟨hq, hall⟩)
      · exact Or.inr ⟨q :: before, p, after, sockfd, rfl,
          List.forall_mem_cons.mpr ⟨hq, hbefore⟩, hp⟩
    · cases hsocket : q.socket with
      | none => exact absurd (Or.inl hsocket) hq
      | some sockfd =>
        exact Or.inr ⟨[], q, rest, sockfd, rfl, List.forall_mem_nil _, hsocket, hq⟩

end Loop

/-- What `main` has come to, and what it holds open then. -/
def StartedAs (servinfo : Option (List BindPass)) (listen sigaction : Bool) :
    Startup × List (Event Nat) → Prop
  | (.serving sockfd, calls) => listen = true ∧ sigaction = true ∧ held calls = [sockfd] ∧
    ∃ before after, servinfo = some (before ++ ⟨some sockfd, true, true⟩ :: after) ∧
      ∀ q ∈ before, q.Skipped
  | (.exited 1, calls) => servinfo = none ∧ calls = [] ∨
    ∃ before p after sockfd, servinfo = some (before ++ p :: after) ∧ (∀ q ∈ before, q.Skipped) ∧
      p.socket = some sockfd ∧ held calls = [sockfd] ∧
      (p.setsockopt = false ∨ p.bind = true ∧ (listen && sigaction) = false)
  | (.exited 2, calls) => held calls = [] ∧
    ∃ addresses, servinfo = some addresses ∧ ∀ q ∈ addresses, q.Skipped
  | _ => False

/-- The server listens on the first address that can be bound, and holds no descriptor
but that one. Addresses without a socket or that cannot be bound are passed over; an
option that cannot be set ends the program. -/
theorem startup_startedAs (servinfo : Option (List BindPass)) (listen sigaction : Bool) :
    StartedAs servinfo listen sigaction (startup servinfo listen sigaction) := by
  cases servinfo with
  | none => exact Or.inl ⟨rfl, rfl⟩
  | some addresses =>
    simp only [startup]
    rcases skipped_or_first addresses with hall | ⟨before, p, after, sockfd, rfl, hbefore, hsocket,
      hp⟩
    · obtain ⟨hloop, hheld⟩ := bindLoop_skipped hall
      rcases hresult : bindLoop addresses with ⟨result, calls⟩
      rw [hresult] at hloop hheld
      obtain rfl : result = .unbound := hloop
      exact ⟨hheld, addresses, rfl, hall⟩
    · obtain ⟨hloop, hheld⟩ := bindLoop_first after hbefore hsocket hp
      rcases hresult : bindLoop (before ++ p :: after) with ⟨result, calls⟩
      rw [hresult] at hloop hheld
      obtain ⟨socket, setsockopt, bind⟩ := p
      obtain rfl : socket = some sockfd := hsocket
      cases setsockopt with
      | false =>
        obtain rfl : result = .exited := hloop
        exact Or.inr ⟨before, _, after, sockfd, rfl, hbefore, rfl, hheld, Or.inl rfl⟩
      | true =>
        obtain rfl : result = .bound sockfd := hloop
        cases bind with
        | false => exact absurd (Or.inr ⟨rfl, rfl⟩) hp
        | true =>
          cases hready : listen && sigaction with
          | false =>
            exact Or.inr ⟨before, _, after, sockfd, rfl, hbefore, rfl, hheld, Or.inr ⟨rfl, hready⟩⟩
          | true =>
            obtain ⟨hlisten, hsigaction⟩ := Bool.and_eq_true_iff.mp hready
            exact ⟨hlisten, hsigaction, hheld, before, after, rfl, hbefore⟩

end MediaStream.TCPS
