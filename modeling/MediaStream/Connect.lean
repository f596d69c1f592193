import MediaStream.Lib.Acquire

/-!
How the clients connect to the server. `connect_server` of `TCPSC.cpp` and
`connect_to_server` of the two measuring clients try again up to a number of
times, `connect_server` of `TCPclient2.cpp` tries one address after the other.
-/

namespace MediaStream

open Lib.Acquire

structure ConnectPass where
  socket : Option Nat
  /-- `inet_pton` returns more than zero. -/
  inetPton : Bool
  connect : Bool

abbrev SocketEvents := List (Event Nat)

/-- The loop `while (retries-- > 0)` from a pass on: what is returned, `none` for
-1, and the calls. -/
def retryConnect (passes : Nat → ConnectPass) : Nat → Nat → Option Nat × SocketEvents
  | 0, _ => (none, [])
  | retries + 1, pass =>
    let later := retryConnect passes retries (pass + 1)
    match (passes pass).socket with
    | none => later
    | some sockfd =>
      if (passes pass).inetPton then
        if (passes pass).connect then (some sockfd, [.acquire sockfd, .use sockfd])
        else (later.1, [.acquire sockfd, .use sockfd, .release sockfd] ++ later.2)
      else (later.1, [.acquire sockfd, .release sockfd] ++ later.2)

/-- `connect_server` of `TCPSC.cpp`. -/
def TCPS.Client.connectServer (retries : Nat) (passes : Nat → ConnectPass) :
    Option Nat × SocketEvents := retryConnect passes retries 0

/-- `connect_to_server` of `TCPLBCl.cpp`. -/
def TCPMeasure.Audio.connectToServer (retries : Nat) (passes : Nat → ConnectPass) :
    Option Nat × SocketEvents := retryConnect passes retries 0

/-- `connect_to_server` of `ClientBasicTCPM.cpp`. -/
def TCPMeasure.Basic.connectToServer (retries : Nat) (passes : Nat → ConnectPass) :
    Option Nat × SocketEvents := retryConnect passes retries 0

structure AddressPass where
  socket : Option Nat
  connect : Bool

namespace TCPattempt

structure Loop where
  sockfd : Option Nat
  /-- The addresses from `p` on. -/
  p : List AddressPass
  events : SocketEvents

/-- `for (p = servinfo; p != NULL; p = p->ai_next)` -/
def connectLoop : List AddressPass → Option Nat → Loop
  | [], sockfd => ⟨sockfd, [], []⟩
  | p :: next, _ =>
    match p.socket with
    | none => connectLoop next none
    | some sockfd =>
      if p.connect then ⟨some sockfd, p :: next, [.acquire sockfd, .use sockfd]⟩
      else
        let later := connectLoop next (some sockfd)
        { later with events := [.acquire sockfd, .use sockfd, .release sockfd] ++ later.events }

/-- `connect_server` of `TCPclient2.cpp`, for the addresses that `getaddrinfo`
gives, if it does. -/
def connectServer (servinfo : Option (List AddressPass)) : Option Nat × SocketEvents :=
  match servinfo with
  | none => (none, [])
  | some addresses =>
    let loop := connectLoop addresses none
    (if loop.p.isEmpty then none else loop.sockfd, loop.events)

end TCPattempt

namespace ConnectPass

def result (p : ConnectPass) : Option Nat := if p.inetPton ∧ p.connect then p.socket else none

def attempt (p : ConnectPass) : Attempt Nat :=
  match p.socket with
  | none => .refused
  | some sockfd =>
    if p.inetPton then if p.connect then .successful sockfd else .failed sockfd
    else .unused sockfd

theorem result_attempt (p : ConnectPass) : p.attempt.result = p.result := by
  obtain ⟨socket, inetPton, connect⟩ := p
  cases socket <;> cases inetPton <;> cases connect <;> rfl

end ConnectPass

namespace AddressPass

def result (p : AddressPass) : Option Nat := if p.connect then p.socket else none

def attempt (p : AddressPass) : Attempt Nat :=
  match p.socket with
  | none => .refused
  | some sockfd => if p.connect then .successful sockfd else .failed sockfd

theorem result_attempt (p : AddressPass) : p.attempt.result = p.result := by
  obtain ⟨socket, connect⟩ := p
  cases socket <;> cases connect <;> rfl

end AddressPass

/-- The passes are attempts of which each gives back what it has opened. -/
theorem retryConnect_eq (passes : Nat → ConnectPass) (retries pass : Nat) :
    retryConnect passes retries pass =
      firstSuccess ((List.range' pass retries).map fun i => (passes i).attempt) := by
  induction retries generalizing pass with
  | zero => rfl
  | succ retries ih =>
    rw [List.range'_succ, List.map_cons, retryConnect, ih]
    unfold ConnectPass.attempt
    cases (passes pass).socket with
    | none => rfl
    | some sockfd => cases (passes pass).inetPton <;> cases (passes pass).connect <;> rfl

/-- `p` is not null exactly when the loop has connected. -/
theorem connectLoop_eq (addresses : List AddressPass) (sockfd : Option Nat) :
    (if (TCPattempt.connectLoop addresses sockfd).p.isEmpty then none
        else (TCPattempt.connectLoop addresses sockfd).sockfd,
      (TCPattempt.connectLoop addresses sockfd).events) =
      firstSuccess (addresses.map AddressPass.attempt) := by
  induction addresses generalizing sockfd with
  | nil => rfl
  | cons p next ih =>
    rw [List.map_cons, TCPattempt.connectLoop]
    obtain ⟨socket, connect⟩ := p
    cases socket with
    | none => exact ih none
    | some fd =>
      cases connect with
      | true => rfl
      | false =>
        have hlater := ih (some fd)
        rw [firstSuccess_cons_none rfl, ← hlater]
        rfl

theorem clean_retryConnect (passes : Nat → ConnectPass) (retries : Nat) :
    Clean ((List.range retries).map fun i => (passes i).result)
      (retryConnect passes retries 0) := by
  have hclean := clean_firstSuccess ((List.range' 0 retries).map fun i => (passes i).attempt)
  rw [← retryConnect_eq, List.map_map, ← List.range_eq_range'] at hclean
  have hresult : Attempt.result ∘ (fun i => (passes i).attempt) = fun i => (passes i).result :=
    funext fun i => (passes i).result_attempt
  rwa [hresult] at hclean

theorem clean_connectServer (addresses : List AddressPass) :
    Clean (addresses.map AddressPass.result) (TCPattempt.connectServer (some addresses)) := by
  have hclean := clean_firstSuccess (addresses.map AddressPass.attempt)
  have hresult : Attempt.result ∘ AddressPass.attempt = AddressPass.result :=
    funext AddressPass.result_attempt
  rw [List.map_map, hresult] at hclean
  have heq : TCPattempt.connectServer (some addresses) =
      firstSuccess (addresses.map AddressPass.attempt) := connectLoop_eq addresses none
  rwa [heq]

/-- None of the clients leaves a descriptor open but the one it returns, that of
the first attempt on which all calls succeed. -/
theorem connecting_clean (retries : Nat) (passes : Nat → ConnectPass)
    (servinfo : Option (List AddressPass)) :
    Clean ((List.range retries).map fun i => (passes i).result)
        (TCPS.Client.connectServer retries passes) ∧
      Clean ((List.range retries).map fun i => (passes i).result)
        (TCPMeasure.Audio.connectToServer retries passes) ∧
      Clean ((List.range retries).map fun i => (passes i).result)
        (TCPMeasure.Basic.connectToServer retries passes) ∧
      Clean ((servinfo.getD []).map AddressPass.result) (TCPattempt.connectServer servinfo) := by
  have hretry := clean_retryConnect passes retries
  refine ⟨hretry, hretry, hretry, ?_⟩
  cases servinfo with
  | none => exact ⟨Nat.zero_le _, nofun, fun _ => ⟨nofun, rfl⟩⟩
  | some addresses => exact clean_connectServer addresses

end MediaStream
