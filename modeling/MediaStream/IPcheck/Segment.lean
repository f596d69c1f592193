import Mathlib.Logic.Function.Basic
import MediaStream.IPcheck.Peers
import MediaStream.Lib.Machine

/-!
Nodes that run `IPcheckstream` on one broadcast segment, and other hosts that send
what they like to `BROADCAST_PORT`. A broadcast reaches every socket bound to the
port, the sender's own too, and comes from the address of the sender's interface.

An action is a call of `sendto` in `broadcastPresence`, or one pass of a loop; the
sets are used under `peer_mutex` only.
-/

namespace MediaStream.IPcheck

open Lib Lib.Multicast

variable {ι : Type*}

structure Segment (ι : Type*) where
  addr : ι → InAddr
  distinct : Function.Injective addr

structure Node where
  peerAddresses : List String
  /-- The `buffer` of `captureAndSend`. -/
  buffer : Bytes.Buffer (bufferSize * frameBytes)
  /-- What has arrived for `broadcast_sock`. -/
  inbox : List Datagram
  /-- What `recvfrom` has returned. -/
  heard : List Datagram
  /-- The audio that has been sent, each datagram with its destination. -/
  streamed : List (String × List UInt8)

namespace Node

/-- `buffer` is not initialised. -/
def init (buffer : Bytes.Buffer (bufferSize * frameBytes)) : Node where
  peerAddresses := []
  buffer := buffer
  inbox := []
  heard := []
  streamed := []

def arrive (node : Node) (datagram : Datagram) : Node :=
  { node with inbox := node.inbox ++ [datagram] }

/-- A pass of `listenForPeers`, for the datagram at a place of the inbox. -/
def receive (node : Node) (k : Nat) (datagram : Datagram) : Node :=
  { node with
    inbox := node.inbox.eraseIdx k
    heard := node.heard ++ [datagram]
    peerAddresses := listenForPeers node.peerAddresses datagram }

def stream (node : Node) (read : Option Frames) : Node :=
  let buffer := node.buffer.store (Capture.written read)
  { node with
    buffer := buffer
    streamed := node.streamed ++ sendAll node.peerAddresses buffer.bytes }

end Node

inductive Act (ι : Type*) where
  | broadcast (sender : ι)
  /-- Another host sends to a node. -/
  | foreign (target : ι) (datagram : Datagram)
  | receive (node : ι) (k : Nat)
  | stream (node : ι) (read : Option Frames)

namespace Segment

/-- The address of another node, from which a greeting has been heard. -/
def Greeted (segment : Segment ι) (i : ι) (heard : List Datagram) (p : String) : Prop :=
  ∃ j, j ≠ i ∧ p = inetNtoa (segment.addr j) ∧ (segment.addr j, helloMsg) ∈ heard

/-- A node knows, and has sent audio to, none but other nodes that have greeted it. -/
structure SoundAt (segment : Segment ι) (i : ι) (node : Node) : Prop where
  peers : ∀ p ∈ node.peerAddresses, segment.Greeted i node.heard p
  streamed : ∀ audio ∈ node.streamed, segment.Greeted i node.heard audio.1

def Sound (segment : Segment ι) (nodes : ι → Node) : Prop := ∀ i, segment.SoundAt i (nodes i)

/-- A datagram whose source is added is a greeting of another node. -/
def GreetingsOnly (segment : Segment ι) (nodes : ι → Node) : Act ι → Prop
  | .receive i k => ∀ datagram, (nodes i).inbox[k]? = some datagram →
      Adds (nodes i).peerAddresses datagram →
      datagram.2 = helloMsg ∧ ∃ j, j ≠ i ∧ datagram.1 = segment.addr j
  | _ => True

def Listed (nodes : ι → Node) : Prop :=
  ∀ i, ∀ datagram ∈ (nodes i).heard, ¬Adds (nodes i).peerAddresses datagram

section Passes

variable {segment : Segment ι} {i : ι} {node : Node}

theorem Greeted.mono {heard heard' : List Datagram} {p : String}
    (h : segment.Greeted i heard p) (hle : heard ⊆ heard') : segment.Greeted i heard' p := by
  obtain ⟨j, hj, hp, hheard⟩ := h
  exact ⟨j, hj, hp, hle hheard⟩

/-- What has been added is not added again. -/
theorem not_adds_listenForPeers (peerAddresses : List String) (datagram : Datagram) :
    ¬Adds (listenForPeers peerAddresses datagram) datagram := by
  by_cases hadds : Adds peerAddresses datagram
  · rw [listenForPeers_of_adds hadds]
    intro hagain
    exact hagain.2.1 (List.mem_append_right _ (List.mem_singleton_self _))
  · rwa [listenForPeers_of_not_adds hadds]

theorem listed_receive (h : ∀ d ∈ node.heard, ¬Adds node.peerAddresses d) (k : Nat)
    (datagram : Datagram) :
    ∀ d ∈ (node.receive k datagram).heard, ¬Adds (node.receive k datagram).peerAddresses d := by
  intro d hd
  rcases List.mem_append.mp hd with hold | hnew
  · intro hadds
    apply h d hold
    exact ⟨hadds.1, fun hmem => hadds.2.1 (mem_listenForPeers hmem), hadds.2.2⟩
  · rw [List.mem_singleton.mp hnew]
    exact not_adds_listenForPeers _ _

/-- A node stays sound exactly when it adds none but a node that greets it. -/
theorem soundAt_receive_iff (hlisted : ∀ d ∈ node.heard, ¬Adds node.peerAddresses d)
    (h : segment.SoundAt i node) (k : Nat) (datagram : Datagram) :
    segment.SoundAt i (node.receive k datagram) ↔
      (Adds node.peerAddresses datagram →
        datagram.2 = helloMsg ∧ ∃ j, j ≠ i ∧ datagram.1 = segment.addr j) := by
  have hgrows : node.heard ⊆ (node.receive k datagram).heard := List.subset_append_left _ _
  constructor
  · intro hsound hadds
    have hmem : inetNtoa datagram.1 ∈ (node.receive k datagram).peerAddresses := by
      change _ ∈ listenForPeers _ _
      rw [listenForPeers_of_adds hadds]
      exact List.mem_append_right _ (List.mem_singleton_self _)
    obtain ⟨j, hj, htext, hheard⟩ := hsound.peers _ hmem
    have haddr : datagram.1 = segment.addr j := inetNtoa_injective htext
    refine ⟨?_, j, hj, haddr⟩
    -- An earlier greeting would have added the source before.
    rcases List.mem_append.mp hheard with hearlier | hnow
    · exfalso
      obtain ⟨-, hnew⟩ := hadds
      rw [haddr] at hnew
      exact hlisted _ hearlier ⟨List.cons_ne_nil _ _, hnew⟩
    · rw [← List.mem_singleton.mp hnow]
  · intro hgreets
    constructor
    case peers =>
      intro p hp
      by_cases hadds : Adds node.peerAddresses datagram
      · change p ∈ listenForPeers _ _ at hp
        rw [listenForPeers_of_adds hadds] at hp
        rcases List.mem_append.mp hp with hold | hnew
        · exact (h.peers p hold).mono hgrows
        · obtain ⟨hello, j, hj, haddr⟩ := hgreets hadds
          rw [List.mem_singleton.mp hnew]
          refine ⟨j, hj, congrArg inetNtoa haddr, ?_⟩
          apply List.mem_append_right
          rw [← haddr, ← hello]
          exact List.mem_singleton_self _
      · change p ∈ listenForPeers _ _ at hp
        rw [listenForPeers_of_not_adds hadds] at hp
        exact (h.peers p hp).mono hgrows
    case streamed =>
      intro audio haudio
      exact (h.streamed audio haudio).mono hgrows

/-- Audio goes to the peers that are known. -/
theorem soundAt_stream (h : segment.SoundAt i node) (read : Option Frames) :
    segment.SoundAt i (node.stream read) := by
  constructor
  case peers => exact h.peers
  case streamed =>
    intro audio haudio
    rcases List.mem_append.mp haudio with hold | hnew
    · exact h.streamed audio hold
    · obtain ⟨p, hp, rfl⟩ := List.mem_map.mp hnew
      exact h.peers p hp

end Passes

variable [DecidableEq ι]

def step (segment : Segment ι) (nodes : ι → Node) : Act ι → Option (ι → Node)
  | .broadcast sender => some fun i => (nodes i).arrive (segment.addr sender, helloMsg)
  | .foreign target datagram =>
    some (Function.update nodes target ((nodes target).arrive datagram))
  | .receive i k => (nodes i).inbox[k]?.map fun datagram =>
    Function.update nodes i ((nodes i).receive k datagram)
  | .stream i read => some (Function.update nodes i ((nodes i).stream read))

def machine (segment : Segment ι) : Machine (ι → Node) (Act ι) := ⟨segment.step⟩

section Steps

variable {segment : Segment ι} {nodes next : ι → Node} {i : ι} {node : Node}

theorem sound_update_iff (h : segment.Sound nodes) :
    segment.Sound (Function.update nodes i node) ↔ segment.SoundAt i node := by
  constructor
  · intro hsound
    have hi := hsound i
    rwa [Function.update_self] at hi
  · intro hnode k
    by_cases hk : k = i
    · subst hk
      rwa [Function.update_self]
    · rw [Function.update_of_ne hk]
      exact h k

theorem listed_update (h : Listed nodes)
    (hnode : ∀ datagram ∈ node.heard, ¬Adds node.peerAddresses datagram) :
    Listed (Function.update nodes i node) := by
  intro k
  by_cases hk : k = i
  · subst hk
    rwa [Function.update_self]
  · rw [Function.update_of_ne hk]
    exact h k

theorem sound_step {a : Act ι} (hlisted : Listed nodes) (h : segment.Sound nodes)
    (hstep : segment.machine.step nodes a = some next) :
    segment.Sound next ↔ segment.GreetingsOnly nodes a := by
  cases a with
  | broadcast sender =>
    obtain rfl := Option.some.inj hstep
    exact iff_of_true (fun k => ⟨(h k).peers, (h k).streamed⟩) trivial
  | foreign target datagram =>
    obtain rfl := Option.some.inj hstep
    apply iff_of_true _ trivial
    exact (sound_update_iff h).mpr ⟨(h target).peers, (h target).streamed⟩
  | receive i k =>
    obtain ⟨datagram, hdatagram, rfl⟩ := Option.map_eq_some_iff.mp hstep
    rw [sound_update_iff h, soundAt_receive_iff (hlisted i) (h i)]
    constructor
    · intro hgreets other hother
      obtain rfl := Option.some.inj (hother.symm.trans hdatagram)
      exact hgreets
    · intro hgreets
      exact hgreets datagram hdatagram
  | stream i read =>
    obtain rfl := Option.some.inj hstep
    exact iff_of_true ((sound_update_iff h).mpr (soundAt_stream (h i) read)) trivial

theorem listed_step {a : Act ι} (h : Listed nodes)
    (hstep : segment.machine.step nodes a = some next) : Listed next := by
  cases a with
  | broadcast sender =>
    obtain rfl := Option.some.inj hstep
    exact h
  | foreign target datagram =>
    obtain rfl := Option.some.inj hstep
    exact listed_update h (h target)
  | receive i k =>
    obtain ⟨datagram, -, rfl⟩ := Option.map_eq_some_iff.mp hstep
    exact listed_update h (listed_receive (h i) k datagram)
  | stream i read =>
    obtain rfl := Option.some.inj hstep
    exact listed_update h (h i)

end Steps

section Runs

variable {segment : Segment ι} {buffers : ι → Bytes.Buffer (bufferSize * frameBytes)}
  {actions : List (Act ι)} {finish : ι → Node}

/-- Over a whole run no node knows or streams to anybody but other nodes that have
greeted it, exactly when nothing else makes it add a source. -/
theorem sound_iff_greetingsOnly
    (hrun : segment.machine.run (fun i => .init (buffers i)) actions = some finish) :
    segment.machine.Throughout segment.Sound (fun i => .init (buffers i)) actions ↔
      segment.machine.Respects segment.GreetingsOnly (fun i => .init (buffers i)) actions := by
  apply Machine.throughout_iff_respects (I := Listed) _ _ _ _ hrun
  · intro nodes a next hlisted hsound hstep
    exact sound_step hlisted hsound hstep
  · intro nodes a next hlisted _ hstep _
    exact listed_step hlisted hstep
  · intro i datagram hnone
    cases hnone
  · intro i
    exact ⟨nofun, nofun⟩

end Runs

section Alone

def alone : Segment Unit where
  addr _ := ⟨192, 168, 1, 83⟩
  distinct _ _ _ := rfl

def echo : List (Act Unit) := [.broadcast (), .receive () 0]

theorem run_echo : ∃ nodes, alone.machine.run (fun _ => .init .zero) echo = some nodes := ⟨_, rfl⟩

theorem sound_iff_greetingsOnly_echo :
    alone.machine.Throughout alone.Sound (fun _ => .init .zero) echo ↔
      alone.machine.Respects alone.GreetingsOnly (fun _ => .init .zero) echo := by
  obtain ⟨nodes, hrun⟩ := run_echo
  exact sound_iff_greetingsOnly hrun

/-- It takes itself for a peer. -/
theorem peer_of_itself :
    ∃ nodes, alone.machine.run (fun _ => .init .zero) echo = some nodes ∧
      (nodes ()).peerAddresses = ["192.168.1.83"] ∧ ¬alone.Sound nodes := by
  obtain ⟨nodes, hrun⟩ := run_echo
  refine ⟨nodes, hrun, ?_, ?_⟩
  · obtain rfl := Option.some.inj hrun
    decide
  · intro hsound
    have hmem : inetNtoa ⟨192, 168, 1, 83⟩ ∈ (nodes ()).peerAddresses := by
      obtain rfl := Option.some.inj hrun
      decide
    obtain ⟨j, hj, -⟩ := (hsound ()).peers _ hmem
    exact hj rfl

end Alone

end Segment

end MediaStream.IPcheck
