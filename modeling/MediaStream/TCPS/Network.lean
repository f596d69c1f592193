import MediaStream.TCPS.Broadcast
import MediaStream.TCPS.Client.Visualizer

/-!
The relay and its clients as one system. What `audio_cap` sends is under way until
it arrives at the server, the server relays it, and `play_audio` reads what the
server has sent. All of these steps interleave in any way, and the network may
delay and cut the bytes of a connection.
-/

namespace MediaStream.TCPS

open Lib SharedLog
open Client (sends received)

namespace Client

def Process.sending (s : Process) : Act → Chunk
  | .audioCap .send =>
    match s.audioCap with
    | .send frCapture _ => s.captured frCapture
    | _ => []
  | _ => []

def Act.reading : Act → Option Chunk
  | .playAudio (.recv bytes) => some bytes
  | _ => none

end Client

def Act.atServer : Act → Bool
  | .clientSend .. | .clientRead .. | .clientShut .. => false
  | _ => true

/-- The clients are numbered like their connections. -/
structure Network where
  relay : Server
  process : Nat → Client.Process
  /-- The bytes of a client that have not arrived at the server yet. -/
  inFlight : Nat → Chunk

namespace Network

inductive Act where
  /-- A thread of the server acts, or a connection breaks. -/
  | relay (a : TCPS.Act)
  /-- The next `n` bytes of a client arrive. -/
  | arrive (c n : Nat)
  /-- The end of what a client sends arrives. -/
  | fin (c : Nat)
  | client (c : Nat) (a : Client.Act)

def init (buffer : Nat → Bytes.Buffer Client.sizeofBuffer) : Network where
  relay := .init
  process c := .init (buffer c)
  inFlight _ := []

/-- A client has acted: what it has sent is under way. -/
def acted (n : Network) (c : Nat) (a : Client.Act) (process : Client.Process) : Network :=
  { n with
    process := Function.update n.process c process
    inFlight := Function.update n.inFlight c (n.inFlight c ++ (n.process c).sending a) }

/-- The steps of the server with what a client or the network does to it. -/
def serverStep (cfg : Config) (n : Network) (a : TCPS.Act) : Option Network :=
  ((server cfg).step n.relay a).map fun relay => { n with relay := relay }

def step (cfg : Config) (setup : Nat → Client.Setup) (n : Network) : Act → Option Network
  | .relay a => if a.atServer then n.serverStep cfg a else none
  | .arrive c k =>
    if k ≤ (n.inFlight c).length then
      { n with inFlight := Function.update n.inFlight c ((n.inFlight c).drop k) }.serverStep cfg
        (.clientSend c ((n.inFlight c).take k))
    else none
  | .fin c =>
    if .close .sockfd ∈ (n.process c).calls ∧ n.inFlight c = [] then
      n.serverStep cfg (.clientShut c)
    else none
  | .client c a =>
    ((n.process c).step (setup c) a).bind fun process =>
      match a.reading with
      | none => some (n.acted c a process)
      | some bytes =>
        -- `recv` returns the bytes that come next
        if bytes <+: (n.relay.stream c).drop (n.relay.read c) then
          (n.acted c a process).serverStep cfg (.clientRead c bytes.length)
        else none

def machine (cfg : Config) (setup : Nat → Client.Setup) : Machine Network Act := ⟨step cfg setup⟩

def blocks (c : Nat) (actions : List Act) : List Chunk :=
  actions.flatMap fun
    | .client client a => if client = c then a.block else []
    | _ => []

end Network

section Client

open Client

variable {cfg : Setup} {s next : Process}

theorem sends_sending {a : Client.Act} (hstep : (Process.machine cfg).step s a = some next) :
    (sends .sockfd next.calls).flatten = (sends .sockfd s.calls).flatten ++ s.sending a := by
  have hview : Socket.localSockfdCap ≠ .sockfd := nofun
  have hsame : s.sending a = [] → sends .sockfd next.calls = sends .sockfd s.calls →
      (sends .sockfd next.calls).flatten = (sends .sockfd s.calls).flatten ++ s.sending a := by
    intro hnone hsends
    rw [hnone, hsends, List.append_nil]
  cases a with
  | audioCap a =>
    cases audioCap_iff.mp hstep with
    | send frCapture timestamp hpc =>
      have hsending : s.sending (.audioCap .send) = s.captured frCapture := by
        rw [Process.sending, hpc]
      change (sends .sockfd (s.call (some .sockfd) _).calls).flatten = _
      rw [sends_call_self, hsending, List.flatten_append, List.flatten_singleton]
    | sendPacket => exact hsame rfl (sends_call_of_ne hview _)
    | sendError | sendPacketError => exact hsame rfl (sends_call_error _ _)
    | closeSockfd | closeLocal => exact hsame rfl (sends_call_close _ _)
    | openCapture | openCaptureError | test | stop | capture | captureError | recover
    | recoverError => exact hsame rfl rfl
  | playAudio a => exact hsame rfl ((playAudio_elsewhere hstep).2.2 _ nofun)
  | main => exact hsame rfl ((main_elsewhere hstep).2 _)

theorem received_reading {a : Client.Act} (hstep : (Process.machine cfg).step s a = some next) :
    received next.calls = received s.calls ++ a.reading.toList := by
  have helse : (∀ b, a ≠ .playAudio b) → a.reading = none →
      received next.calls = received s.calls ++ a.reading.toList := by
    intro ha hnone
    rw [(elsewhere_playback ha hstep).2.2, hnone]
    exact (List.append_nil _).symm
  cases a with
  | audioCap a => exact helse nofun rfl
  | playAudio a =>
    cases playAudio_iff.mp hstep with
    | recv bytes => exact List.filterMap_append
    | recvEnd | sendLocal | sendLocalError | close =>
      exact (filterMap_call fun _ _ => rfl).trans (List.append_nil _).symm
    | openPlayback | openPlaybackError | test | stop | write | underrun | writeError | prepare
    | prepareError => exact (List.append_nil _).symm
  | main => exact helse nofun rfl

/-- Where `audio_cap` is in its pass, by what it has sent of the captured blocks. -/
def Client.Process.Sends (s : Process) (blocks : List (List UInt8)) : Prop :=
  match s.audioCap with
  | .send frCapture _ => blocks = sends .sockfd s.calls ++ [s.captured frCapture]
  | .closeSockfd | .closeLocal | .done => sends .sockfd s.calls <+: blocks
  | .openCapture | .test | .capture | .recover | .sendPacket .. => sends .sockfd s.calls = blocks

variable {blocks : List (List UInt8)}

theorem Client.Process.Sends.of_same (h : s.Sends blocks) (hpoint : next.audioCap = s.audioCap)
    (hbuffer : next.buffer = s.buffer)
    (hserver : sends .sockfd next.calls = sends .sockfd s.calls) : next.Sends blocks := by
  unfold Process.Sends Process.captured at h ⊢
  rwa [hpoint, hbuffer, hserver]

end Client

section Relay

variable {cfg : Config} {s next : Server} {h : History} {a : TCPS.Act}

theorem received_iterate_eq (s : Server) (c : Nat) (h : History) :
    (h.watch s (.iterate c)).received = h.received := by
  unfold History.watch
  simp only
  split
  · split <;> rfl
  · rfl

/-- The server takes bytes from the front of what has arrived, and from nowhere else. -/
theorem arrived_step (hstep : Step cfg s a next) (ha : a.atServer = true) (c : Nat) :
    ((h.watch s a).received c).flatten ++ next.inbound c =
      (h.received c).flatten ++ s.inbound c := by
  cases hstep with
  | recv k n hrun hpc hpos hsize hn =>
    by_cases hck : c = k
    · subst hck
      simp [History.watch, List.append_assoc]
    · simp [History.watch, hck]
  | clientSend | clientRead | clientShut => cases ha
  | pushBack k hrun hpc =>
    simp only [History.watch, hpc]
  | lockBroadcast k buffer hrun hpc hlock =>
    simp only [History.watch, hpc, Server.setHandler_inbound]
  | iterateEnd k buffer i hrun hpc hsent hend => rw [received_iterate_eq]; rfl
  | iterateSelf k buffer i hrun hpc hsent hfd => rw [received_iterate_eq]; rfl
  | iterateSend k buffer i fd hrun hpc hsent hfd hother =>
    obtain ⟨stream, running, hsend⟩ := send_frame cfg s fd buffer
    rw [received_iterate_eq, hsend]
    rfl
  | _ => rfl

/-- Only the client reads, and what has been sent stays sent. -/
theorem stream_step (hstep : Step cfg s a next) (ha : a.atServer = true) (d : Nat) :
    next.read = s.read ∧ s.stream d <+: next.stream d := by
  cases hstep with
  | clientSend | clientRead | clientShut => cases ha
  | iterateSend k buffer i fd hrun hpc hsent hfd hother =>
    obtain ⟨stream, running, hsend⟩ := send_frame cfg s fd buffer
    refine ⟨by rw [hsend]; rfl, ?_⟩
    change s.stream d <+: (s.send cfg fd buffer).stream d
    unfold Server.send
    split
    · exact List.prefix_rfl
    · next e htable =>
      split
      · by_cases hde : d = e
        · subst hde
          simp
        · simp [hde]
      · exact List.prefix_rfl
      · split <;> exact List.prefix_rfl
  | _ => exact ⟨rfl, List.prefix_rfl⟩

end Relay

namespace Network

/-- The history of the server, and what its clients have to do with it. -/
structure Follows (n : Network) (h : History) : Prop where
  tracks : Tracks n.relay h
  sent : ∀ c, (sends .sockfd (n.process c).calls).flatten =
    (h.received c).flatten ++ n.relay.inbound c ++ n.inFlight c
  heard : ∀ d, (received (n.process d).calls).flatten =
    (n.relay.stream d).take (n.relay.read d)
  read : ∀ d, n.relay.read d ≤ (n.relay.stream d).length

section Steps

variable {cfg : Config} {setup : Nat → Client.Setup} {n next : Network} {h : History}

theorem serverStep_eq {a : TCPS.Act} (hstep : n.serverStep cfg a = some next) :
    ∃ relay, (server cfg).step n.relay a = some relay ∧ next = { n with relay := relay } := by
  obtain ⟨relay, hrelay, rfl⟩ := Option.map_eq_some_iff.mp hstep
  exact ⟨relay, hrelay, rfl⟩

theorem tracks_watch {s later : Server} {a : TCPS.Act} (ht : Tracks s h)
    (hstep : (server cfg).step s a = some later) : Tracks later (h.watch s a) :=
  tracks_step ht (Machine.monitored_step.mpr ⟨hstep, rfl⟩)

/-- A step of the server, or a connection that breaks. -/
theorem Follows.relay (hf : Follows n h) {a : TCPS.Act} (ha : a.atServer = true)
    (hstep : n.serverStep cfg a = some next) : Follows next (h.watch n.relay a) := by
  obtain ⟨relay, hrelay, rfl⟩ := serverStep_eq hstep
  have hcases := step_cases hrelay
  refine ⟨tracks_watch hf.tracks hrelay, fun c => ?_, fun d => ?_, fun d => ?_⟩
  · rw [arrived_step hcases ha]
    exact hf.sent c
  · obtain ⟨hread, more, hmore⟩ := stream_step hcases ha d
    rw [hread, ← hmore, List.take_append_of_le_length (hf.read d)]
    exact hf.heard d
  · obtain ⟨hread, hmore⟩ := stream_step hcases ha d
    rw [hread]
    exact Nat.le_trans (hf.read d) hmore.length_le

/-- Bytes arrive. -/
theorem Follows.arrive (hf : Follows n h) {c k : Nat}
    (hstep : step cfg setup n (.arrive c k) = some next) : Follows next h := by
  simp only [step, Option.ite_none_right_eq_some] at hstep
  obtain ⟨-, hstep⟩ := hstep
  obtain ⟨relay, hrelay, rfl⟩ := serverStep_eq hstep
  have htracks := tracks_watch hf.tracks hrelay
  cases step_cases hrelay with
  | clientSend _ _ hc hopen =>
    refine ⟨htracks, fun d => ?_, hf.heard, hf.read⟩
    rw [hf.sent d]
    by_cases hdc : d = c
    · subst hdc
      simp [List.append_assoc]
    · simp [hdc]

/-- The end of what a client sends arrives. -/
theorem Follows.fin (hf : Follows n h) {c : Nat}
    (hstep : step cfg setup n (.fin c) = some next) : Follows next h := by
  simp only [step, Option.ite_none_right_eq_some] at hstep
  obtain ⟨relay, hrelay, rfl⟩ := serverStep_eq hstep.2
  have htracks := tracks_watch hf.tracks hrelay
  cases step_cases hrelay with
  | clientShut _ hc => exact ⟨htracks, hf.sent, hf.heard, hf.read⟩

/-- What a client has sent is under way. -/
theorem sent_acted (hf : Follows n h) {c : Nat} {a : Client.Act} {process : Client.Process}
    (hprocess : (Client.Process.machine (setup c)).step (n.process c) a = some process) (d : Nat) :
    (sends .sockfd ((n.acted c a process).process d).calls).flatten =
      (h.received d).flatten ++ n.relay.inbound d ++ (n.acted c a process).inFlight d := by
  change (sends .sockfd (Function.update n.process c process d).calls).flatten =
    (h.received d).flatten ++ n.relay.inbound d ++ Function.update n.inFlight c _ d
  by_cases hdc : d = c
  · subst hdc
    rw [Function.update_self, Function.update_self, sends_sending hprocess, hf.sent d,
      List.append_assoc]
  · rw [Function.update_of_ne hdc, Function.update_of_ne hdc]
    exact hf.sent d

theorem Follows.client (hf : Follows n h) {c : Nat} {a : Client.Act}
    (hstep : step cfg setup n (.client c a) = some next) :
    Follows next h ∧
      (Client.Process.machine (setup c)).step (n.process c) a = some (next.process c) ∧
      ∀ d, d ≠ c → next.process d = n.process d := by
  simp only [step, Option.bind_eq_some_iff] at hstep
  obtain ⟨process, hprocess, hstep⟩ := hstep
  have hsent := sent_acted hf hprocess
  have hself : (n.acted c a process).process c = process := Function.update_self ..
  have hother : ∀ d, d ≠ c → (n.acted c a process).process d = n.process d :=
    fun d hd => Function.update_of_ne hd ..
  have hcalls := received_reading hprocess
  cases hreading : a.reading with
  | none =>
    simp only [hreading] at hstep hcalls
    obtain rfl := Option.some.inj hstep
    refine ⟨⟨hf.tracks, hsent, fun d => ?_, hf.read⟩, hself.symm ▸ hprocess, hother⟩
    by_cases hdc : d = c
    · subst hdc
      rw [hself, hcalls, Option.toList_none, List.append_nil]
      exact hf.heard d
    · rw [hother d hdc]
      exact hf.heard d
  | some bytes =>
    simp only [hreading, Option.ite_none_right_eq_some] at hstep hcalls
    obtain ⟨hnext, hstep⟩ := hstep
    obtain ⟨relay, hrelay, rfl⟩ := serverStep_eq hstep
    have htracks := tracks_watch hf.tracks hrelay
    cases step_cases hrelay with
    | clientRead _ _ hc hn =>
      refine ⟨⟨htracks, hsent, fun d => ?_, fun d => ?_⟩, hself.symm ▸ hprocess, hother⟩
      · by_cases hdc : d = c
        · subst hdc
          have hbytes := (List.prefix_iff_eq_take.mp hnext).symm
          change (received ((n.acted d a process).process d).calls).flatten =
            (n.relay.stream d).take (Function.update n.relay.read d
              (n.relay.read d + bytes.length) d)
          rw [hself, hcalls, List.flatten_append, hf.heard d, Function.update_self,
            List.take_add, hbytes]
          simp
        · change (received ((n.acted c a process).process d).calls).flatten =
            (n.relay.stream d).take (Function.update n.relay.read c _ d)
          rw [hother d hdc, Function.update_of_ne hdc]
          exact hf.heard d
      · change Function.update n.relay.read c _ d ≤ (n.relay.stream d).length
        by_cases hdc : d = c
        · subst hdc
          rw [Function.update_self]
          exact hn
        · rw [Function.update_of_ne hdc]
          exact hf.read d

end Steps

section Runs

variable {cfg : Config} {setup : Nat → Client.Setup} {n : Network}
  {buffer : Nat → Bytes.Buffer Client.sizeofBuffer} {actions : List Act}

end Runs

end Network

end MediaStream.TCPS
