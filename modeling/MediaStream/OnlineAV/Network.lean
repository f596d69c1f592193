import MediaStream.OnlineAV.AudioPlayback
import MediaStream.OnlineAV.Discovery

/-!
Any number of nodes of `Online_AV.cpp` on one network, and nobody else. A datagram
may be lost, delayed, overtaken or doubled, and the kernel of the node it reaches
gives it to any of the three loops that receive from `sockfd`. A greeting is
broadcast, so that the node it comes from may hear it as well.
-/

namespace MediaStream.OnlineAV

open Lib Lib.Bytes

namespace SharedPeers.Act

def captured : SharedPeers.Act → List Samples
  | .sendAudio (.readi samples) => [samples]
  | _ => []

def encoded : SharedPeers.Act → List EncFrame
  | .sendVideo (.read (some frame)) => [frame]
  | _ => []

end SharedPeers.Act

structure Station where
  threads : SharedPeers
  /-- The datagrams that the kernel has handed out. -/
  deliveries : List Delivery
  captured : List Samples
  encoded : List EncFrame
  /-- What has been sent, without a destination if it is broadcast. -/
  sent : List (Option SockaddrIn × Datagram)

namespace Station

def init (buffer : Buffer (helloBufferSize + 1)) : Station where
  threads := .init buffer
  deliveries := []
  captured := []
  encoded := []
  sent := []

def heard (p : Station) : List (SockaddrIn × List UInt8) :=
  (p.deliveries.filter fun d => d.loop = .lookForPeers).map fun d => (d.source, d.datagram.bytes)

/-- The `sendto` of a step. `timestamp` of `packet` is never set. -/
def sends (s : SharedPeers) : SharedPeers.Act → List (Option SockaddrIn × Datagram)
  | .sendAudio .sendto =>
    match s.audio.point with
    | .sendto (peer :: _) => [(some peer, .audio s.audio.packet.aSequence s.audio.packet.audioData)]
    | _ => []
  | .sendVideo .sendto =>
    match s.video.point with
    | .sendto fragment _ iterator =>
      (s.shared.peerList[iterator]?.map fun peer => (some peer, .video fragment)).toList
    | _ => []
  | _ => []

/-- A step of a thread that receives nothing. -/
def act (p : Station) (a : SharedPeers.Act) : Option Station :=
  (p.threads.step a).map fun threads =>
    { p with
      threads := threads
      captured := p.captured ++ a.captured
      encoded := p.encoded ++ a.encoded
      sent := p.sent ++ sends p.threads a }

def sendHello (p : Station) : Station := { p with sent := p.sent ++ [(none, .hello)] }

/-- The two other loops receive at any moment, whether or not `running` is still set. -/
def deliver (p : Station) (d : Delivery) : Option Station :=
  match d.loop with
  | .lookForPeers =>
    (p.threads.step (.listen (.recvfrom (some (d.source, d.datagram.bytes))))).map fun threads =>
      { p with threads := threads, deliveries := p.deliveries ++ [d] }
  | .audioPlayback | .videoPlayback => some { p with deliveries := p.deliveries ++ [d] }

end Station

theorem readsHello_video {f : VideoFragment} (h : readsHello f.bytes = true) :
    f.frameSeq.toNat = 0x4C4C4548 ∧ f.fragmentI.toNat % 2 ^ 16 = 0x4F := by
  have hstring : (f.bytes.take helloBufferSize).takeWhile (· ≠ 0) = helloBytes :=
    of_decide_eq_true h
  have hsplit := List.takeWhile_append_dropWhile (p := fun b : UInt8 => decide (b ≠ 0))
    (l := f.bytes.take helloBufferSize)
  have hstops := List.head?_dropWhile_not (fun b : UInt8 => decide (b ≠ 0))
    (f.bytes.take helloBufferSize)
  rw [hstring] at hsplit
  cases hrest : (f.bytes.take helloBufferSize).dropWhile (· ≠ 0) with
  | nil =>
    have hlong : (f.bytes.take helloBufferSize).length = helloBufferSize := by
      rw [List.length_take, f.length_bytes]
      decide
    rw [hrest, List.append_nil] at hsplit
    rw [← hsplit] at hlong
    exact absurd hlong (by decide)
  | cons byte rest =>
    rw [hrest] at hsplit hstops
    obtain rfl : byte = 0 := by simpa using hstops
    have hfront : helloBytes ++ [0] <+: f.bytes := by
      have hcut : helloBytes ++ [0] <+: f.bytes.take helloBufferSize :=
        ⟨rest, by rw [← hsplit, List.append_assoc, List.singleton_append]⟩
      exact hcut.trans (List.take_prefix _ _)
    have hnumber : field f.bytes 0 4 = leNat [72, 69, 76, 76] :=
      field_eq [] _ (List.IsPrefix.trans ⟨[79, 0], rfl⟩ hfront) rfl rfl
    have hframeSeq : field f.bytes 0 4 = leNat (le 4 f.frameSeq.toNat) :=
      field_eq [] _ (by simp [VideoFragment.bytes]) rfl (by simp)
    have hletter : field f.bytes 4 2 = leNat [79, 0] :=
      field_eq [72, 69, 76, 76] _ hfront rfl rfl
    have hindex : field f.bytes 4 2 = leNat (le 2 f.fragmentI.toNat) := by
      apply field_eq (le 4 f.frameSeq.toNat) _ _ (by simp) (by simp)
      have hhalves := le_add 2 2 f.fragmentI.toNat
      simp [VideoFragment.bytes, hhalves]
    rw [hnumber, leNat_le_of_lt f.frameSeq.toNat_lt] at hframeSeq
    rw [hletter, leNat_le] at hindex
    exact ⟨hframeSeq.symm, hindex.symm⟩

section Stations

/-- The audio and video datagrams that a node can make of what it has recorded. -/
inductive Station.Made (p : Station) : Datagram → Prop
  | audio (sequence : UInt32) {samples : Samples} (h : samples ∈ p.captured) :
      p.Made (.audio sequence samples)
  | video {frame : EncFrame} (h : frame ∈ p.encoded) {frameSeq : UInt32} {f : VideoFragment}
      (hf : f ∈ frame.fragments frameSeq) : p.Made (.video f)

def AudioPoint.filled : AudioPoint → Bool
  | lock | copy | sendto _ => true
  | _ => false

/-- The fragments of the frame at hand that are still to be sent to someone. -/
def VideoPoint.inHand : VideoPoint → List VideoFragment
  | fragments rest => rest
  | sendto fragment rest _ => fragment :: rest
  | _ => []

/-- What a node sends is a greeting, or recorded there and for a peer. -/
structure Station.Honest (p : Station) : Prop where
  discovers : Listener.Discovers p.threads.shared p.threads.listener p.heard
  packet : p.threads.audio.point.filled → p.threads.audio.packet.audioData ∈ p.captured
  peersList : ∀ peersList, p.threads.audio.point = .sendto peersList →
    ∀ peer ∈ peersList, peer ∈ p.threads.shared.peerList
  inHand : ∀ f ∈ p.threads.video.point.inHand, p.Made (.video f)
  sent : ∀ m ∈ p.sent, m = (none, .hello) ∨
    ∃ peer ∈ p.threads.shared.peerList, m.1 = some peer ∧ p.Made m.2

variable {p next : Station} {threads : SharedPeers} {d : Datagram}

theorem Station.Made.mono (h : p.Made d) (hcaptured : p.captured ⊆ next.captured)
    (hencoded : p.encoded ⊆ next.encoded) : next.Made d := by
  cases h with
  | audio sequence h => exact .audio sequence (hcaptured h)
  | video h hf => exact .video (hencoded h) hf

/-- What a step of `AudioRecAndSend` leaves in hand, and what it sends. -/
theorem audio_fills (h : p.Honest) {a : AudioAct}
    (hstep : p.threads.step (.sendAudio a) = some threads) :
    (threads.audio.point.filled → threads.audio.packet.audioData ∈
      p.captured ++ (SharedPeers.Act.sendAudio a).captured) ∧
    (∀ peersList, threads.audio.point = .sendto peersList →
      ∀ peer ∈ peersList, peer ∈ p.threads.shared.peerList) ∧
    ∀ m ∈ Station.sends p.threads (.sendAudio a),
      ∃ peer ∈ p.threads.shared.peerList, m.1 = some peer ∧ p.Made m.2 := by
  have hcases := AudioSender.step_cases (SharedPeers.step_sendAudio hstep).1
  have hpacket := h.packet
  have hpeers := h.peersList
  cases a with
  | test =>
    obtain ⟨-, -, hnext⟩ := hcases
    rw [hnext]
    cases p.threads.shared.running <;> simp [AudioPoint.filled, Station.sends]
  | readi samples =>
    obtain ⟨-, -, hnext⟩ := hcases
    rw [hnext]
    simp [SharedPeers.Act.captured, Station.sends]
  | readiError prepared =>
    obtain ⟨-, -, hnext⟩ := hcases
    rw [hnext]
    cases prepared <;> simp [AudioPoint.filled, Station.sends]
  | lock =>
    obtain ⟨hpoint, -, -, hnext⟩ := hcases
    rw [hpoint] at hpacket
    rw [hnext]
    exact ⟨fun _ => List.mem_append_left _ (hpacket rfl), by simp, by simp [Station.sends]⟩
  | copy =>
    obtain ⟨hpoint, -, hnext⟩ := hcases
    rw [hpoint] at hpacket
    rw [hnext]
    refine ⟨fun _ => List.mem_append_left _ (hpacket rfl), ?_, by simp [Station.sends]⟩
    rintro peersList ⟨⟩ peer hpeer
    exact hpeer
  | sendto =>
    obtain ⟨peer, rest, hpoint, -, hnext⟩ := hcases
    rw [hpoint] at hpacket
    have hfilled := hpacket rfl
    have hfirst := hpeers _ hpoint
    rw [hnext]
    refine ⟨fun _ => List.mem_append_left _ hfilled, ?_, ?_⟩
    · rintro peersList ⟨⟩ other hother
      exact hfirst other (List.mem_cons_of_mem _ hother)
    · simp only [Station.sends, hpoint, List.mem_singleton]
      rintro m rfl
      exact ⟨peer, hfirst peer List.mem_cons_self, rfl, .audio _ hfilled⟩
  | unlock =>
    obtain ⟨-, -, hnext⟩ := hcases
    rw [hnext]
    simp [AudioPoint.filled, Station.sends]

/-- The same for `VideoRecandSend`. -/
theorem video_fills (h : p.Honest) {a : VideoAct}
    (hstep : p.threads.step (.sendVideo a) = some threads) :
    (∀ f ∈ threads.video.point.inHand, p.Made (.video f) ∨
      ∃ frame ∈ (SharedPeers.Act.sendVideo a).encoded, ∃ frameSeq, f ∈ frame.fragments frameSeq) ∧
    ∀ m ∈ Station.sends p.threads (.sendVideo a),
      ∃ peer ∈ p.threads.shared.peerList, m.1 = some peer ∧ p.Made m.2 := by
  have hcases := VideoSender.step_cases (SharedPeers.step_sendVideo hstep).1
  have hinHand := h.inHand
  cases a with
  | openCamera opened =>
    obtain ⟨-, -, hnext⟩ := hcases
    rw [hnext]
    cases opened <;> simp [VideoPoint.inHand, Station.sends]
  | test =>
    obtain ⟨-, -, hnext⟩ := hcases
    rw [hnext]
    cases p.threads.shared.running <;> simp [VideoPoint.inHand, Station.sends]
  | read result =>
    cases result with
    | none =>
      obtain ⟨-, -, hnext⟩ := hcases
      rw [hnext]
      simp [VideoPoint.inHand, Station.sends]
    | some frame =>
      obtain ⟨-, -, hnext⟩ := hcases
      rw [hnext]
      refine ⟨fun f hf => Or.inr ⟨frame, ?_, _, hf⟩, by simp [Station.sends]⟩
      exact List.mem_singleton_self frame
  | lock =>
    obtain ⟨fragment, rest, hpoint, -, -, hnext⟩ := hcases
    rw [hpoint] at hinHand
    rw [hnext]
    exact ⟨fun f hf => Or.inl (hinHand f hf), by simp [Station.sends]⟩
  | sendto =>
    obtain ⟨fragment, rest, iterator, hpoint, hiterator, -, hnext⟩ := hcases
    rw [hpoint] at hinHand
    rw [hnext]
    refine ⟨fun f hf => Or.inl (hinHand f hf), ?_⟩
    simp only [Station.sends, hpoint, List.getElem?_eq_getElem hiterator, Option.map_some,
      Option.toList_some, List.mem_singleton]
    rintro m rfl
    exact ⟨_, List.getElem_mem hiterator, rfl, hinHand fragment List.mem_cons_self⟩
  | unlock =>
    obtain ⟨fragment, rest, hpoint, -, hnext⟩ := hcases
    rw [hpoint] at hinHand
    rw [hnext]
    exact ⟨fun f hf => Or.inl (hinHand f (List.mem_cons_of_mem _ hf)), by simp [Station.sends]⟩
  | frameSent =>
    obtain ⟨-, -, hnext⟩ := hcases
    rw [hnext]
    simp [VideoPoint.inHand, Station.sends]

/-- What a step of a thread does to what is sent and what is in hand. -/
structure Station.Fills (p : Station) (a : SharedPeers.Act) (threads : SharedPeers) : Prop where
  packet : threads.audio.point.filled → threads.audio.packet.audioData ∈ p.captured ++ a.captured
  peersList : ∀ peersList, threads.audio.point = .sendto peersList →
    ∀ peer ∈ peersList, peer ∈ p.threads.shared.peerList
  inHand : ∀ f ∈ threads.video.point.inHand, p.Made (.video f) ∨
    ∃ frame ∈ a.encoded, ∃ frameSeq, f ∈ frame.fragments frameSeq
  sends : ∀ m ∈ Station.sends p.threads a,
    ∃ peer ∈ p.threads.shared.peerList, m.1 = some peer ∧ p.Made m.2

theorem fills_of_same (h : p.Honest) {a : SharedPeers.Act}
    (haudio : threads.audio = p.threads.audio)
    (hvideo : threads.video = p.threads.video) (hsends : Station.sends p.threads a = []) :
    p.Fills a threads where
  packet := by
    rw [haudio]
    exact fun hfilled => List.mem_append_left _ (h.packet hfilled)
  peersList := by
    rw [haudio]
    exact h.peersList
  inHand := by
    rw [hvideo]
    exact fun f hf => Or.inl (h.inHand f hf)
  sends := by
    rw [hsends]
    exact fun m hm => absurd hm List.not_mem_nil

theorem fills_step (h : p.Honest) {a : SharedPeers.Act} (hstep : p.threads.step a = some threads) :
    p.Fills a threads := by
  cases a with
  | stop =>
    obtain rfl := SharedPeers.step_stop hstep
    exact fills_of_same h rfl rfl rfl
  | listen a =>
    obtain ⟨-, haudio, hvideo⟩ := SharedPeers.step_listen hstep
    exact fills_of_same h haudio hvideo rfl
  | sendAudio a =>
    obtain ⟨hpacket, hpeers, hsends⟩ := audio_fills h hstep
    have hvideo := (SharedPeers.step_sendAudio hstep).2.2
    refine ⟨hpacket, hpeers, fun f hf => Or.inl ?_, hsends⟩
    rw [hvideo] at hf
    exact h.inHand f hf
  | sendVideo a =>
    obtain ⟨hinHand, hsends⟩ := video_fills h hstep
    have haudio := (SharedPeers.step_sendVideo hstep).2.2
    refine ⟨fun hfilled => ?_, fun peersList hpoint => ?_, hinHand, hsends⟩
    · rw [haudio] at hfilled ⊢
      exact List.mem_append_left _ (h.packet hfilled)
    · rw [haudio] at hpoint
      exact h.peersList peersList hpoint

/-- A step of a thread, a reception of `LookForPeers` included. -/
theorem honest_step (h : p.Honest) {a : SharedPeers.Act}
    (hstep : p.threads.step a = some next.threads)
    (hheard : next.heard = SharedPeers.hear p.threads a p.heard)
    (hcaptured : next.captured = p.captured ++ a.captured)
    (hencoded : next.encoded = p.encoded ++ a.encoded)
    (hsent : next.sent = p.sent ++ Station.sends p.threads a) : next.Honest := by
  have hfills := fills_step h hstep
  have hpeers := (SharedPeers.peerList_extends hstep).subset
  have hmade : ∀ {d}, p.Made d → next.Made d := by
    intro d hd
    apply hd.mono
    · rw [hcaptured]
      exact List.subset_append_left _ _
    · rw [hencoded]
      exact List.subset_append_left _ _
  constructor
  · rw [hheard]
    exact SharedPeers.discovers_step h.discovers hstep
  · rw [hcaptured]
    exact hfills.packet
  · exact fun peersList hpoint peer hpeer => hpeers (hfills.peersList peersList hpoint peer hpeer)
  · intro f hf
    rcases hfills.inHand f hf with hold | ⟨frame, hframe, frameSeq, hfragment⟩
    · exact hmade hold
    · have hknown : frame ∈ next.encoded := by
        rw [hencoded]
        exact List.mem_append_right _ hframe
      exact .video hknown hfragment
  · intro m hm
    rw [hsent, List.mem_append] at hm
    rcases hm with hold | hnew
    · rcases h.sent m hold with hhello | ⟨peer, hpeer, hto, hd⟩
      · exact Or.inl hhello
      · exact Or.inr ⟨peer, hpeers hpeer, hto, hmade hd⟩
    · obtain ⟨peer, hpeer, hto, hd⟩ := hfills.sends m hnew
      exact Or.inr ⟨peer, hpeers hpeer, hto, hmade hd⟩

theorem honest_init (buffer : Buffer (helloBufferSize + 1)) :
    (Station.init buffer).Honest where
  discovers := ⟨trivial, rfl⟩
  packet := fun h => absurd h Bool.false_ne_true
  peersList := fun _ h => nomatch h
  inHand := fun _ h => absurd h List.not_mem_nil
  sent := fun _ h => absurd h List.not_mem_nil

theorem honest_act (h : p.Honest) {a : SharedPeers.Act}
    (ha : ∀ d, a ≠ .listen (.recvfrom (some d))) (hstep : p.act a = some next) : next.Honest := by
  obtain ⟨threads, hthreads, rfl⟩ := Option.map_eq_some_iff.mp hstep
  refine honest_step h hthreads ?_ rfl rfl rfl
  change p.heard = _
  unfold SharedPeers.hear ListenAct.hear
  split
  · split
    · next a d => exact absurd rfl (ha d)
    · rfl
  · rfl

/-- Greetings are sent, and datagrams received that `LookForPeers` does not get. -/
theorem honest_of_same (h : p.Honest) (hthreads : next.threads = p.threads)
    (hheard : next.heard = p.heard) (hcaptured : next.captured = p.captured)
    (hencoded : next.encoded = p.encoded)
    (hsent : ∀ m ∈ next.sent, m ∈ p.sent ∨ m = (none, .hello)) : next.Honest := by
  have hmade : ∀ {d}, p.Made d → next.Made d := by
    intro d hd
    exact hd.mono (hcaptured ▸ List.Subset.refl _) (hencoded ▸ List.Subset.refl _)
  constructor
  · rw [hthreads, hheard]
    exact h.discovers
  · rw [hthreads, hcaptured]
    exact h.packet
  · rw [hthreads]
    exact h.peersList
  · rw [hthreads]
    exact fun f hf => hmade (h.inHand f hf)
  · intro m hm
    rcases hsent m hm with hold | hnew
    · rcases h.sent m hold with hhello | ⟨peer, hpeer, hto, hd⟩
      · exact Or.inl hhello
      · rw [hthreads]
        exact Or.inr ⟨peer, hpeer, hto, hmade hd⟩
    · exact Or.inl hnew

theorem honest_sendHello (h : p.Honest) : p.sendHello.Honest := by
  have hsent : ∀ m ∈ p.sendHello.sent, m ∈ p.sent ∨ m = (none, .hello) := by
    intro m hm
    rcases List.mem_append.mp hm with hold | hnew
    · exact Or.inl hold
    · exact Or.inr (List.mem_singleton.mp hnew)
  exact honest_of_same h rfl rfl rfl rfl hsent

theorem heard_append (p : Station) (d : Delivery) :
    Station.heard { p with deliveries := p.deliveries ++ [d] } =
      if d.loop = .lookForPeers then p.heard ++ [(d.source, d.datagram.bytes)] else p.heard := by
  unfold Station.heard
  rw [List.filter_append, List.map_append]
  by_cases hloop : d.loop = .lookForPeers
  · simp [hloop]
  · simp [hloop]

/-- A node that receives stays honest, and nothing else about it changes. -/
theorem honest_deliver (h : p.Honest) {d : Delivery} (hstep : p.deliver d = some next) :
    next.Honest ∧ next.sent = p.sent ∧ next.deliveries = p.deliveries ++ [d] := by
  have hheard := heard_append p d
  have hother : ∀ loop, d.loop = loop → loop ≠ .lookForPeers →
      Station.Honest { p with deliveries := p.deliveries ++ [d] } := by
    intro loop hloop hnot
    rw [if_neg (by rwa [hloop])] at hheard
    exact honest_of_same h rfl hheard rfl rfl fun m hm => Or.inl hm
  unfold Station.deliver at hstep
  cases hloop : d.loop with
  | lookForPeers =>
    rw [hloop] at hstep
    obtain ⟨threads, hthreads, rfl⟩ := Option.map_eq_some_iff.mp hstep
    rw [if_pos hloop] at hheard
    refine ⟨honest_step h hthreads hheard ?_ ?_ ?_, rfl, rfl⟩
    · exact (List.append_nil _).symm
    · exact (List.append_nil _).symm
    · exact (List.append_nil _).symm
  | audioPlayback =>
    rw [hloop] at hstep
    obtain rfl := Option.some.inj hstep
    exact ⟨hother _ hloop (by decide), rfl, rfl⟩
  | videoPlayback =>
    rw [hloop] at hstep
    obtain rfl := Option.some.inj hstep
    exact ⟨hother _ hloop (by decide), rfl, rfl⟩

/-- The other end has sent a greeting that `LookForPeers` got, or a fragment that reads
as one: its number spells `HELL`, and an `O` and a zero begin its index. -/
def Station.HasHeard (p : Station) (peer : SockaddrIn) : Prop :=
  ∃ d ∈ p.deliveries, d.loop = .lookForPeers ∧ d.source = peer ∧
    (d.datagram = .hello ∨ ∃ f, d.datagram = .video f ∧
      f.frameSeq.toNat = 0x4C4C4548 ∧ f.fragmentI.toNat % 2 ^ 16 = 0x4F)

/-- Made of what the node has recorded, and for a peer that it has heard. -/
def Station.RecordedFor (p : Station) (peer : SockaddrIn) (d : Datagram) : Prop :=
  p.HasHeard peer ∧ p.Made d

theorem Station.Honest.hasHeard (h : p.Honest) {peer : SockaddrIn}
    (hpeer : peer ∈ p.threads.shared.peerList) : p.HasHeard peer := by
  rw [h.discovers.peers, greeters, List.mem_eraseDups, List.mem_map] at hpeer
  obtain ⟨heard, hmem, rfl⟩ := hpeer
  obtain ⟨hprocessed, hgreets⟩ := List.mem_filter.mp hmem
  have hheard : heard ∈ p.heard := by
    unfold Listener.processed at hprocessed
    split at hprocessed
    · exact List.dropLast_subset _ hprocessed
    · exact hprocessed
  obtain ⟨d, hd, rfl⟩ := List.mem_map.mp hheard
  obtain ⟨hdelivered, hloop⟩ := List.mem_filter.mp hd
  have hreads : readsHello d.datagram.bytes = true := (readsHello_eq _).trans hgreets
  refine ⟨d, hdelivered, of_decide_eq_true hloop, rfl, ?_⟩
  cases hdatagram : d.datagram with
  | hello => exact Or.inl rfl
  | audio sequence samples =>
    rw [hdatagram, readsHello_audio] at hreads
    cases hreads
  | video f =>
    rw [hdatagram] at hreads
    exact Or.inr ⟨f, rfl, readsHello_video hreads⟩

end Stations

section Outputs

variable {S : FragmentSort} {n : Node} {m : FragmentBuffer} {f : VideoFragment}
  {datagrams : List Datagram} {deliveries : List Delivery} {P : VideoFragment → Prop}

theorem mem_index_pushBack {g : VideoFragment} {k : UInt32} (h : g ∈ (m.pushBack f).index k) :
    g ∈ m.index k ∨ g = f := by
  by_cases hk : k = f.frameSeq
  · subst hk
    rw [FragmentBuffer.index_pushBack] at h
    simpa using h
  · rw [FragmentBuffer.index, FragmentBuffer.pushBack, Function.update_of_ne hk] at h
    exact Or.inl h

theorem mem_index_erase {g : VideoFragment} {k number : UInt32} (h : g ∈ (m.erase number).index k) :
    g ∈ m.index k := by
  by_cases hk : k = number
  · subst hk
    simp [FragmentBuffer.index, FragmentBuffer.erase] at h
  · rwa [FragmentBuffer.index, FragmentBuffer.erase, Function.update_of_ne hk] at h

/-- A pass stores and hands over nothing but what was stored or has come. -/
theorem handleFragment_forall (hm : ∀ k, ∀ g ∈ m.index k, P g) (hf : P f) :
    (∀ k, ∀ g ∈ (handleFragment S m f).1.index k, P g) ∧
      ∀ h, (handleFragment S m f).2 = some h → ∀ g ∈ h.fragments, P g := by
  have hpush : ∀ k, ∀ g ∈ (m.pushBack f).index k, P g := by
    intro k g hg
    rcases mem_index_pushBack hg with hold | rfl
    · exact hm k g hold
    · exact hf
  unfold handleFragment
  split
  · split
    · refine ⟨fun k g hg => hpush k g (mem_index_erase hg), ?_⟩
      rintro h ⟨⟩ g hg
      exact hpush _ g (S.mem_sort.mp hg)
    · exact ⟨hpush, by simp⟩
  · exact ⟨hpush, by simp⟩

theorem shown_forall (hn : ∀ k, ∀ g ∈ n.buffer.index k, P g)
    (hdeliveries : ∀ d ∈ deliveries, P d.datagram.overlay) {h : Handover}
    (hshown : .shown h ∈ (n.effects S deliveries).flatten) : ∀ g ∈ h.fragments, P g := by
  induction deliveries generalizing n with
  | nil => cases hshown
  | cons d rest ih =>
    obtain ⟨hd, hrest⟩ := List.forall_mem_cons.mp hdeliveries
    obtain ⟨hbuffer, hhanded⟩ := handleFragment_forall (S := S) hn hd
    rw [Node.effects, List.flatten_cons, List.mem_append] at hshown
    unfold Node.receive at hshown
    cases hloop : d.loop with
    | lookForPeers =>
      simp only [hloop, List.not_mem_nil, false_or] at hshown
      apply ih _ hrest hshown
      exact hn
    | audioPlayback =>
      simp only [hloop, Node.audioPlayback, List.mem_singleton, reduceCtorEq, false_or] at hshown
      apply ih _ hrest hshown
      exact hn
    | videoPlayback =>
      simp only [hloop] at hshown
      rcases hshown with hnow | hlater
      · exact hhanded h (by simpa using hnow)
      · exact ih hbuffer hrest hlater

theorem lastAudio_mem (datagrams : List Datagram) :
    lastAudio datagrams = .silence ∨
      ∃ sequence, .audio sequence (lastAudio datagrams) ∈ datagrams := by
  unfold lastAudio
  cases hlast : (datagrams.filterMap Datagram.audioSamples).getLast? with
  | none => exact Or.inl rfl
  | some samples =>
    obtain ⟨d, hd, hsamples⟩ := List.mem_filterMap.mp (List.mem_of_getLast? hlast)
    cases d with
    | audio sequence samples =>
      cases hsamples
      exact Or.inr ⟨sequence, hd⟩
    | _ => cases hsamples

theorem fragmentSince_mem (h : fragmentSince datagrams = some f) : .video f ∈ datagrams := by
  obtain ⟨d, hd, hfragment⟩ := List.mem_filterMap.mp (List.mem_of_getLast? h)
  cases d with
  | video f =>
    cases hfragment
    exact List.rtakeWhile_suffix _ _ |>.subset hd
  | _ => cases hfragment

theorem written_played {block : List UInt8}
    (h : .written block ∈ (Node.init.effects S deliveries).flatten) :
    ∃ datagrams, datagrams <+: toAudioPlayback deliveries ∧ block = played datagrams := by
  have hblock : block ∈ (Node.init.effects S deliveries).flatten.filterMap Effect.samples :=
    List.mem_filterMap.mpr ⟨_, h, rfl⟩
  rw [written_from [] List.length_replicate played_init, List.mem_map] at hblock
  obtain ⟨k, -, rfl⟩ := hblock
  exact ⟨_, List.take_prefix _ _, rfl⟩

end Outputs

namespace Network

variable {ι : Type*}

inductive Act (ι : Type*) where
  | thread (node : ι) (a : SharedPeers.Act)
  | sendHello (node : ι)
  /-- A datagram that was sent reaches a loop of a node. -/
  | deliver (sender : ι) (k : Nat) (target : ι) (loop : Loop)

/-- `addr` gives the address of a node. -/
def step [DecidableEq ι] (addr : ι → SockaddrIn) (s : ι → Station) : Act ι → Option (ι → Station)
  | .thread _ (.listen (.recvfrom (some _))) => none
  | .thread i a => ((s i).act a).map (Function.update s i)
  | .sendHello i => some (Function.update s i (s i).sendHello)
  | .deliver sender k target loop =>
    match (s sender).sent[k]? with
    | none => none
    | some (destination, datagram) =>
      if destination = none ∨ destination = some (addr target) then
        ((s target).deliver ⟨loop, addr sender, datagram⟩).map (Function.update s target)
      else none

def machine [DecidableEq ι] (addr : ι → SockaddrIn) : Machine (ι → Station) (Act ι) := ⟨step addr⟩

variable {addr : ι → SockaddrIn} {s : ι → Station}

/-- A node has sent the datagram where another one can receive it. -/
def SentTo (addr : ι → SockaddrIn) (s : ι → Station) (sender target : ι) (d : Datagram) : Prop :=
  (none, d) ∈ (s sender).sent ∨ (some (addr target), d) ∈ (s sender).sent

/-- The invariant of the network. -/
structure Sound (addr : ι → SockaddrIn) (s : ι → Station) : Prop where
  honest : ∀ i, (s i).Honest
  delivered : ∀ j, ∀ d ∈ (s j).deliveries, ∃ i, d.source = addr i ∧ SentTo addr s i j d.datagram

/-- Where that comes from which a node lists, plays and shows. -/
structure Serves (S : FragmentSort) (addr : ι → SockaddrIn) (s : ι → Station) (j : ι) : Prop where
  peers : ∀ peer ∈ (s j).threads.shared.peerList, (s j).HasHeard peer ∧ ∃ i, peer = addr i
  played : ∀ block, .written block ∈ (Node.init.effects S (s j).deliveries).flatten →
    ∃ samples f, block = cover samples f ∧
      (samples = .silence ∨
        ∃ i sequence, (s i).RecordedFor (addr j) (.audio sequence samples)) ∧
      ∀ g, f = some g → ∃ i, (s i).RecordedFor (addr j) (.video g)
  shown : ∀ h, .shown h ∈ (Node.init.effects S (s j).deliveries).flatten → ∀ f ∈ h.fragments,
    ∃ d, f = d.overlay ∧ (d = .hello ∨ ∃ i, (s i).RecordedFor (addr j) d)

theorem Sound.recorded (h : Sound addr s) {j : ι} {d : Delivery} (hd : d ∈ (s j).deliveries) :
    d.datagram = .hello ∨ ∃ i, (s i).RecordedFor (addr j) d.datagram := by
  obtain ⟨i, -, hto⟩ := h.delivered j d hd
  rcases hto with hsent | hsent
  · rcases (h.honest i).sent _ hsent with hhello | ⟨peer, -, hpeer, -⟩
    · exact Or.inl (Prod.mk.inj hhello).2
    · cases hpeer
  · rcases (h.honest i).sent _ hsent with hhello | ⟨peer, hlisted, hpeer, hmade⟩
    · exact Or.inl (Prod.mk.inj hhello).2
    · obtain rfl := Option.some.inj hpeer
      exact Or.inr ⟨i, (h.honest i).hasHeard hlisted, hmade⟩

theorem Sound.serves (h : Sound addr s) (S : FragmentSort) (j : ι) : Serves S addr s j where
  peers := by
    intro peer hpeer
    have hheard := (h.honest j).hasHeard hpeer
    have ⟨d, hd, _, hsource, _⟩ := hheard
    obtain ⟨i, hi, -⟩ := h.delivered j d hd
    exact ⟨hheard, i, hsource.symm.trans hi⟩
  played := by
    intro block hblock
    obtain ⟨datagrams, hfirst, hplayed⟩ := written_played hblock
    have hrecorded : ∀ d ∈ datagrams, d = .hello ∨ ∃ i, (s i).RecordedFor (addr j) d := by
      intro d hd
      obtain ⟨e, he, rfl⟩ := List.mem_map.mp (hfirst.subset hd)
      exact h.recorded (List.mem_filter.mp he).1
    refine ⟨lastAudio datagrams, fragmentSince datagrams, hplayed, ?_, ?_⟩
    · rcases lastAudio_mem datagrams with hsilence | ⟨sequence, hmem⟩
      · exact Or.inl hsilence
      · obtain ⟨i, hi⟩ := (hrecorded _ hmem).resolve_left (by simp)
        exact Or.inr ⟨i, sequence, hi⟩
    · intro f hf
      exact (hrecorded _ (fragmentSince_mem hf)).resolve_left (by simp)
  shown := by
    intro handover hshown
    have hentered : ∀ d ∈ (s j).deliveries, ∃ e, d.datagram.overlay = e.overlay ∧
        (e = .hello ∨ ∃ i, (s i).RecordedFor (addr j) e) :=
      fun d hd => ⟨d.datagram, rfl, h.recorded hd⟩
    exact shown_forall (P := fun f => ∃ e, f = Datagram.overlay e ∧
      (e = .hello ∨ ∃ i, (s i).RecordedFor (addr j) e))
      (fun k g hg => absurd hg List.not_mem_nil) hentered hshown

section Steps

variable [DecidableEq ι] {next : ι → Station} {a : Act ι}

/-- One node goes on, and what it has received now has been sent to it. -/
theorem Sound.update (h : Sound addr s) {i : ι} {p : Station} (hp : p.Honest)
    (hsent : (s i).sent ⊆ p.sent)
    (hnew : ∀ d ∈ p.deliveries, d ∈ (s i).deliveries ∨
      ∃ k, d.source = addr k ∧ SentTo addr s k i d.datagram) :
    Sound addr (Function.update s i p) := by
  have hkept : ∀ {k j d}, SentTo addr s k j d → SentTo addr (Function.update s i p) k j d := by
    intro k j d hd
    unfold SentTo
    by_cases hki : k = i
    · subst hki
      rw [Function.update_self]
      exact hd.imp (fun hm => hsent hm) fun hm => hsent hm
    · rwa [Function.update_of_ne hki]
  constructor
  · intro k
    by_cases hki : k = i
    · subst hki
      rwa [Function.update_self]
    · rw [Function.update_of_ne hki]
      exact h.honest k
  · intro j d hd
    have hbefore : ∃ k, d.source = addr k ∧ SentTo addr s k j d.datagram := by
      by_cases hji : j = i
      · subst hji
        rw [Function.update_self] at hd
        rcases hnew d hd with hold | hnow
        · exact h.delivered j d hold
        · exact hnow
      · rw [Function.update_of_ne hji] at hd
        exact h.delivered j d hd
    obtain ⟨k, hsource, hto⟩ := hbefore
    exact ⟨k, hsource, hkept hto⟩

/-- Everything a step can do. -/
theorem step_cases (hstep : step addr s a = some next) :
    (∃ i a p, (∀ d, a ≠ .listen (.recvfrom (some d))) ∧ (s i).act a = some p ∧
      next = Function.update s i p) ∨
    (∃ i, next = Function.update s i (s i).sendHello) ∨
    ∃ i j loop d p, SentTo addr s i j d ∧ (s j).deliver ⟨loop, addr i, d⟩ = some p ∧
      next = Function.update s j p := by
  unfold step at hstep
  split at hstep
  · cases hstep
  · next i a hother =>
    obtain ⟨p, hp, rfl⟩ := Option.map_eq_some_iff.mp hstep
    exact Or.inl ⟨i, a, p, fun d => hother d, hp, rfl⟩
  · next i => exact Or.inr (Or.inl ⟨i, (Option.some.inj hstep).symm⟩)
  · next i k j loop =>
    split at hstep
    · cases hstep
    · next destination d hget =>
      have hmem := List.mem_of_getElem? hget
      rw [Option.ite_none_right_eq_some] at hstep
      obtain ⟨hreaches, hstep⟩ := hstep
      obtain ⟨p, hp, rfl⟩ := Option.map_eq_some_iff.mp hstep
      refine Or.inr (Or.inr ⟨i, j, loop, d, p, ?_, hp, rfl⟩)
      rcases hreaches with rfl | rfl
      · exact Or.inl hmem
      · exact Or.inr hmem

theorem sound_step (h : Sound addr s) (hstep : step addr s a = some next) : Sound addr next := by
  rcases step_cases hstep with
    ⟨i, a, p, hother, hp, rfl⟩ | ⟨i, rfl⟩ | ⟨i, j, loop, d, p, hto, hp, rfl⟩
  · have hhonest := honest_act (h.honest i) hother hp
    obtain ⟨threads, -, rfl⟩ := Option.map_eq_some_iff.mp hp
    exact h.update hhonest (List.subset_append_left _ _) fun d hd => Or.inl hd
  · exact h.update (honest_sendHello (h.honest i)) (List.subset_append_left _ _)
      fun d hd => Or.inl hd
  · obtain ⟨hhonest, hsent, hdeliveries⟩ := honest_deliver (h.honest j) hp
    apply h.update hhonest (hsent ▸ List.Subset.refl _)
    intro e he
    rw [hdeliveries, List.mem_append, List.mem_singleton] at he
    rcases he with hold | rfl
    · exact Or.inl hold
    · exact Or.inr ⟨i, rfl, hto⟩

end Steps

section Runs

variable [DecidableEq ι] {buffer : ι → Buffer (helloBufferSize + 1)}
  {actions : List (Act ι)}

/-- In every run, and whatever the network and the kernels do with the datagrams: the
peers of a node are nodes that it has heard, and all that it plays or shows has been
recorded for it by nodes that have heard it, but for silence and greetings. -/
theorem serves_run (S : FragmentSort)
    (hrun : (machine addr).run (fun i => .init (buffer i)) actions = some s) (j : ι) :
    Serves S addr s j := by
  have hstart : Sound addr fun i => Station.init (buffer i) := by
    exact ⟨fun i => honest_init (buffer i), fun j d hd => absurd hd List.not_mem_nil⟩
  have hsound : Sound addr s := by
    apply Machine.run_preserves _ hstart hrun
    exact fun s a next h hstep => sound_step h hstep
  exact hsound.serves S j

def pairAddr : Bool → SockaddrIn
  | false => ⟨1, 12345⟩
  | true => ⟨2, 12345⟩

def audioRun : List (Act Bool) :=
  [.thread false (.listen .test), .sendHello true, .deliver true 0 false .lookForPeers,
    .thread false (.listen .strcmp), .thread false (.listen .lock),
    .thread false (.listen .findIf), .thread false (.listen .unlock),
    .thread false (.sendAudio .test), .thread false (.sendAudio (.readi .silence)),
    .thread false (.sendAudio .lock), .thread false (.sendAudio .copy),
    .thread false (.sendAudio .sendto), .deliver false 0 true .audioPlayback]

theorem serves_run_audioRun : ∃ s,
    (machine pairAddr).run (fun _ => .init .zero) audioRun = some s ∧
      (s false).threads.shared.peerList = [pairAddr true] ∧
      (s true).deliveries.map Delivery.loop = [.audioPlayback] ∧
      Serves (KeySort.insertion _) pairAddr s true := by
  have hplaces : ((machine pairAddr).run (fun _ => Station.init .zero) audioRun).map (fun s =>
      ((s false).threads.shared.peerList, (s true).deliveries.map Delivery.loop)) =
        some ([pairAddr true], [.audioPlayback]) := by decide +kernel
  obtain ⟨s, hrun, hs⟩ := Option.map_eq_some_iff.mp hplaces
  obtain ⟨hpeers, hloops⟩ := Prod.mk.inj hs
  exact ⟨s, hrun, hpeers, hloops, serves_run _ hrun true⟩

end Runs

end Network

end MediaStream.OnlineAV
