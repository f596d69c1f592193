import MediaStream.OnlineAV.Program

/-!
The end of a node. `main` clears `running` and joins the six threads, but the
three that receive test `running` only between two datagrams and block in `recv`
without a timeout. What still wakes them up is a datagram in flight, or one that
the node sends to itself.
-/

namespace MediaStream.OnlineAV

open Lib

inductive SendLoop where
  | hello
  | audio
  | video
  deriving DecidableEq

namespace Program

variable (own : SockaddrIn)

/-- The loop is past its test of `running` and may send to the node. -/
def MaySend (s : Program) : SendLoop → Prop
  | .hello => s.sendHello = .sendto
  | .audio => s.audio = .readi ∧ own ∈ s.node.peerList
  | .video => s.video.sends = true ∧ own ∈ s.node.peerList

/-- No datagram is in flight to the node and none can be sent to it. -/
def Silent (s : Program) : Prop := s.inFlight = [] ∧ ∀ l, ¬s.MaySend own l

/-- A receiver waits for a datagram that does not come. -/
def Hung (s : Program) : Prop :=
  s.running = false ∧ s.Silent own ∧ ∃ loop, s.receiver loop = .recv

end Program

def Act.stops : Act → Bool
  | enter | imdecode true | audioDeviceError | openCameraError => true
  | _ => false

def Act.ofSender : Act → Bool
  | testReceiver _ | recv .. | recvError _ | imdecode _ | remote .. | lose _ | enter | join => false
  | _ => true

def Act.wakes : Act → Option Loop
  | recv loop _ => some loop
  | _ => none

namespace Program

variable (own : SockaddrIn)

/-- The loop that the step takes back to its test of `running`, with nothing sent
to the node. -/
def ends (s : Program) : Act → Option SendLoop
  | .sendHello false => some .hello
  | .sendAudio _ false | .audioError | .audioDeviceError => some .audio
  | .readError => some .video
  | .readFrame frame => if (frame.fragments s.frameSeq).isEmpty then some .video else none
  | .sendFragment false => match s.video with
    | .sendto [_] => some .video
    | _ => none
  | _ => none

/-- A step that leaves the sending loops and `peer_List` alone. -/
theorem maySend_iff_of_same {s after : Program} {a : Act} {l : SendLoop}
    (hhello : after.sendHello = s.sendHello) (haudio : after.audio = s.audio)
    (hvideo : after.video = s.video) (hlist : after.node.peerList = s.node.peerList)
    (hends : s.ends a = none) :
    after.MaySend own l ↔ s.MaySend own l ∧ s.ends a ≠ some l := by
  have hsame : after.MaySend own l ↔ s.MaySend own l := by
    cases l <;> simp only [MaySend, hhello, haudio, hvideo, hlist]
  rw [hends, hsame]
  exact (and_iff_left nofun).symm

/-- `LookForPeers` gets a greeting that the node itself has sent. -/
def OwnGreeting (loop : Loop) (d : SockaddrIn × Datagram) : Prop :=
  loop = .lookForPeers ∧ d.1 = own ∧ readsHello d.2.bytes = true

def PastTest (s : Program) : Prop := s.audio = .readi ∨ s.video.sends = true

/-- The step uses up the last datagram, or the last chance of one: it takes or
loses the only one in flight, ends the only pass that would send one, or clears
`running` when there is neither. -/
def Exhausts (s : Program) : Act → Prop
  -- Its own greeting makes the node a peer, which loops past their test may send to.
  | .recv loop _ => s.inFlight.length = 1 ∧ (∀ l, ¬s.MaySend own l) ∧
    ∀ d ∈ s.inFlight, OwnGreeting own loop d → ¬s.PastTest
  | .lose _ => s.inFlight.length = 1 ∧ ∀ l, ¬s.MaySend own l
  | a => (a.stops = true ∨ (s.ends a).isSome) ∧ s.inFlight = [] ∧
    ∀ l, s.ends a ≠ some l → ¬s.MaySend own l

/-- A datagram that is put in flight is a chance more. -/
theorem not_exhausts_of_arrives {s : Program} {a : Act}
    (ha : a = .sendHello true ∨ (∃ samples, a = .sendAudio samples true) ∨
      a = .sendFragment true ∨ ∃ source d, a = .remote source d) : ¬s.Exhausts own a := by
  rcases ha with rfl | ⟨samples, rfl⟩ | rfl | ⟨source, d, rfl⟩ <;>
    simp [Exhausts, Act.stops, ends]

/-- `running` is false after the step, nothing will arrive any more, and a
receiver that has not just got a datagram waits for one. -/
def HangsAfter (s : Program) (a : Act) : Prop :=
  (s.running = false ∨ a.stops = true) ∧ s.Exhausts own a ∧
    ∃ loop, s.receiver loop = .recv ∧ a.wakes ≠ some loop

/-- A step that hands no datagram over and puts none in flight. -/
structure Kept (s : Program) (a : Act) (after : Program) : Prop where
  running : after.running = (s.running && !a.stops)
  inFlight : after.inFlight = s.inFlight
  send : after.running = false →
    ∀ l, after.MaySend own l ↔ s.MaySend own l ∧ s.ends a ≠ some l
  receiver : after.running = false → ∀ loop, after.receiver loop = .recv ↔ s.receiver loop = .recv

/-- A step that puts a datagram in flight. -/
structure Sent (s : Program) (a : Act) (after : Program) : Prop where
  inFlight : ∃ d, after.inFlight = s.inFlight ++ [d]
  exhausts : ¬s.Exhausts own a
  source : (∃ source d, a = .remote source d) ∨ ∃ l, s.MaySend own l

end Program

section Steps

variable {S : FragmentSort} {own : SockaddrIn} {s next : Program} {a : Act}

/-- Whether anybody sends to the node after a datagram has been dealt with. -/
theorem maySend_receive {loop : Loop} {d : SockaddrIn × Datagram} :
    (∃ l, { s with node := (s.node.receive S ⟨loop, d.1, d.2⟩).1 }.MaySend own l) ↔
      (∃ l, s.MaySend own l) ∨ Program.OwnGreeting own loop d ∧ s.PastTest := by
  have hknown : own ∈ (s.node.receive S ⟨loop, d.1, d.2⟩).1.peerList ↔
      own ∈ s.node.peerList ∨ Program.OwnGreeting own loop d := by
    cases loop with
    | lookForPeers =>
      simp only [Node.receive, mem_lookForPeers, Program.OwnGreeting, true_and]
      exact or_congr_right (and_comm.trans (and_congr_left' eq_comm))
    | audioPlayback => simp [Node.receive, Node.audioPlayback, Program.OwnGreeting]
    | videoPlayback => simp [Node.receive, Program.OwnGreeting]
  constructor
  · rintro ⟨l, hmay⟩
    cases l with
    | hello => exact Or.inl ⟨.hello, hmay⟩
    | audio =>
      refine (hknown.mp hmay.2).imp (fun hmem => ⟨.audio, hmay.1, hmem⟩) fun hown => ?_
      exact ⟨hown, Or.inl hmay.1⟩
    | video =>
      refine (hknown.mp hmay.2).imp (fun hmem => ⟨.video, hmay.1, hmem⟩) fun hown => ?_
      exact ⟨hown, Or.inr hmay.1⟩
  · rintro (⟨l, hmay⟩ | ⟨hown, haudio | hvideo⟩)
    · cases l with
      | hello => exact ⟨.hello, hmay⟩
      | audio => exact ⟨.audio, hmay.1, hknown.mpr (Or.inl hmay.2)⟩
      | video => exact ⟨.video, hmay.1, hknown.mpr (Or.inl hmay.2)⟩
    · exact ⟨.audio, haudio, hknown.mpr (Or.inr hown)⟩
    · exact ⟨.video, hvideo, hknown.mpr (Or.inr hown)⟩

theorem hung_of_kept (hnot : ¬s.Hung own) (hkept : s.Kept own a next)
    (hwakes : a.wakes = none) (hlose : ∀ i, a ≠ .lose i) :
    next.Hung own ↔ s.HangsAfter own a := by
  have hexhausts : s.Exhausts own a ↔ (a.stops = true ∨ (s.ends a).isSome) ∧
      s.inFlight = [] ∧ ∀ l, s.ends a ≠ some l → ¬s.MaySend own l := by
    cases a with
    | recv loop i => cases hwakes
    | lose i => exact absurd rfl (hlose i)
    | _ => rfl
  have hoff : next.running = false ↔ s.running = false ∨ a.stops = true := by
    rw [hkept.running, Bool.and_eq_false_iff, Bool.not_eq_false']
  unfold Program.HangsAfter
  rw [hexhausts, hwakes, ← hoff]
  constructor
  · rintro ⟨hstopped, ⟨hempty, hnone⟩, loop, hloop⟩
    rw [hkept.inFlight] at hempty
    have hothers : ∀ l, s.ends a ≠ some l → ¬s.MaySend own l := by
      intro l hl hmay
      exact hnone l ((hkept.send hstopped l).mpr ⟨hmay, hl⟩)
    have hblocked := (hkept.receiver hstopped loop).mp hloop
    refine ⟨hstopped, ⟨?_, hempty, hothers⟩, loop, hblocked, nofun⟩
    by_contra hneither
    rw [not_or, Bool.not_eq_true, Option.not_isSome_iff_eq_none] at hneither
    apply hnot
    refine ⟨(hoff.mp hstopped).resolve_right (by simp [hneither.1]), ⟨hempty, fun l => ?_⟩,
      loop, hblocked⟩
    exact hothers l (by simp [hneither.2])
  · rintro ⟨hstopped, ⟨-, hempty, hothers⟩, loop, hblocked, -⟩
    refine ⟨hstopped, ⟨hkept.inFlight.trans hempty, fun l hmay => ?_⟩, loop,
      (hkept.receiver hstopped loop).mpr hblocked⟩
    obtain ⟨hmay, hl⟩ := (hkept.send hstopped l).mp hmay
    exact hothers l hl hmay

theorem eraseIdx_eq_nil {β : Type*} {l : List β} {i : Nat} (hi : i < l.length) :
    l.eraseIdx i = [] ↔ l.length = 1 := by
  rw [← List.length_eq_zero_iff, List.length_eraseIdx_of_lt hi]
  omega

theorem hung_of_sent (hsent : s.Sent own a next) : next.Hung own ↔ s.HangsAfter own a := by
  obtain ⟨d, hinFlight⟩ := hsent.inFlight
  constructor
  · rintro ⟨-, ⟨hempty, -⟩, -⟩
    rw [hinFlight] at hempty
    exact absurd hempty (List.append_ne_nil_of_right_ne_nil _ (List.cons_ne_nil d []))
  · rintro ⟨-, hexhausted, -⟩
    exact absurd hexhausted hsent.exhausts

theorem hung_recv {loop : Loop} {i : Nat} (hstep : Program.Step S own s (.recv loop i) next) :
    next.Hung own ↔ s.HangsAfter own (.recv loop i) := by
  cases hstep with | recv _ _ d hpc hd =>
  obtain ⟨hi, hget⟩ := List.getElem?_eq_some_iff.mp hd
  have hawake : Program.afterRecv (s.node.receive S ⟨loop, d.1, d.2⟩).2 ≠ .recv := by
    unfold Program.afterRecv
    split <;> simp
  have hblocked : (∃ other, Function.update s.receiver loop
      (Program.afterRecv (s.node.receive S ⟨loop, d.1, d.2⟩).2) other = .recv) ↔
      ∃ other, s.receiver other = .recv ∧ (Act.recv loop i).wakes ≠ some other := by
    apply exists_congr
    intro other
    by_cases hother : other = loop
    · simp [hother, hawake, Act.wakes]
    · simp [hother, Act.wakes, Ne.symm hother]
  have honly : s.inFlight.length = 1 → ∀ e ∈ s.inFlight, e = d := by
    intro hlen e he
    obtain ⟨e', hsingle⟩ := List.length_eq_one_iff.mp hlen
    have hmem := hget ▸ List.getElem_mem hi
    simp only [hsingle, List.mem_singleton] at he hmem
    rw [he, hmem]
  have hsilent : s.inFlight.length = 1 →
      ((∀ l, ¬{ s with node := (s.node.receive S ⟨loop, d.1, d.2⟩).1 }.MaySend own l) ↔
        (∀ l, ¬s.MaySend own l) ∧
          ∀ e ∈ s.inFlight, Program.OwnGreeting own loop e → ¬s.PastTest) := by
    intro hlen
    rw [← not_exists, maySend_receive, not_or, not_exists, not_and]
    refine and_congr_right fun _ => ⟨fun h e he => ?_, fun h => h d (hget ▸ List.getElem_mem hi)⟩
    rwa [honly hlen e he]
  unfold Program.Hung Program.Silent Program.HangsAfter
  rw [hblocked, eraseIdx_eq_nil hi]
  constructor
  · rintro ⟨hoff, ⟨hlen, hnone⟩, hrecv⟩
    exact ⟨Or.inl hoff, ⟨hlen, (hsilent hlen).mp hnone⟩, hrecv⟩
  · rintro ⟨hoff, ⟨hlen, hnone⟩, hrecv⟩
    exact ⟨hoff.resolve_right nofun, ⟨hlen, (hsilent hlen).mpr hnone⟩, hrecv⟩

theorem hung_lose {i : Nat} (hstep : Program.Step S own s (.lose i) next) :
    next.Hung own ↔ s.HangsAfter own (.lose i) := by
  cases hstep with | lose _ hi =>
  unfold Program.Hung Program.Silent Program.HangsAfter
  rw [eraseIdx_eq_nil hi]
  constructor
  · rintro ⟨hoff, hsilent, loop, hloop⟩
    exact ⟨Or.inl hoff, hsilent, loop, hloop, nofun⟩
  · rintro ⟨hoff, hsilent, loop, hloop, -⟩
    exact ⟨hoff.resolve_right nofun, hsilent, loop, hloop⟩

/-- What is sent to the peers reaches the node or leaves `inFlight` as it is. -/
theorem sentToPeers_cases (own : SockaddrIn) (s : Program) (arrives : Bool) (d : Datagram) :
    arrives = true ∧ own ∈ s.node.peerList ∧
        s.sentToPeers own arrives d = s.inFlight ++ [(own, d)] ∨
      (arrives = true → own ∉ s.node.peerList) ∧ s.sentToPeers own arrives d = s.inFlight := by
  unfold Program.sentToPeers
  by_cases harrives : arrives = true ∧ own ∈ s.node.peerList
  · exact Or.inl ⟨harrives.1, harrives.2, if_pos harrives⟩
  · exact Or.inr ⟨fun h hmem => harrives ⟨h, hmem⟩, if_neg harrives⟩

/-- A step by which a receiver gets to its next call without a datagram. -/
theorem receiver_step (ha : (∃ loop, a = .testReceiver loop) ∨ ∃ esc, a = .imdecode esc)
    (hstep : Program.Step S own s a next) : s.Kept own a next := by
  rcases ha with ⟨loop, rfl⟩ | ⟨esc, rfl⟩
  · cases hstep with | testReceiver _ hpc =>
    refine ⟨by simp [Act.stops, Program.setReceiver], rfl, fun _ l => ?_, fun hoff other => ?_⟩
    · exact Program.maySend_iff_of_same own rfl rfl rfl rfl rfl
    · change s.running = false at hoff
      by_cases hother : other = loop
      · simp [Program.setReceiver, hother, hpc, hoff]
      · simp [Program.setReceiver, hother]
  · cases hstep with | imdecode _ hpc =>
    refine ⟨by cases esc <;> simp [Act.stops], rfl, fun _ l => ?_, fun _ other => ?_⟩
    · exact Program.maySend_iff_of_same own rfl rfl rfl rfl rfl
    · by_cases hother : other = .videoPlayback
      · simp [Program.setReceiver, hother, hpc]
      · simp [Program.setReceiver, hother]

theorem main_step (ha : a = .enter ∨ a = .join) (hstep : Program.Step S own s a next) :
    s.Kept own a next := by
  have hnext : next.running = (s.running && !a.stops) ∧ ∃ pc,
      { s with running := next.running, main := pc } = next := by
    cases hstep with
    | enter hpc => exact ⟨(Bool.and_false _).symm, _, rfl⟩
    | join | joined => exact ⟨(Bool.and_true _).symm, _, rfl⟩
    | _ => simp at ha
  obtain ⟨hrunning, pc, hnext⟩ := hnext
  have hends : s.ends a = none := by rcases ha with rfl | rfl <;> rfl
  refine ⟨hrunning, hnext ▸ rfl, fun _ l => ?_, fun _ loop => by rw [← hnext]⟩
  rw [← hnext]
  exact Program.maySend_iff_of_same own rfl rfl rfl rfl hends

theorem sendHello_step {arrives : Bool}
    (hstep : Program.Step S own s (.sendHello arrives) next) :
    s.Kept own (.sendHello arrives) next ∨ s.Sent own (.sendHello arrives) next := by
  cases hstep with | sendHello _ hpc =>
  cases arrives with
  | true =>
    apply Or.inr
    exact ⟨⟨_, rfl⟩, Program.not_exhausts_of_arrives own (by simp), Or.inr ⟨.hello, hpc⟩⟩
  | false =>
    apply Or.inl
    refine ⟨by simp [Act.stops], rfl, fun _ l => ?_, fun _ _ => Iff.rfl⟩
    cases l <;> simp [Program.MaySend, Program.ends, hpc]

theorem sendAudio_step {samples : Samples} {arrives : Bool}
    (hstep : Program.Step S own s (.sendAudio samples arrives) next) :
    s.Kept own (.sendAudio samples arrives) next ∨
      s.Sent own (.sendAudio samples arrives) next := by
  cases hstep with | sendAudio _ _ hpc =>
  rcases sentToPeers_cases own s arrives (.audio s.sequence samples) with
    ⟨rfl, hmem, hsent⟩ | ⟨hunknown, hsame⟩
  · apply Or.inr
    exact ⟨⟨_, hsent⟩, Program.not_exhausts_of_arrives own (by simp),
      Or.inr ⟨.audio, hpc, hmem⟩⟩
  · apply Or.inl
    refine ⟨by simp [Act.stops], hsame, fun _ l => ?_, fun _ _ => Iff.rfl⟩
    cases arrives <;> cases l <;> simp_all [Program.MaySend, Program.ends]

theorem sendFragment_step {arrives : Bool}
    (hstep : Program.Step S own s (.sendFragment arrives) next) :
    s.Kept own (.sendFragment arrives) next ∨ s.Sent own (.sendFragment arrives) next := by
  cases hstep with | sendFragment _ fragment rest hpc =>
  rcases sentToPeers_cases own s arrives (.video fragment) with
    ⟨rfl, hmem, hsent⟩ | ⟨hunknown, hsame⟩
  · apply Or.inr
    exact ⟨⟨_, hsent⟩, Program.not_exhausts_of_arrives own (by simp),
      Or.inr ⟨.video, by simp [hpc, VideoRecandSend.sends], hmem⟩⟩
  · apply Or.inl
    refine ⟨by simp [Act.stops], hsame, fun _ l => ?_, fun _ _ => Iff.rfl⟩
    cases arrives <;> cases rest <;> cases l <;>
      simp_all [Program.MaySend, Program.ends, VideoRecandSend.sends]

/-- A step of a sending loop: a test of `running`, a pass that ends without a
datagram for the node, or a datagram put in flight. -/
theorem sender_step (ha : a.ofSender = true) (hstep : Program.Step S own s a next) :
    s.Kept own a next ∨ s.Sent own a next := by
  cases hstep with
  | sendHello arrives hpc => exact sendHello_step (S := S) (.sendHello arrives hpc)
  | sendAudio samples arrives hpc => exact sendAudio_step (S := S) (.sendAudio samples arrives hpc)
  | sendFragment arrives fragment rest hpc =>
    exact sendFragment_step (S := S) (.sendFragment arrives fragment rest hpc)
  | testHello hpc | testAudio hpc | testVideo hpc =>
    apply Or.inl
    refine ⟨by simp [Act.stops], rfl, fun hoff l => ?_, fun _ _ => Iff.rfl⟩
    change s.running = false at hoff
    cases l <;> simp [Program.MaySend, Program.ends, VideoRecandSend.sends, hoff, hpc]
  | readFrame frame hpc =>
    apply Or.inl
    refine ⟨by simp [Act.stops], rfl, fun _ l => ?_, fun _ _ => Iff.rfl⟩
    -- An empty frame has no fragments, and the pass is over.
    cases hfragments : frame.fragments s.frameSeq <;> cases l <;>
      simp [Program.MaySend, Program.ends, VideoRecandSend.sends, hpc, hfragments]
  | sleep hpc | audioError hpc | audioDeviceError hpc | openCamera hpc | openCameraError hpc
  | readError hpc | frameSent hpc =>
    apply Or.inl
    refine ⟨by simp [Act.stops], rfl, fun _ l => ?_, fun _ _ => Iff.rfl⟩
    cases l <;> simp [Program.MaySend, Program.ends, VideoRecandSend.sends, hpc]
  | _ => cases ha

/-- Every step but those that take something out of `inFlight`, and an error of
`recv`. -/
theorem kept_or_sent (hstep : Program.Step S own s a next) (hwakes : a.wakes = none)
    (hlose : ∀ i, a ≠ .lose i) (herror : ∀ loop, a ≠ .recvError loop) :
    s.Kept own a next ∨ s.Sent own a next := by
  cases a with
  | recv loop i => cases hwakes
  | lose i => exact absurd rfl (hlose i)
  | recvError loop => exact absurd rfl (herror loop)
  | testReceiver | imdecode => exact Or.inl (receiver_step (by simp) hstep)
  | enter | join => exact Or.inl (main_step (by simp) hstep)
  | remote source d =>
    cases hstep
    exact Or.inr ⟨⟨_, rfl⟩, Program.not_exhausts_of_arrives own (by simp),
      Or.inl ⟨source, d, rfl⟩⟩
  | _ => exact sender_step rfl hstep

theorem hung_recvError {loop : Loop} (hnot : ¬s.Hung own)
    (hstep : Program.Step S own s (.recvError loop) next) :
    next.Hung own ↔ s.HangsAfter own (.recvError loop) := by
  cases hstep with | recvError _ hpc =>
  constructor
  · rintro ⟨hoff, hsilent, -⟩
    exact absurd ⟨hoff, hsilent, loop, hpc⟩ hnot
  · rintro ⟨-, ⟨hnone, -⟩, -⟩
    simp [Act.stops, Program.ends] at hnone

theorem hung_step (hnot : ¬s.Hung own) (hstep : Program.Step S own s a next) :
    next.Hung own ↔ s.HangsAfter own a := by
  have hother (hwakes : a.wakes = none) (hlose : ∀ i, a ≠ .lose i)
      (herror : ∀ loop, a ≠ .recvError loop) : next.Hung own ↔ s.HangsAfter own a := by
    rcases kept_or_sent hstep hwakes hlose herror with hkept | hsent
    · exact hung_of_kept hnot hkept hwakes hlose
    · exact hung_of_sent hsent
  cases a with
  | recv loop i => exact hung_recv hstep
  | lose i => exact hung_lose hstep
  | recvError loop => exact hung_recvError hnot hstep
  | imdecode esc => exact hother (by cases esc <;> rfl) nofun nofun
  | _ => exact hother rfl nofun nofun

/-- What may still happen when no remote host sends and `recv` does not fail. -/
def Act.unaided : Act → Bool
  | remote _ _ | recvError _ => false
  | _ => true

/-- A receiver that hangs hangs for good. -/
theorem hung_forever (hs : s.Hung own) (ha : a.unaided = true)
    (hstep : Program.Step S own s a next) : next.Hung own := by
  obtain ⟨hoff, ⟨hempty, hnone⟩, loop, hloop⟩ := hs
  have hother (hwakes : a.wakes = none) (hlose : ∀ i, a ≠ .lose i)
      (herror : ∀ loop, a ≠ .recvError loop) : next.Hung own := by
    rcases kept_or_sent hstep hwakes hlose herror with hkept | hsent
    · have hstopped : next.running = false := by rw [hkept.running, hoff, Bool.false_and]
      refine ⟨hstopped, ⟨hkept.inFlight.trans hempty, fun l hmay => ?_⟩, loop,
        (hkept.receiver hstopped loop).mpr hloop⟩
      exact hnone l ((hkept.send hstopped l).mp hmay).1
    · rcases hsent.source with ⟨source, d, rfl⟩ | ⟨l, hmay⟩
      · cases ha
      · exact absurd hmay (hnone l)
  cases a with
  | recv loop i =>
    cases hstep with | recv _ _ d hpc hd => simp [hempty] at hd
  | lose i =>
    cases hstep with | lose _ hi => simp [hempty] at hi
  | recvError loop => cases ha
  | imdecode esc => exact hother (by cases esc <;> rfl) nofun nofun
  | _ => exact hother rfl nofun nofun

end Steps

section Join

variable {S : FragmentSort} {own : SockaddrIn} {s next : Program} {a : Act}

def Loop.thread : Loop → Thread
  | lookForPeers => .listen
  | audioPlayback => .playAudio
  | videoPlayback => .playVideo

/-- The threads that `main` has not joined. -/
def Main.unjoined : Main → List Thread
  | get => threads
  | join rest => rest
  | done => []

def Program.Joined (s : Program) : Prop :=
  ∀ loop : Loop, s.receiver loop ≠ .done → loop.thread ∈ s.main.unjoined

theorem returned_thread {loop : Loop} (h : s.returned loop.thread = true) :
    s.receiver loop = .done := by
  cases loop <;> exact of_decide_eq_true h

/-- A receiver moves on, and `main` stays where it is. -/
theorem joined_of_move (hs : s.Joined) {loop : Loop} {pc : Receiver} (hmain : next.main = s.main)
    (hpc : s.receiver loop ≠ .done)
    (hreceiver : next.receiver = Function.update s.receiver loop pc) : next.Joined := by
  intro other hother
  rw [hmain]
  by_cases hsame : other = loop
  · exact hs other (hsame ▸ hpc)
  · rw [hreceiver, Function.update_of_ne hsame] at hother
    exact hs other hother

theorem joined_step (hs : s.Joined) (hstep : Program.Step S own s a next) : next.Joined := by
  cases hstep with
  | testReceiver loop hpc | recvError loop hpc | recv loop i d hpc hd =>
    exact joined_of_move hs rfl (by simp [hpc]) rfl
  | imdecode esc hpc => exact joined_of_move hs rfl (by simp [hpc]) rfl
  | enter hpc | joined hpc =>
    intro loop hloop
    have hmem := hs loop hloop
    rwa [hpc] at hmem
  | join t rest hpc hreturned =>
    intro loop hloop
    have hmem := hs loop hloop
    rw [hpc] at hmem
    rcases List.mem_cons.mp hmem with rfl | hrest
    · exact absurd (returned_thread hreturned) hloop
    · exact hrest
  | _ => exact hs

theorem joined_init : Program.init.Joined := by
  intro loop _
  cases loop <;> simp [Program.init, Main.unjoined, Loop.thread, threads]

/-- A node with a receiver in `recv` has not returned from `main`. -/
theorem main_not_done (hs : s.Joined) (hhung : s.Hung own) : s.main ≠ .done := by
  intro hdone
  obtain ⟨-, -, loop, hloop⟩ := hhung
  have hmem := hs loop (by simp [hloop])
  rw [hdone] at hmem
  cases hmem

end Join

section Runs

variable {S : FragmentSort} {own : SockaddrIn} {actions : List Act} {start s finish : Program}

/-- `main` can join all its threads in exactly those runs in which, once `running`
is clear, no step uses up the last datagram, or the last chance of one, while
another receiver waits. -/
theorem shutdown_never_hangs_iff
    (hrun : (Program.machine S own).run Program.init actions = some finish) :
    (Program.machine S own).Throughout (fun s => ¬s.Hung own) Program.init actions ↔
      (Program.machine S own).Respects (fun s a => ¬s.HangsAfter own a) Program.init
        actions := by
  apply Machine.throughout_iff_respects_of_step _ _ hrun
  · intro s a next hs hstep
    rw [hung_step hs (Program.step_cases hstep)]
  · rintro ⟨hrunning, -⟩
    cases hrunning

/-- After that `main` never returns, unless a remote host sends again. -/
theorem never_returns_of_hung (hreach : (Program.machine S own).Reaches Program.init s)
    (hs : s.Hung own) (hlater : ((Program.machine S own).restrict Act.unaided).Reaches s finish) :
    finish.main ≠ .done := by
  have hhung : finish.Hung own := by
    apply hlater.preserves (P := fun s => s.Hung own) _ hs
    intro s a next hs hstep
    obtain ⟨ha, hstep⟩ := Machine.restrict_step.mp hstep
    exact hung_forever hs ha (Program.step_cases hstep)
  have hjoined : finish.Joined := by
    have hkeeps : ∀ s a next, s.Joined →
        (Program.machine S own).step s a = some next → next.Joined :=
      fun _ _ _ hs hstep => joined_step hs (Program.step_cases hstep)
    exact hlater.of_restrict.preserves hkeeps (hreach.preserves hkeeps joined_init)
  exact main_not_done hjoined hhung

/-- A HELLO has come back and has been received; Enter is pressed before the next
one is sent. -/
def enterRun : List Act :=
  [.testReceiver .lookForPeers, .testReceiver .audioPlayback, .testReceiver .videoPlayback,
    .testHello, .sendHello true, .recv .lookForPeers 0, .testReceiver .lookForPeers, .enter]

theorem enterRun_hung : ∃ s, (Program.machine (Lib.KeySort.insertion _) ⟨0, 12345⟩).run
    Program.init enterRun = some s ∧ s.Hung ⟨0, 12345⟩ ∧ ∀ loop, s.receiver loop = .recv := by
  refine ⟨_, rfl, ⟨rfl, ⟨rfl, ?_⟩, .lookForPeers, rfl⟩, ?_⟩
  · intro l hmay
    cases l with
    | hello => exact absurd (show SendHello.sleep = .sendto from hmay) nofun
    | audio => exact absurd (show AudioRecAndSend.test = .readi from hmay.1) nofun
    | video => exact absurd (show false = true from hmay.1) nofun
  · intro loop
    cases loop <;> rfl

theorem shutdown_never_hangs_iff_enterRun :
    ¬(Program.machine (Lib.KeySort.insertion _) ⟨0, 12345⟩).Respects
      (fun s a => ¬s.HangsAfter ⟨0, 12345⟩ a) Program.init enterRun := by
  intro h
  obtain ⟨s, hrun, hhung, -⟩ := enterRun_hung
  exact ((shutdown_never_hangs_iff hrun).mpr h).last hrun hhung

/-- All three receivers hang after Enter, and `main` with them. -/
theorem shutdown_hangs :
    ∃ s, (Program.machine (Lib.KeySort.insertion _) ⟨0, 12345⟩).Reaches Program.init s ∧
      s.Hung ⟨0, 12345⟩ ∧ (∀ loop, s.receiver loop = .recv) ∧
      ∀ finish, ((Program.machine (Lib.KeySort.insertion _) ⟨0, 12345⟩).restrict
        Act.unaided).Reaches s finish → finish.main ≠ .done := by
  obtain ⟨s, hrun, hhung, hreceivers⟩ := enterRun_hung
  exact ⟨s, ⟨enterRun, hrun⟩, hhung, hreceivers,
    fun _ => never_returns_of_hung ⟨enterRun, hrun⟩ hhung⟩

end Runs

end MediaStream.OnlineAV
