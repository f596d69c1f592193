import MediaStream.OnlineTracks.Process

/-!
`UDPconn1` and `UDPconn2` talking to each other. A datagram that has been sent
may arrive late, never or several times. What `snd_pcm_recover` returns when it
has recovered is taken for a number of frames, so the next datagram is empty, and
`play_audio` takes an empty datagram for the end of the stream.
-/

namespace MediaStream.OnlineTracks

open Lib

inductive Side where
  | conn1
  | conn2
  deriving DecidableEq

def Side.config : Side → Config
  | conn1 => udpconn1
  | conn2 => udpconn2

def Side.other : Side → Side
  | conn1 => conn2
  | conn2 => conn1

/-- The remote address of the one program is that of the other. -/
def Config.SendsTo (a b : Config) : Prop := a.port2 = b.port1 ∧ a.client2Ip = b.client1Ip

instance (a b : Config) : Decidable (a.SendsTo b) := inferInstanceAs (Decidable (_ ∧ _))

abbrev Conversation := Side → Process

namespace Conversation

def init (buffer : Side → Buffer) : Conversation := fun i => .init (buffer i)

def sentTo (s : Conversation) (i : Side) : List Payload :=
  [Side.conn1, Side.conn2].flatMap fun j => if j.config.SendsTo i.config then (s j).sent else []

def step (s : Conversation) : Side × Act → Option Conversation
  | (i, .playAudio (.recv payload)) =>
    if payload ∈ s.sentTo i then
      ((s i).step (.playAudio (.recv payload))).map (Function.update s i)
    else none
  | (i, a) => ((s i).step a).map (Function.update s i)

def machine : Machine Conversation (Side × Act) := ⟨step⟩

end Conversation

/-- No socket call fails, no SIGINT arrives, and every error of a sound card is
recovered from. -/
def Act.regular : Act → Bool
  | audioCap .recoverError | audioCap .sendError => false
  | playAudio .recvError | playAudio .writeError | playAudio .prepareError => false
  | sigint => false
  | _ => true

def Act.framesOnly : Act → Bool
  | audioCap .recover => false
  | audioCap (.capture audio) => audio ≠ []
  | _ => true

section Steps

variable {s next : Conversation} {i : Side} {a : Act}

theorem sentTo_eq (s : Conversation) (i : Side) : s.sentTo i = (s i.other).sent := by
  have h : ∀ j : Side, j.config.SendsTo i.config ↔ j = i.other := by
    intro j
    cases i <;> cases j <;> decide
  cases i <;> simp [Conversation.sentTo, h, Side.other]

theorem conversation_step (h : Conversation.machine.step s (i, a) = some next) :
    ∃ p, Process.machine.step (s i) a = some p ∧ Function.update s i p = next ∧
      ∀ payload, a = .playAudio (.recv payload) → payload ∈ (s i.other).sent := by
  change s.step (i, a) = some next at h
  unfold Conversation.step at h
  split at h
  · next j payload hact =>
    obtain ⟨rfl, rfl⟩ := Prod.mk.inj hact
    rw [Option.ite_none_right_eq_some, Option.map_eq_some_iff, sentTo_eq] at h
    obtain ⟨hmem, p, hp, hnext⟩ := h
    refine ⟨p, hp, hnext, ?_⟩
    rintro _ ⟨⟩
    exact hmem
  · next j b hother hact =>
    obtain ⟨rfl, rfl⟩ := Prod.mk.inj hact
    obtain ⟨p, hp, hnext⟩ := Option.map_eq_some_iff.mp h
    exact ⟨p, hp, hnext, fun payload ha => (hother payload ha).elim⟩

/-- In a regular run one branch sets the flag. -/
theorem silentStop_iff (ha : a.regular = true) :
    a.silentStop = true ↔ a = .playAudio (.recv []) := by
  cases a with
  | audioCap a => cases a <;> simp_all [Act.regular, Act.silentStop, AudioCapAct.stops]
  | playAudio a => cases a <;> simp_all [Act.regular, Act.silentStop, PlayAudioAct.stops]
  | _ => simp [Act.silentStop]

end Steps

section Runs

/-- The runs of the two programs that the sound cards alone disturb. -/
def regularConversation : Machine Conversation (Side × Act) :=
  Conversation.machine.restrict fun a => a.2.regular

variable {actions : List (Side × Act)}

theorem flags_step {s next : Conversation} {a : Side × Act}
    (hclear : ∀ i, (s i).stopStreaming = false)
    (hstep : regularConversation.step s a = some next) :
    (∀ i, (next i).stopStreaming = false) ↔ a.2 ≠ .playAudio (.recv []) := by
  obtain ⟨i, a⟩ := a
  obtain ⟨hregular, hstep⟩ := Machine.restrict_step.mp hstep
  obtain ⟨p, hp, rfl, -⟩ := conversation_step hstep
  have hsigint : a ≠ .sigint := by
    rintro rfl
    cases hregular
  have hflag : p.stopStreaming = a.silentStop := by
    rw [stopStreaming_step hp hsigint, hclear i, Bool.false_or]
  have hkept : (∀ j, (Function.update s i p j).stopStreaming = false) ↔
      p.stopStreaming = false := by
    rw [Function.forall_update_iff s fun _ q => q.stopStreaming = false]
    exact and_iff_left fun j _ => hclear j
  rw [hkept, hflag, ← Bool.not_eq_true, silentStop_iff hregular]

/-- `stop_streaming` stays false on both sides exactly as long as `recvfrom`
hands out no empty datagram. -/
theorem stopStreaming_stays_false_iff (buffer : Side → Buffer) (actions : List (Side × Act))
    (finish : Conversation)
    (hrun : regularConversation.run (Conversation.init buffer) actions = some finish) :
    regularConversation.Throughout (fun s => ∀ i, (s i).stopStreaming = false)
        (Conversation.init buffer) actions ↔
      ∀ i, (i, .playAudio (.recv [])) ∉ actions := by
  have hiff := Machine.throughout_iff_respects_of_step (M := regularConversation)
    (Q := fun s => ∀ i, (s i).stopStreaming = false)
    (P := fun _ a => a.2 ≠ .playAudio (.recv []))
    (fun s a next hclear hstep => flags_step hclear hstep) (fun _ => rfl) hrun
  rw [hiff, Machine.respects_iff_forall_mem hrun]
  constructor
  · intro h i hmem
    exact h _ hmem rfl
  · rintro h ⟨i, a⟩ hmem rfl
    exact h i hmem

/-- Nothing empty has been sent or is about to be. -/
def NothingEmpty (s : Conversation) : Prop :=
  ∀ i, [] ∉ (s i).sent ∧ (s i).audioCap ≠ .send 0

theorem nothingEmpty_step {s next : Conversation} {a : Side × Act} (hs : NothingEmpty s)
    (ha : a.2.framesOnly = true) (hstep : Conversation.machine.step s a = some next) :
    NothingEmpty next ∧ a.2 ≠ .playAudio (.recv []) := by
  obtain ⟨i, a⟩ := a
  obtain ⟨p, hp, rfl, hdelivered⟩ := conversation_step hstep
  constructor
  · apply (Function.forall_update_iff s fun _ q => [] ∉ q.sent ∧ q.audioCap ≠ .send 0).mpr
    refine ⟨⟨?_, ?_⟩, fun j _ => hs j⟩
    · intro hsent
      exact (sent_nil_step hp hsent).elim (hs i).1 (hs i).2
    · intro hsend
      rcases send_zero_step hp hsend with hold | rfl | rfl
      · exact (hs i).2 hold
      · cases ha
      · simp [Act.framesOnly] at ha
  · intro hrecv
    exact (hs i.other).1 (hdelivered [] hrecv)

/-- The flags stay false where every read returns frames: only a recovered error,
or a read of no frames, gets to the other side. -/
theorem stopStreaming_false_of_frames (buffer : Side → Buffer)
    (hframes : ∀ a ∈ actions, a.2.framesOnly = true) :
    regularConversation.Throughout (fun s => ∀ i, (s i).stopStreaming = false)
      (Conversation.init buffer) actions := by
  apply Machine.throughout_of_steps
    (I := fun s => (∀ i, (s i).stopStreaming = false) ∧ NothingEmpty s) _ _ _ hframes
  · intro s a next hs ha hstep
    obtain ⟨hkept, hnot⟩ := nothingEmpty_step hs.2 ha (Machine.restrict_step.mp hstep).2
    exact ⟨(flags_step hs.1 hstep).mpr hnot, hkept⟩
  · intro s hs
    exact hs.1
  · exact ⟨fun _ => rfl, fun _ => ⟨nofun, nofun⟩⟩

/-- The sound card of `UDPconn1` overruns once and recovers. -/
def overrun : List (Side × Act) :=
  [(.conn1, .main), (.conn2, .main), (.conn2, .main), (.conn2, .playAudio .openPlayback),
    (.conn2, .playAudio .test), (.conn1, .audioCap .openCapture), (.conn1, .audioCap .test),
    (.conn1, .audioCap .captureError), (.conn1, .audioCap .recover), (.conn1, .audioCap .send),
    (.conn2, .playAudio (.recv []))]

theorem overrun_stops :
    ∃ s, regularConversation.run (Conversation.init fun _ => .zero) overrun = some s ∧
      (s .conn2).stopStreaming = true :=
  ⟨_, rfl, rfl⟩

theorem stopStreaming_stays_false_iff_overrun :
    ¬regularConversation.Throughout (fun s => ∀ i, (s i).stopStreaming = false)
      (Conversation.init fun _ => .zero) overrun := by
  obtain ⟨s, hrun, -⟩ := overrun_stops
  rw [stopStreaming_stays_false_iff _ _ _ hrun]
  intro h
  exact h .conn2 (by simp [overrun])

/-- A recovered overrun of `UDPconn1` stops `UDPconn2`. -/
theorem recovered_error_stops_peer :
    ∃ s, regularConversation.Reaches (Conversation.init fun _ => .zero) s ∧
      (s .conn2).stopStreaming = true := by
  obtain ⟨s, hrun, hstop⟩ := overrun_stops
  exact ⟨s, ⟨overrun, hrun⟩, hstop⟩

end Runs

end MediaStream.OnlineTracks
