import MediaStream.Lib.CString
import MediaStream.Lib.Mutex
import MediaStream.OnlineAV.Program

/-!
The three threads that share `peer_List`, each access a step of its own:
`LookForPeers` extends it, `AudioRecAndSend` copies it, and `VideoRecandSend`
walks over it once for every fragment, all of them under `peer_mute`. Of the
other threads it matters only that one may clear `running` at any time.
-/

namespace MediaStream.OnlineAV

open Lib Lib.Bytes

structure Shared where
  running : Bool
  peerList : List SockaddrIn
  peerMute : Option Thread

inductive ListenPoint where
  | test
  | recvfrom
  /-- `Audio_rec` bytes have been received, at least one. -/
  | strcmp (audioRec : Nat)
  | lock
  | findIf
  | unlock
  /-- A byte outside `buffer` has been accessed. -/
  | overrun
  | done

def ListenPoint.holds : ListenPoint → Bool
  | findIf | unlock => true
  | _ => false

structure Listener where
  point : ListenPoint
  /-- `char buffer[1024]`, used again for every datagram. -/
  buffer : Buffer (helloBufferSize + 1)
  peerAddr : SockaddrIn

inductive ListenAct where
  | test
  /-- The datagram and its source, or an error. -/
  | recvfrom (result : Option (SockaddrIn × List UInt8))
  | strcmp
  | lock
  | findIf
  | unlock

namespace Listener

def helloLiteral : List UInt8 := helloBytes ++ [0]

def received (l : Listener) (source : SockaddrIn) (bytes : List UInt8) : Listener :=
  match l.buffer.write 0 bytes with
  | none => { l with point := .overrun }
  | some buffer =>
    { point := if 0 < bytes.length then .strcmp bytes.length else .test
      buffer := buffer
      peerAddr := source }

/-- `buffer[Audio_rec] = '\0'` and the comparison. -/
def compared (l : Listener) (audioRec : Nat) : Listener :=
  match l.buffer.write audioRec [0] with
  | none => { l with point := .overrun }
  | some buffer =>
    match strcmp buffer.bytes helloLiteral with
    | none => { l with point := .overrun }
    | some (equal, _) => { l with point := if equal then .lock else .test, buffer := buffer }

def register (source : SockaddrIn) (peerList : List SockaddrIn) : List SockaddrIn :=
  if source ∈ peerList then peerList else peerList ++ [source]

def step (s : Shared) (l : Listener) : ListenAct → Option (Shared × Listener)
  | .test => match l.point with
    | .test => some (s, { l with point := if s.running then .recvfrom else .done })
    | _ => none
  | .recvfrom none => match l.point with
    | .recvfrom => some (s, { l with point := .test })
    | _ => none
  | .recvfrom (some (source, payload)) => match l.point with
    | .recvfrom => some (s, l.received source (payload.take helloBufferSize))
    | _ => none
  | .strcmp => match l.point with
    | .strcmp audioRec => some (s, l.compared audioRec)
    | _ => none
  | .lock => match l.point with
    | .lock =>
      if s.peerMute = none then
        some ({ s with peerMute := some .listen }, { l with point := .findIf })
      else none
    | _ => none
  | .findIf => match l.point with
    | .findIf =>
      some ({ s with peerList := register l.peerAddr s.peerList }, { l with point := .unlock })
    | _ => none
  | .unlock => match l.point with
    | .unlock => some ({ s with peerMute := none }, { l with point := .test })
    | _ => none

end Listener

inductive AudioPoint where
  | test
  | readi
  | lock
  | copy
  /-- The part of `peersList` that the packet has not been sent to. -/
  | sendto (peersList : List SockaddrIn)
  | done

def AudioPoint.holds : AudioPoint → Bool
  | copy | sendto _ => true
  | _ => false

structure AudioSender where
  point : AudioPoint
  packet : AudioPacket
  sequence : UInt32

inductive AudioAct where
  | test
  | readi (samples : Samples)
  /-- `snd_pcm_readi` fails; `snd_pcm_prepare` does not, or does. -/
  | readiError (prepared : Bool)
  | lock
  | copy
  | sendto
  | unlock

namespace AudioSender

def step (s : Shared) (t : AudioSender) : AudioAct → Option (Shared × AudioSender)
  | .test => match t.point with
    | .test => some (s, { t with point := if s.running then .readi else .done })
    | _ => none
  | .readi samples => match t.point with
    | .readi => some (s, {
        point := .lock
        packet := { t.packet with aSequence := t.sequence, audioData := samples }
        sequence := t.sequence + 1 })
    | _ => none
  | .readiError prepared => match t.point with
    | .readi =>
      if prepared then some (s, { t with point := .test })
      else some ({ s with running := false }, { t with point := .done })
    | _ => none
  | .lock => match t.point with
    | .lock =>
      if s.peerMute = none then
        some ({ s with peerMute := some .sendAudio }, { t with point := .copy })
      else none
    | _ => none
  | .copy => match t.point with
    | .copy => some (s, { t with point := .sendto s.peerList })
    | _ => none
  | .sendto => match t.point with
    | .sendto (_ :: rest) => some (s, { t with point := .sendto rest })
    | _ => none
  | .unlock => match t.point with
    | .sendto [] => some ({ s with peerMute := none }, { t with point := .test })
    | _ => none

end AudioSender

inductive VideoPoint where
  | openCamera
  | test
  | read
  /-- In the fragment loop, with the fragments that are left. -/
  | fragments (rest : List VideoFragment)
  /-- In the loop over `peer_List`, with its iterator. -/
  | sendto (fragment : VideoFragment) (rest : List VideoFragment) (iterator : Nat)
  | done

def VideoPoint.holds : VideoPoint → Bool
  | sendto .. => true
  | _ => false

structure VideoSender where
  point : VideoPoint
  frameSeq : UInt32

inductive VideoAct where
  | openCamera (opened : Bool)
  | test
  /-- The encoded frame; none if `cap.read` or `cv::imencode` fails. -/
  | read (frame : Option EncFrame)
  | lock
  | sendto
  | unlock
  | frameSent

namespace VideoSender

def step (s : Shared) (t : VideoSender) : VideoAct → Option (Shared × VideoSender)
  | .openCamera opened => match t.point with
    | .openCamera =>
      if opened then some (s, { t with point := .test })
      else some ({ s with running := false }, { t with point := .done })
    | _ => none
  | .test => match t.point with
    | .test => some (s, { t with point := if s.running then .read else .done })
    | _ => none
  | .read none => match t.point with
    | .read => some (s, { t with point := .test })
    | _ => none
  | .read (some frame) => match t.point with
    | .read => some (s, { t with point := .fragments (frame.fragments t.frameSeq) })
    | _ => none
  | .lock => match t.point with
    | .fragments (fragment :: rest) =>
      if s.peerMute = none then
        some ({ s with peerMute := some .sendVideo }, { t with point := .sendto fragment rest 0 })
      else none
    | _ => none
  | .sendto => match t.point with
    | .sendto fragment rest iterator =>
      if iterator < s.peerList.length then
        some (s, { t with point := .sendto fragment rest (iterator + 1) })
      else none
    | _ => none
  | .unlock => match t.point with
    | .sendto _ rest iterator =>
      if iterator = s.peerList.length then
        some ({ s with peerMute := none }, { t with point := .fragments rest })
      else none
    | _ => none
  | .frameSent => match t.point with
    | .fragments [] => some (s, { point := .test, frameSeq := t.frameSeq + 1 })
    | _ => none

end VideoSender

structure SharedPeers where
  shared : Shared
  listener : Listener
  audio : AudioSender
  video : VideoSender

namespace SharedPeers

inductive Act where
  /-- Another thread clears `running`. -/
  | stop
  | listen (a : ListenAct)
  | sendAudio (a : AudioAct)
  | sendVideo (a : VideoAct)

/-- `buffer` is not initialised. -/
def init (buffer : Buffer (helloBufferSize + 1)) : SharedPeers where
  shared := ⟨true, [], none⟩
  listener := ⟨.test, buffer, ⟨0, 0⟩⟩
  audio := ⟨.test, ⟨0, 0, .silence⟩, 0⟩
  video := ⟨.openCamera, 0⟩

def step (s : SharedPeers) : Act → Option SharedPeers
  | .stop => some { s with shared.running := false }
  | .listen a =>
    (s.listener.step s.shared a).map fun r => { s with shared := r.1, listener := r.2 }
  | .sendAudio a =>
    (s.audio.step s.shared a).map fun r => { s with shared := r.1, audio := r.2 }
  | .sendVideo a =>
    (s.video.step s.shared a).map fun r => { s with shared := r.1, video := r.2 }

def machine : Machine SharedPeers Act := ⟨step⟩

def Inside (s : SharedPeers) : Thread → Prop
  | .listen => s.listener.point.holds
  | .sendAudio => s.audio.point.holds
  | .sendVideo => s.video.point.holds
  | _ => False

/-- `peer_mute` is owned exactly by the thread in its critical section. -/
def Locked (s : SharedPeers) : Prop := Mutex.Held s.shared.peerMute s.Inside

end SharedPeers

section Steps

variable {s after : Shared}

@[simp] theorem Listener.holds_received (l : Listener) (source : SockaddrIn) (bytes : List UInt8) :
    (l.received source bytes).point.holds = false := by
  unfold Listener.received
  split
  · rfl
  · dsimp only
    split <;> rfl

@[simp] theorem Listener.holds_compared (l : Listener) (audioRec : Nat) :
    (l.compared audioRec).point.holds = false := by
  unfold Listener.compared
  split
  · rfl
  · split
    · rfl
    · dsimp only
      split <;> rfl

/-- `LookForPeers` keeps the discipline of the mutex. -/
theorem Listener.step_moves {l next : Listener} {a : ListenAct}
    (h : l.step s a = some (after, next)) :
    Mutex.Moves .listen s.peerMute after.peerMute l.point.holds next.point.holds := by
  unfold Mutex.Moves
  cases a with
  | recvfrom result =>
    rcases result with _ | ⟨source, payload⟩ <;>
      grind [Listener.step, ListenPoint.holds, Listener.holds_received]
  | _ => grind [Listener.step, ListenPoint.holds, Listener.holds_compared]

/-- Everything a step of `AudioRecAndSend` can do. -/
theorem AudioSender.step_cases {t next : AudioSender} {a : AudioAct}
    (h : t.step s a = some (after, next)) :
    match a with
    | .test => t.point = .test ∧ after = s ∧
        next = { t with point := if s.running then .readi else .done }
    | .readi samples => t.point = .readi ∧ after = s ∧ next = {
        point := .lock
        packet := { t.packet with aSequence := t.sequence, audioData := samples }
        sequence := t.sequence + 1 }
    | .readiError prepared => t.point = .readi ∧
        after = { s with running := s.running && prepared } ∧
        next = { t with point := if prepared then .test else .done }
    | .lock => t.point = .lock ∧ s.peerMute = none ∧
        after = { s with peerMute := some .sendAudio } ∧ next = { t with point := .copy }
    | .copy => t.point = .copy ∧ after = s ∧ next = { t with point := .sendto s.peerList }
    | .sendto => ∃ peer rest, t.point = .sendto (peer :: rest) ∧ after = s ∧
        next = { t with point := .sendto rest }
    | .unlock => t.point = .sendto [] ∧ after = { s with peerMute := none } ∧
        next = { t with point := .test } := by
  obtain ⟨running, peerList, peerMute⟩ := s
  cases a with
  | readiError prepared => cases prepared <;> grind [AudioSender.step]
  | _ => grind [AudioSender.step]

theorem AudioSender.step_moves {t next : AudioSender} {a : AudioAct}
    (h : t.step s a = some (after, next)) :
    Mutex.Moves .sendAudio s.peerMute after.peerMute t.point.holds next.point.holds := by
  unfold Mutex.Moves
  cases a <;> grind [AudioSender.step, AudioPoint.holds]

/-- Everything a step of `VideoRecandSend` can do. -/
theorem VideoSender.step_cases {t next : VideoSender} {a : VideoAct}
    (h : t.step s a = some (after, next)) :
    match a with
    | .openCamera opened => t.point = .openCamera ∧
        after = { s with running := s.running && opened } ∧
        next = { t with point := if opened then .test else .done }
    | .test => t.point = .test ∧ after = s ∧
        next = { t with point := if s.running then .read else .done }
    | .read none => t.point = .read ∧ after = s ∧ next = { t with point := .test }
    | .read (some frame) => t.point = .read ∧ after = s ∧
        next = { t with point := .fragments (frame.fragments t.frameSeq) }
    | .lock => ∃ fragment rest, t.point = .fragments (fragment :: rest) ∧ s.peerMute = none ∧
        after = { s with peerMute := some .sendVideo } ∧
        next = { t with point := .sendto fragment rest 0 }
    | .sendto => ∃ fragment rest iterator, t.point = .sendto fragment rest iterator ∧
        iterator < s.peerList.length ∧ after = s ∧
        next = { t with point := .sendto fragment rest (iterator + 1) }
    | .unlock => ∃ fragment rest, t.point = .sendto fragment rest s.peerList.length ∧
        after = { s with peerMute := none } ∧ next = { t with point := .fragments rest }
    | .frameSent => t.point = .fragments [] ∧ after = s ∧
        next = { point := .test, frameSeq := t.frameSeq + 1 } := by
  obtain ⟨running, peerList, peerMute⟩ := s
  cases a with
  | openCamera opened => cases opened <;> grind [VideoSender.step]
  | read frame => cases frame <;> grind [VideoSender.step]
  | _ => grind [VideoSender.step]

theorem VideoSender.step_moves {t next : VideoSender} {a : VideoAct}
    (h : t.step s a = some (after, next)) :
    Mutex.Moves .sendVideo s.peerMute after.peerMute t.point.holds next.point.holds := by
  unfold Mutex.Moves
  cases a with
  | read frame => cases frame <;> grind [VideoSender.step, VideoPoint.holds]
  | _ => grind [VideoSender.step, VideoPoint.holds]

/-- What `LookForPeers` does to the list: nothing, outside `find_if` and `push_back`. -/
theorem Listener.step_peerList {l next : Listener} {a : ListenAct}
    (h : l.step s a = some (after, next)) :
    after.peerList = s.peerList ∨
      a = .findIf ∧ l.point = .findIf ∧ after.peerList = register l.peerAddr s.peerList := by
  cases a with
  | recvfrom result => rcases result with _ | ⟨source, payload⟩ <;> grind [Listener.step]
  | _ => grind [Listener.step]

theorem Listener.step_findIf {l next : Listener} (h : l.step s .findIf = some (after, next)) :
    after.peerList = register l.peerAddr s.peerList := by
  simp only [Listener.step] at h
  split at h <;> cases h
  rfl

theorem AudioSender.step_peerList {t next : AudioSender} {a : AudioAct}
    (h : t.step s a = some (after, next)) : after.peerList = s.peerList := by
  cases a <;> grind [AudioSender.step]

theorem VideoSender.step_peerList {t next : VideoSender} {a : VideoAct}
    (h : t.step s a = some (after, next)) : after.peerList = s.peerList := by
  cases a with
  | read frame => cases frame <;> grind [VideoSender.step]
  | _ => grind [VideoSender.step]

theorem Listener.prefix_register (source : SockaddrIn) (peerList : List SockaddrIn) :
    peerList <+: register source peerList := by
  unfold register
  split
  · exact List.prefix_rfl
  · exact List.prefix_append _ _

/-- What `lookForPeers` does for a datagram that is a greeting. -/
theorem Listener.register_eq (source : SockaddrIn) (peerList : List SockaddrIn) :
    register source peerList = lookForPeers peerList source helloBytes := by
  have hreads : readsHello helloBytes = true := readsHello_hello
  unfold register lookForPeers
  rw [hreads]
  rfl

theorem Listener.mem_register {source peer : SockaddrIn} {peerList : List SockaddrIn} :
    peer ∈ register source peerList ↔ peer ∈ peerList ∨ peer = source := by
  have hreads : readsHello helloBytes = true := readsHello_hello
  rw [register_eq, mem_lookForPeers, hreads]
  simp

theorem Listener.nodup_register {peerList : List SockaddrIn} (h : peerList.Nodup)
    (source : SockaddrIn) : (register source peerList).Nodup := by
  rw [register_eq]
  exact nodup_lookForPeers h source helloBytes

end Steps

namespace SharedPeers

variable {s next : SharedPeers} {a : Act}

/-- A step of one of the three threads. -/
theorem step_listen {a : ListenAct} (h : s.step (.listen a) = some next) :
    s.listener.step s.shared a = some (next.shared, next.listener) ∧
      next.audio = s.audio ∧ next.video = s.video := by
  obtain ⟨⟨after, listener⟩, hstep, rfl⟩ := Option.map_eq_some_iff.mp h
  exact ⟨hstep, rfl, rfl⟩

theorem step_sendAudio {a : AudioAct} (h : s.step (.sendAudio a) = some next) :
    s.audio.step s.shared a = some (next.shared, next.audio) ∧
      next.listener = s.listener ∧ next.video = s.video := by
  obtain ⟨⟨after, audio⟩, hstep, rfl⟩ := Option.map_eq_some_iff.mp h
  exact ⟨hstep, rfl, rfl⟩

theorem step_sendVideo {a : VideoAct} (h : s.step (.sendVideo a) = some next) :
    s.video.step s.shared a = some (next.shared, next.video) ∧
      next.listener = s.listener ∧ next.audio = s.audio := by
  obtain ⟨⟨after, video⟩, hstep, rfl⟩ := Option.map_eq_some_iff.mp h
  exact ⟨hstep, rfl, rfl⟩

theorem step_stop (h : s.step .stop = some next) :
    next = { s with shared.running := false } := (Option.some.inj h).symm

theorem locked_init (buffer : Buffer (helloBufferSize + 1)) : (init buffer).Locked := by
  intro t
  cases t <;> simp [init, Inside, ListenPoint.holds, AudioPoint.holds, VideoPoint.holds]

theorem locked_step (h : s.Locked) (hstep : s.step a = some next) : next.Locked := by
  cases a with
  | stop =>
    rw [step_stop hstep]
    exact h.move fun t => by cases t <;> rfl
  | listen a =>
    obtain ⟨hmove, haudio, hvideo⟩ := step_listen hstep
    apply Mutex.Held.moves h (Listener.step_moves hmove)
    intro u hu
    cases u with
    | listen => exact absurd rfl hu
    | _ => simp only [Inside, haudio, hvideo]
  | sendAudio a =>
    obtain ⟨hmove, hlisten, hvideo⟩ := step_sendAudio hstep
    apply Mutex.Held.moves h (AudioSender.step_moves hmove)
    intro u hu
    cases u with
    | sendAudio => exact absurd rfl hu
    | _ => simp only [Inside, hlisten, hvideo]
  | sendVideo a =>
    obtain ⟨hmove, hlisten, haudio⟩ := step_sendVideo hstep
    apply Mutex.Held.moves h (VideoSender.step_moves hmove)
    intro u hu
    cases u with
    | sendVideo => exact absurd rfl hu
    | _ => simp only [Inside, hlisten, haudio]

/-- The list changes in one kind of step only. -/
theorem step_peerList (hstep : s.step a = some next) :
    next.shared.peerList = s.shared.peerList ∨
      a = .listen .findIf ∧ s.listener.point = .findIf ∧
        next.shared.peerList = Listener.register s.listener.peerAddr s.shared.peerList := by
  cases a with
  | stop =>
    rw [step_stop hstep]
    exact Or.inl rfl
  | listen a =>
    rcases Listener.step_peerList (step_listen hstep).1 with hsame | ⟨rfl, hpoint, hlist⟩
    · exact Or.inl hsame
    · exact Or.inr ⟨rfl, hpoint, hlist⟩
  | sendAudio a => exact Or.inl (AudioSender.step_peerList (step_sendAudio hstep).1)
  | sendVideo a => exact Or.inl (VideoSender.step_peerList (step_sendVideo hstep).1)

/-- `peer_List` only ever grows at its end. -/
theorem peerList_extends (hstep : s.step a = some next) :
    s.shared.peerList <+: next.shared.peerList := by
  rcases step_peerList hstep with hsame | ⟨-, -, hlist⟩
  · exact hsame ▸ List.prefix_rfl
  · rw [hlist]
    exact Listener.prefix_register _ _

theorem nodup_step (h : s.shared.peerList.Nodup) (hstep : s.step a = some next) :
    next.shared.peerList.Nodup := by
  rcases step_peerList hstep with hsame | ⟨-, -, hlist⟩
  · rwa [hsame]
  · rw [hlist]
    exact Listener.nodup_register h _

/-- While a sender is in its critical section nothing is added to the list. -/
theorem peerList_frozen (h : s.Locked) (hstep : s.step a = some next) {t : Thread}
    (ht : t ≠ .listen) (hinside : s.Inside t) : next.shared.peerList = s.shared.peerList := by
  rcases step_peerList hstep with hsame | ⟨-, hpoint, -⟩
  · exact hsame
  · have hlistens : s.Inside .listen := by
      simp [Inside, hpoint, ListenPoint.holds]
    exact absurd (Mutex.Held.exclusive h hinside hlistens) ht

end SharedPeers

end MediaStream.OnlineAV
