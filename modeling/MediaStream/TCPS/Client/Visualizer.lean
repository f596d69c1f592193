import MediaStream.TCPS.Client.Playback

/-!
The two copies of the audio that the client sends to its views, against the audio
itself. Each thread serves its view last in a pass, so that a copy is behind by
one block or one chunk at most.
-/

namespace MediaStream.TCPS.Client

open Lib Lib.Bytes

def sends (socket : Socket) (calls : List Call) : List (List UInt8) :=
  calls.filterMap fun
    | .send name bytes => if name = socket then bytes else none
    | _ => none

def copied (calls : List Call) : List (List UInt8) :=
  (sends .localSockfdCap calls).map (List.drop 8)

def forwarded (calls : List Call) : List (List UInt8) := sends .localSockfdPlayback calls

/-- The block that an action captures. A recovered error leaves one without frames. -/
def Act.block : Act → List (List UInt8)
  | audioCap (.capture audio _) => [audio]
  | audioCap (.recover _) => [[]]
  | _ => []

/-- A copy of `sent` that may lack the last of `all`. -/
def LacksLast (copy sent all : List (List UInt8)) : Prop :=
  copy = sent ∨ ∃ last, all.getLast? = some last ∧ sent = copy ++ [last]

theorem LacksLast.flatten_isPrefix {copy sent all : List (List UInt8)}
    (h : LacksLast copy sent all) : copy.flatten <+: sent.flatten := by
  rcases h with rfl | ⟨last, -, rfl⟩
  · exact List.prefix_rfl
  · rw [List.flatten_append]
    exact List.prefix_append ..

namespace Process

/-- Where `audio_cap` is in its pass, by what it has done with the captured blocks. -/
def Copies (s : Process) (blocks : List (List UInt8)) : Prop :=
  match s.audioCap with
  | .openCapture | .test | .capture | .recover =>
    sends .sockfd s.calls = blocks ∧ copied s.calls = blocks
  | .send frCapture _ => ∃ earlier, blocks = earlier ++ [s.captured frCapture] ∧
      sends .sockfd s.calls = earlier ∧ copied s.calls = earlier
  | .sendPacket frCapture _ => ∃ earlier, blocks = earlier ++ [s.captured frCapture] ∧
      sends .sockfd s.calls = blocks ∧ copied s.calls = earlier
  | .closeSockfd | .closeLocal | .done =>
    LacksLast (copied s.calls) (sends .sockfd s.calls) blocks

/-- Where `play_audio` is in its pass, by what it has done with the chunks. -/
def Forwards (s : Process) : Prop :=
  match s.playAudio with
  | .openPlayback | .test | .recv => received s.calls = forwarded s.calls
  | .write buffer | .prepare buffer | .sendLocal buffer =>
    received s.calls = forwarded s.calls ++ [buffer]
  | .closeLocal | .done =>
    LacksLast (forwarded s.calls) (received s.calls) (received s.calls)

end Process

section Steps

variable {cfg : Setup} {s next : Process} {blocks : List (List UInt8)}

theorem sends_call_self (socket : Socket) (bytes : List UInt8) :
    sends socket (s.call (some socket) (.send · bytes)).calls =
      sends socket s.calls ++ [bytes] := by
  apply List.filterMap_append.trans
  simp [sends]

theorem sends_call_of_ne {name socket : Socket} (hne : name ≠ socket) (bytes : List UInt8) :
    sends socket (s.call (some name) (.send · bytes)).calls = sends socket s.calls := by
  apply filterMap_call
  intro _ hname
  obtain rfl := Option.some.inj hname
  exact if_neg hne

theorem sends_call_error (socket : Socket) (descriptor : Option Socket) :
    sends socket (s.call descriptor (.send · none)).calls = sends socket s.calls :=
  filterMap_call fun _ _ => ite_self _

theorem sends_call_close (socket : Socket) (descriptor : Option Socket) :
    sends socket (s.call descriptor .close).calls = sends socket s.calls :=
  filterMap_call fun _ _ => rfl

theorem sends_call_recv (socket : Socket) (descriptor : Option Socket)
    (bytes : Option (List UInt8)) :
    sends socket (s.call descriptor (.recv · bytes)).calls = sends socket s.calls :=
  filterMap_call fun _ _ => rfl

/-- The bytes of a capture are those that will be sent. -/
theorem captured_store {audio : List UInt8}
    (h : audio.length % frameBytes = 0 ∧ audio.length ≤ sizeofBuffer) :
    (s.buffer.store audio).bytes.take (audio.length / frameBytes * frameBytes) = audio := by
  obtain ⟨hframes, hfits⟩ := h
  rw [Nat.div_mul_cancel (Nat.dvd_of_mod_eq_zero hframes)]
  exact s.buffer.take_store hfits

theorem drop_packet (frCapture : Nat) (timestamp : Int) :
    (s.packet frCapture timestamp).drop 8 = s.captured frCapture :=
  List.drop_left' (length_le ..)

/-- Each pass of `audio_cap` makes one block, which goes to the server first. -/
theorem audioCap_copies {a : AudioCapAct} (h : s.Copies blocks)
    (hstep : (Process.machine cfg).step s (.audioCap a) = some next) :
    next.Copies (blocks ++ (Act.audioCap a).block) := by
  have hother : Socket.sockfd ≠ .localSockfdCap := nofun
  have hnone : (Act.audioCap a).block = [] → next.Copies blocks →
      next.Copies (blocks ++ (Act.audioCap a).block) := by
    intro hblock hcopies
    rwa [hblock, List.append_nil]
  unfold Process.Copies copied at h
  cases audioCap_iff.mp hstep with
  | capture audio now hpc hframes =>
    rw [hpc] at h
    obtain ⟨hserver, hcopied⟩ := h
    exact ⟨blocks, congrArg (fun block => blocks ++ [block]) (captured_store hframes).symm,
      hserver, hcopied⟩
  | recover now hpc =>
    rw [hpc] at h
    obtain ⟨hserver, hcopied⟩ := h
    exact ⟨blocks, by simp [Act.block, Process.captured], hserver, hcopied⟩
  | send frCapture timestamp hpc =>
    rw [hpc] at h
    obtain ⟨earlier, rfl, hserver, hcopied⟩ := h
    apply hnone rfl
    refine ⟨earlier, rfl, ?_, ?_⟩
    · change sends .sockfd (s.call _ _).calls = _
      rw [sends_call_self, hserver]
    · change (sends .localSockfdCap (s.call _ _).calls).map _ = _
      rw [sends_call_of_ne hother, hcopied]
  | sendError frCapture timestamp hpc =>
    rw [hpc] at h
    obtain ⟨earlier, -, hserver, hcopied⟩ := h
    apply hnone rfl
    apply Or.inl
    change (sends .localSockfdCap (s.call _ _).calls).map _ = sends .sockfd (s.call _ _).calls
    rw [sends_call_error, sends_call_error, hcopied, hserver]
  | sendPacket frCapture timestamp hpc hview =>
    rw [hpc] at h
    obtain ⟨earlier, rfl, hserver, hcopied⟩ := h
    apply hnone rfl
    constructor
    · change sends .sockfd (s.call _ _).calls = _
      rw [sends_call_of_ne hother.symm, hserver]
    · change (sends .localSockfdCap (s.call _ _).calls).map _ = _
      rw [sends_call_self, List.map_append, hcopied, List.map_singleton, drop_packet]
  | sendPacketError frCapture timestamp hpc =>
    rw [hpc] at h
    obtain ⟨earlier, rfl, hserver, hcopied⟩ := h
    apply hnone rfl
    refine Or.inr ⟨s.captured frCapture, List.getLast?_concat, ?_⟩
    change sends .sockfd (s.call _ _).calls =
      (sends .localSockfdCap (s.call _ _).calls).map _ ++ _
    rw [sends_call_error, sends_call_error, hcopied, hserver]
  | closeSockfd hpc | closeLocal hpc =>
    rw [hpc] at h
    apply hnone rfl
    change LacksLast ((sends .localSockfdCap (s.call _ _).calls).map _)
      (sends .sockfd (s.call _ _).calls) blocks
    rwa [sends_call_close, sends_call_close]
  | openCaptureError hpc _ | stop hpc _ | recoverError hpc =>
    rw [hpc] at h
    exact hnone rfl (Or.inl (h.2.trans h.1.symm))
  | openCapture hpc _ | test hpc _ | captureError hpc =>
    rw [hpc] at h
    exact hnone rfl h

/-- What the copy of the captured audio rests on, `play_audio` leaves alone. -/
theorem playAudio_elsewhere {a : PlayAudioAct}
    (hstep : (Process.machine cfg).step s (.playAudio a) = some next) :
    next.audioCap = s.audioCap ∧ next.buffer = s.buffer ∧
      ∀ socket, socket ≠ .localSockfdPlayback → sends socket next.calls = sends socket s.calls := by
  refine ⟨(playAudio_step hstep).1, ?_⟩
  cases playAudio_iff.mp hstep with
  | recv | recvEnd => exact ⟨rfl, fun socket _ => sends_call_recv socket _ _⟩
  | sendLocal buffer => exact ⟨rfl, fun socket hne => sends_call_of_ne hne.symm buffer⟩
  | sendLocalError => exact ⟨rfl, fun socket _ => sends_call_error socket _⟩
  | close => exact ⟨rfl, fun socket _ => sends_call_close socket _⟩
  | openPlayback | openPlaybackError | test | stop | write | underrun | writeError | prepare
  | prepareError => exact ⟨rfl, fun _ _ => rfl⟩

theorem main_elsewhere (hstep : (Process.machine cfg).step s .main = some next) :
    next.buffer = s.buffer ∧ ∀ socket, sends socket next.calls = sends socket s.calls := by
  obtain ⟨-, -, -, -, descriptor, hcalls⟩ := main_step hstep
  constructor
  · cases main_iff.mp hstep <;> rfl
  · intro socket
    rw [hcalls]
    exact sends_call_close socket descriptor

theorem Process.Copies.of_same (h : s.Copies blocks) (hpoint : next.audioCap = s.audioCap)
    (hbuffer : next.buffer = s.buffer)
    (hserver : sends .sockfd next.calls = sends .sockfd s.calls)
    (hview : sends .localSockfdCap next.calls = sends .localSockfdCap s.calls) :
    next.Copies blocks := by
  unfold Process.Copies copied Process.captured at h ⊢
  rwa [hpoint, hbuffer, hserver, hview]

theorem copies_step {a : Act} (h : s.Copies blocks)
    (hstep : (Process.machine cfg).step s a = some next) : next.Copies (blocks ++ a.block) := by
  cases a with
  | audioCap a => exact audioCap_copies h hstep
  | playAudio a =>
    obtain ⟨hpoint, hbuffer, hsends⟩ := playAudio_elsewhere hstep
    change next.Copies (blocks ++ [])
    rw [List.append_nil]
    exact h.of_same hpoint hbuffer (hsends .sockfd nofun) (hsends .localSockfdCap nofun)
  | main =>
    obtain ⟨hbuffer, hsends⟩ := main_elsewhere hstep
    change next.Copies (blocks ++ [])
    rw [List.append_nil]
    exact h.of_same (main_step hstep).1 hbuffer (hsends _) (hsends _)

/-- A chunk is received, and passed on at the end of the pass. -/
theorem playAudio_forwards {a : PlayAudioAct} (h : s.Forwards)
    (hstep : (Process.machine cfg).step s (.playAudio a) = some next) : next.Forwards := by
  have hreceived : ∀ (descriptor : Option Socket) (bytes : Option (List UInt8)),
      received (s.call descriptor (.send · bytes)).calls = received s.calls := by
    intro descriptor bytes
    exact filterMap_call fun _ _ => rfl
  unfold Process.Forwards forwarded at h
  cases playAudio_iff.mp hstep with
  | recv bytes hpc hsize =>
    rw [hpc] at h
    have hnew : received (s.call (some .sockfd) (.recv · bytes)).calls =
        received s.calls ++ [bytes] := List.filterMap_append
    change received (s.call _ _).calls = sends .localSockfdPlayback (s.call _ _).calls ++ [bytes]
    rw [hnew, sends_call_recv, h]
  | sendLocal buffer hpc hview =>
    rw [hpc] at h
    change received (s.call _ _).calls = sends .localSockfdPlayback (s.call _ _).calls
    rw [hreceived, sends_call_self, h]
  | sendLocalError buffer hpc =>
    rw [hpc] at h
    change LacksLast (sends .localSockfdPlayback (s.call _ _).calls)
      (received (s.call _ _).calls) (received (s.call _ _).calls)
    rw [hreceived, sends_call_error, h]
    exact Or.inr ⟨buffer, List.getLast?_concat, rfl⟩
  | writeError buffer hpc | prepareError buffer hpc =>
    rw [hpc] at h
    refine Or.inr ⟨buffer, ?_, h⟩
    change (received s.calls).getLast? = some buffer
    rw [h]
    exact List.getLast?_concat
  | recvEnd hpc =>
    rw [hpc] at h
    apply Or.inl
    change sends .localSockfdPlayback (s.call _ _).calls = received (s.call _ _).calls
    rw [sends_call_recv, ← h]
    exact (filterMap_call fun _ _ => rfl).symm
  | close hpc =>
    rw [hpc] at h
    have hclose : received (s.call cfg.localSockfdPlayback .close).calls = received s.calls :=
      filterMap_call fun _ _ => rfl
    change LacksLast (sends .localSockfdPlayback (s.call _ _).calls)
      (received (s.call _ _).calls) (received (s.call _ _).calls)
    rwa [hclose, sends_call_close]
  | openPlaybackError hpc _ | stop hpc _ =>
    rw [hpc] at h
    exact Or.inl h.symm
  | openPlayback hpc _ | test hpc _ | write _ _ hpc _ | underrun _ hpc | prepare _ hpc =>
    rw [hpc] at h
    exact h

/-- `audio_cap` never sends to the playback view. -/
theorem audioCap_forwarded {a : AudioCapAct}
    (hstep : (Process.machine cfg).step s (.audioCap a) = some next) :
    forwarded next.calls = forwarded s.calls := by
  have hserver : Socket.sockfd ≠ .localSockfdPlayback := nofun
  have hview : Socket.localSockfdCap ≠ .localSockfdPlayback := nofun
  cases audioCap_iff.mp hstep with
  | send => exact sends_call_of_ne hserver _
  | sendPacket => exact sends_call_of_ne hview _
  | sendError | sendPacketError => exact sends_call_error _ _
  | closeSockfd | closeLocal => exact sends_call_close _ _
  | openCapture | openCaptureError | test | stop | capture | captureError | recover
  | recoverError => rfl

theorem forwards_step {a : Act} (h : s.Forwards)
    (hstep : (Process.machine cfg).step s a = some next) : next.Forwards := by
  have helse : (∀ b, a ≠ .playAudio b) → forwarded next.calls = forwarded s.calls →
      next.Forwards := by
    intro ha hforwarded
    obtain ⟨hpoint, -, hreceived⟩ := elsewhere_playback ha hstep
    unfold Process.Forwards
    rw [hpoint, hforwarded, hreceived]
    exact h
  cases a with
  | audioCap a => exact helse nofun (audioCap_forwarded hstep)
  | playAudio a => exact playAudio_forwards h hstep
  | main => exact helse nofun ((main_elsewhere hstep).2 _)

end Steps

section Copies

variable {cfg : Setup} {buffer : Bytes.Buffer sizeofBuffer} {actions : List Act} {s : Process}

theorem copies_run (hrun : (Process.machine cfg).run (.init buffer) actions = some s) :
    s.Copies (actions.flatMap Act.block) := by
  have hstart : (Process.init buffer).Copies [] := ⟨rfl, rfl⟩
  exact Machine.run_collects (fun _ _ _ _ hs hstep => copies_step hs hstep) hstart hrun

theorem Process.Copies.lacksLast {blocks : List (List UInt8)} (h : s.Copies blocks) :
    LacksLast (copied s.calls) (sends .sockfd s.calls) blocks := by
  unfold Process.Copies at h
  split at h
  case h_5 frCapture timestamp hpoint =>
    obtain ⟨earlier, -, hserver, hcopied⟩ := h
    exact Or.inl (hcopied.trans hserver.symm)
  case h_6 frCapture timestamp hpoint =>
    obtain ⟨earlier, rfl, hserver, hcopied⟩ := h
    exact Or.inr ⟨_, List.getLast?_concat, by rw [hserver, hcopied]⟩
  case h_7 | h_8 | h_9 => exact h
  all_goals exact Or.inl (h.2.trans h.1.symm)

theorem Process.Forwards.lacksLast (h : s.Forwards) :
    LacksLast (forwarded s.calls) (received s.calls) (received s.calls) := by
  have hbehind : ∀ chunk, received s.calls = forwarded s.calls ++ [chunk] →
      LacksLast (forwarded s.calls) (received s.calls) (received s.calls) := by
    intro chunk hchunk
    refine Or.inr ⟨chunk, ?_, hchunk⟩
    rw [hchunk]
    exact List.getLast?_concat
  unfold Process.Forwards at h
  split at h
  case h_4 chunk hpoint | h_5 chunk hpoint | h_6 chunk hpoint => exact hbehind chunk h
  case h_7 | h_8 => exact h
  all_goals exact Or.inl h.symm

/-- In every run the audio that the capture view has been sent is a copy of what
the server has been sent, except for the last captured block, and what the
playback view has been sent is a copy of what has been received, except for the
last chunk. -/
theorem copies_faithful (hrun : (Process.machine cfg).run (.init buffer) actions = some s) :
    (copied s.calls).flatten <+: (sends .sockfd s.calls).flatten ∧
      LacksLast (copied s.calls) (sends .sockfd s.calls) (actions.flatMap Act.block) ∧
      (forwarded s.calls).flatten <+: (received s.calls).flatten ∧
      LacksLast (forwarded s.calls) (received s.calls) (received s.calls) := by
  have hcopies := (copies_run hrun).lacksLast
  have hforwards : s.Forwards := by
    have hstart : (Process.init buffer).Forwards := rfl
    exact Machine.run_preserves (fun _ _ _ hs hstep => forwards_step hs hstep) hstart hrun
  exact ⟨hcopies.flatten_isPrefix, hcopies, hforwards.lacksLast.flatten_isPrefix,
    hforwards.lacksLast⟩

def halfPass : List Act :=
  [.audioCap .openCapture, .audioCap .test, .audioCap (.capture [1, 2, 3, 4] 0), .audioCap .send]

theorem run_halfPass : ∃ s, (Process.machine allOpen).run (.init .zero) halfPass = some s :=
  ⟨_, rfl⟩

theorem copies_faithful_halfPass :
    ∃ s, (Process.machine allOpen).run (.init .zero) halfPass = some s ∧
      (copied s.calls).flatten <+: (sends .sockfd s.calls).flatten ∧
      LacksLast (copied s.calls) (sends .sockfd s.calls) (halfPass.flatMap Act.block) ∧
      (forwarded s.calls).flatten <+: (received s.calls).flatten ∧
      LacksLast (forwarded s.calls) (received s.calls) (received s.calls) := by
  obtain ⟨s, hrun⟩ := run_halfPass
  exact ⟨s, hrun, copies_faithful hrun⟩

end Copies

end MediaStream.TCPS.Client
