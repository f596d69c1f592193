import MediaStream.Lib.Blocks
import MediaStream.TCPS.Client.Process

/-!
What `play_audio` writes to the sound card, against the ways in which `recv` may
cut the stream of the server. `frames_play` is computed from one chunk at a time
and the bytes of a frame that is not complete yet are thrown away.
-/

namespace MediaStream.TCPS.Client

open Lib Lib.Blocks

def received (calls : List Call) : List (List UInt8) :=
  calls.filterMap fun
    | .recv _ bytes => bytes
    | _ => none

namespace Process

def writesAll (s : Process) : Act → Bool
  | .playAudio (.write frames) => match s.playAudio with
    | .write buffer => frames = framesPlay buffer
    | _ => true
  | .playAudio .underrun | .playAudio .writeError => false
  | _ => true

def fullWrites (cfg : Setup) : Machine Process Act where
  step s a := if s.writesAll a then step cfg s a else none

/-- Of each chunk that has been written, the whole frames have been played. -/
def Plays (s : Process) : Prop :=
  match s.playAudio with
  | .write buffer => ∃ earlier, received s.calls = earlier ++ [buffer] ∧
      s.played = earlier.flatMap (whole frameBytes)
  | .prepare _ => False
  | _ => s.played = (received s.calls).flatMap (whole frameBytes)

end Process

section Steps

variable {cfg : Setup} {s next : Process}

theorem fullWrites_step {a : Act} :
    (Process.fullWrites cfg).step s a = some next ↔
      s.writesAll a = true ∧ (Process.machine cfg).step s a = some next := by
  simp only [Process.fullWrites, Option.ite_none_right_eq_some]
  rfl

/-- `audio_cap` and `main` do not take part in playing. -/
theorem elsewhere_playback {a : Act} (ha : ∀ b, a ≠ .playAudio b)
    (hstep : (Process.machine cfg).step s a = some next) :
    next.playAudio = s.playAudio ∧ next.played = s.played ∧
      received next.calls = received s.calls := by
  cases a with
  | audioCap a =>
    cases audioCap_iff.mp hstep with
    | send | sendError | sendPacket | sendPacketError | closeSockfd | closeLocal =>
      exact ⟨rfl, rfl, filterMap_call fun _ _ => rfl⟩
    | openCapture | openCaptureError | test | stop | capture | captureError | recover
    | recoverError => exact ⟨rfl, rfl, rfl⟩
  | playAudio b => exact absurd rfl (ha b)
  | main =>
    obtain ⟨-, hpoint, -, hplayed, socket, hcalls⟩ := main_step hstep
    refine ⟨hpoint, hplayed, ?_⟩
    rw [hcalls]
    exact filterMap_call fun _ _ => rfl

/-- A chunk is received, its whole frames are played, and the rest of it is dropped. -/
theorem playAudio_plays {a : PlayAudioAct} (h : s.Plays)
    (hstep : (Process.fullWrites cfg).step s (.playAudio a) = some next) : next.Plays := by
  obtain ⟨hfull, hnext⟩ := fullWrites_step.mp hstep
  unfold Process.Plays at h
  cases playAudio_iff.mp hnext with
  | recv bytes hpc hsize =>
    rw [hpc] at h
    exact ⟨received s.calls, List.filterMap_append, h⟩
  | write frames buffer hpc hframes =>
    rw [hpc] at h
    obtain ⟨earlier, hreceived, hplayed⟩ := h
    simp only [Process.writesAll, hpc, decide_eq_true_eq] at hfull
    change s.played ++ buffer.take (frames * frameBytes) =
      (received s.calls).flatMap (whole frameBytes)
    rw [hreceived, List.flatMap_append, List.flatMap_singleton, hplayed, hfull]
    rfl
  | recvEnd hpc | sendLocal _ hpc _ | sendLocalError _ hpc | close hpc =>
    rw [hpc] at h
    exact h.trans (congrArg _ (filterMap_call fun _ _ => rfl).symm)
  | openPlayback hpc _ | openPlaybackError hpc _ | test hpc _ | stop hpc _ =>
    rw [hpc] at h
    exact h
  | prepare _ hpc | prepareError _ hpc =>
    rw [hpc] at h
    exact h.elim
  | underrun | writeError => cases hfull

theorem plays_step {a : Act} (h : s.Plays)
    (hstep : (Process.fullWrites cfg).step s a = some next) : next.Plays := by
  have helse : (∀ b, a ≠ .playAudio b) → next.Plays := by
    intro ha
    obtain ⟨hpoint, hplayed, hreceived⟩ := elsewhere_playback ha (fullWrites_step.mp hstep).2
    unfold Process.Plays
    rw [hpoint, hplayed, hreceived]
    exact h
  cases a with
  | audioCap a => exact helse nofun
  | playAudio a => exact playAudio_plays h hstep
  | main => exact helse nofun

/-- What has been played once all that has been received is written. -/
theorem played_eq {buffer : Bytes.Buffer sizeofBuffer}
    (h : (Process.fullWrites cfg).Reaches (Process.init buffer) s)
    (hwritten : ∀ chunk, s.playAudio ≠ .write chunk) :
    s.played = (received s.calls).flatMap (whole frameBytes) := by
  have hplays : s.Plays := by
    apply h.preserves (P := Process.Plays)
    · intro s a next hs hstep
      exact plays_step hs hstep
    · rfl
  unfold Process.Plays at hplays
  split at hplays
  · rename_i chunk hpoint
    exact absurd hpoint (hwritten chunk)
  · cases hplays
  · exact hplays

end Steps

section Reception

def allOpen : Setup where
  cap := some fun _ => true
  playback := some fun _ => true
  captureOpens := true
  playbackOpens := true

/-- One pass of the loop of `play_audio`. -/
theorem chunk_received {s : Process} {chunk : List UInt8} (hpoint : s.playAudio = .test)
    (hflag : s.stopStreaming = false) (hchunk : 0 < chunk.length ∧ chunk.length ≤ sizeofBuffer) :
    ∃ next, (Process.fullWrites allOpen).Reaches s next ∧ next.playAudio = .test ∧
      next.stopStreaming = false ∧ received next.calls = received s.calls ++ [chunk] := by
  let receiving : Process := { s with playAudio := .recv }
  let writing : Process :=
    { receiving.call (some .sockfd) (.recv · chunk) with playAudio := .write chunk }
  let sending : Process := { writing with
    played := s.played ++ chunk.take (framesPlay chunk * frameBytes)
    playAudio := .sendLocal chunk }
  let next : Process :=
    { sending.call (some .localSockfdPlayback) (.send · chunk) with playAudio := .test }
  have htest : (Process.machine allOpen).step s (.playAudio .test) = some receiving := by
    change s.playAudioStep allOpen .test s.playAudio = some receiving
    simp only [hpoint, Process.playAudioStep, hflag, Bool.false_eq_true, if_false, receiving]
  have hrecv : (Process.machine allOpen).step receiving (.playAudio (.recv chunk)) =
      some writing := if_pos hchunk
  have hwrite : (Process.machine allOpen).step writing
      (.playAudio (.write (framesPlay chunk))) = some sending := if_pos (Nat.le_refl _)
  have hfull : writing.writesAll (.playAudio (.write (framesPlay chunk))) = true :=
    decide_eq_true rfl
  have hsend : (Process.machine allOpen).step sending (.playAudio .sendLocal) = some next := rfl
  have hreaches := (((Machine.Reaches.refl _ s).tail (fullWrites_step.mpr ⟨rfl, htest⟩)).tail
    (fullWrites_step.mpr ⟨rfl, hrecv⟩)).tail (fullWrites_step.mpr ⟨hfull, hwrite⟩)
  refine ⟨next, hreaches.tail (fullWrites_step.mpr ⟨rfl, hsend⟩), rfl, hflag, ?_⟩
  apply (filterMap_call fun _ _ => rfl).trans
  exact List.filterMap_append

/-- Every sequence of chunks may be received. -/
theorem chunks_received {chunks : List (List UInt8)}
    (hchunks : ∀ chunk ∈ chunks, 0 < chunk.length ∧ chunk.length ≤ sizeofBuffer) {s : Process}
    (hpoint : s.playAudio = .test) (hflag : s.stopStreaming = false) :
    ∃ finish, (Process.fullWrites allOpen).Reaches s finish ∧ finish.playAudio = .test ∧
      received finish.calls = received s.calls ++ chunks := by
  induction chunks generalizing s with
  | nil => exact ⟨s, .refl _ s, hpoint, (List.append_nil _).symm⟩
  | cons chunk rest ih =>
    obtain ⟨hfirst, hrest⟩ := List.forall_mem_cons.mp hchunks
    obtain ⟨next, hnext, hpoint', hflag', hreceived⟩ := chunk_received hpoint hflag hfirst
    obtain ⟨finish, hfinish, htest, hall⟩ := ih hrest hpoint' hflag'
    refine ⟨finish, hnext.trans hfinish, htest, ?_⟩
    rw [hall, hreceived, List.append_assoc, List.singleton_append]

end Reception

structure Segmentation where
  lengths : List Nat
  bounds : ∀ n ∈ lengths, 0 < n ∧ n ≤ sizeofBuffer

namespace Segmentation

def total (c : Segmentation) : Nat := c.lengths.sum

def chunks (c : Segmentation) (stream : List UInt8) : List (List UInt8) :=
  c.lengths.splitLengths stream

/-- Each chunk ends between two frames, or past the last whole frame. -/
def BetweenFrames (c : Segmentation) : Prop := BetweenBlocks frameBytes c.lengths

/-- A state in which `stream` has been received in these chunks and written. -/
structure Played (c : Segmentation) (stream : List UInt8) (s : Process) : Prop where
  reached : ∃ cfg buffer, (Process.fullWrites cfg).Reaches (Process.init buffer) s
  chunks : received s.calls = c.chunks stream
  written : ∀ chunk, s.playAudio ≠ .write chunk

variable {c c' : Segmentation} {stream : List UInt8}

theorem Played.played_eq {s : Process} (h : c.Played stream s) :
    s.played = (c.chunks stream).flatMap (whole frameBytes) := by
  obtain ⟨cfg, buffer, hreached⟩ := h.reached
  rw [← h.chunks]
  exact Client.played_eq hreached h.written

/-- Every stream may come in these chunks. -/
theorem exists_played (hstream : stream.length = c.total) : ∃ s, c.Played stream s := by
  have hlengths : (c.chunks stream).map List.length = c.lengths :=
    List.map_splitLengths_length stream c.lengths hstream.ge
  have hchunks : ∀ chunk ∈ c.chunks stream, 0 < chunk.length ∧ chunk.length ≤ sizeofBuffer := by
    intro chunk hchunk
    apply c.bounds
    rw [← hlengths]
    exact List.mem_map_of_mem hchunk
  have hopen : (Process.fullWrites allOpen).Reaches (Process.init .zero)
      { Process.init .zero with playAudio := .test } := ⟨[.playAudio .openPlayback], rfl⟩
  obtain ⟨s, hreaches, hpoint, hreceived⟩ := chunks_received hchunks
    (s := { Process.init .zero with playAudio := .test }) rfl rfl
  refine ⟨s, ⟨allOpen, .zero, hopen.trans hreaches⟩, hreceived, ?_⟩
  intro chunk hwrite
  cases hpoint.symm.trans hwrite

/-- Two ways of cutting a stream give the same frames, those of the stream, for
every stream, exactly when neither ends a chunk inside a frame. -/
theorem same_frames_iff (htotal : c.total = c'.total) :
    (∀ stream : List UInt8, stream.length = c.total → ∀ s s', c.Played stream s →
        c'.Played stream s' → s.played = s'.played ∧ s.played = whole frameBytes stream) ↔
      c.BetweenFrames ∧ c'.BetweenFrames := by
  have hpos : 0 < frameBytes := by decide
  have hbytes : (0 : UInt8) ≠ 1 := by decide
  unfold BetweenFrames
  constructor
  · intro h
    constructor
    · apply (flatMap_whole_iff hbytes hpos).mp
      intro stream hstream
      obtain ⟨s, hs⟩ := exists_played (c := c) hstream
      obtain ⟨s', hs'⟩ := exists_played (c := c') (hstream.trans htotal)
      exact hs.played_eq.symm.trans (h stream hstream s s' hs hs').2
    · apply (flatMap_whole_iff hbytes hpos).mp
      intro stream hstream
      obtain ⟨s, hs⟩ := exists_played (c := c) (hstream.trans htotal.symm)
      obtain ⟨s', hs'⟩ := exists_played (c := c') hstream
      obtain ⟨hsame, hframes⟩ := h stream (hstream.trans htotal.symm) s s' hs hs'
      exact hs'.played_eq.symm.trans (hsame.symm.trans hframes)
  · rintro ⟨hc, hc'⟩ stream hstream s s' hs hs'
    have hfirst := (flatMap_whole_iff hbytes hpos).mpr hc stream hstream
    have hsecond := (flatMap_whole_iff hbytes hpos).mpr hc' stream (hstream.trans htotal)
    have hplayed : s.played = whole frameBytes stream := hs.played_eq.trans hfirst
    have hplayed' : s'.played = whole frameBytes stream := hs'.played_eq.trans hsecond
    exact ⟨hplayed.trans hplayed'.symm, hplayed⟩

section OneFrame

/-! A frame that comes in one chunk, or in two. -/

def atOnce : Segmentation where
  lengths := [4]
  bounds := by decide

def inTwo : Segmentation where
  lengths := [3, 1]
  bounds := by decide

theorem same_frames_iff_oneFrame :
    (∀ stream : List UInt8, stream.length = atOnce.total → ∀ s s', atOnce.Played stream s →
        inTwo.Played stream s' → s.played = s'.played ∧ s.played = whole frameBytes stream) ↔
      atOnce.BetweenFrames ∧ inTwo.BetweenFrames :=
  same_frames_iff rfl

/-- In two chunks nothing of the frame is played. -/
theorem split_frame_lost :
    ∃ s s', atOnce.Played [1, 2, 3, 4] s ∧ inTwo.Played [1, 2, 3, 4] s' ∧
      s.played = [1, 2, 3, 4] ∧ s'.played = [] := by
  obtain ⟨s, hs⟩ : ∃ s, atOnce.Played [1, 2, 3, 4] s := exists_played rfl
  obtain ⟨s', hs'⟩ : ∃ s, inTwo.Played [1, 2, 3, 4] s := exists_played rfl
  exact ⟨s, s', hs, hs', hs.played_eq.trans rfl, hs'.played_eq.trans rfl⟩

end OneFrame

end Segmentation

end MediaStream.TCPS.Client
