import MediaStream.StopStreaming
import MediaStream.TCPS.Client.Visualizer

/-!
The client without its views, or with views that go away, against the client that
has both of them. `main` goes on without them, but the threads take a `send` to a
view that fails for a reason to stop.
-/

namespace MediaStream.TCPS.Client

open Lib

def Act.viewFails : Act → Bool
  | audioCap .sendPacketError | playAudio .sendLocalError => true
  | _ => false

/-- The same step where the view is connected. -/
def Act.withView : Act → Act
  | audioCap .sendPacketError => audioCap .sendPacket
  | playAudio .sendLocalError => playAudio .sendLocal
  | a => a

/-- The server connection and the sound devices do not fail for good. -/
def Act.works : Act → Bool
  | audioCap .recoverError | audioCap .sendError => false
  | playAudio .recvEnd | playAudio .writeError | playAudio .prepareError => false
  | _ => true

/-- The process has sent to the server and played what it would have with both
views, on the same blocks and chunks, and has not been told to stop. -/
def Unaffected (buffer : Bytes.Buffer sizeofBuffer) (actions : List Act) (s : Process) : Prop :=
  s.stopStreaming = false ∧
    ∃ full, (Process.machine allOpen).run (.init buffer) (actions.map Act.withView) = some full ∧
      sends .sockfd s.calls = sends .sockfd full.calls ∧ s.played = full.played

def AudioCap.streaming : AudioCap → Bool
  | closeSockfd | closeLocal | done => false
  | _ => true

def PlayAudio.streaming : PlayAudio → Bool
  | closeLocal | done => false
  | _ => true

/-- Nobody has been told to stop, and `main` waits. -/
structure Process.Streams (s : Process) : Prop where
  flag : s.stopStreaming = false
  capturing : s.audioCap.streaming = true
  playing : s.playAudio.streaming = true
  main : s.main = .joinCapture

section Steps

variable {cfg : Setup} {s next : Process} {a : Act}

theorem viewFails_stops (ha : a.viewFails = true)
    (hstep : (Process.machine cfg).step s a = some next) : next.stopStreaming = true := by
  cases a with
  | audioCap b =>
    cases audioCap_iff.mp hstep with
    | sendPacketError => rfl
    | _ => cases ha
  | playAudio b =>
    cases playAudio_iff.mp hstep with
    | sendLocalError => rfl
    | _ => cases ha
  | main => cases ha

/-- While no `send` to its view fails, a step of `audio_cap` is one with the view. -/
theorem audioCap_streams {b : AudioCapAct} (hopens : cfg.captureOpens = true) (hs : s.Streams)
    (hworks : (Act.audioCap b).works = true) (hview : (Act.audioCap b).viewFails = false)
    (hstep : (Process.machine cfg).step s (.audioCap b) = some next) :
    next.Streams ∧ (Process.machine allOpen).step s (.audioCap b) = some next := by
  obtain ⟨hflag, hcapturing, hplaying, hmain⟩ := hs
  have hkeeps : ∀ {s' : Process}, s'.stopStreaming = s.stopStreaming → s'.main = s.main →
      s'.playAudio = s.playAudio → s'.audioCap.streaming = true → s'.Streams := by
    intro s' hsame hmain' hplay hstreaming
    exact ⟨hsame.trans hflag, hstreaming, hplay ▸ hplaying, hmain'.trans hmain⟩
  cases audioCap_iff.mp hstep with
  | openCapture hpc _ => exact ⟨hkeeps rfl rfl rfl rfl, audioCap_iff.mpr (.openCapture hpc rfl)⟩
  | test hpc hrun => exact ⟨hkeeps rfl rfl rfl rfl, audioCap_iff.mpr (.test hpc hrun)⟩
  | capture audio now hpc hframes =>
    exact ⟨hkeeps rfl rfl rfl rfl, audioCap_iff.mpr (.capture audio now hpc hframes)⟩
  | captureError hpc => exact ⟨hkeeps rfl rfl rfl rfl, audioCap_iff.mpr (.captureError hpc)⟩
  | recover now hpc => exact ⟨hkeeps rfl rfl rfl rfl, audioCap_iff.mpr (.recover now hpc)⟩
  | send frCapture timestamp hpc =>
    exact ⟨hkeeps rfl rfl rfl rfl, audioCap_iff.mpr (.send frCapture timestamp hpc)⟩
  | sendPacket frCapture timestamp hpc _ =>
    exact ⟨hkeeps rfl rfl rfl rfl, audioCap_iff.mpr (.sendPacket frCapture timestamp hpc rfl)⟩
  | openCaptureError _ hdevice => cases hopens.symm.trans hdevice
  | stop _ hstop => cases hflag.symm.trans hstop
  | recoverError | sendError => cases hworks
  | sendPacketError => cases hview
  | closeSockfd hpc | closeLocal hpc =>
    rw [hpc] at hcapturing
    cases hcapturing

theorem playAudio_streams {b : PlayAudioAct} (hopens : cfg.playbackOpens = true) (hs : s.Streams)
    (hworks : (Act.playAudio b).works = true) (hview : (Act.playAudio b).viewFails = false)
    (hstep : (Process.machine cfg).step s (.playAudio b) = some next) :
    next.Streams ∧ (Process.machine allOpen).step s (.playAudio b) = some next := by
  obtain ⟨hflag, hcapturing, hplaying, hmain⟩ := hs
  have hkeeps : ∀ {s' : Process}, s'.stopStreaming = s.stopStreaming → s'.main = s.main →
      s'.audioCap = s.audioCap → s'.playAudio.streaming = true → s'.Streams := by
    intro s' hsame hmain' hcap hstreaming
    exact ⟨hsame.trans hflag, hcap ▸ hcapturing, hstreaming, hmain'.trans hmain⟩
  cases playAudio_iff.mp hstep with
  | openPlayback hpc _ =>
    exact ⟨hkeeps rfl rfl rfl rfl, playAudio_iff.mpr (.openPlayback hpc rfl)⟩
  | test hpc hrun => exact ⟨hkeeps rfl rfl rfl rfl, playAudio_iff.mpr (.test hpc hrun)⟩
  | recv bytes hpc hsize =>
    exact ⟨hkeeps rfl rfl rfl rfl, playAudio_iff.mpr (.recv bytes hpc hsize)⟩
  | write frames buffer hpc hframes =>
    exact ⟨hkeeps rfl rfl rfl rfl, playAudio_iff.mpr (.write frames buffer hpc hframes)⟩
  | underrun buffer hpc =>
    exact ⟨hkeeps rfl rfl rfl rfl, playAudio_iff.mpr (.underrun buffer hpc)⟩
  | prepare buffer hpc =>
    exact ⟨hkeeps rfl rfl rfl rfl, playAudio_iff.mpr (.prepare buffer hpc)⟩
  | sendLocal buffer hpc _ =>
    exact ⟨hkeeps rfl rfl rfl rfl, playAudio_iff.mpr (.sendLocal buffer hpc rfl)⟩
  | openPlaybackError _ hdevice => cases hopens.symm.trans hdevice
  | stop _ hstop => cases hflag.symm.trans hstop
  | recvEnd | writeError | prepareError => cases hworks
  | sendLocalError => cases hview
  | close hpc =>
    rw [hpc] at hplaying
    cases hplaying

theorem streams_step (hcapture : cfg.captureOpens = true) (hplayback : cfg.playbackOpens = true)
    (hs : s.Streams) (hworks : a.works = true) (hview : a.viewFails = false)
    (hstep : (Process.machine cfg).step s a = some next) :
    next.Streams ∧ (Process.machine allOpen).step s a.withView = some next := by
  cases a with
  | audioCap b =>
    have hsame : (Act.audioCap b).withView = .audioCap b := by
      cases b <;> first | rfl | cases hview
    rw [hsame]
    exact audioCap_streams hcapture hs hworks hview hstep
  | playAudio b =>
    have hsame : (Act.playAudio b).withView = .playAudio b := by
      cases b <;> first | rfl | cases hview
    rw [hsame]
    exact playAudio_streams hplayback hs hworks hview hstep
  | main =>
    cases main_iff.mp hstep with
    | joinCapture _ hdone =>
      have hcapturing := hs.capturing
      rw [hdone] at hcapturing
      cases hcapturing
    | joinPlayback hpc _ | closeSockfd hpc | closeCap hpc | closePlayback hpc =>
      cases hs.main.symm.trans hpc

end Steps

section Runs

variable {cfg : Setup} {buffer : Bytes.Buffer sizeofBuffer} {actions : List Act}
  {s finish : Process}

/-- A run in which no `send` to a view fails is a run of the process with both views. -/
theorem streams_run (hcapture : cfg.captureOpens = true) (hplayback : cfg.playbackOpens = true)
    (hworks : ∀ a ∈ actions, a.works = true) (hviews : ∀ a ∈ actions, a.viewFails = false)
    (hs : s.Streams) (hrun : (Process.machine cfg).run s actions = some finish) :
    finish.Streams ∧
      (Process.machine allOpen).run s (actions.map Act.withView) = some finish := by
  induction actions generalizing s with
  | nil =>
    obtain rfl := Option.some.inj hrun
    exact ⟨hs, rfl⟩
  | cons a rest ih =>
    simp only [Machine.run_cons, Option.bind_eq_some_iff] at hrun
    obtain ⟨next, hstep, hrest⟩ := hrun
    obtain ⟨hwork, hworks⟩ := List.forall_mem_cons.mp hworks
    obtain ⟨hview, hviews⟩ := List.forall_mem_cons.mp hviews
    obtain ⟨hnext, hfull⟩ := streams_step hcapture hplayback hs hwork hview hstep
    obtain ⟨hfinish, hlater⟩ := ih hworks hviews hnext hrest
    refine ⟨hfinish, ?_⟩
    rw [List.map_cons, Machine.run_cons, hfull]
    exact hlater

/-- Once a `send` to a view has failed, the flag is set. -/
theorem viewFails_run {a : Act} (ha : a ∈ actions) (hview : a.viewFails = true)
    (hrun : (Process.machine cfg).run s actions = some finish) : finish.stopStreaming = true := by
  obtain ⟨before, after, rfl⟩ := List.append_of_mem ha
  rw [Machine.run_append, Option.bind_eq_some_iff] at hrun
  obtain ⟨middle, -, hrest⟩ := hrun
  simp only [Machine.run_cons, Option.bind_eq_some_iff] at hrest
  obtain ⟨next, hstep, hlater⟩ := hrest
  exact Machine.run_preserves (P := fun s => s.stopStreaming = true)
    (fun _ _ _ hflag hstep => stopStreaming_stays hstep hflag) (viewFails_stops hview hstep) hlater

/-- As long as the server connection and the devices work, a run goes as with both
views exactly when none of its sends to a view fails. -/
theorem unaffected_iff (hcapture : cfg.captureOpens = true) (hplayback : cfg.playbackOpens = true)
    (hworks : ∀ a ∈ actions, a.works = true)
    (hrun : (Process.machine cfg).run (.init buffer) actions = some finish) :
    Unaffected buffer actions finish ↔ ∀ a ∈ actions, a.viewFails = false := by
  constructor
  · rintro ⟨hflag, -⟩ a ha
    cases hview : a.viewFails with
    | false => rfl
    | true => exact absurd (viewFails_run ha hview hrun) (by rw [hflag]; exact Bool.false_ne_true)
  · intro hviews
    have hstart : (Process.init buffer).Streams := ⟨rfl, rfl, rfl, rfl⟩
    obtain ⟨hs, hfull⟩ := streams_run hcapture hplayback hworks hviews hstart hrun
    exact ⟨hs.flag, finish, hfull, rfl, rfl⟩

end Runs

section NoViews

def noViews : Setup where
  cap := some fun _ => false
  playback := some fun _ => false
  captureOpens := true
  playbackOpens := true

def firstPass : List Act :=
  [.audioCap .openCapture, .audioCap .test, .audioCap (.capture [1, 2, 3, 4] 0), .audioCap .send,
    .audioCap .sendPacketError]

theorem run_firstPass : ∃ s, (Process.machine noViews).run (.init .zero) firstPass = some s :=
  ⟨_, rfl⟩

theorem unaffected_iff_firstPass :
    ∃ s, (Process.machine noViews).run (.init .zero) firstPass = some s ∧
      (Unaffected .zero firstPass s ↔ ∀ a ∈ firstPass, a.viewFails = false) := by
  obtain ⟨s, hrun⟩ := run_firstPass
  exact ⟨s, hrun, unaffected_iff rfl rfl (by decide) hrun⟩

/-- After one block the client stops. -/
theorem stopped_without_views :
    ∃ s, (Process.machine noViews).run (.init .zero) firstPass = some s ∧
      (∀ a ∈ firstPass, a.works = true) ∧ s.stopStreaming = true ∧ s.audioCap = .closeSockfd ∧
      ¬Unaffected .zero firstPass s := by
  obtain ⟨s, hrun⟩ := run_firstPass
  have hfails : Act.audioCap .sendPacketError ∈ firstPass := by decide
  have hflag : s.stopStreaming = true := viewFails_run hfails rfl hrun
  refine ⟨s, hrun, by decide, hflag, ?_, ?_⟩
  · obtain rfl := Option.some.inj hrun
    rfl
  · rintro ⟨hnot, -⟩
    exact Bool.false_ne_true (hnot.symm.trans hflag)

end NoViews

end MediaStream.TCPS.Client
