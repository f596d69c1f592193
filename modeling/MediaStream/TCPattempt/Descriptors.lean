import Mathlib.Data.List.Nodup
import MediaStream.TCPattempt.Client

/-!
Who closes what in `TCPclient2.cpp`. Every socket has one owner: a view belongs to
the thread that feeds it, and the connection to the server to `main`, which closes
it after both threads have returned. A thread whose device cannot be opened
returns without closing its view.
-/

namespace MediaStream.TCPattempt

open Lib

namespace Process

/-- The socket has been closed, as the program points tell. -/
def closed (cfg : Setup) (s : Process) : Socket → Bool
  | .sockfd => s.main = .done
  | .localSockfdCapture => s.audioCap = .done && cfg.captureOpens
  | .localSockfdPlayback => s.playAudio = .done && cfg.playbackOpens

/-- No call names a socket that has been closed before, and each socket has been closed as often
as the program points tell: never or once. -/
structure Owned (cfg : Setup) (s : Process) : Prop where
  open_when_used : s.calls.Pairwise fun first later => first ≠ .close later.socket
  count_close : ∀ socket, s.calls.count (.close socket) = if s.closed cfg socket then 1 else 0

/-- The threads do not enter their loops without a device, and `main` goes on when they have
returned. -/
structure Joined (cfg : Setup) (s : Process) : Prop where
  capture : s.audioCap = .openCapture ∨ s.audioCap = .done ∨ cfg.captureOpens = true
  playback : s.playAudio = .openPlayback ∨ s.playAudio = .done ∨ cfg.playbackOpens = true
  audioCap : s.main ≠ .joinCapture → s.audioCap = .done
  playAudio : s.main = .closeSockfd ∨ s.main = .done → s.playAudio = .done

end Process

section Step

variable {cfg : Setup} {s next : Process}

/-- A call on a socket that is open. -/
theorem pairwise_snoc {calls : List Call} {c : Call}
    (h : calls.Pairwise fun first later => first ≠ .close later.socket)
    (hopen : calls.count (.close c.socket) = 0) :
    (calls ++ [c]).Pairwise fun first later => first ≠ .close later.socket := by
  refine List.pairwise_append.mpr ⟨h, List.pairwise_singleton .., ?_⟩
  rintro first hfirst later hlater rfl
  obtain rfl := List.mem_singleton.mp hlater
  exact List.count_eq_zero.mp hopen hfirst

/-- A step that makes no call or one, on an open socket, and closes the sockets that are closed
after it. -/
theorem Process.Owned.step (h : s.Owned cfg) {calls : List Call}
    (hcalls : next.calls = s.calls ++ calls)
    (hone : calls = [] ∨ ∃ c, calls = [c] ∧ s.closed cfg c.socket = false)
    (hclosed : ∀ socket, (if next.closed cfg socket then 1 else 0) =
      (if s.closed cfg socket then 1 else 0) + calls.count (.close socket)) :
    next.Owned cfg where
  open_when_used := by
    rw [hcalls]
    rcases hone with rfl | ⟨c, rfl, hopen⟩
    · rw [List.append_nil]
      exact h.open_when_used
    · apply pairwise_snoc h.open_when_used
      rw [h.count_close, hopen]
      rfl
  count_close socket := by
    rw [hcalls, List.count_append, h.count_close, hclosed]

/-- The calls of `audio_cap`, and when it returns. -/
theorem audioCap_calls {stop stop' : Bool} {pc pc' : AudioCap} {a : AudioCapAct}
    {calls : List Call} (h : AudioCapMove cfg stop pc a pc' calls stop') :
    pc ≠ .done ∧ (pc' ≠ .done → pc = .openCapture → cfg.captureOpens = true) ∧
      (pc' = .done ↔ pc = .closeLocal ∨ pc = .openCapture ∧ cfg.captureOpens = false) ∧
      (calls = [] ∨ ∃ c, calls = [c] ∧ c.socket ≠ .localSockfdPlayback) ∧
      ∀ socket, calls.count (.close socket) =
        if socket = .localSockfdCapture ∧ pc = .closeLocal then 1 else 0 := by
  cases h with
  | close =>
    refine ⟨nofun, nofun, by simp, Or.inr ⟨_, rfl, nofun⟩, fun socket => ?_⟩
    cases socket <;> rfl
  | openCapture hdevice | openCaptureError hdevice => simp [hdevice]
  | test | stop | capture | captureError | recover | recoverError => simp
  | send | sendError | sendLocal | sendLocalError => simp [Call.socket]

/-- The calls of `play_audio`, and when it returns. -/
theorem playAudio_calls {stop stop' : Bool} {pc pc' : PlayAudio} {a : PlayAudioAct}
    {calls : List Call} (h : PlayAudioMove cfg stop pc a pc' calls stop') :
    pc ≠ .done ∧ (pc' ≠ .done → pc = .openPlayback → cfg.playbackOpens = true) ∧
      (pc' = .done ↔ pc = .closeLocal ∨ pc = .openPlayback ∧ cfg.playbackOpens = false) ∧
      (calls = [] ∨ ∃ c, calls = [c] ∧ c.socket ≠ .localSockfdCapture) ∧
      ∀ socket, calls.count (.close socket) =
        if socket = .localSockfdPlayback ∧ pc = .closeLocal then 1 else 0 := by
  cases h with
  | close =>
    refine ⟨nofun, nofun, by simp, Or.inr ⟨_, rfl, nofun⟩, fun socket => ?_⟩
    cases socket <;> rfl
  | openPlayback hdevice | openPlaybackError hdevice => simp [hdevice]
  | test | stop | write | underrun | writeError | prepare | prepareError => simp
  | recv | recvEnd | sendLocal | sendLocalError => simp [Call.socket]

theorem owned_audioCap {a : AudioCapAct} (h : s.Owned cfg) (hjoined : s.Joined cfg)
    (hstep : (Process.machine cfg).step s (.audioCap a) = some next) :
    next.Owned cfg ∧ next.Joined cfg := by
  obtain ⟨calls, hmove, hcalls, hplay, hmain, -⟩ := audioCap_move hstep
  obtain ⟨hrunning, hdevice, hreturns, hone, hcloses⟩ := audioCap_calls hmove
  have hwaiting : s.main = .joinCapture := by
    by_contra hpast
    exact hrunning (hjoined.audioCap hpast)
  have hcapture : cfg.captureOpens = true ∨
      cfg.captureOpens = false ∧ s.audioCap = .openCapture := by
    cases hopens : cfg.captureOpens with
    | true => exact Or.inl rfl
    | false =>
      rcases hjoined.capture with hstart | hdone | hyes
      · exact Or.inr ⟨rfl, hstart⟩
      · exact absurd hdone hrunning
      · cases hopens.symm.trans hyes
  constructor
  · apply h.step hcalls
    · apply hone.imp_right
      rintro ⟨c, rfl, hmine⟩
      refine ⟨c, rfl, ?_⟩
      cases hsocket : c.socket with
      | sockfd => simp [Process.closed, hwaiting]
      | localSockfdCapture => simp [Process.closed, hrunning]
      | localSockfdPlayback => exact absurd hsocket hmine
    · rintro (_ | _ | _)
      · simp [Process.closed, hmain, hcloses]
      · rcases hcapture with hopens | ⟨hfails, hstart⟩
        · simp [Process.closed, hrunning, hcloses, hreturns, hopens]
        · simp [Process.closed, hcloses, hfails, hstart]
      · simp [Process.closed, hplay, hcloses]
  · refine ⟨?_, by rw [hplay]; exact hjoined.playback, fun hpast => absurd hwaiting (hmain ▸ hpast),
      ?_⟩
    · by_cases hdone : next.audioCap = .done
      · exact Or.inr (Or.inl hdone)
      · exact Or.inr (Or.inr (hcapture.elim id fun hfails => hdevice hdone hfails.2))
    · rw [hmain, hwaiting]
      rintro (hpast | hpast) <;> cases hpast

theorem owned_playAudio {a : PlayAudioAct} (h : s.Owned cfg) (hjoined : s.Joined cfg)
    (hstep : (Process.machine cfg).step s (.playAudio a) = some next) :
    next.Owned cfg ∧ next.Joined cfg := by
  obtain ⟨calls, hmove, hcalls, hcap, hmain⟩ := playAudio_move hstep
  obtain ⟨hrunning, hdevice, hreturns, hone, hcloses⟩ := playAudio_calls hmove
  have hwaiting : ¬(s.main = .closeSockfd ∨ s.main = .done) :=
    fun hpast => hrunning (hjoined.playAudio hpast)
  have hplayback : cfg.playbackOpens = true ∨
      cfg.playbackOpens = false ∧ s.playAudio = .openPlayback := by
    cases hopens : cfg.playbackOpens with
    | true => exact Or.inl rfl
    | false =>
      rcases hjoined.playback with hstart | hdone | hyes
      · exact Or.inr ⟨rfl, hstart⟩
      · exact absurd hdone hrunning
      · cases hopens.symm.trans hyes
  constructor
  · apply h.step hcalls
    · apply hone.imp_right
      rintro ⟨c, rfl, hmine⟩
      refine ⟨c, rfl, ?_⟩
      cases hsocket : c.socket with
      | sockfd => simpa [Process.closed] using fun hdone => hwaiting (Or.inr hdone)
      | localSockfdCapture => exact absurd hsocket hmine
      | localSockfdPlayback => simp [Process.closed, hrunning]
    · rintro (_ | _ | _)
      · simp [Process.closed, hmain, hcloses]
      · simp [Process.closed, hcap, hcloses]
      · rcases hplayback with hopens | ⟨hfails, hstart⟩
        · simp [Process.closed, hrunning, hcloses, hreturns, hopens]
        · simp [Process.closed, hcloses, hfails, hstart]
  · refine ⟨by rw [hcap]; exact hjoined.capture, ?_, by rw [hmain, hcap]; exact hjoined.audioCap,
      fun hpast => absurd (hmain ▸ hpast) hwaiting⟩
    by_cases hdone : next.playAudio = .done
    · exact Or.inr (Or.inl hdone)
    · exact Or.inr (Or.inr (hplayback.elim id fun hfails => hdevice hdone hfails.2))

theorem owned_main (h : s.Owned cfg) (hjoined : s.Joined cfg)
    (hstep : (Process.machine cfg).step s .main = some next) :
    next.Owned cfg ∧ next.Joined cfg := by
  rcases main_cases hstep with ⟨hpc, hdone, rfl⟩ | ⟨hpc, hdone, rfl⟩ | ⟨hpc, rfl⟩
  · refine ⟨h.step (List.append_nil _).symm (Or.inl rfl) ?_, hjoined.capture, hjoined.playback,
      fun _ => hdone, fun hpast => ?_⟩
    · rintro (_ | _ | _) <;> simp [Process.closed, hpc]
    · rcases hpast with hpast | hpast <;> cases hpast
  · refine ⟨h.step (List.append_nil _).symm (Or.inl rfl) ?_, hjoined.capture, hjoined.playback,
      fun _ => hjoined.audioCap (by simp [hpc]), fun _ => hdone⟩
    rintro (_ | _ | _) <;> simp [Process.closed, hpc]
  · refine ⟨h.step rfl (Or.inr ⟨_, rfl, ?_⟩) ?_, hjoined.capture, hjoined.playback,
      fun _ => hjoined.audioCap (by simp [hpc]), fun _ => hjoined.playAudio (Or.inl hpc)⟩
    · simp [Process.closed, Call.socket, hpc]
    · rintro (_ | _ | _) <;> simp [Process.closed, Process.call, hpc]

theorem owned_step {a : Act} (h : s.Owned cfg) (hjoined : s.Joined cfg)
    (hstep : (Process.machine cfg).step s a = some next) : next.Owned cfg ∧ next.Joined cfg := by
  cases a with
  | audioCap a => exact owned_audioCap h hjoined hstep
  | playAudio a => exact owned_playAudio h hjoined hstep
  | main => exact owned_main h hjoined hstep

end Step

/-- In every run, whatever fails and whenever the threads stop, no socket is used after it has
been closed and none is closed twice; when `main` has returned, the connection to the server has
been closed once, and so has each view whose device could be opened. -/
theorem sockets_owned {cfg : Setup} {s : Process}
    (h : (Process.machine cfg).Reaches Process.init s) :
    (s.calls.Pairwise fun first later => first ≠ .close later.socket) ∧
      (∀ socket, s.calls.count (.close socket) ≤ 1) ∧
      (s.main = .done → s.calls.count (.close .sockfd) = 1 ∧
        (s.calls.count (.close .localSockfdCapture) = 1 ↔ cfg.captureOpens = true) ∧
        (s.calls.count (.close .localSockfdPlayback) = 1 ↔ cfg.playbackOpens = true)) := by
  have hkept : s.Owned cfg ∧ s.Joined cfg := by
    apply h.preserves (P := fun s => s.Owned cfg ∧ s.Joined cfg)
    · intro s a next hs hstep
      exact owned_step hs.1 hs.2 hstep
    · refine ⟨⟨List.Pairwise.nil, ?_⟩, Or.inl rfl, Or.inl rfl, fun hpast => absurd rfl hpast, ?_⟩
      · rintro (_ | _ | _) <;> rfl
      · rintro (hpast | hpast) <;> cases hpast
  obtain ⟨howned, hjoined⟩ := hkept
  refine ⟨howned.open_when_used, fun socket => ?_, fun hdone => ?_⟩
  · rw [howned.count_close]
    split <;> decide
  · have hcap := hjoined.audioCap (by simp [hdone])
    have hplay := hjoined.playAudio (Or.inr hdone)
    simp [howned.count_close, Process.closed, hdone, hcap, hplay]

/-- The capture device cannot be opened, and the server ends the connection. -/
def deafRun : List Act :=
  [.audioCap .openCapture, .playAudio .openPlayback, .playAudio .test, .main, .playAudio .recvEnd,
    .playAudio .close, .main, .main]

theorem sockets_owned_deafRun :
    ∃ s, (Process.machine ⟨false, true⟩).run Process.init deafRun = some s ∧
      s.calls = [.recv .sockfd none, .close .localSockfdPlayback, .close .sockfd] ∧
      (s.calls.Pairwise fun first later => first ≠ .close later.socket) ∧
      (∀ socket, s.calls.count (.close socket) ≤ 1) ∧
      (s.calls.count (.close .localSockfdCapture) = 1 ↔ false = true) := by
  obtain ⟨hopen, honce, hdone⟩ := sockets_owned
    (⟨deafRun, rfl⟩ : (Process.machine ⟨false, true⟩).Reaches Process.init _)
  exact ⟨_, rfl, rfl, hopen, honce, (hdone rfl).2.1⟩

end MediaStream.TCPattempt
