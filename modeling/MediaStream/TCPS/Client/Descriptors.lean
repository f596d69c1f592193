import Mathlib.Data.List.Nodup
import MediaStream.TCPS.Client.Process

/-!
Who closes what. `audio_cap` and `play_audio` close the sockets they were given
when they leave their loops, and `main`, which has given them, closes them once
more. When the sound card cannot be opened they return without closing, and a
socket that no attempt but the last could connect is closed by nobody.
-/

namespace MediaStream.TCPS.Client

open Lib

/-- No call names a socket that has been closed before, and when `main` has
returned, every socket that was opened has been closed exactly once. -/
def Owned (cfg : Setup) (s : Process) : Prop :=
  (s.calls.Pairwise fun first later => first ≠ .close later.socket) ∧
    (s.main = .done →
      ∀ socket, cfg.opened socket = true → s.calls.count (.close socket) = 1)

/-- Those who would close a socket besides `main` cannot open their devices, and
every view that got a socket has been connected before the last attempt. -/
def Setup.Clean (cfg : Setup) : Prop :=
  cfg.captureOpens = false ∧
    (∀ connects, cfg.cap = some connects → ∃ attempt < 4, connects attempt = true) ∧
    ∀ connects, cfg.playback = some connects →
      (∃ attempt < 4, connects attempt = true) ∧ cfg.playbackOpens = false

def closedBy (cfg : Setup) : Main → List Socket
  | .joinCapture | .joinPlayback | .closeSockfd => []
  | .closeCap => [.sockfd]
  | .closePlayback => .sockfd :: cfg.localSockfdCap.toList
  | .done => .sockfd :: (cfg.localSockfdCap.toList ++ cfg.localSockfdPlayback.toList)

structure OnlyMain (cfg : Setup) (s : Process) : Prop where
  calls : ∃ used : List Call, s.calls = used ++ (closedBy cfg s.main).map .close ∧
    ∀ call ∈ used, ∀ socket, call ≠ .close socket
  capture : s.audioCap = .openCapture ∨ s.audioCap = .done
  playback : cfg.localSockfdPlayback = none ∨ s.playAudio = .openPlayback ∨ s.playAudio = .done
  joined : s.main = .joinCapture ∨ s.main = .joinPlayback ∨ s.playAudio = .done

section Clean

variable {cfg : Setup} {s next : Process} {a : Act}

theorem nodup_closedBy (cfg : Setup) (pc : Main) : (closedBy cfg pc).Nodup := by
  rcases localSockfdCap_cases cfg with hcap | hcap <;>
    rcases localSockfdPlayback_cases cfg with hplayback | hplayback <;>
    cases pc <;> simp [closedBy, hcap, hplayback]

/-- Every socket that was opened is kept, and `main` closes it. -/
theorem mem_closedBy_done (hclean : cfg.Clean) {socket : Socket}
    (hopened : cfg.opened socket = true) : socket ∈ closedBy cfg .done := by
  obtain ⟨-, hcap, hplayback⟩ := hclean
  cases socket with
  | sockfd => exact List.mem_cons_self ..
  | localSockfdCap =>
    obtain ⟨connects, hsome⟩ := Option.isSome_iff_exists.mp hopened
    have hkept : cfg.localSockfdCap = some .localSockfdCap :=
      viewSocket_eq_some.mpr ⟨connects, hsome, hcap connects hsome⟩
    simp [closedBy, hkept]
  | localSockfdPlayback =>
    obtain ⟨connects, hsome⟩ := Option.isSome_iff_exists.mp hopened
    have hkept : cfg.localSockfdPlayback = some .localSockfdPlayback :=
      viewSocket_eq_some.mpr ⟨connects, hsome, (hplayback connects hsome).1⟩
    simp [closedBy, hkept]

theorem owned_of_onlyMain (hclean : cfg.Clean) (hs : OnlyMain cfg s) : Owned cfg s := by
  obtain ⟨used, hcalls, hused⟩ := hs.calls
  constructor
  · rw [hcalls, List.pairwise_append]
    refine ⟨?_, ?_, fun first hfirst later _ => hused first hfirst _⟩
    · exact List.pairwise_of_forall_mem_list fun first hfirst later _ => hused first hfirst _
    · rw [List.pairwise_map]
      apply (nodup_closedBy cfg s.main).imp
      rintro first later hne hsame
      exact hne (Call.close.inj hsame)
  · intro hdone socket hopened
    have hmem := mem_closedBy_done hclean hopened
    have hnot : Call.close socket ∉ used := fun hin => hused _ hin socket rfl
    have hnodup : ((closedBy cfg .done).map Call.close).Nodup :=
      (nodup_closedBy cfg .done).map fun _ _ => Call.close.inj
    rw [hcalls, hdone, List.count_append, List.count_eq_zero_of_not_mem hnot, Nat.zero_add]
    exact List.count_eq_one_of_mem hnodup (List.mem_map_of_mem hmem)

theorem onlyMain_init (buffer : Bytes.Buffer sizeofBuffer) : OnlyMain cfg (Process.init buffer) :=
  ⟨⟨[], rfl, nofun⟩, Or.inl rfl, Or.inr (Or.inl rfl), Or.inl rfl⟩

/-- `main` closes the next socket of its list. -/
theorem onlyMain_main (hs : OnlyMain cfg s)
    (hstep : (Process.machine cfg).step s .main = some next) : OnlyMain cfg next := by
  obtain ⟨⟨used, hcalls, hused⟩, hcapture, hplayback, hjoined⟩ := hs
  cases main_iff.mp hstep with
  | joinCapture hpc _ =>
    rw [hpc] at hcalls
    exact ⟨⟨used, hcalls, hused⟩, hcapture, hplayback, Or.inr (Or.inl rfl)⟩
  | joinPlayback hpc hreturned =>
    rw [hpc] at hcalls
    exact ⟨⟨used, hcalls, hused⟩, hcapture, hplayback, Or.inr (Or.inr hreturned)⟩
  | closeSockfd hpc | closeCap hpc | closePlayback hpc =>
    rw [hpc] at hcalls hjoined
    have hreturned : s.playAudio = .done := by simpa using hjoined
    refine ⟨⟨used, ?_, hused⟩, hcapture, hplayback, Or.inr (Or.inr hreturned)⟩
    simp [Process.call, hcalls, closedBy, Option.toList_map]

theorem onlyMain_step (hclean : cfg.Clean) (hs : OnlyMain cfg s)
    (hstep : (Process.machine cfg).step s a = some next) : OnlyMain cfg next := by
  cases a with
  | audioCap a =>
    obtain rfl := audioCap_closed hclean.1 hs.capture hstep
    exact ⟨hs.calls, Or.inr rfl, hs.playback, hs.joined⟩
  | playAudio a =>
    rcases localSockfdPlayback_cases cfg with hnone | hsome
    · -- There is nothing for `play_audio` to close.
      obtain ⟨hcapture, hmain, hrunning, new, hcalls, hnew⟩ := playAudio_step hstep
      obtain ⟨used, hused, hopen⟩ := hs.calls
      have hjoining := hs.joined
      rw [or_iff_left hrunning] at hjoining
      have hclosed : closedBy cfg s.main = [] := by
        rcases hjoining with hpc | hpc <;> rw [hpc] <;> rfl
      have hopen' : ∀ call ∈ new, ∀ socket, call ≠ .close socket := by
        rcases hnew with hnew | rfl
        · exact hnew
        · simp [hnone]
      rw [hclosed, List.map_nil, List.append_nil] at hused
      refine ⟨⟨used ++ new, ?_, ?_⟩, hcapture ▸ hs.capture, Or.inl hnone, ?_⟩
      · rw [hmain, hclosed, List.map_nil, List.append_nil, hcalls, hused]
      · intro call hcall
        exact (List.mem_append.mp hcall).elim (hopen call) (hopen' call)
      · rw [hmain]
        exact hjoining.imp_right Or.inl
    · -- The device is closed, so `play_audio` returns without closing.
      obtain ⟨connects, hplayback, -⟩ := viewSocket_eq_some.mp hsome
      have hdevice := (hclean.2.2 connects hplayback).2
      have hpc := hs.playback.resolve_left (by simp [hsome])
      obtain rfl := playAudio_closed hdevice hpc hstep
      exact ⟨hs.calls, hs.capture, Or.inr (Or.inr rfl), Or.inr (Or.inr rfl)⟩
  | main => exact onlyMain_main hs hstep

end Clean

section Runs

variable {cfg : Setup}

def quickRun (cfg : Setup) : List Act :=
  (if cfg.captureOpens then
    [Act.audioCap .openCapture, .audioCap .test, .audioCap .captureError,
      .audioCap .recoverError, .audioCap .close, .audioCap .close]
  else [Act.audioCap .openCapture]) ++
  (if cfg.playbackOpens then
    [Act.playAudio .openPlayback, .playAudio .test, .playAudio .recvEnd, .playAudio .close]
  else [Act.playAudio .openPlayback]) ++
  List.replicate 5 Act.main

def quickCalls (cfg : Setup) : List Call :=
  (if cfg.captureOpens then .close .sockfd :: (cfg.localSockfdCap.map Call.close).toList else []) ++
  (if cfg.playbackOpens then
    .recv .sockfd none :: (cfg.localSockfdPlayback.map Call.close).toList
  else []) ++
  (closedBy cfg .done).map .close

theorem quickRun_calls (cfg : Setup) (buffer : Bytes.Buffer sizeofBuffer) :
    ∃ s, (Process.machine cfg).run (Process.init buffer) (quickRun cfg) = some s ∧
      s.main = .done ∧ s.calls = quickCalls cfg := by
  obtain ⟨cap, playback, captureOpens, playbackOpens⟩ := cfg
  cases captureOpens <;> cases playbackOpens <;> refine ⟨_, rfl, rfl, ?_⟩ <;>
    simp [quickCalls, closedBy, Process.call, Process.init, Option.toList_map]

theorem count_close (given : Option Socket) (socket : Socket) :
    (given.map Call.close).toList.count (.close socket) = if given = some socket then 1 else 0 := by
  cases given with
  | none => rfl
  | some other => simp [List.count_cons]

theorem count_closedBy_done (cfg : Setup) (socket : Socket) :
    ((closedBy cfg .done).map Call.close).count (.close socket) =
      (if .sockfd = socket then 1 else 0) + (if cfg.localSockfdCap = some socket then 1 else 0) +
        (if cfg.localSockfdPlayback = some socket then 1 else 0) := by
  have hcap := count_close cfg.localSockfdCap socket
  have hplayback := count_close cfg.localSockfdPlayback socket
  rw [Option.toList_map] at hcap hplayback
  rw [closedBy, List.map_cons, List.map_append, List.count_cons, List.count_append, hcap, hplayback]
  simp only [beq_iff_eq, Call.close.injEq]
  omega

/-- `audio_cap`, `play_audio` and `main` each close what they have. -/
theorem count_quickCalls (cfg : Setup) (socket : Socket) :
    (quickCalls cfg).count (.close socket) =
      (if cfg.captureOpens then
        (if .sockfd = socket then 1 else 0) + (if cfg.localSockfdCap = some socket then 1 else 0)
      else 0) +
      (if cfg.playbackOpens then (if cfg.localSockfdPlayback = some socket then 1 else 0) else 0) +
      ((if .sockfd = socket then 1 else 0) + (if cfg.localSockfdCap = some socket then 1 else 0) +
        (if cfg.localSockfdPlayback = some socket then 1 else 0)) := by
  rw [quickCalls, List.count_append, List.count_append, count_closedBy_done]
  congr 2
  · split
    · rw [List.count_cons, count_close, Nat.add_comm]
      simp only [beq_iff_eq, Call.close.injEq]
    · rfl
  · split
    · rw [List.count_cons, count_close]
      simp
    · rfl

/-- What the counts of that run say about the setup. -/
theorem clean_of_quickCalls
    (h : ∀ socket, cfg.opened socket = true → (quickCalls cfg).count (.close socket) = 1) :
    cfg.Clean := by
  have hcapture : cfg.captureOpens = false := by
    have hcount := h .sockfd rfl
    rw [count_quickCalls] at hcount
    by_contra hopens
    rw [if_pos (Bool.of_not_eq_false hopens), if_pos rfl] at hcount
    omega
  have hcap : cfg.localSockfdCap ≠ some .localSockfdPlayback := by
    rcases localSockfdCap_cases cfg with hcap | hcap <;> simp [hcap]
  have hplayback : cfg.localSockfdPlayback ≠ some .localSockfdCap := by
    rcases localSockfdPlayback_cases cfg with hplayback | hplayback <;> simp [hplayback]
  refine ⟨hcapture, fun connects hsome => ?_, fun connects hsome => ?_⟩
  · -- A socket that is not kept is closed by nobody.
    have hcount := h .localSockfdCap (by simp [Setup.opened, hsome])
    rw [count_quickCalls] at hcount
    have hkept : cfg.localSockfdCap = some .localSockfdCap := by
      by_contra hlost
      simp [hcapture, hlost, hplayback] at hcount
    obtain ⟨others, hothers, hconnects⟩ := viewSocket_eq_some.mp hkept
    exact Option.some.inj (hsome.symm.trans hothers) ▸ hconnects
  · -- One that is kept is closed by `main`, and by `play_audio` if it has run.
    have hcount := h .localSockfdPlayback (by simp [Setup.opened, hsome])
    rw [count_quickCalls] at hcount
    have hkept : cfg.localSockfdPlayback = some .localSockfdPlayback := by
      by_contra hlost
      simp [hcapture, hlost, hcap] at hcount
    obtain ⟨others, hothers, hconnects⟩ := viewSocket_eq_some.mp hkept
    refine ⟨Option.some.inj (hsome.symm.trans hothers) ▸ hconnects, ?_⟩
    simpa [hcapture, hkept, hcap] using hcount

/-- The descriptors are owned in every run exactly when nobody but `main` ever
closes one, and `main` closes them all: the capture device cannot be opened, each
view that got a socket was connected in one of the first four attempts, and if the
playback view got one, the playback device cannot be opened either. -/
theorem descriptors_owned_iff (cfg : Setup) (buffer : Bytes.Buffer sizeofBuffer) :
    (∀ s, (Process.machine cfg).Reaches (Process.init buffer) s → Owned cfg s) ↔ cfg.Clean := by
  constructor
  · intro howned
    obtain ⟨s, hrun, hdone, hcalls⟩ := quickRun_calls cfg buffer
    have hcounts := (howned s ⟨_, hrun⟩).2 hdone
    rw [hcalls] at hcounts
    exact clean_of_quickCalls hcounts
  · intro hclean s hreach
    have honly : OnlyMain cfg s :=
      hreach.preserves (fun _ _ _ => onlyMain_step hclean) (onlyMain_init buffer)
    exact owned_of_onlyMain hclean honly

/-- Every connection is made at once and every device opens. -/
def allWorking : Setup where
  cap := some fun _ => true
  playback := some fun _ => true
  captureOpens := true
  playbackOpens := true

/-- The capture fails: `audio_cap` closes `sockfd`, `play_audio` receives from it
once more, and `main` closes it again. -/
theorem sockfd_used_after_close :
    ∃ s, (Process.machine allWorking).Reaches (Process.init .zero) s ∧ s.main = .done ∧
      s.calls.count (.close .sockfd) = 2 ∧
      [.close .sockfd, .recv .sockfd none].Sublist s.calls ∧ ¬Owned allWorking s := by
  obtain ⟨s, hrun, hdone, hcalls⟩ := quickRun_calls allWorking .zero
  have htwice : s.calls.count (.close .sockfd) = 2 := by
    rw [hcalls]
    decide
  refine ⟨s, ⟨_, hrun⟩, hdone, htwice, ?_, ?_⟩
  · rw [hcalls]
    decide
  · intro howned
    have honce := howned.2 hdone .sockfd rfl
    omega

end Runs

end MediaStream.TCPS.Client
