import MediaStream.Lib.Multicast
import MediaStream.OnlineAV.Partition
import MediaStream.OnlineAV.SentFrame
import MediaStream.OnlineAV.SharedPeers

/-!
A frame goes out fragment by fragment, and `VideoRecandSend` gives `peer_mute`
back after every one of them. A peer that `LookForPeers` adds in between is sent
the tail of the frame; `AudioRecAndSend`, by contrast, copies the list.
-/

namespace MediaStream.OnlineAV

open Lib Lib.Bytes Lib.Multicast

structure FrameLog where
  frame : EncFrame
  frameSeq : UInt32
  /-- `peer_List` at each of the critical sections for its fragments. -/
  lists : List (List SockaddrIn)
  /-- The fragments in the order of their `sendto`, each with its destination. -/
  sent : List (SockaddrIn × VideoFragment)

namespace FrameLog

def fragments (f : FrameLog) : List VideoFragment := f.frame.fragments f.frameSeq

/-- No peer is added between the first fragment of the frame and the last one. -/
def Undisturbed (f : FrameLog) : Prop := ∀ list ∈ f.lists, ∀ other ∈ f.lists, list = other

/-- Every fragment of the frame has been sent to the peers at its time. -/
structure Complete (f : FrameLog) : Prop where
  length : f.lists.length = f.fragments.length
  nodup : ∀ list ∈ f.lists, list.Nodup
  grows : f.lists.Pairwise (· <+: ·)
  sent : f.sent = multicast f.lists f.fragments

end FrameLog

theorem sendFragments_eq_multicast {lists : List (List SockaddrIn)}
    {fragments : List VideoFragment} (t : Nat) (hlen : (lists.drop t).length = fragments.length) :
    sendFragments (fun i => lists.getD i []) t fragments = multicast (lists.drop t) fragments := by
  induction fragments generalizing t with
  | nil =>
    rw [List.length_eq_zero_iff.mp hlen]
    rfl
  | cons fragment rest ih =>
    rw [List.length_drop, List.length_cons] at hlen
    have ht : t < lists.length := by omega
    have hrest : (lists.drop (t + 1)).length = rest.length := by
      rw [List.length_drop]
      omega
    have hfirst : lists.getD t [] = lists[t] := by simp [ht]
    rw [List.drop_eq_getElem_cons ht, multicast_cons, sendFragments, ih (t + 1) hrest, hfirst]
    rfl

/-- What goes out for a frame, with the list as it was at each critical section. -/
theorem FrameLog.Complete.sent_eq {f : FrameLog} (h : f.Complete) :
    f.sent = sendFragments (fun i => f.lists.getD i []) 0 f.fragments := by
  rw [sendFragments_eq_multicast 0 h.length, h.sent, List.drop_zero]

structure VideoLog where
  /-- The frames that have been sent. -/
  frames : List FrameLog
  /-- The frame at hand, or the last one. -/
  current : FrameLog

def VideoLog.init : VideoLog where
  frames := []
  current := ⟨⟨[], by decide⟩, 0, [], []⟩

namespace SharedPeers

def logVideo (s : SharedPeers) (a : Act) (log : VideoLog) : VideoLog :=
  match a with
  | .sendVideo (.read (some frame)) => { log with current := ⟨frame, s.video.frameSeq, [], []⟩ }
  | .sendVideo .lock =>
    { log with current.lists := log.current.lists ++ [s.shared.peerList] }
  | .sendVideo .sendto => match s.video.point with
    | .sendto fragment _ iterator =>
      { log with current.sent := log.current.sent ++
        (s.shared.peerList[iterator]?.map fun peer => (peer, fragment)).toList }
    | _ => log
  | .sendVideo .frameSent => { log with frames := log.frames ++ [log.current] }
  | _ => log

def streaming : Machine (SharedPeers × VideoLog) Act := machine.monitored logVideo

def Progress (s : SharedPeers) (f : FrameLog) : Prop :=
  match s.video.point with
  | .fragments rest => ∃ done, f.fragments = done ++ rest ∧ f.lists.length = done.length ∧
      f.sent = multicast f.lists done
  | .sendto fragment rest iterator => ∃ done before, f.fragments = done ++ fragment :: rest ∧
      f.lists = before ++ [s.shared.peerList] ∧ before.length = done.length ∧
      f.sent = multicast before done ++ sendAll (s.shared.peerList.take iterator) fragment
  | _ => True

structure Streams (s : SharedPeers) (log : VideoLog) : Prop where
  locked : s.Locked
  nodup : s.shared.peerList.Nodup
  frames : ∀ f ∈ log.frames, f.Complete
  lists : ∀ list ∈ log.current.lists, list <+: s.shared.peerList
  grows : log.current.lists.Pairwise (· <+: ·)
  progress : s.Progress log.current

variable {s next : SharedPeers} {f : FrameLog} {log : VideoLog} {a : Act}

/-- While a fragment is being sent the list stays as it is. -/
theorem progress_of_video (h : s.Progress f) (hlocked : s.Locked) (hstep : s.step a = some next)
    (hvideo : next.video = s.video) : next.Progress f := by
  unfold Progress at h ⊢
  rw [hvideo]
  by_cases hinside : s.Inside .sendVideo
  · rw [peerList_frozen (t := .sendVideo) hlocked hstep nofun hinside]
    exact h
  · cases hpoint : s.video.point <;> rw [hpoint] at h
    case sendto =>
      exact absurd (by simp [Inside, hpoint, VideoPoint.holds]) hinside
    all_goals exact h

/-- A step of another thread. -/
theorem streams_of_video (h : Streams s log) (hstep : s.step a = some next)
    (hvideo : next.video = s.video) : Streams next log where
  locked := locked_step h.locked hstep
  nodup := nodup_step h.nodup hstep
  frames := h.frames
  lists := fun list hlist => (h.lists list hlist).trans (peerList_extends hstep)
  grows := h.grows
  progress := progress_of_video h.progress h.locked hstep hvideo

theorem sendAll_take_succ (list : List SockaddrIn) (iterator : Nat) (fragment : VideoFragment) :
    sendAll (list.take (iterator + 1)) fragment =
      sendAll (list.take iterator) fragment ++
        (list[iterator]?.map fun peer => (peer, fragment)).toList := by
  unfold sendAll
  rw [List.take_add_one, List.map_append]
  cases list[iterator]? <;> rfl

/-- A frame that has been sent through. -/
theorem complete_of_progress (h : Streams s log) (hpoint : s.video.point = .fragments []) :
    log.current.Complete := by
  have hprogress := h.progress
  rw [Progress, hpoint] at hprogress
  obtain ⟨done, hfragments, hlength, hsent⟩ := hprogress
  rw [List.append_nil] at hfragments
  constructor
  case length => rw [hlength, hfragments]
  case nodup => exact fun list hlist => h.nodup.sublist (h.lists list hlist).sublist
  case grows => exact h.grows
  case sent => rw [hsent, hfragments]

/-- A step of `VideoRecandSend` leaves the list as it is. -/
theorem streams_of_progress {a : VideoAct} {later : VideoLog} (h : Streams s log)
    (hstep : s.step (.sendVideo a) = some next) (hframes : ∀ f ∈ later.frames, f.Complete)
    (hlists : later.current.lists = log.current.lists) (hprogress : next.Progress later.current) :
    Streams next later := by
  have hlist := VideoSender.step_peerList (step_sendVideo hstep).1
  refine ⟨locked_step h.locked hstep, nodup_step h.nodup hstep, hframes, ?_, ?_, hprogress⟩
  · rw [hlists, hlist]
    exact h.lists
  · rw [hlists]
    exact h.grows

/-- The list is noted for the fragment at hand. -/
theorem streams_lock (h : Streams s log) (hstep : s.step (.sendVideo .lock) = some next) :
    Streams next (logVideo s (.sendVideo .lock) log) := by
  obtain ⟨hmove, -, -⟩ := step_sendVideo hstep
  have hlist := VideoSender.step_peerList hmove
  obtain ⟨fragment, rest, hpoint, -, -, hvideo⟩ := VideoSender.step_cases hmove
  have hprogress := h.progress
  rw [Progress, hpoint] at hprogress
  obtain ⟨done, hfragments, hlength, hsent⟩ := hprogress
  refine ⟨locked_step h.locked hstep, nodup_step h.nodup hstep, h.frames, ?_, ?_, ?_⟩
  · intro list hmem
    rw [hlist]
    rcases List.mem_append.mp hmem with hold | hnew
    · exact h.lists list hold
    · rw [List.mem_singleton.mp hnew]
  · apply List.pairwise_append.mpr
    refine ⟨h.grows, List.pairwise_singleton _ _, fun list hold other hnew => ?_⟩
    rw [List.mem_singleton.mp hnew]
    exact h.lists list hold
  · rw [Progress, hvideo]
    refine ⟨done, log.current.lists, hfragments, by rw [hlist]; rfl, hlength, ?_⟩
    rw [List.take_zero]
    exact hsent.trans (List.append_nil _).symm

theorem progress_sendto (h : s.Progress log.current)
    (hstep : s.step (.sendVideo .sendto) = some next) :
    (logVideo s (.sendVideo .sendto) log).frames = log.frames ∧
      (logVideo s (.sendVideo .sendto) log).current.lists = log.current.lists ∧
      next.Progress (logVideo s (.sendVideo .sendto) log).current := by
  obtain ⟨hmove, -, -⟩ := step_sendVideo hstep
  have hlist := VideoSender.step_peerList hmove
  obtain ⟨fragment, rest, iterator, hpoint, -, -, hvideo⟩ := VideoSender.step_cases hmove
  rw [Progress, hpoint] at h
  obtain ⟨done, before, hfragments, hbefore, hlength, hsent⟩ := h
  simp only [logVideo, hpoint]
  refine ⟨trivial, trivial, ?_⟩
  rw [Progress, hvideo]
  refine ⟨done, before, hfragments, by rw [hlist]; exact hbefore, hlength, ?_⟩
  rw [hlist, sendAll_take_succ, ← List.append_assoc, ← hsent]

/-- A fragment has been sent to everybody on the list. -/
theorem progress_unlock (h : s.Progress log.current)
    (hstep : s.step (.sendVideo .unlock) = some next) : next.Progress log.current := by
  obtain ⟨hmove, -, -⟩ := step_sendVideo hstep
  obtain ⟨fragment, rest, hpoint, -, hvideo⟩ := VideoSender.step_cases hmove
  rw [Progress, hpoint] at h
  obtain ⟨done, before, hfragments, hbefore, hlength, hsent⟩ := h
  rw [Progress, hvideo]
  refine ⟨done ++ [fragment], ?_, ?_, ?_⟩
  · rw [List.append_assoc]
    exact hfragments
  · rw [hbefore, List.length_append, List.length_append, hlength]
    rfl
  · rw [List.take_length] at hsent
    rw [hbefore, multicast_concat hlength]
    exact hsent

theorem streams_sendVideo {a : VideoAct} (h : Streams s log)
    (hstep : s.step (.sendVideo a) = some next) :
    Streams next (logVideo s (.sendVideo a) log) := by
  obtain ⟨hmove, -, -⟩ := step_sendVideo hstep
  have hcases := VideoSender.step_cases hmove
  cases a with
  | openCamera opened =>
    obtain ⟨-, -, hvideo⟩ := hcases
    apply streams_of_progress h hstep h.frames rfl
    rw [Progress, hvideo]
    cases opened <;> trivial
  | test =>
    obtain ⟨-, -, hvideo⟩ := hcases
    apply streams_of_progress h hstep h.frames rfl
    rw [Progress, hvideo]
    cases s.shared.running <;> trivial
  | read frame =>
    cases frame with
    | none =>
      obtain ⟨-, -, hvideo⟩ := hcases
      apply streams_of_progress h hstep h.frames rfl
      rw [Progress, hvideo]
      trivial
    | some frame =>
      obtain ⟨-, -, hvideo⟩ := hcases
      refine ⟨locked_step h.locked hstep, nodup_step h.nodup hstep, h.frames, nofun,
        List.Pairwise.nil, ?_⟩
      rw [Progress, hvideo]
      exact ⟨[], rfl, rfl, rfl⟩
  | lock => exact streams_lock h hstep
  | sendto =>
    obtain ⟨hframes, hlists, hprogress⟩ := progress_sendto h.progress hstep
    exact streams_of_progress h hstep (hframes ▸ h.frames) hlists hprogress
  | unlock => exact streams_of_progress h hstep h.frames rfl (progress_unlock h.progress hstep)
  | frameSent =>
    obtain ⟨hpoint, -, hvideo⟩ := hcases
    have hframes : ∀ f ∈ log.frames ++ [log.current], f.Complete := by
      intro f hf
      rcases List.mem_append.mp hf with hold | hnew
      · exact h.frames f hold
      · rw [List.mem_singleton.mp hnew]
        exact complete_of_progress h hpoint
    refine streams_of_progress h hstep hframes rfl ?_
    rw [Progress, hvideo]
    trivial

theorem streams_step (h : Streams s log) (hstep : s.step a = some next) :
    Streams next (logVideo s a log) := by
  cases a with
  | stop =>
    have hvideo : next.video = s.video := by rw [step_stop hstep]
    exact streams_of_video h hstep hvideo
  | listen a => exact streams_of_video h hstep (step_listen hstep).2.2
  | sendAudio a => exact streams_of_video h hstep (step_sendAudio hstep).2.2
  | sendVideo a => exact streams_sendVideo h hstep

theorem streams_of_reaches {buffer : Buffer (helloBufferSize + 1)}
    (hreach : streaming.Reaches (init buffer, .init) (s, log)) : Streams s log := by
  apply hreach.preserves (P := fun p => Streams p.1 p.2)
  · rintro ⟨s, log⟩ a ⟨next, later⟩ h hstep
    obtain ⟨hnext, rfl⟩ := Machine.monitored_step.mp hstep
    exact streams_step h hnext
  · exact ⟨locked_init buffer, List.nodup_nil, nofun, nofun, List.Pairwise.nil, trivial⟩

/-- Every peer is sent all fragments of a frame, each index once and in order, or
none, exactly when the list is the same at all of them. -/
theorem allOrNothing_iff_undisturbed {buffer : Buffer (helloBufferSize + 1)} {f : FrameLog}
    (hreach : streaming.Reaches (init buffer, .init) (s, log)) (hf : f ∈ log.frames) :
    f.fragments.map (·.fragmentI.toNat) = List.range f.frame.totalFragments.toNat ∧
      (AllOrNothing f.fragments f.sent ↔ f.Undisturbed) := by
  obtain ⟨hlength, hnodup, hgrows, hsent⟩ := (streams_of_reaches hreach).frames f hf
  refine ⟨EncFrame.indices_fragments, ?_⟩
  rw [hsent]
  exact Multicast.allOrNothing_iff hlength hnodup hgrows

section Late

variable {frame : EncFrame} {first second : VideoFragment}

/-- In a frame of two fragments, with the ones given left to send. -/
def atFrame (frame : EncFrame) (fragments : List VideoFragment) : SharedPeers × VideoLog :=
  ({ init Buffer.zero with video := ⟨.fragments fragments, 0⟩ }, ⟨[], ⟨frame, 0, [], []⟩⟩)

/-- A peer is added between the two fragments of a frame. -/
theorem reaches_late (h : frame.fragments 0 = [first, second]) :
    ∃ s log, streaming.Reaches (init Buffer.zero, .init) (s, log) ∧
      ∃ f ∈ log.frames, f.fragments = [first, second] ∧ f.sent = [(⟨1, 2⟩, second)] := by
  have hread : streaming.run (init Buffer.zero, .init)
      [.sendVideo (.openCamera true), .sendVideo .test, .sendVideo (.read (some frame))] =
      some (atFrame frame (frame.fragments 0)) := rfl
  obtain ⟨p, hrun, hframes⟩ : ∃ p, streaming.run (atFrame frame [first, second])
      [.sendVideo .lock, .sendVideo .unlock, .listen .test,
        .listen (.recvfrom (some (⟨1, 2⟩, helloBytes))), .listen .strcmp, .listen .lock,
        .listen .findIf, .listen .unlock, .sendVideo .lock, .sendVideo .sendto,
        .sendVideo .unlock, .sendVideo .frameSent] = some p ∧
      p.2.frames = [⟨frame, 0, [[], [⟨1, 2⟩]], [(⟨1, 2⟩, second)]⟩] := ⟨_, rfl, rfl⟩
  rw [h] at hread
  refine ⟨p.1, p.2, Machine.Reaches.trans ⟨_, hread⟩ ⟨_, hrun⟩, ?_⟩
  rw [hframes]
  exact ⟨_, List.mem_singleton_self _, h, rfl⟩

end Late

/-- A peer that comes too late for the first fragment is sent the second one alone. -/
theorem late_peer_gets_tail :
    ∃ s log, streaming.Reaches (init Buffer.zero, .init) (s, log) ∧
      ∃ f ∈ log.frames, ¬AllOrNothing f.fragments f.sent := by
  obtain ⟨s, log, hreach, f, hf, hfragments, hsent⟩ := reaches_late twoFragments_fragments
  refine ⟨s, log, hreach, f, hf, ?_⟩
  intro hwhole
  have hlength : (received (⟨1, 2⟩ : SockaddrIn) f.sent).length = 1 := by
    rw [hsent]
    rfl
  rcases hwhole ⟨1, 2⟩ with hnone | hall
  · rw [hnone] at hlength
    cases hlength
  · rw [hall, hfragments] at hlength
    cases hlength

/-- The same frame shows that the list did not stay as it was. -/
theorem allOrNothing_iff_undisturbed_late :
    ∃ s log, streaming.Reaches (init Buffer.zero, .init) (s, log) ∧
      ∃ f ∈ log.frames, (AllOrNothing f.fragments f.sent ↔ f.Undisturbed) := by
  obtain ⟨s, log, hreach, f, hf, -, -⟩ := reaches_late twoFragments_fragments
  exact ⟨s, log, hreach, f, hf, (allOrNothing_iff_undisturbed hreach hf).2⟩

end SharedPeers

end MediaStream.OnlineAV
