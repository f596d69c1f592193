import MediaStream.WebRTC.Ws.Accepted

/-!
What the receiver makes of any bytes, in terms of sessions: the frames at the
front that are accepted one after the other mean what is emitted, and the first
frame that is not accepted may add one error.
-/

namespace MediaStream.WebRTC.Ws

open Lib

section Session

variable {o : Options} {s : Session} {p : Reading}

/-- Events put in front of what comes later. -/
def emit (events : List ReceiverEvent) (later : PullParser.Fed Reading UInt8 × List ReceiverEvent) :
    PullParser.Fed Reading UInt8 × List ReceiverEvent :=
  (later.1, events ++ later.2)

theorem emit_emit (first second : List ReceiverEvent)
    (later : PullParser.Fed Reading UInt8 × List ReceiverEvent) :
    emit first (emit second later) = emit (first ++ second) later := by
  simp [emit]

inductive Stands (o : Options) (more : List UInt8) (s : Session) :
    PullParser.Fed Reading UInt8 × List ReceiverEvent → Prop
  | between (p : Reading) (h : Between o s p) : Stands o more s ((parser o).drain p more)
  | closed (p : Reading) (hclosed : s.closed = true) (herrored : p.errored = false)
      (hconcluded : p.concluded = true) : Stands o more s (⟨p, more⟩, [])

theorem drain_concluded {more : List UInt8} (h : p.concluded = true) :
    (parser o).drain p more = (⟨p, more⟩, []) :=
  PullParser.drain_stopped (need_eq_none.mpr (by rw [h, Bool.or_true]))

/-- One accepted frame. -/
theorem drain_accepted (hp : Between o s p) {f : WireFrame} {next : Session}
    {events : List ReceiverEvent} (h : s.accept o f = some (next, events)) (more : List UInt8) :
    ∃ later, Stands o more next later ∧
      (parser o).drain p (f.bytes ++ more) = emit events later := by
  rcases drain_wire hp f more with ⟨out, hagrees, hdrain⟩ | ⟨hnone, -⟩
  · rw [h] at hagrees
    rw [hdrain]
    cases hagrees with
    | accepted next events q hq => exact ⟨_, .between _ hq, rfl⟩
    | closed next events q hclosed herrored hconcluded =>
      refine ⟨_, .closed q hclosed herrored hconcluded, ?_⟩
      unfold after emit
      rw [drain_concluded hconcluded]
  · rw [h] at hnone
    cases hnone

/-- A closed session accepts nothing more. -/
theorem acceptAll_of_closed (h : s.closed = true) {frames : List WireFrame} {next : Session}
    {events : List ReceiverEvent} (haccept : s.acceptAll o frames = some (next, events)) :
    frames = [] := by
  cases frames with
  | nil => rfl
  | cons f rest =>
    have hnone : s.accept o f = none := if_pos (Or.inl h)
    rw [Session.acceptAll, hnone] at haccept
    cases haccept

/-- Frames that are accepted one after the other, and what comes after them. -/
theorem drain_acceptAll (hp : Between o s p) {frames : List WireFrame} {next : Session}
    {events : List ReceiverEvent} (h : s.acceptAll o frames = some (next, events))
    (more : List UInt8) :
    ∃ later, Stands o more next later ∧
      (parser o).drain p (frames.flatMap WireFrame.bytes ++ more) = emit events later := by
  induction frames generalizing s p events with
  | nil =>
    obtain ⟨rfl, rfl⟩ := Prod.mk.inj (Option.some.inj h)
    exact ⟨_, .between _ hp, rfl⟩
  | cons f rest ih =>
    simp only [Session.acceptAll, Option.bind_eq_some_iff, Option.map_eq_some_iff] at h
    obtain ⟨⟨middle, first⟩, hfirst, ⟨last, second⟩, hrest, heq⟩ := h
    obtain ⟨rfl, rfl⟩ := Prod.mk.inj heq
    obtain ⟨later, hstands, hdrain⟩ :=
      drain_accepted hp hfirst (rest.flatMap WireFrame.bytes ++ more)
    rw [List.flatMap_cons, List.append_assoc, hdrain]
    cases hstands with
    | between q hq =>
      obtain ⟨later, hlater, hmore⟩ := ih hq hrest
      refine ⟨later, hlater, ?_⟩
      rw [hmore, emit_emit]
    | closed q hclosed herrored hconcluded =>
      obtain rfl := acceptAll_of_closed hclosed hrest
      obtain ⟨rfl, rfl⟩ := Prod.mk.inj (Option.some.inj hrest)
      refine ⟨_, .closed q hclosed herrored hconcluded, ?_⟩
      simp

/-- No frame that may come next is at the front of the bytes. -/
def Stuck (o : Options) (s : Session) (bytes : List UInt8) : Prop :=
  ∀ (f : WireFrame) (more : List UInt8), bytes = f.bytes ++ more → s.accept o f = none

/-- What the receiver makes of any bytes. -/
theorem drain_cases (hp : Between o s p) (bytes : List UInt8) :
    ∃ frames rest next events, bytes = frames.flatMap WireFrame.bytes ++ rest ∧
      s.acceptAll o frames = some (next, events) ∧
      ((next.closed = true ∧ ((parser o).drain p bytes).2 = events) ∨
        (next.closed = false ∧ Stuck o next rest ∧
          (((parser o).drain p bytes).2 = events ∨
            ∃ e, ((parser o).drain p bytes).2 = events ++ [ReceiverEvent.error e]))) := by
  induction hlen : bytes.length using Nat.strongRecOn generalizing s p bytes with
  | ind n ih =>
    by_cases hfront : ∃ (f : WireFrame) (more : List UInt8), bytes = f.bytes ++ more
    · obtain ⟨f, more, rfl⟩ := hfront
      have hstuck : s.accept o f = none → Stuck o s (f.bytes ++ more) := by
        intro hnone g more' hsame
        obtain ⟨rfl, -⟩ := WireFrame.bytes_append_inj hsame
        exact hnone
      cases haccept : s.accept o f with
      | none =>
        rcases drain_wire hp f more with ⟨out, hagrees, hdrain⟩ | ⟨-, e, herror⟩
        · rw [haccept] at hagrees
          cases hagrees with
          | refused q e =>
            refine ⟨[], _, s, [], rfl, rfl, Or.inr ⟨hp.live, hstuck haccept, Or.inr ⟨e, ?_⟩⟩⟩
            rw [hdrain, after_fail]
            rfl
        · exact ⟨[], _, s, [], rfl, rfl,
            Or.inr ⟨hp.live, hstuck haccept, Or.inr ⟨e, herror⟩⟩⟩
      | some r =>
        obtain ⟨middle, first⟩ := r
        obtain ⟨later, hstands, hdrain⟩ := drain_accepted hp haccept more
        cases hstands with
        | between q hq =>
          have hless : more.length < n := by
            rw [← hlen, List.length_append, WireFrame.bytes, List.length_cons]
            omega
          obtain ⟨frames, rest, next, second, rfl, hrest, hcases⟩ := ih _ hless hq more rfl
          refine ⟨f :: frames, rest, next, first ++ second, ?_, ?_, ?_⟩
          · rw [List.flatMap_cons, List.append_assoc]
          · simp [Session.acceptAll, haccept, hrest]
          · rw [hdrain]
            rcases hcases with ⟨hclosed, hevents⟩ | ⟨hlive, hstays, hevents | ⟨e, herror⟩⟩
            · exact Or.inl ⟨hclosed, congrArg _ hevents⟩
            · exact Or.inr ⟨hlive, hstays, Or.inl (congrArg _ hevents)⟩
            · refine Or.inr ⟨hlive, hstays, Or.inr ⟨e, ?_⟩⟩
              simp [emit, herror]
        | closed q hclosed herrored hconcluded =>
          refine ⟨[f], more, middle, first, by simp, ?_, Or.inl ⟨hclosed, ?_⟩⟩
          · simp [Session.acceptAll, haccept]
          · rw [hdrain]
            simp [emit]
    · have hstuck : Stuck o s bytes := fun f more h => absurd ⟨f, more, h⟩ hfront
      refine ⟨[], bytes, s, [], rfl, rfl, Or.inr ⟨hp.live, hstuck, ?_⟩⟩
      exact (front_frame hp bytes).resolve_left hfront

end Session

section Receive

variable {o : Options}

theorem drain_nil {s : Session} {p : Reading} (hp : Between o s p) :
    (parser o).drain p [] = (⟨p, []⟩, []) :=
  PullParser.drain_short (need_between hp) Nat.two_pos

/-- The events of a byte stream that is made of accepted frames. -/
theorem events_frames {frames : List WireFrame} {s : Session} {emitted : List ReceiverEvent}
    (h : Session.init.acceptAll o frames = some (s, emitted)) :
    events o (frames.flatMap WireFrame.bytes) = emitted := by
  obtain ⟨later, hstands, hdrain⟩ := drain_acceptAll (between_init o) h []
  rw [List.append_nil] at hdrain
  unfold events
  rw [hdrain]
  cases hstands with
  | between p hp =>
    rw [drain_nil hp]
    exact List.append_nil _
  | closed p hclosed herrored hconcluded => exact List.append_nil _

/-- The bytes the socket hands over, in whatever chunks, are the frames that are accepted one
after the other and something that no acceptable frame begins. The receiver emits what these
frames mean, and then at most one error; after a close frame it emits nothing. -/
theorem receive_cases (o : Options) (chunks : List (List UInt8)) :
    ∃ frames rest s emitted,
      chunks.flatten = frames.flatMap WireFrame.bytes ++ rest ∧
      Session.init.acceptAll o frames = some (s, emitted) ∧
      ((s.closed = true ∧ (Receiver.receive o .init chunks).2 = emitted) ∨
        (s.closed = false ∧ Stuck o s rest ∧
          ((Receiver.receive o .init chunks).2 = emitted ∨
            ∃ e, (Receiver.receive o .init chunks).2 = emitted ++ [ReceiverEvent.error e]))) := by
  rw [(receive_init o chunks).1]
  exact drain_cases (between_init o) chunks.flatten

/-- Frames that are accepted one after the other are read back from their bytes, however these are
cut. -/
theorem receive_frames {frames : List WireFrame} {s : Session} {emitted : List ReceiverEvent}
    {chunks : List (List UInt8)} (h : Session.init.acceptAll o frames = some (s, emitted))
    (hchunks : chunks.flatten = frames.flatMap WireFrame.bytes) :
    (Receiver.receive o .init chunks).2 = emitted := by
  rw [(receive_init o chunks).1, hchunks]
  exact events_frames h

def fragments : List WireFrame :=
  [⟨false, 1, some [1, 2, 3, 4], .short, [0xc3], by decide, by decide, by decide⟩,
    ⟨true, 9, some [0, 0, 0, 0], .short, [], by decide, by decide, by decide⟩,
    ⟨true, 0, some [5, 6, 7, 8], .extended16, [0xa9], by decide, by decide, by decide⟩]

theorem receive_frames_fragments :
    (Receiver.receive ⟨true, 16, false⟩ .init [fragments.flatMap WireFrame.bytes]).2 =
      [.ping [], .message [0xc3, 0xa9] false] :=
  receive_frames (show Session.init.acceptAll ⟨true, 16, false⟩ fragments =
    some (⟨none, false⟩, [.ping [], .message [0xc3, 0xa9] false]) from rfl) (List.append_nil _)

end Receive

end MediaStream.WebRTC.Ws
