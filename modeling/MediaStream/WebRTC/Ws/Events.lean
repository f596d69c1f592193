import MediaStream.WebRTC.Ws.Sessions

/-!
What a listener of the receiver can rely on, whatever the other side sends: the
size and the text of messages, the size of control frames, the code and the
reason of a close frame, and that nothing comes after an error or a close frame.
-/

namespace MediaStream.WebRTC.Ws

open Lib Lib.Bytes

/-- What holds of an event. -/
def ReceiverEvent.Lawful (o : Options) : ReceiverEvent → Prop
  | .message data isBinary =>
    (o.limit = 0 ∨ data.length ≤ o.limit) ∧
      (isBinary = true ∨ o.skipUTF8Validation = true ∨ isValidUTF8 data = true)
  | .ping data | .pong data => data.length ≤ 125
  | .conclude code reason =>
    (code = 1005 ∧ reason = []) ∨
      (isValidStatusCode code = true ∧ reason.length ≤ 123 ∧
        (o.skipUTF8Validation = true ∨ isValidUTF8 reason = true))
  | .error e => isValidStatusCode e.statusCode = true
  | .thrown => False

section Lawful

variable {o : Options} {s next : Session} {emitted : List ReceiverEvent}

theorem lawful_data {binary fin : Bool} {whole : List UInt8}
    (h : Session.data o binary whole fin = some (next, emitted)) :
    next.closed = false ∧ ∀ e ∈ emitted, e.Lawful o ∧ e.terminal = false := by
  unfold Session.data at h
  split at h
  · cases h
  · next hlimit =>
    have hlong : o.limit = 0 ∨ whole.length ≤ o.limit := by omega
    split at h
    · obtain ⟨rfl, rfl⟩ := Prod.mk.inj (Option.some.inj h)
      exact ⟨rfl, by simp⟩
    · split at h
      · next htext =>
        obtain ⟨rfl, rfl⟩ := Prod.mk.inj (Option.some.inj h)
        refine ⟨rfl, fun e he => ?_⟩
        obtain rfl := List.mem_singleton.mp he
        exact ⟨⟨hlong, htext⟩, rfl⟩
      · cases h

theorem lawful_closeEvent {payload : List UInt8} {e : ReceiverEvent} (hshort : payload.length ≤ 125)
    (h : Session.closeEvent o payload = some e) : e.Lawful o ∧ e.terminal = true := by
  unfold Session.closeEvent at h
  split at h
  · obtain rfl := Option.some.inj h
    exact ⟨Or.inl ⟨rfl, rfl⟩, rfl⟩
  · split at h
    · cases h
    · split at h
      · next hgood =>
        obtain rfl := Option.some.inj h
        refine ⟨Or.inr ⟨hgood.1, ?_, hgood.2⟩, rfl⟩
        rw [List.length_drop]
        omega
      · cases h

/-- One frame means lawful events, and a close frame one that is the last. -/
theorem lawful_accept (hlive : s.closed = false) {f : WireFrame}
    (h : s.accept o f = some (next, emitted)) :
    (next.closed = false ∧ ∀ e ∈ emitted, e.Lawful o ∧ e.terminal = false) ∨
      (next.closed = true ∧ ∃ e, emitted = [e] ∧ e.Lawful o ∧ e.terminal = true) := by
  unfold Session.accept at h
  split at h
  · cases h
  · split at h
    · split at h
      · exact Or.inl (lawful_data h)
      · cases h
    · split at h
      · split at h
        · cases h
        · exact Or.inl (lawful_data h)
      · unfold Session.control at h
        split at h
        · cases h
        · next hwhole =>
          have hshort : f.payload.length ≤ 125 := by
            have hfits := f.fits
            rw [not_not.mp (not_or.mp hwhole).2] at hfits
            exact hfits
          split at h
          · obtain ⟨e, hmeans, heq⟩ := Option.map_eq_some_iff.mp h
            obtain ⟨rfl, rfl⟩ := Prod.mk.inj heq
            obtain ⟨hlawful, hlast⟩ := lawful_closeEvent hshort hmeans
            exact Or.inr ⟨rfl, e, rfl, hlawful, hlast⟩
          · obtain ⟨rfl, rfl⟩ := Prod.mk.inj (Option.some.inj h)
            refine Or.inl ⟨hlive, fun e he => ?_⟩
            obtain rfl := List.mem_singleton.mp he
            exact ⟨hshort, rfl⟩
          · obtain ⟨rfl, rfl⟩ := Prod.mk.inj (Option.some.inj h)
            refine Or.inl ⟨hlive, fun e he => ?_⟩
            obtain rfl := List.mem_singleton.mp he
            exact ⟨hshort, rfl⟩
          · cases h

/-- The same of a sequence of frames. -/
theorem lawful_acceptAll (hlive : s.closed = false) {frames : List WireFrame}
    (h : s.acceptAll o frames = some (next, emitted)) :
    ∃ front last, emitted = front ++ last ∧ (∀ e ∈ front, e.Lawful o ∧ e.terminal = false) ∧
      ((next.closed = false ∧ last = []) ∨
        (next.closed = true ∧ ∃ e, last = [e] ∧ e.Lawful o ∧ e.terminal = true)) := by
  induction frames generalizing s emitted with
  | nil =>
    obtain ⟨rfl, rfl⟩ := Prod.mk.inj (Option.some.inj h)
    exact ⟨[], [], rfl, by simp, Or.inl ⟨hlive, rfl⟩⟩
  | cons f rest ih =>
    simp only [Session.acceptAll, Option.bind_eq_some_iff, Option.map_eq_some_iff] at h
    obtain ⟨⟨middle, first⟩, hfirst, ⟨last, second⟩, hrest, heq⟩ := h
    obtain ⟨rfl, rfl⟩ := Prod.mk.inj heq
    rcases lawful_accept hlive hfirst with ⟨hmiddle, hlawful⟩ | ⟨hclosed, e, rfl, hlawful, hlast⟩
    · obtain ⟨front, ending, rfl, hfront, hending⟩ := ih hmiddle hrest
      refine ⟨first ++ front, ending, by simp, fun e he => ?_, hending⟩
      rcases List.mem_append.mp he with hold | hnew
      · exact hlawful e hold
      · exact hfront e hnew
    · obtain rfl := acceptAll_of_closed hclosed hrest
      obtain ⟨rfl, rfl⟩ := Prod.mk.inj (Option.some.inj hrest)
      exact ⟨[], [e], by simp, by simp, Or.inr ⟨hclosed, e, rfl, hlawful, hlast⟩⟩

/-- Every error comes with a code that a close frame may carry. -/
theorem statusCode_events (o : Options) (bytes : List UInt8) :
    ∀ e, .error e ∈ events o bytes → isValidStatusCode e.statusCode = true := by
  change ∀ e, ReceiverEvent.error e ∈ [] ++ ((parser o).drain .init bytes).2 → _
  apply PullParser.drain_collects (P := parser o) (s := .init)
    (I := fun _ seen => ∀ e, .error e ∈ seen → isValidStatusCode e.statusCode = true)
  · intro p seen n wanted hseen hneed hlen e he
    rcases List.mem_append.mp he with hold | hnew
    · exact hseen e hold
    · have hhandled := Reading.handled_handle o p wanted
      change ReceiverEvent.error e ∈ (p.handle o wanted).events at hnew
      generalize p.handle o wanted = out at hhandled hnew
      cases hhandled with
      | failed q e' hcode =>
        obtain rfl := ReceiverEvent.error.inj (List.mem_singleton.mp hnew)
        exact hcode
      | thrown q => cases List.mem_singleton.mp hnew
      | closed q code reason hopcode herrored => cases List.mem_singleton.mp hnew
      | went q events herrored hopen hevents hdata =>
        cases (hevents _ hnew).symm.trans (rfl : ReceiverEvent.terminal (.error e) = true)
  · exact fun e he => absurd he List.not_mem_nil

/-- What is emitted for any bytes: lawful events, of which an error or a close frame is the
last. -/
theorem lawful_events (o : Options) (bytes : List UInt8) :
    ∃ front last, events o bytes = front ++ last ∧ last.length ≤ 1 ∧
      (∀ e ∈ front, e.Lawful o ∧ e.terminal = false) ∧
      ∀ e ∈ last, e.Lawful o ∧ e.terminal = true := by
  have hcodes := statusCode_events o bytes
  obtain ⟨frames, rest, s, emitted, -, haccept, hcases⟩ := drain_cases (between_init o) bytes
  obtain ⟨front, last, rfl, hfront, hlast⟩ := lawful_acceptAll rfl haccept
  unfold events at hcodes ⊢
  rcases hlast with ⟨hlive, rfl⟩ | ⟨hclosed, e, rfl, hlawful, hend⟩
  · rw [List.append_nil] at hcases
    rcases hcases with ⟨hclosed, -⟩ | ⟨-, -, hevents | ⟨e, herror⟩⟩
    · cases hlive.symm.trans hclosed
    · exact ⟨front, [], by rw [hevents, List.append_nil], by simp, hfront, by simp⟩
    · refine ⟨front, [.error e], herror, by simp, hfront, fun e' he' => ?_⟩
      obtain rfl := List.mem_singleton.mp he'
      exact ⟨hcodes e (by rw [herror]; simp), rfl⟩
  · rcases hcases with ⟨-, hevents⟩ | ⟨hlive, -⟩
    · refine ⟨front, [e], hevents, by simp, hfront, fun e' he' => ?_⟩
      obtain rfl := List.mem_singleton.mp he'
      exact ⟨hlawful, hend⟩
    · cases hlive.symm.trans hclosed

/-- The same of the events for the last chunk. -/
theorem lawful_write (o : Options) (chunks : List (List UInt8)) (chunk : List UInt8) :
    (∀ e ∈ ((Receiver.receive o .init chunks).1.write o chunk).2, e.Lawful o) ∧
      ∀ e ∈ ((Receiver.receive o .init chunks).1.write o chunk).2.dropLast,
        e.terminal = false := by
  obtain ⟨front, last, hsplit, hone, hfront, hlast⟩ :=
    lawful_events o (chunks ++ [chunk]).flatten
  rw [← (receive_init o (chunks ++ [chunk])).1, Receiver.receive_concat] at hsplit
  simp only at hsplit
  generalize (Receiver.receive o .init chunks).2 = before at hsplit
  generalize ((Receiver.receive o .init chunks).1.write o chunk).2 = now at hsplit ⊢
  constructor
  · intro e he
    have hmem : e ∈ front ++ last := hsplit ▸ List.mem_append_right before he
    rcases List.mem_append.mp hmem with hold | hnew
    · exact (hfront e hold).1
    · exact (hlast e hnew).1
  · intro e he
    have hne : now ≠ [] := by
      rintro rfl
      cases he
    have hmem : e ∈ (front ++ last).dropLast := by
      rw [← hsplit, List.dropLast_append_of_ne_nil hne]
      exact List.mem_append_right before he
    cases last with
    | nil =>
      rw [List.append_nil] at hmem
      exact (hfront e ((List.dropLast_sublist front).subset hmem)).2
    | cons x rest =>
      obtain rfl : rest = [] := List.length_eq_zero_iff.mp (by simpa using hone)
      rw [List.dropLast_concat] at hmem
      exact (hfront e hmem).2

end Lawful

/-- Whatever bytes come in whatever chunks, each event is lawful, and an error or a close frame is
the last one. -/
theorem receive_lawful (o : Options) (chunks : List (List UInt8)) :
    ∃ front last, (Receiver.receive o .init chunks).2 = front ++ last ∧ last.length ≤ 1 ∧
      (∀ e ∈ front, e.Lawful o ∧ e.terminal = false) ∧
      ∀ e ∈ last, e.Lawful o ∧ e.terminal = true := by
  rw [(receive_init o chunks).1]
  exact lawful_events o chunks.flatten

end MediaStream.WebRTC.Ws
