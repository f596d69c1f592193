import MediaStream.Lib.Framing
import MediaStream.TCPS.ClientList

/-!
Frame alignment through the relay. A client plays what it receives in groups
of four bytes, but the server relays whatever `recv` has returned: a chunk may
end inside a frame, and what follows it in the stream of another client is the
next chunk that any handler sends.

A monitor records for every byte that has been written to a connection whose
byte it is and at which position of that client's stream it was.
-/

namespace MediaStream.TCPS

open Lib Lib.Framing

/-- `2 * Channels`, the size of a stereo frame of 16-bit samples. -/
def frameBytes : Nat := 2 * 2

structure Provenance where
  /-- Everything `recv` has returned to the handler of the connection. -/
  received : Nat → Chunk
  /-- Sender and position of each byte of the connection's stream. -/
  origin : Nat → List (Nat × Nat)

namespace Provenance

def init : Provenance where
  received _ := []
  origin _ := []

/-- How much of the stream of `c` comes before the chunk its handler sends. -/
def before (h : Provenance) (c : Nat) (buffer : Chunk) : Nat :=
  (h.received c).length - buffer.length

def watch (s : Server) (a : Act) (h : Provenance) : Provenance :=
  match a with
  | .recv c n =>
    { h with received := Function.update h.received c (h.received c ++ (s.inbound c).take n) }
  | .iterate c =>
    match s.handler c, s.target c with
    | some (.broadcast buffer _), some d =>
      if s.link d = .up then
        { h with
          origin := Function.update h.origin d
            (h.origin d ++ piece c (h.before c buffer) buffer.length) }
      else h
    | _, _ => h
  | _ => h

end Provenance

def traced (cfg : Config) : Machine (Server × Provenance) Act :=
  (server cfg).monitored Provenance.watch

/-- Cut into groups of four bytes, the stream of each client consists of frames
of other clients, the last group as far as it has got. -/
def Aligned (p : Server × Provenance) : Prop :=
  ∀ c j, frameBytes * j < (p.1.stream c).length →
    ∃ k m, k ≠ c ∧ ∀ r < frameBytes, frameBytes * j + r < (p.1.stream c).length →
      (p.2.origin c)[frameBytes * j + r]? = some (k, frameBytes * m + r) ∧
        (p.1.stream c)[frameBytes * j + r]? = (p.2.received k)[frameBytes * m + r]?

/-- A chunk that is sent starts at the same place in a frame as the stream it
goes to has got to, and inside a frame it goes on with that frame. -/
def Joins (p : Server × Provenance) (a : Act) : Prop :=
  ∀ c buffer i d, a = .iterate c → p.1.handler c = some (.broadcast buffer i) →
    p.1.target c = some d → p.1.link d = .up →
    p.2.before c buffer % frameBytes = (p.1.stream d).length % frameBytes ∧
      ((p.1.stream d).length % frameBytes ≠ 0 →
        (p.2.origin d).getLast? = some (c, p.2.before c buffer - 1))

/-- What ties the provenance to the state. -/
structure Traced (s : Server) (h : Provenance) : Prop where
  ok : Ok s
  /-- The chunk a handler holds is the last one it has received. -/
  held : ∀ k buffer, s.Holds k buffer →
    buffer ≠ [] ∧ ∃ front, h.received k = front ++ buffer
  length : ∀ c, (s.stream c).length = (h.origin c).length
  source : ∀ c i k p : Nat, (h.origin c)[i]? = some (k, p) →
    k ≠ c ∧ p < (h.received k).length ∧ (s.stream c)[i]? = (h.received k)[p]?

section Steps

variable {cfg : Config} {s next : Server} {h : Provenance} {a : Act}

theorem aligned_iff_steady (ht : Traced s h) :
    Aligned (s, h) ↔ ∀ c, Steady frameBytes (h.origin c) := by
  have hpos : 0 < frameBytes := by decide
  constructor
  · intro haligned c
    rw [← framed_iff_steady hpos]
    intro j hj
    rw [← ht.length] at hj
    obtain ⟨k, m, -, hframe⟩ := haligned c j hj
    refine ⟨k, m, fun r hr hlt => (hframe r hr ?_).1⟩
    rw [ht.length]
    exact hlt
  · intro hsteady c j hj
    simp only [ht.length] at hj ⊢
    obtain ⟨k, m, hframe⟩ := (framed_iff_steady hpos).mpr (hsteady c) j hj
    have hfirst := hframe 0 hpos hj
    refine ⟨k, m, (ht.source c _ _ _ hfirst).1, fun r hr hlt => ?_⟩
    have htag := hframe r hr hlt
    exact ⟨htag, (ht.source c _ _ _ htag).2.2⟩

theorem joins_of_not_up {c : Nat} (hdown : ∀ d, s.target c = some d → s.link d ≠ .up) :
    Joins (s, h) (.iterate c) := by
  rintro k buffer i d ⟨⟩ - htarget hup
  exact absurd hup (hdown d htarget)

/-- The only step that writes to a connection. -/
theorem origin_cases (hok : Ok s) (hstep : Step cfg s a next) :
    (next.stream = s.stream ∧ (h.watch s a).origin = h.origin ∧ Joins (s, h) a) ∨
    ∃ c buffer i d, a = .iterate c ∧ s.handler c = some (.broadcast buffer i) ∧
      s.target c = some d ∧ s.link d = .up ∧ d ≠ c ∧
      next.stream = Function.update s.stream d (s.stream d ++ buffer) ∧
      (h.watch s a).origin = Function.update h.origin d
        (h.origin d ++ piece c (h.before c buffer) buffer.length) := by
  cases hstep with
  | iterateSend c buffer i fd hrun hpc hsent hfd hother =>
    obtain ⟨d, -, hsock, htable⟩ := hok.conn_at hfd
    have htarget := (target_eq_some hpc).mpr ⟨fd, hfd, hother, htable⟩
    by_cases hup : s.link d = .up
    · refine Or.inr ⟨c, buffer, i, d, rfl, hpc, htarget, hup, ?_, ?_, ?_⟩
      · rintro rfl
        exact hother hsock.symm
      · simp [send_up htable hup]
      · simp [Provenance.watch, hpc, htarget, hup]
    · refine Or.inl ⟨send_stream_down htable hup, ?_, ?_⟩
      · simp [Provenance.watch, hpc, htarget, hup]
      · exact joins_of_not_up fun e he => by
          rw [htarget] at he
          exact Option.some.inj he ▸ hup
  | iterateEnd c buffer i hrun hpc hsent hend =>
    have htarget : s.target c = none := by simp [Server.target, hpc, hend]
    refine Or.inl ⟨rfl, by simp [Provenance.watch, hpc, htarget], joins_of_not_up ?_⟩
    simp [htarget]
  | iterateSelf c buffer i hrun hpc hsent hfd =>
    have htarget : s.target c = none := by simp [Server.target, hpc, hfd]
    refine Or.inl ⟨rfl, by simp [Provenance.watch, hpc, htarget], joins_of_not_up ?_⟩
    simp [htarget]
  | _ => exact Or.inl ⟨rfl, rfl, by rintro c buffer i d ⟨⟩⟩

theorem joins_iff {c i d : Nat} {buffer : Chunk} (hpc : s.handler c = some (.broadcast buffer i))
    (htarget : s.target c = some d) (hup : s.link d = .up) :
    Joins (s, h) (.iterate c) ↔
      h.before c buffer % frameBytes = (s.stream d).length % frameBytes ∧
        ((s.stream d).length % frameBytes ≠ 0 →
          (h.origin d).getLast? = some (c, h.before c buffer - 1)) := by
  constructor
  · intro hjoins
    exact hjoins c buffer i d rfl hpc htarget hup
  · rintro hmeets k chunk j e ⟨⟩ hk he -
    rw [hpc] at hk
    rw [htarget] at he
    obtain ⟨rfl, -⟩ := HandleC.broadcast.inj (Option.some.inj hk)
    obtain rfl := Option.some.inj he
    exact hmeets

theorem steady_step (ht : Traced s h) (hsteady : ∀ c, Steady frameBytes (h.origin c))
    (hstep : Step cfg s a next) :
    (∀ c, Steady frameBytes ((h.watch s a).origin c)) ↔ Joins (s, h) a := by
  rcases origin_cases (h := h) ht.ok hstep with ⟨-, horigin, hjoins⟩ |
    ⟨c, buffer, i, d, rfl, hpc, htarget, hup, -, -, horigin⟩
  · rw [horigin]
    exact ⟨fun _ => hjoins, fun _ => hsteady⟩
  · have hne := (ht.held c buffer (Or.inr ⟨i, hpc⟩)).1
    rw [horigin, joins_iff hpc htarget hup, ht.length,
      ← steady_append_iff (hsteady d) (List.length_pos_iff.mpr hne)]
    constructor
    · intro hall
      have hd := hall d
      rwa [Function.update_self] at hd
    · intro hd e
      by_cases hed : e = d
      · rw [hed, Function.update_self]
        exact hd
      · rw [Function.update_of_ne hed]
        exact hsteady e

theorem received_step (s : Server) (a : Act) (h : Provenance) (k : Nat) :
    h.received k <+: (h.watch s a).received k := by
  unfold Provenance.watch
  split
  · next c n =>
    by_cases hkc : k = c
    · simp [hkc]
    · simp [hkc]
  · split
    · split <;> exact List.prefix_rfl
    · exact List.prefix_rfl
  · exact List.prefix_rfl

theorem received_iterate (s : Server) (c : Nat) (h : Provenance) :
    (h.watch s (.iterate c)).received = h.received := by
  unfold Provenance.watch
  simp only
  split
  · split <;> rfl
  · rfl

theorem received_other {k : Nat} (ha : ∀ n, a ≠ .recv k n) :
    (h.watch s a).received k = h.received k := by
  cases a with
  | recv c n =>
    have hkc : k ≠ c := by
      rintro rfl
      exact ha n rfl
    simp [Provenance.watch, hkc]
  | iterate c => rw [received_iterate]
  | _ => rfl

theorem held_step (ht : Traced s h) (hstep : Step cfg s a next) (k : Nat) (buffer : Chunk)
    (hholds : next.Holds k buffer) :
    buffer ≠ [] ∧ ∃ front, (h.watch s a).received k = front ++ buffer := by
  rcases holds_step hstep hholds with hold | ⟨n, rfl, rfl, hne⟩
  · obtain ⟨hne, front, hfront⟩ := ht.held k buffer hold
    have hother : ∀ n, a ≠ .recv k n := by
      rintro n rfl
      cases hstep with
      | recv _ _ hrun hpc => rcases hold with hpc' | ⟨i, hpc'⟩ <;> cases hpc.symm.trans hpc'
    exact ⟨hne, front, (received_other hother).trans hfront⟩
  · exact ⟨hne, h.received k, by simp [Provenance.watch]⟩

theorem source_step (ht : Traced s h) (hstep : Step cfg s a next) (c i k p : Nat)
    (htag : ((h.watch s a).origin c)[i]? = some (k, p)) :
    k ≠ c ∧ p < ((h.watch s a).received k).length ∧
      (next.stream c)[i]? = ((h.watch s a).received k)[p]? := by
  have hkept : ∀ {i k p : Nat}, (h.origin c)[i]? = some (k, p) →
      k ≠ c ∧ p < ((h.watch s a).received k).length ∧
        (s.stream c)[i]? = ((h.watch s a).received k)[p]? := by
    intro i k p hold
    obtain ⟨hother, hp, hbyte⟩ := ht.source c i k p hold
    obtain ⟨more, hmore⟩ := received_step s a h k
    rw [← hmore, List.getElem?_append_left hp, List.length_append]
    exact ⟨hother, by omega, hbyte⟩
  rcases origin_cases (h := h) ht.ok hstep with ⟨hstream, horigin, -⟩ |
    ⟨source, buffer, j, d, rfl, hpc, htarget, hup, hne, hstream, horigin⟩
  · rw [horigin] at htag
    rw [hstream]
    exact hkept htag
  · rw [horigin] at htag
    rw [hstream]
    by_cases hcd : c = d
    · subst hcd
      rw [Function.update_self] at htag ⊢
      by_cases hi : i < (h.origin c).length
      · rw [List.getElem?_append_left hi] at htag
        rw [List.getElem?_append_left (ht.length c ▸ hi)]
        exact hkept htag
      · obtain ⟨r, rfl⟩ := Nat.exists_eq_add_of_le (Nat.le_of_not_lt hi)
        have hlt := (List.getElem?_eq_some_iff.mp htag).1
        rw [List.length_append, length_piece] at hlt
        have hr : r < buffer.length := by omega
        rw [List.getElem?_append_right (Nat.le_add_right ..), Nat.add_sub_cancel_left,
          piece_getElem? hr] at htag
        obtain ⟨rfl, rfl⟩ := Prod.mk.inj (Option.some.inj htag)
        obtain ⟨-, front, hfront⟩ := ht.held source buffer (Or.inr ⟨j, hpc⟩)
        have hbefore : h.before source buffer = front.length := by
          rw [Provenance.before, hfront, List.length_append, Nat.add_sub_cancel]
        rw [received_iterate, hbefore, hfront, ← ht.length,
          List.getElem?_append_right (Nat.le_add_right ..), Nat.add_sub_cancel_left,
          List.getElem?_append_right (Nat.le_add_right ..), Nat.add_sub_cancel_left,
          List.length_append]
        exact ⟨hne.symm, by omega, rfl⟩
    · rw [Function.update_of_ne hcd] at htag ⊢
      exact hkept htag

theorem length_step (ht : Traced s h) (hstep : Step cfg s a next) (c : Nat) :
    (next.stream c).length = ((h.watch s a).origin c).length := by
  rcases origin_cases (h := h) ht.ok hstep with ⟨hstream, horigin, -⟩ |
    ⟨source, buffer, j, d, rfl, hpc, htarget, hup, hne, hstream, horigin⟩
  · rw [hstream, horigin, ht.length]
  · rw [hstream, horigin]
    by_cases hcd : c = d
    · rw [hcd, Function.update_self, Function.update_self, List.length_append,
        List.length_append, ht.length, length_piece]
    · rw [Function.update_of_ne hcd, Function.update_of_ne hcd, ht.length]

theorem traced_step (ht : Traced s h) (hstep : (server cfg).step s a = some next) :
    Traced next (h.watch s a) := by
  have hcases := step_iff.mp hstep
  exact ⟨ok_step ht.ok hstep, held_step ht hcases, length_step ht hcases, source_step ht hcases⟩

theorem traced_init : Traced Server.init Provenance.init where
  ok := ok_init
  held k buffer hholds := by rcases hholds with hpc | ⟨i, hpc⟩ <;> cases hpc
  length c := rfl
  source c i k p htag := by simp [Provenance.init] at htag

end Steps

section Runs

variable {cfg : Config} {finish : Server × Provenance} {actions : List Act}

/-- The streams to the clients stay frame-aligned in exactly those runs in which
every chunk that is sent joins the stream it is sent to. -/
theorem relay_aligned_iff
    (hrun : (traced cfg).run (Server.init, Provenance.init) actions = some finish) :
    (traced cfg).Throughout Aligned (Server.init, Provenance.init) actions ↔
      (traced cfg).Respects Joins (Server.init, Provenance.init) actions := by
  apply Machine.throughout_iff_respects (I := fun p => Traced p.1 p.2)
  · rintro ⟨s, h⟩ a ⟨next, after⟩ ht haligned hstep
    obtain ⟨hserver, hwatch⟩ := Machine.monitored_step.mp hstep
    simp only at ht hserver hwatch
    subst hwatch
    rw [aligned_iff_steady (traced_step ht hserver)]
    exact steady_step ht ((aligned_iff_steady ht).mp haligned) (step_iff.mp hserver)
  · rintro ⟨s, h⟩ a ⟨next, after⟩ ht - hstep -
    obtain ⟨hserver, hwatch⟩ := Machine.monitored_step.mp hstep
    exact hwatch ▸ traced_step ht hserver
  · exact traced_init
  · rw [aligned_iff_steady traced_init]
    intro c i k p htag
    simp [Provenance.init] at htag
  · exact hrun

/-- Three clients. `recv` cuts the second frame of the first client in half, and
the next chunk is a frame of the second client. -/
def mixedRun : List Act :=
  [.accept 4, .lockPush, .pushBack, .spawn, .accept 5, .lockPush, .pushBack, .spawn,
    .accept 6, .lockPush, .pushBack, .spawn, .clientSend 0 [1, 2, 3, 4, 5, 6, 7, 8],
    .clientSend 1 [9, 10, 11, 12], .recv 0 6, .recv 1 4, .lockBroadcast 0, .iterate 0,
    .iterate 0, .iterate 0, .iterate 0, .lockBroadcast 1, .iterate 1, .iterate 1, .iterate 1]

theorem mixedRun_not_aligned :
    ∃ p, (traced relay).run (Server.init, Provenance.init) mixedRun = some p ∧
      p.1.stream 2 = [1, 2, 3, 4, 5, 6, 9, 10, 11, 12] ∧ ¬Aligned p := by
  refine ⟨_, rfl, rfl, fun haligned => ?_⟩
  obtain ⟨k, m, -, hframe⟩ := haligned 2 1 (by decide)
  have hfirst := (hframe 1 (by decide) (by decide)).1
  have hsecond := (hframe 2 (by decide) (by decide)).1
  have hsource : k = 0 := (congrArg Prod.fst (Option.some.inj hfirst)).symm
  have hother : k = 1 := (congrArg Prod.fst (Option.some.inj hsecond)).symm
  omega

theorem relay_aligned_iff_mixedRun :
    ¬(traced relay).Respects Joins (Server.init, Provenance.init) mixedRun := by
  intro h
  obtain ⟨p, hrun, -, hnot⟩ := mixedRun_not_aligned
  exact hnot (((relay_aligned_iff hrun).mpr h).last hrun)

/-- All three send whole frames, and the third client's second group has two
bytes of each of the others. -/
theorem relay_mixes_frames :
    (∀ c bytes, .clientSend c bytes ∈ mixedRun → bytes.length % frameBytes = 0) ∧
      ∃ p, (traced relay).run (Server.init, Provenance.init) mixedRun = some p ∧
        p.1.stream 2 = [1, 2, 3, 4, 5, 6, 9, 10, 11, 12] ∧ ¬Aligned p := by
  refine ⟨?_, mixedRun_not_aligned⟩
  intro c bytes hmem
  simp only [mixedRun, List.mem_cons, List.not_mem_nil, reduceCtorEq, Act.clientSend.injEq,
    false_or, or_false] at hmem
  rcases hmem with ⟨-, rfl⟩ | ⟨-, rfl⟩ <;> rfl

end Runs

end MediaStream.TCPS
