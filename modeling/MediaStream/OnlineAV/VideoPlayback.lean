import MediaStream.Lib.Collector
import MediaStream.Lib.KeySort
import MediaStream.OnlineAV.Packets

/-!
`VideoPlayback`: datagrams are collected under their frame number in
`fragment_buffer`; a datagram with the `last_fragment` flag hands the frame to
`cv::imdecode` if there are then as many entries as it says there are fragments.

The loop is an instance of `Lib.Collector`, so what it hands over for one frame
number depends on the datagrams with that number only.
-/

namespace MediaStream.OnlineAV

open Lib

/-- An implementation of `std::sort` with the comparison of `fragment_i`. -/
abbrev FragmentSort := KeySort fun f : VideoFragment => f.fragmentI.toNat

abbrev FragmentBuffer := UInt32 → Option (List VideoFragment)

namespace FragmentBuffer

def empty : FragmentBuffer := fun _ => none

def index (m : FragmentBuffer) (frameSeq : UInt32) : List VideoFragment := (m frameSeq).getD []

/-- `fragment_buffer[fragment.frame_seq].push_back(fragment)` -/
def pushBack (m : FragmentBuffer) (fragment : VideoFragment) : FragmentBuffer :=
  Function.update m fragment.frameSeq (some (m.index fragment.frameSeq ++ [fragment]))

def erase (m : FragmentBuffer) (frameSeq : UInt32) : FragmentBuffer :=
  Function.update m frameSeq none

@[simp] theorem index_pushBack (m : FragmentBuffer) (fragment : VideoFragment) :
    (m.pushBack fragment).index fragment.frameSeq = m.index fragment.frameSeq ++ [fragment] := by
  simp [index, pushBack]

@[simp] theorem entry_empty (frameSeq : UInt32) : Collector.entry empty frameSeq = [] := rfl

end FragmentBuffer

/-- One call of `cv::imdecode`: the frame number and the fragments in the order
in which their ranges have been appended to `reassembled_frame`. -/
structure Handover where
  frameSeq : UInt32
  fragments : List VideoFragment

/-- What `reassembled_frame` holds then, from `clear` and one `insert` a fragment. -/
def Handover.reassembledFrame (h : Handover) : List UInt8 := h.fragments.flatMap VideoFragment.data

def Handover.shown (h : Handover) : UInt32 × List UInt8 := (h.frameSeq, h.reassembledFrame)

/-- One pass of the loop after a datagram has been received. -/
def handleFragment (S : FragmentSort) (m : FragmentBuffer) (fragment : VideoFragment) :
    FragmentBuffer × Option Handover :=
  if fragment.lastFragment then
    if ((m.pushBack fragment).index fragment.frameSeq).length = fragment.totalFragments.toNat then
      ((m.pushBack fragment).erase fragment.frameSeq,
        some ⟨fragment.frameSeq, S.sort ((m.pushBack fragment).index fragment.frameSeq)⟩)
    else (m.pushBack fragment, none)
  else (m.pushBack fragment, none)

def fragmentBuffer (S : FragmentSort) (m : FragmentBuffer) (datagrams : List (List UInt8)) :
    FragmentBuffer :=
  datagrams.foldl (fun m datagram => (handleFragment S m (VideoFragment.recv datagram)).1) m

def handovers (S : FragmentSort) (m : FragmentBuffer) : List (List UInt8) → List Handover
  | [] => []
  | datagram :: rest =>
    (handleFragment S m (VideoFragment.recv datagram)).2.toList ++
      handovers S (handleFragment S m (VideoFragment.recv datagram)).1 rest

/-- What one pass of the loop meets: `running` cleared by another thread, the
result of `recv`, and whether a frame that is shown is answered with ESC. -/
structure Round where
  stopped : Bool
  received : Option (List UInt8)
  esc : Bool

structure Player where
  running : Bool
  buffer : FragmentBuffer
  handed : List Handover

/-- A key is only waited for when a frame has been handed over. -/
def Player.handled (S : FragmentSort) (p : Player) (esc : Bool) (fragment : VideoFragment) :
    Player where
  running := !(esc && (handleFragment S p.buffer fragment).2.isSome)
  buffer := (handleFragment S p.buffer fragment).1
  handed := p.handed ++ (handleFragment S p.buffer fragment).2.toList

def Player.round (S : FragmentSort) (p : Player) (r : Round) : Player :=
  if p.running && !r.stopped then
    match r.received with
    | none => p
    | some datagram => p.handled S r.esc (VideoFragment.recv datagram)
  else { p with running := false }

/-- `VideoPlayback` over the passes of its loop. -/
def videoPlayback (S : FragmentSort) (rounds : List Round) : Player :=
  rounds.foldl (Player.round S) { running := true, buffer := FragmentBuffer.empty, handed := [] }

section Loop

variable {S : FragmentSort}

theorem handovers_cons (m : FragmentBuffer) (datagram : List UInt8) (rest : List (List UInt8)) :
    handovers S m (datagram :: rest) =
      (handleFragment S m (VideoFragment.recv datagram)).2.toList ++
        handovers S (handleFragment S m (VideoFragment.recv datagram)).1 rest := by
  rw [handovers]

theorem fragmentBuffer_cons (m : FragmentBuffer) (datagram : List UInt8)
    (rest : List (List UInt8)) :
    fragmentBuffer S m (datagram :: rest) =
      fragmentBuffer S (handleFragment S m (VideoFragment.recv datagram)).1 rest := by
  rw [fragmentBuffer, List.foldl_cons, ← fragmentBuffer]

private theorem foldl_round_stopped {rounds : List Round} {p : Player} (h : p.running = false) :
    rounds.foldl (Player.round S) p = p := by
  induction rounds with
  | nil => rfl
  | cons r rest ih =>
    have hround : Player.round S p r = p := by
      cases p
      simp_all [Player.round]
    rw [List.foldl_cons, hround, ih]

private theorem foldl_round {rounds : List Round} {p : Player} (h : p.running = true) :
    ∃ datagrams, datagrams <+: rounds.filterMap Round.received ∧
      (rounds.foldl (Player.round S) p).handed = p.handed ++ handovers S p.buffer datagrams ∧
      (rounds.foldl (Player.round S) p).buffer = fragmentBuffer S p.buffer datagrams ∧
      ((∀ r ∈ rounds, r.stopped = false ∧ r.esc = false) →
        datagrams = rounds.filterMap Round.received) := by
  induction rounds generalizing p with
  | nil => exact ⟨[], by simp [handovers, fragmentBuffer]⟩
  | cons r rest ih =>
    rw [List.foldl_cons]
    by_cases hstopped : r.stopped = true
    · have hround : Player.round S p r = { p with running := false } := by
        simp [Player.round, hstopped]
      refine ⟨[], List.nil_prefix, ?_⟩
      rw [hround, foldl_round_stopped rfl]
      simp [handovers, fragmentBuffer, hstopped]
    · have hgoes : (p.running && !r.stopped) = true := by simp [h, hstopped]
      cases hreceived : r.received with
      | none =>
        have hround : Player.round S p r = p := by
          rw [Player.round, if_pos hgoes, hreceived]
        obtain ⟨datagrams, hprefix, hhanded, hbuffer, hall⟩ := ih h
        rw [hround, List.filterMap_cons_none hreceived]
        exact ⟨datagrams, hprefix, hhanded, hbuffer,
          fun hgo => hall fun q hq => hgo q (List.mem_cons_of_mem _ hq)⟩
      | some datagram =>
        have hround : Player.round S p r = p.handled S r.esc (VideoFragment.recv datagram) := by
          rw [Player.round, if_pos hgoes, hreceived]
        rw [hround, List.filterMap_cons_some hreceived]
        cases hrunning : (p.handled S r.esc (VideoFragment.recv datagram)).running with
        | true =>
          obtain ⟨datagrams, hprefix, hhanded, hbuffer, hall⟩ := ih hrunning
          refine ⟨datagram :: datagrams, List.cons_prefix_cons.mpr ⟨rfl, hprefix⟩, ?_, ?_, ?_⟩
          · rw [hhanded, handovers_cons, ← List.append_assoc, Player.handled]
          · rw [hbuffer, fragmentBuffer_cons, Player.handled]
          · exact fun hgo => congrArg _ (hall fun q hq => hgo q (List.mem_cons_of_mem _ hq))
        | false =>
          refine ⟨[datagram], List.cons_prefix_cons.mpr ⟨rfl, List.nil_prefix⟩, ?_, ?_, ?_⟩
          · rw [foldl_round_stopped hrunning, handovers_cons, handovers, List.append_nil,
              Player.handled]
          · rw [foldl_round_stopped hrunning, fragmentBuffer_cons, Player.handled, fragmentBuffer,
              List.foldl_nil]
          · intro hgo
            have hesc := (hgo r (List.mem_cons_self ..)).2
            simp [Player.handled, hesc] at hrunning

/-- What the loop hands over is what it hands over for the datagrams it has
handled: all that `recv` delivered, until `running` is cleared. -/
theorem videoPlayback_handles (rounds : List Round) :
    ∃ datagrams, datagrams <+: rounds.filterMap Round.received ∧
      (videoPlayback S rounds).handed = handovers S FragmentBuffer.empty datagrams ∧
      (videoPlayback S rounds).buffer = fragmentBuffer S FragmentBuffer.empty datagrams ∧
      ((∀ r ∈ rounds, r.stopped = false ∧ r.esc = false) →
        datagrams = rounds.filterMap Round.received) :=
  foldl_round rfl

end Loop

section Collecting

variable {S : FragmentSort} {m : FragmentBuffer}

def completes (f : VideoFragment) (size : Nat) : Bool :=
  f.lastFragment && decide (size = f.totalFragments.toNat)

theorem handleFragment_eq (f : VideoFragment) :
    handleFragment S m f =
      ((Collector.handle VideoFragment.frameSeq completes m f).1,
        (Collector.handle VideoFragment.frameSeq completes m f).2.map
          fun group => ⟨f.frameSeq, S.sort group⟩) := by
  have hindex : m.index f.frameSeq = Collector.entry m f.frameSeq := rfl
  unfold handleFragment
  rw [FragmentBuffer.index_pushBack, hindex, List.length_append, List.length_singleton]
  cases hfires : completes f ((Collector.entry m f.frameSeq).length + 1) with
  | true =>
    obtain ⟨hlast, hsize⟩ : f.lastFragment = true ∧ _ := by
      simpa [completes] using hfires
    rw [Collector.handle_of_fires hfires, if_pos hlast, if_pos hsize]
    simp [FragmentBuffer.erase, FragmentBuffer.pushBack]
  | false =>
    rw [Collector.handle_of_silent hfires]
    have hpush : m.pushBack f =
        Function.update m f.frameSeq (some (Collector.entry m f.frameSeq ++ [f])) := rfl
    cases hlast : f.lastFragment with
    | true =>
      have hsize : ¬(Collector.entry m f.frameSeq).length + 1 = f.totalFragments.toNat := by
        simpa [completes, hlast] using hfires
      rw [if_pos rfl, if_neg hsize, hpush]
      rfl
    | false =>
      rw [if_neg (by decide), hpush]
      rfl

theorem fragmentBuffer_eq (datagrams : List (List UInt8)) :
    fragmentBuffer S m datagrams =
      Collector.buffer VideoFragment.frameSeq completes m (datagrams.map VideoFragment.recv) := by
  unfold fragmentBuffer Collector.buffer
  rw [List.foldl_map]
  simp only [handleFragment_eq]

theorem handovers_eq (datagrams : List (List UInt8)) :
    handovers S m datagrams =
      (Collector.output VideoFragment.frameSeq completes m
        (datagrams.map VideoFragment.recv)).map fun part => ⟨part.1, S.sort part.2⟩ := by
  induction datagrams generalizing m with
  | nil => rfl
  | cons datagram rest ih =>
    rw [handovers_cons, handleFragment_eq, ih, List.map_cons, Collector.output, List.map_append]
    cases (Collector.handle VideoFragment.frameSeq completes m (VideoFragment.recv datagram)).2 <;>
      simp

/-- Fragments that arrive as they were sent. -/
theorem handovers_bytes (arrivals : List VideoFragment) :
    handovers S m (arrivals.map VideoFragment.bytes) =
      (Collector.output VideoFragment.frameSeq completes m arrivals).map
        fun part => ⟨part.1, S.sort part.2⟩ := by
  rw [handovers_eq, List.map_map]
  simp [Function.comp_def]

/-- Arrivals that carry more than their datagrams. The code does not see it, so
the hand-overs are those of the datagrams. -/
theorem handovers_map {β : Type*} {datagram : β → List UInt8} {g : β → VideoFragment}
    (hg : ∀ b, VideoFragment.recv (datagram b) = g b) (arrivals : List β) :
    handovers S FragmentBuffer.empty (arrivals.map datagram) =
      (Collector.output (VideoFragment.frameSeq ∘ g) (completes ∘ g) (fun _ => none)
        arrivals).map fun part => ⟨part.1, S.sort (part.2.map g)⟩ := by
  have hrecv : (arrivals.map datagram).map VideoFragment.recv = arrivals.map g := by
    rw [List.map_map]
    apply List.map_congr_left
    intro b _
    exact hg b
  have hghost : Collector.output VideoFragment.frameSeq completes FragmentBuffer.empty
      (arrivals.map g) =
        (Collector.output (VideoFragment.frameSeq ∘ g) (completes ∘ g) (fun _ => none)
          arrivals).map fun part => (part.1, part.2.map g) :=
    Collector.output_map g (fun _ => none) arrivals
  rw [handovers_eq, hrecv, hghost, List.map_map]
  rfl

theorem fragmentBuffer_bytes (arrivals : List VideoFragment) :
    fragmentBuffer S m (arrivals.map VideoFragment.bytes) =
      Collector.buffer VideoFragment.frameSeq completes m arrivals := by
  rw [fragmentBuffer_eq, List.map_map]
  simp [Function.comp_def]

/-- Fragments that agree on the number of fragments complete under one rule. -/
theorem uniform_completes {n : UInt32} {items : List VideoFragment}
    (h : ∀ f ∈ items, f.totalFragments = n) :
    Collector.Uniform completes VideoFragment.lastFragment n.toNat items := by
  intro f hf size
  rw [completes, h f hf]

end Collecting

end MediaStream.OnlineAV
