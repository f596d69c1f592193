import Mathlib.Algebra.Order.BigOperators.Group.List
import Mathlib.Algebra.Order.Ring.Nat
import MediaStream.OnlineAV.SentFrame

/-!
Several peers sending to one `VideoPlayback`. Every peer numbers its frames from
0 and `fragment_buffer` is keyed by the number alone, so the frames of different
peers meet in one entry. The source of a datagram is kept here as a ghost next
to it; the code never sees it.
-/

namespace MediaStream.OnlineAV

open Lib Lib.Collector

variable {peers : Nat}

/-- The frames of one peer that get a number, counting from `start`. There are
several when the counter has wrapped. -/
def numbered (frameSeq : UInt32) (start : UInt32) : List EncFrame → List EncFrame
  | [] => []
  | e :: rest =>
    if start = frameSeq then e :: numbered frameSeq (start + 1) rest
    else numbered frameSeq (start + 1) rest

/-- The arrivals of every peer, in its sending order, without loss or copies. -/
def Interleaved (frames : Fin peers → List EncFrame)
    (arrivals : List (Fin peers × VideoFragment)) : Prop :=
  ∀ p, (arrivals.filter (·.1 = p)).map Prod.snd = videoFragments 0 (frames p)

def traced (arrivals : List (Fin peers × VideoFragment)) :
    List (UInt32 × List (Fin peers × VideoFragment)) :=
  output (VideoFragment.frameSeq ∘ Prod.snd) (completes ∘ Prod.snd) (fun _ => none) arrivals

def tracedBuffer (S : FragmentSort) (group : List (Fin peers × VideoFragment)) : List UInt8 :=
  (S.sort (group.map Prod.snd)).flatMap VideoFragment.data

/-- No buffer mixes fragments of two peers, and the buffers of a peer with a
number are the encodings of its frames with this number, each once. -/
def EachFrameOnce (S : FragmentSort) (frames : Fin peers → List EncFrame)
    (arrivals : List (Fin peers × VideoFragment)) : Prop :=
  (∀ part ∈ traced arrivals, ∀ a ∈ part.2, ∀ b ∈ part.2, a.1 = b.1) ∧
    ∀ p frameSeq,
      (((traced arrivals).filter fun part =>
          part.1 = frameSeq ∧ part.2.any (·.1 = p)).map fun part => tracedBuffer S part.2).Perm
        ((numbered frameSeq 0 (frames p)).map EncFrame.bytes)

def blockOf (frameSeq : UInt32) (block : Fin peers × EncFrame) : List (Fin peers × VideoFragment) :=
  (block.2.fragments frameSeq).map (block.1, ·)

/-- The datagrams of one number arrive frame by frame: all fragments of one
frame before the next one of that number begins. -/
def FrameByFrame (frameSeq : UInt32) (items : List (Fin peers × VideoFragment)) : Prop :=
  ∃ blocks : List (Fin peers × EncFrame), items = blocks.flatMap (blockOf frameSeq)

/-- The ghost changes nothing. -/
theorem handovers_traced (S : FragmentSort) (arrivals : List (Fin peers × VideoFragment)) :
    handovers S FragmentBuffer.empty (arrivals.map fun a => a.2.bytes) =
      (traced arrivals).map fun part => ⟨part.1, S.sort (part.2.map Prod.snd)⟩ := by
  unfold traced
  exact handovers_map (g := Prod.snd) (fun a => VideoFragment.recv_bytes a.2) arrivals

section Streams

variable {frameSeq : UInt32} {sources : Fin peers → List EncFrame}
  {items group rest : List (Fin peers × VideoFragment)}

/-- What arrives from every peer with one number are whole frames, in order. -/
def Streams (frameSeq : UInt32) (sources : Fin peers → List EncFrame)
    (items : List (Fin peers × VideoFragment)) : Prop :=
  ∀ p, (items.filter (·.1 = p)).map Prod.snd = (sources p).flatMap (·.fragments frameSeq) ∧
    ∀ e ∈ sources p, 0 < e.totalFragments.toNat

/-- A flagged fragment in a sequence of frames is the end of one of them. -/
theorem ends_frame {es : List EncFrame} {x y : List VideoFragment} {f : VideoFragment}
    (hpos : ∀ e ∈ es, 0 < e.totalFragments.toNat)
    (h : x ++ [f] ++ y = es.flatMap (·.fragments frameSeq)) (hflag : f.lastFragment = true) :
    ∃ (front : List EncFrame) (e : EncFrame) (back : List EncFrame),
      es = front ++ e :: back ∧ f ∈ e.fragments frameSeq ∧
        x ++ [f] = front.flatMap (·.fragments frameSeq) ++ e.fragments frameSeq ∧
        y = back.flatMap (·.fragments frameSeq) := by
  induction es generalizing x with
  | nil => simp at h
  | cons e es ih =>
    rw [List.flatMap_cons, List.append_eq_append_iff] at h
    obtain ⟨hposHead, hposTail⟩ := List.forall_mem_cons.mp hpos
    obtain ⟨others, final, hsnoc, -, hothers⟩ := EncFrame.fragments_eq_snoc frameSeq hposHead
    rcases h with ⟨z, hframe, hy⟩ | ⟨z, hx, hrest⟩
    · -- The flagged fragment is in the first frame: nothing of it follows.
      have hnone : z = [] := by
        rcases List.eq_nil_or_concat' z with rfl | ⟨z, g, rfl⟩
        · rfl
        · rw [hsnoc, ← List.append_assoc] at hframe
          obtain ⟨hfront, -⟩ := List.append_inj' hframe rfl
          have hmem : f ∈ others := by simp [hfront]
          rw [hothers f hmem] at hflag
          cases hflag
      subst hnone
      rw [List.append_nil] at hframe
      exact ⟨[], e, es, rfl, by simp [hframe], by simp [hframe], by simpa using hy⟩
    · rcases List.eq_nil_or_concat' z with rfl | ⟨z, g, rfl⟩
      · rw [List.append_nil] at hx
        refine ⟨[], e, es, rfl, by simp [← hx], by simpa using hx, by simpa using hrest.symm⟩
      · rw [← List.append_assoc] at hx
        obtain ⟨rfl, hg⟩ := List.append_inj' hx rfl
        obtain rfl : f = g := by simpa using hg
        obtain ⟨front, d, back, rfl, hmem, hfront, hback⟩ := ih hposTail hrest.symm
        refine ⟨e :: front, d, back, rfl, hmem, ?_, hback⟩
        rw [List.append_assoc, hfront, List.flatMap_cons, List.append_assoc]

/-- A group is one frame of one peer, the first that this peer still has to
deliver: no other count of entries fits its flagged fragment. -/
theorem group_is_frame_of_peer (h : Streams frameSeq sources (group ++ rest))
    (hgroup : Group (completes ∘ Prod.snd) group) :
    ∃ p e es, sources p = e :: es ∧ group = (e.fragments frameSeq).map (p, ·) ∧
      Streams frameSeq (Function.update sources p es) rest := by
  obtain ⟨front, ⟨p, f⟩, rfl, -, hfires⟩ := hgroup
  obtain ⟨hflag, hcount⟩ : f.lastFragment = true ∧ front.length + 1 = f.totalFragments.toNat := by
    simpa [completes] using hfires
  obtain ⟨hp, hpos⟩ := h p
  have hsplit :
      (front.filter (·.1 = p)).map Prod.snd ++ [f] ++ (rest.filter (·.1 = p)).map Prod.snd =
        (sources p).flatMap (·.fragments frameSeq) := by
    rw [← hp]
    simp
  obtain ⟨before, e, es, hsources, hmem, hends, hrest⟩ := ends_frame hpos hsplit hflag
  have hlen := congrArg List.length hends
  rw [List.length_append, List.length_map, List.length_append, EncFrame.length_fragments,
    List.length_singleton, ← EncFrame.totalFragments_of_mem hmem, ← hcount] at hlen
  have hle := List.length_filter_le (fun a : Fin peers × VideoFragment => decide (a.1 = p)) front
  -- The peer's own datagrams already make up the count, so there are no others.
  have hbefore : before = [] := by
    cases before with
    | nil => rfl
    | cons d ds =>
      have hd := hpos d (by simp [hsources])
      rw [List.flatMap_cons, List.length_append, EncFrame.length_fragments] at hlen
      omega
  subst hbefore
  have hall : ∀ a ∈ front, a.1 = p := by
    have hfull : (front.filter (·.1 = p)).length = front.length := by
      simp only [List.flatMap_nil, List.length_nil] at hlen
      omega
    intro a ha
    simpa using List.length_filter_eq_length_iff.mp hfull a ha
  have hfront : front.filter (·.1 = p) = front :=
    List.filter_eq_self.mpr fun a ha => by simpa using hall a ha
  rw [hfront, List.flatMap_nil, List.nil_append] at hends
  refine ⟨p, e, es, hsources, ?_, ?_⟩
  · rw [← hends, List.map_append, List.map_map, List.map_singleton]
    congr 1
    exact (List.map_id'' (fun a => rfl) _).symm.trans
      (List.map_congr_left fun a ha => Prod.ext (hall a ha) rfl)
  · intro q
    by_cases hq : q = p
    · subst hq
      rw [Function.update_self]
      exact ⟨hrest, fun d hd => hpos d (by simp [hsources, hd])⟩
    · rw [Function.update_of_ne hq]
      obtain ⟨hstream, hposq⟩ := h q
      refine ⟨?_, hposq⟩
      have hnone : (front ++ [(p, f)]).filter (·.1 = q) = [] :=
        List.filter_eq_nil_iff.mpr fun a ha => by
          rcases List.mem_append.mp ha with ha | ha
          · simpa [hall a ha] using Ne.symm hq
          · simpa [List.mem_singleton.mp ha] using Ne.symm hq
      rwa [List.filter_append, hnone, List.nil_append] at hstream

/-- All groups of a number are frames, and what they leave are the later frames
of every peer. -/
theorem groups_are_frames {parts : List (List (Fin peers × VideoFragment))}
    (hparts : ∀ part ∈ parts, Group (completes ∘ Prod.snd) part)
    (h : Streams frameSeq sources (parts.flatten ++ rest)) :
    ∃ (blocks : List (Fin peers × EncFrame)) (left : Fin peers → List EncFrame),
      parts = blocks.map (blockOf frameSeq) ∧ Streams frameSeq left rest ∧
        ∀ p, sources p = (blocks.filter (·.1 = p)).map Prod.snd ++ left p := by
  induction parts generalizing sources with
  | nil => exact ⟨[], sources, rfl, h, fun p => rfl⟩
  | cons part parts ih =>
    obtain ⟨hpart, hlater⟩ := List.forall_mem_cons.mp hparts
    rw [List.flatten_cons, List.append_assoc] at h
    obtain ⟨p, e, es, hsources, rfl, hrest⟩ := group_is_frame_of_peer h hpart
    obtain ⟨blocks, left, rfl, hleft, hall⟩ := ih hlater hrest
    refine ⟨(p, e) :: blocks, left, rfl, hleft, fun q => ?_⟩
    have hq := hall q
    by_cases hpq : q = p
    · subst hpq
      rw [Function.update_self] at hq
      simp [hsources, hq]
    · rw [Function.update_of_ne hpq] at hq
      rw [hq, List.filter_cons_of_neg (by simpa using Ne.symm hpq)]

end Streams

section Runs

variable {S : FragmentSort} {frames : Fin peers → List EncFrame}
  {arrivals : List (Fin peers × VideoFragment)}

theorem filter_numbered (frameSeq start : UInt32) (es : List EncFrame) :
    (videoFragments start es).filter (·.frameSeq = frameSeq) =
      (numbered frameSeq start es).flatMap (·.fragments frameSeq) := by
  induction es generalizing start with
  | nil => rfl
  | cons e rest ih =>
    rw [videoFragments, List.filter_append, ih, numbered]
    by_cases hstart : start = frameSeq
    · subst hstart
      have hall : (e.fragments start).filter (·.frameSeq = start) = e.fragments start :=
        List.filter_eq_self.mpr fun f hf => by simp [EncFrame.frameSeq_of_mem hf]
      rw [if_pos rfl, hall, List.flatMap_cons]
    · have hnone : (e.fragments start).filter (·.frameSeq = frameSeq) = [] :=
        List.filter_eq_nil_iff.mpr fun f hf => by simp [EncFrame.frameSeq_of_mem hf, hstart]
      rw [if_neg hstart, hnone, List.nil_append]

theorem mem_numbered {frameSeq start : UInt32} {es : List EncFrame} {e : EncFrame}
    (h : e ∈ numbered frameSeq start es) : e ∈ es := by
  induction es generalizing start with
  | nil => cases h
  | cons d rest ih =>
    rw [numbered] at h
    split at h
    · rcases List.mem_cons.mp h with rfl | hrest
      · exact List.mem_cons_self ..
      · exact List.mem_cons_of_mem _ (ih hrest)
    · exact List.mem_cons_of_mem _ (ih h)

theorem exists_numbered (start : UInt32) {es : List EncFrame} {e : EncFrame} (h : e ∈ es) :
    ∃ frameSeq, e ∈ numbered frameSeq start es := by
  induction es generalizing start with
  | nil => cases h
  | cons d rest ih =>
    rcases List.mem_cons.mp h with rfl | hrest
    · exact ⟨start, by simp [numbered]⟩
    · obtain ⟨frameSeq, hmem⟩ := ih (start + 1) hrest
      refine ⟨frameSeq, ?_⟩
      rw [numbered]
      split
      · exact List.mem_cons_of_mem _ hmem
      · exact hmem

/-- Frames of which nothing is sent leave no trace. -/
theorem flatMap_filter_sent {β γ : Type*} {es : List β} (frame : β → EncFrame)
    {block : β → List γ} (h : ∀ b, (frame b).totalFragments.toNat = 0 → block b = []) :
    (es.filter fun b => 0 < (frame b).totalFragments.toNat).flatMap block = es.flatMap block := by
  induction es with
  | nil => rfl
  | cons b rest ih =>
    rw [List.flatMap_cons, List.filter_cons]
    split
    · rw [List.flatMap_cons, ih]
    · rw [ih, h b (by simp_all), List.nil_append]

def sentFrames (frames : Fin peers → List EncFrame) (frameSeq : UInt32) (p : Fin peers) :
    List EncFrame :=
  (numbered frameSeq 0 (frames p)).filter (0 < ·.totalFragments.toNat)

/-- The datagrams of one number, before any of them has been handled. -/
theorem streams_of_interleaved (h : Interleaved frames arrivals) (frameSeq : UInt32) :
    Streams frameSeq (sentFrames frames frameSeq)
      (arrivals.filter (·.2.frameSeq = frameSeq)) := by
  intro p
  refine ⟨?_, fun e he => by simpa using (List.mem_filter.mp he).2⟩
  have hcomm : ((arrivals.filter (·.2.frameSeq = frameSeq)).filter (·.1 = p)).map Prod.snd =
      ((arrivals.filter (·.1 = p)).map Prod.snd).filter (·.frameSeq = frameSeq) := by
    rw [List.filter_comm, List.filter_map]
    rfl
  rw [hcomm, h p, filter_numbered]
  exact (flatMap_filter_sent id fun e he => e.fragments_eq_nil frameSeq he).symm

/-- What is handed over for one number, peer by peer: the frames that complete,
in sending order, and what is left in the entry: the later ones. -/
theorem traced_of_number (h : Interleaved frames arrivals) (frameSeq : UInt32) :
    ∃ (blocks : List (Fin peers × EncFrame)) (left : Fin peers → List EncFrame),
      arrivals.filter (·.2.frameSeq = frameSeq) =
          blocks.flatMap (blockOf frameSeq) ++
            pending (completes ∘ Prod.snd) [] (arrivals.filter (·.2.frameSeq = frameSeq)) ∧
        Streams frameSeq left
          (pending (completes ∘ Prod.snd) [] (arrivals.filter (·.2.frameSeq = frameSeq))) ∧
        ((traced arrivals).filter (·.1 = frameSeq)).map Prod.snd =
          blocks.map (blockOf frameSeq) ∧
        ∀ p, sentFrames frames frameSeq p = (blocks.filter (·.1 = p)).map Prod.snd ++ left p := by
  obtain ⟨hsplit, hgroups, -⟩ := groups_sound (arrivals.filter (·.2.frameSeq = frameSeq))
    (silent_nil (completes ∘ Prod.snd) 0)
  have hstreams := streams_of_interleaved h frameSeq
  rw [List.nil_append] at hsplit
  rw [hsplit] at hstreams
  obtain ⟨blocks, left, hparts, hleft, hsources⟩ := groups_are_frames hgroups hstreams
  refine ⟨blocks, left, ?_, hleft, ?_, hsources⟩
  · rw [List.flatMap_def, ← hparts]
    exact hsplit
  · rw [← hparts]
    exact groups_of_key (VideoFragment.frameSeq ∘ Prod.snd) (completes ∘ Prod.snd) (fun _ => none)
      arrivals frameSeq

/-- The buffers of one peer and number, from the frames that complete. -/
theorem buffers_of_peer {frameSeq : UInt32} {blocks : List (Fin peers × EncFrame)}
    (hblocks : ((traced arrivals).filter (·.1 = frameSeq)).map Prod.snd =
      blocks.map (blockOf frameSeq))
    (hpos : ∀ block ∈ blocks, 0 < block.2.totalFragments.toNat) (p : Fin peers) :
    (((traced arrivals).filter fun part =>
        part.1 = frameSeq ∧ part.2.any (·.1 = p)).map fun part => tracedBuffer S part.2) =
      ((blocks.filter (·.1 = p)).map Prod.snd).map fun e =>
        e.bytes.take (fdataSize * e.totalFragments.toNat) := by
  have hsplit : ((traced arrivals).filter fun part =>
      part.1 = frameSeq ∧ part.2.any (·.1 = p)).map Prod.snd =
        (blocks.map (blockOf frameSeq)).filter (·.any (·.1 = p)) := by
    rw [← hblocks, List.filter_map, List.filter_filter]
    congr 2
    funext part
    simp [Bool.and_comm]
  have hblock : (blocks.map (blockOf frameSeq)).filter (·.any (·.1 = p)) =
      (blocks.filter (·.1 = p)).map (blockOf frameSeq) := by
    rw [List.filter_map]
    congr 1
    apply List.filter_congr
    intro block hb
    have hlen := EncFrame.length_fragments block.2 frameSeq
    have hne : block.2.fragments frameSeq ≠ [] := by
      intro hnil
      have hb' := hpos block hb
      rw [hnil] at hlen
      simp only [List.length_nil] at hlen
      omega
    obtain ⟨f, hf⟩ := List.exists_mem_of_ne_nil _ hne
    simp only [Function.comp_apply, blockOf, List.any_map]
    by_cases hp : block.1 = p
    · simpa [hp] using ⟨f, hf⟩
    · simp [hp]
  have hbuffer : ∀ part : UInt32 × List (Fin peers × VideoFragment),
      tracedBuffer S part.2 = (tracedBuffer S ∘ Prod.snd) part := fun _ => rfl
  simp only [hbuffer]
  rw [← List.map_map, hsplit, hblock, List.map_map, List.map_map]
  apply List.map_congr_left
  intro block _
  have hdata : (blockOf frameSeq block).map Prod.snd = block.2.fragments frameSeq := by
    simp [blockOf]
  rw [Function.comp_apply, tracedBuffer, hdata, EncFrame.sort_fragments S (List.Perm.refl _),
    EncFrame.flatMap_data]
  rfl

/-- Frames that arrive one after the other leave nothing in the entry. -/
theorem pending_of_frameByFrame {frameSeq : UInt32} {items : List (Fin peers × VideoFragment)}
    (h : FrameByFrame frameSeq items) : pending (completes ∘ Prod.snd) [] items = [] := by
  obtain ⟨blocks, rfl⟩ := h
  have hempty : ∀ block : Fin peers × EncFrame, block.2.totalFragments.toNat = 0 →
      blockOf frameSeq block = [] := by
    intro block hzero
    rw [blockOf, EncFrame.fragments_eq_nil frameSeq hzero, List.map_nil]
  have hgroups : ∀ part ∈ (blocks.filter fun block => 0 < block.2.totalFragments.toNat).map
      (blockOf frameSeq), Group (completes ∘ Prod.snd) part := by
    intro part hpart
    obtain ⟨block, hblock, rfl⟩ := List.mem_map.mp hpart
    have hpos : 0 < block.2.totalFragments.toNat := by simpa using (List.mem_filter.mp hblock).2
    obtain ⟨others, final, hsnoc, hlast, -⟩ := EncFrame.fragments_eq_snoc frameSeq hpos
    have hlen := EncFrame.length_fragments block.2 frameSeq
    rw [hsnoc, List.length_append, List.length_singleton] at hlen
    have huniform : Uniform (completes ∘ Prod.snd) (VideoFragment.lastFragment ∘ Prod.snd)
        block.2.totalFragments.toNat (others.map (block.1, ·) ++ [(block.1, final)]) := by
      intro a ha size
      have hmem : a.2 ∈ block.2.fragments frameSeq := by
        rw [hsnoc]
        rcases List.mem_append.mp ha with ha | ha
        · obtain ⟨f, hf, rfl⟩ := List.mem_map.mp ha
          exact List.mem_append_left _ hf
        · rw [List.mem_singleton.mp ha]
          exact List.mem_append_right _ (List.mem_singleton_self _)
      simp only [Function.comp_apply, completes, EncFrame.totalFragments_of_mem hmem]
    have hblockOf : blockOf frameSeq block = others.map (block.1, ·) ++ [(block.1, final)] := by
      rw [blockOf, hsnoc, List.map_append, List.map_singleton]
    rw [hblockOf]
    exact huniform.group (by rw [List.length_map, hlen]) hlast
  have hall := (groups_complete _ [] hgroups (silent_nil (completes ∘ Prod.snd) 0)).2
  rw [List.append_nil, ← List.flatMap_def] at hall
  rwa [flatMap_filter_sent Prod.snd hempty] at hall

/-- Cut frames are shorter than the frames, so they are not a rearrangement of
them. -/
theorem fits_of_perm {es : List EncFrame}
    (h : (es.map fun e => e.bytes.take (fdataSize * e.totalFragments.toNat)).Perm
      (es.map EncFrame.bytes)) : ∀ e ∈ es, e.CountFits := by
  intro e he
  by_contra hfits
  have hsum := (h.map List.length).sum_nat
  rw [List.map_map, List.map_map] at hsum
  refine absurd hsum (Nat.ne_of_lt (List.sum_lt_sum _ _ ?_ ⟨e, he, ?_⟩))
  · intro d _
    simp only [Function.comp_apply, List.length_take]
    exact Nat.min_le_right _ _
  · have hcut := mt EncFrame.take_eq_bytes_iff.mp hfits
    rw [List.take_eq_self_iff] at hcut
    simp only [Function.comp_apply, List.length_take]
    omega

/-- The buffers of one number are all frames with it only if nothing is left. -/
theorem complete_of_once {frameSeq : UInt32} (h : Interleaved frames arrivals)
    (honce : ∀ p, (((traced arrivals).filter fun part =>
        part.1 = frameSeq ∧ part.2.any (·.1 = p)).map fun part => tracedBuffer S part.2).Perm
      ((numbered frameSeq 0 (frames p)).map EncFrame.bytes)) :
    FrameByFrame frameSeq (arrivals.filter (·.2.frameSeq = frameSeq)) ∧
      ∀ p, ∀ e ∈ numbered frameSeq 0 (frames p),
        0 < e.totalFragments.toNat ∧ e.CountFits := by
  obtain ⟨blocks, left, hsplit, hleft, hblocks, hsources⟩ := traced_of_number h frameSeq
  have hpos : ∀ block ∈ blocks, 0 < block.2.totalFragments.toNat := by
    intro block hblock
    have hmem : block.2 ∈ sentFrames frames frameSeq block.1 := by
      rw [hsources]
      refine List.mem_append_left _ (List.mem_map_of_mem (List.mem_filter.mpr ⟨hblock, ?_⟩))
      simp
    simpa using (List.mem_filter.mp hmem).2
  -- No more frames complete than there are, so as many as there are means all of them.
  have hall : ∀ p, left p = [] ∧
      (blocks.filter (·.1 = p)).map Prod.snd = numbered frameSeq 0 (frames p) := by
    intro p
    have hcount : ((blocks.filter (·.1 = p)).map Prod.snd).length =
        (numbered frameSeq 0 (frames p)).length := by
      have hlength := (honce p).length_eq
      rw [buffers_of_peer hblocks hpos p] at hlength
      simpa only [List.length_map] using hlength
    have hsub : (sentFrames frames frameSeq p).Sublist (numbered frameSeq 0 (frames p)) :=
      List.filter_sublist
    have hlen := hsub.length_le
    rw [hsources p, List.length_append] at hlen
    have hnone : left p = [] := List.eq_nil_of_length_eq_zero (by omega)
    refine ⟨hnone, ?_⟩
    rw [hsources p, hnone, List.append_nil] at hsub
    exact hsub.eq_of_length hcount
  refine ⟨⟨blocks, ?_⟩, ?_⟩
  · have hpending : pending (completes ∘ Prod.snd) []
        (arrivals.filter (·.2.frameSeq = frameSeq)) = [] := by
      apply List.eq_nil_iff_forall_not_mem.mpr
      intro a ha
      have hstream := (hleft a.1).1
      rw [(hall a.1).1, List.flatMap_nil, List.map_eq_nil_iff, List.filter_eq_nil_iff] at hstream
      exact hstream a ha (by simp)
    rw [hpending, List.append_nil] at hsplit
    exact hsplit
  · intro p e he
    constructor
    · rw [← (hall p).2, List.mem_map] at he
      obtain ⟨block, hblock, rfl⟩ := he
      exact hpos block (List.mem_of_mem_filter hblock)
    · have hperm := honce p
      rw [buffers_of_peer hblocks hpos p, (hall p).2] at hperm
      exact fits_of_perm hperm e he

/-- Frames that arrive one after the other all complete. -/
theorem once_of_complete (h : Interleaved frames arrivals) (frameSeq : UInt32)
    (horder : FrameByFrame frameSeq (arrivals.filter (·.2.frameSeq = frameSeq)))
    (hframes : ∀ p, ∀ e ∈ numbered frameSeq 0 (frames p), e.bytes ≠ [] ∧ e.CountFits) :
    (∀ group ∈ ((traced arrivals).filter (·.1 = frameSeq)).map Prod.snd,
        ∀ a ∈ group, ∀ b ∈ group, a.1 = b.1) ∧
      ∀ p, (((traced arrivals).filter fun part =>
          part.1 = frameSeq ∧ part.2.any (·.1 = p)).map fun part => tracedBuffer S part.2).Perm
        ((numbered frameSeq 0 (frames p)).map EncFrame.bytes) := by
  obtain ⟨blocks, left, -, hleft, hblocks, hsources⟩ := traced_of_number h frameSeq
  rw [pending_of_frameByFrame horder] at hleft
  have hpos : ∀ p, ∀ e ∈ numbered frameSeq 0 (frames p), 0 < e.totalFragments.toNat :=
    fun p e he => EncFrame.totalFragments_pos (hframes p e he).1 (hframes p e he).2
  have hall : ∀ p, (blocks.filter (·.1 = p)).map Prod.snd = numbered frameSeq 0 (frames p) := by
    intro p
    obtain ⟨hstream, hleftPos⟩ := hleft p
    have hnone : left p = [] := by
      apply List.eq_nil_iff_forall_not_mem.mpr
      intro e he
      have hempty := List.flatMap_eq_nil_iff.mp hstream.symm e he
      have hlen := EncFrame.length_fragments e frameSeq
      rw [hempty, List.length_nil] at hlen
      exact Nat.ne_of_gt (hleftPos e he) hlen.symm
    have hsent : sentFrames frames frameSeq p = numbered frameSeq 0 (frames p) :=
      List.filter_eq_self.mpr fun e he => by simpa using hpos p e he
    rw [← hsent, hsources p, hnone, List.append_nil]
  have hblocksPos : ∀ block ∈ blocks, 0 < block.2.totalFragments.toNat := by
    intro block hblock
    apply hpos block.1 block.2
    rw [← hall]
    exact List.mem_map_of_mem (List.mem_filter.mpr ⟨hblock, by simp⟩)
  constructor
  · rw [hblocks]
    intro group hgroup a ha b hb
    obtain ⟨block, -, rfl⟩ := List.mem_map.mp hgroup
    obtain ⟨-, -, rfl⟩ := List.mem_map.mp ha
    obtain ⟨-, -, rfl⟩ := List.mem_map.mp hb
    rfl
  · intro p
    rw [buffers_of_peer hblocks hblocksPos p, hall p]
    exact List.Perm.of_eq (List.map_congr_left fun e he =>
      EncFrame.take_eq_bytes_iff.mpr (hframes p e he).2)

/-- Several senders: every frame of every peer is handed over once, unmixed and
with its bytes, exactly when the frames are non-empty, their counts fit, and
frames that have the same number arrive one after the other. -/
theorem senders_each_frame_once_iff (S : FragmentSort) (h : Interleaved frames arrivals) :
    EachFrameOnce S frames arrivals ↔
      (∀ p, ∀ e ∈ frames p, e.bytes ≠ [] ∧ e.CountFits) ∧
        ∀ frameSeq, FrameByFrame frameSeq (arrivals.filter (·.2.frameSeq = frameSeq)) := by
  constructor
  · rintro ⟨-, honce⟩
    have hcomplete := fun frameSeq => complete_of_once h (fun p => honce p frameSeq)
    refine ⟨?_, fun frameSeq => (hcomplete frameSeq).1⟩
    intro p e he
    obtain ⟨frameSeq, hmem⟩ := exists_numbered 0 he
    obtain ⟨hpos, hfits⟩ := (hcomplete frameSeq).2 p e hmem
    exact ⟨EncFrame.bytes_ne_nil hpos, hfits⟩
  · rintro ⟨hframes, horder⟩
    have hcomplete := fun frameSeq =>
      once_of_complete (S := S) h frameSeq (horder frameSeq) fun p e he =>
        hframes p e (mem_numbered he)
    refine ⟨?_, fun p frameSeq => (hcomplete frameSeq).2 p⟩
    rintro ⟨frameSeq, group⟩ hpart a ha b hb
    exact (hcomplete frameSeq).1 group
      (List.mem_map_of_mem (List.mem_filter.mpr ⟨hpart, by simp⟩)) a ha b hb

def twoPeers : Fin 2 → List EncFrame
  | 0 => [twoFragments]
  | 1 => [oneByte]

def firstOfTwo : Fin 2 × VideoFragment := (0, twoFragments.fragment 0 (UInt32.ofNat 0))
def secondOfTwo : Fin 2 × VideoFragment := (0, twoFragments.fragment 0 (UInt32.ofNat 1))
def onlyOne : Fin 2 × VideoFragment := (1, oneByte.fragment 0 (UInt32.ofNat 0))

theorem twoPeers_interleaved {arrivals : List (Fin 2 × VideoFragment)}
    (h : arrivals = [firstOfTwo, secondOfTwo, onlyOne] ∨
      arrivals = [firstOfTwo, onlyOne, secondOfTwo]) : Interleaved twoPeers arrivals := by
  have hfirst : videoFragments 0 (twoPeers 0) = [firstOfTwo.2, secondOfTwo.2] := by
    rw [show twoPeers 0 = [twoFragments] from rfl, videoFragments, videoFragments,
      twoFragments_fragments]
    rfl
  have hsecond : videoFragments 0 (twoPeers 1) = [onlyOne.2] := rfl
  refine Fin.forall_fin_two.mpr ⟨?_, ?_⟩
  · rw [hfirst]
    rcases h with rfl | rfl <;> rfl
  · rw [hsecond]
    rcases h with rfl | rfl <;> rfl

/-- One frame after the other. -/
theorem senders_each_frame_once_iff_twoPeers :
    EachFrameOnce (KeySort.insertion _) twoPeers [firstOfTwo, secondOfTwo, onlyOne] := by
  refine (senders_each_frame_once_iff _ (twoPeers_interleaved (Or.inl rfl))).mpr ⟨?_, ?_⟩
  · refine Fin.forall_fin_two.mpr ⟨fun e he => ?_, fun e he => ?_⟩
    · obtain rfl : e = twoFragments := by simpa [twoPeers] using he
      exact ⟨twoFragments_nonempty, twoFragments_fits⟩
    · obtain rfl : e = oneByte := by simpa [twoPeers] using he
      exact ⟨by decide, oneByte_fits⟩
  · intro frameSeq
    by_cases hzero : frameSeq = 0
    · subst hzero
      refine ⟨[(0, twoFragments), (1, oneByte)], ?_⟩
      simp only [List.flatMap_cons, List.flatMap_nil, blockOf, twoFragments_fragments,
        oneByte_fragments]
      rfl
    · refine ⟨[], List.filter_eq_nil_iff.mpr fun a ha => ?_⟩
      have hnumber : a.2.frameSeq = 0 := by
        simp only [List.mem_cons, List.not_mem_nil, or_false] at ha
        rcases ha with rfl | rfl | rfl <;> rfl
      simpa [hnumber] using Ne.symm hzero

/-- The one fragment of the second peer between the two of the first one: no
frame is ever handed over. -/
theorem interleaved_not_once :
    Interleaved twoPeers [firstOfTwo, onlyOne, secondOfTwo] ∧
      ¬EachFrameOnce (KeySort.insertion _) twoPeers [firstOfTwo, onlyOne, secondOfTwo] := by
  refine ⟨twoPeers_interleaved (Or.inr rfl), ?_⟩
  rintro ⟨-, honce⟩
  have hsilent : Silent (completes ∘ Prod.snd) 0 [firstOfTwo, onlyOne, secondOfTwo] := by
    have hfirst : completes firstOfTwo.2 1 = false := completes_twoFragments (by decide)
    have hsecond : completes secondOfTwo.2 3 = false := completes_twoFragments (by decide)
    have honly : completes onlyOne.2 2 = false := by decide
    simpa [silent_cons, silent_nil] using ⟨hfirst, honly, hsecond⟩
  have hkey :
      ∀ a ∈ [firstOfTwo, onlyOne, secondOfTwo], (VideoFragment.frameSeq ∘ Prod.snd) a = 0 := by
    intro a ha
    simp only [List.mem_cons, List.not_mem_nil, or_false] at ha
    rcases ha with rfl | rfl | rfl <;> rfl
  have htraced : traced [firstOfTwo, onlyOne, secondOfTwo] = [] := by
    rw [traced, output_of_one_key hkey, show entry (fun _ => none) (0 : UInt32) = [] from rfl,
      (pending_of_silent (p := []) hsilent).2]
    rfl
  have hlen := (honce 0 0).length_eq
  rw [htraced, List.length_map] at hlen
  exact absurd hlen (by decide)

end Runs

end MediaStream.OnlineAV
