import MediaStream.OnlineAV.RoundTrip

/-!
What is left in `fragment_buffer`: `VideoPlayback` erases the entry of the frame
that it hands to `cv::imdecode` and no other one. The entry of an earlier frame
that has lost a fragment therefore stays for good.
-/

namespace MediaStream.OnlineAV

open Lib Lib.Collector

/-- No number up to that of a frame that has been handed over has an entry. -/
def Player.NoLeftovers (p : Player) : Prop :=
  ∀ h ∈ p.handed, ∀ k, k ≤ h.frameSeq → p.buffer k = none

def Player.receives (S : FragmentSort) (p : Player) : List Round → List (List UInt8)
  | [] => []
  | r :: rest =>
    (if p.running && !r.stopped then r.received.toList else []) ++
      (p.round S r).receives S rest

def receivedDatagrams (S : FragmentSort) (rounds : List Round) : List (List UInt8) :=
  Player.receives S ⟨true, FragmentBuffer.empty, []⟩ rounds

namespace EncFrame

def Started (e : EncFrame) (frameSeq : UInt32) (arrivals : List VideoFragment) : Prop :=
  ∃ f ∈ e.fragments frameSeq, f ∈ arrivals

def Whole (e : EncFrame) (frameSeq : UInt32) (arrivals : List VideoFragment) : Prop :=
  ∀ f ∈ e.fragments frameSeq, f ∈ arrivals

end EncFrame

/-- Every frame of which something has arrived before a later one is complete
has arrived completely as well. -/
def NothingLost (frames : List EncFrame) (arrivals : List VideoFragment) : Prop :=
  ∀ i j : Fin frames.length, j < i →
    (frames.get i).Started (UInt32.ofNat i) arrivals →
      (frames.get i).Whole (UInt32.ofNat i) arrivals →
        (frames.get j).Started (UInt32.ofNat j) arrivals →
          (frames.get j).Whole (UInt32.ofNat j) arrivals

section Receives

variable {S : FragmentSort} {p : Player}

theorem round_eq (p : Player) (r : Round) :
    (p.round S r).handed = p.handed ++ handovers S p.buffer
        (if p.running && !r.stopped then r.received.toList else []) ∧
      (p.round S r).buffer = fragmentBuffer S p.buffer
        (if p.running && !r.stopped then r.received.toList else []) := by
  unfold Player.round
  split
  · cases r.received with
    | none => simp [handovers, fragmentBuffer]
    | some datagram => simp [Player.handled, handovers, fragmentBuffer]
  · simp [handovers, fragmentBuffer]

theorem handovers_append (m : FragmentBuffer) (first second : List (List UInt8)) :
    handovers S m (first ++ second) =
      handovers S m first ++ handovers S (fragmentBuffer S m first) second := by
  induction first generalizing m with
  | nil => rfl
  | cons datagram rest ih =>
    rw [List.cons_append, handovers_cons, handovers_cons, ih, fragmentBuffer_cons,
      List.append_assoc]

theorem fragmentBuffer_append (m : FragmentBuffer) (first second : List (List UInt8)) :
    fragmentBuffer S m (first ++ second) =
      fragmentBuffer S (fragmentBuffer S m first) second := List.foldl_append ..

theorem foldl_round_eq (rounds : List Round) (p : Player) :
    (rounds.foldl (Player.round S) p).handed =
        p.handed ++ handovers S p.buffer (p.receives S rounds) ∧
      (rounds.foldl (Player.round S) p).buffer =
        fragmentBuffer S p.buffer (p.receives S rounds) := by
  induction rounds generalizing p with
  | nil => simp [Player.receives, handovers, fragmentBuffer]
  | cons r rest ih =>
    obtain ⟨hhanded, hbuffer⟩ := round_eq (S := S) p r
    obtain ⟨hrest, hlast⟩ := ih (p.round S r)
    rw [List.foldl_cons, Player.receives, handovers_append, fragmentBuffer_append, hrest, hlast,
      hhanded, hbuffer, List.append_assoc]
    exact ⟨rfl, rfl⟩

/-- The loop does with what it receives what it does with a list of datagrams. -/
theorem videoPlayback_eq (rounds : List Round) :
    (videoPlayback S rounds).handed =
        handovers S FragmentBuffer.empty (receivedDatagrams S rounds) ∧
      (videoPlayback S rounds).buffer =
        fragmentBuffer S FragmentBuffer.empty (receivedDatagrams S rounds) := by
  obtain ⟨hhanded, hbuffer⟩ := foldl_round_eq (S := S) rounds ⟨true, FragmentBuffer.empty, []⟩
  exact ⟨hhanded, hbuffer⟩

theorem receives_append (p : Player) (first second : List Round) :
    p.receives S (first ++ second) =
      p.receives S first ++ (first.foldl (Player.round S) p).receives S second := by
  induction first generalizing p with
  | nil => rfl
  | cons r rest ih => rw [List.cons_append, Player.receives, Player.receives, ih, List.append_assoc,
      List.foldl_cons]

theorem receivedDatagrams_take (rounds : List Round) (n : Nat) :
    receivedDatagrams S (rounds.take n) <+: receivedDatagrams S rounds := by
  have hsplit := receives_append (S := S) ⟨true, FragmentBuffer.empty, []⟩ (rounds.take n)
    (rounds.drop n)
  rw [List.take_append_drop] at hsplit
  exact ⟨_, hsplit.symm⟩

/-- Nobody ends the loop. -/
theorem receives_of_running {rounds : List Round} (hrunning : p.running = true)
    (h : ∀ r ∈ rounds, r.stopped = false ∧ r.esc = false) :
    p.receives S rounds = rounds.filterMap Round.received := by
  induction rounds generalizing p with
  | nil => rfl
  | cons r rest ih =>
    obtain ⟨⟨hstopped, hesc⟩, hrest⟩ := List.forall_mem_cons.mp h
    have hgoes : (p.running && !r.stopped) = true := by rw [hrunning, hstopped]; rfl
    have hnext : (p.round S r).running = true := by
      rw [Player.round, if_pos hgoes]
      cases r.received with
      | none => exact hrunning
      | some datagram =>
        change (!(r.esc && _)) = true
        rw [hesc, Bool.false_and, Bool.not_false]
    rw [Player.receives, if_pos hgoes, ih hnext hrest, List.filterMap_cons]
    cases r.received <;> rfl

end Receives

section Frames

variable {S : FragmentSort} {frames : List EncFrame} {arrivals : List VideoFragment}

theorem ofNat_le {i j : Nat} (hi : i < 2 ^ 32) (hj : j < 2 ^ 32) :
    UInt32.ofNat i ≤ UInt32.ofNat j ↔ i ≤ j := by
  rw [UInt32.le_iff_toNat_le, UInt32.toNat_ofNat', UInt32.toNat_ofNat', Nat.mod_eq_of_lt hi,
    Nat.mod_eq_of_lt hj]

/-- Numbers do not decrease in sending order. -/
theorem pairwise_videoFragments {start : Nat} (hlen : start + frames.length ≤ 2 ^ 32) :
    (videoFragments (UInt32.ofNat start) frames).Pairwise fun f g => f.frameSeq ≤ g.frameSeq := by
  induction frames generalizing start with
  | nil => exact List.Pairwise.nil
  | cons e rest ih =>
    rw [List.length_cons] at hlen
    have hnext : UInt32.ofNat start + 1 = UInt32.ofNat (start + 1) := by
      exact (UInt32.ofNat_add start 1).symm
    rw [videoFragments, hnext]
    apply List.pairwise_append.mpr
    refine ⟨?_, ih (by omega), ?_⟩
    · apply List.pairwise_of_forall_mem_list
      intro f hf g hg
      rw [EncFrame.frameSeq_of_mem hf, EncFrame.frameSeq_of_mem hg]
      exact UInt32.le_refl _
    · intro f hf g hg
      obtain ⟨i, hi, hmem⟩ := (mem_videoFragments (start + 1)).mp hg
      rw [EncFrame.frameSeq_of_mem hf, EncFrame.frameSeq_of_mem hmem,
        ofNat_le (by omega) (by omega)]
      omega

/-- With all arrivals in sending order and none repeated, a frame that has
arrived whole is the only thing under its number. -/
theorem filter_of_whole (hframes : frames.length ≤ 2 ^ 32)
    (harrivals : arrivals.Sublist (videoFragments 0 frames)) (i : Fin frames.length)
    (hwhole : (frames.get i).Whole (UInt32.ofNat i) arrivals) :
    arrivals.filter (·.frameSeq = UInt32.ofNat i) = (frames.get i).fragments (UInt32.ofNat i) := by
  have hlen : 0 + frames.length ≤ 2 ^ 32 := by omega
  have hfilter := filter_videoFragments hlen i.isLt
  rw [Nat.zero_add] at hfilter
  have hsub := harrivals.filter (·.frameSeq = UInt32.ofNat i)
  rw [show (0 : UInt32) = UInt32.ofNat 0 from rfl, hfilter] at hsub
  apply hsub.eq_of_length_le
  apply (List.Nodup.subperm (EncFrame.nodup_fragments _ _) ?_).length_le
  intro f hf
  exact List.mem_filter.mpr ⟨hwhole f hf, by simpa using EncFrame.frameSeq_of_mem hf⟩

theorem handed_iff_groups (k : UInt32) :
    (∃ h ∈ handovers S FragmentBuffer.empty (arrivals.map VideoFragment.bytes),
        h.frameSeq = k) ↔ groups completes [] (arrivals.filter (·.frameSeq = k)) ≠ [] := by
  rw [handovers_bytes]
  constructor
  · rintro ⟨h, hmem, rfl⟩
    obtain ⟨part, hpart, rfl⟩ := List.mem_map.mp hmem
    exact List.ne_nil_of_mem (mem_output_iff.mp hpart)
  · intro hne
    obtain ⟨group, hgroup⟩ := List.exists_mem_of_ne_nil _ hne
    have hpart : (k, group) ∈ output VideoFragment.frameSeq completes FragmentBuffer.empty
        arrivals := mem_output_iff.mpr hgroup
    exact ⟨_, List.mem_map_of_mem hpart, rfl⟩

theorem entry_iff_pending (k : UInt32) :
    fragmentBuffer S FragmentBuffer.empty (arrivals.map VideoFragment.bytes) k = none ↔
      pending completes [] (arrivals.filter (·.frameSeq = k)) = [] := by
  have htidy : Tidy FragmentBuffer.empty k := by simp [Tidy, FragmentBuffer.empty]
  rw [fragmentBuffer_bytes, (tidy_buffer htidy arrivals).none_iff, entry_buffer,
    FragmentBuffer.entry_empty]

variable (hframes : frames.length ≤ 2 ^ 32)
  (harrivals : arrivals.Sublist (videoFragments 0 frames)) (i : Fin frames.length)

include hframes harrivals

theorem groups_of_whole (hstarted : (frames.get i).Started (UInt32.ofNat i) arrivals)
    (hwhole : (frames.get i).Whole (UInt32.ofNat i) arrivals) :
    groups completes [] (arrivals.filter (·.frameSeq = UInt32.ofNat i)) =
        [(frames.get i).fragments (UInt32.ofNat i)] ∧
      pending completes [] (arrivals.filter (·.frameSeq = UInt32.ofNat i)) = [] := by
  obtain ⟨f, hf, -⟩ := hstarted
  obtain ⟨others, final, hsnoc, hlast, -⟩ :=
    EncFrame.fragments_eq_snoc (UInt32.ofNat i) (EncFrame.count_pos_of_mem hf)
  have hperm : (others ++ [final]).Perm ((frames.get i).fragments (UInt32.ofNat i)) :=
    List.Perm.of_eq hsnoc.symm
  obtain ⟨hgroups, hpending⟩ := EncFrame.groups_of_perm hperm
  rw [if_pos hlast] at hgroups hpending
  rw [filter_of_whole hframes harrivals i hwhole, hsnoc]
  exact ⟨hgroups, hpending⟩

theorem groups_of_not_whole (hwhole : ¬(frames.get i).Whole (UInt32.ofNat i) arrivals) :
    groups completes [] (arrivals.filter (·.frameSeq = UInt32.ofNat i)) = [] ∧
      pending completes [] (arrivals.filter (·.frameSeq = UInt32.ofNat i)) =
        arrivals.filter (·.frameSeq = UInt32.ofNat i) := by
  rcases EncFrame.groups_of_subperm (subperm_of_number hframes harrivals.subperm i) with
    hnone | ⟨hperm, -, -⟩
  · obtain ⟨hsplit, -, -⟩ := groups_sound (arrivals.filter (·.frameSeq = UInt32.ofNat i))
      (silent_nil completes 0)
    rw [hnone] at hsplit
    exact ⟨hnone, hsplit.symm⟩
  · refine absurd (fun f hf => ?_) hwhole
    exact (List.mem_filter.mp (hperm.mem_iff.mpr hf)).1

/-- Of a frame that has not started nothing is found. -/
theorem filter_of_not_started (hstarted : ¬(frames.get i).Started (UInt32.ofNat i) arrivals) :
    arrivals.filter (·.frameSeq = UInt32.ofNat i) = [] := by
  apply List.eq_nil_iff_forall_not_mem.mpr
  intro f hf
  have hsub := (subperm_of_number hframes harrivals.subperm i).subset hf
  exact hstarted ⟨f, hsub, (List.mem_filter.mp hf).1⟩

/-- A frame is handed over when it has arrived whole. -/
theorem handed_iff :
    (∃ h ∈ handovers S FragmentBuffer.empty (arrivals.map VideoFragment.bytes),
        h.frameSeq = UInt32.ofNat i) ↔
      (frames.get i).Started (UInt32.ofNat i) arrivals ∧
        (frames.get i).Whole (UInt32.ofNat i) arrivals := by
  rw [handed_iff_groups]
  by_cases hstarted : (frames.get i).Started (UInt32.ofNat i) arrivals
  · by_cases hwhole : (frames.get i).Whole (UInt32.ofNat i) arrivals
    · rw [(groups_of_whole hframes harrivals i hstarted hwhole).1]
      exact iff_of_true (List.cons_ne_nil _ _) ⟨hstarted, hwhole⟩
    · rw [(groups_of_not_whole hframes harrivals i hwhole).1]
      exact iff_of_false (fun h => h rfl) fun h => hwhole h.2
  · rw [filter_of_not_started hframes harrivals i hstarted]
    exact iff_of_false (fun h => h rfl) fun h => hstarted h.1

/-- A frame has an entry while it has arrived in part. -/
theorem entry_iff :
    fragmentBuffer S FragmentBuffer.empty (arrivals.map VideoFragment.bytes) (UInt32.ofNat i) =
        none ↔
      ((frames.get i).Started (UInt32.ofNat i) arrivals →
        (frames.get i).Whole (UInt32.ofNat i) arrivals) := by
  rw [entry_iff_pending]
  by_cases hstarted : (frames.get i).Started (UInt32.ofNat i) arrivals
  · by_cases hwhole : (frames.get i).Whole (UInt32.ofNat i) arrivals
    · rw [(groups_of_whole hframes harrivals i hstarted hwhole).2]
      exact iff_of_true rfl fun _ => hwhole
    · rw [(groups_of_not_whole hframes harrivals i hwhole).2]
      obtain ⟨f, hf, harrived⟩ := hstarted
      have hmem : f ∈ arrivals.filter (·.frameSeq = UInt32.ofNat i) :=
        List.mem_filter.mpr ⟨harrived, by simpa using EncFrame.frameSeq_of_mem hf⟩
      exact iff_of_false (List.ne_nil_of_mem hmem) fun h => hwhole (h ⟨f, hf, harrived⟩)
  · rw [filter_of_not_started hframes harrivals i hstarted]
    exact iff_of_true rfl fun h => absurd h hstarted

omit i in
/-- At the end of a run. -/
theorem noLeftovers_iff_nothingLost {p : Player}
    (hhanded : p.handed = handovers S FragmentBuffer.empty (arrivals.map VideoFragment.bytes))
    (hbuffer : p.buffer =
      fragmentBuffer S FragmentBuffer.empty (arrivals.map VideoFragment.bytes)) :
    p.NoLeftovers ↔ NothingLost frames arrivals := by
  constructor
  · intro h i j hji hstarted hwhole
    obtain ⟨part, hpart, hnumber⟩ :=
      (handed_iff (S := S) hframes harrivals i).mpr ⟨hstarted, hwhole⟩
    have hle : UInt32.ofNat j ≤ part.frameSeq := by
      rw [hnumber, ofNat_le (by omega) (by omega)]
      exact Nat.le_of_lt hji
    apply (entry_iff (S := S) hframes harrivals j).mp
    rw [← hbuffer]
    exact h part (hhanded ▸ hpart) _ hle
  · intro h part hpart k hk
    rw [hhanded] at hpart
    obtain ⟨i, hnumber⟩ : ∃ i : Fin frames.length, part.frameSeq = UInt32.ofNat i := by
      rw [handovers_bytes] at hpart
      obtain ⟨group, hgroup, rfl⟩ := List.mem_map.mp hpart
      obtain ⟨i, hi, -⟩ := group_is_frame hframes harrivals.subperm hgroup
      exact ⟨i, hi⟩
    obtain ⟨hstarted, hwhole⟩ :=
      (handed_iff (S := S) hframes harrivals i).mp ⟨part, hpart, hnumber⟩
    have hbound : k.toNat ≤ i := by
      rw [hnumber, UInt32.le_iff_toNat_le, UInt32.toNat_ofNat', Nat.mod_eq_of_lt (by omega)] at hk
      exact hk
    have hentry := entry_iff (S := S) hframes harrivals ⟨k.toNat, by omega⟩
    rw [hbuffer, ← UInt32.ofNat_toNat (x := k)]
    apply hentry.mpr
    intro hearlier
    rcases Nat.lt_or_eq_of_le hbound with hlt | heq
    · exact h i ⟨k.toNat, by omega⟩ hlt hstarted hwhole hearlier
    · have hsame : (⟨k.toNat, by omega⟩ : Fin frames.length) = i := Fin.ext heq
      rw [hsame] at hearlier ⊢
      exact hwhole

/-- What has been handed over has been started and completed by then, and what
comes before it in sending order has arrived by then or not at all. -/
theorem nothingLost_earlier {earlier : List VideoFragment} (hfront : earlier <+: arrivals)
    (h : NothingLost frames arrivals) : NothingLost frames earlier := by
  intro i j hji hstarted hwhole hearlier
  obtain ⟨g, hg, harrived⟩ := hstarted
  obtain ⟨f, hf, hfirst⟩ := hearlier
  obtain ⟨later, rfl⟩ := hfront
  have hlen : 0 + frames.length ≤ 2 ^ 32 := by omega
  have hsorted := (pairwise_videoFragments hlen).sublist harrivals
  have hall := h i j hji ⟨g, hg, List.mem_append_left _ harrived⟩
    (fun x hx => List.mem_append_left _ (hwhole x hx)) ⟨f, hf, List.mem_append_left _ hfirst⟩
  intro x hx
  rcases List.mem_append.mp (hall x hx) with hin | hlater
  · exact hin
  · have hle := (List.pairwise_append.mp hsorted).2.2 g harrived x hlater
    rw [EncFrame.frameSeq_of_mem hg, EncFrame.frameSeq_of_mem hx,
      ofNat_le (by omega) (by omega)] at hle
    exact absurd hji (Nat.not_lt.mpr hle)

omit hframes harrivals in
theorem videoPlayback_of_received {rounds : List Round}
    (h : receivedDatagrams S rounds = arrivals.map VideoFragment.bytes) :
    (videoPlayback S rounds).handed =
        handovers S FragmentBuffer.empty (arrivals.map VideoFragment.bytes) ∧
      (videoPlayback S rounds).buffer =
        fragmentBuffer S FragmentBuffer.empty (arrivals.map VideoFragment.bytes) := by
  rw [← h]
  exact videoPlayback_eq rounds

/-- After every pass of the loop all numbers up to the last frame that has been
handed over are free, exactly when no frame loses a part of its fragments before
a later one is complete. -/
theorem noLeftovers_iff {rounds : List Round}
    (hreceived : receivedDatagrams S rounds = arrivals.map VideoFragment.bytes) :
    (∀ n, (videoPlayback S (rounds.take n)).NoLeftovers) ↔ NothingLost frames arrivals := by
  constructor
  · intro h
    obtain ⟨hhanded, hbuffer⟩ := videoPlayback_of_received hreceived
    have hend := h rounds.length
    rw [List.take_length] at hend
    exact (noLeftovers_iff_nothingLost hframes harrivals hhanded hbuffer).mp hend
  · intro h n
    have hprefix := receivedDatagrams_take (S := S) rounds n
    rw [hreceived, List.prefix_map_iff] at hprefix
    obtain ⟨earlier, hearlier, htake⟩ := hprefix
    obtain ⟨hhanded, hbuffer⟩ := videoPlayback_of_received htake
    have hsub := hearlier.sublist.trans harrivals
    exact (noLeftovers_iff_nothingLost hframes hsub hhanded hbuffer).mpr
      (nothingLost_earlier hframes harrivals hearlier h)

end Frames

section Lossy

/-! The second fragment of a frame is lost, and the next frame arrives. -/

def lossy : List VideoFragment :=
  [twoFragments.fragment 0 (UInt32.ofNat 0), oneByte.fragment 1 (UInt32.ofNat 0)]

def lossyRounds : List Round := lossy.map fun f => ⟨false, some f.bytes, false⟩

theorem lossy_sublist : lossy.Sublist (videoFragments 0 [twoFragments, oneByte]) := by
  have hsent : videoFragments 0 [twoFragments, oneByte] =
      [twoFragments.fragment 0 (UInt32.ofNat 0), twoFragments.fragment 0 (UInt32.ofNat 1)] ++
        [oneByte.fragment 1 (UInt32.ofNat 0)] := by
    rw [videoFragments, twoFragments_fragments]
    rfl
  rw [hsent]
  exact ((List.nil_sublist _).cons_cons _).append (List.Sublist.refl _)

theorem received_lossy (S : FragmentSort) :
    receivedDatagrams S lossyRounds = lossy.map VideoFragment.bytes := by
  apply receives_of_running rfl
  intro r hr
  obtain ⟨f, -, rfl⟩ := List.mem_map.mp hr
  exact ⟨rfl, rfl⟩

theorem something_lost : ¬NothingLost [twoFragments, oneByte] lossy := by
  intro h
  have hfirst : twoFragments.fragment 0 (UInt32.ofNat 0) ∈ lossy := List.mem_cons_self
  have honly : oneByte.fragment 1 (UInt32.ofNat 0) ∈ lossy :=
    List.mem_cons_of_mem _ List.mem_cons_self
  have hfragments : oneByte.fragments 1 = [oneByte.fragment 1 (UInt32.ofNat 0)] := rfl
  have hwhole := h 1 0 (by decide) ⟨_, hfragments ▸ List.mem_cons_self, honly⟩
    (fun f hf => List.mem_singleton.mp (hfragments ▸ hf) ▸ honly)
    ⟨_, twoFragments_fragments ▸ List.mem_cons_self, hfirst⟩
  have hsecond : twoFragments.fragment 0 (UInt32.ofNat 1) ∈ lossy := by
    apply hwhole
    exact twoFragments_fragments ▸ List.mem_cons_of_mem _ List.mem_cons_self
  have hindices : ∀ f ∈ lossy, f.fragmentI = 0 := by
    intro f hf
    rcases List.mem_cons.mp hf with rfl | hf
    · rfl
    · rw [List.mem_singleton.mp hf]
      rfl
  exact absurd (hindices _ hsecond) (by decide)

/-- The entry of the first frame is still there when the second one is shown. -/
theorem leftover_stays :
    lossy.Sublist (videoFragments 0 [twoFragments, oneByte]) ∧
      receivedDatagrams (KeySort.insertion _) lossyRounds = lossy.map VideoFragment.bytes ∧
      ¬(videoPlayback (KeySort.insertion _) lossyRounds).NoLeftovers := by
  refine ⟨lossy_sublist, received_lossy _, ?_⟩
  obtain ⟨hhanded, hbuffer⟩ := videoPlayback_of_received (received_lossy (KeySort.insertion _))
  rw [noLeftovers_iff_nothingLost (by decide) lossy_sublist hhanded hbuffer]
  exact something_lost

theorem noLeftovers_iff_lossy :
    (∀ n, (videoPlayback (KeySort.insertion _) (lossyRounds.take n)).NoLeftovers) ↔
      NothingLost [twoFragments, oneByte] lossy :=
  noLeftovers_iff (by decide) lossy_sublist (received_lossy _)

end Lossy

end MediaStream.OnlineAV
