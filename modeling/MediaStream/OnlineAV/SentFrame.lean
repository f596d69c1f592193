import Mathlib.Data.List.Perm.Subperm
import MediaStream.OnlineAV.VideoSend
import MediaStream.OnlineAV.VideoPlayback

/-!
The fragments of one frame on their way through `fragment_buffer`: what
`VideoPlayback` makes of a list of them in which none is repeated.
-/

namespace MediaStream.OnlineAV

open Lib Lib.Collector

namespace EncFrame

variable {e : EncFrame} {frameSeq : UInt32} {items : List VideoFragment}

/-- The `last_fragment` datagram of the frame is among the datagrams, after all
its other fragments. -/
def LastAfterOthers (e : EncFrame) (frameSeq : UInt32) (arrivals : List VideoFragment) : Prop :=
  ∃ front final back, arrivals = front ++ final :: back ∧
    final ∈ e.fragments frameSeq ∧ final.lastFragment = true ∧
      ∀ f ∈ e.fragments frameSeq, f.lastFragment = false → f ∈ front

theorem frameSeq_of_mem {f : VideoFragment} (h : f ∈ e.fragments frameSeq) :
    f.frameSeq = frameSeq := by
  obtain ⟨i, -, rfl⟩ := mem_fragments.mp h
  rfl

theorem totalFragments_of_mem {f : VideoFragment} (h : f ∈ e.fragments frameSeq) :
    f.totalFragments = e.totalFragments := by
  obtain ⟨i, -, rfl⟩ := mem_fragments.mp h
  rfl

theorem fragments_eq_nil (frameSeq : UInt32) (h : e.totalFragments.toNat = 0) :
    e.fragments frameSeq = [] := by
  rw [← List.length_eq_zero_iff, length_fragments, h]

theorem count_pos_of_mem {f : VideoFragment} (h : f ∈ e.fragments frameSeq) :
    0 < e.totalFragments.toNat := by
  rw [← length_fragments e frameSeq]
  exact List.length_pos_of_mem h

/-- The flag is on the final fragment and on no other one. -/
theorem fragments_eq_snoc (frameSeq : UInt32) (h : 0 < e.totalFragments.toNat) :
    ∃ others final, e.fragments frameSeq = others ++ [final] ∧ final.lastFragment = true ∧
      ∀ f ∈ others, f.lastFragment = false := by
  obtain ⟨n, hn⟩ : ∃ n, e.totalFragments.toNat = n + 1 := ⟨_, (Nat.succ_pred_eq_of_pos h).symm⟩
  refine ⟨(List.range n).map fun i => e.fragment frameSeq (UInt32.ofNat i),
    e.fragment frameSeq (UInt32.ofNat n), ?_, ?_, ?_⟩
  · rw [fragments, hn, List.range_succ, List.map_append, List.map_singleton]
  · rw [lastFragment_fragment (by omega), hn]
    simp
  · intro f hf
    obtain ⟨i, hi, rfl⟩ := List.mem_map.mp hf
    have hlt := List.mem_range.mp hi
    rw [lastFragment_fragment (by omega)]
    exact decide_eq_false (by omega)

theorem uniform_of_subset (h : ∀ f ∈ items, f ∈ e.fragments frameSeq) :
    Uniform completes VideoFragment.lastFragment e.totalFragments.toNat items :=
  uniform_completes fun f hf => totalFragments_of_mem (h f hf)

/-- However the fragments were collected, sorting puts them in sending order. -/
theorem sort_fragments (S : FragmentSort) (h : items.Perm (e.fragments frameSeq)) :
    S.sort items = e.fragments frameSeq :=
  S.sort_eq h fragments_ascend

theorem length_of_perm (h : items.Perm (e.fragments frameSeq)) :
    items.length = e.totalFragments.toNat := by
  rw [h.length_eq, length_fragments]

/-- Without repetitions a frame is handed over at most once, when all its
fragments are there and the flagged one is the final one. -/
theorem groups_of_subperm (h : items.Subperm (e.fragments frameSeq)) :
    groups completes [] items = [] ∨
      items.Perm (e.fragments frameSeq) ∧ groups completes [] items = [items] ∧
        pending completes [] items = [] := by
  rcases List.eq_nil_or_concat' items with rfl | ⟨front, a, rfl⟩
  · exact Or.inl rfl
  · have huniform := uniform_of_subset fun f hf => h.subset hf
    have hlen := h.length_le
    rw [length_fragments, List.length_append, List.length_singleton] at hlen
    obtain ⟨hgroups, hpending⟩ := huniform.at_most hlen
    by_cases hfull : front.length + 1 = e.totalFragments.toNat ∧ a.lastFragment = true
    · refine Or.inr ⟨h.perm_of_length_le ?_, ?_, ?_⟩
      · rw [length_fragments, List.length_append, List.length_singleton]
        exact hfull.1.ge
      · rw [hgroups, if_pos hfull]
      · rw [hpending, if_pos hfull]
    · exact Or.inl (by rw [hgroups, if_neg hfull])

/-- All fragments, handled in any order: only the final datagram decides. -/
theorem groups_of_perm {front : List VideoFragment} {final : VideoFragment}
    (h : (front ++ [final]).Perm (e.fragments frameSeq)) :
    groups completes [] (front ++ [final]) =
        (if final.lastFragment = true then [front ++ [final]] else []) ∧
      pending completes [] (front ++ [final]) =
        if final.lastFragment = true then [] else front ++ [final] := by
  have hlen := length_of_perm h
  rw [List.length_append, List.length_singleton] at hlen
  have huniform := uniform_of_subset fun f hf => h.subset hf
  simpa [hlen] using huniform.at_most (Nat.le_of_eq hlen)

/-- A frame whose flagged fragment comes after all others has arrived whole, in
an order that ends with this fragment. -/
theorem complete_of_lastAfterOthers (h : items.Subperm (e.fragments frameSeq))
    (horder : e.LastAfterOthers frameSeq items) :
    items.Perm (e.fragments frameSeq) ∧
      ∃ front final, items = front ++ [final] ∧ final.lastFragment = true := by
  obtain ⟨front, final, back, rfl, hfinal, hlast, hothers⟩ := horder
  obtain ⟨others, last, hsnoc, -, hunflagged⟩ :=
    fragments_eq_snoc frameSeq (count_pos_of_mem hfinal)
  have hnodup : others.Nodup := by
    have hall := nodup_fragments e frameSeq
    rw [hsnoc] at hall
    exact hall.of_append_left
  have hfront : others.length ≤ front.length := by
    refine (hnodup.subperm fun f hf => hothers f ?_ (hunflagged f hf)).length_le
    rw [hsnoc]
    exact List.mem_append_left _ hf
  have hlen := h.length_le
  rw [hsnoc] at hlen
  simp only [List.length_append, List.length_cons, List.length_nil] at hlen
  have hback : back = [] := List.eq_nil_of_length_eq_zero (by omega)
  subst hback
  refine ⟨h.perm_of_length_le ?_, front, final, rfl, hlast⟩
  rw [hsnoc]
  simp only [List.length_append, List.length_cons, List.length_nil]
  omega

/-- In sending order the flagged fragment is the final one. -/
theorem lastAfterOthers_fragments (h : 0 < e.totalFragments.toNat) :
    e.LastAfterOthers frameSeq (e.fragments frameSeq) := by
  obtain ⟨others, final, hsnoc, hlast, -⟩ := fragments_eq_snoc frameSeq h
  refine ⟨others, final, [], hsnoc, by simp [hsnoc], hlast, ?_⟩
  intro f hf hunflagged
  rw [hsnoc, List.mem_append, List.mem_singleton] at hf
  rcases hf with hf | rfl
  · exact hf
  · simp [hlast] at hunflagged

/-- Selecting the datagrams of a frame keeps their order. -/
theorem LastAfterOthers.filter {arrivals : List VideoFragment}
    (h : e.LastAfterOthers frameSeq arrivals) :
    e.LastAfterOthers frameSeq (arrivals.filter (·.frameSeq = frameSeq)) := by
  obtain ⟨front, final, back, rfl, hfinal, hlast, hothers⟩ := h
  have hkey := frameSeq_of_mem hfinal
  refine ⟨front.filter (·.frameSeq = frameSeq), final, back.filter (·.frameSeq = frameSeq), ?_,
    hfinal, hlast, ?_⟩
  · rw [List.filter_append, List.filter_cons_of_pos (by simpa using hkey)]
  · intro f hf hunflagged
    exact List.mem_filter.mpr ⟨hothers f hf hunflagged, by simpa using frameSeq_of_mem hf⟩

end EncFrame

section Numbered

variable {frames : List EncFrame}

theorem mem_videoFragments (start : Nat) {f : VideoFragment} :
    f ∈ videoFragments (UInt32.ofNat start) frames ↔
      ∃ i, ∃ h : i < frames.length, f ∈ frames[i].fragments (UInt32.ofNat (start + i)) := by
  induction frames generalizing start with
  | nil => simp [videoFragments]
  | cons e rest ih =>
    have hnext : UInt32.ofNat start + 1 = UInt32.ofNat (start + 1) := by
      rw [UInt32.ofNat_add]
      rfl
    rw [videoFragments, List.mem_append, hnext, ih]
    constructor
    · rintro (hf | ⟨i, hi, hf⟩)
      · exact ⟨0, Nat.succ_pos _, hf⟩
      · refine ⟨i + 1, Nat.succ_lt_succ hi, ?_⟩
        rwa [List.getElem_cons_succ, ← Nat.add_assoc, Nat.add_right_comm]
    · rintro ⟨i | i, hi, hf⟩
      · exact Or.inl hf
      · refine Or.inr ⟨i, Nat.lt_of_succ_lt_succ hi, ?_⟩
        rwa [List.getElem_cons_succ, ← Nat.add_assoc, Nat.add_right_comm] at hf

/-- Up to `2 ^ 32` frames have different numbers. -/
theorem ofNat_inj {i j : Nat} (hi : i < 2 ^ 32) (hj : j < 2 ^ 32) :
    UInt32.ofNat i = UInt32.ofNat j ↔ i = j := by
  rw [← UInt32.toNat_inj, UInt32.toNat_ofNat', UInt32.toNat_ofNat', Nat.mod_eq_of_lt hi,
    Nat.mod_eq_of_lt hj]

/-- The fragments with the number of a frame are those of the frame. -/
theorem filter_videoFragments {start : Nat} (hlen : start + frames.length ≤ 2 ^ 32) {i : Nat}
    (hi : i < frames.length) :
    (videoFragments (UInt32.ofNat start) frames).filter
        (·.frameSeq = UInt32.ofNat (start + i)) =
      frames[i].fragments (UInt32.ofNat (start + i)) := by
  induction frames generalizing start i with
  | nil => simp at hi
  | cons e rest ih =>
    rw [List.length_cons] at hlen hi
    have hnext : UInt32.ofNat start + 1 = UInt32.ofNat (start + 1) := by
      rw [UInt32.ofNat_add]
      rfl
    rw [videoFragments, List.filter_append, hnext]
    cases i with
    | zero =>
      have hfirst :
          (e.fragments (UInt32.ofNat start)).filter (·.frameSeq = UInt32.ofNat (start + 0)) =
            e.fragments (UInt32.ofNat start) :=
        List.filter_eq_self.mpr fun f hf => by simp [EncFrame.frameSeq_of_mem hf]
      have hrest : (videoFragments (UInt32.ofNat (start + 1)) rest).filter
          (·.frameSeq = UInt32.ofNat (start + 0)) = [] := by
        apply List.filter_eq_nil_iff.mpr
        intro f hf
        obtain ⟨j, hj, hmem⟩ := (mem_videoFragments _).mp hf
        rw [EncFrame.frameSeq_of_mem hmem, decide_eq_true_iff,
          ofNat_inj (by omega) (by omega)]
        omega
      rw [hfirst, hrest, List.append_nil]
      rfl
    | succ i =>
      have hfirst : (e.fragments (UInt32.ofNat start)).filter
          (·.frameSeq = UInt32.ofNat (start + (i + 1))) = [] := by
        apply List.filter_eq_nil_iff.mpr
        intro f hf
        rw [EncFrame.frameSeq_of_mem hf, decide_eq_true_iff, ofNat_inj (by omega) (by omega)]
        omega
      have hcomm : start + (i + 1) = start + 1 + i := by omega
      rw [hfirst, List.nil_append, hcomm, ih (by omega) (by omega)]
      rfl

end Numbered

section Examples

/-! Two frames for the runs that are worked out by hand. -/

def twoFragments : EncFrame where
  bytes := List.replicate 1401 0
  length_lt := by rw [List.length_replicate]; decide

theorem twoFragments_total : twoFragments.totalFragments.toNat = 2 := by
  rw [EncFrame.toNat_totalFragments, EncFrame.fragmentCount, twoFragments, List.length_replicate]
  rfl

theorem twoFragments_fragments : twoFragments.fragments 0 =
    [twoFragments.fragment 0 (UInt32.ofNat 0), twoFragments.fragment 0 (UInt32.ofNat 1)] := by
  rw [EncFrame.fragments, twoFragments_total]
  rfl

theorem twoFragments_fits : twoFragments.CountFits := by
  rw [EncFrame.CountFits, EncFrame.fragmentCount, twoFragments, List.length_replicate]
  decide

theorem twoFragments_nonempty : twoFragments.bytes ≠ [] := by
  rw [twoFragments]
  exact List.ne_nil_of_length_pos (by rw [List.length_replicate]; decide)

theorem completes_twoFragments {i size : Nat} (h : i < 2) :
    completes (twoFragments.fragment 0 (UInt32.ofNat i)) size =
      (decide (i + 1 = 2) && decide (size = 2)) := by
  have hi : i < twoFragments.totalFragments.toNat := by rwa [twoFragments_total]
  rw [completes, EncFrame.lastFragment_fragment hi, twoFragments_total]
  simp only [EncFrame.fragment, twoFragments_total]

def oneByte : EncFrame where
  bytes := [0]
  length_lt := by decide

theorem oneByte_fragments : oneByte.fragments 0 = [oneByte.fragment 0 (UInt32.ofNat 0)] := rfl

theorem oneByte_fits : oneByte.CountFits := by decide

end Examples

end MediaStream.OnlineAV
