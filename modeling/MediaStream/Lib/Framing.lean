import Mathlib.Data.List.Basic

/-!
Frames of a fixed width from several sources in one stream. An element of the
stream is represented by its tag: its source and its position in what that
source has produced. The stream is framed when each group of `w` elements is a
frame of one source.
-/

namespace MediaStream.Lib.Framing

variable {κ : Type*}

def piece (k : κ) (start count : Nat) : List (κ × Nat) :=
  (List.range' start count).map fun position => (k, position)

/-- Each group of `w` tags, the last one as far as it has got, is a frame. -/
def Framed (w : Nat) (tags : List (κ × Nat)) : Prop :=
  ∀ j, w * j < tags.length →
    ∃ k m, ∀ r < w, w * j + r < tags.length → tags[w * j + r]? = some (k, w * m + r)

/-- Each tag is at its place in its group, and inside a group it continues the
tag before it. -/
def Steady (w : Nat) (tags : List (κ × Nat)) : Prop :=
  ∀ i k p, tags[i]? = some (k, p) →
    p % w = i % w ∧ (i % w ≠ 0 → tags[i - 1]? = some (k, p - 1))

@[simp] theorem length_piece (k : κ) (start count : Nat) :
    (piece k start count).length = count := by
  simp [piece]

theorem piece_getElem? {k : κ} {start count r : Nat} (h : r < count) :
    (piece k start count)[r]? = some (k, start + r) := by
  simp [piece, h]

section Steady

variable {w : Nat} {tags : List (κ × Nat)}

theorem steady_of_framed (hw : 0 < w) (h : Framed w tags) : Steady w tags := by
  intro i k p htag
  have hlt : i < tags.length := (List.getElem?_eq_some_iff.mp htag).1
  have hdiv : w * (i / w) + i % w = i := Nat.div_add_mod i w
  obtain ⟨source, m, hframe⟩ := h (i / w) (by omega)
  have hself := hframe (i % w) (Nat.mod_lt i hw) (by omega)
  rw [hdiv, htag] at hself
  obtain ⟨rfl, rfl⟩ := Prod.mk.inj (Option.some.inj hself)
  refine ⟨by rw [Nat.mul_add_mod, Nat.mod_mod], fun hinside => ?_⟩
  have hbefore := hframe (i % w - 1) (by have := Nat.mod_lt i hw; omega) (by omega)
  have hindex : w * (i / w) + (i % w - 1) = i - 1 := by omega
  have hposition : w * m + (i % w - 1) = w * m + i % w - 1 := by omega
  rw [hindex, hposition] at hbefore
  exact hbefore

theorem framed_of_steady (h : Steady w tags) : Framed w tags := by
  intro j hj
  obtain ⟨⟨k, p⟩, htag⟩ : ∃ tag, tags[w * j]? = some tag := ⟨_, List.getElem?_eq_getElem hj⟩
  have hstart := (h _ k p htag).1
  rw [Nat.mul_mod_right] at hstart
  have hp : w * (p / w) = p := Nat.mul_div_cancel' (Nat.dvd_of_mod_eq_zero hstart)
  refine ⟨k, p / w, ?_⟩
  rw [hp]
  intro r
  induction r with
  | zero => exact fun _ _ => htag
  | succ r ih =>
    intro hr hlt
    obtain ⟨⟨source, q⟩, hnext⟩ : ∃ tag, tags[w * j + (r + 1)]? = some tag :=
      ⟨_, List.getElem?_eq_getElem hlt⟩
    obtain ⟨hplace, hcontinues⟩ := h _ source q hnext
    have hmod : (w * j + (r + 1)) % w = r + 1 := by
      rw [Nat.mul_add_mod, Nat.mod_eq_of_lt hr]
    rw [hmod] at hplace hcontinues
    have hbefore := hcontinues (by omega)
    have hindex : w * j + (r + 1) - 1 = w * j + r := by omega
    rw [hindex, ih (by omega) (by omega)] at hbefore
    obtain ⟨rfl, hq⟩ := Prod.mk.inj (Option.some.inj hbefore)
    have hpos : 0 < q := by
      rcases Nat.eq_zero_or_pos q with rfl | hpos
      · rw [Nat.zero_mod] at hplace
        omega
      · exact hpos
    have hvalue : q = p + (r + 1) := by omega
    rw [hnext, hvalue]

theorem framed_iff_steady (hw : 0 < w) : Framed w tags ↔ Steady w tags :=
  ⟨steady_of_framed hw, framed_of_steady⟩

/-- A piece keeps a steady stream steady exactly when it starts at the same
place in a group as the stream has got to, and, inside a group, continues it. -/
theorem steady_append_iff {k : κ} {start count : Nat} (h : Steady w tags) (hcount : 0 < count) :
    Steady w (tags ++ piece k start count) ↔
      start % w = tags.length % w ∧
        (tags.length % w ≠ 0 → tags.getLast? = some (k, start - 1)) := by
  have hnew : ∀ r < count,
      (tags ++ piece k start count)[tags.length + r]? = some (k, start + r) := by
    intro r hr
    rw [List.getElem?_append_right (Nat.le_add_right ..), Nat.add_sub_cancel_left,
      piece_getElem? hr]
  have hold : ∀ i < tags.length, (tags ++ piece k start count)[i]? = tags[i]? :=
    fun i hi => List.getElem?_append_left hi
  have hlast : tags.length % w ≠ 0 →
      (tags ++ piece k start count)[tags.length - 1]? = tags.getLast? := by
    intro hinside
    have hlen : tags.length ≠ 0 := by
      intro hzero
      rw [hzero, Nat.zero_mod] at hinside
      exact hinside rfl
    rw [hold _ (by omega), List.getLast?_eq_getElem?]
  constructor
  · intro hsteady
    have hfirst := hsteady _ _ _ (hnew 0 hcount)
    simp only [Nat.add_zero] at hfirst
    exact ⟨hfirst.1, fun hinside => (hlast hinside).symm.trans (hfirst.2 hinside)⟩
  · rintro ⟨hplace, hcontinues⟩ i source p htag
    by_cases hi : i < tags.length
    · rw [hold i hi] at htag
      obtain ⟨hthere, hbefore⟩ := h i source p htag
      refine ⟨hthere, fun hinside => ?_⟩
      rw [hold _ (by omega)]
      exact hbefore hinside
    · have hlt := (List.getElem?_eq_some_iff.mp htag).1
      rw [List.length_append, length_piece] at hlt
      obtain ⟨r, rfl⟩ := Nat.exists_eq_add_of_le (Nat.le_of_not_lt hi)
      rw [hnew r (by omega)] at htag
      obtain ⟨rfl, rfl⟩ := Prod.mk.inj (Option.some.inj htag)
      refine ⟨by rw [Nat.add_mod, hplace, ← Nat.add_mod], fun hinside => ?_⟩
      cases r with
      | zero =>
        rw [Nat.add_zero] at hinside ⊢
        exact (hlast hinside).trans (hcontinues hinside)
      | succ r => exact hnew r (by omega)

end Steady

end MediaStream.Lib.Framing
