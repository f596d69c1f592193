import Mathlib.Algebra.GroupWithZero.Nat
import Mathlib.Data.List.Forall2
import Mathlib.Data.List.Induction
import Mathlib.Data.List.Nodup
import Mathlib.Data.List.Perm.Basic
import MediaStream.Lib.Collector

/-!
A collector that also receives items which do not belong there. `keep` marks
those that do. When does it hand on the same groups as without the others?
-/

namespace MediaStream.Lib.Collector

variable {α : Type*} {fires : α → Nat → Bool} {keep : α → Bool} {items : List α}

/-- The items of one key keep the foreign ones apart: first come groups in which
there is none, then a rest that fires at no point, with or without them. -/
def Apart (fires : α → Nat → Bool) (keep : α → Bool) (items : List α) : Prop :=
  ∃ (parts : List (List α)) (rest : List α), items = parts.flatten ++ rest ∧
    (∀ part ∈ parts, Group fires part ∧ ∀ a ∈ part, keep a = true) ∧
    Silent fires 0 rest ∧ Silent fires 0 (rest.filter keep)

theorem apart_iff :
    Apart fires keep items ↔
      (∀ part ∈ groups fires [] items, ∀ a ∈ part, keep a = true) ∧
        Silent fires 0 ((pending fires [] items).filter keep) := by
  constructor
  · rintro ⟨parts, rest, rfl, hparts, hrest, hkept⟩
    obtain ⟨hgroups, hpending⟩ :=
      groups_complete parts rest (fun part hpart => (hparts part hpart).1) hrest
    rw [hgroups, hpending]
    exact ⟨fun part hpart => (hparts part hpart).2, hkept⟩
  · rintro ⟨hgroups, hkept⟩
    obtain ⟨hsplit, hparts, hrest⟩ := groups_sound items (silent_nil fires 0)
    exact ⟨_, _, hsplit, fun part hpart => ⟨hparts part hpart, hgroups part hpart⟩, hrest, hkept⟩

theorem apart_map {β : Type*} (g : β → α) {items : List β} :
    Apart fires keep (items.map g) ↔ Apart (fires ∘ g) (keep ∘ g) items := by
  have hgroups : groups fires [] (items.map g) = (groups (fires ∘ g) [] items).map (List.map g) :=
    groups_map g items []
  have hpending : pending fires [] (items.map g) = (pending (fires ∘ g) [] items).map g :=
    pending_map g items []
  rw [apart_iff, apart_iff, hgroups, hpending, List.filter_map, silent_map, List.forall_mem_map]
  simp only [List.forall_mem_map, Function.comp_apply]

theorem filter_flatten_of_kept {parts : List (List α)}
    (h : ∀ part ∈ parts, ∀ a ∈ part, keep a = true) :
    parts.flatten.filter keep = parts.flatten := by
  apply List.filter_eq_self.mpr
  intro a ha
  obtain ⟨part, hpart, hmem⟩ := List.mem_flatten.mp ha
  exact h part hpart a hmem

theorem pending_of_rest {parts : List (List α)} {front back : List α} {a : α}
    (hparts : ∀ part ∈ parts, Group fires part) (hrest : Silent fires 0 (front ++ a :: back)) :
    pending fires [] (parts.flatten ++ front) = front ∧ fires a (front.length + 1) = false := by
  obtain ⟨hfront, hback⟩ := silent_append.mp hrest
  refine ⟨(groups_complete parts front hparts hfront).2, ?_⟩
  simpa using (silent_cons.mp hback).1

section Keyed

variable {κ : Type*} [DecidableEq κ] {key : α → κ} {m : κ → Option (List α)}

theorem handle_of_entry {a : α} {held : List α} (hentry : entry m (key a) = held)
    (h : fires a (held.length + 1) = false) : (handle key fires m a).2 = none := by
  rw [handle_of_silent (by rw [hentry, h])]

/-- Items kept apart: a foreign one is never answered, the others are answered
as they are without the foreign ones. -/
theorem handle_of_apart {front back : List α} {a : α} (hm : ∀ k, entry m k = [])
    (h : Apart fires keep ((front ++ a :: back).filter (key · = key a))) :
    (handle key fires (buffer key fires m front) a).2 =
      if keep a then (handle key fires (buffer key fires m (front.filter keep)) a).2
      else none := by
  obtain ⟨parts, rest, hsplit, hparts, hrest, hkept⟩ := h
  have hgroups : ∀ part ∈ parts, Group fires part := fun part hpart => (hparts part hpart).1
  have hclean := filter_flatten_of_kept fun part hpart => (hparts part hpart).2
  have hentry : entry (buffer key fires m front) (key a) =
      pending fires [] (front.filter (key · = key a)) := by
    rw [entry_buffer, hm]
  have hentryKept : entry (buffer key fires m (front.filter keep)) (key a) =
      pending fires [] ((front.filter (key · = key a)).filter keep) := by
    rw [entry_buffer, hm, List.filter_comm]
  rw [List.filter_append, List.filter_cons_of_pos (by simp), List.append_eq_append_iff] at hsplit
  -- The item belongs to a group, or comes after all of them.
  have hcases : (keep a = true ∧ (front.filter (key · = key a)).filter keep =
        front.filter (key · = key a)) ∨
      ∃ held, front.filter (key · = key a) = parts.flatten ++ held ∧
        rest = held ++ a :: back.filter (key · = key a) := by
    rcases hsplit with ⟨tail, hflatten, htail⟩ | ⟨held, hfront, hheld⟩
    · cases tail with
      | nil =>
        rw [List.append_nil] at hflatten
        exact Or.inr ⟨[], by rw [hflatten, List.append_nil], htail.symm⟩
      | cons b tail =>
        obtain ⟨rfl, -⟩ := List.cons.inj htail
        rw [hflatten] at hclean
        have hall := List.filter_eq_self.mp hclean
        refine Or.inl ⟨hall a (by simp), List.filter_eq_self.mpr fun c hc => ?_⟩
        exact hall c (List.mem_append_left _ hc)
    · exact Or.inr ⟨held, hfront, hheld⟩
  rcases hcases with ⟨hkeep, hsame⟩ | ⟨held, hfront, rfl⟩
  · rw [if_pos hkeep]
    exact handle_congr (by rw [hentry, hentryKept, hsame])
  · obtain ⟨hheld, hsilent⟩ := pending_of_rest hgroups hrest
    rw [handle_of_entry (by rw [hentry, hfront, hheld]) hsilent]
    split
    · rename_i hkeep
      rw [List.filter_append, List.filter_cons_of_pos hkeep] at hkept
      obtain ⟨hheldKept, hsilentKept⟩ := pending_of_rest hgroups hkept
      refine (handle_of_entry ?_ hsilentKept).symm
      rw [hentryKept, hfront, List.filter_append, hclean, hheldKept]
    · rfl

/-- The items of every key kept apart: the same groups are handed on. -/
theorem output_filter_of_apart (hm : ∀ k, entry m k = [])
    (h : ∀ k, Apart fires keep (items.filter (key · = k))) :
    output key fires m items = output key fires m (items.filter keep) := by
  have hanswer : ∀ front a back, items = front ++ a :: back →
      (handle key fires (buffer key fires m front) a).2 =
        if keep a then (handle key fires (buffer key fires m (front.filter keep)) a).2
        else none := by
    rintro front a back rfl
    exact handle_of_apart hm (h (key a))
  clear h
  induction items using List.reverseRecOn with
  | nil => rfl
  | append_singleton front a ih =>
    have hlast := hanswer front a [] rfl
    rw [output_concat, hlast, ih fun before b after hsplit =>
      hanswer before b (after ++ [a]) (by rw [hsplit]; simp), List.filter_append]
    cases hkeep : keep a with
    | true => simp [hkeep, output_concat]
    | false => simp [hkeep]

end Keyed

section Weights

variable {w : α → Nat}

theorem sum_filter (h : ∀ a ∈ items, keep a = false → w a = 0) :
    ((items.filter keep).map w).sum = (items.map w).sum := by
  induction items with
  | nil => rfl
  | cons a rest ih =>
    obtain ⟨ha, hrest⟩ := List.forall_mem_cons.mp h
    cases hkeep : keep a with
    | true => simp [hkeep, ih hrest]
    | false => simp [hkeep, ih hrest, ha hkeep]

/-- Of two beginnings of one list of positive weights only equal ones weigh the same. -/
theorem prefix_eq_of_weights (w : α → Nat) {first second : List α} (hfirst : first <+: items)
    (hsecond : second <+: items) (hpos : ∀ a ∈ items, 0 < w a)
    (hsum : (first.map w).sum = (second.map w).sum) : first = second := by
  have hnil : ∀ l : List α, (∀ a ∈ l, 0 < w a) → (l.map w).sum = 0 → l = [] := by
    intro l hl hzero
    cases l with
    | nil => rfl
    | cons a l =>
      have ha := hl a (List.mem_cons_self ..)
      simp only [List.map_cons, List.sum_cons] at hzero
      omega
  rcases List.prefix_or_prefix_of_prefix hfirst hsecond with ⟨rest, rfl⟩ | ⟨rest, rfl⟩
  · have hrest := hnil rest
      (fun a ha => hpos a (hsecond.subset (List.mem_append_right _ ha)))
      (by simp only [List.map_append, List.sum_append] at hsum; omega)
    rw [hrest, List.append_nil]
  · have hrest := hnil rest
      (fun a ha => hpos a (hfirst.subset (List.mem_append_right _ ha)))
      (by simp only [List.map_append, List.sum_append] at hsum; omega)
    rw [hrest, List.append_nil]

/-- A first group whose weight is unchanged without the foreign items has none. -/
theorem first_group_kept {part rest first : List α} {later : List (List α)}
    (hkept : ∀ a ∈ part ++ rest, keep a = true → 0 < w a)
    (hforeign : ∀ a ∈ part ++ rest, keep a = false → w a = 0 ∧ ∀ size, fires a size = false)
    (hsize : ∀ a ∈ part ++ rest, ∀ size size', fires a size = true → fires a size' = true →
      size = size')
    (hpart : Group fires part)
    (hfirst : groups fires [] ((part ++ rest).filter keep) = first :: later)
    (hweight : (first.map w).sum = (part.map w).sum) : ∀ a ∈ part, keep a = true := by
  obtain ⟨hsplit, hgroups, -⟩ := groups_sound ((part ++ rest).filter keep) (silent_nil fires 0)
  rw [hfirst, List.nil_append, List.flatten_cons, List.append_assoc] at hsplit
  have hfirstGroup : Group fires first :=
    hgroups first (by rw [hfirst]; exact List.mem_cons_self ..)
  have hsame : first = part.filter keep := by
    refine prefix_eq_of_weights w ⟨_, hsplit.symm⟩ ?_ ?_ ?_
    · exact ⟨rest.filter keep, (List.filter_append ..).symm⟩
    · intro a ha
      exact hkept a (List.mem_of_mem_filter ha) (List.mem_filter.mp ha).2
    · rw [hweight, sum_filter fun a ha hdrop => (hforeign a (List.mem_append_left _ ha) hdrop).1]
  obtain ⟨front, a, rfl, -, hfires⟩ := hpart
  have hmem : a ∈ front ++ [a] ++ rest := by simp
  have hkeep : keep a = true := by
    by_contra hdrop
    rw [(hforeign a hmem (by simpa using hdrop)).2] at hfires
    cases hfires
  -- Its final item is the same and fires at one size only, so the sizes agree.
  obtain ⟨front', b, rfl, -, hfires'⟩ := hfirstGroup
  rw [List.filter_append, List.filter_cons_of_pos hkeep, List.filter_nil] at hsame
  obtain ⟨rfl, hb⟩ := List.append_inj' hsame rfl
  obtain rfl : b = a := by simpa using hb
  have hlen : (front.filter keep).length = front.length :=
    Nat.succ.inj (hsize b hmem _ _ hfires' hfires)
  intro c hc
  rcases List.mem_append.mp hc with hc | hc
  · exact List.length_filter_eq_length_iff.mp hlen c hc
  · rwa [List.mem_singleton.mp hc]

/-- Foreign items without weight that never fire. If they leave the weights of
the groups as they are, they are in none of them, and the groups are the same. -/
theorem groups_of_same_weights (hkept : ∀ a ∈ items, keep a = true → 0 < w a)
    (hforeign : ∀ a ∈ items, keep a = false → w a = 0 ∧ ∀ size, fires a size = false)
    (hsize : ∀ a ∈ items, ∀ size size', fires a size = true → fires a size' = true → size = size')
    (h : (groups fires [] items).map (fun part => (part.map w).sum) =
      (groups fires [] (items.filter keep)).map fun part => (part.map w).sum) :
    (∀ part ∈ groups fires [] items, ∀ a ∈ part, keep a = true) ∧
      groups fires [] (items.filter keep) = groups fires [] items := by
  generalize hgs : groups fires [] items = gs at h
  induction gs generalizing items with
  | nil => exact ⟨by simp, List.map_eq_nil_iff.mp h.symm⟩
  | cons part gs ih =>
    obtain ⟨hsplit, hgroups, -⟩ := groups_sound items (silent_nil fires 0)
    rw [hgs, List.nil_append, List.flatten_cons, List.append_assoc] at hsplit
    have hgroup : Group fires part := hgroups part (by simp [hgs])
    generalize gs.flatten ++ pending fires [] items = rest at hsplit
    subst hsplit
    rw [(groups_of_group hgroup rest).1] at hgs
    obtain ⟨-, hrest⟩ := List.cons.inj hgs
    obtain ⟨first, later, hfirst⟩ : ∃ first later,
        groups fires [] ((part ++ rest).filter keep) = first :: later :=
      List.exists_cons_of_ne_nil fun hnil => by
        rw [hnil] at h
        cases h
    have hall : ∀ a ∈ part, keep a = true := by
      rw [hfirst, List.map_cons, List.map_cons] at h
      exact first_group_kept hkept hforeign hsize hgroup hfirst (List.cons.inj h).1.symm
    rw [List.filter_append, List.filter_eq_self.mpr hall, (groups_of_group hgroup _).1] at h ⊢
    obtain ⟨hlater, hsame⟩ := ih (fun a ha => hkept a (List.mem_append_right _ ha))
      (fun a ha => hforeign a (List.mem_append_right _ ha))
      (fun a ha => hsize a (List.mem_append_right _ ha)) hrest (List.cons.inj h).2
    exact ⟨List.forall_mem_cons.mpr ⟨hall, hlater⟩, congrArg _ hsame⟩

/-- So the foreign items are kept apart. -/
theorem apart_of_same_weights (hkept : ∀ a ∈ items, keep a = true → 0 < w a)
    (hforeign : ∀ a ∈ items, keep a = false → w a = 0 ∧ ∀ size, fires a size = false)
    (hsize : ∀ a ∈ items, ∀ size size', fires a size = true → fires a size' = true → size = size')
    (h : (groups fires [] items).map (fun part => (part.map w).sum) =
      (groups fires [] (items.filter keep)).map fun part => (part.map w).sum) :
    Apart fires keep items := by
  obtain ⟨hall, hsame⟩ := groups_of_same_weights hkept hforeign hsize h
  refine apart_iff.mpr ⟨hall, ?_⟩
  obtain ⟨hsplit, -, -⟩ := groups_sound items (silent_nil fires 0)
  obtain ⟨hsplitKept, -, hsilent⟩ := groups_sound (items.filter keep) (silent_nil fires 0)
  rw [List.nil_append] at hsplit hsplitKept
  have hfilter := congrArg (List.filter keep) hsplit
  rw [List.filter_append, filter_flatten_of_kept hall, hsplitKept, hsame] at hfilter
  rwa [← List.append_cancel_left hfilter]

end Weights

section Copies

/-! Foreign items that repeat earlier ones. `ident` tells what is repeated. -/

variable {ι : Type*} {ident : α → ι}

/-- Every foreign item comes after a kept one with its identity. -/
def Repeats (keep : α → Bool) (ident : α → ι) (items : List α) : Prop :=
  ∀ front a back, items = front ++ a :: back → keep a = false →
    ∃ o ∈ front, keep o = true ∧ ident o = ident a

theorem repeats_of_kept (h : ∀ a ∈ items, keep a = true) : Repeats keep ident items := by
  rintro front a back rfl hforeign
  rw [h a (by simp)] at hforeign
  cases hforeign

theorem Repeats.concat (h : Repeats keep ident items) {o a : α} (ho : o ∈ items)
    (hkeep : keep o = true) (hsame : ident o = ident a) : Repeats keep ident (items ++ [a]) := by
  intro front b back hsplit hforeign
  rcases List.eq_nil_or_concat' back with rfl | ⟨back, c, rfl⟩
  · obtain ⟨rfl, hb⟩ := List.append_inj' hsplit rfl
    exact ⟨o, ho, hkeep, by rw [hsame, List.singleton_inj.mp hb]⟩
  · have hconcat : items ++ [a] = (front ++ b :: back) ++ [c] := by rw [hsplit]; simp
    obtain ⟨rfl, -⟩ := List.append_inj' hconcat rfl
    exact h front b back rfl hforeign

/-- Without a repetition in a front part, there is no foreign item in it. -/
theorem Repeats.kept_of_nodup {first second : List α} (h : Repeats keep ident (first ++ second))
    (hnodup : (first.map ident).Nodup) : ∀ a ∈ first, keep a = true := by
  intro a ha
  by_contra hforeign
  obtain ⟨front, back, rfl⟩ := List.append_of_mem ha
  obtain ⟨o, ho, -, hsame⟩ := h front a (back ++ second) (by simp) (by simpa using hforeign)
  rw [List.map_append, List.map_cons] at hnodup
  exact List.disjoint_of_nodup_append hnodup (List.mem_map_of_mem ho)
    (by rw [hsame]; exact List.mem_cons_self ..)

theorem Repeats.filter (h : Repeats keep ident items) {p : α → Bool}
    (hp : ∀ a b, ident a = ident b → p a = p b) : Repeats keep ident (items.filter p) := by
  intro front a back hsplit hforeign
  obtain ⟨first, second, rfl, hfirst, hsecond⟩ := List.filter_eq_append_iff.mp hsplit
  obtain ⟨skipped, later, rfl, hskipped, ha, -⟩ := List.filter_eq_cons_iff.mp hsecond
  obtain ⟨o, ho, hkeep, hsame⟩ := h (first ++ skipped) a later (by simp) hforeign
  have hpo : p o = true := by rw [hp o a hsame, ha]
  refine ⟨o, ?_, hkeep, hsame⟩
  rcases List.mem_append.mp ho with hmem | hmem
  · rw [← hfirst]
    exact List.mem_filter.mpr ⟨hmem, hpo⟩
  · exact absurd hpo (hskipped o hmem)

/-- The same groups with and without the copies, but for the order in them: the
copies are kept apart. -/
theorem apart_of_same_groups (hcopies : Repeats keep ident items)
    (hnodup : ((items.filter keep).map ident).Nodup)
    (hsame : List.Forall₂ (fun part original => (part.map ident).Perm (original.map ident))
      (groups fires [] items) (groups fires [] (items.filter keep))) :
    Apart fires keep items := by
  obtain ⟨hsplit, hparts, -⟩ := groups_sound items (silent_nil fires 0)
  obtain ⟨hsplitKept, -, -⟩ := groups_sound (items.filter keep) (silent_nil fires 0)
  rw [List.nil_append] at hsplit hsplitKept
  have hperm : ((groups fires [] items).flatten.map ident).Perm
      ((groups fires [] (items.filter keep)).flatten.map ident) := by
    rw [List.map_flatten, List.map_flatten]
    exact List.Perm.flatten_congr
      (List.forall₂_map_left_iff.mpr (List.forall₂_map_right_iff.mpr hsame))
  have hdistinct : ((groups fires [] items).flatten.map ident).Nodup := by
    rw [hsplitKept, List.map_append] at hnodup
    exact hperm.nodup_iff.mpr hnodup.of_append_left
  rw [hsplit] at hcopies
  have hkept := hcopies.kept_of_nodup hdistinct
  refine apart_iff.mpr ⟨fun part hpart a ha => hkept a (List.mem_flatten.mpr ⟨part, hpart, ha⟩), ?_⟩
  -- What is pending gives no further group without the copies, or there would be more groups.
  have hfilter : items.filter keep =
      (groups fires [] items).flatten ++ (pending fires [] items).filter keep := by
    rw [hsplit, List.filter_append, List.filter_eq_self.mpr hkept, ← hsplit]
  obtain ⟨hfirst, hrest⟩ := groups_complete (groups fires [] items) [] hparts (silent_nil fires 0)
  rw [List.append_nil] at hfirst hrest
  have hlen := hsame.length_eq
  rw [hfilter, groups_append, hfirst, hrest, List.length_append] at hlen
  have hnone : groups fires [] ((pending fires [] items).filter keep) = [] :=
    List.eq_nil_of_length_eq_zero (by omega)
  have hsilent := (groups_sound ((pending fires [] items).filter keep) (silent_nil fires 0)).2.2
  rwa [pending_of_groups_nil hnone] at hsilent

end Copies

end MediaStream.Lib.Collector
