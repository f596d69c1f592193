import Mathlib.Data.List.Basic
import Mathlib.Logic.Function.Basic

/-!
A map from keys to lists in which items are collected. Each item is appended to
the entry of its key; if it then fires, given the size of the entry, the entry
is handed on as a group and erased.

What happens under one key depends on the items with that key only
(`entry_buffer`, `groups_of_key`), so a claim about the map reduces to one about
a single list of items.
-/

namespace MediaStream.Lib.Collector

variable {α κ : Type*}

section OneKey

variable (fires : α → Nat → Bool)

/-- What is left in an entry that held `p` when the items have been handled. -/
def pending (p : List α) : List α → List α
  | [] => p
  | a :: rest => pending (if fires a (p.length + 1) then [] else p ++ [a]) rest

def groups (p : List α) : List α → List (List α)
  | [] => []
  | a :: rest =>
    if fires a (p.length + 1) then (p ++ [a]) :: groups [] rest else groups (p ++ [a]) rest

variable {fires} {p : List α}

theorem pending_append (first second : List α) :
    pending fires p (first ++ second) = pending fires (pending fires p first) second := by
  induction first generalizing p with
  | nil => rfl
  | cons a rest ih => exact ih

theorem groups_append (first second : List α) :
    groups fires p (first ++ second) =
      groups fires p first ++ groups fires (pending fires p first) second := by
  induction first generalizing p with
  | nil => rfl
  | cons a rest ih =>
    simp only [List.cons_append, groups, pending]
    split
    · rw [ih, List.cons_append]
    · exact ih

variable (fires) in
def Silent (start : Nat) (items : List α) : Prop :=
  ∀ front a back, items = front ++ a :: back → fires a (start + front.length + 1) = false

variable (fires) in
/-- A stretch of which the final item fires, in an entry that was empty before
it, and no other one. -/
def Group (items : List α) : Prop :=
  ∃ front a, items = front ++ [a] ∧ Silent fires 0 front ∧ fires a (front.length + 1) = true

variable (fires) in
theorem silent_nil (start : Nat) : Silent fires start [] := by
  intro front a back hsplit
  simp at hsplit

theorem silent_cons {start : Nat} {a : α} {items : List α} :
    Silent fires start (a :: items) ↔
      fires a (start + 1) = false ∧ Silent fires (start + 1) items := by
  constructor
  · intro h
    refine ⟨h [] a items rfl, ?_⟩
    rintro front b back rfl
    have hfires := h (a :: front) b back rfl
    rwa [List.length_cons, Nat.add_comm front.length 1, ← Nat.add_assoc] at hfires
  · rintro ⟨hhead, htail⟩ front b back hsplit
    cases front with
    | nil =>
      obtain ⟨rfl, rfl⟩ := List.cons.inj hsplit
      exact hhead
    | cons c front =>
      obtain ⟨rfl, rfl⟩ := List.cons.inj hsplit
      have hfires := htail front b back rfl
      rwa [List.length_cons, Nat.add_comm front.length 1, ← Nat.add_assoc]

theorem silent_append {start : Nat} {first second : List α} :
    Silent fires start (first ++ second) ↔
      Silent fires start first ∧ Silent fires (start + first.length) second := by
  induction first generalizing start with
  | nil => simp [silent_nil fires]
  | cons a rest ih =>
    rw [List.cons_append, silent_cons, silent_cons, ih, and_assoc, List.length_cons,
      Nat.add_comm rest.length 1, ← Nat.add_assoc]

/-- Items that do not fire are only collected. -/
theorem pending_of_silent {items : List α} (h : Silent fires p.length items) :
    pending fires p items = p ++ items ∧ groups fires p items = [] := by
  induction items generalizing p with
  | nil => simp [pending, groups]
  | cons a rest ih =>
    obtain ⟨hhead, htail⟩ := silent_cons.mp h
    have hrest := ih (p := p ++ [a]) (by simpa using htail)
    simpa [pending, groups, hhead] using hrest

/-- The items fall into the groups and the stretch that is still pending. -/
theorem groups_sound (items : List α) (h : Silent fires 0 p) :
    p ++ items = (groups fires p items).flatten ++ pending fires p items ∧
      (∀ group ∈ groups fires p items, Group fires group) ∧
      Silent fires 0 (pending fires p items) := by
  induction items generalizing p with
  | nil => simp [groups, pending, h]
  | cons a rest ih =>
    cases hfires : fires a (p.length + 1) with
    | true =>
      obtain ⟨hsplit, hgroups, hsilent⟩ := ih (p := []) (silent_nil fires 0)
      have hfirst : Group fires (p ++ [a]) := ⟨p, a, rfl, h, hfires⟩
      simp only [groups, pending, hfires, if_true]
      refine ⟨?_, List.forall_mem_cons.mpr ⟨hfirst, hgroups⟩, hsilent⟩
      rw [List.flatten_cons, List.append_assoc, ← hsplit]
      simp
    | false =>
      have hnext : Silent fires 0 (p ++ [a]) :=
        silent_append.mpr ⟨h, silent_cons.mpr ⟨by simpa using hfires, silent_nil fires _⟩⟩
      simpa [groups, pending, hfires] using ih hnext

theorem pending_of_groups_nil {items : List α} (h : groups fires [] items = []) :
    pending fires [] items = items := by
  obtain ⟨hsplit, -, -⟩ := groups_sound items (silent_nil fires 0)
  rw [h] at hsplit
  exact hsplit.symm

/-- A group at the front of the items is handed on first. -/
theorem groups_of_group {group : List α} (h : Group fires group) (items : List α) :
    groups fires [] (group ++ items) = group :: groups fires [] items ∧
      pending fires [] (group ++ items) = pending fires [] items := by
  obtain ⟨front, a, rfl, hsilent, hfires⟩ := h
  obtain ⟨hpending, hgroups⟩ := pending_of_silent (p := []) hsilent
  have hsplit : front ++ [a] ++ items = front ++ a :: items := by simp
  rw [hsplit, groups_append, pending_append, hgroups, hpending]
  simp [groups, pending, hfires]

/-- Items cut into groups and a silent rest are handed on in just these groups. -/
theorem groups_complete (parts : List (List α)) (rest : List α)
    (hparts : ∀ group ∈ parts, Group fires group) (hrest : Silent fires 0 rest) :
    groups fires [] (parts.flatten ++ rest) = parts ∧
      pending fires [] (parts.flatten ++ rest) = rest := by
  induction parts with
  | nil => simpa using (pending_of_silent (p := []) hrest).symm
  | cons group parts ih =>
    obtain ⟨hgroup, hparts⟩ := List.forall_mem_cons.mp hparts
    obtain ⟨hgroups, hpending⟩ := groups_of_group hgroup (parts.flatten ++ rest)
    obtain ⟨ihgroups, ihpending⟩ := ih hparts
    rw [List.flatten_cons, List.append_assoc, hgroups, hpending, ihgroups, ihpending]
    exact ⟨rfl, rfl⟩

/-- The groups are the stretches that begin where a group ends and fire at
their end for the first time. -/
theorem mem_groups_iff {group items : List α} :
    group ∈ groups fires [] items ↔
      ∃ (parts : List (List α)) (back : List α), items = parts.flatten ++ (group ++ back) ∧
        (∀ part ∈ parts, Group fires part) ∧ Group fires group := by
  constructor
  · intro hgroup
    obtain ⟨hsplit, hgroups, -⟩ := groups_sound items (silent_nil fires 0)
    obtain ⟨front, back, hparts⟩ := List.append_of_mem hgroup
    refine ⟨front, back.flatten ++ pending fires [] items, ?_, ?_, hgroups group hgroup⟩
    · rw [hparts] at hsplit
      simpa using hsplit
    · intro part hpart
      exact hgroups part (by rw [hparts]; exact List.mem_append_left _ hpart)
  · rintro ⟨parts, back, rfl, hparts, hgroup⟩
    obtain ⟨hfirst, hrest⟩ := groups_complete parts [] hparts (silent_nil fires 0)
    rw [List.append_nil] at hfirst hrest
    rw [groups_append, hrest, (groups_of_group hgroup back).1]
    exact List.mem_append_right _ (List.mem_cons_self ..)

theorem groups_map {β : Type*} (g : β → α) (items : List β) (held : List β) :
    groups fires (held.map g) (items.map g) =
      (groups (fires ∘ g) held items).map (List.map g) := by
  induction items generalizing held with
  | nil => rfl
  | cons b rest ih =>
    have hnext := ih (held ++ [b])
    rw [List.map_append, List.map_singleton] at hnext
    have hdone := ih []
    rw [List.map_nil] at hdone
    simp only [List.map_cons, groups, List.length_map, Function.comp_apply, hnext, hdone]
    split <;> simp

theorem pending_map {β : Type*} (g : β → α) (items : List β) (held : List β) :
    pending fires (held.map g) (items.map g) = (pending (fires ∘ g) held items).map g := by
  induction items generalizing held with
  | nil => rfl
  | cons b rest ih =>
    simp only [List.map_cons, pending, List.length_map, Function.comp_apply]
    rw [← ih]
    split <;> simp

theorem silent_map {β : Type*} (g : β → α) {start : Nat} {items : List β} :
    Silent fires start (items.map g) ↔ Silent (fires ∘ g) start items := by
  induction items generalizing start with
  | nil => simp [silent_nil]
  | cons b rest ih => rw [List.map_cons, silent_cons, silent_cons, ih, Function.comp_apply]

end OneKey

section Uniform

/-! Items that agree on the size of a full group: an item fires when it is
marked and the entry has `n` items with it. -/

variable {fires : α → Nat → Bool} {marked : α → Bool} {n : Nat} {p items : List α}

def Uniform (fires : α → Nat → Bool) (marked : α → Bool) (n : Nat) (items : List α) : Prop :=
  ∀ a ∈ items, ∀ size, fires a size = (marked a && decide (size = n))

theorem Uniform.sublist {first second : List α} (h : Uniform fires marked n second)
    (hsub : first.Sublist second) : Uniform fires marked n first :=
  fun a ha => h a (hsub.subset ha)

/-- Fewer items than a group needs. -/
theorem Uniform.short {start : Nat} (h : Uniform fires marked n items)
    (hlen : start + items.length < n) : Silent fires start items := by
  rintro front a back rfl
  simp only [List.length_append, List.length_cons] at hlen
  rw [h a (by simp), decide_eq_false (by omega), Bool.and_false]

/-- An entry that is already too long never fires again. -/
theorem Uniform.overfull {start : Nat} (h : Uniform fires marked n items) (hlen : n ≤ start) :
    Silent fires start items := by
  rintro front a back rfl
  rw [h a (by simp), decide_eq_false (by omega), Bool.and_false]

/-- `n` items are a group when the final one is marked. -/
theorem Uniform.group {front : List α} {a : α} (h : Uniform fires marked n (front ++ [a]))
    (hlen : front.length + 1 = n) (hmarked : marked a = true) : Group fires (front ++ [a]) := by
  refine ⟨front, a, rfl, ?_, ?_⟩
  · exact (h.sublist (List.sublist_append_left ..)).short (by omega)
  · rw [h a (by simp), hmarked, decide_eq_true hlen, Bool.and_true]

/-- Without the mark the `n`-th item gets the entry stuck. -/
theorem Uniform.stuck {front back : List α} {a : α}
    (h : Uniform fires marked n (front ++ a :: back)) (hlen : front.length + 1 = n)
    (hmarked : marked a = false) : Silent fires 0 (front ++ a :: back) := by
  rw [silent_append, silent_cons]
  refine ⟨?_, ?_, ?_⟩
  · exact (h.sublist (List.sublist_append_left ..)).short (by omega)
  · rw [h a (by simp), hmarked, Bool.false_and]
  · have hback := h.sublist ((List.sublist_cons_self a back).trans (List.sublist_append_right ..))
    exact hback.overfull (by omega)

/-- Items that are no more than a group needs. -/
theorem Uniform.at_most {a : α} (h : Uniform fires marked n (items ++ [a]))
    (hlen : items.length + 1 ≤ n) :
    groups fires [] (items ++ [a]) =
        (if items.length + 1 = n ∧ marked a = true then [items ++ [a]] else []) ∧
      pending fires [] (items ++ [a]) =
        if items.length + 1 = n ∧ marked a = true then [] else items ++ [a] := by
  by_cases hfull : items.length + 1 = n
  · cases hmarked : marked a with
    | true => simpa [hfull, groups, pending] using groups_of_group (h.group hfull hmarked) []
    | false =>
      have hsilent : Silent fires 0 (items ++ [a]) := h.stuck hfull hmarked
      simpa [hfull] using (pending_of_silent (p := []) hsilent).symm
  · have hsilent : Silent fires 0 (items ++ [a]) :=
      h.short (by simp only [List.length_append, List.length_singleton]; omega)
    simpa [hfull] using (pending_of_silent (p := []) hsilent).symm

end Uniform

section Keyed

/-- The entry of a key; an absent entry is an empty one. -/
def entry (m : κ → Option (List α)) (k : κ) : List α := (m k).getD []

def Tidy (m : κ → Option (List α)) (k : κ) : Prop := m k ≠ some []

theorem Tidy.none_iff {m : κ → Option (List α)} {k : κ} (h : Tidy m k) :
    m k = none ↔ entry m k = [] := by
  unfold entry
  cases hk : m k with
  | none => simp
  | some items =>
    have hne := h
    rw [Tidy, hk] at hne
    simpa using hne

variable [DecidableEq κ] (key : α → κ) (fires : α → Nat → Bool)

/-- `map[key(a)].push_back(a)`, and the erasure when the item fires. -/
def handle (m : κ → Option (List α)) (a : α) : (κ → Option (List α)) × Option (List α) :=
  if fires a ((entry m (key a)).length + 1) then
    (Function.update m (key a) none, some (entry m (key a) ++ [a]))
  else (Function.update m (key a) (some (entry m (key a) ++ [a])), none)

def buffer (m : κ → Option (List α)) (items : List α) : κ → Option (List α) :=
  items.foldl (fun m a => (handle key fires m a).1) m

def output (m : κ → Option (List α)) : List α → List (κ × List α)
  | [] => []
  | a :: rest =>
    ((handle key fires m a).2.map (key a, ·)).toList ++ output (handle key fires m a).1 rest

variable {key fires} {m : κ → Option (List α)}

theorem handle_of_fires {a : α} (h : fires a ((entry m (key a)).length + 1) = true) :
    handle key fires m a = (Function.update m (key a) none, some (entry m (key a) ++ [a])) := by
  unfold handle
  rw [if_pos h]

theorem handle_of_silent {a : α} (h : fires a ((entry m (key a)).length + 1) = false) :
    handle key fires m a = (Function.update m (key a) (some (entry m (key a) ++ [a])), none) := by
  unfold handle
  rw [if_neg (by simp [h])]

/-- What is handed on depends on the entry of the item only. -/
theorem handle_congr {m' : κ → Option (List α)} {a : α}
    (h : entry m (key a) = entry m' (key a)) :
    (handle key fires m a).2 = (handle key fires m' a).2 := by
  unfold handle
  rw [h]
  split <;> rfl

theorem buffer_cons (a : α) (rest : List α) :
    buffer key fires m (a :: rest) = buffer key fires (handle key fires m a).1 rest := rfl

theorem output_append (first second : List α) :
    output key fires m (first ++ second) =
      output key fires m first ++ output key fires (buffer key fires m first) second := by
  induction first generalizing m with
  | nil => rfl
  | cons a rest ih => simp only [List.cons_append, output, ih, buffer_cons, List.append_assoc]

theorem output_concat (items : List α) (a : α) :
    output key fires m (items ++ [a]) =
      output key fires m items ++
        ((handle key fires (buffer key fires m items) a).2.map (key a, ·)).toList := by
  rw [output_append, output, output, List.append_nil]

theorem tidy_handle {k : κ} (h : Tidy m k) (a : α) : Tidy (handle key fires m a).1 k := by
  unfold Tidy at *
  by_cases hfires : fires a ((entry m (key a)).length + 1) = true
  · rw [handle_of_fires hfires]
    by_cases hk : k = key a
    · simp [hk]
    · simpa [hk] using h
  · rw [handle_of_silent (by simpa using hfires)]
    by_cases hk : k = key a
    · simp [hk]
    · simpa [hk] using h

theorem tidy_buffer {k : κ} (h : Tidy m k) (items : List α) :
    Tidy (buffer key fires m items) k := by
  induction items generalizing m with
  | nil => exact h
  | cons a rest ih => exact ih (tidy_handle h a)

/-- An item of another key leaves an entry alone. -/
theorem entry_handle_other {a : α} {k : κ} (hk : k ≠ key a) :
    entry (handle key fires m a).1 k = entry m k := by
  unfold handle entry
  split <;> simp [hk]

/-- The entry of a key is what the items of that key leave pending. -/
theorem entry_buffer (items : List α) (k : κ) :
    entry (buffer key fires m items) k =
      pending fires (entry m k) (items.filter (key · = k)) := by
  induction items generalizing m with
  | nil => rfl
  | cons a rest ih =>
    rw [buffer_cons, ih]
    by_cases hk : key a = k
    · subst hk
      rw [List.filter_cons_of_pos (by simp), pending]
      cases hfires : fires a ((entry m (key a)).length + 1) with
      | true => simp [handle_of_fires hfires, entry]
      | false => simp [handle_of_silent hfires, entry]
    · rw [entry_handle_other (Ne.symm hk), List.filter_cons_of_neg (by simpa using hk)]

/-- The groups of a key are those of the items with that key. -/
theorem groups_of_key (key : α → κ) (fires : α → Nat → Bool) (m : κ → Option (List α))
    (items : List α) (k : κ) :
    ((output key fires m items).filter (·.1 = k)).map Prod.snd =
      groups fires (entry m k) (items.filter (key · = k)) := by
  induction items generalizing m with
  | nil => rfl
  | cons a rest ih =>
    rw [output, List.filter_append, List.map_append, ih]
    by_cases hk : key a = k
    · subst hk
      rw [List.filter_cons_of_pos (by simp), groups]
      cases hfires : fires a ((entry m (key a)).length + 1) with
      | true => simp [handle_of_fires hfires, entry]
      | false => simp [handle_of_silent hfires, entry]
    · rw [entry_handle_other (Ne.symm hk), List.filter_cons_of_neg (by simpa using hk)]
      cases (handle key fires m a).2 with
      | none => simp
      | some group => simp [hk]

/-- Groups are handed on for keys that occur. -/
theorem key_of_output {items : List α} {part : κ × List α}
    (h : part ∈ output key fires m items) : ∃ a ∈ items, key a = part.1 := by
  induction items generalizing m with
  | nil => cases h
  | cons b rest ih =>
    rw [output, List.mem_append] at h
    rcases h with hfirst | hrest
    · rw [Option.mem_toList, Option.map_eq_some_iff] at hfirst
      obtain ⟨group, -, rfl⟩ := hfirst
      exact ⟨b, List.mem_cons_self .., rfl⟩
    · obtain ⟨a, ha, hkey⟩ := ih hrest
      exact ⟨a, List.mem_cons_of_mem _ ha, hkey⟩

theorem mem_output_iff {items : List α} {k : κ} {group : List α} :
    (k, group) ∈ output key fires m items ↔
      group ∈ groups fires (entry m k) (items.filter (key · = k)) := by
  rw [← groups_of_key, List.mem_map]
  constructor
  · exact fun h => ⟨(k, group), List.mem_filter.mpr ⟨h, by simp⟩, rfl⟩
  · rintro ⟨part, hpart, rfl⟩
    obtain ⟨hmem, hk⟩ := List.mem_filter.mp hpart
    have hkey : part.1 = k := by simpa using hk
    rwa [← hkey]

/-- From an empty entry, a group is one of items with its key. -/
theorem output_sound {items : List α} {part : κ × List α}
    (h : part ∈ output key fires m items) (hm : entry m part.1 = []) :
    Group fires part.2 ∧ ∀ a ∈ part.2, a ∈ items ∧ key a = part.1 := by
  have hgroup := mem_output_iff.mp h
  rw [hm] at hgroup
  obtain ⟨hsplit, hgroups, -⟩ := groups_sound (items.filter (key · = part.1)) (silent_nil fires 0)
  refine ⟨hgroups _ hgroup, fun a ha => ?_⟩
  have hmem : a ∈ items.filter (key · = part.1) := by
    rw [← List.nil_append (items.filter _), hsplit]
    exact List.mem_append_left _ (List.mem_flatten.mpr ⟨_, hgroup, ha⟩)
  simpa using hmem

/-- The number of groups of a key. -/
theorem count_output (items : List α) (k : κ) :
    ((output key fires m items).map Prod.fst).count k =
      (groups fires (entry m k) (items.filter (key · = k))).length := by
  rw [← groups_of_key, List.length_map, List.count, List.countP_map, List.countP_eq_length_filter]
  rfl

/-- With one key only, there is nothing but its groups. -/
theorem output_of_one_key {items : List α} {k : κ} (h : ∀ a ∈ items, key a = k) :
    output key fires m items = (groups fires (entry m k) items).map (k, ·) := by
  have hitems : items.filter (key · = k) = items :=
    List.filter_eq_self.mpr fun a ha => by simp [h a ha]
  have hkeys : ∀ part ∈ output key fires m items, part.1 = k := by
    intro part hpart
    obtain ⟨a, ha, hkey⟩ := key_of_output hpart
    rw [← hkey, h a ha]
  have hparts : (output key fires m items).filter (·.1 = k) = output key fires m items :=
    List.filter_eq_self.mpr fun part hpart => by simp [hkeys part hpart]
  have hgroups := groups_of_key key fires m items k
  rw [hparts, hitems] at hgroups
  calc output key fires m items
      = (output key fires m items).map id := (List.map_id _).symm
    _ = (output key fires m items).map (Prod.mk k ∘ Prod.snd) :=
        List.map_congr_left fun part hpart => Prod.ext (hkeys part hpart) rfl
    _ = (groups fires (entry m k) items).map (Prod.mk k) := by rw [← List.map_map, hgroups]

/-- Items that carry more than the map looks at. -/
theorem output_map {β : Type*} (g : β → α) (seen : κ → Option (List β)) (items : List β) :
    output key fires (fun k => (seen k).map (List.map g)) (items.map g) =
      (output (key ∘ g) (fires ∘ g) seen items).map fun part => (part.1, part.2.map g) := by
  induction items generalizing seen with
  | nil => rfl
  | cons b rest ih =>
    have hentry : entry (fun k => (seen k).map (List.map g)) (key (g b)) =
        (entry seen (key (g b))).map g := by
      cases hseen : seen (key (g b)) <;> simp [entry, hseen]
    have hupdate : ∀ value : Option (List β),
        Function.update (fun k => (seen k).map (List.map g)) (key (g b))
          (value.map (List.map g)) =
        fun k => (Function.update seen (key (g b)) value k).map (List.map g) := by
      intro value
      funext k
      by_cases hk : k = key (g b) <;> simp [hk]
    rw [List.map_cons, output, output, List.map_append, ← ih]
    cases hfires : fires (g b) ((entry seen (key (g b))).length + 1) with
    | true =>
      have hseen : (fires ∘ g) b ((entry seen ((key ∘ g) b)).length + 1) = true := hfires
      rw [handle_of_fires (by simpa [hentry] using hfires), handle_of_fires hseen]
      simpa [hentry] using congrArg (output key fires · (rest.map g)) (hupdate none)
    | false =>
      have hseen : (fires ∘ g) b ((entry seen ((key ∘ g) b)).length + 1) = false := hfires
      rw [handle_of_silent (by simpa [hentry] using hfires), handle_of_silent hseen]
      simpa [hentry] using congrArg (output key fires · (rest.map g))
        (hupdate (some (entry seen (key (g b)) ++ [b])))

end Keyed

end MediaStream.Lib.Collector
