import Mathlib.Data.List.Infix
import Mathlib.Data.List.Nodup
import Mathlib.Data.List.Pairwise

/-!
A batch of items sent one after the other to the members a group has at each
item. In a group that only grows, everybody gets all of the batch or nothing of
it exactly when nobody joins while it is being sent.
-/

namespace MediaStream.Lib.Multicast

variable {ι π : Type*}

def sendAll (members : List ι) (item : π) : List (ι × π) := members.map fun m => (m, item)

/-- The items of a batch, each to the members at its time. -/
def multicast (groups : List (List ι)) (items : List π) : List (ι × π) :=
  (List.zipWith sendAll groups items).flatten

theorem map_fst_sendAll (members : List ι) (item : π) :
    (sendAll members item).map Prod.fst = members := by
  rw [sendAll, List.map_map]
  exact List.map_id _

theorem multicast_cons (members : List ι) (groups : List (List ι)) (item : π) (items : List π) :
    multicast (members :: groups) (item :: items) =
      sendAll members item ++ multicast groups items := rfl

theorem multicast_concat {groups : List (List ι)} {items : List π}
    (hlen : groups.length = items.length) (members : List ι) (item : π) :
    multicast (groups ++ [members]) (items ++ [item]) =
      multicast groups items ++ sendAll members item := by
  unfold multicast
  rw [List.zipWith_append hlen, List.flatten_append]
  simp

variable [DecidableEq ι]

def received (m : ι) (sent : List (ι × π)) : List π := (sent.filter (·.1 = m)).map Prod.snd

/-- Everybody gets the whole batch or nothing of it. -/
def AllOrNothing (items : List π) (sent : List (ι × π)) : Prop :=
  ∀ m, received m sent = [] ∨ received m sent = items

variable {m : ι} {groups : List (List ι)} {items : List π}

@[simp] theorem received_append (first second : List (ι × π)) :
    received m (first ++ second) = received m first ++ received m second := by
  simp [received]

theorem received_sendAll {members : List ι} (h : members.Nodup) (item : π) :
    received m (sendAll members item) = if m ∈ members then [item] else [] := by
  have hfilter : members.filter (· = m) = if m ∈ members then [m] else [] := by
    rw [List.filter_eq, h.count]
    split <;> rfl
  unfold received sendAll
  rw [List.filter_map, List.map_map]
  change (members.filter (· = m)).map _ = _
  rw [hfilter]
  split <;> rfl

/-- A member gets as many items as there are groups it is in. -/
theorem length_received (hlen : groups.length = items.length) (hnodup : ∀ g ∈ groups, g.Nodup) :
    (received m (multicast groups items)).length = groups.countP (m ∈ ·) := by
  induction groups generalizing items with
  | nil => rfl
  | cons members groups ih =>
    cases items with
    | nil => cases hlen
    | cons item items =>
      obtain ⟨hfirst, hrest⟩ := List.forall_mem_cons.mp hnodup
      rw [multicast_cons, received_append, List.length_append, received_sendAll hfirst,
        ih (Nat.succ.inj hlen) hrest, List.countP_cons, Nat.add_comm]
      by_cases hmem : m ∈ members <;> simp [hmem]

/-- A member of every group gets the whole batch. -/
theorem received_all (hlen : groups.length = items.length) (hnodup : ∀ g ∈ groups, g.Nodup)
    (hall : ∀ g ∈ groups, m ∈ g) : received m (multicast groups items) = items := by
  induction groups generalizing items with
  | nil => exact (List.length_eq_zero_iff.mp hlen.symm).symm
  | cons members groups ih =>
    cases items with
    | nil => cases hlen
    | cons item items =>
      obtain ⟨hfirst, hrest⟩ := List.forall_mem_cons.mp hnodup
      obtain ⟨hin, hothers⟩ := List.forall_mem_cons.mp hall
      rw [multicast_cons, received_append, received_sendAll hfirst, if_pos hin,
        ih (Nat.succ.inj hlen) hrest hothers, List.singleton_append]

/-- The same of items that are listed with the members at their time. -/
theorem received_sent {sent : List (List ι × π)} (h : ∀ s ∈ sent, s.1.Nodup ∧ m ∈ s.1) :
    received m (multicast (sent.map Prod.fst) (sent.map Prod.snd)) = sent.map Prod.snd := by
  apply received_all
  · rw [List.length_map, List.length_map]
  · exact List.forall_mem_map.mpr fun s hs => (h s hs).1
  · exact List.forall_mem_map.mpr fun s hs => (h s hs).2

theorem received_eq_nil_iff (hlen : groups.length = items.length)
    (hnodup : ∀ g ∈ groups, g.Nodup) :
    received m (multicast groups items) = [] ↔ ∀ g ∈ groups, m ∉ g := by
  rw [← List.length_eq_zero_iff, length_received hlen hnodup, List.countP_eq_zero]
  simp

theorem received_eq_iff (hlen : groups.length = items.length)
    (hnodup : ∀ g ∈ groups, g.Nodup) :
    received m (multicast groups items) = items ↔ ∀ g ∈ groups, m ∈ g := by
  constructor
  · intro hwhole
    have hcount := length_received (m := m) hlen hnodup
    rw [hwhole, ← hlen, eq_comm, List.countP_eq_length] at hcount
    simpa using hcount
  · exact received_all hlen hnodup

/-- Who is in a later group and not in an earlier one gets a part of the batch. -/
theorem allOrNothing_iff (hlen : groups.length = items.length)
    (hnodup : ∀ g ∈ groups, g.Nodup) (hgrows : groups.Pairwise (· <+: ·)) :
    AllOrNothing items (multicast groups items) ↔ ∀ g ∈ groups, ∀ g' ∈ groups, g = g' := by
  constructor
  · intro hwhole g hg g' hg'
    have hsymm : Std.Symm fun g g' : List ι => g <+: g' ∨ g' <+: g := ⟨fun _ _ => Or.symm⟩
    have hchains : groups.Pairwise fun g g' => g <+: g' ∨ g' <+: g :=
      hgrows.imp fun hle => Or.inl hle
    have hself : ∀ g ∈ groups, g <+: g ∨ g <+: g := fun g _ => Or.inl List.prefix_rfl
    have hchain := hchains.forall_of_forall hself hg hg'
    have hmembers : ∀ m, m ∈ g ↔ m ∈ g' := by
      intro m
      rcases hwhole m with hnone | hall
      · have hout := (received_eq_nil_iff hlen hnodup).mp hnone
        exact iff_of_false (hout g hg) (hout g' hg')
      · have hin := (received_eq_iff hlen hnodup).mp hall
        exact iff_of_true (hin g hg) (hin g' hg')
    have hperm : g.Perm g' :=
      (List.perm_ext_iff_of_nodup (hnodup g hg) (hnodup g' hg')).mpr hmembers
    rcases hchain with hle | hle
    · exact hle.eq_of_length hperm.length_eq
    · exact (hle.eq_of_length hperm.length_eq.symm).symm
  · intro hsame m
    rw [received_eq_nil_iff hlen hnodup, received_eq_iff hlen hnodup]
    by_cases hin : ∃ g ∈ groups, m ∈ g
    · obtain ⟨g, hg, hm⟩ := hin
      exact Or.inr fun g' hg' => hsame g hg g' hg' ▸ hm
    · exact Or.inl fun g hg hm => hin ⟨g, hg, hm⟩

end MediaStream.Lib.Multicast
