import Mathlib.Data.List.Basic

/-!
Lists of tokens as header fields write them: tokens between commas, with blanks
allowed around a comma and nowhere else. The grammar is followed symbol by symbol,
by what may still come before a token, inside of it and behind it.
-/

namespace MediaStream.Lib

structure TokenList (α : Type*) where
  token : α → Prop
  blank : α → Prop
  comma : α
  not_blank : ∀ a, token a → ¬blank a
  comma_not_token : ¬token comma
  comma_not_blank : ¬blank comma

namespace TokenList

variable {α : Type*} (L : TokenList α)

def IsToken (t : List α) : Prop := t ≠ [] ∧ ∀ a ∈ t, L.token a

def Blanks (ws : List α) : Prop := ∀ a ∈ ws, L.blank a

inductive Listed : List α → List (List α) → Prop
  | last {t : List α} (ht : L.IsToken t) : Listed t [t]
  | more {t before after rest : List α} {ts : List (List α)} (ht : L.IsToken t)
      (hbefore : L.Blanks before) (hafter : L.Blanks after) (h : Listed rest ts) :
      Listed (t ++ (before ++ L.comma :: (after ++ rest))) (t :: ts)

/-- What may follow a comma. -/
def Opening (text : List α) (ts : List (List α)) : Prop :=
  ∃ ws rest, text = ws ++ rest ∧ L.Blanks ws ∧ L.Listed rest ts

/-- What may follow a blank behind the token `t`. -/
def Closing (t text : List α) (ts : List (List α)) : Prop :=
  ∃ ws rest later, text = ws ++ L.comma :: rest ∧ L.Blanks ws ∧ ts = t :: later ∧
    L.Opening rest later

variable {L} {t text : List α} {ts : List (List α)} {a : α}

theorem blanks_nil : L.Blanks [] := by
  intro a h
  cases h

theorem blanks_cons {ws : List α} : L.Blanks (a :: ws) ↔ L.blank a ∧ L.Blanks ws :=
  List.forall_mem_cons

/-- Every list begins with a token. -/
theorem Listed.head (h : L.Listed text ts) : ∃ a rest, text = a :: rest ∧ L.token a := by
  have hfirst : ∀ {t : List α} (tail : List α), L.IsToken t →
      ∃ a rest, t ++ tail = a :: rest ∧ L.token a := by
    intro t tail ht
    obtain ⟨a, rest, rfl⟩ := List.exists_cons_of_ne_nil ht.1
    exact ⟨a, rest ++ tail, rfl, ht.2 a List.mem_cons_self⟩
  cases h with
  | last ht => simpa using hfirst [] ht
  | more ht _ _ _ => exact hfirst _ ht

theorem Listed.tokens (h : L.Listed text ts) : ∀ t ∈ ts, L.IsToken t := by
  induction h with
  | last ht => exact List.forall_mem_singleton.mpr ht
  | more ht _ _ _ ih => exact List.forall_mem_cons.mpr ⟨ht, ih⟩

theorem not_listed_nil : ¬L.Listed [] ts := by
  intro h
  obtain ⟨a, rest, heq, -⟩ := h.head
  cases heq

theorem opening_blank (ha : L.blank a) : L.Opening (a :: text) ts ↔ L.Opening text ts := by
  constructor
  · rintro ⟨ws, rest, heq, hws, h⟩
    cases ws with
    | nil =>
      obtain ⟨b, tail, hrest, hb⟩ := h.head
      rw [List.nil_append, hrest] at heq
      obtain ⟨rfl, -⟩ := List.cons.inj heq
      exact absurd ha (L.not_blank a hb)
    | cons b ws =>
      obtain ⟨rfl, htext⟩ := List.cons.inj heq
      exact ⟨ws, rest, htext, (blanks_cons.mp hws).2, h⟩
  · rintro ⟨ws, rest, rfl, hws, h⟩
    exact ⟨a :: ws, rest, rfl, blanks_cons.mpr ⟨ha, hws⟩, h⟩

theorem opening_token (ha : L.token a) : L.Opening (a :: text) ts ↔ L.Listed (a :: text) ts := by
  constructor
  · rintro ⟨ws, rest, heq, hws, h⟩
    cases ws with
    | nil => rwa [heq]
    | cons b ws =>
      obtain ⟨rfl, -⟩ := List.cons.inj heq
      exact absurd (hws a List.mem_cons_self) (L.not_blank a ha)
  · exact fun h => ⟨[], a :: text, rfl, blanks_nil, h⟩

theorem not_opening_nil : ¬L.Opening [] ts := by
  rintro ⟨ws, rest, heq, -, h⟩
  obtain ⟨-, rfl⟩ := List.append_eq_nil_iff.mp heq.symm
  exact not_listed_nil h

theorem not_opening (ha : ¬L.token a) (hblank : ¬L.blank a) : ¬L.Opening (a :: text) ts := by
  rintro ⟨ws, rest, heq, hws, h⟩
  cases ws with
  | nil =>
    obtain ⟨b, tail, hrest, hb⟩ := h.head
    rw [List.nil_append, hrest] at heq
    exact ha ((List.cons.inj heq).1 ▸ hb)
  | cons b ws => exact hblank ((List.cons.inj heq).1 ▸ hws b List.mem_cons_self)

theorem closing_blank (ha : L.blank a) : L.Closing t (a :: text) ts ↔ L.Closing t text ts := by
  constructor
  · rintro ⟨ws, rest, later, heq, hws, h⟩
    cases ws with
    | nil => exact absurd ((List.cons.inj heq).1 ▸ ha) L.comma_not_blank
    | cons b ws =>
      exact ⟨ws, rest, later, (List.cons.inj heq).2, (blanks_cons.mp hws).2, h⟩
  · rintro ⟨ws, rest, later, rfl, hws, h⟩
    exact ⟨a :: ws, rest, later, rfl, blanks_cons.mpr ⟨ha, hws⟩, h⟩

theorem closing_comma :
    L.Closing t (L.comma :: text) ts ↔ ∃ later, ts = t :: later ∧ L.Opening text later := by
  constructor
  · rintro ⟨ws, rest, later, heq, hws, hts, h⟩
    cases ws with
    | nil => exact ⟨later, hts, (List.cons.inj heq).2 ▸ h⟩
    | cons b ws =>
      exact absurd ((List.cons.inj heq).1 ▸ hws b List.mem_cons_self) L.comma_not_blank
  · rintro ⟨later, hts, h⟩
    exact ⟨[], text, later, rfl, blanks_nil, hts, h⟩

theorem not_closing_nil : ¬L.Closing t [] ts := by
  rintro ⟨ws, rest, later, heq, -⟩
  cases ws <;> cases heq

theorem not_closing (hcomma : a ≠ L.comma) (hblank : ¬L.blank a) :
    ¬L.Closing t (a :: text) ts := by
  rintro ⟨ws, rest, later, heq, hws, -⟩
  cases ws with
  | nil => exact hcomma (List.cons.inj heq).1
  | cons b ws => exact hblank ((List.cons.inj heq).1 ▸ hws b List.mem_cons_self)

/-- Behind a token that cannot be longer there is nothing, or what closes it. -/
theorem listed_iff (ht : L.IsToken t) (hend : ∀ a rest, text = a :: rest → ¬L.token a) :
    L.Listed (t ++ text) ts ↔ (text = [] ∧ ts = [t]) ∨ L.Closing t text ts := by
  have hsame : ∀ {t' tail : List α}, L.IsToken t' → t ++ text = t' ++ tail →
      (∀ a rest, tail = a :: rest → ¬L.token a) → t' = t ∧ tail = text := by
    intro t' tail ht' heq htail
    rcases List.append_eq_append_iff.mp heq with ⟨more, rfl, hmore⟩ | ⟨more, rfl, hmore⟩
    · cases more with
      | nil => exact ⟨by simp, by simpa using hmore.symm⟩
      | cons b more =>
        refine absurd (ht'.2 b ?_) (hend b _ hmore)
        exact List.mem_append_right _ List.mem_cons_self
    · cases more with
      | nil => exact ⟨by simp, by simpa using hmore⟩
      | cons b more =>
        refine absurd (ht.2 b ?_) (htail b _ hmore)
        exact List.mem_append_right _ List.mem_cons_self
  have hbehind : ∀ {before rest : List α}, L.Blanks before →
      ∀ b tail, before ++ L.comma :: rest = b :: tail → ¬L.token b := by
    intro before rest hbefore b tail heq
    cases before with
    | nil => exact (List.cons.inj heq).1 ▸ L.comma_not_token
    | cons c before =>
      obtain ⟨rfl, -⟩ := List.cons.inj heq
      exact fun htoken => L.not_blank c htoken (hbefore c List.mem_cons_self)
  constructor
  · intro h
    generalize htext : t ++ text = whole at h
    cases h with
    | last ht' =>
      obtain ⟨rfl, rfl⟩ := hsame ht' (htext.trans (List.append_nil _).symm) (by simp)
      exact Or.inl ⟨rfl, rfl⟩
    | more ht' hbefore hafter h =>
      obtain ⟨rfl, rfl⟩ := hsame ht' htext (hbehind hbefore)
      exact Or.inr ⟨_, _, _, rfl, hbefore, rfl, _, _, rfl, hafter, h⟩
  · rintro (⟨rfl, rfl⟩ | ⟨ws, rest, later, rfl, hws, rfl, after, rest', rfl, hafter, h⟩)
    · rw [List.append_nil]
      exact .last ht
    · exact .more ht hws hafter h

end TokenList

end MediaStream.Lib
