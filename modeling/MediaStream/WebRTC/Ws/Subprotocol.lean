import MediaStream.Lib.TokenList
import Mathlib.Data.List.TakeDrop
import Mathlib.Data.List.Nodup

/-!
`ws/lib/subprotocol.js`: the scan of the `Sec-WebSocket-Protocol` header for the
subprotocols that a client offers. The characters are those that Node makes from
the bytes of a header, one for each byte.
-/

namespace MediaStream.WebRTC.Ws.Subprotocol

open Lib

/-- The table of `validation.js`. -/
def tokenChars : List Nat := [
  0, 0, 0, 0, 0, 0, 0, 0, 0, 0, 0, 0, 0, 0, 0, 0,
  0, 0, 0, 0, 0, 0, 0, 0, 0, 0, 0, 0, 0, 0, 0, 0,
  0, 1, 0, 1, 1, 1, 1, 1, 0, 0, 1, 1, 0, 1, 1, 0,
  1, 1, 1, 1, 1, 1, 1, 1, 1, 1, 0, 0, 0, 0, 0, 0,
  0, 1, 1, 1, 1, 1, 1, 1, 1, 1, 1, 1, 1, 1, 1, 1,
  1, 1, 1, 1, 1, 1, 1, 1, 1, 1, 1, 0, 0, 0, 1, 1,
  1, 1, 1, 1, 1, 1, 1, 1, 1, 1, 1, 1, 1, 1, 1, 1,
  1, 1, 1, 1, 1, 1, 1, 1, 1, 1, 1, 0, 1, 0, 1, 0]

inductive SyntaxError where
  | unexpectedCharacter (i : Nat)
  | duplicated (protocol : List Char)
  | unexpectedEnd
  deriving DecidableEq

def SyntaxError.message : SyntaxError → List Char
  | .unexpectedCharacter i => "Unexpected character at index ".toList ++ Nat.toDigits 10 i
  | .duplicated protocol =>
    "The \"".toList ++ protocol ++ "\" subprotocol is duplicated".toList
  | .unexpectedEnd => "Unexpected end of input".toList

/-- The variables of the loop; `none` stands for -1. -/
structure Scan where
  protocols : List (List Char)
  start : Option Nat
  stop : Option Nat
  deriving DecidableEq

def slice (header : List Char) (start stop : Nat) : List Char := (header.take stop).drop start

def add (protocols : List (List Char)) (protocol : List Char) :
    Except SyntaxError (List (List Char)) :=
  if protocol ∈ protocols then .error (.duplicated protocol) else .ok (protocols ++ [protocol])

namespace Scan

def init : Scan := ⟨[], none, none⟩

def step (header : List Char) (i : Nat) (code : Char) (s : Scan) : Except SyntaxError Scan :=
  if s.stop = none ∧ tokenChars[code.toNat]? = some 1 then
    .ok (if s.start = none then { s with start := some i } else s)
  else if i ≠ 0 ∧ (code = ' ' ∨ code = '\t') then
    .ok (if s.stop = none ∧ s.start ≠ none then { s with stop := some i } else s)
  else if code = ',' then
    match s.start with
    | none => .error (.unexpectedCharacter i)
    | some start =>
      (add s.protocols (slice header start (s.stop.getD i))).map fun protocols =>
        ⟨protocols, none, none⟩
  else .error (.unexpectedCharacter i)

/-- What comes after the loop. -/
def finish (header : List Char) (s : Scan) : Except SyntaxError (List (List Char)) :=
  match s.start, s.stop with
  | some start, none => add s.protocols (slice header start header.length)
  | _, _ => .error .unexpectedEnd

def loop (header : List Char) : Nat → List Char → Scan → Except SyntaxError (List (List Char))
  | _, [], s => s.finish header
  | i, code :: rest, s =>
    match s.step header i code with
    | .ok s' => loop header (i + 1) rest s'
    | .error e => .error e

end Scan

def parse (header : List Char) : Except SyntaxError (List (List Char)) :=
  Scan.init.loop header 0 header

/-- What the scan has for tokens, blanks and commas. -/
def grammar : TokenList Char where
  token c := tokenChars[c.toNat]? = some 1
  blank c := c = ' ' ∨ c = '\t'
  comma := ','
  not_blank := by
    rintro c h (rfl | rfl) <;> revert h <;> decide
  comma_not_token := by decide
  comma_not_blank := by decide

theorem add_ok {protocols after : List (List Char)} {protocol : List Char} :
    add protocols protocol = .ok after ↔
      protocol ∉ protocols ∧ after = protocols ++ [protocol] := by
  unfold add
  split
  · next h => simp [h]
  · next h => simp [h, eq_comm]

theorem slice_succ {header before rest : List Char} {code : Char} {start : Nat}
    (h : header = before ++ code :: rest) (hstart : start ≤ before.length) :
    slice header start (before.length + 1) = slice header start before.length ++ [code] := by
  unfold slice
  have hlong : header.take (before.length + 1) = before ++ [code] := by
    rw [h, List.take_length_add_append]
    rfl
  have hshort : header.take before.length = before := by
    rw [h, List.take_left]
  rw [hlong, hshort, List.drop_append_of_le_length hstart]

namespace Scan

/-- What may come from index `i` on, and the tokens it adds. -/
def Ahead (header : List Char) (i : Nat) : Scan → List Char → List (List Char) → Prop
  | ⟨_, none, _⟩, text, ts => if i = 0 then grammar.Listed text ts else grammar.Opening text ts
  | ⟨_, some start, none⟩, text, ts => grammar.Listed (slice header start i ++ text) ts
  | ⟨_, some start, some stop⟩, text, ts => grammar.Closing (slice header start stop) text ts

/-- Where the loop can be at index `i`. -/
inductive At (header : List Char) (i : Nat) : Scan → Prop
  | opening {protocols : List (List Char)} : At header i ⟨protocols, none, none⟩
  | inside {protocols : List (List Char)} {start : Nat} (hstart : start < i)
      (htoken : grammar.IsToken (slice header start i)) : At header i ⟨protocols, some start, none⟩
  | closing {protocols : List (List Char)} {start stop : Nat} (hi : i ≠ 0)
      (htoken : grammar.IsToken (slice header start stop)) :
      At header i ⟨protocols, some start, some stop⟩

/-- What a text can add to what was read, with all tokens of the list. -/
def Lists (header : List Char) (i : Nat) (s : Scan) (text : List Char)
    (ts : List (List Char)) : Prop :=
  ∃ later, ts = s.protocols ++ later ∧ s.Ahead header i text later

/-- A step keeps what can be added behind the character, or says why there is nothing. -/
def Agrees (header : List Char) (i : Nat) (s : Scan) (code : Char) :
    Except SyntaxError Scan → Prop
  | .ok s' => At header (i + 1) s' ∧
    ∀ text ts, s.Lists header i (code :: text) ts ↔ s'.Lists header (i + 1) text ts
  | .error (.unexpectedCharacter j) => j = i ∧ ∀ text ts, ¬s.Lists header i (code :: text) ts
  | .error (.duplicated t) => t ∈ s.protocols ∧
    (∃ text ts, s.Lists header i (code :: text) ts) ∧
    ∀ text ts, s.Lists header i (code :: text) ts → ∃ later, ts = s.protocols ++ t :: later
  | .error .unexpectedEnd => False

variable {header : List Char} {i : Nat} {s : Scan} {code : Char} {text : List Char}

theorem not_lists (h : ∀ ts, ¬s.Ahead header i text ts) (ts : List (List Char)) :
    ¬s.Lists header i text ts := by
  rintro ⟨later, -, hahead⟩
  exact h later hahead

theorem lists_iff {s' : Scan} (hprotocols : s'.protocols = s.protocols)
    (h : ∀ ts, s.Ahead header i (code :: text) ts ↔ s'.Ahead header (i + 1) text ts)
    (ts : List (List Char)) :
    s.Lists header i (code :: text) ts ↔ s'.Lists header (i + 1) text ts := by
  unfold Lists
  simp only [hprotocols, h]

theorem listed_one : grammar.Listed ['a'] [['a']] := by
  have htoken : grammar.token 'a' := rfl
  exact .last ⟨List.cons_ne_nil _ _, List.forall_mem_singleton.mpr htoken⟩

theorem opening_one : grammar.Opening ['a'] [['a']] :=
  ⟨[], ['a'], rfl, TokenList.blanks_nil, listed_one⟩

/-- A token ends at a comma. -/
theorem agrees_comma {protocols : List (List Char)} {start : Option Nat} {stop : Option Nat}
    {t : List Char} (h : ∀ text ts,
      (⟨protocols, start, stop⟩ : Scan).Ahead header i (',' :: text) ts ↔
        grammar.Closing t (',' :: text) ts) :
    Agrees header i ⟨protocols, start, stop⟩ ','
      ((add protocols t).map fun protocols => ⟨protocols, none, none⟩) := by
  have hahead : ∀ text ts, (⟨protocols, start, stop⟩ : Scan).Ahead header i (',' :: text) ts ↔
      ∃ later, ts = t :: later ∧ grammar.Opening text later := fun text ts =>
    (h text ts).trans TokenList.closing_comma
  unfold add
  split
  · next hmem =>
    refine ⟨hmem, ⟨['a'], _, _, rfl, (hahead _ _).mpr ⟨_, rfl, opening_one⟩⟩, ?_⟩
    rintro text ts ⟨_, hts, hclosing⟩
    obtain ⟨later, rfl, -⟩ := (hahead text _).mp hclosing
    exact ⟨later, hts⟩
  · refine ⟨.opening, fun text ts => ?_⟩
    constructor
    · rintro ⟨_, hts, hclosing⟩
      obtain ⟨later, rfl, hopening⟩ := (hahead text _).mp hclosing
      exact ⟨later, by rw [hts]; simp, hopening⟩
    · rintro ⟨later, hts, hopening⟩
      exact ⟨t :: later, by rw [hts]; simp, (hahead _ _).mpr ⟨later, rfl, hopening⟩⟩

theorem not_listed_of_head {c : Char} {ts : List (List Char)} (h : ¬grammar.token c) :
    ¬grammar.Listed (c :: text) ts := by
  intro hlisted
  obtain ⟨a, rest, heq, ha⟩ := hlisted.head
  exact h ((List.cons.inj heq).1 ▸ ha)

theorem not_ahead_opening {protocols : List (List Char)} {stop : Option Nat} {ts : List (List Char)}
    (htoken : ¬grammar.token code) (hblank : i ≠ 0 → ¬grammar.blank code) :
    ¬(⟨protocols, none, stop⟩ : Scan).Ahead header i (code :: text) ts := by
  unfold Ahead
  by_cases hi : i = 0
  · simpa [hi] using not_listed_of_head htoken
  · simpa [hi] using TokenList.not_opening htoken (hblank hi)

theorem ahead_inside {protocols : List (List Char)} {start : Nat} {ts : List (List Char)}
    (ht : grammar.IsToken (slice header start i)) (htoken : ¬grammar.token code) :
    (⟨protocols, some start, none⟩ : Scan).Ahead header i (code :: text) ts ↔
      grammar.Closing (slice header start i) (code :: text) ts := by
  have hend : ∀ a rest, code :: text = a :: rest → ¬grammar.token a := by
    rintro a rest heq
    exact (List.cons.inj heq).1 ▸ htoken
  simpa [Ahead] using @TokenList.listed_iff _ grammar _ _ ts ht hend

theorem agrees_token (hat : At header i s)
    (hnext : ∀ start ≤ i, slice header start (i + 1) = slice header start i ++ [code])
    (hstop : s.stop = none) (htoken : grammar.token code) :
    Agrees header i s code (.ok (if s.start = none then { s with start := some i } else s)) := by
  cases hat with
  | opening =>
    have hone : slice header i (i + 1) = [code] := by
      rw [hnext i (Nat.le_refl i)]
      simp [slice]
    rw [if_pos rfl]
    refine ⟨.inside (Nat.lt_succ_self i) ?_, fun text => lists_iff rfl fun ts => ?_⟩
    · rw [hone]
      exact ⟨by simp, by simpa using htoken⟩
    · simp only [Ahead, hone, List.singleton_append]
      split
      · rfl
      · exact TokenList.opening_token htoken
  | inside hstart ht =>
    rw [if_neg (by simp)]
    have hlater := hnext _ (Nat.le_of_lt hstart)
    refine ⟨.inside (Nat.lt_succ_of_lt hstart) ?_, fun text => lists_iff rfl fun ts => ?_⟩
    · rw [hlater]
      refine ⟨by simp, ?_⟩
      simpa [or_imp, forall_and] using ⟨ht.2, htoken⟩
    · simp only [Ahead, hlater, List.append_assoc, List.singleton_append]
  | closing hzero ht => cases hstop

theorem agrees_blank (hat : At header i s) (hzero : i ≠ 0) (hblank : grammar.blank code) :
    Agrees header i s code
      (.ok (if s.stop = none ∧ s.start ≠ none then { s with stop := some i } else s)) := by
  have hcode : ¬grammar.token code := fun h => grammar.not_blank code h hblank
  cases hat with
  | opening =>
    rw [if_neg (by simp)]
    refine ⟨.opening, fun text => lists_iff rfl fun ts => ?_⟩
    simpa [Ahead, hzero] using TokenList.opening_blank hblank
  | inside hstart ht =>
    rw [if_pos (by simp)]
    refine ⟨.closing (Nat.succ_ne_zero i) ht, fun text => lists_iff rfl fun ts => ?_⟩
    rw [ahead_inside ht hcode]
    exact TokenList.closing_blank hblank
  | closing _ ht =>
    rw [if_neg (by simp)]
    refine ⟨.closing (Nat.succ_ne_zero i) ht, fun text => lists_iff rfl fun ts => ?_⟩
    exact TokenList.closing_blank hblank

theorem not_lists_other (hat : At header i s) (htoken : s.stop = none → ¬grammar.token code)
    (hblank : i ≠ 0 → ¬grammar.blank code) (hcomma : code ≠ ',') (ts : List (List Char)) :
    ¬s.Lists header i (code :: text) ts := by
  refine not_lists (fun ts => ?_) ts
  cases hat with
  | opening => exact not_ahead_opening (htoken rfl) hblank
  | inside hstart ht =>
    rw [ahead_inside ht (htoken rfl)]
    exact TokenList.not_closing hcomma (hblank (Nat.ne_zero_of_lt hstart))
  | closing hzero ht => exact TokenList.not_closing hcomma (hblank hzero)

theorem agrees_step (hat : At header i s)
    (hnext : ∀ start ≤ i, slice header start (i + 1) = slice header start i ++ [code]) :
    Agrees header i s code (s.step header i code) := by
  unfold step
  split
  · next h => exact agrees_token hat hnext h.1 h.2
  · next htoken =>
    have htoken' : s.stop = none → ¬grammar.token code := fun hstop h => htoken ⟨hstop, h⟩
    split
    · next h => exact agrees_blank hat h.1 h.2
    · next hblank =>
      have hblank' : i ≠ 0 → ¬grammar.blank code := fun hzero h => hblank ⟨hzero, h⟩
      split
      · next hcomma =>
        subst hcomma
        cases hat with
        | opening =>
          refine ⟨rfl, fun text => not_lists fun ts => ?_⟩
          exact not_ahead_opening grammar.comma_not_token hblank'
        | inside hstart ht =>
          exact agrees_comma fun text ts => ahead_inside ht grammar.comma_not_token
        | closing _ ht => exact agrees_comma fun text ts => Iff.rfl
      · next hcomma => exact ⟨rfl, fun text => not_lists_other hat htoken' hblank' hcomma⟩

theorem add_nodup {protocols after : List (List Char)} {t : List Char} (h : protocols.Nodup)
    (hadd : add protocols t = .ok after) : after.Nodup := by
  obtain ⟨hnew, rfl⟩ := add_ok.mp hadd
  exact List.nodup_append.mpr ⟨h, List.nodup_singleton t, by
    rintro a ha b hb rfl
    exact hnew (List.mem_singleton.mp hb ▸ ha)⟩

theorem step_nodup {s' : Scan} (h : s.protocols.Nodup) (hstep : s.step header i code = .ok s') :
    s'.protocols.Nodup := by
  unfold step at hstep
  split at hstep
  · cases hstep
    split <;> exact h
  · split at hstep
    · cases hstep
      split <;> exact h
    · split at hstep
      · split at hstep
        · cases hstep
        · next start _ =>
          cases hadd : add s.protocols (slice header start (s.stop.getD i)) with
          | error e => rw [hadd] at hstep; cases hstep
          | ok after =>
            rw [hadd] at hstep
            cases hstep
            exact add_nodup h hadd
      · cases hstep

/-- Wherever the loop is, some text would make a list. -/
theorem exists_lists (hat : At header i s) : ∃ text ts, s.Lists header i text ts := by
  cases hat with
  | opening =>
    refine ⟨['a'], _, [['a']], rfl, ?_⟩
    simp only [Ahead]
    split
    · exact listed_one
    · exact opening_one
  | inside _ ht => exact ⟨[], _, _, rfl, by rw [Ahead, List.append_nil]; exact .last ht⟩
  | closing _ ht =>
    exact ⟨[',', 'a'], _, _, rfl, TokenList.closing_comma.mpr ⟨_, rfl, opening_one⟩⟩

/-- The end of the header is the end of a token, or there is no list. -/
theorem finish_cases (hat : At header i s) (hi : i = header.length) :
    (s.finish header = .error .unexpectedEnd ∧ ∀ ts, ¬s.Lists header i [] ts) ∨
    ∃ t, s.finish header = add s.protocols t ∧
      ∀ ts, s.Lists header i [] ts ↔ ts = s.protocols ++ [t] := by
  cases hat with
  | @opening protocols =>
    refine Or.inl ⟨rfl, not_lists fun ts hahead => ?_⟩
    simp only [Ahead] at hahead
    split at hahead
    · exact TokenList.not_listed_nil hahead
    · exact TokenList.not_opening_nil hahead
  | @inside protocols start hstart ht =>
    refine Or.inr ⟨slice header start i, by rw [hi]; rfl, fun ts => ?_⟩
    have hlast : ∀ later, Ahead header i ⟨protocols, some start, none⟩ [] later ↔
        later = [slice header start i] := by
      intro later
      have hend : ∀ a rest, [] = a :: rest → ¬grammar.token a := by
        rintro a rest heq
        cases heq
      simpa [Ahead, TokenList.not_closing_nil] using
        @TokenList.listed_iff _ grammar _ _ later ht hend
    simp only [Lists, hlast, exists_eq_right]
  | closing _ ht => exact Or.inl ⟨rfl, not_lists fun ts => TokenList.not_closing_nil⟩

end Scan

/-- Some text that begins in this way is a list. -/
def Viable (text : List Char) : Prop := ∃ more ts, grammar.Listed (text ++ more) ts

/-- What a result says about the header. -/
def Verdict (header : List Char) : Except SyntaxError (List (List Char)) → Prop
  | .ok ts => (∀ ts', grammar.Listed header ts' ↔ ts' = ts) ∧ ts.Nodup
  | .error (.unexpectedCharacter i) =>
    i < header.length ∧ Viable (header.take i) ∧ ¬Viable (header.take (i + 1))
  | .error (.duplicated t) =>
    ((∃ ts, grammar.Listed header ts) ∧ ∀ ts, grammar.Listed header ts → 1 < ts.count t) ∨
    ∃ i, Viable (header.take i) ∧
      ∀ more ts, grammar.Listed (header.take i ++ more) ts → 1 < ts.count t
  | .error .unexpectedEnd => Viable header ∧ ∀ ts, ¬grammar.Listed header ts

theorem count_twice {ts later : List (List Char)} {t : List Char} (h : t ∈ ts) :
    1 < (ts ++ t :: later).count t := by
  have hpos := List.count_pos_iff.mpr h
  rw [List.count_append, List.count_cons_self]
  omega

namespace Scan

theorem loop_verdict {header before : List Char} {i : Nat} {s : Scan} (text : List Char)
    (hat : At header i s) (hheader : header = before ++ text) (hi : i = before.length)
    (hnodup : s.protocols.Nodup)
    (hlists : ∀ more ts, grammar.Listed (before ++ more) ts ↔ s.Lists header i more ts) :
    Verdict header (s.loop header i text) := by
  induction text generalizing i s before with
  | nil =>
    rw [List.append_nil] at hheader
    subst hheader
    have hwhole : ∀ ts, grammar.Listed header ts ↔ s.Lists header i [] ts := by
      intro ts
      rw [← hlists [] ts, List.append_nil]
    show Verdict header (s.finish header)
    rcases finish_cases hat hi with ⟨herror, hnone⟩ | ⟨t, hadd, hone⟩
    · rw [herror]
      obtain ⟨more, ts, h⟩ := exists_lists hat
      exact ⟨⟨more, ts, (hlists more ts).mpr h⟩, fun ts h => hnone ts ((hwhole ts).mp h)⟩
    · have honly := fun ts => (hwhole ts).trans (hone ts)
      rw [hadd]
      cases hresult : add s.protocols t with
      | ok after =>
        obtain rfl := (add_ok.mp hresult).2
        exact ⟨honly, add_nodup hnodup hresult⟩
      | error e =>
        unfold add at hresult
        split at hresult
        · next hmem =>
          cases hresult
          refine Or.inl ⟨⟨_, (honly _).mpr rfl⟩, fun ts hts => ?_⟩
          rw [(honly ts).mp hts]
          exact count_twice hmem
        · cases hresult
  | cons code rest ih =>
    have htake : header.take i = before := by rw [hheader, hi, List.take_left]
    have htake' : header.take (i + 1) = before ++ [code] := by
      rw [hheader, hi, List.take_length_add_append]
      rfl
    have hnext : ∀ start ≤ i, slice header start (i + 1) = slice header start i ++ [code] := by
      intro start hstart
      rw [hi] at hstart ⊢
      exact slice_succ hheader hstart
    have hbehind : ∀ more ts, grammar.Listed (before ++ [code] ++ more) ts ↔
        s.Lists header i (code :: more) ts := by
      intro more ts
      rw [← hlists, List.append_assoc]
      rfl
    have hagrees := agrees_step hat hnext
    unfold loop
    cases hstep : s.step header i code with
    | ok s' =>
      rw [hstep] at hagrees
      obtain ⟨hat', hsame⟩ := hagrees
      have hheader' : header = before ++ [code] ++ rest := by rw [hheader]; simp
      refine ih hat' hheader' (by rw [hi]; simp) (step_nodup hnodup hstep) fun more ts => ?_
      exact (hbehind more ts).trans (hsame more ts)
    | error e =>
      rw [hstep] at hagrees
      cases e with
      | unexpectedCharacter j =>
        obtain ⟨rfl, hnone⟩ := hagrees
        obtain ⟨more, ts, h⟩ := exists_lists hat
        refine ⟨by rw [hheader, hi]; simp, ⟨more, ts, ?_⟩, ?_⟩
        · rw [htake]
          exact (hlists more ts).mpr h
        · rintro ⟨more, ts, h⟩
          rw [htake'] at h
          exact hnone more ts ((hbehind more ts).mp h)
      | duplicated t =>
        obtain ⟨hmem, ⟨more, ts, h⟩, htwice⟩ := hagrees
        refine Or.inr ⟨i + 1, ⟨more, ts, ?_⟩, fun more ts h => ?_⟩
        · rw [htake']
          exact (hbehind more ts).mpr h
        · rw [htake'] at h
          obtain ⟨later, rfl⟩ := htwice more ts ((hbehind more ts).mp h)
          exact count_twice hmem
      | unexpectedEnd => exact hagrees.elim

theorem loop_init (header : List Char) : Verdict header (init.loop header 0 header) := by
  refine loop_verdict header .opening (List.nil_append header).symm rfl List.nodup_nil ?_
  intro more ts
  simp [Lists, Ahead, init]

end Scan

theorem Verdict.ok_iff {header : List Char} {result : Except SyntaxError (List (List Char))}
    (h : Verdict header result) (ts : List (List Char)) :
    result = .ok ts ↔ grammar.Listed header ts ∧ ts.Nodup := by
  have hwhole : ∀ i, header.take i ++ header.drop i = header :=
    fun i => List.take_append_drop i header
  constructor
  · rintro rfl
    exact ⟨(h.1 ts).mpr rfl, h.2⟩
  rintro ⟨hlisted, hnodup⟩
  have hcount : ∀ t, ¬1 < ts.count t :=
    fun t => Nat.not_lt.mpr (List.nodup_iff_count_le_one.mp hnodup t)
  match result, h with
  | .ok ts', ⟨honly, _⟩ => rw [(honly ts).mp hlisted]
  | .error (.unexpectedCharacter i), ⟨_, _, hnot⟩ =>
    refine absurd ⟨header.drop (i + 1), ts, ?_⟩ hnot
    rwa [hwhole]
  | .error (.duplicated t), Or.inl ⟨_, htwice⟩ => exact absurd (htwice ts hlisted) (hcount t)
  | .error (.duplicated t), Or.inr ⟨i, _, htwice⟩ =>
    exact absurd (htwice (header.drop i) ts (by rwa [hwhole])) (hcount t)
  | .error .unexpectedEnd, ⟨_, hnot⟩ => exact absurd hlisted (hnot ts)

/-- A header is accepted exactly if it lists tokens, all of them different. -/
theorem parse_ok_iff (header : List Char) (ts : List (List Char)) :
    parse header = .ok ts ↔ grammar.Listed header ts ∧ ts.Nodup :=
  (Scan.loop_init header).ok_iff ts

/-- A header that is accepted lists the tokens of the result and no others, all of
them different. The index of an unexpected character is the first at which no list
can go on, the end is unexpected only where a list could have gone on, and a
subprotocol that is called duplicated is in every list that goes on there twice. -/
theorem parse_verdict (header : List Char) : Verdict header (parse header) :=
  Scan.loop_init header

example : parse "chat ,\tsuperchat".toList = .ok ["chat".toList, "superchat".toList] := by decide

end MediaStream.WebRTC.Ws.Subprotocol
