import MediaStream.WebRTC.Ws.Chunks

/-!
The frames a peer may send, apart from how they are parsed: a frame has a length
in one of three forms, and a session says which frame may come next and what it
means. The receiver reads what a session accepts.
-/

namespace MediaStream.WebRTC.Ws

open Lib Lib.Bytes

inductive LengthForm where
  | short
  | extended16
  | extended64
  deriving DecidableEq

/-- The lengths that can be given in the form. -/
def LengthForm.Fits : LengthForm → Nat → Prop
  | short, n => n ≤ 125
  | extended16, n => n < 2 ^ 16
  | extended64, n => n < 2 ^ 53

instance : ∀ (form : LengthForm) (n : Nat), Decidable (form.Fits n)
  | .short, n => inferInstanceAs (Decidable (n ≤ 125))
  | .extended16, n => inferInstanceAs (Decidable (n < 2 ^ 16))
  | .extended64, n => inferInstanceAs (Decidable (n < 2 ^ 53))

namespace LengthForm

/-- The lengths 126 and 127 say that the length follows. -/
def length7 : LengthForm → Nat → Nat
  | short, n => n
  | extended16, _ => 126
  | extended64, _ => 127

def extended : LengthForm → Nat → List UInt8
  | short, _ => []
  | extended16, n => be 2 n
  | extended64, n => be 8 n

end LengthForm

structure WireFrame where
  fin : Bool
  opcode : Nat
  /-- The masking key. -/
  key : Option (List UInt8)
  form : LengthForm
  payload : List UInt8
  opcode_lt : opcode < 16
  length_key : ∀ k ∈ key, k.length = 4
  fits : form.Fits payload.length

namespace WireFrame

def length7 (f : WireFrame) : Nat := f.form.length7 f.payload.length

def maskedPayload (f : WireFrame) : List UInt8 :=
  match f.key with
  | none => f.payload
  | some k => unmask f.payload k

def flagged (flag : Bool) (n : Nat) : UInt8 := UInt8.ofNat (n + if flag then 128 else 0)

def bytes (f : WireFrame) : List UInt8 :=
  flagged f.fin f.opcode :: flagged f.key.isSome f.length7 ::
    (f.form.extended f.payload.length ++ (f.key.getD [] ++ f.maskedPayload))

end WireFrame

namespace WireFrame

theorem flagged_clear : ∀ flag : Bool, ∀ n : Fin 128,
    (flagged flag n &&& 0x30 = 0x00 ∧ ¬flagged flag n &&& 0x40 = 0x40) ↔ n.val < 16 := by
  decide

theorem flagged_opcode : ∀ flag : Bool, ∀ n : Fin 16, (flagged flag n &&& 0x0f).toNat = n := by
  decide

theorem flagged_flag : ∀ flag : Bool, ∀ n : Fin 128,
    decide (flagged flag n &&& 0x80 = 0x80) = flag := by
  decide

theorem flagged_low : ∀ flag : Bool, ∀ n : Fin 128, (flagged flag n &&& 0x7f).toNat = n := by
  decide

/-- A byte is a flag and a number. -/
theorem exists_flagged (b : UInt8) : ∃ flag n, n < 128 ∧ b = flagged flag n := by
  have hb := b.toNat_lt
  refine ⟨128 ≤ b.toNat, b.toNat % 128, by omega, ?_⟩
  have hsum : b.toNat % 128 + (if 128 ≤ b.toNat then 128 else 0) = b.toNat := by
    split <;> omega
  simp only [flagged, decide_eq_true_eq, hsum, UInt8.ofNat_toNat]

theorem length7_lt (f : WireFrame) : f.length7 < 128 := by
  have hfits := f.fits
  unfold length7
  cases hform : f.form with
  | short =>
    rw [hform] at hfits
    exact Nat.lt_of_le_of_lt hfits (by decide)
  | extended16 => exact Nat.lt_of_sub_eq_succ rfl
  | extended64 => exact Nat.lt_of_sub_eq_succ rfl

theorem length_maskedPayload (f : WireFrame) : f.maskedPayload.length = f.payload.length := by
  unfold maskedPayload
  split
  · rfl
  · exact length_xorKey _ _

theorem flagged_inj {flag flag' : Bool} {n n' : Nat} (hn : n < 128) (hn' : n' < 128)
    (h : flagged flag n = flagged flag' n') : flag = flag' ∧ n = n' := by
  constructor
  · rw [← flagged_flag flag ⟨n, hn⟩, h, flagged_flag flag' ⟨n', hn'⟩]
  · have hlow := flagged_low flag ⟨n, hn⟩
    rw [h, flagged_low flag' ⟨n', hn'⟩] at hlow
    exact hlow.symm

theorem form_eq {form form' : LengthForm} {n n' : Nat} (hfits : form.Fits n)
    (hfits' : form'.Fits n') (h : form.length7 n = form'.length7 n') : form = form' := by
  cases form <;> cases form' <;> simp only [LengthForm.length7, LengthForm.Fits] at * <;> omega

/-- A length has one extension of its form. -/
theorem length_eq {form : LengthForm} {n n' : Nat} (hfits : form.Fits n) (hfits' : form.Fits n')
    (hseven : form.length7 n = form.length7 n') {rest rest' : List UInt8}
    (h : form.extended n ++ rest = form.extended n' ++ rest') : n = n' ∧ rest = rest' := by
  cases form with
  | short => exact ⟨hseven, h⟩
  | extended16 =>
    obtain ⟨hbytes, hrest⟩ := List.append_inj h (by simp [LengthForm.extended])
    refine ⟨?_, hrest⟩
    have hread := congrArg beNat hbytes
    simp only [LengthForm.extended] at hread
    rwa [beNat_be_of_lt hfits, beNat_be_of_lt hfits'] at hread
  | extended64 =>
    obtain ⟨hbytes, hrest⟩ := List.append_inj h (by simp [LengthForm.extended])
    refine ⟨?_, hrest⟩
    have hread := congrArg beNat hbytes
    have hwide : ∀ {m : Nat}, LengthForm.extended64.Fits m → m < 256 ^ 8 :=
      fun hm => Nat.lt_trans hm (by decide)
    simp only [LengthForm.extended] at hread
    rwa [beNat_be_of_lt (hwide hfits), beNat_be_of_lt (hwide hfits')] at hread

/-- The frame at the front of some bytes is determined by them. -/
theorem bytes_append_inj {f g : WireFrame} {more more' : List UInt8}
    (h : f.bytes ++ more = g.bytes ++ more') : f = g ∧ more = more' := by
  obtain ⟨fin, opcode, key, form, payload, hopcode, hkey, hfits⟩ := f
  obtain ⟨fin', opcode', key', form', payload', hopcode', hkey', hfits'⟩ := g
  simp only [bytes, List.cons_append, List.cons.injEq, List.append_assoc] at h
  obtain ⟨hfirst, hsecond, hrest⟩ := h
  obtain ⟨rfl, rfl⟩ := flagged_inj (by omega) (by omega) hfirst
  obtain ⟨hmasked, hseven⟩ := flagged_inj (length7_lt _) (length7_lt _) hsecond
  obtain rfl := form_eq hfits hfits' hseven
  obtain ⟨hlen, hrest⟩ := length_eq hfits hfits' hseven hrest
  cases key with
  | none =>
    cases key' with
    | none =>
      have hplain : payload ++ more = payload' ++ more' := hrest
      obtain ⟨rfl, rfl⟩ := List.append_inj hplain hlen
      exact ⟨rfl, rfl⟩
    | some k' => cases hmasked
  | some k =>
    cases key' with
    | none => cases hmasked
    | some k' =>
      have hfour : k.length = k'.length := (hkey k rfl).trans (hkey' k' rfl).symm
      obtain ⟨rfl, hpayload⟩ := List.append_inj hrest hfour
      have hsame : (unmask payload k).length = (unmask payload' k).length := by
        simpa [unmask] using hlen
      obtain ⟨hunmasked, rfl⟩ := List.append_inj hpayload hsame
      have hplain : unmask (unmask payload k) k = unmask (unmask payload' k) k :=
        congrArg (unmask · k) hunmasked
      rw [unmask_unmask, unmask_unmask] at hplain
      obtain rfl := hplain
      exact ⟨rfl, rfl⟩

end WireFrame

/-- What has come before the next frame. -/
structure Session where
  /-- The fragments of a message, binary or not, that is not complete. -/
  unfinished : Option (Bool × List UInt8)
  closed : Bool

namespace Session

def init : Session := ⟨none, false⟩

def data (o : Options) (binary : Bool) (whole : List UInt8) (fin : Bool) :
    Option (Session × List ReceiverEvent) :=
  if 0 < o.limit ∧ o.limit < whole.length then none
  else if ¬fin then some (⟨some (binary, whole), false⟩, [])
  else if binary ∨ o.skipUTF8Validation ∨ isValidUTF8 whole then
    some (init, [.message whole binary])
  else none

/-- What a close frame says. -/
def closeEvent (o : Options) (payload : List UInt8) : Option ReceiverEvent :=
  if payload = [] then some (.conclude 1005 [])
  else if payload.length = 1 then none
  else if isValidStatusCode (beNat (payload.take 2)) ∧
      (o.skipUTF8Validation ∨ isValidUTF8 (payload.drop 2)) then
    some (.conclude (beNat (payload.take 2)) (payload.drop 2))
  else none

/-- Control frames come whole, and between the fragments of a message. -/
def control (o : Options) (s : Session) (f : WireFrame) : Option (Session × List ReceiverEvent) :=
  if ¬f.fin ∨ f.form ≠ .short then none
  else
    match f.opcode with
    | 8 => (closeEvent o f.payload).map fun e => (⟨s.unfinished, true⟩, [e])
    | 9 => some (s, [.ping f.payload])
    | 10 => some (s, [.pong f.payload])
    | _ => none

/-- The frame may come next: what follows, and what it means. -/
def accept (o : Options) (s : Session) (f : WireFrame) :
    Option (Session × List ReceiverEvent) :=
  if s.closed ∨ f.key.isSome ≠ o.isServer then none
  else if f.opcode = 0 then
    match s.unfinished with
    | some (binary, sofar) => data o binary (sofar ++ f.payload) f.fin
    | none => none
  else if f.opcode = 1 ∨ f.opcode = 2 then
    match s.unfinished with
    | some _ => none
    | none => data o (f.opcode = 2) f.payload f.fin
  else s.control o f

def acceptAll (o : Options) : Session → List WireFrame → Option (Session × List ReceiverEvent)
  | s, [] => some (s, [])
  | s, f :: rest =>
    (s.accept o f).bind fun first =>
      (acceptAll o first.1 rest).map fun later => (later.1, first.2 ++ later.2)

end Session

end MediaStream.WebRTC.Ws
