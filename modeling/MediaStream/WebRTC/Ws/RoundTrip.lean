import MediaStream.WebRTC.Ws.Sender
import MediaStream.WebRTC.Ws.Sessions

/-!
What one side sends is what the other side receives: each call of a sender
writes a frame that the receiver of the other side accepts, whatever the masking
keys are, however a message is cut into fragments, and wherever the network cuts
the bytes.
-/

namespace MediaStream.WebRTC.Ws

open Lib Lib.Bytes

namespace SendOp

def key : SendOp → Option (List UInt8)
  | send _ _ _ mask | ping _ mask | pong _ mask | close _ _ mask => mask

def data : SendOp → List UInt8
  | send data .. | ping data _ | pong data _ | close _ data _ => data

/-- A client masks and a server does not, and the length can be written in 48 bits. -/
structure Fits (o : Options) (op : SendOp) : Prop where
  masked : op.key.isSome = o.isServer
  length_key : ∀ k ∈ op.key, k.length = 4
  length_data : op.data.length < 2 ^ 48

end SendOp

/-- A message with one fragment more. The first fragment says whether it is binary. -/
def extend (unfinished : Option (Bool × List UInt8)) (data : List UInt8) (binary : Bool) :
    Bool × List UInt8 :=
  match unfinished with
  | none => (binary, data)
  | some (binary, sofar) => (binary, sofar ++ data)

def said : Option (Bool × List UInt8) → List SendOp → List ReceiverEvent
  | _, [] => []
  | unfinished, .send data binary fin _ :: rest =>
    let whole := extend unfinished data binary
    if fin then .message whole.2 whole.1 :: said none rest else said (some whole) rest
  | unfinished, .ping data _ :: rest => .ping data :: said unfinished rest
  | unfinished, .pong data _ :: rest => .pong data :: said unfinished rest
  | unfinished, .close none _ _ :: rest => .conclude 1005 [] :: said unfinished rest
  | unfinished, .close (some code) data _ :: rest => .conclude code data :: said unfinished rest

/-- The messages are not too long, texts are UTF-8, and nothing follows a close frame. -/
def Readable (o : Options) : Option (Bool × List UInt8) → List SendOp → Prop
  | _, [] => True
  | unfinished, .send data binary fin _ :: rest =>
    let whole := extend unfinished data binary
    (o.limit = 0 ∨ whole.2.length ≤ o.limit) ∧
      (fin = true → whole.1 = true ∨ o.skipUTF8Validation = true ∨ isValidUTF8 whole.2 = true) ∧
      Readable o (if fin then none else some whole) rest
  | unfinished, .ping _ _ :: rest => Readable o unfinished rest
  | unfinished, .pong _ _ :: rest => Readable o unfinished rest
  | _, .close _ data _ :: rest =>
    (o.skipUTF8Validation = true ∨ isValidUTF8 data = true) ∧ rest = []

/-- The form in which `frame` writes a length. -/
def formOf (n : Nat) : LengthForm :=
  if 65536 ≤ n then .extended64 else if 125 < n then .extended16 else .short

section Frame

theorem formOf_fits {n : Nat} (h : n < 2 ^ 48) : (formOf n).Fits n := by
  unfold formOf
  split
  · exact Nat.lt_trans h (by decide)
  · next hsmall =>
    split
    · exact Nat.not_le.mp hsmall
    · next hshort => exact Nat.not_lt.mp hshort

theorem first_byte : ∀ fin : Bool, ∀ opcode : Fin 16,
    (if fin then UInt8.ofNat opcode ||| 0x80 else UInt8.ofNat opcode) =
      WireFrame.flagged fin opcode := by
  decide

theorem second_byte : ∀ n : Fin 128,
    UInt8.ofNat n ||| 0x80 = WireFrame.flagged true n := by
  decide

/-- The bytes after the first length. -/
theorem extension_eq {form : LengthForm} {n : Nat} (hfits : form.Fits n) (hlen : n < 2 ^ 48) :
    (if form.length7 n = 126 then be 2 n
      else if form.length7 n = 127 then 0 :: 0 :: be 6 n else []) = form.extended n := by
  cases form with
  | short =>
    change n ≤ 125 at hfits
    change (if n = 126 then be 2 n else if n = 127 then 0 :: 0 :: be 6 n else []) = []
    rw [if_neg (by omega), if_neg (by omega)]
  | extended16 => rfl
  | extended64 =>
    have hzero : n / 256 ^ 6 = 0 := Nat.div_eq_of_lt hlen
    change 0 :: 0 :: be 6 n = be 8 n
    rw [be_add 2 6, hzero]
    rfl

/-- `frame` writes a frame with the length in its form. -/
theorem frame_eq (f : WireFrame) (hform : f.form = formOf f.payload.length)
    (hlen : f.payload.length < 2 ^ 48) :
    Sender.frame f.payload { fin := f.fin, mask := f.key, opcode := f.opcode, rsv1 := false } =
      f.bytes := by
  have hseven : (if 65536 ≤ f.payload.length then 127 else
      if 125 < f.payload.length then 126 else f.payload.length) = f.length7 := by
    unfold WireFrame.length7 formOf at *
    rw [hform]
    split
    · rfl
    · split <;> rfl
  have hlength := extension_eq f.fits hlen
  rw [← WireFrame.length7] at hlength
  have hfirst := first_byte f.fin ⟨f.opcode, f.opcode_lt⟩
  simp only at hfirst
  unfold Sender.frame WireFrame.bytes WireFrame.maskedPayload
  simp only [hseven, hlength, hfirst, Bool.false_eq_true, if_false]
  cases hkey : f.key with
  | none => simp [WireFrame.flagged]
  | some k =>
    have hsecond := second_byte ⟨f.length7, f.length7_lt⟩
    simp only at hsecond
    simp only [hsecond, Option.isSome_some, Option.getD_some, List.cons.injEq, true_and,
      decide_eq_true_eq]
    split
    · next hzero => rw [unmask_zero hzero]
    · rfl

/-- The frame that a call writes. -/
theorem exists_frame (fin : Bool) {opcode : Nat} {key : Option (List UInt8)}
    {data : List UInt8} (hopcode : opcode < 16) (hkey : ∀ k ∈ key, k.length = 4)
    (hlen : data.length < 2 ^ 48) :
    ∃ f : WireFrame, f.fin = fin ∧ f.opcode = opcode ∧ f.key = key ∧ f.payload = data ∧
      f.form = formOf data.length ∧
      Sender.frame data { fin := fin, mask := key, opcode := opcode, rsv1 := false } = f.bytes :=
  ⟨⟨fin, opcode, key, formOf data.length, data, hopcode, hkey, formOf_fits hlen⟩, rfl, rfl, rfl,
    rfl, rfl, frame_eq ⟨fin, opcode, key, formOf data.length, data, hopcode, hkey,
      formOf_fits hlen⟩ rfl hlen⟩

end Frame

section Calls

variable {o : Options} {unfinished : Option (Bool × List UInt8)}

theorem isNone_extended (fin : Bool) (whole : Bool × List UInt8) :
    (if fin then none else some whole).isNone = fin := by
  cases fin <;> rfl

/-- A message that is not too long is accepted as data. -/
theorem data_eq {whole : Bool × List UInt8} {fin : Bool}
    (hlong : o.limit = 0 ∨ whole.2.length ≤ o.limit)
    (htext : fin = true → whole.1 = true ∨ o.skipUTF8Validation = true ∨
      isValidUTF8 whole.2 = true) :
    Session.data o whole.1 whole.2 fin =
      some (⟨if fin then none else some whole, false⟩,
        if fin then [.message whole.2 whole.1] else []) := by
  unfold Session.data
  rw [if_neg (by omega)]
  cases fin with
  | true => exact if_pos (htext rfl)
  | false => rfl

/-- The frame of a call of `send`. -/
theorem accept_send {data : List UInt8} {binary fin : Bool} {mask : Option (List UInt8)}
    (hfits : SendOp.Fits o (.send data binary fin mask))
    (hlong : o.limit = 0 ∨ (extend unfinished data binary).2.length ≤ o.limit)
    (htext : fin = true → (extend unfinished data binary).1 = true ∨
      o.skipUTF8Validation = true ∨ isValidUTF8 (extend unfinished data binary).2 = true) :
    ∃ f : WireFrame,
      Sender.send ⟨unfinished.isNone⟩ data binary fin mask = .ok (⟨fin⟩, f.bytes) ∧
      Session.accept o ⟨unfinished, false⟩ f =
        some (⟨if fin then none else some (extend unfinished data binary), false⟩,
          if fin then
            [.message (extend unfinished data binary).2 (extend unfinished data binary).1]
          else []) := by
  have hopcode : (if unfinished.isNone then if binary then 2 else 1 else 0) < 16 := by
    split
    · split <;> decide
    · decide
  obtain ⟨f, hfin, hread, hkey, hpayload, -, hbytes⟩ :=
    exists_frame fin hopcode hfits.length_key hfits.length_data
  refine ⟨f, ?_, ?_⟩
  · unfold Sender.send
    simp only [SendOp.data, SendOp.key] at hbytes
    rw [← hbytes]
  · have hopen : ¬((⟨unfinished, false⟩ : Session).closed = true ∨ f.key.isSome ≠ o.isServer) := by
      rw [hkey]
      simp [hfits.masked]
    rw [← data_eq hlong htext]
    unfold Session.accept
    rw [if_neg hopen, hread, hpayload, hfin]
    cases unfinished with
    | none => cases binary <;> rfl
    | some message => rfl

/-- A control frame is accepted between the fragments of a message. -/
theorem accept_control (unfinished : Option (Bool × List UInt8)) {opcode : Nat}
    {data : List UInt8} {mask : Option (List UInt8)} {closed : Bool} {event : ReceiverEvent}
    (hopcode : opcode = 8 ∨ opcode = 9 ∨ opcode = 10)
    (hmasked : mask.isSome = o.isServer) (hkey : ∀ k ∈ mask, k.length = 4)
    (hshort : data.length ≤ 125)
    (hmeans : ∀ f : WireFrame, f.fin = true → f.form = .short → f.opcode = opcode →
      f.payload = data → Session.control o ⟨unfinished, false⟩ f =
        some (⟨unfinished, closed⟩, [event])) :
    ∃ f : WireFrame,
      Sender.frame data { fin := true, mask := mask, opcode := opcode, rsv1 := false } = f.bytes ∧
      Session.accept o ⟨unfinished, false⟩ f = some (⟨unfinished, closed⟩, [event]) := by
  obtain ⟨f, hfin, hread, hfkey, hpayload, hform, hbytes⟩ :=
    exists_frame true (by omega : opcode < 16) hkey
      (Nat.lt_of_le_of_lt hshort (by decide))
  refine ⟨f, hbytes, ?_⟩
  have hopen : ¬((⟨unfinished, false⟩ : Session).closed = true ∨ f.key.isSome ≠ o.isServer) := by
    rw [hfkey]
    simp [hmasked]
  have hsmall : f.form = .short := by
    rw [hform, formOf, if_neg (by omega), if_neg (by omega)]
  unfold Session.accept
  rw [if_neg hopen, if_neg (by omega), if_neg (by omega)]
  exact hmeans f hfin hsmall hread hpayload

theorem control_ping {f : WireFrame} {s : Session} (hfin : f.fin = true) (hform : f.form = .short)
    (hopcode : f.opcode = 9) : s.control o f = some (s, [.ping f.payload]) := by
  unfold Session.control
  rw [if_neg (by simp [hfin, hform]), hopcode]
  rfl

theorem control_pong {f : WireFrame} {s : Session} (hfin : f.fin = true) (hform : f.form = .short)
    (hopcode : f.opcode = 10) : s.control o f = some (s, [.pong f.payload]) := by
  unfold Session.control
  rw [if_neg (by simp [hfin, hform]), hopcode]
  rfl

theorem control_close {f : WireFrame} {s : Session} {e : ReceiverEvent} (hfin : f.fin = true)
    (hform : f.form = .short) (hopcode : f.opcode = 8)
    (hmeans : Session.closeEvent o f.payload = some e) :
    s.control o f = some (⟨s.unfinished, true⟩, [e]) := by
  unfold Session.control
  rw [if_neg (by simp [hfin, hform]), hopcode]
  simp [hmeans]

theorem ping_eq {data bytes : List UInt8} {mask : Option (List UInt8)} {sender next : Sender}
    (h : sender.ping data mask = .ok (next, bytes)) : data.length ≤ 125 ∧ next = sender ∧
      bytes = Sender.frame data { fin := true, mask := mask, opcode := 9, rsv1 := false } := by
  unfold Sender.ping at h
  split at h
  · cases h
  · next hshort =>
    obtain ⟨rfl, rfl⟩ := Prod.mk.inj (Except.ok.inj h)
    exact ⟨Nat.not_lt.mp hshort, rfl, rfl⟩

theorem pong_eq {data bytes : List UInt8} {mask : Option (List UInt8)} {sender next : Sender}
    (h : sender.pong data mask = .ok (next, bytes)) : data.length ≤ 125 ∧ next = sender ∧
      bytes = Sender.frame data { fin := true, mask := mask, opcode := 10, rsv1 := false } := by
  unfold Sender.pong at h
  split at h
  · cases h
  · next hshort =>
    obtain ⟨rfl, rfl⟩ := Prod.mk.inj (Except.ok.inj h)
    exact ⟨Nat.not_lt.mp hshort, rfl, rfl⟩

/-- A close frame with a code means the code and the reason. -/
theorem closeEvent_code {code : Nat} {data : List UInt8} (hcode : isValidStatusCode code = true)
    (hvalid : o.skipUTF8Validation = true ∨ isValidUTF8 data = true) :
    Session.closeEvent o (be 2 code ++ data) = some (.conclude code data) := by
  have hsmall : code < 256 ^ 2 := by
    simp only [isValidStatusCode, Bool.or_eq_true, Bool.and_eq_true, decide_eq_true_eq] at hcode
    omega
  have htake : beNat ((be 2 code ++ data).take 2) = code := by
    rw [List.take_left' (length_be 2 code), beNat_be_of_lt hsmall]
  have hdrop : (be 2 code ++ data).drop 2 = data := List.drop_left' (length_be 2 code)
  have hlen : (be 2 code ++ data).length = data.length + 2 := by simp [Nat.add_comm]
  have hne : be 2 code ++ data ≠ [] := by
    intro hnil
    rw [hnil] at hlen
    cases hlen
  unfold Session.closeEvent
  rw [if_neg hne, if_neg (by omega), htake, hdrop, if_pos ⟨hcode, hvalid⟩]

/-- The frame of a call of `close`, and what it says. -/
theorem accept_close (unfinished : Option (Bool × List UInt8)) {code : Option Nat}
    {data bytes : List UInt8} {mask : Option (List UInt8)}
    {sender next : Sender} (hfits : SendOp.Fits o (.close code data mask))
    (hvalid : o.skipUTF8Validation = true ∨ isValidUTF8 data = true)
    (hcall : sender.close code data mask = .ok (next, bytes)) :
    ∃ (f : WireFrame) (e : ReceiverEvent), bytes = f.bytes ∧
      Session.accept o ⟨unfinished, false⟩ f = some (⟨unfinished, true⟩, [e]) ∧
      said unfinished [.close code data mask] = [e] := by
  have hbody : ∀ (body : List UInt8) (e : ReceiverEvent), body.length ≤ 125 →
      Session.closeEvent o body = some e →
      ∃ f : WireFrame,
        Sender.frame body { fin := true, mask := mask, opcode := 0x08, rsv1 := false } = f.bytes ∧
        Session.accept o ⟨unfinished, false⟩ f = some (⟨unfinished, true⟩, [e]) := by
    intro body e hshort hmeans
    apply accept_control unfinished (Or.inl rfl) hfits.masked hfits.length_key hshort
    intro f hfin hform hopcode hpayload
    exact control_close hfin hform hopcode (hpayload ▸ hmeans)
  unfold Sender.close at hcall
  cases code with
  | none =>
    obtain ⟨-, rfl⟩ := Prod.mk.inj (Except.ok.inj hcall)
    obtain ⟨f, hbytes, haccept⟩ := hbody [] (.conclude 1005 []) (Nat.zero_le _) rfl
    exact ⟨f, _, hbytes, haccept, rfl⟩
  | some code =>
    simp only at hcall
    split at hcall
    · cases hcall
    · next hcode =>
      have hmeans := closeEvent_code (o := o) (not_not.mp hcode) hvalid
      split at hcall
      · next hnil =>
        obtain ⟨-, rfl⟩ := Prod.mk.inj (Except.ok.inj hcall)
        rw [List.length_eq_zero_iff.mp hnil, List.append_nil] at hmeans
        obtain ⟨f, hbytes, haccept⟩ := hbody _ _ (by simp) hmeans
        refine ⟨f, _, hbytes, haccept, ?_⟩
        rw [List.length_eq_zero_iff.mp hnil]
        rfl
      · split at hcall
        · cases hcall
        · next hlong =>
          obtain ⟨-, rfl⟩ := Prod.mk.inj (Except.ok.inj hcall)
          have hshort : (be 2 code ++ data).length ≤ 125 := by
            rw [List.length_append, length_be]
            omega
          obtain ⟨f, hbytes, haccept⟩ := hbody _ _ hshort hmeans
          exact ⟨f, _, hbytes, haccept, rfl⟩

end Calls

/-- The calls of a sender are frames that the other side accepts, and they mean what was said. -/
theorem run_frames {o : Options} {unfinished : Option (Bool × List UInt8)} {ops : List SendOp}
    {bytes : List UInt8} (hfits : ∀ op ∈ ops, op.Fits o) (hread : Readable o unfinished ops)
    (hrun : Sender.run ⟨unfinished.isNone⟩ ops = .ok bytes) :
    ∃ frames s, bytes = frames.flatMap WireFrame.bytes ∧
      Session.acceptAll o ⟨unfinished, false⟩ frames = some (s, said unfinished ops) := by
  induction ops generalizing unfinished bytes with
  | nil =>
    obtain rfl := Except.ok.inj hrun
    exact ⟨[], _, rfl, rfl⟩
  | cons op rest ih =>
    obtain ⟨hop, hrest⟩ := List.forall_mem_cons.mp hfits
    unfold Sender.run at hrun
    cases hcall : Sender.call ⟨unfinished.isNone⟩ op with
    | error e =>
      rw [hcall] at hrun
      cases hrun
    | ok result =>
      obtain ⟨next, first⟩ := result
      rw [hcall] at hrun
      simp only at hrun
      cases hlater : Sender.run next rest with
      | error e =>
        rw [hlater] at hrun
        cases hrun
      | ok more =>
        rw [hlater] at hrun
        obtain rfl := Except.ok.inj hrun
        -- one accepted frame, and the frames of the other calls behind it
        have hjoin : ∀ (f : WireFrame) (middle : Option (Bool × List UInt8))
            (events : List ReceiverEvent), first = f.bytes → next = ⟨middle.isNone⟩ →
            Session.accept o ⟨unfinished, false⟩ f = some (⟨middle, false⟩, events) →
            Readable o middle rest →
            said unfinished (op :: rest) = events ++ said middle rest →
            ∃ frames s, first ++ more = frames.flatMap WireFrame.bytes ∧
              Session.acceptAll o ⟨unfinished, false⟩ frames =
                some (s, said unfinished (op :: rest)) := by
          rintro f middle events rfl rfl haccept hreadable hsaid
          obtain ⟨frames, s, rfl, hall⟩ := ih hrest hreadable hlater
          refine ⟨f :: frames, s, rfl, ?_⟩
          simp [Session.acceptAll, haccept, hall, hsaid]
        cases op with
        | send data binary fin mask =>
          obtain ⟨hlong, htext, hreadable⟩ := hread
          obtain ⟨f, hsend, haccept⟩ := accept_send hop hlong htext
          obtain ⟨rfl, rfl⟩ := Prod.mk.inj (Except.ok.inj (hcall.symm.trans hsend))
          apply hjoin f _ _ rfl (congrArg _ (isNone_extended fin _).symm) haccept hreadable
          cases fin <;> rfl
        | ping data mask =>
          obtain ⟨hshort, rfl, rfl⟩ := ping_eq hcall
          obtain ⟨f, hbytes, haccept⟩ := accept_control unfinished (Or.inr
            (Or.inl rfl)) hop.masked hop.length_key hshort fun f hfin hform hopcode hpayload =>
              hpayload ▸ control_ping hfin hform hopcode
          exact hjoin f unfinished _ hbytes rfl haccept hread rfl
        | pong data mask =>
          obtain ⟨hshort, rfl, rfl⟩ := pong_eq hcall
          obtain ⟨f, hbytes, haccept⟩ := accept_control unfinished (Or.inr
            (Or.inr rfl)) hop.masked hop.length_key hshort fun f hfin hform hopcode hpayload =>
              hpayload ▸ control_pong hfin hform hopcode
          exact hjoin f unfinished _ hbytes rfl haccept hread rfl
        | close code data mask =>
          obtain ⟨hvalid, rfl⟩ := hread
          obtain ⟨f, e, rfl, haccept, hsaid⟩ :=
            accept_close unfinished hop hvalid hcall
          obtain rfl := Except.ok.inj hlater
          refine ⟨[f], ⟨unfinished, true⟩, by simp, ?_⟩
          simp [Session.acceptAll, haccept, hsaid]

/-- What is said on one side is heard on the other. -/
theorem receive_said {o : Options} {ops : List SendOp} {bytes : List UInt8}
    {chunks : List (List UInt8)} (hfits : ∀ op ∈ ops, op.Fits o) (hread : Readable o none ops)
    (hrun : Sender.run .init ops = .ok bytes) (hchunks : chunks.flatten = bytes) :
    (Receiver.receive o .init chunks).2 = said none ops := by
  obtain ⟨frames, s, rfl, haccept⟩ := run_frames hfits hread hrun
  rw [(receive_init o chunks).1, hchunks]
  exact events_frames haccept

/-- A client sends a text in two fragments with a ping between them, and closes. -/
def clientOps : List SendOp :=
  [.send [0xc3] false false (some [1, 2, 3, 4]), .ping [7] (some [0, 0, 0, 0]),
    .send [0xa9] false true (some [5, 6, 7, 8]), .close (some 1000) [0x6f] (some [9, 8, 7, 6])]

theorem receive_said_clientOps :
    ∃ bytes, Sender.run .init clientOps = .ok bytes ∧
      (Receiver.receive ⟨true, 16, false⟩ .init (bytes.map fun b => [b])).2 =
        [.ping [7], .message [0xc3, 0xa9] false, .conclude 1000 [0x6f]] := by
  refine ⟨_, rfl, ?_⟩
  apply receive_said (o := ⟨true, 16, false⟩) _ _ (rfl : Sender.run .init clientOps = .ok _)
    ((List.flatMap_def ..).symm.trans (List.flatMap_singleton' _))
  · unfold clientOps
    simp only [List.forall_mem_cons, List.not_mem_nil, false_imp_iff, implies_true, and_true]
    refine ⟨⟨rfl, ?_, by decide⟩, ⟨rfl, ?_, by decide⟩, ⟨rfl, ?_, by decide⟩, rfl, ?_, by decide⟩
    all_goals simp [SendOp.key]
  · exact ⟨Or.inr (by decide), by simp, Or.inr (by decide), fun _ => Or.inr (Or.inr rfl),
      Or.inr rfl, rfl⟩

end MediaStream.WebRTC.Ws
