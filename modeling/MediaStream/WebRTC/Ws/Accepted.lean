import MediaStream.WebRTC.Ws.Frames

/-!
The receiver accepts what a session accepts. A frame is followed through the
handlers: header, length, mask, payload. What is emitted for any bytes is what
the frames at their front mean, and one error at most.
-/

namespace MediaStream.WebRTC.Ws

open Lib Lib.Bytes

namespace Reading

variable {o : Options} {p q : Reading}

def headed (p : Reading) (fin : Bool) (opcode length7 : Nat) : Reading :=
  { p with fin := fin, opcode := opcode, payloadLength := length7 }

/-- The frame is read under an opcode. -/
def opened (p : Reading) (opcode : Nat) (masked : Bool) : Reading :=
  { p with
    opcode := opcode
    fragmented := if ¬p.fin ∧ p.fragmented = 0 then opcode else p.fragmented
    masked := masked }

theorem getInfo_flagged (o : Options) (p : Reading) (fin masked : Bool) {opcode length7 : Nat}
    (hopcode : opcode < 16) (hlength : length7 < 128) :
    p.getInfo o (WireFrame.flagged fin opcode) (WireFrame.flagged masked length7) =
      match (p.headed fin opcode length7).frameOpcode with
      | .error e => (p.headed fin opcode length7).fail e
      | .ok read => checkMask o ((p.headed fin opcode length7).opened read masked) := by
  obtain ⟨hreserved, hcompressed⟩ :=
    (WireFrame.flagged_clear fin ⟨opcode, by omega⟩).mpr hopcode
  unfold getInfo
  rw [if_neg (not_not.mpr hreserved), if_neg hcompressed,
    WireFrame.flagged_opcode fin ⟨opcode, hopcode⟩,
    WireFrame.flagged_flag fin ⟨opcode, by omega⟩,
    WireFrame.flagged_flag masked ⟨length7, hlength⟩,
    WireFrame.flagged_low masked ⟨length7, hlength⟩]
  rfl

/-- The frames that may come. -/
theorem frameOpcode_eq_ok {read : Nat} :
    p.frameOpcode = .ok read ↔
      (p.opcode = 0 ∧ p.fragmented ≠ 0 ∧ read = p.fragmented) ∨
      ((p.opcode = 1 ∨ p.opcode = 2) ∧ p.fragmented = 0 ∧ read = p.opcode) ∨
      ((7 < p.opcode ∧ p.opcode < 11) ∧ p.fin = true ∧ p.payloadLength ≤ 125 ∧
        ¬(p.opcode = 8 ∧ p.payloadLength = 1) ∧ read = p.opcode) := by
  unfold frameOpcode
  split
  · split <;> grind
  · split
    · split <;> grind
    · split
      · split
        · grind
        · split <;> grind
      · grind

end Reading

namespace Reading

variable {o : Options} {p q : Reading}

/-- The frame would make the message too long. -/
def TooLong (o : Options) (p : Reading) : Prop :=
  (p.payloadLength ≠ 0 ∧ p.opcode < 0x08) ∧
    o.limit < p.totalPayloadLength + p.payloadLength ∧ 0 < o.limit

def counted (p : Reading) : Reading :=
  { p with
    totalPayloadLength := p.totalPayloadLength + if p.opcode < 0x08 then p.payloadLength else 0 }

theorem haveLength_of_not_tooLong (h : ¬p.TooLong o) : p.haveLength o = p.counted.expectData := by
  unfold haveLength
  split
  · next hdata =>
    unfold counted
    rw [if_pos hdata.2]
    exact if_neg fun hlong => h ⟨hdata, hlong⟩
  · next hnone =>
    have hzero : (if p.opcode < 0x08 then p.payloadLength else 0) = 0 := by
      split
      · next hdata => exact not_not.mp fun hlen => hnone ⟨hlen, hdata⟩
      · rfl
    unfold counted
    rw [hzero, Nat.add_zero]

theorem haveLength_of_tooLong (h : p.TooLong o) : ∃ q e, p.haveLength o = fail q e := by
  unfold haveLength
  rw [if_pos h.1]
  exact ⟨_, _, if_pos h.2⟩

def atData (p : Reading) (key : Option (List UInt8)) : Reading :=
  { p with mask := key.getD p.mask, state := .getData }

theorem payload_masked (f : WireFrame) (hmasked : q.masked = f.key.isSome) :
    (q.atData f.key).payload f.maskedPayload = f.payload := by
  unfold payload WireFrame.maskedPayload atData
  cases hkey : f.key with
  | none =>
    rw [hkey, Option.isSome_none] at hmasked
    rw [if_neg]
    simp [hmasked]
  | some k =>
    rw [hkey, Option.isSome_some] at hmasked
    simp only [hmasked, Option.getD_some, true_and]
    split
    · exact unmask_unmask _ _
    · next hzero => exact unmask_zero (not_not.mp hzero) _

theorem checkMask_of_eq (h : q.masked = o.isServer) :
    q.checkMask o =
      if q.payloadLength = 126 then goOn { q with state := .getPayloadLength16 } []
      else if q.payloadLength = 127 then goOn { q with state := .getPayloadLength64 } []
      else q.haveLength o := by
  unfold checkMask
  rw [if_neg (by simp [h]), if_neg (by simp [h])]

theorem checkMask_of_ne (h : q.masked ≠ o.isServer) : ∃ r e, q.checkMask o = fail r e := by
  unfold checkMask
  cases hserver : o.isServer with
  | true =>
    have hclear : ¬q.masked = true := fun hmask => h (hmask.trans hserver.symm)
    exact ⟨_, _, if_pos ⟨rfl, hclear⟩⟩
  | false =>
    have hset : q.masked = true := by
      rw [hserver] at h
      simpa using h
    rw [if_neg (by simp), if_pos ⟨Bool.false_ne_true, hset⟩]
    exact ⟨_, _, rfl⟩

def dispatch (o : Options) (p : Reading) (data : List UInt8) : Outcome :=
  if 0x07 < p.opcode then p.controlMessage o data else (p.addFragment data).dataMessage o

theorem getData_eq (buf : List UInt8) : p.getData o buf = p.dispatch o (p.payload buf) := rfl

end Reading

section After

variable {o : Options} {p q : Reading} {more : List UInt8}

/-- What becomes of the bytes after a handler. -/
def after (o : Options) (out : Outcome) (more : List UInt8) :
    PullParser.Fed Reading UInt8 × List ReceiverEvent :=
  (((parser o).drain out.reading more).1, out.events ++ ((parser o).drain out.reading more).2)

/-- The receiver waits for `n` bytes. -/
theorem drain_after {n : Nat} (hneed : (parser o).need p = some n) {wanted : List UInt8}
    (hlen : wanted.length = n) :
    (parser o).drain p (wanted ++ more) = after o (p.handle o wanted) more :=
  PullParser.drain_take hneed hlen more

theorem drain_errored (h : p.errored = true) : (parser o).drain p more = (⟨p, more⟩, []) :=
  PullParser.drain_stopped (need_eq_none.mpr (by rw [h, Bool.true_or]))

theorem after_fail (e : ReceiverError) :
    after o (q.fail e) more = (⟨{ q with errored := true }, more⟩, [.error e]) := by
  have hstop : (parser o).drain (q.fail e).reading more = (⟨(q.fail e).reading, more⟩, []) :=
    drain_errored rfl
  unfold after
  rw [hstop]
  rfl

theorem after_goOn : after o (q.goOn []) more = (parser o).drain q more := rfl

/-- Not all of what is wanted, or a step of the handler. -/
theorem short_or_after {n : Nat} (hneed : (parser o).need p = some n) (bytes : List UInt8) :
    (parser o).drain p bytes = (⟨p, bytes⟩, []) ∨
      ∃ wanted more, bytes = wanted ++ more ∧ wanted.length = n ∧
        (parser o).drain p bytes = after o (p.handle o wanted) more := by
  rcases Nat.lt_or_ge bytes.length n with hshort | hle
  · exact Or.inl (PullParser.drain_short hneed hshort)
  · have hlen : (bytes.take n).length = n := List.length_take_of_le hle
    have hcut := List.take_append_drop n bytes
    refine Or.inr ⟨bytes.take n, bytes.drop n, hcut.symm, hlen, ?_⟩
    rw [← drain_after hneed hlen, hcut]

theorem need_getData (herrored : q.errored = false) (hstate : q.state ≠ .getInfo) :
    (parser o).need q = some q.wanted := by
  apply need_eq_some.mpr
  rw [herrored, Reading.not_concluded_of_state hstate]
  exact ⟨rfl, rfl⟩

/-- From the mask to the payload. -/
theorem after_expectData (f : WireFrame) (herrored : q.errored = false)
    (hmasked : q.masked = f.key.isSome) (hlength : q.payloadLength = f.payload.length) :
    after o q.expectData (f.key.getD [] ++ (f.maskedPayload ++ more)) =
      after o ((q.atData f.key).dispatch o f.payload) more := by
  have hdata : (parser o).drain (q.atData f.key) (f.maskedPayload ++ more) =
      after o ((q.atData f.key).dispatch o f.payload) more := by
    have hwanted : f.maskedPayload.length = (q.atData f.key).wanted :=
      f.length_maskedPayload.trans hlength.symm
    have hneed : (parser o).need (q.atData f.key) = some (q.atData f.key).wanted :=
      need_getData herrored (by simp [Reading.atData])
    rw [drain_after hneed hwanted]
    change after o ((q.atData f.key).getData o f.maskedPayload) more = _
    rw [Reading.getData_eq, Reading.payload_masked f hmasked]
  unfold Reading.expectData
  cases hkey : f.key with
  | none =>
    rw [hkey] at hmasked hdata
    rw [if_neg (by simp [hmasked])]
    exact hdata
  | some k =>
    rw [hkey] at hmasked hdata
    have hneed : (parser o).need { q with state := .getMask } = some 4 :=
      need_getData herrored (by simp)
    rw [if_pos (by simp [hmasked]), after_goOn]
    apply (drain_after hneed (f.length_key k (by rw [hkey]; rfl))).trans
    exact hdata

/-- From the mask bit to the length. -/
theorem after_checkMask {form : LengthForm} {n : Nat} (hfits : form.Fits n)
    (herrored : q.errored = false) (hmasked : q.masked = o.isServer)
    (hlength : q.payloadLength = form.length7 n) (more : List UInt8) :
    ∃ state, after o (q.checkMask o) (form.extended n ++ more) =
      after o (Reading.haveLength o { q with payloadLength := n, state := state }) more := by
  rw [Reading.checkMask_of_eq hmasked]
  cases form with
  | short =>
    change n ≤ 125 at hfits
    change q.payloadLength = n at hlength
    refine ⟨q.state, ?_⟩
    rw [if_neg (by omega), if_neg (by omega), ← hlength]
    rfl
  | extended16 =>
    change q.payloadLength = 126 at hlength
    refine ⟨.getPayloadLength16, ?_⟩
    have hneed : (parser o).need { q with state := .getPayloadLength16 } = some 2 :=
      need_getData herrored (by simp)
    have hread : beNat (be 2 n) = n := beNat_be_of_lt hfits
    rw [if_pos hlength, after_goOn, LengthForm.extended, drain_after hneed (length_be 2 _)]
    change after o (Reading.haveLength o
      { q with payloadLength := beNat (be 2 n), state := .getPayloadLength16 }) _ = _
    rw [hread]
  | extended64 =>
    change n < 2 ^ 53 at hfits
    change q.payloadLength = 127 at hlength
    refine ⟨.getPayloadLength64, ?_⟩
    have hneed : (parser o).need { q with state := .getPayloadLength64 } = some 8 :=
      need_getData herrored (by simp)
    have hsplit : be 8 n = be 4 (n / 256 ^ 4) ++ be 4 n := be_add 4 4 _
    have hhigh : beNat ((be 8 n).take 4) = n / 256 ^ 4 := by
      rw [hsplit, List.take_left' (length_be 4 _)]
      apply beNat_be_of_lt
      omega
    have hlow : beNat ((be 8 n).drop 4) = n % 256 ^ 4 := by
      rw [hsplit, List.drop_left' (length_be 4 _), beNat_be]
    have hsum : n / 256 ^ 4 * 2 ^ 32 + n % 256 ^ 4 = n := by omega
    rw [if_neg (by omega), if_pos hlength, after_goOn, LengthForm.extended,
      drain_after hneed (length_be 8 _)]
    change after o (Reading.getPayloadLength64 o { q with state := .getPayloadLength64 }
      (be 8 n)) more = _
    unfold Reading.getPayloadLength64
    simp only
    rw [hhigh, hlow, if_neg (by omega), hsum]

/-- The receiver when it has read the frame `f` under the opcode `read`, but for what it does with
the payload. -/
structure Framed (p : Reading) (f : WireFrame) (read : Nat) (q : Reading) : Prop where
  opcode : q.opcode = read
  fin : q.fin = f.fin
  fragmented : q.fragmented = if ¬f.fin ∧ p.fragmented = 0 then read else p.fragmented
  total : q.totalPayloadLength =
    p.totalPayloadLength + if read < 0x08 then f.payload.length else 0
  messageLength : q.messageLength = p.messageLength
  fragments : q.fragments = p.fragments
  errored : q.errored = false

/-- A frame that is not refused is read to its end. -/
theorem drain_frame (f : WireFrame) {read : Nat} (herrored : p.errored = false)
    (hstate : p.state = .getInfo) (hopcode : p.opcode ≠ 0x08)
    (hread : (p.headed f.fin f.opcode f.length7).frameOpcode = .ok read)
    (hmasked : f.key.isSome = o.isServer)
    (hlong : ¬((f.payload.length ≠ 0 ∧ read < 0x08) ∧
      o.limit < p.totalPayloadLength + f.payload.length ∧ 0 < o.limit))
    (more : List UInt8) :
    ∃ q, Framed p f read q ∧
      (parser o).drain p (f.bytes ++ more) = after o (q.dispatch o f.payload) more := by
  have hneed : (parser o).need p = some 2 := by
    apply need_eq_some.mpr
    rw [herrored, Reading.not_concluded_of_opcode hopcode, Reading.wanted, hstate]
    exact ⟨rfl, rfl⟩
  let q := (p.headed f.fin f.opcode f.length7).opened read f.key.isSome
  obtain ⟨state, hlength⟩ := after_checkMask (q := q) f.fits herrored hmasked rfl
    (f.key.getD [] ++ (f.maskedPayload ++ more))
  let sized : Reading := { q with payloadLength := f.payload.length, state := state }
  have hinfo : p.handle o [WireFrame.flagged f.fin f.opcode,
      WireFrame.flagged f.key.isSome f.length7] = q.checkMask o := by
    unfold Reading.handle
    rw [hstate]
    change p.getInfo o (WireFrame.flagged f.fin f.opcode)
      (WireFrame.flagged f.key.isSome f.length7) = _
    rw [Reading.getInfo_flagged o p f.fin f.key.isSome f.opcode_lt f.length7_lt, hread]
  have hcounted : sized.haveLength o = sized.counted.expectData :=
    Reading.haveLength_of_not_tooLong hlong
  refine ⟨sized.counted.atData f.key, ?_, ?_⟩
  · exact ⟨rfl, rfl, rfl, rfl, rfl, rfl, herrored⟩
  · have hbytes : f.bytes ++ more = [WireFrame.flagged f.fin f.opcode,
        WireFrame.flagged f.key.isSome f.length7] ++
          (f.form.extended f.payload.length ++ (f.key.getD [] ++ (f.maskedPayload ++ more))) := by
      simp [WireFrame.bytes]
    rw [hbytes, drain_after hneed rfl, hinfo, hlength]
    change after o (sized.haveLength o) _ = _
    rw [hcounted]
    exact after_expectData f herrored rfl rfl

end After

/-- The receiver between two frames, after what the session tells. -/
structure Between (o : Options) (s : Session) (p : Reading) : Prop where
  live : s.closed = false
  errored : p.errored = false
  state : p.state = .getInfo
  opcode : p.opcode ≠ 0x08
  fragmented : p.fragmented =
    match s.unfinished with
    | none => 0
    | some (binary, _) => if binary then 2 else 1
  sofar : p.fragments.flatten = (s.unfinished.map Prod.snd).getD []
  total : p.totalPayloadLength = p.fragments.flatten.length
  messageLength : p.messageLength = p.fragments.flatten.length
  bounded : ¬(0 < o.limit ∧ o.limit < p.fragments.flatten.length)

theorem between_init (o : Options) : Between o .init .init :=
  ⟨rfl, rfl, rfl, by decide, rfl, rfl, rfl, rfl, fun h => Nat.not_lt_zero _ h.2⟩

theorem concat_eq {list : List (List UInt8)} {totalLength : Nat}
    (h : list.flatten.length ≤ totalLength) : concat list totalLength = some list.flatten := by
  match list with
  | [] => rfl
  | [buf] => simp [concat]
  | first :: second :: rest => exact if_pos h

section Dispatch

variable {o : Options} {s : Session} {p q : Reading} {f : WireFrame} {read : Nat}

/-- What a handler leaves agrees with what the session makes of the frame. -/
inductive Agrees (o : Options) : Option (Session × List ReceiverEvent) → Outcome → Prop
  | accepted (s : Session) (events : List ReceiverEvent) (p : Reading) (h : Between o s p) :
      Agrees o (some (s, events)) (p.goOn events)
  | closed (s : Session) (events : List ReceiverEvent) (p : Reading) (hclosed : s.closed = true)
      (herrored : p.errored = false) (hconcluded : p.concluded = true) :
      Agrees o (some (s, events)) ⟨p, events, false⟩
  | refused (p : Reading) (e : ReceiverError) : Agrees o none (p.fail e)

theorem flatten_addFragment (data : List UInt8) :
    (q.addFragment data).fragments.flatten = q.fragments.flatten ++ data := by
  unfold Reading.addFragment
  split
  · simp
  · next hnil =>
    rw [List.length_eq_zero_iff.mp (not_not.mp hnil), List.append_nil]

theorem messageLength_addFragment {data : List UInt8}
    (htotal : q.totalPayloadLength = (q.fragments.flatten ++ data).length)
    (hlength : q.messageLength = q.fragments.flatten.length) :
    (q.addFragment data).messageLength = (q.fragments.flatten ++ data).length := by
  unfold Reading.addFragment
  split
  · exact htotal
  · next hnil =>
    rw [List.length_eq_zero_iff.mp (not_not.mp hnil), List.append_nil]
    exact hlength

/-- The payload of a data frame. -/
theorem dispatch_data (hp : Between o s p) (hq : Framed p f read q) {binary : Bool}
    (hread : read = if binary then 2 else 1)
    (hkept : p.fragmented = 0 ∨ p.fragmented = read)
    (hlong : ¬(0 < o.limit ∧
      o.limit < (p.fragments.flatten ++ f.payload).length)) :
    Agrees o (Session.data o binary (p.fragments.flatten ++ f.payload) f.fin)
      (q.dispatch o f.payload) := by
  have hdata : q.opcode ≤ 2 ∧ q.opcode ≠ 0 ∧ q.opcode ≠ 8 := by
    rw [hq.opcode, hread]
    cases binary <;> decide
  have hsmall : read < 0x08 := by rw [← hq.opcode]; omega
  have htotal : q.totalPayloadLength = (q.fragments.flatten ++ f.payload).length := by
    rw [hq.total, hp.total, if_pos hsmall, hq.fragments, List.length_append]
  have hlength : q.messageLength = q.fragments.flatten.length := by
    rw [hq.messageLength, hp.messageLength, hq.fragments]
  have hflat := flatten_addFragment (q := q) f.payload
  have hwhole := messageLength_addFragment htotal hlength
  rw [hq.fragments] at hflat hwhole
  have hconcat :
      concat (q.addFragment f.payload).fragments (q.addFragment f.payload).messageLength =
        some (p.fragments.flatten ++ f.payload) := by
    rw [concat_eq, hflat]
    exact Nat.le_of_eq (hflat ▸ hwhole.symm)
  have hkind : (q.addFragment f.payload).opcode = 2 ↔ binary = true := by
    rw [Reading.addFragment_opcode, hq.opcode, hread]
    cases binary <;> decide
  unfold Reading.dispatch Reading.dataMessage Session.data
  rw [if_neg (by omega : ¬0x07 < q.opcode), if_neg hlong, Reading.addFragment_fin, hq.fin]
  by_cases hfin : f.fin = true
  · rw [if_neg (not_not.mpr hfin), if_neg (not_not.mpr hfin), hconcat]
    simp only
    have hready : Between o .init { (q.addFragment f.payload).reset with state := .getInfo } := by
      refine ⟨rfl, ?_, rfl, ?_, rfl, rfl, rfl, rfl, fun h => Nat.not_lt_zero _ h.2⟩
      · exact (Reading.addFragment_errored _ _).trans hq.errored
      · exact fun h => hdata.2.2 ((Reading.addFragment_opcode _ _).symm.trans h)
    cases hbinary : binary with
    | true =>
      rw [if_pos (hkind.mpr hbinary), if_pos (Or.inl rfl)]
      exact .accepted _ _ _ hready
    | false =>
      have hnot : ¬(q.addFragment f.payload).opcode = 2 := by
        rw [hkind, hbinary]
        exact Bool.false_ne_true
      rw [if_neg hnot]
      by_cases hvalid : o.skipUTF8Validation = true ∨
          isValidUTF8 (p.fragments.flatten ++ f.payload) = true
      · have hgood : ¬(¬o.skipUTF8Validation = true ∧
            ¬isValidUTF8 (p.fragments.flatten ++ f.payload) = true) := by tauto
        rw [if_pos (Or.inr hvalid), if_neg hgood]
        exact .accepted _ _ _ hready
      · have hbad : ¬(false = true ∨ o.skipUTF8Validation = true ∨
            isValidUTF8 (p.fragments.flatten ++ f.payload) = true) :=
          fun h => h.elim Bool.false_ne_true hvalid
        rw [if_neg hbad, if_pos (not_or.mp hvalid)]
        exact .refused _ _
  · rw [if_pos hfin, if_pos hfin]
    apply Agrees.accepted
    refine ⟨rfl, ?_, rfl, ?_, ?_, hflat, ?_, ?_, ?_⟩
    · exact (Reading.addFragment_errored _ _).trans hq.errored
    · exact fun h => hdata.2.2 ((Reading.addFragment_opcode _ _).symm.trans h)
    · have hfragmented : q.fragmented = read := by
        rw [hq.fragmented]
        split
        · rfl
        · next hnone => exact hkept.resolve_left fun hzero => hnone ⟨hfin, hzero⟩
      exact (Reading.addFragment_fragmented _ _).trans (hfragmented.trans hread)
    · change (q.addFragment f.payload).totalPayloadLength =
        (q.addFragment f.payload).fragments.flatten.length
      rw [Reading.addFragment_totalPayloadLength, htotal, hflat, hq.fragments]
    · exact hwhole.trans (congrArg _ hflat.symm)
    · change ¬(0 < o.limit ∧ o.limit < (q.addFragment f.payload).fragments.flatten.length)
      rw [hflat]
      exact hlong

/-- The payload of a control frame. -/
theorem dispatch_control (hp : Between o s p) (hq : Framed p f read q) (hread : read = f.opcode)
    (hcontrol : 7 < f.opcode ∧ f.opcode < 11) (hfin : f.fin = true) (hform : f.form = .short)
    (hone : ¬(f.opcode = 8 ∧ f.payload.length = 1)) :
    Agrees o (s.control o f) (q.dispatch o f.payload) := by
  have hopcode : q.opcode = f.opcode := hq.opcode.trans hread
  have hkept : q.fragmented = p.fragmented := by
    rw [hq.fragmented, if_neg fun h => h.1 hfin]
  have htotal : q.totalPayloadLength = p.totalPayloadLength := by
    rw [hq.total, hread, if_neg (by omega), Nat.add_zero]
  have hready : ∀ next : Session, next.unfinished = s.unfinished → next.closed = false →
      q.opcode ≠ 8 → Between o next { q with state := .getInfo } := by
    intro next hsame hlive hnot
    refine ⟨hlive, hq.errored, rfl, hnot, ?_, ?_, ?_, ?_, ?_⟩
    · rw [hsame]
      exact hkept.trans hp.fragmented
    · rw [hsame]
      exact (congrArg _ hq.fragments).trans hp.sofar
    · change q.totalPayloadLength = q.fragments.flatten.length
      rw [htotal, hq.fragments, hp.total]
    · change q.messageLength = q.fragments.flatten.length
      rw [hq.messageLength, hq.fragments, hp.messageLength]
    · change ¬(0 < o.limit ∧ o.limit < q.fragments.flatten.length)
      rw [hq.fragments]
      exact hp.bounded
  unfold Reading.dispatch Reading.controlMessage Session.control
  rw [if_pos (by omega : 0x07 < q.opcode), if_neg (by simp [hfin, hform])]
  have hthree : f.opcode = 8 ∨ f.opcode = 9 ∨ f.opcode = 10 := by omega
  rcases hthree with h8 | h9 | h10
  · have hclosed : q.opcode = 0x08 := hopcode.trans h8
    have hconcluded : Reading.concluded { q with state := .getInfo } = true := by
      simp [Reading.concluded, hclosed]
    rw [if_pos hclosed, h8]
    simp only [Session.closeEvent]
    by_cases hnil : f.payload = []
    · rw [if_pos hnil, if_pos (by simp [hnil])]
      exact .closed _ _ _ rfl hq.errored hconcluded
    · have hlen : ¬f.payload.length = 0 := fun h => hnil (List.length_eq_zero_iff.mp h)
      rw [if_neg hnil, if_neg hlen, if_neg fun h => hone ⟨h8, h⟩]
      by_cases hcode : isValidStatusCode (beNat (f.payload.take 2)) = true
      · rw [if_neg (not_not.mpr hcode)]
        by_cases hvalid : o.skipUTF8Validation = true ∨ isValidUTF8 (f.payload.drop 2) = true
        · have hgood : ¬(¬o.skipUTF8Validation = true ∧
              ¬isValidUTF8 (f.payload.drop 2) = true) := by tauto
          rw [if_pos ⟨hcode, hvalid⟩, if_neg hgood]
          exact .closed _ _ _ rfl hq.errored hconcluded
        · rw [if_neg fun h => hvalid h.2, if_pos (not_or.mp hvalid)]
          exact .refused _ _
      · rw [if_neg fun h => hcode h.1, if_pos hcode]
        exact .refused _ _
  · have hping : q.opcode = 0x09 := hopcode.trans h9
    rw [if_neg (by omega), if_pos hping, h9]
    exact .accepted _ _ _ (hready s rfl hp.live (by omega))
  · have hpong : q.opcode = 0x0a := hopcode.trans h10
    rw [if_neg (by omega), if_neg (by omega), h10]
    exact .accepted _ _ _ (hready s rfl hp.live (by omega))

/-- A frame whose opcode is refused is not accepted. -/
theorem accept_of_refused (hp : Between o s p)
    (hrefused : ∀ read, (p.headed f.fin f.opcode f.length7).frameOpcode ≠ .ok read) :
    s.accept o f = none := by
  have hnone : ∀ read, ¬((f.opcode = 0 ∧ p.fragmented ≠ 0 ∧ read = p.fragmented) ∨
      ((f.opcode = 1 ∨ f.opcode = 2) ∧ p.fragmented = 0 ∧ read = f.opcode) ∨
      ((7 < f.opcode ∧ f.opcode < 11) ∧ f.fin = true ∧ f.length7 ≤ 125 ∧
        ¬(f.opcode = 8 ∧ f.length7 = 1) ∧ read = f.opcode)) :=
    fun read h => hrefused read (Reading.frameOpcode_eq_ok.mpr h)
  unfold Session.accept
  split
  · rfl
  · split
    · next h0 =>
      cases hunfinished : s.unfinished with
      | none => rfl
      | some message =>
        have hsome : p.fragmented ≠ 0 := by
          rw [hp.fragmented, hunfinished]
          simp only
          split <;> decide
        exact absurd (Or.inl ⟨h0, hsome, rfl⟩) (hnone _)
    · split
      · next h12 =>
        cases hunfinished : s.unfinished with
        | none =>
          have hzero : p.fragmented = 0 := by rw [hp.fragmented, hunfinished]
          exact absurd (Or.inr (Or.inl ⟨h12, hzero, rfl⟩)) (hnone _)
        | some message => rfl
      · unfold Session.control
        split
        · rfl
        · next hwhole =>
          obtain ⟨hfin, hform⟩ := not_or.mp hwhole
          have hset : f.fin = true := not_not.mp hfin
          have hlen : f.length7 = f.payload.length := by
            rw [WireFrame.length7, not_not.mp hform]
            rfl
          have hshort : f.length7 ≤ 125 := by
            have hfits := f.fits
            rw [not_not.mp hform] at hfits
            exact hlen ▸ hfits
          have hcontrol : f.opcode = 8 ∧ f.length7 = 1 ∨ ¬(7 < f.opcode ∧ f.opcode < 11) := by
            by_contra hboth
            obtain ⟨hone, hrange⟩ := not_or.mp hboth
            exact hnone _ (Or.inr (Or.inr ⟨not_not.mp hrange, hset, hshort, hone, rfl⟩))
          split
          · next h8 =>
            have hone : f.payload.length = 1 := by omega
            have hne : f.payload ≠ [] := by
              intro hnil
              rw [hnil] at hone
              cases hone
            simp [Session.closeEvent, hone, hne]
          · next h9 => omega
          · next h10 => omega
          · rfl

theorem events_fail {out : Outcome} (h : ∃ (r : Reading) (e : ReceiverError), out = r.fail e)
    (more : List UInt8) : ∃ e, (after o out more).2 = [.error e] := by
  obtain ⟨r, e, rfl⟩ := h
  exact ⟨e, by rw [after_fail]⟩

theorem fragments_of_continuation (hp : Between o s p) (hsome : p.fragmented ≠ 0) :
    ∃ binary, s.unfinished = some (binary, p.fragments.flatten) ∧
      p.fragmented = if binary then 2 else 1 := by
  cases hunfinished : s.unfinished with
  | none => exact absurd (by rw [hp.fragmented, hunfinished]) hsome
  | some message =>
    obtain ⟨binary, sofar⟩ := message
    have hsofar : p.fragments.flatten = sofar := by
      rw [hp.sofar, hunfinished]
      rfl
    refine ⟨binary, by rw [hsofar], ?_⟩
    rw [hp.fragmented, hunfinished]

theorem fragments_of_start (hp : Between o s p) (hzero : p.fragmented = 0) :
    s.unfinished = none ∧ p.fragments.flatten = [] := by
  cases hunfinished : s.unfinished with
  | none => exact ⟨rfl, by rw [hp.sofar, hunfinished]; rfl⟩
  | some message =>
    have hfragmented := hp.fragmented
    rw [hunfinished, hzero] at hfragmented
    simp only at hfragmented
    split at hfragmented <;> cases hfragmented

/-- A frame whose opcode is not refused belongs to a message or is a control frame. -/
theorem accept_of_opcode (hp : Between o s p) (hmasked : f.key.isSome = o.isServer)
    (hread : (p.headed f.fin f.opcode f.length7).frameOpcode = .ok read) :
    (∃ binary, read = (if binary then 2 else 1) ∧ (p.fragmented = 0 ∨ p.fragmented = read) ∧
      s.accept o f = Session.data o binary (p.fragments.flatten ++ f.payload) f.fin) ∨
    (read = f.opcode ∧ (7 < f.opcode ∧ f.opcode < 11) ∧ f.fin = true ∧ f.form = .short ∧
      ¬(f.opcode = 8 ∧ f.payload.length = 1) ∧ s.accept o f = s.control o f) := by
  have hopen : ¬(s.closed = true ∨ f.key.isSome ≠ o.isServer) := by
    simp [hp.live, hmasked]
  unfold Session.accept
  rw [if_neg hopen]
  rcases Reading.frameOpcode_eq_ok.mp hread with ⟨h0, hsome, hsame⟩ | ⟨h12, hzero, hsame⟩ |
    ⟨hcontrol, hfin, hshort, hone, hsame⟩
  · obtain ⟨binary, hunfinished, hfragmented⟩ := fragments_of_continuation hp hsome
    left
    refine ⟨binary, hsame.trans hfragmented, Or.inr hsame.symm, ?_⟩
    change f.opcode = 0 at h0
    rw [if_pos h0, hunfinished]
  · obtain ⟨hunfinished, hnil⟩ := fragments_of_start hp hzero
    change f.opcode = 1 ∨ f.opcode = 2 at h12
    change read = f.opcode at hsame
    left
    refine ⟨f.opcode = 2, ?_, Or.inl hzero, ?_⟩
    · rw [hsame]
      rcases h12 with h1 | h2
      · rw [h1]; rfl
      · rw [h2]; rfl
    · rw [if_neg (by omega), if_pos h12, hunfinished, hnil, List.nil_append]
  · change 7 < f.opcode ∧ f.opcode < 11 at hcontrol
    change f.length7 ≤ 125 at hshort
    have hform : f.form = .short := by
      unfold WireFrame.length7 at hshort
      cases hform : f.form with
      | short => rfl
      | extended16 =>
        rw [hform] at hshort
        change _ ≤ _ at hshort
        simp [LengthForm.length7] at hshort
      | extended64 =>
        rw [hform] at hshort
        change _ ≤ _ at hshort
        simp [LengthForm.length7] at hshort
    have hlen : f.length7 = f.payload.length := by
      rw [WireFrame.length7, hform]
      rfl
    right
    refine ⟨hsame, hcontrol, hfin, hform, hlen ▸ hone, ?_⟩
    rw [if_neg (by omega), if_neg (by omega)]

theorem need_between (hp : Between o s p) : (parser o).need p = some 2 := by
  apply need_eq_some.mpr
  rw [hp.errored, Reading.not_concluded_of_opcode hp.opcode, Reading.wanted, hp.state]
  exact ⟨rfl, rfl⟩

theorem handle_between (hp : Between o s p) (b0 b1 : UInt8) :
    p.handle o [b0, b1] = p.getInfo o b0 b1 := by
  unfold Reading.handle
  rw [hp.state]
  rfl

/-- The frame at the front of the input: what the session makes of it, or an error. -/
theorem drain_wire (hp : Between o s p) (f : WireFrame) (more : List UInt8) :
    (∃ out, Agrees o (s.accept o f) out ∧
      (parser o).drain p (f.bytes ++ more) = after o out more) ∨
    (s.accept o f = none ∧ ∃ e, ((parser o).drain p (f.bytes ++ more)).2 = [.error e]) := by
  have hneed := need_between hp
  have hbytes : f.bytes ++ more = [WireFrame.flagged f.fin f.opcode,
      WireFrame.flagged f.key.isSome f.length7] ++
        (f.form.extended f.payload.length ++ (f.key.getD [] ++ (f.maskedPayload ++ more))) := by
    simp [WireFrame.bytes]
  have hinfo := handle_between hp (WireFrame.flagged f.fin f.opcode)
    (WireFrame.flagged f.key.isSome f.length7)
  rw [Reading.getInfo_flagged o p f.fin f.key.isSome f.opcode_lt f.length7_lt] at hinfo
  cases hread : (p.headed f.fin f.opcode f.length7).frameOpcode with
  | error e =>
    right
    have hnone : s.accept o f = none := by
      apply accept_of_refused hp
      intro read h
      rw [hread] at h
      cases h
    refine ⟨hnone, e, ?_⟩
    rw [hbytes, drain_after hneed rfl, hinfo, hread]
    exact congrArg Prod.snd (after_fail e)
  | ok read =>
    rw [hread] at hinfo
    by_cases hmasked : f.key.isSome = o.isServer
    · by_cases hlong : (f.payload.length ≠ 0 ∧ read < 0x08) ∧
        o.limit < p.totalPayloadLength + f.payload.length ∧ 0 < o.limit
      · right
        have hnone : s.accept o f = none := by
          rcases accept_of_opcode hp hmasked hread with ⟨binary, -, -, haccept⟩ |
            ⟨hsame, hcontrol, -⟩
          · rw [haccept]
            apply if_pos
            rw [List.length_append, ← hp.total]
            exact ⟨hlong.2.2, hlong.2.1⟩
          · omega
        refine ⟨hnone, ?_⟩
        let q := (p.headed f.fin f.opcode f.length7).opened read f.key.isSome
        obtain ⟨state, hlength⟩ := after_checkMask (o := o) (q := q) f.fits hp.errored hmasked rfl
          (f.key.getD [] ++ (f.maskedPayload ++ more))
        have hmore : Reading.TooLong o { q with
          payloadLength := f.payload.length, state := state } := hlong
        rw [hbytes, drain_after hneed rfl, hinfo, hlength]
        exact events_fail (Reading.haveLength_of_tooLong hmore) _
      · left
        obtain ⟨q, hq, hdrain⟩ := drain_frame f hp.errored hp.state hp.opcode hread
          hmasked hlong more
        refine ⟨_, ?_, hdrain⟩
        rcases accept_of_opcode hp hmasked hread with ⟨binary, hkind, hkept, haccept⟩ |
          ⟨hsame, hcontrol, hfin, hform, hone, haccept⟩
        · rw [haccept]
          apply dispatch_data hp hq hkind hkept
          rintro ⟨hlimit, hmore⟩
          have hsmall : read < 0x08 := by
            rw [hkind]
            split <;> decide
          rw [List.length_append, ← hp.total] at hmore
          by_cases hlen : f.payload.length = 0
          · rw [hlen, Nat.add_zero, hp.total] at hmore
            exact hp.bounded ⟨hlimit, hmore⟩
          · exact hlong ⟨⟨hlen, hsmall⟩, hmore, hlimit⟩
        · rw [haccept]
          exact dispatch_control hp hq hsame hcontrol hfin hform hone
    · right
      refine ⟨if_pos (Or.inr hmasked), ?_⟩
      rw [hbytes, drain_after hneed rfl, hinfo]
      exact events_fail (Reading.checkMask_of_ne hmasked) _

end Dispatch

section Front

variable {o : Options} {s : Session} {p q : Reading}

/-- Nothing is emitted but perhaps an error. -/
def Quiet (events : List ReceiverEvent) : Prop := events = [] ∨ ∃ e, events = [.error e]

theorem quiet_fail {out : Outcome} (h : ∃ (r : Reading) (e : ReceiverError), out = r.fail e)
    (more : List UInt8) : Quiet (after o out more).2 := Or.inr (events_fail h more)

theorem quiet_short {bytes : List UInt8} (h : (parser o).drain p bytes = (⟨p, bytes⟩, [])) :
    Quiet ((parser o).drain p bytes).2 := Or.inl (congrArg Prod.snd h)

/-- A frame is put together from what is on the wire. -/
theorem exists_wire (fin : Bool) {opcode : Nat} (hopcode : opcode < 16)
    {key : Option (List UInt8)} (hkey : ∀ k ∈ key, k.length = 4) {form : LengthForm}
    {onWire : List UInt8} (hfits : form.Fits onWire.length) :
    ∃ f : WireFrame, f.fin = fin ∧ f.opcode = opcode ∧ f.key = key ∧ f.form = form ∧
      f.maskedPayload = onWire ∧ f.payload.length = onWire.length := by
  cases key with
  | none =>
    exact ⟨⟨fin, opcode, none, form, onWire, hopcode, hkey, hfits⟩, rfl, rfl, rfl, rfl, rfl, rfl⟩
  | some k =>
    have hlen : (unmask onWire k).length = onWire.length := length_xorKey _ _
    refine ⟨⟨fin, opcode, some k, form, unmask onWire k, hopcode, hkey, hlen ▸ hfits⟩,
      rfl, rfl, rfl, rfl, unmask_unmask _ _, hlen⟩

/-- What follows the length: the mask and the payload, unless something is missing or refused. -/
theorem front_sized (herrored : q.errored = false) (bytes : List UInt8) :
    (∃ (key : Option (List UInt8)) (onWire more : List UInt8),
      bytes = key.getD [] ++ (onWire ++ more) ∧ key.isSome = q.masked ∧
        (∀ k ∈ key, k.length = 4) ∧ onWire.length = q.payloadLength) ∨
    Quiet (after o (q.haveLength o) bytes).2 := by
  by_cases hlong : q.TooLong o
  · exact Or.inr (quiet_fail (Reading.haveLength_of_tooLong hlong) _)
  · rw [Reading.haveLength_of_not_tooLong hlong]
    unfold Reading.expectData
    have hpayload : ∀ (r : Reading) (input : List UInt8), r.errored = false →
        r.state = .getData → r.payloadLength = q.payloadLength →
        (∃ onWire more, input = onWire ++ more ∧ onWire.length = q.payloadLength) ∨
          Quiet ((parser o).drain r input).2 := by
      intro r input hr hstate hlength
      have hneed := need_getData (o := o) hr (by simp [hstate])
      have hwanted : r.wanted = q.payloadLength := by rw [Reading.wanted, hstate, hlength]
      rcases short_or_after hneed input with hshort | ⟨onWire, more, hsplit, hlen, -⟩
      · exact Or.inr (quiet_short hshort)
      · exact Or.inl ⟨onWire, more, hsplit, hlen.trans hwanted⟩
    cases hmasked : q.masked with
    | false =>
      rw [if_neg (by simp [Reading.counted, hmasked]), after_goOn]
      rcases hpayload { q.counted with state := .getData } bytes herrored rfl rfl with
        ⟨onWire, more, hsplit, hlen⟩ | hquiet
      · exact Or.inl ⟨none, onWire, more, hsplit, rfl, by simp, hlen⟩
      · exact Or.inr hquiet
    | true =>
      rw [if_pos (by simp [Reading.counted, hmasked]), after_goOn]
      have hneed : (parser o).need { q.counted with state := .getMask } = some 4 :=
        need_getData herrored (by simp)
      rcases short_or_after hneed bytes with hshort | ⟨k, rest, hsplit, hlen, hnext⟩
      · exact Or.inr (quiet_short hshort)
      · rcases hpayload { q.counted with mask := k, state := .getData } rest herrored rfl rfl with
          ⟨onWire, more, hrest, honWire⟩ | hquiet
        · refine Or.inl ⟨some k, onWire, more, ?_, rfl, ?_, honWire⟩
          · rw [hsplit, hrest, Option.getD_some]
          · intro k' hk'
            rw [← Option.some.inj hk']
            exact hlen
        · rw [hnext]
          exact Or.inr hquiet

/-- What follows the mask bit: the length, unless it is missing or refused. -/
theorem front_length (herrored : q.errored = false) (hmasked : q.masked = o.isServer)
    (hlength : q.payloadLength < 128) (bytes : List UInt8) :
    (∃ (form : LengthForm) (n : Nat) (rest : List UInt8), bytes = form.extended n ++ rest ∧
      form.Fits n ∧ q.payloadLength = form.length7 n) ∨
    Quiet (after o (q.checkMask o) bytes).2 := by
  by_cases hshort : q.payloadLength ≤ 125
  · exact Or.inl ⟨.short, q.payloadLength, bytes, rfl, hshort, rfl⟩
  · rw [Reading.checkMask_of_eq hmasked]
    by_cases h16 : q.payloadLength = 126
    · rw [if_pos h16, after_goOn]
      have hneed : (parser o).need { q with state := .getPayloadLength16 } = some 2 :=
        need_getData herrored (by simp)
      rcases short_or_after hneed bytes with hnone | ⟨wanted, rest, hsplit, hlen, -⟩
      · exact Or.inr (quiet_short hnone)
      · refine Or.inl ⟨.extended16, beNat wanted, rest, ?_, ?_, h16⟩
        · rw [hsplit, LengthForm.extended, ← hlen, be_beNat]
        · exact (hlen ▸ beNat_lt wanted : beNat wanted < 256 ^ 2)
    · have h64 : q.payloadLength = 127 := by omega
      rw [if_neg h16, if_pos h64, after_goOn]
      have hneed : (parser o).need { q with state := .getPayloadLength64 } = some 8 :=
        need_getData herrored (by simp)
      rcases short_or_after hneed bytes with hnone | ⟨wanted, rest, hsplit, hlen, hnext⟩
      · exact Or.inr (quiet_short hnone)
      · by_cases hsafe : beNat wanted < 2 ^ 53
        · refine Or.inl ⟨.extended64, beNat wanted, rest, ?_, hsafe, h64⟩
          rw [hsplit, LengthForm.extended, ← hlen, be_beNat]
        · have hfour : (wanted.drop 4).length = 4 := by rw [List.length_drop, hlen]
          have hparts := beNat_append (wanted.take 4) (wanted.drop 4)
          rw [List.take_append_drop, hfour] at hparts
          have hlow := beNat_lt (wanted.drop 4)
          rw [hfour] at hlow
          have hbig : 2 ^ (53 - 32) - 1 < beNat (wanted.take 4) := by omega
          right
          rw [hnext]
          exact quiet_fail ⟨_, _, if_pos hbig⟩ _

/-- A frame is at the front of the input, or nothing comes of it. -/
theorem front_frame (hp : Between o s p) (bytes : List UInt8) :
    (∃ (f : WireFrame) (more : List UInt8), bytes = f.bytes ++ more) ∨
      Quiet ((parser o).drain p bytes).2 := by
  have hneed := need_between hp
  rcases short_or_after hneed bytes with hshort | ⟨wanted, rest, hsplit, hlen, hnext⟩
  · exact Or.inr (quiet_short hshort)
  · obtain ⟨b0, b1, rfl⟩ := List.length_eq_two.mp hlen
    rw [hnext, handle_between hp]
    obtain ⟨fin, opcode, hbits, rfl⟩ := WireFrame.exists_flagged b0
    obtain ⟨masked, length7, hlength, rfl⟩ := WireFrame.exists_flagged b1
    by_cases hopcode : opcode < 16
    · rw [Reading.getInfo_flagged o p fin masked hopcode hlength]
      cases hread : (p.headed fin opcode length7).frameOpcode with
      | error e => exact Or.inr (quiet_fail ⟨_, _, rfl⟩ _)
      | ok read =>
        let q := (p.headed fin opcode length7).opened read masked
        by_cases hmasked : masked = o.isServer
        · rcases front_length (o := o) (q := q) hp.errored hmasked hlength rest with
            ⟨form, n, sized, hrest, hfits, hform⟩ | hquiet
          · obtain ⟨state, heq⟩ := after_checkMask (o := o) (q := q) hfits hp.errored hmasked
              hform sized
            rcases front_sized (o := o) (q := { q with payloadLength := n, state := state })
              hp.errored sized with ⟨key, onWire, more, hsized, hkey, hfour, honWire⟩ | hquiet
            · left
              have hwire : form.Fits onWire.length := honWire ▸ hfits
              obtain ⟨f, rfl, rfl, rfl, rfl, rfl, hpayload⟩ :=
                exists_wire fin hopcode hfour hwire
              refine ⟨f, more, ?_⟩
              have hn : f.payload.length = n := hpayload.trans honWire
              have hseven : f.length7 = length7 := by
                rw [WireFrame.length7, hn]
                exact hform.symm
              change f.key.isSome = masked at hkey
              rw [hsplit, hrest, hsized, WireFrame.bytes, hseven, hn, hkey]
              simp
            · right
              rw [hrest]
              change Quiet (after o (q.checkMask o) _).2
              rw [heq]
              exact hquiet
          · exact Or.inr hquiet
        · exact Or.inr (quiet_fail (Reading.checkMask_of_ne hmasked) _)
    · have hreserved : ¬(WireFrame.flagged fin opcode &&& 0x30 = 0x00 ∧
          ¬WireFrame.flagged fin opcode &&& 0x40 = 0x40) := by
        rw [WireFrame.flagged_clear fin ⟨opcode, hbits⟩]
        exact hopcode
      right
      unfold Reading.getInfo
      by_cases hrsv : WireFrame.flagged fin opcode &&& 0x30 = 0x00
      · rw [if_neg (not_not.mpr hrsv), if_pos (by_contra fun h => hreserved ⟨hrsv, h⟩)]
        exact quiet_fail ⟨_, _, rfl⟩ _
      · rw [if_pos hrsv]
        exact quiet_fail ⟨_, _, rfl⟩ _

end Front

end MediaStream.WebRTC.Ws
