import Mathlib.Algebra.Field.Rat
import Mathlib.Tactic.Ring
import MediaStream.Lib.Machine
import MediaStream.OnlineAV.Packets

/-!
`Measure.py`, which listens on the port of the audio/video node. `receive_pack`
counts the bytes of each datagram and takes the first sixteen for the start of an
`Audio_Packet`; `calculate_data` logs the bandwidth once in an interval.

A datagram is shorter than `BUFFER_SIZE`, so `recvfrom` returns all of it. The
arithmetic is exact.
-/

namespace MediaStream.OnlineAV.Measure

open Lib Lib.Bytes

def logInterval : ℚ := 1

/-- `struct.calcsize("I Q")`, with four bytes of padding. -/
def headerSize : Nat := 16

/-- `seq_num` and `timestamp`, unless there is a `struct.error`. -/
def unpack (data : List UInt8) : Option (Nat × Nat) :=
  let header := data.take headerSize
  if header.length < headerSize then none else some (field header 0 4, field header 8 8)

/-- `datetime.fromtimestamp` with `strftime`, for a time in microseconds: the text
of the local time, or an exception that is no `struct.error`. -/
structure Calendar where
  fromtimestamp : Nat → Option String
  epoch : (fromtimestamp 0).isSome = true
  /-- A day past the year 9999 is past it in every time zone. -/
  beyond : ∀ t, (253402300800 + 86400) * 1000000 ≤ t → fromtimestamp t = none

namespace Calendar

def padded (width n : Nat) : String := String.ofList ((Nat.toDigits 10 n).leftpad width '0')

def civil (days : Nat) : Nat × Nat × Nat :=
  -- Years and months are counted from the first of March of the year 0, so that a
  -- leap day ends its year.
  let shifted := days + 719468
  let era := shifted / 146097
  let dayOfEra := shifted % 146097
  let yearOfEra := (dayOfEra - dayOfEra / 1460 + dayOfEra / 36524 - dayOfEra / 146096) / 365
  let dayOfYear := dayOfEra - (365 * yearOfEra + yearOfEra / 4 - yearOfEra / 100)
  let months := (5 * dayOfYear + 2) / 153
  let day := dayOfYear - (153 * months + 2) / 5 + 1
  let month := if months < 10 then months + 3 else months - 9
  (yearOfEra + era * 400 + if month ≤ 2 then 1 else 0, month, day)

/-- `"%Y-%m-%d %H:%M:%S.%f"`. -/
def strftime (t : Nat) : String :=
  let seconds := t / 1000000
  let (year, month, day) := civil (seconds / 86400)
  padded 4 year ++ "-" ++ padded 2 month ++ "-" ++ padded 2 day ++ " " ++
    padded 2 (seconds / 3600 % 24) ++ ":" ++ padded 2 (seconds / 60 % 60) ++ ":" ++
    padded 2 (seconds % 60) ++ "." ++ padded 6 (t % 1000000)

/-- A machine whose local time is UTC. The seconds are exact, where Python divides a
float by a million. -/
def utc : Calendar where
  fromtimestamp t := if t < 253402300800 * 1000000 then some (strftime t) else none
  epoch := rfl
  beyond _ h := if_neg (by omega)

example : utc.fromtimestamp 951827696789012 = some "2000-02-29 12:34:56.789012" := by
  decide +kernel

end Calendar

/-- The global variables. -/
structure Log where
  bytes : Nat
  latData : List (String × ℚ)
  bandData : List (String × ℚ)
  /-- No exception has ended the program. -/
  running : Bool

def Log.init : Log where
  bytes := 0
  latData := []
  bandData := []
  running := true

namespace Log

/-- One pass of the loop of `receive_pack`. -/
def receivePack (calendar : Calendar) (s : Log) (data : List UInt8) (recvTime : ℚ) : Log :=
  let counted : Log := { s with bytes := s.bytes + data.length }
  match unpack data with
  | none => counted
  | some (_, timestamp) =>
    let latency : ℚ := (recvTime - timestamp / 1000000) * 1000
    match calendar.fromtimestamp timestamp with
    | none => { counted with running := false }
    | some text => { counted with latData := s.latData ++ [(text, latency)] }

/-- One pass of the loop of `calculate_data`. -/
def calculateData (s : Log) (timestamp : String) : Log :=
  let bandwith : ℚ := s.bytes / 1024 / logInterval
  { s with
    bytes := 0
    bandData := if s.latData.isEmpty then s.bandData else s.bandData ++ [(timestamp, bandwith)] }

end Log

/-- What arrives on the port: the structures and the greeting of the node, from
whatever sender, or any other bytes. -/
inductive Arrival where
  | audio (packet : AudioPacket)
  | video (f : VideoFragment)
  | hello
  | other (bytes : List UInt8)

namespace Arrival

def bytes : Arrival → List UInt8
  | audio packet => packet.bytes
  | video f => f.bytes
  | hello => helloBytes
  | other bytes => bytes

def isAudio : Arrival → Bool
  | audio _ => true
  | _ => false

def ofDatagram : Datagram → Arrival
  | .hello => hello
  | .audio sequence samples => audio (.captured sequence samples)
  | .video f => video f

theorem bytes_ofDatagram (d : Datagram) : (ofDatagram d).bytes = d.bytes := by
  cases d <;> rfl

end Arrival

inductive Act where
  | datagram (arrival : Arrival) (recvTime : ℚ)
  | tick (timestamp : String)

def step (calendar : Calendar) (s : Log) (a : Act) : Option Log :=
  if s.running then
    match a with
    | .datagram arrival recvTime => some (s.receivePack calendar arrival.bytes recvTime)
    | .tick timestamp => some (s.calculateData timestamp)
  else none

def machine (calendar : Calendar) : Machine Log Act := ⟨step calendar⟩

section Unpack

theorem unpack_eq_none {data : List UInt8} : unpack data = none ↔ data.length < headerSize := by
  have hlength : (data.take headerSize).length < headerSize ↔ data.length < headerSize := by
    rw [List.length_take]
    omega
  unfold unpack
  rw [← hlength]
  constructor
  · intro h
    by_contra hlong
    rw [if_neg hlong] at h
    cases h
  · exact fun h => if_pos h

/-- The numbers are read where the packet has them. -/
theorem unpack_audio (packet : AudioPacket) :
    unpack packet.bytes = some (packet.aSequence.toNat, packet.timestamp.toNat) := by
  have hheader : packet.bytes.take headerSize =
      le 4 packet.aSequence.toNat ++ [0, 0, 0, 0] ++ le 8 packet.timestamp.toNat :=
    List.take_left' (by simp [headerSize])
  have hsequence : field (packet.bytes.take headerSize) 0 4 = packet.aSequence.toNat :=
    (field_eq [] _ (by simp [hheader]) rfl (by simp)).trans
      (leNat_le_of_lt packet.aSequence.toNat_lt : leNat (le 4 _) = _)
  have htimestamp : field (packet.bytes.take headerSize) 8 8 = packet.timestamp.toNat :=
    (field_eq (le 4 packet.aSequence.toNat ++ [0, 0, 0, 0]) _ (hheader ▸ List.prefix_rfl)
      (by simp) (by simp)).trans (leNat_le_of_lt packet.timestamp.toNat_lt : leNat (le 8 _) = _)
  have hlength : ¬(packet.bytes.take headerSize).length < headerSize := by
    rw [hheader]
    simp [headerSize]
  simp only [unpack, if_neg hlength, hsequence, htimestamp]

end Unpack

section Bandwidth

variable {calendar : Calendar}

def watchBytes (_ : Log) (a : Act) (received : Nat) : Nat :=
  match a with
  | .datagram arrival _ => received + arrival.bytes.length
  | .tick _ => received

def counted (calendar : Calendar) : Machine (Log × Nat) Act :=
  (machine calendar).monitored watchBytes

/-- No byte is dropped or counted twice. -/
def Conserved (p : Log × Nat) : Prop :=
  (p.2 : ℚ) = p.1.bytes + 1024 * logInterval * (p.1.bandData.map Prod.snd).sum

/-- A tick that throws its sample away finds no bytes. -/
def NothingLost (p : Log × Nat) : Act → Prop
  | .tick _ => p.1.latData = [] → p.1.bytes = 0
  | _ => True

theorem receivePack_bytes (calendar : Calendar) (s : Log) (data : List UInt8) (recvTime : ℚ) :
    (s.receivePack calendar data recvTime).bytes = s.bytes + data.length ∧
      (s.receivePack calendar data recvTime).bandData = s.bandData := by
  unfold Log.receivePack
  split
  · exact ⟨rfl, rfl⟩
  · split <;> exact ⟨rfl, rfl⟩

theorem conserved_calculateData {s : Log} {received : Nat} (h : Conserved (s, received))
    (timestamp : String) :
    Conserved (s.calculateData timestamp, received) ↔ (s.latData = [] → s.bytes = 0) := by
  unfold Conserved at h ⊢
  cases hempty : s.latData with
  | nil =>
    have hband : (s.calculateData timestamp).bandData = s.bandData := by
      simp [Log.calculateData, hempty]
    rw [hband, h]
    change _ = ((0 : Nat) : ℚ) + _ ↔ _
    rw [add_left_inj, Nat.cast_inj]
    constructor
    · exact fun hzero _ => hzero
    · exact fun hzero => hzero rfl
  | cons sample rest =>
    have hband : (s.calculateData timestamp).bandData =
        s.bandData ++ [(timestamp, s.bytes / 1024 / logInterval)] := by
      simp [Log.calculateData, hempty]
    apply iff_of_true _ nofun
    rw [hband, h, List.map_append, List.sum_append, List.map_singleton, List.sum_singleton]
    change _ = ((0 : Nat) : ℚ) + _
    unfold logInterval
    push_cast
    ring

theorem conserved_step {p q : Log × Nat} {a : Act} (h : Conserved p)
    (hstep : (counted calendar).step p a = some q) : Conserved q ↔ NothingLost p a := by
  obtain ⟨s, received⟩ := p
  obtain ⟨next, total⟩ := q
  obtain ⟨hnext, rfl⟩ := Machine.monitored_step.mp hstep
  obtain ⟨-, hsome⟩ := Option.ite_none_right_eq_some.mp hnext
  cases a with
  | datagram arrival recvTime =>
    obtain rfl := Option.some.inj hsome
    obtain ⟨hbytes, hband⟩ := receivePack_bytes calendar s arrival.bytes recvTime
    apply iff_of_true _ trivial
    unfold Conserved at h ⊢
    rw [hbytes, hband, watchBytes]
    push_cast
    rw [h]
    ring
  | tick timestamp =>
    obtain rfl := Option.some.inj hsome
    exact conserved_calculateData h timestamp

/-- Over a whole run the bytes received are those counted and those logged,
exactly when no tick finds bytes before the first latency sample. -/
theorem conserved_iff_nothingLost {actions : List Act} {finish : Log × Nat}
    (hrun : (counted calendar).run (.init, 0) actions = some finish) :
    (counted calendar).Throughout Conserved (.init, 0) actions ↔
      (counted calendar).Respects NothingLost (.init, 0) actions := by
  apply Machine.throughout_iff_respects_of_step _ _ hrun
  · intro p a q h hstep
    exact conserved_step h hstep
  · simp [Conserved, Log.init]

def packetRun : List Act :=
  [.datagram .hello 0, .datagram (.audio (.captured 0 .silence)) 1, .tick "1970-01-01 00:00:01"]

theorem conserved_iff_nothingLost_packetRun :
    (counted .utc).Throughout Conserved (.init, 0) packetRun ↔
      (counted .utc).Respects NothingLost (.init, 0) packetRun :=
  conserved_iff_nothingLost rfl

/-- A greeting before the first packet is counted and thrown away. -/
theorem greeting_lost :
    ∃ finish, (counted .utc).run (.init, 0)
        [.datagram .hello 0, .tick "1970-01-01 00:00:01"] = some finish ∧
      finish.2 = 5 ∧ finish.1 = .init ∧ ¬Conserved finish := by
  refine ⟨(.init, 5), rfl, rfl, rfl, ?_⟩
  simp [Conserved, Log.init]

end Bandwidth

section Latency

variable {calendar : Calendar}

def watchAudio (_ : Log) (a : Act) (packets : Nat) : Nat :=
  match a with
  | .datagram arrival _ => if arrival.isAudio then packets + 1 else packets
  | .tick _ => packets

def classified (calendar : Calendar) : Machine (Log × Nat) Act :=
  (machine calendar).monitored watchAudio

/-- The loop goes on, with one latency sample for each `Audio_Packet`. -/
def Classifies (p : Log × Nat) : Prop := p.1.running = true ∧ p.1.latData.length = p.2

namespace Arrival

/-- The time of an `Audio_Packet` is one of the calendar, and anything else is
too short to be taken for one. -/
def Recognised (calendar : Calendar) : Arrival → Prop
  | audio packet => (calendar.fromtimestamp packet.timestamp.toNat).isSome = true
  | arrival => arrival.bytes.length < headerSize

/-- Of what the node sends, exactly the video is not. -/
theorem recognised_ofDatagram (calendar : Calendar) (d : Datagram) :
    (ofDatagram d).Recognised calendar ↔ d.isVideo = false := by
  cases d with
  | hello =>
    have hshort : helloBytes.length < headerSize := by decide
    exact iff_of_true hshort rfl
  | audio sequence samples => exact iff_of_true calendar.epoch rfl
  | video f =>
    apply iff_of_false
    · change ¬f.bytes.length < headerSize
      rw [f.length_bytes]
      decide
    · exact Bool.noConfusion

end Arrival

def Act.Recognised (calendar : Calendar) : Act → Prop
  | .datagram arrival _ => arrival.Recognised calendar
  | .tick _ => True

theorem receivePack_short {s : Log} {data : List UInt8} (h : data.length < headerSize)
    (recvTime : ℚ) :
    s.receivePack calendar data recvTime = { s with bytes := s.bytes + data.length } := by
  unfold Log.receivePack
  rw [unpack_eq_none.mpr h]

/-- A longer datagram leaves a sample if its time is one of the calendar, and
ends the loop if not. -/
theorem receivePack_long (calendar : Calendar) (s : Log) {data : List UInt8}
    {seqNum timestamp : Nat} (hunpack : unpack data = some (seqNum, timestamp)) (recvTime : ℚ) :
    let next := s.receivePack calendar data recvTime
    if (calendar.fromtimestamp timestamp).isSome = true then
      next.running = s.running ∧ next.latData.length = s.latData.length + 1
    else next.running = false := by
  unfold Log.receivePack
  simp only [hunpack]
  cases calendar.fromtimestamp timestamp with
  | none => exact rfl
  | some text => exact ⟨rfl, List.length_append⟩

/-- A time past the year 9999 ends the loop, whoever has sent it. -/
theorem receivePack_beyond (s : Log) {data : List UInt8} {seqNum timestamp : Nat}
    (hunpack : unpack data = some (seqNum, timestamp))
    (hbeyond : (253402300800 + 86400) * 1000000 ≤ timestamp) (recvTime : ℚ) :
    (s.receivePack calendar data recvTime).running = false := by
  have hnext := receivePack_long calendar s hunpack recvTime
  rw [calendar.beyond timestamp hbeyond] at hnext
  exact hnext

example : (Log.init.receivePack .utc (List.replicate 16 255) 2).running = false := rfl

theorem classifies_audio {s : Log} {packets : Nat} (h : Classifies (s, packets))
    (packet : AudioPacket) (recvTime : ℚ) :
    Classifies (s.receivePack calendar packet.bytes recvTime, packets + 1) ↔
      (calendar.fromtimestamp packet.timestamp.toNat).isSome = true := by
  have hnext := receivePack_long calendar s (unpack_audio packet) recvTime
  constructor
  · intro hclassifies
    by_contra htime
    rw [if_neg htime] at hnext
    exact Bool.noConfusion (hnext.symm.trans hclassifies.1)
  · intro htime
    rw [if_pos htime] at hnext
    exact ⟨hnext.1.trans h.1, hnext.2.trans (congrArg Nat.succ h.2)⟩

theorem classifies_other {s : Log} {packets : Nat} (h : Classifies (s, packets))
    (data : List UInt8) (recvTime : ℚ) :
    Classifies (s.receivePack calendar data recvTime, packets) ↔ data.length < headerSize := by
  constructor
  · rintro ⟨hgoes, hcount⟩
    by_contra hlong
    obtain ⟨⟨seqNum, timestamp⟩, hunpack⟩ :=
      Option.ne_none_iff_exists'.mp (mt unpack_eq_none.mp hlong)
    have hnext := receivePack_long calendar s hunpack recvTime
    simp only at hnext hgoes hcount
    split at hnext
    · have hsame : s.latData.length = packets := h.2
      omega
    · exact Bool.noConfusion (hnext.symm.trans hgoes)
  · intro hshort
    rw [receivePack_short hshort]
    exact h

theorem classifies_step {p q : Log × Nat} {a : Act} (h : Classifies p)
    (hstep : (classified calendar).step p a = some q) :
    Classifies q ↔ a.Recognised calendar := by
  obtain ⟨s, packets⟩ := p
  obtain ⟨next, total⟩ := q
  obtain ⟨hnext, rfl⟩ := Machine.monitored_step.mp hstep
  obtain ⟨-, hsome⟩ := Option.ite_none_right_eq_some.mp hnext
  cases a with
  | tick timestamp =>
    obtain rfl := Option.some.inj hsome
    exact iff_of_true h trivial
  | datagram arrival recvTime =>
    obtain rfl := Option.some.inj hsome
    cases arrival with
    | audio packet => exact classifies_audio h packet recvTime
    | video f => exact classifies_other h f.bytes recvTime
    | hello => exact classifies_other h helloBytes recvTime
    | other bytes => exact classifies_other h bytes recvTime

/-- Over a whole run the loop goes on with one sample for each `Audio_Packet`
and no other, exactly when every arrival is recognised. -/
theorem classifies_iff_recognised {actions : List Act} {finish : Log × Nat}
    (hrun : (classified calendar).run (.init, 0) actions = some finish) :
    (classified calendar).Throughout Classifies (.init, 0) actions ↔
      ∀ a ∈ actions, a.Recognised calendar := by
  rw [← Machine.respects_iff_forall_mem hrun]
  apply Machine.throughout_iff_respects_of_step _ _ hrun
  · intro p a q h hstep
    exact classifies_step h hstep
  · exact ⟨rfl, rfl⟩

theorem classifies_iff_recognised_packetRun :
    (classified .utc).Throughout Classifies (.init, 0) packetRun := by
  apply (classifies_iff_recognised rfl).mpr
  intro a ha
  rcases List.mem_cons.mp ha with rfl | ha
  · exact (Arrival.recognised_ofDatagram .utc .hello).mpr rfl
  · rcases List.mem_cons.mp ha with rfl | ha
    · exact (Arrival.recognised_ofDatagram .utc (.audio 0 .silence)).mpr rfl
    · obtain rfl := List.mem_singleton.mp ha
      trivial

def blackFragment : VideoFragment where
  frameSeq := 0
  fragmentI := 0
  totalFragments := 1
  lastFragment := true
  fragmentS := 1400
  fdata := List.replicate 1400 0
  length_fdata := List.length_replicate

/-- A fragment leaves a sample, though there was no `Audio_Packet`. -/
theorem fragment_sampled :
    ∃ finish, (classified .utc).run (.init, 0) [.datagram (.video blackFragment) 2] =
        some finish ∧
      finish.2 = 0 ∧ finish.1.latData.length = 1 ∧ ¬Classifies finish := by
  refine ⟨(Log.init.receivePack .utc blackFragment.bytes 2, 0), rfl, rfl, rfl, ?_⟩
  intro hclassifies
  exact absurd hclassifies.2 Nat.one_ne_zero

end Latency

end MediaStream.OnlineAV.Measure
