import Mathlib.Algebra.Ring.Nat
import MediaStream.Lib.ByteStream
import MediaStream.TCPS.Client.Process

/-!
`Measure.py` behind the streaming client: `audio_cap` writes a timestamp and the
captured audio, and `listen_on_port` takes eight bytes for a timestamp and
whatever the next `recv` returns for the audio. No length is written, so the two
agree only as long as each of these calls returns the audio of one packet.
-/

namespace MediaStream.TCPS.Measure

open Lib Lib.Bytes Client

def maxLatencyPoints : Nat := 1000

/-- What `audio_cap` writes in one pass of its loop. -/
structure Packet where
  timestamp : Int64
  audio : List UInt8
  frames : audio.length % frameBytes = 0
  length_le : audio.length ≤ sizeofBuffer

namespace Packet

def bytes (p : Packet) : List UInt8 := le 8 (p.timestamp.toInt % 2 ^ 64).toNat ++ p.audio

def stream (packets : List Packet) : List UInt8 := packets.flatMap bytes

def timestamps (packets : List Packet) : List Int := packets.map fun p => p.timestamp.toInt

def audioBytes (packets : List Packet) : Nat := (packets.map fun p => p.audio.length).sum

end Packet

def unpack (header : List UInt8) : Int := (Int64.ofNat (leNat header)).toInt

/-- Program points of `listen_on_port`. -/
inductive Point where
  /-- At `conn.recv(8)`. -/
  | header
  /-- At `conn.recv(1024)`. -/
  | data (timestamp : Int)
  /-- The connection is closed, or all points have been collected. -/
  | plot
  /-- After a `socket.error`. -/
  | failed
  deriving DecidableEq

structure Listener where
  /-- The bytes that `conn` has not returned yet. -/
  inFlight : List UInt8
  point : Point
  /-- What `struct.unpack` has returned. -/
  unpacked : List Int
  timestamps : List Int
  latencyValues : List Int
  /-- `len(data)`, which the source stores as a number of KB. -/
  bandwidthValues : List Nat

def Listener.init (inFlight : List UInt8) : Listener where
  inFlight := inFlight
  point := .header
  unpacked := []
  timestamps := []
  latencyValues := []
  bandwidthValues := []

inductive Act where
  /-- `conn.recv(8)` returns `n` bytes. -/
  | header (n : Nat)
  /-- `conn.recv(1024)` returns `n` bytes, and the clock is read. -/
  | data (n : Nat) (currentTime : Int)
  /-- `conn.recv` returns no bytes. -/
  | closed
  | error
  deriving DecidableEq

namespace Listener

def unpackHeader (s : Listener) (header rest : List UInt8) : Listener :=
  if header.length < 8 then { s with inFlight := rest, point := .plot }
  else { s with
    inFlight := rest
    unpacked := s.unpacked ++ [unpack header]
    point := .data (unpack header) }

def store (s : Listener) (timestamp currentTime : Int) (data rest : List UInt8) : Listener :=
  let latencyValues := s.latencyValues ++ [currentTime - timestamp]
  { s with
    inFlight := rest
    timestamps := s.timestamps ++ [currentTime]
    latencyValues := latencyValues
    bandwidthValues := s.bandwidthValues ++ [data.length]
    point := if maxLatencyPoints ≤ latencyValues.length then .plot else .header }

def step (s : Listener) (a : Act) : Option Listener :=
  match a, s.point with
  | .header n, .header =>
    (ByteStream.recv s.inFlight 8 n).map fun (header, rest) => s.unpackHeader header rest
  | .data n currentTime, .data timestamp =>
    (ByteStream.recv s.inFlight 1024 n).map fun (data, rest) =>
      s.store timestamp currentTime data rest
  | .closed, .header | .closed, .data _ =>
    if s.inFlight = [] then some { s with point := .plot } else none
  | .error, .header | .error, .data _ => some { s with point := .failed }
  | _, _ => none

def machine : Machine Listener Act := ⟨step⟩

theorem data_cases {s next : Listener} {n : Nat} {currentTime : Int}
    (hstep : s.step (.data n currentTime) = some next) :
    ∃ timestamp data rest, s.point = .data timestamp ∧
      ByteStream.recv s.inFlight 1024 n = some (data, rest) ∧
      s.store timestamp currentTime data rest = next := by
  cases hpoint : s.point <;> simp only [step, hpoint, reduceCtorEq] at hstep
  case data timestamp =>
    obtain ⟨⟨data, rest⟩, hrecv, rfl⟩ := Option.map_eq_some_iff.mp hstep
    exact ⟨timestamp, data, rest, rfl, hrecv, rfl⟩

/-- The timestamps are those of the first packets, and between two packets the
audio that has been recorded is as long as theirs. -/
structure Agrees (packets : List Packet) (s : Listener) : Prop where
  timestamps : s.unpacked <+: Packet.timestamps packets
  audio : s.point = .header ∨ s.point = .plot →
    s.bandwidthValues.sum = Packet.audioBytes (packets.take s.unpacked.length)

/-- What `conn.recv(1024)` returns is as long as the audio of the packet whose
timestamp has been unpacked last. -/
def WholeAudio (packets : List Packet) (s : Listener) : Act → Prop
  | .data n _ => packets[s.unpacked.length - 1]?.map (fun p => p.audio.length) = some n
  | _ => True

/-- Where the stream is cut: at the start of a packet, or after its timestamp. -/
def Aligned (packets : List Packet) (s : Listener) : Prop :=
  match s.point with
  | .header => ∃ earlier later, packets = earlier ++ later ∧
      s.unpacked = Packet.timestamps earlier ∧ s.inFlight = Packet.stream later ∧
      s.bandwidthValues.sum = Packet.audioBytes earlier
  | .data _ => ∃ earlier p later, packets = earlier ++ p :: later ∧
      s.unpacked = Packet.timestamps (earlier ++ [p]) ∧
      s.inFlight = p.audio ++ Packet.stream later ∧
      s.bandwidthValues.sum = Packet.audioBytes earlier
  | _ => True

end Listener

namespace Packet

theorem unpack_timestamp (timestamp : Int64) :
    unpack (le 8 (timestamp.toInt % 2 ^ 64).toNat) = timestamp.toInt := by
  have hsize : timestamp.toInt % 2 ^ 64 = timestamp.toInt % Int64.size := rfl
  have hnonneg : 0 ≤ timestamp.toInt % Int64.size := Int.emod_nonneg _ (by decide)
  have hbound : (timestamp.toInt % Int64.size).toNat < 256 ^ 8 := by
    have hlt : timestamp.toInt % Int64.size < Int64.size := Int.emod_lt_of_pos _ (by decide)
    unfold Int64.size at hlt ⊢
    omega
  rw [unpack, hsize, leNat_le_of_lt hbound, Int64.toInt_ofNat', Int.toNat_of_nonneg hnonneg,
    Int.emod_bmod, Int64.toInt_bmod_size]

/-- The eight bytes of a header never reach into the audio. -/
theorem header_of_stream {packets : List Packet} {header rest : List UInt8}
    (hcut : stream packets = header ++ rest) (hlength : header.length = 8) :
    ∃ p later, packets = p :: later ∧ unpack header = p.timestamp.toInt ∧
      rest = p.audio ++ stream later := by
  cases packets with
  | nil =>
    have hnil : header = [] := (List.append_eq_nil_iff.mp hcut.symm).1
    rw [hnil] at hlength
    cases hlength
  | cons p later =>
    rw [stream, List.flatMap_cons, bytes, List.append_assoc] at hcut
    obtain ⟨hheader, hrest⟩ := List.append_inj hcut (by rw [Bytes.length_le, hlength])
    exact ⟨p, later, rfl, hheader ▸ unpack_timestamp p.timestamp, hrest.symm⟩

@[simp] theorem length_timestamps (packets : List Packet) :
    (timestamps packets).length = packets.length := List.length_map ..

theorem timestamps_append (earlier later : List Packet) :
    timestamps (earlier ++ later) = timestamps earlier ++ timestamps later := List.map_append

theorem audioBytes_snoc (earlier : List Packet) (p : Packet) :
    audioBytes (earlier ++ [p]) = audioBytes earlier + p.audio.length := by
  simp [audioBytes]

section Written

variable {cfg : Setup} {s next : Process}

/-- The packets that have been written to the visualizer socket. -/
def written (calls : List Call) : List (List UInt8) :=
  calls.filterMap fun
    | .send .localSockfdCap bytes => bytes
    | _ => none

theorem written_append (calls new : List Call) :
    written (calls ++ new) = written calls ++ written new := List.filterMap_append

/-- The frames to be sent have been captured in one pass. -/
def Captured (s : Process) : Prop :=
  ∀ frCapture timestamp, s.audioCap = .send frCapture timestamp ∨
    s.audioCap = .sendPacket frCapture timestamp → frCapture ≤ buffSize

theorem Captured.of_same (h : Captured s) (hsame : next.audioCap = s.audioCap) :
    Captured next := by
  intro frCapture timestamp hsend
  rw [hsame] at hsend
  exact h frCapture timestamp hsend

/-- At one of the two calls of `send`. -/
def sending : AudioCap → Bool
  | .send _ _ | .sendPacket _ _ => true
  | _ => false

theorem Captured.elsewhere (h : sending s.audioCap = false) : Captured s := by
  rintro frCapture timestamp (hpoint | hpoint)
  · rw [hpoint] at h
    cases h
  · rw [hpoint] at h
    cases h

theorem length_captured {frCapture : Nat} (h : frCapture ≤ buffSize) :
    (s.captured frCapture).length = frCapture * frameBytes := by
  rw [Process.captured, List.length_take, s.buffer.length_bytes]
  exact Nat.min_eq_left (Nat.mul_le_mul_right _ h)

theorem packet_eq_bytes {frCapture : Nat} (h : frCapture ≤ buffSize) (timestamp : Int) :
    ∃ p : Packet, s.packet frCapture timestamp = p.bytes := by
  have hlength := length_captured (s := s) h
  refine ⟨⟨Int64.ofInt timestamp, s.captured frCapture, ?_, ?_⟩, ?_⟩
  · rw [hlength, Nat.mul_mod_left]
  · rw [hlength]
    exact Nat.mul_le_mul_right _ h
  · have hsame : (Int64.ofInt timestamp).toInt % Int64.size = timestamp % Int64.size := by
      rw [Int64.toInt_ofInt, Int.bmod_emod]
    exact congrArg (fun n : Int => le 8 n.toNat ++ s.captured frCapture) hsame.symm

/-- One packet is written in each pass. -/
theorem audioCap_written {a : AudioCapAct} (h : Captured s)
    (hstep : (Process.machine cfg).step s (.audioCap a) = some next) :
    Captured next ∧ (written next.calls = written s.calls ∨
      ∃ p : Packet, written next.calls = written s.calls ++ [p.bytes]) := by
  cases audioCap_iff.mp hstep with
  | capture audio now hpc hframes =>
    refine ⟨?_, Or.inl rfl⟩
    rintro frCapture timestamp (hsend | hsend) <;> cases hsend
    exact Nat.div_le_of_le_mul (by rw [Nat.mul_comm]; exact hframes.2)
  | recover now hpc =>
    refine ⟨?_, Or.inl rfl⟩
    rintro frCapture timestamp (hsend | hsend) <;> cases hsend
    exact Nat.zero_le _
  | send frCapture timestamp hpc =>
    refine ⟨?_, Or.inl (filterMap_call fun name hsome => ?_)⟩
    · rintro _ _ (hsend | hsend) <;> cases hsend
      exact h frCapture timestamp (Or.inl hpc)
    · exact Option.some.inj hsome ▸ rfl
  | sendPacket frCapture timestamp hpc hview =>
    obtain ⟨p, hp⟩ := packet_eq_bytes (s := s) (h _ _ (Or.inr hpc)) timestamp
    refine ⟨.elsewhere rfl, Or.inr ⟨p, ?_⟩⟩
    change written (s.calls ++ [_]) = _
    rw [written_append, ← hp]
    rfl
  | sendError | sendPacketError | closeSockfd | closeLocal =>
    refine ⟨.elsewhere rfl, Or.inl (filterMap_call fun name _ => ?_)⟩
    cases name <;> rfl
  | openCapture | openCaptureError | test | stop | captureError | recoverError =>
    exact ⟨.elsewhere rfl, Or.inl rfl⟩

/-- The others write nothing to the visualizer socket. -/
theorem playAudio_written {a : PlayAudioAct}
    (hstep : (Process.machine cfg).step s (.playAudio a) = some next) :
    written next.calls = written s.calls := by
  cases playAudio_iff.mp hstep with
  | recv | sendLocal => exact filterMap_call fun name hsome => Option.some.inj hsome ▸ rfl
  | recvEnd | sendLocalError | close =>
    apply filterMap_call
    intro name _
    cases name <;> rfl
  | openPlayback | openPlaybackError | test | stop | write | underrun | writeError | prepare
  | prepareError => rfl

/-- What the client writes to the visualizer socket is a sequence of packets. -/
theorem written_packets {buffer : Bytes.Buffer sizeofBuffer}
    (h : (Process.machine cfg).Reaches (Process.init buffer) s) :
    ∃ packets : List Packet, (written s.calls).flatten = stream packets := by
  have hall : Captured s ∧ ∃ packets : List Packet, (written s.calls).flatten = stream packets := by
    apply h.preserves (P := fun s => Captured s ∧
      ∃ packets : List Packet, (written s.calls).flatten = stream packets)
    · rintro s a next ⟨hcaptured, packets, hpackets⟩ hstep
      cases a with
      | audioCap a =>
        obtain ⟨hnext, hsame | ⟨p, hp⟩⟩ := audioCap_written hcaptured hstep
        · exact ⟨hnext, packets, hsame ▸ hpackets⟩
        · refine ⟨hnext, packets ++ [p], ?_⟩
          rw [hp, List.flatten_append, hpackets, stream, stream, List.flatMap_append]
          rfl
      | playAudio a =>
        have hsame := (playAudio_step hstep).1
        exact ⟨hcaptured.of_same hsame, packets, playAudio_written hstep ▸ hpackets⟩
      | main =>
        obtain ⟨hsame, -, -, -, socket, hcalls⟩ := main_step hstep
        have hwritten : written next.calls = written s.calls := by
          rw [hcalls]
          exact filterMap_call fun _ _ => rfl
        exact ⟨hcaptured.of_same hsame, packets, hwritten ▸ hpackets⟩
    · exact ⟨.elsewhere rfl, [], rfl⟩
  exact hall.2

end Written

end Packet

namespace Listener

section Step

variable {packets : List Packet} {s next : Listener}

/-- With the timestamps of the first packets unpacked, only their audio matters. -/
theorem agrees_iff_of_split {earlier later : List Packet} (hpackets : packets = earlier ++ later)
    (hunpacked : s.unpacked = Packet.timestamps earlier) :
    Agrees packets s ↔ (s.point = .header ∨ s.point = .plot →
      s.bandwidthValues.sum = Packet.audioBytes earlier) := by
  have htake : packets.take s.unpacked.length = earlier := by
    rw [hunpacked, Packet.length_timestamps, hpackets, List.take_left]
  constructor
  · intro h hbetween
    rw [h.audio hbetween, htake]
  · intro h
    constructor
    case timestamps =>
      rw [hunpacked, hpackets, Packet.timestamps_append]
      exact List.prefix_append ..
    case audio =>
      intro hbetween
      rw [htake]
      exact h hbetween

/-- A timestamp is unpacked, or the loop ends with the audio of all packets so
far recorded. -/
theorem header_step {n : Nat} (h : Aligned packets s) (hstep : s.step (.header n) = some next) :
    Agrees packets next ∧ Aligned packets next := by
  cases hpoint : s.point <;> simp only [step, hpoint, reduceCtorEq] at hstep
  case header =>
    rw [Aligned, hpoint] at h
    obtain ⟨earlier, later, hpackets, hunpacked, hstream, haudio⟩ := h
    obtain ⟨⟨header, rest⟩, hrecv, rfl⟩ := Option.map_eq_some_iff.mp hstep
    obtain ⟨hcut, rfl, -, hsize⟩ := ByteStream.recv_eq_some.mp hrecv
    change Agrees packets (s.unpackHeader header rest) ∧
      Aligned packets (s.unpackHeader header rest)
    unfold unpackHeader
    split
    case isTrue hshort =>
      refine ⟨?_, trivial⟩
      apply (agrees_iff_of_split hpackets ?_).mpr
      · exact fun _ => haudio
      · exact hunpacked
    case isFalse hfull =>
      rw [hstream] at hcut
      obtain ⟨p, after, rfl, htimestamp, hrest⟩ :=
        Packet.header_of_stream hcut (by omega)
      have hnow : s.unpacked ++ [unpack header] = Packet.timestamps (earlier ++ [p]) := by
        rw [hunpacked, htimestamp, Packet.timestamps_append]
        rfl
      constructor
      · apply (agrees_iff_of_split (hpackets.trans (List.append_cons ..)) ?_).mpr
        · rintro (hheader | hplot)
          · cases hheader
          · cases hplot
        · exact hnow
      · exact ⟨earlier, p, after, hpackets, hnow, hrest, haudio⟩

/-- What is recorded is right when all of the packet's audio has been received,
and nothing more. -/
theorem data_step {n : Nat} {currentTime : Int} (h : Aligned packets s)
    (hstep : s.step (.data n currentTime) = some next) :
    (Agrees packets next ↔ WholeAudio packets s (.data n currentTime)) ∧
      (Agrees packets next → Aligned packets next) := by
  obtain ⟨timestamp, data, rest, hpoint, hrecv, rfl⟩ := data_cases hstep
  rw [Aligned, hpoint] at h
  obtain ⟨earlier, p, later, hpackets, hunpacked, hstream, haudio⟩ := h
  obtain ⟨hcut, hlength, -, -⟩ := ByteStream.recv_eq_some.mp hrecv
  have hsplit : packets = (earlier ++ [p]) ++ later := hpackets.trans (List.append_cons ..)
  have hlast : packets[s.unpacked.length - 1]? = some p := by
    rw [hunpacked, Packet.length_timestamps, hpackets, List.length_append, List.length_singleton,
      Nat.add_sub_cancel, List.getElem?_append_right (Nat.le_refl _), Nat.sub_self]
    rfl
  have hwhole : WholeAudio packets s (.data n currentTime) ↔ p.audio.length = n := by
    rw [WholeAudio, hlast, Option.map_some, Option.some_inj]
  have hsum : (s.store timestamp currentTime data rest).bandwidthValues.sum =
      Packet.audioBytes earlier + n := by
    rw [store, List.sum_append, haudio, List.sum_singleton, hlength]
  have hbetween : (s.store timestamp currentTime data rest).point = .header ∨
      (s.store timestamp currentTime data rest).point = .plot := by
    simp only [store]
    split
    · exact Or.inr rfl
    · exact Or.inl rfl
  have hagrees : Agrees packets (s.store timestamp currentTime data rest) ↔
      p.audio.length = n := by
    apply (agrees_iff_of_split hsplit ?_).trans
    rw [hsum, Packet.audioBytes_snoc]
    constructor
    · intro hall
      exact (Nat.add_left_cancel (hall hbetween)).symm
    · intro hall _
      rw [hall]
    · exact hunpacked
  refine ⟨hagrees.trans hwhole.symm, fun hnow => ?_⟩
  rw [hstream] at hcut
  obtain ⟨-, hrest⟩ := List.append_inj hcut ((hagrees.mp hnow).trans hlength.symm)
  have htotal : (s.store timestamp currentTime data rest).bandwidthValues.sum =
      Packet.audioBytes (earlier ++ [p]) := by
    rw [hsum, Packet.audioBytes_snoc, hagrees.mp hnow]
  change Aligned packets (s.store timestamp currentTime data rest)
  rcases hbetween with hheader | hplot
  · rw [Aligned, hheader]
    exact ⟨earlier ++ [p], later, hsplit, hunpacked, hrest.symm, htotal⟩
  · rw [Aligned, hplot]
    trivial

/-- The connection is closed when every byte has been received. -/
theorem closed_step (h : Aligned packets s) (hstep : s.step .closed = some next) :
    Agrees packets next ∧ Aligned packets next := by
  cases hpoint : s.point <;>
    simp only [step, hpoint, Option.ite_none_right_eq_some, Option.some.injEq, reduceCtorEq]
      at hstep <;>
    rw [Aligned, hpoint] at h
  case header =>
    obtain ⟨-, rfl⟩ := hstep
    obtain ⟨earlier, later, hpackets, hunpacked, -, haudio⟩ := h
    refine ⟨?_, trivial⟩
    apply (agrees_iff_of_split hpackets ?_).mpr
    · exact fun _ => haudio
    · exact hunpacked
  case data timestamp =>
    obtain ⟨hnil, rfl⟩ := hstep
    obtain ⟨earlier, p, later, hpackets, hunpacked, hstream, haudio⟩ := h
    have hempty : p.audio = [] := (List.append_eq_nil_iff.mp (hstream.symm.trans hnil)).1
    refine ⟨?_, trivial⟩
    apply (agrees_iff_of_split (hpackets.trans (List.append_cons ..)) ?_).mpr
    · intro _
      rw [Packet.audioBytes_snoc, hempty]
      exact haudio
    · exact hunpacked

theorem error_step (h : Agrees packets s) (hstep : s.step .error = some next) :
    Agrees packets next ∧ Aligned packets next := by
  have hfailed : next = { s with point := .failed } := by
    cases hpoint : s.point <;>
      simp only [step, hpoint, reduceCtorEq, Option.some.injEq] at hstep <;>
      exact hstep.symm
  subst hfailed
  refine ⟨⟨h.timestamps, ?_⟩, trivial⟩
  rintro (hheader | hplot)
  · cases hheader
  · cases hplot

theorem agrees_step {a : Act} (h : Aligned packets s) (hagrees : Agrees packets s)
    (hstep : s.step a = some next) :
    (Agrees packets next ↔ WholeAudio packets s a) ∧
      (Agrees packets next → Aligned packets next) := by
  cases a with
  | header n =>
    obtain ⟨hnow, haligned⟩ := header_step h hstep
    exact ⟨iff_of_true hnow trivial, fun _ => haligned⟩
  | data n currentTime => exact data_step h hstep
  | closed =>
    obtain ⟨hnow, haligned⟩ := closed_step h hstep
    exact ⟨iff_of_true hnow trivial, fun _ => haligned⟩
  | error =>
    obtain ⟨hnow, haligned⟩ := error_step hagrees hstep
    exact ⟨iff_of_true hnow trivial, fun _ => haligned⟩

theorem aligned_init (packets : List Packet) : Aligned packets (init (Packet.stream packets)) :=
  ⟨[], packets, rfl, rfl, rfl, rfl⟩

theorem agrees_init (packets : List Packet) : Agrees packets (init (Packet.stream packets)) where
  timestamps := List.nil_prefix
  audio := fun _ => rfl

/-- Over a whole run the unpacked timestamps are those of the first packets and
the recorded audio is as long as theirs, exactly when each `recv` for the audio
returns that of one packet. -/
theorem agrees_iff_wholeAudio {packets : List Packet} {actions : List Act} {finish : Listener}
    (hrun : machine.run (init (Packet.stream packets)) actions = some finish) :
    machine.Throughout (Agrees packets) (init (Packet.stream packets)) actions ↔
      machine.Respects (WholeAudio packets) (init (Packet.stream packets)) actions := by
  apply Machine.throughout_iff_respects (I := Aligned packets) _ _ (aligned_init packets)
    (agrees_init packets) hrun
  · intro s a next haligned hagrees hstep
    exact (agrees_step haligned hagrees hstep).1
  · intro s a next haligned hagrees hstep
    exact (agrees_step haligned hagrees hstep).2

end Step

section Long

/-- No `recv` returns more than 1024 bytes, and `audio_cap` mostly sends more. -/
theorem not_agrees_of_long {packets : List Packet} {s next : Listener} {n : Nat}
    {currentTime : Int} {p : Packet} (haligned : Aligned packets s)
    (hlast : packets[s.unpacked.length - 1]? = some p) (hlong : 1024 < p.audio.length)
    (hstep : s.step (.data n currentTime) = some next) : ¬Agrees packets next := by
  rw [(data_step haligned hstep).1, WholeAudio, hlast, Option.map_some, Option.some_inj]
  obtain ⟨timestamp, data, rest, -, hrecv, -⟩ := data_cases hstep
  have hbound : n ≤ 1024 := (ByteStream.recv_eq_some.mp hrecv).2.2.2
  omega

/-- A timestamp may be received at once. -/
theorem header_received {packets later : List Packet} {s : Listener} {p : Packet}
    (haligned : Aligned packets s) (hpoint : s.point = .header)
    (hcut : s.inFlight = Packet.stream (p :: later)) :
    ∃ next, machine.step s (.header 8) = some next ∧ Aligned packets next ∧
      next.point = .data p.timestamp.toInt ∧ next.inFlight = p.audio ++ Packet.stream later ∧
      next.unpacked = s.unpacked ++ [p.timestamp.toInt] := by
  have hlength : (le 8 (p.timestamp.toInt % 2 ^ 64).toNat).length = 8 := Bytes.length_le ..
  have hrecv : ByteStream.recv s.inFlight 8 8 =
      some (le 8 (p.timestamp.toInt % 2 ^ 64).toNat, p.audio ++ Packet.stream later) := by
    rw [ByteStream.recv_eq_some, hcut, Packet.stream, List.flatMap_cons, Packet.bytes,
      List.append_assoc]
    exact ⟨rfl, hlength, by decide, Nat.le_refl _⟩
  have hstep : machine.step s (.header 8) = some { s with
      inFlight := p.audio ++ Packet.stream later
      unpacked := s.unpacked ++ [p.timestamp.toInt]
      point := .data p.timestamp.toInt } := by
    simp only [machine, step, hpoint, hrecv, Option.map_some, unpackHeader, hlength, Nat.lt_irrefl,
      if_false, Packet.unpack_timestamp]
  exact ⟨_, hstep, (header_step haligned hstep).2, rfl, rfl, rfl⟩

/-! A pass of `audio_cap` that fills its buffer. -/

def fullBuffer : Packet where
  timestamp := 0
  audio := List.replicate sizeofBuffer 0
  frames := by rw [List.length_replicate]; rfl
  length_le := Nat.le_of_eq List.length_replicate

def oneFrame : Packet where
  timestamp := 0
  audio := [1, 2, 3, 4]
  frames := rfl
  length_le := by decide

theorem run_oneFrame : ∃ s, machine.run (init (Packet.stream [oneFrame]))
    [.header 8, .data 4 0, .closed] = some s := ⟨_, rfl⟩

theorem agrees_iff_wholeAudio_oneFrame :
    machine.Throughout (Agrees [oneFrame]) (init (Packet.stream [oneFrame]))
        [.header 8, .data 4 0, .closed] ↔
      machine.Respects (WholeAudio [oneFrame]) (init (Packet.stream [oneFrame]))
        [.header 8, .data 4 0, .closed] := by
  obtain ⟨s, hrun⟩ := run_oneFrame
  exact agrees_iff_wholeAudio hrun

/-- Of the 4096 bytes of audio 1024 are recorded. -/
theorem fullBuffer_not_recorded :
    ∃ s, machine.Reaches (init (Packet.stream [fullBuffer])) s ∧ ¬Agrees [fullBuffer] s := by
  have hlong : 1024 < fullBuffer.audio.length := by
    rw [fullBuffer, List.length_replicate]
    decide
  have hstream : (init (Packet.stream [fullBuffer])).inFlight =
      Packet.stream (fullBuffer :: []) := rfl
  obtain ⟨s, hheader, haligned, hpoint, hcut, hunpacked⟩ :=
    header_received (aligned_init [fullBuffer]) rfl hstream
  have hlast : [fullBuffer][s.unpacked.length - 1]? = some fullBuffer := by
    rw [hunpacked]
    rfl
  obtain ⟨next, hdata⟩ : ∃ next, machine.step s (.data 1024 0) = some next := by
    have hrecv : ByteStream.recv s.inFlight 1024 1024 =
        some (s.inFlight.take 1024, s.inFlight.drop 1024) := by
      apply if_pos
      rw [hcut, List.length_append]
      omega
    simp only [machine, step, hpoint, hrecv, Option.map_some]
    exact ⟨_, rfl⟩
  exact ⟨next, ((Machine.Reaches.refl _ _).tail hheader).tail hdata,
    not_agrees_of_long haligned hlast hlong hdata⟩

end Long

end Listener

end MediaStream.TCPS.Measure
