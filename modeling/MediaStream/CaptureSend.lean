import MediaStream.IPcheck.Stream
import MediaStream.OnlineAV.AudioSend
import MediaStream.OnlineTracks.Process

/-!
What is captured against what is sent, in the senders of audio. `audio_cap` of
`UDPconn1.cpp` sends as many bytes as have been captured. The other three send
all of their buffer, whatever `snd_pcm_readi` has put into it.
-/

namespace MediaStream

open Lib Lib.Multicast

namespace OnlineTracks

def Act.captured : Act → List UInt8
  | audioCap (.capture audio) => audio
  | _ => []

namespace Process

/-- The frames that have been captured and not sent yet. -/
def pending (s : Process) : Payload :=
  match s.audioCap with
  | .send frCapture => s.payload frCapture
  | _ => []

def Starts (s : Process) : Prop := s.main = .startCapture → s.audioCap = .idle

end Process

variable {s next : Process}

/-- The bytes of a capture are at the start of `buffer`. -/
theorem payload_store {audio : List UInt8}
    (h : audio.length % frameBytes = 0 ∧ audio.length ≤ sizeofBuffer) (b : Buffer) :
    (b.store audio).bytes.take (audio.length / frameBytes * frameBytes) = audio := by
  obtain ⟨hframes, hfits⟩ := h
  rw [Nat.div_mul_cancel (Nat.dvd_of_mod_eq_zero hframes)]
  exact b.take_store hfits

/-- In each pass what is captured is what is sent. -/
theorem audioCap_captured {a : AudioCapAct} (ha : a ≠ .sendError)
    (h : Process.machine.step s (.audioCap a) = some next) :
    next.main = s.main ∧ s.audioCap ≠ .idle ∧
      next.sent.flatten ++ next.pending =
        s.sent.flatten ++ s.pending ++ (Act.audioCap a).captured := by
  cases audioCap_iff.mp h with
  | capture audio hpc hframes =>
    refine ⟨rfl, by simp [hpc], ?_⟩
    simp only [Process.pending, hpc, List.append_nil, Act.captured]
    exact congrArg _ (payload_store hframes s.buffer)
  | sendError => exact absurd rfl ha
  | openCapture hpc | openCaptureError hpc | test hpc _ | stop hpc _ | captureError hpc
  | recover hpc | recoverError hpc | send _ hpc | close hpc =>
    simp [Process.pending, Process.payload, hpc, Act.captured]

/-- The others neither capture nor send. -/
theorem elsewhere_captured {a : Act} (ha : ∀ b, a ≠ .audioCap b) (hstarts : s.Starts)
    (h : Process.machine.step s a = some next) :
    next.Starts ∧ next.sent = s.sent ∧ next.pending = s.pending ∧ a.captured = [] := by
  have hsame : next.audioCap = s.audioCap → next.buffer = s.buffer →
      next.pending = s.pending := by
    intro hpoint hbuffer
    unfold Process.pending Process.payload
    rw [hpoint, hbuffer]
  cases a with
  | audioCap b => exact absurd rfl (ha b)
  | playAudio b =>
    obtain ⟨-, hsent, hmain, -, hpoint⟩ := playAudio_step h
    have hbuffer : next.buffer = s.buffer := by
      cases playAudio_iff.mp h <;> rfl
    refine ⟨?_, hsent, hsame hpoint hbuffer, rfl⟩
    unfold Process.Starts
    rwa [hmain, hpoint]
  | main =>
    cases main_iff.mp h with
    | startCapture hpc =>
      exact ⟨Main.noConfusion, rfl, by simp [Process.pending, hstarts hpc], rfl⟩
    | startPlayback | lock | stopped | running | block | relock | unlock | joinCapture
    | joinPlayback | close => exact ⟨Main.noConfusion, rfl, rfl, rfl⟩
  | sigint =>
    obtain rfl := Option.some.inj h
    exact ⟨hstarts, rfl, rfl, rfl⟩
  | notifyAll =>
    obtain ⟨-, hsent, hwaiting, -, hpoint⟩ := notifyAll_step h
    change (if 0 < s.notifying then _ else _) = _ at h
    obtain ⟨-, hnext⟩ := (Option.ite_none_right_eq_some ..).mp h
    obtain rfl := Option.some.inj hnext
    refine ⟨?_, rfl, rfl, rfl⟩
    intro hmain
    change (if s.main = .waiting then Main.relock else s.main) = .startCapture at hmain
    split at hmain
    · cases hmain
    · exact hstarts hmain

theorem captured_step {a : Act} (ha : a ≠ .audioCap .sendError) (hstarts : s.Starts)
    (h : Process.machine.step s a = some next) :
    next.Starts ∧ next.sent.flatten ++ next.pending =
      s.sent.flatten ++ s.pending ++ a.captured := by
  have helse : (∀ b, a ≠ .audioCap b) → next.Starts ∧ next.sent.flatten ++ next.pending =
      s.sent.flatten ++ s.pending ++ a.captured := by
    intro hother
    obtain ⟨hnext, hsent, hpending, hnone⟩ := elsewhere_captured hother hstarts h
    refine ⟨hnext, ?_⟩
    rw [hsent, hpending, hnone, List.append_nil]
  cases a with
  | audioCap b =>
    have hb : b ≠ .sendError := by
      rintro rfl
      exact ha rfl
    obtain ⟨hmain, hpoint, hsent⟩ := audioCap_captured hb h
    refine ⟨?_, hsent⟩
    intro hstart
    exact absurd (hstarts (hmain ▸ hstart)) hpoint
  | playAudio b => exact helse nofun
  | main => exact helse nofun
  | sigint => exact helse nofun
  | notifyAll => exact helse nofun

theorem captured_run {actions : List Act} (hactions : .audioCap .sendError ∉ actions)
    (hstarts : s.Starts) (hrun : Process.machine.run s actions = some next) :
    next.sent.flatten ++ next.pending =
      s.sent.flatten ++ s.pending ++ actions.flatMap Act.captured := by
  induction actions generalizing s with
  | nil =>
    obtain rfl := Option.some.inj hrun
    exact (List.append_nil _).symm
  | cons a rest ih =>
    simp only [Machine.run_cons, Option.bind_eq_some_iff] at hrun
    obtain ⟨middle, hstep, hrest⟩ := hrun
    obtain ⟨hfirst, hlater⟩ := not_or.mp (List.mem_cons.not.mp hactions)
    obtain ⟨hmiddle, hsent⟩ := captured_step (Ne.symm hfirst) hstarts hstep
    rw [ih hlater hmiddle hrest, hsent, List.flatMap_cons, List.append_assoc _ a.captured]

/-- Whatever `audio_cap` has captured it has sent, or is about to send, as long as
`sendto` does not fail. -/
def SendsCaptured : Prop :=
  ∀ buffer actions s, Process.machine.run (.init buffer) actions = some s →
    .audioCap .sendError ∉ actions →
    s.sent.flatten ++ s.pending = actions.flatMap Act.captured

theorem sendsCaptured : SendsCaptured := by
  intro buffer actions s hrun hactions
  have hstarts : (Process.init buffer).Starts := fun _ => rfl
  exact captured_run hactions hstarts hrun

end OnlineTracks

namespace IPcheck

theorem sentAudio_captureAndSend (buffer : Bytes.Buffer (bufferSize * frameBytes))
    (passes : List (Option Frames × List String)) :
    sentAudio (captureAndSend buffer passes) =
      (Capture.contents buffer (passes.map Prod.fst)).flatten := by
  have hlength : ∀ (b : Bytes.Buffer (bufferSize * frameBytes)) (reads : List (Option Frames)),
      (Capture.contents b reads).length = reads.length := by
    intro b reads
    induction reads generalizing b with
    | nil => rfl
    | cons read rest ih => exact congrArg Nat.succ (ih _)
  unfold sentAudio captureAndSend
  rw [List.flatMap_def, List.map_snd_zip]
  rw [hlength, List.length_map, List.length_map]

/-- A peer that is in the set at every pass gets the audio that is sent. -/
def EachHears (sent : List (List String × List UInt8)) : Prop :=
  ∀ peer, (∀ s ∈ sent, s.1.Nodup ∧ peer ∈ s.1) →
    (received peer (datagrams sent)).flatten = sentAudio sent

theorem eachHears (sent : List (List String × List UInt8)) : EachHears sent := by
  intro peer hpeer
  rw [datagrams, received_sent hpeer]
  rfl

end IPcheck

/-- The audio that `AudioRecAndSend`, `captureAndSend` and the sender of
`rtaudio_stream` put on the wire is what they have captured, as it is for
`audio_cap`, exactly when each read fills the buffer; of an error only
`AudioRecAndSend` makes nothing. It is what a peer gets that is in the list at every
pass. -/
theorem sent_eq_captured_iff (online : List OnlineAV.AudioPass)
    (ipcheckBuffer : Bytes.Buffer (IPcheck.bufferSize * IPcheck.frameBytes))
    (ipcheck : List (Option IPcheck.Frames × List String))
    (rtaudioBuffer : Bytes.Buffer (RtaudioStream.requested * RtaudioStream.frameBytes))
    (rtaudio : List (Option RtaudioStream.Frames)) :
    ((OnlineAV.sentAudio (OnlineAV.audioRecAndSend OnlineAV.initialPacket 0 online) =
          Capture.captured ((OnlineAV.reads online).map some) ∧
        IPcheck.sentAudio (IPcheck.captureAndSend ipcheckBuffer ipcheck) =
          Capture.captured (ipcheck.map Prod.fst) ∧
        (RtaudioStream.main rtaudioBuffer rtaudio).flatten = Capture.captured rtaudio ∧
        OnlineTracks.SendsCaptured) ↔
      (∀ frames ∈ OnlineAV.reads online, frames.Full) ∧
        (∀ pass ∈ ipcheck, ∃ frames, pass.1 = some frames ∧ frames.Full) ∧
        ∀ read ∈ rtaudio, ∃ frames, read = some frames ∧ frames.Full) ∧
    OnlineAV.EachHears (OnlineAV.audioRecAndSend OnlineAV.initialPacket 0 online) ∧
    IPcheck.EachHears (IPcheck.captureAndSend ipcheckBuffer ipcheck) := by
  have hipcheck : IPcheck.bufferSize * IPcheck.frameBytes ≠ 0 := by decide
  have hrtaudio : RtaudioStream.requested * RtaudioStream.frameBytes ≠ 0 := by decide
  refine ⟨?_, OnlineAV.eachHears _, IPcheck.eachHears _⟩
  rw [OnlineAV.sentAudio_eq_captured_iff, IPcheck.sentAudio_captureAndSend, RtaudioStream.main,
    Capture.flatten_contents_eq_iff, Capture.flatten_contents_eq_iff,
    and_iff_left OnlineTracks.sendsCaptured]
  simp only [Capture.written_full_iff hipcheck, Capture.written_full_iff hrtaudio,
    List.forall_mem_map]

section Repeated

def oneFrame : OnlineAV.Frames where
  bytes := [1, 2, 3, 4]
  whole := rfl
  length_le := by decide

def noFrames : OnlineAV.Frames where
  bytes := []
  whole := rfl
  length_le := Nat.zero_le _

/-- The results of `snd_pcm_readi` in two passes of `AudioRecAndSend`. -/
def shortReads : List OnlineAV.AudioPass :=
  [.readi oneFrame [⟨0xC0A80155, 12345⟩], .readi noFrames [⟨0xC0A80155, 12345⟩]]

/-- A pass of `captureAndSend` in which `snd_pcm_readi` fails. -/
def failedPass : List (Option IPcheck.Frames × List String) := [(none, ["192.168.1.85"])]

def failedRead : List (Option RtaudioStream.Frames) := [none]

/-- The frame goes out twice, with silence behind it, and a sender that does not
look at errors sends a buffer that has never been written. -/
theorem stale_audio_sent :
    OnlineAV.sentAudio (OnlineAV.audioRecAndSend OnlineAV.initialPacket 0 shortReads) ≠
      Capture.captured ((OnlineAV.reads shortReads).map some) ∧
    IPcheck.sentAudio (IPcheck.captureAndSend .zero failedPass) ≠
      Capture.captured (failedPass.map Prod.fst) ∧
    (RtaudioStream.main .zero failedRead).flatten ≠ Capture.captured failedRead := by
  refine ⟨?_, ?_, ?_⟩
  · intro h
    have hfull := (OnlineAV.sentAudio_eq_captured_iff _).mp h oneFrame List.mem_cons_self
    exact absurd hfull (by decide)
  · rw [IPcheck.sentAudio_captureAndSend]
    intro h
    have hfull := (Capture.flatten_contents_eq_iff _ _).mp h none List.mem_cons_self
    exact absurd hfull (by decide)
  · intro h
    have hfull := (Capture.flatten_contents_eq_iff _ _).mp h none List.mem_cons_self
    exact absurd hfull (by decide)

end Repeated

end MediaStream
