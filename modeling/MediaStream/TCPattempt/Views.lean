import MediaStream.TCPattempt.Client

/-!
What the two Python views get in `TCPclient2.cpp`. Each thread serves its view
last in a pass, so that a view is one block or one chunk behind at most, and what
goes to the server is what has been captured.
-/

namespace MediaStream.TCPattempt

open Lib

def sends (socket : Socket) (calls : List Call) : List (List UInt8) :=
  calls.filterMap fun
    | .send name bytes => if name = socket then bytes else none
    | _ => none

def received (calls : List Call) : List (List UInt8) :=
  calls.filterMap fun
    | .recv _ bytes => bytes
    | _ => none

/-- The block that an action captures. A recovered error leaves one without frames. -/
def Act.block : Act → List (List UInt8)
  | audioCap (.capture audio) => [audio]
  | audioCap .recover => [[]]
  | _ => []

def Behind (copy whole : List (List UInt8)) : Prop := ∃ rest, whole = copy ++ rest ∧ rest.length ≤ 1

namespace Process

/-- Where `audio_cap` is in its pass, by what it has done with the captured blocks. -/
def Captures (s : Process) (blocks : List (List UInt8)) : Prop :=
  match s.audioCap with
  | .openCapture | .test | .capture | .recover =>
    sends .sockfd s.calls = blocks ∧ sends .localSockfdCapture s.calls = blocks
  | .send audio => ∃ earlier, blocks = earlier ++ [audio] ∧ sends .sockfd s.calls = earlier ∧
      sends .localSockfdCapture s.calls = earlier
  | .sendLocal audio => ∃ earlier, blocks = earlier ++ [audio] ∧ sends .sockfd s.calls = blocks ∧
      sends .localSockfdCapture s.calls = earlier
  | .closeLocal | .done => Behind (sends .sockfd s.calls) blocks ∧
      Behind (sends .localSockfdCapture s.calls) (sends .sockfd s.calls)

/-- Where `play_audio` is in its pass, by what it has done with the chunks. -/
def Forwards (s : Process) : Prop :=
  match s.playAudio with
  | .openPlayback | .test | .recv => sends .localSockfdPlayback s.calls = received s.calls
  | .write buffer | .prepare buffer | .sendLocal buffer =>
    received s.calls = sends .localSockfdPlayback s.calls ++ [buffer]
  | .closeLocal | .done => Behind (sends .localSockfdPlayback s.calls) (received s.calls)

end Process

section Step

variable {cfg : Setup} {s next : Process} {blocks : List (List UInt8)}

theorem Behind.refl (whole : List (List UInt8)) : Behind whole whole :=
  ⟨[], (List.append_nil _).symm, Nat.zero_le _⟩

theorem Behind.one (copy : List (List UInt8)) (last : List UInt8) : Behind copy (copy ++ [last]) :=
  ⟨[last], rfl, Nat.le_refl _⟩

theorem sends_append (socket : Socket) (first second : List Call) :
    sends socket (first ++ second) = sends socket first ++ sends socket second :=
  List.filterMap_append

theorem received_append (first second : List Call) :
    received (first ++ second) = received first ++ received second := List.filterMap_append

section Calls

variable (socket name : Socket) (bytes : Option (List UInt8))

@[simp] theorem sends_nil : sends socket [] = [] := rfl

@[simp] theorem sends_send :
    sends socket [.send name bytes] = if name = socket then bytes.toList else [] := by
  cases bytes <;> by_cases h : name = socket <;> simp [sends, h]

@[simp] theorem sends_recv : sends socket [.recv name bytes] = [] := rfl

@[simp] theorem sends_close : sends socket [.close name] = [] := rfl

@[simp] theorem received_nil : received [] = [] := rfl

@[simp] theorem received_recv : received [.recv name bytes] = bytes.toList := by
  cases bytes <;> rfl

@[simp] theorem received_send : received [.send name bytes] = [] := rfl

@[simp] theorem received_close : received [.close name] = [] := rfl

end Calls

theorem captures_audioCap {a : AudioCapAct} (h : s.Captures blocks)
    (hstep : (Process.machine cfg).step s (.audioCap a) = some next) :
    next.Captures (blocks ++ (Act.audioCap a).block) := by
  obtain ⟨calls, hmove, hcalls, -⟩ := audioCap_move hstep
  unfold Process.Captures at h ⊢
  rw [hcalls, sends_append, sends_append]
  generalize s.audioCap = pc at hmove h
  generalize next.audioCap = pc' at hmove ⊢
  generalize s.stopStreaming = stop, next.stopStreaming = stop' at hmove
  cases hmove with
  | capture audio hframes => exact ⟨blocks, rfl, by simpa using h⟩
  | recover => exact ⟨blocks, rfl, by simpa using h⟩
  | send audio =>
    obtain ⟨earlier, rfl, hserver, hview⟩ := h
    simp [hserver, hview, Act.block]
  | sendError audio =>
    obtain ⟨earlier, rfl, hserver, hview⟩ := h
    simp [hserver, hview, Act.block, Behind.refl, Behind.one]
  | sendLocal audio =>
    obtain ⟨earlier, rfl, hserver, hview⟩ := h
    simp [hserver, hview, Act.block]
  | sendLocalError audio =>
    obtain ⟨earlier, rfl, hserver, hview⟩ := h
    simp [hserver, hview, Act.block, Behind.refl, Behind.one]
  | openCaptureError | stop | recoverError =>
    obtain ⟨hserver, hview⟩ := h
    simp [hserver, hview, Act.block, Behind.refl]
  | close => simpa [Act.block] using h
  | openCapture | test | captureError => simpa [Act.block] using h

theorem forwards_playAudio {a : PlayAudioAct} (h : s.Forwards)
    (hstep : (Process.machine cfg).step s (.playAudio a) = some next) : next.Forwards := by
  obtain ⟨calls, hmove, hcalls, -⟩ := playAudio_move hstep
  unfold Process.Forwards at h ⊢
  rw [hcalls, sends_append, received_append]
  generalize s.playAudio = pc at hmove h
  generalize next.playAudio = pc' at hmove ⊢
  generalize s.stopStreaming = stop, next.stopStreaming = stop' at hmove
  cases hmove with
  | recv bytes hsize => simpa using h.symm
  | recvEnd | openPlaybackError | stop => simp [h, Behind.refl]
  | writeError | prepareError | sendLocalError => simp [h, Behind.one]
  | sendLocal buffer => simp [h]
  | openPlayback | test | write | underrun | prepare | close => simpa using h

/-- Nobody but its thread sends on the socket of a view. -/
theorem sends_elsewhere {a : Act} (hstep : (Process.machine cfg).step s a = some next) :
    ((∀ b, a ≠ .audioCap b) → next.audioCap = s.audioCap ∧
      sends .sockfd next.calls = sends .sockfd s.calls ∧
      sends .localSockfdCapture next.calls = sends .localSockfdCapture s.calls) ∧
    ((∀ b, a ≠ .playAudio b) → next.playAudio = s.playAudio ∧
      received next.calls = received s.calls ∧
      sends .localSockfdPlayback next.calls = sends .localSockfdPlayback s.calls) := by
  cases a with
  | audioCap a =>
    obtain ⟨calls, hmove, hcalls, hplay, -⟩ := audioCap_move hstep
    refine ⟨fun hnot => absurd rfl (hnot a), fun _ => ⟨hplay, ?_⟩⟩
    rw [hcalls, sends_append, received_append]
    generalize s.audioCap = pc, next.audioCap = pc', s.stopStreaming = stop,
      next.stopStreaming = stop' at hmove
    cases hmove <;> simp
  | playAudio a =>
    obtain ⟨calls, hmove, hcalls, hcap, -⟩ := playAudio_move hstep
    refine ⟨fun _ => ⟨hcap, ?_⟩, fun hnot => absurd rfl (hnot a)⟩
    rw [hcalls, sends_append, sends_append]
    generalize s.playAudio = pc, next.playAudio = pc', s.stopStreaming = stop,
      next.stopStreaming = stop' at hmove
    cases hmove <;> simp
  | main =>
    rcases main_cases hstep with ⟨-, -, rfl⟩ | ⟨-, -, rfl⟩ | ⟨-, rfl⟩
    · exact ⟨fun _ => ⟨rfl, rfl, rfl⟩, fun _ => ⟨rfl, rfl, rfl⟩⟩
    · exact ⟨fun _ => ⟨rfl, rfl, rfl⟩, fun _ => ⟨rfl, rfl, rfl⟩⟩
    · simp [Process.call, sends_append, received_append]

theorem views_step {a : Act} (h : s.Captures blocks ∧ s.Forwards)
    (hstep : (Process.machine cfg).step s a = some next) :
    next.Captures (blocks ++ a.block) ∧ next.Forwards := by
  obtain ⟨hcaptures, hforwards⟩ := h
  obtain ⟨hcap, hplay⟩ := sends_elsewhere hstep
  have hcapKept : (∀ b, a ≠ .audioCap b) → next.Captures blocks := by
    intro ha
    obtain ⟨hpoint, hserver, hview⟩ := hcap ha
    unfold Process.Captures
    rw [hpoint, hserver, hview]
    exact hcaptures
  have hplayKept : (∀ b, a ≠ .playAudio b) → next.Forwards := by
    intro ha
    obtain ⟨hpoint, hreceived, hview⟩ := hplay ha
    unfold Process.Forwards
    rw [hpoint, hreceived, hview]
    exact hforwards
  cases a with
  | audioCap a => exact ⟨captures_audioCap hcaptures hstep, hplayKept nofun⟩
  | playAudio a =>
    exact ⟨(List.append_nil blocks).symm ▸ hcapKept nofun, forwards_playAudio hforwards hstep⟩
  | main => exact ⟨(List.append_nil blocks).symm ▸ hcapKept nofun, hplayKept nofun⟩

theorem Process.Captures.behind (h : s.Captures blocks) :
    Behind (sends .sockfd s.calls) blocks ∧
      Behind (sends .localSockfdCapture s.calls) (sends .sockfd s.calls) := by
  unfold Process.Captures at h
  split at h
  case h_5 audio _ =>
    obtain ⟨earlier, rfl, hserver, hview⟩ := h
    rw [hserver, hview]
    exact ⟨Behind.one .., Behind.refl _⟩
  case h_6 audio _ =>
    obtain ⟨earlier, rfl, hserver, hview⟩ := h
    rw [hserver, hview]
    exact ⟨Behind.refl _, Behind.one ..⟩
  case h_7 | h_8 => exact h
  all_goals
    rw [h.1, h.2]
    exact ⟨Behind.refl _, Behind.refl _⟩

theorem Process.Forwards.behind (h : s.Forwards) :
    Behind (sends .localSockfdPlayback s.calls) (received s.calls) := by
  unfold Process.Forwards at h
  split at h
  case h_7 | h_8 => exact h
  case h_4 | h_5 | h_6 =>
    rw [h]
    exact Behind.one ..
  all_goals
    rw [h]
    exact Behind.refl _

end Step

/-- In every run the server has been sent what has been captured, the capture view what the server
has been sent, and the playback view what has been received, each but for the last block or
chunk. -/
theorem views_behind {cfg : Setup} {s : Process} {actions : List Act}
    (hrun : (Process.machine cfg).run Process.init actions = some s) :
    Behind (sends .sockfd s.calls) (actions.flatMap Act.block) ∧
      Behind (sends .localSockfdCapture s.calls) (sends .sockfd s.calls) ∧
      Behind (sends .localSockfdPlayback s.calls) (received s.calls) := by
  have hstart : Process.init.Captures [] ∧ Process.init.Forwards := ⟨⟨rfl, rfl⟩, rfl⟩
  obtain ⟨hcaptures, hforwards⟩ :=
    Machine.run_collects (P := fun s blocks => s.Captures blocks ∧ s.Forwards)
      (fun _ _ _ _ hs hstep => views_step hs hstep) hstart hrun
  exact ⟨hcaptures.behind.1, hcaptures.behind.2, hforwards.behind⟩

/-- The capture view goes away while the second block is sent. -/
def lostViewRun : List Act :=
  [.audioCap .openCapture, .audioCap .test, .audioCap (.capture [1, 2, 3, 4]), .audioCap .send,
    .audioCap .sendLocal, .audioCap .test, .audioCap (.capture [5, 6, 7, 8]), .audioCap .send,
    .audioCap .sendLocalError]

theorem views_behind_lostViewRun :
    ∃ s, (Process.machine ⟨true, true⟩).run Process.init lostViewRun = some s ∧
      sends .sockfd s.calls = [[1, 2, 3, 4], [5, 6, 7, 8]] ∧
      sends .localSockfdCapture s.calls = [[1, 2, 3, 4]] ∧
      Behind (sends .sockfd s.calls) (lostViewRun.flatMap Act.block) ∧
      Behind (sends .localSockfdCapture s.calls) (sends .sockfd s.calls) ∧
      Behind (sends .localSockfdPlayback s.calls) (received s.calls) :=
  ⟨_, rfl, rfl, rfl, views_behind
    (rfl : (Process.machine ⟨true, true⟩).run Process.init lostViewRun = some _)⟩

end MediaStream.TCPattempt
