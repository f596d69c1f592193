import MediaStream.IPcheck.Segment

/-!
What the nodes of a segment play. The audio goes over `UDP_PORT`, where a datagram
may be lost, delayed, overtaken or doubled, and where other hosts can send as well.
`receiveAndPlay` looks neither at the source of a datagram nor at what `recv`
returns: each pass plays all of its buffer.
-/

namespace MediaStream.IPcheck.Conversation

open Lib Lib.Multicast

variable {ι : Type*}

structure Player where
  buffer : Bytes.Buffer (bufferSize * frameBytes)
  /-- What has arrived for `sockfd`. -/
  inbox : List (List UInt8)
  played : List (List UInt8)

namespace Player

/-- `buffer` is not initialised. -/
def init (buffer : Bytes.Buffer (bufferSize * frameBytes)) : Player := ⟨buffer, [], []⟩

def arrive (player : Player) (datagram : List UInt8) : Player :=
  { player with inbox := player.inbox ++ [datagram] }

/-- A pass of `receiveAndPlay`. `recv` puts nothing into the buffer if it fails. -/
def receiveAndPlay (player : Player) (received : List UInt8) (inbox : List (List UInt8)) : Player :=
  let buffer := player.buffer.store received
  ⟨buffer, inbox, player.played ++ [buffer.bytes]⟩

end Player

structure State (ι : Type*) where
  nodes : ι → Node
  players : ι → Player

inductive Turn (ι : Type*) where
  | segment (a : Act ι)
  /-- A datagram that was sent reaches the node with that address. -/
  | deliver (sender : ι) (k : Nat) (target : ι)
  /-- Another host sends audio to a node. -/
  | foreign (target : ι) (datagram : List UInt8)
  | play (node : ι)
  | playFailed (node : ι)

def init (nodes players : ι → Bytes.Buffer (bufferSize * frameBytes)) : State ι :=
  ⟨fun i => .init (nodes i), fun i => .init (players i)⟩

variable [DecidableEq ι]

def State.update (s : State ι) (i : ι) (player : Player) : State ι :=
  { s with players := Function.update s.players i player }

def step (segment : Segment ι) (s : State ι) : Turn ι → Option (State ι)
  | .segment a => (segment.step s.nodes a).map fun nodes => { s with nodes := nodes }
  | .deliver sender k target =>
    match (s.nodes sender).streamed[k]? with
    | none => none
    | some (peerIp, audio) =>
      if peerIp = inetNtoa (segment.addr target) then
        some (s.update target ((s.players target).arrive audio))
      else none
  | .foreign target datagram => some (s.update target ((s.players target).arrive datagram))
  | .play i =>
    match (s.players i).inbox with
    | [] => none
    | datagram :: rest => some (s.update i ((s.players i).receiveAndPlay datagram rest))
  | .playFailed i =>
    some (s.update i ((s.players i).receiveAndPlay [] (s.players i).inbox))

def machine (segment : Segment ι) : Machine (State ι) (Turn ι) := ⟨step segment⟩

section Hearing

omit [DecidableEq ι]

variable {segment : Segment ι} {nodes next : ι → Node} {j : ι} {player : Player}
  {first : List UInt8}

def SentTo (segment : Segment ι) (nodes : ι → Node) (j : ι) (block : List UInt8) : Prop :=
  block.length = bufferSize * frameBytes ∧
    ∃ i, (inetNtoa (segment.addr j), block) ∈ (nodes i).streamed

/-- A player whose buffer held `first` has played that, and then blocks that were
sent to it, each as a whole. -/
structure Hears (segment : Segment ι) (nodes : ι → Node) (j : ι) (first : List UInt8)
    (player : Player) : Prop where
  inbox : ∀ datagram ∈ player.inbox, SentTo segment nodes j datagram
  played : ∃ unheard blocks, player.played = List.replicate unheard first ++ blocks ∧
    (∀ block ∈ blocks, SentTo segment nodes j block) ∧
    (player.buffer.bytes = first ∧ blocks = [] ∨ SentTo segment nodes j player.buffer.bytes)

theorem SentTo.mono {block : List UInt8} (h : SentTo segment nodes j block)
    (hgrows : ∀ i, (nodes i).streamed ⊆ (next i).streamed) : SentTo segment next j block := by
  obtain ⟨hlen, i, hmem⟩ := h
  exact ⟨hlen, i, hgrows i hmem⟩

theorem Hears.mono (h : Hears segment nodes j first player)
    (hgrows : ∀ i, (nodes i).streamed ⊆ (next i).streamed) :
    Hears segment next j first player := by
  obtain ⟨hinbox, unheard, blocks, hplayed, hblocks, hbuffer⟩ := h
  refine ⟨fun d hd => (hinbox d hd).mono hgrows, unheard, blocks, hplayed, ?_, ?_⟩
  · exact fun block hblock => (hblocks block hblock).mono hgrows
  · exact hbuffer.imp_right fun hsent => hsent.mono hgrows

theorem Hears.arrive (h : Hears segment nodes j first player) {datagram : List UInt8}
    (hsent : SentTo segment nodes j datagram) :
    Hears segment nodes j first (player.arrive datagram) := by
  refine ⟨fun d hd => ?_, h.played⟩
  rcases List.mem_append.mp hd with hold | hnew
  · exact h.inbox d hold
  · rwa [List.mem_singleton.mp hnew]

theorem Hears.play (h : Hears segment nodes j first player) {datagram : List UInt8}
    {rest : List (List UInt8)} (hinbox : player.inbox = datagram :: rest) :
    Hears segment nodes j first (player.receiveAndPlay datagram rest) := by
  have hall := h.inbox
  rw [hinbox, List.forall_mem_cons] at hall
  obtain ⟨hsent, hrest⟩ := hall
  have hwhole : (player.buffer.store datagram).bytes = datagram :=
    Bytes.overwrite_full (hsent.1.trans player.buffer.length_bytes.symm)
  obtain ⟨unheard, blocks, hplayed, hblocks, -⟩ := h.played
  refine ⟨hrest, unheard, blocks ++ [datagram], ?_, ?_, Or.inr ?_⟩
  · simp only [Player.receiveAndPlay, hwhole, hplayed, List.append_assoc]
  · intro block hblock
    rcases List.mem_append.mp hblock with hold | hnew
    · exact hblocks block hold
    · rwa [List.mem_singleton.mp hnew]
  · change SentTo segment nodes j (player.buffer.store datagram).bytes
    rwa [hwhole]

theorem Hears.playFailed (h : Hears segment nodes j first player) :
    Hears segment nodes j first (player.receiveAndPlay [] player.inbox) := by
  have hsame : (player.buffer.store []).bytes = player.buffer.bytes := by
    simp [Bytes.Buffer.store, Bytes.overwrite]
  obtain ⟨unheard, blocks, hplayed, hblocks, hbuffer⟩ := h.played
  rcases hbuffer with ⟨hfirst, rfl⟩ | hsent
  · refine ⟨h.inbox, unheard + 1, [], ?_, hblocks, Or.inl ⟨hsame.trans hfirst, rfl⟩⟩
    simp only [Player.receiveAndPlay, hsame, hplayed, hfirst, List.replicate_succ']
    simp
  · refine ⟨h.inbox, unheard, blocks ++ [player.buffer.bytes], ?_, ?_, Or.inr ?_⟩
    · simp only [Player.receiveAndPlay, hsame, hplayed, List.append_assoc]
    · intro block hblock
      rcases List.mem_append.mp hblock with hold | hnew
      · exact hblocks block hold
      · rwa [List.mem_singleton.mp hnew]
    · change SentTo segment nodes j (player.buffer.store []).bytes
      rwa [hsame]

end Hearing

def Whole (node : Node) : Prop := ∀ audio ∈ node.streamed, audio.2.length = bufferSize * frameBytes

/-- What a step of the segment does to the audio of a node. -/
structure Sends (node next : Node) : Prop where
  keeps : node.streamed ⊆ next.streamed
  whole : Whole node → Whole next

section Steps

variable {segment : Segment ι} {nodes next : ι → Node} {i : ι}

omit [DecidableEq ι] in
theorem Sends.of_eq {node later : Node} (h : later.streamed = node.streamed) :
    Sends node later where
  keeps := by rw [h]; exact List.Subset.refl _
  whole hwhole := by unfold Whole; rwa [h]

variable {s after : State ι} {buffers : ι → Bytes.Buffer (bufferSize * frameBytes)} {j : ι}

structure Inv (segment : Segment ι) (buffers : ι → Bytes.Buffer (bufferSize * frameBytes))
    (s : State ι) : Prop where
  listed : Segment.Listed s.nodes
  sound : segment.Sound s.nodes
  whole : ∀ i, Whole (s.nodes i)
  hears : ∀ j, Hears segment s.nodes j (buffers j).bytes (s.players j)

omit [DecidableEq ι] in
theorem Inv.init (nodes buffers : ι → Bytes.Buffer (bufferSize * frameBytes)) :
    Inv segment buffers (Conversation.init nodes buffers) where
  listed _ := List.forall_mem_nil _
  sound _ := ⟨List.forall_mem_nil _, List.forall_mem_nil _⟩
  whole _ := List.forall_mem_nil _
  hears _ := ⟨List.forall_mem_nil _, 0, [], rfl, List.forall_mem_nil _, Or.inl ⟨rfl, rfl⟩⟩

/-- Only one player has changed. -/
theorem Inv.update (h : Inv segment buffers s) {player : Player}
    (hplayer : Hears segment s.nodes j (buffers j).bytes player) :
    Inv segment buffers (s.update j player) where
  listed := h.listed
  sound := h.sound
  whole := h.whole
  hears k := by
    by_cases hk : k = j
    · subst hk
      simpa [State.update] using hplayer
    · simpa [State.update, hk] using h.hears k

end Steps

section Runs

variable {segment : Segment ι} {nodes buffers : ι → Bytes.Buffer (bufferSize * frameBytes)}
  {turns : List (Turn ι)} {finish : State ι}

end Runs

section Two

end Two

end MediaStream.IPcheck.Conversation
