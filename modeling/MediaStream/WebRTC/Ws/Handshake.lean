import MediaStream.Lib.HeadLines
import MediaStream.WebRTC.Ws.Subprotocol

/-!
`handleUpgrade` of `ws/lib/websocket-server.js`: what becomes of a request to
upgrade a connection. The options are the defaults of the signaling server: any
path will do, no extension is negotiated, nothing verifies the client or chooses a
subprotocol, and nothing listens for `wsClientError`.
-/

namespace MediaStream.WebRTC.Ws.Handshake

open Lib

def guid : List Char := "258EAFA5-E914-47DA-95CA-C5AB0DC85B11".toList

structure Request where
  method : List Char
  /-- Header fields, where the request has them. Their text is Latin-1. -/
  secWebSocketKey : Option (List Char)
  upgrade : Option (List Char)
  /-- The number that the version converts to, if it is a natural number. -/
  secWebSocketVersion : Option Nat
  secWebSocketProtocol : Option (List Char)
  deriving DecidableEq

structure Socket where
  readable : Bool
  writable : Bool
  /-- There is a `WebSocket` for it already. -/
  webSocket : Bool
  deriving DecidableEq

inductive Answer where
  | aborted (code : Nat) (message written : List Char)
  | destroyed
  /-- `handleUpgrade` throws. -/
  | thrown
  | upgraded (protocol : Option (List Char)) (written : List Char)
  deriving DecidableEq

/-- The texts of `http.STATUS_CODES` that are used. -/
def statusText : Nat → List Char
  | 400 => "Bad Request".toList
  | 405 => "Method Not Allowed".toList
  | 503 => "Service Unavailable".toList
  | _ => []

def join (lines : List (List Char)) : List Char := HeadLines.crlf.intercalate lines

def statusLine (code : Nat) : List Char :=
  "HTTP/1.1 ".toList ++ Nat.toDigits 10 code ++ " ".toList ++ statusText code

def abortHeaders (message : List Char) : List (List Char) :=
  ["Connection: close".toList,
    "Content-Type: text/html".toList,
    "Content-Length: ".toList ++ Nat.toDigits 10 (String.ofList message).utf8ByteSize]

def abortHandshake (code : Nat) (message : List Char) : Answer :=
  .aborted code message (statusLine code ++ HeadLines.crlf ++ join (abortHeaders message) ++
    (HeadLines.crlf ++ HeadLines.crlf) ++ message)

def keyChar (c : Char) : Bool := c = '+' ∨ c = '/' ∨ c.isDigit ∨ c.isUpper ∨ c.isLower

def validKey (key : List Char) : Bool :=
  key.length = 24 ∧ (key.take 22).all keyChar ∧ key.drop 22 = "==".toList

section Upgrade

variable (digest : List Char → List Char)

def switchingLines (key : List Char) (protocol : Option (List Char)) : List (List Char) :=
  ["HTTP/1.1 101 Switching Protocols".toList,
    "Upgrade: websocket".toList,
    "Connection: Upgrade".toList,
    "Sec-WebSocket-Accept: ".toList ++ digest (key ++ guid)] ++
  (protocol.map fun protocol => "Sec-WebSocket-Protocol: ".toList ++ protocol).toList

/-- The first protocol of the set, if there is one. An empty one would not count. -/
def chosen : List (List Char) → Option (List Char)
  | [] => none
  | protocol :: _ => if protocol = [] then none else some protocol

/-- `digest` gives the hash of a text in base 64. -/
def completeUpgrade (running : Bool) (key : List Char) (protocols : List (List Char))
    (socket : Socket) : Answer :=
  if socket.readable = false ∨ socket.writable = false then .destroyed
  else if socket.webSocket then .thrown
  else if running = false then abortHandshake 503 (statusText 503)
  else .upgraded (chosen protocols)
    (join (switchingLines digest key (chosen protocols) ++ [HeadLines.crlf]))

def handleUpgrade (running : Bool) (req : Request) (socket : Socket) : Answer :=
  if req.method ≠ "GET".toList then abortHandshake 405 "Invalid HTTP method".toList
  else if req.upgrade.map (·.map Char.toLower) ≠ some "websocket".toList then
    abortHandshake 400 "Invalid Upgrade header".toList
  else
    match req.secWebSocketKey with
    | none => abortHandshake 400 "Missing or invalid Sec-WebSocket-Key header".toList
    | some key =>
      if validKey key = false then
        abortHandshake 400 "Missing or invalid Sec-WebSocket-Key header".toList
      else if req.secWebSocketVersion ≠ some 8 ∧ req.secWebSocketVersion ≠ some 13 then
        abortHandshake 400 "Missing or invalid Sec-WebSocket-Version header".toList
      else
        match req.secWebSocketProtocol with
        | none => completeUpgrade digest running key [] socket
        | some header =>
          match Subprotocol.parse header with
          | .error _ => abortHandshake 400 "Invalid Sec-WebSocket-Protocol header".toList
          | .ok protocols => completeUpgrade digest running key protocols socket

end Upgrade

/-- The subprotocols that a request offers. -/
def Offers (req : Request) (ts : List (List Char)) : Prop :=
  match req.secWebSocketProtocol with
  | none => ts = []
  | some header => Subprotocol.grammar.Listed header ts ∧ ts.Nodup

section Checks

variable (req : Request)

def IsGet : Prop := req.method = "GET".toList

def AsksWebSocket : Prop :=
  ∃ text, req.upgrade = some text ∧ text.map Char.toLower = "websocket".toList

def HasKey : Prop := ∃ key, req.secWebSocketKey = some key ∧ validKey key = true

def HasVersion : Prop := req.secWebSocketVersion = some 8 ∨ req.secWebSocketVersion = some 13

/-- A request as the protocol wants it. -/
structure Acceptable : Prop where
  method : IsGet req
  upgrade : AsksWebSocket req
  key : HasKey req
  version : HasVersion req
  protocols : ∃ ts, Offers req ts

/-- The check that refuses a request, the first one that it fails, and what the refusal
says. -/
inductive Refused : Nat → List Char → Prop
  | method (hmethod : ¬IsGet req) : Refused 405 "Invalid HTTP method".toList
  | upgrade (hmethod : IsGet req) (hupgrade : ¬AsksWebSocket req) :
      Refused 400 "Invalid Upgrade header".toList
  | key (hmethod : IsGet req) (hupgrade : AsksWebSocket req) (hkey : ¬HasKey req) :
      Refused 400 "Missing or invalid Sec-WebSocket-Key header".toList
  | version (hmethod : IsGet req) (hupgrade : AsksWebSocket req) (hkey : HasKey req)
      (hversion : ¬HasVersion req) :
      Refused 400 "Missing or invalid Sec-WebSocket-Version header".toList
  | protocols (hmethod : IsGet req) (hupgrade : AsksWebSocket req) (hkey : HasKey req)
      (hversion : HasVersion req) (hprotocols : ¬∃ ts, Offers req ts) :
      Refused 400 "Invalid Sec-WebSocket-Protocol header".toList

variable {req}

theorem Refused.not_acceptable {code : Nat} {message : List Char}
    (h : Refused req code message) : ¬Acceptable req := by
  intro hreq
  cases h with
  | method hmethod => exact hmethod hreq.method
  | upgrade _ hupgrade => exact hupgrade hreq.upgrade
  | key _ _ hkey => exact hkey hreq.key
  | version _ _ _ hversion => exact hversion hreq.version
  | protocols _ _ _ _ hprotocols => exact hprotocols hreq.protocols

end Checks

def Printable (line : List Char) : Prop := line ≠ [] ∧ ∀ c ∈ line, 32 ≤ c.toNat ∧ c.toNat < 127

instance (line : List Char) : Decidable (Printable line) :=
  @instDecidableAnd _ _ _ (List.decidableBAll _ line)

theorem Printable.plain {line : List Char} (h : Printable line) : HeadLines.Plain line :=
  ⟨h.1, fun hmem => absurd (h.2 _ hmem).1 (by decide)⟩

/-- When an answer is given, and what the other side reads. -/
def Answered (digest : List Char → List Char) (running : Bool) (req : Request) (socket : Socket) :
    Answer → Prop
  | .aborted code message written =>
    (¬Acceptable req ∧ Refused req code message ∨
      Acceptable req ∧ running = false ∧ socket = ⟨true, true, false⟩ ∧
        (code, message) = (503, statusText 503)) ∧
    HeadLines.read [] written = some (statusLine code :: abortHeaders message, message) ∧
    ∀ line ∈ statusLine code :: abortHeaders message, Printable line
  | .destroyed => Acceptable req ∧ (socket.readable = false ∨ socket.writable = false)
  | .thrown => Acceptable req ∧ socket = ⟨true, true, true⟩
  | .upgraded protocol written =>
    Acceptable req ∧ running = true ∧ socket = ⟨true, true, false⟩ ∧
    (∃ ts, Offers req ts ∧ protocol = ts.head?) ∧
    ∃ key, req.secWebSocketKey = some key ∧
      HeadLines.read [] written = some (switchingLines digest key protocol, []) ∧
      ∀ line ∈ switchingLines digest key protocol, Printable line

section Answers

variable {digest : List Char → List Char} {running : Bool} {req : Request} {socket : Socket}

/-- Every request is refused by the first check that it fails, or is acceptable and
gets as far as `completeUpgrade`. -/
theorem handleUpgrade_cases :
    (∃ code message, Refused req code message ∧
      handleUpgrade digest running req socket = abortHandshake code message) ∨
    ∃ key ts, Acceptable req ∧ req.secWebSocketKey = some key ∧ Offers req ts ∧
      handleUpgrade digest running req socket = completeUpgrade digest running key ts socket := by
  unfold handleUpgrade
  split
  · next h => exact Or.inl ⟨_, _, .method h, rfl⟩
  next hmethod =>
  have hget : IsGet req := Classical.not_not.mp hmethod
  split
  · next h =>
    refine Or.inl ⟨_, _, .upgrade hget fun hasks => h ?_, rfl⟩
    exact Option.map_eq_some_iff.mpr hasks
  next hupgrade =>
  have hasks : AsksWebSocket req := Option.map_eq_some_iff.mp (Decidable.not_not.mp hupgrade)
  split
  · next h =>
    refine Or.inl ⟨_, _, .key hget hasks fun hkey => ?_, rfl⟩
    obtain ⟨key, hkey, -⟩ := hkey
    cases h.symm.trans hkey
  next key hkey =>
  split
  · next h =>
    refine Or.inl ⟨_, _, .key hget hasks fun hhas => ?_, rfl⟩
    obtain ⟨key', hkey', hvalid⟩ := hhas
    cases hkey.symm.trans hkey'
    cases h.symm.trans hvalid
  next hvalid =>
  have hhas : HasKey req := ⟨key, hkey, by simpa using hvalid⟩
  split
  · next h =>
    exact Or.inl ⟨_, _, .version hget hasks hhas fun hversion => hversion.elim h.1 h.2, rfl⟩
  next hneither =>
  have hversion : HasVersion req := Decidable.or_iff_not_not_and_not.mpr hneither
  split
  · next h =>
    have hoffers : Offers req [] := by rw [Offers, h]
    exact Or.inr ⟨key, [], ⟨hget, hasks, hhas, hversion, [], hoffers⟩, hkey, hoffers, rfl⟩
  next header hheader =>
  have hoffers : ∀ ts, Offers req ts ↔ Subprotocol.parse header = .ok ts := by
    intro ts
    rw [Subprotocol.parse_ok_iff, Offers, hheader]
  split
  · next e herror =>
    refine Or.inl ⟨_, _, .protocols hget hasks hhas hversion fun hsome => ?_, rfl⟩
    obtain ⟨ts, hts⟩ := hsome
    cases herror.symm.trans ((hoffers ts).mp hts)
  · next ts hparse =>
    have hts := (hoffers ts).mpr hparse
    exact Or.inr ⟨key, ts, ⟨hget, hasks, hhas, hversion, ts, hts⟩, hkey, hts, rfl⟩

theorem join_append {lines : List (List Char)} (h : lines ≠ []) (last : List Char) :
    join (lines ++ [last]) = join lines ++ (HeadLines.crlf ++ last) := by
  induction lines with
  | nil => exact absurd rfl h
  | cons line lines ih =>
    cases lines with
    | nil => simp [join, List.intercalate]
    | cons next lines =>
      have hrest := ih (List.cons_ne_nil next lines)
      simp only [join, List.intercalate, List.cons_append, List.intersperse_cons_cons,
        List.flatten_cons] at hrest ⊢
      rw [hrest]
      simp only [List.append_assoc]

theorem join_crlf {lines : List (List Char)} (h : lines ≠ []) (text : List Char) :
    join lines ++ (HeadLines.crlf ++ text) = lines.flatMap (· ++ HeadLines.crlf) ++ text := by
  induction lines with
  | nil => exact absurd rfl h
  | cons line lines ih =>
    cases lines with
    | nil => simp [join]
    | cons next lines =>
      have hjoin :
          join (line :: next :: lines) = line ++ (HeadLines.crlf ++ join (next :: lines)) := by
        simp [join, List.intercalate]
      have hrest := ih (List.cons_ne_nil next lines)
      rw [hjoin, List.flatMap_cons, List.append_assoc, List.append_assoc, hrest]
      simp

/-- What is written is a head of lines, as long as the lines are printable. -/
theorem read_written {lines : List (List Char)} (h : ∀ line ∈ lines, Printable line)
    (hlines : lines ≠ []) (body : List Char) :
    HeadLines.read [] (join lines ++ (HeadLines.crlf ++ (HeadLines.crlf ++ body))) =
      some (lines, body) := by
  rw [join_crlf hlines]
  exact HeadLines.read_write (fun line hline => (h line hline).plain) body

theorem printable_token {t : List Char} (h : Subprotocol.grammar.IsToken t) : Printable t := by
  have htable : ∀ p ∈ Subprotocol.tokenChars.zipIdx, p.1 = 1 → 32 ≤ p.2 ∧ p.2 < 127 := by
    decide +kernel
  refine ⟨h.1, fun c hc => ?_⟩
  have htoken : Subprotocol.tokenChars[c.toNat]? = some 1 := h.2 c hc
  exact htable _ (List.mk_mem_zipIdx_iff_getElem?.mpr htoken) rfl

theorem chosen_of_offers {ts : List (List Char)} (h : Offers req ts) :
    chosen ts = ts.head? ∧ ∀ protocol, chosen ts = some protocol → Printable protocol := by
  have htokens : ∀ t ∈ ts, Subprotocol.grammar.IsToken t := by
    unfold Offers at h
    split at h
    · rw [h]
      exact fun t ht => absurd ht List.not_mem_nil
    · exact h.1.tokens
  cases ts with
  | nil => exact ⟨rfl, fun protocol h => by cases h⟩
  | cons first ts =>
    have hfirst := htokens first List.mem_cons_self
    have hchosen : chosen (first :: ts) = some first := if_neg hfirst.1
    refine ⟨hchosen, fun protocol h => ?_⟩
    obtain rfl := Option.some.inj (hchosen.symm.trans h)
    exact printable_token hfirst

theorem printable_text {text : List Char} (h : Printable text) :
    Printable (String.ofList text).toList :=
  String.toList_ofList.symm ▸ h

theorem Printable.append {first second : List Char} (hfirst : Printable first)
    (hsecond : ∀ c ∈ second, 32 ≤ c.toNat ∧ c.toNat < 127) : Printable (first ++ second) := by
  refine ⟨List.append_ne_nil_of_left_ne_nil hfirst.1 second, fun c hc => ?_⟩
  exact (List.mem_append.mp hc).elim (hfirst.2 c) (hsecond c)

theorem printable_keyChar {c : Char} (h : c = '=' ∨ keyChar c = true) :
    32 ≤ c.toNat ∧ c.toNat < 127 := by
  have hrange : ∀ {low high : Nat}, 32 ≤ low → high < 127 → low ≤ c.toNat ∧ c.toNat ≤ high →
      32 ≤ c.toNat ∧ c.toNat < 127 := by omega
  simp only [keyChar, decide_eq_true_eq] at h
  rcases h with rfl | rfl | rfl | hdigit | hupper | hlower
  · decide
  · decide
  · decide
  · exact hrange (by decide) (by decide) (Char.isDigit_iff_toNat.mp hdigit)
  · have hbounds : 65 ≤ c.toNat ∧ c.toNat ≤ 90 := of_decide_eq_true hupper
    exact hrange (by decide) (by decide) hbounds
  · obtain ⟨hlow, hhigh⟩ := (Bool.and_eq_true _ _).mp hlower
    have hbounds : 97 ≤ c.toNat ∧ c.toNat ≤ 122 :=
      ⟨of_decide_eq_true hlow, of_decide_eq_true hhigh⟩
    exact hrange (by decide) (by decide) hbounds

theorem printable_toDigits (n : Nat) :
    ∀ c ∈ Nat.toDigits 10 n, 32 ≤ c.toNat ∧ c.toNat < 127 := by
  intro c hc
  have hdigit : c.isDigit = true := Nat.isDigit_of_mem_toDigits (by decide) (by decide) hc
  exact printable_keyChar (Or.inr (decide_eq_true (Or.inr (Or.inr (Or.inl hdigit)))))

theorem printable_statusText (code : Nat) :
    ∀ c ∈ statusText code, 32 ≤ c.toNat ∧ c.toNat < 127 := by
  unfold statusText
  split
  · exact (printable_text (by decide)).2
  · exact (printable_text (by decide)).2
  · exact (printable_text (by decide)).2
  · exact fun c hc => absurd hc List.not_mem_nil

/-- The head of a refusal is printable, whatever the status and the message are. -/
theorem printable_abort (code : Nat) (message : List Char) :
    ∀ line ∈ statusLine code :: abortHeaders message, Printable line := by
  have hversion : Printable "HTTP/1.1 ".toList := printable_text (by decide)
  have hblank : Printable " ".toList := printable_text (by decide)
  have hstatus : Printable (statusLine code) :=
    ((hversion.append (printable_toDigits code)).append hblank.2).append
      (printable_statusText code)
  have hlength : Printable "Content-Length: ".toList := printable_text (by decide)
  intro line hline
  simp only [abortHeaders, List.mem_cons, List.not_mem_nil, or_false] at hline
  rcases hline with rfl | rfl | rfl | rfl
  · exact hstatus
  · exact printable_text (by decide)
  · exact printable_text (by decide)
  · exact hlength.append (printable_toDigits _)

theorem answered_abort {code : Nat} {message : List Char}
    (hwhen : ¬Acceptable req ∧ Refused req code message ∨
      Acceptable req ∧ running = false ∧ socket = ⟨true, true, false⟩ ∧
        (code, message) = (503, statusText 503)) :
    Answered digest running req socket (abortHandshake code message) := by
  have hlines := printable_abort code message
  refine ⟨hwhen, ?_, hlines⟩
  have hread := read_written hlines (List.cons_ne_nil _ _) message
  have hjoin : join (statusLine code :: abortHeaders message) =
      statusLine code ++ (HeadLines.crlf ++ join (abortHeaders message)) := by
    simp [join, List.intercalate, abortHeaders]
  rw [hjoin] at hread
  simpa [List.append_assoc] using hread

theorem printable_switching (hdigest : ∀ text, ∀ c ∈ digest text, c = '=' ∨ keyChar c = true)
    (key : List Char) {protocol : Option (List Char)}
    (hprotocol : ∀ t, protocol = some t → Printable t) :
    ∀ line ∈ switchingLines digest key protocol, Printable line := by
  have haccept : Printable ("Sec-WebSocket-Accept: ".toList ++ digest (key ++ guid)) :=
    (printable_text (by decide)).append fun c hc => printable_keyChar (hdigest _ c hc)
  intro line hline
  rcases List.mem_append.mp hline with hfixed | hchosen
  · simp only [List.mem_cons, List.not_mem_nil, or_false] at hfixed
    rcases hfixed with rfl | rfl | rfl | rfl
    · exact printable_text (by decide)
    · exact printable_text (by decide)
    · exact printable_text (by decide)
    · exact haccept
  · cases protocol with
    | none => exact absurd hchosen List.not_mem_nil
    | some t =>
      rw [List.mem_singleton.mp hchosen]
      exact (printable_text (by decide)).append (hprotocol t rfl).2

/-- The answer to a request, whatever its header fields hold: the refusal of the first
check that it fails, or an upgrade of an acceptable one, with the first subprotocol
that is offered. The other side reads the lines that were meant, and no others. -/
theorem handleUpgrade_answered
    (hdigest : ∀ text, ∀ c ∈ digest text, c = '=' ∨ keyChar c = true) :
    Answered digest running req socket (handleUpgrade digest running req socket) := by
  rcases @handleUpgrade_cases digest running req socket with
    ⟨code, message, hrefused, heq⟩ | ⟨key, ts, hreq, hkey, hts, heq⟩
  · rw [heq]
    exact answered_abort (Or.inl ⟨hrefused.not_acceptable, hrefused⟩)
  rw [heq]
  obtain ⟨readable, writable, webSocket⟩ := socket
  unfold completeUpgrade
  split
  · next h => exact ⟨hreq, h⟩
  next husable =>
  obtain ⟨rfl, rfl⟩ : readable = true ∧ writable = true := by simpa using husable
  split
  · next h => exact ⟨hreq, by rw [show webSocket = true from h]⟩
  next hfresh =>
  obtain rfl : webSocket = false := by simpa using hfresh
  split
  · next h => exact answered_abort (Or.inr ⟨hreq, h, rfl, rfl⟩)
  next hrunning =>
  obtain ⟨hchosen, hprintable⟩ := chosen_of_offers hts
  have hlines := printable_switching hdigest key hprintable
  refine ⟨hreq, by simpa using hrunning, rfl, ⟨ts, hts, hchosen⟩, key, hkey, ?_, hlines⟩
  have hsome : switchingLines digest key (chosen ts) ≠ [] := List.cons_ne_nil _ _
  rw [join_append hsome, ← List.append_nil (HeadLines.crlf ++ _), List.append_assoc]
  exact read_written hlines hsome []

end Answers

def sampleKey : List Char := "dGhlIHNhbXBsZSBub25jZQ==".toList

def sampleDigest (text : List Char) : List Char :=
  if text = sampleKey ++ guid then "s3pPLMBiTxaQ9kYGzzhZRbK+xOo=".toList else []

def sampleRequest : Request where
  method := "GET".toList
  secWebSocketKey := some sampleKey
  upgrade := some "WebSocket".toList
  secWebSocketVersion := some 13
  secWebSocketProtocol := some "chat, superchat".toList

theorem handleUpgrade_answered_chat : ∃ written,
    handleUpgrade sampleDigest true sampleRequest ⟨true, true, false⟩ =
      .upgraded (some "chat".toList) written ∧
    HeadLines.read [] written =
      some (switchingLines sampleDigest sampleKey (some "chat".toList), []) := by
  have hdigest : ∀ text, ∀ c ∈ sampleDigest text, c = '=' ∨ keyChar c = true := by
    intro text
    unfold sampleDigest
    split
    · intro c hc
      have hall : "s3pPLMBiTxaQ9kYGzzhZRbK+xOo=".toList.all
          (fun c => decide (c = '=' ∨ keyChar c = true)) = true := by decide
      exact of_decide_eq_true (List.all_eq_true.mp hall c hc)
    · exact fun c hc => absurd hc List.not_mem_nil
  have hanswered := @handleUpgrade_answered sampleDigest true sampleRequest ⟨true, true, false⟩
    hdigest
  obtain ⟨written, heq⟩ : ∃ written,
      handleUpgrade sampleDigest true sampleRequest ⟨true, true, false⟩ =
        .upgraded (some "chat".toList) written := ⟨_, rfl⟩
  rw [heq] at hanswered
  obtain ⟨-, -, -, -, key, hkey, hread, -⟩ := hanswered
  obtain rfl : sampleKey = key := Option.some.inj hkey
  exact ⟨written, heq, hread⟩

end MediaStream.WebRTC.Ws.Handshake
