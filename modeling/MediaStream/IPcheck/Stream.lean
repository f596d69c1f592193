import MediaStream.Lib.Capture
import MediaStream.Lib.Multicast

/-!
The senders that do not look at the result of `snd_pcm_readi`: `captureAndSend` of
`IPcheckstream.cpp`, and `main` of `rtaudio_stream/sender/audio_sender.cpp`. After
each read they send all of their buffer.
-/

namespace MediaStream

open Lib Lib.Multicast

namespace IPcheck

def frameBytes : Nat := 2 * 2

def bufferSize : Nat := 1024

/-- What `snd_pcm_readi(capture_handle, buffer, BUFFER_SIZE)` returns. -/
abbrev Frames := Capture.Frames frameBytes bufferSize

/-- The datagrams of `captureAndSend`, each with the peers it is sent to: the
`peer_addresses` at the time. -/
def captureAndSend (buffer : Bytes.Buffer (bufferSize * frameBytes))
    (passes : List (Option Frames × List String)) : List (List String × List UInt8) :=
  (passes.map Prod.snd).zip (Capture.contents buffer (passes.map Prod.fst))

/-- The datagrams, one for each pass and peer. -/
def datagrams (sent : List (List String × List UInt8)) : List (String × List UInt8) :=
  multicast (sent.map Prod.fst) (sent.map Prod.snd)

/-- The audio on the wire, as each peer gets it. -/
def sentAudio (sent : List (List String × List UInt8)) : List UInt8 := sent.flatMap Prod.snd

end IPcheck

namespace RtaudioStream

def frameBytes : Nat := 4

/-- `BUFSIZE / 4`, in frames. -/
def requested : Nat := 1024 / 4

/-- What `snd_pcm_readi(capture_handle, buffer, BUFSIZE / 4)` returns. -/
abbrev Frames := Capture.Frames frameBytes requested

def main (buffer : Bytes.Buffer (requested * frameBytes)) (reads : List (Option Frames)) :
    List (List UInt8) :=
  Capture.contents buffer reads

end RtaudioStream

end MediaStream
