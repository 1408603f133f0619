import FlightLink.Gather
import FlightLink.Log

/-!
# What a receiver does with a byte

`Receiver.step` takes one byte and `Receiver.feed` a chunk of any length; both give the new
receiver and the signals raised, in order: completed frames, notices to the observer, log events
and frames given up as oversized. Nothing else happens between bytes, so feeding two chunks one
after the other is feeding them joined.
-/

namespace FlightLink

/-- What comes out of a receiver. -/
inductive Signal where
  /-- A frame is complete and its checksum correct. -/
  | frame (f : Frame)
  /-- A rejection is reported to the observer. -/
  | notice (observer : Observer) (rejection : Rejection)
  /-- Something is logged. -/
  | event (e : Event)
  /-- A frame is given up because of its declared size. -/
  | oversized (o : Oversized)
  deriving DecidableEq, Repr

namespace Signal

/-- The completed frames among the signals. -/
def frames (out : List Signal) : List Frame :=
  out.filterMap fun | .frame f => some f | _ => none

/-- The notices to observers among the signals. -/
def notices (out : List Signal) : List (Observer × Rejection) :=
  out.filterMap fun | .notice o rejection => some (o, rejection) | _ => none

/-- The log events among the signals. -/
def events (out : List Signal) : List Event :=
  out.filterMap fun | .event e => some e | _ => none

/-- The first frame that was given up, if any was. -/
def failure? (out : List Signal) : Option Oversized :=
  out.findSome? fun | .oversized o => some o | _ => none

end Signal

namespace Receiver

/-- What is raised for a rejection: a log event, if wanted, and a notice, if someone observes. -/
def report (r : Receiver) (rejection : Rejection) : List Signal :=
  (if r.logRejections then [.event (.frameDropped rejection)] else []) ++
    (r.observer.map fun o => Signal.notice o rejection).toList

/-- Moves on inside a frame, or stays between frames. -/
def enter (r : Receiver) (phase : Phase) : Receiver × List Signal :=
  ({ r with phase }, [])

/-- Drops a frame at its marker or direction. -/
def loseSync (r : Receiver) (rejection : Rejection) : Receiver × List Signal :=
  ({ r with phase := .idle, tally.syncFailures := r.tally.syncFailures + 1 }, r.report rejection)

/-- Makes room for a payload of `size` bytes and moves on to `next`, or gives the frame up. Memory
for a size within the limit is taken to be there: that reserving it may fail is left out. -/
def makeRoom (r : Receiver) (size : Nat) (next : Phase) : Receiver × List Signal :=
  if r.limit < size then
    let o : Oversized := ⟨size, r.limit⟩
    ({ r with phase := .idle, payload := #[], tally.oversized := r.tally.oversized + 1 },
      [.event (.payloadOverLimit o), .oversized o])
  else if r.capacity < size then
    ({ r with phase := next, payload := #[], capacity := size }, [.event (.bufferGrown size)])
  else
    ({ r with phase := next, payload := #[] }, [])

/-- Takes one payload byte and moves on to `full` once there are `size` of them, else to `more`. -/
def store (r : Receiver) (byte : UInt8) (size : Nat) (more full : Phase) :
    Receiver × List Signal :=
  let r := { r with payload := r.payload.push byte }
  r.enter (if r.payload.size = size then full else more)

/-- Completes a frame: it is emitted if its checksum is the expected one, and dropped if not. -/
def finish (r : Receiver) (version : Version) (direction : Direction) (code : UInt16)
    (expected received : UInt8) : Receiver × List Signal :=
  if expected = received then
    ({ r with phase := .idle, payload := #[], tally.frames := r.tally.frames + 1 },
      [.event (.frameDecoded version code r.payload.size),
        .frame ⟨version, direction, code, r.payload.toList⟩])
  else
    ({ r with
        phase := .idle, payload := #[]
        tally.checksumFailures := r.tally.checksumFailures + 1 },
      r.report (.checksumMismatch version code expected received))

/-- Takes one byte and does what the phase asks for. -/
def advance (r : Receiver) (byte : UInt8) : Receiver × List Signal :=
  match r.phase with
  | .idle => r.enter (if byte = FlightLink.preamble then .preamble else .idle)
  | .preamble =>
    match Version.ofMarker? byte with
    | some version => r.enter (.direction version)
    | none => r.loseSync (.badVersionMarker byte)
  | .direction version =>
    match Direction.ofByte? byte, version with
    | some direction, .v1 => r.enter (.shortSize direction)
    | some direction, .v2 => r.enter (.longHeader direction .blank 0)
    | none, _ => r.loseSync (.badDirection byte)
  | .shortSize direction => r.makeRoom byte.toNat (.shortCode direction byte.toNat byte)
  | .shortCode direction size parity =>
    if size = 0 then r.enter (.shortChecksum direction byte (parity ^^^ byte))
    else r.enter (.shortPayload direction byte size (parity ^^^ byte))
  | .shortPayload direction code size parity =>
    r.store byte size (.shortPayload direction code size (parity ^^^ byte))
      (.shortChecksum direction code (parity ^^^ byte))
  | .shortChecksum direction code parity => r.finish .v1 direction code.toUInt16 parity byte
  | .longHeader direction header filled =>
    let header := header.set byte filled
    if filled + 1 < LongHeader.byteCount then r.enter (.longHeader direction header (filled + 1))
    else
      r.makeRoom header.size
        (if header.size = 0 then .longChecksum direction header header.code
        else .longPayload direction header header.code header.size)
  | .longPayload direction header code size =>
    r.store byte size (.longPayload direction header code size)
      (.longChecksum direction header code)
  | .longChecksum direction header code =>
    r.finish .v2 direction code (r.payload.foldl Crc.advance (crc header.toBytes)) byte

/-- Receives one byte. -/
def step (r : Receiver) (byte : UInt8) : Receiver × List Signal :=
  { r with tally.bytes := r.tally.bytes + 1 }.advance byte

/-- Receives a chunk of bytes and gathers the signals of all of them. -/
def feed (r : Receiver) (data : Bytes) : Receiver × List Signal := gather step r data

/-- Receives a chunk. Its frames are the result only if none was given up. -/
def decode (r : Receiver) (data : Bytes) : Receiver × List Signal × Except Oversized (List Frame) :=
  let (r, out) := r.feed data
  (r, out, match Signal.failure? out with
    | some o => .error o
    | none => .ok (Signal.frames out))

end Receiver

end FlightLink
