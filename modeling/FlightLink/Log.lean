import FlightLink.Receiver.Basic

/-!
# Log events

Everything that is logged is a value of `Event`; its level and its text are functions of it. A log
line spells out the characters that would steer a terminal.
-/

namespace FlightLink

/-- How important an event is, least first. -/
inductive Level where
  /-- Routine steps. -/
  | trace
  /-- Details of interest when something goes wrong. -/
  | debug
  /-- Progress. -/
  | info
  /-- Data that was lost. -/
  | warn
  deriving DecidableEq, Repr

/-- The name of the level. -/
def Level.name : Level → String
  | .trace => "TRACE"
  | .debug => "DEBUG"
  | .info => "INFO"
  | .warn => "WARN"

/-- Whether events of this level are shown to the user of the command line. -/
def Level.isShown : Level → Bool
  | .trace | .debug => false
  | .info | .warn => true

/-- What is logged. -/
inductive Event where
  /-- A frame declares more payload than the limit. -/
  | payloadOverLimit (o : Oversized)
  /-- The payload buffer has grown to this capacity. -/
  | bufferGrown (capacity : Nat)
  /-- A frame is complete and correct. -/
  | frameDecoded (version : Version) (code : UInt16) (size : Nat)
  /-- A frame was dropped. -/
  | frameDropped (rejection : Rejection)
  /-- A chunk of a capture held a frame that is too large; the first such frame of the chunk. -/
  | frameSkipped (o : Oversized)
  /-- A capture ended inside a frame. -/
  | endedInsideFrame
  /-- A capture was read to its end: its bytes, and the totals of the receiver. -/
  | captureRead (total : Nat) (tally : Tally)
  /-- The program starts. -/
  | started
  /-- The settings were read from a file. -/
  | settingsLoaded (path : String)
  /-- All frames of a capture were written. -/
  | framesWritten (records total : Nat)
  /-- A compressed block gave fewer bytes than requested. -/
  | blockEnded (produced requested : Nat)
  deriving DecidableEq, Repr

/-- A rejection as log messages show it. -/
def Rejection.describe : Rejection → String
  | .checksumMismatch version code expected received =>
    s!"ChecksumMismatch \x7b version: {version.name}, code: {code.toNat}, " ++
      s!"expected: {expected.toNat}, received: {received.toNat} \x7d"
  | .badVersionMarker byte => s!"BadVersionMarker({byte.toNat})"
  | .badDirection byte => s!"BadDirection({byte.toNat})"

/-- A character as log lines show it. Those by which a text could steer a terminal are spelled out
by their number in hexadecimal: bell, backspace, form feed, escape, delete and the control
characters beyond ASCII. -/
def terminalSafe (c : Char) : List Char :=
  let digits := Nat.toDigits 16 c.toNat
  if c ∈ ['\x07', '\x08', '\x0c', '\x1b', '\x7f'] then
    ['\\', 'x'] ++ List.replicate (2 - digits.length) '0' ++ digits
  else if '\u0080' ≤ c ∧ c ≤ '\u009f' then ['\\', 'u', '\x7b'] ++ digits ++ ['\x7d']
  else [c]

namespace Event

/-- The level of an event. -/
def level : Event → Level
  | .frameDecoded .. => .trace
  | .bufferGrown _ | .frameDropped _ | .endedInsideFrame => .debug
  | .captureRead .. | .started | .settingsLoaded _ | .framesWritten .. | .blockEnded .. => .info
  | .payloadOverLimit _ | .frameSkipped _ => .warn

/-- The text of an event. -/
def message : Event → String
  | .payloadOverLimit o =>
    s!"Declared payload of {o.declared} bytes exceeds limit of {o.limit} bytes"
  | .bufferGrown capacity => s!"Payload buffer grown to {capacity} bytes"
  | .frameDecoded version code size =>
    s!"Decoded {version.name} frame code={code.toNat} payload_len={size}"
  | .frameDropped rejection => s!"Dropped MSP frame: {rejection.describe}"
  | .frameSkipped o => s!"Skipped frame declaring {o.declared} payload bytes (limit {o.limit})"
  | .endedInsideFrame => "Stream ended inside a frame; partial frame kept by decoder"
  | .captureRead total tally =>
    s!"Read {total} bytes: {tally.frames} frames, {tally.checksumFailures} checksum failures, " ++
      s!"{tally.syncFailures} sync failures, {tally.oversized} oversized"
  | .started => "MSP Codec v0.1.0 starting..."
  | .settingsLoaded path => s!"Loaded configuration from {path}"
  | .framesWritten records total => s!"Wrote {records} frames from {total} bytes"
  | .blockEnded produced requested =>
    s!"Block ended after {produced} of {requested} requested bytes"

/-- Level and text on one line, safe to show on a terminal. -/
def line (e : Event) : String :=
  s!"{e.level.name} " ++ String.ofList (e.message.toList.flatMap terminalSafe)

end Event

end FlightLink
