import FlightLink.Frame.Wire

/-!
# Receivers

A receiver finds frames in a byte stream, one byte at a time. Between two bytes it is in one of
the phases below, and it holds the payload bytes of the frame in progress in a buffer whose
capacity only ever grows. A frame with a wrong checksum, or a byte that breaks the opening of a
frame, is dropped with a `Rejection`; a frame that declares more payload than the limit is given up
with an `Oversized`.
-/

namespace FlightLink

/-- Why a frame in progress was dropped. -/
inductive Rejection where
  /-- The last byte is not the checksum of the bytes received. -/
  | checksumMismatch (version : Version) (code : UInt16) (expected received : UInt8)
  /-- The byte after the preamble is no version marker. -/
  | badVersionMarker (byte : UInt8)
  /-- The byte after the version marker is no direction. -/
  | badDirection (byte : UInt8)
  deriving DecidableEq, Repr

/-- A frame that declares more payload bytes than the receiver's limit. -/
structure Oversized where
  /-- The declared size. -/
  declared : Nat
  /-- The limit. -/
  limit : Nat
  deriving DecidableEq, Repr

/-- The text of the error. -/
def Oversized.message (o : Oversized) : String :=
  s!"Resource exhausted: {o.declared} bytes requested, limit is {o.limit}"

/-- Running totals of a receiver. -/
structure Tally where
  /-- The bytes received. -/
  bytes : Nat := 0
  /-- The frames completed with a correct checksum. -/
  frames : Nat := 0
  /-- The frames dropped for their checksum. -/
  checksumFailures : Nat := 0
  /-- The frames dropped for a bad version marker or direction. -/
  syncFailures : Nat := 0
  /-- The frames given up for their declared size. -/
  oversized : Nat := 0
  deriving DecidableEq, Repr

/-- Where a receiver stands in a frame. -/
inductive Phase where
  /-- Between frames. -/
  | idle
  /-- After the preamble; a version marker is next. -/
  | preamble
  /-- After the version marker; a direction is next. -/
  | direction (version : Version)
  /-- In a short frame, at the size. -/
  | shortSize (direction : Direction)
  /-- In a short frame, at the code; `parity` is the exclusive or of the body so far. -/
  | shortCode (direction : Direction) (size : Nat) (parity : UInt8)
  /-- In the payload of a short frame. -/
  | shortPayload (direction : Direction) (code : UInt8) (size : Nat) (parity : UInt8)
  /-- In a short frame, at the checksum. -/
  | shortChecksum (direction : Direction) (code parity : UInt8)
  /-- In the header of a long frame, of which `filled` bytes have come. -/
  | longHeader (direction : Direction) (header : LongHeader) (filled : Nat)
  /-- In the payload of a long frame. -/
  | longPayload (direction : Direction) (header : LongHeader) (code : UInt16) (size : Nat)
  /-- In a long frame, at the checksum. -/
  | longChecksum (direction : Direction) (header : LongHeader) (code : UInt16)
  deriving DecidableEq, Repr

/-- An observer of rejections, known by a number. -/
structure Observer where
  /-- The number. -/
  id : Nat
  deriving DecidableEq, Repr

/-- The settings of a receiver. -/
structure ReceiverSettings where
  /-- The largest payload size a frame may declare. -/
  maxPayload : Nat := 65535
  /-- The capacity of the payload buffer at first, if the limit allows it. -/
  initialCapacity : Nat := 256
  /-- Whether dropped frames are logged. -/
  logRejections : Bool := true
  deriving DecidableEq, Repr

/-- A receiver of one byte stream. -/
structure Receiver where
  /-- The largest payload size a frame may declare. -/
  limit : Nat
  /-- Whether dropped frames are logged. -/
  logRejections : Bool
  /-- Where the receiver stands in a frame. -/
  phase : Phase
  /-- The payload bytes of the frame in progress. -/
  payload : Array UInt8
  /-- How many payload bytes the buffer has room for. -/
  capacity : Nat
  /-- Whom rejections are reported to. -/
  observer : Option Observer
  /-- The running totals. -/
  tally : Tally
  deriving DecidableEq, Repr

namespace Receiver

/-- A receiver that has received nothing. Its buffer starts no larger than its limit. -/
def ofSettings (s : ReceiverSettings) : Receiver where
  limit := s.maxPayload
  logRejections := s.logRejections
  phase := .idle
  payload := #[]
  capacity := min s.initialCapacity s.maxPayload
  observer := none
  tally := {}

/-- Whether no frame is in progress. -/
def isIdle (r : Receiver) : Bool := r.phase == .idle

/-- Drops a frame in progress without a report. -/
def reset (r : Receiver) : Receiver := { r with phase := .idle, payload := #[] }

/-- Reports rejections to `o` from now on, and to nobody else. -/
def watch (r : Receiver) (o : Observer) : Receiver := { r with observer := some o }

/-- Reports rejections to nobody from now on. -/
def unwatch (r : Receiver) : Receiver := { r with observer := none }

end Receiver

end FlightLink
