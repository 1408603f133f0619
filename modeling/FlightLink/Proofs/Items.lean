import FlightLink.Receiver.Step

/-!
# The items of a stream

Seen as a whole, a stream is a row of items: bytes between frames, openings that fail, heads of
frames that are too large, and whole frames, be their checksum right or wrong. This file names the
items, writes them out as bytes and says what a receiver makes of each: its verdict. No phase and no
running checksum occurs here, so that the receiver can be measured against it.
-/

namespace FlightLink

/-- A stretch of a stream that is dealt with as a whole. -/
inductive Item where
  /-- A byte between frames. -/
  | noise (byte : UInt8)
  /-- A preamble, and a byte that is no version marker. -/
  | badMarker (byte : UInt8)
  /-- A preamble, a version marker, and a byte that is no direction. -/
  | badDirection (version : Version) (byte : UInt8)
  /-- The head of a short frame, up to a size above the limit. -/
  | shortHead (direction : Direction) (size : UInt8)
  /-- The head of a long frame, up to a size above the limit. -/
  | longHead (direction : Direction) (header : LongHeader)
  /-- A whole short frame with some checksum. -/
  | short (direction : Direction) (size code : UInt8) (payload : Bytes) (checksum : UInt8)
  /-- A whole long frame with some checksum. -/
  | long (direction : Direction) (header : LongHeader) (payload : Bytes) (checksum : UInt8)
  deriving DecidableEq, Repr

/-- What becomes of an item. -/
inductive Verdict where
  /-- Nothing is made of it. -/
  | passed
  /-- It is a frame with a correct checksum. -/
  | frame (f : Frame)
  /-- It is dropped. -/
  | rejected (rejection : Rejection)
  /-- It is given up because of its declared size. -/
  | oversized (o : Oversized)
  deriving DecidableEq, Repr

namespace Item

/-- The bytes of an item. -/
def toBytes : Item → Bytes
  | .noise byte => [byte]
  | .badMarker byte => [preamble, byte]
  | .badDirection version byte => [preamble, version.marker, byte]
  | .shortHead direction size => opening .v1 direction ++ [size]
  | .longHead direction header => opening .v2 direction ++ header.toBytes
  | .short direction size code payload checksum =>
    opening .v1 direction ++ size :: code :: payload ++ [checksum]
  | .long direction header payload checksum =>
    opening .v2 direction ++ header.toBytes ++ payload ++ [checksum]

/-- Whether the bytes of an item are what its name says, under a limit on declared sizes. -/
def Fits (limit : Nat) : Item → Prop
  | .noise byte => byte ≠ preamble
  | .badMarker byte => Version.ofMarker? byte = none
  | .badDirection _ byte => Direction.ofByte? byte = none
  | .shortHead _ size => limit < size.toNat
  | .longHead _ header => limit < header.size
  | .short _ size _ payload _ => payload.length = size.toNat ∧ size.toNat ≤ limit
  | .long _ header payload _ => payload.length = header.size ∧ header.size ≤ limit

/-- The payload bytes that an item needs room for: none if its declared size is too large. -/
def room : Item → Nat
  | .short _ size _ _ _ => size.toNat
  | .long _ header _ _ => header.size
  | _ => 0

end Item

namespace Verdict

/-- A whole frame counts if its last byte is the checksum computed over its body. -/
def judge (version : Version) (direction : Direction) (code : UInt16) (payload : Bytes)
    (expected received : UInt8) : Verdict :=
  if expected = received then .frame ⟨version, direction, code, payload⟩
  else .rejected (.checksumMismatch version code expected received)

/-- The frame, if the verdict is one. -/
@[simp] def frame? : Verdict → Option Frame
  | .frame f => some f
  | _ => none

/-- The rejection, if the verdict is one. -/
@[simp] def rejection? : Verdict → Option Rejection
  | .rejected rejection => some rejection
  | _ => none

/-- The error, if the item was given up. -/
@[simp] def oversized? : Verdict → Option Oversized
  | .oversized o => some o
  | _ => none

/-- Whether a frame was completed. -/
@[simp] def isFrame (v : Verdict) : Bool := v.frame?.isSome

/-- Whether an item was given up. -/
@[simp] def isOversized (v : Verdict) : Bool := v.oversized?.isSome

/-- Whether a frame was dropped for its checksum. -/
@[simp] def isChecksumFailure : Verdict → Bool
  | .rejected (.checksumMismatch ..) => true
  | _ => false

/-- Whether an opening failed. -/
@[simp] def isSyncFailure : Verdict → Bool
  | .rejected (.badVersionMarker _) | .rejected (.badDirection _) => true
  | _ => false

end Verdict

/-- The verdict on an item. A short frame is checked by the exclusive or of size, code and payload,
a long one by the CRC of header and payload. -/
def Item.verdict (limit : Nat) : Item → Verdict
  | .noise _ => .passed
  | .badMarker byte => .rejected (.badVersionMarker byte)
  | .badDirection _ byte => .rejected (.badDirection byte)
  | .shortHead _ size => .oversized ⟨size.toNat, limit⟩
  | .longHead _ header => .oversized ⟨header.size, limit⟩
  | .short direction size code payload checksum =>
    .judge .v1 direction code.toUInt16 payload (xorSum (size :: code :: payload)) checksum
  | .long direction header payload checksum =>
    .judge .v2 direction header.code payload (crc (header.toBytes ++ payload)) checksum

/-- The totals after `count` more bytes in which items got these verdicts. -/
def Tally.after (t : Tally) (count : Nat) (verdicts : List Verdict) : Tally where
  bytes := t.bytes + count
  frames := t.frames + verdicts.countP Verdict.isFrame
  checksumFailures := t.checksumFailures + verdicts.countP Verdict.isChecksumFailure
  syncFailures := t.syncFailures + verdicts.countP Verdict.isSyncFailure
  oversized := t.oversized + verdicts.countP Verdict.isOversized

/-- Totals add up: counting two runs of items one after the other counts them together. -/
theorem Tally.after_after (t : Tally) (m n : Nat) (front back : List Verdict) :
    (t.after m front).after n back = t.after (m + n) (front ++ back) := by
  simp [Tally.after, Nat.add_assoc]

namespace Receiver

/-- What is raised when a buffer of some capacity has to hold `size` bytes. -/
def growth (capacity size : Nat) : List Signal :=
  if capacity < size then [.event (.bufferGrown size)] else []

/-- For no bytes a buffer never grows. -/
@[simp] theorem growth_zero (capacity : Nat) : growth capacity 0 = [] := by
  simp [growth]

/-- What a receiver raises at the end of an item with this verdict. -/
def announce (r : Receiver) : Verdict → List Signal
  | .passed => []
  | .frame f => [.event (.frameDecoded f.version f.code f.payload.length), .frame f]
  | .rejected rejection => r.report rejection
  | .oversized o => [.event (.payloadOverLimit o), .oversized o]

/-- A receiver with no frame in progress, after an item of `count` bytes that needed `room` bytes in
the buffer and got this verdict. -/
def close (r : Receiver) (count room : Nat) (verdict : Verdict) : Receiver × List Signal :=
  ({ r with capacity := max r.capacity room, tally := r.tally.after count [verdict] },
    growth r.capacity room ++ r.announce verdict)

/-- What a whole item does to a receiver with no frame in progress. -/
def settle (r : Receiver) (item : Item) : Receiver × List Signal :=
  r.close item.toBytes.length item.room (item.verdict r.limit)

end Receiver

end FlightLink
