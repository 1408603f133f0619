import FlightLink.Bytes

/-!
# Frames

A frame carries one message between a ground station and a flight controller. Its first three
bytes are a preamble, a version marker and a direction:

    short   $ M direction size code payload checksum
    long    $ X direction flag code code size size payload checksum

Words of a long frame are written low byte first.
-/

namespace FlightLink

/-- The byte that opens every frame, `$`. -/
def preamble : UInt8 := 0x24

/-- The two framing formats. -/
inductive Version where
  /-- Short frames: code and size of one byte, checked by exclusive or. -/
  | v1
  /-- Long frames: a flag, code and size of two bytes, checked by CRC. -/
  | v2
  deriving DecidableEq, Repr

/-- The marker byte after the preamble: `M` or `X`. -/
def Version.marker : Version → UInt8
  | .v1 => 0x4D
  | .v2 => 0x58

/-- The format a marker byte announces. -/
def Version.ofMarker? (b : UInt8) : Option Version :=
  if b = Version.v1.marker then some .v1
  else if b = Version.v2.marker then some .v2
  else none

/-- The number of the format, as records show it. -/
def Version.number : Version → Nat
  | .v1 => 1
  | .v2 => 2

/-- The name of the format in log messages. -/
def Version.name : Version → String
  | .v1 => "V1"
  | .v2 => "V2"

/-- The most payload bytes that the size field of a format can announce. -/
def Version.maxPayload : Version → Nat
  | .v1 => 255
  | .v2 => 65535

/-- Which way a message travels. -/
inductive Direction where
  /-- A request to the flight controller, `<`. -/
  | request
  /-- A response of the flight controller, `>`. -/
  | response
  /-- A response that refuses the request, `!`. -/
  | refusal
  deriving DecidableEq, Repr

/-- The direction byte of a frame. -/
def Direction.toByte : Direction → UInt8
  | .request => 0x3C
  | .response => 0x3E
  | .refusal => 0x21

/-- The direction that a byte stands for. -/
def Direction.ofByte? (b : UInt8) : Option Direction :=
  if b = Direction.request.toByte then some .request
  else if b = Direction.response.toByte then some .response
  else if b = Direction.refusal.toByte then some .refusal
  else none

/-- The direction as a character. -/
def Direction.toChar : Direction → Char
  | .request => '<'
  | .response => '>'
  | .refusal => '!'

/-- The name of the direction in descriptions. -/
def Direction.name : Direction → String
  | .request => "ToFc"
  | .response => "FromFc"
  | .refusal => "Error"

/-- A message with its framing format. The code of a short frame is below 256 when it came off the
wire; a frame put together by hand may break this, and then it has no wire form. -/
structure Frame where
  /-- The framing format. -/
  version : Version
  /-- Which way the message travels. -/
  direction : Direction
  /-- What the message is about. -/
  code : UInt16
  /-- The body of the message. -/
  payload : Bytes
  deriving DecidableEq, Repr

/-- A version is read back from its marker. -/
@[simp] theorem Version.ofMarker?_marker (v : Version) : Version.ofMarker? v.marker = some v := by
  cases v <;> rfl

/-- A direction is read back from its byte. -/
@[simp] theorem Direction.ofByte?_toByte (d : Direction) :
    Direction.ofByte? d.toByte = some d := by
  cases d <;> rfl

/-- A byte is read as a version just if it is its marker. -/
theorem Version.ofMarker?_eq_some_iff {b : UInt8} {v : Version} :
    Version.ofMarker? b = some v ↔ b = v.marker := by
  constructor
  · unfold Version.ofMarker?
    split
    · rintro ⟨⟩; assumption
    split
    · rintro ⟨⟩; assumption
    · rintro ⟨⟩
  · rintro rfl
    exact Version.ofMarker?_marker v

/-- A byte is read as a direction just if it is the byte of the direction. -/
theorem Direction.ofByte?_eq_some_iff {b : UInt8} {d : Direction} :
    Direction.ofByte? b = some d ↔ b = d.toByte := by
  constructor
  · unfold Direction.ofByte?
    split
    · rintro ⟨⟩; assumption
    split
    · rintro ⟨⟩; assumption
    split
    · rintro ⟨⟩; assumption
    · rintro ⟨⟩
  · rintro rfl
    exact Direction.ofByte?_toByte d

end FlightLink
