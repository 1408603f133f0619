import FlightLink.Checksum
import FlightLink.Frame.Basic

/-!
# The wire form of a frame

The checked part of a frame, its body, is everything between the direction byte and the checksum.
A frame has a wire form when its size and, for a short frame, its code fit their fields; a code
that does not fit is reported before a payload that does not.
-/

namespace FlightLink

/-- Why a message has no wire form. -/
inductive WireError where
  /-- The payload of a short frame has more than 255 bytes. -/
  | shortPayload (size : Nat)
  /-- The payload of a long frame has more than 65535 bytes. -/
  | longPayload (size : Nat)
  /-- The code of a short frame is above 255. -/
  | shortCode (code : UInt16)
  deriving DecidableEq, Repr

/-- The text of the error. -/
def WireError.message : WireError → String
  | .shortPayload size =>
    s!"MSP protocol error: v1 payload size {size} exceeds maximum {Version.v1.maxPayload}"
  | .longPayload size =>
    s!"MSP protocol error: v2 payload size {size} exceeds maximum {Version.v2.maxPayload}"
  | .shortCode code => s!"MSP protocol error: v1 code {code.toNat} does not fit in one byte"

/-- The checked part of a short frame: size, code and payload. -/
def shortBody (code : UInt8) (payload : Bytes) : Bytes :=
  lowByte payload.length :: code :: payload

/-- The five bytes between the direction and the payload of a long frame. -/
structure LongHeader where
  /-- The flag, zero in ordinary traffic. -/
  flag : UInt8
  /-- The low byte of the code. -/
  codeLow : UInt8
  /-- The high byte of the code. -/
  codeHigh : UInt8
  /-- The low byte of the payload size. -/
  sizeLow : UInt8
  /-- The high byte of the payload size. -/
  sizeHigh : UInt8
  deriving DecidableEq, Repr

namespace LongHeader

/-- The header of a message with the given flag, code and payload size. -/
def ofFields (flag : UInt8) (code : UInt16) (size : Nat) : LongHeader :=
  ⟨flag, lowByte code.toNat, highByte code.toNat, lowByte size, highByte size⟩

/-- The message code. -/
def code (h : LongHeader) : UInt16 := wordOf h.codeLow h.codeHigh

/-- The announced payload size. -/
def size (h : LongHeader) : Nat := (wordOf h.sizeLow h.sizeHigh).toNat

/-- The header as it is sent. -/
def toBytes (h : LongHeader) : Bytes := [h.flag, h.codeLow, h.codeHigh, h.sizeLow, h.sizeHigh]

/-- The number of bytes of a header. -/
def byteCount : Nat := 5

/-- The header before any of its bytes is known. -/
def blank : LongHeader := ⟨0, 0, 0, 0, 0⟩

/-- The header with another byte at place `i`, counted from zero. There is no place for a byte
behind the last. -/
def set (h : LongHeader) (byte : UInt8) : (i : Nat) → LongHeader
  | 0 => { h with flag := byte }
  | 1 => { h with codeLow := byte }
  | 2 => { h with codeHigh := byte }
  | 3 => { h with sizeLow := byte }
  | 4 => { h with sizeHigh := byte }
  | _ + 5 => h

/-- The header of a long frame has the same number of bytes whatever it says. -/
theorem length_toBytes (h : LongHeader) : h.toBytes.length = byteCount := rfl

/-- All bytes are zero before any is known. -/
theorem toBytes_blank {i : Nat} (hi : i < byteCount) : blank.toBytes[i]? = some 0 := by
  match i, hi with
  | 0, _ | 1, _ | 2, _ | 3, _ | 4, _ => rfl

/-- A byte is set where it is sent. -/
theorem toBytes_set (h : LongHeader) (byte : UInt8) (i : Nat) :
    (h.set byte i).toBytes = h.toBytes.set i byte := by
  match i with
  | 0 | 1 | 2 | 3 | 4 | _ + 5 => rfl

/-- The bytes up to one that is set are those before it and that byte. -/
theorem take_toBytes_set (h : LongHeader) (byte : UInt8) {i : Nat} (hi : i < byteCount) :
    (h.set byte i).toBytes.take (i + 1) = h.toBytes.take i ++ [byte] := by
  match i, hi with
  | 0, _ | 1, _ | 2, _ | 3, _ | 4, _ => rfl

end LongHeader

/-- The checked part of a long frame: header and payload. -/
def longBody (flag : UInt8) (code : UInt16) (payload : Bytes) : Bytes :=
  (LongHeader.ofFields flag code payload.length).toBytes ++ payload

/-- The bytes that open a frame: preamble, marker and direction. -/
def opening (version : Version) (direction : Direction) : Bytes :=
  [preamble, version.marker, direction.toByte]

/-- The wire form of a short frame. -/
def encodeShort (direction : Direction) (code : UInt8) (payload : Bytes) :
    Except WireError Bytes :=
  if payload.length ≤ Version.v1.maxPayload then
    let body := shortBody code payload
    .ok (opening .v1 direction ++ body ++ [xorSum body])
  else
    .error (.shortPayload payload.length)

/-- The wire form of a long frame. -/
def encodeLong (direction : Direction) (flag : UInt8) (code : UInt16) (payload : Bytes) :
    Except WireError Bytes :=
  if payload.length ≤ Version.v2.maxPayload then
    let body := longBody flag code payload
    .ok (opening .v2 direction ++ body ++ [crc body])
  else
    .error (.longPayload payload.length)

/-- The wire form of a frame. A long frame is sent with flag zero. -/
def Frame.encode (f : Frame) : Except WireError Bytes :=
  match f.version with
  | .v1 =>
    if f.code.toNat < 256 then encodeShort f.direction f.code.toUInt8 f.payload
    else .error (.shortCode f.code)
  | .v2 => encodeLong f.direction 0 f.code f.payload

end FlightLink
