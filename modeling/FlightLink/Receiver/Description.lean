import FlightLink.Receiver.Basic

/-!
# The description of a receiver

One line of text that shows the phase with all it carries, the buffer, the limit and the totals.
Braces enclose named fields and brackets the five header bytes of a long frame, of which those not
yet received show as zero.
-/

namespace FlightLink

/-- The bytes of a header, in brackets. -/
def describeHeader (header : LongHeader) : String :=
  let shown := header.toBytes.map fun (b : UInt8) => s!"{b.toNat}"
  "[" ++ ", ".intercalate shown ++ "]"

/-- A name with fields, each a name and a text. -/
def describeFields (name : String) (fields : List (String × String)) : String :=
  let shown := fields.map fun field => s!"{field.1}: {field.2}"
  name ++ " \x7b " ++ ", ".intercalate shown ++ " \x7d"

/-- The phase with all it carries. -/
def Phase.describe : Phase → String
  | .idle => "Idle"
  | .preamble => "Preamble"
  | .direction version => describeFields "Direction" [("version", version.name)]
  | .shortSize way => describeFields "V1Size" [("direction", way.name)]
  | .shortCode way size parity =>
    describeFields "V1Code"
      [("direction", way.name), ("size", s!"{size}"), ("checksum", s!"{parity.toNat}")]
  | .shortPayload way code size parity =>
    describeFields "V1Payload"
      [("direction", way.name), ("code", s!"{code.toNat}"), ("size", s!"{size}"),
        ("checksum", s!"{parity.toNat}")]
  | .shortChecksum way code parity =>
    describeFields "V1Checksum"
      [("direction", way.name), ("code", s!"{code.toNat}"),
        ("checksum", s!"{parity.toNat}")]
  | .longHeader way header filled =>
    describeFields "V2Header"
      [("direction", way.name), ("header", describeHeader header), ("filled", s!"{filled}")]
  | .longPayload way header code size =>
    describeFields "V2Payload"
      [("direction", way.name), ("header", describeHeader header),
        ("code", s!"{code.toNat}"), ("size", s!"{size}")]
  | .longChecksum way header code =>
    describeFields "V2Checksum"
      [("direction", way.name), ("header", describeHeader header),
        ("code", s!"{code.toNat}")]

/-- The running totals. -/
def Tally.describe (t : Tally) : String :=
  describeFields "DecoderStats"
    [("bytes_processed", s!"{t.bytes}"), ("frames_decoded", s!"{t.frames}"),
      ("checksum_failures", s!"{t.checksumFailures}"), ("sync_failures", s!"{t.syncFailures}"),
      ("oversized_frames", s!"{t.oversized}")]

/-- The whole receiver, less its payload bytes and its observer. -/
def Receiver.describe (r : Receiver) : String :=
  s!"FrameDecoder \x7b state: {r.phase.describe}, payload_capacity: {r.capacity}, " ++
    s!"max_payload_len: {r.limit}, stats: {r.tally.describe}, .. \x7d"

end FlightLink
