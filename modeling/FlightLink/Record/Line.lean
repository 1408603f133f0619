import FlightLink.Frame.Basic

/-!
# Frame records

A record is one line of text that holds a JSON object with the contents of a frame: the time of the
record, the number of the format, the direction as a character, the code, and the payload with its
length, in lowercase hexadecimal. Fields come in this order and without blanks. No field holds a
quotation mark, a backslash or a line break, so nothing is ever escaped.
-/

namespace FlightLink

/-- A quoted text. -/
def quoted (text : List Char) : List Char := '"' :: text ++ ['"']

/-- A number in decimal. -/
def decimal (n : Nat) : List Char := Nat.toDigits 10 n

/-- A field of a JSON object: its quoted name, a colon and its value. -/
def jsonField (name : String) (value : List Char) : List Char :=
  quoted name.toList ++ ':' :: value

/-- A JSON object with the given fields. -/
def jsonObject (fields : List (List Char)) : List Char :=
  '\x7b' :: (fields.intersperse [',']).flatten ++ ['\x7d']

/-- The record of a frame, stamped with the given time and without its line break. -/
def Frame.record (stamp : String) (f : Frame) : List Char :=
  jsonObject
    [jsonField "timestamp" (quoted stamp.toList),
      jsonField "version" (decimal f.version.number),
      jsonField "direction" (quoted [f.direction.toChar]),
      jsonField "code" (decimal f.code.toNat),
      jsonField "payload_len" (decimal f.payload.length),
      jsonField "payload" (quoted (hexText f.payload))]

/-- The record of a frame as bytes, without its line break. -/
def Frame.recordBytes (stamp : String) (f : Frame) : Bytes := asciiBytes (f.record stamp)

/-- The line break that ends a record. -/
def recordBreak : Bytes := asciiBytes ['\n']

end FlightLink
