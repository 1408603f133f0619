import FlightLink.Bytes

/-!
# Frame checksums

Short frames end in the exclusive or of their bytes. Long frames end in CRC-8/DVB-S2: the
remainder of the message, as a polynomial over two elements, by x⁸ + x⁷ + x⁶ + x⁴ + x² + 1, most
significant bit first. The remainder advances a byte at a time through a table of the 256
remainders of one byte.
-/

namespace FlightLink

/-- The exclusive or of all bytes, zero for none. -/
def xorSum (data : Bytes) : UInt8 := data.foldl (· ^^^ ·) 0

namespace Crc

/-- The divisor x⁸ + x⁷ + x⁶ + x⁴ + x² + 1 without its leading term. -/
def divisor : UInt8 := 0xD5

/-- Multiplies a remainder by x and reduces it by the divisor. -/
def shift (r : UInt8) : UInt8 :=
  if r &&& 0x80 = 0 then r <<< 1 else (r <<< 1) ^^^ divisor

/-- The remainder of a byte followed by eight zero bits. -/
def remainder (b : UInt8) : UInt8 := Nat.repeat shift 8 b

/-- The remainders of all bytes, at the index of the byte. -/
def table : Vector UInt8 256 := Vector.ofFn fun i => remainder (UInt8.ofFin i)

/-- The remainder after one more byte. -/
def advance (r b : UInt8) : UInt8 := table.get (r ^^^ b).toFin

end Crc

/-- The CRC of the data, continued from the remainder `start` of what came before. -/
def crcFrom (start : UInt8) (data : Bytes) : UInt8 := data.foldl Crc.advance start

/-- The CRC of the data. -/
def crc (data : Bytes) : UInt8 := crcFrom 0 data

/-- The table changes nothing but speed: a byte is shifted in by eight single steps. -/
theorem Crc.advance_eq_remainder (r b : UInt8) :
    Crc.advance r b = Crc.remainder (r ^^^ b) := by
  simp only [Crc.advance, Crc.table, Vector.get, Vector.ofFn, Array.getElem_ofFn]
  rfl

/-- Without data a CRC stays what it was. -/
@[simp] theorem crcFrom_nil (start : UInt8) : crcFrom start [] = start :=
  List.foldl_nil

/-- A CRC takes in the first byte and goes on with the others. -/
@[simp] theorem crcFrom_cons (start b : UInt8) (data : Bytes) :
    crcFrom start (b :: data) = crcFrom (Crc.advance start b) data :=
  List.foldl_cons ..

/-- A message may be checked in pieces, each continuing from the remainder of those before it. -/
theorem crcFrom_append (start : UInt8) (front back : Bytes) :
    crcFrom start (front ++ back) = crcFrom (crcFrom start front) back :=
  List.foldl_append

end FlightLink
