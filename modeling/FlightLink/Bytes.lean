/-!
# Bytes, their bits and their hexadecimal text

Wire streams, payloads and files are lists of bytes. A byte is also read as eight bits, most
significant first, and as two lowercase hexadecimal digits; two bytes make a 16-bit word, low byte
first.
-/

namespace FlightLink

/-- A run of bytes in the order in which they are sent or stored. -/
abbrev Bytes := List UInt8

/-- The eight bits of a byte, most significant first. -/
def byteBits (b : UInt8) : List Bool :=
  [7, 6, 5, 4, 3, 2, 1, 0].map b.toNat.testBit

/-- The bits of a run of bytes, most significant first within each byte. -/
def bitsOf (data : Bytes) : List Bool := data.flatMap byteBits

/-- The two lowercase hexadecimal digits of a byte, high half first. -/
def byteHex (b : UInt8) : List Char := [(b.toNat / 16).digitChar, (b.toNat % 16).digitChar]

/-- Lowercase hexadecimal text, two digits a byte. -/
def hexText (data : Bytes) : List Char := data.flatMap byteHex

/-- The low byte of a number. -/
def lowByte (n : Nat) : UInt8 := UInt8.ofNat n

/-- The second lowest byte of a number. -/
def highByte (n : Nat) : UInt8 := UInt8.ofNat (n / 256)

/-- The 16-bit word written as `low` and then `high`. -/
def wordOf (low high : UInt8) : UInt16 := UInt16.ofNat (low.toNat + 256 * high.toNat)

/-- The bytes of a text all of whose characters are ASCII. -/
def asciiBytes (text : List Char) : Bytes := text.map fun c => UInt8.ofNat c.toNat

/-- A byte has eight bits. -/
@[simp] theorem length_byteBits (b : UInt8) : (byteBits b).length = 8 := rfl

/-- A byte is written in two digits. -/
@[simp] theorem length_byteHex (b : UInt8) : (byteHex b).length = 2 := rfl

/-- No bytes have no bits. -/
@[simp] theorem bitsOf_nil : bitsOf [] = [] := rfl

/-- The bits of the first byte come first. -/
@[simp] theorem bitsOf_cons (b : UInt8) (data : Bytes) :
    bitsOf (b :: data) = byteBits b ++ bitsOf data := rfl

/-- There are eight bits for each byte. -/
theorem length_bitsOf (data : Bytes) : (bitsOf data).length = 8 * data.length := by
  induction data with
  | nil => rfl
  | cons b data ih => simp [ih]; omega

/-- There are two digits for each byte. -/
theorem length_hexText (data : Bytes) : (hexText data).length = 2 * data.length := by
  induction data with
  | nil => rfl
  | cons b data ih =>
    have hcons : hexText (b :: data) = byteHex b ++ hexText data := rfl
    rw [hcons, List.length_append, length_byteHex, ih, List.length_cons, Nat.mul_succ, Nat.add_comm]

end FlightLink
