import FlightLink.Proofs.Items

/-!
# Wire forms as items

The wire form of a message is an item: a whole frame whose last byte is its checksum. Words survive
being written as two bytes and read again, in either order of doing so.
-/

namespace FlightLink

/-! ### Words -/

/-- The low byte is the remainder by 256. -/
theorem toNat_lowByte (n : Nat) : (lowByte n).toNat = n % 256 :=
  UInt8.toNat_ofNat'

/-- The high byte is the quotient by 256, up to multiples of 256. -/
theorem toNat_highByte (n : Nat) : (highByte n).toNat = n / 256 % 256 :=
  UInt8.toNat_ofNat'

/-- A word is the low byte and 256 times the high byte. -/
theorem toNat_wordOf (low high : UInt8) :
    (wordOf low high).toNat = low.toNat + 256 * high.toNat := by
  have hlow := low.toNat_lt
  have hhigh := high.toNat_lt
  rw [wordOf, UInt16.toNat_ofNat', Nat.mod_eq_of_lt (by omega)]

/-- A word is read back from its two bytes. -/
theorem wordOf_lowByte_highByte (w : UInt16) : wordOf (lowByte w.toNat) (highByte w.toNat) = w := by
  have hw := w.toNat_lt
  apply UInt16.toNat_inj.mp
  rw [toNat_wordOf, toNat_lowByte, toNat_highByte]
  omega

/-- The low byte read is the low byte written. -/
theorem lowByte_wordOf (low high : UInt8) : lowByte (wordOf low high).toNat = low := by
  have hlow := low.toNat_lt
  apply UInt8.toNat_inj.mp
  rw [toNat_lowByte, toNat_wordOf]
  omega

/-- The high byte read is the high byte written. -/
theorem highByte_wordOf (low high : UInt8) : highByte (wordOf low high).toNat = high := by
  have hlow := low.toNat_lt
  have hhigh := high.toNat_lt
  apply UInt8.toNat_inj.mp
  rw [toNat_highByte, toNat_wordOf]
  omega

namespace LongHeader

variable {flag : UInt8} {code : UInt16} {size : Nat}

/-- A header says the code that it was put together from. -/
@[simp] theorem code_ofFields : (ofFields flag code size).code = code :=
  wordOf_lowByte_highByte code

/-- A header says the size that it was put together from, if that fits the size field. -/
theorem size_ofFields (flag : UInt8) (code : UInt16) (hsize : size ≤ Version.v2.maxPayload) :
    (ofFields flag code size).size = size := by
  have hsize : size ≤ 65535 := hsize
  rw [LongHeader.size, ofFields, toNat_wordOf, toNat_lowByte, toNat_highByte]
  omega

/-- A header is the one put together from what it says. -/
theorem ofFields_self (header : LongHeader) :
    ofFields header.flag header.code header.size = header := by
  simp only [ofFields, LongHeader.code, LongHeader.size, lowByte_wordOf, highByte_wordOf]

/-- A header says no size that does not fit the size field. -/
theorem size_le (header : LongHeader) : header.size ≤ Version.v2.maxPayload :=
  Nat.le_of_lt_succ (wordOf header.sizeLow header.sizeHigh).toNat_lt

end LongHeader

/-! ### Frames -/

variable {direction : Direction} {payload w : Bytes}

/-- The item that a short message is sent as. -/
def shortItem (direction : Direction) (code : UInt8) (payload : Bytes) (checksum : UInt8) : Item :=
  .short direction (lowByte payload.length) code payload checksum

/-- The item that a long message is sent as. -/
def longItem (direction : Direction) (flag : UInt8) (code : UInt16) (payload : Bytes)
    (checksum : UInt8) : Item :=
  .long direction (.ofFields flag code payload.length) payload checksum

/-- The checksum stands last in a whole short frame. -/
theorem toBytes_shortItem (direction : Direction) (code : UInt8) (payload : Bytes)
    (checksum : UInt8) :
    (shortItem direction code payload checksum).toBytes =
      opening .v1 direction ++ shortBody code payload ++ [checksum] := rfl

/-- The checksum stands last in a whole long frame. -/
theorem toBytes_longItem (direction : Direction) (flag : UInt8) (code : UInt16) (payload : Bytes)
    (checksum : UInt8) :
    (longItem direction flag code payload checksum).toBytes =
      opening .v2 direction ++ longBody flag code payload ++ [checksum] := by
  simp [longItem, Item.toBytes, longBody]

/-- A short message has a wire form just if its payload fits the size field, and then it is the item
that ends in the checksum. -/
theorem encodeShort_eq_ok_iff {code : UInt8} :
    encodeShort direction code payload = .ok w ↔
      payload.length ≤ Version.v1.maxPayload ∧
        w = (shortItem direction code payload (xorSum (shortBody code payload))).toBytes := by
  rw [encodeShort]
  by_cases hlength : payload.length ≤ Version.v1.maxPayload
  · simp [hlength, shortItem, Item.toBytes, shortBody, eq_comm]
  · simp [hlength]

/-- A long message has a wire form just if its payload fits the size field, and then it is the item
that ends in the checksum. -/
theorem encodeLong_eq_ok_iff {flag : UInt8} {code : UInt16} :
    encodeLong direction flag code payload = .ok w ↔
      payload.length ≤ Version.v2.maxPayload ∧
        w = (longItem direction flag code payload (crc (longBody flag code payload))).toBytes := by
  rw [encodeLong]
  by_cases hlength : payload.length ≤ Version.v2.maxPayload
  · simp [hlength, longItem, Item.toBytes, longBody, eq_comm]
  · simp [hlength]

/-- A short message within the limit is an item for a receiver with the limit. -/
theorem fits_shortItem {limit : Nat} {code checksum : UInt8}
    (hlength : payload.length ≤ Version.v1.maxPayload) (hlimit : payload.length ≤ limit) :
    (shortItem direction code payload checksum).Fits limit := by
  have hlength : payload.length ≤ 255 := hlength
  have hsize : (lowByte payload.length).toNat = payload.length := by
    rw [toNat_lowByte]
    omega
  exact ⟨hsize.symm, by rwa [hsize]⟩

/-- A long message within the limit is an item for a receiver with the limit. -/
theorem fits_longItem {limit : Nat} {flag checksum : UInt8} {code : UInt16}
    (hlength : payload.length ≤ Version.v2.maxPayload) (hlimit : payload.length ≤ limit) :
    (longItem direction flag code payload checksum).Fits limit := by
  have hsize := LongHeader.size_ofFields flag code hlength
  exact ⟨hsize.symm, by rwa [hsize]⟩

/-- The verdict on a short message depends on its last byte only. -/
theorem verdict_shortItem (limit : Nat) (direction : Direction) (code : UInt8) (payload : Bytes)
    (checksum : UInt8) :
    (shortItem direction code payload checksum).verdict limit =
      .judge .v1 direction code.toUInt16 payload (xorSum (shortBody code payload)) checksum := rfl

/-- The verdict on a long message depends on its last byte only. -/
theorem verdict_longItem (limit : Nat) (direction : Direction) (flag : UInt8) (code : UInt16)
    (payload : Bytes) (checksum : UInt8) :
    (longItem direction flag code payload checksum).verdict limit =
      .judge .v2 direction code payload (crc (longBody flag code payload)) checksum := by
  rw [longItem, Item.verdict, LongHeader.code_ofFields]
  rfl

end FlightLink
