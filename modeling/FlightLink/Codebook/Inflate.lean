import FlightLink.Bytes
import FlightLink.Codebook.Standard

/-!
# Inflating a block

A compressed block is read bit by bit, most significant first. The bits since the last codeword
are held in a 16-bit register with their count; when register and count are in the codebook, the
byte they stand for is output and both start over. Reading ends with the input, with the number of
bytes requested, or at the end of the block. Bits that match nothing within twelve bits are never
matched, so nothing more is output after them.
-/

namespace FlightLink

/-- A request for more output than the limit. -/
structure OutputTooLong where
  /-- The output length requested. -/
  requested : Nat
  /-- The limit. -/
  limit : Nat
  deriving DecidableEq, Repr

/-- The text of the error. -/
def OutputTooLong.message (e : OutputTooLong) : String :=
  s!"Invalid argument: requested output length {e.requested} exceeds maximum {e.limit}"

/-- The largest output length that may be requested, unless a limit is set. -/
def defaultMaxOutput : Nat := 65535

namespace Codebook

/-- Reads bits until `requested` bytes are output. The register holds the last `count` bits read
since the last codeword. -/
def readBits (book : Codebook) (requested : Nat) :
    List Bool → UInt16 → Nat → Array UInt8 → Array UInt8
  | [], _, _, out => out
  | bit :: bits, register, count, out =>
    if requested ≤ out.size then out
    else
      let register := register <<< 1 ||| bit.toUInt16
      let count := count + 1
      if Codeword.maxLength < count then book.readBits requested bits register count out
      else
        match book.lookup? count register.toNat with
        | none => book.readBits requested bits register count out
        | some .endOfBlock => out
        | some (.byte b) => book.readBits requested bits 0 0 (out.push b)

/-- Inflates a block to at most `requested` bytes, which may not exceed `limit`. Memory for the
output is taken to be there: that reserving it may fail is left out. -/
def inflate (book : Codebook) (limit : Nat) (input : Bytes) (requested : Nat) :
    Except OutputTooLong Bytes :=
  if limit < requested then .error ⟨requested, limit⟩
  else .ok (book.readBits requested (bitsOf input) 0 0 #[]).toList

end Codebook

end FlightLink
