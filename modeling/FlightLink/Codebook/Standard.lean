import FlightLink.Codebook.Basic

/-!
# The standard codebook

Flight controllers compress their flight logs with one fixed list of 257 codewords. It runs through
the bytes in order, except that 0x50 comes right after 0x04, and within a length the codes count
upwards. From length four on the codes of bytes are wider than their length, so only six bytes can
be read; the end of the block is twelve zero bits, which are read as six times 0x00 before.
-/

namespace FlightLink

/-- Codewords of one length whose codes count upwards from `first`. -/
def codewordRun (length : UInt8) (first : UInt16) (bytes : List UInt8) : List Codeword :=
  bytes.zipIdx.map fun (b, i) => ⟨.byte b, length, first + UInt16.ofNat i⟩

/-- The bytes from `low` on, `count` of them. -/
def byteRun (low count : Nat) : List UInt8 := (List.range' low count).map UInt8.ofNat

/-- The standard list of codewords. -/
def standardWords : List Codeword :=
  codewordRun 2 0 [0x00, 0x01] ++
  codewordRun 3 4 [0x02, 0x03, 0x04, 0x50] ++
  codewordRun 4 0x10 (byteRun 0x05 16) ++
  codewordRun 5 0x40 (byteRun 0x15 32) ++
  codewordRun 6 0xC0 (byteRun 0x35 27 ++ byteRun 0x51 5) ++
  codewordRun 7 0x1C0 (byteRun 0x56 32) ++
  codewordRun 8 0x3C0 (byteRun 0x76 32) ++
  codewordRun 9 0x7C0 (byteRun 0x96 32) ++
  codewordRun 10 0xFC0 (byteRun 0xB6 32) ++
  codewordRun 11 0x1FC0 (byteRun 0xD6 32) ++
  codewordRun 12 0x3FC0 (byteRun 0xF6 10) ++
  [⟨.endOfBlock, 12, 0⟩]

/-- The codebook of the standard list. -/
def Codebook.standard : Codebook :=
  match Codebook.ofWords standardWords with
  | .ok book => book
  | .error _ => .empty

end FlightLink
