/-!
# Codebooks

A codebook says which bit strings of one to twelve bits stand for which bytes, and which of them
ends a block. It is one table of slots, a row for each length after the row of the length before,
and in a row a slot for each value. It is built from a list of codewords. A codeword whose code is
wider than its length can never be read, so it is left out; two codewords that are read alike make
the list unusable.
-/

namespace FlightLink

/-- What a codeword stands for. -/
inductive CodeSymbol where
  /-- A byte of output. -/
  | byte (b : UInt8)
  /-- The end of the block. -/
  | endOfBlock
  deriving DecidableEq, Repr

/-- The value of a slot that stands for nothing. -/
def vacantSlot : UInt16 := 0xFFFF

/-- The value of a slot that ends the block. -/
def endSlot : UInt16 := 0x100

namespace CodeSymbol

/-- The value of a slot that stands for the symbol. -/
def slotValue : CodeSymbol → UInt16
  | byte b => b.toUInt16
  | endOfBlock => endSlot

/-- What a slot of this value stands for. -/
def ofSlotValue? (value : UInt16) : Option CodeSymbol :=
  if value = vacantSlot then none
  else if value = endSlot then some endOfBlock
  else some (byte value.toUInt8)

end CodeSymbol

/-- A bit string, as its length and its value, and what it stands for. -/
structure Codeword where
  /-- What the bit string stands for. -/
  symbol : CodeSymbol
  /-- The number of bits. -/
  length : UInt8
  /-- The value of the bits, most significant first. -/
  code : UInt16
  deriving DecidableEq, Repr

namespace Codeword

/-- The longest bit string of a codebook. -/
def maxLength : Nat := 12

/-- Whether the length is one that a codebook admits. -/
def HasLength (w : Codeword) : Prop := 1 ≤ w.length.toNat ∧ w.length.toNat ≤ maxLength

instance (w : Codeword) : Decidable w.HasLength :=
  inferInstanceAs (Decidable (1 ≤ w.length.toNat ∧ w.length.toNat ≤ maxLength))

/-- Whether the code is a value of as many bits as the length says. -/
def Fits (w : Codeword) : Prop := w.code.toNat < 1 <<< w.length.toNat

instance (w : Codeword) : Decidable w.Fits :=
  inferInstanceAs (Decidable (w.code.toNat < 1 <<< w.length.toNat))

end Codeword

/-- What is wrong with a codeword. -/
inductive CodewordFlaw where
  /-- The length is zero or above twelve. -/
  | badLength
  /-- An earlier codeword has the same length and code. -/
  | duplicate
  deriving DecidableEq, Repr

/-- The text of the flaw. -/
def CodewordFlaw.reason : CodewordFlaw → String
  | .badLength => "code length must be between 1 and 12 bits"
  | .duplicate => "duplicate (length, code) pair"

/-- The first codeword of a list that makes it unusable. -/
structure CodebookError where
  /-- The position in the list, from zero. -/
  index : Nat
  /-- What is wrong there. -/
  flaw : CodewordFlaw
  deriving DecidableEq, Repr

/-- The text of the error. -/
def CodebookError.message (e : CodebookError) : String :=
  s!"Invalid Huffman table entry {e.index}: {e.flaw.reason}"

namespace Codebook

/-- The number of slots: one for each bit string of one to twelve bits. -/
def slotCount : Nat := 1 <<< (Codeword.maxLength + 1) - 2

/-- The first slot of the bit strings of a length. -/
def rowStart (length : Nat) : Nat := 1 <<< length - 2

/-- Whether there is a slot for bit strings of this length and value. -/
def HasSlot (length code : Nat) : Prop :=
  1 ≤ length ∧ length ≤ Codeword.maxLength ∧ code < 1 <<< length

instance (length code : Nat) : Decidable (HasSlot length code) :=
  inferInstanceAs (Decidable (_ ∧ _ ∧ _))

/-- A row ends where the next one starts. -/
theorem rowStart_add_lt {length code : Nat} (h : HasSlot length code) :
    rowStart length + code < rowStart (length + 1) := by
  obtain ⟨hpos, -, hcode⟩ := h
  have htwo : 2 ^ 1 ≤ 2 ^ length := Nat.pow_le_pow_right (by decide) hpos
  rw [Nat.one_shiftLeft] at hcode
  rw [rowStart, rowStart, Nat.one_shiftLeft, Nat.one_shiftLeft, Nat.pow_succ]
  omega

/-- The rows follow one another. -/
theorem rowStart_le {length length' : Nat} (h : length ≤ length') :
    rowStart length ≤ rowStart length' := by
  rw [rowStart, rowStart, Nat.one_shiftLeft, Nat.one_shiftLeft]
  exact Nat.sub_le_sub_right (Nat.pow_le_pow_right (by decide) h) 2

/-- The slot of the bit strings of a length and value. -/
def slot (length code : Nat) (h : HasSlot length code) : Fin slotCount :=
  ⟨rowStart length + code, Nat.lt_of_lt_of_le (rowStart_add_lt h)
    (rowStart_le (Nat.succ_le_succ h.2.1))⟩

end Codebook

/-- A codebook: what the bit strings stand for, slot by slot. -/
structure Codebook where
  /-- The values of the slots. -/
  slots : Vector UInt16 Codebook.slotCount

namespace Codebook

/-- The codebook in which nothing stands for anything. -/
def empty : Codebook := ⟨Vector.replicate slotCount vacantSlot⟩

/-- The codebook with the slot of a bit string taken by what it stands for. -/
def fill (book : Codebook) (slot : Fin slotCount) (symbol : CodeSymbol) : Codebook :=
  ⟨book.slots.set slot symbol.slotValue slot.isLt⟩

/-- Adds codewords in turn to those of `book`; `index` is the position of the first. -/
def addWords (book : Codebook) (index : Nat) : List Codeword → Except CodebookError Codebook
  | [] => .ok book
  | w :: ws =>
    if hlength : w.HasLength then
      if hfits : w.Fits then
        let slot := slot w.length.toNat w.code.toNat ⟨hlength.1, hlength.2, hfits⟩
        if book.slots.get slot = vacantSlot then
          (book.fill slot w.symbol).addWords (index + 1) ws
        else .error ⟨index, .duplicate⟩
      else book.addWords (index + 1) ws
    else .error ⟨index, .badLength⟩

/-- The codebook of a list of codewords. -/
def ofWords (ws : List Codeword) : Except CodebookError Codebook := empty.addWords 0 ws

/-- What the bit string of the given length and value stands for, if anything. -/
def lookup? (book : Codebook) (length code : Nat) : Option CodeSymbol :=
  if h : HasSlot length code then CodeSymbol.ofSlotValue? (book.slots.get (slot length code h))
  else none

/-- The number of bit strings that stand for something. -/
def size (book : Codebook) : Nat := book.slots.countP (· ≠ vacantSlot)

/-- A short description. -/
def describe (book : Codebook) : String := s!"HuffmanTable \x7b assigned: {book.size}, .. \x7d"

end Codebook

end FlightLink
