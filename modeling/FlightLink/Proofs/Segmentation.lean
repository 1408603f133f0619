import FlightLink.Codebook.Inflate
import FlightLink.Proofs.Bits
import FlightLink.Proofs.Codebooks

/-!
# Inflating cuts the bits into codewords

What a block inflates to is said without register and count: the bits are cut into codewords of the
list, each time the shortest front that is one, until enough bytes are output, a codeword ends the
block, or no front of at most twelve bits is a codeword.

Between the two stands a reader that keeps the bits read since the last codeword themselves. The
register and the count of a codebook's reader are the value and the number of these bits, as far as
either has room for them. A scan over the list with a register of 16 bits and a count of eight is
the same reader again.
-/

namespace FlightLink

/-! ### Cutting bits into codewords -/

/-- The codeword of the list that the bits are: as many bits as its length says, with the value of
its code. -/
def spelled? (ws : List Codeword) (bits : List Bool) : Option Codeword :=
  wordWith? ws bits.length (bitsValue bits)

/-- The codeword that the shortest possible front of the bits is, and the bits behind it. A front
has at least one bit and at most twelve. -/
def nextWord? (ws : List Codeword) (bits : List Bool) : Option (Codeword × List Bool) :=
  (List.range' 1 Codeword.maxLength).findSome? fun n =>
    if n ≤ bits.length then (spelled? ws (bits.take n)).map fun w => (w, bits.drop n) else none

/-- The bytes that codewords cut off the bits one after another stand for, at most the given
number: up to the end of the block, or to where no codeword can be cut off. -/
def segment (ws : List Codeword) : Nat → List Bool → Bytes
  | 0, _ => []
  | most + 1, bits =>
    match nextWord? ws bits with
    | none => []
    | some (w, rest) =>
      match w.symbol with
      | .endOfBlock => []
      | .byte b => b :: segment ws most rest

/-- No front of the bits is a codeword. -/
def Unspelled (ws : List Codeword) (pending : List Bool) : Prop :=
  ∀ n, 1 ≤ n → n ≤ pending.length → n ≤ Codeword.maxLength → spelled? ws (pending.take n) = none

/-- Without bits there is no codeword. -/
theorem unspelled_nil (ws : List Codeword) : Unspelled ws [] := fun n hpos hle => by
  have hzero : n ≤ 0 := hle
  omega

/-- A bit more makes no codeword if all bits together are none. -/
theorem Unspelled.append_singleton {ws : List Codeword} {pending : List Bool} {bit : Bool}
    (hpending : Unspelled ws pending) (hspelled : spelled? ws (pending ++ [bit]) = none) :
    Unspelled ws (pending ++ [bit]) := by
  intro n hpos hle hmax
  rcases Nat.lt_or_ge pending.length n with hlt | hge
  · rw [List.take_of_length_le (by simpa using Nat.succ_le_of_lt hlt)]
    exact hspelled
  · rw [List.take_append_of_le_length hge]
    exact hpending n hpos hge hmax

/-- Nothing is cut off bits that have no codeword in front. -/
theorem Unspelled.nextWord?_eq_none {ws : List Codeword} {bits : List Bool}
    (hbits : Unspelled ws bits) : nextWord? ws bits = none := by
  refine List.findSome?_eq_none_iff.mpr fun n hn => ?_
  obtain ⟨hpos, hmax⟩ := List.mem_range'_1.mp hn
  split
  · rename_i hle
    rw [hbits n hpos hle (by omega)]
    rfl
  · rfl

/-- A codeword is cut off bits when its last bit is the first to make any front one. -/
theorem Unspelled.nextWord?_eq_some {ws : List Codeword} {pending : List Bool} {bit : Bool}
    {w : Codeword} (hpending : Unspelled ws pending)
    (hspelled : spelled? ws (pending ++ [bit]) = some w)
    (hmax : (pending ++ [bit]).length ≤ Codeword.maxLength) (rest : List Bool) :
    nextWord? ws (pending ++ [bit] ++ rest) = some (w, rest) := by
  have hlength : (pending ++ [bit]).length = pending.length + 1 := by simp
  obtain ⟨longer, hrange⟩ : ∃ longer, List.range' 1 Codeword.maxLength =
      List.range' 1 pending.length ++ (pending ++ [bit]).length :: longer := by
    have hsum : Codeword.maxLength =
        pending.length + (Codeword.maxLength - (pending.length + 1) + 1) := by omega
    rw [hlength, hsum, ← List.range'_append_1, Nat.add_comm 1, List.range'_succ]
    exact ⟨_, rfl⟩
  refine List.findSome?_eq_some_iff.mpr ⟨_, _, longer, hrange, ?_, fun n hn => ?_⟩
  · rw [if_pos (by simp), List.take_left, List.drop_left, hspelled]
    rfl
  · obtain ⟨hpos, hlt⟩ := List.mem_range'_1.mp hn
    have hle : n ≤ pending.length := by omega
    rw [List.append_assoc, List.take_append_of_le_length hle, hpending n hpos hle (by omega)]
    simp

/-! ### A reader that keeps the bits -/

/-- Reads bits until `requested` bytes are output, with the bits read since the last codeword. -/
def readPending (ws : List Codeword) (requested : Nat) :
    (bits pending : List Bool) → (out : Bytes) → Bytes
  | [], _, out => out
  | bit :: bits, pending, out =>
    if requested ≤ out.length then out
    else
      match (spelled? ws (pending ++ [bit])).map Codeword.symbol with
      | none => readPending ws requested bits (pending ++ [bit]) out
      | some .endOfBlock => out
      | some (.byte b) => readPending ws requested bits [] (out ++ [b])

/-- Reads bits until `requested` bytes are output by a search through the list after each bit. The
register holds the last bits read since the last codeword, and `count` is their number, which stays
at 255 once it got there. -/
def scanWords (ws : List Codeword) (requested : Nat) :
    (bits : List Bool) → (register : UInt16) → (count : UInt8) → (out : Bytes) → Bytes
  | [], _, _, out => out
  | bit :: bits, register, count, out =>
    if requested ≤ out.length then out
    else
      let register := register <<< 1 ||| bit.toUInt16
      let count := if count = 255 then 255 else count + 1
      match (ws.find? fun w => w.length = count ∧ w.code = register).map Codeword.symbol with
      | none => scanWords ws requested bits register count out
      | some .endOfBlock => out
      | some (.byte b) => scanWords ws requested bits 0 0 (out ++ [b])

/-- The register that holds the value of the bits, as far as it has room. -/
def registerOf (bits : List Bool) : UInt16 := UInt16.ofNat (bitsValue bits)

/-- The count of the bits, as far as eight bits have room for it. -/
def countOf (bits : List Bool) : UInt8 := UInt8.ofNat (min bits.length 255)

/-- One more bit goes into the register from the right. -/
theorem registerOf_append_singleton (bits : List Bool) (bit : Bool) :
    registerOf (bits ++ [bit]) = registerOf bits <<< 1 ||| bit.toUInt16 := by
  have hbit : bit.toUInt16 = UInt16.ofNat bit.toNat := by cases bit <;> rfl
  have hone : (1 : UInt16) = UInt16.ofNat 1 := rfl
  have hor : 2 * bitsValue bits + bit.toNat = bitsValue bits <<< 1 ||| bit.toNat := by
    rw [← Nat.shiftLeft_add_eq_or_of_lt (i := 1) bit.toNat_lt, Nat.shiftLeft_eq, Nat.pow_one,
      Nat.mul_comm]
  rw [registerOf, bitsValue_append_singleton, hor, UInt16.ofNat_or, hbit, registerOf, hone,
    UInt16.ofNat_shiftLeft _ _ (by decide)]

/-- One more bit is counted unless the count is full. -/
theorem countOf_append_singleton (bits : List Bool) (bit : Bool) :
    countOf (bits ++ [bit]) = if countOf bits = 255 then 255 else countOf bits + 1 := by
  have hlength : (bits ++ [bit]).length = bits.length + 1 := by simp
  rw [countOf, countOf, hlength]
  by_cases hroom : bits.length < 255
  · have hne : UInt8.ofNat bits.length ≠ 255 := by
      intro h
      have hvalue := congrArg UInt8.toNat h
      have hfull : (255 : UInt8).toNat = 255 := rfl
      rw [UInt8.toNat_ofNat_of_lt' (Nat.lt_succ_of_lt hroom)] at hvalue
      omega
    rw [Nat.min_eq_left (Nat.le_of_lt hroom), Nat.min_eq_left hroom, if_neg hne]
    exact UInt8.ofNat_add bits.length 1
  · rw [Nat.min_eq_right (by omega), Nat.min_eq_right (by omega)]
    rfl

/-- The register has room for the bits of any codeword. -/
theorem toNat_registerOf {bits : List Bool} (hmax : bits.length ≤ Codeword.maxLength) :
    (registerOf bits).toNat = bitsValue bits := by
  have hlt : bitsValue bits < 1 <<< bits.length := bitsValue_lt bits
  have hpow : 2 ^ bits.length ≤ 2 ^ Codeword.maxLength := Nat.pow_le_pow_right (by decide) hmax
  have hroom : 2 ^ Codeword.maxLength < 65536 := by decide
  rw [Nat.one_shiftLeft] at hlt
  exact UInt16.toNat_ofNat_of_lt' (by rw [UInt16.size]; omega)

/-- The counter stops at the largest number that it can hold. -/
theorem toNat_countOf (bits : List Bool) : (countOf bits).toNat = min bits.length 255 :=
  UInt8.toNat_ofNat_of_lt' (by rw [UInt8.size]; omega)

/-! ### The two readers with a register -/

section

variable {ws : List Codeword}

/-- More than twelve bits are no codeword. -/
theorem spelled?_eq_none (hlengths : ∀ w ∈ ws, w.HasLength) {bits : List Bool}
    (hlong : Codeword.maxLength < bits.length) : spelled? ws bits = none := by
  refine List.find?_eq_none.mpr fun w hw hmatch => ?_
  have hmax := (hlengths w hw).2
  have hlength := (of_decide_eq_true hmatch).1
  omega

/-- A search for register and count finds the codeword that the bits are. -/
theorem find?_eq_spelled? (hlengths : ∀ w ∈ ws, w.HasLength) (bits : List Bool) :
    (ws.find? fun w => w.length = countOf bits ∧ w.code = registerOf bits) = spelled? ws bits := by
  by_cases hmax : bits.length ≤ Codeword.maxLength
  · have hcount : (countOf bits).toNat = bits.length := by
      have hroom : Codeword.maxLength ≤ 255 := by decide
      rw [toNat_countOf, Nat.min_eq_left (Nat.le_trans hmax hroom)]
    have hcode : (registerOf bits).toNat = bitsValue bits := toNat_registerOf hmax
    simp only [spelled?, wordWith?, ← UInt8.toNat_inj, ← UInt16.toNat_inj, hcount, hcode]
  · rw [spelled?_eq_none hlengths (Nat.not_le.mp hmax)]
    refine List.find?_eq_none.mpr fun w hw hmatch => ?_
    have hshort : w.length.toNat ≤ Codeword.maxLength := (hlengths w hw).2
    have hcount : w.length.toNat = min bits.length 255 := by
      rw [(of_decide_eq_true hmatch).1, toNat_countOf]
    have htwelve : Codeword.maxLength = 12 := rfl
    omega

/-- The scan over the list reads as the reader that keeps the bits. -/
theorem scanWords_eq_readPending (hlengths : ∀ w ∈ ws, w.HasLength) (requested : Nat)
    (bits pending : List Bool) (out : Bytes) :
    scanWords ws requested bits (registerOf pending) (countOf pending) out =
      readPending ws requested bits pending out := by
  induction bits generalizing pending out with
  | nil => rfl
  | cons bit bits ih =>
    rw [scanWords, readPending]
    dsimp only
    rw [← registerOf_append_singleton, ← countOf_append_singleton, find?_eq_spelled? hlengths]
    split
    · rfl
    · cases hword : (spelled? ws (pending ++ [bit])).map Codeword.symbol with
      | none => exact ih (pending ++ [bit]) out
      | some symbol =>
        cases symbol with
        | endOfBlock => rfl
        | byte b => exact ih [] (out ++ [b])

variable {book : Codebook}

/-- A codebook says of the bits in the register what the list says of them. -/
theorem Codebook.lookup?_registerOf (hbook : Codebook.ofWords ws = .ok book) {bits : List Bool}
    (hpos : 1 ≤ bits.length) (hmax : bits.length ≤ Codeword.maxLength) :
    book.lookup? bits.length (registerOf bits).toNat = (spelled? ws bits).map Codeword.symbol := by
  rw [toNat_registerOf hmax]
  exact Codebook.lookup?_of_ofWords hbook ⟨hpos, hmax, bitsValue_lt bits⟩

/-- A codebook's reader reads as the reader that keeps the bits. -/
theorem Codebook.readBits_eq_readPending (hbook : Codebook.ofWords ws = .ok book) (requested : Nat)
    (bits pending : List Bool) (out : Array UInt8) :
    (book.readBits requested bits (registerOf pending) pending.length out).toList =
      readPending ws requested bits pending out.toList := by
  induction bits generalizing pending out with
  | nil => rfl
  | cons bit bits ih =>
    have hlength : pending.length + 1 = (pending ++ [bit]).length := by simp
    have hsize : out.toList.length = out.size := Array.length_toList
    rw [Codebook.readBits, readPending]
    dsimp only
    rw [← registerOf_append_singleton, hlength, hsize]
    split
    · rfl
    split
    · rename_i hlong
      rw [spelled?_eq_none (Codebook.hasLength_of_ofWords hbook) hlong]
      exact ih (pending ++ [bit]) out
    · rename_i hshort
      rw [Codebook.lookup?_registerOf hbook (by simp) (Nat.not_lt.mp hshort)]
      cases hword : (spelled? ws (pending ++ [bit])).map Codeword.symbol with
      | none => exact ih (pending ++ [bit]) out
      | some symbol =>
        cases symbol with
        | endOfBlock => rfl
        | byte b =>
          have hrest := ih [] (out.push b)
          rw [Array.toList_push] at hrest
          exact hrest

/-! ### The reader that keeps the bits cuts them into codewords -/

/-- The reader outputs what the pending bits and those still to come are cut into, as long as no
codeword could be cut off the pending bits alone. -/
theorem readPending_eq_segment (hlengths : ∀ w ∈ ws, w.HasLength) (requested : Nat)
    {bits pending : List Bool} (hpending : Unspelled ws pending) (out : Bytes) :
    readPending ws requested bits pending out =
      out ++ segment ws (requested - out.length) (pending ++ bits) := by
  induction bits generalizing pending out with
  | nil =>
    rw [readPending, List.append_nil]
    cases requested - out.length with
    | zero => exact (List.append_nil out).symm
    | succ most =>
      rw [segment, hpending.nextWord?_eq_none]
      exact (List.append_nil out).symm
  | cons bit bits ih =>
    rw [readPending]
    split
    · rename_i hfull
      rw [Nat.sub_eq_zero_of_le hfull, segment, List.append_nil]
    rename_i hroom
    have hsplit : pending ++ bit :: bits = (pending ++ [bit]) ++ bits := by simp
    rw [hsplit]
    cases hword : spelled? ws (pending ++ [bit]) with
    | none => exact ih (hpending.append_singleton hword) out
    | some w =>
      have hmost : requested - out.length = requested - (out.length + 1) + 1 := by omega
      have hmax : (pending ++ [bit]).length ≤ Codeword.maxLength := by
        refine Nat.not_lt.mp fun hlong => ?_
        rw [spelled?_eq_none hlengths hlong] at hword
        cases hword
      rw [hmost, segment, hpending.nextWord?_eq_some hword hmax bits]
      dsimp only [Option.map_some]
      cases w.symbol with
      | endOfBlock => exact (List.append_nil out).symm
      | byte b =>
        dsimp only
        rw [ih (unspelled_nil ws), List.length_append, List.length_singleton]
        simp

/-- A codebook's reader that starts with no bits pending outputs what the bits are cut into. -/
theorem Codebook.readBits_eq_segment (hbook : Codebook.ofWords ws = .ok book) (requested : Nat)
    (bits : List Bool) :
    (book.readBits requested bits 0 0 #[]).toList = segment ws requested bits := by
  have hlengths : ∀ w ∈ ws, w.HasLength := Codebook.hasLength_of_ofWords hbook
  calc (book.readBits requested bits 0 0 #[]).toList
      = readPending ws requested bits [] [] :=
        Codebook.readBits_eq_readPending hbook requested bits [] #[]
    _ = segment ws requested bits :=
        readPending_eq_segment hlengths requested (unspelled_nil ws) []

end

/-- A block inflates to the bytes its bits are cut into by the list that made the codebook, and
that is also what a scan over the list makes of them. -/
theorem Codebook.inflate_eq_segment {ws : List Codeword} {book : Codebook}
    (hbook : Codebook.ofWords ws = .ok book) {limit requested : Nat} (hlimit : requested ≤ limit)
    (input : Bytes) :
    book.inflate limit input requested = .ok (segment ws requested (bitsOf input)) ∧
      book.inflate limit input requested = .ok (scanWords ws requested (bitsOf input) 0 0 []) := by
  have hlengths : ∀ w ∈ ws, w.HasLength := Codebook.hasLength_of_ofWords hbook
  have hread : (book.readBits requested (bitsOf input) 0 0 #[]).toList =
      readPending ws requested (bitsOf input) [] [] :=
    Codebook.readBits_eq_readPending hbook requested (bitsOf input) [] #[]
  have hscan : scanWords ws requested (bitsOf input) 0 0 [] =
      readPending ws requested (bitsOf input) [] [] :=
    scanWords_eq_readPending hlengths requested (bitsOf input) [] []
  have hsegment : readPending ws requested (bitsOf input) [] [] =
      segment ws requested (bitsOf input) :=
    readPending_eq_segment hlengths requested (unspelled_nil ws) []
  rw [Codebook.inflate, if_neg (Nat.not_lt.mpr hlimit), hread, hscan, hsegment]
  exact ⟨rfl, rfl⟩

/-- A list in which `0` hides `00`, one codeword is too wide to be read, and `110` leads nowhere. -/
def shadowedWords : List Codeword :=
  [⟨.byte 65, 1, 0⟩, ⟨.byte 90, 2, 0⟩, ⟨.endOfBlock, 2, 2⟩, ⟨.byte 66, 3, 7⟩, ⟨.byte 67, 2, 9⟩]

/-- The bits `0`, `0`, `111`, `0`, `10` run to the end of the block; after `0` and `110` nothing
more is output, whatever follows. -/
theorem Codebook.inflate_eq_segment_shadowed :
    ∃ book, Codebook.ofWords shadowedWords = .ok book ∧ 8 ≤ 9 ∧
      book.inflate 9 [0x3A] 8 = .ok [65, 65, 66, 65] ∧
      book.inflate 9 [0x6F, 0xFF] 8 = .ok [65] := by
  have hbuilds : (Codebook.ofWords shadowedWords).isOk = true := by decide +kernel
  have hlimit : 8 ≤ 9 := by decide
  cases hbook : Codebook.ofWords shadowedWords with
  | error e =>
    rw [hbook] at hbuilds
    cases hbuilds
  | ok book =>
    have hended := (Codebook.inflate_eq_segment hbook hlimit [0x3A]).1
    have hlost := (Codebook.inflate_eq_segment hbook hlimit [0x6F, 0xFF]).1
    refine ⟨book, rfl, hlimit, hended.trans ?_, hlost.trans ?_⟩
    · decide +kernel
    · decide +kernel

end FlightLink
