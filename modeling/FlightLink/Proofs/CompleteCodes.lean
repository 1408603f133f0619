import FlightLink.Proofs.PrefixCodes

/-!
# Codes without gaps

While the bits of a block are read, those since the last codeword are few if every bit more makes
them a codeword or is one of a few strings again. Then no bit is lost: the block is the codes of its
bytes one after the other, and behind them only bits that the next codeword would start with. The
standard codebook is such a code, of six bytes: what ends the block in its list is never read.
-/

namespace FlightLink

/-! ### What is looked up -/

/-- What is found after one bit of a block. -/
structure Reading where
  /-- The number of bits since the last codeword, with this one. -/
  count : Nat
  /-- What these bits stand for, if anything. -/
  symbol? : Option CodeSymbol
  deriving DecidableEq, Repr

/-- The byte that is output, if one is. -/
def Reading.byte? (reading : Reading) : Option UInt8 :=
  match reading.symbol? with
  | some (.byte b) => some b
  | _ => none

namespace Codebook

/-- What is found after each bit that a block is read by, until `requested` bytes are output, of
which there are `produced` at first. -/
def readings (book : Codebook) (requested : Nat) : List Bool → UInt16 → Nat → Nat → List Reading
  | [], _, _, _ => []
  | bit :: bits, register, count, produced =>
    if requested ≤ produced then []
    else
      let register := register <<< 1 ||| bit.toUInt16
      let count := count + 1
      let symbol? :=
        if Codeword.maxLength < count then none else book.lookup? count register.toNat
      ⟨count, symbol?⟩ ::
        match symbol? with
        | none => book.readings requested bits register count produced
        | some .endOfBlock => []
        | some (.byte _) => book.readings requested bits 0 0 (produced + 1)

/-- What is output are the bytes found. -/
theorem toList_readBits (book : Codebook) (requested : Nat) (bits : List Bool) (register : UInt16)
    (count : Nat) (out : Array UInt8) :
    (book.readBits requested bits register count out).toList =
      out.toList ++
        (book.readings requested bits register count out.size).filterMap Reading.byte? := by
  induction bits generalizing register count out with
  | nil => exact (List.append_nil _).symm
  | cons bit bits ih =>
    rw [readBits, readings]
    split
    · exact (List.append_nil _).symm
    dsimp only
    split
    · exact ih _ _ out
    cases book.lookup? (count + 1) (register <<< 1 ||| bit.toUInt16).toNat with
    | none => exact ih _ _ out
    | some symbol =>
      cases symbol with
      | endOfBlock => exact (List.append_nil _).symm
      | byte b =>
        dsimp only
        rw [ih, Array.size_push, Array.toList_push, List.append_assoc]
        rfl

end Codebook

/-! ### Codes without gaps -/

/-- Bits that are no codeword are pending, and the codeword of a byte is its code. No bits end the
block. -/
def LeadsOn (ws : List Codeword) (inner : List (List Bool)) (codes : List (UInt8 × List Bool))
    (bits : List Bool) : Prop :=
  match (spelled? ws bits).map Codeword.symbol with
  | none => bits ∈ inner
  | some .endOfBlock => False
  | some (.byte b) => (b, bits) ∈ codes

instance (ws : List Codeword) (inner : List (List Bool)) (codes : List (UInt8 × List Bool))
    (bits : List Bool) : Decidable (LeadsOn ws inner codes bits) := by
  unfold LeadsOn
  split <;> infer_instance

/-- The bits since the last codeword are always among `inner`, and each codeword that is read is one
of `codes`. -/
structure Complete (ws : List Codeword) (inner : List (List Bool))
    (codes : List (UInt8 × List Bool)) : Prop where
  /-- At first there are no bits. -/
  start : [] ∈ inner
  /-- There is always room for one bit more. -/
  short : ∀ pending ∈ inner, pending.length < Codeword.maxLength
  /-- A bit more leads on. -/
  next : ∀ pending ∈ inner, ∀ bit, LeadsOn ws inner codes (pending ++ [bit])

/-- A reading of bits among `inner` and one bit more. -/
def Reading.Within (ws : List Codeword) (inner : List (List Bool)) (reading : Reading) : Prop :=
  ∃ pending ∈ inner, ∃ bit, reading =
    ⟨(pending ++ [bit]).length, (spelled? ws (pending ++ [bit])).map Codeword.symbol⟩

/-- Bits are the codes of bytes, of which there may be `most`, and what is left over behind them:
anything if there are as many bytes as that, else something among `inner`. -/
inductive Covered (inner : List (List Bool)) (codes : List (UInt8 × List Bool)) :
    (most : Nat) → (bits : List Bool) → (bytes : Bytes) → Prop
  | full (rest : List Bool) : Covered inner codes 0 rest []
  | pending {most : Nat} {rest : List Bool} (hrest : rest ∈ inner) :
    Covered inner codes most rest []
  | code {most : Nat} {b : UInt8} {code bits : List Bool} {bytes : Bytes}
      (hcode : (b, code) ∈ codes) (hmore : Covered inner codes most bits bytes) :
    Covered inner codes (most + 1) (code ++ bits) (b :: bytes)

section

variable {ws : List Codeword} {book : Codebook} {inner : List (List Bool)}
  {codes : List (UInt8 × List Bool)} {pending : List Bool}

/-- The codes that cover bits, one for each byte, and what is left over. -/
theorem Covered.exists_codes {most : Nat} {bits : List Bool} {bytes : Bytes}
    (hcovered : Covered inner codes most bits bytes) :
    ∃ (chosen : List (UInt8 × List Bool)) (rest : List Bool), (∀ p ∈ chosen, p ∈ codes) ∧
      bytes = chosen.map Prod.fst ∧ bits = chosen.flatMap Prod.snd ++ rest ∧
      bytes.length ≤ most ∧ (bytes.length = most ∨ rest ∈ inner) := by
  induction hcovered with
  | full rest => exact ⟨[], rest, List.forall_mem_nil _, rfl, rfl, Nat.le_refl 0, Or.inl rfl⟩
  | pending hrest => exact ⟨[], _, List.forall_mem_nil _, rfl, rfl, Nat.zero_le _, Or.inr hrest⟩
  | code hcode _ ih =>
    obtain ⟨chosen, rest, hchosen, rfl, rfl, hmost, hend⟩ := ih
    refine ⟨_ :: chosen, rest, List.forall_mem_cons.mpr ⟨hcode, hchosen⟩, rfl, ?_,
      Nat.succ_le_succ hmost, hend.imp_left (congrArg Nat.succ)⟩
    rw [List.flatMap_cons, List.append_assoc]

/-- What is found after a bit is what the list says of the bits since the last codeword. -/
theorem Codebook.readings_cons (hbook : Codebook.ofWords ws = .ok book)
    (hshort : pending.length < Codeword.maxLength) {requested produced : Nat}
    (hroom : produced < requested) (bit : Bool) (bits : List Bool) :
    let found := (spelled? ws (pending ++ [bit])).map Codeword.symbol
    book.readings requested (bit :: bits) (registerOf pending) pending.length produced =
      ⟨(pending ++ [bit]).length, found⟩ ::
        match found with
        | none =>
          book.readings requested bits (registerOf (pending ++ [bit])) (pending ++ [bit]).length
            produced
        | some .endOfBlock => []
        | some (.byte _) => book.readings requested bits (registerOf []) 0 (produced + 1) := by
  intro found
  have hlength : (pending ++ [bit]).length = pending.length + 1 := by simp
  have hmax : (pending ++ [bit]).length ≤ Codeword.maxLength := by omega
  have hfound : book.lookup? (pending ++ [bit]).length (registerOf (pending ++ [bit])).toNat =
      found := Codebook.lookup?_registerOf hbook (by omega) hmax
  rw [readings, if_neg (Nat.not_le.mpr hroom), ← registerOf_append_singleton, ← hlength]
  dsimp only
  rw [if_neg (Nat.not_lt.mpr hmax), hfound]
  rfl

/-- From bits among `inner` on, all that is looked up are such bits and one more, and the bytes
found cover the bits. -/
theorem Complete.covered (hcomplete : Complete ws inner codes)
    (hbook : Codebook.ofWords ws = .ok book) (hpending : pending ∈ inner) (requested : Nat)
    (bits : List Bool) (produced : Nat) :
    let rs := book.readings requested bits (registerOf pending) pending.length produced
    (∀ reading ∈ rs, reading.Within ws inner) ∧
      Covered inner codes (requested - produced) (pending ++ bits)
        (rs.filterMap Reading.byte?) := by
  induction bits generalizing pending produced with
  | nil =>
    rw [List.append_nil]
    exact ⟨List.forall_mem_nil _, .pending hpending⟩
  | cons bit bits ih =>
    intro rs
    rcases Nat.lt_or_ge produced requested with hroom | hfull
    · have hstep : rs = _ :=
        Codebook.readings_cons hbook (hcomplete.short pending hpending) hroom bit bits
      have hnext := hcomplete.next pending hpending bit
      have hwithin : Reading.Within ws inner _ := ⟨pending, hpending, bit, rfl⟩
      have hsplit : pending ++ bit :: bits = (pending ++ [bit]) ++ bits := by simp
      rw [LeadsOn] at hnext
      rw [hstep, hsplit]
      cases hfound : (spelled? ws (pending ++ [bit])).map Codeword.symbol with
      | none =>
        rw [hfound] at hnext hwithin
        obtain ⟨hlater, hcovered⟩ := ih hnext produced
        exact ⟨List.forall_mem_cons.mpr ⟨hwithin, hlater⟩, hcovered⟩
      | some symbol =>
        rw [hfound] at hnext hwithin
        cases symbol with
        | endOfBlock => exact hnext.elim
        | byte b =>
          have hmost : requested - produced = requested - (produced + 1) + 1 := by omega
          obtain ⟨hlater, hcovered⟩ := ih hcomplete.start (produced + 1)
          rw [hmost]
          exact ⟨List.forall_mem_cons.mpr ⟨hwithin, hlater⟩, .code hnext hcovered⟩
    · have hnone : rs = [] := by simp only [rs, Codebook.readings, if_pos hfull]
      rw [hnone, Nat.sub_eq_zero_of_le hfull]
      exact ⟨List.forall_mem_nil _, .full _⟩

/-- Codes of at least `low` and at most `high` bits have as many for each of them. -/
theorem length_flatMap_codes {low high : Nat} {chosen : List (UInt8 × List Bool)}
    (hchosen : ∀ p ∈ chosen, low ≤ p.2.length ∧ p.2.length ≤ high) :
    low * chosen.length ≤ (chosen.flatMap Prod.snd).length ∧
      (chosen.flatMap Prod.snd).length ≤ high * chosen.length := by
  induction chosen with
  | nil => exact ⟨Nat.le_refl 0, Nat.le_refl 0⟩
  | cons p chosen ih =>
    obtain ⟨hp, hchosen⟩ := List.forall_mem_cons.mp hchosen
    have hrest := ih hchosen
    simp only [List.flatMap_cons, List.length_append, List.length_cons, Nat.mul_succ]
    omega

end

/-! ### The standard codebook -/

/-- The bytes that can be read with the standard codebook, with their codes. -/
def standardCodes : List (UInt8 × List Bool) :=
  [(0x00, [false, false]), (0x01, [false, true]), (0x02, [true, false, false]),
    (0x03, [true, false, true]), (0x04, [true, true, false]), (0x50, [true, true, true])]

/-- The bits that may have come since the last codeword of the standard codebook. -/
def standardInner : List (List Bool) := [[], [false], [true], [true, false], [true, true]]

/-- The standard list makes the standard codebook. -/
theorem Codebook.ofWords_standardWords :
    Codebook.ofWords standardWords = .ok Codebook.standard := by
  have hbuilds : (Codebook.ofWords standardWords).isOk = true := by decide +kernel
  unfold Codebook.standard
  generalize Codebook.ofWords standardWords = built at hbuilds ⊢
  cases built with
  | error e => cases hbuilds
  | ok book => rfl

/-- All codewords of four bits and more are too wide to be read, or zero bits and come too late. -/
theorem complete_standardWords : Complete standardWords standardInner standardCodes where
  start := by decide
  short := by decide
  next := by decide +kernel

/-- A codeword of the standard codebook is found at the third bit at the latest, and it never ends
the block. -/
theorem Reading.Within.standard {reading : Reading}
    (hwithin : reading.Within standardWords standardInner) :
    reading.symbol? ≠ some .endOfBlock ∧ reading.count ≤ 3 ∧
      (reading.count = 3 → reading.symbol?.isSome = true) := by
  have hall : ∀ pending ∈ standardInner, ∀ bit,
      let found := (spelled? standardWords (pending ++ [bit])).map Codeword.symbol
      found ≠ some .endOfBlock ∧ (pending ++ [bit]).length ≤ 3 ∧
        ((pending ++ [bit]).length = 3 → found.isSome = true) := by
    decide +kernel
  obtain ⟨pending, hpending, bit, rfl⟩ := hwithin
  exact hall pending hpending bit

/-- With the standard codebook a block inflates to bytes of which there are six, by looking up at
most three bits at a time: the third always makes a codeword, and none ends the block. The block is
the codes of these bytes and, behind them, at most two bits, unless as many bytes were output as
requested. -/
theorem Codebook.inflate_standard {limit requested : Nat} (hlimit : requested ≤ limit)
    (input : Bytes) :
    let readings := Codebook.standard.readings requested (bitsOf input) 0 0 0
    let output := readings.filterMap Reading.byte?
    Codebook.standard.inflate limit input requested = .ok output ∧
      (∀ b ∈ output, b ∈ [0x00, 0x01, 0x02, 0x03, 0x04, 0x50]) ∧
      (∀ reading ∈ readings, reading.symbol? ≠ some .endOfBlock ∧ reading.count ≤ 3 ∧
        (reading.count = 3 → reading.symbol?.isSome = true)) ∧
      ∃ (chosen : List (UInt8 × List Bool)) (rest : List Bool),
        (∀ p ∈ chosen, p ∈ standardCodes) ∧ output = chosen.map Prod.fst ∧
          bitsOf input = chosen.flatMap Prod.snd ++ rest ∧ output.length ≤ requested ∧
          (output.length = requested ∨
            rest.length ≤ 2 ∧ 8 * input.length ≤ 3 * output.length + 2) ∧
          2 * output.length ≤ 8 * input.length := by
  intro readings output
  have hinflate : Codebook.standard.inflate limit input requested = .ok output := by
    rw [inflate, if_neg (Nat.not_lt.mpr hlimit), toList_readBits]
    rfl
  obtain ⟨hwithin, hcovered⟩ : (∀ reading ∈ readings, reading.Within standardWords standardInner) ∧
      Covered standardInner standardCodes requested (bitsOf input) output :=
    complete_standardWords.covered ofWords_standardWords complete_standardWords.start requested
      (bitsOf input) 0
  obtain ⟨chosen, rest, hchosen, hbytes, hbits, hmost, hend⟩ := hcovered.exists_codes
  have hcodes : ∀ p ∈ standardCodes, p.1 ∈ [0x00, 0x01, 0x02, 0x03, 0x04, 0x50] ∧
      2 ≤ p.2.length ∧ p.2.length ≤ 3 := by
    decide
  have hinner : ∀ pending ∈ standardInner, pending.length ≤ 2 := by decide
  have hlengths := length_flatMap_codes fun p hp => (hcodes p (hchosen p hp)).2
  have hcount : output.length = chosen.length := by rw [hbytes, List.length_map]
  have hsum : 8 * input.length = (chosen.flatMap Prod.snd).length + rest.length := by
    rw [← length_bitsOf, ← List.length_append, ← hbits]
  refine ⟨hinflate, ?_, fun reading h => (hwithin reading h).standard, chosen, rest, hchosen,
    hbytes, hbits, hmost, ?_, ?_⟩
  · intro b hb
    rw [hbytes] at hb
    obtain ⟨p, hp, rfl⟩ := List.mem_map.mp hb
    exact (hcodes p (hchosen p hp)).1
  · refine hend.imp_right fun hrest => ?_
    have hshort := hinner rest hrest
    exact ⟨hshort, by omega⟩
  · omega

/-- Four codes of three bits are followed by two of two, though ten bytes are requested; and twelve
zero bits and more are so many codes of two, not the end of the block. -/
theorem Codebook.inflate_standard_whole :
    10 ≤ 16 ∧
      Codebook.standard.inflate 16 [0x97, 0x70] 10 = .ok [0x02, 0x03, 0x04, 0x50, 0x00, 0x00] ∧
      Codebook.standard.inflate 16 [0x00, 0x00] 10 = .ok (List.replicate 8 0x00) := by
  have hlimit : 10 ≤ 16 := by decide
  have hcodes := (Codebook.inflate_standard hlimit [0x97, 0x70]).1
  have hzeros := (Codebook.inflate_standard hlimit [0x00, 0x00]).1
  refine ⟨hlimit, hcodes.trans ?_, hzeros.trans ?_⟩
  · decide +kernel
  · decide +kernel

end FlightLink
