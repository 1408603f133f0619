import FlightLink.Proofs.CompleteCodes

/-!
# Asking for less and reading on

Two runs of a reader over blocks that begin alike give outputs that begin alike: asking for fewer
bytes cuts the output off, and more input goes on with it. Nothing is asked of the codebook. A run
is over for good when it has output what was requested, when it has come to the end of the block,
and when twelve bits have come that make no codeword; in the last case bits are still taken in, but
the register never matches again.
-/

namespace FlightLink

/-- Nothing is output behind such a reading: the block has ended, or there are as many bits as a
codeword can have, and they are none. -/
def Reading.IsLast (reading : Reading) : Prop :=
  reading.symbol? = some .endOfBlock ∨
    Codeword.maxLength ≤ reading.count ∧ reading.symbol? = none

instance (reading : Reading) : Decidable reading.IsLast := inferInstanceAs (Decidable (_ ∨ _))

namespace Codebook

/-- What is found when one bit more goes into the register. -/
def found? (book : Codebook) (register : UInt16) (count : Nat) (bit : Bool) : Option CodeSymbol :=
  if Codeword.maxLength < count + 1 then none
  else book.lookup? (count + 1) (register <<< 1 ||| bit.toUInt16).toNat

/-- The bytes that bits are read as, behind `produced` others. -/
def output (book : Codebook) (requested : Nat) (bits : List Bool) (register : UInt16)
    (count produced : Nat) : Bytes :=
  (book.readings requested bits register count produced).filterMap Reading.byte?

section

variable {book : Codebook} {requested produced : Nat} {bit : Bool}

/-! ### One bit -/

/-- With as many bytes as requested no bit is read. -/
theorem readings_of_full (hfull : requested ≤ produced) (bits : List Bool) (register : UInt16)
    (count : Nat) : book.readings requested bits register count produced = [] := by
  cases bits with
  | nil => rfl
  | cons bit bits => rw [readings, if_pos hfull]

/-- With fewer bytes a bit is read, and what is found with it says how reading goes on. -/
theorem readings_of_room (hroom : produced < requested) (bit : Bool) (bits : List Bool)
    (register : UInt16) (count : Nat) :
    book.readings requested (bit :: bits) register count produced =
      ⟨count + 1, book.found? register count bit⟩ ::
        match book.found? register count bit with
        | none =>
          book.readings requested bits (register <<< 1 ||| bit.toUInt16) (count + 1) produced
        | some .endOfBlock => []
        | some (.byte _) => book.readings requested bits 0 0 (produced + 1) := by
  rw [readings, if_neg (Nat.not_le.mpr hroom)]
  rfl

/-- With as many bytes as requested nothing is output. -/
theorem output_of_full (hfull : requested ≤ produced) (bits : List Bool) (register : UInt16)
    (count : Nat) : book.output requested bits register count produced = [] := by
  rw [output, readings_of_full hfull]
  rfl

/-- With fewer bytes a bit puts out the byte that is found with it, if one is. -/
theorem output_of_room (hroom : produced < requested) (bit : Bool) (bits : List Bool)
    (register : UInt16) (count : Nat) :
    book.output requested (bit :: bits) register count produced =
      match book.found? register count bit with
      | none => book.output requested bits (register <<< 1 ||| bit.toUInt16) (count + 1) produced
      | some .endOfBlock => []
      | some (.byte b) => b :: book.output requested bits 0 0 (produced + 1) := by
  rw [output, readings_of_room hroom]
  rcases book.found? register count bit with _ | _ | _ <;> rfl

/-- What a block inflates to are the bytes that its bits are read as. -/
theorem inflate_eq_output (book : Codebook) {limit : Nat} (hlimit : requested ≤ limit)
    (input : Bytes) :
    book.inflate limit input requested = .ok (book.output requested (bitsOf input) 0 0 0) := by
  rw [inflate, if_neg (Nat.not_lt.mpr hlimit), toList_readBits]
  rfl

/-! ### Fewer bytes and more bits -/

/-- Asking for fewer bytes cuts the output off. -/
theorem output_take {fewer : Nat} (hfewer : fewer ≤ requested) (bits : List Bool)
    (register : UInt16) (count produced : Nat) :
    book.output fewer bits register count produced =
      (book.output requested bits register count produced).take (fewer - produced) := by
  induction bits generalizing register count produced with
  | nil => exact List.take_nil.symm
  | cons bit bits ih =>
    rcases Nat.lt_or_ge produced fewer with hroom | hfull
    · have hmore : fewer - produced = fewer - (produced + 1) + 1 := by omega
      rw [output_of_room hroom, output_of_room (Nat.lt_of_lt_of_le hroom hfewer)]
      match book.found? register count bit with
      | none => exact ih _ _ _
      | some .endOfBlock => exact List.take_nil.symm
      | some (.byte b) =>
        rw [hmore, List.take_succ_cons, ← ih]
    · rw [output_of_full hfull, Nat.sub_eq_zero_of_le hfull, List.take_zero]

/-- More bits go on with the output. -/
theorem output_prefix_append (book : Codebook) (requested : Nat) (front back : List Bool)
    (register : UInt16) (count produced : Nat) :
    book.output requested front register count produced <+:
      book.output requested (front ++ back) register count produced := by
  induction front generalizing register count produced with
  | nil => exact List.nil_prefix
  | cons bit front ih =>
    rw [List.cons_append]
    rcases Nat.lt_or_ge produced requested with hroom | hfull
    · rw [output_of_room hroom, output_of_room hroom]
      match book.found? register count bit with
      | none => exact ih _ _ _
      | some .endOfBlock => exact List.prefix_refl []
      | some (.byte b) => exact List.cons_prefix_cons.mpr ⟨rfl, ih _ _ _⟩
    · rw [output_of_full hfull]
      exact List.nil_prefix

/-- Each byte takes one bit at least, and no more bytes are output than were requested. -/
theorem length_output_le (book : Codebook) (requested : Nat) (bits : List Bool)
    (register : UInt16) (count produced : Nat) :
    (book.output requested bits register count produced).length ≤
      min (requested - produced) bits.length := by
  induction bits generalizing register count produced with
  | nil => exact Nat.zero_le _
  | cons bit bits ih =>
    rcases Nat.lt_or_ge produced requested with hroom | hfull
    · rw [output_of_room hroom, List.length_cons]
      match book.found? register count bit with
      | none =>
        have hrest := ih (register <<< 1 ||| bit.toUInt16) (count + 1) produced
        exact Nat.le_trans hrest (by omega)
      | some .endOfBlock => exact Nat.zero_le _
      | some (.byte b) =>
        have hrest := ih 0 0 (produced + 1)
        rw [List.length_cons]
        omega
    · rw [output_of_full hfull]
      exact Nat.zero_le _

/-! ### Runs that are over -/

/-- Once there are as many bits as a codeword can have, no further bit makes one. -/
theorem output_of_dead (book : Codebook) (requested : Nat) (bits : List Bool)
    (register : UInt16) {count : Nat} (hdead : Codeword.maxLength ≤ count) (produced : Nat) :
    book.output requested bits register count produced = [] := by
  induction bits generalizing register count with
  | nil => rfl
  | cons bit bits ih =>
    rcases Nat.lt_or_ge produced requested with hroom | hfull
    · have hnone : book.found? register count bit = none := if_pos (Nat.lt_succ_of_le hdead)
      rw [output_of_room hroom, hnone]
      exact ih _ (Nat.le_succ_of_le hdead)
    · exact output_of_full hfull _ _ _

/-- A run that has output what was requested, or has come to a last reading, outputs nothing more,
whatever bits come. -/
theorem output_append_of_over {front : List Bool} (back : List Bool) {register : UInt16}
    {count : Nat}
    (hover : requested ≤ produced +
        (book.output requested front register count produced).length ∨
      ∃ reading ∈ book.readings requested front register count produced, reading.IsLast) :
    book.output requested (front ++ back) register count produced =
      book.output requested front register count produced := by
  induction front generalizing register count produced with
  | nil =>
    rcases hover with hfull | ⟨reading, hmem, -⟩
    · exact output_of_full hfull _ _ _
    · cases hmem
  | cons bit front ih =>
    rcases Nat.lt_or_ge produced requested with hroom | hfull
    · rw [readings_of_room hroom] at hover
      rw [output_of_room hroom] at hover ⊢
      rw [List.cons_append, output_of_room hroom]
      cases hfound : book.found? register count bit with
      | none =>
        simp only [hfound, List.mem_cons, exists_eq_or_imp] at hover
        by_cases hdead : Codeword.maxLength ≤ count + 1
        · -- The register goes on shifting, but it is never looked up again.
          exact (output_of_dead _ _ _ _ hdead _).trans (output_of_dead _ _ _ _ hdead _).symm
        · refine ih (hover.imp_right ?_)
          rintro ((hend | ⟨hcount, -⟩) | hlater)
          · cases hend
          · exact absurd hcount hdead
          · exact hlater
      | some symbol =>
        simp only [hfound, List.mem_cons, exists_eq_or_imp] at hover
        cases symbol with
        | endOfBlock => rfl
        | byte b =>
          refine congrArg (b :: ·) (ih (hover.imp ?_ ?_))
          · intro hlength
            rw [List.length_cons] at hlength
            omega
          · rintro ((hend | ⟨-, hnone⟩) | hlater)
            · cases hend
            · cases hnone
            · exact hlater
    · rw [output_of_full hfull, output_of_full hfull]

end

end Codebook

/-- With any codebook, a request above the limit fails, whatever the block. Any other succeeds, and
while it is carried out there are never more bytes of output than were requested or than the block
has bits. Asking for fewer bytes gives the output cut off, and a longer block an output that begins
with it; the same output, if all was output that was requested, if the block was at its end, or if
twelve bits came that make no codeword. -/
theorem Codebook.inflate_prefix_laws (book : Codebook) (limit : Nat) (input : Bytes) :
    (∀ requested, limit < requested →
      book.inflate limit input requested = .error ⟨requested, limit⟩) ∧
    ∀ requested ≤ limit, ∃ output, book.inflate limit input requested = .ok output ∧
      (∀ front, front <+: bitsOf input →
        (book.readBits requested front 0 0 #[]).size ≤ min requested (8 * input.length)) ∧
      output.length ≤ min requested (8 * input.length) ∧
      (∀ fewer ≤ requested,
        book.inflate limit input fewer = .ok (output.take (min fewer output.length))) ∧
      ∀ more, ∃ output', book.inflate limit (input ++ more) requested = .ok output' ∧
        output <+: output' ∧
        ((output.length = requested ∨
          ∃ reading ∈ book.readings requested (bitsOf input) 0 0 0, reading.IsLast) →
          output' = output) := by
  refine ⟨fun requested hlimit => if_pos hlimit, fun requested hlimit => ?_⟩
  have hbound : ∀ front, front <+: bitsOf input →
      (book.output requested front 0 0 0).length ≤ min requested (8 * input.length) := by
    intro front hfront
    have hfewer : front.length ≤ 8 * input.length := length_bitsOf input ▸ hfront.length_le
    have hmost := book.length_output_le requested front 0 0 0
    omega
  refine ⟨_, book.inflate_eq_output hlimit input, ?_, hbound _ (List.prefix_refl _), ?_, ?_⟩
  · intro front hfront
    rw [← Array.length_toList, toList_readBits]
    exact hbound front hfront
  · intro fewer hfewer
    rw [book.inflate_eq_output (Nat.le_trans hfewer hlimit), output_take hfewer, Nat.sub_zero,
      ← List.take_eq_take_min]
  · intro more
    refine ⟨_, book.inflate_eq_output hlimit (input ++ more), ?_, fun hover => ?_⟩
    · rw [bitsOf_append]
      exact book.output_prefix_append requested _ _ 0 0 0
    · rw [bitsOf_append]
      exact output_append_of_over _ (hover.imp_left fun hfull => by omega)

/-- A list with a codeword too wide to be read, in which `110` leads nowhere: after `0` and `110` no
more is output, whatever follows; `0`, `0`, `111`, `0`, `10` run to the end of the block. A request
for two bytes of those cuts them off, and one for ten bytes is above the limit. -/
theorem Codebook.inflate_prefix_laws_dead :
    let book := (Codebook.ofWords shadowedWords).toOption.getD .empty
    (Codebook.ofWords shadowedWords).isOk = true ∧
      book.inflate 9 [0x3A] 10 = .error ⟨10, 9⟩ ∧
      book.inflate 9 [0x3A] 8 = .ok [65, 65, 66, 65] ∧
      book.inflate 9 [0x3A] 2 = .ok [65, 65] ∧
      book.inflate 9 [0x6F, 0xFF] 8 = .ok [65] ∧
      ∃ reading ∈ book.readings 8 (bitsOf [0x6F, 0xFF]) 0 0 0, reading.IsLast ∧
        ∀ more, book.inflate 9 ([0x6F, 0xFF] ++ more) 8 = .ok [65] := by
  intro book
  have hended : book.inflate 9 [0x3A] 8 = .ok [65, 65, 66, 65] := by decide +kernel
  have hlost : book.inflate 9 [0x6F, 0xFF] 8 = .ok [65] := by decide +kernel
  have hlast : ∃ reading ∈ book.readings 8 (bitsOf [0x6F, 0xFF]) 0 0 0, reading.IsLast := by
    decide +kernel
  obtain ⟨hlimit, hruns⟩ := Codebook.inflate_prefix_laws book 9 [0x3A]
  obtain ⟨ended, hinflate, -, -, hfewer, -⟩ := hruns 8 (by decide)
  obtain rfl : ended = [65, 65, 66, 65] := Except.ok.inj (hinflate.symm.trans hended)
  obtain ⟨lost, hinflate', -, -, -, hmore⟩ :=
    (Codebook.inflate_prefix_laws book 9 [0x6F, 0xFF]).2 8 (by decide)
  obtain rfl : lost = [65] := Except.ok.inj (hinflate'.symm.trans hlost)
  obtain ⟨reading, hmem, hreading⟩ := hlast
  refine ⟨by decide +kernel, hlimit 10 (by decide), hended, hfewer 2 (by decide), hlost, reading,
    hmem, hreading, fun more => ?_⟩
  obtain ⟨output, houtput, -, hsame⟩ := hmore more
  rw [houtput, hsame (.inr ⟨reading, hmem, hreading⟩)]

end FlightLink
