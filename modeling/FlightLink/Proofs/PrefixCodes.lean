import FlightLink.Proofs.Segmentation

/-!
# Codewords that start no other

What bits are cut into depends on all codewords of a list, for a shorter one may come before the one
that was meant. If no codeword starts another, none does: bits that were spelled with codewords are
cut into just these, wherever they stand in their bytes and whatever stands behind them.
-/

namespace FlightLink

/-- The bits of a codeword, most significant first. -/
def Codeword.bits (w : Codeword) : List Bool := numberBits w.length.toNat w.code.toNat

/-- Among the codewords that fit their length, none starts another. -/
def PrefixFree (ws : List Codeword) : Prop :=
  ∀ v ∈ ws, ∀ w ∈ ws, v.Fits → w.Fits → v.bits <+: w.bits → v.bits = w.bits

instance (ws : List Codeword) : Decidable (PrefixFree ws) :=
  inferInstanceAs (Decidable (∀ v ∈ ws, ∀ w ∈ ws, _))

section

variable {ws chosen : List Codeword} {book : Codebook} {w : Codeword}

/-- A codeword has as many bits as its length says. -/
theorem Codeword.length_bits (w : Codeword) : w.bits.length = w.length.toNat :=
  length_numberBits _ _

/-- The codeword that bits are has these bits. -/
theorem bits_of_spelled? {bits : List Bool} (hspelled : spelled? ws bits = some w) :
    w ∈ ws ∧ w.Fits ∧ w.bits = bits := by
  obtain ⟨hmem, hlength, hcode⟩ := wordWith?_eq_some hspelled
  refine ⟨hmem, ?_, ?_⟩
  · rw [Codeword.Fits, hlength, hcode]
    exact bitsValue_lt bits
  · rw [Codeword.bits, hlength, hcode, numberBits_bitsValue]

/-- The bits of a codeword are no other codeword. -/
theorem spelled?_bits (hbook : book.Holds ws) (hw : w ∈ ws) (hfits : w.Fits) :
    spelled? ws w.bits = some w := by
  have hvalue : bitsValue w.bits = w.code.toNat := bitsValue_numberBits hfits
  rw [spelled?, w.length_bits, hvalue, wordWith?_eq_head?, hbook.wordsWith_eq_singleton hw hfits]
  rfl

/-- Bits that were spelled with a codeword are cut behind it. -/
theorem PrefixFree.nextWord?_bits_append (hfree : PrefixFree ws) (hbook : book.Holds ws)
    (hw : w ∈ ws) (hfits : w.Fits) (rest : List Bool) :
    nextWord? ws (w.bits ++ rest) = some (w, rest) := by
  obtain ⟨hpos, hmax⟩ := hbook.hasLength hw
  rw [← w.length_bits] at hpos hmax
  have hspelled : spelled? ws w.bits = some w := spelled?_bits hbook hw hfits
  obtain ⟨pending, bit, hbits⟩ : ∃ pending bit, w.bits = pending ++ [bit] :=
    ⟨_, _, (List.dropLast_concat_getLast (List.length_pos_iff.mp hpos)).symm⟩
  -- Whatever was cut off sooner would be a codeword that starts this one.
  have hpending : Unspelled ws pending := by
    intro n _ hn _
    cases hfront : spelled? ws (pending.take n) with
    | none => rfl
    | some v =>
      obtain ⟨hv, hvfits, hvbits⟩ := bits_of_spelled? hfront
      have hprefix : v.bits <+: w.bits := by
        rw [hvbits, hbits]
        exact (List.take_prefix n pending).trans (List.prefix_append pending [bit])
      have hlength := congrArg List.length (hfree v hv w hw hvfits hfits hprefix)
      rw [hvbits, hbits, List.length_take, List.length_append, List.length_singleton] at hlength
      omega
  rw [hbits] at hspelled hmax ⊢
  exact hpending.nextWord?_eq_some hspelled hmax rest

/-- Bits that were spelled with codewords for bytes are cut into these, and then cutting goes on
behind them. -/
theorem PrefixFree.segment_flatMap_bits (hfree : PrefixFree ws) (hbook : book.Holds ws)
    (hchosen : ∀ w ∈ chosen, w ∈ ws ∧ w.Fits) {data : Bytes}
    (hdata : chosen.map Codeword.symbol = data.map CodeSymbol.byte) (most : Nat)
    (rest : List Bool) :
    segment ws (data.length + most) (chosen.flatMap Codeword.bits ++ rest) =
      data ++ segment ws most rest := by
  induction chosen generalizing data with
  | nil =>
    obtain rfl : data = [] := by simpa using hdata
    rw [List.length_nil, Nat.zero_add]
    rfl
  | cons w chosen ih =>
    cases data with
    | nil => cases hdata
    | cons b data =>
      obtain ⟨hsymbol, htail⟩ := List.cons.inj hdata
      obtain ⟨⟨hw, hfits⟩, hchosen⟩ := List.forall_mem_cons.mp hchosen
      have hnext := hfree.nextWord?_bits_append hbook hw hfits
        (chosen.flatMap Codeword.bits ++ rest)
      rw [List.flatMap_cons, List.append_assoc, List.length_cons, Nat.succ_add, segment, hnext]
      dsimp only
      rw [hsymbol, ih hchosen htail]
      rfl

/-- Nothing is output behind the bits of a codeword that ends the block. -/
theorem PrefixFree.segment_endOfBlock (hfree : PrefixFree ws) (hbook : book.Holds ws) (hw : w ∈ ws)
    (hfits : w.Fits) (hend : w.symbol = .endOfBlock) (most : Nat) (rest : List Bool) :
    segment ws most (w.bits ++ rest) = [] := by
  cases most with
  | zero => rfl
  | succ most =>
    rw [segment, hfree.nextWord?_bits_append hbook hw hfits rest]
    dsimp only
    rw [hend]

/-- A block inflates to what its bits are cut into. -/
theorem Codebook.inflate_eq_ok (hbook : Codebook.ofWords ws = .ok book) {limit requested : Nat}
    (hlimit : requested ≤ limit) {block data : Bytes}
    (hsegment : segment ws requested (bitsOf block) = data) :
    book.inflate limit block requested = .ok data := by
  rw [Codebook.inflate, if_neg (Nat.not_lt.mpr hlimit), Codebook.readBits_eq_segment hbook,
    hsegment]

end

/-- Bytes that are spelled with a codeword for each, of a list in which no codeword starts another,
come back from the packed bits: whatever follows them, if as many bytes are requested, and for any
request from there up to the limit, if a codeword that ends the block follows them. -/
theorem Codebook.inflate_packed_flatMap_bits {ws : List Codeword} {book : Codebook}
    (hbook : Codebook.ofWords ws = .ok book) (hfree : PrefixFree ws) {chosen : List Codeword}
    (hchosen : ∀ w ∈ chosen, w ∈ ws ∧ w.Fits) {data : Bytes}
    (hdata : chosen.map Codeword.symbol = data.map CodeSymbol.byte) {limit : Nat}
    (hlimit : data.length ≤ limit) (rest : List Bool) :
    let block := packed (chosen.flatMap Codeword.bits ++ rest)
    book.inflate limit block data.length = .ok data ∧
      ∀ marker ∈ ws, marker.Fits → marker.symbol = .endOfBlock → marker.bits <+: rest →
        ∀ requested, data.length ≤ requested → requested ≤ limit →
          book.inflate limit block requested = .ok data := by
  intro block
  have hholds : book.Holds ws := Codebook.holds_of_ofWords hbook
  obtain ⟨fill, hbits⟩ : ∃ fill, bitsOf block = chosen.flatMap Codeword.bits ++ (rest ++ fill) :=
    ⟨_, (bitsOf_packed _).trans (List.append_assoc ..)⟩
  constructor
  · have hsegment := hfree.segment_flatMap_bits hholds hchosen hdata 0 (rest ++ fill)
    rw [Nat.add_zero, ← hbits, segment, List.append_nil] at hsegment
    exact Codebook.inflate_eq_ok hbook hlimit hsegment
  · rintro marker hmarker hfits hend ⟨behind, rfl⟩ requested hle hrequested
    obtain ⟨most, rfl⟩ := Nat.exists_eq_add_of_le hle
    have hsegment := hfree.segment_flatMap_bits hholds hchosen hdata most
      (marker.bits ++ behind ++ fill)
    rw [← hbits, List.append_assoc, hfree.segment_endOfBlock hholds hmarker hfits hend,
      List.append_nil] at hsegment
    exact Codebook.inflate_eq_ok hbook hrequested hsegment

/-- The bits `0`, `11`, `100` stand for bytes and `101` ends the block; one codeword is too wide to
be read, and the bits of its code start those of others. -/
def forkedWords : List Codeword :=
  [⟨.byte 65, 1, 0⟩, ⟨.byte 90, 2, 4⟩, ⟨.byte 66, 2, 3⟩, ⟨.endOfBlock, 3, 5⟩, ⟨.byte 67, 3, 4⟩]

/-- The bits `11`, `0`, `100`, `11`, `100` run over from one byte to the next; behind them the block
ends with `101`, and further bits are not looked at. -/
theorem Codebook.inflate_packed_flatMap_bits_forked :
    let chosen : List Codeword :=
      [⟨.byte 66, 2, 3⟩, ⟨.byte 65, 1, 0⟩, ⟨.byte 67, 3, 4⟩, ⟨.byte 66, 2, 3⟩, ⟨.byte 67, 3, 4⟩]
    let rest := [true, false, true] ++ [false, true] ++ List.replicate 8 true
    packed (chosen.flatMap Codeword.bits ++ rest) = [0xD3, 0x95, 0xFF] ∧
      PrefixFree forkedWords ∧ (∀ w ∈ chosen, w ∈ forkedWords ∧ w.Fits) ∧
      chosen.map Codeword.symbol = [66, 65, 67, 66, 67].map CodeSymbol.byte ∧ 5 ≤ 9 ∧
      ∃ book, Codebook.ofWords forkedWords = .ok book ∧
        book.inflate 9 [0xD3, 0x95, 0xFF] 5 = .ok [66, 65, 67, 66, 67] ∧
        book.inflate 9 [0xD3, 0x95, 0xFF] 9 = .ok [66, 65, 67, 66, 67] := by
  intro chosen rest
  have hblock : packed (chosen.flatMap Codeword.bits ++ rest) = [0xD3, 0x95, 0xFF] := by
    decide +kernel
  have hfree : PrefixFree forkedWords := by decide +kernel
  have hchosen : ∀ w ∈ chosen, w ∈ forkedWords ∧ w.Fits := by decide +kernel
  have hdata : chosen.map Codeword.symbol = [66, 65, 67, 66, 67].map CodeSymbol.byte := by
    decide +kernel
  have hlimit : [66, 65, 67, 66, 67].length ≤ 9 := by decide
  have hbuilds : (Codebook.ofWords forkedWords).isOk = true := by decide +kernel
  refine ⟨hblock, hfree, hchosen, hdata, hlimit, ?_⟩
  cases hbook : Codebook.ofWords forkedWords with
  | error e =>
    rw [hbook] at hbuilds
    cases hbuilds
  | ok book =>
    obtain ⟨hcounted, hended⟩ :=
      Codebook.inflate_packed_flatMap_bits hbook hfree hchosen hdata hlimit rest
    rw [hblock] at hcounted hended
    exact ⟨book, rfl, hcounted, hended ⟨.endOfBlock, 3, 5⟩ (by decide) (by decide) rfl
      (by decide +kernel) 9 (by decide) (by decide)⟩

end FlightLink
