import FlightLink.Codebook.Basic

/-!
# Codebooks and their lists

No two bit strings share a slot, and a slot gives back the symbol it was filled with. Building a
codebook from a list of codewords ends at the first of them whose length is not admitted or that is
read like an earlier one. If there is none, the codebook says of every bit string what the list
says: it stands for the symbol of the one codeword that has its length and value, if there is one.
-/

namespace FlightLink

/-! ### Slots -/

namespace CodeSymbol

/-- The slots of bytes have values below those of the other slots. -/
theorem toNat_slotValue_byte_lt (b : UInt8) : (byte b).slotValue.toNat < 256 := by
  rw [slotValue, UInt8.toNat_toUInt16]
  exact b.toNat_lt

/-- A slot gives back the symbol it was filled with. -/
theorem ofSlotValue?_slotValue (s : CodeSymbol) : ofSlotValue? s.slotValue = some s := by
  cases s with
  | byte b =>
    have hlt := toNat_slotValue_byte_lt b
    have hvacant : (byte b).slotValue ≠ vacantSlot := by
      intro h
      rw [h] at hlt
      exact absurd hlt (by decide)
    have hend : (byte b).slotValue ≠ endSlot := by
      intro h
      rw [h] at hlt
      exact absurd hlt (by decide)
    rw [ofSlotValue?, if_neg hvacant, if_neg hend]
    simp [slotValue]
  | endOfBlock => rfl

/-- Only the vacant slot stands for nothing. -/
theorem ofSlotValue?_eq_none_iff {value : UInt16} :
    ofSlotValue? value = none ↔ value = vacantSlot := by
  unfold ofSlotValue?
  split
  · simpa
  · split <;> simpa

/-- A slot that was filled is not vacant. -/
theorem slotValue_ne_vacantSlot (s : CodeSymbol) : s.slotValue ≠ vacantSlot := by
  rw [Ne, ← ofSlotValue?_eq_none_iff, ofSlotValue?_slotValue]
  exact Option.some_ne_none s

end CodeSymbol

namespace Codebook

/-- The row of a shorter length ends before the slots of a longer one. -/
theorem slot_lt_of_length_lt {length code length' code' : Nat} (h : HasSlot length code)
    (h' : HasSlot length' code') (hlt : length < length') :
    slot length code h < slot length' code' h' := by
  have hrow : rowStart length + code < rowStart (length + 1) := rowStart_add_lt h
  have hnext : rowStart (length + 1) ≤ rowStart length' := rowStart_le hlt
  have hslot : rowStart length + code < rowStart length' + code' := by omega
  exact hslot

/-- Bit strings that share a slot are of the same length and value. -/
theorem eq_of_slot_eq {length code length' code' : Nat} {h : HasSlot length code}
    {h' : HasSlot length' code'} (heq : slot length code h = slot length' code' h') :
    length = length' ∧ code = code' := by
  rcases Nat.lt_trichotomy length length' with hlt | rfl | hgt
  · exact absurd heq (Fin.ne_of_lt (slot_lt_of_length_lt h h' hlt))
  · have hsum : rowStart length + code = rowStart length + code' := congrArg Fin.val heq
    exact ⟨rfl, Nat.add_left_cancel hsum⟩
  · exact absurd heq.symm (Fin.ne_of_lt (slot_lt_of_length_lt h' h hgt))

/-! ### What a codebook says -/

/-- A bit string that has a slot stands for what is in the slot. -/
theorem lookup?_of_hasSlot (book : Codebook) {length code : Nat} (h : HasSlot length code) :
    book.lookup? length code = CodeSymbol.ofSlotValue? (book.slots.get (slot length code h)) :=
  dif_pos h

/-- Nothing stands for anything in the codebook that all others are built from. -/
theorem lookup?_empty (length code : Nat) : empty.lookup? length code = none := by
  by_cases h : HasSlot length code
  · have hvacant : empty.slots.get (slot length code h) = vacantSlot :=
      Vector.getElem_replicate (slot length code h).isLt
    rw [lookup?_of_hasSlot empty h, hvacant]
    rfl
  · exact dif_neg h

/-- Filling a slot changes what its own bit string stands for, and nothing else. -/
theorem lookup?_fill (book : Codebook) (symbol : CodeSymbol) {length code length' code' : Nat}
    (h : HasSlot length code) (h' : HasSlot length' code') :
    (book.fill (slot length code h) symbol).lookup? length' code' =
      if length = length' ∧ code = code' then some symbol else book.lookup? length' code' := by
  rw [lookup?_of_hasSlot _ h']
  split
  · rename_i hsame
    obtain ⟨rfl, rfl⟩ := hsame
    have hfilled : (book.fill (slot length code h) symbol).slots.get (slot length code h) =
        symbol.slotValue := Vector.getElem_set_self (slot length code h).isLt
    rw [hfilled, CodeSymbol.ofSlotValue?_slotValue]
  · rename_i hother
    have hne : (slot length code h : Nat) ≠ slot length' code' h' := fun heq =>
      hother (eq_of_slot_eq (Fin.ext heq))
    have hkept : (book.fill (slot length code h) symbol).slots.get (slot length' code' h') =
        book.slots.get (slot length' code' h') :=
      Vector.getElem_set_ne (slot length code h).isLt (slot length' code' h').isLt hne
    rw [hkept, lookup?_of_hasSlot book h']

/-- Filling a vacant slot makes one more bit string stand for something. -/
theorem size_fill {book : Codebook} {slot : Fin slotCount} {symbol : CodeSymbol}
    (hvacant : book.slots.get slot = vacantSlot) :
    (book.fill slot symbol).size = book.size + 1 := by
  have hget : book.slots[(slot : Nat)] = vacantSlot := hvacant
  rw [size, fill, Vector.countP_set slot.isLt, hget]
  simp [size, symbol.slotValue_ne_vacantSlot]

end Codebook

/-! ### What the list says -/

/-- The codewords of a list with this length and code. -/
def wordsWith (ws : List Codeword) (length code : Nat) : List Codeword :=
  ws.filter fun w => w.length.toNat = length ∧ w.code.toNat = code

/-- The codeword of a list that has this length and code. -/
def wordWith? (ws : List Codeword) (length code : Nat) : Option Codeword :=
  ws.find? fun w => w.length.toNat = length ∧ w.code.toNat = code

/-- The codeword is read like one of those before it: both are as wide as their length admits, and
length and code are the same. -/
def Codeword.Repeats (before : List Codeword) (w : Codeword) : Prop :=
  w.Fits ∧ ∃ v ∈ before, v.Fits ∧ v.length = w.length ∧ v.code = w.code

/-- The codeword at this position makes a list unusable: its length is not admitted, or it is read
like an earlier one. -/
def FlawedAt (ws : List Codeword) (i : Nat) : Prop :=
  ∃ w, ws[i]? = some w ∧ (¬ w.HasLength ∨ w.Repeats (ws.take i))

section

variable {ws front : List Codeword} {v w : Codeword} {length code i : Nat}

/-- The codewords with a length and a code are those of the list with both. -/
theorem mem_wordsWith :
    w ∈ wordsWith ws length code ↔ w ∈ ws ∧ w.length.toNat = length ∧ w.code.toNat = code := by
  simp [wordsWith]

/-- The codeword found for a length and a code is the first that has both. -/
theorem wordWith?_eq_head? : wordWith? ws length code = (wordsWith ws length code).head? :=
  List.head?_filter.symm

/-- A codeword that is found is in the list and has the length and the code. -/
theorem wordWith?_eq_some (hword : wordWith? ws length code = some w) :
    w ∈ ws ∧ w.length.toNat = length ∧ w.code.toNat = code := by
  rw [wordWith?_eq_head?] at hword
  exact mem_wordsWith.mp (List.mem_of_mem_head? hword)

/-- A codeword at the end of a list is one more with its own length and code, and none of any
other. -/
theorem wordsWith_append_singleton :
    wordsWith (ws ++ [w]) length code = wordsWith ws length code ++
      if w.length.toNat = length ∧ w.code.toNat = code then [w] else [] := by
  rw [wordsWith, List.filter_append, List.filter_cons, List.filter_nil, wordsWith]
  simp only [decide_eq_true_eq]

/-- A codeword that fits its length repeats none of those before it just if none of them has its
length and code. -/
theorem Codeword.Fits.not_repeats_iff (hfits : w.Fits) :
    ¬ w.Repeats ws ↔ wordsWith ws w.length.toNat w.code.toNat = [] := by
  rw [List.eq_nil_iff_forall_not_mem]
  constructor
  · intro hnew v hv
    obtain ⟨hmem, hlength, hcode⟩ := mem_wordsWith.mp hv
    have hfits' : v.Fits := by rwa [Fits, hlength, hcode]
    exact hnew ⟨hfits, v, hmem, hfits', UInt8.toNat_inj.mp hlength, UInt16.toNat_inj.mp hcode⟩
  · rintro hnone ⟨-, v, hmem, -, hlength, hcode⟩
    exact hnone v (mem_wordsWith.mpr ⟨hmem, congrArg _ hlength, congrArg _ hcode⟩)

/-- What comes behind a codeword has no part in whether it makes the list unusable. -/
theorem flawedAt_append (hi : i < front.length) (back : List Codeword) :
    FlawedAt (front ++ back) i ↔ FlawedAt front i := by
  rw [FlawedAt, FlawedAt, List.getElem?_append_left hi,
    List.take_append_of_le_length (Nat.le_of_lt hi)]

/-- Whether a codeword makes the list unusable is settled by it and those before it. -/
theorem flawedAt_length (back : List Codeword) :
    FlawedAt (front ++ w :: back) front.length ↔ ¬ w.HasLength ∨ w.Repeats front := by
  simp [FlawedAt]

/-- Nothing makes an empty list unusable. -/
theorem not_flawedAt_nil : ¬ FlawedAt [] i := by
  simp [FlawedAt]

/-- There is nothing unusable behind the end of a list. -/
theorem not_flawedAt_of_le (hi : ws.length ≤ i) : ¬ FlawedAt ws i := by
  simp [FlawedAt, List.getElem?_eq_none hi]

end

namespace Codebook

/-! ### Adding codewords -/

/-- The codebook holds what the list says, and no codeword makes the list unusable. -/
structure Holds (book : Codebook) (ws : List Codeword) : Prop where
  /-- No codeword makes the list unusable. -/
  usable : ∀ i, ¬ FlawedAt ws i
  /-- A bit string stands for what the codewords with its length and value stand for, of which there
  is at most one. -/
  symbols : ∀ length code, HasSlot length code →
    (wordsWith ws length code).map Codeword.symbol = (book.lookup? length code).toList
  /-- As many slots are taken as there are codewords that fit their length. -/
  size : book.size = ws.countP (·.Fits)

/-- The codebook that all others are built from holds what an empty list says. -/
theorem holds_empty : empty.Holds [] where
  usable _ := not_flawedAt_nil
  symbols length code _ := by rw [lookup?_empty]; rfl
  size := by simp [size, empty, Vector.countP_replicate]

namespace Holds

variable {book : Codebook} {ws : List Codeword} {w : Codeword}

/-- In a list that a codebook holds, all lengths are admitted. -/
theorem hasLength (hbook : book.Holds ws) (hw : w ∈ ws) : w.HasLength := by
  obtain ⟨i, hi⟩ := List.mem_iff_getElem?.mp hw
  exact Decidable.not_not.mp fun hlength => hbook.usable i ⟨w, hi, Or.inl hlength⟩

/-- A codeword that fits its length is the only one with its length and code. -/
theorem wordsWith_eq_singleton (hbook : book.Holds ws) (hw : w ∈ ws) (hfits : w.Fits) :
    wordsWith ws w.length.toNat w.code.toNat = [w] := by
  have hslot : HasSlot w.length.toNat w.code.toNat :=
    ⟨(hbook.hasLength hw).1, (hbook.hasLength hw).2, hfits⟩
  have hmem : w ∈ wordsWith ws w.length.toNat w.code.toNat := mem_wordsWith.mpr ⟨hw, rfl, rfl⟩
  have hcount := congrArg List.length (hbook.symbols _ _ hslot)
  rw [List.length_map, Option.length_toList] at hcount
  obtain ⟨v, hv⟩ : ∃ v, wordsWith ws w.length.toNat w.code.toNat = [v] := by
    refine List.length_eq_one_iff.mp ?_
    have hpos := List.length_pos_of_mem hmem
    split at hcount <;> omega
  rw [hv, List.mem_singleton] at hmem
  rw [hv, hmem]

/-- One more codeword with a length that is admitted, and not read like an earlier one, leaves the
list usable. -/
theorem usable_append_singleton (hbook : book.Holds ws) (hlength : w.HasLength)
    (hnew : ¬ w.Repeats ws) (i : Nat) : ¬ FlawedAt (ws ++ [w]) i := by
  rcases Nat.lt_trichotomy i ws.length with hlt | rfl | hgt
  · rw [flawedAt_append hlt]
    exact hbook.usable i
  · rw [flawedAt_length]
    exact not_or.mpr ⟨not_not_intro hlength, hnew⟩
  · exact not_flawedAt_of_le (by simpa using Nat.succ_le_of_lt hgt)

/-- A slot is vacant as long as no codeword of the list takes it. -/
theorem vacant_iff (hbook : book.Holds ws) (hfits : w.Fits)
    (hslot : HasSlot w.length.toNat w.code.toNat) :
    book.slots.get (slot _ _ hslot) = vacantSlot ↔ ¬ w.Repeats ws := by
  rw [hfits.not_repeats_iff, ← List.map_eq_nil_iff, hbook.symbols _ _ hslot,
    Option.toList_eq_nil_iff, lookup?_of_hasSlot book hslot, CodeSymbol.ofSlotValue?_eq_none_iff]

/-- A codeword that is too wide for its length changes nothing: no bit string has a slot that it
could take. -/
theorem skip (hbook : book.Holds ws) (hlength : w.HasLength) (hfits : ¬ w.Fits) :
    book.Holds (ws ++ [w]) where
  usable := hbook.usable_append_singleton hlength fun hrepeats => hfits hrepeats.1
  symbols length code hslot := by
    have hother : ¬ (w.length.toNat = length ∧ w.code.toNat = code) := by
      rintro ⟨rfl, rfl⟩
      exact hfits hslot.2.2
    rw [wordsWith_append_singleton, if_neg hother, List.append_nil, hbook.symbols _ _ hslot]
  size := by simp [hbook.size, hfits]

/-- A codeword takes its slot, if that is vacant. -/
theorem fill (hbook : book.Holds ws) (hfits : w.Fits)
    (hslot : HasSlot w.length.toNat w.code.toNat) (hnew : ¬ w.Repeats ws) :
    (book.fill (slot _ _ hslot) w.symbol).Holds (ws ++ [w]) where
  usable := hbook.usable_append_singleton ⟨hslot.1, hslot.2.1⟩ hnew
  symbols length code h := by
    rw [wordsWith_append_singleton, List.map_append, lookup?_fill book w.symbol hslot h]
    split
    · rename_i hsame
      obtain ⟨rfl, rfl⟩ := hsame
      rw [hfits.not_repeats_iff.mp hnew]
      rfl
    · rw [hbook.symbols _ _ h, List.map_nil, List.append_nil]
  size := by
    have hvacant := (hbook.vacant_iff hfits hslot).mpr hnew
    rw [size_fill hvacant, hbook.size, List.countP_append]
    simp [hfits]

/-- The next codeword of a list is skipped or takes its slot, unless it makes the list unusable. -/
theorem addWords_cons (hbook : book.Holds ws) (hlength : w.HasLength) (hnew : ¬ w.Repeats ws)
    (rest : List Codeword) :
    ∃ book' : Codebook, book'.Holds (ws ++ [w]) ∧
      book.addWords ws.length (w :: rest) = book'.addWords (ws ++ [w]).length rest := by
  rw [addWords, dif_pos hlength, List.length_append, List.length_singleton]
  by_cases hfits : w.Fits
  · have hslot : HasSlot w.length.toNat w.code.toNat := ⟨hlength.1, hlength.2, hfits⟩
    rw [dif_pos hfits]
    dsimp only
    rw [if_pos ((hbook.vacant_iff hfits hslot).mpr hnew)]
    exact ⟨_, hbook.fill hfits hslot hnew, rfl⟩
  · rw [dif_neg hfits]
    exact ⟨book, hbook.skip hlength hfits, rfl⟩

/-- A codeword that makes the list unusable ends the addition, and the length is looked at first. -/
theorem addWords_cons_of_flawed (hbook : book.Holds ws) (hflawed : ¬ w.HasLength ∨ w.Repeats ws)
    (rest : List Codeword) :
    book.addWords ws.length (w :: rest) =
      .error ⟨ws.length, if w.HasLength then .duplicate else .badLength⟩ := by
  rw [addWords]
  split
  · rename_i hlength
    have hrepeats : w.Repeats ws := hflawed.resolve_left (not_not_intro hlength)
    have hslot : HasSlot w.length.toNat w.code.toNat := ⟨hlength.1, hlength.2, hrepeats.1⟩
    rw [dif_pos hrepeats.1]
    dsimp only
    rw [if_neg (mt (hbook.vacant_iff hrepeats.1 hslot).mp (not_not_intro hrepeats))]
  · rfl

/-- Adding codewords goes through to a codebook that holds the whole list, or it ends at the first
one that makes the list unusable. -/
theorem addWords (hbook : book.Holds ws) (rest : List Codeword) :
    (∃ book', book.addWords ws.length rest = .ok book' ∧ book'.Holds (ws ++ rest)) ∨
    ∃ i w, (ws ++ rest)[i]? = some w ∧ FlawedAt (ws ++ rest) i ∧
      (∀ j < i, ¬ FlawedAt (ws ++ rest) j) ∧
      book.addWords ws.length rest =
        .error ⟨i, if w.HasLength then .duplicate else .badLength⟩ := by
  induction rest generalizing book ws with
  | nil => exact Or.inl ⟨book, rfl, by rwa [List.append_nil]⟩
  | cons w rest ih =>
    by_cases hflawed : ¬ w.HasLength ∨ w.Repeats ws
    · refine Or.inr ⟨ws.length, w, by simp, (flawedAt_length rest).mpr hflawed, ?_,
        hbook.addWords_cons_of_flawed hflawed rest⟩
      intro j hj
      rw [flawedAt_append hj]
      exact hbook.usable j
    · obtain ⟨hlength, hnew⟩ := not_or.mp hflawed
      obtain ⟨book', hbook', hadd⟩ := hbook.addWords_cons (Decidable.not_not.mp hlength) hnew rest
      rw [hadd, List.append_cons ws w rest]
      exact ih hbook'

end Holds

section

variable {ws : List Codeword} {book : Codebook}

/-- A codebook made from a list holds what the list says. -/
theorem holds_of_ofWords (hbook : ofWords ws = .ok book) : book.Holds ws := by
  rcases holds_empty.addWords ws with ⟨book', hadd, hholds⟩ | ⟨i, w, -, -, -, hadd⟩
  · obtain rfl : book' = book := Except.ok.inj (hadd.symm.trans hbook)
    exact hholds
  · cases hadd.symm.trans hbook

/-- All lengths of a list that makes a codebook are admitted. -/
theorem hasLength_of_ofWords (hbook : ofWords ws = .ok book) : ∀ w ∈ ws, w.HasLength :=
  fun _ hw => (holds_of_ofWords hbook).hasLength hw

/-- A codebook says what its list says. -/
theorem lookup?_of_ofWords (hbook : ofWords ws = .ok book) {length code : Nat}
    (h : HasSlot length code) :
    book.lookup? length code = (wordWith? ws length code).map Codeword.symbol := by
  have hsymbols := (holds_of_ofWords hbook).symbols length code h
  rw [wordWith?_eq_head?, ← List.head?_map, hsymbols, Option.head?_toList]

end

/-- A list makes a codebook unless some codeword makes it unusable, and then the error is about the
first of these: about its length, if that is not admitted, and else about an earlier codeword that
is read alike. In the codebook, a bit string of one to twelve bits stands for what the codewords
with its length and value stand for, of which there is at most one; nothing else stands for
anything. The description counts the codewords that fit their length. -/
theorem ofWords_says_list (ws : List Codeword) :
    ((∃ e, ofWords ws = .error e) ↔ ∃ i, FlawedAt ws i) ∧
    (∀ e, ofWords ws = .error e →
      ∃ w, ws[e.index]? = some w ∧ FlawedAt ws e.index ∧ (∀ i < e.index, ¬ FlawedAt ws i) ∧
        e.flaw = if w.HasLength then .duplicate else .badLength) ∧
    ∀ book, ofWords ws = .ok book →
      (∀ length code, (book.lookup? length code).toList =
        if HasSlot length code then (wordsWith ws length code).map Codeword.symbol else []) ∧
      book.describe =
        "HuffmanTable \x7b assigned: " ++ toString (ws.countP (·.Fits)) ++ ", .. \x7d" := by
  have hok : ∀ book, ofWords ws = .ok book → book.Holds ws := fun book => holds_of_ofWords
  have herror : ∀ e, ofWords ws = .error e →
      ∃ w, ws[e.index]? = some w ∧ FlawedAt ws e.index ∧ (∀ i < e.index, ¬ FlawedAt ws i) ∧
        e.flaw = if w.HasLength then .duplicate else .badLength := by
    intro e he
    rcases holds_empty.addWords ws with ⟨book, hadd, -⟩ | ⟨i, w, hw, hflawed, hfirst, hadd⟩
    · cases hadd.symm.trans he
    · obtain rfl : _ = e := Except.error.inj (hadd.symm.trans he)
      exact ⟨w, hw, hflawed, hfirst, rfl⟩
  refine ⟨⟨?_, ?_⟩, herror, ?_⟩
  · rintro ⟨e, he⟩
    obtain ⟨w, -, hflawed, -⟩ := herror e he
    exact ⟨e.index, hflawed⟩
  · rintro ⟨i, hflawed⟩
    cases hbook : ofWords ws with
    | error e => exact ⟨e, rfl⟩
    | ok book => exact absurd hflawed ((hok book hbook).usable i)
  · intro book hbook
    refine ⟨fun length code => ?_, ?_⟩
    · split
      · rename_i hslot
        exact ((hok book hbook).symbols length code hslot).symm
      · rename_i hslot
        rw [lookup?, dif_neg hslot]
        rfl
    · have hsize := (hok book hbook).size
      unfold describe
      rw [hsize]
      rfl

end Codebook

end FlightLink
