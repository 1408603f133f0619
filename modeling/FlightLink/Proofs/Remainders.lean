import FlightLink.Frame.Wire
import FlightLink.Proofs.Bits
import Mathlib.Data.Nat.Bitwise
import Mathlib.Logic.Function.Iterate

/-!
# Checksums as remainders

Both checksums are remainders of polynomials over two elements, taken bit by bit: the exclusive or
of bytes is the remainder by x⁸ + 1, the CRC that by its divisor. What they have in common, a
constant term and an even number of terms, decides which differences between two streams they never
miss: those within eight bits in a row, and those in an odd number of bits.
-/

namespace FlightLink

namespace Division

variable {divisor r s : UInt8} {bits : List Bool}

/-- Multiplies a remainder by x and reduces it by x⁸ and the lower terms `divisor`. -/
def shift (divisor r : UInt8) : UInt8 :=
  if r &&& 0x80 = 0 then r <<< 1 else (r <<< 1) ^^^ divisor

/-- A bit in the place of x⁷. -/
def topBit (bit : Bool) : UInt8 := if bit then 0x80 else 0

/-- The remainder after one more bit. -/
def takeBit (divisor r : UInt8) (bit : Bool) : UInt8 := shift divisor (r ^^^ topBit bit)

/-- The remainder of bits, continued from the remainder `start` of what came before. -/
def remainder (divisor start : UInt8) (bits : List Bool) : UInt8 :=
  bits.foldl (takeBit divisor) start

/-- The first bit is taken in, and then the others. -/
theorem remainder_cons (divisor r : UInt8) (bit : Bool) (bits : List Bool) :
    remainder divisor r (bit :: bits) = remainder divisor (takeBit divisor r bit) bits := rfl

/-- The remainder of two parts is that of the second, continued from that of the first. -/
theorem remainder_append (divisor r : UInt8) (front back : List Bool) :
    remainder divisor r (front ++ back) = remainder divisor (remainder divisor r front) back :=
  List.foldl_append

/-! ### Linearity -/

/-- The middle two of four terms may change places. -/
theorem xor_xor_xor_comm (a b c d : UInt8) : (a ^^^ b) ^^^ (c ^^^ d) = (a ^^^ c) ^^^ (b ^^^ d) := by
  ac_rfl

/-- The highest bit of a remainder decides whether it is reduced. -/
theorem and_top_eq_zero_iff (r : UInt8) : r &&& 0x80 = 0 ↔ r.toNat.testBit 7 = false := by
  have htop : (r &&& 0x80).toNat = (r.toNat.testBit 7).toNat * 2 ^ 7 := by
    rw [UInt8.toNat_and]
    exact Nat.and_two_pow r.toNat 7
  rw [← UInt8.toNat_inj, htop]
  cases r.toNat.testBit 7 <;> simp

/-- A shifted remainder is reduced if its highest bit was set. -/
theorem shift_eq (divisor r : UInt8) :
    shift divisor r = (r <<< 1) ^^^ (if r.toNat.testBit 7 then divisor else 0) := by
  have htop := and_top_eq_zero_iff r
  unfold shift
  cases hbit : r.toNat.testBit 7 with
  | false => rw [if_pos (htop.mpr hbit), if_neg Bool.false_ne_true, UInt8.xor_zero]
  | true =>
    have hset : ¬ r &&& 0x80 = 0 := fun hzero => by simp [htop.mp hzero] at hbit
    rw [if_neg hset, if_pos rfl]

/-- Shifting is linear. -/
theorem shift_xor (divisor r s : UInt8) :
    shift divisor (r ^^^ s) = shift divisor r ^^^ shift divisor s := by
  rw [shift_eq, shift_eq, shift_eq, UInt8.shiftLeft_xor, UInt8.toNat_xor, Nat.testBit_xor,
    xor_xor_xor_comm]
  cases r.toNat.testBit 7 <;> cases s.toNat.testBit 7 <;> simp

/-- Taking in a bit is linear. -/
theorem takeBit_xor (divisor r s : UInt8) (a b : Bool) :
    takeBit divisor (r ^^^ s) (xor a b) = takeBit divisor r a ^^^ takeBit divisor s b := by
  have hbits : topBit (xor a b) = topBit a ^^^ topBit b := by cases a <;> cases b <;> rfl
  rw [takeBit, hbits, xor_xor_xor_comm, shift_xor]
  rfl

/-- The remainder of an exclusive or is that of the remainders. -/
theorem remainder_zipWith_xor {a b : List Bool} (hlength : a.length = b.length) (r s : UInt8) :
    remainder divisor (r ^^^ s) (List.zipWith xor a b) =
      remainder divisor r a ^^^ remainder divisor s b := by
  induction a generalizing b r s with
  | nil =>
    obtain rfl : b = [] := List.eq_nil_of_length_eq_zero hlength.symm
    rfl
  | cons x a ih =>
    cases b with
    | nil => cases hlength
    | cons y b =>
      rw [List.zipWith_cons_cons, remainder_cons, takeBit_xor, ih (by simpa using hlength)]
      rfl

/-! ### Bytes -/

/-- Bits that are still to be taken in, in the places from x⁷ downwards. -/
def pending : List Bool → UInt8
  | [] => 0
  | bit :: bits => topBit bit ^^^ (pending bits >>> 1)

/-- Fewer than eight bits leave the lowest places free. -/
theorem testBit_pending {i : Nat} (hi : i + bits.length < 8) :
    (pending bits).toNat.testBit i = false := by
  induction bits generalizing i with
  | nil => exact Nat.zero_testBit i
  | cons bit bits ih =>
    rw [List.length_cons] at hi
    have htail : (pending bits >>> 1).toNat.testBit i = false := by
      rw [UInt8.toNat_shiftRight]
      have hnext := ih (i := i + 1) (by omega)
      simpa [Nat.testBit_shiftRight, Nat.add_comm] using hnext
    have hhead : (topBit bit).toNat.testBit i = false := by
      have hi : i < 7 := by omega
      cases bit with
      | false => exact Nat.zero_testBit i
      | true => exact Nat.testBit_two_pow_of_ne (n := 7) (by omega)
    rw [pending, UInt8.toNat_xor, Nat.testBit_xor, hhead, htail]
    rfl

/-- Bits that were moved down by one place are moved up again. -/
theorem shift_pending_shiftRight (divisor : UInt8) (hlength : bits.length < 8) :
    shift divisor (pending bits >>> 1) = pending bits := by
  have hlow : (pending bits).toNat.testBit 0 = false := testBit_pending (by omega)
  have heven : (pending bits).toNat % 2 = 0 := by simpa [Nat.testBit_zero] using hlow
  have hlt := (pending bits).toNat_lt
  have hhalf : (pending bits >>> 1).toNat = (pending bits).toNat / 2 := by
    simp [UInt8.toNat_shiftRight, Nat.shiftRight_eq_div_pow]
  have htop : (pending bits >>> 1).toNat.testBit 7 = false := by
    apply Nat.testBit_lt_two_pow
    rw [hhalf]
    omega
  rw [shift_eq, htop]
  apply UInt8.toNat_inj.mp
  simp only [Bool.false_eq_true, if_false, UInt8.xor_zero, UInt8.toNat_shiftLeft, hhalf]
  simp [Nat.shiftLeft_eq]
  omega

/-- Up to eight bits may be put into the remainder at once and then shifted in. -/
theorem remainder_eq_iterate_shift (divisor r : UInt8) (hlength : bits.length ≤ 8) :
    remainder divisor r bits = (shift divisor)^[bits.length] (r ^^^ pending bits) := by
  induction bits generalizing r with
  | nil => exact UInt8.xor_zero.symm
  | cons bit bits ih =>
    rw [List.length_cons] at hlength
    have hstep : shift divisor (r ^^^ pending (bit :: bits)) =
        takeBit divisor r bit ^^^ pending bits := by
      rw [pending, ← UInt8.xor_assoc, shift_xor, shift_pending_shiftRight divisor (by omega)]
      rfl
    rw [remainder_cons, ih _ (by omega), List.length_cons, Function.iterate_succ_apply, hstep]

/-- The bits of a byte, put into a remainder at once, are the byte. -/
theorem pending_byteBits (b : UInt8) : pending (byteBits b) = b := by
  have hall : ∀ n < 256, pending (byteBits (UInt8.ofNat n)) = UInt8.ofNat n := by decide +kernel
  have hb := hall b.toNat b.toNat_lt
  rwa [UInt8.ofNat_toNat] at hb

/-- A byte is taken in by eight shifts. -/
theorem remainder_byteBits (divisor r b : UInt8) :
    remainder divisor r (byteBits b) = (shift divisor)^[8] (r ^^^ b) := by
  rw [remainder_eq_iterate_shift divisor r (Nat.le_of_eq (length_byteBits b)), pending_byteBits]
  rfl

/-- A checksum that takes a byte in by eight shifts is the remainder of the bits of its bytes. -/
theorem foldl_eq_remainder {advance : UInt8 → UInt8 → UInt8}
    (hadvance : ∀ r b, advance r b = (shift divisor)^[8] (r ^^^ b)) (start : UInt8) (data : Bytes) :
    data.foldl advance start = remainder divisor start (bitsOf data) := by
  induction data generalizing start with
  | nil => rfl
  | cons b data ih =>
    rw [List.foldl_cons, ih, bitsOf_cons, remainder_append, remainder_byteBits, hadvance]

/-! ### What no remainder misses -/

/-- Zero bits shift a remainder. -/
theorem remainder_replicate_false (divisor r : UInt8) (n : Nat) :
    remainder divisor r (List.replicate n false) = (shift divisor)^[n] r := by
  induction n generalizing r with
  | zero => rfl
  | succ n ih =>
    have hstep : takeBit divisor r false = shift divisor r := by
      rw [takeBit, topBit, if_neg Bool.false_ne_true, UInt8.xor_zero]
    rw [List.replicate_succ, remainder_cons, hstep, ih, Function.iterate_succ_apply]

/-- Shifting leaves zero as it is. -/
theorem iterate_shift_zero (divisor : UInt8) (n : Nat) : (shift divisor)^[n] 0 = 0 :=
  Function.iterate_fixed rfl n

/-- With a constant term in the divisor, a shift loses nothing. -/
theorem shift_ne_zero (hconstant : divisor.toNat % 2 = 1) (hr : r ≠ 0) : shift divisor r ≠ 0 := by
  intro hzero
  have hlt := r.toNat_lt
  have hdouble : (r <<< 1).toNat = 2 * r.toNat % 256 := by
    simp [UInt8.toNat_shiftLeft, Nat.shiftLeft_eq, Nat.mul_comm]
  rw [shift_eq] at hzero
  cases htop : r.toNat.testBit 7 with
  | false =>
    have hsmall : r.toNat < 128 := by
      by_contra hge
      have hset := Nat.testBit_of_two_pow_le_and_two_pow_add_one_gt (n := r.toNat) (i := 7)
        (Nat.not_lt.mp hge) hlt
      rw [htop] at hset
      cases hset
    rw [htop, if_neg Bool.false_ne_true, UInt8.xor_zero] at hzero
    have hvalue := congrArg UInt8.toNat hzero
    rw [hdouble, UInt8.toNat_zero] at hvalue
    exact hr (UInt8.toNat_inj.mp (by rw [UInt8.toNat_zero]; omega))
  | true =>
    rw [htop, if_pos rfl, UInt8.xor_eq_zero_iff] at hzero
    have hvalue := congrArg UInt8.toNat hzero
    omega

/-- With a constant term in the divisor, no number of shifts makes a remainder zero that was not. -/
theorem iterate_shift_ne_zero (hconstant : divisor.toNat % 2 = 1) (n : Nat) (hr : r ≠ 0) :
    (shift divisor)^[n] r ≠ 0 := by
  induction n generalizing r with
  | zero => exact hr
  | succ n ih => exact ih (shift_ne_zero hconstant hr)

/-- Bits of which none is set are all zero. -/
theorem eq_replicate_false (hbits : true ∉ bits) : bits = List.replicate bits.length false := by
  apply List.eq_replicate_iff.mpr
  refine ⟨rfl, fun bit hbit => ?_⟩
  cases bit with
  | false => rfl
  | true => exact absurd hbit hbits

/-- Bits of which those that are set lie within eight in a row are a byte with zeros around it. -/
theorem exists_byte_of_burst {first : Nat} (hlength : 8 ≤ bits.length) (hset : true ∈ bits)
    (hburst : ∀ i, bits[i]? = some true → first ≤ i ∧ i < first + 8) :
    ∃ (before : Nat) (b : UInt8) (after : Nat), b ≠ 0 ∧
      bits = List.replicate before false ++ (byteBits b ++ List.replicate after false) := by
  -- Eight bits in a row of which the last are beyond the end may as well end there.
  let start := min first (bits.length - 8)
  have hwithin : ∀ i, bits[i]? = some true → start ≤ i ∧ i < start + 8 := by
    intro i hi
    have hwindow := hburst i hi
    have hlt := (List.getElem?_eq_some_iff.mp hi).1
    omega
  let front := bits.take start
  let window := (bits.drop start).take 8
  let back := (bits.drop start).drop 8
  have hbits : bits = front ++ (window ++ back) := by
    rw [List.take_append_drop, List.take_append_drop]
  have hfront : true ∉ front := by
    intro hmem
    obtain ⟨i, hi⟩ := List.mem_iff_getElem?.mp hmem
    have hlt := (List.getElem?_eq_some_iff.mp hi).1
    rw [List.length_take] at hlt
    rw [List.getElem?_take_of_lt (by omega)] at hi
    have hwindow := hwithin i hi
    omega
  have hback : true ∉ back := by
    intro hmem
    obtain ⟨i, hi⟩ := List.mem_iff_getElem?.mp hmem
    rw [List.getElem?_drop, List.getElem?_drop] at hi
    have hwindow := hwithin _ hi
    omega
  have hmiddle : true ∈ window := by
    rw [hbits] at hset
    simpa [hfront, hback] using hset
  obtain ⟨b, hb⟩ : ∃ b, byteBits b = window := by
    apply exists_byteBits_eq
    simp only [window, List.length_take, List.length_drop]
    omega
  refine ⟨front.length, b, back.length, ?_, ?_⟩
  · rintro rfl
    rw [← hb] at hmiddle
    exact absurd hmiddle (by decide)
  · rw [hb, ← eq_replicate_false hfront, ← eq_replicate_false hback]
    exact hbits

/-- Bits of which those that are set lie within eight in a row leave a remainder: eight shifts take
their byte in, and no shift makes it zero. -/
theorem remainder_ne_zero_of_burst (hconstant : divisor.toNat % 2 = 1) {first : Nat}
    (hlength : 8 ≤ bits.length) (hset : true ∈ bits)
    (hburst : ∀ i, bits[i]? = some true → first ≤ i ∧ i < first + 8) :
    remainder divisor 0 bits ≠ 0 := by
  obtain ⟨before, b, after, hb, rfl⟩ := exists_byte_of_burst hlength hset hburst
  have hbefore : remainder divisor 0 (List.replicate before false) = 0 := by
    rw [remainder_replicate_false, iterate_shift_zero]
  rw [remainder_append, remainder_append, hbefore, remainder_byteBits, UInt8.zero_xor,
    remainder_replicate_false]
  exact iterate_shift_ne_zero hconstant after (iterate_shift_ne_zero hconstant 8 hb)

/-! ### Odd numbers of bits -/

/-- A byte moved up by one place loses its highest bit and gains a zero. -/
theorem byteBits_shiftLeft (r : UInt8) : byteBits (r <<< 1) = (byteBits r).tail ++ [false] := by
  have hvalue : (r <<< 1).toNat = r.toNat <<< 1 % 2 ^ 8 := UInt8.toNat_shiftLeft r 1
  have hhigh : ∀ i < 7, (r <<< 1).toNat.testBit (i + 1) = r.toNat.testBit i := by
    intro i hi
    have hi : i + 1 < 8 := by omega
    rw [hvalue, Nat.testBit_mod_two_pow, Nat.testBit_shiftLeft]
    simp [hi]
  have hlow : (r <<< 1).toNat.testBit 0 = false := by
    rw [hvalue, Nat.testBit_mod_two_pow, Nat.testBit_shiftLeft]
    rfl
  simp only [byteBits, List.map_cons, List.map_nil, List.tail_cons, List.cons_append,
    List.nil_append, hlow, hhigh 6 (by decide), hhigh 5 (by decide), hhigh 4 (by decide),
    hhigh 3 (by decide), hhigh 2 (by decide), hhigh 1 (by decide), hhigh 0 (by decide)]

/-- With an even number of terms in the divisor, its leading one included, a shift keeps it even or
odd how many bits are set. -/
theorem count_shift (heven : (byteBits divisor).count true % 2 = 1) (r : UInt8) :
    (byteBits (shift divisor r)).count true % 2 = (byteBits r).count true % 2 := by
  have hsplit : byteBits r = r.toNat.testBit 7 :: (byteBits r).tail := rfl
  have hlengths : ∀ a b : UInt8, (byteBits a).length = (byteBits b).length := fun _ _ => rfl
  rw [shift_eq, byteBits_xor, count_zipWith_xor (hlengths _ _), byteBits_shiftLeft, hsplit]
  cases r.toNat.testBit 7 with
  | false =>
    have hzero : (byteBits 0).count true = 0 := by decide
    simp [hzero]
  | true =>
    simp only [if_true, List.count_append, List.count_cons, List.count_nil, List.tail_cons]
    simp
    omega

/-- Taking in a set bit changes whether the number of set bits is odd, and a zero bit does not. -/
theorem count_takeBit (heven : (byteBits divisor).count true % 2 = 1) (r : UInt8) (bit : Bool) :
    (byteBits (takeBit divisor r bit)).count true % 2 =
      ((byteBits r).count true + bit.toNat) % 2 := by
  have hlengths : (byteBits r).length = (byteBits (topBit bit)).length := rfl
  have htop : (byteBits (topBit bit)).count true = bit.toNat := by cases bit <;> decide
  rw [takeBit, count_shift heven, byteBits_xor, count_zipWith_xor hlengths, htop]

/-- A remainder has an odd number of bits set just if that many were taken in. -/
theorem count_remainder (heven : (byteBits divisor).count true % 2 = 1) (r : UInt8)
    (bits : List Bool) :
    (byteBits (remainder divisor r bits)).count true % 2 =
      ((byteBits r).count true + bits.count true) % 2 := by
  induction bits generalizing r with
  | nil => rfl
  | cons bit bits ih =>
    have hstep := count_takeBit heven r bit
    have hcount : (bit :: bits).count true = bit.toNat + bits.count true := by
      cases bit <;> simp [Nat.add_comm]
    rw [remainder_cons, ih, hcount]
    omega

/-- A divisor with an even number of terms divides no odd number of set bits. -/
theorem remainder_ne_zero_of_odd (heven : (byteBits divisor).count true % 2 = 1)
    (hodd : bits.count true % 2 = 1) : remainder divisor 0 bits ≠ 0 := by
  intro hzero
  have hcount := count_remainder heven 0 bits
  have hnone : (byteBits 0).count true = 0 := by decide
  rw [hzero, hnone] at hcount
  omega

/-- Some bits are set, and they lie within eight in a row or are an odd number. -/
def Noticeable (bits : List Bool) : Prop :=
  true ∈ bits ∧
    ((∃ first, ∀ i, bits[i]? = some true → first ≤ i ∧ i < first + 8) ∨ bits.count true % 2 = 1)

/-- A divisor with a constant term and an even number of terms divides no noticeable bits. -/
theorem remainder_ne_zero (hconstant : divisor.toNat % 2 = 1)
    (heven : (byteBits divisor).count true % 2 = 1) (hlength : 8 ≤ bits.length)
    (hbits : Noticeable bits) : remainder divisor 0 bits ≠ 0 := by
  obtain ⟨hset, ⟨first, hburst⟩ | hodd⟩ := hbits
  · exact remainder_ne_zero_of_burst hconstant hlength hset hburst
  · exact remainder_ne_zero_of_odd heven hodd

end Division

/-! ### The two checksums -/

/-- The checksum of the checked part of a frame. -/
def Version.checksum : Version → Bytes → UInt8
  | .v1 => xorSum
  | .v2 => crc

/-- The divisor of the checksum, without its leading term. -/
def Version.divisor : Version → UInt8
  | .v1 => 1
  | .v2 => Crc.divisor

/-- Reducing by x⁸ + 1 turns a remainder round by one place, and eight times all the way. -/
theorem Division.iterate_shift_one (r : UInt8) : (shift 1)^[8] r = r := by
  have hall : ∀ n < 256, (shift 1)^[8] (UInt8.ofNat n) = UInt8.ofNat n := by decide +kernel
  have hr := hall r.toNat r.toNat_lt
  rwa [UInt8.ofNat_toNat] at hr

/-- The exclusive or of bytes is the remainder of their bits by x⁸ + 1. -/
theorem xorSum_eq_remainder (data : Bytes) :
    xorSum data = Division.remainder 1 0 (bitsOf data) :=
  Division.foldl_eq_remainder (fun r b => (Division.iterate_shift_one (r ^^^ b)).symm) 0 data

/-- The CRC of bytes is the remainder of their bits. -/
theorem crcFrom_eq_remainder (start : UInt8) (data : Bytes) :
    crcFrom start data = Division.remainder Crc.divisor start (bitsOf data) :=
  Division.foldl_eq_remainder Crc.advance_eq_remainder start data

namespace Version

/-- Either checksum is the remainder of the bits by its divisor. -/
theorem checksum_eq_remainder (v : Version) (data : Bytes) :
    v.checksum data = Division.remainder v.divisor 0 (bitsOf data) := by
  cases v with
  | v1 => exact xorSum_eq_remainder data
  | v2 => exact crcFrom_eq_remainder 0 data

/-- Both divisors have a constant term. -/
theorem divisor_mod_two (v : Version) : v.divisor.toNat % 2 = 1 := by
  cases v <;> rfl

/-- Both divisors have an even number of terms, counting the leading one. -/
theorem count_divisor (v : Version) : (byteBits v.divisor).count true % 2 = 1 := by
  cases v <;> rfl

/-- A stream that ends in its own checksum has no remainder. -/
theorem remainder_checksum (v : Version) (body : Bytes) :
    Division.remainder v.divisor 0 (bitsOf (body ++ [v.checksum body])) = 0 := by
  rw [bitsOf_append, Division.remainder_append, ← checksum_eq_remainder, bitsOf_cons, bitsOf_nil,
    List.append_nil, Division.remainder_byteBits, UInt8.xor_self, Division.iterate_shift_zero]

/-- A body and a checksum that differ noticeably from a body and its own checksum do not belong
together, whatever stands before them. -/
theorem checksum_ne_of_noticeable (v : Version) {front body body' : Bytes} {received : UInt8}
    (hlength : body.length = body'.length)
    (hdiffers : Division.Noticeable (bitsOf (difference (front ++ (body ++ [v.checksum body]))
      (front ++ (body' ++ [received]))))) :
    v.checksum body' ≠ received := by
  rintro rfl
  have hlengths : (body ++ [v.checksum body]).length = (body' ++ [v.checksum body']).length := by
    simp [hlength]
  have hbits : (bitsOf (body ++ [v.checksum body])).length =
      (bitsOf (body' ++ [v.checksum body'])).length := by
    rw [length_bitsOf, length_bitsOf, hlengths]
  have hremainder : Division.remainder v.divisor 0 (bitsOf (difference
      (front ++ (body ++ [v.checksum body])) (front ++ (body' ++ [v.checksum body'])))) = 0 := by
    rw [difference_append rfl, bitsOf_append, bitsOf_difference_self, Division.remainder_append,
      Division.remainder_replicate_false, Division.iterate_shift_zero, bitsOf_difference hlengths]
    have hlinear : Division.remainder v.divisor 0 (List.zipWith xor
        (bitsOf (body ++ [v.checksum body])) (bitsOf (body' ++ [v.checksum body']))) =
        Division.remainder v.divisor 0 (bitsOf (body ++ [v.checksum body])) ^^^
          Division.remainder v.divisor 0 (bitsOf (body' ++ [v.checksum body'])) :=
      Division.remainder_zipWith_xor hbits 0 0
    rw [remainder_checksum, remainder_checksum] at hlinear
    exact hlinear
  refine Division.remainder_ne_zero v.divisor_mod_two v.count_divisor ?_ hdiffers hremainder
  rw [length_bitsOf, difference_append rfl, List.length_append, difference, difference]
  simp [hlength]
  omega

end Version

end FlightLink
