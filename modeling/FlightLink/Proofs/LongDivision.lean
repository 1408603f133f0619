import FlightLink.Proofs.Remainders
import Mathlib.Algebra.CharP.Two
import Mathlib.Algebra.Field.ZMod
import Mathlib.Algebra.Polynomial.Div

/-!
# The CRC by long division

A remainder is worked out on paper by long division: the divisor is written under the bits of the
dividend and subtracted if the first of them is set, after which it is moved on by one place. Bits
are the coefficients of a polynomial over two elements, highest first, and what is left over is the
remainder of that polynomial. A checksum that keeps only eight bits of this at a time comes to the
same.
-/

namespace FlightLink

open Polynomial

/-- Adds bits to the first of others. Over two elements, adding is subtracting. -/
def addToFront : List Bool → List Bool → List Bool
  | a :: front, b :: bits => xor a b :: addToFront front bits
  | _, bits => bits

/-- Long division: in each step, the divisor is subtracted if the first bit is set, and the first
bit, which is zero then, falls away. -/
def longDivision (divisor : List Bool) : (steps : Nat) → List Bool → List Bool
  | 0, bits => bits
  | steps + 1, bits =>
    longDivision divisor steps
      (if bits.head? = some true then addToFront divisor bits else bits).tail

/-- What long division leaves over: fewer bits than the divisor has. -/
def leftOver (divisor bits : List Bool) : List Bool :=
  longDivision divisor (bits.length + 1 - divisor.length) bits

/-- The polynomial with these coefficients, highest first. -/
noncomputable def polynomialOf : List Bool → (ZMod 2)[X]
  | [] => 0
  | bit :: bits => (if bit then X ^ bits.length else 0) + polynomialOf bits

/-! ### Adding to the front -/

section

variable {a b front bits divisor : List Bool} {steps : Nat}

/-- To add no bits changes nothing. -/
@[simp] theorem addToFront_nil (bits : List Bool) : addToFront [] bits = bits := by
  cases bits <;> rfl

/-- Adding to the front keeps the number of bits. -/
@[simp] theorem length_addToFront (front bits : List Bool) :
    (addToFront front bits).length = bits.length := by
  induction front generalizing bits with
  | nil => rw [addToFront_nil]
  | cons bit front ih =>
    cases bits with
    | nil => rfl
    | cons b bits => simp [addToFront, ih]

/-- Bits may be added one after the other or all at once. -/
theorem addToFront_zipWith_xor (hlength : a.length = b.length) (bits : List Bool) :
    addToFront (List.zipWith xor a b) bits = addToFront a (addToFront b bits) := by
  induction a generalizing b bits with
  | nil =>
    obtain rfl : b = [] := List.eq_nil_of_length_eq_zero hlength.symm
    simp
  | cons x a ih =>
    cases b with
    | nil => cases hlength
    | cons y b =>
      cases bits with
      | nil => rfl
      | cons z bits =>
        have htail := ih (by simpa using hlength) bits
        simp [addToFront, htail]

/-- Zero bits at the end add nothing. -/
theorem addToFront_append_false (front bits : List Bool) :
    addToFront (front ++ [false]) bits = addToFront front bits := by
  induction front generalizing bits with
  | nil => cases bits <;> simp [addToFront]
  | cons bit front ih =>
    cases bits with
    | nil => rfl
    | cons b bits => simp [addToFront, ih]

/-- Zero bits add nothing. -/
theorem addToFront_replicate_false (n : Nat) (bits : List Bool) :
    addToFront (List.replicate n false) bits = bits := by
  induction n with
  | zero => exact addToFront_nil bits
  | succ n ih => rw [List.replicate_succ', addToFront_append_false, ih]

/-- Added to as many zero bits, bits are as they were. -/
theorem addToFront_to_replicate_false (bits : List Bool) :
    addToFront bits (List.replicate bits.length false) = bits := by
  induction bits with
  | nil => rfl
  | cons bit bits ih => simp [List.replicate_succ, addToFront, ih]

/-! ### Eight bits at a time -/

/-- A bit is added to the highest place of a remainder. -/
theorem byteBits_xor_topBit (r : UInt8) (bit : Bool) :
    byteBits (r ^^^ Division.topBit bit) = xor (r.toNat.testBit 7) bit :: (byteBits r).tail := by
  have htop : byteBits (Division.topBit bit) = bit :: List.replicate 7 false := by
    cases bit <;> decide
  rw [byteBits_xor, htop]
  simp [byteBits, List.replicate]

/-- The remainder after one more bit, by its bits: the first bit falls away, and the divisor is
subtracted if it was set. -/
theorem addToFront_takeBit (divisor r : UInt8) (bit : Bool) (bits : List Bool) :
    addToFront (byteBits (Division.takeBit divisor r bit)) bits =
      addToFront (byteBits (if xor (r.toNat.testBit 7) bit then divisor else 0))
        (addToFront (byteBits r).tail bits) := by
  have hsum := byteBits_xor_topBit r bit
  have htop : (r ^^^ Division.topBit bit).toNat.testBit 7 = xor (r.toNat.testBit 7) bit :=
    (List.cons.inj hsum).1
  have hlengths : ∀ a b : UInt8, (byteBits a).length = (byteBits b).length := fun _ _ => rfl
  rw [Division.takeBit, Division.shift_eq, UInt8.xor_comm, byteBits_xor,
    addToFront_zipWith_xor (hlengths _ _), Division.byteBits_shiftLeft, addToFront_append_false,
    hsum, htop, List.tail_cons]

/-- A step of long division on a dividend that begins with the remainder so far, to which the next
bit is yet to be added, leaves one that begins with the remainder after that bit. -/
theorem longDivision_step (divisor r : UInt8) (bit : Bool) (bits : List Bool) :
    longDivision (true :: byteBits divisor) (steps + 1) (addToFront (byteBits r) (bit :: bits)) =
      longDivision (true :: byteBits divisor) steps
        (addToFront (byteBits (Division.takeBit divisor r bit)) bits) := by
  have hsplit : addToFront (byteBits r) (bit :: bits) =
      xor (r.toNat.testBit 7) bit :: addToFront (byteBits r).tail bits := rfl
  have hzero : byteBits 0 = List.replicate 8 false := rfl
  rw [hsplit, longDivision, List.head?_cons, addToFront_takeBit]
  cases xor (r.toNat.testBit 7) bit with
  | true => rfl
  | false =>
    rw [if_neg (by simp), if_neg Bool.false_ne_true, hzero, addToFront_replicate_false,
      List.tail_cons]

/-- A remainder is what long division leaves over of the bits and eight zero bits, to the first of
which the remainder of what came before is added. -/
theorem byteBits_remainder (divisor r : UInt8) (bits : List Bool) :
    byteBits (Division.remainder divisor r bits) =
      longDivision (true :: byteBits divisor) bits.length
        (addToFront (byteBits r) (bits ++ List.replicate 8 false)) := by
  induction bits generalizing r with
  | nil => exact (addToFront_to_replicate_false (byteBits r)).symm
  | cons bit bits ih =>
    rw [Division.remainder_cons, ih, List.length_cons, List.cons_append, longDivision_step]

/-! ### Polynomials -/

/-- Adding bits to the first of others adds a multiple of their polynomial. -/
theorem polynomialOf_addToFront (hlength : front.length ≤ bits.length) :
    polynomialOf (addToFront front bits) =
      polynomialOf bits + polynomialOf front * X ^ (bits.length - front.length) := by
  induction front generalizing bits with
  | nil => simp [polynomialOf]
  | cons a front ih =>
    cases bits with
    | nil => cases hlength
    | cons b bits =>
      have hle : front.length ≤ bits.length := Nat.le_of_succ_le_succ hlength
      have hpow : (X : (ZMod 2)[X]) ^ front.length * X ^ (bits.length - front.length) =
          X ^ bits.length := by
        rw [← pow_add, Nat.add_sub_cancel' hle]
      have hhead : (if xor a b then X ^ bits.length else 0 : (ZMod 2)[X]) =
          (if b then X ^ bits.length else 0) + if a then X ^ bits.length else 0 := by
        cases a <;> cases b <;> simp [CharTwo.add_self_eq_zero]
      rw [addToFront, polynomialOf, polynomialOf, polynomialOf, length_addToFront, ih hle, hhead,
        List.length_cons, List.length_cons, Nat.add_sub_add_right, add_mul, ite_mul, zero_mul, hpow,
        add_add_add_comm]

/-- The degree of a polynomial is below the number of its coefficients. -/
theorem degree_polynomialOf_lt (bits : List Bool) : (polynomialOf bits).degree < bits.length := by
  induction bits with
  | nil =>
    rw [polynomialOf, degree_zero]
    exact WithBot.bot_lt_coe 0
  | cons bit bits ih =>
    have hcount : (bits.length : WithBot ℕ) < (bit :: bits).length :=
      Nat.cast_lt.mpr (Nat.lt_succ_self _)
    apply lt_of_le_of_lt (degree_add_le _ _)
    apply max_lt
    · cases bit with
      | false => exact lt_of_le_of_lt bot_le hcount
      | true => exact lt_of_le_of_lt (degree_X_pow_le _) hcount
    · exact ih.trans hcount

/-- A leading one makes the polynomial monic, of the degree that the other bits leave. -/
theorem monic_polynomialOf (bits : List Bool) :
    (polynomialOf (true :: bits)).Monic ∧ (polynomialOf (true :: bits)).degree = bits.length := by
  have hsplit : polynomialOf (true :: bits) = X ^ bits.length + polynomialOf bits := rfl
  have hdegree : (polynomialOf bits).degree < (X ^ bits.length : (ZMod 2)[X]).degree := by
    rw [degree_X_pow]
    exact degree_polynomialOf_lt bits
  rw [hsplit]
  constructor
  · exact monic_X_pow_add (degree_polynomialOf_lt bits)
  · rw [degree_add_eq_left_of_degree_lt hdegree, degree_X_pow]

/-- A leading zero changes nothing. -/
theorem polynomialOf_cons_false (bits : List Bool) :
    polynomialOf (false :: bits) = polynomialOf bits :=
  zero_add _

/-- A step of long division takes one bit away and subtracts a multiple of the divisor. -/
theorem longDivision_step_congr (bit : Bool) {bits : List Bool}
    (hlength : divisor.length ≤ bits.length) :
    ∃ bits', bits'.length = bits.length ∧
      polynomialOf (true :: divisor) ∣ polynomialOf bits' - polynomialOf (bit :: bits) ∧
      ∀ steps, longDivision (true :: divisor) (steps + 1) (bit :: bits) =
        longDivision (true :: divisor) steps bits' := by
  cases bit with
  | false =>
    refine ⟨bits, rfl, ?_, fun steps => ?_⟩
    · rw [polynomialOf_cons_false, sub_self]
      exact dvd_zero _
    · rw [longDivision, List.head?_cons, if_neg (by simp), List.tail_cons]
  | true =>
    refine ⟨addToFront divisor bits, length_addToFront _ _, ?_, fun steps => ?_⟩
    · have hfront : (true :: divisor).length ≤ (true :: bits).length := Nat.succ_le_succ hlength
      have hsum := polynomialOf_addToFront hfront
      rw [addToFront, Bool.xor_self, polynomialOf_cons_false] at hsum
      rw [hsum, add_sub_cancel_left]
      exact dvd_mul_right _ _
    · rw [longDivision, List.head?_cons, if_pos rfl]
      rfl

/-- Long division takes one bit away with each step and subtracts multiples of the divisor. -/
theorem longDivision_congr {bits : List Bool} (hroom : steps + divisor.length ≤ bits.length) :
    (longDivision (true :: divisor) steps bits).length = bits.length - steps ∧
      polynomialOf (true :: divisor) ∣
        polynomialOf (longDivision (true :: divisor) steps bits) - polynomialOf bits := by
  induction steps generalizing bits with
  | zero =>
    constructor
    · rfl
    · rw [longDivision, sub_self]
      exact dvd_zero _
  | succ steps ih =>
    cases bits with
    | nil => simp at hroom
    | cons bit bits =>
      rw [List.length_cons] at hroom
      have hlower : divisor.length ≤ bits.length := by omega
      obtain ⟨bits', hlength, hdvd, hstep⟩ := longDivision_step_congr bit hlower
      have hroom' : steps + divisor.length ≤ bits'.length := by omega
      obtain ⟨hleft, hmore⟩ := ih hroom'
      rw [hstep]
      constructor
      · rw [hleft, List.length_cons]
        omega
      · have htotal := dvd_add hmore hdvd
        rwa [sub_add_sub_cancel] at htotal

/-- What long division leaves over is the remainder of the polynomial. -/
theorem polynomialOf_leftOver {bits : List Bool} (hroom : divisor.length ≤ bits.length) :
    polynomialOf (leftOver (true :: divisor) bits) =
      polynomialOf bits %ₘ polynomialOf (true :: divisor) := by
  obtain ⟨hmonic, hdegree⟩ := monic_polynomialOf divisor
  have hsteps : bits.length + 1 - (true :: divisor).length = bits.length - divisor.length := by
    rw [List.length_cons]
    omega
  have hall : bits.length - divisor.length + divisor.length ≤ bits.length := by omega
  obtain ⟨hlength, hdvd⟩ := longDivision_congr hall
  rw [← hsteps] at hlength hdvd
  -- What is left over has as many bits as the divisor has places below the leading one.
  have hsmall : (polynomialOf (leftOver (true :: divisor) bits)).degree <
      (polynomialOf (true :: divisor)).degree := by
    have hleft : (leftOver (true :: divisor) bits).length = divisor.length := by
      rw [leftOver, hlength]
      omega
    rw [hdegree, ← hleft]
    exact degree_polynomialOf_lt _
  rw [← (modByMonic_eq_self_iff hmonic).mpr hsmall]
  exact modByMonic_eq_of_dvd_sub hmonic hdvd

end

/-! ### The CRC -/

/-- The bits of the data and eight zero bits, with the bits of `start` added to the first eight. -/
def Crc.dividend (start : UInt8) (data : Bytes) : List Bool :=
  addToFront (byteBits start) (bitsOf data ++ List.replicate 8 false)

/-- The CRC without a table: each byte is added to the register, which is shifted eight times. -/
def Crc.serial (start : UInt8) (data : Bytes) : UInt8 :=
  data.foldl (fun r b => Nat.repeat shift 8 (r ^^^ b)) start

/-- The bits of 0x1D5 are the leading one and those of the lower terms. -/
theorem Crc.numberBits_generator : numberBits 9 0x1D5 = true :: byteBits divisor := by
  decide

/-- The bits of 0x1D5 are the coefficients of the generator of the CRC. -/
theorem Crc.polynomialOf_generator :
    polynomialOf (numberBits 9 0x1D5) = X ^ 8 + X ^ 7 + X ^ 6 + X ^ 4 + X ^ 2 + 1 := by
  have hbits : numberBits 9 0x1D5 =
      [true, true, true, false, true, false, true, false, true] := by decide
  rw [hbits]
  simp [polynomialOf, add_assoc]

/-- What is divided has eight bits more than the data. -/
theorem Crc.length_dividend (start : UInt8) (data : Bytes) :
    (dividend start data).length = (bitsOf data).length + 8 := by
  rw [dividend, length_addToFront, List.length_append, List.length_replicate]

/-- The bits of a CRC are what long division by the generator leaves over. -/
theorem byteBits_crcFrom (start : UInt8) (data : Bytes) :
    byteBits (crcFrom start data) = leftOver (numberBits 9 0x1D5) (Crc.dividend start data) := by
  have hsteps : (Crc.dividend start data).length + 1 - (numberBits 9 0x1D5).length =
      (bitsOf data).length := by
    rw [Crc.length_dividend, length_numberBits]
    omega
  rw [leftOver, hsteps, crcFrom_eq_remainder, byteBits_remainder, Crc.numberBits_generator]
  rfl

/-- The table gives the CRC that eight shifts a byte give. -/
theorem crcFrom_eq_serial (start : UInt8) (data : Bytes) :
    crcFrom start data = Crc.serial start data := by
  have hadvance : Crc.advance = fun r b => Nat.repeat Crc.shift 8 (r ^^^ b) := by
    funext r b
    exact Crc.advance_eq_remainder r b
  rw [crcFrom, hadvance]
  rfl

/-- The CRC of an exclusive or is that of the CRCs. -/
theorem crcFrom_xor_difference {data data' : Bytes} (hlength : data.length = data'.length)
    (start start' : UInt8) :
    crcFrom (start ^^^ start') (difference data data') =
      crcFrom start data ^^^ crcFrom start' data' := by
  have hbits : (bitsOf data).length = (bitsOf data').length := by
    rw [length_bitsOf, length_bitsOf, hlength]
  simp only [crcFrom_eq_remainder, bitsOf_difference hlength,
    Division.remainder_zipWith_xor hbits]

/-- Data with its own CRC at the end has none. -/
theorem crcFrom_append_crcFrom (start : UInt8) (data : Bytes) :
    crcFrom start (data ++ [crcFrom start data]) = 0 := by
  rw [crcFrom_append, crcFrom_cons, crcFrom_nil, Crc.advance_eq_remainder, UInt8.xor_self]
  rfl

/-- The CRC is the remainder by x⁸ + x⁷ + x⁶ + x⁴ + x² + 1, or 0x1D5, of the polynomial whose
coefficients are the bits of the data and eight zeros, with the start value added to the first eight
of them: long division leaves its bits over. So without data it is the start value. A register that
is shifted bit by bit comes to the same. The CRC of an exclusive or is that of the CRCs, and data
with its own CRC at the end has none. -/
theorem crcFrom_eq_long_division (start : UInt8) (data : Bytes) :
    let dividend := Crc.dividend start data
    byteBits (crcFrom start data) = leftOver (numberBits 9 0x1D5) dividend ∧
      polynomialOf (byteBits (crcFrom start data)) =
        polynomialOf dividend %ₘ (X ^ 8 + X ^ 7 + X ^ 6 + X ^ 4 + X ^ 2 + 1) ∧
      (data = [] → crcFrom start data = start) ∧
      crcFrom start data = Crc.serial start data ∧
      (∀ (start' : UInt8) (data' : Bytes), data.length = data'.length →
        crcFrom (start ^^^ start') (difference data data') =
          crcFrom start data ^^^ crcFrom start' data') ∧
      crcFrom start (data ++ [crcFrom start data]) = 0 := by
  intro dividend
  refine ⟨byteBits_crcFrom start data, ?_, ?_, crcFrom_eq_serial start data, ?_,
    crcFrom_append_crcFrom start data⟩
  · have hroom : (byteBits Crc.divisor).length ≤ dividend.length := by
      rw [Crc.length_dividend, length_byteBits]
      omega
    rw [byteBits_crcFrom, Crc.numberBits_generator, polynomialOf_leftOver hroom,
      ← Crc.numberBits_generator, Crc.polynomialOf_generator]
  · rintro rfl
    exact crcFrom_nil start
  · intro start' data' hlength
    exact crcFrom_xor_difference hlength start start'

/-- The CRC of one byte, of no byte, and of two messages that differ. -/
theorem crcFrom_eq_long_division_short :
    byteBits 0xD5 = leftOver (numberBits 9 0x1D5) (Crc.dividend 0 [1]) ∧
      crcFrom 0x42 [] = 0x42 ∧
      crcFrom (0x0F ^^^ 0xF1) (difference [0x24, 0x58] [0x24, 0x4D]) =
        crcFrom 0x0F [0x24, 0x58] ^^^ crcFrom 0xF1 [0x24, 0x4D] ∧
      crcFrom 0 ([1] ++ [0xD5]) = 0 := by
  have hcrc : crcFrom 0 [1] = 0xD5 := by decide +kernel
  obtain ⟨hbits, -, -, -, -, hresidue⟩ := crcFrom_eq_long_division 0 [1]
  obtain ⟨-, -, hempty, -⟩ := crcFrom_eq_long_division 0x42 []
  obtain ⟨-, -, -, -, hxor, -⟩ := crcFrom_eq_long_division 0x0F [0x24, 0x58]
  rw [hcrc] at hbits hresidue
  exact ⟨hbits, hempty rfl, hxor 0xF1 [0x24, 0x4D] rfl, hresidue⟩

end FlightLink
