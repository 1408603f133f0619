import FlightLink.Bytes
import Mathlib.Data.List.Induction

/-!
# Bits as numbers, and where two streams differ

Bits are a number, most significant first, and eight of them are a byte; bits of any number are
packed into bytes with zero bits at the end. Two streams of the same length differ in the bits of
their exclusive or.
-/

namespace FlightLink

/-- The number that bits are, most significant first. -/
def bitsValue (bits : List Bool) : Nat := bits.foldl (fun n bit => 2 * n + bit.toNat) 0

/-- One more bit at the end doubles the number and adds the bit. -/
theorem bitsValue_append_singleton (bits : List Bool) (bit : Bool) :
    bitsValue (bits ++ [bit]) = 2 * bitsValue bits + bit.toNat := by
  simp [bitsValue, List.foldl_append]

/-- Bits are a number that their count has room for. -/
theorem bitsValue_lt (bits : List Bool) : bitsValue bits < 1 <<< bits.length := by
  induction bits using List.reverseRecOn with
  | nil => decide
  | append_singleton bits bit ih =>
    have hbit : bit.toNat < 2 := bit.toNat_lt
    rw [Nat.one_shiftLeft] at ih
    rw [bitsValue_append_singleton, List.length_append, List.length_singleton, Nat.one_shiftLeft,
      Nat.pow_succ]
    omega

/-- The last `count` bits of a number, most significant first. -/
def numberBits : (count n : Nat) → List Bool
  | 0, _ => []
  | count + 1, n => numberBits count (n / 2) ++ [n.testBit 0]

/-- A number is given as many bits as were asked for, whatever its size. -/
@[simp] theorem length_numberBits (count n : Nat) : (numberBits count n).length = count := by
  induction count generalizing n with
  | zero => rfl
  | succ count ih => simp [numberBits, ih]

/-- A number is that of its bits, if there is room for all of them. -/
theorem bitsValue_numberBits {count n : Nat} (hroom : n < 1 <<< count) :
    bitsValue (numberBits count n) = n := by
  rw [Nat.one_shiftLeft] at hroom
  induction count generalizing n with
  | zero =>
    obtain rfl : n = 0 := Nat.lt_one_iff.mp hroom
    rfl
  | succ count ih =>
    have hhalf : n / 2 < 2 ^ count := by
      rw [Nat.pow_succ] at hroom
      omega
    rw [numberBits, bitsValue_append_singleton, ih hhalf, Nat.toNat_testBit, Nat.pow_zero,
      Nat.div_one, Nat.div_add_mod]

/-- Bits are those of the number that they are. -/
theorem numberBits_bitsValue (bits : List Bool) :
    numberBits bits.length (bitsValue bits) = bits := by
  induction bits using List.reverseRecOn with
  | nil => rfl
  | append_singleton bits bit ih =>
    have hhalf : (2 * bitsValue bits + bit.toNat) / 2 = bitsValue bits := by
      have hbit : bit.toNat < 2 := bit.toNat_lt
      omega
    rw [List.length_append, List.length_singleton, bitsValue_append_singleton, numberBits, hhalf,
      ih]
    cases bit <;> simp

/-- Eight bits are those of the byte with their number. -/
theorem byteBits_ofNat_bitsValue {bits : List Bool} (hlength : bits.length = 8) :
    byteBits (UInt8.ofNat (bitsValue bits)) = bits := by
  match bits, hlength with
  | [a, b, c, d, e, f, g, h], _ =>
    revert a b c d e f g h
    decide +kernel

/-- Any eight bits are those of a byte. -/
theorem exists_byteBits_eq {bits : List Bool} (hlength : bits.length = 8) :
    ∃ b : UInt8, byteBits b = bits :=
  ⟨_, byteBits_ofNat_bitsValue hlength⟩

/-- Bits as bytes, most significant first within each byte. The last byte is filled up with zero
bits. -/
def packed (bits : List Bool) : Bytes :=
  if bits = [] then []
  else UInt8.ofNat (bitsValue ((bits.take 8).rightpad 8 false)) :: packed (bits.drop 8)
  termination_by bits.length
  decreasing_by
    rename_i hne
    have := List.length_pos_iff.mpr hne
    rw [List.length_drop]
    omega

/-- The bits of packed bits are these bits and those that fill up the last byte. -/
theorem bitsOf_packed (bits : List Bool) :
    bitsOf (packed bits) = bits ++ List.replicate ((8 - bits.length % 8) % 8) false := by
  fun_induction packed bits with
  | case1 => rfl
  | case2 bits hne ih =>
    have hpos := List.length_pos_iff.mpr hne
    have hbyte : ((bits.take 8).rightpad 8 false).length = 8 := by
      rw [List.length_rightpad, List.length_take]
      omega
    rw [bitsOf_cons, byteBits_ofNat_bitsValue hbyte, ih, List.rightpad, List.length_take,
      List.length_drop]
    by_cases hfull : 8 ≤ bits.length
    · have hpad : 8 - min 8 bits.length = 0 := by omega
      have hmod : (bits.length - 8) % 8 = bits.length % 8 := by omega
      rw [hpad, hmod, List.replicate_zero, List.append_nil, ← List.append_assoc,
        List.take_append_drop]
    · have hpad : 8 - min 8 bits.length = (8 - bits.length % 8) % 8 := by omega
      have hnone : (8 - (bits.length - 8) % 8) % 8 = 0 := by omega
      rw [hpad, hnone, List.take_of_length_le (by omega), List.drop_of_length_le (by omega)]
      simp

/-- The bits of the exclusive or of two bytes are the exclusive or of their bits. -/
theorem byteBits_xor (a b : UInt8) :
    byteBits (a ^^^ b) = List.zipWith xor (byteBits a) (byteBits b) := by
  simp only [byteBits, List.map_cons, List.map_nil, UInt8.toNat_xor, Nat.testBit_xor,
    List.zipWith_cons_cons, List.zipWith_nil_left]

/-- The exclusive or of two streams, byte by byte: zero where they agree. -/
def difference (a b : Bytes) : Bytes := List.zipWith (· ^^^ ·) a b

/-- The bits of two runs of bytes are those of one and then of the other. -/
theorem bitsOf_append (front back : Bytes) : bitsOf (front ++ back) = bitsOf front ++ bitsOf back :=
  List.flatMap_append

/-- Streams of two parts differ in each part by itself, if the first parts are of one length. -/
theorem difference_append {a a' b b' : Bytes} (hlength : a.length = a'.length) :
    difference (a ++ b) (a' ++ b') = difference a a' ++ difference b b' :=
  List.zipWith_append hlength

/-- A stream does not differ from itself. -/
theorem bitsOf_difference_self (a : Bytes) :
    bitsOf (difference a a) = List.replicate (8 * a.length) false := by
  induction a with
  | nil => rfl
  | cons b a ih =>
    have hcons : difference (b :: a) (b :: a) = (b ^^^ b) :: difference a a := rfl
    have hzero : byteBits 0 = List.replicate 8 false := rfl
    rw [hcons, bitsOf_cons, ih, UInt8.xor_self, hzero, List.replicate_append_replicate,
      List.length_cons, Nat.mul_succ, Nat.add_comm]

/-- Two streams differ in the bits of their exclusive or. -/
theorem bitsOf_difference {a b : Bytes} (hlength : a.length = b.length) :
    bitsOf (difference a b) = List.zipWith xor (bitsOf a) (bitsOf b) := by
  induction a generalizing b with
  | nil => rfl
  | cons x a ih =>
    cases b with
    | nil => cases hlength
    | cons y b =>
      have hcons : difference (x :: a) (y :: b) = (x ^^^ y) :: difference a b := rfl
      rw [hcons, bitsOf_cons, bitsOf_cons, bitsOf_cons, byteBits_xor, ih (by simpa using hlength)]
      have hbytes : (byteBits x).length = (byteBits y).length := rfl
      exact (List.zipWith_append hbytes).symm

/-- Exclusive or adds the counts of set bits, up to an even number. -/
theorem count_zipWith_xor {a b : List Bool} (hlength : a.length = b.length) :
    (List.zipWith xor a b).count true % 2 = (a.count true + b.count true) % 2 := by
  induction a generalizing b with
  | nil =>
    obtain rfl : b = [] := List.eq_nil_of_length_eq_zero hlength.symm
    rfl
  | cons x a ih =>
    cases b with
    | nil => cases hlength
    | cons y b =>
      have htail := ih (by simpa using hlength)
      cases x <;> cases y <;> simp only [List.zipWith_cons_cons, List.count_cons] <;>
        simp <;> omega

end FlightLink
