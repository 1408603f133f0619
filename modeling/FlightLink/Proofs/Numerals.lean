import FlightLink.Command.Request
import Mathlib.Algebra.Group.Nat.Defs
import Mathlib.Data.List.Basic

/-!
# Numerals on the command line

A natural number is given by its digits, one or more and with any number of zeros in front, behind
an optional plus sign. It is read if it is below 2⁶⁴. If not, what is wrong is said by the first
character that is no digit or that makes the number too large.
-/

namespace FlightLink

/-- The text without a plus sign in front. -/
def unsigned : List Char → List Char
  | '+' :: digits => digits
  | text => text

/-- A text that gives the number `n`. -/
structure Numeral (text : List Char) (n : Nat) : Prop where
  /-- There is a digit. -/
  ne_nil : unsigned text ≠ []
  /-- There is nothing but digits behind the sign. -/
  digits : ∀ c ∈ unsigned text, c.isDigit = true
  /-- The digits make the number. -/
  value : Nat.ofDigitChars 10 (unsigned text) 0 = n
  /-- The number is one of 64 bits. -/
  lt : n < 2 ^ 64

/-- The digits in front, maybe not all of them, already make a number of more than 64 bits. -/
def Overflows (text : List Char) : Prop :=
  ∃ front, front <+: unsigned text ∧ (∀ c ∈ front, c.isDigit = true) ∧
    2 ^ 64 ≤ Nat.ofDigitChars 10 front 0

/-- The texts that something is wrong with: one that is empty, one with digits in front that are too
many, and any other that gives no number. -/
def NumeralError.Explains (text : List Char) : NumeralError → Prop
  | .empty => text = []
  | .tooLarge => Overflows text
  | .invalidDigit => text ≠ [] ∧ ¬ Overflows text ∧ ∀ n, ¬ Numeral text n

/-- Digits make a number no smaller. -/
theorem le_ofDigitChars (digits : List Char) (n : Nat) : n ≤ Nat.ofDigitChars 10 digits n := by
  induction digits generalizing n with
  | nil => exact Nat.le_refl n
  | cons c digits ih =>
    rw [Nat.ofDigitChars_cons]
    exact Nat.le_trans (by omega) (ih _)

section

variable {n m : Nat} {c : Char} {digits : List Char}

/-- A character that is no digit is not read over. -/
theorem numeralFrom_cons_of_not_isDigit (hc : c.isDigit = false) :
    numeralFrom n (c :: digits) = .error .invalidDigit := by
  rw [numeralFrom, if_pos (by simp [hc])]

/-- A digit makes the number too large, or reading goes on behind it. -/
theorem numeralFrom_cons_of_isDigit (hc : c.isDigit = true) :
    numeralFrom n (c :: digits) =
      if 2 ^ 64 ≤ 10 * n + (c.toNat - '0'.toNat) then .error .tooLarge
      else numeralFrom (10 * n + (c.toNat - '0'.toNat)) digits := by
  have hsize : UInt64.size = 2 ^ 64 := rfl
  rw [numeralFrom, if_neg (by simp [hc]), hsize]

/-- Behind a number below 2⁶⁴, characters are read just if they are all digits and make, together
with it, a number below 2⁶⁴. -/
theorem numeralFrom_eq_ok_iff (hn : n < 2 ^ 64) :
    numeralFrom n digits = .ok m ↔
      (∀ c ∈ digits, c.isDigit = true) ∧ Nat.ofDigitChars 10 digits n = m ∧ m < 2 ^ 64 := by
  induction digits generalizing n with
  | nil =>
    simp only [numeralFrom, Except.ok.injEq, List.not_mem_nil, false_implies, implies_true,
      true_and, Nat.ofDigitChars_nil]
    exact ⟨fun h => ⟨h, h ▸ hn⟩, And.left⟩
  | cons c digits ih =>
    rw [List.forall_mem_cons, Nat.ofDigitChars_cons]
    cases hc : c.isDigit with
    | false => simp [numeralFrom_cons_of_not_isDigit hc]
    | true =>
      rw [numeralFrom_cons_of_isDigit hc]
      split
      · rename_i hlarge
        have hle := le_ofDigitChars digits (10 * n + (c.toNat - '0'.toNat))
        simp only [reduceCtorEq, true_and, false_iff, not_and]
        rintro - rfl
        omega
      · rename_i hsmall
        rw [ih (Nat.lt_of_not_le hsmall)]
        simp

/-- Behind a number below 2⁶⁴, characters are refused as too large a number just if digits at their
front already make one. -/
theorem numeralFrom_eq_tooLarge_iff (hn : n < 2 ^ 64) :
    numeralFrom n digits = .error .tooLarge ↔
      ∃ front, front <+: digits ∧ (∀ c ∈ front, c.isDigit = true) ∧
        2 ^ 64 ≤ Nat.ofDigitChars 10 front n := by
  induction digits generalizing n with
  | nil =>
    simp only [numeralFrom, reduceCtorEq, List.prefix_nil, false_iff]
    rintro ⟨front, rfl, -, hlarge⟩
    rw [Nat.ofDigitChars_nil] at hlarge
    omega
  | cons c digits ih =>
    -- What overflows is not empty, so it starts with this character.
    have hcons : (∃ front, front <+: c :: digits ∧ (∀ d ∈ front, d.isDigit = true) ∧
          2 ^ 64 ≤ Nat.ofDigitChars 10 front n) ↔
        c.isDigit = true ∧ ∃ front, front <+: digits ∧ (∀ d ∈ front, d.isDigit = true) ∧
          2 ^ 64 ≤ Nat.ofDigitChars 10 front (10 * n + (c.toNat - '0'.toNat)) := by
      constructor
      · rintro ⟨front, hprefix, hdigits, hlarge⟩
        rcases List.prefix_cons_iff.mp hprefix with rfl | ⟨front, rfl, hfront⟩
        · rw [Nat.ofDigitChars_nil] at hlarge
          omega
        · obtain ⟨hc, hdigits⟩ := List.forall_mem_cons.mp hdigits
          exact ⟨hc, front, hfront, hdigits, hlarge⟩
      · rintro ⟨hc, front, hfront, hdigits, hlarge⟩
        exact ⟨c :: front, List.prefix_cons_inj c |>.mpr hfront,
          List.forall_mem_cons.mpr ⟨hc, hdigits⟩, hlarge⟩
    rw [hcons]
    cases hc : c.isDigit with
    | false => simp [numeralFrom_cons_of_not_isDigit hc]
    | true =>
      rw [numeralFrom_cons_of_isDigit hc]
      split
      · rename_i hlarge
        simp only [true_and, true_iff]
        exact ⟨[], List.nil_prefix, by simp, hlarge⟩
      · rename_i hsmall
        rw [ih (Nat.lt_of_not_le hsmall)]
        simp

/-- Digits are not missed once reading has started. -/
theorem numeralFrom_ne_empty : numeralFrom n digits ≠ .error .empty := by
  induction digits generalizing n with
  | nil => simp [numeralFrom]
  | cons c digits ih =>
    cases hc : c.isDigit with
    | false => simp [numeralFrom_cons_of_not_isDigit hc]
    | true =>
      rw [numeralFrom_cons_of_isDigit hc]
      split
      · simp
      · exact ih

end

section

variable {text : List Char} {n : Nat} {e : NumeralError}

/-- Digits are read from the first one behind the sign on. -/
theorem numeral_of_unsigned_ne_nil (hdigits : unsigned text ≠ []) :
    numeral text = numeralFrom 0 (unsigned text) := by
  unfold numeral
  split
  · exact absurd rfl hdigits
  · exact absurd rfl hdigits
  · rfl
  · rename_i hsign
    unfold unsigned
    split
    · exact (hsign _ rfl).elim
    · rfl

/-- Without a digit behind it, a sign is one character too many. -/
theorem numeral_of_unsigned_eq_nil (hdigits : unsigned text = []) :
    numeral text = .error (if text = [] then .empty else .invalidDigit) := by
  unfold unsigned at hdigits
  split at hdigits
  · subst hdigits
    rfl
  · subst hdigits
    rfl

/-- A number is read just from the texts that give it. -/
theorem numeral_eq_ok_iff : numeral text = .ok n ↔ Numeral text n := by
  by_cases hdigits : unsigned text = []
  · rw [numeral_of_unsigned_eq_nil hdigits]
    simp only [reduceCtorEq, false_iff]
    exact fun h => h.ne_nil hdigits
  · rw [numeral_of_unsigned_ne_nil hdigits, numeralFrom_eq_ok_iff (by decide)]
    exact ⟨fun ⟨hall, hvalue, hlt⟩ => ⟨hdigits, hall, hvalue, hlt⟩,
      fun h => ⟨h.digits, h.value, h.lt⟩⟩

/-- Digits that make the number too large are reported before a character that is no digit and
stands behind them. -/
theorem numeral_eq_tooLarge_iff : numeral text = .error .tooLarge ↔ Overflows text := by
  by_cases hdigits : unsigned text = []
  · rw [numeral_of_unsigned_eq_nil hdigits]
    have hsmall : ¬ Overflows text := by
      rintro ⟨front, hfront, -, hlarge⟩
      obtain rfl := List.prefix_nil.mp (hdigits ▸ hfront)
      exact absurd hlarge (by decide)
    refine iff_of_false ?_ hsmall
    split <;> simp
  · rw [numeral_of_unsigned_ne_nil hdigits]
    exact numeralFrom_eq_tooLarge_iff (by decide)

/-- Just the empty text is refused as empty. -/
theorem numeral_eq_empty_iff : numeral text = .error .empty ↔ text = [] := by
  by_cases hdigits : unsigned text = []
  · rw [numeral_of_unsigned_eq_nil hdigits]
    by_cases hempty : text = [] <;> simp [hempty]
  · rw [numeral_of_unsigned_ne_nil hdigits]
    refine iff_of_false numeralFrom_ne_empty ?_
    rintro rfl
    exact hdigits rfl

/-- What is wrong with a text is said just of the texts that it explains. -/
theorem numeral_eq_error_iff : numeral text = .error e ↔ e.Explains text := by
  cases e with
  | empty => exact numeral_eq_empty_iff
  | tooLarge => exact numeral_eq_tooLarge_iff
  | invalidDigit =>
    rw [NumeralError.Explains, ne_eq, ← numeral_eq_empty_iff, ← numeral_eq_tooLarge_iff]
    simp only [← numeral_eq_ok_iff]
    cases numeral text with
    | ok n => simp
    | error e => cases e <;> simp

end

end FlightLink
