import FlightLink.Toml.Layout

/-!
# TOML numbers

Integers are decimal with an optional sign and no superfluous zero, or hexadecimal, octal or binary
after `0x`, `0o` or `0b`; they must fit into 64 bits with a sign. A floating-point number is a
decimal integer with a fraction, an exponent or both, or infinity or not-a-number. Between two
digits an underscore may stand. A floating-point number that is finite as written must not round
to positive infinity; once the digits of its exponent make 65536 or more, the others do not count.
Numbers of any length are read in one pass: only the first digits of one that is out of range, and
none behind the point of one that is near infinity, are ever computed with.
-/

namespace FlightLink.Toml

/-- Whether each underscore stands between two digits, if a digit stands in front. -/
def isSeparated : List Char → Bool
  | ['_'] => false
  | '_' :: '_' :: _ => false
  | _ :: r => isSeparated r
  | [] => true

/-- Reads one digit or more, with single underscores between them. -/
def digits? (isDigit : Char → Bool) (s : List Char) : Option (List Char × List Char) :=
  let inNumber (c : Char) : Bool := isDigit c || c = '_'
  let run := s.takeWhile inNumber
  if run.head?.any isDigit && isSeparated run then
    some (run.filter isDigit, s.dropWhile inNumber)
  else none

/-- The value of a digit, or of a letter that stands for one. -/
def digitValue (c : Char) : Nat :=
  if c.isDigit then c.toNat - '0'.toNat
  else if c.isUpper then c.toNat - 'A'.toNat + 10
  else c.toNat - 'a'.toNat + 10

/-- The number with the given digits. -/
def ofDigits (base : Nat) (digits : List Char) : Nat :=
  digits.foldl (fun n c => base * n + digitValue c) 0

/-- The number with the given digits, of which those after a front that already makes `bound` or
more do not count. -/
def ofDigitsUpTo (bound base : Nat) (digits : List Char) : Nat :=
  digits.foldl (fun n c => if n < bound then base * n + digitValue c else n) 0

/-- Below the bound all digits count. -/
theorem ofDigitsUpTo_eq_ofDigits {bound base : Nat} {digits : List Char} (hbase : 0 < base)
    (h : ofDigits base digits < bound) : ofDigitsUpTo bound base digits = ofDigits base digits := by
  have hle : ∀ (ds : List Char) (n : Nat), n ≤ ds.foldl (fun n c => base * n + digitValue c) n := by
    intro ds
    induction ds with
    | nil => intro n; exact Nat.le_refl n
    | cons c ds ih =>
      intro n
      have := Nat.le_mul_of_pos_left n hbase
      exact Nat.le_trans (by omega) (ih (base * n + digitValue c))
  unfold ofDigits at h ⊢
  unfold ofDigitsUpTo
  generalize 0 = n at h ⊢
  induction digits generalizing n with
  | nil => rfl
  | cons c ds ih =>
    have hn : n < bound := Nat.lt_of_le_of_lt (hle (c :: ds) n) h
    rw [List.foldl_cons, List.foldl_cons, if_pos hn]
    exact ih _ h

/-- Digits up to nine and letters up to `f` in either case. -/
def isHexDigit (c : Char) : Bool := c.isDigit || ('a' ≤ c && c ≤ 'f') || ('A' ≤ c && c ≤ 'F')

/-- Digits up to seven. -/
def isOctalDigit (c : Char) : Bool := '0' ≤ c && c ≤ '7'

/-- Zero and one. -/
def isBinaryDigit (c : Char) : Bool := c = '0' || c = '1'

/-- Reads a sign, if there is one, and says whether it is a minus. -/
def sign (s : List Char) : Bool × List Char :=
  match s with
  | '-' :: r => (true, r)
  | '+' :: r => (false, r)
  | s => (false, s)

/-- Reads the digits of a decimal integer: a zero alone, or digits that do not start with one. -/
def decimalDigits? : Reader (List Char)
  | '0' :: r => some (['0'], r)
  | s => digits? Char.isDigit s

/-- The integers of 64 bits. -/
def inRange (n : Int) : Bool := Int64.minValue.toInt ≤ n && n ≤ Int64.maxValue.toInt

/-- The size of an integer, exact if the integer is one of 64 bits. -/
def integerSize (base : Nat) (digits : List Char) : Nat := ofDigitsUpTo UInt64.size base digits

/-- Reads an integer. -/
def integer? (s : List Char) : Option (Int × List Char) := do
  let (n, rest) ← read? s
  if inRange n then some (n, rest) else none
where
  /-- Reads an integer of any size, exact if it is one of 64 bits. -/
  read? : List Char → Option (Int × List Char)
    | '0' :: 'x' :: r => do
      let (ds, rest) ← digits? isHexDigit r
      some (integerSize 16 ds, rest)
    | '0' :: 'o' :: r => do
      let (ds, rest) ← digits? isOctalDigit r
      some (integerSize 8 ds, rest)
    | '0' :: 'b' :: r => do
      let (ds, rest) ← digits? isBinaryDigit r
      some (integerSize 2 ds, rest)
    | s => do
      let (negative, r) := sign s
      let (ds, rest) ← decimalDigits? r
      let n : Int := integerSize 10 ds
      some (if negative then -n else n, rest)

/-- The size of an exponent. Digits after those that already make 65536 or more do not count. -/
def exponentSize (digits : List Char) : Nat := ofDigitsUpTo 65536 10 digits

/-- Reads an exponent: the letter, an optional sign and digits. -/
def exponent? : Reader Int
  | c :: r =>
    if c = 'e' || c = 'E' then do
      let (negative, r) := sign r
      let (ds, rest) ← digits? Char.isDigit r
      let n : Int := exponentSize ds
      some (if negative then -n else n, rest)
    else none
  | [] => none

/-- The least number that rounds to infinity: half a unit of the last place above the largest
finite number. It is a whole number of 309 digits. -/
def overflowBound : Nat := (1 <<< 1024) - (1 <<< 970)

/-- Whether the integer with the given digits, times ten to the power of `exponent`, rounds to
infinity. That is for its whole part to say, of which the count of digits nearly always decides. -/
def overflows (digits : List Char) (exponent : Int) : Bool :=
  let digits := digits.dropWhile fun c => c = '0'
  let width := digits.length + exponent
  if digits = [] ∨ width < 309 then false
  else if 309 < width then true
  else overflowBound ≤ ofDigits 10 ((digits.take 309).rightpad 309 '0')

/-- Reads over a floating-point number written with digits. -/
def skipDecimalFloat? (s : List Char) : Option (List Char) := do
  let (negative, r) := sign s
  let (whole, r) ← decimalDigits? r
  let (fraction, r, hasFraction) ← match r with
    | '.' :: r => do
      let (ds, rest) ← digits? Char.isDigit r
      some (ds, rest, true)
    | r => some ([], r, false)
  let (exponent, rest) ← match exponent? r with
    | some (e, rest) => some (e, rest)
    | none => if hasFraction then some (0, r) else none
  if !negative && overflows (whole ++ fraction) (exponent - fraction.length) then none
  else some rest

/-- Reads over infinity or not-a-number, with an optional sign. -/
def skipSpecialFloat? (s : List Char) : Option (List Char) :=
  match (sign s).2 with
  | 'i' :: 'n' :: 'f' :: rest => some rest
  | 'n' :: 'a' :: 'n' :: rest => some rest
  | _ => none

/-- Reads over a floating-point number. -/
def skipFloat? (s : List Char) : Option (List Char) := skipDecimalFloat? s <|> skipSpecialFloat? s

end FlightLink.Toml
