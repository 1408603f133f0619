import FlightLink.Bytes

/-!
# Command lines

A command line asks for one of two things: the frames of a capture as records, or the contents of a
compressed block. Further arguments are passed over.
-/

namespace FlightLink

/-- Why a text is not a natural number below 2⁶⁴. -/
inductive NumeralError where
  /-- The text is empty. -/
  | empty
  /-- A character is not a decimal digit. -/
  | invalidDigit
  /-- The number is too large. -/
  | tooLarge
  deriving DecidableEq, Repr

/-- The text of the error. -/
def NumeralError.message : NumeralError → String
  | .empty => "cannot parse integer from empty string"
  | .invalidDigit => "invalid digit found in string"
  | .tooLarge => "number too large to fit in target type"

/-- Reads digits onto `n`, the number read so far. The first character that is no digit, or that
makes the number too large, decides. -/
def numeralFrom (n : Nat) : List Char → Except NumeralError Nat
  | [] => .ok n
  | c :: r =>
    if ¬ c.isDigit then .error .invalidDigit
    else
      let n := 10 * n + (c.toNat - '0'.toNat)
      if UInt64.size ≤ n then .error .tooLarge else numeralFrom n r

/-- Reads a natural number below 2⁶⁴ in decimal, after an optional plus sign. -/
def numeral (text : List Char) : Except NumeralError Nat :=
  match text with
  | [] => .error .empty
  | ['+'] => .error .invalidDigit
  | '+' :: r => numeralFrom 0 r
  | s => numeralFrom 0 s

/-- What a command line asks for. -/
inductive Request where
  /-- The frames of a capture. -/
  | frames (capture : String) (settings : Option String)
  /-- The contents of a compressed block of the given output length. -/
  | inflate (block : String) (length : Nat) (settings : Option String)
  deriving DecidableEq, Repr

/-- Why a command line asks for nothing. -/
inductive RequestError where
  /-- There is no such command, or an argument is missing. -/
  | usage
  /-- The output length is not a number. -/
  | badLength (e : NumeralError)
  deriving DecidableEq, Repr

/-- What a command line asks for, if its arguments make sense. -/
def Request.ofArguments : List String → Except RequestError Request
  | "frames" :: capture :: rest => .ok (.frames capture rest.head?)
  | "inflate" :: block :: length :: rest =>
    match numeral length.toList with
    | .ok n => .ok (.inflate block n rest.head?)
    | .error e => .error (.badLength e)
  | _ => .error .usage

/-- The paths of the files that a request reads. -/
def Request.paths : Request → List String
  | .frames capture settings => capture :: settings.toList
  | .inflate block _ settings => block :: settings.toList

end FlightLink
