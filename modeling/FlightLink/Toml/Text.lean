import FlightLink.Toml.Layout

/-!
# TOML texts

Texts come in four forms: between quotation marks, where a backslash escapes, or between
apostrophes, where nothing does; and either on one line between single marks or over lines between
triple ones. A text over lines loses a line break right after its opening marks, and it may hold up
to two marks of its own kind before the closing ones. Each form is read in one pass; `read` is what
has been read so far, last character first.
-/

namespace FlightLink.Toml

/-- The value of a hexadecimal digit. -/
def hexValue? (c : Char) : Option Nat :=
  if '0' ≤ c ∧ c ≤ '9' then some (c.toNat - '0'.toNat)
  else if 'a' ≤ c ∧ c ≤ 'f' then some (c.toNat - 'a'.toNat + 10)
  else if 'A' ≤ c ∧ c ≤ 'F' then some (c.toNat - 'A'.toNat + 10)
  else none

/-- The character whose number has the given hexadecimal digits. -/
def charOfHex? (digits : List Char) : Option Char := do
  let values ← digits.mapM hexValue?
  let n := values.foldl (fun n d => 16 * n + d) 0
  if n.isValidChar then some (Char.ofNat n) else none

/-- The character that a letter after a backslash stands for. -/
def escaped? : Char → Option Char
  | 'b' => some '\x08'
  | 't' => some '\t'
  | 'n' => some '\n'
  | 'f' => some '\x0c'
  | 'r' => some '\r'
  | '"' => some '"'
  | '\\' => some '\\'
  | _ => none

/-- Whether only blanks stand before the end of the line. -/
def atLineEnd (s : List Char) : Bool := (newline? (skipBlanks s)).isSome

/-- The text without a line break at its front. -/
def skipNewline (s : List Char) : List Char := (newline? s).getD s

/-- Reads up to a closing quotation mark. -/
def escapedLine? (read : List Char) : Reader (List Char)
  | '"' :: r => some (read.reverse, r)
  | '\\' :: 'u' :: a :: b :: c :: d :: r => do
    escapedLine? ((← charOfHex? [a, b, c, d]) :: read) r
  | '\\' :: 'U' :: a :: b :: c :: d :: e :: f :: g :: h :: r => do
    escapedLine? ((← charOfHex? [a, b, c, d, e, f, g, h]) :: read) r
  | '\\' :: c :: r => do escapedLine? ((← escaped? c) :: read) r
  | c :: r => if c ≠ '\\' ∧ isTextChar c then escapedLine? (c :: read) r else none
  | [] => none

/-- Reads up to three closing quotation marks. A backslash at the end of a line is left out with the
blanks and line breaks after it; `joining` says whether the text starts among these. No escape goes
on behind them. -/
def escapedLines? : (joining : Bool) → (read : List Char) → Reader (List Char)
  | _, read, '"' :: '"' :: '"' :: '"' :: '"' :: r => some (('"' :: '"' :: read).reverse, r)
  | _, read, '"' :: '"' :: '"' :: '"' :: r => some (('"' :: read).reverse, r)
  | _, read, '"' :: '"' :: '"' :: r => some (read.reverse, r)
  | _, read, '\\' :: 'u' :: a :: b :: c :: d :: r => do
    escapedLines? false ((← charOfHex? [a, b, c, d]) :: read) r
  | _, read, '\\' :: 'U' :: a :: b :: c :: d :: e :: f :: g :: h :: r => do
    escapedLines? false ((← charOfHex? [a, b, c, d, e, f, g, h]) :: read) r
  | _, read, '\\' :: c :: r =>
    if atLineEnd (c :: r) then escapedLines? true read (c :: r)
    else do escapedLines? false ((← escaped? c) :: read) r
  | joining, read, '\r' :: '\n' :: r =>
    escapedLines? joining (if joining then read else '\n' :: read) r
  | joining, read, c :: r =>
    if joining ∧ (isBlank c ∨ c = '\n') then escapedLines? true read r
    else if c ≠ '\\' ∧ (c = '\n' ∨ isTextChar c) then escapedLines? false (c :: read) r
    else none
  | _, _, [] => none

/-- Reads up to a closing apostrophe. -/
def literalLine? (read : List Char) : Reader (List Char)
  | '\'' :: r => some (read.reverse, r)
  | c :: r => if isTextChar c then literalLine? (c :: read) r else none
  | [] => none

/-- Reads up to three closing apostrophes. -/
def literalLines? (read : List Char) : Reader (List Char)
  | '\'' :: '\'' :: '\'' :: '\'' :: '\'' :: r => some (('\'' :: '\'' :: read).reverse, r)
  | '\'' :: '\'' :: '\'' :: '\'' :: r => some (('\'' :: read).reverse, r)
  | '\'' :: '\'' :: '\'' :: r => some (read.reverse, r)
  | '\r' :: '\n' :: r => literalLines? ('\n' :: read) r
  | c :: r => if c = '\n' ∨ isTextChar c then literalLines? (c :: read) r else none
  | [] => none

/-- Reads a text on one line, from its opening mark on. -/
def lineText? : Reader String
  | '"' :: r => do
    let (t, rest) ← escapedLine? [] r
    some (String.ofList t, rest)
  | '\'' :: r => do
    let (t, rest) ← literalLine? [] r
    some (String.ofList t, rest)
  | _ => none

/-- Reads a text in any of the four forms, from its opening marks on. -/
def text? : Reader String
  | '"' :: '"' :: '"' :: r => do
    let (t, rest) ← escapedLines? false [] (skipNewline r)
    some (String.ofList t, rest)
  | '\'' :: '\'' :: '\'' :: r => do
    let (t, rest) ← literalLines? [] (skipNewline r)
    some (String.ofList t, rest)
  | s => lineText? s

end FlightLink.Toml
