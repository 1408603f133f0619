import FlightLink.Toml.Moment
import FlightLink.Toml.Number
import FlightLink.Toml.Table

/-!
# TOML values

A value is a text, a number, a moment, a truth value, an array or an inline table. Arrays may
spread over lines and end in a comma; an inline table is on one line and does not. Arrays and
inline tables may be nested seventy-nine deep.
-/

namespace FlightLink.Toml

/-- Reads a value that holds no others. -/
def scalar? (s : List Char) : Option (Node × List Char) :=
  match s with
  | 't' :: 'r' :: 'u' :: 'e' :: r => some (.boolean true, r)
  | 'f' :: 'a' :: 'l' :: 's' :: 'e' :: r => some (.boolean false, r)
  | '"' :: _ | '\'' :: _ => (text? s).map fun (t, r) => (.text t, r)
  | s =>
    ((skipMoment? s).map fun r => (Node.moment, r)) <|>
    ((skipFloat? s).map fun r => (Node.float, r)) <|>
    ((integer? s).map fun (n, r) => (Node.integer n, r))

/-- Reads the values of an array, fewer than `most`, and the bracket after them. -/
def itemsOf? (value? : Reader Node) : (most : Nat) → Reader (List Node)
  | 0, _ => none
  | most + 1, s =>
    match skipLayout s with
    | ']' :: r => some ([], r)
    | s => do
      let (item, r) ← value? s
      match skipLayout r with
      | ',' :: r =>
        let (items, rest) ← itemsOf? value? most r
        some (item :: items, rest)
      | ']' :: rest => some ([item], rest)
      | _ => none

/-- Reads the pairs of an inline table, at most `most`, and the brace after them. -/
def pairsOf? (value? : Reader Node) : (most : Nat) → Reader (List (Key × Node))
  | 0, _ => none
  | most + 1, s => do
    let (key, r) ← key? s
    let (value, r) ← value? (skipBlanks (← char? '=' r))
    match skipBlanks r with
    | ',' :: r =>
      let (pairs, rest) ← pairsOf? value? most r
      some ((key, value) :: pairs, rest)
    | '\x7d' :: rest => some ([(key, value)], rest)
    | _ => none

/-- Reads an inline table of at most `most` pairs after its opening brace. -/
def inlineTable? (value? : Reader Node) (most : Nat) (s : List Char) : Option (Node × List Char) :=
  match skipBlanks s with
  | '\x7d' :: rest => some (.table .inline [], rest)
  | s => do
    let (pairs, rest) ← pairsOf? value? most s
    some (.table .inline (← Entries.defineAll [] pairs), rest)

/-- Reads a value in which others are nested at most `depth` deep, fewer than `most` in each. -/
def valueOf? (most : Nat) : (depth : Nat) → Reader Node
  | 0 => scalar?
  | depth + 1 => fun s =>
    match s with
    | '[' :: r => (itemsOf? (valueOf? most depth) most r).map fun (items, rest) =>
      (.array items, rest)
    | '\x7b' :: r => inlineTable? (valueOf? most depth) most r
    | s => scalar? s

/-- How deep values may be nested. -/
def maxDepth : Nat := 79

/-- Reads a value in which fewer than `most` others stand side by side. -/
def value? (most : Nat) : Reader Node := valueOf? most maxDepth

end FlightLink.Toml
