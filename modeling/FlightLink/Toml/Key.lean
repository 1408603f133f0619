import FlightLink.Toml.Text

/-!
# TOML keys

A key is one name or several joined by dots, each bare or quoted, with blanks around it allowed. It
has fewer than eighty names.
-/

namespace FlightLink.Toml

/-- A key: the names of the tables that lead to a name, and that name. -/
structure Key where
  /-- The names that lead there. -/
  path : List String
  /-- The last name. -/
  name : String
  deriving DecidableEq, Repr

/-- Letters, digits, the underscore and the hyphen. -/
def isBareChar (c : Char) : Bool := c.isAlphanum || c = '_' || c = '-'

/-- Reads one name. -/
def name? (s : List Char) : Option (String × List Char) :=
  match s with
  | '"' :: _ => lineText? s
  | '\'' :: _ => lineText? s
  | s =>
    let bare := s.takeWhile isBareChar
    if bare = [] then none else some (String.ofList bare, s.dropWhile isBareChar)

/-- Reads a key of at most `most` names, with the blanks around it. -/
def keyOf? : (most : Nat) → Reader Key
  | 0, _ => none
  | most + 1, s => do
    let (name, r) ← name? (skipBlanks s)
    match skipBlanks r with
    | '.' :: r =>
      let (key, rest) ← keyOf? most r
      some ({ key with path := name :: key.path }, rest)
    | r => some (⟨[], name⟩, r)

/-- The most names of a key. -/
def maxNames : Nat := 79

/-- Reads a key with the blanks around it. -/
def key? : Reader Key := keyOf? maxNames

end FlightLink.Toml
