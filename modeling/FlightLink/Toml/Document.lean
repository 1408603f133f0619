import FlightLink.Toml.Value

/-!
# TOML documents

A document is a list of lines: blank ones, values under keys, and headers, each of which declares a
table, or an element of a list of tables, that the lines up to the next header belong to. The lines
before the first header belong to the table of the document. A byte order mark may open the text.
-/

namespace FlightLink.Toml

/-- What a header opens. -/
inductive Header where
  /-- A table. -/
  | table (key : Key)
  /-- An element of a list of tables. -/
  | element (key : Key)
  deriving DecidableEq, Repr

/-- A line that says something. -/
inductive Line where
  /-- A value under a key. -/
  | pair (key : Key) (value : Node)
  /-- A header. -/
  | header (h : Header)

/-- A header with the pairs that belong to it. -/
structure Section where
  /-- The header. -/
  header : Header
  /-- The pairs, in the order of their lines. -/
  pairs : List (Key × Node)

/-- Reads a header or a value under a key, without the end of the line. `size` is above the number
of values that can stand side by side. -/
def line? (size : Nat) : Reader Line
  | '[' :: '[' :: r => do
    let (key, r) ← key? r
    some (.header (.element key), ← char? ']' (← char? ']' r))
  | '[' :: r => do
    let (key, r) ← key? r
    some (.header (.table key), ← char? ']' r)
  | s => do
    let (key, r) ← key? s
    let (value, rest) ← value? size (skipBlanks (← char? '=' r))
    some (.pair key value, rest)

/-- Reads lines to the end of the text, at most `most` of them. -/
def linesOf? (size : Nat) : (most : Nat) → List Char → Option (List Line)
  | 0, _ => none
  | most + 1, s =>
    match lineEnd? s with
    | some [] => some []
    | some r => linesOf? size most r
    | none => do
      let (line, r) ← line? size (skipBlanks s)
      some (line :: (← linesOf? size most (← lineEnd? r)))

/-- Reads all lines of a text. A line takes at least one character, and so does a value. -/
def lines? (s : List Char) : Option (List Line) :=
  let size := s.length + 1
  linesOf? size size s

/-- The pairs before the first header, and the sections from there on. -/
def sectionsOf : List Line → List (Key × Node) × List Section
  | [] => ([], [])
  | .pair key value :: rest =>
    let (pairs, sections) := sectionsOf rest
    ((key, value) :: pairs, sections)
  | .header h :: rest =>
    let (pairs, sections) := sectionsOf rest
    ([], ⟨h, pairs⟩ :: sections)

/-- Enters a section. -/
def Entries.addSection (es : Entries) (s : Section) : Option Entries :=
  match s.header with
  | .table key => es.addTable key s.pairs
  | .element key => es.addElement key s.pairs

/-- The table of a document. -/
def Entries.ofLines? (lines : List Line) : Option Entries := do
  let (pairs, sections) := sectionsOf lines
  sections.foldlM Entries.addSection (← Entries.defineAll [] pairs)

/-- The text without the byte order mark at its front. -/
def skipMark : List Char → List Char
  | '\ufeff' :: r => r
  | s => s

/-- The table that a text says. -/
def read? (text : String) : Option Entries := do
  Entries.ofLines? (← lines? (skipMark text.toList))

end FlightLink.Toml
