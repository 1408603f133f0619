import FlightLink.Toml.Node

/-!
# Blanks, comments and line ends

Blanks are spaces and tabs. A comment starts with a number sign and goes on to the end of its line.
Lines end in a line feed, which may follow a carriage return; a carriage return never stands alone.
-/

namespace FlightLink.Toml

/-- Spaces and tabs. -/
def isBlank (c : Char) : Bool := c = ' ' || c = '\t'

/-- Characters that may stand in texts and comments: all but control characters, and the tab. -/
def isTextChar (c : Char) : Bool := c = '\t' || (' ' ≤ c && c ≠ '\x7f')

/-- The text without the blanks at its front. -/
def skipBlanks (s : List Char) : List Char := s.dropWhile isBlank

/-- The text without the comment at its front, if there is one. -/
def skipComment : List Char → List Char
  | '#' :: r => r.dropWhile isTextChar
  | s => s

/-- The text after the line break at its front. -/
def newline? : List Char → Option (List Char)
  | '\n' :: r => some r
  | '\r' :: '\n' :: r => some r
  | _ => none

/-- What follows the end of a line: blanks, a comment, and a line break or the end of the text. -/
def lineEnd? (s : List Char) : Option (List Char) :=
  match skipComment (skipBlanks s) with
  | [] => some []
  | r => newline? r

/-- The text without the blanks, line breaks and comments at its front, where `inComment` says
whether it starts inside a comment. -/
def skipLayoutFrom : Bool → List Char → List Char
  | _, [] => []
  | _, '\n' :: r => skipLayoutFrom false r
  | _, '\r' :: '\n' :: r => skipLayoutFrom false r
  | inComment, c :: r =>
    if inComment && isTextChar c then skipLayoutFrom true r
    else if isBlank c then skipLayoutFrom false r
    else if c = '#' then skipLayoutFrom true r
    else c :: r

/-- The text without the blanks, line breaks and comments at its front. -/
def skipLayout (s : List Char) : List Char := skipLayoutFrom false s

end FlightLink.Toml
