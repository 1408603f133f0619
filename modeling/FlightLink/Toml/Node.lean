/-!
# TOML trees

What a TOML text says: a table of names, each of which holds a value, a table or a list of tables.
A table remembers how it came about, since that decides whether later lines may add to it.
-/

namespace FlightLink.Toml

/-- How a table came about. -/
inductive Origin where
  /-- By a header of its own. -/
  | declared
  /-- As an inner part of the name in a header. -/
  | implied
  /-- As an inner part of a dotted key. -/
  | dotted
  /-- Written on one line between braces. -/
  | inline
  deriving DecidableEq, Repr

/-- What a name holds. -/
inductive Node where
  /-- A text. -/
  | text (t : String)
  /-- An integer. -/
  | integer (n : Int)
  /-- A floating-point number. No setting is one, so its value is not kept. -/
  | float
  /-- A truth value. -/
  | boolean (b : Bool)
  /-- A date, a time or both. No setting is one, so its value is not kept. -/
  | moment
  /-- An array of values. -/
  | array (items : List Node)
  /-- A table. -/
  | table (origin : Origin) (entries : List (String × Node))
  /-- A list of tables, the latest first. -/
  | tables (latest : List (String × Node)) (earlier : List (List (String × Node)))

/-- The names of a table with what they hold, in no particular order. -/
abbrev Entries := List (String × Node)

/-- Puts `node` in the place of what `name` holds. -/
def Entries.replace (es : Entries) (name : String) (node : Node) : Entries :=
  es.map fun e => if e.1 = name then (name, node) else e

/-- A function that reads something at the front of a text and gives it with the rest. -/
abbrev Reader (α : Type) := List Char → Option (α × List Char)

end FlightLink.Toml
