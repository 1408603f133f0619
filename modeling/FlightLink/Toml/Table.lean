import FlightLink.Toml.Key

/-!
# Entering names into TOML tables

A line enters its value under a key, and a header opens a table, below the tables that the path of
the key or header names; those that do not exist yet are made. A name is entered once. A key may
only lead through tables that no header declared, and may only add to one that keys made; a header
may lead through any table and, in a list of tables, through the latest, and may declare only a
table that is so far implied by longer headers.
-/

namespace FlightLink.Toml

/-- Who leads through tables: the key of a line or a header. -/
inductive Guide where
  /-- The key of a line. -/
  | key
  /-- A header. -/
  | header
  deriving DecidableEq, Repr

/-- How a table comes about that a guide passes through and that does not exist yet. -/
def Guide.origin : Guide → Origin
  | .key => .dotted
  | .header => .implied

/-- Whether a guide may pass through a table that came about in the given way. -/
def Guide.mayPass : Guide → Origin → Bool
  | _, .inline => false
  | .key, .declared => false
  | _, _ => true

/-- Changes the table to which a path leads by `change`, which is told how that table came about. -/
def Entries.alterAt (guide : Guide) (change : Origin → Entries → Option Entries) :
    Origin → List String → Entries → Option Entries
  | origin, [], es => change origin es
  | _, name :: path, es =>
    match es.lookup name with
    | none => do
      let inner ← alterAt guide change guide.origin path []
      some ((name, .table guide.origin inner) :: es)
    | some (.table origin inner) => do
      if guide.mayPass origin then
        let inner ← alterAt guide change origin path inner
        some (es.replace name (.table origin inner))
      else none
    | some (.tables latest earlier) => do
      let latest ← alterAt guide change .declared path latest
      some (es.replace name (.tables latest earlier))
    | some _ => none

/-- Enters a value under a key. The table that the key leads to, if it leads to one, must be made
by keys, and the name must be new. -/
def Entries.define (es : Entries) (key : Key) (value : Node) : Option Entries :=
  es.alterAt .key
    (fun origin inner =>
      if (key.path = [] ∨ origin = .dotted) ∧ inner.lookup key.name = none then
        some ((key.name, value) :: inner)
      else none)
    .declared key.path

/-- Enters values under keys in turn. -/
def Entries.defineAll (es : Entries) : List (Key × Node) → Option Entries
  | [] => some es
  | (key, value) :: rest => do (← es.define key value).defineAll rest

/-- Declares a table with the given lines. Names that longer headers implied in it stay. -/
def Entries.addTable (es : Entries) (header : Key) (lines : List (Key × Node)) :
    Option Entries :=
  es.alterAt .header
    (fun _ outer => do
      match outer.lookup header.name with
      | none => some ((header.name, .table .declared (← Entries.defineAll [] lines)) :: outer)
      | some (.table .implied inner) =>
        some (outer.replace header.name (.table .declared (← Entries.defineAll inner lines)))
      | some _ => none)
    .declared header.path

/-- Adds a table with the given lines to a list of tables. -/
def Entries.addElement (es : Entries) (header : Key) (lines : List (Key × Node)) :
    Option Entries :=
  es.alterAt .header
    (fun _ outer => do
      match outer.lookup header.name with
      | none => some ((header.name, .tables (← Entries.defineAll [] lines) []) :: outer)
      | some (.tables latest earlier) =>
        some (outer.replace header.name
          (.tables (← Entries.defineAll [] lines) (latest :: earlier)))
      | some _ => none)
    .declared header.path

end FlightLink.Toml
