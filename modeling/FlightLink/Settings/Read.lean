import FlightLink.Files
import FlightLink.Settings.Basic
import FlightLink.Toml.Document

/-!
# Reading settings

Settings are written in TOML, in three sections. A section or a setting that is missing takes its
default, and names that mean nothing are passed over. A section may also be an array that lists its
settings in order, from which later ones may be missing. Sizes are integers that are not negative.
-/

namespace FlightLink

/-- Why settings cannot be read. -/
inductive SettingsError where
  /-- The file cannot be read. -/
  | fault (f : Fault)
  /-- The text is not well formed, or a value is not of its setting's type. -/
  | malformed
  /-- A value is out of range. -/
  | range (rule : SettingsRange)
  deriving DecidableEq, Repr

namespace SettingsError

/-- What lies behind the error. -/
def cause : SettingsError → String
  | .fault f => f.text
  | .malformed => "the text is not a valid configuration"
  | .range rule => rule.text

/-- The text of the error. -/
def message : SettingsError → String
  | .fault f => f.message
  | e => s!"Configuration error: {e.cause}"

end SettingsError

namespace Settings

open Toml

/-- How a section is asked for the setting at a position in it with a name. A moment is a section
without settings. -/
def fieldsOf? : Option Node → Option (Nat → String → Option Node)
  | none => some fun _ _ => none
  | some (.table _ es) => some fun _ name => es.lookup name
  | some (.array items) => some fun position _ => items[position]?
  | some .moment => some fun _ _ => none
  | some _ => none

/-- A size, or its default where it is missing. -/
def sizeOf? (default : Nat) : Option Node → Option Nat
  | none => some default
  | some (.integer (.ofNat n)) => some n
  | some _ => none

/-- A truth value, or its default where it is missing. -/
def flagOf? (default : Bool) : Option Node → Option Bool
  | none => some default
  | some (.boolean b) => some b
  | some _ => none

/-- The settings that a TOML table holds. -/
def ofEntries? (es : Entries) : Option Settings := do
  let standard : Settings := {}
  let receiver ← fieldsOf? (es.lookup "decoder")
  let block ← fieldsOf? (es.lookup "huffman")
  let capture ← fieldsOf? (es.lookup "capture")
  some
    { receiver :=
        { maxPayload := ← sizeOf? standard.receiver.maxPayload (receiver 0 "max_payload_len")
          initialCapacity := ← sizeOf? standard.receiver.initialCapacity
            (receiver 1 "initial_payload_capacity")
          logRejections := ← flagOf? standard.receiver.logRejections
            (receiver 2 "log_rejections") }
      maxOutput := ← sizeOf? standard.maxOutput (block 0 "max_output_len")
      chunkSize := ← sizeOf? standard.chunkSize (capture 0 "read_chunk_size") }

/-- The settings that a text holds. -/
def ofText (text : String) : Except SettingsError Settings :=
  match Toml.read? text >>= ofEntries? with
  | none => .error .malformed
  | some s =>
    match s.broken? with
    | some rule => .error (.range rule)
    | none => .ok s

/-- The settings that the bytes of a file hold, as UTF-8 text. -/
def ofBytes (data : Bytes) : Except SettingsError Settings :=
  match String.fromUTF8? ⟨data.toArray⟩ with
  | none => .error (.fault .invalidText)
  | some text => ofText text

/-- The settings in the file that a path leads to. -/
def load (files : Files) (path : String) : Except SettingsError Settings :=
  match files.read path with
  | .error f => .error (.fault f)
  | .ok data => ofBytes data

end Settings

end FlightLink
