import FlightLink.Codebook.Inflate
import FlightLink.Receiver.Basic

/-!
# Settings

The settings of the program, their defaults and the ranges they must lie in. Of several values out
of range the first is reported, in the order in which `SettingsRange` lists the rules.
-/

namespace FlightLink

/-- The settings of the program. -/
structure Settings where
  /-- The settings of the receiver. -/
  receiver : ReceiverSettings := {}
  /-- The largest output length of a compressed block. -/
  maxOutput : Nat := defaultMaxOutput
  /-- The size of the buffer through which captures are read. -/
  chunkSize : Nat := 4096
  deriving DecidableEq, Repr

/-- The rules that settings must obey. -/
inductive SettingsRange where
  /-- The largest payload is a size that a frame can declare, and not zero. -/
  | maxPayload
  /-- The payload buffer does not start larger than the largest payload. -/
  | initialCapacity
  /-- Some output is allowed. -/
  | maxOutput
  /-- The buffer for captures has a sensible size. -/
  | chunkSize
  deriving DecidableEq, Repr

namespace SettingsRange

/-- All rules, in the order in which they are checked. -/
def all : List SettingsRange := [.maxPayload, .initialCapacity, .maxOutput, .chunkSize]

/-- Whether settings obey a rule. -/
def Holds (s : Settings) : SettingsRange → Prop
  | .maxPayload => 1 ≤ s.receiver.maxPayload ∧ s.receiver.maxPayload ≤ 65535
  | .initialCapacity => s.receiver.initialCapacity ≤ s.receiver.maxPayload
  | .maxOutput => 1 ≤ s.maxOutput
  | .chunkSize => 1 ≤ s.chunkSize ∧ s.chunkSize ≤ 1048576

instance (s : Settings) (rule : SettingsRange) : Decidable (rule.Holds s) := by
  cases rule <;> unfold Holds <;> infer_instance

/-- What a rule says. -/
def text : SettingsRange → String
  | .maxPayload => "max_payload_len must be between 1 and 65535"
  | .initialCapacity => "initial_payload_capacity must not exceed max_payload_len"
  | .maxOutput => "max_output_len must be greater than 0"
  | .chunkSize => "read_chunk_size must be between 1 and 1048576"

end SettingsRange

/-- The first rule that settings break, if they break one. -/
def Settings.broken? (s : Settings) : Option SettingsRange :=
  SettingsRange.all.find? fun rule => ¬ rule.Holds s

end FlightLink
