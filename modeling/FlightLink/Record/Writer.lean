import FlightLink.Fault
import FlightLink.Gather
import FlightLink.Record.Line

/-!
# Writing records to a sink

A sink takes bytes until its room is used up, at most so many at one write, and then fails. A
writer offers it the record of each frame and then a line break, and counts the records whose line
break was taken. What a sink has taken stays, also when the rest of a record does not fit.
-/

namespace FlightLink

/-- A byte sink. -/
structure Sink where
  /-- The most bytes taken at one write, if bounded. -/
  perWrite : Option Nat := none
  /-- How many bytes more the sink takes, if bounded. -/
  room : Option Nat := none
  /-- The fault of a sink that can take nothing; without one it takes zero bytes. -/
  fault : Option Fault := none
  /-- The fault of a flush. -/
  flushFault : Option Fault := none
  /-- The bytes taken. -/
  taken : Array UInt8 := #[]
  deriving DecidableEq, Repr

namespace Sink

/-- The most bytes that the sink takes at the next write, if bounded. -/
def share? (s : Sink) : Option Nat :=
  match s.perWrite, s.room with
  | none, room => room
  | some most, none => some most
  | some most, some room => some (min most room)

/-- Takes a part of the bytes offered. -/
def take (s : Sink) (part : Bytes) : Sink :=
  { s with
    room := s.room.map (· - part.length)
    taken := part.foldl Array.push s.taken }

/-- Writes all of the data, in as many writes as it takes, or up to the first that takes none. -/
def writeAll (s : Sink) (data : Bytes) : Sink × Except Fault Unit :=
  if data = [] then (s, .ok ())
  else
    match s.share? with
    | none => (s.take data, .ok ())
    | some 0 => (s, .error (s.fault.getD .writeZero))
    | some (n + 1) => (s.take (data.take (n + 1))).writeAll (data.drop (n + 1))
  termination_by data.length
  decreasing_by
    rename_i h
    have := List.length_pos_iff.2 h
    simp only [List.length_drop]
    omega

/-- Flushes the sink. -/
def flush (s : Sink) : Except Fault Unit :=
  match s.flushFault with
  | some f => .error f
  | none => .ok ()

end Sink

/-- A writer of records. -/
structure RecordWriter where
  /-- The sink written to. -/
  sink : Sink
  /-- How many records were written in full. -/
  records : Nat := 0
  deriving DecidableEq, Repr

namespace RecordWriter

/-- Writes the record of a frame and its line break. -/
def write (w : RecordWriter) (stamp : String) (f : Frame) : RecordWriter × Except Fault Unit :=
  let ⟨sink, records⟩ := w
  match sink.writeAll (f.recordBytes stamp) with
  | (sink, .error fault) => (⟨sink, records⟩, .error fault)
  | (sink, .ok ()) =>
    match sink.writeAll recordBreak with
    | (sink, .error fault) => (⟨sink, records⟩, .error fault)
    | (sink, .ok ()) => (⟨sink, records + 1⟩, .ok ())

/-- Writes the record of a frame and says how many records are then written. -/
def count (w : RecordWriter) (stamp : String) (f : Frame) :
    RecordWriter × List (Nat × Except Fault Unit) :=
  let (w, outcome) := w.write stamp f
  (w, [(w.records, outcome)])

/-- Writes the records of frames in turn, also after a failure: the writer after them, and for
each frame the number of records then written and the outcome. -/
def writeAll (w : RecordWriter) (stamp : String) (frames : List Frame) :
    RecordWriter × List (Nat × Except Fault Unit) :=
  gather (fun w f => w.count stamp f) w frames

end RecordWriter

end FlightLink
