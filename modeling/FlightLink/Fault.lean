/-!
# Input and output faults

What goes wrong when a source is read, a sink written or a file opened.
-/

namespace FlightLink

/-- The kinds of faults. -/
inductive FaultKind where
  /-- The reader of a pipe is gone. -/
  | brokenPipe
  /-- The other side closed the connection. -/
  | connectionReset
  /-- The call was interrupted. -/
  | interrupted
  /-- There is no such file. -/
  | notFound
  /-- The call took too long. -/
  | timedOut
  /-- The input ended too early. -/
  | unexpectedEof
  /-- The call would have to wait. -/
  | wouldBlock
  /-- A path goes through something that is no directory. -/
  | notADirectory
  /-- A directory stands where a file is wanted. -/
  | isADirectory
  /-- A path holds a name that no file can have. -/
  | invalidFilename
  /-- A path holds a character that no path can hold. -/
  | invalidInput
  /-- The data is not of the form wanted. -/
  | invalidData
  /-- A sink takes nothing more. -/
  | writeZero
  /-- Anything else. -/
  | other
  deriving DecidableEq, Repr

/-- A fault with its text. -/
structure Fault where
  /-- The kind. -/
  kind : FaultKind
  /-- The text. -/
  text : String
  deriving DecidableEq, Repr

namespace Fault

/-- There is no such file. -/
def notFound : Fault := ⟨.notFound, "No such file or directory (os error 2)"⟩

/-- A path goes through a file. -/
def notADirectory : Fault := ⟨.notADirectory, "Not a directory (os error 20)"⟩

/-- A directory cannot be read. -/
def isADirectory : Fault := ⟨.isADirectory, "Is a directory (os error 21)"⟩

/-- A path, or a name in it, is too long. -/
def nameTooLong : Fault := ⟨.invalidFilename, "File name too long (os error 36)"⟩

/-- A path holds a NUL character. -/
def nulInPath : Fault := ⟨.invalidInput, "file name contained an unexpected NUL byte"⟩

/-- Bytes that are no UTF-8 text. -/
def invalidText : Fault := ⟨.invalidData, "stream did not contain valid UTF-8"⟩

/-- A sink took none of the bytes offered. -/
def writeZero : Fault := ⟨.writeZero, "failed to write whole buffer"⟩

/-- The text of the error that reports the fault. -/
def message (f : Fault) : String := s!"I/O error: {f.text}"

end Fault

end FlightLink
