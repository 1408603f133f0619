import FlightLink.Bytes
import FlightLink.Fault

/-!
# Files

What the program sees of the files around it is a function from paths: to the contents of a file, to
a directory, which opens but cannot be read, or to the fault that opening meets. `Directory` is a
working directory that holds files and no other directories.
-/

namespace FlightLink

/-- What a path leads to. -/
inductive Entry where
  /-- A file with its contents. -/
  | file (data : Bytes)
  /-- A directory. -/
  | directory
  deriving DecidableEq, Repr

/-- The contents of a file. -/
def Entry.read : Entry → Except Fault Bytes
  | .file data => .ok data
  | .directory => .error .isADirectory

/-- What each path leads to. -/
abbrev Files := String → Except Fault Entry

/-- The contents of the file that a path leads to. -/
def Files.read (files : Files) (path : String) : Except Fault Bytes := files path >>= Entry.read

/-- A working directory: the names of its files with their contents. -/
structure Directory where
  /-- The files. -/
  contents : List (String × Bytes)
  deriving DecidableEq, Repr

namespace Directory

/-- Whether a part of a path stays where it is. -/
def isIdlePart (part : String) : Bool := part = "" || part = "."

/-- The most bytes that a name in a path can have. -/
def maxNameSize : Nat := 255

/-- The most bytes that a path can have. -/
def maxPathSize : Nat := 4095

/-- What looking for a name meets where nothing has it. -/
def absent (name : String) : Fault :=
  if maxNameSize < name.utf8ByteSize then .nameTooLong else .notFound

/-- What a path leads to. A path is a list of parts between slashes, of which empty ones and single
dots stay where they are; nothing lies beyond a file. Above the working directory only directories
are known to exist. -/
def find (d : Directory) : Files := fun path =>
  if '\x00' ∈ path.toList then .error .nulInPath
  else if maxPathSize < path.utf8ByteSize then .error .nameTooLong
  else if path = "" then .error .notFound
  else
    let parts := path.splitOn "/"
    if parts.head? = some "" then outside parts
    else
      match parts.dropWhile isIdlePart with
      | [] => .ok .directory
      | name :: rest =>
        if name = ".." then outside rest
        else
          match d.contents.lookup name with
          | none => .error (absent name)
          | some data => if rest = [] then .ok (.file data) else .error .notADirectory
where
  /-- What the rest of a path leads to above the working directory. -/
  outside (parts : List String) : Except Fault Entry :=
    match parts.find? fun part => ¬ (isIdlePart part || part = "..") with
    | none => .ok .directory
    | some name => .error (absent name)

end Directory

end FlightLink
