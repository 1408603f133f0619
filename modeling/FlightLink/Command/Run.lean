import FlightLink.Capture
import FlightLink.Command.Request
import FlightLink.Files
import FlightLink.Record.Writer
import FlightLink.Settings.Read

/-!
# Running a command line

A run is a function of the arguments, the files and the time of its records: it gives what is logged
and written, and the error if there is one. Each step may fail, and the steps come in a fixed order:
arguments, settings, input file, work.
-/

namespace FlightLink

/-- An error as the user sees it: what failed, and why, outermost cause first. -/
structure Complaint where
  /-- What failed. -/
  message : String
  /-- The causes. -/
  causes : List String := []
  deriving DecidableEq, Repr

/-- The complaint on standard error. Several causes are numbered. -/
def Complaint.render (c : Complaint) : String :=
  let shown := match c.causes with
    | [] => []
    | [cause] => ["", "Caused by:", s!"    {cause}"]
    | causes => ["", "Caused by:"] ++ causes.zipIdx.map fun (cause, i) => s!"    {i}: {cause}"
  "\n".intercalate (s!"Error: {c.message}" :: shown)

/-- How the program is called. -/
def usageText : String :=
  "usage:\n  msp-codec frames <capture-file> [config.toml]\n" ++
    "  msp-codec inflate <block-file> <output-length> [config.toml]"

/-- The complaint about arguments that make no sense. -/
def RequestError.complaint : RequestError → Complaint
  | .usage => ⟨usageText, []⟩
  | .badLength e => ⟨"output-length must be a non-negative integer", [e.message]⟩

/-- The complaint about settings in the file at `path`. -/
def SettingsError.complaint (path : String) (e : SettingsError) : Complaint :=
  ⟨s!"loading {path}", [e.message, e.cause]⟩

/-- What a run gives. -/
structure Outcome where
  /-- What is logged. -/
  log : List Event
  /-- What is written to standard output. -/
  output : Bytes
  /-- What went wrong, if anything did. -/
  complaint : Option Complaint
  deriving DecidableEq, Repr

namespace Outcome

/-- The exit code: one if something went wrong. -/
def exitCode (o : Outcome) : Nat := if o.complaint.isSome then 1 else 0

/-- A run that logged some events and then failed without output. -/
def failed (log : List Event) (complaint : Complaint) : Outcome := ⟨log, [], some complaint⟩

/-- The log lines that the user sees. -/
def shownLog (o : Outcome) : List String :=
  (o.log.filter fun e => e.level.isShown).map Event.line

end Outcome

/-- The settings in the file at `path`, if one is given, and what is logged of them. -/
def loadSettings (files : Files) : Option String → Except Complaint (Settings × List Event)
  | none => .ok ({}, [])
  | some path =>
    match Settings.load files path with
    | .error e => .error (e.complaint path)
    | .ok settings => .ok (settings, [.settingsLoaded path])

/-- What reading an entry does: a file offers its contents, a directory fails. -/
def Entry.source (entry : Entry) : List Read :=
  match entry.read with
  | .ok data => [.bytes data]
  | .error f => [.fault f]

/-- Writes a record for each frame that a source delivers, all stamped with the given time. -/
def recordFrames (stamp : String) (settings : Settings) (log : List Event) (source : List Read) :
    Outcome :=
  let receiver := Receiver.ofSettings settings.receiver
  let (_, out, result) := receiver.readAll settings.chunkSize source
  let (writer, _) := (RecordWriter.mk {} 0).writeAll stamp (Signal.frames out)
  let log := log ++ Signal.events out
  match result with
  | .error f => ⟨log, writer.sink.taken.toList, some ⟨f.message, [f.text]⟩⟩
  | .ok total => ⟨log ++ [.framesWritten writer.records total], writer.sink.taken.toList, none⟩

/-- Writes a record for each frame of a capture, all stamped with the given time. -/
def runFrames (stamp : String) (files : Files) (path : String) (settings : Settings)
    (log : List Event) : Outcome :=
  match files path with
  | .error f => .failed log ⟨s!"opening {path}", [f.text]⟩
  | .ok entry => recordFrames stamp settings log entry.source

/-- Writes the contents of a compressed block. -/
def runInflate (files : Files) (path : String) (length : Nat) (settings : Settings)
    (log : List Event) : Outcome :=
  match files.read path with
  | .error f => .failed log ⟨s!"reading {path}", [f.text]⟩
  | .ok block =>
    match Codebook.standard.inflate settings.maxOutput block length with
    | .error e => .failed log ⟨e.message, []⟩
    | .ok output =>
      let ended := if output.length < length then [Event.blockEnded output.length length] else []
      ⟨log ++ ended, output, none⟩

/-- Runs a command line. -/
def run (stamp : String) (files : Files) (arguments : List String) : Outcome :=
  let log := [Event.started]
  match Request.ofArguments arguments with
  | .error e => .failed log e.complaint
  | .ok (.frames capture settingsPath) =>
    match loadSettings files settingsPath with
    | .error complaint => .failed log complaint
    | .ok (settings, loaded) => runFrames stamp files capture settings (log ++ loaded)
  | .ok (.inflate block length settingsPath) =>
    match loadSettings files settingsPath with
    | .error complaint => .failed log complaint
    | .ok (settings, loaded) => runInflate files block length settings (log ++ loaded)

end FlightLink
