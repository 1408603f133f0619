import FlightLink.Command.Run
import FlightLink.Proofs.Captures
import FlightLink.Proofs.Provenance
import FlightLink.Proofs.Records

/-!
# What a command line comes to

A run that records the frames of a capture writes the line of each frame and says how many there
were. Of the settings only the limit shows in what is written: the buffers and the log have no part
in it. A run that fails before its work writes nothing.
-/

namespace FlightLink

/-! ### What the user sees -/

/-- A run that has come to its end: it wrote the lines of frames, and said so last. -/
structure Outcome.Recorded (o : Outcome) (stamp : String) (frames : List Frame) (total : Nat) :
    Prop where
  /-- Nothing went wrong. -/
  exitCode : o.exitCode = 0
  /-- The lines of the frames are all that was written. -/
  output : o.output = frames.flatMap (Frame.line stamp)
  /-- The last line of the log counts the frames and the bytes read. -/
  shownLog : o.shownLog.getLast? = some s!"INFO Wrote {frames.length} frames from {total} bytes"

/-- A run that went wrong and wrote nothing. -/
structure Outcome.Refused (o : Outcome) : Prop where
  /-- Something went wrong. -/
  exitCode : o.exitCode = 1
  /-- Nothing was written. -/
  output : o.output = []

/-- A run that ends with a complaint does not exit with zero. -/
theorem Outcome.exitCode_ne_zero {o : Outcome} {complaint : Complaint}
    (hcomplaint : o.complaint = some complaint) : o.exitCode ≠ 0 := by
  rw [exitCode, hcomplaint]
  exact Nat.one_ne_zero

/-- A run that fails with a complaint has written nothing. -/
theorem Outcome.refused_failed (log : List Event) (complaint : Complaint) :
    (Outcome.failed log complaint).Refused :=
  ⟨rfl, rfl⟩

namespace Event

/-- An event with a printed text is logged with its text as it is. -/
theorem line_of_printed {e : Event} (hprinted : Printed e.message.toList) :
    e.line = s!"{e.level.name} " ++ e.message := by
  rw [line, hprinted.flatMap_terminalSafe, String.ofList_toList]

/-- Two numbers with printed words around them are logged behind the level as they are. -/
theorem line_of_numbers {e : Event} {front middle back head : String} {m n : Nat} (level : String)
    (hlevel : e.level.name = level)
    (hmessage : e.message = front ++ toString m ++ middle ++ toString n ++ back)
    (hfront : Printed front.toList) (hmiddle : Printed middle.toList) (hback : Printed back.toList)
    (hhead : level.toList ++ ' ' :: front.toList = head.toList) :
    e.line = head ++ toString m ++ middle ++ toString n ++ back := by
  have htext : e.message.toList =
      front.toList ++ decimal m ++ middle.toList ++ decimal n ++ back.toList := by
    rw [hmessage]
    simp only [String.toList_append, toList_toString_nat]
  have hprinted : Printed e.message.toList := by
    rw [htext]
    exact (((hfront.append (printed_decimal m)).append hmiddle).append
      (printed_decimal n)).append hback
  rw [line_of_printed hprinted, hlevel]
  apply String.toList_inj.mp
  simp only [String.toList_append, htext, toList_toString_nat, ← hhead, List.append_assoc,
    List.cons_append]
  rfl

/-- The last line of the log of a run that comes to its end. -/
theorem line_framesWritten (records total : Nat) :
    (framesWritten records total).line = s!"INFO Wrote {records} frames from {total} bytes" :=
  line_of_numbers "INFO" rfl rfl (by decide) (by decide) (by decide) (by decide)

end Event

/-! ### Recording the frames of a source -/

/-- The frames that a new receiver finds in a stream depend on its limit alone. -/
theorem kept_ofSettings (s : ReceiverSettings) (content : Bytes) :
    ((Session.ofSettings s).perform (.collect content)).1.kept =
      framesIn s.maxPayload content := by
  have hnew : (Session.ofSettings s).receiver.HasPart [] := Receiver.AtRest.hasPart ⟨rfl, rfl⟩
  exact kept_perform_collect hnew content

/-- What a run comes to that records the frames of a source without a fault. -/
theorem recordFrames_eq (stamp : String) (settings : Settings) (log : List Event)
    {source : List Read} (hsource : Read.fault? source = none) :
    let content := Read.delivered source
    let frames := framesIn settings.receiver.maxPayload content
    ∃ before, recordFrames stamp settings log source =
      ⟨before ++ [.framesWritten frames.length content.length],
        frames.flatMap (Frame.line stamp), none⟩ := by
  intro content frames
  rcases hread : (Receiver.ofSettings settings.receiver).readAll settings.chunkSize source with
    ⟨next, out, result⟩
  obtain ⟨-, hframes, hresult⟩ := Receiver.outcome_of_readAll hread
  have hfound : Signal.frames out = frames :=
    hframes.trans (kept_ofSettings settings.receiver content)
  have hsink : (RecordWriter.mk {} 0).sink.IsUnbounded := ⟨rfl, rfl⟩
  have hwritten := RecordWriter.writeAll_of_isUnbounded hsink stamp frames
  rw [hsource] at hresult
  refine ⟨log ++ Signal.events out, ?_⟩
  simp only [recordFrames, hread, hresult, hfound, hwritten, Sink.push, Nat.zero_add,
    Array.toList_append, List.nil_append]
  rfl

/-- The last event of a log is the last line of it that is shown, if it is one to be shown. -/
theorem Outcome.getLast?_shownLog (before : List Event) {e : Event}
    (hshown : e.level.isShown = true) (output : Bytes) (complaint : Option Complaint) :
    (Outcome.mk (before ++ [e]) output complaint).shownLog.getLast? = some e.line := by
  simp [shownLog, hshown]

/-- Whatever is logged before, and however the bytes are spread over reads: of a source without a
fault, the frames in the bytes that it delivers are recorded. -/
theorem recorded_recordFrames (stamp : String) (settings : Settings) (log : List Event)
    {source : List Read} (hsource : Read.fault? source = none) :
    (recordFrames stamp settings log source).Recorded stamp
      (framesIn settings.receiver.maxPayload (Read.delivered source))
      (Read.delivered source).length := by
  obtain ⟨before, hrun⟩ := recordFrames_eq stamp settings log hsource
  rw [hrun]
  constructor
  · rfl
  · rfl
  · rw [Outcome.getLast?_shownLog before rfl, Event.line_framesWritten]

/-! ### Command lines -/

/-- A run whose steps before the work succeed does the work. -/
theorem run_frames_eq (stamp : String) {files : Files} {capture : String} {more : List String}
    {content : Bytes} {settings : Settings} {loaded : List Event}
    (hcapture : files capture = .ok (.file content))
    (hsettings : loadSettings files more.head? = .ok (settings, loaded)) :
    run stamp files ("frames" :: capture :: more) =
      recordFrames stamp settings (.started :: loaded) [.bytes content] := by
  simp only [run, Request.ofArguments, hsettings, runFrames, hcapture]
  rfl

/-- A file is a source of its contents. -/
theorem delivered_singleton (content : Bytes) :
    Read.delivered [.bytes content] = content ∧ Read.fault? [.bytes content] = none := by
  cases content with
  | nil => exact ⟨rfl, rfl⟩
  | cons byte content => exact ⟨List.append_nil _, rfl⟩

section

variable {stamp capture : String} {files : Files} {more : List String}

/-- With settings that do not load, nothing is written. -/
theorem refused_of_settings {complaint : Complaint}
    (hsettings : loadSettings files more.head? = .error complaint) :
    (run stamp files ("frames" :: capture :: more)).Refused := by
  have hrun : run stamp files ("frames" :: capture :: more) = .failed [.started] complaint := by
    simp only [run, Request.ofArguments, hsettings]
  rw [hrun]
  exact Outcome.refused_failed _ _

/-- With a capture that cannot be opened, nothing is written. -/
theorem refused_of_capture {fault : Fault} (hcapture : files capture = .error fault) :
    (run stamp files ("frames" :: capture :: more)).Refused := by
  cases hsettings : loadSettings files more.head? with
  | error complaint => exact refused_of_settings hsettings
  | ok both =>
    have hrun : run stamp files ("frames" :: capture :: more) =
        .failed (.started :: both.2) ⟨s!"opening {capture}", [fault.text]⟩ := by
      simp only [run, Request.ofArguments, hsettings, runFrames, hcapture]
      rfl
    rw [hrun]
    exact Outcome.refused_failed _ _

end

/-- For any capture and any settings that load, recording the frames of the capture writes one line
for each frame that a new receiver with the same limit collects from its contents at once, in order,
and says last how many there were; so it does however the contents are spread over reads, and any
other settings with the same limit have the same written. Without a capture, with settings that do
not load or with a capture that cannot be opened, it fails and writes nothing. -/
theorem run_frames (stamp : String) (files : Files) (capture : String) (more : List String) :
    let outcome := run stamp files ("frames" :: capture :: more)
    (∀ content settings loaded, files capture = .ok (.file content) →
        loadSettings files more.head? = .ok (settings, loaded) →
        ∀ s : ReceiverSettings, s.maxPayload = settings.receiver.maxPayload →
          let frames := ((Session.ofSettings s).perform (.collect content)).1.kept
          outcome.Recorded stamp frames content.length ∧
            (Printed stamp.toList → outcome.output.count 10 = frames.length) ∧
            (∀ source, Read.delivered source = content → Read.fault? source = none →
              (recordFrames stamp settings (.started :: loaded) source).Recorded stamp frames
                content.length) ∧
            ∀ files' capture' more' settings' loaded', files' capture' = .ok (.file content) →
              loadSettings files' more'.head? = .ok (settings', loaded') →
              settings'.receiver.maxPayload = settings.receiver.maxPayload →
              (run stamp files' ("frames" :: capture' :: more')).output = outcome.output) ∧
      (run stamp files ["frames"]).Refused ∧
      (∀ complaint, loadSettings files more.head? = .error complaint → outcome.Refused) ∧
      ∀ fault, files capture = .error fault → outcome.Refused := by
  intro outcome
  refine ⟨?_, Outcome.refused_failed _ _, fun _ => refused_of_settings,
    fun _ => refused_of_capture⟩
  intro content settings loaded hcapture hsettings s hlimit frames
  have hframes : frames = framesIn settings.receiver.maxPayload content := by
    rw [← hlimit]
    exact kept_ofSettings s content
  -- What is recorded of a source, of this run and of any other, is the same.
  have hsource : ∀ (settings' : Settings) (log : List Event) (source : List Read),
      settings'.receiver.maxPayload = settings.receiver.maxPayload →
      Read.delivered source = content → Read.fault? source = none →
      (recordFrames stamp settings' log source).Recorded stamp frames content.length := by
    intro settings' log source hlimit' hdelivered hfault
    have hrecorded := recorded_recordFrames stamp settings' log hfault
    rwa [hlimit', hdelivered, ← hframes] at hrecorded
  obtain ⟨hdelivered, hfault⟩ := delivered_singleton content
  have hrun : outcome.Recorded stamp frames content.length := by
    have heq : outcome = _ := run_frames_eq stamp hcapture hsettings
    rw [heq]
    exact hsource settings (.started :: loaded) [.bytes content] rfl hdelivered hfault
  refine ⟨hrun, ?_, ?_, ?_⟩
  · intro hstamp
    rw [hrun.output]
    exact count_flatMap_line hstamp frames
  · exact fun source => hsource settings (.started :: loaded) source rfl
  · intro files' capture' more' settings' loaded' hcapture' hsettings' hlimit'
    rw [run_frames_eq stamp hcapture' hsettings', hrun.output]
    exact (hsource settings' (.started :: loaded') [.bytes content] hlimit' hdelivered
      hfault).output

/-- With a limit of one byte, the record of the frame behind a head that declares two. -/
theorem run_frames_limit_one :
    let content : Bytes := [0x24, 0x4D, 0x3C, 2, 0x24, 0x4D, 0x21, 1, 7, 0xAB, 0xAD]
    let text := "decoder.max_payload_len=1\ndecoder.initial_payload_capacity=1"
    let settings : Settings := { receiver := { maxPayload := 1, initialCapacity := 1 } }
    let files : Files := fun path =>
      if path = "capture" then .ok (.file content)
      else if path = "settings" then .ok (.file (asciiBytes text.toList))
      else .error .notFound
    let outcome := run "now" files ["frames", "capture", "settings"]
    loadSettings files (some "settings") = .ok (settings, [.settingsLoaded "settings"]) ∧
      outcome.exitCode = 0 ∧
      outcome.output =
        asciiBytes ("\x7b\"timestamp\":\"now\",\"version\":1,\"direction\":\"!\"," ++
          "\"code\":7,\"payload_len\":1,\"payload\":\"ab\"\x7d\n").toList ∧
      outcome.shownLog.getLast? = some "INFO Wrote 1 frames from 11 bytes" ∧
      (run "now" files ["frames", "nowhere"]).Refused := by
  intro content text settings files outcome
  have hcapture : files "capture" = .ok (.file content) := rfl
  have hmissing : files "nowhere" = .error .notFound := rfl
  have hread : Settings.ofBytes (asciiBytes text.toList) = .ok settings := by decide +kernel
  have hload : loadSettings files (some "settings") =
      .ok (settings, [.settingsLoaded "settings"]) := by
    have hfile : files.read "settings" = .ok (asciiBytes text.toList) := rfl
    simp only [loadSettings, Settings.load, hfile, hread]
  obtain ⟨hwork, -⟩ := run_frames "now" files "capture" ["settings"]
  obtain ⟨hrecorded, -⟩ := hwork content settings _ hcapture hload settings.receiver rfl
  obtain ⟨-, -, -, hopen⟩ := run_frames "now" files "nowhere" []
  have hframes : ((Session.ofSettings settings.receiver).perform (.collect content)).1.kept =
      [⟨.v1, .refusal, 7, [0xAB]⟩] := by
    decide +kernel
  rw [hframes] at hrecorded
  refine ⟨hload, hrecorded.exitCode, ?_, ?_, hopen .notFound hmissing⟩
  · rw [hrecorded.output]
    decide +kernel
  · rw [hrecorded.shownLog]
    decide +kernel

end FlightLink
