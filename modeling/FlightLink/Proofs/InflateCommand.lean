import FlightLink.Proofs.CommandLine
import FlightLink.Proofs.CompleteCodes
import FlightLink.Proofs.Numerals
import FlightLink.Proofs.PrefixCodes
import FlightLink.Proofs.SettingsFiles
import FlightLink.Proofs.SettingsTexts

/-!
# Inflating a block from the command line

A run that inflates a block needs five things: a block and an output length among its arguments, a
length that is a number, settings, a block that can be read, and a limit that admits the length. It
asks for them in this order, and complains about the first that is missing. With all of them it
writes what the bits of the block are cut into, and says if that is less than was asked for.
-/

namespace FlightLink

/-- The settings that a run goes by: those in the file that is named, or else the defaults. -/
def Settings.InForce (files : Files) : Option String → Settings → Prop
  | none, settings => settings = {}
  | some path, settings => InFile files path settings

/-- All that inflating a block needs, if the arguments are a block, a length and maybe more: the
number that the length is, the settings in force, the contents of the block, and a limit that admits
the number. -/
structure InflateReady (files : Files) (block length : String) (more : List String) (n : Nat)
    (settings : Settings) (content : Bytes) : Prop where
  /-- The length is a number. -/
  number : Numeral length.toList n
  /-- The settings are in force. -/
  inForce : Settings.InForce files more.head? settings
  /-- The block can be read. -/
  readable : files.read block = .ok content
  /-- The limit admits the length. -/
  admitted : n ≤ settings.maxOutput

/-- The first thing that is missing for inflating a block, as the complaint about it. -/
inductive InflateFault (files : Files) : List String → Complaint → Prop
  /-- No block is named. -/
  | noBlock : InflateFault files [] ⟨usageText, []⟩
  /-- No length is given. -/
  | noLength (block : String) : InflateFault files [block] ⟨usageText, []⟩
  /-- The length is not a number. -/
  | badLength (block : String) {length : String} (more : List String) {e : NumeralError}
      (hlength : e.Explains length.toList) :
    InflateFault files (block :: length :: more)
      ⟨"output-length must be a non-negative integer", [e.message]⟩
  /-- There are no settings where they are named. -/
  | badSettings (block : String) {length path : String} (more : List String) {n : Nat}
      {e : SettingsError} (hlength : Numeral length.toList n)
      (hsettings : Settings.Missing files path e) :
    InflateFault files (block :: length :: path :: more)
      ⟨s!"loading {path}", [e.message, e.cause]⟩
  /-- The block cannot be read. -/
  | badBlock {block length : String} {more : List String} {n : Nat} {settings : Settings}
      {f : Fault} (hlength : Numeral length.toList n)
      (hsettings : Settings.InForce files more.head? settings)
      (hblock : files.read block = .error f) :
    InflateFault files (block :: length :: more) ⟨s!"reading {block}", [f.text]⟩
  /-- The length is above the limit. -/
  | overLimit {block length : String} {more : List String} {n : Nat} {settings : Settings}
      {content : Bytes} (hlength : Numeral length.toList n)
      (hsettings : Settings.InForce files more.head? settings)
      (hblock : files.read block = .ok content) (hlimit : settings.maxOutput < n) :
    InflateFault files (block :: length :: more)
      ⟨s!"Invalid argument: requested output length {n} exceeds maximum {settings.maxOutput}", []⟩

section

variable {files : Files} {arguments more : List String} {block length : String} {n : Nat}
  {settings : Settings} {content : Bytes} {complaint : Complaint}

/-- Settings are in force just if they are loaded; what is logged of them is the path. -/
theorem inForce_iff {path? : Option String} :
    Settings.InForce files path? settings ↔
      loadSettings files path? = .ok (settings, path?.toList.map Event.settingsLoaded) := by
  cases path? with
  | none => simp [Settings.InForce, loadSettings, eq_comm]
  | some path =>
    rw [Settings.InForce, ← Settings.load_eq_ok_iff]
    cases hload : Settings.load files path <;> simp [loadSettings, hload]

/-- Either everything is there, or there is something that is missing first. -/
theorem exists_ready_or_fault (files : Files) (arguments : List String) :
    (∃ block length more n settings content, arguments = block :: length :: more ∧
        InflateReady files block length more n settings content) ∨
      ∃ complaint, InflateFault files arguments complaint := by
  match arguments with
  | [] => exact .inr ⟨_, .noBlock⟩
  | [block] => exact .inr ⟨_, .noLength block⟩
  | block :: length :: more =>
    cases hlength : numeral length.toList with
    | error e => exact .inr ⟨_, .badLength block more (numeral_eq_error_iff.mp hlength)⟩
    | ok n =>
      have hlength : Numeral length.toList n := numeral_eq_ok_iff.mp hlength
      obtain ⟨settings, hsettings⟩ | ⟨path, others, e, rfl, hmissing⟩ :
          (∃ settings, Settings.InForce files more.head? settings) ∨
            ∃ path others e, more = path :: others ∧ Settings.Missing files path e := by
        cases more with
        | nil => exact .inl ⟨{}, rfl⟩
        | cons path others =>
          rcases Settings.inFile_or_missing files path with hfound | ⟨e, hmissing⟩
          · exact .inl hfound
          · exact .inr ⟨path, others, e, rfl, hmissing⟩
      · cases hblock : files.read block with
        | error f => exact .inr ⟨_, .badBlock hlength hsettings hblock⟩
        | ok content =>
          rcases Nat.lt_or_ge settings.maxOutput n with hlimit | hlimit
          · exact .inr ⟨_, .overLimit hlength hsettings hblock hlimit⟩
          · exact .inl ⟨block, length, more, n, settings, content, rfl, hlength, hsettings,
              hblock, hlimit⟩
      · exact .inr ⟨_, .badSettings block others hlength hmissing⟩

/-- A run with a length that is a number and settings in force goes on to the block. -/
theorem run_inflate_eq (stamp : String) (hlength : Numeral length.toList n)
    (hsettings : Settings.InForce files more.head? settings) :
    run stamp files ("inflate" :: block :: length :: more) =
      runInflate files block n settings
        (.started :: more.head?.toList.map Event.settingsLoaded) := by
  simp only [run, Request.ofArguments, numeral_eq_ok_iff.mpr hlength, inForce_iff.mp hsettings]
  rfl

/-- A run that something is missing for complains about what is missing first. -/
theorem InflateFault.run_eq (stamp : String) (hfault : InflateFault files arguments complaint) :
    ∃ log, run stamp files ("inflate" :: arguments) = .failed log complaint := by
  cases hfault with
  | noBlock => exact ⟨_, rfl⟩
  | noLength => exact ⟨_, rfl⟩
  | badLength block more hlength =>
    refine ⟨[.started], ?_⟩
    simp only [run, Request.ofArguments, numeral_eq_error_iff.mpr hlength, RequestError.complaint]
  | badSettings block more hlength hsettings =>
    refine ⟨[.started], ?_⟩
    simp only [run, Request.ofArguments, numeral_eq_ok_iff.mpr hlength, List.head?_cons,
      loadSettings, Settings.load_eq_error_iff.mpr hsettings, SettingsError.complaint]
  | badBlock hlength hsettings hblock =>
    rw [run_inflate_eq stamp hlength hsettings]
    simp only [runInflate, hblock]
    exact ⟨_, rfl⟩
  | overLimit hlength hsettings hblock hlimit =>
    rw [run_inflate_eq stamp hlength hsettings]
    simp only [runInflate, hblock, Codebook.inflate, if_pos hlimit]
    exact ⟨_, rfl⟩

/-- A run that nothing is missing for writes what the bits of the block are cut into. -/
theorem InflateReady.run_eq (stamp : String)
    (hready : InflateReady files block length more n settings content) :
    let output := segment standardWords n (bitsOf content)
    run stamp files ("inflate" :: block :: length :: more) =
      ⟨.started :: more.head?.toList.map Event.settingsLoaded ++
        (if output.length < n then [.blockEnded output.length n] else []), output, none⟩ := by
  intro output
  have hinflate : Codebook.standard.inflate settings.maxOutput content n = .ok output :=
    Codebook.inflate_eq_ok Codebook.ofWords_standardWords hready.admitted rfl
  rw [run_inflate_eq stamp hready.number hready.inForce]
  simp only [runInflate, hready.readable, hinflate]

end

/-! ### Log lines -/

namespace Event

/-- The log line about a block that ended early. -/
theorem line_blockEnded (produced requested : Nat) :
    (blockEnded produced requested).line =
      s!"INFO Block ended after {produced} of {requested} requested bytes" :=
  line_of_numbers "INFO" rfl rfl (by decide) (by decide) (by decide) (by decide)

/-- The first character of a message stands behind the level. -/
theorem getElem?_line {e : Event} {c : Char} (hlevel : e.level.name = "INFO")
    (hmessage : e.message.toList.head? = some c) (hc : IsPrinted c) :
    e.line.toList[5]? = some c := by
  obtain ⟨rest, hrest⟩ := List.head?_eq_some_iff.mp hmessage
  have hfront : (s!"{e.level.name} ").toList = ['I', 'N', 'F', 'O', ' '] := by
    rw [hlevel]
    decide
  rw [line, String.toList_append, hfront, String.toList_ofList, hrest, List.flatMap_cons,
    terminalSafe_of_isPrinted hc]
  rfl

/-- No other line of a run that inflates a block is taken for the one about its early end. -/
theorem line_ne_line_blockEnded {e : Event} (produced requested : Nat)
    (he : e = .started ∨ ∃ path, e = .settingsLoaded path) :
    e.line ≠ (blockEnded produced requested).line := by
  intro hsame
  have hended : (blockEnded produced requested).message.toList.head? = some 'B' := by
    unfold message
    simp only [String.toList_append, List.head?_append]
    rfl
  have hfifth : e.line.toList[5]? = some 'B' := by
    rw [hsame]
    exact getElem?_line rfl hended (by decide)
  rcases he with rfl | ⟨path, rfl⟩
  · have hstarted : started.message.toList.head? = some 'M' := by decide
    rw [getElem?_line rfl hstarted (by decide)] at hfifth
    exact absurd hfifth (by decide)
  · have hloaded : (settingsLoaded path).message.toList.head? = some 'L' := by
      unfold message
      simp only [String.toList_append, List.head?_append]
      rfl
    rw [getElem?_line rfl hloaded (by decide)] at hfifth
    exact absurd hfifth (by decide)

end Event

/-! ### Runs -/

section

variable {files : Files} {arguments more : List String} {block length : String} {n : Nat}
  {settings : Settings} {content : Bytes} {complaint : Complaint}

/-- A run that nothing is missing for says that the block ended early just if it did. -/
theorem InflateReady.mem_shownLog_iff (stamp : String)
    (hready : InflateReady files block length more n settings content) :
    let outcome := run stamp files ("inflate" :: block :: length :: more)
    s!"INFO Block ended after {outcome.output.length} of {n} requested bytes" ∈ outcome.shownLog ↔
      outcome.output.length < n := by
  intro outcome
  have hrun : outcome = _ := hready.run_eq stamp
  rw [← Event.line_blockEnded, Outcome.shownLog, List.mem_map]
  constructor
  · rintro ⟨e, he, hline⟩
    rw [hrun, List.mem_filter, List.mem_append] at he
    obtain ⟨hbefore | hended, -⟩ := he
    · have hkind : e = .started ∨ ∃ path, e = .settingsLoaded path := by
        rcases List.mem_cons.mp hbefore with hstarted | hloaded
        · exact .inl hstarted
        · obtain ⟨path, -, hpath⟩ := List.mem_map.mp hloaded
          exact .inr ⟨path, hpath.symm⟩
      exact absurd hline (Event.line_ne_line_blockEnded _ _ hkind)
    · rw [hrun]
      by_contra hlong
      rw [if_neg hlong] at hended
      exact absurd hended List.not_mem_nil
  · intro hshort
    refine ⟨_, ?_, rfl⟩
    rw [hrun] at hshort ⊢
    rw [List.mem_filter, List.mem_append, if_pos hshort]
    exact ⟨.inr (List.mem_singleton.mpr rfl), rfl⟩

/-- A run that something is missing for ends with a complaint, and with nothing written. -/
theorem InflateFault.refused (stamp : String) (hfault : InflateFault files arguments complaint) :
    (run stamp files ("inflate" :: arguments)).Refused ∧
      (run stamp files ("inflate" :: arguments)).complaint = some complaint := by
  obtain ⟨log, hrun⟩ := hfault.run_eq stamp
  rw [hrun]
  exact ⟨Outcome.refused_failed log complaint, rfl⟩

end

/-- For any files and arguments: inflating a block succeeds just if nothing is missing for it, that
is a block, a length that is a number, settings, a block that can be read and a limit that admits
the length. Then it writes what the block inflates to by the standard codewords, and says that the
block ended early just if that is less than was asked for. In all other cases it writes nothing, and
complains about what is missing first. -/
theorem run_inflate (stamp : String) (files : Files) (arguments : List String) :
    let outcome := run stamp files ("inflate" :: arguments)
    (outcome.exitCode = 0 ↔
      ∃ block length more n settings content, arguments = block :: length :: more ∧
        InflateReady files block length more n settings content) ∧
      (∀ block length more n settings content, arguments = block :: length :: more →
        InflateReady files block length more n settings content →
          outcome.output = segment standardWords n (bitsOf content) ∧
            Codebook.standard.inflate settings.maxOutput content n = .ok outcome.output ∧
            (s!"INFO Block ended after {outcome.output.length} of {n} requested bytes" ∈
                outcome.shownLog ↔
              outcome.output.length < n)) ∧
      (outcome.exitCode ≠ 0 → outcome.exitCode = 1 ∧ outcome.output = []) ∧
      ∀ complaint, outcome.complaint = some complaint ↔ InflateFault files arguments complaint := by
  intro outcome
  have hready : ∀ block length more n settings content, arguments = block :: length :: more →
      InflateReady files block length more n settings content →
      outcome.complaint = none ∧ outcome.output = segment standardWords n (bitsOf content) := by
    rintro block length more n settings content rfl hready
    have hrun : outcome = _ := hready.run_eq stamp
    rw [hrun]
    exact ⟨rfl, rfl⟩
  refine ⟨⟨fun hexit => ?_, ?_⟩, ?_, fun hexit => ?_, fun complaint => ⟨fun hcomplaint => ?_, ?_⟩⟩
  · refine (exists_ready_or_fault files arguments).resolve_right ?_
    rintro ⟨complaint, hfault⟩
    have hone : outcome.exitCode = 1 := (hfault.refused stamp).1.exitCode
    omega
  · rintro ⟨block, length, more, n, settings, content, harguments, hneeds⟩
    rw [Outcome.exitCode, (hready _ _ _ _ _ _ harguments hneeds).1]
    rfl
  · intro block length more n settings content harguments hneeds
    obtain ⟨-, houtput⟩ := hready _ _ _ _ _ _ harguments hneeds
    refine ⟨houtput, ?_, ?_⟩
    · exact Codebook.inflate_eq_ok Codebook.ofWords_standardWords hneeds.admitted houtput.symm
    · subst harguments
      exact hneeds.mem_shownLog_iff stamp
  · obtain ⟨block, length, more, n, settings, content, harguments, hneeds⟩ | ⟨complaint, hfault⟩ :=
      exists_ready_or_fault files arguments
    · rw [Outcome.exitCode, (hready _ _ _ _ _ _ harguments hneeds).1] at hexit
      exact absurd rfl hexit
    · obtain ⟨hexit, houtput⟩ := (hfault.refused stamp).1
      exact ⟨hexit, houtput⟩
  · obtain ⟨block, length, more, n, settings, content, harguments, hneeds⟩ | ⟨first, hfault⟩ :=
      exists_ready_or_fault files arguments
    · rw [(hready _ _ _ _ _ _ harguments hneeds).1] at hcomplaint
      cases hcomplaint
    · have hfirst : outcome.complaint = some first := (hfault.refused stamp).2
      rw [hfirst] at hcomplaint
      cases hcomplaint
      exact hfault
  · exact fun hfault => (hfault.refused stamp).2

/-- Of ten bytes requested there are six. A number of too many digits is complained about before
settings that are not there, and those before the limit. A file that sets the limit to nine admits
nine bytes and no more. -/
theorem run_inflate_six_of_ten :
    let limits := "[huffman]\nmax_output_len = 9\n"
    let files : Files := fun path =>
      if path = "block" then .ok (.file [0x97, 0x70])
      else if path = "limits" then .ok (.file (utf8Bytes limits))
      else .error .notFound
    let outcome := run "now" files ["inflate", "block", "+010"]
    let tooLarge := run "now" files ["inflate", "block", "18446744073709551616", "nowhere"]
    let overLimit := run "now" files ["inflate", "block", "65536"]
    let admitted := run "now" files ["inflate", "block", "9", "limits"]
    let refused := run "now" files ["inflate", "block", "10", "limits"]
    InflateReady files "block" "+010" [] 10 {} [0x97, 0x70] ∧
      outcome.exitCode = 0 ∧ outcome.output = [0x02, 0x03, 0x04, 0x50, 0x00, 0x00] ∧
      "INFO Block ended after 6 of 10 requested bytes" ∈ outcome.shownLog ∧
      tooLarge.exitCode = 1 ∧
      tooLarge.complaint = some ⟨"output-length must be a non-negative integer",
        ["number too large to fit in target type"]⟩ ∧
      overLimit.complaint = some
        ⟨"Invalid argument: requested output length 65536 exceeds maximum 65535", []⟩ ∧
      InflateReady files "block" "9" ["limits"] 9 { maxOutput := 9 } [0x97, 0x70] ∧
      admitted.exitCode = 0 ∧ admitted.output = [0x02, 0x03, 0x04, 0x50, 0x00, 0x00] ∧
      "INFO Block ended after 6 of 9 requested bytes" ∈ admitted.shownLog ∧
      refused.exitCode = 1 ∧
      refused.complaint = some
        ⟨"Invalid argument: requested output length 10 exceeds maximum 9", []⟩ := by
  intro limits files outcome tooLarge overLimit admitted refused
  have hblock : files.read "block" = .ok [0x97, 0x70] := rfl
  have htext : String.ofList (Toml.PlainSection.text ⟨"huffman", [("max_output_len", .number 9)]⟩) =
      limits := by
    decide +kernel
  have hlimits : Settings.InForce files (some "limits") { maxOutput := 9 } :=
    ⟨limits, rfl, htext ▸ Settings.ofText_maxOutput (by decide) (by decide)⟩
  have hready : InflateReady files "block" "+010" [] 10 {} [0x97, 0x70] :=
    ⟨numeral_eq_ok_iff.mp (by decide), rfl, hblock, by decide⟩
  have hnine : InflateReady files "block" "9" ["limits"] 9 { maxOutput := 9 } [0x97, 0x70] :=
    ⟨numeral_eq_ok_iff.mp (by decide), hlimits, hblock, by decide⟩
  obtain ⟨hexit, hwork, -, -⟩ := run_inflate "now" files ["block", "+010"]
  obtain ⟨-, -, hrefused, htooLarge⟩ :=
    run_inflate "now" files ["block", "18446744073709551616", "nowhere"]
  obtain ⟨-, -, -, hoverLimit⟩ := run_inflate "now" files ["block", "65536"]
  obtain ⟨hexitNine, hworkNine, -, -⟩ := run_inflate "now" files ["block", "9", "limits"]
  obtain ⟨-, -, hrefusedTen, hten⟩ := run_inflate "now" files ["block", "10", "limits"]
  obtain ⟨houtput, -, hlog⟩ := hwork "block" "+010" [] 10 {} [0x97, 0x70] rfl hready
  obtain ⟨houtputNine, -, hlogNine⟩ :=
    hworkNine "block" "9" ["limits"] 9 { maxOutput := 9 } [0x97, 0x70] rfl hnine
  have hbytes : segment standardWords 10 (bitsOf [0x97, 0x70]) =
      [0x02, 0x03, 0x04, 0x50, 0x00, 0x00] := by
    decide +kernel
  have hbytesNine : segment standardWords 9 (bitsOf [0x97, 0x70]) =
      [0x02, 0x03, 0x04, 0x50, 0x00, 0x00] := by
    decide +kernel
  have hsix : outcome.output = [0x02, 0x03, 0x04, 0x50, 0x00, 0x00] := houtput.trans hbytes
  have hlarge : tooLarge.complaint = some ⟨"output-length must be a non-negative integer",
      ["number too large to fit in target type"]⟩ :=
    (htooLarge _).mpr (.badLength "block" ["nowhere"] (e := .tooLarge)
      (numeral_eq_tooLarge_iff.mp (by decide)))
  have hlimit : overLimit.complaint = some
      ⟨"Invalid argument: requested output length 65536 exceeds maximum 65535", []⟩ :=
    (hoverLimit _).mpr (@InflateFault.overLimit files "block" "65536" [] 65536 {} [0x97, 0x70]
      (numeral_eq_ok_iff.mp (by decide)) rfl hblock (by decide))
  have habove : refused.complaint = some
      ⟨"Invalid argument: requested output length 10 exceeds maximum 9", []⟩ :=
    (hten _).mpr (@InflateFault.overLimit files "block" "10" ["limits"] 10 { maxOutput := 9 }
      [0x97, 0x70] (numeral_eq_ok_iff.mp (by decide)) hlimits hblock (by decide))
  refine ⟨hready, hexit.mpr ⟨_, _, _, _, _, _, rfl, hready⟩, hsix, ?_, ?_, hlarge, hlimit, hnine,
    hexitNine.mpr ⟨_, _, _, _, _, _, rfl, hnine⟩, houtputNine.trans hbytesNine, ?_, ?_, habove⟩
  · rw [houtput, hbytes] at hlog
    exact hlog.mpr (by decide)
  · exact (hrefused (Outcome.exitCode_ne_zero hlarge)).1
  · rw [houtputNine, hbytesNine] at hlogNine
    exact hlogNine.mpr (by decide)
  · exact (hrefusedTen (Outcome.exitCode_ne_zero habove)).1

end FlightLink
