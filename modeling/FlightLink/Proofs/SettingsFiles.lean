import FlightLink.Settings.Read

/-!
# Settings in files

Settings are loaded from a path just if it leads to a file, the file holds a text in UTF-8, and the
text holds settings. Otherwise the first of these that fails is reported.
-/

namespace FlightLink

/-! ### Texts in UTF-8 -/

/-- The bytes of a text in UTF-8, one character after the other. -/
def utf8Bytes (text : String) : Bytes := text.toList.flatMap String.utf8EncodeChar

/-- As an array these are the bytes that the text is kept in. -/
theorem toByteArray_eq_utf8Bytes (text : String) :
    text.toByteArray = ⟨(utf8Bytes text).toArray⟩ := by
  rw [← String.utf8Encode_toList]
  exact ByteArray.ext List.data_toByteArray

/-- Bytes are read as a text just if they are its bytes in UTF-8. -/
theorem fromUTF8?_eq_some_iff {data : Bytes} {text : String} :
    String.fromUTF8? ⟨data.toArray⟩ = some text ↔ data = utf8Bytes text := by
  rw [String.fromUTF8?]
  constructor
  · intro hread
    by_cases hvalid : ByteArray.IsValidUTF8 ⟨data.toArray⟩
    · obtain rfl : String.fromUTF8 _ hvalid = text :=
        Option.some.inj ((dif_pos hvalid).symm.trans hread)
      -- The text that is read keeps the bytes it was read from.
      have hkept := toByteArray_eq_utf8Bytes (String.fromUTF8 _ hvalid)
      exact congrArg Array.toList (congrArg ByteArray.data hkept)
    · rw [dif_neg hvalid] at hread
      cases hread
  · rintro rfl
    rw [← toByteArray_eq_utf8Bytes, dif_pos text.isValidUTF8]
    rfl

/-- Bytes are read as no text just if they are not the bytes of any. -/
theorem fromUTF8?_eq_none_iff {data : Bytes} :
    String.fromUTF8? ⟨data.toArray⟩ = none ↔ ∀ text, data ≠ utf8Bytes text := by
  rw [Option.eq_none_iff_forall_ne_some]
  exact forall_congr' fun text => not_congr fromUTF8?_eq_some_iff

/-! ### Loading -/

namespace Settings

variable {files : Files} {path : String}

/-- The path leads to a file with a text that holds the settings. -/
def InFile (files : Files) (path : String) (settings : Settings) : Prop :=
  ∃ text, files path = .ok (.file (utf8Bytes text)) ∧ ofText text = .ok settings

/-- Why there are no settings in what a path leads to. -/
inductive Missing (files : Files) (path : String) : SettingsError → Prop
  /-- The path leads nowhere. -/
  | nowhere {f : Fault} (hpath : files path = .error f) : Missing files path (.fault f)
  /-- The path leads to a directory. -/
  | directory (hpath : files path = .ok .directory) :
    Missing files path (.fault .isADirectory)
  /-- The file holds no text. -/
  | notText {data : Bytes} (hpath : files path = .ok (.file data))
      (htext : ∀ text, data ≠ utf8Bytes text) : Missing files path (.fault .invalidText)
  /-- The text holds no settings. -/
  | refused {text : String} {e : SettingsError} (hpath : files path = .ok (.file (utf8Bytes text)))
      (htext : ofText text = .error e) : Missing files path e

/-- The bytes of a text hold the settings that the text holds. -/
theorem ofBytes_utf8Bytes (text : String) : ofBytes (utf8Bytes text) = ofText text := by
  rw [ofBytes, fromUTF8?_eq_some_iff.mpr rfl]

/-- Settings that are in a file are loaded. -/
theorem InFile.load_eq {settings : Settings} (hin : InFile files path settings) :
    load files path = .ok settings := by
  obtain ⟨text, hpath, htext⟩ := hin
  have hread : files.read path = .ok (utf8Bytes text) := by
    rw [Files.read, hpath]
    rfl
  rw [load, hread, ← htext, ← ofBytes_utf8Bytes]

/-- Where no settings are, the reason is reported. -/
theorem Missing.load_eq {e : SettingsError} (hmissing : Missing files path e) :
    load files path = .error e := by
  cases hmissing with
  | nowhere hpath =>
    rw [load, Files.read, hpath]
    rfl
  | directory hpath =>
    rw [load, Files.read, hpath]
    rfl
  | notText hpath htext =>
    rw [load, Files.read, hpath]
    change ofBytes _ = _
    rw [ofBytes, fromUTF8?_eq_none_iff.mpr htext]
  | refused hpath htext =>
    rw [load, Files.read, hpath, ← htext, ← ofBytes_utf8Bytes]
    rfl

/-- What a path leads to holds settings, or there is a reason why not. -/
theorem inFile_or_missing (files : Files) (path : String) :
    (∃ settings, InFile files path settings) ∨ ∃ e, Missing files path e := by
  cases hpath : files path with
  | error f => exact .inr ⟨_, .nowhere hpath⟩
  | ok entry =>
    cases entry with
    | directory => exact .inr ⟨_, .directory hpath⟩
    | file data =>
      by_cases htext : ∃ text, data = utf8Bytes text
      · obtain ⟨text, rfl⟩ := htext
        cases hsettings : ofText text with
        | error e => exact .inr ⟨e, .refused hpath hsettings⟩
        | ok settings => exact .inl ⟨settings, text, hpath, hsettings⟩
      · exact .inr ⟨_, .notText hpath (not_exists.mp htext)⟩

/-- Settings are loaded just if they are in the file that the path leads to. -/
theorem load_eq_ok_iff {settings : Settings} :
    load files path = .ok settings ↔ InFile files path settings := by
  refine ⟨fun hload => ?_, InFile.load_eq⟩
  obtain ⟨found, hin⟩ | ⟨e, hmissing⟩ := inFile_or_missing files path
  · rw [hin.load_eq] at hload
    cases hload
    exact hin
  · rw [hmissing.load_eq] at hload
    cases hload

/-- Loading fails just with the reason why there are no settings. -/
theorem load_eq_error_iff {e : SettingsError} :
    load files path = .error e ↔ Missing files path e := by
  refine ⟨fun hload => ?_, Missing.load_eq⟩
  obtain ⟨settings, hin⟩ | ⟨reason, hmissing⟩ := inFile_or_missing files path
  · rw [hin.load_eq] at hload
    cases hload
  · rw [hmissing.load_eq] at hload
    cases hload
    exact hmissing

end Settings

end FlightLink
