import FlightLink.Proofs.Records

/-!
# Reading JSON objects

A reader for JSON objects of the kind that records are: no blanks, no values but texts and whole
numbers, and no text with a character that would have to be escaped. It knows nothing of the fields
that a record has. A part of the object is read off the front of the text, and what is read is given
with the rest of the text. What `jsonObject` writes is read back as the same fields.
-/

namespace FlightLink

/-- A value of a JSON object. -/
inductive JsonValue where
  /-- A text. -/
  | text (content : List Char)
  /-- A number. -/
  | number (n : Nat)
  deriving DecidableEq, Repr

/-- A field of a JSON object: its name and its value. -/
abbrev JsonField := String × JsonValue

/-! ### The reader -/

/-- A character that stands for itself in a text. -/
def IsPlain (c : Char) : Prop := 0x20 ≤ c.toNat ∧ c ≠ '"' ∧ c ≠ '\\'

instance (c : Char) : Decidable (IsPlain c) := inferInstanceAs (Decidable (_ ∧ _ ∧ _))

/-- A text that is written without escapes. -/
def PlainText (text : List Char) : Prop := ∀ c ∈ text, IsPlain c

instance (text : List Char) : Decidable (PlainText text) := List.decidableBAll IsPlain text

/-- Reads a quoted text. -/
def readText? : List Char → Option (List Char × List Char)
  | '"' :: rest =>
    match rest.dropWhile (IsPlain ·) with
    | '"' :: behind => some (rest.takeWhile (IsPlain ·), behind)
    | _ => none
  | _ => none

/-- Reads a number without superfluous zeros in front. -/
def readNumber? (text : List Char) : Option (Nat × List Char) :=
  let digits := text.takeWhile Char.isDigit
  let n := Nat.ofDigitChars 10 digits 0
  if digits = decimal n then some (n, text.dropWhile Char.isDigit) else none

/-- Reads a value. -/
def readValue? (text : List Char) : Option (JsonValue × List Char) :=
  match readText? text with
  | some (content, rest) => some (.text content, rest)
  | none => (readNumber? text).map fun (n, rest) => (.number n, rest)

/-- Reads a field. -/
def readField? (text : List Char) : Option (JsonField × List Char) :=
  match readText? text with
  | some (name, ':' :: rest) =>
    (readValue? rest).map fun (value, rest) => ((String.ofList name, value), rest)
  | _ => none

/-- Reads fields with commas between them, up to the end of the object. -/
def readFields? (text : List Char) : Option (List JsonField) :=
  match readField? text with
  | some (field, ['\x7d']) => some [field]
  | some (field, ',' :: rest) =>
    -- The field was taken off the text, so less is left.
    if rest.length < text.length then (readFields? rest).map (field :: ·) else none
  | _ => none
  termination_by text.length

/-- Reads a JSON object that has at least one field and nothing behind it. -/
def readObject? : List Char → Option (List JsonField)
  | '\x7b' :: rest => readFields? rest
  | _ => none

/-! ### What was written is read back -/

namespace JsonValue

/-- The value as it is written. -/
def written : JsonValue → List Char
  | text content => quoted content
  | number n => decimal n

/-- Whether the value can be written without escapes. -/
def IsPlain : JsonValue → Prop
  | text content => PlainText content
  | number _ => True

end JsonValue

/-- The field as it is written. -/
def writtenField (field : JsonField) : List Char := jsonField field.1 field.2.written

/-- A run of characters is cut off where it ends. -/
theorem takeWhile_append_cons {p : Char → Bool} {run : List Char} (hrun : ∀ c ∈ run, p c = true)
    {c : Char} (hc : p c = false) (rest : List Char) :
    (run ++ c :: rest).takeWhile p = run ∧ (run ++ c :: rest).dropWhile p = c :: rest := by
  rw [List.takeWhile_append_of_pos hrun, List.dropWhile_append_of_pos hrun, List.takeWhile_cons,
    List.dropWhile_cons, hc]
  exact ⟨List.append_nil run, rfl⟩

/-- Whether a text starts with a character of a kind. -/
def Starts (p : Char → Bool) (s : List Char) : Prop := ∃ c tail, s = c :: tail ∧ p c = true

/-- A text that starts with a character of a kind starts with no other. -/
theorem Starts.append_ne {p : Char → Bool} {s : List Char} (hs : Starts p s) {c : Char}
    (hc : p c = false) (rest r : List Char) : s ++ rest ≠ c :: r := by
  obtain ⟨d, tail, rfl, hd⟩ := hs
  intro hsame
  obtain ⟨rfl, -⟩ := List.cons.inj hsame
  rw [hd] at hc
  cases hc

/-- A kind may be taken for a wider one. -/
theorem Starts.mono {p q : Char → Bool} {s : List Char} (hs : Starts p s)
    (himp : ∀ c, p c = true → q c = true) : Starts q s := by
  obtain ⟨c, tail, hcons, hc⟩ := hs
  exact ⟨c, tail, hcons, himp c hc⟩

/-- A number starts with a digit. -/
theorem starts_decimal (n : Nat) : Starts Char.isDigit (decimal n) := by
  obtain ⟨c, tail, hcons⟩ := List.exists_cons_of_ne_nil (Nat.toDigits_ne_nil : decimal n ≠ [])
  exact ⟨c, tail, hcons, isDigit_of_mem_decimal (hcons ▸ List.mem_cons_self)⟩

/-- A text between quotation marks is read back up to the closing one. -/
theorem readText?_quoted {content : List Char} (hcontent : PlainText content)
    (rest : List Char) : readText? (quoted content ++ rest) = some (content, rest) := by
  have hplain : ∀ c ∈ content, decide (IsPlain c) = true := fun c hc =>
    decide_eq_true (hcontent c hc)
  have hquote : decide (IsPlain '"') = false := by decide
  obtain ⟨htake, hdrop⟩ := takeWhile_append_cons hplain hquote rest
  have hquoted : quoted content ++ rest = '"' :: (content ++ '"' :: rest) := by
    rw [quoted, List.append_assoc]
    rfl
  rw [hquoted]
  simp only [readText?, htake, hdrop]

/-- A number is read back up to the character that ends its digits. -/
theorem readNumber?_decimal (n : Nat) {c : Char} (hc : c.isDigit = false) (rest : List Char) :
    readNumber? (decimal n ++ c :: rest) = some (n, c :: rest) := by
  have hdigits : ∀ d ∈ decimal n, d.isDigit = true := fun _ hd => isDigit_of_mem_decimal hd
  obtain ⟨htake, hdrop⟩ := takeWhile_append_cons hdigits hc rest
  have hvalue : Nat.ofDigitChars 10 (decimal n) 0 = n :=
    Nat.ofDigitChars_toDigits (by decide) (Nat.le_refl 10)
  simp only [readNumber?, htake, hdrop, hvalue, if_true]

/-- A number is not taken for a text. -/
theorem readText?_decimal (n : Nat) (rest : List Char) : readText? (decimal n ++ rest) = none := by
  rw [readText?]
  exact fun r => (starts_decimal n).append_ne (by decide) _ r

/-- A value is read back, if no digit follows it. -/
theorem readValue?_written {value : JsonValue} (hvalue : value.IsPlain) {c : Char}
    (hc : c.isDigit = false) (rest : List Char) :
    readValue? (value.written ++ c :: rest) = some (value, c :: rest) := by
  cases value with
  | text content => simp only [JsonValue.written, readValue?, readText?_quoted hvalue]
  | number n =>
    simp only [JsonValue.written, readValue?, readText?_decimal, readNumber?_decimal n hc,
      Option.map_some]

/-- Whether the field can be written without escapes. -/
def FieldIsPlain (field : JsonField) : Prop :=
  PlainText field.1.toList ∧ field.2.IsPlain

/-- A field is read back, if no digit follows it. -/
theorem readField?_written {field : JsonField} (hfield : FieldIsPlain field) {c : Char}
    (hc : c.isDigit = false) (rest : List Char) :
    readField? (writtenField field ++ c :: rest) = some (field, c :: rest) := by
  obtain ⟨name, value⟩ := field
  obtain ⟨hname, hvalue⟩ := hfield
  have hwritten : writtenField (name, value) ++ c :: rest =
      quoted name.toList ++ ':' :: (value.written ++ c :: rest) := by
    rw [writtenField, jsonField, List.append_assoc, List.cons_append]
  rw [hwritten, readField?, readText?_quoted hname]
  simp only [readValue?_written hvalue hc, Option.map_some, String.ofList_toList]

/-- Fields with commas between them are read back, up to the brace that ends the object. -/
theorem readFields?_written {field : JsonField} {fields : List JsonField}
    (hfields : ∀ f ∈ field :: fields, FieldIsPlain f) :
    readFields? ((((field :: fields).map writtenField).intersperse [',']).flatten ++ ['\x7d']) =
      some (field :: fields) := by
  induction fields generalizing field with
  | nil =>
    have hread := readField?_written (hfields field List.mem_cons_self) (c := '\x7d') (by decide) []
    rw [readFields?]
    simp only [List.map_cons, List.map_nil, List.intersperse_singleton, List.flatten_singleton,
      hread]
  | cons second fields ih =>
    obtain ⟨hfield, hfields⟩ := List.forall_mem_cons.mp hfields
    let behind := (((second :: fields).map writtenField).intersperse [',']).flatten ++ ['\x7d']
    have htext : (((field :: second :: fields).map writtenField).intersperse [',']).flatten ++
        ['\x7d'] = writtenField field ++ ',' :: behind := by
      simp only [behind, List.map_cons, List.intersperse_cons_cons, List.flatten_cons,
        List.append_assoc, List.cons_append, List.nil_append]
    have hlength : (writtenField field ++ ',' :: behind).length =
        (writtenField field).length + (behind.length + 1) := List.length_append
    have hshorter : behind.length < (writtenField field ++ ',' :: behind).length := by omega
    rw [htext, readFields?, readField?_written hfield (by decide)]
    simp only [if_pos hshorter]
    rw [ih hfields]
    rfl

/-- An object is read back as the fields that were written. -/
theorem readObject?_jsonObject {fields : List JsonField} (hne : fields ≠ [])
    (hfields : ∀ field ∈ fields, FieldIsPlain field) :
    readObject? (jsonObject (fields.map writtenField)) = some fields := by
  cases fields with
  | nil => exact absurd rfl hne
  | cons field fields => exact readFields?_written hfields

end FlightLink
