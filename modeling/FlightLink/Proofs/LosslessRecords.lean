import FlightLink.Proofs.BoundedSinks
import FlightLink.Proofs.JsonReading

/-!
# Records hold all of a frame

The record of a frame is a JSON object. Its version, direction and code and its payload in
hexadecimal make up the frame again, so a sink that takes everything is left with all frames, one to
each line. No field holds a line break, so the lines are where the line breaks are, and frames can
be told apart by them whatever the times of their records are.
-/

namespace FlightLink

/-! ### Reading a frame -/

/-- The format with a number. -/
def Version.ofNumber? (n : Nat) : Option Version :=
  if n = Version.v1.number then some .v1
  else if n = Version.v2.number then some .v2
  else none

/-- The direction that a text of one character stands for. -/
def Direction.ofText? (content : List Char) : Option Direction :=
  if content = [Direction.request.toChar] then some .request
  else if content = [Direction.response.toChar] then some .response
  else if content = [Direction.refusal.toChar] then some .refusal
  else none

/-- The value of a lowercase hexadecimal digit. -/
def hexValue? (c : Char) : Option Nat := (List.range 16).find? fun n => n.digitChar = c

/-- The bytes of a lowercase hexadecimal text. -/
def ofHexText? : List Char → Option Bytes
  | [] => some []
  | [_] => none
  | high :: low :: rest => do
    let high ← hexValue? high
    let low ← hexValue? low
    let data ← ofHexText? rest
    return UInt8.ofNat (16 * high + low) :: data

/-- The number in a field. -/
def numberOf? (fields : List JsonField) (name : String) : Option Nat :=
  match fields.lookup name with
  | some (.number n) => some n
  | _ => none

/-- The text in a field. -/
def textOf? (fields : List JsonField) (name : String) : Option (List Char) :=
  match fields.lookup name with
  | some (.text content) => some content
  | _ => none

/-- The frame with the version, the direction, the code and the payload in the fields. -/
def Frame.ofFields? (fields : List JsonField) : Option Frame := do
  let version ← numberOf? fields "version" >>= Version.ofNumber?
  let direction ← textOf? fields "direction" >>= Direction.ofText?
  let code ← numberOf? fields "code"
  let payload ← textOf? fields "payload" >>= ofHexText?
  if code < UInt16.size then some ⟨version, direction, UInt16.ofNat code, payload⟩ else none

/-- The text of bytes that are ASCII characters. -/
def asciiText (data : Bytes) : List Char := data.map fun b => Char.ofNat b.toNat

/-- Reads the frame of a record. -/
def readRecord? (data : Bytes) : Option Frame := readObject? (asciiText data) >>= Frame.ofFields?

/-- Reads the frames of records, one to each line, that are all ended by line breaks. -/
def readRecords? (output : Bytes) : Option (List Frame) :=
  let lines := output.splitOn 10
  if lines.getLast? = some [] then lines.dropLast.mapM readRecord? else none

/-! ### Fields -/

/-- A version is read back from its number. -/
@[simp] theorem Version.ofNumber?_number (v : Version) : Version.ofNumber? v.number = some v := by
  cases v <;> rfl

/-- A direction is read back from its character. -/
@[simp] theorem Direction.ofText?_toChar (d : Direction) :
    Direction.ofText? [d.toChar] = some d := by
  cases d <;> rfl

/-- A hexadecimal digit is read back. -/
theorem hexValue?_digitChar {n : Nat} (hn : n < 16) : hexValue? n.digitChar = some n := by
  have hall : ∀ n < 16, hexValue? n.digitChar = some n := by decide
  exact hall n hn

/-- Hexadecimal text is read back. -/
theorem ofHexText?_hexText (data : Bytes) : ofHexText? (hexText data) = some data := by
  induction data with
  | nil => rfl
  | cons b data ih =>
    have hb := b.toNat_lt
    have hhigh : hexValue? (b.toNat / 16).digitChar = some (b.toNat / 16) :=
      hexValue?_digitChar (by omega)
    have hlow : hexValue? (b.toNat % 16).digitChar = some (b.toNat % 16) :=
      hexValue?_digitChar (by omega)
    have hbyte : UInt8.ofNat (16 * (b.toNat / 16) + b.toNat % 16) = b := by
      rw [Nat.div_add_mod, UInt8.ofNat_toNat]
    have htext : hexText (b :: data) =
        (b.toNat / 16).digitChar :: (b.toNat % 16).digitChar :: hexText data := rfl
    rw [htext, ofHexText?, hhigh, hlow, ih]
    exact congrArg (fun b => some (b :: data)) hbyte

/-- The fields of a record, in their order. -/
def Frame.fields (stamp : String) (f : Frame) : List JsonField :=
  [("timestamp", .text stamp.toList), ("version", .number f.version.number),
    ("direction", .text [f.direction.toChar]), ("code", .number f.code.toNat),
    ("payload_len", .number f.payload.length), ("payload", .text (hexText f.payload))]

/-- The names of the fields of a record, in their order. -/
def recordNames : List String :=
  ["timestamp", "version", "direction", "code", "payload_len", "payload"]

/-- The fields of any record have the same names, in the same order. -/
theorem Frame.names_fields (stamp : String) (f : Frame) :
    (f.fields stamp).map Prod.fst = recordNames := rfl

/-- A record is the object with these fields. -/
theorem Frame.record_eq (stamp : String) (f : Frame) :
    f.record stamp = jsonObject ((f.fields stamp).map writtenField) := rfl

/-- The fields of a record make up its frame. -/
theorem Frame.ofFields?_fields (stamp : String) (f : Frame) :
    Frame.ofFields? (f.fields stamp) = some f := by
  have hversion : numberOf? (f.fields stamp) "version" = some f.version.number := rfl
  have hdirection : textOf? (f.fields stamp) "direction" = some [f.direction.toChar] := rfl
  have hcode : numberOf? (f.fields stamp) "code" = some f.code.toNat := rfl
  have hpayload : textOf? (f.fields stamp) "payload" = some (hexText f.payload) := rfl
  have hsize : f.code.toNat < UInt16.size := f.code.toNat_lt
  simp only [Frame.ofFields?, hversion, hdirection, hcode, hpayload, Option.bind_eq_bind,
    Option.bind_some, Version.ofNumber?_number, Direction.ofText?_toChar, ofHexText?_hexText,
    if_pos hsize, UInt16.ofNat_toNat]

/-! ### Characters that stand for themselves -/

/-- Digits need no escape. -/
theorem isPlain_of_isDigit {c : Char} (hdigit : c.isDigit = true) : IsPlain c := by
  refine ⟨(isPrinted_of_isDigit hdigit).1, ?_, ?_⟩
  · rintro rfl
    exact absurd hdigit (by decide)
  · rintro rfl
    exact absurd hdigit (by decide)

/-- A time needs no escape. -/
theorem Stamp.plain_text (stamp : Stamp) : PlainText stamp.text.toList := by
  intro c hc
  rcases stamp.isDigit_or_mem_blankTime hc with hdigit | hmem
  · exact isPlain_of_isDigit hdigit
  · exact (show PlainText blankTime.toList by decide) c hmem

/-- Nothing in a record has to be escaped. -/
theorem Frame.fieldIsPlain (stamp : Stamp) (f : Frame) :
    ∀ field ∈ f.fields stamp.text, FieldIsPlain field := by
  have hnames : ∀ name ∈ recordNames, PlainText name.toList := by decide
  have hdirection : PlainText [f.direction.toChar] := by cases f.direction <;> decide
  have hvalues : ∀ value ∈ (f.fields stamp.text).map Prod.snd, value.IsPlain := by
    simp only [fields, List.map_cons, List.map_nil, List.forall_mem_cons]
    exact ⟨stamp.plain_text, trivial, hdirection, trivial, trivial,
      forall_mem_hexText (by decide) f.payload, List.forall_mem_nil _⟩
  intro field hfield
  have hname : field.1 ∈ recordNames :=
    f.names_fields stamp.text ▸ List.mem_map_of_mem hfield
  exact ⟨hnames _ hname, hvalues _ (List.mem_map_of_mem hfield)⟩

/-! ### Records -/

/-- Printed characters are read back from their bytes. -/
theorem asciiText_asciiBytes {text : List Char} (htext : Printed text) :
    asciiText (asciiBytes text) = text := by
  rw [asciiText, asciiBytes, List.map_map]
  refine (List.map_congr_left fun c hc => ?_).trans (List.map_id text)
  obtain ⟨-, hhigh⟩ := htext c hc
  have hvalue : (UInt8.ofNat c.toNat).toNat = c.toNat :=
    UInt8.toNat_ofNat_of_lt (by simp only [UInt8.size]; omega)
  rw [Function.comp_apply, hvalue, Char.ofNat_toNat, id]

namespace StampedFrame

/-- A record is the object with its fields. -/
theorem asciiText_recordBytes (r : StampedFrame) :
    asciiText r.recordBytes = jsonObject ((r.frame.fields r.stamp.text).map writtenField) := by
  have hprinted := r.frame.printed_record r.stamp.printed_text
  rw [recordBytes, Frame.recordBytes, asciiText_asciiBytes hprinted, Frame.record_eq]

/-- A record is read as the object with its fields. -/
theorem readObject?_recordBytes (r : StampedFrame) :
    readObject? (asciiText r.recordBytes) = some (r.frame.fields r.stamp.text) := by
  rw [r.asciiText_recordBytes]
  exact readObject?_jsonObject (by rintro ⟨⟩) (r.frame.fieldIsPlain r.stamp)

/-- A record is read as its frame. -/
theorem readRecord?_recordBytes (r : StampedFrame) : readRecord? r.recordBytes = some r.frame := by
  rw [readRecord?, r.readObject?_recordBytes]
  exact r.frame.ofFields?_fields r.stamp.text

end StampedFrame

/-- Lines have one line break each. -/
theorem count_lineBreaks (records : List StampedFrame) :
    (records.flatMap StampedFrame.line).count 10 = records.length := by
  induction records with
  | nil => rfl
  | cons r records ih =>
    rw [List.flatMap_cons, List.count_append, r.count_line, ih, List.length_cons, Nat.add_comm]

/-- Lines are split where records end. -/
theorem splitOn_flatMap_line (records : List StampedFrame) :
    (records.flatMap StampedFrame.line).splitOn 10 =
      records.map StampedFrame.recordBytes ++ [[]] := by
  induction records with
  | nil => rfl
  | cons r records ih =>
    have hline : (r :: records).flatMap StampedFrame.line =
        r.recordBytes ++ 10 :: records.flatMap StampedFrame.line := by
      rw [List.flatMap_cons, r.line_eq, List.append_assoc]
      rfl
    have hplain : ∀ b ∈ r.recordBytes, (b == 10) = false := fun b hb =>
      beq_false_of_ne fun hbreak => r.lineBreak_notMem (hbreak ▸ hb)
    rw [hline, List.splitOn, List.splitOnP_append_cons_of_forall_mem hplain 10 rfl, List.map_cons,
      List.cons_append, ← ih, List.splitOn]

/-- Records are read back one by one, as the frames that they are about. -/
theorem mapM_readRecord? (records : List StampedFrame) :
    (records.map StampedFrame.recordBytes).mapM readRecord? =
      some (records.map StampedFrame.frame) := by
  induction records with
  | nil => rfl
  | cons r records ih =>
    rw [List.map_cons, List.mapM_cons, r.readRecord?_recordBytes, ih]
    rfl

/-- Lines are read as their frames. -/
theorem readRecords?_flatMap_line (records : List StampedFrame) :
    readRecords? (records.flatMap StampedFrame.line) =
      some (records.map StampedFrame.frame) := by
  rw [readRecords?, splitOn_flatMap_line]
  simp only [List.getLast?_concat, List.dropLast_concat, if_true, mapM_readRecord?]

/-- A time of which nothing is known. -/
def blankStamp : Stamp := ⟨blankTime, by decide⟩

/-- Lines are read as their frames also if their times are blanked. -/
theorem readRecords?_flatMap_blankLine (records : List StampedFrame) :
    readRecords? (records.flatMap StampedFrame.blankLine) =
      some (records.map StampedFrame.frame) := by
  have hblank := readRecords?_flatMap_line
    (records.map fun r => ⟨blankStamp, r.frame⟩)
  rw [List.flatMap_map, List.map_map] at hblank
  exact hblank

/-! ### Sinks that take everything -/

/-- A new sink that takes everything, in one write or in several. -/
structure Sink.TakesAll (s : Sink) : Prop where
  /-- A write may have some size. -/
  perWrite : s.perWrite ≠ some 0
  /-- There is always room. -/
  room : s.room = none
  /-- No byte was taken. -/
  taken : s.taken = #[]

namespace Sink.TakesAll

variable {s : Sink}

/-- What a run leaves in the sink. -/
theorem taken_writeStamped (hs : s.TakesAll) (records : List StampedFrame) :
    ((RecordWriter.mk s 0).writeStamped records).1.sink.taken.toList =
      records.flatMap StampedFrame.line := by
  rw [RecordWriter.writeStamped_fst hs.perWrite, toList_taken_take, fitting_of_unlimited hs.room,
    hs.taken]
  rfl

/-- With the times blanked, a run leaves the lines at no known time. -/
theorem blankTimes_writeStamped (hs : s.TakesAll) (records : List StampedFrame) :
    blankTimes ((RecordWriter.mk s 0).writeStamped records).1.sink.taken.toList =
      records.flatMap StampedFrame.blankLine := by
  rw [hs.taken_writeStamped, blankTimes_flatMap_line]

/-- What a run counts. -/
theorem records_writeStamped (hs : s.TakesAll) (records : List StampedFrame) :
    ((RecordWriter.mk s 0).writeStamped records).1.records = records.length := by
  rw [RecordWriter.writeStamped_fst hs.perWrite, fitting_of_unlimited hs.room, count_lineBreaks]
  exact Nat.zero_add _

/-- Every write succeeds. -/
theorem getElem?_writeStamped (hs : s.TakesAll) (records : List StampedFrame) (i : Nat) :
    ((RecordWriter.mk s 0).writeStamped records).2[i]? =
      records[i]?.map fun _ => (i + 1, .ok ()) := by
  rw [RecordWriter.getElem?_writeStamped_eq hs.perWrite]
  cases hr : records[i]? with
  | none => rfl
  | some r =>
    have hlength : (records.take (i + 1)).length = i + 1 := by
      have hi := (List.getElem?_eq_some_iff.mp hr).1
      rw [List.length_take]
      omega
    rw [Option.map_some, Option.map_some, fitting_of_unlimited hs.room, if_pos rfl,
      count_lineBreaks, hlength, Nat.zero_add]

end Sink.TakesAll

/-- Records are written in turn to a sink that takes everything. All writes succeed. There is one
line to each frame, ended by the only line break in it, and as many records are counted. Each line
holds a JSON object in which nothing is escaped. Its version, direction, code and hexadecimal
payload make up the frame again, its payload length is that of the payload, and the hexadecimal text
is twice as long. So all frames can be read back from what the sink has taken, also when the times
are blanked, and where the same is left then, the same frames were written. -/
theorem records_lossless {sink : Sink} (hsink : sink.TakesAll) (records : List StampedFrame) :
    let run := (RecordWriter.mk sink 0).writeStamped records
    let output := run.1.sink.taken.toList
    let frames := records.map StampedFrame.frame
    run.2.length = records.length ∧
      (∀ i answer, run.2[i]? = some answer → answer = (i + 1, .ok ())) ∧
      output = records.flatMap StampedFrame.line ∧
      output.splitOn 10 = records.map StampedFrame.recordBytes ++ [[]] ∧
      run.1.records = records.length ∧ run.1.records = output.count 10 ∧
      (∀ r ∈ records, r.line = r.recordBytes ++ [10] ∧ 10 ∉ r.recordBytes ∧
        ∃ fields, asciiText r.recordBytes = jsonObject (fields.map writtenField) ∧
          (∀ field ∈ fields, FieldIsPlain field) ∧
          readObject? (asciiText r.recordBytes) = some fields ∧
          fields.map Prod.fst = recordNames ∧ Frame.ofFields? fields = some r.frame ∧
          numberOf? fields "payload_len" = some r.frame.payload.length ∧
          ∃ hex, textOf? fields "payload" = some hex ∧
            hex.length = 2 * r.frame.payload.length) ∧
      readRecords? output = some frames ∧ readRecords? (blankTimes output) = some frames ∧
      ∀ sink' : Sink, sink'.TakesAll → ∀ records' : List StampedFrame,
        let output' := ((RecordWriter.mk sink' 0).writeStamped records').1.sink.taken.toList
        blankTimes output = blankTimes output' →
          frames = records'.map StampedFrame.frame := by
  intro run output frames
  have houtput : output = records.flatMap StampedFrame.line := hsink.taken_writeStamped records
  have hrecords : run.1.records = records.length := hsink.records_writeStamped records
  have hblank : readRecords? (blankTimes output) = some frames := by
    rw [← readRecords?_flatMap_blankLine]
    exact congrArg readRecords? (hsink.blankTimes_writeStamped records)
  refine ⟨RecordWriter.length_writeStamped _ records, ?_, houtput, ?_, hrecords, ?_, ?_, ?_, hblank,
    ?_⟩
  · intro i answer hanswer
    rw [hsink.getElem?_writeStamped, Option.map_eq_some_iff] at hanswer
    obtain ⟨r, -, rfl⟩ := hanswer
    rfl
  · rw [houtput, splitOn_flatMap_line]
  · rw [hrecords, houtput, count_lineBreaks]
  · intro r _
    exact ⟨r.line_eq, r.lineBreak_notMem, r.frame.fields r.stamp.text, r.asciiText_recordBytes,
      r.frame.fieldIsPlain r.stamp, r.readObject?_recordBytes, r.frame.names_fields _,
      r.frame.ofFields?_fields _, rfl, hexText r.frame.payload, rfl,
      length_hexText r.frame.payload⟩
  · rw [houtput, readRecords?_flatMap_line]
  · intro sink' hsink' records' output' hsame
    have hblank' : blankTimes output' = records'.flatMap StampedFrame.blankLine :=
      hsink'.blankTimes_writeStamped records'
    rw [hsame, hblank', readRecords?_flatMap_blankLine] at hblank
    exact (Option.some.inj hblank).symm

/-- The payload of the second frame is a quotation mark, a line break and a backslash. One sink
takes three bytes at each write, and the other all at once, at another time. -/
theorem records_lossless_line_break :
    let frames : List Frame := [⟨.v1, .request, 1, []⟩, ⟨.v2, .refusal, 0xFFFF, [0x22, 0x0A, 0x5C]⟩]
    let morning : Stamp := ⟨"2024-05-06T07:08:09.123Z", by decide⟩
    let evening : Stamp := ⟨"2025-06-07T18:09:10.456Z", by decide⟩
    let narrow : Sink := { perWrite := some 3 }
    let run := (RecordWriter.mk narrow 0).writeStamped (frames.map (StampedFrame.mk morning))
    let run' := (RecordWriter.mk {} 0).writeStamped (frames.map (StampedFrame.mk evening))
    narrow.TakesAll ∧ Sink.TakesAll {} ∧ run.1.records = 2 ∧
      run.1.sink.taken.toList.count 10 = 2 ∧
      readRecords? run.1.sink.taken.toList = some frames ∧
      blankTimes run.1.sink.taken.toList = blankTimes run'.1.sink.taken.toList ∧
      (frames.map (StampedFrame.mk morning)).map StampedFrame.frame =
        (frames.map (StampedFrame.mk evening)).map StampedFrame.frame := by
  intro frames morning evening narrow run run'
  have hnarrow : narrow.TakesAll := ⟨by decide, rfl, rfl⟩
  have hwide : Sink.TakesAll {} := ⟨by decide, rfl, rfl⟩
  obtain ⟨-, -, -, -, hrecords, hbreaks, -, hread, -, hother⟩ :=
    records_lossless hnarrow (frames.map (StampedFrame.mk morning))
  have hsame : blankTimes run.1.sink.taken.toList = blankTimes run'.1.sink.taken.toList := by
    rw [hnarrow.blankTimes_writeStamped, hwide.blankTimes_writeStamped]
    rfl
  exact ⟨hnarrow, hwide, hrecords, hbreaks.symm.trans hrecords, hread, hsame,
    hother {} hwide (frames.map (StampedFrame.mk evening)) hsame⟩

end FlightLink
