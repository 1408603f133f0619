import FlightLink.Log
import FlightLink.Record.Writer

/-!
# Records as lines

The line of a frame is spelled out as one text with the values of the frame in it. It ends with its
only line break, and every other character of it is one that ASCII prints, as long as the time it is
stamped with is such a text. A sink without bounds takes the lines of frames one after the other.
-/

namespace FlightLink

/-! ### Characters that are printed -/

/-- A character that ASCII prints. -/
def IsPrinted (c : Char) : Prop := 0x20 ≤ c.toNat ∧ c.toNat < 0x7F

instance (c : Char) : Decidable (IsPrinted c) := inferInstanceAs (Decidable (_ ∧ _))

/-- A text of characters that ASCII prints. -/
def Printed (text : List Char) : Prop := ∀ c ∈ text, IsPrinted c

instance (text : List Char) : Decidable (Printed text) := List.decidableBAll IsPrinted text

/-- Printed characters do not steer a terminal. -/
theorem terminalSafe_of_isPrinted {c : Char} (hc : IsPrinted c) : terminalSafe c = [c] := by
  obtain ⟨hlow, hhigh⟩ := hc
  have hsteering : c ∉ ['\x07', '\x08', '\x0c', '\x1b', '\x7f'] := by
    intro hmem
    simp only [List.mem_cons, List.not_mem_nil, or_false] at hmem
    rcases hmem with rfl | rfl | rfl | rfl | rfl
    · exact absurd hlow (by decide)
    · exact absurd hlow (by decide)
    · exact absurd hlow (by decide)
    · exact absurd hlow (by decide)
    · exact absurd hhigh (by decide)
  have hbeyond : ¬ ('\u0080' ≤ c ∧ c ≤ '\u009f') := by
    rintro ⟨hc, -⟩
    have hvalue : (0x80 : Nat) ≤ c.toNat := hc
    omega
  rw [terminalSafe, if_neg hsteering, if_neg hbeyond]

/-- Digits are printed. -/
theorem isPrinted_of_isDigit {c : Char} (hdigit : c.isDigit = true) : IsPrinted c := by
  obtain ⟨hlow, hhigh⟩ : 48 ≤ c.toNat ∧ c.toNat ≤ 57 := by
    simpa [Char.isDigit, UInt32.le_iff_toNat_le] using hdigit
  exact ⟨by omega, by omega⟩

/-- A number is written in digits. -/
theorem isDigit_of_mem_decimal {n : Nat} {c : Char} (hc : c ∈ decimal n) : c.isDigit = true :=
  Nat.isDigit_of_mem_toDigits (by decide : 0 < 10) (Nat.le_refl 10) hc

/-- A number is written in printed characters. -/
theorem printed_decimal (n : Nat) : Printed (decimal n) := fun _ hc =>
  isPrinted_of_isDigit (isDigit_of_mem_decimal hc)

/-- What holds of the sixteen digits holds of every character of a hexadecimal text. -/
theorem forall_mem_hexText {P : Char → Prop} (hdigits : ∀ n < 16, P n.digitChar) (data : Bytes) :
    ∀ c ∈ hexText data, P c := by
  intro c hc
  obtain ⟨byte, -, hbyte⟩ := List.mem_flatMap.mp hc
  have hlt := byte.toNat_lt
  simp only [byteHex, List.mem_cons, List.not_mem_nil, or_false] at hbyte
  rcases hbyte with rfl | rfl
  · exact hdigits _ (by omega)
  · exact hdigits _ (by omega)

/-- A hexadecimal text is printed. -/
theorem printed_hexText (data : Bytes) : Printed (hexText data) :=
  forall_mem_hexText (by decide) data

namespace Printed

variable {front back text : List Char} {c : Char}

/-- Two printed texts together are one. -/
theorem append (hfront : Printed front) (hback : Printed back) : Printed (front ++ back) :=
  List.forall_mem_append.mpr ⟨hfront, hback⟩

/-- A printed character in front keeps a text printed. -/
theorem cons (hc : IsPrinted c) (htext : Printed text) : Printed (c :: text) :=
  List.forall_mem_cons.mpr ⟨hc, htext⟩

/-- A printed text stands in a log line as it is. -/
theorem flatMap_terminalSafe (htext : Printed text) : text.flatMap terminalSafe = text := by
  induction text with
  | nil => rfl
  | cons c text ih =>
    obtain ⟨hc, htext⟩ := List.forall_mem_cons.mp htext
    rw [List.flatMap_cons, terminalSafe_of_isPrinted hc, ih htext]
    rfl

/-- A printed text has no line break in it. -/
theorem lineBreak_notMem (htext : Printed text) : 10 ∉ asciiBytes text := by
  intro hmem
  obtain ⟨c, hc, hbyte⟩ := List.mem_map.mp hmem
  obtain ⟨hlow, hhigh⟩ := htext c hc
  have hvalue := congrArg UInt8.toNat hbyte
  have hten : (10 : UInt8).toNat = 10 := rfl
  rw [UInt8.toNat_ofNat', Nat.mod_eq_of_lt (by omega), hten] at hvalue
  omega

/-- A printed text stays printed between quotation marks. -/
theorem quoted (htext : Printed text) : Printed (quoted text) :=
  cons (by decide) (htext.append (by decide))

/-- A field is printed if its name and its value are. -/
theorem jsonField {name : String} {value : List Char} (hname : Printed name.toList)
    (hvalue : Printed value) : Printed (jsonField name value) :=
  hname.quoted.append (cons (by decide) hvalue)

/-- An object is printed if its fields are. -/
theorem jsonObject {fields : List (List Char)} (hfields : ∀ field ∈ fields, Printed field) :
    Printed (jsonObject fields) := by
  have hcomma : Printed [','] := by decide
  have hjoined : Printed (fields.intersperse [',']).flatten := by
    intro c hc
    obtain ⟨part, hpart, hc⟩ := List.mem_flatten.mp hc
    -- The fields stand at even places, and commas between them.
    obtain ⟨i, hi⟩ := List.mem_iff_getElem?.mp hpart
    rw [List.getElem?_intersperse] at hi
    split at hi
    · exact hfields part (List.mem_of_getElem? hi) c hc
    split at hi
    · obtain rfl := Option.some.inj hi
      exact hcomma c hc
    · cases hi
  exact cons (by decide) (hjoined.append (by decide))

end Printed

/-! ### Lines -/

/-- The text of a number is its decimal digits. -/
theorem toList_toString_nat (n : Nat) : (toString n).toList = decimal n := by
  simp [decimal, Nat.repr]

namespace Frame

/-- The line of a frame. -/
def lineText (stamp : String) (f : Frame) : String :=
  s!"\x7b\"timestamp\":\"{stamp}\",\"version\":{f.version.number}," ++
    s!"\"direction\":\"{f.direction.toChar}\",\"code\":{f.code.toNat}," ++
    s!"\"payload_len\":{f.payload.length},\"payload\":\"{String.ofList (hexText f.payload)}\"\x7d\n"

/-- The bytes of the line of a frame. -/
def line (stamp : String) (f : Frame) : Bytes := asciiBytes (f.lineText stamp).toList

/-- The line of a frame is its record and a line break. -/
theorem toList_lineText (stamp : String) (f : Frame) :
    (f.lineText stamp).toList = f.record stamp ++ ['\n'] := by
  have hchar : ∀ c : Char, (toString c).toList = [c] := String.toList_singleton
  have hstring : ∀ s : String, toString s = s := fun _ => rfl
  unfold lineText
  simp only [String.toList_append, toList_toString_nat, hchar, hstring, String.toList_ofList,
    record, jsonObject, jsonField, quoted, List.intersperse, List.flatten_cons, List.flatten_nil,
    List.append_assoc, List.cons_append, List.nil_append, List.append_nil]
  simp

/-- The line of a frame is its record with the line break. -/
theorem line_eq (stamp : String) (f : Frame) :
    f.line stamp = f.recordBytes stamp ++ recordBreak := by
  rw [line, toList_lineText, asciiBytes, List.map_append]
  rfl

/-- A record holds printed characters only. -/
theorem printed_record {stamp : String} (hstamp : Printed stamp.toList) (f : Frame) :
    Printed (f.record stamp) := by
  have hdirection : Printed [f.direction.toChar] := by cases f.direction <;> decide
  refine Printed.jsonObject ?_
  simp only [List.forall_mem_cons, List.not_mem_nil, false_implies, implies_true, and_true]
  refine ⟨?_, ?_, ?_, ?_, ?_, ?_⟩
  · exact .jsonField (by decide) hstamp.quoted
  · exact .jsonField (by decide) (printed_decimal _)
  · exact .jsonField (by decide) hdirection.quoted
  · exact .jsonField (by decide) (printed_decimal _)
  · exact .jsonField (by decide) (printed_decimal _)
  · exact .jsonField (by decide) (printed_hexText _).quoted

/-- A line ends with its only line break. -/
theorem count_line {stamp : String} (hstamp : Printed stamp.toList) (f : Frame) :
    (f.line stamp).count 10 = 1 := by
  have hnone : 10 ∉ f.recordBytes stamp := (f.printed_record hstamp).lineBreak_notMem
  rw [line_eq, List.count_append, List.count_eq_zero.mpr hnone]
  rfl

end Frame

/-- The lines of frames have one line break each. -/
theorem count_flatMap_line {stamp : String} (hstamp : Printed stamp.toList)
    (frames : List Frame) : (frames.flatMap (Frame.line stamp)).count 10 = frames.length := by
  induction frames with
  | nil => rfl
  | cons f frames ih =>
    rw [List.flatMap_cons, List.count_append, f.count_line hstamp, ih, List.length_cons,
      Nat.add_comm]

/-! ### Sinks without bounds -/

/-- A sink that takes all it is offered at once. -/
structure Sink.IsUnbounded (s : Sink) : Prop where
  /-- A write may have any size. -/
  perWrite : s.perWrite = none
  /-- There is always room. -/
  room : s.room = none

/-- A sink that has taken some more bytes. -/
def Sink.push (s : Sink) (data : Bytes) : Sink := { s with taken := s.taken ++ data.toArray }

/-- Bytes can be taken at once or one part after the other. -/
theorem Sink.push_push (s : Sink) (front back : Bytes) :
    (s.push front).push back = s.push (front ++ back) := by
  simp [push]

namespace Sink.IsUnbounded

variable {s : Sink}

/-- A sink without bounds stays one. -/
theorem push (hs : s.IsUnbounded) (data : Bytes) : (s.push data).IsUnbounded :=
  ⟨hs.perWrite, hs.room⟩

/-- A sink without bounds takes all that it is offered. -/
theorem writeAll (hs : s.IsUnbounded) (data : Bytes) :
    s.writeAll data = (s.push data, .ok ()) := by
  obtain ⟨hperWrite, hroom⟩ := hs
  have hshare : s.share? = none := by rw [share?, hperWrite, hroom]
  rw [Sink.writeAll]
  split
  · rename_i hdata
    rw [hdata, Sink.push, Array.append_empty]
  · have htake : s.take data = s.push data := by simp [take, Sink.push, hroom]
    rw [hshare, htake]

end Sink.IsUnbounded

namespace RecordWriter

variable {w : RecordWriter}

/-- A writer to a sink without bounds writes the line of a frame. -/
theorem write_of_isUnbounded (hw : w.sink.IsUnbounded) (stamp : String) (f : Frame) :
    w.write stamp f = (⟨w.sink.push (f.line stamp), w.records + 1⟩, .ok ()) := by
  obtain ⟨sink, records⟩ := w
  simp only [write, hw.writeAll, (hw.push _).writeAll, Sink.push_push, ← Frame.line_eq]

/-- The first frame is written, and then the others to the sink that it leaves. -/
theorem writeAll_cons (w : RecordWriter) (stamp : String) (f : Frame) (frames : List Frame) :
    w.writeAll stamp (f :: frames) =
      (((w.write stamp f).1.writeAll stamp frames).1,
        ((w.write stamp f).1.records, (w.write stamp f).2) ::
          ((w.write stamp f).1.writeAll stamp frames).2) := by
  rw [writeAll, gather_cons]
  rfl

/-- A writer to a sink without bounds writes the lines of frames, and counts them. -/
theorem writeAll_of_isUnbounded (hw : w.sink.IsUnbounded) (stamp : String)
    (frames : List Frame) :
    (w.writeAll stamp frames).1 =
      ⟨w.sink.push (frames.flatMap (Frame.line stamp)), w.records + frames.length⟩ := by
  induction frames generalizing w with
  | nil => simp [writeAll, Sink.push]
  | cons f frames ih =>
    have hcount : w.records + 1 + frames.length = w.records + (f :: frames).length := by
      rw [List.length_cons]
      omega
    have hrest := ih (w := ⟨w.sink.push (f.line stamp), w.records + 1⟩) (hw.push _)
    rw [writeAll_cons, write_of_isUnbounded hw, hrest, Sink.push_push, ← List.flatMap_cons, hcount]

end RecordWriter

end FlightLink
