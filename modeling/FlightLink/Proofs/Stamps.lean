import FlightLink.Proofs.Records

/-!
# Times in records

Every record is stamped with the time at which it is written. The times have one form, with digits
at the same places, so the line of a frame is equally long at any time. When the digits of all times
in an output are blanked, lines of the same frame are alike. The digits are found by their columns,
so those of an output that was cut off can be blanked as well.
-/

namespace FlightLink

/-! ### Times -/

/-- The form of a time: RFC 3339 in UTC with milliseconds. Every digit is a zero. -/
def blankTime : String := "0000-00-00T00:00:00.000Z"

/-- Blanks a digit and leaves any other character. -/
def blankDigit (c : Char) : Char := if c.isDigit then '0' else c

/-- The time of a record. -/
structure Stamp where
  /-- The text of the time. -/
  text : String
  /-- All but the digits are where the form has them. -/
  form : text.toList.map blankDigit = blankTime.toList

namespace Stamp

/-- Any time is written in as many characters. -/
theorem length_text (stamp : Stamp) : stamp.text.toList.length = 24 := by
  have hlength := congrArg List.length stamp.form
  rwa [List.length_map] at hlength

/-- All but the digits are characters of the form. -/
theorem isDigit_or_mem_blankTime (stamp : Stamp) {c : Char} (hc : c ∈ stamp.text.toList) :
    c.isDigit = true ∨ c ∈ blankTime.toList := by
  by_cases hdigit : c.isDigit = true
  · exact .inl hdigit
  · have hform : blankDigit c ∈ blankTime.toList := stamp.form ▸ List.mem_map_of_mem hc
    rw [blankDigit, if_neg hdigit] at hform
    exact .inr hform

/-- All characters of a time are printed. -/
theorem printed_text (stamp : Stamp) : Printed stamp.text.toList := by
  intro c hc
  rcases stamp.isDigit_or_mem_blankTime hc with hdigit | hmem
  · exact isPrinted_of_isDigit hdigit
  · exact (show Printed blankTime.toList by decide) c hmem

end Stamp

/-- A frame and the time of its record. -/
structure StampedFrame where
  /-- When the record is written. -/
  stamp : Stamp
  /-- The frame. -/
  frame : Frame

namespace StampedFrame

/-- The record, without its line break. -/
def recordBytes (r : StampedFrame) : Bytes := r.frame.recordBytes r.stamp.text

/-- The line that is written. -/
def line (r : StampedFrame) : Bytes := r.frame.line r.stamp.text

/-- The line with its time blanked. -/
def blankLine (r : StampedFrame) : Bytes := r.frame.line blankTime

/-- The line of a record is the record with the line break. -/
theorem line_eq (r : StampedFrame) : r.line = r.recordBytes ++ recordBreak := r.frame.line_eq _

/-- A record has no line break in it. -/
theorem lineBreak_notMem (r : StampedFrame) : 10 ∉ r.recordBytes :=
  (r.frame.printed_record r.stamp.printed_text).lineBreak_notMem

/-- The line of a record has one line break. -/
theorem count_line (r : StampedFrame) : r.line.count 10 = 1 :=
  r.frame.count_line r.stamp.printed_text

end StampedFrame

/-! ### Blanking by column -/

/-- The column in which the time of a record starts. -/
def stampColumn : Nat := 14

/-- The column behind the time of a record. -/
def stampEnd : Nat := 38

/-- Blanks the byte of a digit and leaves any other byte. -/
def blankByte (b : UInt8) : UInt8 := if 0x30 ≤ b ∧ b ≤ 0x39 then 0x30 else b

/-- Blanks the times in what follows on `column` bytes of a line. -/
def blankFrom (column : Nat) : Bytes → Bytes
  | [] => []
  | b :: data =>
    (if stampColumn ≤ column ∧ column < stampEnd then blankByte b else b) ::
      blankFrom (if b = 10 then 0 else column + 1) data

/-- Blanks the times in an output. -/
def blankTimes (output : Bytes) : Bytes := blankFrom 0 output

/-- What was cut off can be blanked as well. -/
theorem blankFrom_take (column : Nat) (data : Bytes) (n : Nat) :
    blankFrom column (data.take n) = (blankFrom column data).take n := by
  induction data generalizing column n with
  | nil => rw [List.take_nil, blankFrom, List.take_nil]
  | cons b data ih =>
    cases n with
    | zero => rfl
    | succ n => rw [List.take_succ_cons, blankFrom, blankFrom, List.take_succ_cons, ih]

/-- Within a line, two parts are blanked by themselves, each from its own column. -/
theorem blankFrom_append {front : Bytes} (hfront : 10 ∉ front) (column : Nat) (back : Bytes) :
    blankFrom column (front ++ back) =
      blankFrom column front ++ blankFrom (column + front.length) back := by
  induction front generalizing column with
  | nil => rfl
  | cons b front ih =>
    obtain ⟨hb, hfront⟩ := not_or.mp (mt List.mem_cons.mpr hfront)
    rw [List.cons_append, blankFrom, blankFrom, if_neg (Ne.symm hb), ih hfront, List.length_cons,
      Nat.add_right_comm, Nat.add_assoc]
    rfl

/-- Outside of the columns of the time nothing is blanked. -/
theorem blankFrom_outside {data : Bytes} (hdata : 10 ∉ data) {column : Nat}
    (hcolumn : column + data.length ≤ stampColumn ∨ stampEnd ≤ column) :
    blankFrom column data = data := by
  induction data generalizing column with
  | nil => rfl
  | cons b data ih =>
    obtain ⟨hb, hdata⟩ := not_or.mp (mt List.mem_cons.mpr hdata)
    rw [List.length_cons] at hcolumn
    rw [blankFrom, if_neg (by omega), if_neg (Ne.symm hb), ih hdata (by omega)]

/-- In the columns of the time every digit is blanked. -/
theorem blankFrom_inside {data : Bytes} (hdata : 10 ∉ data) {column : Nat}
    (hstart : stampColumn ≤ column) (hend : column + data.length ≤ stampEnd) :
    blankFrom column data = data.map blankByte := by
  induction data generalizing column with
  | nil => rfl
  | cons b data ih =>
    obtain ⟨hb, hdata⟩ := not_or.mp (mt List.mem_cons.mpr hdata)
    rw [List.length_cons] at hend
    rw [blankFrom, if_pos (by omega), if_neg (Ne.symm hb), ih hdata (by omega) (by omega)]
    rfl

/-- A digit is blanked as a byte as it is as a character. -/
theorem blankByte_ofNat {c : Char} (hc : IsPrinted c) :
    blankByte (UInt8.ofNat c.toNat) = UInt8.ofNat (blankDigit c).toNat := by
  obtain ⟨hlow, hhigh⟩ := hc
  have hvalue : (UInt8.ofNat c.toNat).toNat = c.toNat :=
    UInt8.toNat_ofNat_of_lt (by simp only [UInt8.size]; omega)
  have hdigit : c.isDigit = true ↔ 0x30 ≤ UInt8.ofNat c.toNat ∧ UInt8.ofNat c.toNat ≤ 0x39 := by
    rw [UInt8.le_iff_toNat_le, UInt8.le_iff_toNat_le, hvalue]
    simp [Char.isDigit, UInt32.le_iff_toNat_le]
  by_cases h : c.isDigit = true
  · rw [blankByte, if_pos (hdigit.mp h), blankDigit, if_pos h]
    rfl
  · rw [blankByte, if_neg (h ∘ hdigit.mpr), blankDigit, if_neg h]

/-- The text of a time with its digits blanked. -/
theorem Stamp.map_blankByte (stamp : Stamp) :
    (asciiBytes stamp.text.toList).map blankByte = asciiBytes blankTime.toList := by
  rw [← stamp.form, asciiBytes, asciiBytes, List.map_map, List.map_map]
  exact List.map_congr_left fun c hc => blankByte_ofNat (stamp.printed_text c hc)

/-! ### Lines at any time -/

/-- What stands in front of the time. -/
def stampFront : List Char := '\x7b' :: quoted "timestamp".toList ++ [':', '"']

/-- The lines of a frame differ in the time only. -/
theorem Frame.exists_line_eq (f : Frame) :
    ∃ tail, Printed tail ∧ ∀ stamp, f.line stamp =
      asciiBytes stampFront ++ (asciiBytes stamp.toList ++ (asciiBytes tail ++ recordBreak)) := by
  have hrecord : ∀ stamp, f.record stamp =
      stampFront ++ (stamp.toList ++ (f.record "").drop stampColumn) := by
    intro stamp
    simp [record, jsonObject, jsonField, quoted, stampFront, stampColumn]
  refine ⟨(f.record "").drop stampColumn, ?_, fun stamp => ?_⟩
  · intro c hc
    exact f.printed_record (by decide) c (List.mem_of_mem_drop hc)
  · rw [line_eq, recordBytes, hrecord]
    simp only [asciiBytes, List.map_append, List.append_assoc]

/-- A line is equally long at any time. -/
theorem StampedFrame.length_line (r : StampedFrame) :
    r.line.length = r.blankLine.length := by
  obtain ⟨tail, -, hline⟩ := r.frame.exists_line_eq
  have htext : (asciiBytes r.stamp.text.toList).length = (asciiBytes blankTime.toList).length := by
    rw [asciiBytes, List.length_map, r.stamp.length_text]
    rfl
  rw [line, blankLine, hline, hline]
  simp only [List.length_append, htext]

/-- Blanking goes on behind a line as if it began there. -/
theorem StampedFrame.blankTimes_line_append (r : StampedFrame) (data : Bytes) :
    blankTimes (r.line ++ data) = r.blankLine ++ blankTimes data := by
  obtain ⟨tail, htail, hline⟩ := r.frame.exists_line_eq
  have hfront : 10 ∉ asciiBytes stampFront := by decide
  have htext : 10 ∉ asciiBytes r.stamp.text.toList := r.stamp.printed_text.lineBreak_notMem
  have hlength : (asciiBytes r.stamp.text.toList).length = 24 := by
    rw [asciiBytes, List.length_map, r.stamp.length_text]
  have hbreak : ∀ column, stampEnd ≤ column →
      blankFrom column (recordBreak ++ data) = recordBreak ++ blankTimes data := by
    intro column hcolumn
    have hnot : ¬ (stampColumn ≤ column ∧ column < stampEnd) := by omega
    exact congrArg (· :: blankTimes data) (if_neg hnot)
  have hstart : 0 + (asciiBytes stampFront).length = stampColumn := by decide
  have hend : stampColumn + 24 = stampEnd := by decide
  rw [line, blankLine, hline, hline]
  simp only [List.append_assoc]
  rw [blankTimes, blankFrom_append hfront, blankFrom_append htext,
    blankFrom_append htail.lineBreak_notMem, hstart, hlength, hend,
    blankFrom_outside hfront (.inl (Nat.le_of_eq hstart)),
    blankFrom_inside htext (Nat.le_refl _) (by omega),
    blankFrom_outside htail.lineBreak_notMem (.inr (Nat.le_refl _)),
    hbreak _ (Nat.le_add_right _ _), r.stamp.map_blankByte]

/-- Blanking the times keeps the number of bytes. -/
theorem length_flatMap_line (records : List StampedFrame) :
    (records.flatMap StampedFrame.line).length =
      (records.flatMap StampedFrame.blankLine).length := by
  simp only [List.length_flatMap, StampedFrame.length_line]

/-- Blanking goes through all lines. -/
theorem blankTimes_flatMap_line (records : List StampedFrame) :
    blankTimes (records.flatMap StampedFrame.line) = records.flatMap StampedFrame.blankLine := by
  induction records with
  | nil => rfl
  | cons r records ih =>
    rw [List.flatMap_cons, r.blankTimes_line_append, ih, List.flatMap_cons]

end FlightLink
