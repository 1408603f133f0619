import FlightLink.Proofs.JsonReading
import FlightLink.Toml.Document
import Mathlib.Algebra.BigOperators.Group.List.Basic
import Mathlib.Data.List.Nodup

/-!
# Plain TOML documents

A plain document has sections under bare names, and in each section lines with a bare name, an
equals sign and one word: a natural number or a truth value. It is read as just these sections with
just these values, for any numbers of 63 bits and in any order, if no name stands twice beside
another one.
-/

namespace FlightLink.Toml

/-! ### Documents and their texts -/

/-- A value that is written as one word. -/
inductive PlainValue where
  /-- A natural number. -/
  | number (n : Nat)
  /-- A truth value. -/
  | flag (b : Bool)
  deriving DecidableEq, Repr

namespace PlainValue

/-- The word for a value. -/
def text : PlainValue → List Char
  | number n => decimal n
  | flag true => "true".toList
  | flag false => "false".toList

/-- What the word says. -/
def node : PlainValue → Node
  | number n => .integer n
  | flag b => .boolean b

/-- Whether a number, if it is one, is an integer of 64 bits with a sign. -/
def InRange : PlainValue → Prop
  | number n => n < 2 ^ 63
  | flag _ => True

end PlainValue

/-- Whether a name can be written without quotation marks. -/
def IsBare (name : String) : Prop := name ≠ "" ∧ ∀ c ∈ name.toList, isBareChar c = true

instance (name : String) : Decidable (IsBare name) :=
  decidable_of_iff (name ≠ "" ∧ name.toList.all isBareChar = true)
    (by rw [List.all_eq_true, IsBare])

/-- A line of a plain document. -/
inductive PlainLine where
  /-- A name in brackets. -/
  | header (name : String)
  /-- A name and its value, with an equals sign between them. -/
  | pair (name : String) (value : PlainValue)

namespace PlainLine

/-- The text of a line. -/
def text : PlainLine → List Char
  | header name => '[' :: name.toList ++ [']', '\n']
  | pair name value => name.toList ++ [' ', '=', ' '] ++ value.text ++ ['\n']

/-- What a line says. -/
def line : PlainLine → Line
  | header name => .header (.table ⟨[], name⟩)
  | pair name value => .pair ⟨[], name⟩ value.node

/-- Whether the names and numbers of a line can be written. -/
def IsWritable : PlainLine → Prop
  | header name => IsBare name
  | pair name value => IsBare name ∧ value.InRange

end PlainLine

/-- A section of a plain document. -/
structure PlainSection where
  /-- The name. -/
  name : String
  /-- The names in the section with their values, line by line. -/
  pairs : List (String × PlainValue)

namespace PlainSection

/-- The lines of a section. -/
def lines (s : PlainSection) : List PlainLine :=
  .header s.name :: s.pairs.map fun p => .pair p.1 p.2

/-- The text of a section. -/
def text (s : PlainSection) : List Char := s.lines.flatMap PlainLine.text

/-- The names of a section with what they hold, line by line. -/
def entries (s : PlainSection) : Entries := s.pairs.map fun p => (p.1, p.2.node)

/-- Whether a section can be written and read. -/
structure IsWritable (s : PlainSection) : Prop where
  /-- The name can be written. -/
  name : IsBare s.name
  /-- So can the names in it and their values. -/
  pairs : ∀ p ∈ s.pairs, IsBare p.1 ∧ p.2.InRange
  /-- No name stands in it twice. -/
  nodup : (s.pairs.map Prod.fst).Nodup

end PlainSection

/-! ### The character that a text starts with -/

/-- A text that starts with no blank keeps its front. -/
theorem skipBlanks_append_of_starts {p : Char → Bool} {s : List Char} (hs : Starts p s)
    (hblank : ∀ c, p c = true → isBlank c = false) (rest : List Char) :
    skipBlanks (s ++ rest) = s ++ rest := by
  obtain ⟨c, tail, rfl, hc⟩ := hs
  rw [skipBlanks, List.cons_append, List.dropWhile_cons, hblank c hc]
  rfl

/-- Only zero is written with a zero in front. -/
theorem starts_decimal_of_pos {n : Nat} (hn : 0 < n) : Starts (· ≠ '0') (decimal n) := by
  have hdigit : ∀ d < 10, 0 < d → Nat.digitChar d ≠ '0' := by decide
  induction n using Nat.strongRecOn with
  | _ n ih =>
    rw [decimal, Nat.toDigits_eq_if (by decide)]
    split
    · rename_i hsmall
      exact ⟨_, [], rfl, decide_eq_true (hdigit n hsmall hn)⟩
    · rename_i hlarge
      obtain ⟨c, tail, hfront, hc⟩ := ih (n / 10) (by omega) (by omega)
      have hfront : Nat.toDigits 10 (n / 10) = c :: tail := hfront
      exact ⟨c, tail ++ [(n % 10).digitChar], by rw [hfront]; rfl, hc⟩

/-- A bare name starts with a character that can stand in one. -/
theorem IsBare.starts {name : String} (hname : IsBare name) : Starts isBareChar name.toList := by
  obtain ⟨hne, hbare⟩ := hname
  obtain ⟨c, tail, hcons⟩ := List.exists_cons_of_ne_nil fun hnil =>
    hne (String.toList_eq_nil_iff.mp hnil)
  exact ⟨c, tail, hcons, hbare c (hcons ▸ List.mem_cons_self)⟩

/-- A value of one word starts with a character that can stand in a bare name. -/
theorem PlainValue.starts (v : PlainValue) : Starts isBareChar v.text := by
  cases v with
  | number n =>
    refine (starts_decimal n).mono fun c hc => ?_
    simp [isBareChar, Char.isAlphanum, hc]
  | flag b =>
    cases b with
    | false => exact ⟨_, _, rfl, by decide⟩
    | true => exact ⟨_, _, rfl, by decide⟩

/-- No blank, line break or number sign can stand in a bare name. -/
theorem ne_of_isBareChar {c d : Char} (hc : isBareChar c = true) (hd : isBareChar d = false) :
    c ≠ d := by
  rintro rfl
  rw [hc] at hd
  cases hd

/-- No blank can stand in a bare name. -/
theorem isBlank_of_isBareChar {c : Char} (hc : isBareChar c = true) : isBlank c = false := by
  simp [isBlank, ne_of_isBareChar hc (by decide : isBareChar ' ' = false),
    ne_of_isBareChar hc (by decide : isBareChar '\t' = false)]

/-! ### Numbers -/

section

variable {digits : List Char} {n : Nat}

/-- Decimal digits make the same number here as anywhere. -/
theorem ofDigits_eq_ofDigitChars (hdigits : ∀ c ∈ digits, c.isDigit = true) :
    ofDigits 10 digits = Nat.ofDigitChars 10 digits 0 := by
  unfold ofDigits
  generalize 0 = n
  induction digits generalizing n with
  | nil => rfl
  | cons c digits ih =>
    obtain ⟨hc, hdigits⟩ := List.forall_mem_cons.mp hdigits
    rw [List.foldl_cons, Nat.ofDigitChars_cons, digitValue, if_pos hc, ih hdigits]

/-- The digits of a number of 64 bits make the number. -/
theorem integerSize_decimal (hn : n < UInt64.size) : integerSize 10 (decimal n) = n := by
  have hvalue : ofDigits 10 (decimal n) = n := by
    rw [ofDigits_eq_ofDigitChars fun _ hc => isDigit_of_mem_decimal hc]
    exact Nat.ofDigitChars_toDigits (by decide) (Nat.le_refl 10)
  rw [integerSize, ofDigitsUpTo_eq_ofDigits (by decide) (by rwa [hvalue]), hvalue]

/-- Digits without underscores are well separated. -/
theorem isSeparated_of_isDigit (hdigits : ∀ c ∈ digits, c.isDigit = true) :
    isSeparated digits = true := by
  fun_induction isSeparated digits with
  | case1 | case2 => simp at hdigits
  | case3 c r _ _ ih => exact ih (List.forall_mem_cons.mp hdigits).2
  | case4 => rfl

/-- A run of digits is read to the end of the line. -/
theorem digits?_append_newline (hdigits : ∀ c ∈ digits, c.isDigit = true) (hne : digits ≠ [])
    (rest : List Char) :
    digits? Char.isDigit (digits ++ '\n' :: rest) = some (digits, '\n' :: rest) := by
  have hrun : ∀ c ∈ digits, (c.isDigit || decide (c = '_')) = true := fun c hc =>
    Bool.or_eq_true_iff.mpr (.inl (hdigits c hc))
  have hend : ('\n'.isDigit || decide ('\n' = '_')) = false := by decide
  obtain ⟨htake, hdrop⟩ := takeWhile_append_cons hrun hend rest
  have hhead : digits.head?.any Char.isDigit = true := by
    obtain ⟨c, tail, rfl⟩ := List.exists_cons_of_ne_nil hne
    exact hdigits c List.mem_cons_self
  simp only [digits?, htake, hdrop, hhead, isSeparated_of_isDigit hdigits,
    List.filter_eq_self.mpr hdigits, Bool.and_self, if_true]

/-- The digits of a number have no zero in front, so they are read to the end of the line. -/
theorem decimalDigits?_decimal (n : Nat) (rest : List Char) :
    decimalDigits? (decimal n ++ '\n' :: rest) = some (decimal n, '\n' :: rest) := by
  rcases Nat.eq_zero_or_pos n with rfl | hn
  · rfl
  · rw [decimalDigits?]
    · exact digits?_append_newline (fun _ hc => isDigit_of_mem_decimal hc) Nat.toDigits_ne_nil rest
    · exact fun r => (starts_decimal_of_pos hn).append_ne (by decide) _ r

/-- A number is written without a sign. -/
theorem sign_decimal (n : Nat) (rest : List Char) :
    sign (decimal n ++ rest) = (false, decimal n ++ rest) := by
  rw [sign]
  · exact fun r => (starts_decimal n).append_ne (by decide) _ r
  · exact fun r => (starts_decimal n).append_ne (by decide) _ r

/-- A number without a point and an exponent is read as an integer only. -/
theorem skipFloat?_decimal (n : Nat) (rest : List Char) :
    skipFloat? (decimal n ++ '\n' :: rest) = none := by
  have hdecimal : skipDecimalFloat? (decimal n ++ '\n' :: rest) = none := by
    simp only [skipDecimalFloat?, sign_decimal, decimalDigits?_decimal, Option.bind_eq_bind,
      Option.bind_some]
    rfl
  have hspecial : skipSpecialFloat? (decimal n ++ '\n' :: rest) = none := by
    rw [skipSpecialFloat?, sign_decimal]
    split
    · rename_i hinf
      exact absurd hinf ((starts_decimal n).append_ne (by decide) _ _)
    · rename_i hnan
      exact absurd hnan ((starts_decimal n).append_ne (by decide) _ _)
    · rfl
  rw [skipFloat?, hdecimal, hspecial]
  rfl

/-- A number that an integer can be is read to the end of the line. -/
theorem integer?_decimal (hn : n < 2 ^ 63) (rest : List Char) :
    integer? (decimal n ++ '\n' :: rest) = some ((n : Int), '\n' :: rest) := by
  have hread : integer?.read? (decimal n ++ '\n' :: rest) = some ((n : Int), '\n' :: rest) := by
    have hsize : n < UInt64.size := Nat.lt_trans hn (by decide)
    rcases Nat.eq_zero_or_pos n with rfl | hpos
    · rfl
    · have hzero := (starts_decimal_of_pos hpos).append_ne (by decide : ('0' ≠ '0' : Bool) = false)
        ('\n' :: rest)
      rw [integer?.read?]
      · simp only [sign_decimal, decimalDigits?_decimal, Option.bind_eq_bind, Option.bind_some,
          integerSize_decimal hsize, Bool.false_eq_true, if_false]
      · exact fun r => hzero _
      · exact fun r => hzero _
      · exact fun r => hzero _
  have hrange : inRange (n : Int) = true := by
    have hmin : Int64.minValue.toInt = -2 ^ 63 := by decide
    have hmax : Int64.maxValue.toInt = 2 ^ 63 - 1 := by decide
    simp only [inRange, hmin, hmax, Bool.and_eq_true, decide_eq_true_eq]
    omega
  simp only [integer?, hread, Option.bind_eq_bind, Option.bind_some, hrange, if_true]

/-- Digits that are read leave digits, up to the end of the line. -/
theorem exists_digits_of_fixedDigits? {count value : Nat} {rest left : List Char}
    (hdigits : ∀ c ∈ digits, c.isDigit = true)
    (hread : fixedDigits? count (digits ++ '\n' :: rest) = some (value, left)) :
    ∃ behind, (∀ c ∈ behind, c.isDigit = true) ∧ left = behind ++ '\n' :: rest := by
  induction count generalizing digits value with
  | zero =>
    obtain ⟨-, rfl⟩ := Prod.mk.inj (Option.some.inj hread)
    exact ⟨digits, hdigits, rfl⟩
  | succ count ih =>
    cases digits with
    | nil => cases hread
    | cons c digits =>
      obtain ⟨hc, hdigits⟩ := List.forall_mem_cons.mp hdigits
      rw [List.cons_append, fixedDigits?, if_pos hc] at hread
      obtain ⟨⟨value', left'⟩, hread', heq⟩ := Option.bind_eq_some_iff.mp hread
      cases heq
      exact ih hdigits hread'

/-- Two digits that are read with bounds on their number leave digits, up to the end of the line. -/
theorem exists_digits_of_twoDigits? {least most value : Nat} {rest left : List Char}
    (hdigits : ∀ c ∈ digits, c.isDigit = true)
    (hread : twoDigits? least most (digits ++ '\n' :: rest) = some (value, left)) :
    ∃ behind, (∀ c ∈ behind, c.isDigit = true) ∧ left = behind ++ '\n' :: rest := by
  obtain ⟨⟨value', left'⟩, hfixed, hbounds⟩ := Option.bind_eq_some_iff.mp hread
  obtain ⟨-, hsame⟩ := Option.ite_none_right_eq_some.mp hbounds
  cases hsame
  exact exists_digits_of_fixedDigits? hdigits hfixed

/-- Behind digits at the end of a line stands no other character. -/
theorem char?_append_newline {c : Char} (hc : c.isDigit = false) (hline : c ≠ '\n')
    (hdigits : ∀ d ∈ digits, d.isDigit = true) (rest : List Char) :
    char? c (digits ++ '\n' :: rest) = none := by
  cases digits with
  | nil => exact if_neg hline
  | cons d digits =>
    refine if_neg ?_
    rintro rfl
    rw [hdigits c List.mem_cons_self] at hc
    cases hc

/-- A number is no date and no time of day. -/
theorem skipMoment?_decimal (n : Nat) (rest : List Char) :
    skipMoment? (decimal n ++ '\n' :: rest) = none := by
  have hdigits : ∀ c ∈ decimal n, c.isDigit = true := fun _ hc => isDigit_of_mem_decimal hc
  have hdate : skipDate? (decimal n ++ '\n' :: rest) = none := by
    rw [skipDate?]
    rcases hyear : fixedDigits? 4 (decimal n ++ '\n' :: rest) with _ | ⟨year, left⟩
    · rfl
    · obtain ⟨behind, hbehind, rfl⟩ := exists_digits_of_fixedDigits? hdigits hyear
      simp only [Option.bind_eq_bind, Option.bind_some,
        char?_append_newline (by decide : '-'.isDigit = false) (by decide) hbehind]
      rfl
  have htime : skipTime? (decimal n ++ '\n' :: rest) = none := by
    rw [skipTime?]
    rcases hhour : twoDigits? 0 23 (decimal n ++ '\n' :: rest) with _ | ⟨hour, left⟩
    · rfl
    · obtain ⟨behind, hbehind, rfl⟩ := exists_digits_of_twoDigits? hdigits hhour
      simp only [Option.bind_eq_bind, Option.bind_some,
        char?_append_newline (by decide : ':'.isDigit = false) (by decide) hbehind]
      rfl
  rw [skipMoment?, skipDateTime?, hdate, htime]
  rfl

end

/-! ### Lines -/

/-- A value of one word is read as what it is, to the end of the line. -/
theorem scalar?_text {v : PlainValue} (hv : v.InRange) (rest : List Char) :
    scalar? (v.text ++ '\n' :: rest) = some (v.node, '\n' :: rest) := by
  cases v with
  | number n =>
    have hne := fun (c : Char) (hc : c.isDigit = false) =>
      (starts_decimal n).append_ne hc ('\n' :: rest)
    rw [PlainValue.text, scalar?]
    · rw [skipMoment?_decimal, skipFloat?_decimal, integer?_decimal hv]
      rfl
    · exact fun r => hne 't' (by decide) _
    · exact fun r => hne 'f' (by decide) _
    · exact fun r => hne '"' (by decide) _
    · exact fun r => hne '\'' (by decide) _
  | flag b =>
    cases b with
    | false => rfl
    | true => rfl

/-- A value of one word is read to the end of the line. -/
theorem value?_text (most : Nat) {v : PlainValue} (hv : v.InRange) (rest : List Char) :
    value? most (v.text ++ '\n' :: rest) = some (v.node, '\n' :: rest) := by
  rw [value?, maxDepth, valueOf?]
  dsimp only
  split
  · rename_i harray
    exact absurd harray (v.starts.append_ne (by decide) _ _)
  · rename_i htable
    exact absurd htable (v.starts.append_ne (by decide) _ _)
  · exact scalar?_text hv rest

section

variable {name : String} {c : Char}

/-- A bare name is read to the first character that cannot stand in one. -/
theorem name?_bare (hname : IsBare name) (hc : isBareChar c = false) (rest : List Char) :
    name? (name.toList ++ c :: rest) = some (name, c :: rest) := by
  obtain ⟨htake, hdrop⟩ := takeWhile_append_cons hname.2 hc rest
  have hne : name.toList ≠ [] := fun hnil => hname.1 (String.toList_eq_nil_iff.mp hnil)
  rw [name?]
  · simp only [htake, hdrop, hne, if_false, String.ofList_toList]
  · exact fun r => hname.starts.append_ne (by decide) _ r
  · exact fun r => hname.starts.append_ne (by decide) _ r

/-- A key of one bare name is read with the blanks behind it, if no point follows. -/
theorem key?_bare (hname : IsBare name) (hc : isBareChar c = false) {rest : List Char}
    (hpoint : ∀ r, skipBlanks (c :: rest) ≠ '.' :: r) :
    key? (name.toList ++ c :: rest) = some (⟨[], name⟩, skipBlanks (c :: rest)) := by
  have hblanks : skipBlanks (name.toList ++ c :: rest) = name.toList ++ c :: rest :=
    skipBlanks_append_of_starts hname.starts (fun _ => isBlank_of_isBareChar) _
  -- That no point follows is what makes this the last name of the key.
  rw [key?, maxNames, keyOf?, hblanks, name?_bare hname hc]
  simp only [Option.bind_eq_bind, Option.bind_some]

end

namespace PlainLine

variable {l : PlainLine}

/-- No blank starts a line. -/
theorem isBlank_of_startsLine {c : Char} (hc : (c = '[' || isBareChar c) = true) :
    isBlank c = false := by
  rcases Bool.or_eq_true_iff.mp hc with hbracket | hbare
  · rw [of_decide_eq_true hbracket]
    decide
  · exact isBlank_of_isBareChar hbare

/-- A line starts with a bracket or with a character of a bare name. -/
theorem starts (hl : l.IsWritable) : Starts (fun c => c = '[' || isBareChar c) l.text := by
  cases l with
  | header name => exact ⟨'[', _, rfl, by decide⟩
  | pair name value =>
    obtain ⟨c, tail, hcons, hc⟩ := hl.1.starts
    exact ⟨c, tail ++ [' ', '=', ' '] ++ value.text ++ ['\n'], by simp [text, hcons], by simp [hc]⟩

/-- A line is read to its end. -/
theorem line?_text (size : Nat) (hl : l.IsWritable) (rest : List Char) :
    line? size (l.text ++ rest) = some (l.line, '\n' :: rest) := by
  cases l with
  | header name =>
    have htext : (header name).text ++ rest = '[' :: (name.toList ++ ']' :: '\n' :: rest) := by
      simp [text]
    have hkey : key? (name.toList ++ ']' :: '\n' :: rest) =
        some (⟨[], name⟩, ']' :: '\n' :: rest) :=
      key?_bare hl (by decide) (by simp [skipBlanks, isBlank])
    rw [htext, line?]
    · rw [hkey]
      rfl
    · exact fun r => hl.starts.append_ne (by decide) _ r
  | pair name value =>
    obtain ⟨hname, hvalue⟩ := hl
    have htext : (pair name value).text ++ rest =
        name.toList ++ ' ' :: '=' :: ' ' :: (value.text ++ '\n' :: rest) := by
      simp [text]
    have hkey : key? (name.toList ++ ' ' :: '=' :: ' ' :: (value.text ++ '\n' :: rest)) =
        some (⟨[], name⟩, '=' :: ' ' :: (value.text ++ '\n' :: rest)) :=
      key?_bare hname (by decide) (by simp [skipBlanks, isBlank])
    have hblank : skipBlanks (' ' :: (value.text ++ '\n' :: rest)) = value.text ++ '\n' :: rest :=
      skipBlanks_append_of_starts value.starts (fun _ => isBlank_of_isBareChar) _
    have hequals : char? '=' ('=' :: ' ' :: (value.text ++ '\n' :: rest)) =
        some (' ' :: (value.text ++ '\n' :: rest)) := rfl
    rw [htext, line?]
    · simp only [hkey, hequals, hblank, value?_text size hvalue, Option.bind_eq_bind,
        Option.bind_some]
      rfl
    · exact fun r => hname.starts.append_ne (by decide) _ _
    · exact fun r => hname.starts.append_ne (by decide) _ r

/-- A line is not over where it starts. -/
theorem lineEnd?_text (hl : l.IsWritable) (rest : List Char) :
    lineEnd? (l.text ++ rest) = none := by
  have hne := fun (c : Char) (hc : (c = '[' || isBareChar c) = false) =>
    (starts hl).append_ne hc rest
  have hblanks : skipBlanks (l.text ++ rest) = l.text ++ rest :=
    skipBlanks_append_of_starts (starts hl) (fun _ => isBlank_of_startsLine) rest
  have hcomment : skipComment (l.text ++ rest) = l.text ++ rest := by
    rw [skipComment]
    exact hne '#' (by decide)
  have hnewline : newline? (l.text ++ rest) = none := by
    rw [newline?]
    · exact hne '\n' (by decide)
    · exact fun r => hne '\r' (by decide) _
  rw [lineEnd?, hblanks, hcomment]
  split
  · rename_i hnil
    obtain ⟨c, tail, hcons, -⟩ := starts hl
    rw [hcons] at hnil
    cases hnil
  · exact hnewline

/-- Lines are read one after the other, if there are not more of them than may be read. -/
theorem linesOf?_text (size : Nat) {lines : List PlainLine} (hlines : ∀ l ∈ lines, l.IsWritable)
    {most : Nat} (hmost : lines.length < most) :
    linesOf? size most (lines.flatMap text) = some (lines.map line) := by
  induction lines generalizing most with
  | nil =>
    cases most with
    | zero => cases hmost
    | succ most => rfl
  | cons l lines ih =>
    obtain ⟨hl, hlines⟩ := List.forall_mem_cons.mp hlines
    cases most with
    | zero => cases hmost
    | succ most =>
      have hend : lineEnd? ('\n' :: lines.flatMap text) = some (lines.flatMap text) := rfl
      have hblanks := skipBlanks_append_of_starts (starts hl) (fun _ => isBlank_of_startsLine)
        (lines.flatMap text)
      rw [List.flatMap_cons, linesOf?, lineEnd?_text hl]
      simp only [hblanks, line?_text size hl, hend, ih hlines (Nat.lt_of_succ_lt_succ hmost),
        Option.bind_eq_bind, Option.bind_some, List.map_cons]

/-- All lines of a text are read. -/
theorem lines?_text {lines : List PlainLine} (hlines : ∀ l ∈ lines, l.IsWritable) :
    lines? (lines.flatMap text) = some (lines.map line) := by
  have hlength : lines.length ≤ (lines.flatMap text).length := by
    rw [List.length_flatMap]
    refine Nat.le_trans ?_ (List.length_le_sum_of_one_le _ ?_)
    · exact Nat.le_of_eq (List.length_map _).symm
    · intro length hlength
      obtain ⟨l, hl, rfl⟩ := List.mem_map.mp hlength
      obtain ⟨c, tail, hcons, -⟩ := starts (hlines l hl)
      simp [hcons]
  exact linesOf?_text _ hlines (Nat.lt_succ_of_le hlength)

end PlainLine

/-! ### Tables -/

namespace Entries

variable {es pairs : Entries}

/-- Names that are new and differ are new one after the other. -/
theorem forall_lookup_cons {α : Type} {nameOf : α → String} {a : α} {others : List α}
    (hnew : ∀ b ∈ a :: others, es.lookup (nameOf b) = none)
    (hnodup : ((a :: others).map nameOf).Nodup) (node : Node) :
    ∀ b ∈ others, List.lookup (nameOf b) ((nameOf a, node) :: es) = none := by
  intro b hb
  have hfirst := (List.nodup_cons.mp hnodup).1
  have hne : nameOf b ≠ nameOf a := fun hsame => hfirst (hsame ▸ List.mem_map_of_mem hb)
  rw [List.lookup_cons, beq_false_of_ne hne]
  exact hnew b (List.mem_cons_of_mem a hb)

/-- Names that are new are entered in turn, the last one in front. -/
theorem defineAll_plain (hnew : ∀ p ∈ pairs, es.lookup p.1 = none)
    (hnodup : (pairs.map Prod.fst).Nodup) :
    es.defineAll (pairs.map fun p => (⟨[], p.1⟩, p.2)) = some (pairs.reverse ++ es) := by
  induction pairs generalizing es with
  | nil => rfl
  | cons p pairs ih =>
    have hdefine : es.define ⟨[], p.1⟩ p.2 = some (p :: es) := by
      simp [define, alterAt, hnew p List.mem_cons_self]
    simp only [List.map_cons, defineAll, hdefine, Option.bind_eq_bind, Option.bind_some,
      ih (forall_lookup_cons hnew hnodup p.2) (List.nodup_cons.mp hnodup).2, List.reverse_cons,
      List.append_assoc, List.singleton_append]

end Entries

namespace PlainSection

variable {s : PlainSection} {doc : List PlainSection}

/-- What the lines of a section say. -/
def toSection (s : PlainSection) : Section :=
  ⟨.table ⟨[], s.name⟩, s.entries.map fun p => (⟨[], p.1⟩, p.2)⟩

/-- What the table of a document holds of a section. Reading puts the last line in front. -/
def entry (s : PlainSection) : String × Node := (s.name, .table .declared s.entries.reverse)

/-- The names of the entries are those of the pairs. -/
theorem map_fst_entries (s : PlainSection) :
    s.entries.map Prod.fst = s.pairs.map Prod.fst := by
  rw [entries, List.map_map]
  rfl

/-- The lines of a section that can be written can be written. -/
theorem IsWritable.lines (hs : s.IsWritable) : ∀ l ∈ s.lines, l.IsWritable := by
  intro l hl
  rcases List.mem_cons.mp hl with rfl | hpair
  · exact hs.name
  · obtain ⟨p, hp, rfl⟩ := List.mem_map.mp hpair
    exact hs.pairs p hp

/-- Lines below a header belong to it. -/
theorem sectionsOf_lines (s : PlainSection) {rest : List Line} {sections : List Section}
    (hrest : sectionsOf rest = ([], sections)) :
    sectionsOf (s.lines.map PlainLine.line ++ rest) = ([], s.toSection :: sections) := by
  have hlines : s.lines.map PlainLine.line =
      .header (.table ⟨[], s.name⟩) :: s.entries.map fun p => .pair ⟨[], p.1⟩ p.2 := by
    simp only [PlainSection.lines, entries, List.map_cons, List.map_map]
    rfl
  have hpairs : ∀ es : Entries, sectionsOf ((es.map fun p => .pair ⟨[], p.1⟩ p.2) ++ rest) =
      (es.map fun p => (⟨[], p.1⟩, p.2), sections) := by
    intro es
    induction es with
    | nil => exact hrest
    | cons p es ih => simp only [List.map_cons, List.cons_append, sectionsOf, ih]
  simp only [hlines, List.cons_append, sectionsOf, hpairs]
  rfl

/-- The lines of a document are grouped into its sections, with no line in front of the first. -/
theorem sectionsOf_flatMap_lines (doc : List PlainSection) :
    sectionsOf ((doc.flatMap PlainSection.lines).map PlainLine.line) =
      ([], doc.map toSection) := by
  induction doc with
  | nil => rfl
  | cons s doc ih =>
    rw [List.flatMap_cons, List.map_append, sectionsOf_lines s ih]
    rfl

/-- A section under a new name is entered. -/
theorem IsWritable.addSection (hs : s.IsWritable) {es : Entries}
    (hnew : es.lookup s.name = none) : es.addSection s.toSection = some (s.entry :: es) := by
  have hnodup : (s.entries.map Prod.fst).Nodup := s.map_fst_entries ▸ hs.nodup
  have hlines : Entries.defineAll [] (s.entries.map fun p => (⟨[], p.1⟩, p.2)) =
      some (s.entries.reverse ++ []) :=
    Entries.defineAll_plain (fun _ _ => rfl) hnodup
  simp only [Entries.addSection, toSection, Entries.addTable, Entries.alterAt, hnew, hlines,
    Option.bind_eq_bind, Option.bind_some, List.append_nil]
  rfl

/-- Sections under different names are entered in turn, the last one in front. -/
theorem foldlM_addSection (hdoc : ∀ s ∈ doc, s.IsWritable)
    (hnodup : (doc.map PlainSection.name).Nodup) {es : Entries}
    (hnew : ∀ s ∈ doc, es.lookup s.name = none) :
    (doc.map toSection).foldlM Entries.addSection es = some ((doc.map entry).reverse ++ es) := by
  induction doc generalizing es with
  | nil => rfl
  | cons s doc ih =>
    obtain ⟨hs, hdoc⟩ := List.forall_mem_cons.mp hdoc
    have hnew' : ∀ t ∈ doc, List.lookup t.name (s.entry :: es) = none :=
      Entries.forall_lookup_cons hnew hnodup _
    simp only [List.map_cons, List.foldlM_cons, hs.addSection (hnew s List.mem_cons_self),
      Option.bind_eq_bind, Option.bind_some, ih hdoc (List.nodup_cons.mp hnodup).2 hnew',
      List.reverse_cons, List.append_assoc, List.singleton_append]

end PlainSection

/-- A plain document is read as its sections. -/
theorem read?_plain {doc : List PlainSection} (hdoc : ∀ s ∈ doc, s.IsWritable)
    (hnodup : (doc.map PlainSection.name).Nodup) :
    read? (String.ofList (doc.flatMap PlainSection.text)) =
      some (doc.map PlainSection.entry).reverse := by
  have htext : doc.flatMap PlainSection.text =
      (doc.flatMap PlainSection.lines).flatMap PlainLine.text :=
    List.flatMap_assoc.symm
  have hlines : ∀ l ∈ doc.flatMap PlainSection.lines, l.IsWritable := by
    intro l hl
    obtain ⟨s, hs, hmem⟩ := List.mem_flatMap.mp hl
    exact (hdoc s hs).lines l hmem
  have hmark : skipMark (doc.flatMap PlainSection.text) = doc.flatMap PlainSection.text := by
    cases doc with
    | nil => rfl
    | cons s doc => rfl
  rw [read?, String.toList_ofList, hmark, htext, PlainLine.lines?_text hlines]
  simp only [Entries.ofLines?, PlainSection.sectionsOf_flatMap_lines, Option.bind_eq_bind,
    Option.bind_some, Entries.defineAll,
    PlainSection.foldlM_addSection hdoc hnodup fun _ _ => List.lookup_nil, List.append_nil]

end FlightLink.Toml
