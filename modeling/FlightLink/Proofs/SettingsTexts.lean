import FlightLink.Settings.Read
import FlightLink.Proofs.Captures
import FlightLink.Proofs.PlainDocuments

/-!
# Settings as texts

Any of the five settings can be written, each in its section, as a line with its name and its value.
Such a text is read as the settings that it gives, whatever the order of sections and lines, with
the defaults for all others; and these, the defaults among them, are checked one rule after the
other. Settings that pass are used as they are.
-/

namespace FlightLink

open Toml

/-! ### Choices of settings -/

/-- The sections of a text of settings. -/
inductive SettingsSection where
  /-- The settings of the receiver. -/
  | decoder
  /-- The settings of compressed blocks. -/
  | huffman
  /-- The settings of captures. -/
  | capture
  deriving DecidableEq, Repr

/-- The name in the header of the section. -/
def SettingsSection.name : SettingsSection → String
  | decoder => "decoder"
  | huffman => "huffman"
  | capture => "capture"

/-- A value for each setting, or none. -/
structure SettingsChoice where
  /-- The largest payload. -/
  maxPayload : Option Nat := none
  /-- The size that the payload buffer starts with. -/
  initialCapacity : Option Nat := none
  /-- Whether rejections are logged. -/
  logRejections : Option Bool := none
  /-- The largest output length of a compressed block. -/
  maxOutput : Option Nat := none
  /-- The size of the buffer through which captures are read. -/
  chunkSize : Option Nat := none

/-- The name of a setting with the value that is chosen for it, if one is. -/
def chosenPair {α : Type} (name : String) (value : α → PlainValue) (chosen : Option α) :
    List (String × PlainValue) :=
  (chosen.map fun a => (name, value a)).toList

namespace SettingsChoice

/-- Whether all sizes are integers of 64 bits with a sign. -/
def InRange (choice : SettingsChoice) : Prop :=
  ∀ n, some n ∈ [choice.maxPayload, choice.initialCapacity, choice.maxOutput, choice.chunkSize] →
    n < 2 ^ 63

/-- The settings with the defaults for those that are not chosen. -/
def filled (choice : SettingsChoice) : Settings where
  receiver :=
    { maxPayload := choice.maxPayload.getD 65535
      initialCapacity := choice.initialCapacity.getD 256
      logRejections := choice.logRejections.getD true }
  maxOutput := choice.maxOutput.getD 65535
  chunkSize := choice.chunkSize.getD 4096

/-- The names that a section gives a value, with their values. -/
def pairs (choice : SettingsChoice) : SettingsSection → List (String × PlainValue)
  | .decoder =>
    chosenPair "max_payload_len" .number choice.maxPayload ++
      chosenPair "initial_payload_capacity" .number choice.initialCapacity ++
      chosenPair "log_rejections" .flag choice.logRejections
  | .huffman => chosenPair "max_output_len" .number choice.maxOutput
  | .capture => chosenPair "read_chunk_size" .number choice.chunkSize

/-- Whether a document gives what is chosen and nothing else, in any order of sections and lines. A
section without lines may be there or not. -/
structure WrittenAs (choice : SettingsChoice) (doc : List PlainSection) : Prop where
  /-- No section stands there twice. -/
  nodup : (doc.map PlainSection.name).Nodup
  /-- Each is one of the three, with the lines that it should have. -/
  pairs : ∀ s ∈ doc, ∃ part : SettingsSection, s.name = part.name ∧ s.pairs.Perm (choice.pairs part)
  /-- No section with lines is missing. -/
  complete : ∀ part : SettingsSection, choice.pairs part ≠ [] →
    part.name ∈ doc.map PlainSection.name

end SettingsChoice

/-- Settings that obey all rules. -/
structure Settings.Sound (s : Settings) : Prop where
  /-- The largest payload is a size that a frame can declare, and not zero. -/
  maxPayload : 1 ≤ s.receiver.maxPayload ∧ s.receiver.maxPayload ≤ 65535
  /-- The payload buffer does not start larger than the largest payload. -/
  initialCapacity : s.receiver.initialCapacity ≤ s.receiver.maxPayload
  /-- Some output is allowed. -/
  maxOutput : 1 ≤ s.maxOutput
  /-- The buffer for captures has a sensible size. -/
  chunkSize : 1 ≤ s.chunkSize ∧ s.chunkSize ≤ 1048576

/-! ### Looking up names -/

section

variable {α : Type} {names : List (String × α)} {name : String} {value : α}

/-- A name that stands in a list once is looked up as what it stands with. -/
theorem lookup_eq_some_iff_mem (hnodup : (names.map Prod.fst).Nodup) :
    names.lookup name = some value ↔ (name, value) ∈ names := by
  constructor
  · intro hlookup
    obtain ⟨before, behind, rfl, -⟩ := List.lookup_eq_some_iff.mp hlookup
    simp
  · intro hmem
    obtain ⟨before, behind, rfl⟩ := List.append_of_mem hmem
    refine List.lookup_eq_some_iff.mpr ⟨before, behind, rfl, fun p hp => ?_⟩
    rw [List.map_append, List.map_cons] at hnodup
    have hdiffers := (List.nodup_append.mp hnodup).2.2 p.1 (List.mem_map_of_mem hp) name
      List.mem_cons_self
    simpa [bne_iff_ne] using fun hsame : name = p.1 => hdiffers hsame.symm

/-- The order of names that differ is of no account. -/
theorem lookup_eq_of_perm {others : List (String × α)} (hperm : names.Perm others)
    (hnodup : (names.map Prod.fst).Nodup) (name : String) :
    names.lookup name = others.lookup name := by
  have hnodup' : (others.map Prod.fst).Nodup := (hperm.map Prod.fst).nodup_iff.mp hnodup
  ext value
  rw [lookup_eq_some_iff_mem hnodup, lookup_eq_some_iff_mem hnodup', hperm.mem_iff]

/-- What stands under a name can be changed before or after looking it up. -/
theorem lookup_map_snd {β : Type} (f : α → β) (names : List (String × α)) (name : String) :
    (names.map fun p => (p.1, f p.2)).lookup name = (names.lookup name).map f := by
  induction names with
  | nil => rfl
  | cons p names ih =>
    rw [List.map_cons, List.lookup_cons, List.lookup_cons]
    cases name == p.1
    · exact ih
    · rfl

end

/-! ### Reading a choice -/

section

variable {α : Type} {value : α → PlainValue} {chosen : Option α}

/-- A setting has its own name, if a value is chosen for it. -/
theorem keys_chosenPair (name : String) :
    ((chosenPair name value chosen).map Prod.fst).Sublist [name] := by
  cases chosen with
  | none => exact List.nil_sublist _
  | some a => exact List.Sublist.refl _

/-- A setting is there just with the value that is chosen for it. -/
theorem mem_chosenPair {name : String} {p : String × PlainValue} :
    p ∈ chosenPair name value chosen ↔ ∃ a, chosen = some a ∧ (name, value a) = p := by
  rw [chosenPair, Option.mem_toList]
  exact Option.map_eq_some_iff

/-- Under its own name a setting is found with what is chosen for it, and under no other. -/
theorem lookup_chosenPair (name key : String) :
    (chosenPair name value chosen).lookup key = if key = name then chosen.map value else none := by
  cases chosen with
  | none =>
    rw [Option.map_none, ite_self]
    rfl
  | some a =>
    rw [chosenPair, Option.map_some, Option.toList_some, List.lookup_cons]
    by_cases hsame : key = name
    · simp [hsame]
    · simp [hsame, beq_false_of_ne hsame]

end

/-- The names of the settings in a section. -/
def SettingsSection.keys : SettingsSection → List String
  | decoder => ["max_payload_len", "initial_payload_capacity", "log_rejections"]
  | huffman => ["max_output_len"]
  | capture => ["read_chunk_size"]

/-- Different sections have different names. -/
theorem SettingsSection.name_injective : Function.Injective SettingsSection.name := by
  intro part other
  cases part <;> cases other <;> simp [name]

namespace SettingsChoice

variable {choice : SettingsChoice}

/-- Each setting of a section stands there once or not at all. -/
theorem keys_pairs (choice : SettingsChoice) (part : SettingsSection) :
    ((choice.pairs part).map Prod.fst).Sublist part.keys := by
  cases part with
  | decoder =>
    simp only [pairs, List.map_append]
    exact ((keys_chosenPair _).append (keys_chosenPair _)).append (keys_chosenPair _)
  | huffman => exact keys_chosenPair _
  | capture => exact keys_chosenPair _

/-- Every value is in range if all chosen sizes are. -/
theorem inRange_of_mem_pairs (hrange : choice.InRange) {part : SettingsSection}
    {p : String × PlainValue} (hp : p ∈ choice.pairs part) : p.2.InRange := by
  have hnumber : ∀ {chosen : Option Nat} {name : String},
      chosen ∈ [choice.maxPayload, choice.initialCapacity, choice.maxOutput, choice.chunkSize] →
      p ∈ chosenPair name .number chosen → p.2.InRange := by
    intro chosen name hchosen hp
    obtain ⟨n, rfl, rfl⟩ := mem_chosenPair.mp hp
    exact hrange n hchosen
  cases part with
  | decoder =>
    obtain (hp | hp) | hp := by simpa only [pairs, List.mem_append] using hp
    · exact hnumber (by simp) hp
    · exact hnumber (by simp) hp
    · obtain ⟨b, -, rfl⟩ := mem_chosenPair.mp hp
      trivial
  | huffman => exact hnumber (by simp) hp
  | capture => exact hnumber (by simp) hp

/-- What is chosen can be written and read. -/
theorem isWritable (hrange : choice.InRange) (part : SettingsSection) :
    (PlainSection.mk part.name (choice.pairs part)).IsWritable := by
  obtain ⟨hname, hkeys, hnodup⟩ : IsBare part.name ∧ (∀ key ∈ part.keys, IsBare key) ∧
      part.keys.Nodup := by
    cases part <;> decide +kernel
  refine ⟨hname, fun p hp => ⟨?_, inRange_of_mem_pairs hrange hp⟩, ?_⟩
  · exact hkeys p.1 ((choice.keys_pairs part).subset (List.mem_map_of_mem hp))
  · exact hnodup.sublist (choice.keys_pairs part)

/-- A setting is looked up in its section as what is chosen for it. -/
theorem lookup_pairs (choice : SettingsChoice) :
    (choice.pairs .decoder).lookup "max_payload_len" = choice.maxPayload.map .number ∧
      (choice.pairs .decoder).lookup "initial_payload_capacity" =
        choice.initialCapacity.map .number ∧
      (choice.pairs .decoder).lookup "log_rejections" = choice.logRejections.map .flag ∧
      (choice.pairs .huffman).lookup "max_output_len" = choice.maxOutput.map .number ∧
      (choice.pairs .capture).lookup "read_chunk_size" = choice.chunkSize.map .number := by
  simp [pairs, List.lookup_append, lookup_chosenPair]

end SettingsChoice

namespace SettingsChoice.WrittenAs

variable {choice : SettingsChoice} {doc : List PlainSection}

/-- A text of chosen settings has only sections that can be written. -/
theorem isWritable (hdoc : choice.WrittenAs doc) (hrange : choice.InRange) :
    ∀ s ∈ doc, s.IsWritable := by
  intro s hs
  obtain ⟨part, hname, hpairs⟩ := hdoc.pairs s hs
  obtain ⟨hbare, hall, hnodup⟩ := SettingsChoice.isWritable hrange part
  refine ⟨hname ▸ hbare, fun p hp => hall p (hpairs.mem_iff.mp hp), ?_⟩
  exact (hpairs.map Prod.fst).nodup_iff.mpr hnodup

/-- A section is asked for its settings, whether it stands there or not. -/
theorem exists_fieldsOf? (hdoc : choice.WrittenAs doc) (hrange : choice.InRange)
    (part : SettingsSection) :
    ∃ fields, Settings.fieldsOf? ((doc.map PlainSection.entry).reverse.lookup part.name) =
        some fields ∧
      ∀ position name, fields position name =
        ((choice.pairs part).lookup name).map PlainValue.node := by
  have hnames : ((doc.map PlainSection.entry).reverse.map Prod.fst).Nodup := by
    rw [List.map_reverse, List.nodup_reverse, List.map_map]
    exact hdoc.nodup
  by_cases hthere : part.name ∈ doc.map PlainSection.name
  · obtain ⟨s, hs, hname⟩ := List.mem_map.mp hthere
    obtain ⟨other, hother, hpairs⟩ := hdoc.pairs s hs
    obtain rfl : part = other := SettingsSection.name_injective (hname.symm.trans hother)
    have hentry : (doc.map PlainSection.entry).reverse.lookup part.name =
        some (.table .declared s.entries.reverse) := by
      rw [lookup_eq_some_iff_mem hnames, List.mem_reverse, ← hname]
      exact List.mem_map_of_mem hs
    have hnodup : (s.pairs.map Prod.fst).Nodup := (hdoc.isWritable hrange s hs).nodup
    rw [hentry]
    refine ⟨_, rfl, fun position name => ?_⟩
    have hreverse : s.entries.reverse.lookup name = s.entries.lookup name :=
      (lookup_eq_of_perm s.entries.reverse_perm.symm (s.map_fst_entries ▸ hnodup) name).symm
    rw [hreverse, PlainSection.entries, lookup_map_snd, lookup_eq_of_perm hpairs hnodup]
  · have hentry : (doc.map PlainSection.entry).reverse.lookup part.name = none := by
      rw [List.lookup_eq_none_iff]
      intro p hp
      obtain ⟨s, hs, rfl⟩ := List.mem_map.mp (List.mem_reverse.mp hp)
      exact bne_iff_ne.mpr fun hsame => hthere (hsame ▸ List.mem_map_of_mem hs)
    have hnone : choice.pairs part = [] := by
      by_contra hsome
      exact hthere (hdoc.complete part hsome)
    rw [hentry, hnone]
    exact ⟨_, rfl, fun _ _ => rfl⟩

/-- A document that gives a choice holds the settings with the defaults for all others. -/
theorem ofEntries?_eq (hdoc : choice.WrittenAs doc) (hrange : choice.InRange) :
    Settings.ofEntries? (doc.map PlainSection.entry).reverse = some choice.filled := by
  obtain ⟨receiver, hreceiver, hreceiverAt⟩ := hdoc.exists_fieldsOf? hrange .decoder
  obtain ⟨block, hblock, hblockAt⟩ := hdoc.exists_fieldsOf? hrange .huffman
  obtain ⟨capture, hcapture, hcaptureAt⟩ := hdoc.exists_fieldsOf? hrange .capture
  obtain ⟨hmaxPayload, hinitial, hlog, hmaxOutput, hchunk⟩ := choice.lookup_pairs
  have hsize : ∀ (default : Nat) (chosen : Option Nat),
      Settings.sizeOf? default ((chosen.map PlainValue.number).map PlainValue.node) =
        some (chosen.getD default) := by
    intro default chosen
    cases chosen <;> rfl
  have hflag : ∀ (default : Bool) (chosen : Option Bool),
      Settings.flagOf? default ((chosen.map PlainValue.flag).map PlainValue.node) =
        some (chosen.getD default) := by
    intro default chosen
    cases chosen <;> rfl
  simp only [SettingsSection.name] at hreceiver hblock hcapture
  simp only [Settings.ofEntries?, hreceiver, hblock, hcapture, hreceiverAt, hblockAt, hcaptureAt,
    hmaxPayload, hinitial, hlog, hmaxOutput, hchunk, hsize, hflag, Option.bind_eq_bind,
    Option.bind_some]
  rfl

end SettingsChoice.WrittenAs

/-! ### Checking the rules -/

namespace Settings

variable {s : Settings}

/-- Settings break no rule just if they are sound. -/
theorem broken?_eq_none_iff : s.broken? = none ↔ s.Sound := by
  have hrules : s.broken? = none ↔ ∀ rule ∈ SettingsRange.all, rule.Holds s := by
    simp [broken?, List.find?_eq_none]
  rw [hrules]
  constructor
  · intro hall
    exact ⟨hall .maxPayload (by decide), hall .initialCapacity (by decide),
      hall .maxOutput (by decide), hall .chunkSize (by decide)⟩
  · rintro hsound rule -
    cases rule with
    | maxPayload => exact hsound.maxPayload
    | initialCapacity => exact hsound.initialCapacity
    | maxOutput => exact hsound.maxOutput
    | chunkSize => exact hsound.chunkSize

/-- The first rule that is broken is found. -/
theorem broken?_eq_some {rule : SettingsRange} (before behind : List SettingsRange)
    (hall : SettingsRange.all = before ++ rule :: behind) (hbefore : ∀ r ∈ before, r.Holds s)
    (hrule : ¬ rule.Holds s) : s.broken? = some rule := by
  rw [broken?, List.find?_eq_some_iff_append]
  refine ⟨by simpa using hrule, before, behind, hall, fun r hr => ?_⟩
  simpa using hbefore r hr

end Settings

/-- What is read from a text obeys all rules. -/
theorem Settings.sound_of_ofText {text : String} {s : Settings} (hread : ofText text = .ok s) :
    s.Sound := by
  rw [ofText] at hread
  split at hread
  · cases hread
  · split at hread
    · cases hread
    · rename_i hrules
      cases hread
      exact broken?_eq_none_iff.mp hrules

/-- A text that gives a choice is read as the settings that it gives, unless they break a rule. -/
theorem SettingsChoice.WrittenAs.ofText_eq {choice : SettingsChoice} {doc : List PlainSection}
    (hdoc : choice.WrittenAs doc) (hrange : choice.InRange) :
    Settings.ofText (String.ofList (doc.flatMap PlainSection.text)) =
      match choice.filled.broken? with
      | some rule => .error (.range rule)
      | none => .ok choice.filled := by
  have hread := read?_plain (hdoc.isWritable hrange) hdoc.nodup
  cases hbroken : choice.filled.broken? with
  | none =>
    simp only [Settings.ofText, hread, Option.bind_eq_bind, Option.bind_some,
      hdoc.ofEntries?_eq hrange, hbroken]
  | some rule =>
    simp only [Settings.ofText, hread, Option.bind_eq_bind, Option.bind_some,
      hdoc.ofEntries?_eq hrange, hbroken]

/-- A text may set nothing but the limit on what a block inflates to. Any limit above zero is taken,
with the defaults for all other settings. -/
theorem Settings.ofText_maxOutput {n : Nat} (hpos : 1 ≤ n) (hn : n < 2 ^ 63) :
    Settings.ofText
        (String.ofList (PlainSection.text ⟨"huffman", [("max_output_len", .number n)]⟩)) =
      .ok { maxOutput := n } := by
  let choice : SettingsChoice := { maxOutput := some n }
  have hrange : choice.InRange := by
    intro m hm
    obtain rfl : m = n := by simpa [choice] using hm
    exact hn
  have hdoc : choice.WrittenAs [⟨"huffman", [("max_output_len", .number n)]⟩] := by
    refine ⟨List.nodup_singleton _, fun s hs => ?_, fun part hpart => ?_⟩
    · obtain rfl := List.mem_singleton.mp hs
      exact ⟨.huffman, rfl, List.Perm.refl _⟩
    · cases part with
      | decoder | capture => exact absurd rfl hpart
      | huffman => exact List.mem_singleton_self _
  have hdefaults : Settings.Sound {} := ⟨by decide, by decide, by decide, by decide⟩
  have hsound : choice.filled.Sound :=
    ⟨hdefaults.maxPayload, hdefaults.initialCapacity, hpos, hdefaults.chunkSize⟩
  have hread := hdoc.ofText_eq hrange
  rwa [Settings.broken?_eq_none_iff.mpr hsound, List.flatMap_singleton] at hread

/-! ### Using settings -/

/-- The pieces of some data start one behind the other, each a whole size on, and go on for that
size, or to the end of the data. -/
theorem getElem?_pieces {size : Nat} (hsize : 1 ≤ size) (data : Bytes) (i : Nat) :
    (pieces size data)[i]? =
      if i * size < data.length then some ((data.drop (i * size)).take size) else none := by
  have hmax : max size 1 = size := Nat.max_eq_left hsize
  fun_induction pieces size data generalizing i with
  | case1 => simp
  | case2 data hne ih =>
    rw [hmax] at ih ⊢
    cases i with
    | zero =>
      have hpos := List.length_pos_iff.mpr hne
      simp [hpos]
    | succ i =>
      have hnext : i * size < data.length - size ↔ (i + 1) * size < data.length := by
        rw [Nat.succ_mul]
        omega
      rw [List.getElem?_cons_succ, ih, List.length_drop, List.drop_drop, Nat.succ_mul,
        Nat.add_comm size]
      simp only [hnext, Nat.succ_mul]

/-- What is offered at once goes to the receiver in pieces. -/
theorem Receiver.readAll_bytes (r : Receiver) (size : Nat) (data : Bytes) :
    r.readAll size [.bytes data] =
      let (next, out) := r.takePieces (pieces size data)
      (next, out ++ next.closing data.length, .ok data.length) := by
  have hdeliveries : deliveries size [.bytes data] = (pieces size data, none) := by
    cases data with
    | nil =>
      rw [pieces]
      rfl
    | cons byte data =>
      rw [deliveries_bytes]
      exact congrArg (Prod.mk · none) (List.append_nil _)
  rw [readAll, hdeliveries]
  simp only [flatten_pieces]

/-- A text may give any of the settings a value, in any order of sections and of lines. It is read
as these values, with the defaults for the settings that it does not give, just if they obey all
rules, and otherwise the first rule that they break is reported. Whatever text settings were read
from, they obey all rules; so a receiver starts with just the capacity that they say, and a capture
is read in pieces of just the size that they say. -/
theorem settings_of_text :
    (∀ (choice : SettingsChoice) (doc : List PlainSection), choice.InRange →
      choice.WrittenAs doc →
        let c := choice.filled
        let result := Settings.ofText (String.ofList (doc.flatMap PlainSection.text))
        let fits := 1 ≤ c.receiver.maxPayload ∧ c.receiver.maxPayload ≤ 65535
        let starts := c.receiver.initialCapacity ≤ c.receiver.maxPayload
        let outputs := 1 ≤ c.maxOutput
        let reads := 1 ≤ c.chunkSize ∧ c.chunkSize ≤ 1048576
        (result = .ok c ↔ fits ∧ starts ∧ outputs ∧ reads) ∧
          (¬ fits → result = .error (.range .maxPayload)) ∧
          (fits → ¬ starts → result = .error (.range .initialCapacity)) ∧
          (fits → starts → ¬ outputs → result = .error (.range .maxOutput)) ∧
          (fits → starts → outputs → ¬ reads → result = .error (.range .chunkSize))) ∧
      ∀ text s, Settings.ofText text = .ok s →
        s.Sound ∧ (Receiver.ofSettings s.receiver).capacity = s.receiver.initialCapacity ∧
          (∀ source, ∀ piece ∈ (deliveries s.chunkSize source).1,
            0 < piece.length ∧ piece.length ≤ s.chunkSize) ∧
          ∀ (r : Receiver) (data : Bytes), ∃ ps : List Bytes,
            (∀ i, ps[i]? = if i * s.chunkSize < data.length then
              some ((data.drop (i * s.chunkSize)).take s.chunkSize) else none) ∧
            r.readAll s.chunkSize [.bytes data] =
              let (next, out) := r.takePieces ps
              (next, out ++ next.closing data.length, .ok data.length) := by
  constructor
  · intro choice doc hrange hdoc c result fits starts outputs reads
    have hresult : result = _ := hdoc.ofText_eq hrange
    have hbroken : ∀ rule, c.broken? = some rule → result = .error (.range rule) := by
      intro rule hrule
      rw [hresult, hrule]
    refine ⟨⟨fun hok => ?_, ?_⟩, ?_, ?_, ?_, ?_⟩
    · have hsound : c.Sound := Settings.sound_of_ofText hok
      exact ⟨hsound.maxPayload, hsound.initialCapacity, hsound.maxOutput, hsound.chunkSize⟩
    · rintro ⟨hfits, hstarts, houtputs, hreads⟩
      rw [hresult, Settings.broken?_eq_none_iff.mpr ⟨hfits, hstarts, houtputs, hreads⟩]
    · intro hfits
      exact hbroken _ (Settings.broken?_eq_some [] _ rfl (by simp) hfits)
    · intro hfits hstarts
      refine hbroken _ (Settings.broken?_eq_some [.maxPayload] _ rfl ?_ hstarts)
      exact List.forall_mem_singleton.mpr hfits
    · intro hfits hstarts houtputs
      refine hbroken _ (Settings.broken?_eq_some [.maxPayload, .initialCapacity] _ rfl ?_ houtputs)
      exact List.forall_mem_cons.mpr ⟨hfits, List.forall_mem_singleton.mpr hstarts⟩
    · intro hfits hstarts houtputs hreads
      refine hbroken _ (Settings.broken?_eq_some [.maxPayload, .initialCapacity, .maxOutput] _ rfl
        ?_ hreads)
      exact List.forall_mem_cons.mpr ⟨hfits, List.forall_mem_cons.mpr
        ⟨hstarts, List.forall_mem_singleton.mpr houtputs⟩⟩
  · intro text s hread
    have hsound : s.Sound := Settings.sound_of_ofText hread
    obtain ⟨hsize, -⟩ := hsound.chunkSize
    refine ⟨hsound, Nat.min_eq_left hsound.initialCapacity, fun source piece hpiece => ?_, ?_⟩
    · have hlength := length_of_mem_deliveries hpiece
      rwa [Nat.max_eq_left hsize] at hlength
    · intro r data
      exact ⟨pieces s.chunkSize data, getElem?_pieces hsize data, r.readAll_bytes _ data⟩

/-- A limit of 128 bytes is below the default of the initial capacity. With an initial capacity of
its own it is read, from sections and lines in another order and one section without lines. -/
theorem settings_of_text_small_limit :
    let limited : SettingsChoice := { maxPayload := some 128 }
    let short : List PlainSection := [⟨"decoder", [("max_payload_len", .number 128)]⟩]
    let chosen : SettingsChoice :=
      { maxPayload := some 128, initialCapacity := some 64, logRejections := some false,
        chunkSize := some 1 }
    let long : List PlainSection :=
      [⟨"capture", [("read_chunk_size", .number 1)]⟩, ⟨"huffman", []⟩,
        ⟨"decoder", [("log_rejections", .flag false), ("max_payload_len", .number 128),
          ("initial_payload_capacity", .number 64)]⟩]
    let text := "[capture]\nread_chunk_size = 1\n[huffman]\n[decoder]\nlog_rejections = false\n" ++
      "max_payload_len = 128\ninitial_payload_capacity = 64\n"
    limited.InRange ∧ limited.WrittenAs short ∧
      Settings.ofText "[decoder]\nmax_payload_len = 128\n" = .error (.range .initialCapacity) ∧
      chosen.InRange ∧ chosen.WrittenAs long ∧ Settings.ofText text = .ok chosen.filled ∧
      (Receiver.ofSettings chosen.filled.receiver).capacity = 64 := by
  intro limited short chosen long text
  have hlimited : limited.InRange ∧ limited.WrittenAs short := by
    refine ⟨fun n hn => ?_, by decide, fun s hs => ?_, fun part hpart => ?_⟩
    · obtain rfl : n = 128 := by simpa [limited] using hn
      decide
    · obtain rfl := List.mem_singleton.mp hs
      exact ⟨.decoder, rfl, by decide⟩
    · cases part with
      | decoder => decide
      | huffman => exact absurd rfl hpart
      | capture => exact absurd rfl hpart
  have hchosen : chosen.InRange ∧ chosen.WrittenAs long := by
    refine ⟨fun n hn => ?_, by decide, fun s hs => ?_, fun part _ => ?_⟩
    · obtain rfl | rfl | rfl : n = 128 ∨ n = 64 ∨ n = 1 := by simpa [chosen] using hn
      all_goals decide
    · obtain rfl | rfl | rfl : s = _ ∨ s = _ ∨ s = _ := by simpa [long] using hs
      · exact ⟨.capture, rfl, by decide⟩
      · exact ⟨.huffman, rfl, by decide⟩
      · exact ⟨.decoder, rfl, by decide⟩
    · cases part <;> decide
  obtain ⟨hchoices, htexts⟩ := settings_of_text
  have hrefused := (hchoices limited short hlimited.1 hlimited.2).2.2.1 (by decide) (by decide)
  have hread := (hchoices chosen long hchosen.1 hchosen.2).1.mpr (by decide)
  have hshort : String.ofList (short.flatMap PlainSection.text) =
      "[decoder]\nmax_payload_len = 128\n" := by
    decide +kernel
  have hlong : String.ofList (long.flatMap PlainSection.text) = text := by
    decide +kernel
  rw [hshort] at hrefused
  rw [hlong] at hread
  exact ⟨hlimited.1, hlimited.2, hrefused, hchosen.1, hchosen.2, hread, (htexts text _ hread).2.1⟩

end FlightLink
