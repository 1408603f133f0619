import FlightLink.Proofs.Scan
import FlightLink.Proofs.WireForms
import Mathlib.Data.List.Forall2

/-!
# Wire forms in a row

The wire form of a message says how long it is before it ends. So none of them is the beginning of
another, and wire forms that were joined can be cut apart in one way only, which gives back each
message with its flag.
-/

namespace FlightLink

/-- A message with all that its wire form says. -/
inductive Message where
  /-- A message sent as a short frame. -/
  | short (direction : Direction) (code : UInt8) (payload : Bytes)
  /-- A message sent as a long frame, with a flag. -/
  | long (direction : Direction) (flag : UInt8) (code : UInt16) (payload : Bytes)
  deriving DecidableEq, Repr

namespace Message

/-- The framing format. -/
def version : Message → Version
  | .short .. => .v1
  | .long .. => .v2

/-- The body of the message. -/
def payload : Message → Bytes
  | .short _ _ payload => payload
  | .long _ _ _ payload => payload

/-- The wire form of a message. -/
def encode : Message → Except WireError Bytes
  | .short direction code payload => encodeShort direction code payload
  | .long direction flag code payload => encodeLong direction flag code payload

/-- The item that a message is sent as. -/
def item : Message → Item
  | .short direction code payload =>
    shortItem direction code payload (xorSum (shortBody code payload))
  | .long direction flag code payload =>
    longItem direction flag code payload (crc (longBody flag code payload))

/-- The number of bytes of a wire form that are not payload. -/
def overhead : Message → Nat
  | .short .. => 6
  | .long .. => 9

variable {m m' : Message} {w w' : Bytes}

/-- A message has a wire form just if its payload fits the size field, and then it is its item. -/
theorem encode_eq_ok_iff :
    m.encode = .ok w ↔ m.payload.length ≤ m.version.maxPayload ∧ w = m.item.toBytes := by
  cases m with
  | short direction code payload => exact encodeShort_eq_ok_iff
  | long direction flag code payload => exact encodeLong_eq_ok_iff

/-- A wire form is longer than the payload by what the format adds. -/
theorem length_toBytes_item (m : Message) :
    m.item.toBytes.length = m.overhead + m.payload.length := by
  cases m with
  | short direction code payload =>
    rw [item, toBytes_shortItem]
    simp [opening, shortBody, overhead, Message.payload]
    omega
  | long direction flag code payload =>
    rw [item, toBytes_longItem]
    simp [opening, longBody, LongHeader.toBytes, overhead, Message.payload]
    omega

/-- A message that has a wire form is one that any receiver with a limit as large as can be takes
for a whole frame. -/
theorem fits_item (hmax : m.payload.length ≤ m.version.maxPayload) :
    m.item.Fits Version.v2.maxPayload := by
  cases m with
  | short direction code payload =>
    have hlimit : Version.v1.maxPayload ≤ Version.v2.maxPayload := by decide
    exact fits_shortItem hmax (Nat.le_trans hmax hlimit)
  | long direction flag code payload => exact fits_longItem hmax hmax

/-- The item says all that the message says. -/
theorem eq_of_item_eq (hitem : m.item = m'.item) : m = m' := by
  cases m with
  | short direction code payload =>
    cases m' with
    | short direction' code' payload' =>
      simp only [item, shortItem, Item.short.injEq] at hitem
      obtain ⟨rfl, -, rfl, rfl, -⟩ := hitem
      rfl
    | long => cases hitem
  | long direction flag code payload =>
    cases m' with
    | short => cases hitem
    | long direction' flag' code' payload' =>
      simp only [item, longItem, Item.long.injEq] at hitem
      obtain ⟨rfl, hheader, rfl, -⟩ := hitem
      have hflag : flag = flag' := congrArg LongHeader.flag hheader
      have hcode : code = code' := by simpa using congrArg LongHeader.code hheader
      rw [hflag, hcode]

/-- No wire form is the beginning of another: a scanner takes the same item off both. -/
theorem eq_of_startsWith (hwire : m.encode = .ok w) (hwire' : m'.encode = .ok w')
    (hfront : w <+: w') : m = m' := by
  obtain ⟨hmax, rfl⟩ := encode_eq_ok_iff.mp hwire
  obtain ⟨hmax', rfl⟩ := encode_eq_ok_iff.mp hwire'
  obtain ⟨rest, hrest⟩ := hfront
  have hscan := scanItem_toBytes (fits_item hmax) rest
  have hscan' := scanItem_toBytes (fits_item hmax') []
  rw [hrest] at hscan
  rw [List.append_nil, hscan] at hscan'
  exact eq_of_item_eq (congrArg Prod.fst (Option.some.inj hscan'))

/-- A wire form is not empty. -/
theorem ne_nil_of_encode (hwire : m.encode = .ok w) : w ≠ [] := by
  obtain ⟨-, rfl⟩ := encode_eq_ok_iff.mp hwire
  have hpos : 0 < m.overhead := by cases m <;> exact Nat.succ_pos _
  apply List.ne_nil_of_length_pos
  rw [length_toBytes_item]
  omega

/-- Whatever stands behind them, of two wire forms at the same place each is the other. -/
theorem eq_of_append_eq (hwire : m.encode = .ok w) (hwire' : m'.encode = .ok w')
    {rest rest' : Bytes} (hsame : w ++ rest = w' ++ rest') : m = m' ∧ w = w' ∧ rest = rest' := by
  have hfront : w <+: w' ++ rest' := hsame ▸ List.prefix_append w rest
  have heq : m = m' := by
    rcases List.prefix_or_prefix_of_prefix hfront (List.prefix_append w' rest') with h | h
    · exact eq_of_startsWith hwire hwire' h
    · exact (eq_of_startsWith hwire' hwire h).symm
  subst heq
  obtain rfl := Except.ok.inj (hwire.symm.trans hwire')
  exact ⟨rfl, rfl, List.append_cancel_left hsame⟩

/-- Wire forms that were joined can be cut apart in one way only. -/
theorem eq_of_flatten_eq {ms ms' : List Message} {ws ws' : List Bytes}
    (hwires : List.Forall₂ (fun m w => m.encode = .ok w) ms ws)
    (hwires' : List.Forall₂ (fun m w => m.encode = .ok w) ms' ws')
    (hsame : ws.flatten = ws'.flatten) : ms = ms' ∧ ws = ws' := by
  induction hwires generalizing ms' ws' with
  | nil =>
    cases hwires' with
    | nil => exact ⟨rfl, rfl⟩
    | cons hwire' _ =>
      rw [List.flatten_cons] at hsame
      exact absurd (List.append_eq_nil_iff.mp hsame.symm).1 (ne_nil_of_encode hwire')
  | cons hwire _ ih =>
    cases hwires' with
    | nil =>
      rw [List.flatten_cons] at hsame
      exact absurd (List.append_eq_nil_iff.mp hsame).1 (ne_nil_of_encode hwire)
    | cons hwire' hmore' =>
      rw [List.flatten_cons, List.flatten_cons] at hsame
      obtain ⟨rfl, rfl, hrest⟩ := eq_of_append_eq hwire hwire' hsame
      obtain ⟨rfl, rfl⟩ := ih hmore' hrest
      exact ⟨rfl, rfl⟩

end Message

/-! ### Messages without a wire form -/

section

variable {direction : Direction} {payload : Bytes} {e : WireError}

/-- A short message is refused just for a payload above 255 bytes. -/
theorem encodeShort_eq_error_iff {code : UInt8} :
    encodeShort direction code payload = .error e ↔
      255 < payload.length ∧ e = .shortPayload payload.length := by
  rw [encodeShort]
  by_cases hlength : payload.length ≤ Version.v1.maxPayload
  · have hmax : ¬ 255 < payload.length := Nat.not_lt.mpr hlength
    simp [hlength, hmax]
  · have hmax : 255 < payload.length := Nat.lt_of_not_le hlength
    simp [hlength, hmax, eq_comm]

/-- A long message is refused just for a payload above 65535 bytes. -/
theorem encodeLong_eq_error_iff {flag : UInt8} {code : UInt16} :
    encodeLong direction flag code payload = .error e ↔
      65535 < payload.length ∧ e = .longPayload payload.length := by
  rw [encodeLong]
  by_cases hlength : payload.length ≤ Version.v2.maxPayload
  · have hmax : ¬ 65535 < payload.length := Nat.not_lt.mpr hlength
    simp [hlength, hmax]
  · have hmax : 65535 < payload.length := Nat.lt_of_not_le hlength
    simp [hlength, hmax, eq_comm]

/-- A code above 255 is reported before a payload that is too large. -/
theorem Frame.encode_eq_error_iff {f : Frame} :
    f.encode = .error e ↔
      (f.version = .v1 ∧ 256 ≤ f.code.toNat ∧ e = .shortCode f.code) ∨
        (f.version = .v1 ∧ f.code.toNat < 256 ∧ 255 < f.payload.length ∧
          e = .shortPayload f.payload.length) ∨
        (f.version = .v2 ∧ 65535 < f.payload.length ∧ e = .longPayload f.payload.length) := by
  obtain ⟨version, direction, code, payload⟩ := f
  cases version with
  | v1 =>
    by_cases hcode : code.toNat < 256
    · have hnarrow : ¬ 256 ≤ code.toNat := Nat.not_le.mpr hcode
      simp [Frame.encode, hcode, hnarrow, encodeShort_eq_error_iff]
    · have hwide : 256 ≤ code.toNat := Nat.le_of_not_lt hcode
      simp [Frame.encode, hcode, hwide, eq_comm]
  | v2 => simp [Frame.encode, encodeLong_eq_error_iff]

/-- A frame has a wire form just if its payload, and of a short frame its code, fit their fields. -/
theorem Frame.exists_encode_eq_ok_iff {f : Frame} :
    (∃ w, f.encode = .ok w) ↔
      f.payload.length ≤ f.version.maxPayload ∧ (f.version = .v1 → f.code.toNat < 256) := by
  obtain ⟨version, direction, code, payload⟩ := f
  cases version with
  | v1 =>
    by_cases hcode : code.toNat < 256
    · simp [Frame.encode, hcode, encodeShort_eq_ok_iff]
    · simp [Frame.encode, hcode]
  | v2 => simp [Frame.encode, encodeLong_eq_ok_iff]

end

/-- A short message has a wire form if its payload has at most 255 bytes, a long one if it has at
most 65535, and then the payload has six or nine bytes around it; a frame also needs a code that
fits, which is looked at first. No wire form is the beginning of another one, each is that of one
message only, and wire forms that were joined can be cut apart in one way only, flags included. -/
theorem wire_forms_split_uniquely :
    (∀ (direction : Direction) (code : UInt8) (payload : Bytes),
        ((∃ w, encodeShort direction code payload = .ok w) ↔ payload.length ≤ 255) ∧
          ∀ w, encodeShort direction code payload = .ok w → w.length = 6 + payload.length) ∧
      (∀ (direction : Direction) (flag : UInt8) (code : UInt16) (payload : Bytes),
        ((∃ w, encodeLong direction flag code payload = .ok w) ↔ payload.length ≤ 65535) ∧
          ∀ w, encodeLong direction flag code payload = .ok w → w.length = 9 + payload.length) ∧
      (∀ f : Frame,
        ((∃ w, f.encode = .ok w) ↔
            f.payload.length ≤ f.version.maxPayload ∧ (f.version = .v1 → f.code.toNat < 256)) ∧
          ∀ e, f.encode = .error e ↔
            (f.version = .v1 ∧ 256 ≤ f.code.toNat ∧ e = .shortCode f.code) ∨
              (f.version = .v1 ∧ f.code.toNat < 256 ∧ 255 < f.payload.length ∧
                e = .shortPayload f.payload.length) ∨
              (f.version = .v2 ∧ 65535 < f.payload.length ∧ e = .longPayload f.payload.length)) ∧
      (∀ (m m' : Message) (w w' : Bytes), m.encode = .ok w → m'.encode = .ok w' → w <+: w' →
        w = w' ∧ m = m') ∧
      ∀ (ms ms' : List Message) (ws ws' : List Bytes),
        List.Forall₂ (fun m w => m.encode = .ok w) ms ws →
        List.Forall₂ (fun m w => m.encode = .ok w) ms' ws' →
        ws.flatten = ws'.flatten → ms = ms' ∧ ws = ws' := by
  refine ⟨?_, ?_, fun f => ⟨Frame.exists_encode_eq_ok_iff, fun e => Frame.encode_eq_error_iff⟩, ?_,
    fun ms ms' ws ws' => Message.eq_of_flatten_eq⟩
  · intro direction code payload
    refine ⟨by simp [encodeShort_eq_ok_iff, Version.maxPayload], ?_⟩
    intro w hwire
    obtain ⟨-, rfl⟩ := encodeShort_eq_ok_iff.mp hwire
    exact Message.length_toBytes_item (.short direction code payload)
  · intro direction flag code payload
    refine ⟨by simp [encodeLong_eq_ok_iff, Version.maxPayload], ?_⟩
    intro w hwire
    obtain ⟨-, rfl⟩ := encodeLong_eq_ok_iff.mp hwire
    exact Message.length_toBytes_item (.long direction flag code payload)
  · intro m m' w w' hwire hwire' hfront
    obtain rfl := Message.eq_of_startsWith hwire hwire' hfront
    exact ⟨Except.ok.inj (hwire.symm.trans hwire'), rfl⟩

/-- A long frame with flag one, whose payload is a short frame, in front of that short frame: with
another flag the bytes are others, and they are the beginning of nothing else. -/
theorem wire_forms_split_uniquely_nested :
    let short : Message := .short .request 7 []
    let flagged : Message := .long .response 1 0x1001 [0x24, 0x4D, 0x3C, 0, 7, 7]
    let plain : Message := .long .response 0 0x1001 [0x24, 0x4D, 0x3C, 0, 7, 7]
    let w : Bytes := [0x24, 0x4D, 0x3C, 0, 7, 7]
    let flaggedWire : Bytes := [0x24, 0x58, 0x3E, 1, 0x01, 0x10, 6, 0] ++ w ++ [0x8C]
    let plainWire : Bytes := [0x24, 0x58, 0x3E, 0, 0x01, 0x10, 6, 0] ++ w ++ [0xB8]
    short.encode = .ok w ∧ flagged.encode = .ok flaggedWire ∧ plain.encode = .ok plainWire ∧
      w.length = 6 + 0 ∧ flaggedWire.length = 9 + 6 ∧
      (Frame.mk .v1 .request 256 (List.replicate 256 0)).encode = .error (.shortCode 256) ∧
      ¬ plainWire <+: flaggedWire ∧
      [flaggedWire, w].flatten ≠ [plainWire, w].flatten := by
  intro short flagged plain w flaggedWire plainWire
  have hshort : short.encode = .ok w := rfl
  have hflagged : flagged.encode = .ok flaggedWire := by decide +kernel
  have hplain : plain.encode = .ok plainWire := by decide +kernel
  obtain ⟨hshorts, hlongs, hframes, hfront, hjoined⟩ := wire_forms_split_uniquely
  have hother : plain ≠ flagged := by decide
  refine ⟨hshort, hflagged, hplain, (hshorts .request 7 []).2 w hshort,
    (hlongs .response 1 0x1001 w).2 _ hflagged, ?_, ?_, ?_⟩
  · exact ((hframes _).2 _).mpr (Or.inl ⟨rfl, by decide, rfl⟩)
  · exact fun h => hother (hfront plain flagged _ _ hplain hflagged h).2
  · intro hsame
    have hboth := (hjoined [flagged, short] [plain, short] [flaggedWire, w] [plainWire, w]
      (.cons hflagged (.cons hshort .nil)) (.cons hplain (.cons hshort .nil)) hsame).1
    exact hother (List.head_eq_of_cons_eq hboth).symm

end FlightLink
