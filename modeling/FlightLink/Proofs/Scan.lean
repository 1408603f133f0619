import FlightLink.Proofs.Items

/-!
# Reading a stream by items

The scanner has the whole stream before it. At the start of an item it looks as far ahead as it
needs to, takes the item off the front and goes on behind it; bytes that are no whole item yet are
left over. It keeps nothing between two items but its place in the stream.
-/

namespace FlightLink

/-- A payload of `size` bytes, the byte behind it and the rest. -/
def cutPayload (size : Nat) (data : Bytes) : Option (Bytes × UInt8 × Bytes) :=
  match data.drop size with
  | [] => none
  | checksum :: rest => some (data.take size, checksum, rest)

/-- Takes a short frame or its head, from the size on. -/
def scanShort (limit : Nat) (direction : Direction) : Bytes → Option (Item × Bytes)
  | [] => none
  | size :: data =>
    if limit < size.toNat then some (.shortHead direction size, data)
    else match data with
    | [] => none
    | code :: data =>
      (cutPayload size.toNat data).map fun (payload, checksum, rest) =>
        (.short direction size code payload checksum, rest)

/-- Takes a long frame or its head, from the flag on. -/
def scanLong (limit : Nat) (direction : Direction) : Bytes → Option (Item × Bytes)
  | flag :: codeLow :: codeHigh :: sizeLow :: sizeHigh :: data =>
    let header : LongHeader := ⟨flag, codeLow, codeHigh, sizeLow, sizeHigh⟩
    if limit < header.size then some (.longHead direction header, data)
    else (cutPayload header.size data).map fun (payload, checksum, rest) =>
      (.long direction header payload checksum, rest)
  | _ => none

/-- Takes what stands behind a preamble, from the version marker on. -/
def scanFrame (limit : Nat) : Bytes → Option (Item × Bytes)
  | [] => none
  | marker :: data =>
    match Version.ofMarker? marker, data with
    | none, _ => some (.badMarker marker, data)
    | some _, [] => none
    | some version, byte :: data =>
      match Direction.ofByte? byte, version with
      | none, _ => some (.badDirection version byte, data)
      | some direction, .v1 => scanShort limit direction data
      | some direction, .v2 => scanLong limit direction data

/-- Takes one item off the front of a stream, if there is a whole one. -/
def scanItem (limit : Nat) : Bytes → Option (Item × Bytes)
  | [] => none
  | byte :: data => if byte = preamble then scanFrame limit data else some (.noise byte, data)

/-- A payload and the byte behind it are taken off the front of a stream. -/
theorem cutPayload_append (payload : Bytes) (checksum : UInt8) (rest : Bytes) :
    cutPayload payload.length (payload ++ checksum :: rest) = some (payload, checksum, rest) := by
  simp [cutPayload]

/-- Without a byte behind it, a payload is not complete. -/
theorem cutPayload_eq_none {size : Nat} {data : Bytes} (hsize : data.length ≤ size) :
    cutPayload size data = none := by
  simp [cutPayload, List.drop_eq_nil_of_le hsize]

/-- Cutting takes at least one byte away. -/
theorem length_of_cutPayload {size : Nat} {data payload rest : Bytes} {checksum : UInt8}
    (hcut : cutPayload size data = some (payload, checksum, rest)) : rest.length < data.length := by
  unfold cutPayload at hcut
  split at hcut
  · cases hcut
  · rename_i hdrop
    cases hcut
    have hlength := congrArg List.length hdrop
    simp only [List.length_drop, List.length_cons] at hlength
    omega

/-- Behind an opening, a short frame is read from its size on. -/
theorem scanItem_opening_short (limit : Nat) (direction : Direction) (data : Bytes) :
    scanItem limit (opening .v1 direction ++ data) = scanShort limit direction data := by
  simp [opening, scanItem, scanFrame]

/-- Behind an opening, a long frame is read from its flag on. -/
theorem scanItem_opening_long (limit : Nat) (direction : Direction) (data : Bytes) :
    scanItem limit (opening .v2 direction ++ data) = scanLong limit direction data := by
  simp [opening, scanItem, scanFrame]

/-- A header that has not come in full is no whole item. -/
theorem scanLong_eq_none {limit : Nat} {direction : Direction} {data : Bytes}
    (hlength : data.length < LongHeader.byteCount) : scanLong limit direction data = none := by
  unfold scanLong
  split
  · simp [LongHeader.byteCount] at hlength
    omega
  · rfl

/-- An item written out in front of a stream is the one read off it. -/
theorem scanItem_toBytes {limit : Nat} {item : Item} (hfits : item.Fits limit) (rest : Bytes) :
    scanItem limit (item.toBytes ++ rest) = some (item, rest) := by
  cases item with
  | noise byte =>
    have hbyte : byte ≠ preamble := hfits
    simp [Item.toBytes, scanItem, hbyte]
  | badMarker byte =>
    have hbyte : Version.ofMarker? byte = none := hfits
    simp [Item.toBytes, scanItem, scanFrame, hbyte]
  | badDirection version byte =>
    have hbyte : Direction.ofByte? byte = none := hfits
    simp [Item.toBytes, scanItem, scanFrame, hbyte]
  | shortHead direction size =>
    have hsize : limit < size.toNat := hfits
    rw [Item.toBytes, List.append_assoc, scanItem_opening_short]
    simp [scanShort, hsize]
  | longHead direction header =>
    have hsize : limit < header.size := hfits
    rw [Item.toBytes, List.append_assoc, scanItem_opening_long]
    simp [LongHeader.toBytes, scanLong, hsize]
  | short direction size code payload checksum =>
    obtain ⟨hlength, hsize⟩ := hfits
    have hcut := cutPayload_append payload checksum rest
    rw [hlength] at hcut
    rw [Item.toBytes, List.append_assoc, List.append_assoc, scanItem_opening_short]
    simp [scanShort, Nat.not_lt.mpr hsize, hcut]
  | long direction header payload checksum =>
    obtain ⟨hlength, hsize⟩ := hfits
    have hcut := cutPayload_append payload checksum rest
    rw [hlength] at hcut
    rw [Item.toBytes, List.append_assoc, List.append_assoc, List.append_assoc,
      scanItem_opening_long]
    simp [LongHeader.toBytes, scanLong, Nat.not_lt.mpr hsize, hcut]

/-- Scanning a short frame leaves less behind it. -/
private theorem length_of_scanShort {limit : Nat} {direction : Direction} {data rest : Bytes}
    {item : Item} (hscan : scanShort limit direction data = some (item, rest)) :
    rest.length < data.length := by
  unfold scanShort at hscan
  split at hscan
  · cases hscan
  split at hscan
  · cases hscan
    simp
  split at hscan
  · cases hscan
  · obtain ⟨⟨payload, checksum, rest⟩, hcut, heq⟩ := Option.map_eq_some_iff.mp hscan
    cases heq
    have hlength := length_of_cutPayload hcut
    simp only [List.length_cons]
    omega

/-- Scanning a long frame leaves less behind it. -/
private theorem length_of_scanLong {limit : Nat} {direction : Direction} {data rest : Bytes}
    {item : Item} (hscan : scanLong limit direction data = some (item, rest)) :
    rest.length < data.length := by
  unfold scanLong at hscan
  split at hscan
  · simp only at hscan
    split at hscan
    · cases hscan
      simp only [List.length_cons]
      omega
    · obtain ⟨⟨payload, checksum, rest⟩, hcut, heq⟩ := Option.map_eq_some_iff.mp hscan
      cases heq
      have hlength := length_of_cutPayload hcut
      simp only [List.length_cons]
      omega
  · cases hscan

/-- Taking an item off a stream leaves less of it, so that scanning comes to an end. -/
theorem length_of_scanItem {limit : Nat} {data rest : Bytes} {item : Item}
    (hscan : scanItem limit data = some (item, rest)) : rest.length < data.length := by
  unfold scanItem at hscan
  split at hscan
  · cases hscan
  split at hscan
  · unfold scanFrame at hscan
    split at hscan
    · cases hscan
    split at hscan
    · cases hscan
      simp only [List.length_cons]
      omega
    · cases hscan
    split at hscan
    · cases hscan
      simp only [List.length_cons]
      omega
    · have hlength := length_of_scanShort hscan
      simp only [List.length_cons]
      omega
    · have hlength := length_of_scanLong hscan
      simp only [List.length_cons]
      omega
  · cases hscan
    simp

/-- Reads a whole stream: its items in order, and the bytes left over behind the last. -/
def scan (limit : Nat) (data : Bytes) : List Item × Bytes :=
  match hscan : scanItem limit data with
  | none => ([], data)
  | some (item, rest) =>
    have := length_of_scanItem hscan
    let (items, leftover) := scan limit rest
    (item :: items, leftover)
termination_by data.length

/-- A stream that starts with no whole item is left over. -/
theorem scan_of_none {limit : Nat} {data : Bytes} (hscan : scanItem limit data = none) :
    scan limit data = ([], data) := by
  rw [scan]
  split
  · rfl
  · rename_i heq
    rw [hscan] at heq
    cases heq

/-- A stream that starts with a whole item goes on behind it. -/
theorem scan_of_some {limit : Nat} {data rest : Bytes} {item : Item}
    (hscan : scanItem limit data = some (item, rest)) :
    scan limit data = (item :: (scan limit rest).1, (scan limit rest).2) := by
  rw [scan]
  split
  · rename_i heq
    rw [hscan] at heq
    cases heq
  · rename_i heq
    rw [hscan] at heq
    cases heq
    rfl

/-- Items written out one after the other are read back, and the stream goes on behind them. -/
theorem scan_flatMap_toBytes {limit : Nat} {items : List Item}
    (hfits : ∀ item ∈ items, item.Fits limit) (rest : Bytes) :
    scan limit (items.flatMap Item.toBytes ++ rest) =
      (items ++ (scan limit rest).1, (scan limit rest).2) := by
  induction items with
  | nil => rfl
  | cons item items ih =>
    have hitem := scanItem_toBytes (hfits item (by simp)) (items.flatMap Item.toBytes ++ rest)
    rw [List.flatMap_cons, List.append_assoc, scan_of_some hitem,
      ih (fun i hi => hfits i (by simp [hi]))]
    rfl

end FlightLink
