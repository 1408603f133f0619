import FlightLink.Proofs.Scan

/-!
# Phases as bytes of an item

A receiver in the middle of an item stands in a phase that is determined by the bytes of the item
received so far: this is the invariant `Partway`. A further byte leads on in the same item, or it is
the last of an item and the receiver has done with the item what `Receiver.settle` says.
-/

namespace FlightLink

/-- No frame is in progress, and nothing is in the buffer. -/
structure Receiver.AtRest (r : Receiver) : Prop where
  /-- The receiver stands between frames. -/
  phase : r.phase = .idle
  /-- The buffer is empty. -/
  payload : r.payload = #[]

/-- A receiver that has received exactly `part` of an item stands in `phase`, holds `payload` and
has made room for `room` payload bytes. The limit is on declared sizes. -/
inductive Partway (limit : Nat) : (part : Bytes) → Phase → (payload : Bytes) → (room : Nat) → Prop
  | idle : Partway limit [] .idle [] 0
  | preamble : Partway limit [preamble] .preamble [] 0
  | direction (version : Version) :
    Partway limit [preamble, version.marker] (.direction version) [] 0
  | shortSize (direction : Direction) :
    Partway limit (opening .v1 direction) (.shortSize direction) [] 0
  | shortCode (direction : Direction) (size : UInt8) (hsize : size.toNat ≤ limit) :
    Partway limit (opening .v1 direction ++ [size])
      (.shortCode direction size.toNat (xorSum [size])) [] size.toNat
  | shortPayload (direction : Direction) (size code : UInt8) (payload : Bytes)
      (hsize : size.toNat ≤ limit) (hlength : payload.length < size.toNat) :
    Partway limit (opening .v1 direction ++ size :: code :: payload)
      (.shortPayload direction code size.toNat (xorSum (size :: code :: payload)))
      payload size.toNat
  | shortChecksum (direction : Direction) (size code : UInt8) (payload : Bytes)
      (hsize : size.toNat ≤ limit) (hlength : payload.length = size.toNat) :
    Partway limit (opening .v1 direction ++ size :: code :: payload)
      (.shortChecksum direction code (xorSum (size :: code :: payload))) payload size.toNat
  | longHeader (direction : Direction) (header : LongHeader) (filled : Nat)
      (hfilled : filled < LongHeader.byteCount)
      (hblank : ∀ i, filled ≤ i → i < LongHeader.byteCount → header.toBytes[i]? = some 0) :
    Partway limit (opening .v2 direction ++ header.toBytes.take filled)
      (.longHeader direction header filled) [] 0
  | longPayload (direction : Direction) (header : LongHeader) (payload : Bytes)
      (hsize : header.size ≤ limit) (hlength : payload.length < header.size) :
    Partway limit (opening .v2 direction ++ header.toBytes ++ payload)
      (.longPayload direction header header.code header.size) payload header.size
  | longChecksum (direction : Direction) (header : LongHeader) (payload : Bytes)
      (hsize : header.size ≤ limit) (hlength : payload.length = header.size) :
    Partway limit (opening .v2 direction ++ header.toBytes ++ payload)
      (.longChecksum direction header header.code) payload header.size

/-- Part of an item is no whole item. -/
theorem Partway.scanItem_eq_none {limit room : Nat} {part payload : Bytes} {phase : Phase}
    (hpart : Partway limit part phase payload room) : scanItem limit part = none := by
  cases hpart with
  | idle => rfl
  | preamble => rfl
  | direction version => simp [scanItem, scanFrame]
  | shortSize direction =>
    rw [← List.append_nil (opening _ _), scanItem_opening_short]
    rfl
  | shortCode direction size hsize =>
    rw [scanItem_opening_short]
    simp [scanShort, Nat.not_lt.mpr hsize]
  | shortPayload direction size code _ hsize hlength =>
    rw [scanItem_opening_short]
    simp [scanShort, Nat.not_lt.mpr hsize, cutPayload_eq_none (Nat.le_of_lt hlength)]
  | shortChecksum direction size code _ hsize hlength =>
    rw [scanItem_opening_short]
    simp [scanShort, Nat.not_lt.mpr hsize, cutPayload_eq_none (Nat.le_of_eq hlength)]
  | longHeader direction header filled hfilled =>
    rw [scanItem_opening_long]
    exact scanLong_eq_none (Nat.lt_of_le_of_lt (List.length_take_le ..) hfilled)
  | longPayload direction header _ hsize hlength =>
    have hcut := cutPayload_eq_none (Nat.le_of_lt hlength)
    rw [List.append_assoc, scanItem_opening_long]
    simp [scanLong, LongHeader.toBytes, Nat.not_lt.mpr hsize, hcut]
  | longChecksum direction header _ hsize hlength =>
    have hcut := cutPayload_eq_none (Nat.le_of_eq hlength)
    rw [List.append_assoc, scanItem_opening_long]
    simp [scanLong, LongHeader.toBytes, Nat.not_lt.mpr hsize, hcut]

/-- Between frames nothing of an item has come. -/
theorem Partway.eq_nil_of_idle {limit room : Nat} {part payload : Bytes}
    (hpart : Partway limit part .idle payload room) : part = [] ∧ payload = [] := by
  cases hpart
  exact ⟨rfl, rfl⟩

/-- Once some of an item has come, the receiver is not between frames. -/
theorem Partway.phase_eq_idle_iff {limit room : Nat} {part payload : Bytes} {phase : Phase}
    (hpart : Partway limit part phase payload room) : phase = .idle ↔ part = [] := by
  cases hpart <;> simp [opening]

namespace Receiver

/-- A receiver at rest, after `count` more bytes that led into an item; with the signals raised. -/
def inside (r : Receiver) (phase : Phase) (payload : Bytes) (room count : Nat) :
    Receiver × List Signal :=
  ({ r with
      phase := phase
      payload := payload.toArray
      capacity := max r.capacity room
      tally.bytes := r.tally.bytes + count },
    growth r.capacity room)

variable {r : Receiver} {rejection : Rejection} {phase next : Phase} {payload : Bytes}
  {room count size : Nat}

/-- At the start of an item nothing has changed yet. -/
theorem inside_idle (hrest : r.AtRest) : r.inside .idle [] 0 0 = (r, []) := by
  obtain ⟨hphase, hpayload⟩ := hrest
  simp [inside, ← hphase, ← hpayload]

/-- A byte is counted before anything else is done about it. -/
theorem step_inside (byte : UInt8) :
    (r.inside phase payload room count).1.step byte =
      (r.inside phase payload room (count + 1)).1.advance byte := rfl

/-- Whom a rejection is reported to does not depend on the place in an item. -/
theorem report_inside :
    (r.inside phase payload room count).1.report rejection = r.report rejection := rfl

/-- A receiver that makes room grows its buffer to the declared size, if need be. -/
theorem makeRoom_inside (hsize : size ≤ r.limit) :
    (r.inside phase payload 0 count).1.makeRoom size next = r.inside next [] size count := by
  have hlimit : ¬ r.limit < size := Nat.not_lt.mpr hsize
  by_cases hcapacity : r.capacity < size
  · have hmax := Nat.max_eq_right (Nat.le_of_lt hcapacity)
    simp [makeRoom, inside, growth, hlimit, hcapacity, hmax]
  · have hmax := Nat.max_eq_left (Nat.not_lt.mp hcapacity)
    simp [makeRoom, inside, growth, hlimit, hcapacity, hmax]

/-- A declared size above the limit ends the item, and no room is made. -/
theorem makeRoom_inside_of_lt (hrest : r.AtRest) (hsize : r.limit < size) :
    (r.inside phase payload 0 count).1.makeRoom size next =
      ((r.close count 0 (.oversized ⟨size, r.limit⟩)).1,
        r.announce (.oversized ⟨size, r.limit⟩)) := by
  obtain ⟨hphase, hpayload⟩ := hrest
  simp [makeRoom, inside, close, announce, Tally.after, hsize, ← hphase, ← hpayload]

/-- A payload byte is kept, and the last of them leads to the checksum. -/
theorem store_inside (byte : UInt8) (more full : Phase) :
    (r.inside phase payload room count).1.store byte size more full =
      ((r.inside (if payload.length + 1 = size then full else more) (payload ++ [byte])
        room count).1, []) := by
  simp [store, enter, inside]

/-- A byte that breaks an opening ends the item. -/
theorem loseSync_inside (hrest : r.AtRest)
    (hsync : (Verdict.rejected rejection).isSyncFailure = true) :
    (r.inside phase [] 0 count).1.loseSync rejection =
      ((r.close count 0 (.rejected rejection)).1, r.announce (.rejected rejection)) := by
  obtain ⟨hphase, hpayload⟩ := hrest
  cases rejection with
  | checksumMismatch => cases hsync
  | badVersionMarker byte =>
    simp only [loseSync, report_inside]
    simp [inside, close, announce, Tally.after, ← hphase, ← hpayload]
  | badDirection byte =>
    simp only [loseSync, report_inside]
    simp [inside, close, announce, Tally.after, ← hphase, ← hpayload]

/-- The last byte of a whole frame ends the item with the verdict on its checksum. -/
theorem finish_inside (hrest : r.AtRest) (version : Version) (direction : Direction)
    (code : UInt16) (expected received : UInt8) :
    (r.inside phase payload room count).1.finish version direction code expected received =
      ((r.close count room (.judge version direction code payload expected received)).1,
        r.announce (.judge version direction code payload expected received)) := by
  obtain ⟨hphase, hpayload⟩ := hrest
  by_cases hequal : expected = received
  · simp [finish, inside, close, announce, Verdict.judge, Tally.after, hequal, ← hphase,
      ← hpayload]
  · simp only [finish, report_inside, if_neg hequal]
    simp [inside, close, announce, Verdict.judge, Tally.after, hequal, ← hphase, ← hpayload]

end Receiver

end FlightLink
