import FlightLink.Proofs.Reachable
import FlightLink.Proofs.WireForms

/-!
# What a receiver holds in each phase

A phase keeps a size, a code and a running checksum apart from the buffer and the header they belong
to. Wherever a receiver stands, they agree: sizes are within the limit and the capacity, checksums
are those of the bytes received, and the buffer is never asked for more than it has room for.
-/

namespace FlightLink

/-- What the fields of a phase have to do with the limit, the capacity and the bytes in the
buffer. -/
def Phase.Consistent (limit capacity : Nat) (payload : Bytes) : Phase → Prop
  | .idle | .preamble | .direction _ | .shortSize _ => payload = []
  | .shortCode _ size parity =>
    payload = [] ∧ size ≤ min Version.v1.maxPayload limit ∧ size ≤ capacity ∧ parity.toNat = size
  | .shortPayload _ code size parity =>
    payload.length < size ∧ size ≤ min Version.v1.maxPayload limit ∧ size ≤ capacity ∧
      parity = xorSum (lowByte size :: code :: payload)
  | .shortChecksum _ code parity =>
    payload.length ≤ Version.v1.maxPayload ∧
      parity = xorSum (lowByte payload.length :: code :: payload)
  | .longHeader _ header filled =>
    payload = [] ∧ filled < LongHeader.byteCount ∧
      ∀ i, filled ≤ i → i < LongHeader.byteCount → header.toBytes[i]? = some 0
  | .longPayload _ header code size =>
    code.toNat = header.codeLow.toNat + 256 * header.codeHigh.toNat ∧
      size = header.sizeLow.toNat + 256 * header.sizeHigh.toNat ∧
      payload.length < size ∧ size ≤ limit ∧ size ≤ capacity
  | .longChecksum _ header code =>
    code.toNat = header.codeLow.toNat + 256 * header.codeHigh.toNat ∧
      payload.length = header.sizeLow.toNat + 256 * header.sizeHigh.toNat

/-- Part of an item leaves a receiver in a phase that agrees with the buffer, if there is as much
room as was asked for. -/
theorem Partway.consistent {limit room capacity : Nat} {part payload : Bytes} {phase : Phase}
    (hpart : Partway limit part phase payload room) (hroom : room ≤ capacity) :
    phase.Consistent limit capacity payload ∧ payload.length ≤ capacity := by
  cases hpart with
  | idle | preamble | direction | shortSize => exact ⟨rfl, Nat.zero_le capacity⟩
  | shortCode direction size hsize =>
    have hmax : size.toNat ≤ Version.v1.maxPayload := Nat.le_of_lt_succ size.toNat_lt
    have hparity : xorSum [size] = size := UInt8.zero_xor
    exact ⟨⟨rfl, Nat.le_min.mpr ⟨hmax, hsize⟩, hroom, by rw [hparity]⟩, Nat.zero_le capacity⟩
  | shortPayload direction size code _ hsize hlength =>
    have hmax : size.toNat ≤ Version.v1.maxPayload := Nat.le_of_lt_succ size.toNat_lt
    have hlow : lowByte size.toNat = size := UInt8.ofNat_toNat
    exact ⟨⟨hlength, Nat.le_min.mpr ⟨hmax, hsize⟩, hroom, by rw [hlow]⟩, by omega⟩
  | shortChecksum direction size code _ hsize hlength =>
    have hmax : size.toNat ≤ Version.v1.maxPayload := Nat.le_of_lt_succ size.toNat_lt
    have hlow : lowByte payload.length = size := by rw [hlength]; exact UInt8.ofNat_toNat
    exact ⟨⟨by omega, by rw [hlow]⟩, by omega⟩
  | longHeader direction header filled hfilled hblank =>
    exact ⟨⟨rfl, hfilled, hblank⟩, Nat.zero_le capacity⟩
  | longPayload direction header _ hsize hlength =>
    exact ⟨⟨toNat_wordOf _ _, toNat_wordOf _ _, hlength, hsize, hroom⟩, by omega⟩
  | longChecksum direction header _ hsize hlength =>
    exact ⟨⟨toNat_wordOf _ _, hlength.trans (toNat_wordOf _ _)⟩, by omega⟩

namespace Receiver

variable {r : Receiver}

/-- The end of a frame leaves the capacity as it is. -/
theorem capacity_finish (version : Version) (direction : Direction) (code : UInt16)
    (expected received : UInt8) :
    (r.finish version direction code expected received).1.capacity = r.capacity := by
  unfold finish
  split <;> rfl

/-- Making room empties the buffer, also where the frame is given up. -/
theorem payload_makeRoom (size : Nat) (next : Phase) :
    (r.makeRoom size next).1.payload = #[] := by
  unfold makeRoom
  split
  · rfl
  · split <;> rfl

/-- A byte that changes the capacity empties the buffer. -/
theorem capacity_step_or_payload_step (r : Receiver) (byte : UInt8) :
    (r.step byte).1.capacity = r.capacity ∨ (r.step byte).1.payload = #[] := by
  unfold step advance
  cases hphase : r.phase with
  | idle | shortPayload | longPayload => exact Or.inl rfl
  | preamble =>
    cases Version.ofMarker? byte <;> simp [loseSync, enter]
  | direction version =>
    cases Direction.ofByte? byte <;> cases version <;> simp [loseSync, enter]
  | shortSize => exact Or.inr (payload_makeRoom _ _)
  | shortCode direction size parity =>
    by_cases hsize : size = 0 <;> simp [hsize, enter]
  | shortChecksum | longChecksum => exact Or.inl (capacity_finish ..)
  | longHeader direction header filled =>
    dsimp only
    split
    · exact Or.inl rfl
    · exact Or.inr (payload_makeRoom _ _)

/-- Wherever a receiver stands, its phase agrees with its buffer. -/
theorem Reachable.consistent (hr : r.Reachable) :
    r.phase.Consistent r.limit r.capacity r.payload.toList ∧ r.payload.size ≤ r.capacity := by
  obtain ⟨part, hr⟩ := hr.hasPart
  obtain ⟨room, hpart, hroom⟩ := hr.partway
  exact hpart.consistent hroom

end Receiver

/-- Wherever a new receiver is led to, the fields of its phase agree with its buffer, and no more
bytes are in the buffer than it has room for. A header byte finds its place in the header; a payload
byte finds room that was made before, so that the buffer does not grow for it. -/
theorem consistent_of_operations (s : ReceiverSettings) (ops : List Operation) :
    let r := ((Session.ofSettings s).performAll ops).1.receiver
    r.limit = s.maxPayload ∧ r.payload.size ≤ r.capacity ∧
      r.phase.Consistent r.limit r.capacity r.payload.toList ∧
      (∀ direction header filled, r.phase = .longHeader direction header filled →
        filled < header.toBytes.length) ∧
      ∀ byte, r.payload.size < (r.step byte).1.payload.size →
        (r.step byte).1.payload.size ≤ r.capacity ∧ (r.step byte).1.capacity = r.capacity := by
  intro r
  have hstart : (Session.ofSettings s).receiver.HasPart [] := Receiver.AtRest.hasPart ⟨rfl, rfl⟩
  have hreach : r.Reachable := ⟨s, ops, rfl⟩
  obtain ⟨hphase, hpayload⟩ := hreach.consistent
  refine ⟨hstart.limit_performAll ops, hpayload, hphase, ?_, ?_⟩
  · intro direction header filled hheader
    rw [hheader] at hphase
    exact hphase.2.1
  · intro byte hpush
    have hcapacity : (r.step byte).1.capacity = r.capacity := by
      rcases r.capacity_step_or_payload_step byte with hcapacity | hempty
      · exact hcapacity
      · rw [hempty] at hpush
        exact absurd hpush (Nat.not_lt_zero _)
    have hstep : (r.feed [byte]).1 = (r.step byte).1 := by
      rw [Receiver.feed_cons, Receiver.feed_nil]
    have hnext : (r.step byte).1.payload.size ≤ (r.step byte).1.capacity :=
      hstep ▸ (hreach.feed [byte]).consistent.2
    exact ⟨hcapacity ▸ hnext, hcapacity⟩

end FlightLink
