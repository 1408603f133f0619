import FlightLink.Proofs.Partway
import FlightLink.Receiver.Lemmas

/-!
# One byte at a time

One lemma for each phase says where a byte leads from there; together they are the induction step
for a run. From rest, a receiver settles item after item and is left partway into the next.
-/

namespace FlightLink

/-- The exclusive or of bytes is carried on by one more byte. -/
theorem xorSum_append_singleton (data : Bytes) (byte : UInt8) :
    xorSum (data ++ [byte]) = xorSum data ^^^ byte := by
  simp [xorSum, List.foldl_append]

namespace Receiver

/-- One more byte, with the signals raised before it. -/
def thenStep (before : Receiver × List Signal) (byte : UInt8) : Receiver × List Signal :=
  ((before.1.step byte).1, before.2 ++ (before.1.step byte).2)

/-- The bytes received since the last item leave a receiver that was at rest somewhere in the next
item, or they are a whole item and the receiver has settled it. -/
def LeadsTo (r : Receiver) (part : Bytes) (after : Receiver × List Signal) : Prop :=
  (∃ phase payload room, Partway r.limit part phase payload room ∧
    after = r.inside phase payload room part.length) ∨
  ∃ item : Item, item.Fits r.limit ∧ item.toBytes = part ∧ after = r.settle item

section

variable {r : Receiver} {part payload payload' : Bytes} {phase next : Phase} {room size : Nat}
  {byte : UInt8}

/-- A byte that only moves the receiver on keeps it in the item. -/
private theorem leadsTo_of_enter
    (hpart : Partway r.limit (part ++ [byte]) next payload' room)
    (hadvance : (r.inside phase payload room (part.length + 1)).1.advance byte =
      ((r.inside next payload' room (part.length + 1)).1, [])) :
    r.LeadsTo (part ++ [byte]) (thenStep (r.inside phase payload room part.length) byte) := by
  refine Or.inl ⟨next, payload', room, hpart, ?_⟩
  rw [thenStep, step_inside, hadvance, List.length_append]
  exact Prod.ext rfl (List.append_nil _)

/-- A byte that completes a declared size keeps the receiver in the item, with room made. -/
private theorem leadsTo_of_makeRoom
    (hpart : Partway r.limit (part ++ [byte]) next [] size)
    (hadvance : (r.inside phase payload 0 (part.length + 1)).1.advance byte =
      r.inside next [] size (part.length + 1)) :
    r.LeadsTo (part ++ [byte]) (thenStep (r.inside phase payload 0 part.length) byte) := by
  refine Or.inl ⟨next, [], size, hpart, ?_⟩
  have hraised : (r.inside phase payload 0 part.length).2 = [] := growth_zero r.capacity
  rw [thenStep, step_inside, hadvance, hraised, List.length_append]
  rfl

/-- A byte that ends the item has the receiver settle it. -/
private theorem leadsTo_of_item (item : Item) (hfits : item.Fits r.limit)
    (hbytes : item.toBytes = part ++ [byte]) (hroom : item.room = room)
    (hadvance : (r.inside phase payload room (part.length + 1)).1.advance byte =
      ((r.close (part.length + 1) room (item.verdict r.limit)).1,
        r.announce (item.verdict r.limit))) :
    r.LeadsTo (part ++ [byte]) (thenStep (r.inside phase payload room part.length) byte) := by
  refine Or.inr ⟨item, hfits, hbytes, ?_⟩
  rw [thenStep, step_inside, hadvance, settle, hbytes, hroom, List.length_append]
  rfl

end

variable {r : Receiver}

/-! ### Openings -/

/-- Between frames a byte starts an item or is noise. -/
private theorem leadsTo_idle (hrest : r.AtRest) (byte : UInt8) :
    r.LeadsTo ([] ++ [byte]) (thenStep (r.inside .idle [] 0 0) byte) := by
  by_cases hbyte : byte = FlightLink.preamble
  · subst hbyte
    have hpart : Partway r.limit ([] ++ [FlightLink.preamble]) .preamble [] 0 := .preamble
    exact leadsTo_of_enter hpart rfl
  · have hbytes : (Item.noise byte).toBytes = [] ++ [byte] := rfl
    refine leadsTo_of_item (.noise byte) hbyte hbytes rfl ?_
    have hadvance : (r.inside .idle [] 0 1).1.advance byte = ((r.inside .idle [] 0 1).1, []) := by
      simp [advance, enter, inside, hbyte]
    obtain ⟨hphase, hpayload⟩ := hrest
    exact hadvance.trans
      (by simp [inside, close, Item.verdict, announce, Tally.after, ← hphase, ← hpayload])

/-- Behind the preamble stands the marker of a version, or the frame is dropped. -/
private theorem leadsTo_preamble (hrest : r.AtRest) (byte : UInt8) :
    r.LeadsTo ([FlightLink.preamble] ++ [byte])
      (thenStep (r.inside .preamble [] 0 [FlightLink.preamble].length) byte) := by
  cases hmarker : Version.ofMarker? byte with
  | some version =>
    obtain rfl := Version.ofMarker?_eq_some_iff.mp hmarker
    refine leadsTo_of_enter (.direction version) ?_
    simp [advance, enter, inside]
  | none =>
    refine leadsTo_of_item (.badMarker byte) hmarker rfl rfl ?_
    have hadvance : (r.inside .preamble [] 0 2).1.advance byte =
        (r.inside .preamble [] 0 2).1.loseSync (.badVersionMarker byte) := by
      simp [advance, inside, hmarker]
    exact hadvance.trans (loseSync_inside hrest rfl)

/-- Behind the marker stands a direction, or the frame is dropped. -/
private theorem leadsTo_direction (hrest : r.AtRest) (version : Version) (byte : UInt8) :
    r.LeadsTo ([FlightLink.preamble, version.marker] ++ [byte])
      (thenStep (r.inside (.direction version) [] 0 [FlightLink.preamble, version.marker].length)
        byte) := by
  cases hbyte : Direction.ofByte? byte with
  | some direction =>
    obtain rfl := Direction.ofByte?_eq_some_iff.mp hbyte
    cases version with
    | v1 =>
      refine leadsTo_of_enter (.shortSize direction) ?_
      simp [advance, enter, inside]
    | v2 =>
      have hblank : ∀ i, 0 ≤ i → i < LongHeader.byteCount →
          LongHeader.blank.toBytes[i]? = some 0 := fun i _ => LongHeader.toBytes_blank
      refine leadsTo_of_enter (.longHeader direction .blank 0 (by decide) hblank) ?_
      simp [advance, enter, inside]
  | none =>
    refine leadsTo_of_item (.badDirection version byte) hbyte rfl rfl ?_
    have hadvance : (r.inside (.direction version) [] 0 3).1.advance byte =
        (r.inside (.direction version) [] 0 3).1.loseSync (.badDirection byte) := by
      simp [advance, inside, hbyte]
    exact hadvance.trans (loseSync_inside hrest rfl)

/-! ### Short frames -/

/-- The size of a short frame has room made for its payload, or is above the limit and ends the
item. -/
private theorem leadsTo_shortSize (hrest : r.AtRest) (direction : Direction) (size : UInt8) :
    r.LeadsTo (opening .v1 direction ++ [size])
      (thenStep (r.inside (.shortSize direction) [] 0 (opening .v1 direction).length) size) := by
  by_cases hsize : size.toNat ≤ r.limit
  · refine leadsTo_of_makeRoom (.shortCode direction size hsize) ?_
    have hxor : xorSum [size] = size := by simp [xorSum]
    rw [hxor]
    exact makeRoom_inside hsize
  · have hsize := Nat.not_le.mp hsize
    refine leadsTo_of_item (.shortHead direction size) hsize rfl rfl ?_
    exact makeRoom_inside_of_lt hrest hsize

/-- Behind the code of a short frame comes its payload or, if it has none, its checksum. -/
private theorem leadsTo_shortCode (direction : Direction) (size code : UInt8)
    (hsize : size.toNat ≤ r.limit) :
    r.LeadsTo (opening .v1 direction ++ [size] ++ [code])
      (thenStep (r.inside (.shortCode direction size.toNat (xorSum [size])) [] size.toNat
        (opening .v1 direction ++ [size]).length) code) := by
  have hxor : xorSum [size] ^^^ code = xorSum [size, code] :=
    (xorSum_append_singleton [size] code).symm
  by_cases hzero : size.toNat = 0
  · refine leadsTo_of_enter (.shortChecksum direction size code [] hsize hzero.symm) ?_
    simp [advance, enter, inside, hzero, hxor]
  · refine leadsTo_of_enter
      (.shortPayload direction size code [] hsize (Nat.pos_of_ne_zero hzero)) ?_
    simp [advance, enter, inside, hzero, hxor]

/-- A payload byte of a short frame is kept; behind the last comes the checksum. -/
private theorem leadsTo_shortPayload (direction : Direction) (size code : UInt8) (payload : Bytes)
    (hsize : size.toNat ≤ r.limit) (hlength : payload.length < size.toNat) (byte : UInt8) :
    r.LeadsTo (opening .v1 direction ++ size :: code :: payload ++ [byte])
      (thenStep (r.inside
        (.shortPayload direction code size.toNat (xorSum (size :: code :: payload)))
        payload size.toNat (opening .v1 direction ++ size :: code :: payload).length) byte) := by
  have hxor : xorSum (size :: code :: payload) ^^^ byte =
      xorSum (size :: code :: (payload ++ [byte])) :=
    (xorSum_append_singleton (size :: code :: payload) byte).symm
  by_cases hfull : payload.length + 1 = size.toNat
  · have hpart := Partway.shortChecksum direction size code (payload ++ [byte]) hsize
      (by simpa using hfull)
    refine leadsTo_of_enter (by simpa using hpart) ?_
    rw [← hxor]
    exact (store_inside byte _ _).trans (by rw [if_pos hfull])
  · have hpart := Partway.shortPayload direction size code (payload ++ [byte]) hsize
      (by simp only [List.length_append, List.length_singleton]; omega)
    refine leadsTo_of_enter (by simpa using hpart) ?_
    rw [← hxor]
    exact (store_inside byte _ _).trans (by rw [if_neg hfull])

/-- The checksum ends a short frame. -/
private theorem leadsTo_shortChecksum (hrest : r.AtRest) (direction : Direction)
    (size code : UInt8) (payload : Bytes) (hsize : size.toNat ≤ r.limit)
    (hlength : payload.length = size.toNat) (byte : UInt8) :
    r.LeadsTo (opening .v1 direction ++ size :: code :: payload ++ [byte])
      (thenStep (r.inside (.shortChecksum direction code (xorSum (size :: code :: payload)))
        payload size.toNat (opening .v1 direction ++ size :: code :: payload).length) byte) := by
  refine leadsTo_of_item (.short direction size code payload byte) ⟨hlength, hsize⟩ rfl rfl ?_
  exact finish_inside hrest .v1 direction code.toUInt16 _ byte

/-! ### Long frames -/

/-- The last byte of a header completes the declared size. -/
private theorem leadsTo_of_header (hrest : r.AtRest) {part : Bytes} {phase : Phase} {byte : UInt8}
    {direction : Direction} {header : LongHeader}
    (hbytes : opening .v2 direction ++ header.toBytes = part ++ [byte])
    (hadvance : (r.inside phase [] 0 (part.length + 1)).1.advance byte =
      (r.inside phase [] 0 (part.length + 1)).1.makeRoom header.size
        (if header.size = 0 then .longChecksum direction header header.code
        else .longPayload direction header header.code header.size)) :
    r.LeadsTo (part ++ [byte]) (thenStep (r.inside phase [] 0 part.length) byte) := by
  by_cases hsize : header.size ≤ r.limit
  · have hpart : Partway r.limit (opening .v2 direction ++ header.toBytes)
        (if header.size = 0 then .longChecksum direction header header.code
        else .longPayload direction header header.code header.size) [] header.size := by
      by_cases hzero : header.size = 0
      · rw [if_pos hzero]
        simpa using Partway.longChecksum direction header [] hsize hzero.symm
      · rw [if_neg hzero]
        simpa using Partway.longPayload direction header [] hsize (Nat.pos_of_ne_zero hzero)
    rw [hbytes] at hpart
    exact leadsTo_of_makeRoom hpart (hadvance.trans (makeRoom_inside hsize))
  · have hsize := Nat.not_le.mp hsize
    refine leadsTo_of_item (.longHead direction header) hsize hbytes rfl ?_
    exact hadvance.trans (makeRoom_inside_of_lt hrest hsize)

/-- A header byte is kept in its place; the last one has room made for the payload, or the size is
above the limit and ends the item. -/
private theorem leadsTo_longHeader (hrest : r.AtRest) (direction : Direction)
    (header : LongHeader) (filled : Nat) (hfilled : filled < LongHeader.byteCount)
    (hblank : ∀ i, filled ≤ i → i < LongHeader.byteCount → header.toBytes[i]? = some 0)
    (byte : UInt8) :
    r.LeadsTo (opening .v2 direction ++ header.toBytes.take filled ++ [byte])
      (thenStep (r.inside (.longHeader direction header filled) [] 0
        (opening .v2 direction ++ header.toBytes.take filled).length) byte) := by
  have htaken : (header.set byte filled).toBytes.take (filled + 1) =
      header.toBytes.take filled ++ [byte] := header.take_toBytes_set byte hfilled
  by_cases hmore : filled + 1 < LongHeader.byteCount
  · have hpart : Partway r.limit
        (opening .v2 direction ++ (header.set byte filled).toBytes.take (filled + 1))
        (.longHeader direction (header.set byte filled) (filled + 1)) [] 0 := by
      refine .longHeader direction _ _ hmore fun i hi hlt => ?_
      rw [LongHeader.toBytes_set, List.getElem?_set_ne (by omega)]
      exact hblank i (by omega) hlt
    rw [htaken, ← List.append_assoc] at hpart
    refine leadsTo_of_enter hpart ?_
    simp [advance, enter, inside, hmore]
  · have hlast : filled + 1 = (header.set byte filled).toBytes.length := by
      rw [LongHeader.length_toBytes]
      omega
    rw [hlast, List.take_length] at htaken
    have hbytes : opening .v2 direction ++ (header.set byte filled).toBytes =
        opening .v2 direction ++ header.toBytes.take filled ++ [byte] := by
      rw [htaken, List.append_assoc]
    refine leadsTo_of_header hrest hbytes ?_
    simp only [advance, inside, if_neg hmore]

/-- A payload byte of a long frame is kept; behind the last comes the checksum. -/
private theorem leadsTo_longPayload (direction : Direction) (header : LongHeader)
    (payload : Bytes) (hsize : header.size ≤ r.limit) (hlength : payload.length < header.size)
    (byte : UInt8) :
    r.LeadsTo (opening .v2 direction ++ header.toBytes ++ payload ++ [byte])
      (thenStep (r.inside (.longPayload direction header header.code header.size) payload
        header.size (opening .v2 direction ++ header.toBytes ++ payload).length) byte) := by
  by_cases hfull : payload.length + 1 = header.size
  · have hpart := Partway.longChecksum direction header (payload ++ [byte]) hsize
      (by simpa using hfull)
    rw [← List.append_assoc] at hpart
    refine leadsTo_of_enter hpart ?_
    exact (store_inside byte _ _).trans (by rw [if_pos hfull])
  · have hpart := Partway.longPayload direction header (payload ++ [byte]) hsize
      (by simp only [List.length_append, List.length_singleton]; omega)
    rw [← List.append_assoc] at hpart
    refine leadsTo_of_enter hpart ?_
    exact (store_inside byte _ _).trans (by rw [if_neg hfull])

/-- The checksum ends a long frame. -/
private theorem leadsTo_longChecksum (hrest : r.AtRest) (direction : Direction)
    (header : LongHeader) (payload : Bytes) (hsize : header.size ≤ r.limit)
    (hlength : payload.length = header.size) (byte : UInt8) :
    r.LeadsTo (opening .v2 direction ++ header.toBytes ++ payload ++ [byte])
      (thenStep (r.inside (.longChecksum direction header header.code) payload header.size
        (opening .v2 direction ++ header.toBytes ++ payload).length) byte) := by
  -- The receiver carries the CRC of the header on over the payload it holds.
  have hcrc : payload.toArray.foldl Crc.advance (crc header.toBytes) =
      crc (header.toBytes ++ payload) := by
    rw [crc, crc, crcFrom_append, List.foldl_toArray]
    rfl
  refine leadsTo_of_item (.long direction header payload byte) ⟨hlength, hsize⟩ rfl rfl ?_
  rw [Item.verdict, ← hcrc]
  exact finish_inside hrest .v2 direction header.code _ byte

/-! ### Runs -/

/-- Wherever a receiver stands in an item, the next byte leads on in it or ends it. -/
theorem leadsTo_of_step (hrest : r.AtRest) {part payload : Bytes} {phase : Phase} {room : Nat}
    (hpart : Partway r.limit part phase payload room) (byte : UInt8) :
    r.LeadsTo (part ++ [byte]) (thenStep (r.inside phase payload room part.length) byte) := by
  cases hpart with
  | idle => exact leadsTo_idle hrest byte
  | preamble => exact leadsTo_preamble hrest byte
  | direction version => exact leadsTo_direction hrest version byte
  | shortSize direction => exact leadsTo_shortSize hrest direction byte
  | shortCode direction size hsize => exact leadsTo_shortCode direction size byte hsize
  | shortPayload direction size code _ hsize hlength =>
    exact leadsTo_shortPayload direction size code payload hsize hlength byte
  | shortChecksum direction size code _ hsize hlength =>
    exact leadsTo_shortChecksum hrest direction size code payload hsize hlength byte
  | longHeader direction header filled hfilled hblank =>
    exact leadsTo_longHeader hrest direction header filled hfilled hblank byte
  | longPayload direction header _ hsize hlength =>
    exact leadsTo_longPayload direction header payload hsize hlength byte
  | longChecksum direction header _ hsize hlength =>
    exact leadsTo_longChecksum hrest direction header payload hsize hlength byte

end Receiver

end FlightLink
