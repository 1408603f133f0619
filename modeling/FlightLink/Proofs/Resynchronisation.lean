import FlightLink.Proofs.MixedStreams

/-!
# Between frames again

A receiver does not stay in an item for ever. The limit bounds how many bytes of an item can have
come without its end, each further byte is one more of them, and so one of the next few ends the
item; a frame with the largest payload takes just as many. Bytes that are no preambles therefore
bring any receiver to rest, and it finds the next frame.
-/

namespace FlightLink

/-- The bytes of an item that have come without its end are at most eight and a payload. -/
theorem Partway.length_le {limit room : Nat} {part payload : Bytes} {phase : Phase}
    (hpart : Partway limit part phase payload room) :
    part.length ≤ min limit Version.v2.maxPayload + 8 := by
  have hopening : ∀ version direction, (opening version direction).length = 3 := fun _ _ => rfl
  cases hpart with
  | idle | preamble | direction | shortSize | shortCode =>
    simp only [List.length_append, List.length_cons, List.length_nil, hopening]
    omega
  | longHeader _ header filled hfilled =>
    have htaken : (header.toBytes.take filled).length ≤ filled := List.length_take_le ..
    rw [LongHeader.byteCount] at hfilled
    rw [List.length_append, hopening]
    omega
  | shortPayload _ size _ payload hsize hlength
  | shortChecksum _ size _ payload hsize hlength =>
    have hbyte : size.toNat < 256 := size.toNat_lt
    simp only [List.length_append, List.length_cons, hopening, Version.maxPayload]
    omega
  | longPayload _ header payload hsize hlength
  | longChecksum _ header payload hsize hlength =>
    have hword : header.size ≤ Version.v2.maxPayload := header.size_le
    simp only [List.length_append, hopening, LongHeader.length_toBytes, LongHeader.byteCount]
    omega

/-- Just after a preamble nothing else of an item has come. -/
theorem Partway.eq_of_preamble {limit room : Nat} {part payload : Bytes}
    (hpart : Partway limit part .preamble payload room) : part = [FlightLink.preamble] := by
  cases hpart
  rfl

/-- A stream that ends inside an item is left over. -/
theorem scan_of_item_append {limit : Nat} {item : Item} {front back : Bytes}
    (hfits : item.Fits limit) (hbytes : item.toBytes = front ++ back) (hback : back ≠ []) :
    scan limit front = ([], front) := by
  obtain ⟨hitems, hfront⟩ := scan_sound limit front
  cases hscan : scan limit front with
  | mk items rest =>
    rw [hscan] at hitems hfront
    cases items with
    | nil => rw [hfront]; rfl
    | cons first items =>
      -- The item would be another one, with something behind it.
      let others := items.flatMap Item.toBytes ++ rest
      have hfirst : item.toBytes = first.toBytes ++ (others ++ back) := by
        simp only [hbytes, hfront, others, List.flatMap_cons, List.append_assoc]
      have hone := scanItem_toBytes hfits []
      rw [List.append_nil, hfirst, scanItem_toBytes (hitems first (by simp))] at hone
      have hnothing : others ++ back = [] := congrArg Prod.snd (Option.some.inj hone)
      exact absurd (List.append_eq_nil_iff.mp hnothing).2 hback

namespace Receiver

variable {r : Receiver} {part : Bytes}

/-! ### The end of an item -/

/-- A byte ends the item, or it is one more of its bytes. -/
theorem HasPart.step (hr : r.HasPart part) (byte : UInt8) :
    (r.step byte).1.isIdle = true ∨ (r.step byte).1.HasPart (part ++ [byte]) := by
  obtain ⟨base, phase, payload, room, hrest, hpart, rfl⟩ := hr
  rcases leadsTo_of_step hrest hpart byte with
    ⟨phase', payload', room', hpart', hafter⟩ | ⟨item, -, -, hafter⟩
  · have hstep := congrArg Prod.fst hafter
    exact Or.inr ⟨base, phase', payload', room', hrest, hpart', hstep⟩
  · have hstep : ((base.inside phase payload room part.length).1.step byte).1.phase = .idle :=
      (congrArg (fun after => after.1.phase) hafter).trans hrest.phase
    exact Or.inl (by rw [isIdle, hstep]; rfl)

/-- More bytes than an item can have without its end take a receiver to the end of one. -/
theorem HasPart.exists_isIdle (hr : r.HasPart part) {data : Bytes}
    (hlength : min r.limit Version.v2.maxPayload + 8 < part.length + data.length) :
    ∃ front, front <+: data ∧ front ≠ [] ∧ (r.feed front).1.isIdle = true := by
  induction data generalizing r part with
  | nil =>
    obtain ⟨room, hpart, -⟩ := hr.partway
    have hmost := hpart.length_le
    rw [List.length_nil] at hlength
    omega
  | cons byte data ih =>
    rcases hr.step byte with hidle | hstep
    · refine ⟨[byte], ⟨data, rfl⟩, List.cons_ne_nil _ _, ?_⟩
      rw [feed_cons, feed_nil]
      exact hidle
    · have hlimit : (r.step byte).1.limit = r.limit := by
        simpa [feed_cons] using (hr.settings_feed [byte]).1
      rw [List.length_cons] at hlength
      obtain ⟨front, hfront, -, hidle⟩ := ih hstep (by
        rw [hlimit, List.length_append, List.length_singleton]
        omega)
      refine ⟨byte :: front, List.cons_prefix_cons.mpr ⟨rfl, hfront⟩, List.cons_ne_nil _ _, ?_⟩
      rw [feed_cons]
      exact hidle

/-- Inside an item, a receiver is not between frames. -/
theorem HasPart.isIdle_eq_false (hr : r.HasPart part) {item : Item} {front back : Bytes}
    (hfits : item.Fits r.limit) (hbytes : item.toBytes = part ++ front ++ back) (hpart : part ≠ [])
    (hback : back ≠ []) : (r.feed front).1.isIdle = false := by
  have hafter := hr.feed front
  rw [scan_of_item_append hfits hbytes hback] at hafter
  rw [Bool.eq_false_iff, ne_eq, hafter.isIdle_iff, List.append_eq_nil_iff]
  exact fun h => hpart h.1

/-! ### Bytes that start nothing -/

/-- Between frames, bytes that are no preambles leave a receiver there. -/
theorem isIdle_feed_of_preamble_notMem (hidle : r.isIdle = true) {data : Bytes}
    (hdata : FlightLink.preamble ∉ data) : (r.feed data).1.isIdle = true := by
  induction data generalizing r with
  | nil => rwa [feed_nil]
  | cons byte data ih =>
    rw [List.mem_cons, not_or] at hdata
    have hphase : r.phase = .idle := beq_iff_eq.mp hidle
    have hstep : (r.step byte).1.phase = .idle := by
      simp [step, advance, enter, hphase, Ne.symm hdata.1]
    rw [feed_cons]
    exact ih (beq_iff_eq.mpr hstep) hdata.2

/-- Bytes that are no preambles, and more of them than an item can have without its end, take any
receiver to a place between frames and leave it there. -/
theorem HasPart.isIdle_feed (hr : r.HasPart part) {data : Bytes}
    (hlength : data.length = min r.limit Version.v2.maxPayload + 8)
    (hdata : FlightLink.preamble ∉ data) : (r.feed data).1.isIdle = true := by
  by_cases hpart : part = []
  · exact isIdle_feed_of_preamble_notMem (hr.isIdle_iff.mpr hpart) hdata
  · have hsome := List.length_pos_iff.mpr hpart
    have henough : min r.limit Version.v2.maxPayload + 8 < part.length + data.length := by omega
    obtain ⟨front, ⟨back, rfl⟩, -, hidle⟩ := hr.exists_isIdle henough
    rw [feed_append]
    exact isIdle_feed_of_preamble_notMem hidle fun h => hdata (List.mem_append_right front h)

/-- Between frames, the wire form of a message gives its frame and nothing else. -/
theorem decode_stretch (hrest : r.AtRest) {f : Frame} {w : Bytes}
    (hstretch : Stretch r.limit (.frame f) w) : (r.decode w).2.2 = .ok [f] := by
  have hstretches : ∀ p ∈ [(Verdict.frame f, w)], Stretch r.limit p.1 p.2 := by simpa using hstretch
  obtain ⟨hout, -, -⟩ := feed_stretches hrest hstretches
  rw [List.flatMap_singleton] at hout
  obtain ⟨hframes, -, -, hfailure⟩ := signals_of_lessGrowth hout
  rw [decode]
  simp only [hframes, hfailure]
  rfl

end Receiver

/-! ### The longest item -/

/-- A long frame with as large a payload as a limit allows. -/
def longestItem (limit : Nat) : Item :=
  let size := min limit Version.v2.maxPayload
  .long .request (.ofFields 0 0 size) (List.replicate size 0) 0

/-- The bytes of the longest item behind its preamble, but for the last. -/
def longestWait (limit : Nat) : Bytes :=
  let size := min limit Version.v2.maxPayload
  [Version.v2.marker, Direction.request.toByte] ++ (LongHeader.ofFields 0 0 size).toBytes ++
    List.replicate size 0

/-- The longest item is one for a receiver with the limit. -/
theorem fits_longestItem (limit : Nat) : (longestItem limit).Fits limit := by
  have hsize := LongHeader.size_ofFields 0 0 (Nat.min_le_right limit Version.v2.maxPayload)
  constructor
  · rw [hsize, List.length_replicate]
  · rw [hsize]
    exact Nat.min_le_left ..

/-- Between its first and last byte it is seven bytes longer than its payload. -/
theorem length_longestWait (limit : Nat) :
    (longestWait limit).length = min limit Version.v2.maxPayload + 7 := by
  simp only [longestWait, List.length_append, List.length_replicate, LongHeader.length_toBytes,
    LongHeader.byteCount, List.length_cons, List.length_nil]
  omega

/-- All through the longest item, a receiver is not between frames. -/
theorem Receiver.HasPart.isIdle_longestWait {r : Receiver} {part : Bytes} (hr : r.HasPart part)
    (hphase : r.phase = .preamble) {front : Bytes} (hfront : front <+: longestWait r.limit) :
    (r.feed front).1.isIdle = false := by
  have hpart : part = [FlightLink.preamble] := by
    obtain ⟨room, hpartway, -⟩ := hr.partway
    exact (hphase ▸ hpartway).eq_of_preamble
  obtain ⟨back, hback⟩ := hfront
  have hbytes : (longestItem r.limit).toBytes = part ++ front ++ (back ++ [0]) := by
    have hwait : (longestItem r.limit).toBytes =
        [FlightLink.preamble] ++ longestWait r.limit ++ [0] := rfl
    rw [hwait, hpart, ← hback]
    simp only [List.append_assoc]
  have hlast : back ++ [(0 : UInt8)] ≠ [] := by simp
  exact hr.isIdle_eq_false (fits_longestItem r.limit) hbytes (by simp [hpart]) hlast

/-- Whatever has been done with a receiver, once it is inside a frame it is between frames again
within the next eight bytes and a largest payload, and just after a preamble it may take all of
them. As many bytes that are no preambles leave any receiver between frames, and the wire form of
any message within the limit that comes next gives its frame. -/
theorem isIdle_within_item_length (settings : ReceiverSettings) (ops : List Operation) :
    let r := ((Session.ofSettings settings).performAll ops).1.receiver
    let most := min settings.maxPayload 65535
    (r.isIdle = false → ∀ data : Bytes, data.length = most + 8 →
        ∃ front, front <+: data ∧ front ≠ [] ∧ (r.feed front).1.isIdle = true) ∧
      (∃ data : Bytes, data.length = most + 7 ∧ ∀ front, front <+: data →
        (((Receiver.ofSettings settings).feed [preamble]).1.feed front).1.isIdle = false ∧
          (r.phase = .preamble → (r.feed front).1.isIdle = false)) ∧
      ∀ data : Bytes, data.length = most + 8 → preamble ∉ data →
        (r.feed data).1.isIdle = true ∧
          (∀ direction code payload w, encodeShort direction code payload = .ok w →
            payload.length ≤ settings.maxPayload →
            ((r.feed data).1.decode w).2.2 = .ok [⟨.v1, direction, code.toUInt16, payload⟩]) ∧
          ∀ direction flag code payload w, encodeLong direction flag code payload = .ok w →
            payload.length ≤ settings.maxPayload →
            ((r.feed data).1.decode w).2.2 = .ok [⟨.v2, direction, code, payload⟩] := by
  intro r most
  have hnew : (Receiver.ofSettings settings).HasPart [] := Receiver.AtRest.hasPart ⟨rfl, rfl⟩
  have hlimit : r.limit = settings.maxPayload :=
    Receiver.HasPart.limit_performAll (s := .ofSettings settings) hnew ops
  obtain ⟨part, hr⟩ : ∃ part, r.HasPart part :=
    Receiver.HasPart.performAll (s := .ofSettings settings) hnew ops
  have hmost : min r.limit Version.v2.maxPayload = most := by rw [hlimit]; rfl
  refine ⟨?_, ⟨longestWait settings.maxPayload, ?_, ?_⟩, ?_⟩
  · intro hbusy data hlength
    have hpart : part ≠ [] := by simpa [hr.isIdle_iff] using Bool.eq_false_iff.mp hbusy
    have hsome := List.length_pos_iff.mpr hpart
    exact hr.exists_isIdle (by omega)
  · exact length_longestWait settings.maxPayload
  · intro front hfront
    refine ⟨?_, fun hphase => hr.isIdle_longestWait hphase (hlimit ▸ hfront)⟩
    have hopened := hnew.feed [preamble]
    exact hopened.isIdle_longestWait rfl hfront
  · intro data hlength hdata
    have hidle : (r.feed data).1.isIdle = true := hr.isIdle_feed (by omega) hdata
    have hrest : (r.feed data).1.AtRest := (hr.feed data).atRest hidle
    have hlimit' : (r.feed data).1.limit = settings.maxPayload :=
      (hr.settings_feed data).1.trans hlimit
    refine ⟨hidle, ?_, ?_⟩
    · intro direction code payload w hwire hpayload
      exact Receiver.decode_stretch hrest (.short hwire (hlimit' ▸ hpayload))
    · intro direction flag code payload w hwire hpayload
      exact Receiver.decode_stretch hrest (.long hwire (hlimit' ▸ hpayload))

/-- A receiver without room for any payload that is stopped in the head of a frame: after eight
zeros it finds an empty frame. -/
theorem isIdle_within_item_length_inside_head :
    let settings : ReceiverSettings := { maxPayload := 0 }
    let r := ((Session.ofSettings settings).performAll
      [.collect [preamble, Version.v1.marker, Direction.request.toByte]]).1.receiver
    let data := List.replicate 8 0
    r.isIdle = false ∧
      (∃ front, front <+: data ∧ front ≠ [] ∧ (r.feed front).1.isIdle = true) ∧
      ((r.feed data).1.decode [0x24, 0x4D, 0x3C, 0, 7, 7]).2.2 = .ok [⟨.v1, .request, 7, []⟩] := by
  intro settings r data
  obtain ⟨hback, -, hnext⟩ := isIdle_within_item_length settings
    [.collect [preamble, Version.v1.marker, Direction.request.toByte]]
  have hbusy : r.isIdle = false := by decide +kernel
  obtain ⟨-, hshort, -⟩ := hnext data rfl (by decide)
  have hwire : encodeShort .request 7 [] = .ok [0x24, 0x4D, 0x3C, 0, 7, 7] := rfl
  exact ⟨hbusy, hback hbusy data rfl, hshort .request 7 [] _ hwire (Nat.le_refl 0)⟩

end FlightLink
