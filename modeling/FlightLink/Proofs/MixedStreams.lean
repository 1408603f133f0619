import FlightLink.Proofs.Reachable
import FlightLink.Proofs.Verdicts
import FlightLink.Proofs.WireForms

/-!
# Streams put together from frames and faults

Whatever stands between the frames of a stream, a receiver finds each of them: noise, openings that
fail, heads that are too large and frames with a wrong checksum each end where they end, and disturb
nothing that follows.
-/

namespace FlightLink

/-- A stretch of a stream, and what a receiver with this limit is to make of it. -/
inductive Stretch (limit : Nat) : Verdict → Bytes → Prop
  /-- The wire form of a short message. -/
  | short {direction : Direction} {code : UInt8} {payload w : Bytes}
      (hwire : encodeShort direction code payload = .ok w) (hlimit : payload.length ≤ limit) :
    Stretch limit (.frame ⟨.v1, direction, code.toUInt16, payload⟩) w
  /-- The wire form of a long message, with any flag. -/
  | long {direction : Direction} {flag : UInt8} {code : UInt16} {payload w : Bytes}
      (hwire : encodeLong direction flag code payload = .ok w) (hlimit : payload.length ≤ limit) :
    Stretch limit (.frame ⟨.v2, direction, code, payload⟩) w
  /-- One byte that is no preamble. -/
  | noise {byte : UInt8} (hbyte : byte ≠ preamble) : Stretch limit .passed [byte]
  /-- A preamble and a byte that is no version marker. -/
  | badMarker {byte : UInt8} (hbyte : ∀ version : Version, byte ≠ version.marker) :
    Stretch limit (.rejected (.badVersionMarker byte)) [preamble, byte]
  /-- A preamble, a version marker and a byte that is no direction. -/
  | badDirection {version : Version} {byte : UInt8}
      (hbyte : ∀ direction : Direction, byte ≠ direction.toByte) :
    Stretch limit (.rejected (.badDirection byte)) [preamble, version.marker, byte]
  /-- The head of a short frame that declares too much. -/
  | shortHead {direction : Direction} {size : UInt8} (hsize : limit < size.toNat) :
    Stretch limit (.oversized ⟨size.toNat, limit⟩) (opening .v1 direction ++ [size])
  /-- The head of a long frame that declares too much. -/
  | longHead {direction : Direction} {header : LongHeader} (hsize : limit < header.size) :
    Stretch limit (.oversized ⟨header.size, limit⟩) (opening .v2 direction ++ header.toBytes)
  /-- The wire form of a short message, but for its last byte. -/
  | shortCorrupted {direction : Direction} {code expected received : UInt8} {payload w : Bytes}
      (hwire : encodeShort direction code payload = .ok (w ++ [expected]))
      (hlimit : payload.length ≤ limit) (hdiffers : expected ≠ received) :
    Stretch limit (.rejected (.checksumMismatch .v1 code.toUInt16 expected received))
      (w ++ [received])
  /-- The wire form of a long message, but for its last byte. -/
  | longCorrupted {direction : Direction} {flag expected received : UInt8} {code : UInt16}
      {payload w : Bytes} (hwire : encodeLong direction flag code payload = .ok (w ++ [expected]))
      (hlimit : payload.length ≤ limit) (hdiffers : expected ≠ received) :
    Stretch limit (.rejected (.checksumMismatch .v2 code expected received)) (w ++ [received])

/-- Each stretch is one item, and the verdict is the one on it. -/
theorem Stretch.exists_item {limit : Nat} {verdict : Verdict} {bytes : Bytes}
    (hstretch : Stretch limit verdict bytes) :
    ∃ item : Item, item.Fits limit ∧ item.toBytes = bytes ∧ item.verdict limit = verdict := by
  cases hstretch with
  | @short direction code payload w hwire hlimit =>
    obtain ⟨hlength, rfl⟩ := encodeShort_eq_ok_iff.mp hwire
    refine ⟨_, fits_shortItem hlength hlimit, rfl, ?_⟩
    rw [verdict_shortItem, Verdict.judge, if_pos rfl]
  | @long direction flag code payload w hwire hlimit =>
    obtain ⟨hlength, rfl⟩ := encodeLong_eq_ok_iff.mp hwire
    refine ⟨_, fits_longItem hlength hlimit, rfl, ?_⟩
    rw [verdict_longItem, Verdict.judge, if_pos rfl]
  | @noise byte hbyte => exact ⟨.noise byte, hbyte, rfl, rfl⟩
  | @badMarker byte hbyte =>
    have hmarker : Version.ofMarker? byte = none := by
      by_contra hsome
      obtain ⟨version, hversion⟩ := Option.ne_none_iff_exists'.mp hsome
      exact hbyte version (Version.ofMarker?_eq_some_iff.mp hversion)
    exact ⟨.badMarker byte, hmarker, rfl, rfl⟩
  | @badDirection version byte hbyte =>
    have hdirection : Direction.ofByte? byte = none := by
      by_contra hsome
      obtain ⟨direction, h⟩ := Option.ne_none_iff_exists'.mp hsome
      exact hbyte direction (Direction.ofByte?_eq_some_iff.mp h)
    exact ⟨.badDirection version byte, hdirection, rfl, rfl⟩
  | @shortHead direction size hsize => exact ⟨.shortHead direction size, hsize, rfl, rfl⟩
  | @longHead direction header hsize => exact ⟨.longHead direction header, hsize, rfl, rfl⟩
  | @shortCorrupted direction code expected received payload w hwire hlimit hdiffers =>
    obtain ⟨hlength, hbytes⟩ := encodeShort_eq_ok_iff.mp hwire
    rw [toBytes_shortItem] at hbytes
    obtain ⟨rfl, hexpected⟩ := List.append_inj' hbytes rfl
    obtain rfl := List.singleton_inj.mp hexpected
    refine ⟨shortItem direction code payload received, fits_shortItem hlength hlimit,
      toBytes_shortItem .., ?_⟩
    rw [verdict_shortItem, Verdict.judge, if_neg hdiffers]
  | @longCorrupted direction flag expected received code payload w hwire hlimit hdiffers =>
    obtain ⟨hlength, hbytes⟩ := encodeLong_eq_ok_iff.mp hwire
    rw [toBytes_longItem] at hbytes
    obtain ⟨rfl, hexpected⟩ := List.append_inj' hbytes rfl
    obtain rfl := List.singleton_inj.mp hexpected
    refine ⟨longItem direction flag code payload received, fits_longItem hlength hlimit,
      toBytes_longItem .., ?_⟩
    rw [verdict_longItem, Verdict.judge, if_neg hdiffers]

/-- A short message with any byte behind it is its wire form, or that but for its last byte. -/
theorem stretch_shortItem {limit : Nat} {direction : Direction} {code : UInt8} {payload : Bytes}
    (hmax : payload.length ≤ Version.v1.maxPayload) (hlimit : payload.length ≤ limit)
    (received : UInt8) :
    Stretch limit ((shortItem direction code payload received).verdict limit)
      (shortItem direction code payload received).toBytes := by
  have hwire : encodeShort direction code payload = .ok
      (opening .v1 direction ++ shortBody code payload ++ [xorSum (shortBody code payload)]) :=
    encodeShort_eq_ok_iff.mpr ⟨hmax, rfl⟩
  rw [verdict_shortItem, Verdict.judge, toBytes_shortItem]
  split
  · rename_i hequal
    rw [← hequal]
    exact .short hwire hlimit
  · rename_i hdiffers
    exact .shortCorrupted hwire hlimit hdiffers

/-- A long message with any byte behind it is its wire form, or that but for its last byte. -/
theorem stretch_longItem {limit : Nat} {direction : Direction} {flag : UInt8} {code : UInt16}
    {payload : Bytes} (hmax : payload.length ≤ Version.v2.maxPayload)
    (hlimit : payload.length ≤ limit) (received : UInt8) :
    Stretch limit ((longItem direction flag code payload received).verdict limit)
      (longItem direction flag code payload received).toBytes := by
  have hwire : encodeLong direction flag code payload = .ok
      (opening .v2 direction ++ longBody flag code payload ++ [crc (longBody flag code payload)]) :=
    encodeLong_eq_ok_iff.mpr ⟨hmax, (toBytes_longItem ..).symm⟩
  rw [verdict_longItem, Verdict.judge, toBytes_longItem]
  split
  · rename_i hequal
    rw [← hequal]
    exact .long hwire hlimit
  · rename_i hdiffers
    exact .longCorrupted hwire hlimit hdiffers

/-- Each item is one stretch, with the verdict on it. -/
theorem Item.stretch {limit : Nat} {item : Item} (hfits : item.Fits limit) :
    Stretch limit (item.verdict limit) item.toBytes := by
  cases item with
  | noise byte => exact .noise hfits
  | badMarker byte =>
    apply Stretch.badMarker
    rintro version rfl
    cases hfits.symm.trans (Version.ofMarker?_marker version)
  | badDirection version byte =>
    apply Stretch.badDirection
    rintro direction rfl
    cases hfits.symm.trans (Direction.ofByte?_toByte direction)
  | shortHead direction size => exact .shortHead hfits
  | longHead direction header => exact .longHead hfits
  | short direction size code payload checksum =>
    obtain ⟨hlength, hlimit⟩ := hfits
    have hmax : payload.length ≤ Version.v1.maxPayload := by
      rw [hlength]
      exact Nat.le_of_lt_succ size.toNat_lt
    obtain rfl : lowByte payload.length = size := by rw [hlength, lowByte, UInt8.ofNat_toNat]
    rw [← hlength] at hlimit
    exact stretch_shortItem hmax hlimit checksum
  | long direction header payload checksum =>
    obtain ⟨hlength, hlimit⟩ := hfits
    have hmax : payload.length ≤ Version.v2.maxPayload := hlength ▸ header.size_le
    have hitem : longItem direction header.flag header.code payload checksum =
        .long direction header payload checksum := by
      rw [longItem, hlength, LongHeader.ofFields_self]
    rw [← hlength] at hlimit
    rw [← hitem]
    exact stretch_longItem hmax hlimit checksum

/-- Stretches one after the other are items one after the other. -/
theorem exists_items_of_stretches {limit : Nat} {stretches : List (Verdict × Bytes)}
    (hstretches : ∀ p ∈ stretches, Stretch limit p.1 p.2) :
    ∃ items : List Item, (∀ item ∈ items, item.Fits limit) ∧
      items.flatMap Item.toBytes = stretches.flatMap Prod.snd ∧
      items.map (Item.verdict limit) = stretches.map Prod.fst := by
  induction stretches with
  | nil => exact ⟨[], by simp, rfl, rfl⟩
  | cons p stretches ih =>
    obtain ⟨items, hfits, hbytes, hverdicts⟩ := ih (fun q hq => hstretches q (by simp [hq]))
    obtain ⟨item, hfit, hbyte, hverdict⟩ := (hstretches p (by simp)).exists_item
    refine ⟨item :: items, ?_, ?_, ?_⟩
    · intro i hi
      rcases List.mem_cons.mp hi with rfl | hi
      · exact hfit
      · exact hfits i hi
    · rw [List.flatMap_cons, List.flatMap_cons, hbyte, hbytes]
    · rw [List.map_cons, List.map_cons, hverdict, hverdicts]

/-- A receiver at rest that is fed stretches raises what their verdicts call for, counts them, and
is at rest again. -/
theorem feed_stretches {r : Receiver} (hrest : r.AtRest) {stretches : List (Verdict × Bytes)}
    (hstretches : ∀ p ∈ stretches, Stretch r.limit p.1 p.2) :
    let data := stretches.flatMap Prod.snd
    let verdicts := stretches.map Prod.fst
    Signal.lessGrowth (r.feed data).2 = verdicts.flatMap r.announce ∧
      (r.feed data).1.AtRest ∧
      (r.feed data).1.tally = r.tally.after data.length verdicts := by
  intro data verdicts
  obtain ⟨items, hfits, hbytes, hverdicts⟩ := exists_items_of_stretches hstretches
  have hfeed : r.feed data = gather Receiver.settle r items := by
    rw [← Receiver.feed_flatMap_toBytes hrest hfits, hbytes]
  refine ⟨?_, ?_, ?_⟩
  · rw [hfeed, Receiver.lessGrowth_gather_settle, hverdicts]
  · rw [hfeed]
    exact hrest.gather_settle items
  · rw [hfeed, Receiver.gather_settle, hverdicts, hbytes]

/-- A receiver between frames that is fed any stretches gives exactly the frames among them, in
order, and fails just if one declares too much, with the first that does. It counts each kind of
stretch, reports and logs the rejections in order, and is between frames again. -/
theorem feed_mixed_stream {r : Receiver} (hreach : r.Reachable) (hidle : r.isIdle = true)
    {stretches : List (Verdict × Bytes)}
    (hstretches : ∀ p ∈ stretches, Stretch r.limit p.1 p.2) :
    let data := stretches.flatMap Prod.snd
    let verdicts := stretches.map Prod.fst
    let after := r.feed data
    Signal.frames after.2 = verdicts.filterMap Verdict.frame? ∧
      Signal.failure? after.2 = verdicts.findSome? Verdict.oversized? ∧
      Signal.notices after.2 = r.noticesOf (verdicts.filterMap Verdict.rejection?) ∧
      Signal.dropped after.2 = r.droppedOf (verdicts.filterMap Verdict.rejection?) ∧
      after.1.isIdle = true ∧ after.1.payload = #[] ∧
      after.1.tally =
        { bytes := r.tally.bytes + data.length
          frames := r.tally.frames + verdicts.countP Verdict.isFrame
          checksumFailures := r.tally.checksumFailures + verdicts.countP Verdict.isChecksumFailure
          syncFailures := r.tally.syncFailures + verdicts.countP Verdict.isSyncFailure
          oversized := r.tally.oversized + verdicts.countP Verdict.isOversized } := by
  intro data verdicts after
  obtain ⟨hout, hrest, htally⟩ := feed_stretches (hreach.atRest hidle) hstretches
  obtain ⟨hframes, hnotices, hdropped, hfailure⟩ := Receiver.signals_of_lessGrowth hout
  have hend : after.1.isIdle = true := hrest.hasPart.isIdle_iff.mpr rfl
  exact ⟨hframes, hfailure, hnotices, hdropped, hend, hrest.payload, htally⟩

/-- A corrupted frame, a second preamble, a head that declares too much and a frame whose payload is
a preamble: only the last is a frame. -/
theorem feed_mixed_stream_limit_one :
    let r := Receiver.ofSettings { maxPayload := 1 }
    let stretches : List (Verdict × Bytes) :=
      [(.rejected (.checksumMismatch .v1 7 7 8), [0x24, 0x4D, 0x3C, 0, 7] ++ [8]),
        (.rejected (.badVersionMarker 0x24), [0x24, 0x24]),
        (.oversized ⟨2, 1⟩, opening .v1 .response ++ [2]),
        (.frame ⟨.v1, .refusal, 7, [0x24]⟩, [0x24, 0x4D, 0x21, 1, 7, 0x24, 0x22])]
    r.Reachable ∧ r.isIdle = true ∧ (∀ p ∈ stretches, Stretch r.limit p.1 p.2) ∧
      Signal.frames (r.feed (stretches.flatMap Prod.snd)).2 = [⟨.v1, .refusal, 7, [0x24]⟩] ∧
      Signal.failure? (r.feed (stretches.flatMap Prod.snd)).2 = some ⟨2, 1⟩ ∧
      (r.feed (stretches.flatMap Prod.snd)).1.tally = ⟨19, 1, 1, 1, 1⟩ := by
  intro r stretches
  have hreach : r.Reachable := ⟨{ maxPayload := 1 }, [], rfl⟩
  have hempty : encodeShort .request 7 [] = .ok ([0x24, 0x4D, 0x3C, 0, 7] ++ [7]) := rfl
  have hframe : encodeShort .refusal 7 [0x24] = .ok [0x24, 0x4D, 0x21, 1, 7, 0x24, 0x22] := rfl
  have hsize : (1 : Nat) < (2 : UInt8).toNat := by decide
  have hstretches : ∀ p ∈ stretches, Stretch r.limit p.1 p.2 := by
    intro p hp
    simp only [stretches, List.mem_cons, List.not_mem_nil, or_false] at hp
    rcases hp with rfl | rfl | rfl | rfl
    · exact .shortCorrupted hempty (Nat.zero_le _) (by decide)
    · exact .badMarker (by intro version; cases version <;> decide)
    · exact .shortHead hsize
    · exact .short hframe Nat.le.refl
  obtain ⟨hframes, hfailure, -, -, -, -, htally⟩ := feed_mixed_stream hreach rfl hstretches
  exact ⟨hreach, rfl, hstretches, hframes, hfailure, htally⟩

end FlightLink
