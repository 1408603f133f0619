import FlightLink.Proofs.MixedStreams
import FlightLink.Proofs.Remainders

/-!
# Corrupted frames

A frame that was corrupted behind its direction, but not in its size, is still read as one whole
frame, of another message maybe. If the damage lies within eight bits in a row, or is an odd number
of bits, then its last byte is not the checksum of that message, and it is dropped for that.
-/

namespace FlightLink

/-- The places of preamble, version marker, direction and size in the wire form of a message. -/
def Version.framing : Version → List Nat
  | .v1 => [0, 1, 2, 3]
  | .v2 => [0, 1, 2, 6, 7]

/-- A row of bytes with one more is a row and a last byte. -/
theorem exists_eq_append_singleton {data : Bytes} {n : Nat} (hlength : data.length = n + 1) :
    ∃ front last, data = front ++ [last] ∧ front.length = n := by
  have hne : data ≠ [] := List.ne_nil_of_length_eq_add_one hlength
  refine ⟨data.dropLast, data.getLast hne, (List.dropLast_concat_getLast hne).symm, ?_⟩
  rw [List.length_dropLast, hlength, Nat.add_sub_cancel]

/-- What is as long as a short frame and agrees with its framing is a short frame of that size. -/
theorem exists_shortItem_of_framing {direction : Direction} {code checksum : UInt8}
    {payload w' : Bytes}
    (hlength : w'.length = (shortItem direction code payload checksum).toBytes.length)
    (hframing : ∀ i ∈ Version.v1.framing,
      w'[i]? = (shortItem direction code payload checksum).toBytes[i]?) :
    ∃ code' payload' received, payload'.length = payload.length ∧
      w' = (shortItem direction code' payload' received).toBytes := by
  match w' with
  | b₀ :: b₁ :: b₂ :: b₃ :: code' :: rest =>
    obtain rfl : b₀ = preamble := by
      simpa [toBytes_shortItem, opening] using hframing 0 (by decide)
    obtain rfl : b₁ = Version.v1.marker := by
      simpa [toBytes_shortItem, opening] using hframing 1 (by decide)
    obtain rfl : b₂ = direction.toByte := by
      simpa [toBytes_shortItem, opening] using hframing 2 (by decide)
    obtain rfl : b₃ = lowByte payload.length := by
      simpa [toBytes_shortItem, opening, shortBody] using hframing 3 (by decide)
    have hrest : rest.length = payload.length + 1 := by
      simpa [toBytes_shortItem, opening, shortBody] using hlength
    obtain ⟨payload', received, rfl, hpayload⟩ := exists_eq_append_singleton hrest
    refine ⟨code', payload', received, hpayload, ?_⟩
    rw [toBytes_shortItem, shortBody, hpayload]
    rfl
  | [] | [_] | [_, _] | [_, _, _] | [_, _, _, _] =>
    simp [toBytes_shortItem, opening, shortBody] at hlength

/-- What is as long as a long frame and agrees with its framing is a long frame of that size. -/
theorem exists_longItem_of_framing {direction : Direction} {flag checksum : UInt8} {code : UInt16}
    {payload w' : Bytes}
    (hlength : w'.length = (longItem direction flag code payload checksum).toBytes.length)
    (hframing : ∀ i ∈ Version.v2.framing,
      w'[i]? = (longItem direction flag code payload checksum).toBytes[i]?) :
    ∃ flag' code' payload' received, payload'.length = payload.length ∧
      w' = (longItem direction flag' code' payload' received).toBytes := by
  match w' with
  | b₀ :: b₁ :: b₂ :: flag' :: codeLow :: codeHigh :: b₆ :: b₇ :: rest =>
    obtain rfl : b₀ = preamble := by
      simpa [toBytes_longItem, opening] using hframing 0 (by decide)
    obtain rfl : b₁ = Version.v2.marker := by
      simpa [toBytes_longItem, opening] using hframing 1 (by decide)
    obtain rfl : b₂ = direction.toByte := by
      simpa [toBytes_longItem, opening] using hframing 2 (by decide)
    obtain rfl : b₆ = lowByte payload.length := by
      simpa [toBytes_longItem, opening, longBody, LongHeader.toBytes, LongHeader.ofFields]
        using hframing 6 (by decide)
    obtain rfl : b₇ = highByte payload.length := by
      simpa [toBytes_longItem, opening, longBody, LongHeader.toBytes, LongHeader.ofFields]
        using hframing 7 (by decide)
    have hrest : rest.length = payload.length + 1 := by
      simpa [toBytes_longItem, opening, longBody, LongHeader.toBytes] using hlength
    obtain ⟨payload', received, rfl, hpayload⟩ := exists_eq_append_singleton hrest
    refine ⟨flag', wordOf codeLow codeHigh, payload', received, hpayload, ?_⟩
    rw [toBytes_longItem, longBody, hpayload, LongHeader.ofFields, lowByte_wordOf, highByte_wordOf]
    rfl
  | [] | [_] | [_, _] | [_, _, _] | [_, _, _, _] | [_, _, _, _, _] | [_, _, _, _, _, _]
  | [_, _, _, _, _, _, _] =>
    simp [toBytes_longItem, opening, longBody, LongHeader.toBytes] at hlength

/-- The wire form of a message, noticeably corrupted, is that of a message of the same version and
size but for its last byte. -/
theorem Stretch.corrupted {limit : Nat} {f : Frame} {w w' : Bytes}
    (hwire : Stretch limit (.frame f) w) (hlength : w'.length = w.length)
    (hframing : ∀ i ∈ f.version.framing, w'[i]? = w[i]?)
    (hdiffers : Division.Noticeable (bitsOf (difference w w'))) :
    ∃ code expected received, expected ≠ received ∧
      Stretch limit (.rejected (.checksumMismatch f.version code expected received)) w' := by
  cases hwire with
  | @short direction code payload w hwire hlimit =>
    obtain ⟨hmax, rfl⟩ := encodeShort_eq_ok_iff.mp hwire
    obtain ⟨code', payload', received, hpayload, rfl⟩ :=
      exists_shortItem_of_framing hlength hframing
    have hbody : (shortBody code payload).length = (shortBody code' payload').length := by
      simp [shortBody, hpayload]
    rw [toBytes_shortItem, toBytes_shortItem, List.append_assoc, List.append_assoc] at hdiffers
    have hne := Version.v1.checksum_ne_of_noticeable hbody hdiffers
    have hwire' : encodeShort direction code' payload' = .ok
        (opening .v1 direction ++ shortBody code' payload' ++
          [xorSum (shortBody code' payload')]) :=
      encodeShort_eq_ok_iff.mpr ⟨hpayload ▸ hmax, rfl⟩
    refine ⟨code'.toUInt16, _, received, hne, ?_⟩
    rw [toBytes_shortItem]
    exact .shortCorrupted hwire' (hpayload ▸ hlimit) hne
  | @long direction flag code payload w hwire hlimit =>
    obtain ⟨hmax, rfl⟩ := encodeLong_eq_ok_iff.mp hwire
    obtain ⟨flag', code', payload', received, hpayload, rfl⟩ :=
      exists_longItem_of_framing hlength hframing
    have hbody : (longBody flag code payload).length = (longBody flag' code' payload').length := by
      simp [longBody, LongHeader.toBytes, hpayload]
    rw [toBytes_longItem, toBytes_longItem, List.append_assoc, List.append_assoc] at hdiffers
    have hne := Version.v2.checksum_ne_of_noticeable hbody hdiffers
    have hwire' : encodeLong direction flag' code' payload' = .ok
        (opening .v2 direction ++ longBody flag' code' payload' ++
          [crc (longBody flag' code' payload')]) :=
      encodeLong_eq_ok_iff.mpr ⟨hpayload ▸ hmax, (toBytes_longItem ..).symm⟩
    refine ⟨code', _, received, hne, ?_⟩
    rw [toBytes_longItem]
    exact .longCorrupted hwire' (hpayload ▸ hlimit) hne

/-- One stretch is received for what it is. -/
theorem feed_stretch {r : Receiver} (hrest : r.AtRest) {verdict : Verdict} {bytes : Bytes}
    (hstretch : Stretch r.limit verdict bytes) :
    Signal.lessGrowth (r.feed bytes).2 = [verdict].flatMap r.announce ∧
      (r.feed bytes).1.AtRest ∧
      (r.feed bytes).1.tally = r.tally.after bytes.length [verdict] := by
  have hbytes : [(verdict, bytes)].flatMap Prod.snd = bytes := List.append_nil bytes
  have hone : ∀ p ∈ [(verdict, bytes)], Stretch r.limit p.1 p.2 := by simpa using hstretch
  have hfeed := feed_stretches hrest hone
  rwa [hbytes] at hfeed

/-- A receiver between frames that is fed a noticeably corrupted frame gives no frame and does not
fail. It counts, reports and logs one wrong checksum and nothing else, is between frames again, and
gives the next frame as it was sent. -/
theorem feed_corrupted_frame {r : Receiver} (hreach : r.Reachable) (hidle : r.isIdle = true)
    {f : Frame} {w w' : Bytes} (hwire : Stretch r.limit (.frame f) w)
    (hlength : w'.length = w.length) (hframing : ∀ i ∈ f.version.framing, w'[i]? = w[i]?)
    (hdiffers : Division.Noticeable (bitsOf (difference w w'))) :
    let after := r.feed w'
    (r.decode w').2.2 = .ok [] ∧ Signal.frames after.2 = [] ∧ Signal.failure? after.2 = none ∧
      after.1.isIdle = true ∧ after.1.payload = #[] ∧
      after.1.tally =
        { r.tally with
          bytes := r.tally.bytes + w'.length
          checksumFailures := r.tally.checksumFailures + 1 } ∧
      (∃ code expected received, expected ≠ received ∧
        let mismatch : Rejection := .checksumMismatch f.version code expected received
        Signal.notices after.2 = r.noticesOf [mismatch] ∧
          Signal.dropped after.2 = r.droppedOf [mismatch]) ∧
      ∀ (next : Frame) (v : Bytes), Stretch r.limit (.frame next) v →
        Signal.frames (after.1.feed v).2 = [next] ∧ Signal.failure? (after.1.feed v).2 = none := by
  intro after
  obtain ⟨code, expected, received, hne, hstretch⟩ := hwire.corrupted hlength hframing hdiffers
  have hrest : r.AtRest := hreach.atRest hidle
  obtain ⟨hout, hafter, htally⟩ := feed_stretch hrest hstretch
  obtain ⟨hframes, hnotices, hdropped, hfailure⟩ := Receiver.signals_of_lessGrowth hout
  have hdecode : (r.decode w').2.2 = .ok [] := by
    have hfailure : Signal.failure? (r.feed w').2 = none := hfailure
    simp only [Receiver.decode, hfailure, hframes]
    rfl
  refine ⟨hdecode, hframes, hfailure, hafter.hasPart.isIdle_iff.mpr rfl, hafter.payload, htally,
    ⟨code, expected, received, hne, hnotices, hdropped⟩, ?_⟩
  intro next v hnext
  have hlimit : after.1.limit = r.limit := (hrest.hasPart.settings_feed w').1
  obtain ⟨hout', -⟩ := feed_stretch hafter (hlimit ▸ hnext)
  obtain ⟨hframes', -, -, hfailure'⟩ := Receiver.signals_of_lessGrowth hout'
  exact ⟨hframes', hfailure'⟩

/-- The last three bits of one payload byte and the first three of the next are lost: the frame is
dropped, and the empty one behind it is received. -/
theorem feed_corrupted_frame_across_bytes :
    let r := Receiver.ofSettings { maxPayload := 2 }
    let f : Frame := ⟨.v2, .response, 0x1001, [0x17, 0xE8]⟩
    let w : Bytes := [0x24, 0x58, 0x3E, 0, 0x01, 0x10, 2, 0, 0x17, 0xE8, 0x8F]
    let w' : Bytes := [0x24, 0x58, 0x3E, 0, 0x01, 0x10, 2, 0, 0x10, 0x08, 0x8F]
    r.Reachable ∧ r.isIdle = true ∧ Stretch r.limit (.frame f) w ∧
      (∀ i ∈ f.version.framing, w'[i]? = w[i]?) ∧
      Division.Noticeable (bitsOf (difference w w')) ∧
      Signal.frames (r.feed w').2 = [] ∧ (r.feed w').1.tally = ⟨11, 0, 1, 0, 0⟩ ∧
      Signal.frames ((r.feed w').1.feed [0x24, 0x4D, 0x3C, 0, 7, 7]).2 =
        [⟨.v1, .request, 7, []⟩] := by
  intro r f w w'
  have hreach : r.Reachable := ⟨{ maxPayload := 2 }, [], rfl⟩
  have hencode : encodeLong .response 0 0x1001 [0x17, 0xE8] = .ok w := by decide +kernel
  have hwire : Stretch r.limit (.frame f) w := .long hencode Nat.le.refl
  have hidle : r.isIdle = true := rfl
  have hlength : w'.length = w.length := rfl
  have hframing : ∀ i ∈ f.version.framing, w'[i]? = w[i]? := by decide
  have hdiffers : Division.Noticeable (bitsOf (difference w w')) := by
    have hburst : ∀ i < 88, (bitsOf (difference w w'))[i]? = some true → 69 ≤ i ∧ i < 69 + 8 := by
      decide +kernel
    refine ⟨by decide +kernel, Or.inl ⟨69, fun i hi => ?_⟩⟩
    exact hburst i (List.getElem?_eq_some_iff.mp hi).1 hi
  have hnext : Stretch r.limit (.frame ⟨.v1, .request, 7, []⟩) [0x24, 0x4D, 0x3C, 0, 7, 7] := by
    have hempty : encodeShort .request 7 [] = .ok [0x24, 0x4D, 0x3C, 0, 7, 7] := rfl
    exact .short hempty (Nat.zero_le _)
  obtain ⟨-, hframes, -, -, -, htally, -, hafter⟩ :=
    feed_corrupted_frame hreach hidle hwire hlength hframing hdiffers
  obtain ⟨hframes', -⟩ := hafter _ _ hnext
  exact ⟨hreach, hidle, hwire, hframing, hdiffers, hframes, htally, hframes'⟩

end FlightLink
