import FlightLink.Proofs.Corruption
import FlightLink.Proofs.LongDivision
import FlightLink.Proofs.Provenance
import Mathlib.Dynamics.PeriodicPts.Defs

/-!
# Single and double bit errors

Shifting a single bit through the divisor of the CRC comes back to that bit after 93 shifts and not
before. So two flipped bits leave the CRC as it was just if their distance is a multiple of 93,
wherever they are, however long the data is and whatever value the CRC was started from. One flipped
bit never does. The same holds for data with its own CRC behind it, and so it decides which long
frames with two flipped bits a receiver takes for frames.
-/

namespace FlightLink

/-- Two streams of the same length have different bits at these places and nowhere else. Places are
counted along the streams, most significant bit first within each byte. -/
structure DifferAt (a b : Bytes) (places : List Nat) : Prop where
  /-- The streams are equally long. -/
  length : a.length = b.length
  /-- The places are those where the bits are different. -/
  bits : ∀ i, (bitsOf a)[i]? ≠ (bitsOf b)[i]? ↔ i ∈ places

/-- Beyond the end of two streams of the same length no bits differ. -/
theorem differAt_iff {a b : Bytes} {places : List Nat} :
    (a.length = b.length ∧ (∀ i ∈ places, i < 8 * a.length) ∧
      ∀ i < 8 * a.length, (bitsOf a)[i]? ≠ (bitsOf b)[i]? ↔ i ∈ places) ↔ DifferAt a b places := by
  have hbeyond : ∀ {data : Bytes} {i : Nat}, 8 * data.length ≤ i → (bitsOf data)[i]? = none :=
    fun hi => List.getElem?_eq_none (by rwa [length_bitsOf])
  constructor
  · rintro ⟨hlength, hplaces, hbits⟩
    refine ⟨hlength, fun i => ?_⟩
    by_cases hi : i < 8 * a.length
    · exact hbits i hi
    · rw [hbeyond (by omega), hbeyond (by omega)]
      exact iff_of_false (fun hne => hne rfl) (fun hmem => hi (hplaces i hmem))
  · rintro ⟨hlength, hbits⟩
    refine ⟨hlength, ?_, fun i _ => hbits i⟩
    intro i hi
    by_contra hlt
    apply (hbits i).mpr hi
    rw [hbeyond (by omega), hbeyond (by omega)]

instance (a b : Bytes) (places : List Nat) : Decidable (DifferAt a b places) :=
  decidable_of_iff _ differAt_iff

/-- The bits that are set in the difference of two streams are at the places where they differ. -/
theorem DifferAt.getElem?_difference {a b : Bytes} {places : List Nat} (h : DifferAt a b places)
    (i : Nat) : (bitsOf (difference a b))[i]? = some true ↔ i ∈ places := by
  have hbits : (bitsOf a).length = (bitsOf b).length := by
    rw [length_bitsOf, length_bitsOf, h.length]
  rw [← h.bits, bitsOf_difference h.length, List.getElem?_zipWith]
  by_cases hi : i < (bitsOf a).length
  · rw [List.getElem?_eq_getElem hi, List.getElem?_eq_getElem (hbits ▸ hi)]
    simp
  · have hi' : (bitsOf b).length ≤ i := by omega
    rw [List.getElem?_eq_none (Nat.le_of_not_lt hi), List.getElem?_eq_none hi']
    simp

namespace Division

variable {divisor : UInt8} {bits : List Bool}

/-! ### Bits of which one or two are set -/

/-- The first bit that is set has zero bits before it. -/
theorem eq_replicate_append_of_first {p : Nat} (hset : bits[p]? = some true)
    (hfirst : ∀ i < p, bits[i]? ≠ some true) :
    bits = List.replicate p false ++ true :: bits.drop (p + 1) := by
  obtain ⟨hp, hbit⟩ := List.getElem?_eq_some_iff.mp hset
  have hfront : true ∉ bits.take p := by
    intro hmem
    obtain ⟨i, hi⟩ := List.mem_iff_getElem?.mp hmem
    have hlt := (List.getElem?_eq_some_iff.mp hi).1
    rw [List.length_take] at hlt
    rw [List.getElem?_take_of_lt (by omega)] at hi
    exact hfirst i (by omega) hi
  have hzeros : bits.take p = List.replicate p false := by
    rw [eq_replicate_false hfront, List.length_take, Nat.min_eq_left (Nat.le_of_lt hp)]
  rw [← hzeros, ← hbit, ← List.drop_eq_getElem_cons hp, List.take_append_drop]

/-- Zero bits shift a remainder up to the next bit that is set, which is then taken in. -/
theorem remainder_replicate_append_cons (divisor r : UInt8) (n : Nat) (rest : List Bool) :
    remainder divisor r (List.replicate n false ++ true :: rest) =
      remainder divisor (shift divisor ((shift divisor)^[n] r ^^^ 0x80)) rest := by
  rw [remainder_append, remainder_replicate_false]
  rfl

/-- Bits of which two are set are zeros around the two. -/
theorem exists_eq_of_two {p q : Nat} (hpq : p < q)
    (hbits : ∀ i, bits[i]? = some true ↔ i ∈ [p, q]) :
    ∃ after, bits = List.replicate p false ++ true ::
      (List.replicate (q - p - 1) false ++ true :: List.replicate after false) := by
  simp only [List.mem_cons, List.not_mem_nil, or_false] at hbits
  have hfirst : ∀ i < p, bits[i]? ≠ some true := by
    intro i hi hset
    have hplace := (hbits i).mp hset
    omega
  let behind := bits.drop (p + 1)
  have hbehind : ∀ i, behind[i]? = some true ↔ i = q - p - 1 := by
    intro i
    rw [List.getElem?_drop, hbits]
    omega
  have hsecond : ∀ i < q - p - 1, behind[i]? ≠ some true := by
    intro i hi hset
    have hplace := (hbehind i).mp hset
    omega
  have hback : true ∉ behind.drop (q - p - 1 + 1) := by
    intro hmem
    obtain ⟨i, hi⟩ := List.mem_iff_getElem?.mp hmem
    rw [List.getElem?_drop, hbehind] at hi
    omega
  refine ⟨(behind.drop (q - p - 1 + 1)).length, ?_⟩
  rw [← eq_replicate_false hback, ← eq_replicate_append_of_first ((hbehind _).mpr rfl) hsecond]
  exact eq_replicate_append_of_first ((hbits p).mpr (Or.inl rfl)) hfirst

/-- Two bits leave no remainder just if shifting the first of them to the place of the second makes
it that bit. -/
theorem remainder_eq_zero_iff_of_two (hconstant : divisor.toNat % 2 = 1) {p q : Nat} (hpq : p < q)
    (hbits : ∀ i, bits[i]? = some true ↔ i ∈ [p, q]) :
    remainder divisor 0 bits = 0 ↔ (shift divisor)^[q - p] 0x80 = 0x80 := by
  obtain ⟨after, rfl⟩ := exists_eq_of_two hpq hbits
  have hsteps : q - p = q - p - 1 + 1 := by omega
  have hshifted : (shift divisor)^[q - p - 1] (shift divisor 0x80) =
      (shift divisor)^[q - p] 0x80 := by
    rw [hsteps, Function.iterate_succ_apply]
    rfl
  rw [remainder_replicate_append_cons, iterate_shift_zero, UInt8.zero_xor,
    remainder_replicate_append_cons, hshifted, remainder_replicate_false,
    ← Function.iterate_succ_apply]
  -- Shifts make nothing zero that is not zero.
  constructor
  · intro hzero
    by_contra hne
    have hdiffer : (shift divisor)^[q - p] 0x80 ^^^ 0x80 ≠ 0 :=
      fun hsame => hne (UInt8.xor_eq_zero_iff.mp hsame)
    exact iterate_shift_ne_zero hconstant _ hdiffer hzero
  · intro hreturns
    rw [hreturns, UInt8.xor_self, iterate_shift_zero]

/-- A bit that is shifted through the divisor of the CRC is itself again after 93 shifts, and not
before. -/
theorem minimalPeriod_shift : Function.minimalPeriod (shift Crc.divisor) 0x80 = 93 := by
  have hreturns : Function.IsPeriodicPt (shift Crc.divisor) 93 0x80 := by
    change (shift Crc.divisor)^[93] 0x80 = 0x80
    decide +kernel
  have hsooner : ∀ n < 93, 0 < n → (shift Crc.divisor)^[n] 0x80 ≠ 0x80 := by decide +kernel
  apply Nat.le_antisymm (hreturns.minimalPeriod_le (by decide))
  by_contra hlt
  exact hsooner _ (by omega) (hreturns.minimalPeriod_pos (by decide))
    (Function.isPeriodicPt_minimalPeriod _ _)

/-- A bit that is shifted through the divisor of the CRC is itself again just after a multiple of 93
shifts. -/
theorem iterate_shift_eq_self_iff (n : Nat) : (shift Crc.divisor)^[n] 0x80 = 0x80 ↔ 93 ∣ n := by
  rw [← minimalPeriod_shift]
  exact Function.isPeriodicPt_iff_minimalPeriod_dvd

end Division

/-! ### The CRC of data with flipped bits -/

section

variable {start received : UInt8} {a b front body body' : Bytes} {p q : Nat}

/-- Two streams have the same CRC just if their difference leaves no remainder, whatever value the
CRC is started from. -/
theorem crcFrom_eq_crcFrom_iff (hlength : a.length = b.length) (start : UInt8) :
    crcFrom start a = crcFrom start b ↔ crcFrom 0 (difference a b) = 0 := by
  have hxor := crcFrom_xor_difference hlength start start
  rw [UInt8.xor_self] at hxor
  rw [hxor, UInt8.xor_eq_zero_iff]

/-- Two flipped bits leave the CRC as it was just if their distance is a multiple of 93. -/
theorem crcFrom_eq_iff_of_two (hpq : p < q) (hflipped : DifferAt a b [p, q]) (start : UInt8) :
    crcFrom start a = crcFrom start b ↔ 93 ∣ q - p := by
  have hconstant : Crc.divisor.toNat % 2 = 1 := Version.v2.divisor_mod_two
  rw [crcFrom_eq_crcFrom_iff hflipped.length, crcFrom_eq_remainder,
    Division.remainder_eq_zero_iff_of_two hconstant hpq hflipped.getElem?_difference,
    Division.iterate_shift_eq_self_iff]

/-- One flipped bit changes the CRC. -/
theorem crcFrom_ne_of_one (hflipped : DifferAt a b [p]) (start : UInt8) :
    crcFrom start a ≠ crcFrom start b := by
  have hset := (hflipped.getElem?_difference p).mpr (List.mem_singleton.mpr rfl)
  have hlength : 8 ≤ (bitsOf (difference a b)).length := by
    have hlt := (List.getElem?_eq_some_iff.mp hset).1
    rw [length_bitsOf] at hlt ⊢
    omega
  have hburst : ∀ i, (bitsOf (difference a b))[i]? = some true → p ≤ i ∧ i < p + 8 := by
    intro i hi
    have hplace := List.mem_singleton.mp ((hflipped.getElem?_difference i).mp hi)
    omega
  rw [Ne, crcFrom_eq_crcFrom_iff hflipped.length, crcFrom_eq_remainder]
  exact Division.remainder_ne_zero_of_burst Version.v2.divisor_mod_two hlength
    (List.mem_of_getElem? hset) hburst

/-- Data with a byte behind it that is its CRC, and no other byte, leaves no remainder. -/
theorem crcFrom_append_eq_zero_iff (start received : UInt8) (data : Bytes) :
    crcFrom start (data ++ [received]) = 0 ↔ crcFrom start data = received := by
  constructor
  · intro hzero
    by_contra hne
    have hdiffer : crcFrom start data ^^^ received ≠ 0 :=
      fun hsame => hne (UInt8.xor_eq_zero_iff.mp hsame)
    apply Division.iterate_shift_ne_zero Version.v2.divisor_mod_two 8 hdiffer
    rwa [crcFrom_append, crcFrom_cons, crcFrom_nil, Crc.advance_eq_remainder] at hzero
  · rintro rfl
    exact crcFrom_append_crcFrom start data

/-- What stands in front of two streams has no part in whether their CRCs are the same. -/
theorem crcFrom_append_eq_iff (front : Bytes) (hlength : a.length = b.length) :
    crcFrom 0 (front ++ a) = crcFrom 0 (front ++ b) ↔ crcFrom 0 a = crcFrom 0 b := by
  rw [crcFrom_append 0 front a, crcFrom_append 0 front b, crcFrom_eq_crcFrom_iff hlength,
    crcFrom_eq_crcFrom_iff hlength]

/-- A body and a byte that were a body with its own CRC, maybe behind something else, still belong
together just if the CRC of all of it is the same. -/
theorem crc_eq_received_iff (front : Bytes) (hlength : body.length = body'.length) :
    crc body' = received ↔
      crcFrom 0 (front ++ (body ++ [crc body])) = crcFrom 0 (front ++ (body' ++ [received])) := by
  have hlengths : (body ++ [crc body]).length = (body' ++ [received]).length := by simp [hlength]
  have hown : crcFrom 0 (body ++ [crc body]) = 0 := crcFrom_append_crcFrom 0 body
  rw [crcFrom_append_eq_iff front hlengths, hown, eq_comm (a := 0), crcFrom_append_eq_zero_iff]
  rfl

end

/-! ### Frames with flipped bits -/

/-- The frames that a receiver between frames finds in a chunk are those that a scanner finds. -/
theorem Receiver.AtRest.frames_feed {r : Receiver} (hrest : r.AtRest) (data : Bytes) :
    Signal.frames (r.feed data).2 = framesIn r.limit data := by
  obtain ⟨hframes, -⟩ := Receiver.signals_of_lessGrowth (hrest.hasPart.lessGrowth_feed data)
  exact hframes

/-- No frame that a receiver gives has a payload above its limit. -/
theorem Receiver.AtRest.length_payload_le {r : Receiver} (hrest : r.AtRest) {data : Bytes}
    {f : Frame} (hf : f ∈ Signal.frames (r.feed data).2) : f.payload.length ≤ r.limit := by
  rw [hrest.frames_feed] at hf
  obtain ⟨w, hsent⟩ := (carries_framesIn r.limit data).exists_sentAs f hf
  exact hsent.encode.2

section

variable {r : Receiver} {direction : Direction} {flag : UInt8} {code : UInt16}
  {payload w w' : Bytes} {p q : Nat}

/-- Two flipped bits of a long frame, outside its opening and its size, leave a long frame of the
same size. Its last byte is its CRC just if their distance is a multiple of 93. -/
theorem exists_longItem_of_flipped (hwire : encodeLong direction flag code payload = .ok w)
    (hpq : p < q) (hflipped : DifferAt w w' [p, q])
    (hframing : ∀ i ∈ Version.v2.framing, w'[i]? = w[i]?) :
    ∃ flag' code' payload' received, payload'.length = payload.length ∧
      w' = (longItem direction flag' code' payload' received).toBytes ∧
      (crc (longBody flag' code' payload') = received ↔ 93 ∣ q - p) := by
  obtain ⟨hmax, rfl⟩ := encodeLong_eq_ok_iff.mp hwire
  obtain ⟨flag', code', payload', received, hpayload, rfl⟩ :=
    exists_longItem_of_framing hflipped.length.symm hframing
  have hbody : (longBody flag code payload).length = (longBody flag' code' payload').length := by
    simp [longBody, LongHeader.toBytes, hpayload]
  refine ⟨flag', code', payload', received, hpayload, rfl, ?_⟩
  rw [toBytes_longItem, toBytes_longItem, List.append_assoc, List.append_assoc] at hflipped
  rw [crc_eq_received_iff (opening .v2 direction) hbody]
  exact crcFrom_eq_iff_of_two hpq hflipped 0

/-- A long frame whose last byte is not its CRC gives no frame and is counted. -/
theorem feed_longItem_of_ne (hrest : r.AtRest) (direction : Direction)
    (hmax : payload.length ≤ Version.v2.maxPayload) (hlimit : payload.length ≤ r.limit)
    {received : UInt8} (hne : crc (longBody flag code payload) ≠ received) :
    let after := r.feed (longItem direction flag code payload received).toBytes
    Signal.frames after.2 = [] ∧ after.1.isIdle = true ∧
      after.1.tally.checksumFailures = r.tally.checksumFailures + 1 := by
  intro after
  have hstretch : Stretch r.limit ((longItem direction flag code payload received).verdict r.limit)
      (longItem direction flag code payload received).toBytes :=
    stretch_longItem hmax hlimit received
  rw [verdict_longItem, Verdict.judge, if_neg hne] at hstretch
  obtain ⟨hout, hafter, htally⟩ := feed_stretch hrest hstretch
  obtain ⟨hframes, -⟩ := Receiver.signals_of_lessGrowth hout
  exact ⟨hframes, hafter.hasPart.isIdle_iff.mpr rfl, congrArg Tally.checksumFailures htally⟩

/-- A long frame whose last byte is its CRC is given, and nothing is said about it. -/
theorem feed_encodeLong (hrest : r.AtRest)
    (hwire : encodeLong direction flag code payload = .ok w) (hlimit : payload.length ≤ r.limit) :
    Signal.frames (r.feed w).2 = [⟨.v2, direction, code, payload⟩] ∧
      Signal.failure? (r.feed w).2 = none ∧ Signal.notices (r.feed w).2 = [] ∧
      (r.feed w).1.tally.checksumFailures = r.tally.checksumFailures := by
  obtain ⟨hout, -, htally⟩ := feed_stretch hrest (Stretch.long hwire hlimit)
  obtain ⟨hframes, hnotices, -, hfailure⟩ := Receiver.signals_of_lessGrowth hout
  refine ⟨hframes, hfailure, ?_, by rw [htally]; rfl⟩
  rw [hnotices]
  cases hobserver : r.observer <;> simp [Receiver.noticesOf, hobserver]

end

/-- Two bits that are flipped are missed by the CRC just if their distance is a multiple of 93, and
one bit never is; so it is for any start value, and also where the CRC stands behind the data and
may be hit itself. So of a long frame with two bits flipped outside its opening and its size, a
receiver between frames makes no frame, but drops it for its checksum if the payload is within its
limit, unless the distance is a multiple of 93; then it takes it for the frame that was sent
instead. -/
theorem two_flipped_bits_missed_iff :
    (∀ (start : UInt8) (a b : Bytes) (p q : Nat), p < q → DifferAt a b [p, q] →
        (crcFrom start a = crcFrom start b ↔ 93 ∣ q - p)) ∧
      (∀ (start : UInt8) (a b : Bytes) (p : Nat), DifferAt a b [p] →
        crcFrom start a ≠ crcFrom start b) ∧
      (∀ (body body' : Bytes) (received : UInt8) (p q : Nat), p < q →
        DifferAt (body ++ [crc body]) (body' ++ [received]) [p, q] →
          (crc body' = received ↔ 93 ∣ q - p)) ∧
      (∀ (body body' : Bytes) (received : UInt8) (p : Nat),
        DifferAt (body ++ [crc body]) (body' ++ [received]) [p] → crc body' ≠ received) ∧
      ∀ (r : Receiver), r.Reachable → r.isIdle = true →
        ∀ (direction : Direction) (flag : UInt8) (code : UInt16) (payload w w' : Bytes) (p q : Nat),
          encodeLong direction flag code payload = .ok w → p < q → DifferAt w w' [p, q] →
          (∀ i ∈ Version.v2.framing, w'[i]? = w[i]?) →
          (¬ 93 ∣ q - p →
            (∀ f ∈ Signal.frames (r.feed w').2, f.payload.length ≠ payload.length) ∧
              (payload.length ≤ r.limit →
                Signal.frames (r.feed w').2 = [] ∧ (r.feed w').1.isIdle = true ∧
                  (r.feed w').1.tally.checksumFailures = r.tally.checksumFailures + 1)) ∧
            (93 ∣ q - p → payload.length ≤ r.limit →
              ∃ flag' code' payload', payload'.length = payload.length ∧
                encodeLong direction flag' code' payload' = .ok w' ∧
                Signal.frames (r.feed w').2 = [⟨.v2, direction, code', payload'⟩] ∧
                Signal.failure? (r.feed w').2 = none ∧ Signal.notices (r.feed w').2 = [] ∧
                (r.feed w').1.tally.checksumFailures = r.tally.checksumFailures) := by
  refine ⟨fun start a b p q hpq hflipped => crcFrom_eq_iff_of_two hpq hflipped start,
    fun start a b p hflipped => crcFrom_ne_of_one hflipped start, ?_, ?_, ?_⟩
  · intro body body' received p q hpq hflipped
    have hlength : body.length = body'.length := by simpa using hflipped.length
    rw [crc_eq_received_iff [] hlength]
    exact crcFrom_eq_iff_of_two hpq hflipped 0
  · intro body body' received p hflipped
    have hlength : body.length = body'.length := by simpa using hflipped.length
    rw [Ne, crc_eq_received_iff [] hlength]
    exact crcFrom_ne_of_one hflipped 0
  · intro r hreach hidle direction flag code payload w w' p q hwire hpq hflipped hframing
    have hrest : r.AtRest := hreach.atRest hidle
    obtain ⟨hmax, -⟩ := encodeLong_eq_ok_iff.mp hwire
    obtain ⟨flag', code', payload', received, hlength, rfl, haccepted⟩ :=
      exists_longItem_of_flipped hwire hpq hflipped hframing
    have hmax' : payload'.length ≤ Version.v2.maxPayload := hlength ▸ hmax
    constructor
    · intro hdistance
      have hdropped := fun hlimit : payload'.length ≤ r.limit =>
        feed_longItem_of_ne hrest direction hmax' hlimit
          (fun hequal => hdistance (haccepted.mp hequal))
      refine ⟨?_, fun hlimit => hdropped (hlength ▸ hlimit)⟩
      intro f hf hsize
      have hlimit : payload'.length ≤ r.limit := by
        rw [hlength, ← hsize]
        exact hrest.length_payload_le hf
      rw [(hdropped hlimit).1] at hf
      exact List.not_mem_nil hf
    · intro hdistance hlimit
      have hwire' : encodeLong direction flag' code' payload' =
          .ok (longItem direction flag' code' payload' received).toBytes := by
        rw [← haccepted.mpr hdistance]
        exact encodeLong_eq_ok_iff.mpr ⟨hmax', rfl⟩
      exact ⟨flag', code', payload', hlength, hwire',
        feed_encodeLong hrest hwire' (hlength ▸ hlimit)⟩

/-- A bit of the flag and one 93 places behind it are flipped, and the receiver takes the frame for
another; had it been two bits 31 places apart, or one, it would have noticed. -/
theorem two_flipped_bits_missed_iff_seven_bytes :
    let r := Receiver.ofSettings { maxPayload := 7 }
    let w : Bytes := [0x24, 0x58, 0x3E, 0, 0x01, 0x10, 7, 0, 1, 2, 3, 4, 5, 6, 7, 0xE6]
    let missed : Bytes := [0x24, 0x58, 0x3E, 0x80, 0x01, 0x10, 7, 0, 1, 2, 3, 4, 5, 6, 3, 0xE6]
    let noticed : Bytes := [0x24, 0x58, 0x3E, 0, 0x01, 0x10, 7, 0, 0x81, 2, 3, 5, 5, 6, 7, 0xE6]
    encodeLong .response 0 0x1001 [1, 2, 3, 4, 5, 6, 7] = .ok w ∧
      DifferAt w missed [24, 117] ∧ crcFrom 0x42 w = crcFrom 0x42 missed ∧
      Signal.failure? (r.feed missed).2 = none ∧ (r.feed missed).1.tally.checksumFailures = 0 ∧
      DifferAt w noticed [64, 95] ∧ Signal.frames (r.feed noticed).2 = [] ∧
      (r.feed noticed).1.tally.checksumFailures = 1 ∧
      DifferAt [1, 0xD5] [0, 0xD5] [7] ∧ crcFrom 0x42 [1, 0xD5] ≠ crcFrom 0x42 [0, 0xD5] ∧
      crc [1] = 0xD5 ∧ crc [0] ≠ 0xD5 := by
  intro r w missed noticed
  have hreach : r.Reachable := ⟨{ maxPayload := 7 }, [], rfl⟩
  have hwire : encodeLong .response 0 0x1001 [1, 2, 3, 4, 5, 6, 7] = .ok w := by decide +kernel
  have hmissed : DifferAt w missed [24, 117] := by decide +kernel
  have hnoticed : DifferAt w noticed [64, 95] := by decide +kernel
  have hone : DifferAt [1, 0xD5] [0, 0xD5] [7] := by decide +kernel
  have hcrc : crc [1] = 0xD5 := by decide +kernel
  obtain ⟨htwo, hsingle, -, hcovered, hreceiver⟩ := two_flipped_bits_missed_iff
  obtain ⟨-, haccepts⟩ := hreceiver r hreach rfl .response 0 0x1001 [1, 2, 3, 4, 5, 6, 7] w missed
    24 117 hwire (by decide) hmissed (by decide)
  obtain ⟨-, -, -, -, -, -, hfailure, -, hcount⟩ := haccepts (by decide) (by decide)
  obtain ⟨hrejects, -⟩ := hreceiver r hreach rfl .response 0 0x1001 [1, 2, 3, 4, 5, 6, 7] w noticed
    64 95 hwire (by decide) hnoticed (by decide)
  obtain ⟨hframes, -, hcount'⟩ := (hrejects (by decide)).2 (by decide)
  have hbody : crc [0] ≠ 0xD5 := by
    rw [← hcrc] at hone
    have hne := hcovered [1] [0] (crc [1]) 7 hone
    rwa [hcrc] at hne
  exact ⟨hwire, hmissed, (htwo 0x42 w missed 24 117 (by decide) hmissed).mpr (by decide), hfailure,
    hcount, hnoticed, hframes, hcount', hone, hsingle 0x42 _ _ 7 hone, hcrc, hbody⟩

end FlightLink
