import FlightLink.Proofs.Accounting

/-!
# What is done about a byte

What a receiver does about a byte falls into two halves. The phase, the payload so far and the byte
decide what is to be done, which is one of five deeds; the settings, the capacity and the observer
have a say only in how it is carried out. So receivers that differ in nothing else do the same deed
about the same byte, and runs of theirs are compared deed by deed.
-/

namespace FlightLink

/-- What is to be done about a byte. -/
inductive Deed where
  /-- To move on inside a frame, or to stay between frames. -/
  | enter (phase : Phase)
  /-- To drop a frame at its marker or direction. -/
  | loseSync (rejection : Rejection)
  /-- To make room for a payload, or to give the frame up. -/
  | makeRoom (size : Nat) (next : Phase)
  /-- To keep a payload byte. -/
  | store (byte : UInt8) (size : Nat) (more full : Phase)
  /-- To complete or to drop a frame, by its checksum. -/
  | finish (version : Version) (direction : Direction) (code : UInt16) (expected received : UInt8)

/-- The size that room is to be made for. -/
def Deed.declared? : Deed → Option Nat
  | .makeRoom size _ => some size
  | _ => none

/-- Does a deed. -/
def Receiver.carryOut (r : Receiver) : Deed → Receiver × List Signal
  | .enter phase => r.enter phase
  | .loseSync rejection => r.loseSync rejection
  | .makeRoom size next => r.makeRoom size next
  | .store byte size more full => r.store byte size more full
  | .finish version direction code expected received =>
    r.finish version direction code expected received

/-- Phase, payload and byte decide on a deed: every receiver that has them in common does it. Room
is made just for what the byte declares. -/
theorem exists_deed (phase : Phase) (payload : Array UInt8) (byte : UInt8) :
    ∃ deed : Deed, deed.declared? = phase.declared? byte ∧
      ∀ r : Receiver, r.phase = phase → r.payload = payload →
        r.step byte = r.counted.carryOut deed := by
  -- Counting the byte changes neither the phase nor the payload.
  suffices hadvance : ∃ deed : Deed, deed.declared? = phase.declared? byte ∧
      ∀ r : Receiver, r.phase = phase → r.payload = payload →
        r.advance byte = r.carryOut deed by
    obtain ⟨deed, hdeclared, hdeed⟩ := hadvance
    exact ⟨deed, hdeclared, fun r hphase hpayload => hdeed r.counted hphase hpayload⟩
  cases phase with
  | idle => exact ⟨.enter _, rfl, fun r hphase _ => by rw [Receiver.advance, hphase]; rfl⟩
  | preamble =>
    cases hmarker : Version.ofMarker? byte with
    | some version =>
      refine ⟨.enter (.direction version), rfl, fun r hphase _ => ?_⟩
      simp only [Receiver.advance, hphase, hmarker]
      rfl
    | none =>
      refine ⟨.loseSync (.badVersionMarker byte), rfl, fun r hphase _ => ?_⟩
      simp only [Receiver.advance, hphase, hmarker]
      rfl
  | direction version =>
    cases hbyte : Direction.ofByte? byte with
    | some direction =>
      cases version with
      | v1 =>
        refine ⟨.enter (.shortSize direction), rfl, fun r hphase _ => ?_⟩
        simp only [Receiver.advance, hphase, hbyte]
        rfl
      | v2 =>
        refine ⟨.enter (.longHeader direction .blank 0), rfl, fun r hphase _ => ?_⟩
        simp only [Receiver.advance, hphase, hbyte]
        rfl
    | none =>
      refine ⟨.loseSync (.badDirection byte), rfl, fun r hphase _ => ?_⟩
      simp only [Receiver.advance, hphase, hbyte]
      rfl
  | shortSize direction =>
    exact ⟨.makeRoom _ _, rfl, fun r hphase _ => by rw [Receiver.advance, hphase]; rfl⟩
  | shortCode direction size parity =>
    by_cases hsize : size = 0
    · refine ⟨.enter (.shortChecksum direction byte (parity ^^^ byte)), rfl, fun r hphase _ => ?_⟩
      simp only [Receiver.advance, hphase, if_pos hsize]
      rfl
    · refine ⟨.enter (.shortPayload direction byte size (parity ^^^ byte)), rfl,
        fun r hphase _ => ?_⟩
      simp only [Receiver.advance, hphase, if_neg hsize]
      rfl
  | shortPayload direction code size parity =>
    exact ⟨.store _ _ _ _, rfl, fun r hphase _ => by rw [Receiver.advance, hphase]; rfl⟩
  | shortChecksum direction code parity =>
    exact ⟨.finish _ _ _ _ _, rfl, fun r hphase _ => by rw [Receiver.advance, hphase]; rfl⟩
  | longHeader direction header filled =>
    by_cases hmore : filled + 1 < LongHeader.byteCount
    · refine ⟨.enter (.longHeader direction (header.set byte filled) (filled + 1)), ?_,
        fun r hphase _ => ?_⟩
      · rw [Phase.declared?, if_pos hmore]
        rfl
      · simp only [Receiver.advance, hphase, if_pos hmore]
        rfl
    · let whole := header.set byte filled
      refine ⟨.makeRoom whole.size (if whole.size = 0 then .longChecksum direction whole whole.code
        else .longPayload direction whole whole.code whole.size), ?_, fun r hphase _ => ?_⟩
      · rw [Phase.declared?, if_neg hmore]
        rfl
      · simp only [Receiver.advance, hphase, if_neg hmore]
        rfl
  | longPayload direction header code size =>
    exact ⟨.store _ _ _ _, rfl, fun r hphase _ => by rw [Receiver.advance, hphase]; rfl⟩
  | longChecksum direction header code =>
    refine ⟨.finish .v2 direction code (payload.foldl Crc.advance (crc header.toBytes)) byte, rfl,
      fun r hphase hpayload => ?_⟩
    rw [Receiver.advance, hphase, ← hpayload]
    rfl

/-- No deed changes the settings or the observer of a receiver. -/
theorem Receiver.settings_carryOut (r : Receiver) (deed : Deed) :
    (r.carryOut deed).1.limit = r.limit ∧ (r.carryOut deed).1.logRejections = r.logRejections ∧
      (r.carryOut deed).1.observer = r.observer := by
  cases deed with
  | enter | loseSync | store => exact ⟨rfl, rfl, rfl⟩
  | makeRoom size next =>
    rw [carryOut, makeRoom]
    split
    · exact ⟨rfl, rfl, rfl⟩
    · split <;> exact ⟨rfl, rfl, rfl⟩
  | finish version direction code expected received =>
    rw [carryOut, finish]
    split <;> exact ⟨rfl, rfl, rfl⟩

/-- No byte changes the settings or the observer of a receiver. -/
theorem Receiver.settings_step (r : Receiver) (byte : UInt8) :
    (r.step byte).1.limit = r.limit ∧ (r.step byte).1.logRejections = r.logRejections ∧
      (r.step byte).1.observer = r.observer := by
  obtain ⟨deed, -, hdeed⟩ := exists_deed r.phase r.payload byte
  rw [hdeed r rfl rfl]
  exact r.counted.settings_carryOut deed

namespace Arrival

/-- The size that the byte declares, if it is the last of the head of a frame. -/
def declared? (a : Arrival) : Option Nat := a.receiver.phase.declared? a.byte

/-- A byte declares too much just if it declares a size above the limit. -/
theorem isExcess_eq_false_iff {a : Arrival} :
    a.isExcess = false ↔ ∀ size, a.declared? = some size → size ≤ a.receiver.limit := by
  rw [isExcess, Option.any_eq_false]
  simp only [decide_eq_false_iff_not, Nat.not_lt]
  rfl

end Arrival

/-- No chunk changes the settings or the observer of a receiver. -/
theorem Receiver.settings_feed (r : Receiver) (data : Bytes) :
    (r.feed data).1.limit = r.limit ∧ (r.feed data).1.logRejections = r.logRejections ∧
      (r.feed data).1.observer = r.observer := by
  induction data generalizing r with
  | nil => exact ⟨rfl, rfl, rfl⟩
  | cons byte data ih =>
    obtain ⟨hlimit, hlog, hobserver⟩ := r.settings_step byte
    obtain ⟨hlimit', hlog', hobserver'⟩ := ih (r.step byte).1
    rw [feed_cons]
    exact ⟨hlimit'.trans hlimit, hlog'.trans hlog, hobserver'.trans hobserver⟩

/-- The receivers that the bytes of a chunk come to have the limit of the first. -/
theorem Receiver.limit_of_mem_arrivals {r : Receiver} {data : Bytes} {a : Arrival}
    (ha : a ∈ r.arrivals data) : a.receiver.limit = r.limit := by
  induction data generalizing r with
  | nil => cases ha
  | cons byte data ih =>
    rcases List.mem_cons.mp ha with rfl | ha
    · rfl
    · exact (ih ha).trans (r.settings_step byte).1

namespace Session

variable {s s' : Session} {op : Operation}

/-- No operation changes the limit of a receiver or whether it logs. -/
theorem limit_and_log_perform (s : Session) (op : Operation) :
    (s.perform op).1.receiver.limit = s.receiver.limit ∧
      (s.perform op).1.receiver.logRejections = s.receiver.logRejections := by
  cases op with
  | decode data | collect data =>
    obtain ⟨hlimit, hlog, -⟩ := s.receiver.settings_feed data
    exact ⟨hlimit, hlog⟩
  | reset | watch | unwatch => exact ⟨rfl, rfl⟩

/-- The frames raised and the first given up are all that an answer shows of a chunk. -/
theorem perform_congr (hkept : s'.kept = s.kept)
    (hobserver : op = .unwatch → s'.receiver.observer = s.receiver.observer)
    (hframes : Signal.frames (s'.perform op).2.2 = Signal.frames (s.perform op).2.2)
    (hfailure : Signal.failure? (s'.perform op).2.2 = Signal.failure? (s.perform op).2.2) :
    (s'.perform op).2.1 = (s.perform op).2.1 ∧ (s'.perform op).1.kept = (s.perform op).1.kept := by
  cases op with
  | decode data =>
    have hframes : Signal.frames (s'.receiver.feed data).2 =
        Signal.frames (s.receiver.feed data).2 := hframes
    have hfailure : Signal.failure? (s'.receiver.feed data).2 =
        Signal.failure? (s.receiver.feed data).2 := hfailure
    refine ⟨?_, hkept⟩
    simp only [perform, Receiver.decode, hframes, hfailure]
  | collect data =>
    exact ⟨congrArg₂ Answer.collected hframes hfailure, congrArg₂ (· ++ ·) hkept hframes⟩
  | reset | watch => exact ⟨rfl, hkept⟩
  | unwatch => exact ⟨congrArg Answer.observer (hobserver rfl), hkept⟩

end Session

end FlightLink
