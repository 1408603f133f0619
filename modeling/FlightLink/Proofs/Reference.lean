import FlightLink.Proofs.Verdicts
import FlightLink.Receiver.Session

/-!
# Receivers read streams by items

A receiver takes a stream byte by byte and keeps a phase, a buffer and a running checksum between
two bytes; a scanner has the whole stream before it and looks at one item after the other. On every
stream the two come to the same.
-/

namespace FlightLink

/-- A new receiver that decodes a stream, observed or not, gives the frames that a scanner finds in
it, fails with the first item that is too large, reports and logs the rejections in order, counts
the items by their verdicts and the bytes, and is between frames just if the stream ends with an
item. The frames, errors, notices and log entries stand in the order of the items. -/
theorem collect_eq_scan (s : ReceiverSettings) (observer : Option Observer) (data : Bytes) :
    let start : Receiver := { Receiver.ofSettings s with observer }
    let (session, answer, out) := (Session.mk start []).perform (.collect data)
    let (items, rest) := scan s.maxPayload data
    let verdicts := items.map (Item.verdict s.maxPayload)
    data = items.flatMap Item.toBytes ++ rest ∧
      session.kept = verdicts.filterMap Verdict.frame? ∧
      answer = .collected (verdicts.filterMap Verdict.frame?)
        (verdicts.findSome? Verdict.oversized?) ∧
      Signal.notices out = start.noticesOf (verdicts.filterMap Verdict.rejection?) ∧
      Signal.dropped out = start.droppedOf (verdicts.filterMap Verdict.rejection?) ∧
      Signal.lessGrowth out = verdicts.flatMap start.announce ∧
      session.receiver.tally = Tally.after {} data.length verdicts ∧
      (session.receiver.isIdle = true ↔ rest = []) ∧
      ∃ room, Partway s.maxPayload rest session.receiver.phase
        session.receiver.payload.toList room := by
  intro start
  have hstart : start.HasPart [] := Receiver.AtRest.hasPart ⟨rfl, rfl⟩
  have hout := hstart.lessGrowth_feed data
  obtain ⟨hframes, hnotices, hdropped, hfailure⟩ := Receiver.signals_of_lessGrowth hout
  have hend : (start.feed data).1.HasPart (scan s.maxPayload data).2 := hstart.feed data
  have hlimit : (start.feed data).1.limit = s.maxPayload := (hstart.settings_feed data).1
  obtain ⟨room, hpart, -⟩ := hend.partway
  rw [hlimit] at hpart
  refine ⟨(scan_sound s.maxPayload data).2, ?_, ?_, hnotices, hdropped, hout,
    hstart.tally_feed data, hend.isIdle_iff, room, hpart⟩
  · exact hframes
  · exact congrArg₂ Answer.collected hframes hfailure

end FlightLink
