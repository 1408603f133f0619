import FlightLink.Proofs.Verdicts
import FlightLink.Receiver.Session

/-!
# Receivers that can be come by

Whatever a user does with a new receiver, it stands somewhere in an item, and between frames it is
at rest.
-/

namespace FlightLink

/-- A receiver that was new and then had some operations performed on it. -/
def Receiver.Reachable (r : Receiver) : Prop :=
  ∃ (s : ReceiverSettings) (ops : List Operation),
    ((Session.ofSettings s).performAll ops).1.receiver = r

/-- Operations may be performed in two goes. -/
theorem Session.performAll_append (s : Session) (front back : List Operation) :
    s.performAll (front ++ back) =
      (((s.performAll front).1.performAll back).1,
        (s.performAll front).2 ++ ((s.performAll front).1.performAll back).2) := by
  induction front generalizing s with
  | nil => rfl
  | cons op front ih => simp only [List.cons_append, performAll_cons, ih]

namespace Operation

/-- The bytes that an operation brings. -/
def received : Operation → Bytes
  | .decode data | .collect data => data
  | .reset | .watch _ | .unwatch => []

/-- What a scanner makes of an operation on a receiver that has received `part` of an item: the
items that are completed, and the part of an item that is left over. -/
def scan (limit : Nat) (part : Bytes) : Operation → List Item × Bytes
  | .decode data | .collect data => FlightLink.scan limit (part ++ data)
  | .reset => ([], [])
  | .watch _ | .unwatch => ([], part)

end Operation

/-- After an operation, a receiver has received what the scanner leaves over. -/
theorem Receiver.HasPart.perform {s : Session} {part : Bytes} (hs : s.receiver.HasPart part)
    (op : Operation) :
    (s.perform op).1.receiver.HasPart (op.scan s.receiver.limit part).2 := by
  cases op with
  | decode data => exact hs.feed data
  | collect data => exact hs.feed data
  | reset => exact Receiver.AtRest.hasPart ⟨rfl, rfl⟩
  | watch o => exact hs.withObserver (some o)
  | unwatch => exact hs.withObserver none

/-- After any operations, a receiver stands somewhere in an item. -/
theorem Receiver.HasPart.performAll {s : Session} {part : Bytes} (hs : s.receiver.HasPart part)
    (ops : List Operation) : ∃ part', (s.performAll ops).1.receiver.HasPart part' := by
  induction ops generalizing s part with
  | nil => exact ⟨part, hs⟩
  | cons op ops ih => exact ih (hs.perform op)

/-- No operation changes the limit of a receiver. -/
theorem Receiver.HasPart.limit_performAll {s : Session} {part : Bytes}
    (hs : s.receiver.HasPart part) (ops : List Operation) :
    (s.performAll ops).1.receiver.limit = s.receiver.limit := by
  induction ops generalizing s part with
  | nil => rfl
  | cons op ops ih =>
    have hop : (s.perform op).1.receiver.limit = s.receiver.limit := by
      cases op with
      | decode data | collect data => exact (hs.settings_feed data).1
      | reset | watch | unwatch => rfl
    rw [Session.performAll_cons, ih (hs.perform op), hop]

namespace Receiver.Reachable

variable {r : Receiver}

/-- A reachable receiver stands somewhere in an item, at its start if nowhere else. -/
theorem hasPart (hr : r.Reachable) : ∃ part, r.HasPart part := by
  obtain ⟨s, ops, rfl⟩ := hr
  have hstart : (Session.ofSettings s).receiver.AtRest := ⟨rfl, rfl⟩
  exact hstart.hasPart.performAll ops

/-- Between frames, a receiver has nothing in its buffer. -/
theorem atRest (hr : r.Reachable) (hidle : r.isIdle = true) : r.AtRest := by
  obtain ⟨part, hpart⟩ := hr.hasPart
  exact hpart.atRest hidle

/-- A receiver in the middle of a chunk is one at the end of a shorter chunk. -/
theorem feed (hr : r.Reachable) (data : Bytes) : (r.feed data).1.Reachable := by
  obtain ⟨s, ops, rfl⟩ := hr
  refine ⟨s, ops ++ [.collect data], ?_⟩
  rw [Session.performAll_append]
  rfl

end Receiver.Reachable

end FlightLink
