import FlightLink.Receiver.Step

/-!
# Feeding a receiver

A chunk is received byte by byte: `feed_cons` takes one byte off its front, and by `feed_append`
feeding a stream in pieces is feeding it whole. The frames in it are those of each piece in turn,
and it fails with the first frame that is given up in any. What the report of a rejection
can raise is said once, by `forall_mem_report`.
-/

namespace FlightLink

namespace Signal

variable {front back : List Signal}

/-- The frames of two pieces are those of one and then of the other. -/
@[simp] theorem frames_append : frames (front ++ back) = frames front ++ frames back :=
  List.filterMap_append

/-- The first frame given up in the first piece that has one counts. -/
theorem failure?_append : failure? (front ++ back) = (failure? front).or (failure? back) :=
  List.findSome?_append

end Signal

namespace Receiver

/-- A rejection is reported by a log entry and by a notice, where these are wanted: what holds of
both holds of all that is raised. -/
theorem forall_mem_report {P : Signal → Prop} {rejection : Rejection} (r : Receiver)
    (hlogged : P (.event (.frameDropped rejection))) (hnotice : ∀ o, P (.notice o rejection)) :
    ∀ s ∈ r.report rejection, P s := by
  rw [report]
  cases r.logRejections <;> cases r.observer <;> simp [hlogged, hnotice]

/-- Nothing is read off a report, if nothing is read off the log entry and off the notice. -/
theorem filterMap_report {γ : Type} {f : Signal → Option γ} {rejection : Rejection} (r : Receiver)
    (hlogged : f (.event (.frameDropped rejection)) = none)
    (hnotice : ∀ o, f (.notice o rejection) = none) : (r.report rejection).filterMap f = [] :=
  List.filterMap_eq_nil_iff.mpr (r.forall_mem_report hlogged hnotice)

/-- Without bytes a receiver stays as it is and raises nothing. -/
@[simp] theorem feed_nil (r : Receiver) : r.feed [] = (r, []) := gather_nil step r

/-- A chunk is its first byte and then the others. -/
theorem feed_cons (r : Receiver) (b : UInt8) (data : Bytes) :
    r.feed (b :: data) =
      (((r.step b).1.feed data).1, (r.step b).2 ++ ((r.step b).1.feed data).2) :=
  gather_cons step r b data

/-- Feeding a stream in two pieces is feeding it whole. -/
theorem feed_append (r : Receiver) (front back : Bytes) :
    r.feed (front ++ back) =
      (((r.feed front).1.feed back).1, (r.feed front).2 ++ ((r.feed front).1.feed back).2) :=
  gather_append step r front back

end Receiver

end FlightLink
