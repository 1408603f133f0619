import FlightLink.Proofs.Oversized
import FlightLink.Proofs.WireForms

/-!
# Raising the limit

The limit of a receiver has a say in one place only: a frame that declares more is given up. As
long as none is, a receiver with a larger limit does the same, whatever the capacities of the two
buffers; and since a size field has at most two bytes, a limit of 65535 bytes is none at all.
-/

namespace FlightLink

/-- No frame can declare more payload than two bytes can say. -/
theorem Phase.declared?_le {phase : Phase} {byte : UInt8} {size : Nat}
    (hdeclared : phase.declared? byte = some size) : size ≤ Version.v2.maxPayload := by
  cases phase with
  | shortSize direction =>
    obtain rfl := Option.some.inj hdeclared
    have hbyte : byte.toNat < 256 := byte.toNat_lt
    rw [Version.maxPayload]
    omega
  | longHeader direction header filled =>
    rw [declared?] at hdeclared
    split at hdeclared
    · cases hdeclared
    · obtain rfl := Option.some.inj hdeclared
      exact (header.set byte filled).size_le
  | _ => cases hdeclared

/-- All sizes that are declared on the way lie within the limit there and a second one. -/
def WithinBoth (limit : Nat) (arrivals : List Arrival) : Prop :=
  ∀ a ∈ arrivals, ∀ size, a.declared? = some size → size ≤ a.receiver.limit ∧ size ≤ limit

/-- The error that the answer about a chunk comes with, if it comes with one. -/
def Answer.error? : Answer → Option Oversized
  | .decoded (.error o) | .collected _ (some o) => some o
  | _ => none

namespace Receiver

variable {r : Receiver} {limit : Nat}

/-- The same receiver with another limit and a buffer of another capacity. -/
def withRoom (r : Receiver) (limit capacity : Nat) : Receiver := { r with limit, capacity }

/-- Room is made for a size within the limit. -/
theorem makeRoom_of_le {size : Nat} (hsize : size ≤ r.limit) (next : Phase) :
    r.makeRoom size next =
      ({ r with phase := next, payload := #[], capacity := max r.capacity size },
        growth r.capacity size) := by
  rw [makeRoom, if_neg (Nat.not_lt.mpr hsize), growth]
  split
  · rename_i hcapacity
    rw [Nat.max_eq_right (Nat.le_of_lt hcapacity)]
  · rename_i hcapacity
    rw [Nat.max_eq_left (Nat.not_lt.mp hcapacity)]

/-- A size within both limits does not tell them apart. -/
theorem carryOut_withRoom {deed : Deed} (capacity : Nat)
    (hfits : ∀ size, deed.declared? = some size → size ≤ r.limit ∧ size ≤ limit) :
    ∃ capacity',
      ((r.withRoom limit capacity).carryOut deed).1 =
          (r.carryOut deed).1.withRoom limit capacity' ∧
        Signal.lessGrowth ((r.withRoom limit capacity).carryOut deed).2 =
          Signal.lessGrowth (r.carryOut deed).2 := by
  cases deed with
  | enter | loseSync | store => exact ⟨capacity, rfl, rfl⟩
  | makeRoom size next =>
    obtain ⟨hsize, hsize'⟩ := hfits size rfl
    have hroom : size ≤ (r.withRoom limit capacity).limit := hsize'
    refine ⟨max capacity size, ?_, ?_⟩
    · rw [carryOut, carryOut, makeRoom_of_le hsize, makeRoom_of_le hroom]
      rfl
    · rw [carryOut, carryOut, makeRoom_of_le hsize, makeRoom_of_le hroom, lessGrowth_growth,
        lessGrowth_growth]
  | finish version direction code expected received =>
    refine ⟨capacity, ?_, ?_⟩
    · rw [carryOut, carryOut, finish, finish]
      split <;> rfl
    · rw [carryOut, carryOut, finish, finish]
      split <;> rfl

/-- A byte that declares no size above either limit is taken in the same way under both, but for the
room in the buffer. -/
theorem step_withRoom {byte : UInt8} (capacity : Nat) (hfits : WithinBoth limit [⟨r, byte⟩]) :
    ∃ capacity',
      ((r.withRoom limit capacity).step byte).1 = (r.step byte).1.withRoom limit capacity' ∧
        Signal.lessGrowth ((r.withRoom limit capacity).step byte).2 =
          Signal.lessGrowth (r.step byte).2 := by
  obtain ⟨deed, hdeclared, hdeed⟩ := exists_deed r.phase r.payload byte
  rw [hdeed r rfl rfl, hdeed (r.withRoom limit capacity) rfl rfl]
  refine carryOut_withRoom (r := r.counted) capacity fun size hsize => ?_
  exact hfits ⟨r, byte⟩ (List.mem_singleton_self _) size (hdeclared.symm.trans hsize)

/-- A chunk that declares no size above either limit is taken in the same way under both, but for
the room in the buffer. -/
theorem feed_withRoom {data : Bytes} (capacity : Nat)
    (hfits : WithinBoth limit (r.arrivals data)) :
    ∃ capacity',
      ((r.withRoom limit capacity).feed data).1 = (r.feed data).1.withRoom limit capacity' ∧
        Signal.lessGrowth ((r.withRoom limit capacity).feed data).2 =
          Signal.lessGrowth (r.feed data).2 := by
  induction data generalizing r capacity with
  | nil => exact ⟨capacity, rfl, rfl⟩
  | cons byte data ih =>
    obtain ⟨hfirst, hothers⟩ := List.forall_mem_cons.mp hfits
    obtain ⟨middle, hstep, hraised⟩ :=
      step_withRoom capacity (List.forall_mem_singleton.mpr hfirst)
    obtain ⟨capacity', hfeed, hraised'⟩ := ih middle hothers
    rw [feed_cons, feed_cons, hstep]
    refine ⟨capacity', hfeed, ?_⟩
    rw [Signal.lessGrowth_append, Signal.lessGrowth_append, hraised, hraised']

end Receiver

/-! ### Operations -/

namespace Session

variable {s : Session} {limit : Nat} {ops : List Operation}

/-- The same session with another limit and a buffer of another capacity. -/
def withRoom (s : Session) (limit capacity : Nat) : Session :=
  { s with receiver := s.receiver.withRoom limit capacity }

/-- All of a session but the limit of its receiver and the capacity of the buffer. -/
def lessRoom (s : Session) : Session := s.withRoom 0 0

/-- Two sessions answer operations alike and raise the same, growth of the buffer apart; and after
each of the operations they differ in limit and capacity at most. -/
structure RunsLike (s s' : Session) (ops : List Operation) : Prop where
  /-- The answers are the same. -/
  answers : (s'.performAll ops).2.map Prod.fst = (s.performAll ops).2.map Prod.fst
  /-- What is raised is the same, growth of the buffer apart. -/
  raised : (s'.performAll ops).2.map (fun answer => Signal.lessGrowth answer.2) =
    (s.performAll ops).2.map fun answer => Signal.lessGrowth answer.2
  /-- The sessions are the same at any time, limit and capacity apart. -/
  states : ∀ n, (s'.performAll (ops.take n)).1.lessRoom = (s.performAll (ops.take n)).1.lessRoom

/-- An operation that brings no size above either limit is performed alike under both. -/
theorem perform_withRoom {op : Operation} (capacity : Nat)
    (hfits : WithinBoth limit (Call.mk s op).arrivals) :
    ∃ capacity', ((s.withRoom limit capacity).perform op).1 =
          (s.perform op).1.withRoom limit capacity' ∧
        ((s.withRoom limit capacity).perform op).2.1 = (s.perform op).2.1 ∧
        Signal.lessGrowth ((s.withRoom limit capacity).perform op).2.2 =
          Signal.lessGrowth (s.perform op).2.2 := by
  -- It suffices that the receivers become the same and raise the same.
  suffices hreceiver : ∃ capacity', ((s.withRoom limit capacity).perform op).1.receiver =
        (s.perform op).1.receiver.withRoom limit capacity' ∧
      Signal.lessGrowth ((s.withRoom limit capacity).perform op).2.2 =
        Signal.lessGrowth (s.perform op).2.2 by
    obtain ⟨capacity', hafter, hraised⟩ := hreceiver
    obtain ⟨hframes, hfailure⟩ := Signal.frames_eq_of_lessGrowth hraised
    have hkept : (s.withRoom limit capacity).kept = s.kept := rfl
    obtain ⟨hanswer, hkept⟩ := perform_congr hkept (fun _ => rfl) hframes hfailure
    exact ⟨capacity', congrArg₂ Session.mk hafter hkept, hanswer, hraised⟩
  cases op with
  | decode data | collect data => exact Receiver.feed_withRoom capacity hfits
  | reset | watch | unwatch => exact ⟨capacity, rfl, rfl⟩

/-- Operations that bring no size above either limit are performed alike under both. -/
theorem performAll_withRoom (capacity : Nat)
    (hfits : WithinBoth limit ((s.calls ops).flatMap Call.arrivals)) :
    ∃ capacity', ((s.withRoom limit capacity).performAll ops).1 =
          (s.performAll ops).1.withRoom limit capacity' ∧
        ((s.withRoom limit capacity).performAll ops).2.map Prod.fst =
          (s.performAll ops).2.map Prod.fst ∧
        ((s.withRoom limit capacity).performAll ops).2.map
            (fun answer => Signal.lessGrowth answer.2) =
          (s.performAll ops).2.map fun answer => Signal.lessGrowth answer.2 := by
  induction ops generalizing s capacity with
  | nil => exact ⟨capacity, rfl, rfl, rfl⟩
  | cons op ops ih =>
    rw [calls, List.flatMap_cons] at hfits
    obtain ⟨hfirst, hothers⟩ := List.forall_mem_append.mp hfits
    obtain ⟨middle, hafter, hanswer, hraised⟩ := perform_withRoom capacity hfirst
    obtain ⟨capacity', hend, hanswers, hraisedAll⟩ := ih middle hothers
    rw [performAll_cons, performAll_cons, hafter]
    refine ⟨capacity', hend, ?_, ?_⟩
    · rw [List.map_cons, List.map_cons, hanswers, hanswer]
    · rw [List.map_cons, List.map_cons, hraisedAll, hraised]

/-- The first calls are those of the first operations. -/
theorem calls_take (s : Session) (ops : List Operation) (n : Nat) :
    s.calls (ops.take n) = (s.calls ops).take n := by
  induction ops generalizing s n with
  | nil => rw [List.take_nil, calls, List.take_nil]
  | cons op ops ih =>
    cases n with
    | zero => rfl
    | succ n => rw [List.take_succ_cons, calls, calls, List.take_succ_cons, ih]

/-- Sessions that differ in limit and capacity run alike as long as no size is above either
limit. -/
theorem runsLike_withRoom (capacity : Nat)
    (hfits : WithinBoth limit ((s.calls ops).flatMap Call.arrivals)) :
    s.RunsLike (s.withRoom limit capacity) ops := by
  obtain ⟨-, -, hanswers, hraised⟩ := performAll_withRoom capacity hfits
  refine ⟨hanswers, hraised, fun n => ?_⟩
  have htake : WithinBoth limit ((s.calls (ops.take n)).flatMap Call.arrivals) := by
    intro a ha
    rw [calls_take] at ha
    obtain ⟨c, hc, ha⟩ := List.mem_flatMap.mp ha
    exact hfits a (List.mem_flatMap.mpr ⟨c, List.mem_of_mem_take hc, ha⟩)
  obtain ⟨capacity', hstate, -⟩ := performAll_withRoom capacity htake
  rw [hstate]
  rfl

/-! ### Failures -/

/-- No call changes the limit. -/
theorem limit_of_mem_calls {c : Call} (hc : c ∈ s.calls ops) :
    c.session.receiver.limit = s.receiver.limit := by
  induction ops generalizing s with
  | nil => cases hc
  | cons op ops ih =>
    rcases List.mem_cons.mp hc with rfl | hc
    · rfl
    · exact (ih hc).trans (s.limit_and_log_perform op).1

/-- All bytes of all chunks come to receivers with the same limit. -/
theorem limit_of_mem_arrivals_calls {a : Arrival}
    (ha : a ∈ (s.calls ops).flatMap Call.arrivals) : a.receiver.limit = s.receiver.limit := by
  obtain ⟨c, hc, ha⟩ := List.mem_flatMap.mp ha
  exact (Receiver.limit_of_mem_arrivals ha).trans (limit_of_mem_calls hc)

/-- No size is above two limits if none is above the smaller. -/
theorem withinBoth_of_le (hlimit : s.receiver.limit ≤ limit)
    (hnone : ∀ a ∈ (s.calls ops).flatMap Call.arrivals, a.isExcess = false) :
    WithinBoth limit ((s.calls ops).flatMap Call.arrivals) := by
  intro a ha size hsize
  have hwithin := Arrival.isExcess_eq_false_iff.mp (hnone a ha) size hsize
  rw [limit_of_mem_arrivals_calls ha] at hwithin ⊢
  exact ⟨hwithin, Nat.le_trans hwithin hlimit⟩

/-- No size is above two limits of 65535 bytes or more. -/
theorem withinBoth_of_max (hlimit : Version.v2.maxPayload ≤ s.receiver.limit)
    (hlimit' : Version.v2.maxPayload ≤ limit) :
    WithinBoth limit ((s.calls ops).flatMap Call.arrivals) := by
  intro a ha size hsize
  have hmax := Phase.declared?_le hsize
  rw [limit_of_mem_arrivals_calls ha]
  exact ⟨Nat.le_trans hmax hlimit, Nat.le_trans hmax hlimit'⟩

/-- No size is above a limit of 65535 bytes or more. -/
theorem isExcess_eq_false_of_max (hlimit : Version.v2.maxPayload ≤ s.receiver.limit) :
    ∀ a ∈ (s.calls ops).flatMap Call.arrivals, a.isExcess = false := by
  intro a ha
  apply Arrival.isExcess_eq_false_iff.mpr
  intro size hsize
  exact (withinBoth_of_max hlimit hlimit a ha size hsize).1

/-- An operation fails just if it completes a head that declares too much. -/
theorem error?_perform (s : Session) (op : Operation) :
    (s.perform op).2.1.error? = none ↔
      ∀ a ∈ (Call.mk s op).arrivals, a.isExcess = false := by
  cases op with
  | decode data =>
    have herror : (s.perform (.decode data)).2.1.error? =
        Signal.failure? (s.receiver.feed data).2 := by
      simp only [perform, Receiver.decode]
      cases Signal.failure? (s.receiver.feed data).2 <;> rfl
    rw [herror]
    exact s.receiver.failure?_feed_eq_none_iff data
  | collect data =>
    have herror : (s.perform (.collect data)).2.1.error? =
        Signal.failure? (s.receiver.feed data).2 := by
      rw [perform_collect]
      cases Signal.failure? (s.receiver.feed data).2 <;> rfl
    rw [herror]
    exact s.receiver.failure?_feed_eq_none_iff data
  | reset | watch | unwatch =>
    constructor
    · intro _ a ha
      cases ha
    · intro _
      rfl

/-- Operations give up no frame just if none of them fails. -/
theorem error?_performAll (s : Session) (ops : List Operation) :
    (∀ answer ∈ (s.performAll ops).2, answer.1.error? = none) ↔
      ∀ a ∈ (s.calls ops).flatMap Call.arrivals, a.isExcess = false := by
  induction ops generalizing s with
  | nil => simp [performAll, calls]
  | cons op ops ih =>
    rw [performAll_cons, calls, List.flatMap_cons, List.forall_mem_cons, List.forall_mem_append, ih,
      error?_perform]

end Session

/-- Raising the limit changes nothing as long as no frame is given up: after each operation the
session is the same, limit and capacity apart, and all answers are the same and all that is raised
but growth of the buffer. No frame is given up just if no operation fails. Under limits of 65535
bytes and more, the usual one among them, no operation ever fails, and the limit makes no
difference. -/
theorem runsLike_of_raised_limit (settings : ReceiverSettings) (limit capacity : Nat)
    (ops : List Operation) :
    let s := Session.ofSettings settings
    let s' := Session.ofSettings
      { settings with maxPayload := limit, initialCapacity := capacity }
    (settings.maxPayload ≤ limit → (s.performAll ops).1.receiver.tally.oversized = 0 →
        s.RunsLike s' ops) ∧
      ((s.performAll ops).1.receiver.tally.oversized = 0 ↔
        ∀ answer ∈ (s.performAll ops).2, answer.1.error? = none) ∧
      (65535 ≤ settings.maxPayload →
        (∀ answer ∈ (s.performAll ops).2, answer.1.error? = none) ∧
          (65535 ≤ limit → s.RunsLike s' ops)) ∧
      ∀ answer ∈ ((Session.ofSettings {}).performAll ops).2, answer.1.error? = none := by
  intro s s'
  let arrivals := (s.calls ops).flatMap Call.arrivals
  have hcount : (s.performAll ops).1.receiver.tally.oversized =
      0 + arrivals.countP Arrival.isExcess := (s.balance_performAll ops).oversized
  have hnone : (s.performAll ops).1.receiver.tally.oversized = 0 ↔
      ∀ a ∈ arrivals, a.isExcess = false := by
    rw [hcount, Nat.zero_add, List.countP_eq_zero]
    simp only [Bool.not_eq_true]
  have hroom : s' = s.withRoom limit (min capacity limit) := rfl
  refine ⟨fun hlimit hzero => ?_, ?_, fun hmax => ⟨?_, fun hmax' => ?_⟩, ?_⟩
  · rw [hroom]
    exact Session.runsLike_withRoom _ (Session.withinBoth_of_le hlimit (hnone.mp hzero))
  · rw [hnone, Session.error?_performAll]
  · exact (Session.error?_performAll s ops).mpr (Session.isExcess_eq_false_of_max hmax)
  · rw [hroom]
    exact Session.runsLike_withRoom _ (Session.withinBoth_of_max hmax hmax')
  · exact (Session.error?_performAll _ ops).mpr (Session.isExcess_eq_false_of_max Nat.le.refl)

/-- A buffer has to grow under the smaller limit and is large enough under the larger one; a frame
is cut off by a reset, and an opening fails. -/
theorem runsLike_of_raised_limit_grown :
    let settings : ReceiverSettings := { maxPayload := 1, initialCapacity := 0 }
    let ops : List Operation :=
      [.collect [0xFF, 0x24, 0x4D, 0x3C, 1], .decode [7, 0x24, 0x22, 0x24, 0x4D], .reset,
        .collect [0x24, 0x24, 0x24, 0x58, 0x3C, 0, 44, 1, 1, 0, 0xFF]]
    let s := Session.ofSettings settings
    let s' := Session.ofSettings { settings with maxPayload := 70000, initialCapacity := 9 }
    let wide := Session.ofSettings {}
    let wider := Session.ofSettings { maxPayload := 70000, initialCapacity := 0 }
    s.RunsLike s' ops ∧ (s.performAll ops).2.map Prod.snd ≠ (s'.performAll ops).2.map Prod.snd ∧
      (∀ answer ∈ (s.performAll ops).2, answer.1.error? = none) ∧ wide.RunsLike wider ops := by
  intro settings ops s s' wide wider
  have hzero : (s.performAll ops).1.receiver.tally.oversized = 0 := by decide +kernel
  have hraised : (s.performAll ops).2.map Prod.snd ≠ (s'.performAll ops).2.map Prod.snd := by
    decide +kernel
  obtain ⟨hlike, hnone, -⟩ := runsLike_of_raised_limit settings 70000 9 ops
  obtain ⟨-, -, hwide, -⟩ := runsLike_of_raised_limit {} 70000 0 ops
  have hsettings : settings.maxPayload ≤ 70000 := by decide
  have hmax : (65535 : Nat) ≤ 70000 := by decide
  exact ⟨hlike hsettings hzero, hraised, hnone.mp hzero, (hwide Nat.le.refl).2 hmax⟩

end FlightLink
