import FlightLink.Proofs.Deeds
import FlightLink.Proofs.Histories

/-!
# Frames that are too large

A head that declares too much ends a frame, and that frame only. The receiver is at rest behind it,
whatever came before, and takes the bytes that follow as a new one does; so a chunk falls into
pieces, cut behind each such head, of which all but the first are received anew. The chunk fails
with the first of these heads, and nothing else is lost by that but what `decode` does not hand out.
-/

namespace FlightLink

/-- The frames of many signals are those of each in turn. -/
theorem Signal.frames_flatMap {α : Type} (raised : α → List Signal) (l : List α) :
    frames (l.flatMap raised) = l.flatMap fun a => frames (raised a) :=
  List.filterMap_flatMap

namespace Arrival

/-- The size that the byte declares, if it is too much. -/
def excess? (a : Arrival) : Option Nat :=
  a.declared?.filter fun size => a.receiver.limit < size

/-- A byte ends a head that declares too much just if there is a size that it declares and that is
too much. -/
theorem isExcess_eq_isSome (a : Arrival) : a.isExcess = a.excess?.isSome := by
  rw [isExcess, excess?, declared?]
  cases a.receiver.phase.declared? a.byte with
  | none => rfl
  | some size => by_cases hsize : a.receiver.limit < size <;> simp [Option.filter, hsize]

end Arrival

namespace Receiver

variable {r : Receiver} {byte : UInt8}

/-- The sizes in a chunk that are declared and too much, in order. -/
def excesses (r : Receiver) (data : Bytes) : List Nat :=
  (r.arrivals data).filterMap Arrival.excess?

/-- A chunk cut behind each head that declares too much. -/
def cut : Receiver → Bytes → List Bytes
  | _, [] => [[]]
  | r, byte :: data =>
    if (Arrival.mk r byte).isExcess then [byte] :: (r.step byte).1.cut data
    else ((r.step byte).1.cut data).modifyHead (byte :: ·)

/-- A new receiver with the settings and the observer of another. -/
def anew (r : Receiver) : Receiver :=
  { ofSettings { maxPayload := r.limit, logRejections := r.logRejections } with
    observer := r.observer }

/-- A new receiver is at rest. -/
theorem atRest_anew (r : Receiver) : r.anew.AtRest := ⟨rfl, rfl⟩

/-! ### What is given up -/

/-- To report a rejection gives no frame up. -/
@[simp] theorem givenUp_report (r : Receiver) (rejection : Rejection) :
    Signal.givenUp (r.report rejection) = [] :=
  r.filterMap_report rfl fun _ => rfl

/-- A frame is given up by making room for more than the limit, and by no other deed. -/
theorem givenUp_carryOut (r : Receiver) (deed : Deed) :
    Signal.givenUp (r.carryOut deed).2 =
      ((deed.declared?.filter fun size => r.limit < size).map fun size =>
        (⟨size, r.limit⟩ : Oversized)).toList := by
  cases deed with
  | enter | store => rfl
  | loseSync rejection => exact r.givenUp_report rejection
  | makeRoom size next =>
    rw [Deed.declared?, carryOut, makeRoom]
    by_cases hsize : r.limit < size
    · simp only [if_pos hsize, Option.filter_some, decide_eq_true hsize, if_true]
      rfl
    · simp only [if_neg hsize, Option.filter_some, decide_eq_false hsize, Bool.false_eq_true,
        if_false]
      split <;> rfl
  | finish version direction code expected received =>
    simp only [carryOut, finish]
    split
    · rfl
    · exact r.givenUp_report _

/-- A byte gives a frame up just if it declares too much. -/
theorem givenUp_step (r : Receiver) (byte : UInt8) :
    Signal.givenUp (r.step byte).2 =
      ((Arrival.mk r byte).excess?.map fun size => (⟨size, r.limit⟩ : Oversized)).toList := by
  obtain ⟨deed, hdeclared, hdeed⟩ := exists_deed r.phase r.payload byte
  rw [hdeed r rfl rfl, givenUp_carryOut, hdeclared]
  rfl

/-- The sizes in a chunk that are too much are that of the first byte, if any, and those of the
others. -/
theorem excesses_cons (r : Receiver) (byte : UInt8) (data : Bytes) :
    r.excesses (byte :: data) =
      (Arrival.mk r byte).excess?.toList ++ (r.step byte).1.excesses data := by
  rw [excesses, arrivals, List.filterMap_cons]
  cases (Arrival.mk r byte).excess? <;> rfl

/-- A chunk gives up the frames whose heads declare too much, in order. -/
theorem givenUp_feed (r : Receiver) (data : Bytes) :
    Signal.givenUp (r.feed data).2 = (r.excesses data).map fun size => ⟨size, r.limit⟩ := by
  induction data generalizing r with
  | nil => rfl
  | cons byte data ih =>
    rw [feed_cons, Signal.givenUp_append, givenUp_step, ih, (r.settings_step byte).1,
      excesses_cons, List.map_append]
    cases (Arrival.mk r byte).excess? <;> rfl

/-- A chunk fails just if a head in it declares too much, with the first that does. -/
theorem failure?_feed (r : Receiver) (data : Bytes) :
    Signal.failure? (r.feed data).2 =
      (r.excesses data).head?.map fun size => ⟨size, r.limit⟩ := by
  rw [Signal.failure?_eq_head?_givenUp, givenUp_feed, List.head?_map]

/-- A chunk fails just if some head in it declares too much. -/
theorem failure?_feed_eq_none_iff (r : Receiver) (data : Bytes) :
    Signal.failure? (r.feed data).2 = none ↔ ∀ a ∈ r.arrivals data, a.isExcess = false := by
  rw [failure?_feed, Option.map_eq_none_iff, List.head?_eq_none_iff, excesses,
    List.filterMap_eq_nil_iff]
  simp only [Arrival.isExcess_eq_isSome, Option.isSome_eq_false_iff, Option.isNone_iff_eq_none]

/-- Each frame given up is counted. -/
theorem oversized_feed (r : Receiver) (data : Bytes) :
    (r.feed data).1.tally.oversized = r.tally.oversized + (r.excesses data).length := by
  have hcount : (r.arrivals data).countP Arrival.isExcess = (r.excesses data).length := by
    rw [excesses, List.length_filterMap_eq_countP]
    exact List.countP_congr fun a _ => by rw [a.isExcess_eq_isSome]
  rw [(r.balance_feed data).oversized, hcount]

/-- The heads that declare too much are those that a scanner finds. -/
theorem HasPart.excesses_eq {part : Bytes} (hr : r.HasPart part) (data : Bytes) :
    (r.excesses data).map (fun size => (⟨size, r.limit⟩ : Oversized)) =
      ((scan r.limit (part ++ data)).1.map (Item.verdict r.limit)).filterMap
        Verdict.oversized? := by
  rw [← givenUp_feed, ← Signal.givenUp_lessGrowth, hr.lessGrowth_feed, givenUp_flatMap_announce]

/-! ### Behind a frame given up -/

/-- Behind a head that declares too much a receiver is at rest, whatever came before. -/
theorem atRest_step_of_isExcess (hexcess : (Arrival.mk r byte).isExcess = true) :
    (r.step byte).1.AtRest := by
  obtain ⟨deed, hdeclared, hdeed⟩ := exists_deed r.phase r.payload byte
  rw [hdeed r rfl rfl]
  rw [Arrival.isExcess, ← hdeclared] at hexcess
  cases deed with
  | makeRoom size next =>
    have hsize : r.counted.limit < size := of_decide_eq_true hexcess
    rw [carryOut, makeRoom, if_pos hsize]
    exact ⟨rfl, rfl⟩
  | _ => cases hexcess

/-- Receivers at rest with the same settings and observer raise the same, growth of the buffer
apart. -/
theorem AtRest.lessGrowth_feed_congr {r' : Receiver} (hrest : r.AtRest) (hrest' : r'.AtRest)
    (hlimit : r'.limit = r.limit) (hlog : r'.logRejections = r.logRejections)
    (hobserver : r'.observer = r.observer) (data : Bytes) :
    Signal.lessGrowth (r'.feed data).2 = Signal.lessGrowth (r.feed data).2 := by
  rw [hrest.hasPart.lessGrowth_feed, hrest'.hasPart.lessGrowth_feed, hlimit,
    announce_congr hlog hobserver]

/-- Behind a head that declares too much the receiver is at rest. -/
theorem atRest_feed_of_isExcess {front : Bytes}
    (hexcess : (Arrival.mk (r.feed front).1 byte).isExcess = true) :
    (r.feed (front ++ [byte])).1.AtRest := by
  rw [feed_append, feed_cons, feed_nil]
  exact atRest_step_of_isExcess hexcess

/-- The bytes behind a head that declares too much give the frames that they give a new receiver. -/
theorem frames_feed_of_isExcess {front : Bytes}
    (hexcess : (Arrival.mk (r.feed front).1 byte).isExcess = true) (back : Bytes) :
    Signal.frames (r.feed (front ++ byte :: back)).2 =
      Signal.frames (r.feed (front ++ [byte])).2 ++ Signal.frames (r.anew.feed back).2 := by
  obtain ⟨hlimit, hlog, hobserver⟩ := r.settings_feed (front ++ [byte])
  have hback := (atRest_feed_of_isExcess hexcess).lessGrowth_feed_congr r.atRest_anew hlimit.symm
    hlog.symm hobserver.symm back
  rw [List.append_cons, feed_append, Signal.frames_append,
    (Signal.frames_eq_of_lessGrowth hback).1]

/-- The first piece of a chunk is received as it comes, and each of the others as by `new`. -/
def receptions (r new : Receiver) : List Bytes → List (Receiver × List Signal)
  | [] => []
  | first :: others => r.feed first :: others.map new.feed

/-- A chunk is cut into pieces that raise what it raises, growth of the buffer apart, if `new`
receives all but the first. Each but the last fails with the head that it ends in. -/
structure CutInto (r new : Receiver) (data first : Bytes) (others : List Bytes) : Prop where
  /-- The pieces are those that the chunk is cut into. -/
  cut : r.cut data = first :: others
  /-- The pieces are the chunk. -/
  flatten : first ++ others.flatten = data
  /-- The pieces raise what the chunk raises. -/
  raised : Signal.lessGrowth (r.feed data).2 =
    (r.receptions new (first :: others)).flatMap fun after => Signal.lessGrowth after.2
  /-- There is a piece for each head that declares too much, and one more. -/
  failures : (r.receptions new (first :: others)).map (fun after => Signal.failure? after.2) =
    (r.excesses data).map (fun size => some ⟨size, r.limit⟩) ++ [none]

/-- A byte that does not declare too much is one more in front of the first piece. -/
theorem CutInto.cons {new : Receiver} {data first : Bytes} {others : List Bytes}
    (hcut : (r.step byte).1.CutInto new data first others)
    (hsize : (Arrival.mk r byte).excess? = none) :
    r.CutInto new (byte :: data) (byte :: first) others := by
  have hlimit := (r.settings_step byte).1
  have hexcess := (Arrival.mk r byte).isExcess_eq_isSome
  rw [hsize] at hexcess
  have hraised := hcut.raised
  rw [receptions, List.flatMap_cons] at hraised
  have hfailures := hcut.failures
  rw [receptions, List.map_cons, hlimit] at hfailures
  have hfailure : Signal.failure? (r.feed (byte :: first)).2 =
      Signal.failure? ((r.step byte).1.feed first).2 := by
    rw [failure?_feed, failure?_feed, excesses_cons, hsize, hlimit]
    rfl
  constructor
  · rw [Receiver.cut, hcut.cut, hexcess]
    rfl
  · exact congrArg (byte :: ·) hcut.flatten
  · rw [receptions, List.flatMap_cons, feed_cons, feed_cons, Signal.lessGrowth_append,
      Signal.lessGrowth_append, hraised, List.append_assoc]
  · rw [receptions, List.map_cons, hfailure, hfailures, excesses_cons, hsize]
    rfl

/-- A byte that declares too much is a piece of its own. What was the first piece behind it is
received from rest, as by any receiver at rest. -/
theorem CutInto.cons_of_excess {new : Receiver} {data first : Bytes} {others : List Bytes}
    {size : Nat} (hcut : (r.step byte).1.CutInto new data first others)
    (hsize : (Arrival.mk r byte).excess? = some size) (hnew : new.AtRest)
    (hlimit : new.limit = (r.step byte).1.limit)
    (hlog : new.logRejections = (r.step byte).1.logRejections)
    (hobserver : new.observer = (r.step byte).1.observer) :
    r.CutInto new (byte :: data) [byte] (first :: others) := by
  have hexcess := (Arrival.mk r byte).isExcess_eq_isSome
  rw [hsize] at hexcess
  have hagain : Signal.lessGrowth ((r.step byte).1.feed first).2 =
      Signal.lessGrowth (new.feed first).2 :=
    hnew.lessGrowth_feed_congr (atRest_step_of_isExcess hexcess) hlimit.symm hlog.symm
      hobserver.symm first
  obtain ⟨-, hfailure⟩ := Signal.frames_eq_of_lessGrowth hagain
  have hraised := hcut.raised
  rw [receptions, List.flatMap_cons, hagain] at hraised
  have hfailures := hcut.failures
  rw [receptions, List.map_cons, hfailure, (r.settings_step byte).1] at hfailures
  have hhead : Signal.failure? (r.feed [byte]).2 = some ⟨size, r.limit⟩ := by
    rw [failure?_feed, excesses_cons, hsize]
    rfl
  constructor
  · rw [Receiver.cut, hcut.cut, hexcess]
    rfl
  · exact congrArg (byte :: ·) hcut.flatten
  · rw [receptions, List.flatMap_cons, List.map_cons, List.flatMap_cons, feed_cons, feed_cons,
      feed_nil, Signal.lessGrowth_append, hraised, List.append_nil]
  · rw [receptions, List.map_cons, List.map_cons, List.map_cons, hhead, hfailures, excesses_cons,
      hsize]
    rfl

/-- Every chunk is cut so, with any receiver at rest behind the heads that declare too much. -/
theorem exists_cutInto {new : Receiver} (hnew : new.AtRest) (hlimit : new.limit = r.limit)
    (hlog : new.logRejections = r.logRejections) (hobserver : new.observer = r.observer)
    (data : Bytes) : ∃ first others, r.CutInto new data first others := by
  induction data generalizing r with
  | nil => exact ⟨[], [], rfl, rfl, rfl, rfl⟩
  | cons byte data ih =>
    obtain ⟨hlimit', hlog', hobserver'⟩ := r.settings_step byte
    rw [← hlimit'] at hlimit
    rw [← hlog'] at hlog
    rw [← hobserver'] at hobserver
    obtain ⟨first, others, hcut⟩ := ih hlimit hlog hobserver
    cases hsize : (Arrival.mk r byte).excess? with
    | none => exact ⟨byte :: first, others, hcut.cons hsize⟩
    | some size =>
      exact ⟨[byte], first :: others, hcut.cons_of_excess hsize hnew hlimit hlog hobserver⟩

end Receiver

/-- A head that declares too much ends its own frame only. A chunk fails just if it completes such
heads, with the first of them, and counts each; all its bytes are received all the same, and
`collect` appends the frames of all its pieces to those kept, whatever these are. Behind each such
head the receiver is between frames and does what a new one does. `decode` does the same to the
receiver and raises the same, but keeps nothing: it hands the frames out if the chunk does not fail,
and the error alone if it does. -/
theorem excess_ends_frame_only (r : Receiver) (kept : List Frame) (data : Bytes) :
    let after := r.feed data
    let appended := Signal.frames after.2
    let sizes := r.excesses data
    let failure := sizes.head?.map fun size => (⟨size, r.limit⟩ : Oversized)
    (Session.mk r kept).perform (.collect data) =
        (⟨after.1, kept ++ appended⟩, .collected appended failure, after.2) ∧
      (Session.mk r kept).perform (.decode data) =
        (⟨after.1, kept⟩,
          .decoded (match failure with | some o => .error o | none => .ok appended), after.2) ∧
      after.1.tally.bytes = r.tally.bytes + data.length ∧
      after.1.tally.oversized = r.tally.oversized + sizes.length ∧
      (∀ front byte back, data = front ++ byte :: back →
        (Arrival.mk (r.feed front).1 byte).isExcess = true →
        let behind := (r.feed (front ++ [byte])).1
        behind.isIdle = true ∧ behind.payload = #[] ∧ behind.BehavesLike r.anew ∧
          appended = Signal.frames (r.feed (front ++ [byte])).2 ++
            Signal.frames (r.anew.feed back).2) ∧
      (∃ first others, r.cut data = first :: others ∧ first ++ others.flatten = data ∧
        appended = (r.receptions r.anew (first :: others)).flatMap
          (fun after => Signal.frames after.2) ∧
        (r.receptions r.anew (first :: others)).map (fun after => Signal.failure? after.2) =
          sizes.map (fun size => some ⟨size, r.limit⟩) ++ [none]) ∧
      (r.Reachable → ∃ part, r.HasPart part ∧
        sizes.map (fun size => (⟨size, r.limit⟩ : Oversized)) =
          ((scan r.limit (part ++ data)).1.map (Item.verdict r.limit)).filterMap
            Verdict.oversized?) := by
  intro after appended sizes failure
  have hfailure : Signal.failure? after.2 = failure := r.failure?_feed data
  refine ⟨?_, ?_, (r.balance_feed data).bytes, r.oversized_feed data, ?_, ?_, ?_⟩
  · rw [Session.perform_collect, ← hfailure]
  · rw [← hfailure]
    rfl
  · rintro front byte back rfl hexcess behind
    have hrest : behind.AtRest := Receiver.atRest_feed_of_isExcess hexcess
    obtain ⟨hlimit, hlog, -⟩ := r.settings_feed (front ++ [byte])
    exact ⟨hrest.hasPart.isIdle_iff.mpr rfl, hrest.payload,
      hrest.behavesLike r.atRest_anew hlimit hlog, Receiver.frames_feed_of_isExcess hexcess back⟩
  · obtain ⟨first, others, hcut⟩ := Receiver.exists_cutInto (r := r) r.atRest_anew rfl rfl rfl data
    have happended := congrArg Signal.frames hcut.raised
    simp only [Signal.frames_flatMap, Signal.frames_lessGrowth] at happended
    exact ⟨first, others, hcut.cut, hcut.flatten, happended, hcut.failures⟩
  · intro hreach
    obtain ⟨part, hpart⟩ := hreach.hasPart
    exact ⟨part, hpart, hpart.excesses_eq data⟩

/-- The first head that declares too much was begun in an earlier chunk; a frame follows it, another
such head, of a long frame, and one more frame. -/
theorem excess_ends_frame_only_twice :
    let r := ((Receiver.ofSettings { maxPayload := 1 }).feed [0x24, 0x4D, 0x3E]).1
    let kept : List Frame := [⟨.v2, .request, 300, []⟩]
    let data : Bytes :=
      [2, 0x24, 0x4D, 0x21, 1, 7, 0x24, 0x22, 0x24, 0x58, 0x3C, 0, 1, 0, 44, 1,
        0xFF, 0x24, 0x4D, 0x3C, 0, 7, 7]
    let frames : List Frame := [⟨.v1, .refusal, 7, [0x24]⟩, ⟨.v1, .request, 7, []⟩]
    let after := (r.feed data).1
    r.Reachable ∧ (Arrival.mk r 2).isExcess = true ∧ data = [] ++ 2 :: data.tail ∧
      (Session.mk r kept).perform (.collect data) =
        (⟨after, kept ++ frames⟩, .collected frames (some ⟨2, 1⟩), (r.feed data).2) ∧
      (Session.mk r kept).perform (.decode data) =
        (⟨after, kept⟩, .decoded (.error ⟨2, 1⟩), (r.feed data).2) ∧
      after.tally = ⟨26, 2, 0, 0, 2⟩ ∧
      (r.feed [2]).1.BehavesLike r.anew ∧
      ∃ part, r.HasPart part ∧ [(⟨2, 1⟩ : Oversized), ⟨300, 1⟩] =
        ((scan 1 (part ++ data)).1.map (Item.verdict 1)).filterMap Verdict.oversized? := by
  intro r kept data frames after
  have hreach : r.Reachable := ⟨{ maxPayload := 1 }, [.collect [0x24, 0x4D, 0x3E]], rfl⟩
  have hexcess : (Arrival.mk r 2).isExcess = true := by decide
  have hframes : Signal.frames (r.feed data).2 = frames := by decide +kernel
  have hsizes : r.excesses data = [2, 300] := by decide +kernel
  have htally : after.tally = ⟨26, 2, 0, 0, 2⟩ := by decide +kernel
  obtain ⟨hcollect, hdecode, -, -, hbehind, -, hscan⟩ := excess_ends_frame_only r kept data
  obtain ⟨-, -, hlike, -⟩ := hbehind [] 2 data.tail rfl hexcess
  have hfound := hscan hreach
  rw [hframes, hsizes] at hcollect hdecode
  rw [hsizes] at hfound
  exact ⟨hreach, hexcess, rfl, hcollect, hdecode, htally, hlike, hfound⟩

end FlightLink
