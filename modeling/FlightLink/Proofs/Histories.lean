import FlightLink.Proofs.Deeds

/-!
# Receivers forget what they received before

Between frames a receiver keeps nothing of the frames, faults and resets behind it but its totals
and the capacity of its buffer, and neither has a part in what it makes of further bytes. Two
receivers that stand alike are led on alike by the same byte; and what they raise is settled by the
bytes of the item begun, which are the same for both.
-/

namespace FlightLink

namespace Receiver

/-- Two receivers with the same limit stand at the same place in a frame, with the same bytes in the
buffer. Of capacity, totals and observers nothing is said. -/
structure Alike (r₁ r₂ : Receiver) : Prop where
  /-- The limits are the same. -/
  limit : r₁.limit = r₂.limit
  /-- The phases are the same. -/
  phase : r₁.phase = r₂.phase
  /-- The buffers hold the same bytes. -/
  payload : r₁.payload = r₂.payload

namespace Alike

variable {r₁ r₂ : Receiver}

/-- Moving to a phase leads receivers on alike. -/
theorem enter (h : r₁.Alike r₂) (phase : Phase) : (r₁.enter phase).1.Alike (r₂.enter phase).1 :=
  ⟨h.limit, rfl, h.payload⟩

/-- Dropping a frame at its marker or direction leads receivers on alike. -/
theorem loseSync (h : r₁.Alike r₂) (rejection : Rejection) :
    (r₁.loseSync rejection).1.Alike (r₂.loseSync rejection).1 :=
  ⟨h.limit, rfl, h.payload⟩

/-- Room may have to be made in one buffer and not in the other: it leads to the same phase. -/
theorem makeRoom (h : r₁.Alike r₂) (size : Nat) (next : Phase) :
    (r₁.makeRoom size next).1.Alike (r₂.makeRoom size next).1 := by
  unfold Receiver.makeRoom
  rw [h.limit]
  split
  · exact ⟨rfl, rfl, rfl⟩
  · split <;> split <;> exact ⟨rfl, rfl, rfl⟩

/-- A payload byte leads receivers on alike: their buffers are full at the same time. -/
theorem store (h : r₁.Alike r₂) (byte : UInt8) (size : Nat) (more full : Phase) :
    (r₁.store byte size more full).1.Alike (r₂.store byte size more full).1 := by
  have hpush : r₁.payload.push byte = r₂.payload.push byte := by rw [h.payload]
  refine ⟨h.limit, ?_, hpush⟩
  simp only [Receiver.store, Receiver.enter, hpush]

/-- The end of a frame leads receivers on alike, whatever its checksum. -/
theorem finish (h : r₁.Alike r₂) (version : Version) (direction : Direction) (code : UInt16)
    (expected received : UInt8) :
    (r₁.finish version direction code expected received).1.Alike
      (r₂.finish version direction code expected received).1 := by
  unfold Receiver.finish
  split <;> exact ⟨h.limit, rfl, rfl⟩

/-- The same deed leads receivers on alike. -/
theorem carryOut (h : r₁.Alike r₂) (deed : Deed) :
    (r₁.carryOut deed).1.Alike (r₂.carryOut deed).1 := by
  cases deed with
  | enter phase => exact h.enter phase
  | loseSync rejection => exact h.loseSync rejection
  | makeRoom size next => exact h.makeRoom size next
  | store byte size more full => exact h.store byte size more full
  | finish version direction code expected received => exact h.finish ..

/-- The same byte leads receivers on alike: they do the same deed. -/
theorem step (h : r₁.Alike r₂) (byte : UInt8) : (r₁.step byte).1.Alike (r₂.step byte).1 := by
  obtain ⟨deed, -, hdeed⟩ := exists_deed r₂.phase r₂.payload byte
  have hcounted : r₁.counted.Alike r₂.counted := ⟨h.limit, h.phase, h.payload⟩
  rw [hdeed r₁ h.phase h.payload, hdeed r₂ rfl rfl]
  exact hcounted.carryOut deed

/-- The same chunk leads receivers on alike. -/
theorem feed (h : r₁.Alike r₂) (data : Bytes) : (r₁.feed data).1.Alike (r₂.feed data).1 := by
  induction data generalizing r₁ r₂ with
  | nil => exact h
  | cons byte data ih =>
    rw [feed_cons, feed_cons]
    exact ih (h.step byte)

end Alike

end Receiver

/-! ### What operations raise and count -/

namespace Operation

/-- The verdicts on the items that an operation completes. -/
def verdicts (limit : Nat) (part : Bytes) (op : Operation) : List Verdict :=
  (op.scan limit part).1.map (Item.verdict limit)

/-- The verdicts on the items that each of several operations completes. -/
def verdictsOfAll (limit : Nat) : (part : Bytes) → List Operation → List (List Verdict)
  | _, [] => []
  | part, op :: ops => op.verdicts limit part :: verdictsOfAll limit (op.scan limit part).2 ops

/-- The operation decodes a chunk, keeping its frames, or drops the frame in progress. -/
def IsReception (op : Operation) : Prop := op = .reset ∨ ∃ data, op = .collect data

end Operation

/-- What is raised for a verdict depends on logging and observer only. -/
theorem Receiver.announce_congr {r r' : Receiver} (hlog : r'.logRejections = r.logRejections)
    (hobserver : r'.observer = r.observer) : r'.announce = r.announce := by
  funext verdict
  cases verdict with
  | rejected rejection => rw [announce, announce, report, report, hlog, hobserver]
  | _ => rfl

namespace Session

variable {s : Session} {part : Bytes} {op : Operation} {ops : List Operation}

/-- Growth of the buffer apart, an operation raises what the verdicts on its items call for. -/
theorem lessGrowth_perform (hs : s.receiver.HasPart part) (op : Operation) :
    Signal.lessGrowth (s.perform op).2.2 =
      (op.verdicts s.receiver.limit part).flatMap s.receiver.announce := by
  cases op with
  | decode data => exact hs.lessGrowth_feed data
  | collect data => exact hs.lessGrowth_feed data
  | reset | watch | unwatch => rfl

/-- An operation counts its bytes, and its items by their verdicts. -/
theorem tally_perform (hs : s.receiver.HasPart part) (op : Operation) :
    (s.perform op).1.receiver.tally =
      s.receiver.tally.after op.received.length (op.verdicts s.receiver.limit part) := by
  cases op with
  | decode data => exact hs.tally_feed data
  | collect data => exact hs.tally_feed data
  | reset | watch | unwatch => rfl

/-- Decoding and resetting leave limit, logging and observer as they are. -/
theorem settings_perform (s : Session) (hop : op.IsReception) :
    (s.perform op).1.receiver.limit = s.receiver.limit ∧
      (s.perform op).1.receiver.logRejections = s.receiver.logRejections ∧
      (s.perform op).1.receiver.observer = s.receiver.observer := by
  rcases hop with rfl | ⟨data, rfl⟩
  · exact ⟨rfl, rfl, rfl⟩
  · exact s.receiver.settings_feed data

/-- Each of several operations raises what the verdicts on its items call for, growth of the buffer
apart. -/
theorem lessGrowth_performAll (hs : s.receiver.HasPart part) (hops : ∀ op ∈ ops, op.IsReception) :
    (s.performAll ops).2.map (fun answer => Signal.lessGrowth answer.2) =
      (Operation.verdictsOfAll s.receiver.limit part ops).map fun verdicts =>
        verdicts.flatMap s.receiver.announce := by
  induction ops generalizing s part with
  | nil => rfl
  | cons op ops ih =>
    obtain ⟨hop, hops⟩ := List.forall_mem_cons.mp hops
    obtain ⟨hlimit, hlog, hobserver⟩ := settings_perform s hop
    have hrest := ih (hs.perform op) hops
    rw [hlimit, Receiver.announce_congr hlog hobserver] at hrest
    rw [performAll_cons, List.map_cons, hrest, lessGrowth_perform hs]
    rfl

/-- Each of several operations reports and logs the rejections among the verdicts on its items. -/
theorem notices_performAll (hs : s.receiver.HasPart part) (hops : ∀ op ∈ ops, op.IsReception) :
    (s.performAll ops).2.map (fun answer => Signal.notices answer.2) =
        (Operation.verdictsOfAll s.receiver.limit part ops).map (fun verdicts =>
          s.receiver.noticesOf (verdicts.filterMap Verdict.rejection?)) ∧
      (s.performAll ops).2.map (fun answer => Signal.dropped answer.2) =
        (Operation.verdictsOfAll s.receiver.limit part ops).map (fun verdicts =>
          s.receiver.droppedOf (verdicts.filterMap Verdict.rejection?)) := by
  have hraised := lessGrowth_performAll hs hops
  have hnotices := congrArg (List.map Signal.notices) hraised
  have hdropped := congrArg (List.map Signal.dropped) hraised
  simp only [List.map_map, Function.comp_def, Signal.notices_lessGrowth,
    Receiver.notices_flatMap_announce] at hnotices
  simp only [List.map_map, Function.comp_def, Signal.dropped_lessGrowth,
    Receiver.dropped_flatMap_announce] at hdropped
  exact ⟨hnotices, hdropped⟩

/-- Several operations count their bytes, and their items by their verdicts. -/
theorem tally_performAll (hs : s.receiver.HasPart part) (ops : List Operation) :
    (s.performAll ops).1.receiver.tally =
      s.receiver.tally.after (ops.flatMap Operation.received).length
        (Operation.verdictsOfAll s.receiver.limit part ops).flatten := by
  induction ops generalizing s part with
  | nil => rfl
  | cons op ops ih =>
    obtain ⟨hlimit, -⟩ := s.limit_and_log_perform op
    rw [performAll_cons, ih (hs.perform op), tally_perform hs, Tally.after_after, hlimit,
      List.flatMap_cons, List.length_append]
    rfl

end Session

/-! ### Two sessions -/

/-- Two sessions have kept the same frames, and their receivers stand alike, having received the
same part of an item. -/
structure Session.Twin (s₁ s₂ : Session) : Prop where
  /-- The receivers stand alike. -/
  alike : s₁.receiver.Alike s₂.receiver
  /-- The frames kept are the same. -/
  kept : s₁.kept = s₂.kept
  /-- The receivers have received the same part of an item. -/
  part : ∃ part, s₁.receiver.HasPart part ∧ s₂.receiver.HasPart part

namespace Session.Twin

variable {s₁ s₂ : Session} {op : Operation} {ops : List Operation}

/-- Twins answer an operation alike, and are twins after it. -/
theorem perform (h : s₁.Twin s₂) (hop : op.IsReception) :
    (s₁.perform op).2.1 = (s₂.perform op).2.1 ∧ (s₁.perform op).1.Twin (s₂.perform op).1 := by
  obtain ⟨part, h₁, h₂⟩ := h.part
  have hpart : ∃ part, (s₁.perform op).1.receiver.HasPart part ∧
      (s₂.perform op).1.receiver.HasPart part :=
    ⟨_, h₁.perform op, h.alike.limit ▸ h₂.perform op⟩
  rcases hop with rfl | ⟨data, rfl⟩
  · exact ⟨rfl, ⟨h.alike.limit, rfl, rfl⟩, h.kept, hpart⟩
  · have hraised₁ := lessGrowth_perform h₁ (.collect data)
    have hraised₂ := lessGrowth_perform h₂ (.collect data)
    obtain ⟨hframes₁, -, -, hfailure₁⟩ := Receiver.signals_of_lessGrowth hraised₁
    obtain ⟨hframes₂, -, -, hfailure₂⟩ := Receiver.signals_of_lessGrowth hraised₂
    rw [h.alike.limit] at hframes₁ hfailure₁
    have hframes := hframes₁.trans hframes₂.symm
    have hfailure := hfailure₁.trans hfailure₂.symm
    refine ⟨congrArg₂ Answer.collected hframes hfailure, h.alike.feed data, ?_, hpart⟩
    exact congrArg₂ (· ++ ·) h.kept hframes

/-- Twins answer each of several operations alike, and are twins after them. -/
theorem performAll (h : s₁.Twin s₂) (hops : ∀ op ∈ ops, op.IsReception) :
    (s₁.performAll ops).2.map Prod.fst = (s₂.performAll ops).2.map Prod.fst ∧
      (s₁.performAll ops).1.Twin (s₂.performAll ops).1 := by
  induction ops generalizing s₁ s₂ with
  | nil => exact ⟨rfl, h⟩
  | cons op ops ih =>
    obtain ⟨hop, hops⟩ := List.forall_mem_cons.mp hops
    obtain ⟨hanswer, hnext⟩ := h.perform hop
    obtain ⟨hanswers, hend⟩ := ih hnext hops
    refine ⟨?_, hend⟩
    rw [performAll_cons, performAll_cons, List.map_cons, List.map_cons, hanswer, hanswers]

end Session.Twin

/-- What two receivers do is the same, whatever chunks and resets come: the answers to all of these,
the frames kept, the entries about dropped frames, the rejections reported, and by how much the
totals rise; and after them they stand alike. With the same observer, all that is raised is the
same, growth of the buffer apart. -/
def Receiver.BehavesLike (r₁ r₂ : Receiver) : Prop :=
  ∀ ops : List Operation, (∀ op ∈ ops, op.IsReception) →
    let run₁ := (Session.mk r₁ []).performAll ops
    let run₂ := (Session.mk r₂ []).performAll ops
    run₁.2.map Prod.fst = run₂.2.map Prod.fst ∧ run₁.1.kept = run₂.1.kept ∧
      run₁.1.receiver.phase = run₂.1.receiver.phase ∧
      run₁.1.receiver.payload = run₂.1.receiver.payload ∧
      run₁.2.map (fun answer => Signal.dropped answer.2) =
        run₂.2.map (fun answer => Signal.dropped answer.2) ∧
      (∃ (count : Nat) (calls : List (List Verdict)),
        run₁.1.receiver.tally = r₁.tally.after count calls.flatten ∧
        run₂.1.receiver.tally = r₂.tally.after count calls.flatten ∧
        run₁.2.map (fun answer => Signal.notices answer.2) =
          calls.map (fun verdicts => r₁.noticesOf (verdicts.filterMap Verdict.rejection?)) ∧
        run₂.2.map (fun answer => Signal.notices answer.2) =
          calls.map (fun verdicts => r₂.noticesOf (verdicts.filterMap Verdict.rejection?))) ∧
      (r₁.observer = r₂.observer →
        run₁.2.map (fun answer => Signal.lessGrowth answer.2) =
          run₂.2.map (fun answer => Signal.lessGrowth answer.2))

/-- Receivers at rest that have limit and logging in common do the same. -/
theorem Receiver.AtRest.behavesLike {r₁ r₂ : Receiver} (h₁ : r₁.AtRest) (h₂ : r₂.AtRest)
    (hlimit : r₁.limit = r₂.limit) (hlog : r₁.logRejections = r₂.logRejections) :
    r₁.BehavesLike r₂ := by
  intro ops hops run₁ run₂
  have hpart₁ : (Session.mk r₁ []).receiver.HasPart [] := h₁.hasPart
  have hpart₂ : (Session.mk r₂ []).receiver.HasPart [] := h₂.hasPart
  have halike : r₁.Alike r₂ :=
    ⟨hlimit, h₁.phase.trans h₂.phase.symm, h₁.payload.trans h₂.payload.symm⟩
  have htwin : (Session.mk r₁ []).Twin (Session.mk r₂ []) := ⟨halike, rfl, [], hpart₁, hpart₂⟩
  obtain ⟨hanswers, hend⟩ := htwin.performAll hops
  obtain ⟨hnotices₁, hdropped₁⟩ := Session.notices_performAll hpart₁ hops
  obtain ⟨hnotices₂, hdropped₂⟩ := Session.notices_performAll hpart₂ hops
  have htally₁ := Session.tally_performAll hpart₁ ops
  have htally₂ := Session.tally_performAll hpart₂ ops
  have hraised₁ := Session.lessGrowth_performAll hpart₁ hops
  have hraised₂ := Session.lessGrowth_performAll hpart₂ hops
  simp only [hlimit] at hnotices₁ hdropped₁ htally₁ hraised₁
  have hdropped : r₁.droppedOf = r₂.droppedOf := by
    funext rejections
    rw [Receiver.droppedOf, Receiver.droppedOf, hlog]
  refine ⟨hanswers, hend.kept, hend.alike.phase, hend.alike.payload, ?_,
    ⟨_, _, htally₁, htally₂, hnotices₁, hnotices₂⟩, ?_⟩
  · rw [hdropped₁, hdropped₂, hdropped]
  · intro hobserver
    rw [hraised₁, hraised₂, Receiver.announce_congr hlog hobserver]

/-- Receivers between frames do the same from then on, whatever came before, if limit and logging
are the same; in particular, a receiver that was reset does what a new one does. -/
theorem behavesLike_of_isIdle {r₁ r₂ : Receiver} (hreach₁ : r₁.Reachable) (hreach₂ : r₂.Reachable)
    (hidle₁ : r₁.isIdle = true) (hidle₂ : r₂.isIdle = true) (hlimit : r₁.limit = r₂.limit)
    (hlog : r₁.logRejections = r₂.logRejections) :
    r₁.BehavesLike r₂ ∧
      ∀ (r : Receiver) (capacity : Nat) (observer : Option Observer),
        r.reset.BehavesLike
          { Receiver.ofSettings ⟨r.limit, capacity, r.logRejections⟩ with observer } := by
  refine ⟨(hreach₁.atRest hidle₁).behavesLike (hreach₂.atRest hidle₂) hlimit hlog, ?_⟩
  intro r capacity observer
  have hreset : r.reset.AtRest := ⟨rfl, rfl⟩
  have hnew : Receiver.AtRest
      { Receiver.ofSettings ⟨r.limit, capacity, r.logRejections⟩ with observer } := ⟨rfl, rfl⟩
  exact hreset.behavesLike hnew rfl rfl

/-- A receiver that has dropped a frame, given up one, received one and was reset in another does
the same as a new one that has no room in its buffer and is not observed. -/
theorem behavesLike_of_isIdle_after_faults :
    let used := ((Session.ofSettings { maxPayload := 1 }).performAll
      [.collect [0x24, 0x4D, 0x3C, 0, 7, 8, 0x24, 0x58, 0x3E, 0, 0, 0, 0xFF, 0xFF], .watch ⟨3⟩,
        .collect [0x24, 0x4D, 0x21, 1, 7, 9, 0x0F, 0x24, 0x4D, 0x21, 1, 5], .reset]).1.receiver
    let new := Receiver.ofSettings { maxPayload := 1, initialCapacity := 0 }
    used.Reachable ∧ new.Reachable ∧ used.isIdle = true ∧ new.isIdle = true ∧
      used.limit = new.limit ∧ used.logRejections = new.logRejections ∧
      used.tally = ⟨26, 1, 1, 0, 1⟩ ∧ used.capacity = 1 ∧ used.BehavesLike new := by
  intro used new
  have hreach₁ : used.Reachable := ⟨{ maxPayload := 1 }, _, rfl⟩
  have hreach₂ : new.Reachable := ⟨{ maxPayload := 1, initialCapacity := 0 }, [], rfl⟩
  have hidle₁ : used.isIdle = true := by decide +kernel
  have hlimit : used.limit = new.limit := by decide +kernel
  have hlog : used.logRejections = new.logRejections := by decide +kernel
  have hbehaves := (behavesLike_of_isIdle hreach₁ hreach₂ hidle₁ rfl hlimit hlog).1
  exact ⟨hreach₁, hreach₂, hidle₁, rfl, hlimit, hlog, by decide +kernel, by decide +kernel,
    hbehaves⟩

end FlightLink
