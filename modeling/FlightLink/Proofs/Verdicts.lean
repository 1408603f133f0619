import FlightLink.Proofs.Runs

/-!
# What a run raises

Growth of the buffer apart, a run raises for each item what its verdict calls for, in the order of
the items. Frames, notices, log entries about dropped frames and errors are read off from there.
-/

namespace FlightLink

namespace Signal

/-- Whether a signal is about the buffer of a receiver only. -/
def isGrowth : Signal → Bool
  | .event (.bufferGrown _) => true
  | _ => false

/-- The signals that are not about the buffer. -/
def lessGrowth (out : List Signal) : List Signal := out.filter fun s => !s.isGrowth

/-- The frames that were given up. -/
def givenUp (out : List Signal) : List Oversized :=
  out.filterMap fun | .oversized o => some o | _ => none

/-- The rejections that were logged. -/
def dropped (out : List Signal) : List Rejection :=
  out.filterMap fun | .event (.frameDropped rejection) => some rejection | _ => none

/-- What is left without growth can be read off the parts. -/
@[simp] theorem lessGrowth_append (front back : List Signal) :
    lessGrowth (front ++ back) = lessGrowth front ++ lessGrowth back :=
  List.filter_append ..

/-- The frames that were given up can be read off the parts. -/
@[simp] theorem givenUp_append (front back : List Signal) :
    givenUp (front ++ back) = givenUp front ++ givenUp back :=
  List.filterMap_append

/-- What is read off signals can be read off those kept, if nothing is read off the others. -/
theorem filterMap_filter_of_none {γ : Type} {f : Signal → Option γ} {keep : Signal → Bool}
    (hothers : ∀ s, keep s = false → f s = none) (out : List Signal) :
    (out.filter keep).filterMap f = out.filterMap f := by
  rw [List.filterMap_filter]
  congr 1
  funext s
  cases hs : keep s with
  | false => rw [if_neg Bool.false_ne_true, hothers s hs]
  | true => rw [if_pos rfl]

/-- What growth of the buffer does not show in can be read off the other signals. -/
private theorem filterMap_lessGrowth {γ : Type} {f : Signal → Option γ}
    (hgrowth : ∀ size, f (.event (.bufferGrown size)) = none) (out : List Signal) :
    (lessGrowth out).filterMap f = out.filterMap f := by
  apply filterMap_filter_of_none
  intro s hs
  rw [Bool.not_eq_false'] at hs
  unfold isGrowth at hs
  split at hs
  · exact hgrowth _
  · cases hs

/-- Growth of the buffer is no frame. -/
theorem frames_lessGrowth (out : List Signal) : frames (lessGrowth out) = frames out :=
  filterMap_lessGrowth (fun _ => rfl) out

/-- Growth of the buffer is not reported to an observer. -/
theorem notices_lessGrowth (out : List Signal) : notices (lessGrowth out) = notices out :=
  filterMap_lessGrowth (fun _ => rfl) out

/-- Growth of the buffer is no rejection. -/
theorem dropped_lessGrowth (out : List Signal) : dropped (lessGrowth out) = dropped out :=
  filterMap_lessGrowth (fun _ => rfl) out

/-- Growth of the buffer gives no frame up. -/
theorem givenUp_lessGrowth (out : List Signal) : givenUp (lessGrowth out) = givenUp out :=
  filterMap_lessGrowth (fun _ => rfl) out

/-- A chunk fails with the first frame that was given up. -/
theorem failure?_eq_head?_givenUp (out : List Signal) : failure? out = (givenUp out).head? :=
  List.head?_filterMap.symm

/-- Growth does not count in whether a chunk fails. -/
theorem failure?_lessGrowth (out : List Signal) : failure? (lessGrowth out) = failure? out := by
  rw [failure?_eq_head?_givenUp, failure?_eq_head?_givenUp, givenUp_lessGrowth]

/-- Neither frames nor failure are about the buffer. -/
theorem frames_eq_of_lessGrowth {out out' : List Signal} (hout : lessGrowth out = lessGrowth out') :
    frames out = frames out' ∧ failure? out = failure? out' := by
  have hframes := congrArg frames hout
  have hfailure := congrArg failure? hout
  rw [frames_lessGrowth, frames_lessGrowth] at hframes
  rw [failure?_lessGrowth, failure?_lessGrowth] at hfailure
  exact ⟨hframes, hfailure⟩

end Signal

namespace Receiver

variable {r : Receiver}

/-- The notices that rejections give rise to. -/
def noticesOf (r : Receiver) (rejections : List Rejection) : List (Observer × Rejection) :=
  match r.observer with
  | some o => rejections.map fun rejection => (o, rejection)
  | none => []

/-- The entries that rejections leave in the log. -/
def droppedOf (r : Receiver) (rejections : List Rejection) : List Rejection :=
  if r.logRejections then rejections else []

/-- Growth is left out whatever the capacity and the size are. -/
@[simp] theorem lessGrowth_growth (capacity size : Nat) :
    Signal.lessGrowth (growth capacity size) = [] := by
  by_cases hcapacity : capacity < size <;>
    simp [growth, hcapacity, Signal.lessGrowth, Signal.isGrowth]

/-- What a verdict calls for is never about the buffer. -/
theorem lessGrowth_announce (r : Receiver) (verdict : Verdict) :
    Signal.lessGrowth (r.announce verdict) = r.announce verdict := by
  cases verdict with
  | passed => rfl
  | frame f => rfl
  | oversized o => rfl
  | rejected rejection => exact List.filter_eq_self.mpr (r.forall_mem_report rfl fun _ => rfl)

/-- Growth of the buffer apart, settled items raise what their verdicts call for. -/
theorem lessGrowth_gather_settle (r : Receiver) (items : List Item) :
    Signal.lessGrowth (gather Receiver.settle r items).2 =
      (items.map (Item.verdict r.limit)).flatMap r.announce := by
  induction items generalizing r with
  | nil => rfl
  | cons item items ih =>
    rw [gather_cons, Signal.lessGrowth_append, ih]
    simp only [Receiver.settle, close, Signal.lessGrowth_append, lessGrowth_growth,
      lessGrowth_announce, List.nil_append, List.map_cons, List.flatMap_cons]
    rfl

/-- What is read off the signals for one verdict is read off those for many in turn. -/
private theorem filterMap_flatMap_announce {γ : Type} {f : Signal → Option γ}
    {g : Verdict → Option γ}
    (hread : ∀ verdict, (r.announce verdict).filterMap f = (g verdict).toList)
    (verdicts : List Verdict) :
    (verdicts.flatMap r.announce).filterMap f = verdicts.filterMap g := by
  induction verdicts with
  | nil => rfl
  | cons verdict verdicts ih =>
    rw [List.flatMap_cons, List.filterMap_append, hread, ih]
    cases hg : g verdict <;> simp [hg]

/-- The frames among what verdicts call for. -/
theorem frames_flatMap_announce (r : Receiver) (verdicts : List Verdict) :
    Signal.frames (verdicts.flatMap r.announce) = verdicts.filterMap Verdict.frame? := by
  refine filterMap_flatMap_announce (fun verdict => ?_) verdicts
  cases verdict with
  | rejected rejection => exact r.filterMap_report rfl fun _ => rfl
  | _ => rfl

/-- The notices among what verdicts call for go to the observer, if there is one. -/
theorem notices_flatMap_announce (r : Receiver) (verdicts : List Verdict) :
    Signal.notices (verdicts.flatMap r.announce) =
      r.noticesOf (verdicts.filterMap Verdict.rejection?) := by
  have hread : ∀ verdict, Signal.notices (r.announce verdict) =
      (r.observer.bind fun o => verdict.rejection?.map fun rejection => (o, rejection)).toList := by
    intro verdict
    cases verdict with
    | rejected rejection =>
      rw [announce, report]
      cases r.logRejections <;> cases r.observer <;> rfl
    | _ => cases r.observer <;> rfl
  rw [Signal.notices, filterMap_flatMap_announce hread, noticesOf]
  cases r.observer with
  | none => simp
  | some o => exact List.map_filterMap.symm

/-- The entries about dropped frames among what verdicts call for, if they are wanted. -/
theorem dropped_flatMap_announce (r : Receiver) (verdicts : List Verdict) :
    Signal.dropped (verdicts.flatMap r.announce) =
      r.droppedOf (verdicts.filterMap Verdict.rejection?) := by
  have hread : ∀ verdict, Signal.dropped (r.announce verdict) =
      (if r.logRejections then verdict.rejection? else none).toList := by
    intro verdict
    cases verdict with
    | rejected rejection =>
      rw [announce, report]
      cases r.logRejections <;> cases r.observer <;> rfl
    | _ => cases r.logRejections <;> rfl
  rw [Signal.dropped, filterMap_flatMap_announce hread, droppedOf]
  cases r.logRejections with
  | true => rfl
  | false => simp

/-- The frames given up among what verdicts call for. -/
theorem givenUp_flatMap_announce (r : Receiver) (verdicts : List Verdict) :
    Signal.givenUp (verdicts.flatMap r.announce) = verdicts.filterMap Verdict.oversized? := by
  refine filterMap_flatMap_announce (fun verdict => ?_) verdicts
  cases verdict with
  | rejected rejection => exact r.filterMap_report rfl fun _ => rfl
  | _ => rfl

/-- The first error among what verdicts call for. -/
theorem failure?_flatMap_announce (r : Receiver) (verdicts : List Verdict) :
    Signal.failure? (verdicts.flatMap r.announce) = verdicts.findSome? Verdict.oversized? := by
  rw [Signal.failure?_eq_head?_givenUp, givenUp_flatMap_announce, List.head?_filterMap]

/-- What growth of the buffer does not show in, of a run that raises what verdicts call for. -/
theorem signals_of_lessGrowth {out : List Signal} {verdicts : List Verdict}
    (hout : Signal.lessGrowth out = verdicts.flatMap r.announce) :
    Signal.frames out = verdicts.filterMap Verdict.frame? ∧
      Signal.notices out = r.noticesOf (verdicts.filterMap Verdict.rejection?) ∧
      Signal.dropped out = r.droppedOf (verdicts.filterMap Verdict.rejection?) ∧
      Signal.failure? out = verdicts.findSome? Verdict.oversized? := by
  rw [← Signal.frames_lessGrowth, ← Signal.notices_lessGrowth, ← Signal.dropped_lessGrowth,
    ← Signal.failure?_lessGrowth, hout]
  exact ⟨frames_flatMap_announce r verdicts, notices_flatMap_announce r verdicts,
    dropped_flatMap_announce r verdicts, failure?_flatMap_announce r verdicts⟩

/-- A run raises what the verdicts call for on the items that a scanner finds in the bytes of the
item begun and the further ones. -/
theorem HasPart.lessGrowth_feed {part : Bytes} (hr : r.HasPart part) (data : Bytes) :
    Signal.lessGrowth (r.feed data).2 =
      ((scan r.limit (part ++ data)).1.map (Item.verdict r.limit)).flatMap r.announce := by
  obtain ⟨base, phase, payload, room, hrest, hpart, rfl⟩ := hr
  obtain ⟨phase', payload', room', -, hfeed⟩ := thenFeed_inside_eq_scan hrest hpart data
  have hraised := congrArg (fun after => Signal.lessGrowth after.2) hfeed
  simp only [thenFeed, readItems, inside, Signal.lessGrowth_append, lessGrowth_growth,
    List.nil_append, List.append_nil, lessGrowth_gather_settle] at hraised
  exact hraised

/-- A run counts the further bytes, and the items by their verdicts. -/
theorem HasPart.tally_feed {part : Bytes} (hr : r.HasPart part) (data : Bytes) :
    (r.feed data).1.tally = r.tally.after data.length
      ((scan r.limit (part ++ data)).1.map (Item.verdict r.limit)) := by
  obtain ⟨base, phase, payload, room, hrest, hpart, rfl⟩ := hr
  obtain ⟨phase', payload', room', -, hfeed⟩ := thenFeed_inside_eq_scan hrest hpart data
  have hlength := congrArg List.length (scan_sound base.limit (part ++ data)).2
  have htally := congrArg (fun after => after.1.tally) hfeed
  simp only [List.length_append] at hlength
  simp only [thenFeed, readItems, inside, gather_settle, Tally.after, Nat.add_assoc,
    ← hlength] at htally
  simp only [inside, Tally.after, htally, Nat.add_assoc]

/-- A run leaves the settings of a receiver as they are. -/
theorem HasPart.settings_feed {part : Bytes} (hr : r.HasPart part) (data : Bytes) :
    (r.feed data).1.limit = r.limit ∧ (r.feed data).1.logRejections = r.logRejections ∧
      (r.feed data).1.observer = r.observer := by
  obtain ⟨base, phase, payload, room, hrest, hpart, rfl⟩ := hr
  obtain ⟨phase', payload', room', -, hfeed⟩ := thenFeed_inside_eq_scan hrest hpart data
  have hafter := congrArg Prod.fst hfeed
  simp only [thenFeed, readItems, gather_settle] at hafter
  rw [hafter]
  exact ⟨rfl, rfl, rfl⟩

end Receiver

end FlightLink
