import FlightLink.Proofs.Limits
import FlightLink.Proofs.Provenance
import FlightLink.Proofs.Representation

/-!
# The buffer as a high-water mark

The capacity of the buffer is the largest size for which room was ever made. Room is made when the
head of a frame is complete, whatever becomes of the frame, so the sizes can be read off the streams
received: each item in them, and the bytes left over behind the last, begins with the head of a
frame or with none. The log tells of the sizes that were higher than all before them; a payload byte
never finds the buffer full.
-/

namespace FlightLink

/-! ### Numbers that are higher than all before -/

/-- The numbers that are higher than `top` and than all before them. -/
def newHighs (top : Nat) (ns : List Nat) : List Nat :=
  (ns.zipIdx.filter fun p => (top :: ns.take p.2).all (· < p.1)).map Prod.fst

/-- Without numbers there is no new high. -/
@[simp] theorem newHighs_nil (top : Nat) : newHighs top [] = [] := rfl

/-- A number that is a new high takes the place of the highest so far. -/
theorem newHighs_cons (top n : Nat) (ns : List Nat) :
    newHighs top (n :: ns) = if top < n then n :: newHighs n ns else newHighs top ns := by
  let behind := ((ns.zipIdx 1).filter fun p => (top :: (n :: ns).take p.2).all (· < p.1)).map
    Prod.fst
  -- Of the numbers behind the first, those count that are higher than both.
  have hbehind : ∀ high : Nat, (∀ k : Nat, high < k ↔ top < k ∧ n < k) →
      behind = newHighs high ns := by
    intro high hhigh
    simp only [behind, newHighs, List.zipIdx_succ, List.filter_map, List.map_map]
    congr 1
    apply List.filter_congr
    intro p _
    simp only [Function.comp_apply, List.take_succ_cons, List.all_cons, hhigh, Bool.decide_and,
      Bool.and_assoc]
  have hfirst : newHighs top (n :: ns) = if top < n then n :: behind else behind := by
    rw [newHighs, List.zipIdx_cons, List.filter_cons]
    by_cases htop : top < n <;> simp [htop, behind]
  rw [hfirst]
  split
  · rename_i htop
    rw [hbehind n fun k => by omega]
  · rename_i htop
    rw [hbehind top fun k => by omega]

/-- Behind some numbers, a new high is one above the highest of them. -/
theorem newHighs_append (top : Nat) (front back : List Nat) :
    newHighs top (front ++ back) = newHighs top front ++ newHighs (front.foldl max top) back := by
  induction front generalizing top with
  | nil => rfl
  | cons n front ih =>
    rw [List.cons_append, newHighs_cons, newHighs_cons, List.foldl_cons]
    split
    · rename_i htop
      rw [Nat.max_eq_right (Nat.le_of_lt htop), ih, List.cons_append]
    · rename_i htop
      rw [Nat.max_eq_left (Nat.not_lt.mp htop), ih]

/-- New highs rise. -/
theorem isChain_newHighs (top : Nat) (ns : List Nat) :
    List.IsChain (· < ·) (top :: newHighs top ns) := by
  induction ns generalizing top with
  | nil => exact List.IsChain.singleton top
  | cons n ns ih =>
    rw [newHighs_cons]
    split
    · rename_i htop
      exact List.isChain_cons_cons.mpr ⟨htop, ih n⟩
    · exact ih top

/-- The highest of some numbers is no less than the one to start with. -/
theorem le_foldl_max (top : Nat) (ns : List Nat) : top ≤ ns.foldl max top := by
  induction ns generalizing top with
  | nil => exact Nat.le_refl top
  | cons n ns ih => exact Nat.le_trans (Nat.le_max_left top n) (ih (max top n))

/-- The highest of some numbers is bounded by what bounds them all. -/
theorem foldl_max_le {top bound : Nat} {ns : List Nat} (htop : top ≤ bound)
    (hns : ∀ n ∈ ns, n ≤ bound) : ns.foldl max top ≤ bound := by
  induction ns generalizing top with
  | nil => exact htop
  | cons n ns ih =>
    obtain ⟨hn, hns⟩ := List.forall_mem_cons.mp hns
    exact ih (Nat.max_le.mpr ⟨htop, hn⟩) hns

/-! ### Room that is made -/

namespace Receiver

variable {r : Receiver}

/-- A receiver has come to make room for these sizes in turn: its buffer is as large as the largest
needs, and the log tells of each that was larger than all before. -/
structure Rises (r : Receiver) (sizes : List Nat) (after : Receiver × List Signal) : Prop where
  /-- The buffer holds the largest payload. -/
  capacity : after.1.capacity = sizes.foldl max r.capacity
  /-- The buffer was told to grow by each new high, and by nothing else. -/
  grown : after.2.filter Signal.isGrowth =
    (newHighs r.capacity sizes).map fun size => .event (.bufferGrown size)

/-- What raises nothing about the buffer and leaves its capacity as it is makes no room. -/
theorem rises_nil {after : Receiver × List Signal} (hcapacity : after.1.capacity = r.capacity)
    (hgrown : after.2.filter Signal.isGrowth = []) : r.Rises [] after :=
  ⟨hcapacity, hgrown⟩

/-- Room made for some sizes and then for others is room made for all of them in turn. -/
theorem Rises.append {middle : Receiver} {out : List Signal} {after : Receiver × List Signal}
    {sizes sizes' : List Nat} (hfront : r.Rises sizes (middle, out))
    (hback : middle.Rises sizes' after) : r.Rises (sizes ++ sizes') (after.1, out ++ after.2) := by
  have hmiddle : middle.capacity = sizes.foldl max r.capacity := hfront.capacity
  constructor
  · rw [hback.capacity, hmiddle, List.foldl_append]
  · rw [List.filter_append, hfront.grown, hback.grown, hmiddle, newHighs_append, List.map_append]

/-- To report a rejection says nothing about the buffer. -/
theorem filter_isGrowth_report (r : Receiver) (rejection : Rejection) :
    (r.report rejection).filter Signal.isGrowth = [] :=
  List.filter_eq_nil_iff.mpr (r.forall_mem_report Bool.false_ne_true fun _ => Bool.false_ne_true)

/-- A deed makes room for the size that is declared, if that is within the limit. -/
theorem rises_carryOut (r : Receiver) (deed : Deed) :
    r.Rises (deed.declared?.toList.filter (· ≤ r.limit)) (r.carryOut deed) := by
  cases deed with
  | enter | store => exact rises_nil rfl rfl
  | loseSync rejection => exact rises_nil rfl (r.filter_isGrowth_report rejection)
  | makeRoom size next =>
    rw [Deed.declared?, Option.toList_some, carryOut]
    by_cases hsize : size ≤ r.limit
    · rw [List.filter_singleton, decide_eq_true hsize, makeRoom_of_le hsize]
      refine ⟨rfl, ?_⟩
      simp only [growth, cond_true, newHighs_cons, newHighs_nil]
      split <;> rfl
    · rw [List.filter_singleton, decide_eq_false hsize, makeRoom, if_pos (Nat.not_le.mp hsize)]
      exact rises_nil rfl rfl
  | finish version direction code expected received =>
    rw [carryOut, finish]
    split
    · exact rises_nil rfl rfl
    · exact rises_nil rfl (r.filter_isGrowth_report _)

/-- A byte makes room for the size that it declares, if that is within the limit. -/
theorem rises_step (r : Receiver) (byte : UInt8) :
    r.Rises ((r.phase.declared? byte).toList.filter (· ≤ r.limit)) (r.step byte) := by
  obtain ⟨deed, hdeclared, hdeed⟩ := exists_deed r.phase r.payload byte
  obtain ⟨hcapacity, hgrown⟩ := r.counted.rises_carryOut deed
  rw [hdeed r rfl rfl, ← hdeclared]
  exact ⟨hcapacity, hgrown⟩

/-- The sizes that the bytes of a chunk declare. -/
theorem declared_cons (r : Receiver) (byte : UInt8) (data : Bytes) :
    (r.arrivals (byte :: data)).filterMap Arrival.declared? =
      (r.phase.declared? byte).toList ++
        ((r.step byte).1.arrivals data).filterMap Arrival.declared? := by
  have hdeclared : (Arrival.mk r byte).declared? = r.phase.declared? byte := rfl
  rw [arrivals, List.filterMap_cons, hdeclared]
  cases r.phase.declared? byte <;> rfl

/-- A chunk makes room for the sizes that its bytes declare, as far as they are within the limit. -/
theorem rises_feed (r : Receiver) (data : Bytes) :
    r.Rises (((r.arrivals data).filterMap Arrival.declared?).filter (· ≤ r.limit))
      (r.feed data) := by
  induction data generalizing r with
  | nil => exact rises_nil rfl rfl
  | cons byte data ih =>
    have hback := ih (r.step byte).1
    rw [(r.settings_step byte).1] at hback
    rw [declared_cons, List.filter_append, feed_cons]
    exact (r.rises_step byte).append hback

end Receiver

namespace Session

variable {s : Session}

/-- Operations make room for the sizes that their bytes declare, as far as they are within the
limit. -/
theorem rises_performAll (s : Session) (ops : List Operation) :
    s.receiver.Rises
      ((((s.calls ops).flatMap Call.arrivals).filterMap Arrival.declared?).filter
        (· ≤ s.receiver.limit))
      ((s.performAll ops).1.receiver, (s.performAll ops).2.flatMap fun answer => answer.2) := by
  induction ops generalizing s with
  | nil => exact Receiver.rises_nil rfl rfl
  | cons op ops ih =>
    have hfront : s.receiver.Rises
        (((Call.mk s op).arrivals.filterMap Arrival.declared?).filter (· ≤ s.receiver.limit))
        ((s.perform op).1.receiver, (s.perform op).2.2) := by
      cases op with
      | decode data | collect data => exact s.receiver.rises_feed data
      | reset | watch | unwatch => exact Receiver.rises_nil rfl rfl
    have hback := ih (s.perform op).1
    rw [(s.limit_and_log_perform op).1] at hback
    rw [performAll_cons, calls, List.flatMap_cons, List.flatMap_cons, List.filterMap_append,
      List.filter_append]
    exact hfront.append hback

end Session

/-! ### Heads of frames in a stream -/

/-- The size that bytes declare, if the head of a frame stands in front of them. -/
def headSize? : Bytes → Option Nat
  | first :: marker :: direction :: more =>
    if first = preamble ∧ (Direction.ofByte? direction).isSome then
      match Version.ofMarker? marker, more with
      | some .v1, size :: _ => some size.toNat
      | some .v2, _ :: _ :: _ :: low :: high :: _ => some (wordOf low high).toNat
      | _, _ => none
    else none
  | _ => none

/-- The sizes that the heads of frames in a stream declare, in order, that of the frame in progress
at the end included. -/
def headSizes (limit : Nat) (data : Bytes) : List Nat :=
  let (items, rest) := scan limit data
  (items.map Item.toBytes ++ [rest]).filterMap headSize?

/-- A head that is complete stays so; a byte that declares a size completes one. -/
theorem Partway.headSize?_append_singleton {limit room : Nat} {part payload : Bytes}
    {phase : Phase} (hpart : Partway limit part phase payload room) (byte : UInt8) :
    (headSize? (part ++ [byte])).toList =
      (headSize? part).toList ++ (phase.declared? byte).toList := by
  cases hpart with
  | idle | preamble => rfl
  | direction version => cases version <;> simp [headSize?, Phase.declared?]
  | shortSize direction => simp [headSize?, opening, Phase.declared?]
  | shortCode | shortPayload | shortChecksum => simp [headSize?, opening, Phase.declared?]
  | longHeader direction header filled hfilled hblank =>
    have hfew : filled < 5 := hfilled
    have hcases : filled = 0 ∨ filled = 1 ∨ filled = 2 ∨ filled = 3 ∨ filled = 4 := by omega
    rcases hcases with rfl | rfl | rfl | rfl | rfl <;>
      simp [headSize?, opening, LongHeader.toBytes, Phase.declared?, LongHeader.byteCount,
        LongHeader.set, LongHeader.size]
  | longPayload | longChecksum =>
    simp [headSize?, opening, LongHeader.toBytes, Phase.declared?]

/-- The heads in a stream are those of its items, and that of what is left over behind them. -/
theorem headSizes_eq (limit : Nat) (data : Bytes) :
    headSizes limit data = ((scan limit data).1.map Item.toBytes).filterMap headSize? ++
      (headSize? (scan limit data).2).toList := by
  simp only [headSizes, List.filterMap_append, List.filterMap_cons, List.filterMap_nil]
  cases headSize? (scan limit data).2 <;> rfl

/-- The heads in a stream are those in its front, and those from what was left over of it on. -/
theorem headSizes_append (limit : Nat) (front back : Bytes) :
    headSizes limit (front ++ back) =
      ((scan limit front).1.map Item.toBytes).filterMap headSize? ++
        headSizes limit ((scan limit front).2 ++ back) := by
  simp only [headSizes_eq, scan_append limit front back, List.map_append, List.append_assoc,
    List.filterMap_append]

namespace Receiver.HasPart

variable {r : Receiver} {part : Bytes}

/-- Part of an item is left over by a scanner. -/
theorem scan_part (hr : r.HasPart part) : scan r.limit part = ([], part) := by
  obtain ⟨room, hpart, -⟩ := hr.partway
  exact scan_of_none hpart.scanItem_eq_none

/-- One byte more ends the item begun, or it is left over with it. -/
theorem scan_append_singleton (hr : r.HasPart part) (byte : UInt8) :
    scan r.limit (part ++ [byte]) = ([], part ++ [byte]) ∨
      ∃ item : Item, item.toBytes = part ++ [byte] ∧
        scan r.limit (part ++ [byte]) = ([item], []) := by
  obtain ⟨base, phase, payload, room, hrest, hpart, rfl⟩ := hr
  rcases leadsTo_of_step hrest hpart byte with
    ⟨phase', payload', room', hpart', -⟩ | ⟨item, hfits, hbytes, -⟩
  · exact Or.inl (scan_of_none hpart'.scanItem_eq_none)
  · have hitems : ∀ i ∈ [item], i.Fits base.limit := List.forall_mem_singleton.mpr hfits
    have hscan := scan_eq_of_partway hitems .idle
    rw [List.flatMap_singleton, List.append_nil, hbytes] at hscan
    exact Or.inr ⟨item, hbytes, hscan⟩

/-- The heads in the item begun and a chunk are one that was complete before, if it was, and those
that bytes of the chunk complete. -/
theorem headSizes_append (hr : r.HasPart part) (data : Bytes) :
    headSizes r.limit (part ++ data) =
      (headSize? part).toList ++ (r.arrivals data).filterMap Arrival.declared? := by
  induction data generalizing r part with
  | nil =>
    rw [List.append_nil, headSizes_eq, hr.scan_part]
    exact (List.append_nil _).symm
  | cons byte data ih =>
    obtain ⟨room, hpart, -⟩ := hr.partway
    have hstep : (r.step byte).1.HasPart (scan r.limit (part ++ [byte])).2 := by
      simpa [feed_cons] using hr.feed [byte]
    have hbyte : (headSize? (part ++ [byte])).toList =
        (headSize? part).toList ++ (r.phase.declared? byte).toList :=
      hpart.headSize?_append_singleton byte
    have hback := ih hstep
    rw [(r.settings_step byte).1] at hback
    rw [List.append_cons, FlightLink.headSizes_append, hback, declared_cons,
      ← List.append_assoc (headSize? part).toList, ← hbyte, ← List.append_assoc]
    congr 1
    rcases hr.scan_append_singleton byte with hscan | ⟨item, hitem, hscan⟩
    · rw [hscan]
      rfl
    · rw [hscan, ← hitem]
      simp only [List.map_cons, List.map_nil, List.filterMap_cons, List.filterMap_nil]
      cases headSize? item.toBytes <;> rfl

/-- A payload byte finds room in the buffer. -/
theorem size_lt_capacity (hr : r.HasPart part) {byte : UInt8}
    (hstored : r.payload.size < (r.step byte).1.payload.size) :
    r.payload.size < r.capacity ∧ (r.step byte).1.capacity = r.capacity := by
  have hcapacity : (r.step byte).1.capacity = r.capacity := by
    rcases r.capacity_step_or_payload_step byte with hcapacity | hempty
    · exact hcapacity
    · rw [hempty] at hstored
      exact absurd hstored (Nat.not_lt_zero _)
  have hstep : (r.step byte).1.HasPart (scan r.limit (part ++ [byte])).2 := by
    simpa [feed_cons] using hr.feed [byte]
  obtain ⟨room, hpart, hroom⟩ := hstep.partway
  have hfits : (r.step byte).1.payload.size ≤ (r.step byte).1.capacity :=
    (hpart.consistent hroom).2
  rw [hcapacity] at hfits
  exact ⟨Nat.lt_of_lt_of_le hstored hfits, hcapacity⟩

/-- Each byte of a chunk comes to a receiver that stands somewhere in an item. -/
theorem of_mem_arrivals (hr : r.HasPart part) {data : Bytes} {a : Arrival}
    (ha : a ∈ r.arrivals data) : ∃ part', a.receiver.HasPart part' := by
  induction data generalizing r part with
  | nil => cases ha
  | cons byte data ih =>
    have hstep : (r.step byte).1.HasPart (scan r.limit (part ++ [byte])).2 := by
      simpa [feed_cons] using hr.feed [byte]
    rcases List.mem_cons.mp ha with rfl | ha
    · exact ⟨part, hr⟩
    · exact ih hstep ha

end Receiver.HasPart

/-- A head that declares too much leaves the capacity as it is. -/
theorem Arrival.capacity_step_of_isExcess (a : Arrival) (hexcess : a.isExcess = true) :
    (a.receiver.step a.byte).1.capacity = a.receiver.capacity := by
  have hnone : (a.receiver.phase.declared? a.byte).toList.filter (· ≤ a.receiver.limit) = [] := by
    rw [isExcess] at hexcess
    cases hsize : a.receiver.phase.declared? a.byte with
    | none => rfl
    | some size =>
      rw [hsize, Option.any_some, decide_eq_true_eq] at hexcess
      rw [Option.toList_some, List.filter_singleton, decide_eq_false (Nat.not_le.mpr hexcess)]
      rfl
  have hstep := (a.receiver.rises_step a.byte).capacity
  rw [hnone] at hstep
  exact hstep

namespace Session

variable {s : Session} {part : Bytes}

/-- Each byte of operations comes to a receiver that stands somewhere in an item. -/
theorem hasPart_of_mem_arrivals (hs : s.receiver.HasPart part) {ops : List Operation} {a : Arrival}
    (ha : a ∈ (s.calls ops).flatMap Call.arrivals) : ∃ part', a.receiver.HasPart part' := by
  induction ops generalizing s part with
  | nil => cases ha
  | cons op ops ih =>
    rw [calls, List.flatMap_cons] at ha
    rcases List.mem_append.mp ha with ha | ha
    · exact hs.of_mem_arrivals ha
    · exact ih (hs.perform op) ha

/-- The heads in the streams received are one that was complete before, if it was, and those that
bytes of the operations complete. -/
theorem headSizes_streams (hs : s.receiver.HasPart part) (ops : List Operation) :
    ((streams ops).modifyHead (part ++ ·)).flatMap (headSizes s.receiver.limit) =
      (headSize? part).toList ++
        ((s.calls ops).flatMap Call.arrivals).filterMap Arrival.declared? := by
  induction ops generalizing s part with
  | nil =>
    rw [streams, List.modifyHead_cons, List.append_nil, List.flatMap_singleton, headSizes_eq,
      hs.scan_part]
    exact (List.append_nil _).symm
  | cons op ops ih =>
    obtain ⟨first, others, hstreams⟩ := exists_streams_eq_cons ops
    have hrest := ih (hs.perform op)
    rw [(s.limit_and_log_perform op).1, hstreams, List.modifyHead_cons, List.flatMap_cons] at hrest
    -- What a chunk leaves over is the item begun for the operations behind it.
    have hchunk : ∀ data, op.scan s.receiver.limit part = scan s.receiver.limit (part ++ data) →
        headSizes s.receiver.limit (part ++ (data ++ first)) ++
            others.flatMap (headSizes s.receiver.limit) =
          (headSize? part).toList ++ ((s.receiver.arrivals data).filterMap Arrival.declared? ++
            (((s.perform op).1.calls ops).flatMap Call.arrivals).filterMap Arrival.declared?) := by
      intro data hscan
      have hdata := hs.headSizes_append data
      rw [headSizes_eq] at hdata
      rw [hscan] at hrest
      rw [← List.append_assoc part, headSizes_append, List.append_assoc, hrest, ← List.append_assoc,
        hdata, List.append_assoc]
    rw [calls, List.flatMap_cons, List.filterMap_append]
    cases op with
    | decode data | collect data =>
      rw [streams, hstreams, List.modifyHead_cons, List.modifyHead_cons, List.flatMap_cons]
      exact hchunk data rfl
    | reset =>
      rw [streams, List.modifyHead_cons, List.append_nil, List.flatMap_cons, hstreams,
        List.flatMap_cons, headSizes_eq, hs.scan_part]
      exact congrArg ((headSize? part).toList ++ ·) hrest
    | watch | unwatch =>
      rw [streams, hstreams, List.modifyHead_cons, List.flatMap_cons]
      exact hrest

/-- At the start no head is complete, so all heads in the streams are completed by bytes of the
operations. -/
theorem headSizes_streams_ofSettings (settings : ReceiverSettings) (ops : List Operation) :
    (streams ops).flatMap (headSizes settings.maxPayload) =
      (((Session.ofSettings settings).calls ops).flatMap Call.arrivals).filterMap
        Arrival.declared? := by
  have hheads := headSizes_streams
    (Receiver.AtRest.hasPart ⟨rfl, rfl⟩ : (Session.ofSettings settings).receiver.HasPart []) ops
  obtain ⟨first, others, hstreams⟩ := exists_streams_eq_cons ops
  rw [hstreams] at hheads
  rw [hstreams]
  exact hheads

/-- Operations may raise the capacity, and nothing lowers it. -/
theorem capacity_le_performAll (s : Session) (ops : List Operation) :
    s.receiver.capacity ≤ (s.performAll ops).1.receiver.capacity := by
  rw [(s.rises_performAll ops).capacity]
  exact le_foldl_max _ _

end Session

/-- Over any operations on a new receiver, the capacity of the buffer is the largest of its first
capacity and the sizes within the limit that complete heads of frames declare in the streams
received, be the frame completed, dropped, cut off by a reset or still in progress. So it never
falls and never exceeds the limit, and a head that declares too much leaves it as it is. The log
tells of growth to each size that is higher than the first capacity and all sizes before, and of no
other. A payload byte never finds the buffer full. -/
theorem capacity_is_high_water (settings : ReceiverSettings) (ops : List Operation) :
    let start := Session.ofSettings settings
    let run := start.performAll ops
    let capacity := run.1.receiver.capacity
    let initial := min settings.initialCapacity settings.maxPayload
    let declared := (streams ops).flatMap (headSizes settings.maxPayload)
    let admitted := declared.filter (· ≤ settings.maxPayload)
    let raised := run.2.flatMap fun answer => answer.2
    (initial :: admitted).max? = some capacity ∧
      capacity ≤ settings.maxPayload ∧
      (∀ n, (start.performAll (ops.take n)).1.receiver.capacity ≤ capacity) ∧
      raised.filter Signal.isGrowth =
        (newHighs initial admitted).map (fun size => .event (.bufferGrown size)) ∧
      List.IsChain (· < ·) (initial :: newHighs initial admitted) ∧
      ∀ a ∈ (start.calls ops).flatMap Call.arrivals,
        let next := (a.receiver.step a.byte).1
        (a.isExcess = true → next.capacity = a.receiver.capacity) ∧
          (a.receiver.payload.size < next.payload.size →
            a.receiver.payload.size < a.receiver.capacity ∧
              next.capacity = a.receiver.capacity) := by
  intro start run capacity initial declared admitted raised
  have hstart : start.receiver.HasPart [] := Receiver.AtRest.hasPart ⟨rfl, rfl⟩
  have hdeclared : declared =
      ((start.calls ops).flatMap Call.arrivals).filterMap Arrival.declared? :=
    Session.headSizes_streams_ofSettings settings ops
  obtain ⟨hcapacity, hgrown⟩ := start.rises_performAll ops
  rw [← hdeclared] at hcapacity hgrown
  have hmax : capacity = admitted.foldl max initial := hcapacity
  have hwithin : ∀ size ∈ admitted, size ≤ settings.maxPayload := fun size hsize =>
    of_decide_eq_true (List.mem_filter.mp hsize).2
  refine ⟨?_, ?_, ?_, hgrown, isChain_newHighs initial admitted, ?_⟩
  · rw [List.max?_cons', ← hmax]
  · rw [hmax]
    exact foldl_max_le (Nat.min_le_right _ _) hwithin
  · intro n
    have hall := Session.performAll_append start (ops.take n) (ops.drop n)
    rw [List.take_append_drop] at hall
    simp only [capacity, run, hall]
    exact Session.capacity_le_performAll _ _
  · intro a ha next
    obtain ⟨part, hpart⟩ := Session.hasPart_of_mem_arrivals hstart ha
    exact ⟨a.capacity_step_of_isExcess, hpart.size_lt_capacity⟩

/-- The head of a frame that a reset cuts off makes the buffer grow, and so does that of the frame
in progress at the end. In between, a head that declares too much and one that declares less than
before leave it as it is, and the one payload byte finds room. -/
theorem capacity_is_high_water_cut_off :
    let settings : ReceiverSettings := { maxPayload := 3, initialCapacity := 1 }
    let ops : List Operation :=
      [.collect [0x24, 0x4D, 0x3C, 2, 7], .reset, .decode [0x24, 0x4D, 0x3E, 9],
        .decode [0x24, 0x4D, 0x21, 1, 7, 0xAA, 0], .collect [0x24, 0x58, 0x3C, 0, 1, 0, 3, 0]]
    let start := Session.ofSettings settings
    let run := start.performAll ops
    let arrivals := (start.calls ops).flatMap Call.arrivals
    let before := (start.performAll (ops.take 2)).1.receiver
    let excess : Arrival := ⟨(before.feed [0x24, 0x4D, 0x3E]).1, 9⟩
    let stored : Arrival :=
      ⟨((before.feed [0x24, 0x4D, 0x3E, 9]).1.feed [0x24, 0x4D, 0x21, 1, 7]).1, 0xAA⟩
    (streams ops).flatMap (headSizes 3) = [2, 9, 1, 3] ∧
      run.1.receiver.capacity = 3 ∧ before.capacity ≤ 3 ∧
      (run.2.flatMap fun answer => answer.2).filter Signal.isGrowth =
        [.event (.bufferGrown 2), .event (.bufferGrown 3)] ∧
      excess ∈ arrivals ∧ excess.isExcess = true ∧
      (excess.receiver.step 9).1.capacity = excess.receiver.capacity ∧
      stored ∈ arrivals ∧
      stored.receiver.payload.size < (stored.receiver.step 0xAA).1.payload.size ∧
      stored.receiver.payload.size < stored.receiver.capacity := by
  intro settings ops start run arrivals before excess stored
  have hheads : (streams ops).flatMap (headSizes 3) = [2, 9, 1, 3] := by decide +kernel
  have hexcess : excess ∈ arrivals := List.mem_of_getElem? (i := 8) rfl
  have hstored : stored ∈ arrivals := List.mem_of_getElem? (i := 14) rfl
  have htoo : excess.isExcess = true := by decide +kernel
  have hpush : stored.receiver.payload.size < (stored.receiver.step 0xAA).1.payload.size := by
    decide +kernel
  obtain ⟨hmax, -, hbefore, hgrown, -, harrivals⟩ := capacity_is_high_water settings ops
  have hsizes : (streams ops).flatMap (headSizes settings.maxPayload) = [2, 9, 1, 3] := hheads
  have hcapacity : run.1.receiver.capacity = 3 := by
    rw [hsizes] at hmax
    exact (Option.some.inj hmax).symm
  rw [hsizes] at hgrown
  refine ⟨hheads, hcapacity, hcapacity ▸ hbefore 2, hgrown, hexcess, htoo,
    (harrivals excess hexcess).1 htoo, hstored, hpush, ((harrivals stored hstored).2 hpush).1⟩

end FlightLink
