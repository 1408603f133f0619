import FlightLink.Proofs.Steps
import Mathlib.Data.List.Induction

/-!
# Runs of a receiver

From rest, a receiver that is fed a stream settles the items that a scanner finds in it, one after
the other, and is left partway into what the scanner leaves over. What a run raises can therefore be
read off the verdicts on the items.
-/

namespace FlightLink

/-- Whole items and part of a further one are read as just these. -/
theorem scan_eq_of_partway {limit room : Nat} {items : List Item} {part payload : Bytes}
    {phase : Phase} (hfits : ∀ item ∈ items, item.Fits limit)
    (hpart : Partway limit part phase payload room) :
    scan limit (items.flatMap Item.toBytes ++ part) = (items, part) := by
  rw [scan_flatMap_toBytes hfits, scan_of_none hpart.scanItem_eq_none, List.append_nil]

namespace Receiver

variable {r : Receiver}

/-- What a receiver is after whole items: only its totals and its capacity have changed. -/
theorem gather_settle (r : Receiver) (items : List Item) :
    (gather Receiver.settle r items).1 =
      { r with
        capacity := items.foldl (fun capacity item => max capacity item.room) r.capacity
        tally := r.tally.after (items.flatMap Item.toBytes).length
          (items.map (Item.verdict r.limit)) } := by
  induction items generalizing r with
  | nil => rfl
  | cons item items ih =>
    rw [gather_cons, ih]
    simp [Receiver.settle, close, Tally.after_after]

/-- Settling items leaves a receiver at rest. -/
theorem AtRest.gather_settle (hrest : r.AtRest) (items : List Item) :
    (gather Receiver.settle r items).1.AtRest := by
  rw [Receiver.gather_settle]
  exact ⟨hrest.phase, hrest.payload⟩

/-- What a receiver at rest has become and has raised after whole items and `count` bytes of a
further one. -/
def readItems (r : Receiver) (items : List Item) (phase : Phase) (payload : Bytes)
    (room count : Nat) : Receiver × List Signal :=
  let settled := gather Receiver.settle r items
  let inside := settled.1.inside phase payload room count
  (inside.1, settled.2 ++ inside.2)

/-- Without a further item begun, all that was done is settling the items. -/
theorem readItems_idle (hrest : r.AtRest) (items : List Item) :
    r.readItems items .idle [] 0 0 = gather Receiver.settle r items := by
  rw [readItems, inside_idle (hrest.gather_settle items)]
  exact Prod.ext rfl (List.append_nil _)

/-- Further bytes, with the signals raised before them. -/
def thenFeed (before : Receiver × List Signal) (data : Bytes) : Receiver × List Signal :=
  ((before.1.feed data).1, before.2 ++ (before.1.feed data).2)

/-- No further bytes change nothing. -/
@[simp] theorem thenFeed_nil (before : Receiver × List Signal) : thenFeed before [] = before := by
  simp [thenFeed]

/-- Of further bytes the last is taken by itself. -/
theorem thenFeed_append_singleton (before : Receiver × List Signal) (data : Bytes)
    (byte : UInt8) : thenFeed before (data ++ [byte]) = thenStep (thenFeed before data) byte := by
  simp [thenFeed, thenStep, feed_append, feed_cons]

/-- One more byte leads on in the item begun, or that item is one more to settle. -/
theorem thenStep_readItems (hrest : r.AtRest) (items : List Item) {part payload : Bytes}
    {phase : Phase} {room : Nat} (hpart : Partway r.limit part phase payload room) (byte : UInt8) :
    (∃ phase' payload' room', Partway r.limit (part ++ [byte]) phase' payload' room' ∧
      thenStep (r.readItems items phase payload room part.length) byte =
        r.readItems items phase' payload' room' (part ++ [byte]).length) ∨
    ∃ item : Item, item.Fits r.limit ∧ item.toBytes = part ++ [byte] ∧
      thenStep (r.readItems items phase payload room part.length) byte =
        r.readItems (items ++ [item]) .idle [] 0 0 := by
  let settled := gather Receiver.settle r items
  have hsettled : settled.1.AtRest := hrest.gather_settle items
  have hlimit : settled.1.limit = r.limit := by simp [settled, Receiver.gather_settle]
  -- The signals of the settled items stand before those of the item in progress.
  have hthen : thenStep (r.readItems items phase payload room part.length) byte =
      ((thenStep (settled.1.inside phase payload room part.length) byte).1,
        settled.2 ++ (thenStep (settled.1.inside phase payload room part.length) byte).2) :=
    Prod.ext rfl (List.append_assoc ..)
  rcases leadsTo_of_step hsettled (hlimit ▸ hpart) byte with
    ⟨phase', payload', room', hpart', hafter⟩ | ⟨item, hfits, hbytes, hafter⟩
  · refine Or.inl ⟨phase', payload', room', hlimit ▸ hpart', ?_⟩
    rw [hthen, hafter]
    rfl
  · refine Or.inr ⟨item, hlimit ▸ hfits, hbytes, ?_⟩
    rw [hthen, hafter, readItems_idle hrest, gather_append, gather_cons, gather_nil,
      List.append_nil]

/-- A run that starts anywhere in an item takes the bytes of that item and the further ones apart
into whole items, which the receiver has settled since it was at rest, and part of a further one. -/
theorem exists_thenFeed_eq_readItems (hrest : r.AtRest) {part payload : Bytes} {phase : Phase}
    {room : Nat} (hpart : Partway r.limit part phase payload room) (data : Bytes) :
    ∃ items part' phase' payload' room', (∀ item ∈ items, item.Fits r.limit) ∧
      part ++ data = items.flatMap Item.toBytes ++ part' ∧
      Partway r.limit part' phase' payload' room' ∧
      thenFeed (r.inside phase payload room part.length) data =
        r.readItems items phase' payload' room' part'.length := by
  induction data using List.reverseRecOn with
  | nil =>
    refine ⟨[], part, phase, payload, room, by simp, by simp, hpart, ?_⟩
    rw [thenFeed_nil]
    rfl
  | append_singleton data byte ih =>
    obtain ⟨items, part', phase', payload', room', hfits, hdata, hpart', hfeed⟩ := ih
    rw [thenFeed_append_singleton, hfeed]
    rcases thenStep_readItems hrest items hpart' byte with
      ⟨phase'', payload'', room'', hpart'', hstep⟩ | ⟨item, hitem, hbytes, hstep⟩
    · refine ⟨items, part' ++ [byte], phase'', payload'', room'', hfits, ?_, hpart'', hstep⟩
      rw [← List.append_assoc, hdata, List.append_assoc]
    · refine ⟨items ++ [item], [], .idle, [], 0, ?_, ?_, .idle, hstep⟩
      · intro i hi
        rcases List.mem_append.mp hi with hi | hi
        · exact hfits i hi
        · rwa [List.mem_singleton.mp hi]
      · rw [← List.append_assoc, hdata, List.append_assoc, List.flatMap_append,
          List.flatMap_singleton, hbytes, List.append_nil]

end Receiver

/-- A scanner finds items that are what they are called, and drops no byte of the stream. -/
theorem scan_sound (limit : Nat) (data : Bytes) :
    (∀ item ∈ (scan limit data).1, item.Fits limit) ∧
      data = (scan limit data).1.flatMap Item.toBytes ++ (scan limit data).2 := by
  have hrest : (Receiver.ofSettings { maxPayload := limit }).AtRest := ⟨rfl, rfl⟩
  obtain ⟨items, part, _, _, _, hfits, hdata, hpart, _⟩ :=
    Receiver.exists_thenFeed_eq_readItems hrest .idle data
  rw [List.nil_append] at hdata
  have hscan : scan limit (items.flatMap Item.toBytes ++ part) = (items, part) :=
    scan_eq_of_partway hfits hpart
  rw [← hdata] at hscan
  rw [hscan]
  exact ⟨hfits, hdata⟩

/-- A stream is read on from what was left over of its front. -/
theorem scan_append (limit : Nat) (front back : Bytes) :
    scan limit (front ++ back) =
      ((scan limit front).1 ++ (scan limit ((scan limit front).2 ++ back)).1,
        (scan limit ((scan limit front).2 ++ back)).2) := by
  obtain ⟨hfits, hfront⟩ := scan_sound limit front
  conv_lhs => rw [hfront, List.append_assoc]
  exact scan_flatMap_toBytes hfits _

namespace Receiver

variable {r : Receiver} {part : Bytes}

/-- A run settles the items that a scanner finds in the bytes of the item begun and the further
ones, and leaves the receiver partway into what the scanner leaves over. -/
theorem thenFeed_inside_eq_scan (hrest : r.AtRest) {payload : Bytes} {phase : Phase} {room : Nat}
    (hpart : Partway r.limit part phase payload room) (data : Bytes) :
    ∃ phase' payload' room',
      Partway r.limit (scan r.limit (part ++ data)).2 phase' payload' room' ∧
      thenFeed (r.inside phase payload room part.length) data =
        r.readItems (scan r.limit (part ++ data)).1 phase' payload' room'
          (scan r.limit (part ++ data)).2.length := by
  obtain ⟨items, part', phase', payload', room', hfits, hdata, hpart', hfeed⟩ :=
    exists_thenFeed_eq_readItems hrest hpart data
  rw [hdata, scan_eq_of_partway hfits hpart']
  exact ⟨phase', payload', room', hpart', hfeed⟩

/-- Fed whole items, a receiver at rest settles them and is at rest again. -/
theorem feed_flatMap_toBytes (hrest : r.AtRest) {items : List Item}
    (hfits : ∀ item ∈ items, item.Fits r.limit) :
    r.feed (items.flatMap Item.toBytes) = gather Receiver.settle r items := by
  have hscan := scan_eq_of_partway hfits .idle
  obtain ⟨phase, payload, room, hpart, hfeed⟩ :=
    thenFeed_inside_eq_scan hrest .idle (items.flatMap Item.toBytes)
  rw [List.nil_append, ← List.append_nil (items.flatMap _), hscan] at hpart hfeed
  rw [List.length_nil, inside_idle hrest, List.append_nil] at hfeed
  rw [← readItems_idle hrest]
  obtain rfl : phase = .idle := hpart.phase_eq_idle_iff.mpr rfl
  cases hpart
  exact hfeed

/-- Since it was last at rest, the receiver has received `part` of an item. -/
def HasPart (r : Receiver) (part : Bytes) : Prop :=
  ∃ (base : Receiver) (phase : Phase) (payload : Bytes) (room : Nat),
    base.AtRest ∧ Partway base.limit part phase payload room ∧
      r = (base.inside phase payload room part.length).1

/-- A receiver at rest has received nothing of an item. -/
theorem AtRest.hasPart (hrest : r.AtRest) : r.HasPart [] :=
  ⟨r, .idle, [], 0, hrest, .idle, by rw [List.length_nil, inside_idle hrest]⟩

/-- The phase and the buffer of a receiver are those that the bytes of the item call for. -/
theorem HasPart.partway (hr : r.HasPart part) :
    ∃ room, Partway r.limit part r.phase r.payload.toList room ∧ room ≤ r.capacity := by
  obtain ⟨base, phase, payload, room, -, hpart, rfl⟩ := hr
  exact ⟨room, hpart, Nat.le_max_right ..⟩

/-- A receiver that has received something of an item is not between frames. -/
theorem HasPart.isIdle_iff (hr : r.HasPart part) : r.isIdle = true ↔ part = [] := by
  obtain ⟨room, hpart, -⟩ := hr.partway
  rw [isIdle, beq_iff_eq]
  exact hpart.phase_eq_idle_iff

/-- Between frames, a receiver is at rest. -/
theorem HasPart.atRest (hr : r.HasPart part) (hidle : r.isIdle = true) : r.AtRest := by
  obtain ⟨room, hpart, -⟩ := hr.partway
  have hphase : r.phase = .idle := by simpa [isIdle] using hidle
  rw [hphase] at hpart
  exact ⟨hphase, by simpa using hpart.eq_nil_of_idle.2⟩

/-- Whom rejections are reported to has no part in where a receiver stands. -/
theorem HasPart.withObserver (hr : r.HasPart part) (observer : Option Observer) :
    ({ r with observer } : Receiver).HasPart part := by
  obtain ⟨base, phase, payload, room, hrest, hpart, rfl⟩ := hr
  exact ⟨{ base with observer }, phase, payload, room, ⟨hrest.phase, hrest.payload⟩, hpart, rfl⟩

/-- A run leaves a receiver with what the scanner leaves over. -/
theorem HasPart.feed (hr : r.HasPart part) (data : Bytes) :
    (r.feed data).1.HasPart (scan r.limit (part ++ data)).2 := by
  obtain ⟨base, phase, payload, room, hrest, hpart, rfl⟩ := hr
  obtain ⟨phase', payload', room', hpart', hfeed⟩ := thenFeed_inside_eq_scan hrest hpart data
  let items := (scan base.limit (part ++ data)).1
  have hlimit : (gather Receiver.settle base items).1.limit = base.limit := by
    rw [gather_settle]
  have hafter := congrArg Prod.fst hfeed
  exact ⟨(gather Receiver.settle base items).1, phase', payload', room',
    hrest.gather_settle items, hlimit ▸ hpart', hafter⟩

end Receiver

end FlightLink
