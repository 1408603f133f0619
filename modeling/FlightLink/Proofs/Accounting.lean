import FlightLink.Proofs.Reachable

/-!
# Every frame start is accounted for

A preamble that comes between frames starts one, and each start comes to one end: a frame is
completed, it is dropped, it is given up, a reset cuts it off, or it is still in progress. The
totals of a receiver keep this balance with every byte, whatever the receiver holds; and since every
end has taken some bytes, the bytes received bound what the totals can be.
-/

namespace FlightLink

/-! ### What is counted -/

/-- The size that a byte declares, if it is the last byte of the head of a frame. -/
def Phase.declared? : Phase → UInt8 → Option Nat
  | .shortSize _, byte => some byte.toNat
  | .longHeader _ header filled, byte =>
    if filled + 1 < LongHeader.byteCount then none else some (header.set byte filled).size
  | _, _ => none

/-- A byte with the receiver that it comes to. -/
structure Arrival where
  /-- The receiver before the byte. -/
  receiver : Receiver
  /-- The byte. -/
  byte : UInt8

namespace Arrival

/-- A preamble comes between frames. -/
def isStart (a : Arrival) : Bool := a.receiver.isIdle && a.byte == preamble

/-- The head of a frame is complete, and the size that it declares is above the limit. -/
def isExcess (a : Arrival) : Bool :=
  (a.receiver.phase.declared? a.byte).any fun size => a.receiver.limit < size

end Arrival

/-- The bytes of a chunk, each with the receiver that it comes to. -/
def Receiver.arrivals : Receiver → Bytes → List Arrival
  | _, [] => []
  | r, byte :: data => ⟨r, byte⟩ :: (r.step byte).1.arrivals data

/-- An operation with the session that it is performed on. -/
structure Call where
  /-- The session before the operation. -/
  session : Session
  /-- The operation. -/
  operation : Operation

namespace Call

/-- The bytes that the operation brings, each with the receiver that it comes to. -/
def arrivals (c : Call) : List Arrival := c.session.receiver.arrivals c.operation.received

/-- A frame in progress is cut off by a reset. -/
def isCut (c : Call) : Bool := c.operation == .reset && !c.session.receiver.isIdle

end Call

/-- The operations that are performed in turn, each with the session that it is performed on. -/
def Session.calls : Session → List Operation → List Call
  | _, [] => []
  | s, op :: ops => ⟨s, op⟩ :: (s.perform op).1.calls ops

/-- The frames that an answer hands out: those of a chunk none of which was given up, or those
appended. -/
def Answer.frames? : Answer → Option (List Frame)
  | .decoded (.ok frames) | .collected frames _ => some frames
  | _ => none

/-- The number of bytes of a frame on the wire. -/
def Frame.wireLength (f : Frame) : Nat :=
  match f.version with
  | .v1 => f.payload.length + 6
  | .v2 => f.payload.length + 9

/-- The number of bytes of frames on the wire. -/
def wireLengths : List Frame → Nat
  | [] => 0
  | f :: fs => f.wireLength + wireLengths fs

/-- Frames in two parts have the bytes of both on the wire. -/
theorem wireLengths_append (front back : List Frame) :
    wireLengths (front ++ back) = wireLengths front + wireLengths back := by
  induction front with
  | nil => exact (Nat.zero_add _).symm
  | cons f front ih => rw [List.cons_append, wireLengths, wireLengths, ih, Nat.add_assoc]

/-- The frames that came to an end by a byte: completed, dropped or given up. -/
def Tally.ended (t : Tally) : Nat := t.frames + t.checksumFailures + t.syncFailures + t.oversized

/-- The bytes that the frames dropped or given up have taken at least. -/
def Tally.lost (t : Tally) : Nat := 6 * t.checksumFailures + 2 * t.syncFailures + 4 * t.oversized

/-- How many bytes of the frame in progress have come, with `stored` bytes in the buffer. -/
def Phase.begun (stored : Nat) : Phase → Nat
  | .idle => 0
  | .preamble => 1
  | .direction _ => 2
  | .shortSize _ => 3
  | .shortCode .. => stored + 4
  | .shortPayload .. | .shortChecksum .. => stored + 5
  | .longHeader _ _ filled => filled + 3
  | .longPayload .. | .longChecksum .. => stored + 8

namespace Receiver

/-- One if a frame is in progress, else zero. -/
def pending (r : Receiver) : Nat := if r.isIdle then 0 else 1

/-- How many bytes of the frame in progress have come. -/
def begun (r : Receiver) : Nat := r.phase.begun r.payload.size

/-- What a receiver becomes and raises by `count` bytes, among them `starts` frame starts and the
ends of `excess` heads that declare too much, and by resets that cut off `cuts` frames. -/
structure Balance (r : Receiver) (count starts excess cuts : Nat) (after : Receiver × List Signal) :
    Prop where
  /-- All bytes are counted. -/
  bytes : after.1.tally.bytes = r.tally.bytes + count
  /-- The frames counted are those raised. -/
  frames : after.1.tally.frames = r.tally.frames + (Signal.frames after.2).length
  /-- Every head that declares too much is counted. -/
  oversized : after.1.tally.oversized = r.tally.oversized + excess
  /-- Every start comes to an end, is cut off or is in progress. -/
  starts : after.1.tally.ended + after.1.pending + cuts = r.tally.ended + r.pending + starts
  /-- What was raised, lost or begun has taken as many bytes. -/
  spent : wireLengths (Signal.frames after.2) + after.1.tally.lost + after.1.begun ≤
    r.tally.lost + r.begun + count

/-! ### One byte -/

section

variable {r : Receiver} {after : Receiver × List Signal} {phase next more full : Phase}
  {starts excess size : Nat}

/-- A receiver that has counted a byte and done nothing else about it. -/
def counted (r : Receiver) : Receiver := { r with tally.bytes := r.tally.bytes + 1 }

/-- To report a rejection raises no frame. -/
@[simp] theorem frames_report (r : Receiver) (rejection : Rejection) :
    Signal.frames (r.report rejection) = [] :=
  r.filterMap_report rfl fun _ => rfl

/-- Outside of the idle phase one frame is in progress. -/
theorem pending_of_busy (hbusy : (r.phase == .idle) = false) : r.pending = 1 := by
  simp [pending, isIdle, hbusy]

/-- A byte by which no frame ends starts one, or it belongs to the one in progress. -/
theorem balance_of_goesOn (htally : after.1.tally = r.counted.tally)
    (hframes : Signal.frames after.2 = []) (hpending : after.1.pending = r.pending + starts)
    (hbegun : after.1.begun ≤ r.begun + 1) : r.Balance 1 starts 0 0 after where
  bytes := by rw [htally]; rfl
  frames := by rw [htally, hframes]; rfl
  oversized := by rw [htally]; rfl
  starts := by
    have hended : after.1.tally.ended = r.tally.ended := by rw [htally]; rfl
    omega
  spent := by
    have hlost : after.1.tally.lost = r.tally.lost := by rw [htally]; rfl
    have hnone : wireLengths (Signal.frames after.2) = 0 := by rw [hframes]; rfl
    omega

/-- A byte by which the frame in progress ends is the last that this frame has taken. -/
theorem balance_of_ends (hbusy : (r.phase == .idle) = false) (hidle : after.1.phase = .idle)
    (hbytes : after.1.tally.bytes = r.tally.bytes + 1)
    (hframes : after.1.tally.frames = r.tally.frames + (Signal.frames after.2).length)
    (hoversized : after.1.tally.oversized = r.tally.oversized + excess)
    (hended : after.1.tally.ended = r.tally.ended + 1)
    (hspent : wireLengths (Signal.frames after.2) + after.1.tally.lost ≤
      r.tally.lost + r.begun + 1) : r.Balance 1 0 excess 0 after where
  bytes := hbytes
  frames := hframes
  oversized := hoversized
  starts := by
    have hbefore : r.pending = 1 := pending_of_busy hbusy
    have hafter : after.1.pending = 0 := by simp [pending, isIdle, hidle]
    omega
  spent := by
    have hnone : after.1.begun = 0 := by rw [begun, hidle]; rfl
    omega

/-- Between frames, a preamble starts one and another byte does not. -/
theorem balance_idle (hphase : r.phase = .idle) (byte : UInt8) :
    r.Balance 1 (byte == FlightLink.preamble).toNat 0 0
      (r.counted.enter (if byte = FlightLink.preamble then .preamble else .idle)) := by
  have hnone : r.pending = 0 := by simp [pending, isIdle, hphase]
  by_cases hbyte : byte = FlightLink.preamble
  · rw [if_pos hbyte, hbyte]
    exact balance_of_goesOn rfl rfl (by rw [hnone]; rfl) (Nat.le_add_left 1 _)
  · rw [if_neg hbyte, beq_false_of_ne hbyte]
    exact balance_of_goesOn rfl rfl (by rw [hnone]; rfl) (Nat.zero_le _)

/-- A byte leads on in the frame in progress. -/
theorem balance_enter (hphase : r.phase = phase) (hbusy : (phase == .idle) = false)
    (hnext : (next == .idle) = false)
    (hbegun : next.begun r.payload.size ≤ phase.begun r.payload.size + 1) :
    r.Balance 1 0 0 0 (r.counted.enter next) := by
  subst hphase
  have hafter : (r.counted.enter next).1.pending = r.pending := by
    rw [pending_of_busy hbusy]
    exact pending_of_busy hnext
  exact balance_of_goesOn rfl rfl hafter hbegun

/-- A payload byte is one more in the buffer. -/
theorem balance_store (hphase : r.phase = phase) (hbusy : (phase == .idle) = false)
    (hmore : (more == .idle) = false) (hfull : (full == .idle) = false)
    (hmoreBegun : more.begun (r.payload.size + 1) ≤ phase.begun r.payload.size + 1)
    (hfullBegun : full.begun (r.payload.size + 1) ≤ phase.begun r.payload.size + 1)
    (byte : UInt8) : r.Balance 1 0 0 0 (r.counted.store byte size more full) := by
  subst hphase
  have hstored : (r.counted.store byte size more full).1.payload.size = r.payload.size + 1 :=
    Array.size_push byte
  have hnext : (r.counted.store byte size more full).1.phase = full ∨
      (r.counted.store byte size more full).1.phase = more := ite_eq_or_eq _ _ _
  refine balance_of_goesOn rfl rfl ?_ ?_
  · rw [pending_of_busy hbusy, pending_of_busy]
    rcases hnext with hnext | hnext <;> rwa [hnext]
  · rw [begun, hstored]
    rcases hnext with hnext | hnext <;> rwa [hnext]

/-- A byte that breaks an opening ends a frame of which one byte had come at least. -/
theorem balance_loseSync (hphase : r.phase = phase) (hbusy : (phase == .idle) = false)
    (hbegun : 1 ≤ phase.begun r.payload.size) (rejection : Rejection) :
    r.Balance 1 0 0 0 (r.counted.loseSync rejection) := by
  subst hphase
  have hnone : Signal.frames (r.counted.loseSync rejection).2 = [] := r.counted.frames_report _
  refine balance_of_ends hbusy rfl rfl ?_ rfl ?_ ?_
  · rw [hnone]
    rfl
  · simp only [loseSync, counted, Tally.ended]
    omega
  · rw [hnone]
    simp only [loseSync, counted, Tally.lost, wireLengths, begun]
    omega

/-- The last byte of a head leads on into the frame, or it ends a frame of which three bytes had
come at least. -/
theorem balance_makeRoom (hphase : r.phase = phase) (hbusy : (phase == .idle) = false)
    (hnext : (next == .idle) = false) (hbegun : 3 ≤ phase.begun r.payload.size)
    (hnextBegun : next.begun 0 ≤ phase.begun r.payload.size + 1) :
    r.Balance 1 0 (decide (r.limit < size)).toNat 0 (r.counted.makeRoom size next) := by
  subst hphase
  have hlimit : r.counted.limit = r.limit := rfl
  unfold makeRoom
  rw [hlimit]
  by_cases hsize : r.limit < size
  · rw [if_pos hsize, decide_eq_true hsize]
    refine balance_of_ends hbusy rfl rfl rfl rfl ?_ ?_
    · simp only [counted, Tally.ended]
      omega
    · simp only [Signal.frames, List.filterMap_cons, List.filterMap_nil, counted, Tally.lost,
        wireLengths, begun]
      omega
  · have hgoesOn : ∀ capacity out, Signal.frames out = [] → r.Balance 1 0 0 0
        ({ r.counted with phase := next, payload := #[], capacity }, out) := by
      intro capacity out hout
      refine balance_of_goesOn rfl hout ?_ hnextBegun
      rw [pending_of_busy hbusy]
      exact pending_of_busy hnext
    rw [if_neg hsize, decide_eq_false hsize]
    split <;> exact hgoesOn _ _ rfl

/-- The checksum ends a frame: all its bytes have come, and six at least. -/
theorem balance_finish (hphase : r.phase = phase) (hbusy : (phase == .idle) = false)
    {version : Version} {direction : Direction} {code : UInt16}
    (hbegun : (Frame.mk version direction code r.payload.toList).wireLength ≤
      phase.begun r.payload.size + 1) (expected received : UInt8) :
    r.Balance 1 0 0 0 (r.counted.finish version direction code expected received) := by
  subst hphase
  have hsix : 6 ≤ (Frame.mk version direction code r.payload.toList).wireLength := by
    cases version <;> simp only [Frame.wireLength] <;> omega
  unfold finish
  split
  · refine balance_of_ends hbusy rfl rfl rfl rfl ?_ ?_
    · simp only [counted, Tally.ended]
      omega
    · have hraised : wireLengths (Signal.frames
          [.event (.frameDecoded version code r.payload.size),
            .frame ⟨version, direction, code, r.payload.toList⟩]) =
          (Frame.mk version direction code r.payload.toList).wireLength := Nat.add_zero _
      simp only [counted, Tally.lost, begun]
      omega
  · refine balance_of_ends hbusy rfl rfl ?_ rfl ?_ ?_
    · rw [frames_report]
      rfl
    · simp only [counted, Tally.ended]
      omega
    · simp only [frames_report, counted, Tally.lost, wireLengths, begun]
      omega

/-- Each byte keeps the balance, whatever phase it comes to. -/
theorem balance_step (r : Receiver) (byte : UInt8) :
    r.Balance 1 (Arrival.mk r byte).isStart.toNat (Arrival.mk r byte).isExcess.toNat 0
      (r.step byte) := by
  have hcounted : r.counted.phase = r.phase := rfl
  have hstep : r.step byte = r.counted.advance byte := rfl
  rw [hstep, advance, hcounted]
  simp only [Arrival.isStart, Arrival.isExcess, isIdle]
  cases hphase : r.phase with
  | idle => exact balance_idle hphase byte
  | preamble =>
    dsimp only
    split
    · exact balance_enter hphase rfl rfl (Nat.le_refl _)
    · exact balance_loseSync hphase rfl (Nat.le_refl _) _
  | direction version =>
    dsimp only
    split
    · exact balance_enter hphase rfl rfl (Nat.le_refl _)
    · exact balance_enter hphase rfl rfl (Nat.le_refl _)
    · exact balance_loseSync hphase rfl (Nat.le_add_left 1 1) _
  | shortSize direction =>
    exact balance_makeRoom hphase rfl rfl (Nat.le_refl _) (Nat.le_refl _)
  | shortCode direction size parity =>
    dsimp only
    split <;> exact balance_enter hphase rfl rfl (Nat.le_refl _)
  | shortPayload direction code size parity =>
    refine balance_store hphase rfl ?_ ?_ ?_ ?_ byte
    · exact rfl
    · exact rfl
    · exact Nat.le_refl _
    · exact Nat.le_refl _
  | shortChecksum direction code parity =>
    exact balance_finish hphase rfl (Nat.le_refl _) _ _
  | longHeader direction header filled =>
    simp only [Phase.declared?]
    split
    · exact balance_enter hphase rfl rfl (Nat.le_refl _)
    · rename_i hlast
      have hfilled : 8 ≤ filled + 3 + 1 := by
        simp only [LongHeader.byteCount] at hlast
        omega
      refine balance_makeRoom hphase rfl ?_ (Nat.le_add_left 3 filled) ?_
      · split <;> exact rfl
      · split <;> exact hfilled
  | longPayload direction header code size =>
    refine balance_store hphase rfl ?_ ?_ ?_ ?_ byte
    · exact rfl
    · exact rfl
    · exact Nat.le_refl _
    · exact Nat.le_refl _
  | longChecksum direction header code =>
    exact balance_finish hphase rfl (Nat.le_refl _) _ _

end

/-! ### Chunks and operations -/

/-- Balances add up. -/
theorem Balance.append {r middle : Receiver} {out : List Signal} {after : Receiver × List Signal}
    {m n starts starts' excess excess' cuts cuts' : Nat}
    (hfront : r.Balance m starts excess cuts (middle, out))
    (hback : middle.Balance n starts' excess' cuts' after) :
    r.Balance (m + n) (starts + starts') (excess + excess') (cuts + cuts')
      (after.1, out ++ after.2) where
  bytes := by rw [hback.bytes, hfront.bytes, Nat.add_assoc]
  frames := by
    rw [hback.frames, hfront.frames, Signal.frames_append, List.length_append, Nat.add_assoc]
  oversized := by rw [hback.oversized, hfront.oversized, Nat.add_assoc]
  starts := by
    have hfront := hfront.starts
    have hback := hback.starts
    simp only at hfront hback ⊢
    omega
  spent := by
    have hfront := hfront.spent
    have hback := hback.spent
    have hsum : wireLengths (Signal.frames (out ++ after.2)) =
        wireLengths (Signal.frames out) + wireLengths (Signal.frames after.2) := by
      rw [Signal.frames_append, wireLengths_append]
    simp only at hfront hback ⊢
    omega

/-- The first of a list is counted if it counts. -/
private theorem countP_cons_eq {α : Type} (p : α → Bool) (a : α) (l : List α) :
    (a :: l).countP p = (p a).toNat + l.countP p := by
  rw [List.countP_cons, Nat.add_comm]
  cases p a <;> rfl

/-- A chunk keeps the balance. -/
theorem balance_feed (r : Receiver) (data : Bytes) :
    r.Balance data.length ((r.arrivals data).countP Arrival.isStart)
      ((r.arrivals data).countP Arrival.isExcess) 0 (r.feed data) := by
  induction data generalizing r with
  | nil => exact ⟨rfl, rfl, rfl, rfl, by simp [wireLengths, Signal.frames]⟩
  | cons byte data ih =>
    rw [feed_cons, arrivals, countP_cons_eq, countP_cons_eq, List.length_cons, Nat.add_comm]
    exact (r.balance_step byte).append (ih (r.step byte).1)

end Receiver

namespace Session

/-- An operation keeps the balance. -/
theorem balance_perform (s : Session) (op : Operation) :
    s.receiver.Balance op.received.length ((Call.mk s op).arrivals.countP Arrival.isStart)
      ((Call.mk s op).arrivals.countP Arrival.isExcess) (Call.mk s op).isCut.toNat
      ((s.perform op).1.receiver, (s.perform op).2.2) := by
  -- An operation without bytes leaves the totals as they are.
  have hsilent : ∀ r : Receiver, r.tally = s.receiver.tally → ∀ cuts,
      r.pending + cuts = s.receiver.pending → r.begun ≤ s.receiver.begun →
      s.receiver.Balance 0 0 0 cuts (r, []) := by
    intro r htally cuts hcuts hbegun
    refine ⟨by rw [htally]; rfl, by rw [htally]; rfl, by rw [htally]; rfl, ?_, ?_⟩
    · simp only [htally]
      omega
    · simpa [htally, wireLengths, Signal.frames] using hbegun
  cases op with
  | decode data => exact s.receiver.balance_feed data
  | collect data => exact s.receiver.balance_feed data
  | reset =>
    have hafter : s.receiver.reset.pending = 0 := rfl
    have hcut : (Call.mk s .reset).isCut = !s.receiver.isIdle := by simp [Call.isCut]
    refine hsilent s.receiver.reset rfl _ ?_ (Nat.zero_le _)
    rw [hafter, hcut, Receiver.pending]
    cases s.receiver.isIdle <;> rfl
  | watch o => exact hsilent (s.receiver.watch o) rfl 0 rfl (Nat.le_refl _)
  | unwatch => exact hsilent s.receiver.unwatch rfl 0 rfl (Nat.le_refl _)

/-- Operations that are performed in turn keep the balance. -/
theorem balance_performAll (s : Session) (ops : List Operation) :
    s.receiver.Balance (ops.flatMap Operation.received).length
      (((s.calls ops).flatMap Call.arrivals).countP Arrival.isStart)
      (((s.calls ops).flatMap Call.arrivals).countP Arrival.isExcess)
      ((s.calls ops).countP Call.isCut)
      ((s.performAll ops).1.receiver, (s.performAll ops).2.flatMap fun answer => answer.2) := by
  induction ops generalizing s with
  | nil => exact s.receiver.balance_feed []
  | cons op ops ih =>
    have hcons := (s.balance_perform op).append (ih (s.perform op).1)
    simp only [calls, performAll_cons, List.flatMap_cons, List.length_append, List.countP_append,
      Receiver.countP_cons_eq]
    exact hcons

/-- What an answer hands out are the frames raised. -/
theorem frames?_of_mem_performAll {s : Session} {ops : List Operation}
    {answer : Answer × List Signal} (hanswer : answer ∈ (s.performAll ops).2) :
    ∀ frames, answer.1.frames? = some frames → frames = Signal.frames answer.2 := by
  induction ops generalizing s with
  | nil => cases hanswer
  | cons op ops ih =>
    rw [performAll_cons, List.mem_cons] at hanswer
    rcases hanswer with rfl | hanswer
    · intro frames hframes
      cases op with
      | decode data =>
        simp only [perform, Receiver.decode] at hframes ⊢
        split at hframes
        · cases hframes
        · exact (Option.some.inj hframes).symm
      | collect data => exact (Option.some.inj hframes).symm
      | reset | watch | unwatch => cases hframes
    · exact ih hanswer

end Session

/-- Over any operations on a new receiver, the preambles received between frames are the frames
completed, dropped and given up, those cut off by resets, and the one in progress, if there is one.
The bytes of all chunks are counted, of those as well that had a frame given up; the frames counted
are those raised, which each answer hands out or, of a chunk that failed, discards; the frames given
up are the heads that declare more than the limit. The bytes received are at least those of the
frames raised, six for each wrong checksum, two for each opening that fails and four for each frame
given up. -/
theorem tally_of_operations (settings : ReceiverSettings) (ops : List Operation) :
    let start := Session.ofSettings settings
    let last := (start.performAll ops).1.receiver
    let answers := (start.performAll ops).2
    let arrivals := (start.calls ops).flatMap Call.arrivals
    let raised := Signal.frames (answers.flatMap fun answer => answer.2)
    let t := last.tally
    arrivals.countP Arrival.isStart =
        t.frames + t.checksumFailures + t.syncFailures + t.oversized +
          (start.calls ops).countP Call.isCut + (if last.isIdle then 0 else 1) ∧
      t.bytes = (ops.flatMap Operation.received).length ∧
      t.frames = raised.length ∧
      (∀ answer ∈ answers, ∀ frames, answer.1.frames? = some frames →
        frames = Signal.frames answer.2) ∧
      t.oversized = arrivals.countP Arrival.isExcess ∧
      wireLengths raised + 6 * t.checksumFailures + 2 * t.syncFailures + 4 * t.oversized ≤
        t.bytes := by
  intro start last answers arrivals raised t
  have hbalance := start.balance_performAll ops
  -- A new receiver has counted nothing and has begun no frame.
  have hbytes : t.bytes = 0 + (ops.flatMap Operation.received).length := hbalance.bytes
  have hframes : t.frames = 0 + raised.length := hbalance.frames
  have hoversized : t.oversized = 0 + arrivals.countP Arrival.isExcess := hbalance.oversized
  have hstarts : t.ended + last.pending + (start.calls ops).countP Call.isCut =
      0 + 0 + arrivals.countP Arrival.isStart := hbalance.starts
  have hspent : wireLengths raised + t.lost + last.begun ≤
      0 + 0 + (ops.flatMap Operation.received).length := hbalance.spent
  simp only [Nat.zero_add] at hbytes hframes hoversized hstarts hspent
  refine ⟨?_, hbytes, hframes, fun answer h => Session.frames?_of_mem_performAll h, hoversized, ?_⟩
  · rw [← hstarts, Tally.ended, Receiver.pending]
    omega
  · rw [hbytes]
    rw [Tally.lost] at hspent
    omega

end FlightLink
