import FlightLink.Capture
import FlightLink.Proofs.Reachable

/-!
# Captures are read as one stream

A capture reaches the receiver in pieces, which depend on the size of the buffer and on what the
source offers at each read. Neither shows in what the receiver becomes nor in the frames handed
over: they are those of the bytes delivered, taken at once. The same holds of several captures that
are read one after the other by one receiver, whether they came to their end or to a fault.
-/

namespace FlightLink

/-! ### What a source delivers -/

namespace Read

/-- The bytes that a source delivers up to its end or its first fault. -/
def delivered : List Read → Bytes
  | [] | .bytes [] :: _ | .fault _ :: _ => []
  | .bytes (byte :: data) :: reads => byte :: data ++ delivered reads

/-- The fault by which a source ends, unless it comes to its end. -/
def fault? : List Read → Option Fault
  | [] | .bytes [] :: _ => none
  | .fault f :: _ => some f
  | .bytes (_ :: _) :: reads => fault? reads

end Read

/-- Bytes that are offered are cut into pieces of their own, apart from what is offered later. -/
theorem deliveries_bytes (size : Nat) (byte : UInt8) (data : Bytes) (reads : List Read) :
    deliveries size (.bytes (byte :: data) :: reads) =
      (pieces size (byte :: data) ++ (deliveries size reads).1, (deliveries size reads).2) := rfl

/-- The pieces that come through a buffer are all that the source delivers, in order. -/
theorem flatten_deliveries (size : Nat) (reads : List Read) :
    (deliveries size reads).1.flatten = Read.delivered reads := by
  fun_induction Read.delivered reads with
  | case1 | case2 | case3 => rfl
  | case4 byte data reads ih =>
    rw [deliveries_bytes, List.flatten_append, flatten_pieces, ih]

/-- The fault of a source ends the pieces, whatever the buffer. -/
theorem fault_deliveries (size : Nat) (reads : List Read) :
    (deliveries size reads).2 = Read.fault? reads := by
  fun_induction Read.fault? reads with
  | case1 | case2 | case3 => rfl
  | case4 byte data reads ih => rw [deliveries_bytes, ih]

/-- No piece is empty, and none is larger than the buffer. -/
theorem length_of_mem_deliveries {size : Nat} {reads : List Read} {piece : Bytes}
    (hpiece : piece ∈ (deliveries size reads).1) :
    0 < piece.length ∧ piece.length ≤ max size 1 := by
  fun_induction Read.delivered reads with
  | case1 | case2 | case3 => cases hpiece
  | case4 byte data reads ih =>
    rw [deliveries_bytes, List.mem_append] at hpiece
    exact hpiece.elim length_of_mem_pieces ih

/-! ### What is logged about a capture -/

namespace Signal

/-- Whether a signal is an entry in the log about a capture, and not about a frame. -/
def isCaptureEvent : Signal → Bool
  | .event (.frameSkipped _) | .event .endedInsideFrame | .event (.captureRead ..) => true
  | _ => false

/-- The entries in the log about a capture. -/
def ofCapture (out : List Signal) : List Signal := out.filter isCaptureEvent

/-- What is logged about captures can be read off the parts of a log. -/
@[simp] theorem ofCapture_append (front back : List Signal) :
    ofCapture (front ++ back) = ofCapture front ++ ofCapture back :=
  List.filter_append ..

/-- The buffer has no part in what is logged about a capture. -/
theorem ofCapture_lessGrowth (out : List Signal) : ofCapture (lessGrowth out) = ofCapture out := by
  rw [lessGrowth, ofCapture, List.filter_filter, ofCapture]
  congr 1
  funext signal
  unfold isCaptureEvent isGrowth
  split <;> rfl

end Signal

/-- The frames given up whose heads end in a piece of a stream that comes behind the bytes `before`:
those among the items that are complete with this piece and not before it. -/
def givenUpIn (limit : Nat) (before piece : Bytes) : List Oversized :=
  ((scan limit (before ++ piece)).1.drop (scan limit before).1.length).filterMap fun item =>
    (item.verdict limit).oversized?

/-- The pieces of a stream, each with the bytes of the stream before it. -/
def piecesBehind : (before : Bytes) → (ps : List Bytes) → List (Bytes × Bytes)
  | _, [] => []
  | before, piece :: ps => (before, piece) :: piecesBehind (before ++ piece) ps

/-- The first frame given up in each piece of a stream that has one. -/
def firstGivenUp (limit : Nat) (before : Bytes) (ps : List Bytes) : List Oversized :=
  (piecesBehind before ps).filterMap fun p => (givenUpIn limit p.1 p.2).head?

/-- Of each piece the first frame given up counts, as it stands behind all pieces before. -/
theorem firstGivenUp_cons (limit : Nat) (before piece : Bytes) (ps : List Bytes) :
    firstGivenUp limit before (piece :: ps) =
      (givenUpIn limit before piece).head?.toList ++ firstGivenUp limit (before ++ piece) ps := by
  rw [firstGivenUp, piecesBehind, List.filterMap_cons]
  cases (givenUpIn limit before piece).head? <;> rfl

/-- The items behind those that were complete before a piece are those of the item begun and the
piece. -/
theorem givenUpIn_eq (limit : Nat) (before piece : Bytes) :
    givenUpIn limit before piece =
      ((scan limit ((scan limit before).2 ++ piece)).1.map (Item.verdict limit)).filterMap
        Verdict.oversized? := by
  rw [givenUpIn, scan_append, List.drop_left, List.filterMap_map]
  rfl

namespace Receiver

variable {r : Receiver} {part : Bytes}

/-- A verdict raises no log entry about captures. -/
theorem ofCapture_announce (r : Receiver) (verdict : Verdict) :
    Signal.ofCapture (r.announce verdict) = [] := by
  cases verdict with
  | rejected rejection =>
    exact List.filter_eq_nil_iff.mpr
      (r.forall_mem_report Bool.false_ne_true fun _ => Bool.false_ne_true)
  | _ => rfl

/-- A receiver by itself logs nothing about captures. -/
theorem HasPart.ofCapture_feed (hr : r.HasPart part) (data : Bytes) :
    Signal.ofCapture (r.feed data).2 = [] := by
  rw [← Signal.ofCapture_lessGrowth, hr.lessGrowth_feed, Signal.ofCapture, List.filter_flatMap]
  exact List.flatMap_eq_nil_iff.mpr fun verdict _ => r.ofCapture_announce verdict

/-- Part of an item holds no whole item. -/
theorem HasPart.scan_eq (hr : r.HasPart part) : scan r.limit part = ([], part) := by
  obtain ⟨room, hpart, -⟩ := hr.partway
  exact scan_of_none hpart.scanItem_eq_none

/-! ### Pieces -/

/-- The first piece is taken, and then the others by the receiver that it leaves. -/
theorem takePieces_cons (r : Receiver) (piece : Bytes) (ps : List Bytes) :
    r.takePieces (piece :: ps) =
      (((r.takePiece piece).1.takePieces ps).1,
        (r.takePiece piece).2 ++ ((r.takePiece piece).1.takePieces ps).2) :=
  gather_cons takePiece r piece ps

/-- A receiver that takes pieces is fed the stream they make up. -/
theorem takePieces_fst (r : Receiver) (ps : List Bytes) :
    (r.takePieces ps).1 = (r.feed ps.flatten).1 := by
  induction ps generalizing r with
  | nil => rfl
  | cons piece ps ih =>
    rw [takePieces_cons, ih, List.flatten_cons, feed_append]
    rfl

/-- The frames of the pieces are those of the stream they make up. -/
theorem frames_takePieces (r : Receiver) (ps : List Bytes) :
    Signal.frames (r.takePieces ps).2 = Signal.frames (r.feed ps.flatten).2 := by
  induction ps generalizing r with
  | nil => rfl
  | cons piece ps ih =>
    have hpiece : Signal.frames (r.takePiece piece).2 = Signal.frames (r.feed piece).2 := by
      rw [takePiece, Signal.frames_append]
      cases Signal.failure? (r.feed piece).2 <;> exact List.append_nil _
    rw [takePieces_cons, Signal.frames_append, ih, hpiece, List.flatten_cons, feed_append,
      Signal.frames_append]
    rfl

/-- A piece leaves at most one entry about a skipped frame: the first that is given up in it. -/
theorem ofCapture_takePiece {before : Bytes} (hr : r.HasPart (scan r.limit before).2)
    (piece : Bytes) :
    Signal.ofCapture (r.takePiece piece).2 =
      (givenUpIn r.limit before piece).head?.toList.map fun o => .event (.frameSkipped o) := by
  obtain ⟨-, -, -, hfailure⟩ := signals_of_lessGrowth (hr.lessGrowth_feed piece)
  rw [takePiece, Signal.ofCapture_append, hr.ofCapture_feed, hfailure, ← List.head?_filterMap,
    ← givenUpIn_eq, List.nil_append]
  cases (givenUpIn r.limit before piece).head? <;> rfl

/-- What is logged about a capture while its pieces come. -/
theorem ofCapture_takePieces {before : Bytes} (hr : r.HasPart (scan r.limit before).2)
    (ps : List Bytes) :
    Signal.ofCapture (r.takePieces ps).2 =
      (firstGivenUp r.limit before ps).map fun o => .event (.frameSkipped o) := by
  induction ps generalizing r before with
  | nil => rfl
  | cons piece ps ih =>
    have hlimit : (r.feed piece).1.limit = r.limit := (hr.settings_feed piece).1
    have hnext : (r.feed piece).1.HasPart (scan (r.feed piece).1.limit (before ++ piece)).2 := by
      rw [hlimit, scan_append]
      exact hr.feed piece
    have hrest := ih hnext
    rw [hlimit] at hrest
    have hfed : (r.takePiece piece).1 = (r.feed piece).1 := rfl
    rw [takePieces_cons, Signal.ofCapture_append, ofCapture_takePiece hr, hfed, hrest,
      firstGivenUp_cons, List.map_append]

/-! ### Whole captures -/

/-- The end of a capture raises no frame. -/
theorem frames_closing (r : Receiver) (total : Nat) : Signal.frames (r.closing total) = [] := by
  unfold closing
  split <;> rfl

/-- All that is raised at the end of a capture is about the capture. -/
theorem ofCapture_closing (r : Receiver) (total : Nat) :
    Signal.ofCapture (r.closing total) = r.closing total := by
  unfold closing
  split <;> rfl

section

variable (r : Receiver) (size : Nat) (reads : List Read)

/-- A capture feeds the receiver the bytes delivered; it ends with the fault of its source, or with
their number. -/
theorem readAll_eq :
    r.readAll size reads =
      ((r.feed (Read.delivered reads)).1,
        (r.takePieces (deliveries size reads).1).2 ++
          (match Read.fault? reads with
          | some _ => []
          | none => (r.feed (Read.delivered reads)).1.closing (Read.delivered reads).length),
        match Read.fault? reads with
        | some f => .error f
        | none => .ok (Read.delivered reads).length) := by
  rw [← flatten_deliveries size, ← fault_deliveries size, ← takePieces_fst, readAll]
  rcases deliveries size reads with ⟨ps, fault⟩
  cases fault with
  | some f => simp
  | none => rfl

/-- The frames of a capture are those of the bytes delivered. -/
theorem frames_readAll :
    Signal.frames (r.readAll size reads).2.1 =
      Signal.frames (r.feed (Read.delivered reads)).2 := by
  rw [readAll_eq, Signal.frames_append, frames_takePieces, flatten_deliveries]
  refine List.append_right_eq_self.mpr ?_
  cases Read.fault? reads with
  | some f => rfl
  | none => exact frames_closing _ _

end

/-- What comes of a capture depends on nothing but the bytes that its source delivers and the fault
by which it ends. -/
theorem outcome_of_readAll {size : Nat} {reads : List Read} {next : Receiver} {out : List Signal}
    {result : Except Fault Nat} (hread : r.readAll size reads = (next, out, result)) :
    next = (r.feed (Read.delivered reads)).1 ∧
      Signal.frames out = Signal.frames (r.feed (Read.delivered reads)).2 ∧
      result = match Read.fault? reads with
        | some f => .error f
        | none => .ok (Read.delivered reads).length := by
  have hframes := r.frames_readAll size reads
  have heq := r.readAll_eq size reads
  rw [hread] at hframes heq
  obtain ⟨hnext, htail⟩ := Prod.ext_iff.mp heq
  exact ⟨hnext, hframes, (Prod.ext_iff.mp htail).2⟩

/-- What is logged about a capture that comes to its end. -/
theorem HasPart.ofCapture_readAll (hr : r.HasPart part) (size : Nat) {reads : List Read}
    (hsource : Read.fault? reads = none) :
    Signal.ofCapture (r.readAll size reads).2.1 =
      ((firstGivenUp r.limit part (deliveries size reads).1).map fun o =>
          .event (.frameSkipped o)) ++
        (r.feed (Read.delivered reads)).1.closing (Read.delivered reads).length := by
  have hpart : r.HasPart (scan r.limit part).2 := by rwa [hr.scan_eq]
  rw [readAll_eq, hsource, Signal.ofCapture_append, ofCapture_takePieces hpart, ofCapture_closing]

end Receiver

/-- A capture of a source without a fault hands over the frames, and leaves the receiver, that
collecting the bytes delivered does; no frame that is given up ends it. So neither the size of the
buffer nor how the bytes are spread over the reads matters. In the log stand one entry for each
piece delivered in which the head of a frame that is too large ends, about the first of these, then
one if the receiver is left inside a frame, and the totals. -/
theorem readAll_eq_collect {r : Receiver} (hr : r.Reachable) (size : Nat) {reads : List Read}
    (hsource : Read.fault? reads = none) :
    let data := Read.delivered reads
    let ps := (deliveries size reads).1
    let (next, out, result) := r.readAll size reads
    let (session, _, _) := (Session.mk r []).perform (.collect data)
    result = .ok data.length ∧ Signal.frames out = session.kept ∧ next = session.receiver ∧
      ps.flatten = data ∧ (∀ piece ∈ ps, 0 < piece.length ∧ piece.length ≤ max size 1) ∧
      ∃ part, r.HasPart part ∧
        Signal.ofCapture out =
          (firstGivenUp r.limit part ps).map (fun o => .event (.frameSkipped o)) ++
            ((if next.isIdle then [] else [.event .endedInsideFrame]) ++
              [.event (.captureRead data.length next.tally)]) := by
  intro data ps
  obtain ⟨part, hpart⟩ := hr.hasPart
  have hlog := hpart.ofCapture_readAll size hsource
  rcases hread : r.readAll size reads with ⟨next, out, result⟩
  obtain ⟨rfl, hframes, hresult⟩ := Receiver.outcome_of_readAll hread
  rw [hread] at hlog
  rw [hsource] at hresult
  exact ⟨hresult, hframes, rfl, flatten_deliveries size reads,
    fun _ => length_of_mem_deliveries, part, hpart, hlog⟩

/-- A receiver with two bytes of a frame, whose payload may have four bytes, reads through a buffer
of eight. The heads of three frames that are too large end in the first two pieces; the third piece
holds a frame and starts another, and then the source ends. -/
theorem readAll_eq_collect_inside_frame :
    let operations : List Operation := [.collect [0x24, 0x4D]]
    let r := ((Session.ofSettings { maxPayload := 4 }).performAll operations).1.receiver
    let reads : List Read :=
      [.bytes [0x3C, 9, 0x24, 0x4D, 0x3E, 7, 0x24, 0x4D, 0x21, 5, 0x24],
        .bytes [0x4D, 0x3C, 1, 7, 0xAA, 0xAC, 0x24], .bytes [], .fault .writeZero]
    let (next, out, result) := r.readAll 8 reads
    r.Reachable ∧ Read.fault? reads = none ∧ result = .ok 18 ∧
      Signal.frames out = [⟨.v1, .request, 7, [0xAA]⟩] ∧ next.phase = .preamble ∧
      Signal.ofCapture out =
        [.event (.frameSkipped ⟨9, 4⟩), .event (.frameSkipped ⟨5, 4⟩), .event .endedInsideFrame,
          .event (.captureRead 18 ⟨20, 1, 0, 0, 3⟩)] := by
  intro operations r reads
  have hreach : r.Reachable := ⟨{ maxPayload := 4 }, _, rfl⟩
  have hsource : Read.fault? reads = none := rfl
  have hread := readAll_eq_collect hreach 8 hsource
  rcases houtcome : r.readAll 8 reads with ⟨next, out, result⟩
  rw [houtcome] at hread
  obtain ⟨hresult, hframes, hnext, -, -, -⟩ := hread
  refine ⟨hreach, hsource, hresult, hframes.trans ?_, ?_, ?_⟩
  · decide +kernel
  · rw [hnext]
    decide +kernel
  · have hout : out = (r.readAll 8 reads).2.1 := by rw [houtcome]
    rw [hout]
    decide +kernel

/-! ### Captures one after the other -/

/-- A capture that is to be read: the size of the buffer, and the source. -/
structure Capture where
  /-- The size of the buffer. -/
  size : Nat
  /-- What the source does. -/
  reads : List Read

namespace Capture

/-- The bytes that the source delivers up to its end or its first fault. -/
def delivered (c : Capture) : Bytes := Read.delivered c.reads

/-- The fault by which the source ends, unless it comes to its end. -/
def fault? (c : Capture) : Option Fault := Read.fault? c.reads

end Capture

namespace Receiver

/-- Reads captures one after the other: the receiver after them, and what comes of each. -/
def readEach (r : Receiver) :
    List Capture → Receiver × List (Receiver × List Signal × Except Fault Nat)
  | [] => (r, [])
  | c :: cs =>
    let outcome := r.readAll c.size c.reads
    let (last, outcomes) := outcome.1.readEach cs
    (last, outcome :: outcomes)

variable {r : Receiver}

/-- The first capture is read, and then the others by the receiver that it leaves. -/
theorem readEach_cons (r : Receiver) (c : Capture) (cs : List Capture) :
    r.readEach (c :: cs) =
      (((r.readAll c.size c.reads).1.readEach cs).1,
        r.readAll c.size c.reads :: ((r.readAll c.size c.reads).1.readEach cs).2) := rfl

/-- Captures that are read one after the other feed the receiver all that they deliver. -/
theorem readEach_fst (r : Receiver) (cs : List Capture) :
    (r.readEach cs).1 = (r.feed (cs.flatMap Capture.delivered)).1 := by
  induction cs generalizing r with
  | nil => rfl
  | cons c cs ih =>
    rw [readEach_cons, ih, readAll_eq, List.flatMap_cons, feed_append]
    rfl

/-- The frames of captures are those of all that they deliver. -/
theorem frames_readEach (r : Receiver) (cs : List Capture) :
    (r.readEach cs).2.flatMap (fun outcome => Signal.frames outcome.2.1) =
      Signal.frames (r.feed (cs.flatMap Capture.delivered)).2 := by
  induction cs generalizing r with
  | nil => rfl
  | cons c cs ih =>
    rw [readEach_cons, List.flatMap_cons, ih, frames_readAll, readAll_eq, List.flatMap_cons,
      feed_append, Signal.frames_append]
    rfl

/-- What comes of a capture comes of it in the receiver that those before it leave. -/
theorem getElem?_readEach (r : Receiver) (before : List Capture) (c : Capture)
    (after : List Capture) :
    (r.readEach (before ++ c :: after)).2[before.length]? =
      some ((r.readEach before).1.readAll c.size c.reads) := by
  induction before generalizing r with
  | nil => rfl
  | cons c' before ih => exact ih (r.readAll c'.size c'.reads).1

end Receiver

/-- However a stream is spread over captures that are read one after the other, each up to its end
or to a fault at any place: each hands over the frames that are completed by the bytes it delivers,
ends with its own fault or the number of these bytes, and leaves the receiver as feeding it all
bytes delivered so far does. Together they hand over the frames, and leave the receiver, that one
capture of the whole stream does which comes to its end. -/
theorem readEach_eq_readAll (r : Receiver) (captures : List Capture) :
    let (last, outcomes) := r.readEach captures
    let stream := captures.flatMap Capture.delivered
    (∀ before c after, captures = before ++ c :: after →
      let start := (r.feed (before.flatMap Capture.delivered)).1
      ∃ next out result, outcomes[before.length]? = some (next, out, result) ∧
        next = (r.feed (before.flatMap Capture.delivered ++ c.delivered)).1 ∧
        Signal.frames out = Signal.frames (start.feed c.delivered).2 ∧
        result = match c.fault? with
          | some f => .error f
          | none => .ok c.delivered.length) ∧
    ∀ whole : Capture, whole.fault? = none → whole.delivered = stream →
      let (next, out, result) := r.readAll whole.size whole.reads
      result = .ok stream.length ∧ next = last ∧
        Signal.frames out = outcomes.flatMap fun outcome => Signal.frames outcome.2.1 := by
  rcases hall : r.readEach captures with ⟨last, outcomes⟩
  have hlast : last = (r.feed (captures.flatMap Capture.delivered)).1 := by
    rw [← r.readEach_fst, hall]
  have hframesAll := r.frames_readEach captures
  rw [hall] at hframesAll
  refine ⟨?_, ?_⟩
  · rintro before c after rfl
    have houtcome := r.getElem?_readEach before c after
    rw [hall, r.readEach_fst] at houtcome
    rcases hread : (r.feed (before.flatMap Capture.delivered)).1.readAll c.size c.reads with
      ⟨next, out, result⟩
    rw [hread] at houtcome
    obtain ⟨hnext, hframes, hresult⟩ := Receiver.outcome_of_readAll hread
    refine ⟨next, out, result, houtcome, ?_, hframes, hresult⟩
    rw [hnext, Receiver.feed_append]
    rfl
  · intro whole hsource hstream
    have hdelivered : Read.delivered whole.reads = captures.flatMap Capture.delivered := hstream
    have hend : Read.fault? whole.reads = none := hsource
    rcases hread : r.readAll whole.size whole.reads with ⟨next, out, result⟩
    obtain ⟨hnext, hframes, hresult⟩ := Receiver.outcome_of_readAll hread
    rw [hdelivered] at hnext hframes
    rw [hend, hdelivered] at hresult
    exact ⟨hresult, hnext.trans hlast.symm, hframes.trans hframesAll.symm⟩

/-- A fault of the source cuts a frame in two. The capture that ends with it hands nothing over; the
next one hands over the frame, and leaves another begun. -/
example :
    let cutOff : Capture := ⟨3, [.bytes [0x24, 0x4D, 0x3C, 1, 7], .fault ⟨.timedOut, "timed out"⟩]⟩
    let resumed : Capture := ⟨16, [.bytes [0xAA, 0xAC, 0x24]]⟩
    let run := (Receiver.ofSettings {}).readEach [cutOff, resumed]
    run.2.map (fun outcome => (Signal.frames outcome.2.1, outcome.2.2)) =
        [([], .error ⟨.timedOut, "timed out"⟩), ([⟨.v1, .request, 7, [0xAA]⟩], .ok 3)] ∧
      run.1.phase = .preamble := by
  decide +kernel

end FlightLink
