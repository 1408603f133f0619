import FlightLink.Fault
import FlightLink.Receiver.Step

/-!
# Captures

A capture is a byte source that is read to its end through a buffer of bounded size. Each read
delivers a piece of at most that size, and each piece goes to the receiver, which carries a frame
that a piece ends in over to the next. Frames that are too large are logged and skipped; a fault of
the source ends the run at once, with the frames before it already handed over.
-/

namespace FlightLink

/-- What a source does at one read: it offers bytes or it fails. No bytes mean its end. -/
inductive Read where
  /-- Bytes; if they do not fit the buffer, what is left is offered at the next read. -/
  | bytes (data : Bytes)
  /-- A fault. -/
  | fault (f : Fault)
  deriving DecidableEq, Repr

/-- The data cut into pieces of `size` bytes, the last of which may be shorter. Size zero counts
as one. -/
def pieces (size : Nat) (data : Bytes) : List Bytes :=
  if data = [] then []
  else data.take (max size 1) :: pieces size (data.drop (max size 1))
  termination_by data.length
  decreasing_by
    rename_i h
    have := List.length_pos_iff.2 h
    simp only [List.length_drop]
    omega

/-- Cutting loses nothing. -/
@[simp] theorem flatten_pieces (size : Nat) (data : Bytes) : (pieces size data).flatten = data := by
  fun_induction pieces size data with
  | case1 => rfl
  | case2 data _ ih => rw [List.flatten_cons, ih, List.take_append_drop]

/-- No piece is empty, and none is larger than the buffer. -/
theorem length_of_mem_pieces {size : Nat} {data piece : Bytes} (h : piece ∈ pieces size data) :
    0 < piece.length ∧ piece.length ≤ max size 1 := by
  fun_induction pieces size data with
  | case1 => simp at h
  | case2 data hne ih =>
    rcases List.mem_cons.1 h with rfl | h
    · have := List.length_pos_iff.2 hne
      rw [List.length_take]
      omega
    · exact ih h

/-- The pieces that a source delivers through a buffer of `size` bytes up to its end or its first
fault, and that fault. -/
def deliveries (size : Nat) : List Read → List Bytes × Option Fault
  | [] | .bytes [] :: _ => ([], none)
  | .fault f :: _ => ([], some f)
  | .bytes data :: reads =>
    let (rest, fault) := deliveries size reads
    (pieces size data ++ rest, fault)

namespace Receiver

/-- Receives one piece of a capture. The first frame that was given up in it is logged. -/
def takePiece (r : Receiver) (piece : Bytes) : Receiver × List Signal :=
  let (r, out) := r.feed piece
  (r, out ++ ((Signal.failure? out).map fun o => Signal.event (.frameSkipped o)).toList)

/-- Receives pieces in turn and gathers their signals. -/
def takePieces (r : Receiver) (ps : List Bytes) : Receiver × List Signal := gather takePiece r ps

/-- What is logged at the end of a capture of `total` bytes. -/
def closing (r : Receiver) (total : Nat) : List Signal :=
  (if r.isIdle then [] else [.event .endedInsideFrame]) ++ [.event (.captureRead total r.tally)]

/-- Reads a source to its end through a buffer of `size` bytes: the receiver after it, all signals
in order, and the number of bytes read or the fault that ended the run. -/
def readAll (r : Receiver) (size : Nat) (reads : List Read) :
    Receiver × List Signal × Except Fault Nat :=
  let (ps, fault) := deliveries size reads
  let (r, out) := r.takePieces ps
  match fault with
  | some f => (r, out, .error f)
  | none =>
    let total := ps.flatten.length
    (r, out ++ r.closing total, .ok total)

end Receiver

end FlightLink
