import FlightLink.Receiver.Step

/-!
# Sessions

A session is one receiver with the operations that its user performs on it, among them two ways to
decode: `decode` gives the frames of a chunk only if none of them was given up, and `collect`
appends them to a list that the session keeps. Every state of a receiver that matters is reached
from `Receiver.ofSettings` by a list of operations.
-/

namespace FlightLink

/-- What a user does with a receiver. -/
inductive Operation where
  /-- Decode a chunk, all or nothing. -/
  | decode (data : Bytes)
  /-- Decode a chunk and append its frames to those kept. -/
  | collect (data : Bytes)
  /-- Drop the frame in progress. -/
  | reset
  /-- Install an observer. -/
  | watch (o : Observer)
  /-- Take the observer away. -/
  | unwatch
  deriving DecidableEq, Repr

/-- What an operation answers. -/
inductive Answer where
  /-- The frames of a chunk, or the first that was given up. -/
  | decoded (result : Except Oversized (List Frame))
  /-- The frames appended, and the first that was given up. -/
  | collected (frames : List Frame) (failure : Option Oversized)
  /-- Done. -/
  | done
  /-- The observer that was installed. -/
  | observer (o : Option Observer)

/-- A receiver and the frames kept by `Operation.collect`. -/
structure Session where
  /-- The receiver. -/
  receiver : Receiver
  /-- The frames kept, in the order of their arrival. -/
  kept : List Frame
  deriving DecidableEq, Repr

namespace Session

/-- A session that has received nothing. -/
def ofSettings (s : ReceiverSettings) : Session := ⟨.ofSettings s, []⟩

/-- Performs one operation: the session after it, its answer and the signals raised. -/
def perform (s : Session) : Operation → Session × Answer × List Signal
  | .decode data =>
    let (r, out, result) := s.receiver.decode data
    ({ s with receiver := r }, .decoded result, out)
  | .collect data =>
    let (r, out) := s.receiver.feed data
    (⟨r, s.kept ++ Signal.frames out⟩, .collected (Signal.frames out) (Signal.failure? out), out)
  | .reset => ({ s with receiver := s.receiver.reset }, .done, [])
  | .watch o => ({ s with receiver := s.receiver.watch o }, .done, [])
  | .unwatch =>
    ({ s with receiver := s.receiver.unwatch }, .observer s.receiver.observer, [])

/-- Performs operations in turn: the session after them, and the answer and signals of each. -/
def performAll (s : Session) : List Operation → Session × List (Answer × List Signal)
  | [] => (s, [])
  | op :: ops =>
    let (s, answer, out) := s.perform op
    let (s, answers) := s.performAll ops
    (s, (answer, out) :: answers)

/-- Collecting a chunk, in terms of feeding it. -/
theorem perform_collect (s : Session) (data : Bytes) :
    s.perform (.collect data) =
      (⟨(s.receiver.feed data).1, s.kept ++ Signal.frames (s.receiver.feed data).2⟩,
        .collected (Signal.frames (s.receiver.feed data).2)
          (Signal.failure? (s.receiver.feed data).2),
        (s.receiver.feed data).2) := rfl

/-- The first operation is performed, and then the others on the session that it leaves. -/
theorem performAll_cons (s : Session) (op : Operation) (ops : List Operation) :
    s.performAll (op :: ops) =
      (((s.perform op).1.performAll ops).1,
        (s.perform op).2 :: ((s.perform op).1.performAll ops).2) := rfl

end Session

end FlightLink
