import FlightLink.Receiver.Lemmas
import FlightLink.Receiver.Session

/-!
# Streams in pieces

How a stream is cut into chunks makes no difference to a session: what it becomes, what it raises
and what it answers is put together from the chunks. Nothing is asked of the session, which may
stand anywhere in a frame, nor of the chunks, which may be empty.
-/

namespace FlightLink

/-- The frames appended, if the answer is about a chunk whose frames were kept. -/
def Answer.appended : Answer → List Frame
  | .collected frames _ => frames
  | _ => []

/-- The first frame given up, if the answer is about a chunk whose frames were kept. -/
def Answer.failure? : Answer → Option Oversized
  | .collected _ failure => failure
  | _ => none

namespace Session

/-- Collecting a stream is collecting its front and then the rest of it. -/
theorem perform_collect_append (s : Session) (front back : Bytes) :
    let first := s.perform (.collect front)
    let second := first.1.perform (.collect back)
    s.perform (.collect (front ++ back)) =
      (second.1,
        .collected (first.2.1.appended ++ second.2.1.appended)
          (first.2.1.failure?.or second.2.1.failure?),
        first.2.2 ++ second.2.2) := by
  simp only [perform_collect, Receiver.feed_append, Signal.frames_append, Signal.failure?_append,
    Answer.appended, Answer.failure?, List.append_assoc]

/-- Collecting a stream chunk by chunk leaves the session and raises the signals that collecting it
at once does; of the answers, the frames are those of all chunks in order, and the error is that of
the first chunk that has one. -/
theorem performAll_collect_chunks (s : Session) (chunks : List Bytes) :
    let pieced := s.performAll (chunks.map .collect)
    let whole := s.perform (.collect chunks.flatten)
    pieced.1 = whole.1 ∧ pieced.2.flatMap (fun answer => answer.2) = whole.2.2 ∧
      whole.2.1 = .collected (pieced.2.flatMap fun answer => answer.1.appended)
        (pieced.2.findSome? fun answer => answer.1.failure?) := by
  induction chunks generalizing s with
  | nil => simp [performAll, perform_collect, Signal.frames, Signal.failure?]
  | cons chunk chunks ih =>
    obtain ⟨hsession, hraised, hanswer⟩ := ih (s.perform (.collect chunk)).1
    simp only [List.map_cons, performAll_cons, List.flatten_cons, perform_collect_append]
    refine ⟨hsession, ?_, ?_⟩
    · rw [List.flatMap_cons, hraised]
    · rw [hanswer, List.flatMap_cons, List.findSome?_cons]
      cases (s.perform (.collect chunk)).2.1.failure? <;> rfl

/-- A frame that is cut in its payload, with an empty chunk between the parts, comes with the chunk
that completes it. -/
example :
    let chunks : List Bytes := [[0x24, 0x4D, 0x3C, 2, 7, 0xAA], [], [0xBB, 0x14, 0x24]]
    let pieced := (ofSettings {}).performAll (chunks.map .collect)
    pieced.2.map (fun answer => answer.1.appended) =
        [[], [], [⟨.v1, .request, 7, [0xAA, 0xBB]⟩]] ∧
      pieced.1 = ((ofSettings {}).perform (.collect chunks.flatten)).1 := by
  decide

end Session

end FlightLink
