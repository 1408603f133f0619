import FlightLink.Proofs.MixedStreams
import Mathlib.Data.List.Forall2

/-!
# Where frames come from

Every frame that a session keeps stands in the bytes received, as it would be sent: nothing is
invented, put together from two attempts, given twice or out of order. So the frames kept can be
sent again, and are then received as they were.
-/

namespace FlightLink

/-- The bytes `w` are the wire form of `f`, of a long frame with some flag, and the payload is
within the limit of the receiver. -/
def Frame.SentAs (limit : Nat) (f : Frame) (w : Bytes) : Prop :=
  match f.version with
  | .v1 => f.code.toNat < 256 ∧ f.payload.length ≤ min Version.v1.maxPayload limit ∧
      encodeShort f.direction f.code.toUInt8 f.payload = .ok w
  | .v2 => f.payload.length ≤ min Version.v2.maxPayload limit ∧
      ∃ flag, encodeLong f.direction flag f.code f.payload = .ok w

/-- Frames stand in a stream, each as it is sent, in order and with gaps of any kind before, between
and after them. -/
inductive Carries (limit : Nat) : Bytes → List Frame → Prop
  | nil (gap : Bytes) : Carries limit gap []
  | cons {gap w rest : Bytes} {f : Frame} {frames : List Frame} (hsent : f.SentAs limit w)
      (hrest : Carries limit rest frames) : Carries limit (gap ++ w ++ rest) (f :: frames)

/-- The bytes received by a session: up to its first reset, between resets, and behind the last. -/
def streams : List Operation → List Bytes
  | [] => [[]]
  | .reset :: ops => [] :: streams ops
  | .decode data :: ops | .collect data :: ops => (streams ops).modifyHead (data ++ ·)
  | .watch _ :: ops | .unwatch :: ops => streams ops

/-- The frames that a scanner finds in a stream. -/
def framesIn (limit : Nat) (data : Bytes) : List Frame :=
  ((scan limit data).1.map (Item.verdict limit)).filterMap Verdict.frame?

/-- A stream may be longer in front than what carries the frames. -/
theorem Carries.append {limit : Nat} {data : Bytes} {frames : List Frame}
    (hcarries : Carries limit data frames) (front : Bytes) :
    Carries limit (front ++ data) frames := by
  cases hcarries with
  | nil => exact .nil (front ++ data)
  | @cons gap w rest f frames hsent hrest =>
    rw [List.append_assoc, ← List.append_assoc front, ← List.append_assoc]
    exact .cons hsent hrest

/-- A frame in a stream is one that was sent. -/
theorem Carries.exists_sentAs {limit : Nat} {data : Bytes} {frames : List Frame}
    (hcarries : Carries limit data frames) : ∀ f ∈ frames, ∃ w, f.SentAs limit w := by
  induction hcarries with
  | nil => simp
  | cons hsent _ ih =>
    intro f hf
    rcases List.mem_cons.mp hf with rfl | hf
    · exact ⟨_, hsent⟩
    · exact ih f hf

/-- A stretch that is a frame is the frame as it is sent. -/
theorem Stretch.sentAs {limit : Nat} {f : Frame} {w : Bytes}
    (hstretch : Stretch limit (.frame f) w) : f.SentAs limit w := by
  cases hstretch with
  | @short direction code payload w hwire hlimit =>
    obtain ⟨hmax, -⟩ := encodeShort_eq_ok_iff.mp hwire
    refine ⟨?_, Nat.le_min.mpr ⟨hmax, hlimit⟩, ?_⟩
    · rw [UInt8.toNat_toUInt16]
      exact code.toNat_lt
    · rwa [UInt8.toUInt8_toUInt16]
  | @long direction flag code payload w hwire hlimit =>
    obtain ⟨hmax, -⟩ := encodeLong_eq_ok_iff.mp hwire
    exact ⟨Nat.le_min.mpr ⟨hmax, hlimit⟩, flag, hwire⟩

/-- An item is taken for a frame only if it is the frame as it is sent. -/
theorem Item.sentAs_of_verdict {limit : Nat} {item : Item} {f : Frame} (hfits : item.Fits limit)
    (hverdict : item.verdict limit = .frame f) : f.SentAs limit item.toBytes := by
  have hstretch := Item.stretch hfits
  rw [hverdict] at hstretch
  exact hstretch.sentAs

/-- The frames that a scanner finds are carried by the stream. -/
theorem carries_framesIn (limit : Nat) (data : Bytes) :
    Carries limit data (framesIn limit data) := by
  obtain ⟨hfits, hdata⟩ := scan_sound limit data
  rw [framesIn]
  generalize (scan limit data).1 = items at hfits hdata
  generalize (scan limit data).2 = rest at hdata
  subst hdata
  induction items with
  | nil => exact .nil rest
  | cons item items ih =>
    have hcarries := ih (fun i hi => hfits i (by simp [hi]))
    rw [List.flatMap_cons, List.append_assoc, List.map_cons, List.filterMap_cons]
    cases hverdict : item.verdict limit with
    | frame f =>
      have hsent := Item.sentAs_of_verdict (hfits item (by simp)) hverdict
      rw [← List.nil_append (item.toBytes ++ _), ← List.append_assoc]
      exact .cons hsent hcarries
    | _ => exact hcarries.append item.toBytes

/-- The frames of a stream are those found in its front, and those found from what was left over. -/
theorem framesIn_append (limit : Nat) (front back : Bytes) :
    framesIn limit (front ++ back) =
      framesIn limit front ++ framesIn limit ((scan limit front).2 ++ back) := by
  rw [framesIn, framesIn, framesIn, scan_append, List.map_append, List.filterMap_append]

/-- No frame is found in part of an item. -/
theorem framesIn_of_hasPart {r : Receiver} {part : Bytes} (hr : r.HasPart part) :
    framesIn r.limit part = [] := by
  obtain ⟨room, hpart, -⟩ := hr.partway
  rw [framesIn, scan_of_none hpart.scanItem_eq_none]
  rfl

/-- A session has at least one stream, if only an empty one. -/
theorem exists_streams_eq_cons (ops : List Operation) :
    ∃ first others, streams ops = first :: others := by
  induction ops with
  | nil => exact ⟨[], [], rfl⟩
  | cons op ops ih =>
    obtain ⟨first, others, hstreams⟩ := ih
    cases op <;> simp [streams, hstreams]

/-- Collecting a chunk appends the frames found in the item begun and the chunk. -/
theorem kept_perform_collect {s : Session} {part : Bytes} (hs : s.receiver.HasPart part)
    (data : Bytes) :
    (s.perform (.collect data)).1.kept =
      s.kept ++ framesIn s.receiver.limit (part ++ data) := by
  obtain ⟨hframes, -⟩ := Receiver.signals_of_lessGrowth (hs.lessGrowth_feed data)
  rw [Session.perform_collect, hframes]
  rfl

/-- What a session keeps is what a scanner finds in its streams, the first of them begun with the
bytes of the item in progress. -/
theorem kept_performAll {s : Session} {part : Bytes} (hs : s.receiver.HasPart part)
    {ops : List Operation} (hops : ∀ op ∈ ops, op = .reset ∨ ∃ data, op = .collect data) :
    (s.performAll ops).1.kept =
      s.kept ++ ((streams ops).modifyHead (part ++ ·)).flatMap (framesIn s.receiver.limit) := by
  induction ops generalizing s part with
  | nil => simp [Session.performAll, streams, framesIn_of_hasPart hs]
  | cons op ops ih =>
    have hmore : ∀ o ∈ ops, o = .reset ∨ ∃ data, o = .collect data :=
      fun o ho => hops o (by simp [ho])
    obtain ⟨first, others, hstreams⟩ := exists_streams_eq_cons ops
    rw [Session.performAll_cons]
    rcases hops op (by simp) with rfl | ⟨data, rfl⟩
    · have hreset : (s.perform .reset).1.receiver.HasPart [] :=
        Receiver.AtRest.hasPart ⟨rfl, rfl⟩
      rw [ih hreset hmore, streams, hstreams]
      simp [Session.perform, Receiver.reset, framesIn_of_hasPart hs]
    · have hfeed : (s.perform (.collect data)).1.receiver.HasPart _ := hs.feed data
      have hlimit : (s.perform (.collect data)).1.receiver.limit = s.receiver.limit :=
        (hs.settings_feed data).1
      rw [ih hfeed hmore, kept_perform_collect hs, hlimit, streams, hstreams]
      simp only [List.modifyHead_cons, List.flatMap_cons, ← List.append_assoc]
      rw [framesIn_append _ (part ++ data), ← List.append_assoc]

/-! ### Sending frames again -/

/-- The wire form of a frame, where it has one. -/
def Frame.wire (f : Frame) : Bytes :=
  match f.encode with
  | .ok w => w
  | .error _ => []

/-- A frame that was sent can be sent again; of its flag nothing is known any more. -/
theorem Frame.SentAs.encode {limit : Nat} {f : Frame} {w : Bytes} (hsent : f.SentAs limit w) :
    f.encode = .ok f.wire ∧ f.payload.length ≤ limit := by
  obtain ⟨version, direction, code, payload⟩ := f
  cases version with
  | v1 =>
    obtain ⟨hcode, hlength, hwire⟩ := hsent
    have hencode : Frame.encode ⟨.v1, direction, code, payload⟩ = .ok w := by
      rw [Frame.encode]
      exact (if_pos hcode).trans hwire
    exact ⟨by rw [Frame.wire, hencode], (Nat.le_min.mp hlength).2⟩
  | v2 =>
    obtain ⟨hlength, -⟩ := hsent
    obtain ⟨hmax, hlimit⟩ := Nat.le_min.mp hlength
    have hencode : Frame.encode ⟨.v2, direction, code, payload⟩ = .ok _ :=
      encodeLong_eq_ok_iff.mpr ⟨hmax, rfl⟩
    exact ⟨by rw [Frame.wire, hencode], hlimit⟩

/-- The wire form of a frame is a stretch that is a frame. -/
theorem stretch_of_encode {limit : Nat} {f : Frame} {w : Bytes} (hencode : f.encode = .ok w)
    (hlimit : f.payload.length ≤ limit) : Stretch limit (.frame f) w := by
  obtain ⟨version, direction, code, payload⟩ := f
  cases version with
  | v1 =>
    simp only [Frame.encode] at hencode
    split at hencode
    · rename_i hcode
      have hword : code.toUInt8.toUInt16 = code := by
        apply UInt16.toNat_inj.mp
        rw [UInt16.toUInt16_toUInt8, UInt16.toNat_mod]
        exact Nat.mod_eq_of_lt hcode
      have hstretch : Stretch limit (.frame ⟨.v1, direction, code.toUInt8.toUInt16, payload⟩) w :=
        .short hencode hlimit
      rwa [hword] at hstretch
    · cases hencode
  | v2 => exact .long hencode hlimit

/-- Verdicts that are frames are just these. -/
theorem verdicts_of_frames (frames : List Frame) :
    (frames.map Verdict.frame).filterMap Verdict.frame? = frames ∧
      (frames.map Verdict.frame).filterMap Verdict.rejection? = [] ∧
      (frames.map Verdict.frame).findSome? Verdict.oversized? = none := by
  induction frames with
  | nil => exact ⟨rfl, rfl, rfl⟩
  | cons f frames ih =>
    obtain ⟨hframes, hrejections, hoversized⟩ := ih
    exact ⟨congrArg (f :: ·) hframes, hrejections, hoversized⟩

/-- Frames are counted as frames only. -/
theorem Tally.after_frames (t : Tally) (count : Nat) (frames : List Frame) :
    t.after count (frames.map Verdict.frame) =
      { t with bytes := t.bytes + count, frames := t.frames + frames.length } := by
  simp [Tally.after, List.countP_map, Function.comp_def]

/-- Frames that have wire forms are received from them as they were sent. -/
theorem feed_wires {r : Receiver} (hrest : r.AtRest) {frames : List Frame}
    (hframes : ∀ f ∈ frames, f.encode = .ok f.wire ∧ f.payload.length ≤ r.limit) :
    let data := frames.flatMap Frame.wire
    let after := r.feed data
    Signal.frames after.2 = frames ∧ Signal.failure? after.2 = none ∧
      Signal.notices after.2 = [] ∧ Signal.dropped after.2 = [] ∧ after.1.isIdle = true ∧
      after.1.tally =
        { r.tally with
          bytes := r.tally.bytes + data.length, frames := r.tally.frames + frames.length } := by
  intro data after
  let stretches := frames.map fun f => (Verdict.frame f, f.wire)
  have hstretches : ∀ p ∈ stretches, Stretch r.limit p.1 p.2 := by
    intro p hp
    obtain ⟨f, hf, rfl⟩ := List.mem_map.mp hp
    obtain ⟨hencode, hlimit⟩ := hframes f hf
    exact stretch_of_encode hencode hlimit
  have hdata : stretches.flatMap Prod.snd = data := List.flatMap_map ..
  have hverdicts : stretches.map Prod.fst = frames.map Verdict.frame := List.map_map
  obtain ⟨hout, hrest', htally⟩ := feed_stretches hrest hstretches
  rw [hdata, hverdicts] at hout htally
  rw [hdata] at hrest'
  obtain ⟨hall, hnotices, hdropped, hfailure⟩ := Receiver.signals_of_lessGrowth hout
  obtain ⟨hfs, hrejections, hoversized⟩ := verdicts_of_frames frames
  refine ⟨?_, ?_, ?_, ?_, hrest'.hasPart.isIdle_iff.mpr rfl, ?_⟩
  · exact hall.trans hfs
  · exact hfailure.trans hoversized
  · rw [hrejections, Receiver.noticesOf] at hnotices
    cases hobserver : r.observer <;> simpa [hobserver] using hnotices
  · rw [hrejections, Receiver.droppedOf, ite_self] at hdropped
    exact hdropped
  · rw [htally, Tally.after_frames]

/-- The frames that a new session keeps, over any chunks and resets, stand in the streams received
between resets, each as it is sent, in order and apart from each other. They have wire forms, and a
new receiver with the same settings that is fed these one after the other gives the same frames and
nothing else. Conversely, every frame with a wire form is given by some receiver. -/
theorem kept_carried_and_resent (s : ReceiverSettings) {ops : List Operation}
    (hops : ∀ op ∈ ops, op = .reset ∨ ∃ data, op = .collect data) :
    let kept := ((Session.ofSettings s).performAll ops).1.kept
    (∃ groups : List (List Frame), groups.flatten = kept ∧
      List.Forall₂ (Carries s.maxPayload) (streams ops) groups) ∧
    (∀ f ∈ kept, f.encode = .ok f.wire) ∧
    (∀ observer : Option Observer,
      let start : Receiver := { Receiver.ofSettings s with observer }
      let again := kept.flatMap Frame.wire
      let after := start.feed again
      Signal.frames after.2 = kept ∧ Signal.failure? after.2 = none ∧
        Signal.notices after.2 = [] ∧ Signal.dropped after.2 = [] ∧ after.1.isIdle = true ∧
        after.1.tally = { bytes := again.length, frames := kept.length }) ∧
    ∀ (f : Frame) (w : Bytes), f.encode = .ok w →
      ∃ (s : ReceiverSettings) (data : Bytes),
        Signal.frames ((Receiver.ofSettings s).feed data).2 = [f] := by
  intro kept
  have hstart : (Session.ofSettings s).receiver.HasPart [] := Receiver.AtRest.hasPart ⟨rfl, rfl⟩
  have hkept : kept = (streams ops).flatMap (framesIn s.maxPayload) := by
    obtain ⟨first, others, hstreams⟩ := exists_streams_eq_cons ops
    have hkept := kept_performAll hstart hops
    rw [hstreams] at hkept ⊢
    exact hkept
  have hsent : ∀ f ∈ kept, f.encode = .ok f.wire ∧ f.payload.length ≤ s.maxPayload := by
    intro f hf
    rw [hkept] at hf
    obtain ⟨stream, -, hf⟩ := List.mem_flatMap.mp hf
    obtain ⟨w, hw⟩ := (carries_framesIn s.maxPayload stream).exists_sentAs f hf
    exact hw.encode
  refine ⟨⟨(streams ops).map (framesIn s.maxPayload), ?_, ?_⟩, fun f hf => (hsent f hf).1, ?_, ?_⟩
  · rw [hkept, List.flatMap_def]
  · rw [List.forall₂_map_right_iff, List.forall₂_same]
    exact fun stream _ => carries_framesIn s.maxPayload stream
  · intro observer start again after
    obtain ⟨hframes, hfailure, hnotices, hdropped, hidle, htally⟩ :=
      feed_wires (r := start) ⟨rfl, rfl⟩ hsent
    have hnew : start.tally = {} := rfl
    rw [hnew] at htally
    simp only [Nat.zero_add] at htally
    exact ⟨hframes, hfailure, hnotices, hdropped, hidle, htally⟩
  · intro f w hencode
    let wide : ReceiverSettings := { maxPayload := f.payload.length }
    have hframe : ∀ g ∈ [f], g.encode = .ok g.wire ∧ g.payload.length ≤ wide.maxPayload := by
      intro g hg
      obtain rfl := List.mem_singleton.mp hg
      exact ⟨by rw [Frame.wire, hencode], Nat.le_refl _⟩
    obtain ⟨hframes, -⟩ := feed_wires (r := Receiver.ofSettings wide) ⟨rfl, rfl⟩ hframe
    exact ⟨wide, _, hframes⟩

/-- A frame cut by a chunk, one cut by a reset and one after it: the second is not kept. -/
theorem kept_carried_and_resent_cut :
    let ops : List Operation :=
      [.collect [0xFF, 0x24, 0x4D, 0x3C, 1], .collect [7, 0x24, 0x22, 0x24, 0x4D], .reset,
        .collect [0x3C, 0, 7, 7, 0x24, 0x4D, 0x21, 0, 9, 9]]
    let kept := ((Session.ofSettings {}).performAll ops).1.kept
    (∀ op ∈ ops, op = .reset ∨ ∃ data, op = .collect data) ∧
      kept = [⟨.v1, .request, 7, [0x24]⟩, ⟨.v1, .refusal, 9, []⟩] ∧
      ∃ groups : List (List Frame), groups.flatten = kept ∧
        List.Forall₂ (Carries 65535) (streams ops) groups := by
  intro ops kept
  have hops : ∀ op ∈ ops, op = .reset ∨ ∃ data, op = .collect data := by simp [ops]
  exact ⟨hops, by decide +kernel, (kept_carried_and_resent {} hops).1⟩

end FlightLink
