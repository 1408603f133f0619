import FlightLink.Proofs.Stamps
import Mathlib.Data.List.Basic

/-!
# Writing to a sink with little room

A sink that takes a byte at least at each write takes of any data what it has room for, in however
many writes, and fails if that is not all. So it does not matter in which pieces data is offered,
and records written in turn, also after a failure, leave the front of their lines in the sink. A
record is counted if its line break is there.
-/

namespace FlightLink

namespace Sink

variable {s : Sink}

/-- The part of the data that there is room for. -/
def fitting (s : Sink) (data : Bytes) : Bytes :=
  match s.room with
  | none => data
  | some room => data.take room

/-- Writes pieces of data in turn, up to the first that fails. -/
def writePieces (s : Sink) : List Bytes → Sink × Except Fault Unit
  | [] => (s, .ok ())
  | piece :: pieces =>
    match s.writeAll piece with
    | (s, .error fault) => (s, .error fault)
    | (s, .ok ()) => s.writePieces pieces

/-! ### Taking bytes -/

/-- Taking bytes leaves the most that one write takes as it is. -/
@[simp] theorem perWrite_take (s : Sink) (part : Bytes) : (s.take part).perWrite = s.perWrite := rfl

/-- Taking bytes leaves the fault that awaits a full sink as it is. -/
@[simp] theorem fault_take (s : Sink) (part : Bytes) : (s.take part).fault = s.fault := rfl

/-- Taking bytes leaves what flushing comes to as it is. -/
@[simp] theorem flush_take (s : Sink) (part : Bytes) : (s.take part).flush = s.flush := rfl

/-- Bytes that are taken leave so much less room. -/
theorem room_take (s : Sink) (part : Bytes) :
    (s.take part).room = s.room.map (· - part.length) := rfl

/-- Bytes that are taken stand behind those taken before. -/
theorem toList_taken_take (s : Sink) (part : Bytes) :
    (s.take part).taken.toList = s.taken.toList ++ part := by
  simp [take]

/-- To take no bytes changes nothing. -/
theorem take_nil (s : Sink) : s.take [] = s := by
  obtain ⟨perWrite, room, fault, flushFault, taken⟩ := s
  cases room <;> rfl

/-- Two parts can be taken at once or one after the other. -/
theorem take_append (s : Sink) (front back : Bytes) :
    s.take (front ++ back) = (s.take front).take back := by
  obtain ⟨perWrite, room, fault, flushFault, taken⟩ := s
  have hroom : room.map (· - (front ++ back).length) =
      (room.map (· - front.length)).map (· - back.length) := by
    cases room with
    | none => rfl
    | some room =>
      rw [Option.map_some, Option.map_some, Option.map_some, List.length_append, Nat.sub_add_eq]
  simp only [take, hroom, List.foldl_append]

/-! ### What fits -/

/-- Without a bound everything fits. -/
theorem fitting_of_unlimited (hroom : s.room = none) (data : Bytes) : s.fitting data = data := by
  rw [fitting, hroom]

/-- What fits is as long a front as there is room for. -/
theorem fitting_of_room {room : Nat} (hroom : s.room = some room) (data : Bytes) :
    s.fitting data = data.take room := by
  rw [fitting, hroom]

/-- Of no data nothing is left out. -/
@[simp] theorem fitting_nil (s : Sink) : s.fitting [] = [] := by
  cases hroom : s.room with
  | none => rw [fitting_of_unlimited hroom]
  | some room => rw [fitting_of_room hroom, List.take_nil]

/-- The second of two parts is given the room that the first leaves. -/
theorem fitting_append (s : Sink) (front back : Bytes) :
    s.fitting (front ++ back) =
      s.fitting front ++ (s.take (s.fitting front)).fitting back := by
  cases hroom : s.room with
  | none =>
    have hleft : (s.take front).room = none := by rw [room_take, hroom, Option.map_none]
    rw [fitting_of_unlimited hroom, fitting_of_unlimited hroom, fitting_of_unlimited hleft]
  | some room =>
    have hleft : (s.take (front.take room)).room = some (room - front.length) := by
      rw [room_take, hroom, List.length_take, Option.map_some]
      exact congrArg some (by omega)
    rw [fitting_of_room hroom, fitting_of_room hroom, fitting_of_room hleft, List.take_append]

/-- Behind data that does not fit there is no room. -/
theorem fitting_append_of_ne {front : Bytes} (hfront : s.fitting front ≠ front) (back : Bytes) :
    s.fitting (front ++ back) = s.fitting front := by
  cases hroom : s.room with
  | none => exact absurd (fitting_of_unlimited hroom front) hfront
  | some room =>
    rw [fitting_of_room hroom] at hfront ⊢
    have hfew : room ≤ front.length :=
      Nat.le_of_not_le fun hmany => hfront (List.take_of_length_le hmany)
    rw [fitting_of_room hroom, List.take_append_of_le_length hfew]

/-- All of the data fits just if there is room for its length. -/
theorem fitting_eq_self_iff {room : Nat} (hroom : s.room = some room) (data : Bytes) :
    s.fitting data = data ↔ data.length ≤ room := by
  rw [fitting_of_room hroom]
  refine ⟨fun hall => ?_, List.take_of_length_le⟩
  rw [← hall]
  exact List.length_take_le _ _

/-- Two parts fit if the first does, and the second in the room that it leaves. -/
theorem fitting_append_eq_self_iff (s : Sink) (front back : Bytes) :
    s.fitting (front ++ back) = front ++ back ↔
      s.fitting front = front ∧ (s.take front).fitting back = back := by
  cases hroom : s.room with
  | none =>
    have hleft : (s.take front).room = none := by rw [room_take, hroom, Option.map_none]
    simp only [fitting_of_unlimited hroom, fitting_of_unlimited hleft, and_self]
  | some room =>
    have hleft : (s.take front).room = some (room - front.length) := by
      rw [room_take, hroom, Option.map_some]
    rw [fitting_eq_self_iff hroom, fitting_eq_self_iff hroom, fitting_eq_self_iff hleft,
      List.length_append]
    omega

/-- Some data fits behind what was offered before if all of it together fits. -/
theorem fitting_behind_eq_self_iff (s : Sink) (front : Bytes) {back : Bytes} (hback : back ≠ []) :
    (s.take (s.fitting front)).fitting back = back ↔
      s.fitting (front ++ back) = front ++ back := by
  rw [fitting_append_eq_self_iff]
  by_cases hfront : s.fitting front = front
  · rw [hfront, eq_self, true_and]
  · have hnone : (s.take (s.fitting front)).fitting back = [] := by
      have happend := s.fitting_append front back
      rw [fitting_append_of_ne hfront] at happend
      exact List.self_eq_append_right.mp happend
    rw [hnone]
    exact ⟨fun h => absurd h.symm hback, fun h => absurd h.1 hfront⟩

/-! ### Writing -/

/-- A share is no larger than the room. -/
theorem le_room_of_share?_eq_some {n room : Nat} (hshare : s.share? = some n)
    (hroom : s.room = some room) : n ≤ room := by
  cases hmost : s.perWrite with
  | none =>
    rw [share?, hmost, hroom] at hshare
    exact Nat.le_of_eq (Option.some.inj hshare).symm
  | some most =>
    rw [share?, hmost, hroom] at hshare
    rw [← Option.some.inj hshare]
    exact Nat.min_le_right most room

/-- Without a share there is no limit. -/
theorem room_of_share?_eq_none (hshare : s.share? = none) : s.room = none := by
  cases hroom : s.room with
  | none => rfl
  | some room => cases hmost : s.perWrite <;> rw [share?, hmost, hroom] at hshare <;> cases hshare

/-- A sink that takes a byte at least at each write has no share only if it has no room. -/
theorem room_of_share?_eq_zero (hwrite : s.perWrite ≠ some 0) (hshare : s.share? = some 0) :
    s.room = some 0 := by
  cases hmost : s.perWrite with
  | none => rwa [share?, hmost] at hshare
  | some most =>
    have hpos : most ≠ 0 := fun hzero => hwrite (hzero ▸ hmost)
    cases hroom : s.room with
    | none =>
      rw [share?, hmost, hroom] at hshare
      exact absurd (Option.some.inj hshare) hpos
    | some room =>
      rw [share?, hmost, hroom] at hshare
      have hmin := Option.some.inj hshare
      exact congrArg some (by omega)

/-- A sink that takes a byte at least at each write takes what fits, and fails if that is not
all. -/
theorem writeAll_eq (hwrite : s.perWrite ≠ some 0) (data : Bytes) :
    s.writeAll data =
      (s.take (s.fitting data),
        if s.fitting data = data then .ok () else .error (s.fault.getD .writeZero)) := by
  fun_induction s.writeAll data with
  | case1 s => rw [fitting_nil, take_nil, if_pos rfl]
  | case2 s data hdata hshare =>
    rw [fitting_of_unlimited (room_of_share?_eq_none hshare), if_pos rfl]
  | case3 s data hdata hshare =>
    rw [fitting_of_room (room_of_share?_eq_zero hwrite hshare), List.take_zero, take_nil,
      if_neg (Ne.symm hdata)]
  | case4 s data hdata n hshare ih =>
    have hchunk : s.fitting (data.take (n + 1)) = data.take (n + 1) := by
      cases hroom : s.room with
      | none => exact fitting_of_unlimited hroom _
      | some room =>
        rw [fitting_eq_self_iff hroom]
        exact Nat.le_trans (List.length_take_le _ _) (le_room_of_share?_eq_some hshare hroom)
    have hfitting := s.fitting_append (data.take (n + 1)) (data.drop (n + 1))
    have hall := s.fitting_append_eq_self_iff (data.take (n + 1)) (data.drop (n + 1))
    rw [hchunk, List.take_append_drop] at hfitting
    rw [hchunk, List.take_append_drop, eq_self, true_and] at hall
    rw [ih hwrite, hfitting, take_append, ← hfitting]
    simp only [hall, fault_take]

/-- What is offered in two parts is taken as at once. -/
theorem writeAll_append (hwrite : s.perWrite ≠ some 0) (front back : Bytes) :
    s.writeAll (front ++ back) =
      match s.writeAll front with
      | (s, .error fault) => (s, .error fault)
      | (s, .ok ()) => s.writeAll back := by
  have hall := s.fitting_append_eq_self_iff front back
  rw [writeAll_eq hwrite, writeAll_eq hwrite]
  by_cases hfront : s.fitting front = front
  · have hback := writeAll_eq (s := s.take front) hwrite back
    rw [hfront, eq_self, true_and] at hall
    simp only [fitting_append, hfront, if_true, hback, take_append, fault_take,
      List.append_cancel_left_eq]
  · have hpart : ¬ s.fitting (front ++ back) = front ++ back := fun h => hfront (hall.mp h).1
    rw [if_neg hpart, if_neg hfront, fitting_append_of_ne hfront]

/-- It does not matter in which pieces data is offered. -/
theorem writePieces_eq (hwrite : s.perWrite ≠ some 0) (pieces : List Bytes) :
    s.writePieces pieces = s.writeAll pieces.flatten := by
  induction pieces generalizing s with
  | nil => rw [writePieces, List.flatten_nil, writeAll, if_pos rfl]
  | cons piece pieces ih =>
    rw [writePieces, List.flatten_cons, writeAll_append hwrite, writeAll_eq hwrite]
    by_cases hpiece : s.fitting piece = piece
    · simp only [if_pos hpiece]
      exact ih hwrite
    · simp only [if_neg hpiece]

end Sink

/-! ### Writing records -/

namespace RecordWriter

/-- Writes records in turn, each with its own time and also after a failure: the writer after them,
and for each the number of records then written and the outcome. -/
def writeStamped (w : RecordWriter) (records : List StampedFrame) :
    RecordWriter × List (Nat × Except Fault Unit) :=
  gather (fun w r => w.count r.stamp.text r.frame) w records

/-- The first record is written, and then the others to the sink that it leaves. -/
theorem writeStamped_cons (w : RecordWriter) (r : StampedFrame) (records : List StampedFrame) :
    w.writeStamped (r :: records) =
      (((w.write r.stamp.text r.frame).1.writeStamped records).1,
        ((w.write r.stamp.text r.frame).1.records, (w.write r.stamp.text r.frame).2) ::
          ((w.write r.stamp.text r.frame).1.writeStamped records).2) := by
  rw [writeStamped, gather_cons]
  rfl

/-- Records that all have one time are records written in turn. -/
theorem writeAll_eq_writeStamped (w : RecordWriter) (stamp : Stamp) (frames : List Frame) :
    w.writeAll stamp.text frames = w.writeStamped (frames.map (StampedFrame.mk stamp)) := by
  induction frames generalizing w with
  | nil => rfl
  | cons f frames ih => rw [writeAll_cons, List.map_cons, writeStamped_cons, ih]

variable {w : RecordWriter}

/-- A record and its line break are offered as one line. -/
theorem write_eq_writeAll (hwrite : w.sink.perWrite ≠ some 0) (r : StampedFrame) :
    w.write r.stamp.text r.frame =
      match w.sink.writeAll r.line with
      | (sink, .error fault) => (⟨sink, w.records⟩, .error fault)
      | (sink, .ok ()) => (⟨sink, w.records + 1⟩, .ok ()) := by
  rw [r.line_eq, Sink.writeAll_append hwrite, write, StampedFrame.recordBytes]
  rcases w.sink.writeAll (r.frame.recordBytes r.stamp.text) with ⟨sink, _ | _⟩
  · rfl
  · rfl

/-- What fits of a line has a line break if it is all of it. -/
theorem count_fitting_line (s : Sink) (r : StampedFrame) :
    (s.fitting r.line).count 10 = if s.fitting r.line = r.line then 1 else 0 := by
  have hbreak : recordBreak.length = 1 := rfl
  by_cases hall : s.fitting r.line = r.line
  · rw [if_pos hall, hall, r.count_line]
  · rw [if_neg hall]
    cases hroom : s.room with
    | none => exact absurd (Sink.fitting_of_unlimited hroom _) hall
    | some room =>
      -- The line break is the last byte, so it does not fit.
      rw [Sink.fitting_eq_self_iff hroom, r.line_eq, List.length_append] at hall
      rw [Sink.fitting_of_room hroom, r.line_eq, List.take_append_of_le_length (by omega),
        List.count_eq_zero]
      exact fun hmem => r.lineBreak_notMem (List.mem_of_mem_take hmem)

/-- A write leaves what fits of the line in the sink, and counts the record if its line break is
there. -/
theorem write_fst (hwrite : w.sink.perWrite ≠ some 0) (r : StampedFrame) :
    (w.write r.stamp.text r.frame).1 =
      ⟨w.sink.take (w.sink.fitting r.line), w.records + (w.sink.fitting r.line).count 10⟩ := by
  rw [write_eq_writeAll hwrite, Sink.writeAll_eq hwrite, count_fitting_line]
  by_cases hline : w.sink.fitting r.line = r.line
  · rw [if_pos hline, if_pos hline]
  · rw [if_neg hline, if_neg hline]
    rfl

/-- A write succeeds if the line fits. -/
theorem write_snd (hwrite : w.sink.perWrite ≠ some 0) (r : StampedFrame) :
    (w.write r.stamp.text r.frame).2 =
      if w.sink.fitting r.line = r.line then .ok ()
      else .error (w.sink.fault.getD .writeZero) := by
  rw [write_eq_writeAll hwrite, Sink.writeAll_eq hwrite]
  by_cases hline : w.sink.fitting r.line = r.line
  · rw [if_pos hline]
  · rw [if_neg hline]

/-- A run leaves what fits of its lines in the sink, and counts the records whose line breaks are
there. -/
theorem writeStamped_fst (hwrite : w.sink.perWrite ≠ some 0) (records : List StampedFrame) :
    (w.writeStamped records).1 =
      ⟨w.sink.take (w.sink.fitting (records.flatMap StampedFrame.line)),
        w.records + (w.sink.fitting (records.flatMap StampedFrame.line)).count 10⟩ := by
  induction records generalizing w with
  | nil =>
    rw [List.flatMap_nil, Sink.fitting_nil, Sink.take_nil]
    rfl
  | cons r records ih =>
    have hrest := ih (w := ⟨w.sink.take (w.sink.fitting r.line),
      w.records + (w.sink.fitting r.line).count 10⟩) hwrite
    rw [writeStamped_cons, write_fst hwrite, hrest, List.flatMap_cons, Sink.fitting_append,
      Sink.take_append, List.count_append, Nat.add_assoc]

/-- A write behind a run succeeds if all lines fit, also those whose writes failed. -/
theorem write_snd_behind (hwrite : w.sink.perWrite ≠ some 0) (records : List StampedFrame)
    (r : StampedFrame) :
    ((w.writeStamped records).1.write r.stamp.text r.frame).2 =
      if w.sink.fitting ((records ++ [r]).flatMap StampedFrame.line) =
          (records ++ [r]).flatMap StampedFrame.line then .ok ()
      else .error (w.sink.fault.getD .writeZero) := by
  have hline : r.line ≠ [] := by
    rw [r.line_eq]
    exact List.append_ne_nil_of_right_ne_nil _ (by decide)
  rw [writeStamped_fst hwrite, write_snd (w := ⟨w.sink.take _, _⟩) hwrite, List.flatMap_append,
    List.flatMap_singleton]
  simp only [Sink.fitting_behind_eq_self_iff _ _ hline, Sink.fault_take]

/-- Each answer is that of a write behind the records before. -/
theorem getElem?_writeStamped (w : RecordWriter) (records : List StampedFrame) (i : Nat) :
    (w.writeStamped records).2[i]? = records[i]?.map fun r =>
      ((w.writeStamped (records.take (i + 1))).1.records,
        ((w.writeStamped (records.take i)).1.write r.stamp.text r.frame).2) := by
  induction records generalizing w i with
  | nil => rfl
  | cons r records ih =>
    rw [writeStamped_cons]
    cases i with
    | zero => rfl
    | succ i =>
      rw [List.getElem?_cons_succ, List.getElem?_cons_succ, ih, List.take_succ_cons,
        List.take_succ_cons]
      simp only [writeStamped_cons]

/-- Each answer is up to what fits of the lines so far. -/
theorem getElem?_writeStamped_eq (hwrite : w.sink.perWrite ≠ some 0)
    (records : List StampedFrame) (i : Nat) :
    (w.writeStamped records).2[i]? = records[i]?.map fun _ =>
      (w.records + (w.sink.fitting ((records.take (i + 1)).flatMap StampedFrame.line)).count 10,
        if w.sink.fitting ((records.take (i + 1)).flatMap StampedFrame.line) =
            (records.take (i + 1)).flatMap StampedFrame.line then .ok ()
        else .error (w.sink.fault.getD .writeZero)) := by
  rw [getElem?_writeStamped]
  cases hr : records[i]? with
  | none => rfl
  | some r =>
    have htake : records.take (i + 1) = records.take i ++ [r] := by
      rw [List.take_add_one, hr, Option.toList_some]
    rw [Option.map_some, Option.map_some, write_snd_behind hwrite, ← htake,
      writeStamped_fst hwrite]

/-- There is one outcome for each record, also behind a failure. -/
theorem length_writeStamped (w : RecordWriter) (records : List StampedFrame) :
    (w.writeStamped records).2.length = records.length := by
  induction records generalizing w with
  | nil => rfl
  | cons r records ih => rw [writeStamped_cons, List.length_cons, List.length_cons, ih]

/-- A run over the first records has the first outcomes. -/
theorem writeStamped_take (w : RecordWriter) (records : List StampedFrame) (n : Nat) :
    (w.writeStamped (records.take n)).2 = (w.writeStamped records).2.take n := by
  induction records generalizing w n with
  | nil =>
    rw [List.take_nil]
    exact List.take_nil.symm
  | cons r records ih =>
    cases n with
    | zero => rfl
    | succ n =>
      rw [List.take_succ_cons, writeStamped_cons, writeStamped_cons, List.take_succ_cons, ih]

/-- A record is counted if its write succeeds. -/
theorem records_write (w : RecordWriter) (stamp : String) (f : Frame) :
    (w.write stamp f).1.records = w.records + if (w.write stamp f).2.isOk then 1 else 0 := by
  obtain ⟨sink, records⟩ := w
  rcases hrecord : sink.writeAll (f.recordBytes stamp) with ⟨front, _ | _⟩
  · simp only [write, hrecord]
    rfl
  · rcases hbreak : front.writeAll recordBreak with ⟨line, _ | _⟩
    · simp only [write, hrecord, hbreak]
      rfl
    · simp only [write, hrecord, hbreak]
      rfl

/-- As many records are counted as writes succeed. -/
theorem records_writeStamped (w : RecordWriter) (records : List StampedFrame) :
    (w.writeStamped records).1.records =
      w.records + (w.writeStamped records).2.countP fun answer => answer.2.isOk := by
  induction records generalizing w with
  | nil => rfl
  | cons r records ih =>
    rw [writeStamped_cons, ih, records_write, List.countP_cons]
    simp only
    omega

/-- The number in each answer is that of the writes that have succeeded so far. -/
theorem records_of_getElem? {records : List StampedFrame} {i : Nat}
    {answer : Nat × Except Fault Unit} (hanswer : (w.writeStamped records).2[i]? = some answer) :
    answer.1 = w.records +
      ((w.writeStamped records).2.take (i + 1)).countP fun answer => answer.2.isOk := by
  rw [← writeStamped_take]
  rw [getElem?_writeStamped, Option.map_eq_some_iff] at hanswer
  obtain ⟨r, -, rfl⟩ := hanswer
  exact w.records_writeStamped (records.take (i + 1))

end RecordWriter

/-- A new sink that takes `limit` bytes in all, a byte at least at each write, and then fails: a
write that is only interrupted would be tried again. -/
structure Sink.IsBounded (s : Sink) (limit : Nat) : Prop where
  /-- A write may have some size. -/
  perWrite : s.perWrite ≠ some 0
  /-- There is room for so many bytes. -/
  room : s.room = some limit
  /-- Failure is for good. -/
  fault : ∀ fault, s.fault = some fault → fault.kind ≠ .interrupted
  /-- No byte was taken. -/
  taken : s.taken = #[]

namespace Sink.IsBounded

variable {s : Sink} {limit : Nat}

/-- What a run leaves in the sink. -/
theorem taken_writeStamped (hs : s.IsBounded limit) (records : List StampedFrame) :
    ((RecordWriter.mk s 0).writeStamped records).1.sink.taken.toList =
      (records.flatMap StampedFrame.line).take limit := by
  rw [RecordWriter.writeStamped_fst hs.perWrite, toList_taken_take, fitting_of_room hs.room,
    hs.taken]
  rfl

/-- What a run counts. -/
theorem records_writeStamped (hs : s.IsBounded limit) (records : List StampedFrame) :
    ((RecordWriter.mk s 0).writeStamped records).1.records =
      ((records.flatMap StampedFrame.line).take limit).count 10 := by
  rw [RecordWriter.writeStamped_fst hs.perWrite, fitting_of_room hs.room]
  exact Nat.zero_add _

/-- What a run answers is up to the lines and the room. -/
theorem getElem?_writeStamped (hs : s.IsBounded limit) (records : List StampedFrame) (i : Nat) :
    ((RecordWriter.mk s 0).writeStamped records).2[i]? =
      records[i]?.map fun _ =>
        ((((records.take (i + 1)).flatMap StampedFrame.line).take limit).count 10,
          if ((records.take (i + 1)).flatMap StampedFrame.line).length ≤ limit then .ok ()
          else .error (s.fault.getD .writeZero)) := by
  rw [RecordWriter.getElem?_writeStamped_eq hs.perWrite]
  simp only [fitting_eq_self_iff hs.room]
  simp only [fitting_of_room hs.room, Nat.zero_add]

/-- How much a sink takes at one write does not matter, and neither does its flush. -/
theorem writeStamped_congr {s' : Sink} (hs : s.IsBounded limit) (hs' : s'.IsBounded limit)
    (hfault : s'.fault = s.fault) (records : List StampedFrame) :
    ((RecordWriter.mk s' 0).writeStamped records).2 =
        ((RecordWriter.mk s 0).writeStamped records).2 ∧
      ((RecordWriter.mk s' 0).writeStamped records).1.sink.taken =
        ((RecordWriter.mk s 0).writeStamped records).1.sink.taken ∧
      ((RecordWriter.mk s' 0).writeStamped records).1.records =
        ((RecordWriter.mk s 0).writeStamped records).1.records := by
  refine ⟨List.ext_getElem? fun i => ?_, ?_, ?_⟩
  · rw [hs.getElem?_writeStamped, hs'.getElem?_writeStamped, hfault]
  · rw [← Array.toList_inj, hs'.taken_writeStamped, hs.taken_writeStamped]
  · rw [hs'.records_writeStamped, hs.records_writeStamped]

end Sink.IsBounded

/-- Records are written in turn to a sink that takes at most `limit` bytes, also after failures, and
each record in any pieces. The sink is left with the front of all lines, as many bytes of it as
there is room for. A write succeeds if there is room for its line and all before it, and else
fails with the fault of the sink. As many records are counted at any time as writes have succeeded,
and in the end as many as there are line breaks in the sink. How much is taken at one write does not
matter, nor whether a flush fails. -/
theorem records_on_bounded_sink {sink : Sink} {limit : Nat} (hsink : sink.IsBounded limit)
    (records : List StampedFrame) :
    let start : RecordWriter := { sink }
    let run := start.writeStamped records
    let output := run.1.sink.taken.toList
    let lines := records.map StampedFrame.blankLine
    output = (records.flatMap StampedFrame.line).take limit ∧
      blankTimes output = lines.flatten.take (min limit lines.flatten.length) ∧
      run.2.length = records.length ∧
      (∀ i answer, run.2[i]? = some answer →
        answer.2 = (if (lines.take (i + 1)).flatten.length ≤ limit then .ok ()
          else .error (sink.fault.getD .writeZero)) ∧
        answer.1 = (run.2.take (i + 1)).countP fun a => a.2.isOk) ∧
      run.1.records = (run.2.countP fun a => a.2.isOk) ∧
      run.1.records = output.count 10 ∧
      run.1.sink.flush = sink.flush ∧
      (∀ n pieces, let before := (start.writeStamped (records.take n)).1.sink
        before.writePieces pieces = before.writeAll pieces.flatten) ∧
      ∀ sink' : Sink, sink'.IsBounded limit → sink'.fault = sink.fault →
        let run' := (RecordWriter.mk sink' 0).writeStamped records
        run'.2 = run.2 ∧ run'.1.sink.taken = run.1.sink.taken ∧
          run'.1.records = run.1.records := by
  intro start run output lines
  have houtput : output = (records.flatMap StampedFrame.line).take limit :=
    hsink.taken_writeStamped records
  have hlines : lines.flatten = records.flatMap StampedFrame.blankLine := List.flatMap_def.symm
  have hcount : run.1.records = output.count 10 := by
    rw [houtput]
    exact hsink.records_writeStamped records
  have hrun := RecordWriter.writeStamped_fst (w := start) hsink.perWrite
  refine ⟨houtput, ?_, start.length_writeStamped records, fun i answer hanswer => ⟨?_, ?_⟩,
    (start.records_writeStamped records).trans (Nat.zero_add _), hcount, ?_, ?_, ?_⟩
  · rw [houtput, blankTimes, blankFrom_take, hlines, ← List.take_eq_take_min]
    exact congrArg (List.take limit) (blankTimes_flatMap_line records)
  · have hlength : ((records.take (i + 1)).flatMap StampedFrame.line).length =
        (lines.take (i + 1)).flatten.length := by
      rw [length_flatMap_line, List.flatMap_def, List.map_take]
    rw [hsink.getElem?_writeStamped, hlength, Option.map_eq_some_iff] at hanswer
    obtain ⟨r, -, rfl⟩ := hanswer
    rfl
  · exact (RecordWriter.records_of_getElem? hanswer).trans (Nat.zero_add _)
  · rw [hrun, Sink.flush_take]
  · intro n pieces before
    have hwrite : before.perWrite ≠ some 0 := by
      simp only [before, hrun, Sink.perWrite_take]
      exact hsink.perWrite
    exact Sink.writePieces_eq hwrite pieces
  · intro sink' hsink' hfault run'
    exact hsink.writeStamped_congr hsink' hfault records

/-- The first line fits, and of the second all but its line break. So only the first is counted, the
sink fails from then on, and nothing is left of the third. -/
theorem records_on_bounded_sink_without_last_break :
    let records : List StampedFrame :=
      [⟨⟨"2024-05-06T07:08:09.123Z", by decide⟩, ⟨.v1, .request, 1, []⟩⟩,
        ⟨⟨"2024-05-06T07:08:09.124Z", by decide⟩, ⟨.v2, .refusal, 0x1234, [0xAB]⟩⟩,
        ⟨⟨"2024-05-06T07:08:10.005Z", by decide⟩, ⟨.v1, .request, 1, []⟩⟩]
    let gone : Fault := ⟨.brokenPipe, "pipe closed"⟩
    let sink : Sink :=
      { perWrite := some 7, room := some 218, fault := some gone, flushFault := some gone }
    let roomy : Sink := { room := some 218, fault := some gone }
    let run := (RecordWriter.mk sink 0).writeStamped records
    sink.IsBounded 218 ∧ roomy.IsBounded 218 ∧
      (records.map StampedFrame.blankLine).map List.length = [107, 112, 107] ∧
      run.2.map Prod.snd = [.ok (), .error gone, .error gone] ∧
      run.1.records = 1 ∧ run.1.sink.taken.size = 218 ∧ run.1.sink.taken.toList.count 10 = 1 ∧
      run.1.sink.flush = .error gone ∧
      ((RecordWriter.mk roomy 0).writeStamped records).2 = run.2 := by
  intro records gone sink roomy run
  have hsink : sink.IsBounded 218 := ⟨by decide, rfl, by rintro fault ⟨⟩; decide, rfl⟩
  have hroomy : roomy.IsBounded 218 := ⟨by decide, rfl, by rintro fault ⟨⟩; decide, rfl⟩
  have hlines : (records.map StampedFrame.blankLine).map List.length = [107, 112, 107] := by
    simp only [records, List.map_cons, List.map_nil, StampedFrame.blankLine, Frame.line_eq]
    decide +kernel
  have hsum : ∀ n, ((records.map StampedFrame.blankLine).take n).flatten.length =
      ([107, 112, 107].take n).sum := by
    intro n
    rw [List.length_flatten, List.map_take, hlines]
  obtain ⟨houtput, -, hlength, hanswers, hsuccesses, hrecords, hflush, -, hother⟩ :=
    records_on_bounded_sink hsink records
  obtain ⟨first, second, third, hrun⟩ := List.length_eq_three.mp hlength
  have hfirst : first.2 = .ok () :=
    (hanswers 0 first (by rw [hrun]; rfl)).1.trans (if_pos (by rw [hsum]; decide))
  have hsecond : second.2 = .error gone :=
    (hanswers 1 second (by rw [hrun]; rfl)).1.trans (if_neg (by rw [hsum]; decide))
  have hthird : third.2 = .error gone :=
    (hanswers 2 third (by rw [hrun]; rfl)).1.trans (if_neg (by rw [hsum]; decide))
  have hone : run.1.records = 1 := by
    refine hsuccesses.trans ?_
    rw [hrun, List.countP_cons, List.countP_cons, List.countP_singleton, hfirst, hsecond, hthird]
    rfl
  have hsize : run.1.sink.taken.size = 218 := by
    rw [← Array.length_toList, houtput, List.length_take, length_flatMap_line, List.flatMap_def]
    exact congrArg (min 218) (hsum 3)
  refine ⟨hsink, hroomy, hlines, ?_, hone, hsize, hrecords.symm.trans hone, hflush,
    (hother roomy hroomy rfl).1⟩
  rw [hrun, List.map_cons, List.map_cons, List.map_singleton, hfirst, hsecond, hthird]

end FlightLink
