import FlightLink.Proofs.Corruption
import FlightLink.Proofs.Histories
import FlightLink.Proofs.Provenance

/-!
# Observing changes nothing

Each frame that is dropped is reported once, to whoever observes at the time, and logged once, if
dropped frames are logged. Observer and log have no other part in a run: without them the same is
done, and what is raised is what is left of the signals when the reports are taken out.
-/

namespace FlightLink

namespace Signal

/-- Whether a signal is a report to an observer. -/
def isNotice : Signal → Bool
  | .notice .. => true
  | _ => false

/-- Whether a signal is a log entry about a dropped frame. -/
def isDropped : Signal → Bool
  | .event (.frameDropped _) => true
  | _ => false

/-- The signals that are no reports to an observer. -/
def lessNotices (out : List Signal) : List Signal := out.filter fun s => !s.isNotice

/-- The signals that are no log entries about dropped frames. -/
def lessDropped (out : List Signal) : List Signal := out.filter fun s => !s.isDropped

end Signal

/-- Whether an event is about a dropped frame. -/
def Event.isDropped : Event → Bool
  | .frameDropped _ => true
  | _ => false

/-- The log without the entries about dropped frames. -/
theorem Signal.events_lessDropped (out : List Signal) :
    events (lessDropped out) = (events out).filter fun e => !e.isDropped := by
  rw [lessDropped, events, events, List.filterMap_filter, List.filter_filterMap]
  congr 1
  funext s
  cases s with
  | event e => cases e <;> rfl
  | _ => rfl

/-- Whether the checksum is the reason. -/
def Rejection.isMismatch : Rejection → Bool
  | .checksumMismatch .. => true
  | _ => false

/-- What an observer is told about rejections. -/
def noticesTo : Option Observer → List Rejection → List (Observer × Rejection)
  | some o, rejections => rejections.map fun rejection => (o, rejection)
  | none, _ => []

namespace Operation

/-- Whether the operation installs an observer or takes it away. -/
def isObservation : Operation → Bool
  | .watch _ | .unwatch => true
  | _ => false

/-- The observer after an operation. -/
def observerAfter (observer : Option Observer) : Operation → Option Observer
  | .watch o => some o
  | .unwatch => none
  | _ => observer

/-- Only operations on the observer put another in its place. -/
theorem observerAfter_of_not {op : Operation} (hop : op.isObservation = false)
    (observer : Option Observer) : op.observerAfter observer = observer := by
  cases op with
  | watch | unwatch => cases hop
  | _ => rfl

/-- The observer that is installed while each of several operations is performed. -/
def observersOfAll : Option Observer → List Operation → List (Option Observer)
  | _, [] => []
  | observer, op :: ops => observer :: observersOfAll (op.observerAfter observer) ops

/-- The items that each of several operations completes. -/
def itemsOfAll (limit : Nat) : (part : Bytes) → List Operation → List (List Item)
  | _, [] => []
  | part, op :: ops => (op.scan limit part).1 :: itemsOfAll limit (op.scan limit part).2 ops

/-- The rejections that each of several operations gives rise to. -/
def rejectionsOfAll (limit : Nat) (part : Bytes) (ops : List Operation) : List (List Rejection) :=
  (itemsOfAll limit part ops).map fun items =>
    (items.map (Item.verdict limit)).filterMap Verdict.rejection?

end Operation

/-! ### What is left out -/

namespace Receiver

variable {r : Receiver} {log : Bool} {observer : Option Observer} {keep : Signal → Bool}

/-- The same receiver with another observer, that may log otherwise. -/
def withReports (r : Receiver) (log : Bool) (observer : Option Observer) : Receiver :=
  { r with logRejections := log, observer }

/-- What another observer and log leave of what is reported is kept, and so is everything that is
not reported. -/
structure Keeps (r : Receiver) (log : Bool) (observer : Option Observer) (keep : Signal → Bool) :
    Prop where
  /-- What is reported instead is what is kept. -/
  report : ∀ rejection,
    (r.withReports log observer).report rejection = (r.report rejection).filter keep
  /-- Other signals are kept. -/
  others : ∀ s : Signal, s.isNotice = false → s.isDropped = false → keep s = true

/-- Without an observer, no notices are left. -/
theorem keeps_lessNotices (r : Receiver) :
    r.Keeps r.logRejections none (fun s => !s.isNotice) where
  report rejection := by
    rw [Receiver.report, Receiver.report]
    cases hlog : r.logRejections <;> cases r.observer <;> simp [withReports, Signal.isNotice]
  others s hnotice _ := by rw [hnotice]; rfl

/-- Without logging, no log entries about dropped frames are left. -/
theorem keeps_lessDropped (r : Receiver) :
    r.Keeps false r.observer (fun s => !s.isDropped) where
  report rejection := by
    rw [Receiver.report, Receiver.report]
    cases r.logRejections <;> cases r.observer <;> simp [withReports, Signal.isDropped]
  others s _ hdropped := by rw [hdropped]; rfl

/-- What is kept depends on logging and observer only. -/
theorem Keeps.congr {r' : Receiver} (hkeeps : r.Keeps log observer keep)
    (hlog : r'.logRejections = r.logRejections) (hobserver : r'.observer = r.observer) :
    r'.Keeps log observer keep := by
  refine ⟨fun rejection => ?_, hkeeps.others⟩
  have hreport : r'.report rejection = r.report rejection := by
    rw [Receiver.report, Receiver.report, hlog, hobserver]
  rw [hreport]
  exact hkeeps.report rejection

/-- All frames are kept, and all frames given up. -/
theorem Keeps.frames (hkeeps : r.Keeps log observer keep) (out : List Signal) :
    Signal.frames (out.filter keep) = Signal.frames out ∧
      Signal.failure? (out.filter keep) = Signal.failure? out := by
  rw [Signal.failure?_eq_head?_givenUp, Signal.failure?_eq_head?_givenUp]
  constructor
  · apply Signal.filterMap_filter_of_none
    intro s hs
    cases s with
    | frame f => cases hs.symm.trans (hkeeps.others (.frame f) rfl rfl)
    | _ => rfl
  · apply congrArg List.head?
    apply Signal.filterMap_filter_of_none
    intro s hs
    cases s with
    | oversized o => cases hs.symm.trans (hkeeps.others (.oversized o) rfl rfl)
    | _ => rfl

/-- A deed is done alike with another observer and log, and what it raises is what is kept. -/
theorem Keeps.carryOut (hkeeps : r.Keeps log observer keep) (deed : Deed) :
    (r.withReports log observer).carryOut deed =
      ((r.carryOut deed).1.withReports log observer, (r.carryOut deed).2.filter keep) := by
  have hothers : ∀ out : List Signal, (∀ s ∈ out, s.isNotice = false ∧ s.isDropped = false) →
      out.filter keep = out := by
    intro out hout
    apply List.filter_eq_self.mpr
    intro s hs
    exact hkeeps.others s (hout s hs).1 (hout s hs).2
  cases deed with
  | enter | store => rfl
  | loseSync rejection => exact Prod.ext rfl (hkeeps.report rejection)
  | makeRoom size next =>
    have hlimit : (r.withReports log observer).limit = r.limit := rfl
    have hcapacity : (r.withReports log observer).capacity = r.capacity := rfl
    rw [Receiver.carryOut, Receiver.carryOut, makeRoom, makeRoom, hlimit, hcapacity]
    split
    · refine Prod.ext rfl (hothers _ ?_).symm
      simp [Signal.isNotice, Signal.isDropped]
    · split
      · refine Prod.ext rfl (hothers _ ?_).symm
        simp [Signal.isNotice, Signal.isDropped]
      · rfl
  | finish version direction code expected received =>
    rw [Receiver.carryOut, Receiver.carryOut, finish, finish]
    split
    · refine Prod.ext rfl (hothers _ ?_).symm
      simp [Signal.isNotice, Signal.isDropped]
    · exact Prod.ext rfl (hkeeps.report _)

/-- A chunk is received alike with another observer and log, and what it raises is what is kept. -/
theorem Keeps.feed (hkeeps : r.Keeps log observer keep) (data : Bytes) :
    (r.withReports log observer).feed data =
      ((r.feed data).1.withReports log observer, (r.feed data).2.filter keep) := by
  induction data generalizing r with
  | nil => rfl
  | cons byte data ih =>
    obtain ⟨deed, -, hdeed⟩ := exists_deed r.phase r.payload byte
    obtain ⟨-, hlog, hobserver⟩ := r.settings_step byte
    have hcounted : r.counted.Keeps log observer keep := hkeeps.congr rfl rfl
    have hstep : (r.withReports log observer).step byte =
        ((r.step byte).1.withReports log observer, (r.step byte).2.filter keep) := by
      rw [hdeed r rfl rfl, hdeed (r.withReports log observer) rfl rfl]
      exact hcounted.carryOut deed
    rw [feed_cons, feed_cons, hstep, ih (hkeeps.congr hlog hobserver), List.filter_append]

end Receiver

/-! ### Operations -/

namespace Session

variable {s : Session} {log : Bool} {observer : Option Observer} {keep : Signal → Bool}

/-- The same session with another observer, that may log otherwise. -/
def withReports (s : Session) (log : Bool) (observer : Option Observer) : Session :=
  { s with receiver := s.receiver.withReports log observer }

/-- Only the operations on observers change the observer. -/
theorem observer_perform (s : Session) (op : Operation) :
    (s.perform op).1.receiver.observer = op.observerAfter s.receiver.observer := by
  cases op with
  | decode data | collect data => exact (s.receiver.settings_feed data).2.2
  | reset | watch | unwatch => rfl

/-- An operation on chunks is performed alike with another observer and log, and what it raises is
what is kept. -/
theorem perform_withReports (hkeeps : s.receiver.Keeps log observer keep) {op : Operation}
    (hop : op.isObservation = false) :
    (s.withReports log observer).perform op =
      ((s.perform op).1.withReports log observer, (s.perform op).2.1,
        (s.perform op).2.2.filter keep) := by
  have hafter : ((s.withReports log observer).perform op).1.receiver =
        (s.perform op).1.receiver.withReports log observer ∧
      ((s.withReports log observer).perform op).2.2 = (s.perform op).2.2.filter keep := by
    cases op with
    | decode data | collect data =>
      have hfeed := hkeeps.feed data
      exact ⟨congrArg Prod.fst hfeed, congrArg Prod.snd hfeed⟩
    | reset => exact ⟨rfl, rfl⟩
    | watch | unwatch => cases hop
  obtain ⟨hreceiver, hraised⟩ := hafter
  obtain ⟨hframes, hfailure⟩ := hkeeps.frames (s.perform op).2.2
  rw [← hraised] at hframes hfailure
  have hunwatch : op = .unwatch →
      (s.withReports log observer).receiver.observer = s.receiver.observer := by
    rintro rfl
    cases hop
  have hkept : (s.withReports log observer).kept = s.kept := rfl
  obtain ⟨hanswer, hkept⟩ := perform_congr hkept hunwatch hframes hfailure
  exact Prod.ext (congrArg₂ Session.mk hreceiver hkept) (Prod.ext hanswer hraised)

/-- Without observers, what is done and answered is the same, and what is raised is all but the
reports to observers. -/
theorem performAll_unobserved (s : Session) (ops : List Operation) :
    (s.withReports s.receiver.logRejections none).performAll
        (ops.filter fun op => !op.isObservation) =
      ((s.performAll ops).1.withReports (s.performAll ops).1.receiver.logRejections none,
        ((ops.zip (s.performAll ops).2).filter fun call => !call.1.isObservation).map
          fun call => (call.2.1, Signal.lessNotices call.2.2)) := by
  induction ops generalizing s with
  | nil => rfl
  | cons op ops ih =>
    obtain ⟨-, hlog⟩ := s.limit_and_log_perform op
    have hothers := ih (s.perform op).1
    rw [hlog] at hothers
    rw [performAll_cons, List.zip_cons_cons]
    cases hop : op.isObservation with
    | true =>
      -- An observer that comes or goes is all that such an operation is about.
      have hsame : (s.perform op).1.withReports s.receiver.logRejections none =
          s.withReports s.receiver.logRejections none := by
        cases op with
        | watch | unwatch => rfl
        | _ => cases hop
      rw [List.filter_cons_of_neg (by simp [hop]), List.filter_cons_of_neg (by simp [hop]), ← hsame,
        hothers]
    | false =>
      have hperform := perform_withReports s.receiver.keeps_lessNotices hop
      rw [List.filter_cons_of_pos (by simp [hop]), List.filter_cons_of_pos (by simp [hop]),
        performAll_cons, hperform, hothers]
      rfl

/-- Without logging, what is done and answered is the same, and what is raised is all but the log
entries about dropped frames. -/
theorem performAll_unlogged (s : Session) (ops : List Operation) :
    (s.withReports false s.receiver.observer).performAll ops =
      ((s.performAll ops).1.withReports false (s.performAll ops).1.receiver.observer,
        (s.performAll ops).2.map fun answer => (answer.1, Signal.lessDropped answer.2)) := by
  induction ops generalizing s with
  | nil => rfl
  | cons op ops ih =>
    have hperform : (s.withReports false s.receiver.observer).perform op =
        ((s.perform op).1.withReports false (s.perform op).1.receiver.observer,
          (s.perform op).2.1, Signal.lessDropped (s.perform op).2.2) := by
      cases hop : op.isObservation with
      | true =>
        cases op with
        | watch | unwatch => rfl
        | _ => cases hop
      | false =>
        rw [perform_withReports s.receiver.keeps_lessDropped hop, observer_perform,
          Operation.observerAfter_of_not hop]
        rfl
    rw [performAll_cons, hperform, ih, performAll_cons]
    rfl

end Session

/-! ### What is reported -/

/-- What a scanner leaves over holds no whole item. -/
theorem scan_leftOver (limit : Nat) (data : Bytes) :
    scan limit (scan limit data).2 = ([], (scan limit data).2) := by
  have hagain := scan_append limit data []
  rw [List.append_nil, List.append_nil] at hagain
  have hitems : (scan limit data).1 =
      (scan limit data).1 ++ (scan limit (scan limit data).2).1 := congrArg Prod.fst hagain
  exact Prod.ext (List.self_eq_append_right.mp hitems) (congrArg Prod.snd hagain).symm

namespace Operation

variable {limit : Nat} {part : Bytes}

/-- Operations complete the items of the streams that they bring. -/
theorem flatten_itemsOfAll (hpart : FlightLink.scan limit part = ([], part))
    (ops : List Operation) :
    (itemsOfAll limit part ops).flatten =
      ((streams ops).modifyHead (part ++ ·)).flatMap fun stream =>
        (FlightLink.scan limit stream).1 := by
  induction ops generalizing part with
  | nil => simp [itemsOfAll, streams, hpart]
  | cons op ops ih =>
    obtain ⟨first, others, hstreams⟩ := exists_streams_eq_cons ops
    have hnil : FlightLink.scan limit [] = ([], []) := scan_of_none rfl
    have hchunk : ∀ data, (FlightLink.scan limit (part ++ data)).1 ++
        (itemsOfAll limit (FlightLink.scan limit (part ++ data)).2 ops).flatten =
          (FlightLink.scan limit (part ++ (data ++ first))).1 ++
            others.flatMap fun stream => (FlightLink.scan limit stream).1 := by
      intro data
      rw [ih (scan_leftOver limit _), hstreams, List.modifyHead_cons, List.flatMap_cons,
        ← List.append_assoc part, scan_append limit (part ++ data), List.append_assoc]
    rw [itemsOfAll, List.flatten_cons]
    cases op with
    | decode data | collect data =>
      rw [streams, hstreams, List.modifyHead_cons, List.modifyHead_cons, List.flatMap_cons]
      exact hchunk data
    | reset =>
      have hnext : (itemsOfAll limit [] ops).flatten =
          (streams ops).flatMap fun stream => (FlightLink.scan limit stream).1 := by
        rw [ih hnil, hstreams]
        rfl
      rw [streams, List.modifyHead_cons, List.append_nil, List.flatMap_cons, hpart, ← hnext]
      rfl
    | watch | unwatch => exact ih hpart

/-- The verdicts are those on the items. -/
theorem verdictsOfAll_eq (limit : Nat) (part : Bytes) (ops : List Operation) :
    verdictsOfAll limit part ops =
      (itemsOfAll limit part ops).map (List.map (Item.verdict limit)) := by
  induction ops generalizing part with
  | nil => rfl
  | cons op ops ih => rw [verdictsOfAll, itemsOfAll, List.map_cons, ih, verdicts]

end Operation

/-- What a receiver reports goes to its observer. -/
theorem Receiver.noticesOf_eq (r : Receiver) (rejections : List Rejection) :
    r.noticesOf rejections = noticesTo r.observer rejections := by
  rw [noticesOf]
  cases r.observer <;> rfl

namespace Session

variable {s : Session} {part : Bytes}

/-- Each of several operations reports the rejections that it gives rise to, to the observer at the
time, and logs them if they are to be logged. -/
theorem reports_performAll (hs : s.receiver.HasPart part) (ops : List Operation) :
    (s.performAll ops).2.map (fun answer => Signal.notices answer.2) =
        List.zipWith noticesTo (Operation.observersOfAll s.receiver.observer ops)
          (Operation.rejectionsOfAll s.receiver.limit part ops) ∧
      (s.performAll ops).2.map (fun answer => Signal.dropped answer.2) =
        (Operation.rejectionsOfAll s.receiver.limit part ops).map fun rejections =>
          if s.receiver.logRejections then rejections else [] := by
  induction ops generalizing s part with
  | nil => exact ⟨rfl, rfl⟩
  | cons op ops ih =>
    obtain ⟨hlimit, hlog⟩ := s.limit_and_log_perform op
    obtain ⟨hnotices, hdropped⟩ := ih (hs.perform op)
    rw [hlimit, s.observer_perform op] at hnotices
    rw [hlimit, hlog] at hdropped
    obtain ⟨-, hnotice, hdrop, -⟩ := Receiver.signals_of_lessGrowth (lessGrowth_perform hs op)
    rw [Receiver.noticesOf_eq] at hnotice
    rw [performAll_cons, List.map_cons, List.map_cons, hnotices, hdropped, hnotice, hdrop]
    exact ⟨rfl, rfl⟩

/-- The frames counted as dropped are the rejections, by their reasons. -/
theorem failures_performAll (hs : s.receiver.HasPart part) (ops : List Operation) :
    let rejections := (Operation.rejectionsOfAll s.receiver.limit part ops).flatten
    let before := s.receiver.tally
    let t := (s.performAll ops).1.receiver.tally
    t.checksumFailures = before.checksumFailures + rejections.countP Rejection.isMismatch ∧
      t.syncFailures =
        before.syncFailures + rejections.countP fun rejection => !rejection.isMismatch := by
  intro rejections before t
  let verdicts := (Operation.verdictsOfAll s.receiver.limit part ops).flatten
  have htally : t = before.after (ops.flatMap Operation.received).length verdicts :=
    tally_performAll hs ops
  have hrejections : rejections = verdicts.filterMap Verdict.rejection? := by
    simp only [rejections, verdicts, Operation.rejectionsOfAll, Operation.verdictsOfAll_eq,
      List.filterMap_flatten, List.map_map, Function.comp_def]
  have hmismatch : ∀ verdict : Verdict, verdict.isChecksumFailure =
      (verdict.rejection?.map Rejection.isMismatch).getD false := by
    rintro (_ | _ | (_ | _ | _) | _) <;> rfl
  have hsync : ∀ verdict : Verdict, verdict.isSyncFailure =
      (verdict.rejection?.map fun rejection => !rejection.isMismatch).getD false := by
    rintro (_ | _ | (_ | _ | _) | _) <;> rfl
  rw [htally, hrejections, List.countP_filterMap, List.countP_filterMap]
  simp only [← hmismatch, ← hsync]
  exact ⟨rfl, rfl⟩

end Session

/-- A frame is dropped for its checksum if its last byte is not that of the bytes between it and the
direction. -/
theorem Stretch.mismatch {limit : Nat} {version : Version} {code : UInt16}
    {expected received : UInt8} {bytes : Bytes} (hstretch : Stretch limit
      (.rejected (.checksumMismatch version code expected received)) bytes) :
    expected ≠ received ∧ ∃ direction body,
      bytes = opening version direction ++ body ++ [received] ∧
        expected = version.checksum body := by
  cases hstretch with
  | @shortCorrupted direction code _ _ payload w hwire _ hdiffers =>
    obtain ⟨-, hbytes⟩ := encodeShort_eq_ok_iff.mp hwire
    rw [toBytes_shortItem] at hbytes
    obtain ⟨rfl, hexpected⟩ := List.append_inj' hbytes rfl
    exact ⟨hdiffers, direction, _, rfl, List.singleton_inj.mp hexpected⟩
  | @longCorrupted direction flag _ _ _ payload w hwire _ hdiffers =>
    obtain ⟨-, hbytes⟩ := encodeLong_eq_ok_iff.mp hwire
    rw [toBytes_longItem] at hbytes
    obtain ⟨rfl, hexpected⟩ := List.append_inj' hbytes rfl
    exact ⟨hdiffers, direction, _, rfl, List.singleton_inj.mp hexpected⟩

/-- Over any operations on a new receiver, the rejections are those of the items of the streams
received, in order, each of them made for what the bytes of the item are; a wrong checksum is told
from the one computed over the frame received. Each is counted once, is reported once, to the
observer that is installed when its item is complete, and is logged once if dropped frames are
logged. Without observers, the session, the answers and all other signals are the same; without
logging, all but the log entries about dropped frames are. -/
theorem rejections_reported_once (settings : ReceiverSettings) (ops : List Operation) :
    let run := (Session.ofSettings settings).performAll ops
    let limit := settings.maxPayload
    let items := Operation.itemsOfAll limit [] ops
    let rejections := Operation.rejectionsOfAll limit [] ops
    let quiet := (Session.ofSettings settings).performAll
      (ops.filter fun op => !op.isObservation)
    let logged := (Session.ofSettings { settings with logRejections := true }).performAll ops
    let unlogged := (Session.ofSettings { settings with logRejections := false }).performAll ops
    items.flatten = (streams ops).flatMap (fun stream => (scan limit stream).1) ∧
      (∀ item ∈ items.flatten, Stretch limit (item.verdict limit) item.toBytes ∧
        ∀ version code expected received,
          item.verdict limit = .rejected (.checksumMismatch version code expected received) →
          expected ≠ received ∧ ∃ direction body,
            item.toBytes = opening version direction ++ body ++ [received] ∧
              expected = version.checksum body) ∧
      run.1.receiver.tally.checksumFailures = rejections.flatten.countP Rejection.isMismatch ∧
      run.1.receiver.tally.syncFailures =
        rejections.flatten.countP (fun rejection => !rejection.isMismatch) ∧
      run.2.map (fun answer => Signal.notices answer.2) =
        List.zipWith noticesTo (Operation.observersOfAll none ops) rejections ∧
      run.2.map (fun answer => Signal.dropped answer.2) =
        rejections.map (fun found => if settings.logRejections then found else []) ∧
      quiet = ({ run.1 with receiver := run.1.receiver.unwatch },
        ((ops.zip run.2).filter fun call => !call.1.isObservation).map
          fun call => (call.2.1, Signal.lessNotices call.2.2)) ∧
      unlogged = ({ logged.1 with receiver := { logged.1.receiver with logRejections := false } },
        logged.2.map fun answer => (answer.1, Signal.lessDropped answer.2)) ∧
      unlogged.2.flatMap (fun answer => Signal.events answer.2) =
        (logged.2.flatMap fun answer => Signal.events answer.2).filter fun e => !e.isDropped := by
  intro run limit items rejections quiet logged unlogged
  have hstart : (Session.ofSettings settings).receiver.HasPart [] :=
    Receiver.AtRest.hasPart ⟨rfl, rfl⟩
  have hitems : items.flatten = (streams ops).flatMap fun stream => (scan limit stream).1 := by
    have hnil : scan limit [] = ([], []) := scan_of_none rfl
    have hflatten := Operation.flatten_itemsOfAll hnil ops
    obtain ⟨first, others, hstreams⟩ := exists_streams_eq_cons ops
    rw [hstreams] at hflatten ⊢
    exact hflatten
  have hstretch : ∀ item ∈ items.flatten, Stretch limit (item.verdict limit) item.toBytes := by
    intro item hitem
    rw [hitems] at hitem
    obtain ⟨stream, -, hitem⟩ := List.mem_flatMap.mp hitem
    exact Item.stretch ((scan_sound limit stream).1 item hitem)
  obtain ⟨hchecksum, hsync⟩ := Session.failures_performAll hstart ops
  obtain ⟨hnotices, hdropped⟩ := Session.reports_performAll hstart ops
  have hunlogged : unlogged = _ :=
    (Session.ofSettings { settings with logRejections := true }).performAll_unlogged ops
  refine ⟨hitems, fun item hitem => ⟨hstretch item hitem, ?_⟩, ?_, ?_, hnotices, hdropped,
    (Session.ofSettings settings).performAll_unobserved ops, hunlogged, ?_⟩
  · intro version code expected received hverdict
    have hmismatch := hstretch item hitem
    rw [hverdict] at hmismatch
    exact hmismatch.mismatch
  · exact hchecksum.trans (Nat.zero_add _)
  · exact hsync.trans (Nat.zero_add _)
  · rw [hunlogged, List.flatMap_map, List.filter_flatMap]
    simp only [Signal.events_lessDropped]
    rfl

/-- A frame that began under one observer is dropped for its checksum under another, and so is an
opening; nobody is told about the next one. -/
theorem rejections_reported_once_two_observers :
    let settings : ReceiverSettings := { maxPayload := 1 }
    let ops : List Operation :=
      [.watch ⟨1⟩, .collect [0x24, 0x4D, 0x3C, 0, 7], .watch ⟨2⟩, .collect [8, 0x24, 0x24],
        .unwatch, .decode [0x24, 0x58, 0x41]]
    let run := (Session.ofSettings settings).performAll ops
    let first : Rejection := .checksumMismatch .v1 7 7 8
    let dropped : Item := .short .request 0 7 [] 8
    run.2.map (fun answer => Signal.notices answer.2) =
        [[], [], [], [(⟨2⟩, first), (⟨2⟩, .badVersionMarker 0x24)], [], []] ∧
      Operation.rejectionsOfAll 1 [] ops =
        [[], [], [], [first, .badVersionMarker 0x24], [], [.badDirection 0x41]] ∧
      dropped ∈ (Operation.itemsOfAll 1 [] ops).flatten ∧
      dropped.verdict 1 = .rejected first ∧
      Stretch 1 (.rejected first) [0x24, 0x4D, 0x3C, 0, 7, 8] ∧
      ((7 : UInt8) ≠ 8 ∧ ∃ direction body,
        [0x24, 0x4D, 0x3C, 0, 7, 8] = opening .v1 direction ++ body ++ [8] ∧ 7 = xorSum body) := by
  intro settings ops run first dropped
  obtain ⟨hitems, hstretches, -, -, -, hlogged, -⟩ := rejections_reported_once settings ops
  have hnotices : run.2.map (fun answer => Signal.notices answer.2) =
      [[], [], [], [(⟨2⟩, first), (⟨2⟩, .badVersionMarker 0x24)], [], []] := by decide +kernel
  have hraised : run.2.map (fun answer => Signal.dropped answer.2) =
      [[], [], [], [first, .badVersionMarker 0x24], [], [.badDirection 0x41]] := by decide +kernel
  have hrejections : Operation.rejectionsOfAll 1 [] ops =
      [[], [], [], [first, .badVersionMarker 0x24], [], [.badDirection 0x41]] := by
    have hall := hlogged.symm.trans hraised
    simpa [settings] using hall
  let found : List Item := [dropped, .badMarker 0x24, .badDirection .v2 0x41]
  have hfits : ∀ item ∈ found, item.Fits 1 := by
    intro item hitem
    simp only [found, List.mem_cons, List.not_mem_nil, or_false] at hitem
    rcases hitem with rfl | rfl | rfl
    · exact ⟨rfl, Nat.zero_le 1⟩
    · exact rfl
    · exact rfl
  have hscan : scan 1 (found.flatMap Item.toBytes) = (found, []) := by
    have hpart := scan_eq_of_partway hfits .idle
    rwa [List.append_nil] at hpart
  have hmem : dropped ∈ (Operation.itemsOfAll 1 [] ops).flatten := by
    have hstreams : streams ops = [found.flatMap Item.toBytes] := rfl
    have hflatten : (Operation.itemsOfAll 1 [] ops).flatten = found := by
      rw [hitems, hstreams, List.flatMap_singleton, hscan]
    rw [hflatten]
    exact List.mem_cons_self
  have hverdict : dropped.verdict 1 = .rejected first := by decide
  obtain ⟨hstretch, hmismatch⟩ := hstretches dropped hmem
  rw [hverdict] at hstretch
  exact ⟨hnotices, hrejections, hmem, hverdict, hstretch, hmismatch .v1 7 7 8 hverdict⟩

end FlightLink
