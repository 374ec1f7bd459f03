import Mathlib.Data.Int.Init
import ZyxelRouter.Lib.ObjectHeap

/-!
# The timer library

One-shot and periodic timers are kept in two lists that every thread may change under one mutex.
The thread {lit}`UITimerProc` scans both lists, moves what is due to {lit}`temp_list` and works
that list off: it calls the callbacks outside of the mutex, and a callback may add and delete
timers again.  A call of the interface, a section of {lit}`UITimerProc` under the mutex, the
call of a callback and what follows its return are one step each; any order of steps is a run.

Timers are objects of a heap that notices a double release and a read of a released object by
{lit}`UITimerProc`.  The log records when timeouts were set and callbacks invoked; no function
reads it.

Main definitions:

- Definition {lit}`uiTimerProc`: the next step of the timer thread, which is never asked to end.
- Definition {lit}`Op.apply`: the steps of all threads.
- Definition {lit}`Reaches`: the states of the runs whose steps all meet a condition.
-/

namespace ZyxelRouter
namespace UiTimer

open Lib

/-! ## Timers -/

/-- {lit}`IDLE_STATUS`, {lit}`PROC_STATUS` and {lit}`DEL_STATUS`. -/
inductive Status where
  | idle
  | proc
  | del
deriving DecidableEq, Repr

/-- A reading of {lit}`getSystemUptime`. -/
structure Uptime where
  sec : Nat
  usec : Nat
  usec_lt : usec < 1000000
deriving DecidableEq

theorem Uptime.zero_lt : 0 < 1000000 := by decide

/-- {lit}`timeval_t`, whose 64-bit fields no uptime fills. -/
structure TimeVal where
  tvSec : Int
  tvUsec : Int
deriving DecidableEq, Repr

/-- {lit}`CMTimer_t`, without its own mutex.  Callbacks and private data are numbers, and
{lit}`fn` may be a null pointer. -/
structure CMTimer where
  timerID : Int
  data : Nat
  timerLen : UInt32
  timeout : TimeVal
  status : Status
  fn : Option Nat
deriving DecidableEq

/-- {lit}`ONE_SHOT_TIMER` and {lit}`PERIODIC_TIMER`. -/
inductive TimerType where
  | oneShot
  | periodic
deriving DecidableEq, Repr

/-- {lit}`proc_element_t`. -/
structure ProcElement where
  type : TimerType
  element : Nat
deriving DecidableEq, Repr

/-! ## Times -/

/-- Microseconds since boot. -/
def Uptime.micros (t : Uptime) : Nat :=
  t.sec * 1000000 + t.usec

/-- The timeout that both {lit}`UIAddTimer` and {lit}`UIAddPeriodicTimer` compute, with the
carry to the seconds. -/
def addTimeout (now : Uptime) (timerLen : Int) : TimeVal :=
  let tvUsec := now.usec + timerLen.tmod 1000 * 1000
  { tvSec := now.sec + (timerLen.tdiv 1000 + tvUsec.tdiv 1000000)
    tvUsec := tvUsec.tmod 1000000 }

/-- The timeout that {lit}`UITimerProc` computes for the next period. -/
def rearmTimeout (now : Uptime) (timerLen : UInt32) : TimeVal :=
  { tvSec := now.sec + timerLen.toNat / 1000
    tvUsec := now.usec + (timerLen.toNat % 1000) * 1000 }

/-- The test by which a scan passes over a timer. -/
def later (timeout : TimeVal) (now : Uptime) : Bool :=
  timeout.tvSec > now.sec || timeout.tvSec == now.sec && timeout.tvUsec > now.usec

/-! ## State -/

/-- What the log records. -/
inductive Event where
  /-- The timeout of a timer was set from this reading. -/
  | armed (r : Nat) (reading : Uptime)
  /-- A one-shot timer was copied for its callback. -/
  | copied (src dst : Nat)
  /-- The callback of a timer was taken to be invoked in the scan of this reading. -/
  | invoked (r : Nat) (scan : Uptime) (timerLen : UInt32)
deriving DecidableEq

/-- Where {lit}`UITimerProc` stands. -/
inductive Pc where
  /-- At the beginning of a scan. -/
  | scan
  /-- At the head of the loop over {lit}`temp_list`. -/
  | process
  /-- In front of the call of a callback. -/
  | call (fn : Nat)
  /-- Behind the call, where the first element of {lit}`temp_list` is dropped. -/
  | finish
deriving DecidableEq, Repr

/-- The state of the library. -/
structure State where
  heap : ObjectHeap CMTimer
  timeList : List Nat
  periodicTimeList : List Nat
  tempList : List ProcElement
  pc : Pc
  timerVal : Uptime
  log : List Event

/-- A timer object after {lit}`memset`. -/
def blankTimer : CMTimer where
  timerID := 0
  data := 0
  timerLen := 0
  timeout := { tvSec := 0, tvUsec := 0 }
  status := .idle
  fn := none

/-- The state after {lit}`UITimer_Init`, with {lit}`UITimerProc` in front of its first scan. -/
def State.init : State where
  heap := ObjectHeap.empty blankTimer
  timeList := []
  periodicTimeList := []
  tempList := []
  pc := .scan
  timerVal := { sec := 0, usec := 0, usec_lt := Uptime.zero_lt }
  log := []

/-- The timers that wait in {lit}`temp_list`. -/
def State.pending (s : State) : List Nat :=
  s.tempList.map ProcElement.element

/-! ## Adding timers -/

/-- Which allocations of a call succeed: the timer, and the node of the list. -/
structure Alloc where
  timer : Bool
  node : Bool
deriving DecidableEq, Repr

/-- Allocate a timer whose timeout is set from {lit}`now`. -/
def allocTimer (now : Uptime) (uitimer : CMTimer) (s : State) : State :=
  { s with heap := s.heap.alloc uitimer, log := .armed s.heap.next now :: s.log }

/-- {lit}`UIAddTimer`: a timer with this id is set anew, and keeps its {lit}`TimerLen`. -/
def uiAddTimer (alloc : Alloc) (now : Uptime) (id : Int) (timerLen : UInt32) (timefn : Option Nat)
    (privdata : Nat) (s : State) : Int × State :=
  if !alloc.timer then (-1, s)
  else
    let timeout := addTimeout now timerLen.toNat
    let uitimer := s.heap.next
    let s := allocTimer now
      { timerID := id, data := privdata, timerLen := timerLen, timeout := timeout,
        status := .idle, fn := timefn } s
    match s.timeList.find? (fun r => (s.heap.get r).timerID == id) with
    | some intimer =>
        (0, { s with
          heap := s.heap.modify intimer (fun t =>
            { t with timerID := id, timeout := timeout, data := privdata, fn := timefn })
          log := .armed intimer now :: s.log })
    | none =>
        if !alloc.node then (-1, s)
        else (0, { s with timeList := s.timeList ++ [uitimer] })

/-- {lit}`UIAddPeriodicTimer`: a timer with this id is set anew and becomes idle, and keeps its
{lit}`TimerLen`. -/
def uiAddPeriodicTimer (alloc : Alloc) (now : Uptime) (id : Int) (timerLen : Int32)
    (timefn : Option Nat) (privdata : Nat) (s : State) : Int × State :=
  if !alloc.timer then (-1, s)
  else
    let timeout := addTimeout now timerLen.toInt
    let uitimer := s.heap.next
    let s := allocTimer now
      { timerID := id, data := privdata, timerLen := timerLen.toUInt32, timeout := timeout,
        status := .idle, fn := timefn } s
    match s.periodicTimeList.find? (fun r => (s.heap.get r).timerID == id) with
    | some intimer =>
        (0, { s with
          heap := s.heap.modify intimer (fun t =>
            { t with timerID := id, timeout := timeout, data := privdata, status := .idle,
                     fn := timefn })
          log := .armed intimer now :: s.log })
    | none =>
        if !alloc.node then (-1, s)
        else (0, { s with periodicTimeList := s.periodicTimeList ++ [uitimer] })

/-! ## Deleting timers

A deletion starts over at the first node after each removal.  The nodes it passed before are
passed again, so going once through the list does the same. -/

/-- The results {lit}`TIMER_STOP_FAIL`, {lit}`TIMER_STOP_SUCCESS` and
{lit}`TIMER_STOP_NOT_FOUND`. -/
inductive TimerStop where
  | fail
  | success
  | notFound
deriving DecidableEq, Repr

/-- The result of a deletion loop: an empty list counts as success. -/
def stopResult (id : Int) (list : List Nat) (s : State) : TimerStop :=
  if list ≠ [] ∧ list.all (fun r => (s.heap.get r).timerID != id) then .notFound else .success

/-- What a deletion loop leaves in {lit}`*dataptr`: the data of the last timer it takes. -/
def lastData (taken : CMTimer → Bool) (list : List Nat) (s : State) : Option Nat :=
  ((list.map s.heap.get).filter taken).getLast?.map CMTimer.data

/-- Remove a timer from {lit}`time_list` and release it. -/
def freeTime (r : Nat) (s : State) : State :=
  { s with timeList := s.timeList.erase r, heap := s.heap.free r }

/-- Remove a timer from {lit}`periodic_time_list` and release it. -/
def freePeriodic (r : Nat) (s : State) : State :=
  { s with periodicTimeList := s.periodicTimeList.erase r, heap := s.heap.free r }

/-- Set the status of a timer. -/
def setStatus (status : Status) (r : Nat) (s : State) : State :=
  { s with heap := s.heap.modify r (fun t => { t with status := status }) }

/-- One node of the loop in {lit}`UIDelTimer` and {lit}`UIDelTimer_retDataPtr`. -/
def delTimerNode (id : Int) (s : State) (r : Nat) : State :=
  if (s.heap.get r).timerID = id then freeTime r s else s

/-- {lit}`UIDelTimer`: the result, what is written to {lit}`*dataptr`, and the new state;
{lit}`dataptr` tells whether the pointer is not null. -/
def uiDelTimer (id : Int) (dataptr : Bool) (s : State) : TimerStop × Option Nat × State :=
  if id ≤ 0 then (.notFound, none, s)
  else
    (stopResult id s.timeList s,
      if dataptr then lastData (·.timerID == id) s.timeList s else none,
      s.timeList.foldl (delTimerNode id) s)

/-- {lit}`UIDelTimer_retDataPtr`. -/
def uiDelTimerRetDataPtr (id : Int) (dataPtr : Bool) (s : State) :
    TimerStop × Option Nat × State :=
  if id ≤ 0 then (.notFound, none, s)
  else if !dataPtr then (.fail, none, s)
  else
    (stopResult id s.timeList s, lastData (·.timerID == id) s.timeList s,
      s.timeList.foldl (delTimerNode id) s)

/-- One node of the loop in {lit}`UIDelPeriodicTimer`. -/
def delPeriodicTimerNode (id : Int) (s : State) (r : Nat) : State :=
  if (s.heap.get r).timerID = id then
    match (s.heap.get r).status with
    | .proc =>
        { setStatus .del r s with periodicTimeList := s.periodicTimeList.erase r }
    | .idle => freePeriodic r s
    | .del => s
  else s

/-- {lit}`UIDelPeriodicTimer`. -/
def uiDelPeriodicTimer (id : Int) (dataptr : Bool) (s : State) :
    TimerStop × Option Nat × State :=
  if id ≤ 0 then (.notFound, none, s)
  else
    (stopResult id s.periodicTimeList s,
      if dataptr then lastData (·.timerID == id) s.periodicTimeList s else none,
      s.periodicTimeList.foldl (delPeriodicTimerNode id) s)

/-- One node of the loop in {lit}`UIDelPeriodicTimer_retDataPtr`: a timer being processed is
marked and stays in the list. -/
def delPeriodicTimerRetNode (id : Int) (s : State) (r : Nat) : State :=
  if (s.heap.get r).timerID = id then
    match (s.heap.get r).status with
    | .proc => setStatus .del r s
    | _ => freePeriodic r s
  else s

/-- {lit}`UIDelPeriodicTimer_retDataPtr`. -/
def uiDelPeriodicTimerRetDataPtr (id : Int) (dataPtr : Bool) (s : State) :
    TimerStop × Option Nat × State :=
  if id ≤ 0 then (.notFound, none, s)
  else if !dataPtr then (.fail, none, s)
  else
    (stopResult id s.periodicTimeList s,
      lastData (fun t => t.timerID == id && t.status != .proc) s.periodicTimeList s,
      s.periodicTimeList.foldl (delPeriodicTimerRetNode id) s)

/-- {lit}`UIDelAllTimer`. -/
def uiDelAllTimer (s : State) : State :=
  let s := s.timeList.foldl (fun s r => freeTime r s) s
  s.periodicTimeList.foldl (fun s r => freePeriodic r s) s

/-! ## The timer thread

The scan of {lit}`time_list` starts over after each removal too. -/

/-- One node of the scan of {lit}`time_list`: a timer that is due is copied to
{lit}`temp_list` and released. -/
def scanTimeNode (s : State) (r : Nat) : State :=
  let s := { s with heap := s.heap.touch r }
  if later (s.heap.get r).timeout s.timerVal then s
  else
    let element := s.heap.next
    freeTime r
      { s with
        heap := s.heap.alloc (s.heap.get r)
        tempList := { type := .oneShot, element := element } :: s.tempList
        log := .copied r element :: s.log }

/-- One node of the scan of {lit}`periodic_time_list`: a timer that is due is marked and goes to
{lit}`temp_list` itself. -/
def scanPeriodicNode (s : State) (r : Nat) : State :=
  let s := { s with heap := s.heap.touch r }
  if later (s.heap.get r).timeout s.timerVal then s
  else
    let status := if (s.heap.get r).status ≠ .del then .proc else (s.heap.get r).status
    let s := setStatus status r s
    { s with tempList := { type := .periodic, element := r } :: s.tempList }

/-- The scan of both lists under the mutex. -/
def scanSection (now : Uptime) (s : State) : State :=
  let s := { s with timerVal := now, pc := .process }
  let s := s.timeList.foldl scanTimeNode s
  s.periodicTimeList.foldl scanPeriodicNode s

/-- The program counter after a callback was taken. -/
def afterTaken : Option Nat → Pc
  | some fn => .call fn
  | none => .finish

/-- The log after a callback was taken. -/
def logTaken (fn : Option Nat) (r : Nat) (timerLen : UInt32) (s : State) : List Event :=
  match fn with
  | some _ => .invoked r s.timerVal timerLen :: s.log
  | none => s.log

/-- The section under the mutex for a periodic timer: its callback is taken and its next period
set, unless its status says otherwise. -/
def periodicSection (r : Nat) (s : State) : State :=
  let s := { s with heap := s.heap.touch r }
  let uitimer := s.heap.get r
  match uitimer.status with
  | .proc =>
      { s with
        heap := s.heap.modify r (fun t =>
          { t with timeout := rearmTimeout s.timerVal t.timerLen, status := .idle })
        pc := afterTaken uitimer.fn
        log := .armed r s.timerVal :: logTaken uitimer.fn r uitimer.timerLen s }
  | _ => { s with pc := .finish }

/-- A one-shot timer: its callback is taken. -/
def oneShotSection (r : Nat) (s : State) : State :=
  let s := { s with heap := s.heap.touch r }
  let uitimer := s.heap.get r
  { s with pc := afterTaken uitimer.fn, log := logTaken uitimer.fn r uitimer.timerLen s }

/-- After the callback: a one-shot timer is released, a periodic one if it was marked. -/
def releaseDone (e : ProcElement) (s : State) : State :=
  match e.type with
  | .oneShot => { s with heap := s.heap.free e.element }
  | .periodic =>
      let s := { s with heap := s.heap.touch e.element }
      if (s.heap.get e.element).status = .del then { s with heap := s.heap.free e.element }
      else s

/-- The next step of {lit}`UITimerProc`; {lit}`now` is what a scan reads as uptime. -/
def uiTimerProc (now : Uptime) (s : State) : State :=
  match s.pc, s.tempList with
  | .scan, _ => scanSection now s
  | .process, [] => { s with pc := .scan }
  | .process, e :: _ =>
      match e.type with
      | .periodic => periodicSection e.element s
      | .oneShot => oneShotSection e.element s
  | .call _, e :: _ => { s with heap := s.heap.touch e.element, pc := .finish }
  | .finish, e :: rest => { releaseDone e s with tempList := rest, pc := .process }
  -- while an element is worked off the list is not empty
  | .call _, [] => s
  | .finish, [] => s

/-! ## Runs -/

/-- The steps, in any order, of the threads that use the library and of {lit}`UITimerProc`. -/
inductive Op where
  | addTimer (alloc : Alloc) (now : Uptime) (id : Int) (timerLen : UInt32) (timefn : Option Nat)
      (privdata : Nat)
  | addPeriodicTimer (alloc : Alloc) (now : Uptime) (id : Int) (timerLen : Int32)
      (timefn : Option Nat) (privdata : Nat)
  | delTimer (id : Int) (dataptr : Bool)
  | delTimerRetDataPtr (id : Int) (dataPtr : Bool)
  | delPeriodicTimer (id : Int) (dataptr : Bool)
  | delPeriodicTimerRetDataPtr (id : Int) (dataPtr : Bool)
  | delAllTimer
  | timerProc (now : Uptime)
deriving DecidableEq

/-- What a step does. -/
def Op.apply : Op → State → State
  | .addTimer alloc now id timerLen timefn privdata, s =>
      (uiAddTimer alloc now id timerLen timefn privdata s).2
  | .addPeriodicTimer alloc now id timerLen timefn privdata, s =>
      (uiAddPeriodicTimer alloc now id timerLen timefn privdata s).2
  | .delTimer id dataptr, s => (uiDelTimer id dataptr s).2.2
  | .delTimerRetDataPtr id dataPtr, s => (uiDelTimerRetDataPtr id dataPtr s).2.2
  | .delPeriodicTimer id dataptr, s => (uiDelPeriodicTimer id dataptr s).2.2
  | .delPeriodicTimerRetDataPtr id dataPtr, s => (uiDelPeriodicTimerRetDataPtr id dataPtr s).2.2
  | .delAllTimer, s => uiDelAllTimer s
  | .timerProc now, s => uiTimerProc now s

/-- The states reached by runs whose steps all meet a condition on the state before the step. -/
inductive Reaches (cond : Op → State → Prop) : State → Prop where
  | init : Reaches cond State.init
  | step {s : State} {op : Op} (h : Reaches cond s) (hop : cond op s) : Reaches cond (op.apply s)

/-- The state after a list of steps. -/
def run (ops : List Op) (s : State) : State :=
  ops.foldl (fun s op => op.apply s) s

theorem Reaches.run {s : State} (h : Reaches (fun _ _ => True) s) (ops : List Op) :
    Reaches (fun _ _ => True) (run ops s) := by
  induction ops generalizing s with
  | nil => exact h
  | cons op ops ih => exact ih (h.step trivial)

end UiTimer
end ZyxelRouter
