import ZyxelRouter.UiTimer.Deadline
import ZyxelRouter.UiTimer.DelLoop

/-!
# The period of a periodic timer

{lit}`UIAddPeriodicTimer` sets a timer that exists already anew in its place.  What it sets there is
read much later, when {lit}`UITimerProc` has taken the callback and sets the next timeout.

Main results:

- Theorem {lit}`reaches_listed`: what holds of the lists in every run.
- Theorem {lit}`Armed.run`: how an entry changes in a run that neither adds nor deletes it.
- Theorem {lit}`exists_rearm`: {lit}`UITimerProc` sets the next timeout of every entry some time.
- Theorem {lit}`addPeriodicTimer_latest_iff`: when the latest call decides about the entry.
-/

namespace ZyxelRouter
namespace UiTimer

open Lib

/-! ## The lists in every run -/

/-- The timers of both lists were allocated, none is in both, and while an element is worked off
{lit}`temp_list` is not empty. -/
structure Listed (s : State) : Prop where
  time_lt : ∀ q ∈ s.timeList, q < s.heap.next
  periodic_lt : ∀ q ∈ s.periodicTimeList, q < s.heap.next
  apart : ∀ q ∈ s.timeList, q ∉ s.periodicTimeList
  working : s.pc = .scan ∨ s.pc = .process ∨ s.tempList ≠ []

/-- The entries of {lit}`periodic_time_list` with an identifier. -/
def State.entries (s : State) (id : Int) : List Nat :=
  s.periodicTimeList.filter (fun q => s.timerID q = id)

/-- A walk over a list may take timers out of the lists, but no periodic one whose identifier is
kept.  Of the timers it changes the status only. -/
structure Spares (keep : Int → Prop) (s s' : State) : Prop where
  time : s'.timeList.Sublist s.timeList
  periodic : s'.periodicTimeList.Sublist s.periodicTimeList
  next_le : s.heap.next ≤ s'.heap.next
  pc : s'.pc = s.pc
  temp : s.tempList ≠ [] → s'.tempList ≠ []
  same : ∀ q < s.heap.next,
    s'.heap.get q = { s.heap.get q with status := (s'.heap.get q).status }
  entries : ∀ id, keep id → s'.entries id = s.entries id

variable {keep : Int → Prop} {s s' s'' : State} {r : Nat}

theorem Spares.refl (keep : Int → Prop) (s : State) : Spares keep s s := by
  constructor
  · exact List.Sublist.refl _
  · exact List.Sublist.refl _
  · exact Nat.le_refl _
  · rfl
  · exact id
  · intro q _
    rfl
  · intro id _
    rfl

theorem Spares.trans (h : Spares keep s s') (h' : Spares keep s' s'') : Spares keep s s'' := by
  constructor
  · exact h'.time.trans h.time
  · exact h'.periodic.trans h.periodic
  · exact Nat.le_trans h.next_le h'.next_le
  · exact h'.pc.trans h.pc
  · exact fun htemp => h'.temp (h.temp htemp)
  · intro q hq
    have hsame := h'.same q (Nat.lt_of_lt_of_le hq h.next_le)
    rw [h.same q hq] at hsame
    exact hsame
  · intro id hid
    exact (h'.entries id hid).trans (h.entries id hid)

theorem Listed.spares (h : Listed s) (hspares : Spares keep s s') : Listed s' := by
  constructor
  · intro q hq
    exact Nat.lt_of_lt_of_le (h.time_lt q (hspares.time.subset hq)) hspares.next_le
  · intro q hq
    exact Nat.lt_of_lt_of_le (h.periodic_lt q (hspares.periodic.subset hq)) hspares.next_le
  · intro q hq hmem
    exact h.apart q (hspares.time.subset hq) (hspares.periodic.subset hmem)
  · rw [hspares.pc]
    exact h.working.imp_right (Or.imp_right hspares.temp)

/-- A walk spares what each of its turns spares. -/
theorem Spares.foldl {f : State → Nat → State}
    (hnode : ∀ s q, Listed s → Spares keep s (f s q)) (l : List Nat) (s : State) (h : Listed s) :
    Spares keep s (l.foldl f s) := by
  have hloop := foldl_induction (f := f) (P := fun t _ => Listed t ∧ Spares keep s t) ?_ l s
    ⟨h, Spares.refl keep s⟩
  · exact hloop.2
  · intro t q _ ⟨ht, hspares⟩
    have hturn := hnode t q ht
    exact ⟨ht.spares hturn, hspares.trans hturn⟩

/-! ### The turns of the walks -/

theorem Spares.freeTime (keep : Int → Prop) (s : State) (q : Nat) : Spares keep s (freeTime q s) :=
  { Spares.refl keep s with time := List.erase_sublist }

theorem Spares.setStatus (keep : Int → Prop) (status : Status) (s : State) (q : Nat) :
    Spares keep s (setStatus status q s) := by
  have hget : ∀ p, (UiTimer.setStatus status q s).heap.get p =
      { s.heap.get p with status := ((UiTimer.setStatus status q s).heap.get p).status } := by
    intro p
    by_cases hp : p = q
    · subst hp
      simp [UiTimer.setStatus]
    · simp [UiTimer.setStatus, ObjectHeap.get_modify_of_ne _ hp]
  refine { Spares.refl keep s with same := fun p _ => hget p, entries := ?_ }
  intro id _
  apply List.filter_congr
  intro p _
  rw [State.timerID, hget p]
  rfl

/-- A periodic timer is taken out of its list if its identifier is not kept. -/
theorem Spares.erasePeriodic (s : State) (q : Nat) (hq : ¬ keep (s.timerID q)) :
    Spares keep s { s with periodicTimeList := s.periodicTimeList.erase q } := by
  refine { Spares.refl keep s with periodic := List.erase_sublist, entries := ?_ }
  intro id hid
  have hne : s.timerID q ≠ id := fun heq => hq (heq ▸ hid)
  change (s.periodicTimeList.erase q).filter (fun p => s.timerID p = id) = s.entries id
  rw [← List.erase_filter, List.erase_of_not_mem]
  · rfl
  · intro hmem
    exact hne (of_decide_eq_true (List.mem_filter.mp hmem).2)

theorem Spares.freePeriodic (s : State) (q : Nat) (hq : ¬ keep (s.timerID q)) :
    Spares keep s (freePeriodic q s) :=
  { Spares.erasePeriodic s q hq with }

theorem Spares.delTimerNode (keep : Int → Prop) (id : Int) (s : State) (q : Nat) :
    Spares keep s (delTimerNode id s q) := by
  rw [UiTimer.delTimerNode]
  split
  · exact Spares.freeTime keep s q
  · exact Spares.refl keep s

theorem Spares.delPeriodicTimerNode (id : Int) (hid : ¬ keep id) (s : State) (q : Nat) :
    Spares keep s (delPeriodicTimerNode id s q) := by
  rw [UiTimer.delPeriodicTimerNode]
  split
  · rename_i heq
    have hkeep : ¬ keep (s.timerID q) := by
      rw [State.timerID, heq]
      exact hid
    split
    · have hkeep' : ¬ keep ((UiTimer.setStatus .del q s).timerID q) := by
        simpa [State.timerID, UiTimer.setStatus] using hkeep
      exact (Spares.setStatus keep .del s q).trans (Spares.erasePeriodic _ q hkeep')
    · exact Spares.freePeriodic s q hkeep
    · exact Spares.refl keep s
  · exact Spares.refl keep s

theorem Spares.delPeriodicTimerRetNode (id : Int) (hid : ¬ keep id) (s : State) (q : Nat) :
    Spares keep s (delPeriodicTimerRetNode id s q) := by
  rw [UiTimer.delPeriodicTimerRetNode]
  split
  · rename_i heq
    have hkeep : ¬ keep (s.timerID q) := by
      rw [State.timerID, heq]
      exact hid
    split
    · exact Spares.setStatus keep .del s q
    · exact Spares.freePeriodic s q hkeep
  · exact Spares.refl keep s

/-- The new timer of a call is none of the timers that were there. -/
theorem Spares.alloc (keep : Int → Prop) (h : Listed s) (t : CMTimer) :
    Spares keep s { s with heap := s.heap.alloc t } := by
  have hget : ∀ q < s.heap.next, (s.heap.alloc t).get q = s.heap.get q :=
    fun q hq => ObjectHeap.get_alloc_of_ne t (Nat.ne_of_lt hq)
  refine { Spares.refl keep s with next_le := ?_, same := ?_, entries := ?_ }
  · exact Nat.le_succ _
  · intro q hq
    rw [hget q hq]
  · intro id _
    apply List.filter_congr
    intro q hq
    change decide (((s.heap.alloc t).get q).timerID = id) = decide ((s.heap.get q).timerID = id)
    rw [hget q (h.periodic_lt q hq)]

theorem Spares.scanTimeNode (keep : Int → Prop) (s : State) (q : Nat) (h : Listed s) :
    Spares keep s (scanTimeNode s q) := by
  simp only [UiTimer.scanTimeNode]
  split
  · exact { Spares.refl keep s with }
  · have halloc := Spares.alloc keep h (s.heap.get q)
    have herase := halloc.trans (Spares.freeTime keep _ q)
    refine { herase with temp := ?_ }
    intro _
    exact List.cons_ne_nil _ _

theorem Spares.scanPeriodicNode (keep : Int → Prop) (s : State) (q : Nat) :
    Spares keep s (scanPeriodicNode s q) := by
  simp only [UiTimer.scanPeriodicNode]
  split
  · exact { Spares.refl keep s with }
  · refine { Spares.setStatus keep _ s q with temp := ?_ }
    intro _
    exact List.cons_ne_nil _ _

/-! ### The calls and the timer thread -/

/-- An operation spares the periodic timers of an identifier. -/
def Op.sparesId (id : Int) : Op → Prop
  | .addPeriodicTimer _ _ id' _ _ _ => id' ≠ id
  | .delPeriodicTimer id' _ => id' ≠ id
  | .delPeriodicTimerRetDataPtr id' _ => id' ≠ id
  | .delAllTimer => False
  | _ => True

theorem Spares.uiDelTimer (keep : Int → Prop) (id : Int) (dataptr : Bool) (h : Listed s) :
    Spares keep s (uiDelTimer id dataptr s).2.2 := by
  rw [UiTimer.uiDelTimer]
  split
  · exact Spares.refl keep s
  · exact Spares.foldl (fun s q _ => Spares.delTimerNode keep id s q) _ s h

theorem Spares.uiDelTimerRetDataPtr (keep : Int → Prop) (id : Int) (dataPtr : Bool) (h : Listed s) :
    Spares keep s (uiDelTimerRetDataPtr id dataPtr s).2.2 := by
  rw [UiTimer.uiDelTimerRetDataPtr]
  split
  · exact Spares.refl keep s
  · split
    · exact Spares.refl keep s
    · exact Spares.foldl (fun s q _ => Spares.delTimerNode keep id s q) _ s h

theorem Spares.uiDelPeriodicTimer (keep : Int → Prop) {id : Int} (hid : ¬ keep id)
    (dataptr : Bool) (h : Listed s) : Spares keep s (uiDelPeriodicTimer id dataptr s).2.2 := by
  rw [UiTimer.uiDelPeriodicTimer]
  split
  · exact Spares.refl keep s
  · exact Spares.foldl (fun s q _ => Spares.delPeriodicTimerNode id hid s q) _ s h

theorem Spares.uiDelPeriodicTimerRetDataPtr (keep : Int → Prop) {id : Int} (hid : ¬ keep id)
    (dataPtr : Bool) (h : Listed s) : Spares keep s (uiDelPeriodicTimerRetDataPtr id dataPtr s).2.2 := by
  rw [UiTimer.uiDelPeriodicTimerRetDataPtr]
  split
  · exact Spares.refl keep s
  · split
    · exact Spares.refl keep s
    · exact Spares.foldl (fun s q _ => Spares.delPeriodicTimerRetNode id hid s q) _ s h

theorem Spares.uiDelAllTimer (h : Listed s) : Spares (fun _ => False) s (uiDelAllTimer s) := by
  have htime : Spares (fun _ => False) s (s.timeList.foldl (fun s q => UiTimer.freeTime q s) s) :=
    Spares.foldl (fun s q _ => Spares.freeTime _ s q) _ s h
  exact htime.trans (Spares.foldl (fun s q _ => Spares.freePeriodic s q id) _ _ (h.spares htime))

/-- In front of a scan. -/
def startScan (now : Uptime) (s : State) : State :=
  { s with timerVal := now, pc := .process }

theorem Listed.startScan (h : Listed s) (now : Uptime) : Listed (startScan now s) :=
  ⟨h.time_lt, h.periodic_lt, h.apart, .inr (.inl rfl)⟩

theorem Spares.scanSection (keep : Int → Prop) (h : Listed s) (now : Uptime) :
    Spares keep (startScan now s) (scanSection now s) := by
  have hstart := h.startScan now
  have htime := Spares.foldl (Spares.scanTimeNode keep) (UiTimer.startScan now s).timeList _ hstart
  exact htime.trans (Spares.foldl (fun s q _ => Spares.scanPeriodicNode keep s q) _ _
    (hstart.spares htime))

/-- The timer whose next timeout a step of {lit}`UITimerProc` sets. -/
def State.rearmed (s : State) : Option Nat :=
  match s.pc, s.tempList with
  | .process, e :: _ =>
      match e.type with
      | .periodic => if (s.heap.get e.element).status = .proc then some e.element else none
      | .oneShot => none
  | _, _ => none

/-- The timer whose next timeout {lit}`UITimerProc` sets. -/
def Op.rearmed (op : Op) (s : State) : Option Nat :=
  match op with
  | .timerProc _ => s.rearmed
  | _ => none

/-- The timers behind a step of {lit}`UITimerProc` that does not scan. -/
def State.rearm (s : State) (q : Nat) : CMTimer :=
  if s.rearmed = some q then
    { s.heap.get q with
      timeout := rearmTimeout s.timerVal (s.heap.get q).timerLen, status := .idle }
  else s.heap.get q

/-- Between the scans only the timer whose next timeout is set changes. -/
structure Works (s s' : State) : Prop where
  time : s'.timeList = s.timeList
  periodic : s'.periodicTimeList = s.periodicTimeList
  next : s'.heap.next = s.heap.next
  get : s'.heap.get = s.rearm
  working : s'.pc = .scan ∨ s'.pc = .process ∨ s'.tempList ≠ []

theorem rearm_of_none (h : s.rearmed = none) : s.rearm = s.heap.get := by
  funext q
  rw [State.rearm, if_neg (by simp [h])]

/-- A step that changes no timer. -/
theorem Works.of_get (hnone : s.rearmed = none) (htime : s'.timeList = s.timeList)
    (hperiodic : s'.periodicTimeList = s.periodicTimeList) (hnext : s'.heap.next = s.heap.next)
    (hget : s'.heap.get = s.heap.get)
    (hworking : s'.pc = .scan ∨ s'.pc = .process ∨ s'.tempList ≠ []) : Works s s' :=
  ⟨htime, hperiodic, hnext, hget.trans (rearm_of_none hnone).symm, hworking⟩

theorem periodicSection_works {e : ProcElement} {rest : List ProcElement} (hpc : s.pc = .process)
    (htemp : s.tempList = e :: rest) (htype : e.type = .periodic) :
    Works s (periodicSection e.element s) := by
  have hne : s.tempList ≠ [] := by
    rw [htemp]
    exact List.cons_ne_nil _ _
  rw [periodicSection]
  simp only [ObjectHeap.get_touch]
  cases hstatus : (s.heap.get e.element).status with
  | proc =>
      have hrearmed : s.rearmed = some e.element := by
        simp [State.rearmed, hpc, htemp, htype, hstatus]
      refine ⟨rfl, rfl, rfl, ?_, .inr (.inr hne)⟩
      funext q
      rw [State.rearm, hrearmed]
      by_cases hq : q = e.element
      · subst hq
        simp
      · have hq' : e.element ≠ q := fun heq => hq heq.symm
        simp [ObjectHeap.get_modify_of_ne _ hq, hq']
  | idle =>
      have hnone : s.rearmed = none := by
        simp [State.rearmed, hpc, htemp, htype, hstatus]
      exact Works.of_get hnone rfl rfl rfl rfl (.inr (.inr hne))
  | del =>
      have hnone : s.rearmed = none := by
        simp [State.rearmed, hpc, htemp, htype, hstatus]
      exact Works.of_get hnone rfl rfl rfl rfl (.inr (.inr hne))

theorem releaseDone_get (e : ProcElement) (s : State) :
    (releaseDone e s).timeList = s.timeList ∧
      (releaseDone e s).periodicTimeList = s.periodicTimeList ∧
      (releaseDone e s).heap.next = s.heap.next ∧ (releaseDone e s).heap.get = s.heap.get := by
  rw [releaseDone]
  split
  · simp
  · simp only
    split <;> simp

theorem uiTimerProc_works (now : Uptime) (s : State) (hpc : s.pc ≠ .scan)
    (hworking : s.pc = .scan ∨ s.pc = .process ∨ s.tempList ≠ []) : Works s (uiTimerProc now s) := by
  rw [uiTimerProc]
  split
  · rename_i hscan
    exact absurd hscan hpc
  · rename_i hprocess htemp
    have hnone : s.rearmed = none := by
      simp [State.rearmed, hprocess, htemp]
    exact Works.of_get hnone rfl rfl rfl rfl (.inl rfl)
  · rename_i e rest hprocess htemp
    split
    · rename_i htype
      exact periodicSection_works hprocess htemp htype
    · rename_i htype
      have hnone : s.rearmed = none := by
        simp [State.rearmed, hprocess, htemp, htype]
      refine Works.of_get hnone rfl rfl rfl rfl (.inr (.inr ?_))
      change s.tempList ≠ []
      rw [htemp]
      exact List.cons_ne_nil _ _
  · rename_i fn e rest hcall htemp
    have hnone : s.rearmed = none := by
      simp [State.rearmed, hcall]
    refine Works.of_get hnone rfl rfl rfl rfl (.inr (.inr ?_))
    change s.tempList ≠ []
    rw [htemp]
    exact List.cons_ne_nil _ _
  · rename_i e rest hfinish htemp
    have hnone : s.rearmed = none := by
      simp [State.rearmed, hfinish]
    rcases releaseDone_get e s with ⟨htime, hperiodic, hnext, hget⟩
    exact Works.of_get hnone htime hperiodic hnext hget (.inr (.inl rfl))
  · rename_i fn hcall htemp
    simp [hcall, htemp] at hworking
  · rename_i hfinish htemp
    simp [hfinish, htemp] at hworking

/-! ### Every step -/

theorem Listed.init : Listed State.init := by
  constructor
  · simp [State.init]
  · simp [State.init]
  · simp [State.init]
  · exact .inl rfl

theorem Listed.alloc (h : Listed s) (now : Uptime) (t : CMTimer) : Listed (allocTimer now t s) :=
  { h.spares (Spares.alloc (fun _ => True) h t) with }

theorem Listed.next_notMem (h : Listed s) :
    s.heap.next ∉ s.timeList ∧ s.heap.next ∉ s.periodicTimeList :=
  ⟨fun hmem => Nat.lt_irrefl _ (h.time_lt _ hmem),
    fun hmem => Nat.lt_irrefl _ (h.periodic_lt _ hmem)⟩

theorem Listed.uiAddTimer (h : Listed s) (alloc : Alloc) (now : Uptime) (id : Int)
    (timerLen : UInt32) (timefn : Option Nat) (privdata : Nat) :
    Listed (uiAddTimer alloc now id timerLen timefn privdata s).2 := by
  simp only [UiTimer.uiAddTimer]
  split
  · exact h
  · have halloc := h.alloc now
      { timerID := id, data := privdata, timerLen := timerLen,
        timeout := addTimeout now timerLen.toNat, status := .idle, fn := timefn }
    split
    · exact { halloc with }
    · split
      · exact halloc
      · refine { halloc with time_lt := append_next_lt halloc.time_lt, apart := ?_ }
        intro q hq
        rcases List.mem_append.mp hq with hq | hq
        · exact halloc.apart q hq
        · rw [List.mem_singleton.mp hq]
          exact h.next_notMem.2

theorem Listed.uiAddPeriodicTimer (h : Listed s) (alloc : Alloc) (now : Uptime) (id : Int)
    (timerLen : Int32) (timefn : Option Nat) (privdata : Nat) :
    Listed (uiAddPeriodicTimer alloc now id timerLen timefn privdata s).2 := by
  simp only [UiTimer.uiAddPeriodicTimer]
  split
  · exact h
  · have halloc := h.alloc now
      { timerID := id, data := privdata, timerLen := timerLen.toUInt32,
        timeout := addTimeout now timerLen.toInt, status := .idle, fn := timefn }
    split
    · exact { halloc with }
    · split
      · exact halloc
      · refine { halloc with periodic_lt := append_next_lt halloc.periodic_lt, apart := ?_ }
        intro q hq hmem
        rcases List.mem_append.mp hmem with hmem | hmem
        · exact halloc.apart q hq hmem
        · rw [List.mem_singleton.mp hmem] at hq
          exact h.next_notMem.1 hq

theorem Listed.uiTimerProc (h : Listed s) (now : Uptime) : Listed (uiTimerProc now s) := by
  by_cases hpc : s.pc = .scan
  · rw [UiTimer.uiTimerProc, hpc]
    exact (h.startScan now).spares (Spares.scanSection (fun _ => True) h now)
  · have hworks := uiTimerProc_works now s hpc h.working
    constructor
    · rw [hworks.time, hworks.next]
      exact h.time_lt
    · rw [hworks.periodic, hworks.next]
      exact h.periodic_lt
    · rw [hworks.time, hworks.periodic]
      exact h.apart
    · exact hworks.working

/-- Every step keeps what holds of the lists. -/
theorem Listed.apply (h : Listed s) (op : Op) : Listed (op.apply s) := by
  cases op with
  | addTimer alloc now id timerLen timefn privdata =>
      exact h.uiAddTimer alloc now id timerLen timefn privdata
  | addPeriodicTimer alloc now id timerLen timefn privdata =>
      exact h.uiAddPeriodicTimer alloc now id timerLen timefn privdata
  | delTimer id dataptr => exact h.spares (Spares.uiDelTimer (fun _ => False) id dataptr h)
  | delTimerRetDataPtr id dataPtr =>
      exact h.spares (Spares.uiDelTimerRetDataPtr (fun _ => False) id dataPtr h)
  | delPeriodicTimer id dataptr =>
      exact h.spares (Spares.uiDelPeriodicTimer (fun _ => False) not_false dataptr h)
  | delPeriodicTimerRetDataPtr id dataPtr =>
      exact h.spares (Spares.uiDelPeriodicTimerRetDataPtr (fun _ => False) not_false dataPtr h)
  | delAllTimer => exact h.spares (Spares.uiDelAllTimer h)
  | timerProc now => exact h.uiTimerProc now

theorem Listed.run (h : Listed s) (ops : List Op) : Listed (run ops s) := by
  induction ops generalizing s with
  | nil => exact h
  | cons op ops ih => exact ih (h.apply op)

/-- What holds of the lists holds in every run. -/
theorem reaches_listed (h : Reaches (fun _ _ => True) s) : Listed s := by
  induction h with
  | init => exact Listed.init
  | step _ _ ih => exact ih.apply _

/-! ## An entry -/

/-- The timer {lit}`r` is the only entry of an identifier, and it is {lit}`t` but for the status. -/
structure Armed (id : Int) (r : Nat) (t : CMTimer) (s : State) : Prop where
  entries : s.entries id = [r]
  get : s.heap.get r = { t with status := (s.heap.get r).status }

variable {id : Int} {t : CMTimer}

theorem mem_of_entries (h : s.entries id = [r]) : r ∈ s.periodicTimeList ∧ s.timerID r = id := by
  have hmem : r ∈ s.entries id := by
    rw [h]
    exact List.mem_singleton_self r
  have hfilter := List.mem_filter.mp hmem
  exact ⟨hfilter.1, of_decide_eq_true hfilter.2⟩

theorem Armed.spares (h : Armed id r t s) (hlisted : Listed s) (hspares : Spares keep s s')
    (hid : keep id) : Armed id r t s' := by
  constructor
  · rw [hspares.entries id hid, h.entries]
  · have hr := hlisted.periodic_lt r (mem_of_entries h.entries).1
    have hsame := hspares.same r hr
    rw [h.get] at hsame
    exact hsame

/-- The entries stay when a timer changes and keeps its identifier. -/
theorem entries_modify (id : Int) {q : Nat} (f : CMTimer → CMTimer)
    (hf : (f (s.heap.get q)).timerID = s.timerID q) :
    ({ s with heap := s.heap.modify q f } : State).entries id = s.entries id := by
  apply List.filter_congr
  intro p _
  change decide (((s.heap.modify q f).get p).timerID = id) = decide ((s.heap.get p).timerID = id)
  by_cases hp : p = q
  · subst hp
    rw [ObjectHeap.get_modify_self, hf]
    rfl
  · rw [ObjectHeap.get_modify_of_ne _ hp]

theorem entries_append (id : Int) (s : State) (q : Nat) :
    ({ s with periodicTimeList := s.periodicTimeList ++ [q] } : State).entries id =
      s.entries id ++ if s.timerID q = id then [q] else [] := by
  change (s.periodicTimeList ++ [q]).filter (fun p => s.timerID p = id) = _
  rw [List.filter_append]
  by_cases hq : s.timerID q = id
  · have hlast : [q].filter (fun p => s.timerID p = id) = [q] := by
      simp [hq]
    rw [if_pos hq, hlast]
    rfl
  · have hlast : [q].filter (fun p => s.timerID p = id) = [] := by
      simp [hq]
    rw [if_neg hq, hlast]
    rfl

/-- Another timer may change if it keeps its identifier. -/
theorem Armed.modify (h : Armed id r t s) {q : Nat} (hq : q ≠ r) (f : CMTimer → CMTimer)
    (hf : (f (s.heap.get q)).timerID = s.timerID q) :
    Armed id r t { s with heap := s.heap.modify q f } := by
  constructor
  · rw [entries_modify id f hf, h.entries]
  · change (s.heap.modify q f).get r = { t with status := ((s.heap.modify q f).get r).status }
    rw [ObjectHeap.get_modify_of_ne _ (Ne.symm hq)]
    exact h.get

/-- An entry of another identifier may be appended. -/
theorem Armed.append (h : Armed id r t s) {q : Nat} (hq : s.timerID q ≠ id) :
    Armed id r t { s with periodicTimeList := s.periodicTimeList ++ [q] } := by
  refine ⟨?_, h.get⟩
  rw [entries_append, if_neg hq, h.entries, List.append_nil]

theorem Armed.alloc (h : Armed id r t s) (hlisted : Listed s) (now : Uptime) (u : CMTimer) :
    Armed id r t (allocTimer now u s) :=
  { h.spares hlisted (Spares.alloc (fun _ => True) hlisted u) trivial with }

theorem Armed.uiAddTimer (h : Armed id r t s) (hlisted : Listed s) (alloc : Alloc) (now : Uptime)
    (id' : Int) (timerLen : UInt32) (timefn : Option Nat) (privdata : Nat) :
    Armed id r t (uiAddTimer alloc now id' timerLen timefn privdata s).2 := by
  simp only [UiTimer.uiAddTimer]
  split
  · exact h
  · have halloc := h.alloc hlisted now
      { timerID := id', data := privdata, timerLen := timerLen,
        timeout := addTimeout now timerLen.toNat, status := .idle, fn := timefn }
    split
    · rename_i intimer hfind
      rcases find_allocTimer hlisted.time_lt hfind with ⟨hmem, hget, hid⟩
      have hne : intimer ≠ r := fun heq => hlisted.apart r (heq ▸ hmem) (mem_of_entries h.entries).1
      refine { halloc.modify hne _ ?_ with }
      rw [State.timerID, hget, hid]
    · split
      · exact halloc
      · exact { halloc with }

theorem Armed.uiAddPeriodicTimer (h : Armed id r t s) (hlisted : Listed s) (alloc : Alloc)
    (now : Uptime) {id' : Int} (hid' : id' ≠ id) (timerLen : Int32) (timefn : Option Nat)
    (privdata : Nat) :
    Armed id r t (uiAddPeriodicTimer alloc now id' timerLen timefn privdata s).2 := by
  simp only [UiTimer.uiAddPeriodicTimer]
  split
  · exact h
  · have halloc := h.alloc hlisted now
      { timerID := id', data := privdata, timerLen := timerLen.toUInt32,
        timeout := addTimeout now timerLen.toInt, status := .idle, fn := timefn }
    split
    · rename_i intimer hfind
      rcases find_allocTimer hlisted.periodic_lt hfind with ⟨hmem, hget, hid⟩
      have hne : intimer ≠ r := by
        intro heq
        have hr := (mem_of_entries h.entries).2
        rw [State.timerID, ← heq, hid] at hr
        exact hid' hr
      refine { halloc.modify hne _ ?_ with }
      rw [State.timerID, hget, hid]
    · split
      · exact halloc
      · refine halloc.append ?_
        simpa [State.timerID, allocTimer] using hid'

/-- What a step makes of the entry {lit}`r`. -/
def Op.entryAfter (op : Op) (r : Nat) (t : CMTimer) (s : State) : CMTimer :=
  if op.rearmed s = some r then { t with timeout := rearmTimeout s.timerVal t.timerLen } else t

theorem Armed.uiTimerProc (h : Armed id r t s) (hlisted : Listed s) (now : Uptime) :
    Armed id r ((Op.timerProc now).entryAfter r t s) (uiTimerProc now s) := by
  by_cases hpc : s.pc = .scan
  · have hnone : (Op.timerProc now).rearmed s = none := by
      simp [Op.rearmed, State.rearmed, hpc]
    rw [Op.entryAfter, hnone, if_neg (by simp), UiTimer.uiTimerProc, hpc]
    have hstart : Armed id r t (startScan now s) := ⟨h.entries, h.get⟩
    exact hstart.spares (hlisted.startScan now) (Spares.scanSection (fun _ => True) hlisted now) trivial
  · have hworks := uiTimerProc_works now s hpc hlisted.working
    constructor
    · rw [← h.entries, State.entries, State.entries, hworks.periodic]
      apply List.filter_congr
      intro q _
      rw [State.timerID, hworks.get, State.rearm]
      split <;> rfl
    · rw [hworks.get, State.rearm, Op.entryAfter, Op.rearmed]
      split
      · rw [h.get]
      · exact h.get

/-- A step that neither adds nor deletes it keeps an entry, and sets its next timeout only. -/
theorem Armed.apply (h : Armed id r t s) (hlisted : Listed s) {op : Op} (hop : op.sparesId id) :
    Armed id r (op.entryAfter r t s) (op.apply s) := by
  cases op with
  | addTimer alloc now id' timerLen timefn privdata =>
      exact h.uiAddTimer hlisted alloc now id' timerLen timefn privdata
  | addPeriodicTimer alloc now id' timerLen timefn privdata =>
      exact h.uiAddPeriodicTimer hlisted alloc now hop timerLen timefn privdata
  | delTimer id' dataptr =>
      exact h.spares hlisted (Spares.uiDelTimer (fun _ => True) id' dataptr hlisted) trivial
  | delTimerRetDataPtr id' dataPtr =>
      exact h.spares hlisted (Spares.uiDelTimerRetDataPtr (fun _ => True) id' dataPtr hlisted) trivial
  | delPeriodicTimer id' dataptr =>
      exact h.spares hlisted (Spares.uiDelPeriodicTimer (fun i => id' ≠ i)
        (fun hne => hne rfl) dataptr hlisted) hop
  | delPeriodicTimerRetDataPtr id' dataPtr =>
      exact h.spares hlisted (Spares.uiDelPeriodicTimerRetDataPtr (fun i => id' ≠ i)
        (fun hne => hne rfl) dataPtr hlisted) hop
  | delAllTimer => exact absurd hop not_false
  | timerProc now => exact h.uiTimerProc hlisted now

/-- What is set anew when a timer runs out leaves the callback, its data and the length alone. -/
structure SameCall (t u : CMTimer) : Prop where
  fn : u.fn = t.fn
  data : u.data = t.data
  timerLen : u.timerLen = t.timerLen

theorem sameCall_entryAfter (op : Op) (r : Nat) (t : CMTimer) (s : State) :
    SameCall t (op.entryAfter r t s) := by
  rw [Op.entryAfter]
  split
  · exact ⟨rfl, rfl, rfl⟩
  · exact ⟨rfl, rfl, rfl⟩

/-- A run that neither adds nor deletes it keeps an entry, but for its next timeout. -/
theorem Armed.run (h : Armed id r t s) (hlisted : Listed s) (ops : List Op)
    (hops : ∀ op ∈ ops, op.sparesId id) : ∃ u, SameCall t u ∧ Armed id r u (run ops s) := by
  induction ops generalizing s t with
  | nil => exact ⟨t, ⟨rfl, rfl, rfl⟩, h⟩
  | cons op ops ih =>
      have hstep := h.apply hlisted (hops op List.mem_cons_self)
      obtain ⟨u, hu, hrun⟩ := ih hstep (hlisted.apply op)
        (fun op' hop' => hops op' (List.mem_cons_of_mem op hop'))
      have hsame := sameCall_entryAfter op r t s
      refine ⟨u, ?_, hrun⟩
      exact ⟨hu.fn.trans hsame.fn, hu.data.trans hsame.data, hu.timerLen.trans hsame.timerLen⟩

/-! ## The next timeout is set some time -/

/-- Steps of {lit}`UITimerProc` lead from a state to another. -/
def Ticks (s s' : State) : Prop :=
  ∃ nows : List Uptime, s' = run (nows.map .timerProc) s

theorem Ticks.refl (s : State) : Ticks s s :=
  ⟨[], rfl⟩

theorem Ticks.tick (now : Uptime) (h : Ticks (uiTimerProc now s) s') : Ticks s s' := by
  rcases h with ⟨nows, rfl⟩
  exact ⟨now :: nows, rfl⟩

theorem Ticks.trans (h : Ticks s s') (h' : Ticks s' s'') : Ticks s s'' := by
  rcases h with ⟨nows, rfl⟩
  rcases h' with ⟨nows', rfl⟩
  refine ⟨nows ++ nows', ?_⟩
  rw [List.map_append, UiTimer.run, UiTimer.run, UiTimer.run, List.foldl_append]

theorem Ticks.listed (h : Ticks s s') (hlisted : Listed s) : Listed s' := by
  rcases h with ⟨nows, rfl⟩
  exact hlisted.run _

/-- What an entry keeps while elements of {lit}`temp_list` are worked off: the length, and that it
was not marked. -/
structure Waits (r : Nat) (timerLen : UInt32) (s : State) : Prop where
  timerLen : (s.heap.get r).timerLen = timerLen
  unmarked : (s.heap.get r).status ≠ .del
  mem : r ∈ s.periodicTimeList

theorem Waits.works {timerLen : UInt32} (h : Waits r timerLen s) (hworks : Works s s') :
    Waits r timerLen s' := by
  constructor
  · rw [hworks.get, State.rearm]
    split
    · exact h.timerLen
    · exact h.timerLen
  · rw [hworks.get, State.rearm]
    split
    · simp
    · exact h.unmarked
  · rw [hworks.periodic]
    exact h.mem

/-- How many steps it takes at most until the next scan. -/
def State.left (s : State) : Nat :=
  match s.pc with
  | .scan => 0
  | .process => 3 * s.tempList.length + 3
  | .call _ => 3 * s.tempList.length + 2
  | .finish => 3 * s.tempList.length + 1

/-- The elements of {lit}`temp_list` whose callbacks were not taken yet. -/
def State.ahead (s : State) : List ProcElement :=
  match s.pc with
  | .call _ => s.tempList.tail
  | .finish => s.tempList.tail
  | _ => s.tempList

/-- Where {lit}`UITimerProc` stands behind a step between two scans. -/
inductive Turn (s s' : State) : Prop where
  | idle (hpc : s.pc = .process) (htemp : s.tempList = []) (hpc' : s'.pc = .scan)
  | take {e : ProcElement} {rest : List ProcElement} (hpc : s.pc = .process)
      (htemp : s.tempList = e :: rest) (htemp' : s'.tempList = e :: rest) (fn : Option Nat)
      (hpc' : s'.pc = afterTaken fn)
  | call {e : ProcElement} {rest : List ProcElement} {fn : Nat} (hpc : s.pc = .call fn)
      (htemp : s.tempList = e :: rest) (htemp' : s'.tempList = e :: rest) (hpc' : s'.pc = .finish)
  | drop {e : ProcElement} {rest : List ProcElement} (hpc : s.pc = .finish)
      (htemp : s.tempList = e :: rest) (htemp' : s'.tempList = rest) (hpc' : s'.pc = .process)

theorem uiTimerProc_turn (now : Uptime) (s : State) (hpc : s.pc ≠ .scan)
    (hworking : s.pc = .scan ∨ s.pc = .process ∨ s.tempList ≠ []) : Turn s (uiTimerProc now s) := by
  rw [uiTimerProc]
  split
  · rename_i hscan
    exact absurd hscan hpc
  · rename_i hprocess htemp
    exact .idle hprocess htemp rfl
  · rename_i e rest hprocess htemp
    split
    · rw [periodicSection]
      simp only [ObjectHeap.get_touch]
      split
      · exact .take hprocess htemp htemp (s.heap.get e.element).fn rfl
      · exact .take hprocess htemp htemp none rfl
    · exact .take hprocess htemp htemp (s.heap.get e.element).fn rfl
  · rename_i fn e rest hcall htemp
    exact .call hcall htemp htemp rfl
  · rename_i e rest hfinish htemp
    exact .drop hfinish htemp rfl rfl
  · rename_i fn hcall htemp
    simp [hcall, htemp] at hworking
  · rename_i hfinish htemp
    simp [hfinish, htemp] at hworking

theorem Turn.left_lt (h : Turn s s') : s'.left < s.left := by
  cases h with
  | idle hpc htemp hpc' => simp [State.left, hpc, hpc']
  | take hpc htemp htemp' fn hpc' =>
      cases fn <;> simp [State.left, afterTaken, hpc, htemp, hpc', htemp']
  | call hpc htemp htemp' hpc' => simp [State.left, hpc, htemp, hpc', htemp']
  | drop hpc htemp htemp' hpc' =>
      simp only [State.left, hpc, htemp, hpc', htemp', List.length_cons]
      omega

/-- Only the first element of {lit}`temp_list` can have its callback taken. -/
theorem Turn.ahead (h : Turn s s') {e : ProcElement} (he : e ∈ s.ahead) :
    s'.pc ≠ .scan ∧ (e ∈ s'.ahead ∨ s.pc = .process ∧ s.tempList.head? = some e) := by
  cases h with
  | idle hpc htemp hpc' => simp [State.ahead, hpc, htemp] at he
  | take hpc htemp htemp' fn hpc' =>
      simp only [State.ahead, hpc, htemp, List.mem_cons] at he
      rcases he with rfl | he
      · cases fn <;> simp [afterTaken, hpc, htemp, hpc']
      · cases fn <;> simp [State.ahead, afterTaken, hpc', htemp', he]
  | call hpc htemp htemp' hpc' =>
      simp only [State.ahead, hpc, htemp, List.tail_cons] at he
      simp [State.ahead, hpc', htemp', he]
  | drop hpc htemp htemp' hpc' =>
      simp only [State.ahead, hpc, htemp, List.tail_cons] at he
      simp [State.ahead, hpc', htemp', he]

/-- {lit}`UITimerProc` gets to its next scan. -/
theorem exists_scan {timerLen : UInt32} (s : State) (h : Listed s) (hr : Waits r timerLen s) :
    ∃ s', Ticks s s' ∧ Waits r timerLen s' ∧ s'.pc = .scan := by
  by_cases hpc : s.pc = .scan
  · exact ⟨s, Ticks.refl s, hr, hpc⟩
  · have hless := (uiTimerProc_turn (seconds 0) s hpc h.working).left_lt
    have hnext := hr.works (uiTimerProc_works (seconds 0) s hpc h.working)
    rcases exists_scan _ (h.uiTimerProc (seconds 0)) hnext with ⟨s', hticks, hwaits, hscan⟩
    exact ⟨s', hticks.tick (seconds 0), hwaits, hscan⟩
termination_by s.left

/-- A timer that is being processed and whose callback was not taken yet. -/
structure Pends (r : Nat) (timerLen : UInt32) (s : State) : Prop where
  timerLen : (s.heap.get r).timerLen = timerLen
  proc : (s.heap.get r).status = .proc
  ahead : { type := .periodic, element := r } ∈ s.ahead
  pc : s.pc ≠ .scan

/-- {lit}`UITimerProc` gets to a timer that is being processed. -/
theorem exists_rearm_of_pends {timerLen : UInt32} (s : State) (h : Listed s)
    (hr : Pends r timerLen s) :
    ∃ s', Ticks s s' ∧ s'.rearmed = some r ∧ (s'.heap.get r).timerLen = timerLen := by
  by_cases hrearmed : s.rearmed = some r
  · exact ⟨s, Ticks.refl s, hrearmed, hr.timerLen⟩
  · have hturn := uiTimerProc_turn (seconds 0) s hr.pc h.working
    have hless := hturn.left_lt
    have hget : (uiTimerProc (seconds 0) s).heap.get r = s.heap.get r := by
      rw [(uiTimerProc_works (seconds 0) s hr.pc h.working).get, State.rearm, if_neg hrearmed]
    have hpends : Pends r timerLen (uiTimerProc (seconds 0) s) := by
      rcases hturn.ahead hr.ahead with ⟨hpc, hahead | ⟨hprocess, hhead⟩⟩
      · exact ⟨by rw [hget]; exact hr.timerLen, by rw [hget]; exact hr.proc, hahead, hpc⟩
      · rcases List.head?_eq_some_iff.mp hhead with ⟨rest, htemp⟩
        exact absurd (by simp [State.rearmed, hprocess, htemp, hr.proc]) hrearmed
    rcases exists_rearm_of_pends _ (h.uiTimerProc (seconds 0)) hpends with ⟨s', hticks, hrearm⟩
    exact ⟨s', hticks.tick (seconds 0), hrearm⟩
termination_by s.left

/-- The scan of {lit}`time_list` leaves a timer of the other list alone. -/
theorem scanTimeLoop_get (l : List Nat) (hr : r < s.heap.next) :
    (l.foldl scanTimeNode s).heap.get r = s.heap.get r ∧
      (l.foldl scanTimeNode s).timerVal = s.timerVal ∧
      (l.foldl scanTimeNode s).periodicTimeList = s.periodicTimeList ∧
      (l.foldl scanTimeNode s).pc = s.pc := by
  have hloop := foldl_induction (f := scanTimeNode)
    (P := fun t _ => r < t.heap.next ∧ t.heap.get r = s.heap.get r ∧ t.timerVal = s.timerVal ∧
      t.periodicTimeList = s.periodicTimeList ∧ t.pc = s.pc)
    ?_ l s ⟨hr, rfl, rfl, rfl, rfl⟩
  · exact hloop.2
  · intro t q _ ⟨hlt, hget, hsame⟩
    simp only [scanTimeNode]
    split
    · exact ⟨hlt, hget, hsame⟩
    · refine ⟨Nat.lt_succ_of_lt hlt, ?_, hsame⟩
      rw [← hget]
      exact ObjectHeap.get_alloc_of_ne _ (Nat.ne_of_lt hlt)

/-- A timer that is due is processed behind the scan of {lit}`periodic_time_list`. -/
theorem scanPeriodicLoop_pends {timerLen : UInt32} (hpc : s.pc = .process)
    (hr : Waits r timerLen s) (hdue : later (s.heap.get r).timeout s.timerVal = false) :
    Pends r timerLen (s.periodicTimeList.foldl scanPeriodicNode s) := by
  have hloop := foldl_induction (f := scanPeriodicNode)
    (P := fun t rest => t.pc = .process ∧ (t.heap.get r).timerLen = timerLen ∧
      (t.heap.get r).status ≠ .del ∧ later (t.heap.get r).timeout t.timerVal = false ∧
      (r ∈ rest ∨ { type := .periodic, element := r } ∈ t.tempList ∧ (t.heap.get r).status = .proc))
    ?_ s.periodicTimeList s ⟨hpc, hr.timerLen, hr.unmarked, hdue, .inl hr.mem⟩
  · rcases hloop with ⟨hpc, hlen, -, -, hmem | ⟨htemp, hproc⟩⟩
    · cases hmem
    · refine ⟨hlen, hproc, ?_, ?_⟩
      · rw [State.ahead, hpc]
        exact htemp
      · rw [hpc]
        simp
  · intro t q rest ⟨hpc, hlen, hdel, hdue, hmem⟩
    simp only [scanPeriodicNode]
    split
    · rename_i hlater
      refine ⟨hpc, hlen, hdel, hdue, hmem.imp_left ?_⟩
      intro hq
      rcases List.mem_cons.mp hq with rfl | hq
      · -- a timer that is due is not passed over
        rw [ObjectHeap.get_touch, hdue] at hlater
        cases hlater
      · exact hq
    · by_cases hq : q = r
      · subst hq
        simp only [setStatus, ObjectHeap.get_touch, ObjectHeap.get_modify_self]
        refine ⟨hpc, hlen, ?_, hdue, .inr ⟨List.mem_cons_self, ?_⟩⟩
        · simp [hdel]
        · simp [hdel]
      · simp only [setStatus, ObjectHeap.get_touch,
          ObjectHeap.get_modify_of_ne _ (fun heq : r = q => hq heq.symm)]
        refine ⟨hpc, hlen, hdel, hdue, ?_⟩
        rcases hmem with hmem | ⟨htemp, hproc⟩
        · rcases List.mem_cons.mp hmem with heq | hmem
          · exact absurd heq.symm hq
          · exact .inl hmem
        · exact .inr ⟨List.mem_cons_of_mem _ htemp, hproc⟩

/-- A reading at which a timeout is over. -/
def behindTimeout (timeout : TimeVal) : Uptime :=
  seconds (timeout.tvSec + 1).toNat

theorem later_behindTimeout (timeout : TimeVal) : later timeout (behindTimeout timeout) = false := by
  rw [later_eq_false_iff]
  simp only [behindTimeout, seconds]
  omega

/-- The next timeout of an entry that is not marked is set some time. -/
theorem exists_rearm (h : Listed s) (hr : r ∈ s.periodicTimeList)
    (hdel : (s.heap.get r).status ≠ .del) :
    ∃ s', Ticks s s' ∧ s'.rearmed = some r ∧
      (s'.heap.get r).timerLen = (s.heap.get r).timerLen := by
  rcases exists_scan s h ⟨rfl, hdel, hr⟩ with ⟨u, hu, hwaits, hscan⟩
  let now := behindTimeout (u.heap.get r).timeout
  have hlisted := hu.listed h
  have hlt : r < u.heap.next := hlisted.periodic_lt r hwaits.mem
  obtain ⟨hget, hval, hperiodic, hpc⟩ :=
    scanTimeLoop_get (s := startScan now u) (startScan now u).timeList hlt
  let v := (startScan now u).timeList.foldl scanTimeNode (startScan now u)
  have hpends : Pends r (s.heap.get r).timerLen (scanSection now u) := by
    change Pends r _ (v.periodicTimeList.foldl scanPeriodicNode v)
    apply scanPeriodicLoop_pends
    · exact hpc
    · constructor
      · rw [hget]
        exact hwaits.timerLen
      · rw [hget]
        exact hwaits.unmarked
      · rw [hperiodic]
        exact hwaits.mem
    · rw [hget, hval]
      exact later_behindTimeout _
  have hscanned : uiTimerProc now u = scanSection now u := by
    rw [uiTimerProc, hscan]
  obtain ⟨s', hs', hrearm⟩ :=
    exists_rearm_of_pends _ (hscanned ▸ hlisted.uiTimerProc now) hpends
  exact ⟨s', hu.trans (Ticks.tick now (hscanned ▸ hs')), hrearm⟩

/-! ## The latest call -/

/-- A timeout is a number of milliseconds behind a reading. -/
def DueIn (timeout : TimeVal) (reading : Uptime) (len : Int) : Prop :=
  timeout.tvSec * 1000000 + timeout.tvUsec = reading.micros + len * 1000

theorem addTimeout_dueIn (now : Uptime) (len : Int) : DueIn (addTimeout now len) now len := by
  have hlen := Int.mul_tdiv_add_tmod len 1000
  have husec := Int.mul_tdiv_add_tmod (now.usec + len.tmod 1000 * 1000) 1000000
  simp only [DueIn, addTimeout, Uptime.micros]
  omega

theorem rearmTimeout_dueIn_iff (reading : Uptime) (timerLen : UInt32) (len : Int) :
    DueIn (rearmTimeout reading timerLen) reading len ↔ (timerLen.toNat : Int) = len := by
  simp only [DueIn, rearmTimeout, Uptime.micros]
  omega

/-- The call with these arguments decides about the only entry of its identifier: its callback, its
data and its next timeout are those of the call, and until it is added again or deleted every
timeout that {lit}`UITimerProc` sets is the period of the call behind its reading. -/
def LatestCall (now : Uptime) (id : Int) (timerLen : Int32) (timefn : Option Nat) (privdata : Nat)
    (s : State) : Prop :=
  ∃ r, DueIn (s.heap.get r).timeout now timerLen.toInt ∧
    ∀ ops, (∀ op ∈ ops, op.sparesId id) →
      (run ops s).entries id = [r] ∧
      ((run ops s).heap.get r).fn = timefn ∧ ((run ops s).heap.get r).data = privdata ∧
      ∀ op : Op, op.sparesId id →
        if op.rearmed (run ops s) = some r then
          DueIn ((op.apply (run ops s)).heap.get r).timeout (run ops s).timerVal timerLen.toInt
        else ((op.apply (run ops s)).heap.get r).timeout = ((run ops s).heap.get r).timeout

/-- The latest call decides about an entry if it has set the length too. -/
theorem latestCall_iff {now : Uptime} {timerLen : Int32} {timefn : Option Nat} {privdata : Nat}
    (h : Listed s) (hentries : s.entries id = [r]) (hdel : (s.heap.get r).status ≠ .del)
    (hdue : DueIn (s.heap.get r).timeout now timerLen.toInt) (hfn : (s.heap.get r).fn = timefn)
    (hdata : (s.heap.get r).data = privdata) :
    LatestCall now id timerLen timefn privdata s ↔
      ((s.heap.get r).timerLen.toNat : Int) = timerLen.toInt := by
  have harmed : Armed id r (s.heap.get r) s := ⟨hentries, rfl⟩
  constructor
  · rintro ⟨q, -, hrun⟩
    rcases hrun [] (by simp) with ⟨hq, -⟩
    obtain rfl : r = q := by
      have hsame : [r] = [q] := hentries.symm.trans hq
      simpa using hsame
    rcases exists_rearm h (mem_of_entries hentries).1 hdel with ⟨s', ⟨nows, rfl⟩, hrearmed, hlen⟩
    rcases hrun (nows.map .timerProc) (by simp [Op.sparesId]) with ⟨-, -, -, hperiod⟩
    have hnext := hperiod (.timerProc (seconds 0)) trivial
    rcases harmed.run h (nows.map .timerProc) (by simp [Op.sparesId]) with ⟨u, hu, harmed'⟩
    have hafter := harmed'.apply (h.run _) (show (Op.timerProc (seconds 0)).sparesId id from trivial)
    have hnow : (Op.timerProc (seconds 0)).rearmed (run (nows.map .timerProc) s) = some r := hrearmed
    rw [if_pos hnow, hafter.get, Op.entryAfter, if_pos hnow] at hnext
    rw [← hu.timerLen]
    exact (rearmTimeout_dueIn_iff _ _ _).mp hnext
  · intro hlen
    refine ⟨r, hdue, ?_⟩
    intro ops hops
    rcases harmed.run h ops hops with ⟨u, hu, harmed'⟩
    refine ⟨harmed'.entries, ?_, ?_, ?_⟩
    · rw [harmed'.get]
      exact hu.fn.trans hfn
    · rw [harmed'.get]
      exact hu.data.trans hdata
    · intro op hop
      have hafter := harmed'.apply (h.run ops) hop
      rw [hafter.get, harmed'.get, Op.entryAfter]
      split
      · apply (rearmTimeout_dueIn_iff _ _ _).mpr
        rw [hu.timerLen]
        exact hlen
      · rfl

/-- What a call of {lit}`UIAddPeriodicTimer` does: it fails, appends a new timer, or sets an entry
anew. -/
inductive PeriodicAdded (alloc : Alloc) (now : Uptime) (id : Int) (timerLen : Int32)
    (timefn : Option Nat) (privdata : Nat) (s : State) (result : Int × State) : Prop where
  | noTimer (halloc : alloc.timer = false) (hres : result.1 = -1)
  | noNode (hentries : s.entries id = []) (halloc : alloc.node = false) (hres : result.1 = -1)
  | appended (htimer : alloc.timer = true) (hnode : alloc.node = true) (hentries : s.entries id = [])
      (hres : result.1 = 0) (hentries' : result.2.entries id = [s.heap.next])
      (hget : result.2.heap.get s.heap.next =
        { timerID := id, data := privdata, timerLen := timerLen.toUInt32,
          timeout := addTimeout now timerLen.toInt, status := .idle, fn := timefn })
  | updated {r : Nat} (htimer : alloc.timer = true) (hr : r ∈ s.entries id) (hres : result.1 = 0)
      (hentries' : result.2.entries id = s.entries id)
      (hget : result.2.heap.get r =
        { s.heap.get r with
          timerID := id, timeout := addTimeout now timerLen.toInt, data := privdata,
          status := .idle, fn := timefn })

theorem uiAddPeriodicTimer_added (h : Listed s) (alloc : Alloc) (now : Uptime) (id : Int)
    (timerLen : Int32) (timefn : Option Nat) (privdata : Nat) :
    PeriodicAdded alloc now id timerLen timefn privdata s
      (uiAddPeriodicTimer alloc now id timerLen timefn privdata s) := by
  simp only [uiAddPeriodicTimer]
  split
  · rename_i htimer
    exact .noTimer (by simpa using htimer) rfl
  · rename_i htimer
    let u : CMTimer :=
      { timerID := id, data := privdata, timerLen := timerLen.toUInt32,
        timeout := addTimeout now timerLen.toInt, status := .idle, fn := timefn }
    have hspares : Spares (fun _ => True) s (allocTimer now u s) :=
      { Spares.alloc (fun _ => True) h u with }
    split
    · rename_i intimer hfind
      rcases find_allocTimer h.periodic_lt hfind with ⟨hmem, hget, hid⟩
      have hentry : intimer ∈ s.entries id := List.mem_filter.mpr ⟨hmem, decide_eq_true hid⟩
      refine .updated (by simpa using htimer) hentry rfl ?_ ?_
      · rw [← hspares.entries id trivial]
        apply entries_modify (s := allocTimer now u s)
        rw [State.timerID, hget, hid]
      · simp [hget]
    · rename_i hfind
      have hnone : s.entries id = [] := by
        rw [← hspares.entries id trivial, State.entries, List.filter_eq_nil_iff]
        intro q hq heq
        have hfalse := List.find?_eq_none.mp hfind q hq
        exact hfalse (beq_iff_eq.mpr (of_decide_eq_true heq))
      split
      · rename_i hnode
        exact .noNode hnone (by simpa using hnode) rfl
      · rename_i hnode
        refine .appended (by simpa using htimer) (by simpa using hnode) hnone rfl ?_ ?_
        · have happend := entries_append id (allocTimer now u s) s.heap.next
          have hid : (allocTimer now u s).timerID s.heap.next = id := by
            simp [State.timerID, allocTimer, u]
          rw [hspares.entries id trivial, hnone, if_pos hid] at happend
          exact happend
        · simp [allocTimer]

/-- A length without a sign is that of a call. -/
theorem timerLen_eq_iff (timerLen : UInt32) (len : Int32) :
    (timerLen.toNat : Int) = len.toInt ↔ 0 ≤ len ∧ timerLen = len.toUInt32 := by
  constructor
  · intro h
    have hnonneg : 0 ≤ len := by
      rw [Int32.le_iff_toInt_le, ← h]
      exact Int.natCast_nonneg _
    refine ⟨hnonneg, ?_⟩
    apply UInt32.toNat_inj.mp
    have hvalue := toNat_toUInt32 hnonneg
    omega
  · rintro ⟨hnonneg, rfl⟩
    exact toNat_toUInt32 hnonneg

/-- A call does not have to change a length: it is not negative, as it is stored without a sign, and
an entry that exists already is the only one of its identifier and has this length. -/
def KeepsLength (id : Int) (timerLen : Int32) (s : State) : Prop :=
  0 ≤ timerLen ∧ (s.entries id = [] ∨
    ∃ r, s.entries id = [r] ∧ (s.heap.get r).timerLen = timerLen.toUInt32)

/-- A call of {lit}`UIAddPeriodicTimer` that succeeds decides about the entry of its identifier just
if it does not have to change a length. -/
theorem addPeriodicTimer_latest_iff (h : Listed s) (alloc : Alloc) (now : Uptime) (id : Int)
    (timerLen : Int32) (timefn : Option Nat) (privdata : Nat) :
    ((uiAddPeriodicTimer alloc now id timerLen timefn privdata s).1 = 0 →
      LatestCall now id timerLen timefn privdata
        (uiAddPeriodicTimer alloc now id timerLen timefn privdata s).2) ↔
      alloc.timer = false ∨ (s.entries id = [] ∧ alloc.node = false) ∨ KeepsLength id timerLen s := by
  have hlisted := h.uiAddPeriodicTimer alloc now id timerLen timefn privdata
  cases uiAddPeriodicTimer_added h alloc now id timerLen timefn privdata with
  | noTimer halloc hres => simp [hres, halloc]
  | noNode hentries halloc hres => simp [hres, hentries, halloc]
  | appended htimer hnode hentries hres hentries' hget =>
      have hlatest : LatestCall now id timerLen timefn privdata
          (uiAddPeriodicTimer alloc now id timerLen timefn privdata s).2 ↔
            0 ≤ timerLen ∧ timerLen.toUInt32 = timerLen.toUInt32 := by
        rw [latestCall_iff hlisted hentries' (by simp [hget])
          (by rw [hget]; exact addTimeout_dueIn now _) (by rw [hget]) (by rw [hget]), hget]
        exact timerLen_eq_iff _ _
      simp [hres, hlatest, htimer, hnode, KeepsLength, hentries]
  | @updated r htimer hr hres hentries' hget =>
      have hlatest : s.entries id = [r] → (LatestCall now id timerLen timefn privdata
          (uiAddPeriodicTimer alloc now id timerLen timefn privdata s).2 ↔
            0 ≤ timerLen ∧ (s.heap.get r).timerLen = timerLen.toUInt32) := by
        intro honly
        rw [latestCall_iff hlisted (hentries'.trans honly) (by simp [hget])
          (by rw [hget]; exact addTimeout_dueIn now _) (by rw [hget]) (by rw [hget]), hget]
        exact timerLen_eq_iff _ _
      have hne : s.entries id ≠ [] := List.ne_nil_of_mem hr
      constructor
      · intro hcall
        rcases hcall hres with ⟨q, -, hrun⟩
        rcases hrun [] (by simp) with ⟨honly, -⟩
        rw [run, List.foldl_nil, hentries'] at honly
        rw [honly] at hr
        rcases List.mem_singleton.mp hr with rfl
        rcases (hlatest honly).mp (hcall hres) with ⟨hnonneg, hlen⟩
        exact .inr (.inr ⟨hnonneg, .inr ⟨r, honly, hlen⟩⟩)
      · intro hcond _
        rcases hcond with hfail | ⟨hnil, -⟩ | ⟨hnonneg, hnil | ⟨q, honly, hlen⟩⟩
        · rw [htimer] at hfail
          cases hfail
        · exact absurd hnil hne
        · exact absurd hnil hne
        · rw [honly] at hr
          rcases List.mem_singleton.mp hr with rfl
          exact (hlatest honly).mpr ⟨hnonneg, hlen⟩

/-- Add the timer of {lit}`addTick` again, with another length. -/
def addAgain (timerLen : Int32) (s : State) : Int × State :=
  uiAddPeriodicTimer { timer := true, node := true } (seconds 5) 1 timerLen (some 8) 4 s

/-- The timer is added again with the length that it has. -/
theorem addPeriodicTimer_latest_second :
    LatestCall (seconds 5) 1 1000 (some 8) 4 (addAgain 1000 (addTick.apply State.init)).2 := by
  have hlisted : Listed (addTick.apply State.init) := reaches_listed (Reaches.init.step trivial)
  apply (addPeriodicTimer_latest_iff hlisted { timer := true, node := true } (seconds 5) 1 1000
    (some 8) 4).mpr
  · exact .inr (.inr ⟨by decide, .inr ⟨0, by decide, by decide⟩⟩)
  · decide

/-- The timer is added again with two seconds instead of one.  Its next timeout is two seconds
behind the call, and the one that {lit}`UITimerProc` sets then is one second behind the scan. -/
theorem addAgain_keeps_period :
    ¬ ((addAgain 2000 (addTick.apply State.init)).1 = 0 →
      LatestCall (seconds 5) 1 2000 (some 8) 4 (addAgain 2000 (addTick.apply State.init)).2) := by
  intro hcall
  rcases hcall (by decide) with ⟨r, -, hrun⟩
  rcases hrun [.timerProc (seconds 7)] (by simp [Op.sparesId]) with ⟨hr, -, -, hperiod⟩
  obtain rfl : 0 = r := by
    have hzero : [0] = [r] := hr
    simpa using hzero
  have hnext := hperiod (.timerProc (seconds 7)) trivial
  rw [if_pos (by decide)] at hnext
  revert hnext
  unfold DueIn
  decide

end UiTimer
end ZyxelRouter
