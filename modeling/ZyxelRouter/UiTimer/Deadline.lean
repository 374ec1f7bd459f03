import Mathlib.Data.List.Basic
import Mathlib.Data.Int.Init
import ZyxelRouter.UiTimer.Ownership

/-!
# Timers do not fire early

A timer is due when its timeout is not later than the uptime that a scan has read.  The timeout
of a timer that is added has its microseconds carried to the seconds; the timeout for the next
period has not, and a pair with more than a million microseconds is passed too soon.

Main results:

- Theorem {lit}`addTimeout_sound` and theorem {lit}`rearmTimeout_sound`: when a timeout keeps the
  length of the timer.
- Theorem {lit}`reaches_timed`: in a run that keeps to these conditions no callback is invoked
  early.
- Theorem {lit}`rearm_fires_early`: a run in which a callback is invoked early.
-/

namespace ZyxelRouter
namespace UiTimer

open Lib

/-! ## The property and the condition -/

/-- The reading from which the timeout of a timer was last set; the log has the newest event
first. -/
def lastArmed : List Event → Nat → Option Uptime
  | [], _ => none
  | .armed q reading :: log, r => if r = q then some reading else lastArmed log r
  | .copied src dst :: log, r => if r = dst then lastArmed log src else lastArmed log r
  | .invoked _ _ _ :: log, r => lastArmed log r

/-- A timer was set its length or more before a reading. -/
def Elapsed (log : List Event) (r : Nat) (timerLen : UInt32) (reading : Uptime) : Prop :=
  ∃ t, lastArmed log r = some t ∧ t.micros + timerLen.toNat * 1000 ≤ reading.micros

/-- Every callback was invoked in a scan that read an uptime of at least that at which its timer
was added or last set again plus {lit}`TimerLen`. -/
def Timed : List Event → Prop
  | [] => True
  | .invoked r scan timerLen :: log => Elapsed log r timerLen scan ∧ Timed log
  | _ :: log => Timed log

/-- The steps of the runs looked at here, and their condition: timers are added with a length
that is not negative and, if the id is in use, not below the {lit}`TimerLen` that the timer
keeps; the microseconds of the next period make at most one second. -/
def Timely (op : Op) (s : State) : Prop :=
  match op with
  | .addTimer alloc _ id timerLen _ _ =>
      alloc.timer = true → ∀ r ∈ s.timeList, (s.heap.get r).timerID = id →
        (s.heap.get r).timerLen ≤ timerLen
  | .addPeriodicTimer alloc _ id timerLen _ _ =>
      alloc.timer = true → 0 ≤ timerLen ∧ ∀ r ∈ s.periodicTimeList, (s.heap.get r).timerID = id →
        (s.heap.get r).timerLen ≤ timerLen.toUInt32
  | .timerProc _ =>
      s.pc = .process → ∀ e ∈ s.tempList.head?, e.type = .periodic →
        (s.heap.get e.element).status = .proc →
        s.timerVal.usec + (s.heap.get e.element).timerLen.toNat % 1000 * 1000 ≤ 1000000
  | _ => False

/-! ## Timeouts -/

/-- A timeout that no scan passes before the length of the timer is over. -/
def Sound (timeout : TimeVal) (t : Uptime) (timerLen : UInt32) : Prop :=
  ∀ now : Uptime, later timeout now = false → t.micros + timerLen.toNat * 1000 ≤ now.micros

theorem later_eq_false_iff (timeout : TimeVal) (now : Uptime) :
    later timeout now = false ↔
      timeout.tvSec < now.sec ∨ timeout.tvSec = now.sec ∧ timeout.tvUsec ≤ now.usec := by
  simp only [later, Bool.or_eq_false_iff, Bool.and_eq_false_iff, decide_eq_false_iff_not,
    beq_eq_false_iff_ne]
  omega

/-- With the carry, the timeout keeps every length. -/
theorem addTimeout_sound (now : Uptime) {len : Int} {timerLen : UInt32}
    (hlen : (timerLen.toNat : Int) ≤ len) :
    Sound (addTimeout now len) now timerLen := by
  intro reading hlater
  rw [later_eq_false_iff] at hlater
  have hpos : 0 ≤ len := by omega
  have hmod : len.tmod 1000 = len % 1000 := Int.tmod_eq_emod_of_nonneg hpos
  have hdiv : len.tdiv 1000 = len / 1000 := Int.tdiv_eq_ediv_of_nonneg hpos
  have husec : (0 : Int) ≤ now.usec + len % 1000 * 1000 := by omega
  simp only [addTimeout, hmod, hdiv, Int.tmod_eq_emod_of_nonneg husec,
    Int.tdiv_eq_ediv_of_nonneg husec] at hlater
  have := now.usec_lt
  have := reading.usec_lt
  simp only [Uptime.micros]
  omega

/-- Without it, the timeout keeps the length if the microseconds make at most one second. -/
theorem rearmTimeout_sound (now : Uptime) (timerLen : UInt32)
    (hcarry : now.usec + timerLen.toNat % 1000 * 1000 ≤ 1000000) :
    Sound (rearmTimeout now timerLen) now timerLen := by
  intro reading hlater
  rw [later_eq_false_iff] at hlater
  simp only [rearmTimeout] at hlater
  have := reading.usec_lt
  simp only [Uptime.micros]
  omega

/-! ## The invariant -/

/-- Every timer has a sound timeout, and what waits in {lit}`temp_list` for its callback has seen
its length pass. -/
structure OnTime (s : State) : Prop where
  armed : ∀ r < s.heap.next, ∃ t, lastArmed s.log r = some t ∧
    Sound (s.heap.get r).timeout t (s.heap.get r).timerLen
  time_lt : ∀ r ∈ s.timeList, r < s.heap.next
  periodic_lt : ∀ r ∈ s.periodicTimeList, r < s.heap.next
  pending_lt : ∀ e ∈ s.tempList, e.element < s.heap.next
  elapsed : ∀ e ∈ s.tempList, e.type = .oneShot ∨ (s.heap.get e.element).status = .proc →
    Elapsed s.log e.element (s.heap.get e.element).timerLen s.timerVal
  timed : Timed s.log

variable {s : State} {r : Nat}

theorem OnTime.init : OnTime State.init := by
  constructor <;> simp [State.init, ObjectHeap.empty, Timed]

/-- A new timer with a sound timeout. -/
theorem OnTime.allocTimer (h : OnTime s) (now : Uptime) (t : CMTimer)
    (hsound : Sound t.timeout now t.timerLen) : OnTime (allocTimer now t s) := by
  have hlog : ∀ {q : Nat}, q < s.heap.next →
      lastArmed (.armed s.heap.next now :: s.log) q = lastArmed s.log q := by
    intro q hq
    simp only [lastArmed, if_neg (Nat.ne_of_lt hq)]
  have hget : ∀ {q : Nat}, q < s.heap.next → (s.heap.alloc t).get q = s.heap.get q :=
    fun hq => ObjectHeap.get_alloc_of_ne t (Nat.ne_of_lt hq)
  constructor
  · intro q hq
    by_cases hnext : q = s.heap.next
    · refine ⟨now, by simp [UiTimer.allocTimer, lastArmed, hnext], ?_⟩
      simpa [UiTimer.allocTimer, hnext] using hsound
    · have hlt : q < s.heap.next := by
        simp only [UiTimer.allocTimer, ObjectHeap.next_alloc] at hq
        omega
      obtain ⟨t', hlast, hsound'⟩ := h.armed q hlt
      refine ⟨t', (hlog hlt).trans hlast, ?_⟩
      simp only [UiTimer.allocTimer, hget hlt]
      exact hsound'
  · exact fun q hq => Nat.lt_succ_of_lt (h.time_lt q hq)
  · exact fun q hq => Nat.lt_succ_of_lt (h.periodic_lt q hq)
  · exact fun e he => Nat.lt_succ_of_lt (h.pending_lt e he)
  · intro e he
    have hlt := h.pending_lt e he
    simp only [UiTimer.allocTimer, hget hlt, Elapsed, hlog hlt]
    exact h.elapsed e he
  · exact h.timed

/-- A timer is set anew; nothing in {lit}`temp_list` may wait for the callback of the old setting. -/
theorem OnTime.rearm (h : OnTime s) (now : Uptime) (f : CMTimer → CMTimer)
    (hsound : Sound (f (s.heap.get r)).timeout now (f (s.heap.get r)).timerLen)
    (hwait : ∀ e ∈ s.tempList, e.element = r →
      ¬ (e.type = .oneShot ∨ (f (s.heap.get r)).status = .proc)) :
    OnTime { s with heap := s.heap.modify r f, log := .armed r now :: s.log } := by
  constructor
  · intro q hq
    by_cases hqr : q = r
    · subst hqr
      refine ⟨now, by simp [lastArmed], ?_⟩
      simpa using hsound
    · obtain ⟨t, hlast, hsound'⟩ := h.armed q hq
      refine ⟨t, by simpa [lastArmed, hqr] using hlast, ?_⟩
      simp only [ObjectHeap.get_modify_of_ne f hqr]
      exact hsound'
  · exact h.time_lt
  · exact h.periodic_lt
  · exact h.pending_lt
  · intro e he
    by_cases her : e.element = r
    · intro hwaits
      have hno := hwait e he her
      rw [← her] at hno
      simp only [← her, ObjectHeap.get_modify_self] at hwaits
      exact absurd hwaits hno
    · simp only [ObjectHeap.get_modify_of_ne f her, Elapsed, lastArmed, if_neg her]
      exact h.elapsed e he
  · exact h.timed

/-! ## Adding timers -/

/-- A timer that is found behind the allocation of another one was there before. -/
theorem find_allocTimer {now : Uptime} {t : CMTimer} {id : Int} {l : List Nat} {intimer : Nat}
    (hlt : ∀ q ∈ l, q < s.heap.next)
    (hfind : l.find? (fun r => ((allocTimer now t s).heap.get r).timerID == id) = some intimer) :
    intimer ∈ l ∧ (allocTimer now t s).heap.get intimer = s.heap.get intimer ∧
      (s.heap.get intimer).timerID = id := by
  have hmem := List.mem_of_find?_eq_some hfind
  have hget : (allocTimer now t s).heap.get intimer = s.heap.get intimer :=
    ObjectHeap.get_alloc_of_ne t (Nat.ne_of_lt (hlt intimer hmem))
  have hid := List.find?_some hfind
  rw [hget, beq_iff_eq] at hid
  exact ⟨hmem, hget, hid⟩

/-- The references of a list stay allocated when the new timer is appended. -/
theorem append_next_lt {t : CMTimer} {l : List Nat} (hlt : ∀ q ∈ l, q < (s.heap.alloc t).next) :
    ∀ q ∈ l ++ [s.heap.next], q < (s.heap.alloc t).next := by
  intro q hq
  rcases List.mem_append.mp hq with hq | hq
  · exact hlt q hq
  · rw [List.mem_singleton.mp hq]
    exact Nat.lt_succ_self _

theorem OnTime.uiAddTimer (h : OnTime s) (howned : Owned s) {alloc : Alloc} {now : Uptime} {id : Int}
    {timerLen : UInt32} {timefn : Option Nat} {privdata : Nat}
    (hop : Timely (.addTimer alloc now id timerLen timefn privdata) s) :
    OnTime (uiAddTimer alloc now id timerLen timefn privdata s).2 := by
  simp only [UiTimer.uiAddTimer]
  split
  · exact h
  · rename_i halloc
    have hnew := h.allocTimer now
      { timerID := id, data := privdata, timerLen := timerLen,
        timeout := addTimeout now timerLen.toNat, status := .idle, fn := timefn }
      (addTimeout_sound now (Int.le_refl _))
    split
    · rename_i intimer hfind
      obtain ⟨hmem, hget, hid⟩ := find_allocTimer h.time_lt hfind
      have hlen := UInt32.le_iff_toNat_le.mp (hop (by simpa using halloc) intimer hmem hid)
      refine hnew.rearm now _ ?_ ?_
      · simp only [hget]
        exact addTimeout_sound now (Int.ofNat_le.mpr hlen)
      · intro e he heq
        exact absurd (heq ▸ List.mem_map_of_mem he) (howned.time_pending intimer hmem)
    · split
      · exact hnew
      · exact { hnew with time_lt := append_next_lt hnew.time_lt }

/-- A length that is not negative is stored as it is. -/
theorem toNat_toUInt32 {x : Int32} (hx : 0 ≤ x) : (x.toUInt32.toNat : Int) = x.toInt := by
  have hnonneg : 0 ≤ x.toInt := by simpa [Int32.le_iff_toInt_le] using hx
  rw [Int32.toNat_toUInt32_of_le hx]
  exact Int.toNat_of_nonneg hnonneg

theorem OnTime.uiAddPeriodicTimer (h : OnTime s) (howned : Owned s) {alloc : Alloc} {now : Uptime}
    {id : Int} {timerLen : Int32} {timefn : Option Nat} {privdata : Nat}
    (hop : Timely (.addPeriodicTimer alloc now id timerLen timefn privdata) s) :
    OnTime (uiAddPeriodicTimer alloc now id timerLen timefn privdata s).2 := by
  simp only [UiTimer.uiAddPeriodicTimer]
  split
  · exact h
  · rename_i halloc
    obtain ⟨hpos, hinUse⟩ := hop (by simpa using halloc)
    have hvalue := toNat_toUInt32 hpos
    have hnew := h.allocTimer now
      { timerID := id, data := privdata, timerLen := timerLen.toUInt32,
        timeout := addTimeout now timerLen.toInt, status := .idle, fn := timefn }
      (addTimeout_sound now (Int.le_of_eq hvalue))
    split
    · rename_i intimer hfind
      obtain ⟨hmem, hget, hid⟩ := find_allocTimer h.periodic_lt hfind
      have hlen := UInt32.le_iff_toNat_le.mp (hinUse intimer hmem hid)
      refine hnew.rearm now _ ?_ ?_
      · simp only [hget]
        exact addTimeout_sound now (by omega)
      · rintro e he heq (hone | hproc)
        · exact howned.oneShot_periodic e he hone (heq ▸ hmem)
        · cases hproc
    · split
      · exact hnew
      · exact { hnew with periodic_lt := append_next_lt hnew.periodic_lt }

/-! ## The timer thread -/

/-- A timer that a scan does not pass over has seen its length pass. -/
theorem OnTime.elapsed_of_due (h : OnTime s) (hr : r < s.heap.next)
    (hdue : later (s.heap.get r).timeout s.timerVal = false) :
    Elapsed s.log r (s.heap.get r).timerLen s.timerVal := by
  obtain ⟨t, hlast, hsound⟩ := h.armed r hr
  exact ⟨t, hlast, hsound s.timerVal hdue⟩

theorem OnTime.scanTimeNode (h : OnTime s) (hr : r < s.heap.next) : OnTime (scanTimeNode s r) := by
  simp only [UiTimer.scanTimeNode]
  split
  · exact { h with }
  · rename_i hlater
    have hdue := h.elapsed_of_due hr (by simpa using hlater)
    have hget : ∀ {q : Nat}, q < s.heap.next →
        ((s.heap.touch r).alloc (s.heap.get r)).get q = s.heap.get q :=
      fun hq => ObjectHeap.get_alloc_of_ne _ (Nat.ne_of_lt hq)
    have hcopy : ((s.heap.touch r).alloc (s.heap.get r)).get s.heap.next = s.heap.get r :=
      ObjectHeap.get_alloc_self _
    have hlog : ∀ {q : Nat}, q < s.heap.next →
        lastArmed (.copied r s.heap.next :: s.log) q = lastArmed s.log q := by
      intro q hq
      simp only [lastArmed, if_neg (Nat.ne_of_lt hq)]
    have hlogCopy : lastArmed (.copied r s.heap.next :: s.log) s.heap.next = lastArmed s.log r := by
      simp [lastArmed]
    simp only [freeTime, ObjectHeap.next_touch, ObjectHeap.get_touch]
    constructor
    · intro q hq
      simp only [ObjectHeap.get_free]
      by_cases hnext : q = s.heap.next
      · subst hnext
        rw [hlogCopy, hcopy]
        exact h.armed r hr
      · have hlt : q < s.heap.next := by
          simp only [ObjectHeap.next_free, ObjectHeap.next_alloc, ObjectHeap.next_touch] at hq
          omega
        rw [hlog hlt, hget hlt]
        exact h.armed q hlt
    · exact fun q hq => Nat.lt_succ_of_lt (h.time_lt q (List.mem_of_mem_erase hq))
    · exact fun q hq => Nat.lt_succ_of_lt (h.periodic_lt q hq)
    · intro e he
      rcases List.mem_cons.mp he with rfl | he
      · exact Nat.lt_succ_self _
      · exact Nat.lt_succ_of_lt (h.pending_lt e he)
    · intro e he
      simp only [ObjectHeap.get_free]
      rcases List.mem_cons.mp he with rfl | he
      · intro _
        simp only [Elapsed, hlogCopy, hcopy]
        exact hdue
      · have hlt := h.pending_lt e he
        simp only [Elapsed, hlog hlt, hget hlt]
        exact h.elapsed e he
    · exact h.timed

/-- A timer that is due gets a status and goes to {lit}`temp_list`. -/
theorem OnTime.pushDue (h : OnTime s) (hr : r < s.heap.next) (status : Status)
    (hdue : Elapsed s.log r (s.heap.get r).timerLen s.timerVal) :
    OnTime { setStatus status r s with
      tempList := { type := .periodic, element := r } :: s.tempList } := by
  have hget : ∀ q, ((setStatus status r s).heap.get q).timeout = (s.heap.get q).timeout ∧
      ((setStatus status r s).heap.get q).timerLen = (s.heap.get q).timerLen := by
    intro q
    by_cases hqr : q = r
    · subst hqr
      simp [setStatus]
    · simp [setStatus, ObjectHeap.get_modify_of_ne _ hqr]
  constructor
  · intro q hq
    rw [(hget q).1, (hget q).2]
    exact h.armed q hq
  · exact h.time_lt
  · exact h.periodic_lt
  · intro e he
    rcases List.mem_cons.mp he with rfl | he
    · exact hr
    · exact h.pending_lt e he
  · intro e he hwaits
    rw [(hget e.element).2]
    by_cases her : e.element = r
    · rw [her]
      exact hdue
    · simp only [setStatus, ObjectHeap.get_modify_of_ne _ her] at hwaits
      rcases List.mem_cons.mp he with rfl | he
      · exact absurd rfl her
      · exact h.elapsed e he hwaits
  · exact h.timed

theorem OnTime.touch (h : OnTime s) (r : Nat) : OnTime { s with heap := s.heap.touch r } :=
  { h with }

theorem OnTime.scanPeriodicNode (h : OnTime s) (hr : r < s.heap.next) :
    OnTime (scanPeriodicNode s r) := by
  simp only [UiTimer.scanPeriodicNode]
  split
  · exact h.touch r
  · rename_i hlater
    exact (h.touch r).pushDue hr _ (h.elapsed_of_due hr (by simpa using hlater))

theorem OnTime.scanSection (h : OnTime s) (htemp : s.tempList = []) (now : Uptime) :
    OnTime (scanSection now s) := by
  have hstart : OnTime { s with timerVal := now, pc := .process } := by
    refine { h with elapsed := ?_ }
    intro e he
    rw [htemp] at he
    cases he
  have htime := foldl_induction (f := UiTimer.scanTimeNode)
    (P := fun s rest => OnTime s ∧ ∀ r ∈ rest, r < s.heap.next) ?_
    s.timeList _ ⟨hstart, h.time_lt⟩
  · have hperiodic := foldl_induction (f := UiTimer.scanPeriodicNode)
      (P := fun s rest => OnTime s ∧ ∀ r ∈ rest, r < s.heap.next) ?_ _ _
      ⟨htime.1, htime.1.periodic_lt⟩
    · exact hperiodic.1
    · rintro s r rest ⟨h, hlt⟩
      refine ⟨h.scanPeriodicNode (hlt r List.mem_cons_self), fun q hq => ?_⟩
      have hq' := hlt q (List.mem_cons_of_mem r hq)
      simp only [UiTimer.scanPeriodicNode]
      split
      · exact hq'
      · exact hq'
  · rintro s r rest ⟨h, hlt⟩
    refine ⟨h.scanTimeNode (hlt r List.mem_cons_self), fun q hq => ?_⟩
    have hq' := hlt q (List.mem_cons_of_mem r hq)
    simp only [UiTimer.scanTimeNode]
    split
    · exact hq'
    · exact Nat.lt_succ_of_lt hq'

/-- Taking the callback of a timer that has seen its length pass. -/
theorem OnTime.logTaken (h : OnTime s) (fn : Option Nat) (pc : Pc)
    (hdue : Elapsed s.log r (s.heap.get r).timerLen s.timerVal) :
    OnTime { s with log := logTaken fn r (s.heap.get r).timerLen s, pc := pc } := by
  cases fn with
  | none => exact { h with }
  | some fn => exact { h with timed := ⟨hdue, h.timed⟩ }

theorem OnTime.periodicSection (h : OnTime s) (howned : Owned s) {e : ProcElement}
    {rest : List ProcElement} (htemp : s.tempList = e :: rest) (htype : e.type = .periodic)
    (hcarry : (s.heap.get e.element).status = .proc →
      s.timerVal.usec + (s.heap.get e.element).timerLen.toNat % 1000 * 1000 ≤ 1000000) :
    OnTime (periodicSection e.element s) := by
  have hmem : e ∈ s.tempList := by
    rw [htemp]
    exact List.mem_cons_self
  simp only [UiTimer.periodicSection]
  split
  · rename_i hproc
    have htaken := (h.touch e.element).logTaken (s.heap.get e.element).fn
      (afterTaken (s.heap.get e.element).fn) (h.elapsed e hmem (.inr hproc))
    refine htaken.rearm s.timerVal (fun t =>
      { t with timeout := rearmTimeout s.timerVal t.timerLen, status := .idle })
      (rearmTimeout_sound s.timerVal _ (hcarry hproc)) ?_
    rintro f hf heq (hone | hidle)
    · -- two elements never name the same timer
      have hnodup := howned.pending_nodup
      rw [State.pending, htemp, List.map_cons, List.nodup_cons] at hnodup
      have hf' : f ∈ e :: rest := htemp ▸ hf
      rcases List.mem_cons.mp hf' with rfl | hf'
      · rw [htype] at hone
        cases hone
      · exact hnodup.1 (heq ▸ List.mem_map_of_mem hf')
    · cases hidle
  · exact { h with }

theorem OnTime.uiTimerProc (h : OnTime s) (howned : Owned s) {now : Uptime}
    (hop : Timely (.timerProc now) s) : OnTime (uiTimerProc now s) := by
  unfold UiTimer.uiTimerProc
  split
  · rename_i hpc
    exact h.scanSection (howned.scanned hpc) now
  · exact { h with }
  · rename_i e rest hpc htemp
    have hmem : e ∈ s.tempList := by
      rw [htemp]
      exact List.mem_cons_self
    split
    · rename_i htype
      exact h.periodicSection howned htemp htype (hop hpc e (by rw [htemp]; rfl) htype)
    · rename_i htype
      exact (h.touch e.element).logTaken _ _ (h.elapsed e hmem (.inl htype))
  · exact { h with }
  · rename_i e rest hpc htemp
    have hsub : ∀ f ∈ rest, f ∈ s.tempList := by
      intro f hf
      rw [htemp]
      exact List.mem_cons_of_mem e hf
    have hpop : OnTime { s with tempList := rest, pc := .process } :=
      { h with pending_lt := fun f hf => h.pending_lt f (hsub f hf)
               elapsed := fun f hf => h.elapsed f (hsub f hf) }
    unfold releaseDone
    split
    · exact { hpop with }
    · simp only
      split
      · exact { hpop with }
      · exact { hpop with }
  · exact h
  · exact h

/-! ## Runs -/

/-- A timely step deletes nothing. -/
theorem Timely.harmless {op : Op} (hop : Timely op s) : Harmless op s := by
  cases op with
  | addTimer | addPeriodicTimer | timerProc => trivial
  | _ => exact absurd hop id

theorem OnTime.apply (h : OnTime s) (howned : Owned s) {op : Op} (hop : Timely op s) :
    OnTime (op.apply s) := by
  cases op with
  | addTimer alloc now id timerLen timefn privdata => exact h.uiAddTimer howned hop
  | addPeriodicTimer alloc now id timerLen timefn privdata =>
      exact h.uiAddPeriodicTimer howned hop
  | timerProc now => exact h.uiTimerProc howned hop
  | _ => exact absurd hop id

/-- In every run of timely steps a callback is invoked only in a scan whose reading is at least the
uptime at which its timer was added or last set again plus {lit}`TimerLen`. -/
theorem reaches_timed {s : State} (h : Reaches Timely s) : Timed s.log := by
  have hinv : Owned s ∧ OnTime s := by
    induction h with
    | init => exact ⟨Owned.init, OnTime.init⟩
    | step _ hop ih => exact ⟨ih.1.apply hop.harmless, ih.2.apply ih.1 hop⟩
  exact hinv.2.timed

/-- A one-second timer fires after a second. -/
theorem reaches_timed_tick :
    Timed ((Op.timerProc (seconds 1)).apply ((Op.timerProc (seconds 1)).apply
      (addTick.apply State.init))).log := by
  apply reaches_timed
  apply Reaches.step
  · apply Reaches.step
    · apply Reaches.init.step
      exact fun _ => ⟨by decide, by simp [State.init]⟩
    · intro hpc
      cases hpc
  · intro _ e he _ _
    have hhead : e ∈ some { type := TimerType.periodic, element := 0 : ProcElement } := he
    have heq : e = { type := .periodic, element := 0 } := by simpa using hhead.symm
    subst heq
    decide

/-- The reading 10.9 s. -/
def almostEleven : Uptime where
  sec := 10
  usec := 900000
  usec_lt := by decide

/-- A timer of 900 ms is added at 1 s, fires in a scan at 10.9 s, and fires again at 11 s. -/
def earlyRun : List Op :=
  [.addPeriodicTimer { timer := true, node := true } (seconds 1) 1 900 (some 7) 0,
    .timerProc almostEleven, .timerProc almostEleven, .timerProc almostEleven,
    .timerProc almostEleven, .timerProc almostEleven, .timerProc (seconds 11),
    .timerProc (seconds 11)]

/-- What a step gets as uptime, if it adds timers or belongs to {lit}`UITimerProc`. -/
def Op.reading : Op → Option Uptime
  | .addTimer _ now _ _ _ _ => some now
  | .addPeriodicTimer _ now _ _ _ _ => some now
  | .timerProc now => some now
  | _ => none

/-- The readings of that run do not decrease, nothing is deleted, and the second callback comes
100 ms after the first. -/
theorem rearm_fires_early :
    (∀ op ∈ earlyRun, op.reading.isSome = true) ∧
      (earlyRun.filterMap Op.reading).Pairwise (fun t t' => t.micros ≤ t'.micros) ∧
      ¬ Timed (run earlyRun State.init).log := by
  refine ⟨by decide, by decide, ?_⟩
  intro hrun
  have hlog : (run earlyRun State.init).log =
      [.armed 0 (seconds 11), .invoked 0 (seconds 11) 900, .armed 0 almostEleven,
        .invoked 0 almostEleven 900, .armed 0 (seconds 1)] := by decide
  rw [hlog] at hrun
  obtain ⟨⟨t, hlast, hle⟩, _⟩ := hrun
  have ht : almostEleven = t := Option.some.inj hlast
  subst ht
  exact absurd hle (by decide)

end UiTimer
end ZyxelRouter
