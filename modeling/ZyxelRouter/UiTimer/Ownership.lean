import Mathlib.Data.List.Basic
import Mathlib.Data.List.Nodup
import ZyxelRouter.UiTimer.Model

/-!
# Who owns a timer

A timer of {lit}`periodic_time_list` that is due is named by {lit}`temp_list` as well, and its
status decides who releases it.  A deletion that releases a timer while {lit}`temp_list` still
names it, or that marks it and leaves it in its list, breaks the ownership.

Main results:

- Theorem {lit}`Owned.apply`: every other step keeps the ownership.
- Theorem {lit}`reaches_intact`: in a run without such deletions no list names a released timer,
  no timer is released twice, and {lit}`UITimerProc` reads no released timer.
- Theorem {lit}`retDataPtr_leaves_released`: a run that ends with a released timer in
  {lit}`periodic_time_list`.
-/

namespace ZyxelRouter
namespace UiTimer

open Lib

/-! ## The property and the condition -/

/-- No list names a released timer, and neither fault has happened. -/
structure Intact (s : State) : Prop where
  time_live : ∀ r ∈ s.timeList, s.heap.live r = true
  periodic_live : ∀ r ∈ s.periodicTimeList, s.heap.live r = true
  pending_live : ∀ r ∈ s.pending, s.heap.live r = true
  noFault : s.heap.NoFault

/-- A deletion of periodic timers leaves alone what {lit}`temp_list` names:
{lit}`UIDelPeriodicTimer` may take a timer that is being processed, but none that is idle;
{lit}`UIDelPeriodicTimer_retDataPtr` and {lit}`UIDelAllTimer` may take none. -/
def Harmless (op : Op) (s : State) : Prop :=
  match op with
  | .delPeriodicTimer id _ =>
      0 < id → ∀ r ∈ s.periodicTimeList,
        (s.heap.get r).timerID = id → (s.heap.get r).status = .idle → r ∉ s.pending
  | .delPeriodicTimerRetDataPtr id dataPtr =>
      0 < id → dataPtr = true → ∀ r ∈ s.periodicTimeList,
        (s.heap.get r).timerID = id → r ∉ s.pending
  | .delAllTimer => ∀ r ∈ s.periodicTimeList, r ∉ s.pending
  | _ => True

/-! ## The invariant -/

/-- Every timer has one owner: one of the two lists, or {lit}`temp_list`, which may also name a
timer of {lit}`periodic_time_list`; a marked timer is in neither list. -/
structure Owned (s : State) : Prop extends Intact s where
  time_nodup : s.timeList.Nodup
  periodic_nodup : s.periodicTimeList.Nodup
  pending_nodup : s.pending.Nodup
  time_periodic : ∀ r ∈ s.timeList, r ∉ s.periodicTimeList
  time_pending : ∀ r ∈ s.timeList, r ∉ s.pending
  oneShot_periodic : ∀ e ∈ s.tempList, e.type = .oneShot → e.element ∉ s.periodicTimeList
  unmarked : ∀ r ∈ s.periodicTimeList, (s.heap.get r).status ≠ .del
  scanned : s.pc = .scan → s.tempList = []
  proc_pending : ∀ r ∈ s.periodicTimeList, (s.heap.get r).status = .proc → r ∈ s.pending
  head_taken : s.pc ≠ .scan → s.pc ≠ .process → ∀ e ∈ s.tempList.head?, e.type = .periodic →
    (s.heap.get e.element).status ≠ .proc

variable {s : State} {r : Nat}

theorem Owned.init : Owned State.init := by
  constructor
  · constructor <;> simp [State.init, State.pending, ObjectHeap.NoFault, ObjectHeap.empty]
  all_goals simp [State.init, State.pending]

/-! ## Changes that keep the invariant -/

/-- The two lists of timers may lose entries. -/
theorem Owned.sublists (h : Owned s) {time periodic : List Nat}
    (htime : time.Sublist s.timeList) (hperiodic : periodic.Sublist s.periodicTimeList) :
    Owned { s with timeList := time, periodicTimeList := periodic } := by
  constructor
  · exact ⟨fun q hq => h.time_live q (htime.subset hq),
      fun q hq => h.periodic_live q (hperiodic.subset hq), h.pending_live, h.noFault⟩
  · exact h.time_nodup.sublist htime
  · exact h.periodic_nodup.sublist hperiodic
  · exact h.pending_nodup
  · intro q hq hmem
    exact h.time_periodic q (htime.subset hq) (hperiodic.subset hmem)
  · intro q hq
    exact h.time_pending q (htime.subset hq)
  · intro e he htype hmem
    exact h.oneShot_periodic e he htype (hperiodic.subset hmem)
  · intro q hq
    exact h.unmarked q (hperiodic.subset hq)
  · exact h.scanned
  · intro q hq
    exact h.proc_pending q (hperiodic.subset hq)
  · exact h.head_taken

/-- The first element of {lit}`temp_list` may be dropped once its callback was taken. -/
theorem Owned.pop (h : Owned s) {e : ProcElement} {rest : List ProcElement}
    (htemp : s.tempList = e :: rest) (hpc : s.pc = .finish) :
    Owned { s with tempList := rest, pc := .process } := by
  have hpending : s.pending = e.element :: rest.map ProcElement.element := by
    rw [State.pending, htemp, List.map_cons]
  have htail : ∀ {q : Nat}, q ∈ rest.map ProcElement.element → q ∈ s.pending := by
    intro q hq
    rw [hpending]
    exact List.mem_cons_of_mem _ hq
  refine { h with pending_live := ?_, pending_nodup := ?_, time_pending := ?_,
                  oneShot_periodic := ?_, scanned := ?_, proc_pending := ?_, head_taken := ?_ }
  · exact fun q hq => h.pending_live q (htail hq)
  · have hnodup := h.pending_nodup
    rw [hpending] at hnodup
    exact (List.nodup_cons.mp hnodup).2
  · exact fun q hq hmem => h.time_pending q hq (htail hmem)
  · intro f hf
    apply h.oneShot_periodic f
    rw [htemp]
    exact List.mem_cons_of_mem e hf
  · intro hscan
    cases hscan
  · intro q hq hproc
    have hmem := h.proc_pending q hq hproc
    rw [hpending] at hmem
    rcases List.mem_cons.mp hmem with rfl | hmem
    · -- the callback of the first element was taken, so it is not being processed any more
      have hperiodic : e.type = .periodic := by
        cases htype : e.type with
        | periodic => rfl
        | oneShot => exact absurd hq (h.oneShot_periodic e (by rw [htemp]; exact List.mem_cons_self) htype)
      have hne := h.head_taken (by rw [hpc]; simp) (by rw [hpc]; simp) e (by rw [htemp]; rfl) hperiodic
      exact absurd hproc hne
    · exact hmem
  · intro _ hprocess
    exact absurd rfl hprocess

/-- A timer that no list names may be released. -/
theorem Owned.free (h : Owned s) (hlive : s.heap.live r = true)
    (htime : r ∉ s.timeList) (hperiodic : r ∉ s.periodicTimeList) (hpending : r ∉ s.pending) :
    Owned { s with heap := s.heap.free r } := by
  have hne : ∀ {l : List Nat} {q : Nat}, r ∉ l → q ∈ l → q ≠ r :=
    fun hr hq heq => hr (heq ▸ hq)
  refine { h with time_live := ?_, periodic_live := ?_, pending_live := ?_, noFault := ?_ }
  · intro q hq
    rw [ObjectHeap.live_free_of_ne (hne htime hq)]
    exact h.time_live q hq
  · intro q hq
    rw [ObjectHeap.live_free_of_ne (hne hperiodic hq)]
    exact h.periodic_live q hq
  · intro q hq
    rw [ObjectHeap.live_free_of_ne (hne hpending hq)]
    exact h.pending_live q hq
  · exact h.noFault.free hlive

/-- A timer may be allocated. -/
theorem Owned.alloc (h : Owned s) (t : CMTimer) : Owned { s with heap := s.heap.alloc t } := by
  have hget : ∀ q, s.heap.live q = true → (s.heap.alloc t).get q = s.heap.get q :=
    fun q hq => ObjectHeap.get_alloc_of_ne t (ObjectHeap.ne_next_of_live hq)
  refine { h with time_live := ?_, periodic_live := ?_, pending_live := ?_, unmarked := ?_,
                  proc_pending := ?_, head_taken := ?_ }
  · exact fun q hq => ObjectHeap.live_alloc t (h.time_live q hq)
  · exact fun q hq => ObjectHeap.live_alloc t (h.periodic_live q hq)
  · exact fun q hq => ObjectHeap.live_alloc t (h.pending_live q hq)
  · intro q hq
    rw [hget q (h.periodic_live q hq)]
    exact h.unmarked q hq
  · intro q hq
    rw [hget q (h.periodic_live q hq)]
    exact h.proc_pending q hq
  · intro hscan hprocess e he
    rw [hget e.element (h.pending_live _ (List.mem_map_of_mem (List.mem_of_mem_head? he)))]
    exact h.head_taken hscan hprocess e he

/-- A timer may be changed; only one outside of {lit}`periodic_time_list` may be marked, and none
becomes one that is being processed. -/
theorem Owned.modify (h : Owned s) (f : CMTimer → CMTimer)
    (hdel : (f (s.heap.get r)).status = .del → r ∉ s.periodicTimeList)
    (hproc : (f (s.heap.get r)).status = .proc → (s.heap.get r).status = .proc) :
    Owned { s with heap := s.heap.modify r f } := by
  have hkeeps : ∀ q, ((s.heap.modify r f).get q).status = .proc → (s.heap.get q).status = .proc := by
    intro q hq
    by_cases hqr : q = r
    · subst hqr
      rw [ObjectHeap.get_modify_self] at hq
      exact hproc hq
    · rwa [ObjectHeap.get_modify_of_ne f hqr] at hq
  refine { h with unmarked := ?_, proc_pending := ?_, head_taken := ?_ }
  · intro q hq hstatus
    by_cases hqr : q = r
    · subst hqr
      rw [ObjectHeap.get_modify_self] at hstatus
      exact hdel hstatus hq
    · rw [ObjectHeap.get_modify_of_ne f hqr] at hstatus
      exact h.unmarked q hq hstatus
  · exact fun q hq hstatus => h.proc_pending q hq (hkeeps q hstatus)
  · exact fun hscan hprocess e he htype hstatus =>
      h.head_taken hscan hprocess e he htype (hkeeps _ hstatus)

/-- The name of a new timer is in no list. -/
theorem Owned.next_notMem (h : Owned s) :
    s.heap.next ∉ s.timeList ∧ s.heap.next ∉ s.periodicTimeList ∧ s.heap.next ∉ s.pending :=
  ⟨fun hmem => ObjectHeap.ne_next_of_live (h.time_live _ hmem) rfl,
    fun hmem => ObjectHeap.ne_next_of_live (h.periodic_live _ hmem) rfl,
    fun hmem => ObjectHeap.ne_next_of_live (h.pending_live _ hmem) rfl⟩

/-- A live timer that no list names may be appended to {lit}`time_list`. -/
theorem Owned.appendTime (h : Owned s) (hlive : s.heap.live r = true)
    (htime : r ∉ s.timeList) (hperiodic : r ∉ s.periodicTimeList) (hpending : r ∉ s.pending) :
    Owned { s with timeList := s.timeList ++ [r] } := by
  have hcases : ∀ {q : Nat}, q ∈ s.timeList ++ [r] → q ∈ s.timeList ∨ q = r := by
    intro q hq
    simpa using hq
  refine { h with time_live := ?_, time_nodup := ?_, time_periodic := ?_, time_pending := ?_ }
  · intro q hq
    rcases hcases hq with hq | rfl
    · exact h.time_live q hq
    · exact hlive
  · rw [List.nodup_append_comm]
    exact List.nodup_cons.mpr ⟨htime, h.time_nodup⟩
  · intro q hq
    rcases hcases hq with hq | rfl
    · exact h.time_periodic q hq
    · exact hperiodic
  · intro q hq
    rcases hcases hq with hq | rfl
    · exact h.time_pending q hq
    · exact hpending

/-- A live timer that no list names and that is not marked may be appended to
{lit}`periodic_time_list`. -/
theorem Owned.appendPeriodic (h : Owned s) (hlive : s.heap.live r = true)
    (hstatus : (s.heap.get r).status = .idle)
    (htime : r ∉ s.timeList) (hperiodic : r ∉ s.periodicTimeList) (hpending : r ∉ s.pending) :
    Owned { s with periodicTimeList := s.periodicTimeList ++ [r] } := by
  have hcases : ∀ {q : Nat}, q ∈ s.periodicTimeList ++ [r] → q ∈ s.periodicTimeList ∨ q = r := by
    intro q hq
    simpa using hq
  refine { h with periodic_live := ?_, periodic_nodup := ?_, time_periodic := ?_,
                  oneShot_periodic := ?_, unmarked := ?_, proc_pending := ?_ }
  · intro q hq
    rcases hcases hq with hq | rfl
    · exact h.periodic_live q hq
    · exact hlive
  · rw [List.nodup_append_comm]
    exact List.nodup_cons.mpr ⟨hperiodic, h.periodic_nodup⟩
  · intro q hq hmem
    rcases hcases hmem with hmem | rfl
    · exact h.time_periodic q hq hmem
    · exact htime hq
  · intro e he htype hmem
    rcases hcases hmem with hmem | heq
    · exact h.oneShot_periodic e he htype hmem
    · exact hpending (heq ▸ List.mem_map_of_mem he)
  · intro q hq
    rcases hcases hq with hq | rfl
    · exact h.unmarked q hq
    · simp [hstatus]
  · intro q hq hproc
    rcases hcases hq with hq | rfl
    · exact h.proc_pending q hq hproc
    · simp [hstatus] at hproc

/-- During a scan a live timer may be put in front of {lit}`temp_list`: a one-shot timer if no list
names it, a periodic one if it is in {lit}`periodic_time_list`. -/
theorem Owned.push (h : Owned s) (type : TimerType) (hpc : s.pc = .process)
    (hlive : s.heap.live r = true) (htime : r ∉ s.timeList) (hpending : r ∉ s.pending)
    (htype : type = .oneShot → r ∉ s.periodicTimeList) :
    Owned { s with tempList := { type := type, element := r } :: s.tempList } := by
  refine { h with pending_live := ?_, pending_nodup := ?_, time_pending := ?_,
                  oneShot_periodic := ?_, scanned := ?_, proc_pending := ?_, head_taken := ?_ }
  · intro q hq
    rcases List.mem_cons.mp hq with rfl | hq
    · exact hlive
    · exact h.pending_live q hq
  · exact List.nodup_cons.mpr ⟨hpending, h.pending_nodup⟩
  · intro q hq hmem
    rcases List.mem_cons.mp hmem with rfl | hmem
    · exact htime hq
    · exact h.time_pending q hq hmem
  · intro e he hone
    rcases List.mem_cons.mp he with rfl | he
    · exact htype hone
    · exact h.oneShot_periodic e he hone
  · intro hscan
    rw [hpc] at hscan
    cases hscan
  · exact fun q hq hproc => List.mem_cons_of_mem r (h.proc_pending q hq hproc)
  · exact fun _ hprocess => absurd hpc hprocess

/-- A timer that waits in {lit}`temp_list` may become one that is being processed. -/
theorem Owned.mark (h : Owned s) (hpc : s.pc = .process) (hpending : r ∈ s.pending) :
    Owned (setStatus .proc r s) := by
  refine { h with unmarked := ?_, proc_pending := ?_, head_taken := ?_ }
  · intro q hq
    by_cases hqr : q = r
    · subst hqr
      simp [setStatus]
    · simp only [setStatus, ObjectHeap.get_modify_of_ne _ hqr]
      exact h.unmarked q hq
  · intro q hq hproc
    by_cases hqr : q = r
    · exact hqr ▸ hpending
    · simp only [setStatus, ObjectHeap.get_modify_of_ne _ hqr] at hproc
      exact h.proc_pending q hq hproc
  · exact fun _ hprocess => absurd hpc hprocess

/-! ## The calls of the interface -/

theorem Owned.allocTimer (h : Owned s) (now : Uptime) (t : CMTimer) :
    Owned (allocTimer now t s) :=
  { h.alloc t with }

theorem Owned.uiAddTimer (h : Owned s) (alloc : Alloc) (now : Uptime) (id : Int)
    (timerLen : UInt32) (timefn : Option Nat) (privdata : Nat) :
    Owned (uiAddTimer alloc now id timerLen timefn privdata s).2 := by
  have hnext := h.next_notMem
  simp only [UiTimer.uiAddTimer]
  split
  · exact h
  · have halloc := h.allocTimer now
      { timerID := id, data := privdata, timerLen := timerLen,
        timeout := addTimeout now timerLen.toNat, status := .idle, fn := timefn }
    split
    · rename_i intimer hfind
      have hmem := List.mem_of_find?_eq_some hfind
      refine { halloc.modify _ ?_ ?_ with }
      · intro _ hperiodic
        exact halloc.time_periodic intimer hmem hperiodic
      · exact fun hproc => hproc
    · split
      · exact halloc
      · exact halloc.appendTime (ObjectHeap.live_alloc_self _) hnext.1 hnext.2.1 hnext.2.2

theorem Owned.uiAddPeriodicTimer (h : Owned s) (alloc : Alloc) (now : Uptime) (id : Int)
    (timerLen : Int32) (timefn : Option Nat) (privdata : Nat) :
    Owned (uiAddPeriodicTimer alloc now id timerLen timefn privdata s).2 := by
  have hnext := h.next_notMem
  simp only [UiTimer.uiAddPeriodicTimer]
  split
  · exact h
  · have halloc := h.allocTimer now
      { timerID := id, data := privdata, timerLen := timerLen.toUInt32,
        timeout := addTimeout now timerLen.toInt, status := .idle, fn := timefn }
    split
    · refine { halloc.modify _ ?_ ?_ with }
      · intro hidle
        simp at hidle
      · intro hidle
        simp at hidle
    · split
      · exact halloc
      · refine halloc.appendPeriodic (ObjectHeap.live_alloc_self _) ?_ hnext.1 hnext.2.1 hnext.2.2
        simp [UiTimer.allocTimer]

theorem Owned.freeTime (h : Owned s) (hr : r ∈ s.timeList) : Owned (freeTime r s) := by
  have herase := h.sublists (List.erase_sublist (a := r)) (List.Sublist.refl s.periodicTimeList)
  exact herase.free (h.time_live r hr) h.time_nodup.not_mem_erase (h.time_periodic r hr)
    (h.time_pending r hr)

theorem Owned.erasePeriodic (h : Owned s) (r : Nat) :
    Owned { s with periodicTimeList := s.periodicTimeList.erase r } :=
  h.sublists (List.Sublist.refl s.timeList) List.erase_sublist

theorem Owned.freePeriodic (h : Owned s) (hr : r ∈ s.periodicTimeList) (hpending : r ∉ s.pending) :
    Owned (freePeriodic r s) :=
  (h.erasePeriodic r).free (h.periodic_live r hr) (fun htime => h.time_periodic r htime hr)
    h.periodic_nodup.not_mem_erase hpending

/-- What is left of a walk over a list is still in it. -/
structure Left (rest list : List Nat) : Prop where
  nodup : rest.Nodup
  subset : ∀ r ∈ rest, r ∈ list

theorem Left.all {l : List Nat} (h : l.Nodup) : Left l l :=
  ⟨h, fun _ hr => hr⟩

theorem Left.head {rest list : List Nat} (h : Left (r :: rest) list) : r ∈ list :=
  h.subset r List.mem_cons_self

theorem Left.tail {rest list : List Nat} (h : Left (r :: rest) list) : Left rest list :=
  ⟨(List.nodup_cons.mp h.nodup).2, fun q hq => h.subset q (List.mem_cons_of_mem r hq)⟩

theorem Left.ne_head {rest list : List Nat} (h : Left (r :: rest) list) {q : Nat} (hq : q ∈ rest) :
    q ≠ r :=
  fun heq => (List.nodup_cons.mp h.nodup).1 (heq ▸ hq)

theorem Left.erase {rest list : List Nat} (h : Left (r :: rest) list) :
    Left rest (list.erase r) := by
  refine ⟨h.tail.nodup, fun q hq => ?_⟩
  exact (List.mem_erase_of_ne (h.ne_head hq)).mpr (h.tail.subset q hq)

/-- The loop that deletes one-shot timers. -/
theorem Owned.delTimerLoop (h : Owned s) (id : Int) :
    Owned (s.timeList.foldl (delTimerNode id) s) := by
  have hloop := foldl_induction (f := delTimerNode id)
    (P := fun s rest => Owned s ∧ Left rest s.timeList) ?_ s.timeList s ⟨h, .all h.time_nodup⟩
  · exact hloop.1
  · rintro s r rest ⟨h, hleft⟩
    simp only [delTimerNode]
    split
    · exact ⟨h.freeTime hleft.head, hleft.erase⟩
    · exact ⟨h, hleft.tail⟩

theorem Owned.delPeriodicTimerLoop (h : Owned s) (id : Int)
    (hsafe : ∀ r ∈ s.periodicTimeList,
      (s.heap.get r).timerID = id → (s.heap.get r).status = .idle → r ∉ s.pending) :
    Owned (s.periodicTimeList.foldl (delPeriodicTimerNode id) s) := by
  have hloop := foldl_induction (f := delPeriodicTimerNode id)
    (P := fun s rest => Owned s ∧ Left rest s.periodicTimeList ∧
      ∀ r ∈ rest, (s.heap.get r).timerID = id → (s.heap.get r).status = .idle → r ∉ s.pending)
    ?_ s.periodicTimeList s ⟨h, .all h.periodic_nodup, hsafe⟩
  · exact hloop.1
  · rintro s r rest ⟨h, hleft, hsafe⟩
    have htail : ∀ q ∈ rest, (s.heap.get q).timerID = id → (s.heap.get q).status = .idle →
        q ∉ s.pending := fun q hq => hsafe q (List.mem_cons_of_mem r hq)
    simp only [delPeriodicTimerNode]
    split
    · rename_i hid
      split
      · -- marked and taken out of the list
        have hmark : Owned { setStatus .del r s with periodicTimeList := s.periodicTimeList.erase r } := by
          refine (h.erasePeriodic r).modify (r := r) (fun t => { t with status := .del }) ?_ ?_
          · exact fun _ => h.periodic_nodup.not_mem_erase
          · intro hproc
            cases hproc
        refine ⟨hmark, hleft.erase, ?_⟩
        intro q hq
        simp only [setStatus, ObjectHeap.get_modify_of_ne _ (hleft.ne_head hq)]
        exact htail q hq
      · rename_i hidle
        exact ⟨h.freePeriodic hleft.head (hsafe r List.mem_cons_self hid hidle), hleft.erase, htail⟩
      · exact ⟨h, hleft.tail, htail⟩
    · exact ⟨h, hleft.tail, htail⟩

/-- A timer that is being processed waits in {lit}`temp_list`, so this loop releases every timer
it takes. -/
theorem Owned.delPeriodicTimerRetLoop (h : Owned s) (id : Int)
    (hsafe : ∀ r ∈ s.periodicTimeList, (s.heap.get r).timerID = id → r ∉ s.pending) :
    Owned (s.periodicTimeList.foldl (delPeriodicTimerRetNode id) s) := by
  have hloop := foldl_induction (f := delPeriodicTimerRetNode id)
    (P := fun s rest => Owned s ∧ Left rest s.periodicTimeList ∧
      ∀ r ∈ rest, (s.heap.get r).timerID = id → r ∉ s.pending)
    ?_ s.periodicTimeList s ⟨h, .all h.periodic_nodup, hsafe⟩
  · exact hloop.1
  · rintro s r rest ⟨h, hleft, hsafe⟩
    have hsafe' : ∀ q ∈ rest, (s.heap.get q).timerID = id → q ∉ s.pending :=
      fun q hq => hsafe q (List.mem_cons_of_mem r hq)
    simp only [delPeriodicTimerRetNode]
    split
    · rename_i hid
      have hpending := hsafe r List.mem_cons_self hid
      split
      · rename_i hstatus
        exact absurd (h.proc_pending r hleft.head hstatus) hpending
      · exact ⟨h.freePeriodic hleft.head hpending, hleft.erase, hsafe'⟩
    · exact ⟨h, hleft.tail, hsafe'⟩

theorem Owned.uiDelAllTimer (h : Owned s) (hsafe : ∀ r ∈ s.periodicTimeList, r ∉ s.pending) :
    Owned (uiDelAllTimer s) := by
  have htime := foldl_induction (f := fun s r => UiTimer.freeTime r s)
    (P := fun t rest => Owned t ∧ Left rest t.timeList ∧
      ∀ r ∈ t.periodicTimeList, r ∉ t.pending) ?_ s.timeList s ⟨h, .all h.time_nodup, hsafe⟩
  · obtain ⟨howned, _, hsafe'⟩ := htime
    have hperiodic := foldl_induction (f := fun s r => UiTimer.freePeriodic r s)
      (P := fun t rest => Owned t ∧ Left rest t.periodicTimeList ∧ ∀ r ∈ rest, r ∉ t.pending)
      ?_ _ _ ⟨howned, .all howned.periodic_nodup, hsafe'⟩
    · exact hperiodic.1
    · rintro s r rest ⟨h, hleft, hsafe⟩
      exact ⟨h.freePeriodic hleft.head (hsafe r List.mem_cons_self), hleft.erase,
        fun q hq => hsafe q (List.mem_cons_of_mem r hq)⟩
  · rintro s r rest ⟨h, hleft, hsafe⟩
    exact ⟨h.freeTime hleft.head, hleft.erase, hsafe⟩

/-! ## The timer thread -/

/-- The timer thread may go on once the callback of the first element was taken. -/
theorem Owned.taken (h : Owned s) {p : Pc} (hpc : p ≠ .scan)
    (hhead : ∀ e ∈ s.tempList.head?, e.type = .periodic →
      (s.heap.get e.element).status ≠ .proc) :
    Owned { s with pc := p } :=
  { h with scanned := fun hscan => absurd hscan hpc, head_taken := fun _ _ => hhead }

/-- A scan of {lit}`time_list` finds no periodic timer in {lit}`temp_list`. -/
theorem Owned.scanTimeLoop (h : Owned s) (hpc : s.pc = .process)
    (hapart : ∀ r ∈ s.periodicTimeList, r ∉ s.pending) :
    Owned (s.timeList.foldl scanTimeNode s) ∧ (s.timeList.foldl scanTimeNode s).pc = .process ∧
      ∀ r ∈ (s.timeList.foldl scanTimeNode s).periodicTimeList,
        r ∉ (s.timeList.foldl scanTimeNode s).pending := by
  have hloop := foldl_induction (f := scanTimeNode)
    (P := fun s rest => Owned s ∧ s.pc = .process ∧ Left rest s.timeList ∧
      ∀ r ∈ s.periodicTimeList, r ∉ s.pending)
    ?_ s.timeList s ⟨h, hpc, .all h.time_nodup, hapart⟩
  · exact ⟨hloop.1, hloop.2.1, hloop.2.2.2⟩
  · rintro s r rest ⟨h, hpc, hleft, hapart⟩
    have hnext := h.next_notMem
    have htouch := ObjectHeap.touch_of_live (h.time_live r hleft.head)
    simp only [scanTimeNode, htouch]
    split
    · exact ⟨h, hpc, hleft.tail, hapart⟩
    · have hpush := (h.alloc (s.heap.get r)).push (r := s.heap.next) .oneShot hpc
        (ObjectHeap.live_alloc_self _) hnext.1 hnext.2.2 (fun _ => hnext.2.1)
      have hpush' : Owned { s with
          heap := s.heap.alloc (s.heap.get r)
          tempList := { type := .oneShot, element := s.heap.next } :: s.tempList
          log := .copied r s.heap.next :: s.log } := { hpush with }
      refine ⟨hpush'.freeTime hleft.head, hpc, hleft.erase, ?_⟩
      intro q hq hmem
      rcases List.mem_cons.mp hmem with rfl | hmem
      · exact hnext.2.1 hq
      · exact hapart q hq hmem

theorem Owned.scanPeriodicLoop (h : Owned s) (hpc : s.pc = .process)
    (hapart : ∀ r ∈ s.periodicTimeList, r ∉ s.pending) :
    Owned (s.periodicTimeList.foldl scanPeriodicNode s) := by
  have hloop := foldl_induction (f := scanPeriodicNode)
    (P := fun s rest => Owned s ∧ s.pc = .process ∧ Left rest s.periodicTimeList ∧
      ∀ r ∈ rest, r ∉ s.pending)
    ?_ s.periodicTimeList s ⟨h, hpc, .all h.periodic_nodup, hapart⟩
  · exact hloop.1
  · rintro s r rest ⟨h, hpc, hleft, hapart⟩
    have hlive := h.periodic_live r hleft.head
    have htail : ∀ q ∈ rest, q ∉ s.pending := fun q hq => hapart q (List.mem_cons_of_mem r hq)
    simp only [scanPeriodicNode, ObjectHeap.touch_of_live hlive, if_pos (h.unmarked r hleft.head)]
    split
    · exact ⟨h, hpc, hleft.tail, htail⟩
    · have hpush := h.push (r := r) .periodic hpc hlive
        (fun htime => h.time_periodic r htime hleft.head) (hapart r List.mem_cons_self)
        (fun hone => nomatch hone)
      have hmark := hpush.mark (r := r) hpc List.mem_cons_self
      refine ⟨{ hmark with }, hpc, hleft.tail, ?_⟩
      intro q hq hmem
      rcases List.mem_cons.mp hmem with rfl | hmem
      · exact hleft.ne_head hq rfl
      · exact htail q hq hmem

theorem Owned.scanSection (h : Owned s) (hpc : s.pc = .scan) (now : Uptime) :
    Owned (scanSection now s) := by
  have htemp := h.scanned hpc
  have hstart : Owned { s with timerVal := now, pc := .process } := by
    refine { h with scanned := ?_, head_taken := ?_ }
    · intro hscan
      cases hscan
    · exact fun _ hprocess => absurd rfl hprocess
  have hapart : ∀ r ∈ s.periodicTimeList, r ∉ s.pending := by
    intro r _ hmem
    simp [State.pending, htemp] at hmem
  obtain ⟨htime, hpc', hapart'⟩ := hstart.scanTimeLoop rfl hapart
  exact htime.scanPeriodicLoop hpc' hapart'

theorem afterTaken_ne_scan (fn : Option Nat) : afterTaken fn ≠ .scan := by
  cases fn <;> simp [afterTaken]

/-- The section for a periodic timer: the first element is not being processed any more. -/
theorem Owned.periodicSection (h : Owned s) {e : ProcElement}
    (hlive : s.heap.live e.element = true) (hfirst : ∀ f ∈ s.tempList.head?, f = e) :
    Owned (periodicSection e.element s) := by
  simp only [UiTimer.periodicSection, ObjectHeap.touch_of_live hlive]
  split
  · have hidle := h.modify (r := e.element)
      (fun t => { t with timeout := rearmTimeout s.timerVal t.timerLen, status := .idle })
      (fun hdel => nomatch hdel) (fun hproc => nomatch hproc)
    have htaken := hidle.taken (p := afterTaken (s.heap.get e.element).fn) (afterTaken_ne_scan _) ?_
    · exact { htaken with }
    · intro f hf _
      rw [hfirst f hf, ObjectHeap.get_modify_self]
      simp
  · rename_i hne
    apply h.taken
    · simp
    · intro f hf _
      rw [hfirst f hf]
      exact hne

/-- After the callback: a marked timer is in no list any more, and a one-shot timer in none but
{lit}`temp_list`. -/
theorem Owned.finish (h : Owned s) {e : ProcElement} {rest : List ProcElement}
    (htemp : s.tempList = e :: rest) (hpc : s.pc = .finish) (hlive : s.heap.live e.element = true) :
    Owned { releaseDone e s with tempList := rest, pc := .process } := by
  have hpop := h.pop htemp hpc
  have hpending : s.pending = e.element :: rest.map ProcElement.element := by
    rw [State.pending, htemp, List.map_cons]
  have htime : e.element ∉ s.timeList := by
    intro hmem
    apply h.time_pending _ hmem
    rw [hpending]
    exact List.mem_cons_self
  have hrest : e.element ∉ rest.map ProcElement.element := by
    have hnodup := h.pending_nodup
    rw [hpending] at hnodup
    exact (List.nodup_cons.mp hnodup).1
  unfold releaseDone
  split
  · rename_i htype
    have hperiodic := h.oneShot_periodic e (by rw [htemp]; exact List.mem_cons_self) htype
    exact hpop.free hlive htime hperiodic hrest
  · simp only [ObjectHeap.touch_of_live hlive]
    split
    · rename_i hdel
      exact hpop.free hlive htime (fun hmem => h.unmarked _ hmem hdel) hrest
    · exact hpop

/-- The next step of {lit}`UITimerProc` keeps the invariant. -/
theorem Owned.uiTimerProc (h : Owned s) (now : Uptime) : Owned (uiTimerProc now s) := by
  have hhead : ∀ {e : ProcElement} {rest : List ProcElement}, s.tempList = e :: rest →
      s.heap.live e.element = true := by
    intro e rest htemp
    apply h.pending_live
    rw [State.pending, htemp]
    exact List.mem_cons_self
  unfold UiTimer.uiTimerProc
  split
  · rename_i hpc
    exact h.scanSection hpc now
  · rename_i hpc htemp
    refine { h with scanned := fun _ => htemp, head_taken := ?_ }
    exact fun hscan => absurd rfl hscan
  · rename_i e rest hpc htemp
    have hlive := hhead htemp
    have hfirst : ∀ f ∈ s.tempList.head?, f = e := by
      intro f hf
      rw [htemp] at hf
      simpa using hf.symm
    split
    · exact h.periodicSection hlive hfirst
    · rename_i htype
      simp only [oneShotSection, ObjectHeap.touch_of_live hlive]
      have htaken := h.taken (p := afterTaken (s.heap.get e.element).fn) (afterTaken_ne_scan _) ?_
      · exact { htaken with }
      · intro f hf hperiodic
        rw [hfirst f hf, htype] at hperiodic
        cases hperiodic
  · rename_i e rest hpc htemp
    rw [ObjectHeap.touch_of_live (hhead htemp)]
    exact h.taken (by simp) (h.head_taken (by rw [hpc]; simp) (by rw [hpc]; simp))
  · rename_i e rest hpc htemp
    exact h.finish htemp hpc (hhead htemp)
  · exact h
  · exact h

/-! ## Runs -/

/-- A step that is harmless keeps the invariant. -/
theorem Owned.apply (h : Owned s) {op : Op} (hop : Harmless op s) : Owned (op.apply s) := by
  cases op with
  | addTimer alloc now id timerLen timefn privdata =>
      exact h.uiAddTimer alloc now id timerLen timefn privdata
  | addPeriodicTimer alloc now id timerLen timefn privdata =>
      exact h.uiAddPeriodicTimer alloc now id timerLen timefn privdata
  | delTimer id dataptr =>
      simp only [Op.apply, uiDelTimer]
      split
      · exact h
      · exact h.delTimerLoop id
  | delTimerRetDataPtr id dataPtr =>
      simp only [Op.apply, uiDelTimerRetDataPtr]
      split
      · exact h
      · split
        · exact h
        · exact h.delTimerLoop id
  | delPeriodicTimer id dataptr =>
      simp only [Op.apply, uiDelPeriodicTimer]
      split
      · exact h
      · exact h.delPeriodicTimerLoop id (hop (by omega))
  | delPeriodicTimerRetDataPtr id dataPtr =>
      simp only [Op.apply, uiDelPeriodicTimerRetDataPtr]
      split
      · exact h
      · split
        · exact h
        · rename_i hdata
          exact h.delPeriodicTimerRetLoop id (hop (by omega) (by simpa using hdata))
  | delAllTimer => exact h.uiDelAllTimer hop
  | timerProc now => exact h.uiTimerProc now

/-- In every state of a run whose steps are harmless no list names a released timer, no timer was
released twice, and {lit}`UITimerProc` has read no released timer. -/
theorem reaches_intact {s : State} (h : Reaches Harmless s) : Intact s := by
  have howned : Owned s := by
    induction h with
    | init => exact Owned.init
    | step _ hop ih => exact ih.apply hop
  exact howned.toIntact

/-- A reading of full seconds. -/
def seconds (sec : Nat) : Uptime where
  sec := sec
  usec := 0
  usec_lt := Uptime.zero_lt

/-- Add a periodic timer of one second at boot. -/
def addTick : Op :=
  .addPeriodicTimer { timer := true, node := true } (seconds 0) 1 1000 (some 7) 0

/-- A timer that is due is deleted in front of its callback, and the thread releases it. -/
theorem reaches_intact_tick :
    Intact ((Op.timerProc (seconds 1)).apply ((Op.timerProc (seconds 1)).apply
      ((Op.delPeriodicTimer 1 false).apply ((Op.timerProc (seconds 1)).apply
        (addTick.apply State.init))))) := by
  apply reaches_intact
  apply Reaches.step _ trivial
  apply Reaches.step _ trivial
  apply Reaches.step
  · exact (Reaches.init.step trivial).step trivial
  · intro _ r hr hid hidle
    have hlist : r ∈ [0] := hr
    have hzero : r = 0 := by simpa using hlist
    subst hzero
    cases hidle

/-- A timer that is due is deleted with {lit}`UIDelPeriodicTimer_retDataPtr`: the thread releases
it while {lit}`periodic_time_list` names it. -/
theorem retDataPtr_leaves_released :
    ¬ ∀ s, Reaches (fun _ _ => True) s → Intact s := by
  intro hall
  have hrun := hall _ (Reaches.init.run [addTick, .timerProc (seconds 1),
    .delPeriodicTimerRetDataPtr 1 true, .timerProc (seconds 1), .timerProc (seconds 1)])
  exact absurd (hrun.periodic_live 0 (by decide)) (by decide)

end UiTimer
end ZyxelRouter
