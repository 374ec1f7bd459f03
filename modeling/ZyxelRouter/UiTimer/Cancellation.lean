import ZyxelRouter.UiTimer.Lifetimes

/-!
# What a deletion prevents

A deletion takes timers out of their list.  A one-shot timer that a scan has found due before is a
copy in {lit}`temp_list`, which no deletion looks at.  A periodic timer that waits there is marked.

Main results:

- Theorem {lit}`deletes_absent`: behind a deletion the list has no timer with the identifier.
- Theorem {lit}`apply_absent`: it has none until one is added.
- Theorem {lit}`deleted_not_called`: until one is added, the one-shot timers with the identifier are
  called that a scan had found due before the deletion, and no periodic one.
-/

namespace ZyxelRouter
namespace UiTimer

open Lib

/-! ## Timers that are in no list -/

/-- The calls for the timers of an identifier. -/
def Invocation.isFor (type : TimerType) (id : Int) (i : Invocation) : Bool :=
  i.timer = (type, id)

/-- A call deletes the timers of an identifier. -/
def Op.deletes (type : TimerType) (id : Int) : Op → Prop
  | .delTimer id' _ => type = .oneShot ∧ id' = id
  | .delTimerRetDataPtr id' dataPtr => type = .oneShot ∧ id' = id ∧ dataPtr = true
  | .delPeriodicTimer id' _ => type = .periodic ∧ id' = id
  | .delPeriodicTimerRetDataPtr id' dataPtr => type = .periodic ∧ id' = id ∧ dataPtr = true
  | .delAllTimer => True
  | _ => False

/-- A call adds a timer of an identifier. -/
def Op.adds (type : TimerType) (id : Int) : Op → Prop
  | .addTimer _ _ id' _ _ _ => type = .oneShot ∧ id' = id
  | .addPeriodicTimer _ _ id' _ _ _ => type = .periodic ∧ id' = id
  | _ => False

/-- The list of the timers of a kind. -/
def State.listOf (s : State) : TimerType → List Nat
  | .oneShot => s.timeList
  | .periodic => s.periodicTimeList

/-- The list has no timer with the identifier. -/
def Absent (type : TimerType) (id : Int) (s : State) : Prop :=
  ∀ q ∈ s.listOf type, s.timerID q ≠ id

variable {s s' : State} {type : TimerType} {id : Int} {keep : Int → Prop} {gone : Nat → Prop}

theorem Listed.listOf_lt (h : Listed s) : ∀ q ∈ s.listOf type, q < s.heap.next := by
  cases type with
  | oneShot => exact h.time_lt
  | periodic => exact h.periodic_lt

theorem Spares.listOf (h : Spares keep s s') : (s'.listOf type).Sublist (s.listOf type) := by
  cases type with
  | oneShot => exact h.time
  | periodic => exact h.periodic

theorem Spares.timerID (h : Spares keep s s') {q : Nat} (hq : q < s.heap.next) :
    s'.timerID q = s.timerID q := by
  rw [State.timerID, h.same q hq]
  rfl

/-! ### Until one is added -/

theorem Absent.spares (h : Absent type id s) (hlisted : Listed s) (hspares : Spares keep s s') :
    Absent type id s' := by
  intro q hq
  have hmem := hspares.listOf.subset hq
  rw [hspares.timerID (hlisted.listOf_lt q hmem)]
  exact h q hmem

theorem Absent.works (h : Absent type id s) (hworks : Works s s') : Absent type id s' := by
  intro q hq
  have hmem : q ∈ s.listOf type := by
    cases type with
    | oneShot =>
        change q ∈ s'.timeList at hq
        rw [hworks.time] at hq
        exact hq
    | periodic =>
        change q ∈ s'.periodicTimeList at hq
        rw [hworks.periodic] at hq
        exact hq
  have hid : s'.timerID q = s.timerID q := by
    rw [State.timerID, hworks.get, State.rearm]
    split <;> rfl
  rw [hid]
  exact h q hmem

/-- A list may get a new timer of another identifier. -/
theorem Absent.append {touched : Nat → Prop} (h : Absent type id s) (hlisted : Listed s)
    (hframes : Frames touched s s')
    (hlist : ∀ q ∈ s'.listOf type, q ∈ s.listOf type ∨ s'.timerID q ≠ id) : Absent type id s' := by
  intro q hq
  rcases hlist q hq with hmem | hne
  · rw [hframes.timerID q (hlisted.listOf_lt q hmem)]
    exact h q hmem
  · exact hne

theorem uiAddTimer_listOf (alloc : Alloc) (now : Uptime) {id' : Int} (timerLen : UInt32)
    (timefn : Option Nat) (privdata : Nat) (hne : ¬ (type = .oneShot ∧ id' = id)) :
    ∀ q ∈ ((uiAddTimer alloc now id' timerLen timefn privdata s).2).listOf type,
      q ∈ s.listOf type ∨
        ((uiAddTimer alloc now id' timerLen timefn privdata s).2).timerID q ≠ id := by
  intro q
  simp only [uiAddTimer]
  split
  · exact .inl
  · split
    · cases type <;> exact .inl
    · split
      · cases type <;> exact .inl
      · cases type with
        | periodic => exact .inl
        | oneShot =>
            intro hq
            rcases List.mem_append.mp hq with hq | hq
            · exact .inl hq
            · right
              rw [List.mem_singleton.mp hq]
              simpa [State.timerID, allocTimer] using hne

theorem uiAddPeriodicTimer_listOf (alloc : Alloc) (now : Uptime) {id' : Int} (timerLen : Int32)
    (timefn : Option Nat) (privdata : Nat) (hne : ¬ (type = .periodic ∧ id' = id)) :
    ∀ q ∈ ((uiAddPeriodicTimer alloc now id' timerLen timefn privdata s).2).listOf type,
      q ∈ s.listOf type ∨
        ((uiAddPeriodicTimer alloc now id' timerLen timefn privdata s).2).timerID q ≠ id := by
  intro q
  simp only [uiAddPeriodicTimer]
  split
  · exact .inl
  · split
    · cases type <;> exact .inl
    · split
      · cases type <;> exact .inl
      · cases type with
        | oneShot => exact .inl
        | periodic =>
            intro hq
            rcases List.mem_append.mp hq with hq | hq
            · exact .inl hq
            · right
              rw [List.mem_singleton.mp hq]
              simpa [State.timerID, allocTimer] using hne

/-- Only the call that adds a timer brings its identifier into the list. -/
theorem apply_absent (h : Absent type id s) (hlisted : Listed s) {op : Op}
    (hop : ¬ op.adds type id) : Absent type id (op.apply s) := by
  cases op with
  | addTimer alloc now id' timerLen timefn privdata =>
      exact h.append hlisted (Frames.uiAddTimer hlisted alloc now id' timerLen timefn privdata)
        (uiAddTimer_listOf alloc now timerLen timefn privdata hop)
  | addPeriodicTimer alloc now id' timerLen timefn privdata =>
      exact h.append hlisted (Frames.uiAddPeriodicTimer hlisted alloc now id' timerLen timefn privdata)
        (uiAddPeriodicTimer_listOf alloc now timerLen timefn privdata hop)
  | delTimer id' dataptr => exact h.spares hlisted (Spares.uiDelTimer (fun _ => False) id' dataptr hlisted)
  | delTimerRetDataPtr id' dataPtr =>
      exact h.spares hlisted (Spares.uiDelTimerRetDataPtr (fun _ => False) id' dataPtr hlisted)
  | delPeriodicTimer id' dataptr =>
      exact h.spares hlisted (Spares.uiDelPeriodicTimer (fun _ => False) not_false dataptr hlisted)
  | delPeriodicTimerRetDataPtr id' dataPtr =>
      exact h.spares hlisted
        (Spares.uiDelPeriodicTimerRetDataPtr (fun _ => False) not_false dataPtr hlisted)
  | delAllTimer => exact h.spares hlisted (Spares.uiDelAllTimer hlisted)
  | timerProc now =>
      by_cases hpc : s.pc = .scan
      · have hscan : (Op.timerProc now).apply s = scanSection now s := by
          rw [Op.apply, uiTimerProc, hpc]
        rw [hscan]
        have hstart : Absent type id (startScan now s) := by
          cases type <;> exact h
        exact hstart.spares (hlisted.startScan now) (Spares.scanSection (fun _ => False) hlisted now)
      · exact h.works (uiTimerProc_works now s hpc hlisted.working)

/-! ### Behind a deletion -/

/-- A walk over {lit}`periodic_time_list` that takes every timer of an identifier out of it. -/
theorem foldl_removes {f : State → Nat → State} (hnodup : s.periodicTimeList.Nodup)
    (hsub : ∀ t r, (f t r).periodicTimeList.Sublist t.periodicTimeList)
    (hget : ∀ t r q, q ≠ r → (f t r).heap.get q = t.heap.get q)
    (hremove : ∀ t r, r ∈ s.periodicTimeList → s.timerID r = id → t.heap.get r = s.heap.get r →
      t.periodicTimeList.Nodup → r ∉ (f t r).periodicTimeList) :
    ∀ q ∈ (s.periodicTimeList.foldl f s).periodicTimeList, s.timerID q ≠ id := by
  have hloop := foldl_induction (f := f)
    (P := fun t rest => t.periodicTimeList.Nodup ∧ rest.Nodup ∧
      (∀ q ∈ rest, q ∈ s.periodicTimeList ∧ t.heap.get q = s.heap.get q) ∧
      ∀ q ∈ t.periodicTimeList, s.timerID q = id → q ∈ rest)
    ?_ s.periodicTimeList s ⟨hnodup, hnodup, fun q hq => ⟨hq, rfl⟩, fun q hq _ => hq⟩
  · intro q hq hid
    cases hloop.2.2.2 q hq hid
  · rintro t r rest ⟨hlist, hrest, hleft, hin⟩
    obtain ⟨hr, hrest⟩ := List.nodup_cons.mp hrest
    refine ⟨hlist.sublist (hsub t r), hrest, ?_, ?_⟩
    · intro q hq
      obtain ⟨hmem, heq⟩ := hleft q (List.mem_cons_of_mem r hq)
      exact ⟨hmem, (hget t r q (fun h => hr (h ▸ hq))).trans heq⟩
    · intro q hq hid
      rcases List.mem_cons.mp (hin q ((hsub t r).subset hq) hid) with rfl | hq'
      · obtain ⟨hmem, heq⟩ := hleft q List.mem_cons_self
        exact absurd hq (hremove t q hmem hid heq hlist)
      · exact hq'

theorem delPeriodicTimerNode_sub (id : Int) (t : State) (r : Nat) :
    (delPeriodicTimerNode id t r).periodicTimeList.Sublist t.periodicTimeList := by
  rw [delPeriodicTimerNode]
  split
  · split
    · exact List.erase_sublist
    · exact List.erase_sublist
    · exact List.Sublist.refl _
  · exact List.Sublist.refl _

theorem delPeriodicTimerNode_get (id : Int) (t : State) (r q : Nat) (hq : q ≠ r) :
    (delPeriodicTimerNode id t r).heap.get q = t.heap.get q := by
  rw [delPeriodicTimerNode]
  split
  · split
    · simp only [setStatus, ObjectHeap.get_modify_of_ne _ hq]
    · rfl
    · rfl
  · rfl

theorem delPeriodicTimerRetNode_sub (id : Int) (t : State) (r : Nat) :
    (delPeriodicTimerRetNode id t r).periodicTimeList.Sublist t.periodicTimeList := by
  rw [delPeriodicTimerRetNode]
  split
  · split
    · exact List.Sublist.refl _
    · exact List.erase_sublist
  · exact List.Sublist.refl _

theorem delPeriodicTimerRetNode_get (id : Int) (t : State) (r q : Nat) (hq : q ≠ r) :
    (delPeriodicTimerRetNode id t r).heap.get q = t.heap.get q := by
  rw [delPeriodicTimerRetNode]
  split
  · split
    · simp only [setStatus, ObjectHeap.get_modify_of_ne _ hq]
    · rfl
  · rfl

/-- {lit}`UIDelPeriodicTimer` takes every timer of the identifier out of its list. -/
theorem delPeriodicTimer_removes (h : Owned s) (id : Int) :
    ∀ q ∈ (s.periodicTimeList.foldl (delPeriodicTimerNode id) s).periodicTimeList,
      s.timerID q ≠ id := by
  refine foldl_removes h.periodic_nodup (delPeriodicTimerNode_sub id) (delPeriodicTimerNode_get id) ?_
  intro t r hr hrid hget hnodup
  have hrid' : (t.heap.get r).timerID = id := by
    rw [hget]
    exact hrid
  rw [delPeriodicTimerNode, if_pos hrid']
  split
  · exact hnodup.not_mem_erase
  · exact hnodup.not_mem_erase
  · rename_i hdel
    rw [hget] at hdel
    exact absurd hdel (h.unmarked r hr)

/-- {lit}`UIDelPeriodicTimer_retDataPtr` does so if none of them is being processed. -/
theorem delPeriodicTimerRet_removes (h : Owned s)
    (hidle : ∀ r ∈ s.periodicTimeList, s.timerID r = id → (s.heap.get r).status ≠ .proc) :
    ∀ q ∈ (s.periodicTimeList.foldl (delPeriodicTimerRetNode id) s).periodicTimeList,
      s.timerID q ≠ id := by
  refine foldl_removes h.periodic_nodup (delPeriodicTimerRetNode_sub id)
    (delPeriodicTimerRetNode_get id) ?_
  intro t r hr hrid hget hnodup
  have hrid' : (t.heap.get r).timerID = id := by
    rw [hget]
    exact hrid
  rw [delPeriodicTimerRetNode, if_pos hrid']
  split
  · rename_i hproc
    rw [hget] at hproc
    exact absurd hproc (hidle r hr hrid)
  · exact hnodup.not_mem_erase

/-- Behind a deletion that is harmless the list has no timer with the identifier. -/
theorem deletes_absent (h : Owned s) (hlisted : Listed s) (hid : 0 < id) {op : Op}
    (hharmless : Harmless op s) (hop : op.deletes type id) : Absent type id (op.apply s) := by
  have hsame : (∀ now, op ≠ .timerProc now) →
      (∀ q ∈ (op.apply s).listOf type, q ∈ s.listOf type ∧ s.timerID q ≠ id) →
      Absent type id (op.apply s) := by
    intro hne hlist q hq
    obtain ⟨hmem, hq⟩ := hlist q hq
    rw [(op.frames hlisted hne).timerID q (hlisted.listOf_lt q hmem)]
    exact hq
  cases op with
  | addTimer => exact absurd hop not_false
  | addPeriodicTimer => exact absurd hop not_false
  | timerProc => exact absurd hop not_false
  | delTimer id' dataptr =>
      obtain ⟨rfl, rfl⟩ := hop
      refine hsame (fun _ heq => by cases heq) (fun q hq => ?_)
      simp only [Op.apply, uiDelTimer, if_neg (Int.not_le.mpr hid), State.listOf, delTimer_state] at hq
      exact ⟨List.mem_of_mem_filter hq, of_decide_eq_true (List.mem_filter.mp hq).2⟩
  | delTimerRetDataPtr id' dataPtr =>
      obtain ⟨rfl, rfl, rfl⟩ := hop
      refine hsame (fun _ heq => by cases heq) (fun q hq => ?_)
      simp only [Op.apply, uiDelTimerRetDataPtr, if_neg (Int.not_le.mpr hid), State.listOf, delTimer_state,
        Bool.not_true, Bool.false_eq_true, if_false] at hq
      exact ⟨List.mem_of_mem_filter hq, of_decide_eq_true (List.mem_filter.mp hq).2⟩
  | delPeriodicTimer id' dataptr =>
      obtain ⟨rfl, rfl⟩ := hop
      refine hsame (fun _ heq => by cases heq) (fun q hq => ⟨?_, ?_⟩)
      · exact (Spares.uiDelPeriodicTimer (fun _ => False) not_false dataptr hlisted).listOf.subset hq
      · simp only [Op.apply, uiDelPeriodicTimer, if_neg (Int.not_le.mpr hid), State.listOf] at hq
        exact delPeriodicTimer_removes h id' q hq
  | delPeriodicTimerRetDataPtr id' dataPtr =>
      obtain ⟨rfl, rfl, rfl⟩ := hop
      refine hsame (fun _ heq => by cases heq) (fun q hq => ⟨?_, ?_⟩)
      · exact (Spares.uiDelPeriodicTimerRetDataPtr (fun _ => False) not_false true
          hlisted).listOf.subset hq
      · simp only [Op.apply, uiDelPeriodicTimerRetDataPtr, if_neg (Int.not_le.mpr hid), State.listOf,
          Bool.not_true, Bool.false_eq_true, if_false] at hq
        exact delPeriodicTimerRet_removes h
          (fun r hr hrid hproc => hharmless hid rfl r hr hrid (h.proc_pending r hr hproc)) q hq
  | delAllTimer =>
      obtain ⟨htime, hperiodic, -⟩ := uiDelAllTimer_lists s
      intro q hq
      have hempty : (uiDelAllTimer s).listOf type = [] := by
        cases type with
        | oneShot => exact htime
        | periodic => exact hperiodic
      rw [Op.apply, hempty] at hq
      cases hq

/-! ## Callbacks of periodic timers -/

section Idle

variable {q : Nat}

theorem foldl_idle {f : State → Nat → State}
    (hf : ∀ t r, (t.heap.get q).status = .idle → ((f t r).heap.get q).status = .idle) (l : List Nat)
    (h : (s.heap.get q).status = .idle) : ((l.foldl f s).heap.get q).status = .idle :=
  foldl_induction (f := f) (P := fun t _ => (t.heap.get q).status = .idle)
    (fun t r _ ht => hf t r ht) l s h

theorem allocTimer_idle (hq : q < s.heap.next) (h : (s.heap.get q).status = .idle) (now : Uptime)
    (t : CMTimer) : ((allocTimer now t s).heap.get q).status = .idle := by
  rw [allocTimer, ObjectHeap.get_alloc_of_ne _ (Nat.ne_of_lt hq)]
  exact h

/-- Only a timer that is being processed is marked. -/
theorem setStatus_del_idle {r : Nat} (h : (s.heap.get q).status = .idle)
    (hproc : (s.heap.get r).status = .proc) : ((setStatus .del r s).heap.get q).status = .idle := by
  have hne : q ≠ r := by
    rintro rfl
    rw [h] at hproc
    cases hproc
  simp only [setStatus, ObjectHeap.get_modify_of_ne _ hne]
  exact h

theorem delTimerNode_idle (id : Int) (s : State) (r : Nat) (h : (s.heap.get q).status = .idle) :
    ((delTimerNode id s r).heap.get q).status = .idle := by
  rw [delTimerNode]
  split <;> exact h

theorem delPeriodicTimerNode_idle (id : Int) (s : State) (r : Nat)
    (h : (s.heap.get q).status = .idle) :
    ((delPeriodicTimerNode id s r).heap.get q).status = .idle := by
  rw [delPeriodicTimerNode]
  split
  · split
    · rename_i hproc
      exact setStatus_del_idle h hproc
    · exact h
    · exact h
  · exact h

theorem delPeriodicTimerRetNode_idle (id : Int) (s : State) (r : Nat)
    (h : (s.heap.get q).status = .idle) :
    ((delPeriodicTimerRetNode id s r).heap.get q).status = .idle := by
  rw [delPeriodicTimerRetNode]
  split
  · split
    · rename_i hproc
      exact setStatus_del_idle h hproc
    · exact h
  · exact h

/-- A timer that is set anew keeps its status. -/
theorem uiAddTimer_idle (hq : q < s.heap.next) (h : (s.heap.get q).status = .idle) (alloc : Alloc)
    (now : Uptime) (id : Int) (timerLen : UInt32) (timefn : Option Nat) (privdata : Nat) :
    ((uiAddTimer alloc now id timerLen timefn privdata s).2.heap.get q).status = .idle := by
  have halloc := allocTimer_idle hq h now
  simp only [uiAddTimer]
  split
  · exact h
  · split
    · rename_i intimer _
      by_cases hne : q = intimer
      · subst hne
        simpa only [ObjectHeap.get_modify_self] using halloc _
      · simpa only [ObjectHeap.get_modify_of_ne _ hne] using halloc _
    · split
      · exact halloc _
      · exact halloc _

/-- A periodic timer that is set anew is idle. -/
theorem uiAddPeriodicTimer_idle (hq : q < s.heap.next) (h : (s.heap.get q).status = .idle)
    (alloc : Alloc) (now : Uptime) (id : Int) (timerLen : Int32) (timefn : Option Nat)
    (privdata : Nat) :
    ((uiAddPeriodicTimer alloc now id timerLen timefn privdata s).2.heap.get q).status = .idle := by
  have halloc := allocTimer_idle hq h now
  simp only [uiAddPeriodicTimer]
  split
  · exact h
  · split
    · rename_i intimer _
      by_cases hne : q = intimer
      · subst hne
        simp only [ObjectHeap.get_modify_self]
      · simpa only [ObjectHeap.get_modify_of_ne _ hne] using halloc _
    · split
      · exact halloc _
      · exact halloc _

/-- A call of the interface leaves an idle timer idle: the deletions mark timers that are being
processed only. -/
theorem apply_idle (hq : q < s.heap.next) (h : (s.heap.get q).status = .idle) {op : Op}
    (hop : ∀ now, op ≠ .timerProc now) : ((op.apply s).heap.get q).status = .idle := by
  cases op with
  | addTimer alloc now id timerLen timefn privdata =>
      exact uiAddTimer_idle hq h alloc now id timerLen timefn privdata
  | addPeriodicTimer alloc now id timerLen timefn privdata =>
      exact uiAddPeriodicTimer_idle hq h alloc now id timerLen timefn privdata
  | delTimer id dataptr =>
      simp only [Op.apply, uiDelTimer]
      split
      · exact h
      · exact foldl_idle (delTimerNode_idle id) _ h
  | delTimerRetDataPtr id dataPtr =>
      simp only [Op.apply, uiDelTimerRetDataPtr]
      split
      · exact h
      · split
        · exact h
        · exact foldl_idle (delTimerNode_idle id) _ h
  | delPeriodicTimer id dataptr =>
      simp only [Op.apply, uiDelPeriodicTimer]
      split
      · exact h
      · exact foldl_idle (delPeriodicTimerNode_idle id) _ h
  | delPeriodicTimerRetDataPtr id dataPtr =>
      simp only [Op.apply, uiDelPeriodicTimerRetDataPtr]
      split
      · exact h
      · split
        · exact h
        · exact foldl_idle (delPeriodicTimerRetNode_idle id) _ h
  | delAllTimer =>
      have hfreed : ((s.timeList.foldl (fun s r => freeTime r s) s).heap.get q).status = .idle :=
        foldl_idle (f := fun s r => freeTime r s) (fun _ _ ht => ht) _ h
      exact foldl_idle (f := fun s r => freePeriodic r s) (fun _ _ ht => ht) _ hfreed
  | timerProc now => exact absurd rfl (hop now)

end Idle

/-- In front of the callback of a periodic timer that timer is idle. -/
def Called (s : State) : Prop :=
  ∀ fn, s.pc = .call fn → ∀ e ∈ s.tempList.head?, e.type = .periodic →
    (s.heap.get e.element).status = .idle

theorem Called.of_pc (h : ∀ fn, s.pc ≠ .call fn) : Called s :=
  fun fn hpc => absurd hpc (h fn)

theorem Called.uiTimerProc (h : Called s) (hlisted : Listed s) (now : Uptime) :
    Called (uiTimerProc now s) := by
  unfold UiTimer.uiTimerProc
  split
  · have hpc : (scanSection now s).pc = .process :=
      (Spares.scanSection (fun _ => True) hlisted now).pc
    exact Called.of_pc (fun fn => by rw [hpc]; simp)
  · exact Called.of_pc (fun fn => by simp)
  · rename_i e rest hpc htemp
    split
    · simp only [periodicSection, ObjectHeap.get_touch]
      split
      · intro fn _ f hf _
        have hfe : f = e := by
          simpa [htemp] using hf.symm
        rw [hfe, ObjectHeap.get_modify_self]
      · exact Called.of_pc (fun fn => by simp)
    · rename_i htype
      intro fn _ f hf hperiodic
      have hfe : f = e := by
        simpa [oneShotSection, htemp] using hf.symm
      rw [hfe, htype] at hperiodic
      cases hperiodic
  · exact Called.of_pc (fun fn => by simp)
  · exact Called.of_pc (fun fn => by simp)
  · exact h
  · exact h

theorem Called.apply (h : Called s) (ho : Owned s) (hlisted : Listed s) (op : Op) :
    Called (op.apply s) := by
  by_cases htick : ∃ now, op = .timerProc now
  · obtain ⟨now, rfl⟩ := htick
    exact h.uiTimerProc hlisted now
  · have hop : ∀ now, op ≠ .timerProc now := fun now heq => htick ⟨now, heq⟩
    have hframes := op.frames hlisted hop
    intro fn hpc e he htype
    rw [hframes.pc] at hpc
    rw [hframes.temp] at he
    exact apply_idle (ho.pending_lt e (List.mem_of_mem_head? he)) (h fn hpc e he htype) hop

/-- The invariant of a run behind the deletion of a periodic timer. -/
structure Silent (id : Int) (gone : Nat → Prop) (s : State) : Prop where
  owned : Owned s
  listed : Listed s
  accounted : Accounted gone s
  called : Called s
  absent : Absent .periodic id s

theorem Silent.apply (h : Silent id gone s) {op : Op} (hharmless : Harmless op s)
    (hop : ¬ op.adds .periodic id) : Silent id (fun q => gone q ∨ op.lost s = some q) (op.apply s) where
  owned := h.owned.apply hharmless
  listed := h.listed.apply op
  accounted := h.accounted.apply h.owned hharmless
  called := h.called.apply h.owned h.listed op
  absent := apply_absent h.absent h.listed hop

/-- A periodic timer that is called is in its list. -/
theorem Silent.invocation (h : Silent id gone s) (op : Op) :
    (op.invocation s).toList.filter (Invocation.isFor .periodic id) = [] := by
  have hstate : s.invocation.toList.filter (Invocation.isFor .periodic id) = [] := by
    rw [State.invocation]
    split
    · rename_i fn e rest hpc htemp
      have he : e ∈ s.tempList := by
        rw [htemp]
        exact List.mem_cons_self
      apply List.filter_eq_nil_iff.mpr
      intro i hi
      obtain rfl : i = _ := List.mem_singleton.mp hi
      simp only [Invocation.isFor, Invocation.timer, Prod.mk.injEq, decide_eq_true_eq]
      rintro ⟨htype, hid⟩
      rcases h.accounted.marked e he htype with hmem | hdel
      · exact h.absent _ hmem hid
      · rw [h.called fn hpc e (by rw [htemp]; rfl) htype] at hdel
        cases hdel
    · rfl
  cases op with
  | timerProc now => exact hstate
  | _ => rfl

theorem Silent.run {ops : List Op} (h : Silent id gone s) (hrun : HarmlessRun ops s)
    (hops : ∀ op ∈ ops, ¬ op.adds .periodic id) :
    (invocations ops s).filter (Invocation.isFor .periodic id) = [] := by
  induction ops generalizing s gone with
  | nil => rfl
  | cons op ops ih =>
      have hrest := ih (h.apply hrun.1 (hops op List.mem_cons_self)) hrun.2
        (fun op' hop' => hops op' (List.mem_cons_of_mem op hop'))
      rw [invocations, List.filter_append, h.invocation op, hrest]
      rfl

/-! ## Callbacks of one-shot timers -/

theorem filter_sure_isFor (l : List Invocation) :
    (l.filter (Invocation.sure (fun _ => false))).filter (Invocation.isFor .oneShot id) =
      l.filter (Invocation.isFor .oneShot id) := by
  rw [List.filter_filter]
  apply List.filter_congr
  intro i _
  rw [Bool.and_eq_left_iff_imp]
  intro hi
  have htype : i.type = .oneShot := congrArg Prod.fst (of_decide_eq_true hi)
  simp [Invocation.sure, htype]

/-- What is owed to the one-shot timers of an identifier that is in the list no more. -/
theorem oneShot_owed (ho : Owned s) (hlisted : Listed s) (h : Absent .oneShot id s) (op : Op) :
    (op.invocation s).toList.filter (Invocation.isFor .oneShot id) ++
        (op.apply s).owed.filter (Invocation.isFor .oneShot id) =
      s.owed.filter (Invocation.isFor .oneShot id) := by
  by_cases hscan : s.pc = .scan ∧ ∃ now, op = .timerProc now
  · obtain ⟨hpc, now, rfl⟩ := hscan
    have happly : (Op.timerProc now).apply s = scanSection now s := by
      rw [Op.apply, uiTimerProc, hpc]
    have hnone : (Op.timerProc now).invocation s = none := by
      simp [Op.invocation, State.invocation, hpc]
    rw [hnone, happly, owed_of_scan ho hpc, (scanSection_owed ho hlisted hpc now).1]
    apply List.filter_eq_nil_iff.mpr
    intro i hi
    obtain ⟨p, hp, hcall⟩ := List.mem_filterMap.mp hi
    simp only [CMTimer.invocation, Option.map_eq_some_iff] at hcall
    obtain ⟨fn, -, rfl⟩ := hcall
    simp only [Invocation.isFor, Invocation.timer, Prod.mk.injEq, decide_eq_true_eq]
    rintro ⟨htype, hid⟩
    rcases List.mem_append.mp hp with hp | hp
    · obtain ⟨q, -, rfl⟩ := List.mem_map.mp hp
      cases htype
    · obtain ⟨q, hq, rfl⟩ := List.mem_map.mp hp
      exact h q (List.mem_of_mem_filter (List.mem_reverse.mp hq)) hid
  · have howed := (op_owed (fun _ => false) ho hlisted
      (fun hpc now heq => hscan ⟨hpc, now, heq⟩) (fun id hid => by cases hid)).1
    have hfilter := congrArg (List.filter (Invocation.isFor .oneShot id)) howed
    rwa [List.filter_append, filter_sure_isFor, filter_sure_isFor, filter_sure_isFor] at hfilter

theorem oneShot_run {ops : List Op} (ho : Owned s) (hlisted : Listed s) (h : Absent .oneShot id s)
    (hrun : HarmlessRun ops s) (hops : ∀ op ∈ ops, ¬ op.adds .oneShot id) :
    (invocations ops s).filter (Invocation.isFor .oneShot id) ++
        (run ops s).owed.filter (Invocation.isFor .oneShot id) =
      s.owed.filter (Invocation.isFor .oneShot id) := by
  induction ops generalizing s with
  | nil => rfl
  | cons op ops ih =>
      have hrest := ih (ho.apply hrun.1) (hlisted.apply op)
        (apply_absent h hlisted (hops op List.mem_cons_self)) hrun.2
        (fun op' hop' => hops op' (List.mem_cons_of_mem op hop'))
      rw [invocations, List.filter_append, List.append_assoc, ← oneShot_owed ho hlisted h op]
      exact congrArg _ hrest

/-! ## Deleted timers -/

/-- The calls that a deletion comes too late for. -/
def State.committed (s : State) : TimerType → Int → List Invocation
  | .oneShot, id => s.owed.filter (Invocation.isFor .oneShot id)
  | .periodic, _ => []

theorem Op.deletes.ne_timerProc {op : Op} (h : op.deletes type id) : ∀ now, op ≠ .timerProc now := by
  rintro now rfl
  exact h

theorem reaches_accounted (h : Reaches Harmless s) : (∃ gone, Accounted gone s) ∧ Called s := by
  induction h with
  | init => exact ⟨⟨_, Accounted.init⟩, fun fn hpc => by cases hpc⟩
  | step hreaches hop ih =>
      obtain ⟨howned, hlisted⟩ := reaches_owned hreaches
      obtain ⟨⟨gone, haccounted⟩, hcalled⟩ := ih
      exact ⟨⟨_, haccounted.apply howned hop⟩, hcalled.apply howned hlisted _⟩

end UiTimer
end ZyxelRouter
