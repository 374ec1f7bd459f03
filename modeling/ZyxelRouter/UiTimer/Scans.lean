import ZyxelRouter.UiTimer.Ownership
import ZyxelRouter.UiTimer.Periods

/-!
# The callbacks of a scan

A scan names every timer that is due in {lit}`temp_list`.  {lit}`UITimerProc` then works that list
off from the front, while the callbacks and the other threads go on adding and deleting timers.

A callback is taken under the mutex and called behind it, and the identifier and the data are read
for the call only.  So it has to be shown that nobody changes them in between.

Main results:

- Theorem {lit}`Op.frames`: which timers a call of the interface may change.
- Theorem {lit}`uiTimerProc_owed`: a step of {lit}`UITimerProc` makes the first call that is owed.
- Theorem {lit}`scanSection_owed`: what a scan owes.
- Theorem {lit}`scan_serves`: which callbacks are called for a scan, in which order and with which
  data, whatever the other threads do meanwhile.
-/

namespace ZyxelRouter
namespace UiTimer

open Lib

/-! ## Calls of callbacks -/

/-- A call of a callback: {lit}`fn(TimerID, data)`. -/
structure Invocation where
  type : TimerType
  fn : Nat
  timerID : Int
  data : Nat
deriving DecidableEq, Repr

/-- The call of a timer's callback, unless that is a null pointer. -/
def CMTimer.invocation (type : TimerType) (t : CMTimer) : Option Invocation :=
  t.fn.map (fun fn => { type := type, fn := fn, timerID := t.timerID, data := t.data })

/-- The call in front of which {lit}`UITimerProc` stands. -/
def State.invocation (s : State) : Option Invocation :=
  match s.pc, s.tempList with
  | .call fn, e :: _ =>
      some { type := e.type, fn := fn, timerID := s.timerID e.element,
             data := (s.heap.get e.element).data }
  | _, _ => none

/-- The call that a step makes. -/
def Op.invocation (op : Op) (s : State) : Option Invocation :=
  match op with
  | .timerProc _ => s.invocation
  | _ => none

/-- The calls that a run makes. -/
def invocations : List Op → State → List Invocation
  | [], _ => []
  | op :: ops, s => (op.invocation s).toList ++ invocations ops (op.apply s)

/-- The elements of {lit}`temp_list` whose callbacks were not taken yet, with their timers. -/
def State.queue (s : State) : List (TimerType × CMTimer) :=
  s.ahead.map (fun e => (e.type, s.heap.get e.element))

/-- What an element leads to: a periodic timer has to be processed still. -/
def dueCall : TimerType × CMTimer → Option Invocation
  | (.oneShot, t) => t.invocation .oneShot
  | (.periodic, t) => if t.status = .proc then t.invocation .periodic else none

/-- The calls that are owed: the one that was taken, and those of the elements behind it. -/
def State.owed (s : State) : List Invocation :=
  s.invocation.toList ++ s.queue.filterMap dueCall

variable {s s' s'' : State} {r : Nat} {touched : Nat → Prop}

theorem ahead_subset (s : State) : ∀ e ∈ s.ahead, e ∈ s.tempList := by
  intro e he
  unfold State.ahead at he
  split at he
  · exact List.mem_of_mem_tail he
  · exact List.mem_of_mem_tail he
  · exact he

theorem owed_of_scan (h : Owned s) (hpc : s.pc = .scan) : s.owed = [] := by
  simp [State.owed, State.invocation, State.queue, State.ahead, hpc, h.scanned hpc]

/-! ## What the interface leaves alone -/

/-- {lit}`UITimerProc` stays where it is, no timer gets another identifier, and only some timers
change. -/
structure Frames (touched : Nat → Prop) (s s' : State) : Prop where
  pc : s'.pc = s.pc
  temp : s'.tempList = s.tempList
  next_le : s.heap.next ≤ s'.heap.next
  timerID : ∀ q < s.heap.next, s'.timerID q = s.timerID q
  get : ∀ q < s.heap.next, ¬ touched q → s'.heap.get q = s.heap.get q

theorem Frames.refl (touched : Nat → Prop) (s : State) : Frames touched s s :=
  ⟨rfl, rfl, Nat.le_refl _, fun _ _ => rfl, fun _ _ _ => rfl⟩

theorem Frames.trans (h : Frames touched s s') (h' : Frames touched s' s'') :
    Frames touched s s'' := by
  constructor
  · exact h'.pc.trans h.pc
  · exact h'.temp.trans h.temp
  · exact Nat.le_trans h.next_le h'.next_le
  · exact fun q hq => (h'.timerID q (Nat.lt_of_lt_of_le hq h.next_le)).trans (h.timerID q hq)
  · exact fun q hq hne =>
      (h'.get q (Nat.lt_of_lt_of_le hq h.next_le) hne).trans (h.get q hq hne)

/-- Releasing a timer and taking it out of its list changes no timer. -/
theorem Frames.of_get (hpc : s'.pc = s.pc) (htemp : s'.tempList = s.tempList)
    (hnext : s'.heap.next = s.heap.next) (hget : s'.heap.get = s.heap.get) :
    Frames touched s s' := by
  refine ⟨hpc, htemp, Nat.le_of_eq hnext.symm, ?_, ?_⟩
  · intro q _
    rw [State.timerID, hget]
    rfl
  · intro q _ _
    rw [hget]

theorem Frames.setStatus (status : Status) (hr : touched r) : Frames touched s (setStatus status r s) := by
  refine ⟨rfl, rfl, Nat.le_refl _, ?_, ?_⟩
  · intro q _
    by_cases hq : q = r
    · subst hq
      simp [State.timerID, UiTimer.setStatus]
    · simp [State.timerID, UiTimer.setStatus, ObjectHeap.get_modify_of_ne _ hq]
  · intro q _ hne
    have hqr : q ≠ r := fun heq => hne (heq ▸ hr)
    rw [UiTimer.setStatus, ObjectHeap.get_modify_of_ne _ hqr]

theorem Frames.alloc (touched : Nat → Prop) (now : Uptime) (t : CMTimer) : Frames touched s (allocTimer now t s) := by
  have hget : ∀ q < s.heap.next, (s.heap.alloc t).get q = s.heap.get q :=
    fun q hq => ObjectHeap.get_alloc_of_ne t (Nat.ne_of_lt hq)
  refine ⟨rfl, rfl, Nat.le_succ _, ?_, fun q hq _ => hget q hq⟩
  intro q hq
  rw [State.timerID, State.timerID, allocTimer, hget q hq]

/-- A timer that may be changed keeps its identifier. -/
theorem Frames.modify {f : CMTimer → CMTimer} (hr : touched r)
    (hf : (f (s.heap.get r)).timerID = s.timerID r) :
    Frames touched s { s with heap := s.heap.modify r f } := by
  refine ⟨rfl, rfl, Nat.le_refl _, ?_, ?_⟩
  · intro q _
    rw [State.timerID]
    by_cases hq : q = r
    · subst hq
      rw [ObjectHeap.get_modify_self, hf]
    · rw [ObjectHeap.get_modify_of_ne _ hq]
      rfl
  · intro q _ hne
    have hqr : q ≠ r := fun heq => hne (heq ▸ hr)
    exact ObjectHeap.get_modify_of_ne _ hqr

/-- A walk over a list. -/
theorem Frames.foldl {f : State → Nat → State} {l : List Nat}
    (hnode : ∀ t, Frames touched s t → ∀ q ∈ l, Frames touched t (f t q)) :
    Frames touched s (l.foldl f s) := by
  have hloop := foldl_induction (f := f)
    (P := fun t rest => Frames touched s t ∧ ∀ q ∈ rest, q ∈ l) ?_ l s
    ⟨Frames.refl touched s, fun _ hq => hq⟩
  · exact hloop.1
  · intro t q rest ⟨hframes, hleft⟩
    exact ⟨hframes.trans (hnode t hframes q (hleft q List.mem_cons_self)),
      fun p hp => hleft p (List.mem_cons_of_mem q hp)⟩

theorem Frames.delTimerLoop (id : Int) : Frames touched s (s.timeList.foldl (delTimerNode id) s) := by
  refine Frames.foldl ?_
  intro t _ q _
  rw [delTimerNode]
  split
  · exact Frames.of_get rfl rfl rfl rfl
  · exact Frames.refl touched t

/-- The timers of {lit}`periodic_time_list` with an identifier. -/
def State.periodicOf (s : State) (id : Int) (q : Nat) : Prop :=
  q ∈ s.periodicTimeList ∧ s.timerID q = id

theorem Frames.delPeriodicTimerLoop (h : Listed s) (id : Int) :
    Frames (s.periodicOf id) s (s.periodicTimeList.foldl (delPeriodicTimerNode id) s) := by
  refine Frames.foldl ?_
  intro t hframes q hq
  rw [delPeriodicTimerNode]
  split
  · rename_i hid
    split
    · have hmark := Frames.setStatus (s := t) .del
        (show s.periodicOf id q from ⟨hq, (hframes.timerID q (h.periodic_lt q hq)).symm.trans hid⟩)
      exact hmark.trans (Frames.of_get rfl rfl rfl rfl)
    · exact Frames.of_get rfl rfl rfl rfl
    · exact Frames.refl _ t
  · exact Frames.refl _ t

theorem Frames.delPeriodicTimerRetLoop (h : Listed s) (id : Int) :
    Frames (s.periodicOf id) s (s.periodicTimeList.foldl (delPeriodicTimerRetNode id) s) := by
  refine Frames.foldl ?_
  intro t hframes q hq
  rw [delPeriodicTimerRetNode]
  split
  · rename_i hid
    split
    · exact Frames.setStatus .del ⟨hq, (hframes.timerID q (h.periodic_lt q hq)).symm.trans hid⟩
    · exact Frames.of_get rfl rfl rfl rfl
  · exact Frames.refl _ t

theorem Frames.uiDelAllTimer : Frames touched s (uiDelAllTimer s) := by
  have htime : Frames touched s (s.timeList.foldl (fun s q => freeTime q s) s) :=
    Frames.foldl (fun t _ q _ => Frames.of_get rfl rfl rfl rfl)
  exact htime.trans (Frames.foldl (fun t _ q _ => Frames.of_get rfl rfl rfl rfl))

theorem Frames.mono {touched' : Nat → Prop} (h : Frames touched s s')
    (hsub : ∀ q, touched q → touched' q) : Frames touched' s s' :=
  { h with get := fun q hq hne => h.get q hq (fun ht => hne (hsub q ht)) }

/-- The timers that a call of the interface may change. -/
def Op.touches (op : Op) (s : State) (q : Nat) : Prop :=
  q ∈ s.timeList ∨ q ∈ s.periodicTimeList ∧ ¬ op.sparesId (s.timerID q)

theorem Frames.uiAddTimer (h : Listed s) (alloc : Alloc) (now : Uptime) (id : Int)
    (timerLen : UInt32) (timefn : Option Nat) (privdata : Nat) :
    Frames (· ∈ s.timeList) s (uiAddTimer alloc now id timerLen timefn privdata s).2 := by
  simp only [UiTimer.uiAddTimer]
  split
  · exact Frames.refl _ s
  · have halloc := Frames.alloc (s := s) (· ∈ s.timeList) now
      { timerID := id, data := privdata, timerLen := timerLen,
        timeout := addTimeout now timerLen.toNat, status := .idle, fn := timefn }
    split
    · rename_i intimer hfind
      rcases find_allocTimer h.time_lt hfind with ⟨hmem, hget, hid⟩
      refine halloc.trans ((Frames.modify hmem ?_).trans (Frames.of_get rfl rfl rfl rfl))
      rw [State.timerID, hget, hid]
    · split
      · exact halloc
      · exact halloc.trans (Frames.of_get rfl rfl rfl rfl)

theorem Frames.uiAddPeriodicTimer (h : Listed s) (alloc : Alloc) (now : Uptime) (id : Int)
    (timerLen : Int32) (timefn : Option Nat) (privdata : Nat) :
    Frames (s.periodicOf id) s (uiAddPeriodicTimer alloc now id timerLen timefn privdata s).2 := by
  simp only [UiTimer.uiAddPeriodicTimer]
  split
  · exact Frames.refl _ s
  · have halloc := Frames.alloc (s := s) (s.periodicOf id) now
      { timerID := id, data := privdata, timerLen := timerLen.toUInt32,
        timeout := addTimeout now timerLen.toInt, status := .idle, fn := timefn }
    split
    · rename_i intimer hfind
      rcases find_allocTimer h.periodic_lt hfind with ⟨hmem, hget, hid⟩
      refine halloc.trans ((Frames.modify ⟨hmem, hid⟩ ?_).trans (Frames.of_get rfl rfl rfl rfl))
      rw [State.timerID, hget, hid]
    · split
      · exact halloc
      · exact halloc.trans (Frames.of_get rfl rfl rfl rfl)

/-- A call of the interface changes timers of {lit}`time_list`, and periodic timers whose identifier
it names. -/
theorem Op.frames (h : Listed s) (op : Op) (hop : ∀ now, op ≠ .timerProc now) :
    Frames (op.touches s) s (op.apply s) := by
  have hnamed : ∀ {id : Int}, (∀ i, ¬ op.sparesId i ↔ id = i) →
      ∀ q, s.periodicOf id q → op.touches s q :=
    fun hid q hq => .inr ⟨hq.1, (hid _).mpr hq.2.symm⟩
  cases op with
  | addTimer alloc now id timerLen timefn privdata =>
      exact (Frames.uiAddTimer h alloc now id timerLen timefn privdata).mono (fun q hq => .inl hq)
  | addPeriodicTimer alloc now id timerLen timefn privdata =>
      exact (Frames.uiAddPeriodicTimer h alloc now id timerLen timefn privdata).mono
        (hnamed (fun i => not_not))
  | delTimer id dataptr =>
      simp only [Op.apply, uiDelTimer]
      split
      · exact Frames.refl _ s
      · exact Frames.delTimerLoop id
  | delTimerRetDataPtr id dataPtr =>
      simp only [Op.apply, uiDelTimerRetDataPtr]
      split
      · exact Frames.refl _ s
      · split
        · exact Frames.refl _ s
        · exact Frames.delTimerLoop id
  | delPeriodicTimer id dataptr =>
      simp only [Op.apply, uiDelPeriodicTimer]
      split
      · exact Frames.refl _ s
      · exact (Frames.delPeriodicTimerLoop h id).mono (hnamed (fun i => not_not))
  | delPeriodicTimerRetDataPtr id dataPtr =>
      simp only [Op.apply, uiDelPeriodicTimerRetDataPtr]
      split
      · exact Frames.refl _ s
      · split
        · exact Frames.refl _ s
        · exact (Frames.delPeriodicTimerRetLoop h id).mono (hnamed (fun i => not_not))
  | delAllTimer => exact Frames.uiDelAllTimer
  | timerProc now => exact absurd rfl (hop now)

/-! ## What is owed -/

/-- The calls that a run cannot prevent: those of one-shot timers, and those of the periodic timers
whose identifiers are kept. -/
def Invocation.sure (keep : Int → Bool) (i : Invocation) : Bool :=
  i.type = .oneShot || keep i.timerID

/-- The timer of a call. -/
def Invocation.timer (i : Invocation) : TimerType × Int :=
  (i.type, i.timerID)

/-- The timers of the calls that are owed, whether or not they are still to be called. -/
def State.owedTimers (s : State) : List (TimerType × Int) :=
  s.invocation.toList.map Invocation.timer ++ s.queue.map (fun p => (p.1, p.2.timerID))

variable {keep : Int → Bool}

theorem Owned.pending_lt (h : Owned s) : ∀ e ∈ s.tempList, e.element < s.heap.next :=
  fun _ he => s.heap.live_lt _ (h.pending_live _ (List.mem_map_of_mem he))

/-- An element of {lit}`temp_list` whose call is sure is not touched. -/
theorem not_touches (h : Owned s) {op : Op} (hkeep : ∀ id, keep id → op.sparesId id)
    {e : ProcElement} (he : e ∈ s.tempList)
    (hsure : e.type = .oneShot ∨ keep (s.timerID e.element) = true) : ¬ op.touches s e.element := by
  rintro (htime | ⟨hperiodic, hnamed⟩)
  · exact h.time_pending _ htime (List.mem_map_of_mem he)
  · rcases hsure with hone | hkept
    · exact h.oneShot_periodic e he hone hperiodic
    · exact hnamed (hkeep _ hkept)

theorem dueCall_timer {p : TimerType × CMTimer} {i : Invocation} (h : dueCall p = some i) :
    i.timer = (p.1, p.2.timerID) := by
  obtain ⟨type, t⟩ := p
  cases type with
  | oneShot =>
      simp only [dueCall, CMTimer.invocation, Option.map_eq_some_iff] at h
      obtain ⟨fn, -, rfl⟩ := h
      rfl
  | periodic =>
      simp only [dueCall, CMTimer.invocation] at h
      split at h
      · simp only [Option.map_eq_some_iff] at h
        obtain ⟨fn, -, rfl⟩ := h
        rfl
      · cases h

/-- Whether a call is sure depends on the timer only. -/
theorem sure_of_timer {i : Invocation} {type : TimerType} {id : Int} (h : i.timer = (type, id)) :
    i.sure keep = (type = .oneShot || keep id) := by
  obtain ⟨rfl, rfl⟩ := Prod.mk.inj h
  rfl

theorem dueCall_filter_eq_none {p : TimerType × CMTimer} (hone : p.1 ≠ .oneShot)
    (hkeep : keep p.2.timerID = false) : (dueCall p).filter (Invocation.sure keep) = none := by
  rw [Option.filter_eq_none_iff]
  intro i hi
  rw [sure_of_timer (dueCall_timer hi)]
  simp [hone, hkeep]

/-- A call of the interface leaves alone what is sure to be called. -/
theorem dueCall_frames (h : Owned s) {op : Op} (hkeep : ∀ id, keep id → op.sparesId id)
    (hframes : Frames (op.touches s) s s') {e : ProcElement} (he : e ∈ s.tempList) :
    (dueCall (e.type, s'.heap.get e.element)).filter (Invocation.sure keep) =
      (dueCall (e.type, s.heap.get e.element)).filter (Invocation.sure keep) := by
  have hlt := h.pending_lt e he
  by_cases hsure : e.type = .oneShot ∨ keep (s.timerID e.element) = true
  · rw [hframes.get _ hlt (not_touches h hkeep he hsure)]
  · obtain ⟨hone, hkept⟩ := not_or.mp hsure
    have hkept' : keep (s'.timerID e.element) = false := by
      rw [hframes.timerID _ hlt]
      exact Bool.eq_false_iff.mpr hkept
    rw [dueCall_filter_eq_none hone hkept', dueCall_filter_eq_none hone (Bool.eq_false_iff.mpr hkept)]

theorem invocation_frames (h : Owned s) {op : Op} (hkeep : ∀ id, keep id → op.sparesId id)
    (hframes : Frames (op.touches s) s s') :
    s'.invocation.filter (Invocation.sure keep) = s.invocation.filter (Invocation.sure keep) ∧
      s'.invocation.map Invocation.timer = s.invocation.map Invocation.timer := by
  simp only [State.invocation, hframes.pc, hframes.temp]
  split
  · rename_i fn e rest hpc htemp
    have he : e ∈ s.tempList := by
      rw [htemp]
      exact List.mem_cons_self
    have hlt := h.pending_lt e he
    rw [hframes.timerID _ hlt]
    refine ⟨?_, rfl⟩
    by_cases hsure : e.type = .oneShot ∨ keep (s.timerID e.element) = true
    · rw [hframes.get _ hlt (not_touches h hkeep he hsure)]
    · obtain ⟨hone, hkept⟩ := not_or.mp hsure
      simp [Option.filter, Invocation.sure, hone, hkept]
  · exact ⟨rfl, rfl⟩

theorem ahead_frames (hframes : Frames touched s s') : s'.ahead = s.ahead := by
  rw [State.ahead, State.ahead, hframes.pc, hframes.temp]

theorem filter_owed (s : State) : s.owed.filter (Invocation.sure keep) =
    (s.invocation.filter (Invocation.sure keep)).toList ++
      s.ahead.filterMap (fun e =>
        (dueCall (e.type, s.heap.get e.element)).filter (Invocation.sure keep)) := by
  rw [State.owed, List.filter_append, State.queue, List.filterMap_map, List.filter_filterMap]
  congr 1
  cases s.invocation with
  | none => rfl
  | some i =>
      cases hi : i.sure keep <;> simp [Option.filter, hi]

/-- A call of the interface leaves what is owed. -/
theorem Op.owed_frames (keep : Int → Bool) (h : Owned s) {op : Op} (hkeep : ∀ id, keep id → op.sparesId id)
    (hframes : Frames (op.touches s) s s') :
    s'.owed.filter (Invocation.sure keep) = s.owed.filter (Invocation.sure keep) ∧
      s'.owedTimers = s.owedTimers := by
  obtain ⟨hfilter, htimer⟩ := invocation_frames h hkeep hframes
  have hmem := ahead_subset s
  constructor
  · rw [filter_owed, filter_owed, hfilter, ahead_frames hframes]
    congr 1
    exact List.filterMap_congr (fun e he => dueCall_frames h hkeep hframes (hmem e he))
  · simp only [State.owedTimers, State.queue, ahead_frames hframes, List.map_map,
      ← Option.toList_map, htimer]
    congr 1
    apply List.map_congr_left
    intro e he
    exact congrArg (Prod.mk e.type) (hframes.timerID _ (h.pending_lt e (hmem e he)))

/-! ### The steps of the timer thread -/

/-- A step that takes the callback of the first element. -/
structure Takes (e : ProcElement) (rest : List ProcElement) (fn : Option Nat) (s s' : State) :
    Prop where
  pc : s.pc = .process
  temp : s.tempList = e :: rest
  pc' : s'.pc = afterTaken fn
  temp' : s'.tempList = e :: rest
  call : dueCall (e.type, s.heap.get e.element) =
    fn.map (fun fn => { type := e.type, fn := fn, timerID := s'.timerID e.element,
                        data := (s'.heap.get e.element).data })
  timerID : s'.timerID e.element = s.timerID e.element
  get : ∀ f ∈ rest, s'.heap.get f.element = s.heap.get f.element

theorem Takes.owed {e : ProcElement} {rest : List ProcElement} {fn : Option Nat}
    (h : Takes e rest fn s s') : s'.owed = s.owed ∧ s'.owedTimers.Sublist s.owedTimers := by
  have hnone : s.invocation = none := by
    simp [State.invocation, h.pc]
  have hqueue : s.queue = (e.type, s.heap.get e.element) ::
      rest.map (fun f => (f.type, s.heap.get f.element)) := by
    simp [State.queue, State.ahead, h.pc, h.temp]
  have hqueue' : s'.queue = rest.map (fun f => (f.type, s.heap.get f.element)) := by
    have hahead : s'.ahead = rest := by
      cases fn <;> simp [State.ahead, h.pc', h.temp', afterTaken]
    rw [State.queue, hahead]
    exact List.map_congr_left (fun f hf => by rw [h.get f hf])
  have hcall := h.call
  simp only [State.owed, State.owedTimers, hnone, hqueue, hqueue', Option.toList_none, List.nil_append,
    List.map_nil, List.map_cons]
  cases fn with
  | none =>
      have hnone' : s'.invocation = none := by
        simp [State.invocation, h.pc', afterTaken]
      rw [hnone', List.filterMap_cons_none hcall]
      exact ⟨rfl, List.sublist_cons_self _ _⟩
  | some fn =>
      have hsome : s'.invocation = some ⟨e.type, fn, s'.timerID e.element,
          (s'.heap.get e.element).data⟩ := by
        simp [State.invocation, h.pc', h.temp', afterTaken]
      rw [hsome, List.filterMap_cons_some hcall]
      refine ⟨rfl, ?_⟩
      have hid : (s.heap.get e.element).timerID = s'.timerID e.element := h.timerID.symm
      rw [hid]
      exact List.Sublist.refl _

/-- The callback of a timer that is being processed is taken together with the setting of its next
timeout. -/
theorem periodicSection_takes (h : Owned s) {e : ProcElement} {rest : List ProcElement}
    (hpc : s.pc = .process) (htemp : s.tempList = e :: rest) (htype : e.type = .periodic) :
    ∃ fn, Takes e rest fn s (periodicSection e.element s) := by
  have hnodup : e.element ∉ rest.map ProcElement.element := by
    have hpending := h.pending_nodup
    rw [State.pending, htemp, List.map_cons] at hpending
    exact (List.nodup_cons.mp hpending).1
  have hne : ∀ f ∈ rest, f.element ≠ e.element :=
    fun f hf heq => hnodup (heq ▸ List.mem_map_of_mem hf)
  rw [periodicSection]
  simp only [ObjectHeap.get_touch]
  cases hstatus : (s.heap.get e.element).status with
  | proc =>
      refine ⟨(s.heap.get e.element).fn, hpc, htemp, rfl, htemp, ?_, ?_, ?_⟩
      · simp [dueCall, htype, hstatus, CMTimer.invocation, State.timerID]
      · simp [State.timerID]
      · intro f hf
        simp [ObjectHeap.get_modify_of_ne _ (hne f hf)]
  | idle =>
      refine ⟨none, hpc, htemp, rfl, htemp, ?_, rfl, fun _ _ => rfl⟩
      simp [dueCall, htype, hstatus]
  | del =>
      refine ⟨none, hpc, htemp, rfl, htemp, ?_, rfl, fun _ _ => rfl⟩
      simp [dueCall, htype, hstatus]

theorem oneShotSection_takes {e : ProcElement} {rest : List ProcElement} (hpc : s.pc = .process)
    (htemp : s.tempList = e :: rest) (htype : e.type = .oneShot) :
    Takes e rest (s.heap.get e.element).fn s (oneShotSection e.element s) := by
  refine ⟨hpc, htemp, rfl, htemp, ?_, rfl, fun _ _ => rfl⟩
  simp [dueCall, htype, CMTimer.invocation, oneShotSection, State.timerID]

/-- A step of {lit}`UITimerProc` between two scans makes the first call that is owed, if it makes
one. -/
theorem uiTimerProc_owed (h : Owned s) (hlisted : Listed s) (hpc : s.pc ≠ .scan) (now : Uptime) :
    s.invocation.toList ++ (uiTimerProc now s).owed = s.owed ∧
      (s.invocation.toList.map Invocation.timer ++ (uiTimerProc now s).owedTimers).Sublist
        s.owedTimers := by
  have hprocess : s.pc = .process → s.invocation = none := fun hp => by
    simp [State.invocation, hp]
  have hworking := hlisted.working
  rw [uiTimerProc]
  split
  · rename_i hscan
    exact absurd hscan hpc
  · rename_i hp htemp
    rw [hprocess hp]
    simp [State.owed, State.owedTimers, State.invocation, State.queue, State.ahead, hp, htemp]
  · rename_i e rest hp htemp
    rw [hprocess hp]
    split
    · rename_i htype
      obtain ⟨fn, htakes⟩ := periodicSection_takes h hp htemp htype
      exact htakes.owed
    · rename_i htype
      exact (oneShotSection_takes hp htemp htype).owed
  · rename_i fn e rest hcall htemp
    constructor
    · simp [State.owed, State.invocation, State.queue, State.ahead, hcall, htemp, State.timerID]
    · simp [State.owedTimers, State.invocation, State.queue, State.ahead, hcall, htemp]
  · rename_i e rest hfinish htemp
    obtain ⟨-, -, -, hget⟩ := releaseDone_get e s
    have hget' : ({ releaseDone e s with tempList := rest, pc := .process } : State).heap.get =
        s.heap.get := hget
    constructor
    · simp [State.owed, State.invocation, State.queue, State.ahead, hfinish, htemp, hget]
    · simp [State.owedTimers, State.invocation, State.queue, State.ahead, hfinish, htemp, hget]
  · rename_i fn hcall htemp
    simp [hcall, htemp] at hworking
  · rename_i hfinish htemp
    simp [hfinish, htemp] at hworking

/-! ## What a scan finds -/

/-- A timer is due at a reading. -/
def State.isDue (s : State) (now : Uptime) (r : Nat) : Bool :=
  !later (s.heap.get r).timeout now

/-- The timers that a scan finds due, the last one first: each goes to the front of
{lit}`temp_list`. -/
def State.found (s : State) (now : Uptime) : List (TimerType × CMTimer) :=
  (s.periodicTimeList.filter (s.isDue now)).reverse.map (fun r => (.periodic, s.heap.get r)) ++
    (s.timeList.filter (s.isDue now)).reverse.map (fun r => (.oneShot, s.heap.get r))

theorem queue_of_process (hpc : s.pc = .process) :
    s.queue = s.tempList.map (fun e => (e.type, s.heap.get e.element)) := by
  simp [State.queue, State.ahead, hpc]

/-- What one turn of a scan does to the other timers and to the queue. -/
structure Finds (r : Nat) (p : TimerType × CMTimer) (s s' : State) : Prop where
  pc : s'.pc = s.pc
  timerVal : s'.timerVal = s.timerVal
  next_le : s.heap.next ≤ s'.heap.next
  get : ∀ q < s.heap.next, q ≠ r → s'.heap.get q = s.heap.get q
  pending : ∀ e ∈ s'.tempList, e ∈ s.tempList ∨ e.element = r ∨ e.element = s.heap.next ∧
    s.heap.next < s'.heap.next
  queue : s'.queue = (if s.isDue s.timerVal r then [p] else []) ++ s.queue

theorem Finds.isDue {p : TimerType × CMTimer} (h : Finds r p s s') {q : Nat} (hq : q < s.heap.next)
    (hne : q ≠ r) : s'.isDue s'.timerVal q = s.isDue s.timerVal q := by
  rw [State.isDue, State.isDue, h.get q hq hne, h.timerVal]

theorem scanTimeNode_finds (hpending : ∀ e ∈ s.tempList, e.element < s.heap.next)
    (hpc : s.pc = .process) :
    Finds r (.oneShot, s.heap.get r) s (scanTimeNode s r) := by
  by_cases hlater : later (s.heap.get r).timeout s.timerVal = true
  · have hnode : scanTimeNode s r = { s with heap := s.heap.touch r } := if_pos hlater
    rw [hnode]
    refine ⟨rfl, rfl, Nat.le_refl _, fun _ _ _ => rfl, fun e he => .inl he, ?_⟩
    simp only [State.isDue, hlater]
    rfl
  · have hnode : scanTimeNode s r = freeTime r { s with
        heap := (s.heap.touch r).alloc (s.heap.get r)
        tempList := { type := .oneShot, element := s.heap.next } :: s.tempList
        log := .copied r s.heap.next :: s.log } := if_neg hlater
    rw [hnode]
    have hget : ∀ q < s.heap.next, ((s.heap.touch r).alloc (s.heap.get r)).get q = s.heap.get q :=
      fun q hq => ObjectHeap.get_alloc_of_ne _ (Nat.ne_of_lt hq)
    refine ⟨rfl, rfl, Nat.le_succ _, fun q hq _ => hget q hq, ?_, ?_⟩
    · intro e he
      rcases List.mem_cons.mp he with rfl | he
      · exact .inr (.inr ⟨rfl, Nat.lt_succ_self _⟩)
      · exact .inl he
    · refine (queue_of_process (by exact hpc)).trans ?_
      rw [queue_of_process hpc, if_pos (by simpa [State.isDue] using hlater)]
      simp only [freeTime, List.map_cons, ObjectHeap.get_free, List.singleton_append]
      congr 1
      · exact congrArg (Prod.mk _) (ObjectHeap.get_alloc_self _)
      · exact List.map_congr_left (fun e he => by rw [hget _ (hpending e he)])

theorem scanPeriodicNode_finds (hpc : s.pc = .process) (hr : r ∉ s.pending)
    (hdel : (s.heap.get r).status ≠ .del) :
    Finds r (.periodic, { s.heap.get r with status := .proc }) s (scanPeriodicNode s r) := by
  by_cases hlater : later (s.heap.get r).timeout s.timerVal = true
  · have hnode : scanPeriodicNode s r = { s with heap := s.heap.touch r } := if_pos hlater
    rw [hnode]
    refine ⟨rfl, rfl, Nat.le_refl _, fun _ _ _ => rfl, fun e he => .inl he, ?_⟩
    simp only [State.isDue, hlater]
    rfl
  · have hnode : scanPeriodicNode s r = { setStatus
        (if (s.heap.get r).status ≠ .del then .proc else (s.heap.get r).status) r
          { s with heap := s.heap.touch r } with
        tempList := { type := .periodic, element := r } :: s.tempList } := if_neg hlater
    rw [if_pos hdel] at hnode
    rw [hnode]
    refine ⟨rfl, rfl, Nat.le_refl _, ?_, ?_, ?_⟩
    · intro q _ hne
      simp only [setStatus, ObjectHeap.get_modify_of_ne _ hne, ObjectHeap.get_touch]
    · intro e he
      rcases List.mem_cons.mp he with rfl | he
      · exact .inr (.inl rfl)
      · exact .inl he
    · have hne : ∀ e ∈ s.tempList, e.element ≠ r :=
        fun e he heq => hr (heq ▸ List.mem_map_of_mem he)
      refine (queue_of_process (by exact hpc)).trans ?_
      rw [queue_of_process hpc, if_pos (by simpa [State.isDue] using hlater)]
      simp only [setStatus, List.map_cons, List.singleton_append, ObjectHeap.get_modify_self,
        ObjectHeap.get_touch]
      congr 1
      exact List.map_congr_left (fun e he => by
        rw [ObjectHeap.get_modify_of_ne _ (hne e he), ObjectHeap.get_touch])

/-- The scan of {lit}`time_list` queues copies of the timers that are due. -/
theorem scanTimeLoop_queue (l : List Nat) (hnodup : l.Nodup) (hlt : ∀ q ∈ l, q < s.heap.next)
    (hpending : ∀ e ∈ s.tempList, e.element < s.heap.next) (hpc : s.pc = .process) :
    (l.foldl scanTimeNode s).queue =
      (l.filter (s.isDue s.timerVal)).reverse.map (fun r => (.oneShot, s.heap.get r)) ++ s.queue := by
  induction l generalizing s with
  | nil => rfl
  | cons r l ih =>
      have hr := hlt r List.mem_cons_self
      have hrest : ∀ q ∈ l, q < s.heap.next := fun q hq => hlt q (List.mem_cons_of_mem r hq)
      have hne : ∀ q ∈ l, q ≠ r := fun q hq heq => (List.nodup_cons.mp hnodup).1 (heq ▸ hq)
      have hfinds := scanTimeNode_finds (r := r) hpending hpc
      have hpending' : ∀ e ∈ (scanTimeNode s r).tempList, e.element < (scanTimeNode s r).heap.next := by
        intro e he
        rcases hfinds.pending e he with he | heq | ⟨heq, hlt⟩
        · exact Nat.lt_of_lt_of_le (hpending e he) hfinds.next_le
        · rw [heq]
          exact Nat.lt_of_lt_of_le hr hfinds.next_le
        · rw [heq]
          exact hlt
      rw [List.foldl_cons, ih (List.nodup_cons.mp hnodup).2
        (fun q hq => Nat.lt_of_lt_of_le (hrest q hq) hfinds.next_le) hpending' (hfinds.pc.trans hpc),
        hfinds.queue, List.filter_congr (fun q hq => hfinds.isDue (hrest q hq) (hne q hq)),
        List.map_congr_left (g := fun q => (TimerType.oneShot, s.heap.get q))]
      · cases hdue : s.isDue s.timerVal r with
        | false => simp [hdue]
        | true => simp [hdue]
      · intro q hq
        have hmem := List.mem_of_mem_filter (List.mem_reverse.mp hq)
        rw [hfinds.get q (hrest q hmem) (hne q hmem)]

/-- The scan of {lit}`periodic_time_list` queues the timers that are due themselves. -/
theorem scanPeriodicLoop_queue (l : List Nat) (hnodup : l.Nodup) (hlt : ∀ q ∈ l, q < s.heap.next)
    (hpending : ∀ q ∈ l, q ∉ s.pending) (hdel : ∀ q ∈ l, (s.heap.get q).status ≠ .del)
    (hpc : s.pc = .process) :
    (l.foldl scanPeriodicNode s).queue =
      (l.filter (s.isDue s.timerVal)).reverse.map
        (fun r => (.periodic, { s.heap.get r with status := .proc })) ++ s.queue := by
  induction l generalizing s with
  | nil => rfl
  | cons r l ih =>
      have hrest : ∀ q ∈ l, q < s.heap.next := fun q hq => hlt q (List.mem_cons_of_mem r hq)
      have hne : ∀ q ∈ l, q ≠ r := fun q hq heq => (List.nodup_cons.mp hnodup).1 (heq ▸ hq)
      have hfinds := scanPeriodicNode_finds hpc (hpending r List.mem_cons_self)
        (hdel r List.mem_cons_self)
      have hget : ∀ q ∈ l, (scanPeriodicNode s r).heap.get q = s.heap.get q :=
        fun q hq => hfinds.get q (hrest q hq) (hne q hq)
      have hpending' : ∀ q ∈ l, q ∉ (scanPeriodicNode s r).pending := by
        intro q hq hmem
        obtain ⟨e, he, rfl⟩ := List.mem_map.mp hmem
        rcases hfinds.pending e he with he | heq | ⟨heq, -⟩
        · exact hpending _ (List.mem_cons_of_mem r hq) (List.mem_map_of_mem he)
        · exact hne _ hq heq
        · exact Nat.ne_of_lt (hrest _ hq) heq
      rw [List.foldl_cons, ih (List.nodup_cons.mp hnodup).2
        (fun q hq => Nat.lt_of_lt_of_le (hrest q hq) hfinds.next_le) hpending'
        (fun q hq => by rw [hget q hq]; exact hdel q (List.mem_cons_of_mem r hq))
        (hfinds.pc.trans hpc),
        hfinds.queue, List.filter_congr (fun q hq => hfinds.isDue (hrest q hq) (hne q hq)),
        List.map_congr_left
          (g := fun q => (TimerType.periodic, { s.heap.get q with status := .proc }))]
      · cases hdue : s.isDue s.timerVal r with
        | false => simp [hdue]
        | true => simp [hdue]
      · intro q hq
        rw [hget q (List.mem_of_mem_filter (List.mem_reverse.mp hq))]

theorem scanTimeLoop_keeps (l : List Nat) (s : State) :
    (l.foldl scanTimeNode s).timerVal = s.timerVal ∧
      (l.foldl scanTimeNode s).periodicTimeList = s.periodicTimeList := by
  refine foldl_induction (f := scanTimeNode) (P := fun t _ => t.timerVal = s.timerVal ∧
    t.periodicTimeList = s.periodicTimeList) ?_ l s ⟨rfl, rfl⟩
  intro t q _ ht
  rw [scanTimeNode]
  simp only
  split
  · exact ht
  · exact ht

theorem Owned.startScan (h : Owned s) (now : Uptime) : Owned (startScan now s) := by
  refine { h with scanned := ?_, head_taken := ?_ }
  · intro hscan
    cases hscan
  · exact fun _ hprocess => absurd rfl hprocess

/-- What a scan queues. -/
theorem scanSection_queue (h : Owned s) (hpc : s.pc = .scan) (now : Uptime) :
    (scanSection now s).queue =
      (s.periodicTimeList.filter (s.isDue now)).reverse.map
          (fun r => (.periodic, { s.heap.get r with status := .proc })) ++
        (s.timeList.filter (s.isDue now)).reverse.map (fun r => (.oneShot, s.heap.get r)) := by
  let t := startScan now s
  have htemp := h.scanned hpc
  have hstart : Owned t := h.startScan now
  have hlt : ∀ q ∈ s.periodicTimeList, q < s.heap.next :=
    fun q hq => s.heap.live_lt q (h.periodic_live q hq)
  have hapart : ∀ r ∈ t.periodicTimeList, r ∉ t.pending := by
    intro r _ hmem
    simp [t, startScan, State.pending, htemp] at hmem
  have htime := scanTimeLoop_queue (s := t) s.timeList h.time_nodup
    (fun q hq => s.heap.live_lt q (h.time_live q hq)) hstart.pending_lt rfl
  obtain ⟨hu, hpc', hapart'⟩ := hstart.scanTimeLoop rfl hapart
  let u := s.timeList.foldl scanTimeNode t
  have hkeeps : ∀ q ∈ s.periodicTimeList, u.heap.get q = s.heap.get q :=
    fun q hq => (scanTimeLoop_get (s := t) s.timeList (hlt q hq)).1
  obtain ⟨hval, hlist⟩ := scanTimeLoop_keeps s.timeList t
  have hperiodic := scanPeriodicLoop_queue (s := u) u.periodicTimeList hu.periodic_nodup
    (fun q hq => u.heap.live_lt q (hu.periodic_live q hq)) hapart' hu.unmarked hpc'
  have hdue : s.periodicTimeList.filter (u.isDue u.timerVal) =
      s.periodicTimeList.filter (s.isDue now) := by
    apply List.filter_congr
    intro q hq
    rw [State.isDue, State.isDue, hkeeps q hq, hval]
    rfl
  change (u.periodicTimeList.foldl scanPeriodicNode u).queue = _
  rw [hperiodic, hlist]
  change (s.periodicTimeList.filter _).reverse.map _ ++ u.queue = _
  rw [hdue]
  have hempty : t.queue = [] := by
    simp [State.queue, State.ahead, t, startScan, htemp]
  rw [show u.queue = _ from htime, hempty, List.append_nil]
  congr 1
  apply List.map_congr_left
  intro q hq
  rw [hkeeps q (List.mem_of_mem_filter (List.mem_reverse.mp hq))]

theorem scanSection_owed (h : Owned s) (hlisted : Listed s) (hpc : s.pc = .scan) (now : Uptime) :
    (scanSection now s).owed = (s.found now).filterMap (fun p => p.2.invocation p.1) ∧
      (scanSection now s).owedTimers = (s.found now).map (fun p => (p.1, p.2.timerID)) := by
  have hpc' : (scanSection now s).pc = .process :=
    (Spares.scanSection (fun _ => True) hlisted now).pc
  have hprocess : (scanSection now s).invocation = none := by
    simp [State.invocation, hpc']
  rw [State.owed, State.owedTimers, scanSection_queue h hpc now, hprocess, State.found]
  simp only [Option.toList_none, List.nil_append, List.map_nil, List.filterMap_append,
    List.filterMap_map, List.map_append, List.map_map]
  exact ⟨rfl, rfl⟩

/-! ## Runs -/

/-- Harmless steps among which {lit}`UITimerProc` does not begin a scan. -/
def WithinScan : List Op → State → Prop
  | [], _ => True
  | op :: ops, s =>
      Harmless op s ∧ (s.pc = .scan → ∀ now, op ≠ .timerProc now) ∧ WithinScan ops (op.apply s)

theorem WithinScan.owned {ops : List Op} (hrun : WithinScan ops s) (h : Owned s) :
    Owned (run ops s) := by
  induction ops generalizing s with
  | nil => exact h
  | cons op ops ih => exact ih hrun.2.2 (h.apply hrun.1)

theorem invocation_of_call {op : Op} (hop : ∀ now, op ≠ .timerProc now) (s : State) :
    op.invocation s = none := by
  cases op with
  | timerProc now => exact absurd rfl (hop now)
  | _ => rfl

/-- A step makes the first call that is owed, or none. -/
theorem op_owed (keep : Int → Bool) (h : Owned s) (hlisted : Listed s) {op : Op}
    (hscan : s.pc = .scan → ∀ now, op ≠ .timerProc now) (hkeep : ∀ id, keep id → op.sparesId id) :
    (op.invocation s).toList.filter (Invocation.sure keep) ++
        (op.apply s).owed.filter (Invocation.sure keep) = s.owed.filter (Invocation.sure keep) ∧
      ((op.invocation s).toList.map Invocation.timer ++ (op.apply s).owedTimers).Sublist
        s.owedTimers := by
  by_cases htick : ∃ now, op = .timerProc now
  · obtain ⟨now, rfl⟩ := htick
    obtain ⟨howed, htimers⟩ := uiTimerProc_owed h hlisted (fun hpc => hscan hpc now rfl) now
    refine ⟨?_, htimers⟩
    rw [← List.filter_append]
    exact congrArg _ howed
  · have hop : ∀ now, op ≠ .timerProc now := fun now heq => htick ⟨now, heq⟩
    obtain ⟨howed, htimers⟩ := Op.owed_frames keep h hkeep (op.frames hlisted hop)
    rw [invocation_of_call hop s, howed, htimers]
    exact ⟨rfl, List.Sublist.refl _⟩

/-- The calls of a run and what is owed behind it are what was owed in front of it. -/
theorem run_owed (h : Owned s) (hlisted : Listed s) {ops : List Op} (hrun : WithinScan ops s)
    (hkeep : ∀ op ∈ ops, ∀ id, keep id → op.sparesId id) :
    (invocations ops s).filter (Invocation.sure keep) ++
        (run ops s).owed.filter (Invocation.sure keep) = s.owed.filter (Invocation.sure keep) ∧
      ((invocations ops s).map Invocation.timer ++ (run ops s).owedTimers).Sublist
        s.owedTimers := by
  induction ops generalizing s with
  | nil => exact ⟨rfl, List.Sublist.refl _⟩
  | cons op ops ih =>
      obtain ⟨hharmless, hscan, hrest⟩ := hrun
      obtain ⟨hstep, htimers⟩ := op_owed keep h hlisted hscan (hkeep op List.mem_cons_self)
      obtain ⟨hrun, hruns⟩ := ih (h.apply hharmless) (hlisted.apply op) hrest
        (fun op' hop' => hkeep op' (List.mem_cons_of_mem op hop'))
      constructor
      · rw [invocations, List.filter_append, List.append_assoc, ← hstep]
        exact congrArg _ hrun
      · rw [invocations, List.map_append, List.append_assoc]
        exact (hruns.append_left _).trans htimers

theorem reaches_owned (h : Reaches Harmless s) : Owned s ∧ Listed s := by
  induction h with
  | init => exact ⟨Owned.init, Listed.init⟩
  | step _ hop ih => exact ⟨ih.1.apply hop, ih.2.apply _⟩

/-- Between a scan and the next one {lit}`UITimerProc` calls the callbacks of the one-shot timers that
were due once each, the last one first, with the identifiers and the data that they had then, and
those of the periodic timers whose identifiers nobody adds or deletes meanwhile; no timer is called
that was not due, and none twice. -/
theorem scan_serves (h : Reaches Harmless s) (hpc : s.pc = .scan) (now : Uptime) {ops : List Op}
    (hrun : WithinScan ops (uiTimerProc now s)) (hend : (run ops (uiTimerProc now s)).pc = .scan)
    (hkeep : ∀ op ∈ ops, ∀ id, keep id → op.sparesId id) :
    (invocations ops (uiTimerProc now s)).filter (Invocation.sure keep) =
        ((s.found now).filterMap (fun p => p.2.invocation p.1)).filter (Invocation.sure keep) ∧
      ((invocations ops (uiTimerProc now s)).map Invocation.timer).Sublist
        ((s.found now).map (fun p => (p.1, p.2.timerID))) := by
  obtain ⟨howned, hlisted⟩ := reaches_owned h
  have hscan : uiTimerProc now s = scanSection now s := by
    rw [uiTimerProc, hpc]
  have howned' := howned.uiTimerProc now
  have hlisted' := hlisted.uiTimerProc now
  obtain ⟨hcalls, htimers⟩ := run_owed howned' hlisted' hrun hkeep
  have hfinal := hrun.owned howned'
  obtain ⟨howed, howedTimers⟩ := scanSection_owed howned hlisted hpc now
  constructor
  · rw [owed_of_scan hfinal hend, hscan, howed] at hcalls
    rw [hscan]
    simpa using hcalls
  · rw [hscan, howedTimers] at htimers
    rw [hscan]
    exact (List.sublist_append_left _ _).trans htimers

/-- A one-shot timer with identifier 1 and a periodic one with identifier 2, both of one second. -/
def tickAndShot : State :=
  (Op.addPeriodicTimer { timer := true, node := true } (seconds 0) 2 1000 (some 8) 6).apply
    ((Op.addTimer { timer := true, node := true } (seconds 0) 1 1000 (some 7) 5).apply State.init)

/-- The deletion of the one-shot timer comes behind the scan that found it due. -/
def lateDeletion : List Op :=
  .delTimer 1 false :: List.replicate 7 (.timerProc (seconds 1))

theorem scan_serves_lateDeletion :
    (invocations lateDeletion (uiTimerProc (seconds 1) tickAndShot)).filter
        (Invocation.sure (fun id => id == 2)) =
      [{ type := .periodic, fn := 8, timerID := 2, data := 6 },
        { type := .oneShot, fn := 7, timerID := 1, data := 5 }] := by
  have hreaches : Reaches Harmless tickAndShot := (Reaches.init.step trivial).step trivial
  have hne : ∀ {s : State}, s.pc ≠ .scan → s.pc = .scan → ∀ now, Op.timerProc (seconds 1) ≠ .timerProc now :=
    fun hpc hscan => absurd hscan hpc
  have hrun : WithinScan lateDeletion (uiTimerProc (seconds 1) tickAndShot) := by
    refine ⟨trivial, fun _ _ heq => (by cases heq), ?_⟩
    repeat first | exact trivial | refine ⟨trivial, hne (by decide), ?_⟩
  have hspares : ∀ op ∈ lateDeletion, ∀ id, (fun id => id == 2) id → op.sparesId id := by
    intro op hop id _
    rcases List.mem_cons.mp hop with rfl | hop
    · exact trivial
    · rw [List.eq_of_mem_replicate hop]
      exact trivial
  rw [(scan_serves hreaches rfl (seconds 1) hrun (by decide) hspares).1]
  decide

end UiTimer
end ZyxelRouter
