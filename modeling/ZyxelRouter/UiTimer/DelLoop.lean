import ZyxelRouter.UiTimer.Model

/-!
# The loop of a deletion

{lit}`UIDelTimer` and {lit}`UIDelTimer_retDataPtr` walk through {lit}`time_list` with an iterator of
{lit}`timer_list.c`.  After each removal they start over at the head of the list, and only a step off
the end of the list sets the result.

Main results:

- Theorem {lit}`delLoop_ends`: the loop ends from any of its turns on, and what it leaves.
- Theorems {lit}`uiDelTimerLoop_eq` and {lit}`uiDelTimerRetDataPtrLoop_eq`: it does what going once
  through the list does.
- Theorem {lit}`delTimer_deletes_iff`: when the deletions do what they are for.
-/

namespace ZyxelRouter
namespace UiTimer

open Lib

/-! ## Lists and iterators -/

/-- {lit}`timer_list_t`: the chain of nodes, as the elements in them, and their number. -/
structure TimerList (α : Type) where
  nbElt : Int
  node : List α

/-- {lit}`timer_list_iterator_t`: {lit}`prev` is the link behind {lit}`before`, and {lit}`actual` is the
chain that this link leads to. -/
structure ListIterator (α : Type) where
  before : List α
  actual : List α
  pos : Int

variable {α : Type}

/-- {lit}`timer_list_iterator_has_elem`. -/
def hasElem (it : ListIterator α) (li : TimerList α) : Bool :=
  !it.actual.isEmpty && it.pos < li.nbElt

/-- {lit}`timer_list_get_first`. -/
def timerListGetFirst (li : TimerList α) : Option α × ListIterator α :=
  if 0 ≥ li.nbElt then (none, { before := [], actual := [], pos := 0 })
  else (li.node.head?, { before := [], actual := li.node, pos := 0 })

/-- {lit}`timer_list_get_next`, which is called on a node only. -/
def timerListGetNext (li : TimerList α) (it : ListIterator α) : Option α × ListIterator α :=
  match it.actual with
  | [] => (none, it)
  | e :: next =>
      let it := { before := it.before ++ [e], actual := next, pos := it.pos + 1 }
      if hasElem it li then (it.actual.head?, it) else (none, { it with actual := [] })

/-- {lit}`timer_list_iterator_remove`. -/
def timerListIteratorRemove (li : TimerList α) (it : ListIterator α) :
    TimerList α × ListIterator α :=
  if hasElem it li then
    ({ nbElt := li.nbElt - 1, node := it.before ++ it.actual.tail },
      { it with actual := it.actual.tail })
  else (li, it)

/-! ## The loop -/

/-- The variables of the loop, and the timers that were released. -/
structure DelLoop (α : Type) where
  li : TimerList α
  iter : ListIterator α
  uitimer : Option α
  found : Bool
  ret : TimerStop
  dataptr : Option Nat
  freed : List α

section Loop

variable (idOf : α → Int) (dataOf : α → Nat) (id : Int) (dataptr : Bool)

/-- One turn of the loop, at {lit}`uitimer`. -/
def delTurn (s : DelLoop α) (uitimer : α) : DelLoop α :=
  if idOf uitimer ≠ id then
    let (next, iter) := timerListGetNext s.li s.iter
    { s with
      uitimer := next
      iter := iter
      ret := if next.isNone && !s.found then .notFound else s.ret }
  else
    let li := (timerListIteratorRemove s.li s.iter).1
    let (first, iter) := timerListGetFirst li
    { li := li
      iter := iter
      uitimer := first
      found := true
      ret := s.ret
      dataptr := if dataptr then some (dataOf uitimer) else s.dataptr
      freed := s.freed ++ [uitimer] }

/-- The loop, which has no result as long as it has not ended. -/
def delLoop : Nat → DelLoop α → Option (DelLoop α)
  | 0, _ => none
  | turns + 1, s =>
      match s.uitimer with
      | none => some s
      | some uitimer => delLoop turns (delTurn idOf dataOf id dataptr s uitimer)

/-- In front of the loop. -/
def delStart (li : TimerList α) : DelLoop α where
  li := li
  iter := (timerListGetFirst li).2
  uitimer := (timerListGetFirst li).1
  found := false
  ret := .success
  dataptr := none
  freed := []

end Loop

/-- The timers of {lit}`time_list` as the loop walks through them. -/
def State.timerList (s : State) : TimerList Nat where
  nbElt := s.timeList.length
  node := s.timeList

/-- What the loop leaves of a state. -/
def State.afterLoop (s : State) (r : DelLoop Nat) : TimerStop × Option Nat × State :=
  (r.ret, r.dataptr,
    { s with timeList := r.li.node, heap := r.freed.foldl ObjectHeap.free s.heap })

/-- The loop of both functions on a state. -/
def State.delLoop (turns : Nat) (id : Int) (dataptr : Bool) (s : State) :
    Option (TimerStop × Option Nat × State) :=
  (UiTimer.delLoop (fun r => (s.heap.get r).timerID) (fun r => (s.heap.get r).data) id dataptr turns
    (delStart s.timerList)).map s.afterLoop

/-- {lit}`UIDelTimer` with its loop. -/
def uiDelTimerLoop (turns : Nat) (id : Int) (dataptr : Bool) (s : State) :
    Option (TimerStop × Option Nat × State) :=
  if id ≤ 0 then some (.notFound, none, s) else s.delLoop turns id dataptr

/-- {lit}`UIDelTimer_retDataPtr` with its loop. -/
def uiDelTimerRetDataPtrLoop (turns : Nat) (id : Int) (dataPtr : Bool) (s : State) :
    Option (TimerStop × Option Nat × State) :=
  if id ≤ 0 then some (.notFound, none, s)
  else if !dataPtr then some (.fail, none, s)
  else s.delLoop turns id true

/-! ## The invariant of the loop -/

variable {idOf : α → Int} {dataOf : α → Nat} {id : Int} {dataptr : Bool}

/-- In front of a turn the iterator stands in the list, behind timers with other ids. -/
structure Walking (idOf : α → Int) (id : Int) (s : DelLoop α) : Prop where
  size : s.li.nbElt = s.li.node.length
  split : s.li.node = s.iter.before ++ s.iter.actual
  pos : s.iter.pos = s.iter.before.length
  current : s.uitimer = s.iter.actual.head?
  passed : ∀ t ∈ s.iter.before, idOf t ≠ id

/-- The timers that a deletion takes. -/
def taken (idOf : α → Int) (id : Int) (l : List α) : List α :=
  l.filter (fun t => idOf t = id)

/-- How the loop ends when it goes on from {lit}`s`. -/
structure Deleted (idOf : α → Int) (dataOf : α → Nat) (id : Int) (dataptr : Bool)
    (s r : DelLoop α) : Prop where
  node : r.li.node = s.li.node.filter (fun t => idOf t ≠ id)
  size : r.li.nbElt = r.li.node.length
  freed : r.freed = s.freed ++ taken idOf id s.li.node
  ret : r.ret =
    if s.found = false ∧ taken idOf id s.li.node = [] ∧ s.iter.actual ≠ [] then .notFound else s.ret
  data : r.dataptr =
    if dataptr then ((taken idOf id s.li.node).getLast?.map dataOf).or s.dataptr else s.dataptr

/-- The list starts with its first timer. -/
theorem timerListGetFirst_eq {li : TimerList α} (hsize : li.nbElt = li.node.length) :
    timerListGetFirst li = (li.node.head?, { before := [], actual := li.node, pos := 0 }) := by
  rw [timerListGetFirst]
  cases hnode : li.node with
  | nil =>
      rw [hnode] at hsize
      simp [hsize]
  | cons t rest =>
      rw [hnode, List.length_cons] at hsize
      rw [if_neg (by omega)]

theorem Walking.start {li : TimerList α} (hsize : li.nbElt = li.node.length) (found : Bool)
    (ret : TimerStop) (data : Option Nat) (freed : List α) :
    Walking idOf id
      { li := li, iter := (timerListGetFirst li).2, uitimer := (timerListGetFirst li).1,
        found := found, ret := ret, dataptr := data, freed := freed } := by
  rw [timerListGetFirst_eq hsize]
  exact ⟨hsize, rfl, rfl, rfl, by simp⟩

variable {s : DelLoop α} {t : α} {behind : List α}

/-- A turn at a timer with another id goes one node further. -/
theorem delTurn_next (h : Walking idOf id s) (hactual : s.iter.actual = t :: behind)
    (ht : idOf t ≠ id) :
    delTurn idOf dataOf id dataptr s t =
      { s with
        uitimer := behind.head?
        iter := { before := s.iter.before ++ [t], actual := behind, pos := s.iter.pos + 1 }
        ret := if behind.isEmpty && !s.found then .notFound else s.ret } := by
  have hlen := congrArg List.length h.split
  rw [hactual, List.length_append, List.length_cons] at hlen
  have hsize := h.size
  have hpos := h.pos
  rw [delTurn, if_pos ht, timerListGetNext, hactual]
  cases behind with
  | nil => simp [hasElem]
  | cons n behind =>
      rw [List.length_cons] at hlen
      have hmore : s.iter.pos + 1 < s.li.nbElt := by omega
      simp [hasElem, hmore]

theorem Walking.forward (dataOf : α → Nat) (dataptr : Bool) (h : Walking idOf id s)
    (hactual : s.iter.actual = t :: behind) (ht : idOf t ≠ id) :
    Walking idOf id (delTurn idOf dataOf id dataptr s t) := by
  rw [delTurn_next h hactual ht]
  constructor
  · exact h.size
  · rw [h.split, hactual]
    simp
  · rw [h.pos]
    simp
  · rfl
  · intro q hq
    rcases List.mem_append.mp hq with hq | hq
    · exact h.passed q hq
    · exact (List.mem_singleton.mp hq) ▸ ht

/-- The list without the timer that the iterator stands at. -/
def withoutActual (s : DelLoop α) : TimerList α where
  nbElt := s.li.nbElt - 1
  node := s.iter.before ++ s.iter.actual.tail

/-- A turn at a timer with the id removes it and starts over. -/
theorem delTurn_remove (h : Walking idOf id s) (hactual : s.iter.actual = t :: behind)
    (ht : idOf t = id) :
    delTurn idOf dataOf id dataptr s t =
      { li := withoutActual s
        iter := (timerListGetFirst (withoutActual s)).2
        uitimer := (timerListGetFirst (withoutActual s)).1
        found := true
        ret := s.ret
        dataptr := if dataptr then some (dataOf t) else s.dataptr
        freed := s.freed ++ [t] } := by
  have hlen := congrArg List.length h.split
  rw [hactual, List.length_append, List.length_cons] at hlen
  have hsize := h.size
  have hpos := h.pos
  have hhas : hasElem s.iter s.li = true := by
    have hmore : s.iter.pos < s.li.nbElt := by omega
    simp [hasElem, hactual, hmore]
  rw [delTurn, if_neg (by simpa using ht), timerListIteratorRemove, if_pos hhas]
  rfl

theorem size_withoutActual (h : Walking idOf id s) (hactual : s.iter.actual = t :: behind) :
    (withoutActual s).nbElt = (withoutActual s).node.length := by
  have hlen := congrArg List.length h.split
  have hsize := h.size
  rw [hactual, List.length_append, List.length_cons] at hlen
  simp only [withoutActual, hactual, List.tail_cons, List.length_append]
  omega

/-! ## The end of the loop -/

theorem taken_append (l l' : List α) : taken idOf id (l ++ l') = taken idOf id l ++ taken idOf id l' :=
  List.filter_append l l'

/-- No timer is taken of those that were passed. -/
theorem taken_of_passed {l : List α} (h : ∀ q ∈ l, idOf q ≠ id) : taken idOf id l = [] := by
  rw [taken, List.filter_eq_nil_iff]
  intro q hq
  simpa using h q hq

/-- Behind the last timer the loop has ended. -/
theorem Deleted.end (h : Walking idOf id s) (hactual : s.iter.actual = []) :
    Deleted idOf dataOf id dataptr s s := by
  have hnode : s.li.node = s.iter.before := by
    rw [h.split, hactual, List.append_nil]
  have htaken : taken idOf id s.li.node = [] := by
    rw [hnode]
    exact taken_of_passed h.passed
  constructor
  · rw [hnode]
    symm
    rw [List.filter_eq_self]
    intro q hq
    simpa using h.passed q hq
  · exact h.size
  · rw [htaken, List.append_nil]
  · rw [if_neg (by simp [hactual])]
  · rw [htaken]
    simp

/-- The loop goes on behind a timer with another id. -/
theorem Deleted.of_next {r : DelLoop α} (h : Walking idOf id s) (hactual : s.iter.actual = t :: behind)
    (ht : idOf t ≠ id)
    (hr : Deleted idOf dataOf id dataptr (delTurn idOf dataOf id dataptr s t) r) :
    Deleted idOf dataOf id dataptr s r := by
  rw [delTurn_next h hactual ht] at hr
  rcases hr with ⟨hnode, hsize, hfreed, hret, hdata⟩
  refine ⟨hnode, hsize, hfreed, ?_, hdata⟩
  have htaken : behind = [] → taken idOf id s.li.node = [] := by
    intro hnil
    rw [h.split, hactual, hnil, taken_append, taken_of_passed h.passed]
    simp [taken, ht]
  dsimp only at hret
  rw [hret]
  cases behind with
  | nil =>
      cases hfound : s.found with
      | true => simp
      | false => simp [htaken rfl, hactual]
  | cons n behind => simp [hactual]

/-- The loop goes on from the head of the list when a timer was removed. -/
theorem Deleted.of_remove {r : DelLoop α} (h : Walking idOf id s)
    (hactual : s.iter.actual = t :: behind) (ht : idOf t = id)
    (hr : Deleted idOf dataOf id dataptr (delTurn idOf dataOf id dataptr s t) r) :
    Deleted idOf dataOf id dataptr s r := by
  rw [delTurn_remove h hactual ht] at hr
  rcases hr with ⟨hnode, hsize, hfreed, hret, hdata⟩
  have hwithout : (withoutActual s).node = s.iter.before ++ behind := by
    rw [withoutActual, hactual, List.tail_cons]
  have htaken : taken idOf id s.li.node = t :: taken idOf id (withoutActual s).node := by
    rw [hwithout, h.split, hactual, taken_append, taken_append, taken_of_passed h.passed]
    simp [taken, ht]
  constructor
  · rw [hnode, hwithout, h.split, hactual]
    simp [ht]
  · exact hsize
  · rw [hfreed, htaken]
    simp
  · rw [hret, htaken]
    simp
  · rw [hdata, htaken]
    cases dataptr with
    | false => rfl
    | true =>
        simp only [if_true]
        cases hlast : (taken idOf id (withoutActual s).node).getLast? with
        | none =>
            rw [List.getLast?_eq_none_iff.mp hlast]
            rfl
        | some last =>
            rw [List.getLast?_cons, hlast]
            rfl

/-- From each of its turns on the loop ends. -/
theorem delLoop_ends (dataOf : α → Nat) (dataptr : Bool) (s : DelLoop α) (h : Walking idOf id s) :
    ∃ enough r, Deleted idOf dataOf id dataptr s r ∧
      ∀ turns, enough ≤ turns → delLoop idOf dataOf id dataptr turns s = some r := by
  cases hactual : s.iter.actual with
  | nil =>
      refine ⟨1, s, Deleted.end h hactual, ?_⟩
      intro turns hturns
      rcases Nat.exists_eq_add_of_le' hturns with ⟨turns, rfl⟩
      rw [delLoop, h.current, hactual]
      rfl
  | cons t next =>
      have hcurrent : s.uitimer = some t := by
        rw [h.current, hactual]
        rfl
      have hlen := congrArg List.length h.split
      rw [hactual, List.length_append, List.length_cons] at hlen
      by_cases ht : idOf t = id
      · have hnext : Walking idOf id (delTurn idOf dataOf id dataptr s t) := by
          rw [delTurn_remove h hactual ht]
          exact Walking.start (size_withoutActual h hactual) _ _ _ _
        have hless : (delTurn idOf dataOf id dataptr s t).li.node.length < s.li.node.length := by
          rw [delTurn_remove h hactual ht]
          simp only [withoutActual, hactual, List.tail_cons, List.length_append]
          omega
        rcases delLoop_ends dataOf dataptr _ hnext with ⟨enough, r, hr, hloop⟩
        refine ⟨enough + 1, r, hr.of_remove h hactual ht, ?_⟩
        intro turns hturns
        rcases Nat.exists_eq_add_of_le' (Nat.le_of_add_left_le hturns) with ⟨turns, rfl⟩
        rw [delLoop, hcurrent]
        exact hloop turns (by omega)
      · have hnext := h.forward dataOf dataptr hactual ht
        have hnode : (delTurn idOf dataOf id dataptr s t).li.node.length = s.li.node.length := by
          rw [delTurn_next h hactual ht]
        have hless : (delTurn idOf dataOf id dataptr s t).iter.actual.length <
            s.iter.actual.length := by
          rw [delTurn_next h hactual ht, hactual]
          simp
        rcases delLoop_ends dataOf dataptr _ hnext with ⟨enough, r, hr, hloop⟩
        refine ⟨enough + 1, r, hr.of_next h hactual ht, ?_⟩
        intro turns hturns
        rcases Nat.exists_eq_add_of_le' (Nat.le_of_add_left_le hturns) with ⟨turns, rfl⟩
        rw [delLoop, hcurrent]
        exact hloop turns (by omega)
termination_by (s.li.node.length, s.iter.actual.length)
decreasing_by
  · exact Prod.Lex.left _ _ hless
  · rw [hnode]
    exact Prod.Lex.right _ hless

/-! ## The deletion of the model -/

section Model

variable {s : State} {id : Int} {dataptr : Bool}

/-- The identifier of a timer. -/
def State.timerID (s : State) (r : Nat) : Int :=
  (s.heap.get r).timerID

/-- The timers of {lit}`time_list` without those of an identifier. -/
def State.without (s : State) (id : Int) : List Nat :=
  s.timeList.filter (fun r => s.timerID r ≠ id)

/-- Going once through the list: {lit}`kept` are the timers that were passed. -/
theorem foldl_delTimerNode (id : Int) (kept rest : List Nat) (s : State)
    (hlist : s.timeList = kept ++ rest) (hkept : ∀ r ∈ kept, s.timerID r ≠ id) :
    rest.foldl (delTimerNode id) s =
      { s with
        timeList := kept ++ rest.filter (fun r => s.timerID r ≠ id)
        heap := (taken s.timerID id rest).foldl ObjectHeap.free s.heap } := by
  induction rest generalizing kept s with
  | nil =>
      rw [List.append_nil] at hlist
      simp [taken, ← hlist]
  | cons r rest ih =>
      rw [List.foldl_cons, delTimerNode]
      by_cases hr : (s.heap.get r).timerID = id
      · have hnot : r ∉ kept := fun hmem => hkept r hmem hr
        have hfree : (freeTime r s).timeList = kept ++ rest := by
          rw [freeTime, hlist, List.erase_append_right _ hnot, List.erase_cons_head]
        have hsame : (freeTime r s).timerID = s.timerID := rfl
        have htaken : taken s.timerID id (r :: rest) = r :: taken s.timerID id rest :=
          List.filter_cons_of_pos (decide_eq_true hr)
        have hleft : (r :: rest).filter (fun r => s.timerID r ≠ id) =
            rest.filter (fun r => s.timerID r ≠ id) :=
          List.filter_cons_of_neg (fun hne => of_decide_eq_true hne hr)
        rw [if_pos hr, ih kept (freeTime r s) hfree hkept, hsame, htaken, hleft, List.foldl_cons]
        rfl
      · have hkept' : ∀ q ∈ kept ++ [r], s.timerID q ≠ id := by
          intro q hq
          rcases List.mem_append.mp hq with hq | hq
          · exact hkept q hq
          · exact (List.mem_singleton.mp hq) ▸ hr
        rw [if_neg hr, ih (kept ++ [r]) s (by simp [hlist]) hkept']
        have hid : s.timerID r ≠ id := hr
        simp [taken, hid]

/-- The state after a deletion. -/
theorem delTimer_state (id : Int) (s : State) :
    s.timeList.foldl (delTimerNode id) s =
      { s with
        timeList := s.without id
        heap := (taken s.timerID id s.timeList).foldl ObjectHeap.free s.heap } :=
  foldl_delTimerNode id [] s.timeList s rfl (by simp)

/-- The result of the loop tells whether a timer was taken, except for the empty list. -/
theorem stopResult_eq (id : Int) (s : State) :
    stopResult id s.timeList s =
      if taken s.timerID id s.timeList = [] ∧ s.timeList ≠ [] then .notFound else .success := by
  have hall : (s.timeList.all (fun r => (s.heap.get r).timerID != id)) = true ↔
      taken s.timerID id s.timeList = [] := by
    rw [taken, List.filter_eq_nil_iff, List.all_eq_true]
    simp only [bne_iff_ne, decide_eq_true_eq]
    rfl
  rw [stopResult]
  simp only [hall, and_comm]

/-- The loop with its restarts does what going once through the list does. -/
theorem State.delLoop_eq (id : Int) (dataptr : Bool) (s : State) :
    ∃ enough, ∀ turns, enough ≤ turns →
      s.delLoop turns id dataptr =
        some (stopResult id s.timeList s,
          if dataptr then lastData (·.timerID == id) s.timeList s else none,
          s.timeList.foldl (delTimerNode id) s) := by
  have hstart : Walking s.timerID id (delStart s.timerList) :=
    Walking.start (by rfl) false .success none []
  obtain ⟨enough, r, hr, hloop⟩ :=
    delLoop_ends (fun r => (s.heap.get r).data) dataptr (delStart s.timerList) hstart
  refine ⟨enough, ?_⟩
  intro turns hturns
  have hactual : (delStart s.timerList).iter.actual = s.timeList := by
    rw [delStart, timerListGetFirst_eq (by rfl)]
    rfl
  have hret : r.ret = stopResult id s.timeList s := by
    rw [hr.ret, stopResult_eq, hactual]
    simp [delStart, State.timerList]
  have hdata : r.dataptr = if dataptr then lastData (·.timerID == id) s.timeList s else none := by
    rw [hr.data]
    have hlast : ((taken s.timerID id s.timeList).getLast?).map (fun r => (s.heap.get r).data) =
        lastData (·.timerID == id) s.timeList s := by
      rw [lastData, List.filter_map, List.getLast?_map, Option.map_map]
      congr 2
    cases dataptr with
    | false => rfl
    | true =>
        rw [if_pos rfl, if_pos rfl, ← hlast]
        simp [delStart, State.timerList]
  have hstate : { s with timeList := r.li.node, heap := r.freed.foldl ObjectHeap.free s.heap } =
      s.timeList.foldl (delTimerNode id) s := by
    rw [delTimer_state, hr.node, hr.freed]
    rfl
  have hturn : UiTimer.delLoop (fun r => (s.heap.get r).timerID) (fun r => (s.heap.get r).data) id
      dataptr turns (delStart s.timerList) = some r := hloop turns hturns
  rw [State.delLoop, hturn, Option.map_some, State.afterLoop, hret, hdata, hstate]

/-- {lit}`UIDelTimer` with its loop ends, as the model has it. -/
theorem uiDelTimerLoop_eq (id : Int) (dataptr : Bool) (s : State) :
    ∃ enough, ∀ turns, enough ≤ turns →
      uiDelTimerLoop turns id dataptr s = some (uiDelTimer id dataptr s) := by
  by_cases hid : id ≤ 0
  · exact ⟨0, fun turns _ => by rw [uiDelTimerLoop, uiDelTimer, if_pos hid, if_pos hid]⟩
  · rcases s.delLoop_eq id dataptr with ⟨enough, hloop⟩
    refine ⟨enough, ?_⟩
    intro turns hturns
    rw [uiDelTimerLoop, uiDelTimer, if_neg hid, if_neg hid]
    exact hloop turns hturns

/-- {lit}`UIDelTimer_retDataPtr` with its loop ends, as the model has it. -/
theorem uiDelTimerRetDataPtrLoop_eq (id : Int) (dataPtr : Bool) (s : State) :
    ∃ enough, ∀ turns, enough ≤ turns →
      uiDelTimerRetDataPtrLoop turns id dataPtr s = some (uiDelTimerRetDataPtr id dataPtr s) := by
  by_cases hid : id ≤ 0
  · refine ⟨0, ?_⟩
    intro turns _
    rw [uiDelTimerRetDataPtrLoop, uiDelTimerRetDataPtr, if_pos hid, if_pos hid]
  · cases dataPtr with
    | false =>
        refine ⟨0, ?_⟩
        intro turns _
        simp [uiDelTimerRetDataPtrLoop, uiDelTimerRetDataPtr, hid]
    | true =>
        rcases s.delLoop_eq id true with ⟨enough, hloop⟩
        refine ⟨enough, ?_⟩
        intro turns hturns
        rw [uiDelTimerRetDataPtrLoop, uiDelTimerRetDataPtr, if_neg hid, if_neg hid]
        exact hloop turns hturns

end Model

/-! ## When a deletion does what it is for -/

/-- A deletion ends, takes exactly the timers of the identifier, and says whether there were any. -/
def DeletesAll (id : Int) (s : State) (call : Nat → Option (TimerStop × Option Nat × State)) : Prop :=
  ∃ enough r, (∀ turns, enough ≤ turns → call turns = some r) ∧
    r.2.2.timeList = s.without id ∧
    r.1 = if ∃ t ∈ s.timeList, s.timerID t = id then .success else .notFound

/-- Two one-shot timers were added. -/
def twoTimers : State :=
  let now : Uptime := { sec := 10, usec := 0, usec_lt := Uptime.zero_lt }
  let both : Alloc := { timer := true, node := true }
  run [.addTimer both now 7 1000 none 1, .addTimer both now 9 1000 none 2] State.init

/-- A deletion that ends is judged by what it ends with. -/
theorem DeletesAll.iff_of_ends {id : Int} {s : State}
    {call : Nat → Option (TimerStop × Option Nat × State)} {r : TimerStop × Option Nat × State}
    (enough : Nat) (hcall : ∀ turns, enough ≤ turns → call turns = some r) :
    DeletesAll id s call ↔ r.2.2.timeList = s.without id ∧
      r.1 = if ∃ t ∈ s.timeList, s.timerID t = id then .success else .notFound := by
  constructor
  · intro ⟨enough', r', hcall', hright⟩
    have hsame : some r = some r' := by
      rw [← hcall (max enough enough') (Nat.le_max_left _ _), hcall' _ (Nat.le_max_right _ _)]
    cases hsame
    exact hright
  · intro hright
    exact ⟨enough, r, hcall, hright⟩

/-- The result says whether a timer was taken unless the list is empty. -/
theorem stopResult_right_iff (id : Int) (s : State) :
    (stopResult id s.timeList s =
      if ∃ t ∈ s.timeList, s.timerID t = id then .success else .notFound) ↔ s.timeList ≠ [] := by
  have htaken : taken s.timerID id s.timeList = [] ↔ ¬ ∃ t ∈ s.timeList, s.timerID t = id := by
    rw [taken, List.filter_eq_nil_iff]
    simp
  rw [stopResult_eq]
  by_cases hex : ∃ t ∈ s.timeList, s.timerID t = id
  · have hne : s.timeList ≠ [] := by
      intro hnil
      rcases hex with ⟨t, ht, -⟩
      rw [hnil] at ht
      cases ht
    simp [htaken, hex, hne]
  · by_cases hnil : s.timeList = []
    · simp [hnil]
    · simp [htaken, hex, hnil]

/-- Deletions of timers in {lit}`time_list` do what they are for unless the list is empty, and
{lit}`UIDelTimer_retDataPtr` needs a place for the data. -/
theorem delTimer_deletes_iff {id : Int} (hid : 0 < id) (dataptr : Bool) (s : State) :
    (DeletesAll id s (fun turns => uiDelTimerLoop turns id dataptr s) ↔ s.timeList ≠ []) ∧
    (DeletesAll id s (fun turns => uiDelTimerRetDataPtrLoop turns id dataptr s) ↔
      s.timeList ≠ [] ∧ dataptr = true) := by
  constructor
  · rcases uiDelTimerLoop_eq id dataptr s with ⟨enough, hloop⟩
    rw [DeletesAll.iff_of_ends enough hloop, uiDelTimer, if_neg (by omega), delTimer_state]
    simp only [true_and]
    exact stopResult_right_iff id s
  · rcases uiDelTimerRetDataPtrLoop_eq id dataptr s with ⟨enough, hloop⟩
    rw [DeletesAll.iff_of_ends enough hloop, uiDelTimerRetDataPtr, if_neg (by omega)]
    cases dataptr with
    | false =>
        have hfail : ∀ p : Prop, [Decidable p] →
            TimerStop.fail ≠ if p then .success else .notFound := by
          intro p _
          split <;> decide
        simp [hfail]
    | true =>
        rw [if_neg (by decide), delTimer_state]
        simp only [true_and, and_true]
        exact stopResult_right_iff id s

/-- Two timers wait, and the one with the number 7 is deleted. -/
theorem delTimer_deletes_seven :
    DeletesAll 7 twoTimers (fun turns => uiDelTimerLoop turns 7 true twoTimers) ∧
      DeletesAll 7 twoTimers (fun turns => uiDelTimerRetDataPtrLoop turns 7 true twoTimers) := by
  rcases delTimer_deletes_iff (show (0 : Int) < 7 by decide) true twoTimers with ⟨hdel, hret⟩
  exact ⟨hdel.mpr (by decide), hret.mpr (by decide)⟩

/-- No timer waits, and the deletion of the timer 7 is a success. -/
theorem delTimer_empty_success :
    ¬ DeletesAll 7 State.init (fun turns => uiDelTimerLoop turns 7 true State.init) ∧
      ¬ DeletesAll 7 State.init (fun turns => uiDelTimerRetDataPtrLoop turns 7 true State.init) := by
  constructor
  · rcases uiDelTimerLoop_eq 7 true State.init with ⟨enough, hloop⟩
    rw [DeletesAll.iff_of_ends enough hloop]
    decide
  · rcases uiDelTimerRetDataPtrLoop_eq 7 true State.init with ⟨enough, hloop⟩
    rw [DeletesAll.iff_of_ends enough hloop]
    decide

end UiTimer
end ZyxelRouter
