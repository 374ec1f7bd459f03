import Mathlib.Data.List.Basic
import Mathlib.Logic.Function.Basic
import ZyxelRouter.Lib.StepRuns

/-!
# The EIDs of the threads

A thread registers its EID in the first slot of {lit}`_msg_data` that is free, under its thread id.
Its EID is looked up in the first slot with its thread id, and in the first slot of all when there is
none.  No slot is ever given back.

Main results:

- Theorem {lit}`Recorded.eidInit`: the slots are the calls that have succeeded, in their order.
- Theorem {lit}`zcfgMsgEidGet_eq`: what a lookup finds in terms of these calls.
- Theorem {lit}`eidsRight_step_iff`: when a step keeps every lookup right.
- Theorem {lit}`eidsRight_runs_iff`: the runs in which every lookup is right.
-/

namespace ZyxelRouter
namespace ZcfgMsg

open Lib

/-! ## The table -/

/-- {lit}`_msg_data_s`. -/
structure MsgData where
  eid : UInt8
  pid : UInt32
  sckId : Int
deriving DecidableEq, Repr

/-- {lit}`_init` and {lit}`_msg_data`. -/
structure MsgTable where
  init : Bool
  msgData : List MsgData
deriving DecidableEq, Repr

/-- {lit}`_MAX_THREADS`. -/
def maxThreads : Nat := 16

/-- {lit}`ZCFG_EID_MAX`, the last of the enumeration, which starts with 1. -/
def zcfgEidMax : Nat := 96

/-- {lit}`ZCFG_MSG_INVALID_EID`. -/
def zcfgMsgInvalidEid (eid : UInt8) : Bool :=
  eid ≤ 0 || eid.toNat ≥ zcfgEidMax

/-- The table before the first call. -/
def MsgTable.static : MsgTable where
  init := false
  msgData := List.replicate maxThreads { eid := 0, pid := 0, sckId := 0 }

/-- A slot behind {lit}`_init_msg_data`. -/
def freeSlot : MsgData where
  eid := 0
  pid := 0
  sckId := -1

/-- {lit}`_init_msg_data`. -/
def initMsgData (t : MsgTable) : MsgTable :=
  if t.init then t else { init := true, msgData := List.replicate maxThreads freeSlot }

/-- {lit}`_free_msg_data_get`: the index of a slot that is not in use. -/
def freeMsgDataGet (t : MsgTable) : Option Nat :=
  t.msgData.findIdx? (fun m => m.eid ≤ 0)

/-- {lit}`_my_msg_data_get`. -/
def myMsgDataGet (myPid : UInt32) (t : MsgTable) : Option MsgData :=
  if !t.init then none
  else
    match t.msgData.find? (fun m => m.pid == myPid) with
    | some m => some m
    | none => t.msgData.head?.filter (fun m => m.eid > 0)

/-- {lit}`zcfg_msg_eidInit` in the thread {lit}`myPid`. -/
def zcfgMsgEidInit (myPid : UInt32) (eid : UInt8) (t : MsgTable) : Bool × MsgTable :=
  if zcfgMsgInvalidEid eid then (false, t)
  else
    let t := initMsgData t
    match freeMsgDataGet t with
    | none => (false, t)
    | some i =>
        (true, { t with msgData := t.msgData.modify i (fun m => { m with eid := eid, pid := myPid }) })

/-- {lit}`zcfg_msg_eidGet` in the thread {lit}`myPid`. -/
def zcfgMsgEidGet (myPid : UInt32) (t : MsgTable) : UInt8 :=
  match myMsgDataGet myPid t with
  | none => 0
  | some m => m.eid

/-! ## The threads -/

/-- A process: the table, the calls of {lit}`zcfg_msg_eidInit` that have succeeded, and for every
thread that runs the EID of its latest call. -/
structure Process where
  table : MsgTable
  registrations : List (UInt32 × UInt8)
  thread : UInt32 → Option (Option UInt8)

/-- A process before its first thread. -/
def Process.start : Process where
  table := MsgTable.static
  registrations := []
  thread := fun _ => none

/-- What the threads of a process do. -/
inductive Action where
  | create (tid : UInt32)
  | exit (tid : UInt32)
  | eidInit (tid : UInt32) (eid : UInt8)
deriving DecidableEq, Repr

/-- A thread runs. -/
def Process.runs (p : Process) (tid : UInt32) : Bool :=
  (p.thread tid).isSome

/-- One action.  A new thread gets a thread id that no thread which runs has, and which is not zero;
only threads that run can call. -/
def Process.step (p : Process) : Action → Process
  | .create tid =>
      if tid = 0 ∨ p.runs tid then p else { p with thread := Function.update p.thread tid (some none) }
  | .exit tid => { p with thread := Function.update p.thread tid none }
  | .eidInit tid eid =>
      if !p.runs tid then p
      else
        let (done, table) := zcfgMsgEidInit tid eid p.table
        if done then
          { table := table
            registrations := p.registrations ++ [(tid, eid)]
            thread := Function.update p.thread tid (some (some eid)) }
        else { p with table := table }

/-- Every lookup is right: a thread that has registered finds the EID of its latest call, and another
thread finds that of the first registration. -/
def EidsRight (p : Process) : Prop :=
  ∀ tid latest, p.thread tid = some latest →
    match latest with
    | some eid => zcfgMsgEidGet tid p.table = eid
    | none => ∀ first ∈ p.registrations.head?, zcfgMsgEidGet tid p.table = first.2

/-- The first registration under a thread id. -/
def firstUnder (registrations : List (UInt32 × UInt8)) (tid : UInt32) : Option (UInt32 × UInt8) :=
  registrations.find? (fun r => r.1 == tid)

/-- A step leaves the lookups right: no thread has registered before under the thread id of a new
thread or of a thread that registers, unless with the EID that the lookup has to find. -/
def EidFits (p : Process) : Action → Prop
  | .create tid =>
      tid ≠ 0 → p.runs tid = false →
        ∀ earlier ∈ firstUnder p.registrations tid, ∀ first ∈ p.registrations.head?,
          earlier.2 = first.2
  | .exit _ => True
  | .eidInit tid eid =>
      p.runs tid = true → zcfgMsgInvalidEid eid = false → p.registrations.length < maxThreads →
        ∀ earlier ∈ firstUnder p.registrations tid, earlier.2 = eid

/-! ## The slots and the registrations -/

/-- The slot of a registration. -/
def slotOf (r : UInt32 × UInt8) : MsgData where
  eid := r.2
  pid := r.1
  sckId := -1

/-- The slots are the registrations in their order, and free slots behind them. -/
structure Recorded (registrations : List (UInt32 × UInt8)) (t : MsgTable) : Prop where
  size : registrations.length ≤ maxThreads
  used : ∀ r ∈ registrations, 0 < r.2
  static : t.init = false → registrations = []
  slots : t.init = true →
    t.msgData = registrations.map slotOf ++
      List.replicate (maxThreads - registrations.length) freeSlot

variable {log : List (UInt32 × UInt8)} {t : MsgTable} {tid : UInt32} {eid : UInt8} {p : Process}

theorem Recorded.start : Recorded [] MsgTable.static :=
  ⟨Nat.zero_le _, by simp, fun _ => rfl, fun h => nomatch h⟩

theorem Recorded.initMsgData (h : Recorded log t) :
    (initMsgData t).init = true ∧ Recorded log (initMsgData t) := by
  rw [ZcfgMsg.initMsgData]
  split
  · rename_i hinit
    exact ⟨hinit, h⟩
  · rename_i hinit
    rcases h.static (by simpa using hinit) with rfl
    exact ⟨rfl, h.size, h.used, fun _ => rfl, fun _ => rfl⟩

/-- The free slot is the one behind the registrations. -/
theorem freeMsgDataGet_eq (h : Recorded log t) (hinit : t.init = true) :
    freeMsgDataGet t = if log.length < maxThreads then some log.length else none := by
  have hused : ∀ m ∈ log.map slotOf, decide (m.eid ≤ 0) = false := by
    intro m hm
    rcases List.mem_map.mp hm with ⟨r, hr, rfl⟩
    exact decide_eq_false (UInt8.not_le.mpr (h.used r hr))
  have hfree : (freeSlot.eid ≤ 0) = True := by simp [freeSlot]
  rw [freeMsgDataGet, h.slots hinit, List.findIdx?_append, List.findIdx?_eq_none_iff.mpr hused,
    List.findIdx?_replicate]
  simp [hfree, Nat.sub_pos_iff_lt]

theorem modify_length_append {α : Type} (front : List α) (a : α) (behind : List α) (f : α → α) :
    (front ++ a :: behind).modify front.length f = front ++ f a :: behind := by
  induction front with
  | nil => rfl
  | cons b front ih => simp [ih]

/-- A call succeeds if its EID is valid and a slot is free. -/
def Succeeds (eid : UInt8) (log : List (UInt32 × UInt8)) : Prop :=
  zcfgMsgInvalidEid eid = false ∧ log.length < maxThreads

theorem Succeeds.pos (h : Succeeds eid log) : 0 < eid := by
  have hvalid := h.1
  rw [zcfgMsgInvalidEid, Bool.or_eq_false_iff] at hvalid
  exact UInt8.not_le.mp (of_decide_eq_false hvalid.1)

/-- A call that succeeds is recorded behind the others. -/
theorem Recorded.eidInit (h : Recorded log t) (tid : UInt32) (hok : Succeeds eid log) :
    (zcfgMsgEidInit tid eid t).1 = true ∧
      Recorded (log ++ [(tid, eid)]) (zcfgMsgEidInit tid eid t).2 := by
  rcases h.initMsgData with ⟨hinit, hrec⟩
  rw [zcfgMsgEidInit, hok.1, if_neg (by simp)]
  simp only [freeMsgDataGet_eq hrec hinit, if_pos hok.2]
  refine ⟨trivial, ?_, ?_, ?_, ?_⟩
  · rw [List.length_append, List.length_singleton]
    exact hok.2
  · intro r hr
    rcases List.mem_append.mp hr with hr | hr
    · exact h.used r hr
    · rw [List.mem_singleton.mp hr]
      exact hok.pos
  · intro hstatic
    simp [hinit] at hstatic
  · intro _
    have hroom : maxThreads - log.length = maxThreads - (log ++ [(tid, eid)]).length + 1 := by
      have := hok.2
      simp
      omega
    have hlen : log.length = (log.map slotOf).length := by simp
    dsimp only
    rw [hrec.slots hinit, hroom, List.replicate_succ, hlen, modify_length_append]
    simp [slotOf, freeSlot]

/-- A call that fails leaves the slots alone. -/
theorem Recorded.eidInit_fails (h : Recorded log t) (tid : UInt32) (hfail : ¬ Succeeds eid log) :
    (zcfgMsgEidInit tid eid t).1 = false ∧ Recorded log (zcfgMsgEidInit tid eid t).2 := by
  rw [zcfgMsgEidInit]
  cases hvalid : zcfgMsgInvalidEid eid with
  | true => exact ⟨rfl, h⟩
  | false =>
      rcases h.initMsgData with ⟨hinit, hrec⟩
      have hfull : ¬ log.length < maxThreads := fun hroom => hfail ⟨hvalid, hroom⟩
      rw [if_neg (by simp)]
      simp only [freeMsgDataGet_eq hrec hinit, if_neg hfull]
      exact ⟨trivial, hrec⟩

/-- What a lookup finds: the first registration under the thread id, or else the first of all. -/
def found (log : List (UInt32 × UInt8)) (tid : UInt32) : UInt8 :=
  (((firstUnder log tid).or log.head?).map Prod.snd).getD 0

theorem find_slots (log : List (UInt32 × UInt8)) (n : Nat) (htid : tid ≠ 0) :
    (log.map slotOf ++ List.replicate n freeSlot).find? (fun m => m.pid == tid) =
      (firstUnder log tid).map slotOf := by
  have hfree : (List.replicate n freeSlot).find? (fun m => m.pid == tid) = none := by
    apply List.find?_replicate_of_neg
    simpa [freeSlot] using htid.symm
  rw [List.find?_append, hfree, Option.or_none, List.find?_map]
  rfl

/-- A lookup in the slots. -/
theorem zcfgMsgEidGet_eq (h : Recorded log t) (htid : tid ≠ 0) :
    zcfgMsgEidGet tid t = found log tid := by
  rw [zcfgMsgEidGet, myMsgDataGet]
  cases hinit : t.init with
  | false =>
      rw [h.static hinit]
      rfl
  | true =>
      rw [if_neg (by simp), h.slots hinit, find_slots log _ htid, found]
      cases hfirst : firstUnder log tid with
      | some r => rfl
      | none =>
          cases log with
          | nil => rfl
          | cons r log =>
              have hused := h.used r List.mem_cons_self
              simp [slotOf, Option.filter, hused]

/-! ## Lookups when the registrations grow -/

theorem firstUnder_append (log : List (UInt32 × UInt8)) (r : UInt32 × UInt8) (tid : UInt32) :
    firstUnder (log ++ [r]) tid = (firstUnder log tid).or (if r.1 = tid then some r else none) := by
  rw [firstUnder, List.find?_append]
  by_cases hr : r.1 = tid
  · simp [firstUnder, hr]
  · simp [firstUnder, hr]

/-- The thread that registers finds its first registration. -/
theorem found_append_self (log : List (UInt32 × UInt8)) (tid : UInt32) (eid : UInt8) :
    found (log ++ [(tid, eid)]) tid = eid ↔ ∀ earlier ∈ firstUnder log tid, earlier.2 = eid := by
  rw [found, firstUnder_append, if_pos rfl]
  cases firstUnder log tid with
  | none => simp
  | some earlier => simp

/-- Another thread finds what it has found, or the first registration if this is the first. -/
theorem found_append_of_ne (log : List (UInt32 × UInt8)) {tid q : UInt32} (eid : UInt8)
    (hq : q ≠ tid) : found (log ++ [(tid, eid)]) q = if log = [] then eid else found log q := by
  rw [found, firstUnder_append, if_neg (Ne.symm hq), Option.or_none]
  cases log with
  | nil => rfl
  | cons r log => rfl

/-! ## Steps -/

/-- What holds of a process in every run: the slots are the registrations, the threads that run have
thread ids that are not zero, and those that have registered stand among the registrations. -/
structure Running (p : Process) : Prop where
  recorded : Recorded p.registrations p.table
  tid_ne : ∀ tid, p.runs tid = true → tid ≠ 0
  registered : ∀ tid eid, p.thread tid = some (some eid) → p.registrations ≠ []

theorem Running.start : Running Process.start :=
  ⟨Recorded.start, fun _ h => (nomatch h), fun _ _ h => (nomatch h)⟩

theorem Process.runs_of_thread {latest : Option UInt8} (h : p.thread tid = some latest) :
    p.runs tid = true := by
  rw [Process.runs, h]
  rfl

/-- What a lookup has to find. -/
def Finds (p : Process) (tid : UInt32) (latest : Option UInt8) : Prop :=
  match latest with
  | some eid => found p.registrations tid = eid
  | none => ∀ first ∈ p.registrations.head?, found p.registrations tid = first.2

theorem eidsRight_iff (h : Running p) :
    EidsRight p ↔ ∀ tid latest, p.thread tid = some latest → Finds p tid latest := by
  have hget : ∀ tid latest, p.thread tid = some latest →
      zcfgMsgEidGet tid p.table = found p.registrations tid := by
    intro tid latest hthread
    exact zcfgMsgEidGet_eq h.recorded (h.tid_ne tid (Process.runs_of_thread hthread))
  constructor
  · intro hright tid latest hthread
    have hlookup := hright tid latest hthread
    rw [hget tid latest hthread] at hlookup
    exact hlookup
  · intro hfinds tid latest hthread
    rw [hget tid latest hthread]
    exact hfinds tid latest hthread

/-- A call that succeeds. -/
theorem step_eidInit (h : Running p) (hruns : p.runs tid = true) (hok : Succeeds eid p.registrations) :
    p.step (.eidInit tid eid) =
      { table := (zcfgMsgEidInit tid eid p.table).2
        registrations := p.registrations ++ [(tid, eid)]
        thread := Function.update p.thread tid (some (some eid)) } := by
  simp [Process.step, hruns, (h.recorded.eidInit tid hok).1]

/-- A call that fails. -/
theorem step_eidInit_fails (h : Running p) (hruns : p.runs tid = true)
    (hfail : ¬ Succeeds eid p.registrations) :
    p.step (.eidInit tid eid) = { p with table := (zcfgMsgEidInit tid eid p.table).2 } := by
  simp [Process.step, hruns, (h.recorded.eidInit_fails tid hfail).1]

theorem step_idle (hruns : p.runs tid = false) : p.step (.eidInit tid eid) = p := by
  simp [Process.step, hruns]

theorem runs_update (p : Process) (tid : UInt32) (latest : Option (Option UInt8)) (q : UInt32) :
    (Function.update p.thread tid latest q).isSome = if q = tid then latest.isSome else p.runs q := by
  by_cases hq : q = tid
  · subst hq
    simp
  · simp [hq, Process.runs]

/-- A thread whose record was set, or another one. -/
theorem update_eq_some {thread : UInt32 → Option (Option UInt8)} {q : UInt32}
    {new : Option (Option UInt8)} {latest : Option UInt8}
    (h : Function.update thread tid new q = some latest) :
    (q = tid ∧ new = some latest) ∨ (q ≠ tid ∧ thread q = some latest) := by
  by_cases hq : q = tid
  · subst hq
    rw [Function.update_self] at h
    exact .inl ⟨rfl, h⟩
  · rw [Function.update_of_ne hq] at h
    exact .inr ⟨hq, h⟩

theorem Running.create (h : Running p) (tid : UInt32) : Running (p.step (.create tid)) := by
  rw [Process.step]
  split
  · exact h
  · rename_i hnew
    refine ⟨h.recorded, ?_, ?_⟩
    · intro q hq
      rw [Process.runs, runs_update] at hq
      split at hq
      · rename_i heq
        exact fun hzero => hnew (.inl (heq ▸ hzero))
      · exact h.tid_ne q hq
    · intro q e hthread
      rcases update_eq_some hthread with ⟨-, hnew⟩ | ⟨-, hthread⟩
      · cases hnew
      · exact h.registered q e hthread

theorem Running.exit (h : Running p) (tid : UInt32) : Running (p.step (.exit tid)) := by
  refine ⟨h.recorded, ?_, ?_⟩
  · intro q hq
    rw [Process.runs, Process.step, runs_update] at hq
    split at hq
    · cases hq
    · exact h.tid_ne q hq
  · intro q e hthread
    rcases update_eq_some hthread with ⟨-, hnew⟩ | ⟨-, hthread⟩
    · cases hnew
    · exact h.registered q e hthread

theorem Running.eidInit (h : Running p) (tid : UInt32) (eid : UInt8) :
    Running (p.step (.eidInit tid eid)) := by
  cases hruns : p.runs tid with
  | false =>
      rw [step_idle hruns]
      exact h
  | true =>
      by_cases hok : Succeeds eid p.registrations
      · rw [step_eidInit h hruns hok]
        refine ⟨(h.recorded.eidInit tid hok).2, ?_, ?_⟩
        · intro q hq
          rw [Process.runs, runs_update] at hq
          split at hq
          · rename_i heq
            exact heq ▸ h.tid_ne tid hruns
          · exact h.tid_ne q hq
        · intro _ _ _
          simp
      · rw [step_eidInit_fails h hruns hok]
        exact ⟨(h.recorded.eidInit_fails tid hok).2, h.tid_ne, h.registered⟩

/-- Every step keeps what holds of a process. -/
theorem Running.step (h : Running p) (action : Action) : Running (p.step action) := by
  cases action with
  | create tid => exact h.create tid
  | exit tid => exact h.exit tid
  | eidInit tid eid => exact h.eidInit tid eid

/-! ## When a step keeps the lookups right -/

theorem create_right_iff (h : Running p) (hright : EidsRight p) (tid : UInt32) :
    EidsRight (p.step (.create tid)) ↔ EidFits p (.create tid) := by
  have hstep := h.create tid
  rw [eidsRight_iff hstep]
  have hbefore := (eidsRight_iff h).mp hright
  by_cases hnew : tid = 0 ∨ p.runs tid = true
  · have hsame : p.step (.create tid) = p := by
      rw [Process.step, if_pos hnew]
    rw [hsame]
    refine iff_of_true hbefore ?_
    intro hne hruns
    rcases hnew with hzero | hlive
    · exact absurd hzero hne
    · rw [hlive] at hruns
      cases hruns
  · have hsame : p.step (.create tid) =
        { p with thread := Function.update p.thread tid (some none) } := by
      rw [Process.step, if_neg hnew]
    rcases not_or.mp hnew with ⟨hne, hruns⟩
    have hfinds : Finds p tid none ↔ EidFits p (.create tid) := by
      simp only [Finds, EidFits, found]
      cases firstUnder p.registrations tid with
      | none => cases p.registrations <;> simp
      | some earlier => simp [hne, hruns]
    rw [hsame, ← hfinds]
    constructor
    · intro hall
      exact hall tid none (Function.update_self tid _ p.thread)
    · intro hnone q latest hthread
      rcases update_eq_some hthread with ⟨rfl, hset⟩ | ⟨-, hthread⟩
      · cases hset
        exact hnone
      · exact hbefore q latest hthread

theorem exit_right (h : Running p) (hright : EidsRight p) (tid : UInt32) :
    EidsRight (p.step (.exit tid)) := by
  rw [eidsRight_iff (h.exit tid)]
  intro q latest hthread
  rcases update_eq_some hthread with ⟨-, hset⟩ | ⟨-, hthread⟩
  · cases hset
  · exact (eidsRight_iff h).mp hright q latest hthread

/-- A registration changes no lookup of another thread, but for the first registration. -/
theorem finds_append_of_ne (h : Running p) (hright : EidsRight p) {q : UInt32}
    {latest : Option UInt8} (hq : q ≠ tid) (hthread : p.thread q = some latest) (table : MsgTable)
    (thread : UInt32 → Option (Option UInt8)) :
    Finds { table := table, registrations := p.registrations ++ [(tid, eid)], thread := thread }
      q latest := by
  have hbefore := (eidsRight_iff h).mp hright q latest hthread
  cases latest with
  | some e =>
      have hne := h.registered q e hthread
      simp only [Finds, found_append_of_ne _ _ hq, if_neg hne]
      exact hbefore
  | none =>
      simp only [Finds, found_append_of_ne _ _ hq]
      cases hlog : p.registrations with
      | nil => simp
      | cons r log =>
          simp only [Finds, hlog] at hbefore
          simpa using hbefore

theorem eidInit_right_iff (h : Running p) (hright : EidsRight p) (tid : UInt32) (eid : UInt8) :
    EidsRight (p.step (.eidInit tid eid)) ↔ EidFits p (.eidInit tid eid) := by
  rw [eidsRight_iff (h.eidInit tid eid)]
  have hbefore := (eidsRight_iff h).mp hright
  cases hruns : p.runs tid with
  | false =>
      rw [step_idle hruns]
      refine iff_of_true hbefore ?_
      intro hlive
      rw [hruns] at hlive
      cases hlive
  | true =>
      by_cases hok : Succeeds eid p.registrations
      · rw [step_eidInit h hruns hok]
        have hself : (∀ earlier ∈ firstUnder p.registrations tid, earlier.2 = eid) ↔
            EidFits p (.eidInit tid eid) :=
          ⟨fun hall _ _ _ => hall, fun hfits => hfits hruns hok.1 hok.2⟩
        rw [← hself, ← found_append_self]
        constructor
        · intro hall
          exact hall tid (some eid) (Function.update_self tid _ p.thread)
        · intro hfound q latest hthread
          rcases update_eq_some hthread with ⟨rfl, hset⟩ | ⟨hq, hthread⟩
          · cases hset
            exact hfound
          · exact finds_append_of_ne h hright hq hthread _ _
      · rw [step_eidInit_fails h hruns hok]
        refine iff_of_true hbefore ?_
        intro _ hvalid hroom
        exact absurd ⟨hvalid, hroom⟩ hok

/-- A step keeps the lookups right just if it fits. -/
theorem eidsRight_step_iff (h : Running p) (hright : EidsRight p) (action : Action) :
    EidsRight (p.step action) ↔ EidFits p action := by
  cases action with
  | create tid => exact create_right_iff h hright tid
  | exit tid => exact iff_of_true (exit_right h hright tid) trivial
  | eidInit tid eid => exact eidInit_right_iff h hright tid eid

/-- The lookups are right in every state of a run just if every step fits. -/
theorem eidsRight_runs_iff (actions : List Action) :
    EveryStep Process.step (fun p action => EidsRight (p.step action)) .start actions ↔
      EveryStep Process.step EidFits .start actions := by
  apply everyStep_congr (I := fun p => Running p ∧ EidsRight p)
  · intro p action ⟨h, _⟩ hright
    exact ⟨h.step action, hright⟩
  · intro p action ⟨h, hright⟩
    exact eidsRight_step_iff h hright action
  · refine ⟨Running.start, ?_⟩
    intro tid latest hthread
    cases hthread

/-- A thread registers twice, and its lookup finds the EID of the first call.  A thread gets the
thread id of one that has registered and ended, and its lookup finds the EID of that one. -/
theorem eidInit_finds_earlier :
    (¬ EveryStep Process.step (fun p action => EidsRight (p.step action)) .start
      [.create 100, .eidInit 100 4, .eidInit 100 5]) ∧
    ¬ EveryStep Process.step (fun p action => EidsRight (p.step action)) .start
      [.create 100, .eidInit 100 4, .create 101, .eidInit 101 5, .exit 101, .create 101] := by
  constructor
  · intro hall
    have hright := hall [.create 100, .eidInit 100 4] (.eidInit 100 5) (by simp)
    exact absurd (hright 100 (some 5) (by decide)) (by decide)
  · intro hall
    have hright := hall [.create 100, .eidInit 100 4, .create 101, .eidInit 101 5, .exit 101]
      (.create 101) (by simp)
    exact absurd (hright 101 none (by decide) (100, 4) (by decide)) (by decide)

end ZcfgMsg
end ZyxelRouter
