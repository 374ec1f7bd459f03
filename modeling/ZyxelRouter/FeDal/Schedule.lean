import Mathlib.Data.List.Infix
import ZyxelRouter.Lib.Decimal
import ZyxelRouter.FeDal.Common

/-!
# Schedules

{lit}`zcfgFeDalSchedule` adds, edits and deletes rules that hold on some days from a start time to a stop
time.  The name of a new rule and a new name of an old one are compared with the names of the others,
and the times with each other; times that are left out are filled in or taken from the stored rule.

Main results:

- Theorem {lit}`scheduleAdd_cases`, {lit}`scheduleEdit_cases`, {lit}`scheduleDelete_cases`: what a
  request does to the table.
- Theorem {lit}`scheduleStep_inOrder`: accepted requests keep the table in order.
- Theorem {lit}`schedule_run_inOrder`: so do all runs, and a {lit}`PUT` that is rejected changes nothing.
-/

namespace ZyxelRouter
namespace FeDal

open Lib

/-! ## The table -/

/-- The parameters of {lit}`RDM_OID_SCHEDULE` that are read or written here. -/
structure Schedule where
  enable : Bool
  name : List Char
  description : List Char
  days : Int
  timeStartHour : Int
  timeStartMin : Int
  timeStopHour : Int
  timeStopMin : Int
deriving DecidableEq

/-- The rules in the order in which {lit}`zcfgFeObjJsonGetNextWithoutUpdate` goes through them. -/
abbrev ScheduleTable := KeyedTable InstNum Schedule

/-! ## Requests -/

/-- The object of a {lit}`POST` request; the field marked {lit}`dal_Add` is there. -/
structure SchedulePost where
  dontCheckDupName : Bool
  name : List Char
  description : Option (List Char)
  days : Option (List Char)
  timeStartHour : Option Int
  timeStartMin : Option Int
  timeStopHour : Option Int
  timeStopMin : Option Int

/-- The object of a {lit}`PUT` request. -/
structure SchedulePut where
  index : Int
  name : Option (List Char)
  description : Option (List Char)
  days : Option (List Char)
  timeStartHour : Option Int
  timeStartMin : Option Int
  timeStopHour : Option Int
  timeStopMin : Option Int

/-! ## The operations -/

/-- Whether {lit}`strcasestr` finds a text of capital letters. -/
def strcasestr (str : List Char) (day : String) : Bool :=
  day.toList <:+: str.map Char.toUpper

/-- The names of the days and their bits. -/
def dayBits : List (String × Int) :=
  [("MON", 2), ("TUE", 4), ("WED", 8), ("THU", 16), ("FRI", 32), ("SAT", 64), ("SUN", 1)]

/-- {lit}`schedule_days_string_to_int`. -/
def scheduleDaysStringToInt (str : List Char) : Int :=
  dayBits.foldl (fun ret day => if strcasestr str day.1 then ret + day.2 else ret) 0

/-- {lit}`isValidTimePeriod` without {lit}`ZYXEL_HOME_CYBER_SECURITY`. -/
def isValidTimePeriod (startHour startMin stopHour stopMin : Int) : Bool :=
  !(startHour * 60 + startMin ≥ stopHour * 60 + stopMin)

/-- {lit}`isValidTimePeriod` of the times of a rule. -/
def Schedule.hasValidPeriod (rule : Schedule) : Bool :=
  isValidTimePeriod rule.timeStartHour rule.timeStartMin rule.timeStopHour rule.timeStopMin

/-- {lit}`dalcmdParamCheck` for {lit}`Name`: a rule has the name, and if an instance is given then it is another
one. -/
def scheduleNameTaken (table : ScheduleTable) (iid : Option InstNum) (name : List Char) : Bool :=
  table.rows.any (fun row => name = row.2.name && some row.1 ≠ iid)

/-- The reply about a name that is taken; the other text is printed only. -/
def DalReply.nameDuplicate (reply : DalReply) : DalReply :=
  { reply with
    multiLangReplyMsg := some "zylang.SchedulerRule.Input.pop_name_duplicate".toList }

/-- The time of a request, or another one if it is not complete. -/
def autofill (hour min : Option Int) (missing : Int × Int) : Int × Int :=
  match hour, min with
  | some h, some m => (h, m)
  | _, _ => missing

/-- The new rule of a {lit}`POST` request, before its times are compared. -/
def filledSchedule (initial : Schedule) (req : SchedulePost) : Schedule where
  enable := true
  name := req.name
  description := req.description.getD initial.description
  days := (req.days.map scheduleDaysStringToInt).getD initial.days
  timeStartHour := (autofill req.timeStartHour req.timeStartMin (0, 0)).1
  timeStartMin := (autofill req.timeStartHour req.timeStartMin (0, 0)).2
  timeStopHour := (autofill req.timeStopHour req.timeStopMin (23, 59)).1
  timeStopMin := (autofill req.timeStopHour req.timeStopMin (23, 59)).2

/-- A rule for the whole day. -/
def Schedule.wholeDay (rule : Schedule) : Schedule :=
  { rule with timeStartHour := 0, timeStartMin := 0, timeStopHour := 23, timeStopMin := 59 }

/-- The rule that a {lit}`POST` request stores. -/
def addedSchedule (initial : Schedule) (req : SchedulePost) : Schedule :=
  let rule := filledSchedule initial req
  if rule.hasValidPeriod then rule else rule.wholeDay

/-- {lit}`zcfgFeDalScheduleAdd`.  Besides the result it gives the path that is put into {lit}`Jarray`. -/
def zcfgFeDalScheduleAdd (store : InstanceStore Schedule) (results : StoreResults)
    (table : ScheduleTable) (req : SchedulePost) (reply : DalReply) :
    TableResult ScheduleTable × Option (List Char) :=
  if !req.dontCheckDupName && scheduleNameTaken table none req.name then
    ((.invalidParamValue, reply.nameDuplicate, table), none)
  else
    match h : store.newInstance table with
    | .error ret => ((ret, reply, table), none)
    | .ok objIid =>
        let added := table.add objIid store.initial (store.fresh table objIid h)
        if results.get ≠ .success then ((results.get, reply, added), none)
        else
          match results.zcfgFeObjJsonSet added objIid (addedSchedule store.initial req) with
          | (.success, stored) =>
              ((.success, reply, stored),
                some ("X_ZYXEL_Schedule.".toList ++ decimal objIid.val.toNat))
          | (ret, stored) => ((ret, reply, stored), none)

/-- The stored rule of a {lit}`PUT` request: the fields of the request over those of the old rule. -/
def mergedSchedule (old : Schedule) (req : SchedulePut) : Schedule where
  enable := old.enable
  name := req.name.getD old.name
  description := req.description.getD old.description
  days := (req.days.map scheduleDaysStringToInt).getD old.days
  timeStartHour := req.timeStartHour.getD old.timeStartHour
  timeStartMin := req.timeStartMin.getD old.timeStartMin
  timeStopHour := req.timeStopHour.getD old.timeStopHour
  timeStopMin := req.timeStopMin.getD old.timeStopMin

/-- The name of a request is another one than that of the rule, and taken. -/
def newNameTaken (table : ScheduleTable) (objIid : InstNum) (old : Schedule) (req : SchedulePut) :
    Bool :=
  match req.name with
  | none => false
  | some newName => newName ≠ old.name && scheduleNameTaken table (some objIid) newName

/-- {lit}`zcfgFeDalScheduleEdit`. -/
def zcfgFeDalScheduleEdit (results : StoreResults) (table : ScheduleTable) (req : SchedulePut)
    (reply : DalReply) : TableResult ScheduleTable :=
  match convertIndextoIid table req.index reply with
  | .error (ret, reply) => (ret, reply, table)
  | .ok objIid =>
      match table.get objIid with
      | none => (.noSuchObject, reply, table)
      | some old =>
          if results.get ≠ .success then (results.get, reply, table)
          else if newNameTaken table objIid old req then
            (.invalidParamValue, reply.nameDuplicate, table)
          else if !(mergedSchedule old req).hasValidPeriod then (.invalidParamValue, reply, table)
          else
            let (ret, stored) := results.zcfgFeObjJsonSet table objIid (mergedSchedule old req)
            (ret, reply, stored)

/-- {lit}`zcfgFeDalScheduleDelete`. -/
def zcfgFeDalScheduleDelete (results : StoreResults) (table : ScheduleTable) (index : Int)
    (reply : DalReply) : TableResult ScheduleTable :=
  match convertIndextoIid table index reply with
  | .error (ret, reply) => (ret, reply, table)
  | .ok objIid =>
      match results.zcfgFeObjJsonDel table objIid with
      | (.deleteReject, stored) =>
          (.deleteReject, { reply with
            multiLangReplyMsg := some "zylang.SchedulerRule.delete_pcp_sch_err_msg".toList }, stored)
      | (ret, stored) => (ret, reply, stored)

/-- The requests that change the table. -/
inductive ScheduleRequest where
  | post (req : SchedulePost)
  | put (req : SchedulePut)
  | delete (index : Int)

/-- {lit}`zcfgFeDalSchedule` for objects. -/
def zcfgFeDalSchedule (store : InstanceStore Schedule) (results : StoreResults)
    (table : ScheduleTable) (request : ScheduleRequest) (reply : DalReply) :
    TableResult ScheduleTable :=
  match request with
  | .post req => (zcfgFeDalScheduleAdd store results table req reply).1
  | .put req => zcfgFeDalScheduleEdit results table req reply
  | .delete index => zcfgFeDalScheduleDelete results table index reply

/-- What a request does when no call to the store fails but the addition of an instance. -/
def scheduleStep (store : InstanceStore Schedule) (table : ScheduleTable)
    (request : ScheduleRequest) : TableResult ScheduleTable :=
  zcfgFeDalSchedule store .succeed table request .empty

/-- The table after requests. -/
def scheduleRun (store : InstanceStore Schedule) (table : ScheduleTable)
    (requests : List ScheduleRequest) : ScheduleTable :=
  requests.foldl (fun table request => (scheduleStep store table request).2.2) table

/-! ## Accepted requests -/

/-- The times of {lit}`SCHEDULE_param`. -/
def acceptedTimes (startHour startMin stopHour stopMin : Option Int) : Bool :=
  startHour.all (acceptedInt 0 23) && startMin.all (acceptedInt 0 59) &&
    stopHour.all (acceptedInt 0 23) && stopMin.all (acceptedInt 0 59)

/-- {lit}`parseValidateParameter` with {lit}`SCHEDULE_param`: numbers and texts without bounds are accepted. -/
def scheduleAccepted : ScheduleRequest → Bool
  | .post req => acceptedTimes req.timeStartHour req.timeStartMin req.timeStopHour req.timeStopMin
  | .put req => acceptedTimes req.timeStartHour req.timeStartMin req.timeStopHour req.timeStopMin
  | .delete _ => true

/-! ## Tables in order -/

/-- The times of a rule are two times of one day, the first before the second. -/
structure InDay (rule : Schedule) : Prop where
  startHour : 0 ≤ rule.timeStartHour ∧ rule.timeStartHour ≤ 23
  startMin : 0 ≤ rule.timeStartMin ∧ rule.timeStartMin ≤ 59
  stopHour : 0 ≤ rule.timeStopHour ∧ rule.timeStopHour ≤ 23
  stopMin : 0 ≤ rule.timeStopMin ∧ rule.timeStopMin ≤ 59
  before : rule.timeStartHour * 60 + rule.timeStartMin < rule.timeStopHour * 60 + rule.timeStopMin

/-- Different names, and rules that start before they stop. -/
structure ScheduleInOrder (table : ScheduleTable) : Prop where
  names : table.AllPairs (fun a b => a.name ≠ b.name)
  inDay : ∀ row ∈ table.rows, InDay row.2

theorem hasValidPeriod_iff {rule : Schedule} :
    rule.hasValidPeriod = true ↔
      rule.timeStartHour * 60 + rule.timeStartMin < rule.timeStopHour * 60 + rule.timeStopMin := by
  simp [Schedule.hasValidPeriod, isValidTimePeriod]

theorem scheduleNameTaken_eq_false_iff {table : ScheduleTable} {iid : Option InstNum}
    {name : List Char} :
    scheduleNameTaken table iid name = false ↔
      ∀ row ∈ table.rows, some row.1 ≠ iid → name ≠ row.2.name := by
  rw [scheduleNameTaken, List.any_eq_false]
  constructor
  · intro h row hrow hiid heq
    exact h row hrow (by simpa [heq] using hiid)
  · intro h row hrow htaken
    obtain ⟨heq, hiid⟩ : name = row.2.name ∧ some row.1 ≠ iid := by simpa using htaken
    exact h row hrow hiid heq

/-! ## What a request does -/

/-- What {lit}`zcfgFeDalScheduleAdd` does if no call fails behind the addition. -/
theorem scheduleAdd_cases (store : InstanceStore Schedule) (table : ScheduleTable)
    (req : SchedulePost) (reply : DalReply) :
    (zcfgFeDalScheduleAdd store .succeed table req reply).1.2.2 = table ∨
    ∃ objIid, ∃ hfresh : objIid ∉ table.rows.map Prod.fst,
      (req.dontCheckDupName = false → scheduleNameTaken table none req.name = false) ∧
      (zcfgFeDalScheduleAdd store .succeed table req reply).1.2.2 =
        table.add objIid (addedSchedule store.initial req) hfresh := by
  unfold zcfgFeDalScheduleAdd
  by_cases htaken : (!req.dontCheckDupName && scheduleNameTaken table none req.name) = true
  · rw [if_pos htaken]
    exact Or.inl rfl
  rw [if_neg htaken]
  split
  · exact Or.inl rfl
  · rename_i objIid hnew
    have hfresh := store.fresh table objIid hnew
    refine Or.inr ⟨objIid, hfresh, ?_, ?_⟩
    · intro hcheck
      simpa [hcheck] using htaken
    · rw [if_neg (by simp [StoreResults.succeed]), StoreResults.set_of_success rfl]
      exact KeyedTable.put_add hfresh

/-- The checks of {lit}`zcfgFeDalScheduleEdit` on a rule that has been found. -/
structure ScheduleEditPasses (table : ScheduleTable) (objIid : InstNum) (old : Schedule)
    (req : SchedulePut) : Prop where
  nameFree : newNameTaken table objIid old req = false
  period : (mergedSchedule old req).hasValidPeriod = true

/-- What {lit}`zcfgFeDalScheduleEdit` does: it fails and the table stays, or the merged rule is stored. -/
theorem scheduleEdit_cases (results : StoreResults) (table : ScheduleTable) (req : SchedulePut)
    (reply : DalReply) :
    (zcfgFeDalScheduleEdit results table req reply).2.2 = table ∨
    (zcfgFeDalScheduleEdit results table req reply).1 = .success ∧
      ∃ objIid old, (objIid, old) ∈ table.rows ∧ ScheduleEditPasses table objIid old req ∧
        (zcfgFeDalScheduleEdit results table req reply).2.2 =
          table.put objIid (mergedSchedule old req) := by
  unfold zcfgFeDalScheduleEdit
  cases hiid : convertIndextoIid table req.index reply with
  | error failed => exact Or.inl rfl
  | ok objIid =>
      obtain ⟨old, hget⟩ := convertIndextoIid_get hiid
      simp only [hget]
      by_cases hread : results.get ≠ .success
      · rw [if_pos hread]
        exact Or.inl rfl
      rw [if_neg hread]
      by_cases htaken : newNameTaken table objIid old req = true
      · rw [if_pos htaken]
        exact Or.inl rfl
      rw [if_neg htaken]
      by_cases hperiod : (mergedSchedule old req).hasValidPeriod = true
      · rw [if_neg (by simp [hperiod])]
        by_cases hset : results.set = .success
        · rw [StoreResults.set_of_success hset]
          exact Or.inr ⟨rfl, objIid, old, KeyedTable.get_eq_some_iff.mp hget,
            ⟨by simpa using htaken, hperiod⟩, rfl⟩
        · rw [StoreResults.set_of_failed hset]
          exact Or.inl rfl
      · rw [if_pos (by simp [hperiod])]
        exact Or.inl rfl

/-- What {lit}`zcfgFeDalScheduleDelete` does. -/
theorem scheduleDelete_cases (results : StoreResults) (table : ScheduleTable) (index : Int)
    (reply : DalReply) :
    (zcfgFeDalScheduleDelete results table index reply).2.2 = table ∨
    ∃ objIid, (zcfgFeDalScheduleDelete results table index reply).2.2 = table.del objIid := by
  unfold zcfgFeDalScheduleDelete
  cases hiid : convertIndextoIid table index reply with
  | error failed => exact Or.inl rfl
  | ok objIid =>
      have hrows : ∀ result : ZcfgRet × ScheduleTable,
          (match result with
            | (.deleteReject, stored) =>
                (ZcfgRet.deleteReject, { reply with
                  multiLangReplyMsg :=
                    some "zylang.SchedulerRule.delete_pcp_sch_err_msg".toList }, stored)
            | (ret, stored) => (ret, reply, stored)).2.2 = result.2 := by
        rintro ⟨ret, stored⟩
        cases ret <;> rfl
      simp only
      by_cases hdel : results.del = .success
      · right
        refine ⟨objIid, ?_⟩
        rw [StoreResults.del_of_success hdel]
      · left
        rw [StoreResults.del_of_failed hdel]
        exact hrows (results.del, table)

/-! ## Requests and the order of the table -/

theorem acceptedTimes_iff {startHour startMin stopHour stopMin : Option Int} :
    acceptedTimes startHour startMin stopHour stopMin = true ↔
      (∀ h, startHour = some h → 0 ≤ h ∧ h ≤ 23) ∧ (∀ m, startMin = some m → 0 ≤ m ∧ m ≤ 59) ∧
      (∀ h, stopHour = some h → 0 ≤ h ∧ h ≤ 23) ∧ (∀ m, stopMin = some m → 0 ≤ m ∧ m ≤ 59) := by
  simp [acceptedTimes, acceptedInt, Option.all_eq_true, and_assoc]

/-- A time that is filled in is one of the day. -/
theorem autofill_bounds {hour min : Option Int} (missing : Int × Int)
    (hhour : ∀ h, hour = some h → 0 ≤ h ∧ h ≤ 23) (hmin : ∀ m, min = some m → 0 ≤ m ∧ m ≤ 59)
    (hmissing : (0 ≤ missing.1 ∧ missing.1 ≤ 23) ∧ 0 ≤ missing.2 ∧ missing.2 ≤ 59) :
    (0 ≤ (autofill hour min missing).1 ∧ (autofill hour min missing).1 ≤ 23) ∧
      0 ≤ (autofill hour min missing).2 ∧ (autofill hour min missing).2 ≤ 59 := by
  unfold autofill
  split
  · rename_i h m
    exact ⟨hhour h rfl, hmin m rfl⟩
  · exact hmissing

theorem wholeDay_inDay (rule : Schedule) : InDay rule.wholeDay where
  startHour := by simp [Schedule.wholeDay]
  startMin := by simp [Schedule.wholeDay]
  stopHour := by simp [Schedule.wholeDay]
  stopMin := by simp [Schedule.wholeDay]
  before := by simp [Schedule.wholeDay]

/-- New rules start before they stop, whatever times the request has. -/
theorem addedSchedule_inDay {initial : Schedule} {req : SchedulePost}
    (haccepted : scheduleAccepted (.post req) = true) : InDay (addedSchedule initial req) := by
  obtain ⟨hstartHour, hstartMin, hstopHour, hstopMin⟩ := acceptedTimes_iff.mp haccepted
  unfold addedSchedule
  by_cases hperiod : (filledSchedule initial req).hasValidPeriod = true
  · simp only [hperiod, if_true]
    have hstart := autofill_bounds (0, 0) hstartHour hstartMin (by decide)
    have hstop := autofill_bounds (23, 59) hstopHour hstopMin (by decide)
    exact ⟨hstart.1, hstart.2, hstop.1, hstop.2, hasValidPeriod_iff.mp hperiod⟩
  · rw [if_neg hperiod]
    exact wholeDay_inDay _

theorem addedSchedule_name (initial : Schedule) (req : SchedulePost) :
    (addedSchedule initial req).name = req.name := by
  unfold addedSchedule
  by_cases hperiod : (filledSchedule initial req).hasValidPeriod = true
  · simp only [hperiod, if_true]
    rfl
  · rw [if_neg hperiod]
    rfl

/-- A field of a merged rule has the bounds that both the request and the old rule have. -/
theorem merged_bounds {field : Option Int} {old min max : Int}
    (hfield : ∀ v, field = some v → min ≤ v ∧ v ≤ max) (hold : min ≤ old ∧ old ≤ max) :
    min ≤ field.getD old ∧ field.getD old ≤ max := by
  cases field with
  | none => exact hold
  | some v => exact hfield v rfl

/-- A merged rule that passes the checks is as its table wants it. -/
theorem mergedSchedule_inDay {old : Schedule} {req : SchedulePut} (hold : InDay old)
    (haccepted : scheduleAccepted (.put req) = true)
    (hperiod : (mergedSchedule old req).hasValidPeriod = true) : InDay (mergedSchedule old req) := by
  obtain ⟨hstartHour, hstartMin, hstopHour, hstopMin⟩ := acceptedTimes_iff.mp haccepted
  exact ⟨merged_bounds hstartHour hold.startHour, merged_bounds hstartMin hold.startMin,
    merged_bounds hstopHour hold.stopHour, merged_bounds hstopMin hold.stopMin,
    hasValidPeriod_iff.mp hperiod⟩

theorem mergedSchedule_name {table : ScheduleTable} {objIid : InstNum} {old : Schedule}
    {req : SchedulePut} (hnames : table.AllPairs (fun a b => a.name ≠ b.name))
    (hold : (objIid, old) ∈ table.rows) (hfree : newNameTaken table objIid old req = false)
    {row : InstNum × Schedule} (hrow : row ∈ table.rows) (hne : row.1 ≠ objIid) :
    (mergedSchedule old req).name ≠ row.2.name := by
  have hother := hnames (objIid, old) hold row hrow hne.symm
  rw [mergedSchedule]
  cases hname : req.name with
  | none => exact hother
  | some newName =>
      rw [newNameTaken, hname] at hfree
      by_cases hsame : newName = old.name
      · exact hsame ▸ hother
      · have hnot : scheduleNameTaken table (some objIid) newName = false := by
          simpa [hsame] using hfree
        exact scheduleNameTaken_eq_false_iff.mp hnot row hrow (by simpa using hne)

/-- The requests that are looked at: accepted ones, and no {lit}`POST` that skips the check of its name. -/
def ScheduleChecked (request : ScheduleRequest) : Prop :=
  scheduleAccepted request = true ∧
    ∀ req, request = .post req → req.dontCheckDupName = false

/-- A request keeps the table in order. -/
theorem scheduleStep_inOrder {store : InstanceStore Schedule} {table : ScheduleTable}
    {request : ScheduleRequest} (h : ScheduleInOrder table) (hchecked : ScheduleChecked request) :
    ScheduleInOrder (scheduleStep store table request).2.2 := by
  cases request with
  | post req =>
      rcases scheduleAdd_cases store table req .empty with hsame | ⟨objIid, hfresh, hfree, hadded⟩
      · exact hsame.symm ▸ h
      have hnames := scheduleNameTaken_eq_false_iff.mp (hfree (hchecked.2 req rfl))
      change ScheduleInOrder (zcfgFeDalScheduleAdd store .succeed table req .empty).1.2.2
      rw [hadded]
      constructor
      · apply h.names.add (fun a b hab => hab.symm) hfresh
        intro row hrow
        rw [addedSchedule_name]
        exact hnames row hrow (by simp)
      · intro row hrow
        rcases KeyedTable.mem_add_iff.mp hrow with hrow | rfl
        · exact h.inDay row hrow
        · exact addedSchedule_inDay hchecked.1
  | put req =>
      rcases scheduleEdit_cases .succeed table req .empty with
        hsame | ⟨-, objIid, old, hold, hpass, hput⟩
      · exact hsame.symm ▸ h
      change ScheduleInOrder (zcfgFeDalScheduleEdit .succeed table req .empty).2.2
      rw [hput]
      constructor
      · rw [KeyedTable.allPairs_put_iff h.names (fun a b hab => hab.symm) hold]
        intro row hrow hne
        exact mergedSchedule_name h.names hold hpass.nameFree hrow hne
      · intro row hrow
        rcases KeyedTable.mem_put_iff.mp hrow with ⟨hrow, -⟩ | ⟨rfl, -⟩
        · exact h.inDay row hrow
        · exact mergedSchedule_inDay (h.inDay _ hold) hchecked.1 hpass.period
  | delete index =>
      rcases scheduleDelete_cases .succeed table index .empty with hsame | ⟨objIid, hdel⟩
      · exact hsame.symm ▸ h
      change ScheduleInOrder (zcfgFeDalScheduleDelete .succeed table index .empty).2.2
      rw [hdel]
      exact ⟨h.names.del objIid, fun row hrow => h.inDay row (KeyedTable.mem_del_iff.mp hrow).1⟩

/-- A {lit}`PUT` that is rejected changes nothing. -/
theorem schedulePut_rejected {store : InstanceStore Schedule} {table : ScheduleTable}
    {req : SchedulePut} (hret : (scheduleStep store table (.put req)).1 ≠ .success) :
    (scheduleStep store table (.put req)).2.2 = table := by
  rcases scheduleEdit_cases .succeed table req .empty with hsame | ⟨hsuccess, -⟩
  · exact hsame
  · exact absurd hsuccess hret

/-- A run keeps the table in order. -/
theorem scheduleRun_inOrder {store : InstanceStore Schedule} {table : ScheduleTable}
    (h : ScheduleInOrder table) {requests : List ScheduleRequest}
    (hchecked : ∀ request ∈ requests, ScheduleChecked request) :
    ScheduleInOrder (scheduleRun store table requests) := by
  unfold scheduleRun
  apply List.foldlRecOn requests _ h
  intro before hbefore request hrequest
  exact scheduleStep_inOrder hbefore (hchecked request hrequest)

/-- A request for a rule without times. -/
def plainPost (name : String) : SchedulePost where
  dontCheckDupName := false
  name := name.toList
  description := none
  days := none
  timeStartHour := none
  timeStartMin := none
  timeStopHour := none
  timeStopMin := none

end FeDal
end ZyxelRouter
