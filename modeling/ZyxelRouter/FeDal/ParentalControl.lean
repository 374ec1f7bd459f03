import ZyxelRouter.FeDal.Schedule
import ZyxelRouter.ZyUtil.CsvTerms

/-!
# The time ranges of a parental control profile

{lit}`parsePcpObject` lists the time ranges of the schedules that a profile names, without
{lit}`ZYXEL_HOME_CYBER_SECURITY`.  Behind the name of a schedule that does not exist its loop goes on with
the same name, and the ranges are appended to a buffer that has room for five.

Main results:

- Theorem {lit}`pcpLoop_of_found`: with schedules that all exist the loop ends.
- Theorem {lit}`found_of_pcpLoop`: where the loop ends they exist and fit.
- Theorem {lit}`pcpRight_iff`: when the ranges are listed.
-/

namespace ZyxelRouter
namespace FeDal

open Lib ZyUtil

/-! ## Schedules and profiles -/

/-- What {lit}`zcfgFeDalScheduleGet` puts into {lit}`Jarray` for a schedule, as far as it is read here. -/
structure ScheduleEntry where
  tr181Path : List Char
  days : List Char
  timeStartHour : Int
  timeStartMin : Int
  timeStopHour : Int
  timeStopMin : Int

/-- The texts of {lit}`schedule_days_int_to_string` and their bits. -/
def dayNames : List (String × Int) :=
  [("Mon,", 2), ("Tue,", 4), ("Wed,", 8), ("Thu,", 16), ("Fri,", 32), ("Sat,", 64), ("Sun,", 1)]

/-- {lit}`schedule_days_int_to_string`. -/
def scheduleDaysIntToString (days : Int) : List Char :=
  ((dayNames.filter (fun day => days / day.2 % 2 = 1)).flatMap (fun day => day.1.toList)).dropLast

/-- {lit}`zcfgFeDalScheduleGet` without an index. -/
def zcfgFeDalScheduleGet (table : ScheduleTable) : List ScheduleEntry :=
  table.rows.map fun row =>
    { tr181Path := "X_ZYXEL_Schedule.".toList ++ decimal row.1.val.toNat
      days := scheduleDaysIntToString row.2.days
      timeStartHour := row.2.timeStartHour
      timeStartMin := row.2.timeStartMin
      timeStopHour := row.2.timeStopHour
      timeStopMin := row.2.timeStopMin }

/-- The parameters of {lit}`RDM_OID_PAREN_CTL_PROF` that are read here. -/
structure ParenCtlProf where
  enable : Bool
  name : List Char
  webRedirect : Bool
  servicePolicy : List Char
  type : Nat
  macAddressList : List Char
  scheduleRuleList : List Char
  urlFilter : List Char
  networkServiceList : List Char

/-- What is added to {lit}`pramJobj`. -/
structure PcpParams where
  servicePolicy : List Char
  urlPolicy : List Char
  pcpName : List Char
  pcpEnable : Bool
  webRedirect : Bool
  macAddressList : List Char
  scheduleRuleList : List Char
  urlFilter : List Char
  networkServiceList : List Char
  timeRangeList : Option (List Char)
  days : Option (List Char)
deriving DecidableEq

/-! ## The function -/

/-- {lit}`"%02d"`. -/
def printTwoDigits (n : Int) : List Char :=
  if n < 0 then '-' :: decimal n.natAbs
  else if n < 10 then '0' :: decimal n.natAbs
  else decimal n.natAbs

/-- {lit}`"%02d:%02d-%02d:%02d"`. -/
def ScheduleEntry.timeRange (entry : ScheduleEntry) : List Char :=
  printTwoDigits entry.timeStartHour ++ ':' :: printTwoDigits entry.timeStartMin ++
    '-' :: printTwoDigits entry.timeStopHour ++ ':' :: printTwoDigits entry.timeStopMin

/-- The search for the schedule of a name. -/
def findSchedule (schJarray : List ScheduleEntry) (ptr : List Char) : Option ScheduleEntry :=
  schJarray.find? (fun entry => ptr = entry.tr181Path)

/-- How the loop ends: outside of {lit}`timeRange` or {lit}`timeRangeList`, or behind the last name with the
list of the ranges and {lit}`_day`. -/
inductive PcpOutcome where
  | outside
  | done (timeRangeList : List Char) (day : Option (List Char))
deriving DecidableEq

/-- The loop over the names. -/
def pcpLoop (schJarray : List ScheduleEntry) :
    Nat → List (List Char) → List Char → Option (List Char) → Option PcpOutcome
  | 0, _, _, _ => none
  | _ + 1, [], timeRangeList, day => some (.done timeRangeList day)
  | fuel + 1, ptr :: rest, timeRangeList, day =>
      match findSchedule schJarray ptr with
      -- {lit}`continue` comes in front of the next {lit}`strtok_r`
      | none => pcpLoop schJarray fuel (ptr :: rest) timeRangeList day
      | some entry =>
          if 16 ≤ entry.timeRange.length ∨
              64 ≤ (timeRangeList ++ (entry.timeRange ++ [','])).length then some .outside
          else
            pcpLoop schJarray fuel rest (timeRangeList ++ (entry.timeRange ++ [',']))
              (day.or (some entry.days))

/-- What is added to {lit}`pramJobj` in the end. -/
def pcpParams (prof : ParenCtlProf) (timeRangeList : List Char) (day : Option (List Char)) :
    PcpParams where
  servicePolicy := if prof.servicePolicy = "Drop".toList then "Block".toList else "Allow".toList
  urlPolicy := if prof.type = 0 then "Block".toList else "Allow".toList
  pcpName := prof.name
  pcpEnable := prof.enable
  webRedirect := prof.webRedirect
  macAddressList := prof.macAddressList
  scheduleRuleList := prof.scheduleRuleList
  urlFilter := prof.urlFilter
  networkServiceList := prof.networkServiceList
  timeRangeList := if timeRangeList ≠ [] then some timeRangeList.dropLast else none
  days := if timeRangeList ≠ [] then some (day.getD []) else none

/-- {lit}`parsePcpObject`: {lit}`none` if the fuel runs out, and nothing inside if memory outside of the buffers
is written. -/
def parsePcpObject (table : ScheduleTable) (prof : ParenCtlProf) (fuel : Nat) :
    Option (Option PcpParams) :=
  if 128 ≤ prof.scheduleRuleList.length then some none
  else
    match pcpLoop (zcfgFeDalScheduleGet table) fuel (strtok ',' prof.scheduleRuleList) [] none with
    | none => none
    | some .outside => some none
    | some (.done timeRangeList day) => some (some (pcpParams prof timeRangeList day))

/-! ## What it is for -/

/-- The time ranges of the schedules that a profile names and that exist, in the order of the names. -/
def listedRanges (table : ScheduleTable) (prof : ParenCtlProf) : List (List Char) :=
  (strtok ',' prof.scheduleRuleList).filterMap fun ptr =>
    (findSchedule (zcfgFeDalScheduleGet table) ptr).map ScheduleEntry.timeRange

/-- The function comes to an end inside of its buffers, and lists the ranges if there are any. -/
def PcpRight (table : ScheduleTable) (prof : ParenCtlProf) : Prop :=
  ∃ params, (∃ enough, ∀ fuel, enough ≤ fuel → parsePcpObject table prof fuel = some (some params)) ∧
    (listedRanges table prof ≠ [] →
      params.timeRangeList = some (csvOf (listedRanges table prof)))

/-- Hours and minutes of at most two digits. -/
def TwoDigitTimes (table : ScheduleTable) : Prop :=
  ∀ row ∈ table.rows, (0 ≤ row.2.timeStartHour ∧ row.2.timeStartHour ≤ 99) ∧
    (0 ≤ row.2.timeStartMin ∧ row.2.timeStartMin ≤ 99) ∧
    (0 ≤ row.2.timeStopHour ∧ row.2.timeStopHour ≤ 99) ∧
    (0 ≤ row.2.timeStopMin ∧ row.2.timeStopMin ≤ 99)

/-! ## Ranges -/

variable {table : ScheduleTable} {prof : ParenCtlProf} {schJarray : List ScheduleEntry}
  {tokens : List (List Char)} {timeRangeList : List Char} {day day' : Option (List Char)}

theorem length_printTwoDigits {n : Int} (hlo : 0 ≤ n) (hhi : n ≤ 99) :
    (printTwoDigits n).length = 2 := by
  obtain ⟨k, rfl⟩ := Int.eq_ofNat_of_zero_le hlo
  have hall : ∀ k < 100, (printTwoDigits (k : Nat)).length = 2 := by decide +kernel
  exact hall k (by omega)

/-- The ranges have eleven characters. -/
theorem length_timeRange (htimes : TwoDigitTimes table) {ptr : List Char} {entry : ScheduleEntry}
    (hentry : findSchedule (zcfgFeDalScheduleGet table) ptr = some entry) :
    entry.timeRange.length = 11 := by
  obtain ⟨row, hrow, rfl⟩ := List.mem_map.mp (List.mem_of_find?_eq_some hentry)
  obtain ⟨h1, h2, h3, h4⟩ := htimes row hrow
  simp only [ScheduleEntry.timeRange, List.length_append, List.length_cons,
    length_printTwoDigits h1.1 h1.2, length_printTwoDigits h2.1 h2.2,
    length_printTwoDigits h3.1 h3.2, length_printTwoDigits h4.1 h4.2]

/-! ## The loop -/

/-- Five ranges fit. -/
theorem pcpLoop_of_found
    (helevens : ∀ ptr entry, findSchedule schJarray ptr = some entry → entry.timeRange.length = 11)
    (hfound : ∀ ptr ∈ tokens, findSchedule schJarray ptr ≠ none)
    (hfits : timeRangeList.length + 12 * tokens.length < 64) :
    ∃ day', ∀ fuel, tokens.length < fuel → pcpLoop schJarray fuel tokens timeRangeList day =
      some (.done (timeRangeList ++ csvBefore (tokens.filterMap fun ptr =>
        (findSchedule schJarray ptr).map ScheduleEntry.timeRange)) day') := by
  induction tokens generalizing timeRangeList day with
  | nil =>
      refine ⟨day, fun fuel hfuel => ?_⟩
      obtain ⟨fuel, rfl⟩ := Nat.exists_eq_succ_of_ne_zero (by omega : fuel ≠ 0)
      simp [pcpLoop, csvBefore]
  | cons ptr rest ih =>
      rw [List.length_cons] at hfits
      obtain ⟨entry, hentry⟩ := Option.ne_none_iff_exists'.mp (hfound ptr List.mem_cons_self)
      have hlen := helevens ptr entry hentry
      have hnew : (timeRangeList ++ (entry.timeRange ++ [','])).length = timeRangeList.length + 12 := by
        simp only [List.length_append, List.length_singleton, hlen]
      obtain ⟨day', hrest⟩ := @ih (timeRangeList ++ (entry.timeRange ++ [','])) (day.or (some entry.days))
        (fun ptr' hptr' => hfound ptr' (List.mem_cons_of_mem ptr hptr')) (by rw [hnew]; omega)
      refine ⟨day', fun fuel hfuel => ?_⟩
      rw [List.length_cons] at hfuel
      obtain ⟨fuel, rfl⟩ := Nat.exists_eq_succ_of_ne_zero (by omega : fuel ≠ 0)
      rw [pcpLoop, hentry]
      simp only
      rw [if_neg (by omega), hrest fuel (by omega)]
      simp [hentry, csvBefore]

/-- Where the loop comes behind the last name, the schedules exist, and their ranges fit. -/
theorem found_of_pcpLoop
    (helevens : ∀ ptr entry, findSchedule schJarray ptr = some entry → entry.timeRange.length = 11)
    {fuel : Nat} {ranges : List Char}
    (hloop : pcpLoop schJarray fuel tokens timeRangeList day = some (.done ranges day')) :
    (∀ ptr ∈ tokens, findSchedule schJarray ptr ≠ none) ∧
      (tokens ≠ [] → timeRangeList.length + 12 * tokens.length < 64) := by
  induction fuel generalizing tokens timeRangeList day with
  | zero => cases hloop
  | succ fuel ih =>
      cases tokens with
      | nil => exact ⟨fun ptr hptr => absurd hptr List.not_mem_nil, fun hne => absurd rfl hne⟩
      | cons ptr rest =>
          rw [pcpLoop] at hloop
          cases hentry : findSchedule schJarray ptr with
          | none =>
              rw [hentry] at hloop
              exact absurd hentry ((ih hloop).1 ptr List.mem_cons_self)
          | some entry =>
              have hlen := helevens ptr entry hentry
              have hnew : (timeRangeList ++ (entry.timeRange ++ [','])).length =
                  timeRangeList.length + 12 := by
                simp only [List.length_append, List.length_singleton, hlen]
              rw [hentry] at hloop
              simp only at hloop
              split at hloop
              · cases hloop
              · rename_i hfits
                obtain ⟨hfound, hrest⟩ := ih hloop
                constructor
                · rw [List.forall_mem_cons, hentry]
                  exact ⟨Option.some_ne_none entry, hfound⟩
                · intro _
                  rw [List.length_cons]
                  by_cases hnil : rest = []
                  · rw [hnil, List.length_nil]
                    omega
                  · have := hrest hnil
                    omega

/-! ## Profiles -/

theorem pcpParams_timeRangeList (hne : timeRangeList ≠ []) :
    (pcpParams prof timeRangeList day).timeRangeList = some timeRangeList.dropLast := by
  rw [pcpParams]
  exact if_pos hne

/-- The ranges are listed exactly if all schedules that the profile names exist, and it names at most
five. -/
theorem pcpRight_iff (htimes : TwoDigitTimes table) (hlist : prof.scheduleRuleList.length ≤ 127) :
    PcpRight table prof ↔
      (∀ ptr ∈ strtok ',' prof.scheduleRuleList,
        ∃ entry ∈ zcfgFeDalScheduleGet table, ptr = entry.tr181Path) ∧
      (strtok ',' prof.scheduleRuleList).length ≤ 5 := by
  have helevens : ∀ ptr entry, findSchedule (zcfgFeDalScheduleGet table) ptr = some entry →
      entry.timeRange.length = 11 := fun _ _ => length_timeRange htimes
  have hexists : ∀ ptr, findSchedule (zcfgFeDalScheduleGet table) ptr ≠ none ↔
      ∃ entry ∈ zcfgFeDalScheduleGet table, ptr = entry.tr181Path := by
    intro ptr
    rw [findSchedule, Ne, List.find?_eq_none]
    simp
  have hshort : ¬ 128 ≤ prof.scheduleRuleList.length := by omega
  constructor
  · rintro ⟨params, ⟨enough, hends⟩, -⟩
    have hout := hends enough (Nat.le_refl enough)
    rw [parsePcpObject, if_neg hshort] at hout
    split at hout
    · cases hout
    · cases hout
    · rename_i ranges day hloop
      obtain ⟨hfound, hfits⟩ := found_of_pcpLoop helevens hloop
      constructor
      · exact fun ptr hptr => (hexists ptr).mp (hfound ptr hptr)
      · by_cases hnil : strtok ',' prof.scheduleRuleList = []
        · simp [hnil]
        · have := hfits hnil
          rw [List.length_nil] at this
          omega
  · rintro ⟨hall, hfive⟩
    have hfound : ∀ ptr ∈ strtok ',' prof.scheduleRuleList,
        findSchedule (zcfgFeDalScheduleGet table) ptr ≠ none :=
      fun ptr hptr => (hexists ptr).mpr (hall ptr hptr)
    obtain ⟨day, hloop⟩ := @pcpLoop_of_found (zcfgFeDalScheduleGet table)
      (strtok ',' prof.scheduleRuleList) [] none helevens hfound (by rw [List.length_nil]; omega)
    rw [← listedRanges, List.nil_append] at hloop
    refine ⟨pcpParams prof (csvBefore (listedRanges table prof)) day,
      ⟨(strtok ',' prof.scheduleRuleList).length + 1, fun fuel hfuel => ?_⟩, ?_⟩
    · rw [parsePcpObject, if_neg hshort, hloop fuel (by omega)]
    · intro hranges
      rcases List.eq_nil_or_concat (listedRanges table prof) with hnil | ⟨init, last, hconcat⟩
      · exact absurd hnil hranges
      · rw [List.concat_eq_append] at hconcat
        rw [hconcat, csvBefore_concat, pcpParams_timeRangeList (by simp), List.dropLast_concat]

/-- The first schedule is for the morning. -/
def morningTable : ScheduleTable where
  rows := [(⟨1, InstNum.one_ne⟩,
    { enable := true, name := "Morning".toList, description := [], days := 62, timeStartHour := 7,
      timeStartMin := 5, timeStopHour := 8, timeStopMin := 30 })]
  nodup := by decide

/-- A profile with a list of schedules. -/
def profileOf (scheduleRuleList : String) : ParenCtlProf where
  enable := true
  name := "Kid".toList
  webRedirect := false
  servicePolicy := "Drop".toList
  type := 0
  macAddressList := []
  scheduleRuleList := scheduleRuleList.toList
  urlFilter := []
  networkServiceList := []

theorem morningTable_twoDigits : TwoDigitTimes morningTable := by
  intro row hrow
  obtain rfl := List.mem_singleton.mp hrow
  decide

/-- The morning is listed. -/
theorem pcpRight_morning : PcpRight morningTable (profileOf "X_ZYXEL_Schedule.1") := by
  apply (pcpRight_iff morningTable_twoDigits (by decide +kernel)).mpr
  have htokens : strtok ',' (profileOf "X_ZYXEL_Schedule.1").scheduleRuleList =
      ["X_ZYXEL_Schedule.1".toList] := by
    decide +kernel
  rw [htokens]
  constructor
  · intro ptr hptr
    obtain rfl := List.mem_singleton.mp hptr
    exact ⟨_, List.mem_cons_self, by decide +kernel⟩
  · decide

/-- With a schedule that does not exist the function never ends, and the sixth range does not fit. -/
theorem dangling_schedule :
    (∀ fuel, parsePcpObject morningTable (profileOf "X_ZYXEL_Schedule.2") fuel = none) ∧
      parsePcpObject morningTable (profileOf ("X_ZYXEL_Schedule.1,X_ZYXEL_Schedule.1," ++
        "X_ZYXEL_Schedule.1,X_ZYXEL_Schedule.1,X_ZYXEL_Schedule.1,X_ZYXEL_Schedule.1")) 7 =
          some none := by
  constructor
  · have hstuck : ∀ fuel, pcpLoop (zcfgFeDalScheduleGet morningTable) fuel
        ["X_ZYXEL_Schedule.2".toList] [] none = none := by
      intro fuel
      induction fuel with
      | zero => rfl
      | succ fuel ih =>
          have hmissing : findSchedule (zcfgFeDalScheduleGet morningTable)
              "X_ZYXEL_Schedule.2".toList = none := by
            decide +kernel
          rw [pcpLoop, hmissing]
          exact ih
    have htokens : strtok ',' (profileOf "X_ZYXEL_Schedule.2").scheduleRuleList =
        ["X_ZYXEL_Schedule.2".toList] := by
      decide +kernel
    intro fuel
    rw [parsePcpObject, if_neg (by decide +kernel), htokens, hstuck fuel]
  · decide +kernel

end FeDal
end ZyxelRouter
