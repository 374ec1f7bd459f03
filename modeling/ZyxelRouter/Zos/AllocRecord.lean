import Mathlib.Data.List.Count
import ZyxelRouter.Lib.Bytes
import ZyxelRouter.Lib.Decimal
import ZyxelRouter.Lib.KeyedTable
import ZyxelRouter.Lib.StepRuns

/-!
# Records of allocations

With the detection of memory leaks two objects are kept: {lit}`ZcfgAllocAddrRecordJobj` has the lines that
were recorded for each address, and {lit}`ZcfgAllocLineRecordJobj` counts the records of each line.  Of the
allocations of json-c only those whose outcome the code tests may fail, which are the objects themselves.

Main results:

- Theorem {lit}`count_freeLines`: what the loop of {lit}`_ZOS_FREE` takes from the counts.
- Theorem {lit}`recordAllocData_agrees_iff`: when a record leaves the objects in agreement.
- Theorem {lit}`zosFree_agrees_iff`: when the release of an address does.
- Theorem {lit}`allocRecords_iff`: the runs in which the objects always agree.
-/

namespace ZyxelRouter
namespace Zos

open Lib

/-! ## The objects -/

/-- The object of an address: {lit}`FileLine` and {lit}`Size`. -/
structure AddrRecord where
  fileLine : List (List Char)
  size : Int
deriving DecidableEq, Repr

/-- {lit}`ZcfgAllocAddrRecordJobj` and {lit}`ZcfgAllocLineRecordJobj`, which may be null pointers. -/
structure AllocRecords where
  addr : Option (KeyedTable (List Char) AddrRecord)
  line : Option (KeyedTable (List Char) Int)

/-- Before the first call. -/
def AllocRecords.init : AllocRecords where
  addr := none
  line := none

/-- {lit}`json_object_get_int` of a member of {lit}`ZcfgAllocLineRecordJobj`; it is zero for a null
pointer. -/
def allocCnt (line : KeyedTable (List Char) Int) (fileLine : List Char) : Int :=
  (line.get fileLine).getD 0

/-- The first part of {lit}`recordAllocData`. -/
def recordAddr (pointerAddr fileLine : List Char) (size : Int)
    (addr : KeyedTable (List Char) AddrRecord) : KeyedTable (List Char) AddrRecord :=
  match addr.get pointerAddr with
  | none => addr.set pointerAddr { fileLine := [fileLine], size := size }
  | some pointerAddrObj =>
      addr.put pointerAddr
        { pointerAddrObj with fileLine := pointerAddrObj.fileLine ++ [fileLine] }

/-- The objects are made where they are null pointers; {lit}`newAddr` and {lit}`newLine` tell whether
{lit}`json_object_new_object` returns one. -/
def makeObjects (newAddr newLine : Bool) (r : AllocRecords) : AllocRecords where
  addr := if r.addr.isNone && newAddr then some KeyedTable.empty else r.addr
  line := if r.line.isNone && newLine then some KeyedTable.empty else r.line

/-- {lit}`recordAllocData`; the result is {lit}`none` if the count leaves the range of an {lit}`int`. -/
def recordAllocData (newAddr newLine : Bool) (pointerAddr fileLine : List Char) (size : Int)
    (r : AllocRecords) : Option AllocRecords :=
  let r := makeObjects newAddr newLine r
  let addr := r.addr.map (recordAddr pointerAddr fileLine size)
  match r.line with
  | none => some { addr := addr, line := none }
  | some line =>
      if intMax < allocCnt line fileLine + 1 then none
      else some { addr := addr, line := some (line.set fileLine (allocCnt line fileLine + 1)) }

/-- The body of the loop of {lit}`_ZOS_FREE`. -/
def freeLine (line : Option (KeyedTable (List Char) Int)) (fileLine : List Char) :
    Option (KeyedTable (List Char) Int) :=
  match line with
  | none => none
  | some line =>
      if fileLine = [] then some line
      else if 0 < allocCnt line fileLine - 1 then
        some (line.set fileLine (allocCnt line fileLine - 1))
      else some (line.del fileLine)

/-- The {lit}`int` that the length of an array is stored in. -/
def arrayLen (fileLineArray : List (List Char)) : Int :=
  (fileLineArray.length : Int).bmod (2 ^ 32)

/-- {lit}`%p` of a pointer that is not null. -/
def pointerText (obj : Nat) : List Char :=
  '0' :: 'x' :: Nat.toDigits 16 obj

/-- {lit}`ZCFG_ALLOC_RECORD_LEN`. -/
def zcfgAllocRecordLen : Nat := 64

/-- The line of a file that is recorded, {lit}`%s:%d`. -/
def fileLineText (fileName : List Char) (line : Int) : List Char :=
  fileName ++ ':' :: (if line < 0 then '-' :: decimal line.natAbs else decimal line.natAbs)

/-- {lit}`recordZcfgAllocData`, and what {lit}`_ZOS_MALLOC` does behind {lit}`calloc`; the result is
{lit}`none` also if the line does not fit into its buffer. -/
def recordZcfgAllocData (newAddr newLine : Bool) (addr : Option Nat) (fileName : List Char)
    (line size : Int) (r : AllocRecords) : Option AllocRecords :=
  match addr with
  | none => some r
  | some addr =>
      if zcfgAllocRecordLen ≤ (fileLineText fileName line).length then none
      else recordAllocData newAddr newLine (pointerText addr) (fileLineText fileName line) size r

/-- {lit}`_ZOS_FREE`. -/
def zosFree (obj : Option Nat) (r : AllocRecords) : AllocRecords :=
  match obj, r.addr with
  | some obj, some addr =>
      let line :=
        match addr.get (pointerText obj) with
        | none => r.line
        | some pointerAddrObj =>
            (pointerAddrObj.fileLine.take (arrayLen pointerAddrObj.fileLine).toNat).foldl freeLine r.line
      { addr := some (addr.del (pointerText obj)), line := line }
  | _, _ => r

/-! ## Runs -/

/-- A call of {lit}`recordAllocData` or of {lit}`_ZOS_FREE`. -/
inductive AllocEvent where
  | record (newAddr newLine : Bool) (pointerAddr fileLine : List Char) (size : Int)
  | free (obj : Option Nat)
deriving DecidableEq, Repr

/-- What a call makes of the objects. -/
def AllocEvent.apply (r : AllocRecords) : AllocEvent → Option AllocRecords
  | .record newAddr newLine pointerAddr fileLine size =>
      recordAllocData newAddr newLine pointerAddr fileLine size r
  | .free obj => some (zosFree obj r)

/-- A call behind others, none of which has left the range of an {lit}`int`. -/
def allocStep (r : Option AllocRecords) (event : AllocEvent) : Option AllocRecords :=
  r.bind (fun r => event.apply r)

/-- The count of a line, which is zero if there is none. -/
def lineCount (line : Option (KeyedTable (List Char) Int)) (fileLine : List Char) : Int :=
  match line with
  | none => 0
  | some line => allocCnt line fileLine

/-- How often a line is recorded for the addresses that are there. -/
def recordedCount (addr : Option (KeyedTable (List Char) AddrRecord)) (fileLine : List Char) : Nat :=
  match addr with
  | none => 0
  | some addr => (addr.contents AddrRecord.fileLine).count fileLine

/-- The counts are those of the lines that are recorded. -/
def AllocRecords.Agrees (r : AllocRecords) : Prop :=
  ∀ fileLine, lineCount r.line fileLine = recordedCount r.addr fileLine

/-- The call has left the objects in agreement. -/
def RecordsAgree (r : Option AllocRecords) : Prop :=
  ∃ r', r = some r' ∧ r'.Agrees

/-- What a call has to meet: both objects are there or none is, the count stays an {lit}`int`, and the lines of
an address that is released are not empty and not too many. -/
def AllocFits (r : AllocRecords) : AllocEvent → Prop
  | .record newAddr newLine _ fileLine _ =>
      ((r.addr.isSome || newAddr) = (r.line.isSome || newLine)) ∧ lineCount r.line fileLine < intMax
  | .free none => True
  | .free (some obj) =>
      ∀ addr ∈ r.addr, ∀ pointerAddrObj ∈ addr.get (pointerText obj),
        [] ∉ pointerAddrObj.fileLine ∧ pointerAddrObj.fileLine.length ≤ intMax

/-! ## Recording -/

variable {r : AllocRecords} {line : KeyedTable (List Char) Int}
  {addr : KeyedTable (List Char) AddrRecord} {pointerAddrObj : AddrRecord}
  {newAddr newLine : Bool} {pointerAddr fileLine key : List Char} {size : Int}

theorem allocCnt_set (line : KeyedTable (List Char) Int) (fileLine key : List Char) (n : Int) :
    allocCnt (line.set fileLine n) key = if key = fileLine then n else allocCnt line key := by
  rw [allocCnt, KeyedTable.get_set]
  split
  · rfl
  · rfl

theorem allocCnt_del (line : KeyedTable (List Char) Int) (fileLine key : List Char) :
    allocCnt (line.del fileLine) key = if key = fileLine then 0 else allocCnt line key := by
  rw [allocCnt, KeyedTable.get_del]
  split
  · rfl
  · rfl

/-- One more line is recorded. -/
theorem recordedCount_recordAddr (addr : KeyedTable (List Char) AddrRecord)
    (pointerAddr fileLine key : List Char) (size : Int) :
    recordedCount (some (recordAddr pointerAddr fileLine size addr)) key =
      recordedCount (some addr) key + [fileLine].count key := by
  rw [recordedCount, recordedCount, recordAddr]
  cases hget : addr.get pointerAddr with
  | none =>
      have hfresh : pointerAddr ∉ addr.rows.map Prod.fst := by
        intro hmem
        obtain ⟨row, hrow, rfl⟩ := List.mem_map.mp hmem
        have hsome : addr.get row.1 = some row.2 := KeyedTable.get_eq_some_iff.mpr hrow
        rw [hget] at hsome
        cases hsome
      simp only
      rw [KeyedTable.set, dif_neg hfresh, KeyedTable.count_contents_add]
  | some pointerAddrObj =>
      have hput := KeyedTable.count_contents_put (a :=
        { pointerAddrObj with fileLine := pointerAddrObj.fileLine ++ [fileLine] }) hget
        AddrRecord.fileLine key
      simp only [List.count_append] at hput ⊢
      omega

theorem lineCount_makeObjects (newAddr newLine : Bool) (r : AllocRecords) (key : List Char) :
    lineCount (makeObjects newAddr newLine r).line key = lineCount r.line key := by
  rw [makeObjects]
  cases r.line with
  | none =>
      cases newLine with
      | false => rfl
      | true => rfl
  | some line => rfl

theorem recordedCount_makeObjects (newAddr newLine : Bool) (r : AllocRecords) (key : List Char) :
    recordedCount (makeObjects newAddr newLine r).addr key = recordedCount r.addr key := by
  rw [makeObjects]
  cases r.addr with
  | none =>
      cases newAddr with
      | false => rfl
      | true => rfl
  | some addr => rfl

theorem isSome_makeObjects (newAddr newLine : Bool) (r : AllocRecords) :
    (makeObjects newAddr newLine r).addr.isSome = (r.addr.isSome || newAddr) ∧
      (makeObjects newAddr newLine r).line.isSome = (r.line.isSome || newLine) := by
  rw [makeObjects]
  constructor
  · cases r.addr with
    | none =>
        cases newAddr with
        | false => rfl
        | true => rfl
    | some addr => rfl
  · cases r.line with
    | none =>
        cases newLine with
        | false => rfl
        | true => rfl
    | some line => rfl

theorem recordsAgree_some : RecordsAgree (some r) ↔ r.Agrees := by
  constructor
  · rintro ⟨r', hsome, hagrees⟩
    exact Option.some.inj hsome ▸ hagrees
  · exact fun hagrees => ⟨r, rfl, hagrees⟩

theorem not_recordsAgree_none : ¬ RecordsAgree none := by
  rintro ⟨r', hnone, -⟩
  cases hnone

theorem count_singleton (fileLine key : List Char) :
    ([fileLine].count key : Int) = if key = fileLine then 1 else 0 := by
  rw [List.count_singleton]
  by_cases hkey : key = fileLine
  · simp [hkey]
  · have hne : (fileLine == key) = false := beq_false_of_ne (Ne.symm hkey)
    simp [hkey, hne]

/-- A line is recorded in both objects. -/
theorem record_agrees (hagree : ∀ key, allocCnt line key = recordedCount (some addr) key)
    (pointerAddr fileLine : List Char) (size : Int) :
    AllocRecords.Agrees { addr := some (recordAddr pointerAddr fileLine size addr)
                          line := some (line.set fileLine (allocCnt line fileLine + 1)) } := by
  intro key
  simp only [lineCount]
  rw [recordedCount_recordAddr, allocCnt_set, Int.natCast_add, count_singleton, ← hagree key]
  by_cases hkey : key = fileLine
  · rw [if_pos hkey, if_pos hkey, hkey]
  · rw [if_neg hkey, if_neg hkey, Int.add_zero]

/-- A line that is counted, but recorded for no address. -/
theorem not_agrees_counted (hzero : allocCnt line fileLine = 0) :
    ¬ AllocRecords.Agrees { addr := none
                            line := some (line.set fileLine (allocCnt line fileLine + 1)) } := by
  intro hagrees
  have hone : allocCnt (line.set fileLine (allocCnt line fileLine + 1)) fileLine = 0 :=
    hagrees fileLine
  rw [allocCnt_set, if_pos rfl] at hone
  omega

/-- A line that is recorded, but not counted. -/
theorem not_agrees_recorded (addr : KeyedTable (List Char) AddrRecord)
    (pointerAddr fileLine : List Char) (size : Int) :
    ¬ AllocRecords.Agrees { addr := some (recordAddr pointerAddr fileLine size addr), line := none } := by
  intro hagrees
  have hzero : (0 : Int) = recordedCount (some (recordAddr pointerAddr fileLine size addr)) fileLine :=
    hagrees fileLine
  rw [recordedCount_recordAddr, Int.natCast_add, count_singleton, if_pos rfl] at hzero
  omega

/-- A record leaves the objects in agreement exactly if both are there or none is, and the count stays an
{lit}`int`. -/
theorem recordAllocData_agrees_iff (h : r.Agrees) (pointerAddr : List Char) (size : Int) :
    RecordsAgree (recordAllocData newAddr newLine pointerAddr fileLine size r) ↔
      AllocFits r (.record newAddr newLine pointerAddr fileLine size) := by
  obtain ⟨haddr, hline⟩ := isSome_makeObjects newAddr newLine r
  have hagree : ∀ key, lineCount (makeObjects newAddr newLine r).line key =
      recordedCount (makeObjects newAddr newLine r).addr key := by
    intro key
    rw [lineCount_makeObjects, recordedCount_makeObjects]
    exact h key
  rw [AllocFits, ← haddr, ← hline, ← lineCount_makeObjects newAddr newLine r, recordAllocData]
  generalize makeObjects newAddr newLine r = made at hagree ⊢
  obtain ⟨addr, line⟩ := made
  cases addr with
  | none =>
      cases line with
      | none =>
          have hzero : (0 : Int) < intMax := by decide
          exact iff_of_true (recordsAgree_some.mpr fun _ => rfl) ⟨rfl, hzero⟩
      | some line =>
          refine iff_of_false ?_ (fun hfits => nomatch hfits.1)
          have hzero : allocCnt line fileLine = 0 := hagree fileLine
          have hmax : ¬ intMax < allocCnt line fileLine + 1 := by
            rw [hzero]
            decide
          simp only [if_neg hmax]
          rw [recordsAgree_some]
          exact not_agrees_counted hzero
  | some addr =>
      cases line with
      | none =>
          refine iff_of_false ?_ (fun hfits => nomatch hfits.1)
          rw [recordsAgree_some]
          exact not_agrees_recorded addr pointerAddr fileLine size
      | some line =>
          by_cases hmax : intMax < allocCnt line fileLine + 1
          · simp only [if_pos hmax]
            refine iff_of_false not_recordsAgree_none ?_
            rintro ⟨-, hlt⟩
            have hlt : allocCnt line fileLine < intMax := hlt
            omega
          · simp only [if_neg hmax]
            refine iff_of_true (recordsAgree_some.mpr ?_) ⟨rfl, ?_⟩
            · exact record_agrees hagree pointerAddr fileLine size
            · change allocCnt line fileLine < intMax
              omega

/-! ## Releasing -/

theorem count_cons_line (fileLine : List Char) (lines : List (List Char)) (key : List Char) :
    ((fileLine :: lines).count key : Int) = (if key = fileLine then 1 else 0) + lines.count key := by
  rw [← List.singleton_append, List.count_append, Int.natCast_add, count_singleton]

theorem freeLine_nil (line : Option (KeyedTable (List Char) Int)) : freeLine line [] = line := by
  cases line with
  | none => rfl
  | some line => rfl

/-- A line that is counted is taken from its count, which is removed with the last one. -/
theorem lineCount_freeLine {line : Option (KeyedTable (List Char) Int)} (hsome : fileLine ≠ [])
    (hpos : 0 < lineCount line fileLine) (key : List Char) :
    lineCount (freeLine line fileLine) key =
      lineCount line key - if key = fileLine then 1 else 0 := by
  cases line with
  | none => exact absurd hpos (Int.lt_irrefl 0)
  | some line =>
      have hcount : 0 < allocCnt line fileLine := hpos
      simp only [freeLine, if_neg hsome]
      by_cases hmore : 0 < allocCnt line fileLine - 1
      · rw [if_pos hmore]
        simp only [lineCount]
        rw [allocCnt_set]
        by_cases hkey : key = fileLine
        · rw [if_pos hkey, if_pos hkey, hkey]
        · rw [if_neg hkey, if_neg hkey, Int.sub_zero]
      · rw [if_neg hmore]
        simp only [lineCount]
        rw [allocCnt_del]
        by_cases hkey : key = fileLine
        · rw [if_pos hkey, if_pos hkey, hkey]
          omega
        · rw [if_neg hkey, if_neg hkey, Int.sub_zero]

/-- The loop takes each line that is not empty from its count. -/
theorem count_freeLines {lines : List (List Char)} :
    ∀ {line : Option (KeyedTable (List Char) Int)},
      (∀ key, ((lines.filter (· ≠ [])).count key : Int) ≤ lineCount line key) →
      ∀ key, lineCount (lines.foldl freeLine line) key =
        lineCount line key - (lines.filter (· ≠ [])).count key := by
  induction lines with
  | nil =>
      intro line _ key
      simp
  | cons fileLine lines ih =>
      intro line hle key
      rw [List.foldl_cons]
      by_cases hempty : fileLine = []
      · subst hempty
        rw [List.filter_cons_of_neg (by simp)] at hle ⊢
        rw [freeLine_nil]
        exact ih hle key
      · rw [List.filter_cons_of_pos (by simp [hempty])] at hle ⊢
        have hpos : 0 < lineCount line fileLine := by
          have hfirst := hle fileLine
          rw [count_cons_line, if_pos rfl] at hfirst
          omega
        have hrest : ∀ key, ((lines.filter (· ≠ [])).count key : Int) ≤
            lineCount (freeLine line fileLine) key := by
          intro key
          have hkey := hle key
          rw [count_cons_line] at hkey
          rw [lineCount_freeLine hempty hpos]
          omega
        rw [ih hrest key, lineCount_freeLine hempty hpos, count_cons_line]
        omega

theorem arrayLen_of_le {lines : List (List Char)} (h : lines.length ≤ intMax) :
    (arrayLen lines).toNat = lines.length := by
  have hlen : arrayLen lines = lines.length := by
    apply Int.bmod_eq_of_le
    · omega
    · unfold intMax at h
      omega
  rw [hlen, Int.toNat_natCast]

/-- Of an array whose length is no {lit}`int` the last elements are left out. -/
theorem arrayLen_of_lt {lines : List (List Char)} (h : intMax < lines.length) :
    (arrayLen lines).toNat < lines.length := by
  have hbound : arrayLen lines < ((2 ^ 32 : Nat) + 1) / 2 := Int.bmod_lt (Nat.two_pow_pos 32)
  unfold intMax at h
  omega

theorem count_taken_le (lines : List (List Char)) (n : Nat) (key : List Char) :
    ((lines.take n).filter (· ≠ [])).count key ≤ (lines.take n).count key :=
  List.filter_sublist.count_le key

/-- What the loop takes away is all that was recorded exactly if no line is empty and the length of the array
is an {lit}`int`. -/
theorem taken_iff (lines : List (List Char)) :
    (∀ key, ((lines.take (arrayLen lines).toNat).filter (· ≠ [])).count key = lines.count key) ↔
      [] ∉ lines ∧ lines.length ≤ intMax := by
  constructor
  · intro hall
    constructor
    · intro hempty
      have hnone := hall []
      rw [List.count_eq_zero_of_not_mem (by simp)] at hnone
      have hpos := List.count_pos_iff.mpr hempty
      omega
    · by_contra hlong
      have hlt := arrayLen_of_lt (Int.not_le.mp hlong)
      generalize (arrayLen lines).toNat = n at hall hlt
      -- the first line behind the loop is left
      have hsame := hall lines[n]
      have hfront := count_taken_le lines n lines[n]
      have hsplit := congrArg (List.count lines[n]) (List.take_append_drop n lines)
      rw [List.count_append] at hsplit
      have hback : 0 < (lines.drop n).count lines[n] := by
        rw [List.count_pos_iff, List.drop_eq_getElem_cons hlt]
        exact List.mem_cons_self
      omega
  · rintro ⟨hsome, hle⟩ key
    have hkeep : lines.filter (· ≠ []) = lines := by
      rw [List.filter_eq_self]
      intro fileLine hmem
      have hne : fileLine ≠ [] := fun heq => hsome (heq ▸ hmem)
      simpa using hne
    rw [arrayLen_of_le hle, List.take_length, hkeep]

/-- The release of an address leaves the objects in agreement exactly if its lines are not empty and not too
many. -/
theorem zosFree_agrees_iff (h : r.Agrees) (obj : Option Nat) :
    (zosFree obj r).Agrees ↔ AllocFits r (.free obj) := by
  obtain ⟨addr, line⟩ := r
  cases obj with
  | none => exact iff_of_true h trivial
  | some obj =>
      cases addr with
      | none => exact iff_of_true h (fun _ haddr => nomatch haddr)
      | some addr =>
          simp only [AllocFits, Option.mem_def, Option.some.injEq, forall_eq']
          cases hget : addr.get (pointerText obj) with
          | none =>
              refine iff_of_true ?_ (fun _ hnone => nomatch hnone)
              simp only [zosFree, hget]
              rw [KeyedTable.del_of_get_eq_none hget]
              exact h
          | some pointerAddrObj =>
              simp only [Option.some.injEq, forall_eq']
              rw [← taken_iff]
              have hcontents := KeyedTable.count_contents_del hget AddrRecord.fileLine
              have hagree : ∀ key, lineCount line key =
                  (addr.contents AddrRecord.fileLine).count key := h
              have htaken : ∀ key, ((pointerAddrObj.fileLine.take
                  (arrayLen pointerAddrObj.fileLine).toNat).filter (· ≠ [])).count key ≤
                    pointerAddrObj.fileLine.count key := fun key =>
                (count_taken_le _ _ key).trans ((List.take_sublist _ _).count_le key)
              have hloop := @count_freeLines (pointerAddrObj.fileLine.take
                (arrayLen pointerAddrObj.fileLine).toNat) line (by
                  intro key
                  have hfits := htaken key
                  have hall := hcontents key
                  rw [hagree key]
                  omega)
              simp only [zosFree, hget]
              refine forall_congr' fun key => ?_
              have hfits := htaken key
              have hall := hcontents key
              simp only [recordedCount]
              rw [hloop key, hagree key]
              omega

/-! ## Every run -/

theorem recordsAgree_step_iff {r : Option AllocRecords} (h : RecordsAgree r) (event : AllocEvent) :
    RecordsAgree (allocStep r event) ↔ ∀ r' ∈ r, AllocFits r' event := by
  obtain ⟨r, rfl, hagrees⟩ := h
  simp only [allocStep, Option.bind_some, Option.mem_def, Option.some.injEq, forall_eq']
  cases event with
  | record newAddr newLine pointerAddr fileLine size =>
      exact recordAllocData_agrees_iff hagrees pointerAddr size
  | free obj => exact recordsAgree_some.trans (zosFree_agrees_iff hagrees obj)

/-- The counts are right behind every call of a run exactly if each call meets its condition. -/
theorem allocRecords_iff (events : List AllocEvent) :
    (∀ done, done <+: events → RecordsAgree (done.foldl allocStep (some AllocRecords.init))) ↔
      EveryStep allocStep (fun r event => ∀ r' ∈ r, AllocFits r' event) (some AllocRecords.init)
        events := by
  have hinit : RecordsAgree (some AllocRecords.init) := recordsAgree_some.mpr fun _ => rfl
  exact @simulates_iff _ _ allocStep _ Unit (fun _ _ => ()) (fun r _ => RecordsAgree r)
    (fun r _ event h => recordsAgree_step_iff h event) events _ () hinit

/-! ## The lines of the callers -/

/-- No line that is recorded is empty. -/
def NamedLines (r : AllocRecords) : Prop :=
  recordedCount r.addr [] = 0

theorem namedLines_recordAllocData (h : NamedLines r) (hsome : fileLine ≠ []) {r' : AllocRecords}
    (hrecord : recordAllocData newAddr newLine pointerAddr fileLine size r = some r') :
    NamedLines r' := by
  have hmade := recordedCount_makeObjects newAddr newLine r []
  rw [NamedLines] at h ⊢
  rw [h] at hmade
  rw [recordAllocData] at hrecord
  generalize makeObjects newAddr newLine r = made at hmade hrecord
  obtain ⟨addr, line⟩ := made
  have hrecorded : r'.addr = addr.map (recordAddr pointerAddr fileLine size) := by
    cases line with
    | none =>
        obtain rfl := Option.some.inj hrecord
        rfl
    | some line =>
        simp only at hrecord
        split at hrecord
        · cases hrecord
        · obtain rfl := Option.some.inj hrecord
          rfl
  rw [hrecorded]
  cases addr with
  | none => rfl
  | some addr =>
      have hnone : [fileLine].count [] = 0 :=
        List.count_eq_zero_of_not_mem (by simpa using hsome.symm)
      rw [Option.map_some, recordedCount_recordAddr, hnone]
      exact hmade

theorem namedLines_zosFree (h : NamedLines r) (obj : Option Nat) : NamedLines (zosFree obj r) := by
  obtain ⟨addr, line⟩ := r
  cases obj with
  | none => exact h
  | some obj =>
      cases addr with
      | none => exact h
      | some addr =>
          have hzero : (addr.contents AddrRecord.fileLine).count [] = 0 := h
          change ((addr.del (pointerText obj)).contents AddrRecord.fileLine).count [] = 0
          cases hget : addr.get (pointerText obj) with
          | none =>
              rw [KeyedTable.del_of_get_eq_none hget]
              exact hzero
          | some pointerAddrObj =>
              have hcontents := KeyedTable.count_contents_del hget AddrRecord.fileLine []
              omega

/-- What the callers record is never an empty line. -/
theorem namedLines_recordZcfgAllocData (h : NamedLines r) {obj : Option Nat} {fileName : List Char}
    {line : Int} {r' : AllocRecords}
    (hrecord : recordZcfgAllocData newAddr newLine obj fileName line size r = some r') :
    NamedLines r' := by
  cases obj with
  | none =>
      obtain rfl := Option.some.inj hrecord
      exact h
  | some obj =>
      have hsome : fileLineText fileName line ≠ [] := by simp [fileLineText]
      rw [recordZcfgAllocData] at hrecord
      split at hrecord
      · cases hrecord
      · exact namedLines_recordAllocData h hsome hrecord

/-- Without empty lines an address only must not have too many of them. -/
theorem allocFits_free_iff (h : NamedLines r) (obj : Nat) :
    AllocFits r (.free (some obj)) ↔
      ∀ addr ∈ r.addr, ∀ pointerAddrObj ∈ addr.get (pointerText obj),
        pointerAddrObj.fileLine.length ≤ intMax := by
  constructor
  · intro hfits addr haddr pointerAddrObj hget
    exact (hfits addr haddr pointerAddrObj hget).2
  · intro hfew addr haddr pointerAddrObj hget
    have hzero : (addr.contents AddrRecord.fileLine).count [] = 0 := by
      rw [NamedLines, Option.mem_def.mp haddr] at h
      exact h
    have hcontents := KeyedTable.count_contents_del hget AddrRecord.fileLine []
    exact ⟨List.count_eq_zero.mp (by omega), hfew addr haddr pointerAddrObj hget⟩

/-! ## Runs that go wrong -/

/-- With both objects a record goes on from the count of its line. -/
theorem exists_madeLine (r : AllocRecords) (fileLine : List Char) :
    ∃ line, (makeObjects true true r).line = some line ∧
      allocCnt line fileLine = lineCount r.line fileLine := by
  have hline := (isSome_makeObjects true true r).2
  rw [Bool.or_true] at hline
  obtain ⟨line, hline⟩ := Option.isSome_iff_exists.mp hline
  refine ⟨line, hline, ?_⟩
  rw [← lineCount_makeObjects true true r, hline]
  rfl

theorem recordAllocData_some (hmax : lineCount r.line fileLine < intMax) (pointerAddr : List Char)
    (size : Int) : ∃ r', recordAllocData true true pointerAddr fileLine size r = some r' ∧
      lineCount r'.line fileLine = lineCount r.line fileLine + 1 := by
  obtain ⟨line, hline, hcount⟩ := exists_madeLine r fileLine
  have hfits : ¬ intMax < allocCnt line fileLine + 1 := by omega
  rw [recordAllocData, hline]
  refine ⟨_, if_neg hfits, ?_⟩
  simp only [lineCount]
  rw [allocCnt_set, if_pos rfl, hcount]
  rfl

theorem recordAllocData_none (hmax : intMax ≤ lineCount r.line fileLine) (pointerAddr : List Char)
    (size : Int) : recordAllocData true true pointerAddr fileLine size r = none := by
  obtain ⟨line, hline, hcount⟩ := exists_madeLine r fileLine
  have hover : intMax < allocCnt line fileLine + 1 := by omega
  rw [recordAllocData, hline]
  exact if_pos hover

/-- Records of one line are counted up to {lit}`INT_MAX`. -/
theorem count_repeated (pointerAddr fileLine : List Char) (size : Int) {n : Nat} (hn : n ≤ intMax) :
    ∃ r, (List.replicate n (AllocEvent.record true true pointerAddr fileLine size)).foldl allocStep
        (some AllocRecords.init) = some r ∧ lineCount r.line fileLine = n := by
  induction n with
  | zero => exact ⟨AllocRecords.init, rfl, rfl⟩
  | succ n ih =>
      obtain ⟨r, hrun, hcount⟩ := ih (by omega)
      obtain ⟨r', hrecord, hnext⟩ := @recordAllocData_some r fileLine (by omega) pointerAddr size
      refine ⟨r', ?_, by rw [hnext, hcount, Int.natCast_add, Int.natCast_one]⟩
      rw [List.replicate_succ', List.foldl_append, hrun]
      exact hrecord

theorem not_recordsAgree {r : Option AllocRecords} (fileLine : List Char) {m : Int} {n : Nat}
    (h : r.map (fun r => (lineCount r.line fileLine, recordedCount r.addr fileLine)) = some (m, n))
    (hne : m ≠ n) : ¬ RecordsAgree r := by
  rintro ⟨r', rfl, hagrees⟩
  simp only [Option.map_some, Option.some.injEq, Prod.mk.injEq] at h
  exact hne (h.1.symm.trans ((hagrees fileLine).trans (congrArg Nat.cast h.2)))

/-- An empty line is counted and never taken away; with one of the objects a line is recorded in only one
place; and the count of a line that is recorded 2^31 times is no {lit}`int`. -/
theorem counts_drift :
    ¬ RecordsAgree ([.record true true (pointerText 16) [] 8, .free (some 16)].foldl allocStep
      (some AllocRecords.init)) ∧
    ¬ RecordsAgree ([.record true false (pointerText 16) "a.c:1".toList 8].foldl allocStep
      (some AllocRecords.init)) ∧
    ¬ RecordsAgree ((List.replicate 2147483648
      (.record true true (pointerText 16) "a.c:1".toList 8)).foldl allocStep
      (some AllocRecords.init)) := by
  refine ⟨not_recordsAgree (m := 1) (n := 0) [] (by decide) (by decide),
    not_recordsAgree (m := 0) (n := 1) "a.c:1".toList (by decide) (by decide), ?_⟩
  obtain ⟨r, hrun, hcount⟩ := @count_repeated (pointerText 16) "a.c:1".toList 8 2147483647 (by decide)
  have hnone := @recordAllocData_none r "a.c:1".toList (by rw [hcount]; decide) (pointerText 16) 8
  have hlast : (2147483648 : Nat) = 2147483647 + 1 := rfl
  rw [hlast, List.replicate_succ', List.foldl_append, hrun]
  exact fun hagree => not_recordsAgree_none (hnone ▸ hagree)

end Zos
end ZyxelRouter
