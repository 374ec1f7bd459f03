import ZyxelRouter.FeDal.Common
import ZyxelRouter.Lib.Decimal
import ZyxelRouter.Lib.SplitText
import ZyxelRouter.Zos.StrCat

/-!
# From a number to an instance

The handlers of the web interface number the objects of a kind, or those with a parameter that has a certain
value. {lit}`convertIndextoIid` compares the value by its type, and
{lit}`convert_index_to_iid_for_specified_string` with each value of a list.

Main results:

- Theorem {lit}`indexLoop_eq`: the object that the first function finds.
- Theorem {lit}`specifiedLoop_eq`: the object on which the second one ends.
- Theorem {lit}`specified_single`: a list with a single value, of which no object has a beginning.
- Theorem {lit}`indexToIid_iff`: when the two find the object with the number.
-/

namespace ZyxelRouter
namespace FeDal

open Lib Zos

/-! ## Objects -/

/-- The value of a parameter; what {lit}`json_tokener_parse` makes of numbers has type {lit}`json_type_int`
or {lit}`json_type_double`. -/
inductive JsonParam where
  | boolean (value : Bool)
  | int (value : Int)
  | string (text : List Char)
  | other (text : List Char)

/-- The parameters of an object; one that is {lit}`null` is as good as none. -/
abbrev JsonObj := List (List Char × JsonParam)

/-- {lit}`json_object_get_int`, 64 bits wide. -/
def jsonGetInt64 (value : Int) : Int :=
  min value (2 ^ 63 - 1)

/-- {lit}`json_object_get_string`. -/
def jsonGetString : JsonParam → List Char
  | .boolean value => if value then "true".toList else "false".toList
  | .int value => if value < 0 then '-' :: decimal value.natAbs else decimal value.natAbs
  | .string text => text
  | .other text => text

/-- What {lit}`ptr` points to, read as a {lit}`bool`, an {lit}`int` and a text. -/
structure KeyPtr where
  asBool : Bool
  asInt : Int32
  asString : List Char

/-! ## The functions -/

variable {I : Type}

/-- {lit}`keyMatch`; without a key every object counts. -/
def keyMatch (key : Option (List Char)) (ptr : KeyPtr) (obj : JsonObj) : Bool :=
  match key with
  | none => true
  | some key =>
      match obj.lookup key with
      | some (.boolean value) => value = ptr.asBool
      | some (.int value) => jsonGetInt64 value = ptr.asInt.toInt
      | some (.string text) => ptr.asString = text
      | _ => false

/-- The loop of {lit}`convertIndextoIid`: {lit}`found`, and {lit}`*Iid` behind it. -/
def indexLoop (idx : Int) (key : Option (List Char)) (ptr : KeyPtr) :
    List (I × JsonObj) → Int → I → Bool × I
  | [], _, iid => (false, iid)
  | row :: rest, count, _ =>
      if keyMatch key ptr row.2 then
        if idx = count then (true, row.1) else indexLoop idx key ptr rest (count + 1) row.1
      else indexLoop idx key ptr rest count row.1

/-- {lit}`convertIndextoIid` with {lit}`*Iid` at {lit}`zero`: the result, {lit}`*Iid` and {lit}`replyMsg`, or
{lit}`none` where a null pointer is written to. -/
def convertIndextoIidByKey (table : KeyedTable I JsonObj) (zero : I) (idx : Int)
    (key : Option (List Char)) (ptr : KeyPtr) (replyMsg : Option (List Char)) :
    Option (ZcfgRet × I × Option (List Char)) :=
  if idx ≤ 0 then
    match replyMsg with
    | none => none
    | some replyMsg => some (.noSuchObject, zero, some (replyMsg ++ " Index error.".toList))
  else
    match indexLoop idx key ptr table.rows 1 zero with
    | (true, iid) => some (.success, iid, replyMsg)
    | (false, iid) => some (.noSuchObject, iid, replyMsg.map (· ++ " Index error.".toList))

/-- The text of the parameter {lit}`check_key`. -/
def keyText (checkKey : Option (List Char)) (obj : JsonObj) : Option (List Char) :=
  (checkKey.bind (fun key => obj.lookup key)).map jsonGetString

/-- The loop of {lit}`convert_index_to_iid_for_specified_string`: {lit}`*iid` behind it.  The first token is
terminated in {lit}`check_string` itself, where the next object begins again. -/
def specifiedLoop (index : Int) (checkKey : Option (List Char)) :
    List (I × JsonObj) → List Char → Int → I → I
  | [], _, _, iid => iid
  | row :: rest, checkString, count, _ =>
      match keyText checkKey row.2 with
      | none => specifiedLoop index checkKey rest checkString count row.1
      | some keyValue =>
          if (strtok ',' checkString).any (fun checkValueSub => keyValue.isPrefixOf checkValueSub) then
            if index = count then row.1
            else specifiedLoop index checkKey rest (cutToken ',' checkString) (count + 1) row.1
          else specifiedLoop index checkKey rest (cutToken ',' checkString) count row.1

/-- {lit}`convert_index_to_iid_for_specified_string` with {lit}`*iid` at {lit}`zero`. -/
def convertIndexToIidForSpecifiedString (table : KeyedTable I JsonObj) (zero : I) (index : Int)
    (checkKey : Option (List Char)) (checkValue : List Char) (replyMsg : Option (List Char)) :
    ZcfgRet × I × Option (List Char) :=
  if index ≤ 0 then
    (.noSuchObject, zero, replyMsg.map (fun replyMsg => (zosStrcat replyMsg " Index error.".toList 127).2))
  else (.success, specifiedLoop index checkKey table.rows checkValue 1 zero, replyMsg)

/-! ## What they are for -/

/-- A value equals what a pointer points to. -/
def keyEquals (ptr : KeyPtr) : JsonParam → Bool
  | .boolean value => value = ptr.asBool
  | .int value => value = ptr.asInt.toInt
  | .string text => text = ptr.asString
  | .other _ => false

/-- The objects whose key equals the value, or all objects without a key. -/
def wantedRows (table : KeyedTable I JsonObj) (key : Option (List Char)) (ptr : KeyPtr) :
    List (I × JsonObj) :=
  table.rows.filter fun row =>
    match key with
    | none => true
    | some key => (row.2.lookup key).any (keyEquals ptr)

attribute [local instance] lawfulBEq_text in
/-- The objects whose key is one of the values. -/
def listedRows (table : KeyedTable I JsonObj) (checkKey : Option (List Char))
    (values : List (List Char)) : List (I × JsonObj) :=
  table.rows.filter fun row => (keyText checkKey row.2).any (· ∈ values)

/-- A function finds the object that is wanted, or says that there is none. -/
def Finds (wanted : Option (I × JsonObj)) (out : Option (ZcfgRet × I × Option (List Char))) : Prop :=
  match wanted with
  | some row => ∃ replyMsg, out = some (.success, row.1, replyMsg)
  | none => ∃ iid replyMsg, out = some (.noSuchObject, iid, replyMsg)

/-- The objects that the comparison with the values takes: of the objects with the key the first one, if the
text of its key begins one of the values, and the others, if the text of theirs begins the first value. -/
def takenRows (checkKey : Option (List Char)) :
    List (List Char) → List (I × JsonObj) → List (I × JsonObj)
  | _, [] => []
  | values, row :: rest =>
      match keyText checkKey row.2 with
      | none => takenRows checkKey values rest
      | some keyValue =>
          if values.any (fun value => keyValue.isPrefixOf value) then
            row :: takenRows checkKey (values.take 1) rest
          else takenRows checkKey (values.take 1) rest

/-! ## By type -/

variable {table : KeyedTable I JsonObj} {zero : I} {key checkKey : Option (List Char)}
  {ptr : KeyPtr} {idx index : Int} {replyMsg : Option (List Char)}

/-- No {lit}`int` is as large as what is cut off. -/
theorem jsonGetInt64_eq_iff (value : Int) (n : Int32) :
    jsonGetInt64 value = n.toInt ↔ value = n.toInt := by
  have hlt := n.toInt_lt
  rw [jsonGetInt64]
  omega

theorem keyMatch_eq (key : Option (List Char)) (ptr : KeyPtr) (obj : JsonObj) :
    keyMatch key ptr obj = match key with
      | none => true
      | some key => (obj.lookup key).any (keyEquals ptr) := by
  cases key with
  | none => rfl
  | some key =>
      simp only [keyMatch]
      cases obj.lookup key with
      | none => rfl
      | some value =>
          cases value with
          | boolean value => rfl
          | int value => simp [keyEquals, jsonGetInt64_eq_iff]
          | string text => simp [keyEquals, eq_comm]
          | other text => rfl

/-- The object with the number among those that count. -/
theorem indexLoop_eq (rows : List (I × JsonObj)) {count : Int} (hcount : count ≤ idx) (iid : I) :
    match (rows.filter (fun row => keyMatch key ptr row.2))[(idx - count).toNat]? with
    | some row => indexLoop idx key ptr rows count iid = (true, row.1)
    | none => (indexLoop idx key ptr rows count iid).1 = false := by
  induction rows generalizing count iid with
  | nil => rfl
  | cons row rest ih =>
      rw [indexLoop]
      by_cases hmatch : keyMatch key ptr row.2 = true
      · rw [if_pos hmatch, List.filter_cons_of_pos (p := fun row : I × JsonObj => keyMatch key ptr row.2) hmatch]
        by_cases hidx : idx = count
        · rw [if_pos hidx, hidx, Int.sub_self]
          rfl
        · have hnext : (idx - count).toNat = (idx - (count + 1)).toNat + 1 := by omega
          rw [if_neg hidx, hnext, List.getElem?_cons_succ]
          exact ih (by omega) row.1
      · rw [if_neg hmatch, List.filter_cons_of_neg (p := fun row : I × JsonObj => keyMatch key ptr row.2) hmatch]
        exact ih hcount row.1

/-- Without a key the loop is that of the handlers of the firewall. -/
theorem indexLoop_nthInstance (rows : List (InstNum × JsonObj)) (count : Int) (iid : InstNum) :
    nthInstance idx rows count =
      if (indexLoop idx none ptr rows count iid).1 then some (indexLoop idx none ptr rows count iid).2
      else none := by
  induction rows generalizing count iid with
  | nil => rfl
  | cons row rest ih =>
      have hall : keyMatch none ptr row.2 = true := rfl
      rw [nthInstance, indexLoop, if_pos hall]
      by_cases hidx : idx = count
      · simp [hidx]
      · rw [if_neg hidx, if_neg hidx]
        exact ih (count + 1) row.1

/-- The function finds the object unless it has to reply without a message. -/
theorem convertIndextoIidByKey_iff (table : KeyedTable I JsonObj) (zero : I) (idx : Int)
    (key : Option (List Char)) (ptr : KeyPtr) (replyMsg : Option (List Char)) :
    Finds (atIndex (wantedRows table key ptr) idx)
        (convertIndextoIidByKey table zero idx key ptr replyMsg) ↔ 0 < idx ∨ replyMsg ≠ none := by
  unfold convertIndextoIidByKey atIndex
  by_cases hidx : idx ≤ 0
  · rw [if_pos hidx, if_pos hidx]
    cases replyMsg with
    | none =>
        apply iff_of_false
        · rintro ⟨iid, msg, hout⟩
          cases hout
        · rintro (hpos | hne)
          · omega
          · exact hne rfl
    | some replyMsg =>
        apply iff_of_true
        · exact ⟨_, _, rfl⟩
        · exact Or.inr (by simp)
  · rw [if_neg hidx, if_neg hidx]
    apply iff_of_true
    · have hrows : table.rows.filter (fun row => keyMatch key ptr row.2) = wantedRows table key ptr := by
        rw [wantedRows]
        apply List.filter_congr
        intro row _
        exact keyMatch_eq key ptr row.2
      have hloop := @indexLoop_eq I key ptr idx table.rows 1 (by omega) zero
      rw [hrows] at hloop
      cases hrow : (wantedRows table key ptr)[(idx - 1).toNat]? with
      | some row =>
          rw [hrow] at hloop
          simp only at hloop
          rw [hloop]
          exact ⟨_, rfl⟩
      | none =>
          rw [hrow] at hloop
          simp only at hloop
          rcases hout : indexLoop idx key ptr table.rows 1 zero with ⟨found, iid⟩
          rw [hout] at hloop
          obtain rfl : found = false := hloop
          exact ⟨_, _, rfl⟩
    · exact Or.inl (by omega)

/-! ## By text -/

/-- The object with the number among those that are taken, or the last one of the table. -/
theorem specifiedLoop_eq (rows : List (I × JsonObj)) (checkString : List Char) {count : Int}
    (hcount : count ≤ index) (iid : I) :
    specifiedLoop index checkKey rows checkString count iid =
      match (takenRows checkKey (strtok ',' checkString) rows)[(index - count).toNat]? with
      | some row => row.1
      | none => ((rows.map Prod.fst).getLast?).getD iid := by
  induction rows generalizing checkString count iid with
  | nil => simp [specifiedLoop, takenRows]
  | cons row rest ih =>
      have hlast : (((row :: rest).map Prod.fst).getLast?).getD iid =
          ((rest.map Prod.fst).getLast?).getD row.1 := by
        rw [List.map_cons, List.getLast?_cons]
        rfl
      rw [specifiedLoop, takenRows, hlast]
      cases keyText checkKey row.2 with
      | none => exact ih checkString hcount row.1
      | some keyValue =>
          simp only
          rw [← strtok_cutToken]
          by_cases htaken : (strtok ',' checkString).any
              (fun checkValueSub => keyValue.isPrefixOf checkValueSub) = true
          · rw [if_pos htaken, if_pos htaken]
            by_cases hindex : index = count
            · rw [if_pos hindex, hindex, Int.sub_self]
              rfl
            · have hnext : (index - count).toNat = (index - (count + 1)).toNat + 1 := by omega
              rw [if_neg hindex, hnext, List.getElem?_cons_succ]
              exact ih _ (by omega) row.1
          · rw [if_neg htaken, if_neg htaken]
            exact ih _ hcount row.1

theorem takenRows_sublist (checkKey : Option (List Char)) (values : List (List Char))
    (rows : List (I × JsonObj)) : List.Sublist (takenRows checkKey values rows) rows := by
  induction rows generalizing values with
  | nil => exact List.Sublist.refl []
  | cons row rest ih =>
      rw [takenRows]
      split
      · exact (ih values).cons row
      · split
        · exact (ih _).cons_cons row
        · exact (ih _).cons row

/-- With a single value of which no object has a beginning, the objects that are taken are those with the
value. -/
theorem takenRows_single {value : List Char} {rows : List (I × JsonObj)}
    (hrows : ∀ row ∈ rows, ∀ keyValue, keyText checkKey row.2 = some keyValue →
      keyValue <+: value → keyValue = value) :
    takenRows checkKey [value] rows =
      rows.filter (fun row => (keyText checkKey row.2).any (· ∈ [value])) := by
  induction rows with
  | nil => rfl
  | cons row rest ih =>
      have hrest := ih fun row' hrow' => hrows row' (List.mem_cons_of_mem row hrow')
      rw [takenRows, List.filter_cons]
      cases htext : keyText checkKey row.2 with
      | none => simpa using hrest
      | some keyValue =>
          have hone : (keyValue.isPrefixOf value = true) ↔ keyValue = value := by
            rw [List.isPrefixOf_iff_prefix]
            constructor
            · exact hrows row List.mem_cons_self keyValue htext
            · rintro rfl
              exact List.prefix_refl _
          by_cases heq : keyValue = value
          · simpa [heq] using hrest
          · have hno : ¬ keyValue.isPrefixOf value = true := fun h => heq (hone.mp h)
            simpa [heq, hno] using hrest

theorem finds_some_iff {row : I × JsonObj} {iid : I} :
    Finds (some row) (some (.success, iid, replyMsg)) ↔ iid = row.1 := by
  constructor
  · rintro ⟨msg, hout⟩
    simp only [Option.some.injEq, Prod.mk.injEq] at hout
    exact hout.2.1
  · rintro rfl
    exact ⟨replyMsg, rfl⟩

/-- The function finds the object with a number if the comparison takes it for the one with the number, or if
it is the last one and the comparison takes too few. -/
theorem specified_iff (table : KeyedTable I JsonObj) (zero : I) (index : Int)
    (checkKey : Option (List Char)) (checkValue : List Char) (replyMsg : Option (List Char)) :
    Finds (atIndex (listedRows table checkKey (strtok ',' checkValue)) index)
        (some (convertIndexToIidForSpecifiedString table zero index checkKey checkValue replyMsg)) ↔
      index ≤ 0 ∨ ∃ row, (listedRows table checkKey (strtok ',' checkValue))[(index - 1).toNat]? =
          some row ∧
        ((takenRows checkKey (strtok ',' checkValue) table.rows)[(index - 1).toNat]? = some row ∨
          (takenRows checkKey (strtok ',' checkValue) table.rows)[(index - 1).toNat]? = none ∧
            table.rows.getLast? = some row) := by
  rw [convertIndexToIidForSpecifiedString, atIndex]
  by_cases hindex : index ≤ 0
  · rw [if_pos hindex, if_pos hindex]
    exact iff_of_true ⟨_, _, rfl⟩ (Or.inl hindex)
  · rw [if_neg hindex, if_neg hindex, specifiedLoop_eq _ _ (by omega : 1 ≤ index),
      or_iff_right hindex]
    cases hlisted : (listedRows table checkKey (strtok ',' checkValue))[(index - 1).toNat]? with
    | none =>
        apply iff_of_false
        · rintro ⟨iid, msg, hout⟩
          cases hout
        · rintro ⟨row, hrow, -⟩
          cases hrow
    | some row =>
        have hrow : row ∈ table.rows := List.mem_of_mem_filter (List.mem_of_getElem? hlisted)
        -- rows with one key are one row
        have hsame : ∀ row' ∈ table.rows, row'.1 = row.1 ↔ row' = row := fun row' hrow' =>
          ⟨fun heq => List.inj_on_of_nodup_map table.nodup hrow' hrow heq, fun heq => heq ▸ rfl⟩
        rw [finds_some_iff]
        cases htaken : (takenRows checkKey (strtok ',' checkValue) table.rows)[(index - 1).toNat]? with
        | some row' =>
            have hrow' := (takenRows_sublist checkKey _ table.rows).subset (List.mem_of_getElem? htaken)
            simp only
            rw [hsame row' hrow']
            simp [eq_comm]
        | none =>
            simp only
            rw [List.getLast?_map]
            cases hlast : table.rows.getLast? with
            | none =>
                rw [List.getLast?_eq_none_iff] at hlast
                rw [hlast] at hrow
                exact absurd hrow List.not_mem_nil
            | some last =>
                have hmem := List.mem_of_getLast? hlast
                rw [Option.map_some, Option.getD_some, hsame last hmem]
                simp [eq_comm]

/-- With a single value of which no object has a beginning, the function finds the objects that there are. -/
theorem specified_single (table : KeyedTable I JsonObj) (zero : I) (index : Int)
    (checkKey : Option (List Char)) {value : List Char} (replyMsg : Option (List Char))
    (hne : value ≠ []) (hcomma : ',' ∉ value)
    (hrows : ∀ row ∈ table.rows, ∀ keyValue, keyText checkKey row.2 = some keyValue →
      keyValue <+: value → keyValue = value) :
    Finds (atIndex (listedRows table checkKey [value]) index)
        (some (convertIndexToIidForSpecifiedString table zero index checkKey value replyMsg)) ↔
      index ≤ (listedRows table checkKey [value]).length := by
  have hiff := specified_iff table zero index checkKey value replyMsg
  rw [strtok_of_notMem hne hcomma, takenRows_single hrows, ← listedRows] at hiff
  rw [hiff]
  constructor
  · rintro (hindex | ⟨row, hrow, -⟩)
    · omega
    · obtain ⟨hlt, -⟩ := List.getElem?_eq_some_iff.mp hrow
      omega
  · intro hle
    by_cases hindex : index ≤ 0
    · exact Or.inl hindex
    · have hlt : (index - 1).toNat < (listedRows table checkKey [value]).length := by omega
      have hrow := List.getElem?_eq_getElem hlt
      exact Or.inr ⟨_, hrow, Or.inl hrow⟩

/-! ## Both functions -/

/-- The first function finds the object with the number unless it has to reply without a message.  The second
one finds it if the comparison takes it for the one with the number, or takes too few and it is the last one
of the table; that there is no object it says of numbers below 1 only. -/
theorem indexToIid_iff (table : KeyedTable I JsonObj) (zero : I) (index : Int)
    (key checkKey : Option (List Char)) (ptr : KeyPtr) (checkValue : List Char)
    (replyMsg : Option (List Char)) :
    (Finds (atIndex (wantedRows table key ptr) index)
        (convertIndextoIidByKey table zero index key ptr replyMsg) ↔
      0 < index ∨ replyMsg ≠ none) ∧
    (Finds (atIndex (listedRows table checkKey (strtok ',' checkValue)) index)
        (some (convertIndexToIidForSpecifiedString table zero index checkKey checkValue replyMsg)) ↔
      index ≤ 0 ∨ ∃ row, (listedRows table checkKey (strtok ',' checkValue))[(index - 1).toNat]? =
          some row ∧
        ((takenRows checkKey (strtok ',' checkValue) table.rows)[(index - 1).toNat]? = some row ∨
          (takenRows checkKey (strtok ',' checkValue) table.rows)[(index - 1).toNat]? = none ∧
            table.rows.getLast? = some row)) :=
  ⟨convertIndextoIidByKey_iff table zero index key ptr replyMsg,
    specified_iff table zero index checkKey checkValue replyMsg⟩

/-- Three routes that were added in different ways. -/
def addedRoutes : KeyedTable Nat JsonObj where
  rows := [(1, [("Adder".toList, .string "Other".toList)]),
    (2, [("Adder".toList, .string "Static".toList)]),
    (3, [("Adder".toList, .string "Default".toList)])]
  nodup := by decide

/-- The first route with one of the values {lit}`Default` and {lit}`Static` is the second one, but behind the
first route only {lit}`Default` is looked for.  A number without a route gives the last one, and without a
message there is no reply to the number 0. -/
theorem second_value_lost :
    (atIndex (listedRows addedRoutes (some "Adder".toList)
        (strtok ',' "Default,Static".toList)) 1).map Prod.fst = some 2 ∧
      convertIndexToIidForSpecifiedString addedRoutes 0 1 (some "Adder".toList)
        "Default,Static".toList (some []) = (.success, 3, some []) ∧
      (atIndex (listedRows addedRoutes (some "Adder".toList)
        (strtok ',' "Default".toList)) 2).map Prod.fst = none ∧
      convertIndexToIidForSpecifiedString addedRoutes 0 2 (some "Adder".toList)
        "Default".toList (some []) = (.success, 3, some []) ∧
      convertIndextoIidByKey addedRoutes 0 0 none
        { asBool := false, asInt := 0, asString := [] } none = none := by
  decide +kernel

end FeDal
end ZyxelRouter
