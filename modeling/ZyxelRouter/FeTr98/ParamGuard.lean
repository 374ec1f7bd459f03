import ZyxelRouter.ZcfgCommon
import ZyxelRouter.Lib.Decimal
import ZyxelRouter.Lib.SplitText
import ZyxelRouter.Lib.Substrings

/-!
# Parameter guards

{lit}`zcfgTr98ParmGurdScan` compares a value that is to be set with a range, with a list of values to
accept and with a list of values to refuse.

Main results:

- Theorem {lit}`anyElement_eq`: the loop over a list text compares the value with each element.
- Theorem {lit}`zcfgTr98ParmGurdACL_success_iff`: the values that the two lists let pass.
- Theorem {lit}`parmGurdScan_success_iff`: the values that an entry without a routine accepts.
-/

namespace ZyxelRouter
namespace FeTr98

open Lib

/-! ## Guards and values -/

/-- A value of the request; an {lit}`int` object holds 64 bits. -/
inductive GuardValue where
  | int (value : Int)
  | uint32 (value : Nat)
  | string (text : List Char)
  | other
deriving DecidableEq

/-- A guard entry, with the text of each member that it has. -/
structure GuardEntry where
  attr : Option (List Char)
  minmax : Option (List Char)
  yes : Option (List Char)
  no : Option (List Char)
deriving DecidableEq

/-- The guard of an object: its entries by parameter name, and the routine under {lit}`ParmGurdRout`. -/
structure ParmGurdObj where
  entry : List Char → Option GuardEntry
  rout : Option (List Char → GuardValue → GuardEntry → ZcfgRet)

/-- {lit}`json_object_get_int`, which has no case for {lit}`json_type_uint32`; it is only called for
numbers here. -/
def jsonGetInt : GuardValue → Int
  | .int value => value
  | _ => 0

/-! ## Ranges -/

/-- The digits of a conversion behind its sign, and what is behind them.  A number of more than 64 bits
is read as the largest one, whatever its sign is. -/
def scanDigits (sign : Int) (rest : List Char) : Option (Int × List Char) :=
  let digits := rest.takeWhile Char.isDigit
  if digits = [] then none
  else
    some (if digitsValue digits < 2 ^ 64 then sign * digitsValue digits else 2 ^ 64 - 1,
      rest.drop digits.length)

/-- The number that {lit}`sscanf` reads for {lit}`%d` or {lit}`%u`, and what is behind it. -/
def scanNumber (s : List Char) : Option (Int × List Char) :=
  match s.dropWhile isSpace with
  | '-' :: rest => scanDigits (-1) rest
  | '+' :: rest => scanDigits 1 rest
  | rest => scanDigits 1 rest

/-- {lit}`sscanf(minmaxvalue, "(%d-%d)", &min, &max)`; a number that is not read stays 0. -/
def scanRange (minmaxvalue : List Char) : Int × Int :=
  match minmaxvalue with
  | '(' :: rest =>
      match scanNumber rest with
      | none => (0, 0)
      | some (min, '-' :: rest) => (min, (scanNumber rest).elim 0 Prod.fst)
      | some (min, _) => (min, 0)
  | _ => (0, 0)

/-- {lit}`zcfgTr98ParmGurdMinMax`. -/
def zcfgTr98ParmGurdMinMax (spvparamobj : GuardValue) (minmax : Option (List Char)) : ZcfgRet :=
  match minmax with
  | none | some [] => .success
  | some minmaxvalue =>
      let range := scanRange minmaxvalue
      match spvparamobj with
      | .int _ =>
          let value := (jsonGetInt spvparamobj).bmod (2 ^ 32)
          if range.1.bmod (2 ^ 32) ≤ value ∧ value ≤ range.2.bmod (2 ^ 32) then .success
          else .invalidParamValue
      | .uint32 _ =>
          let value := jsonGetInt spvparamobj % 2 ^ 32
          if range.1 % 2 ^ 32 ≤ value ∧ value ≤ range.2 % 2 ^ 32 then .success
          else .invalidParamValue
      | _ => .success

/-! ## Lists -/

/-- {lit}`zcfgTr98ParmGurdCmp`, true for {lit}`ZCFG_SUCCESS`. -/
def zcfgTr98ParmGurdCmp (spvparamobj : GuardValue) (value : List Char) : Bool :=
  match spvparamobj with
  | .int _ => (jsonGetInt spvparamobj).bmod (2 ^ 32) = atoiInt value
  | .string spv => if "''".toList.isPrefixOf value then spv = [] else spv = value
  | _ => true

/-- The loop of {lit}`zcfgTr98ParmGurdACL` over a list text: {lit}`element` is what has been passed behind
{lit}`paramPtr`. -/
def anyElement (cmp : List Char → Bool) (element : List Char) : List Char → Bool
  | [] => cmp element
  | ',' :: rest => cmp element || anyElement cmp [] rest
  | c :: rest => anyElement cmp (element ++ [c]) rest

/-- The guard {lit}`yes && (yeslen=strlen(yes))>0` with the loop behind it. -/
def aclMatches (spvparamobj : GuardValue) (acl : Option (List Char)) : Bool :=
  match acl with
  | none | some [] => false
  | some text => anyElement (zcfgTr98ParmGurdCmp spvparamobj) [] text

/-- {lit}`zcfgTr98ParmGurdACL`. -/
def zcfgTr98ParmGurdACL (spvparamobj : GuardValue) (yes no : Option (List Char)) : ZcfgRet :=
  if yes = none ∧ no = none then .success
  else if aclMatches spvparamobj yes then .success
  else if aclMatches spvparamobj no then .invalidParamValue
  else if yes ≠ none ∧ no = none then .invalidParamValue
  else if yes = none ∧ no ≠ none then .success
  else .notFound

/-! ## The scan -/

/-- {lit}`strstr(attr, word)`. -/
def attrNames (word : String) (attr : List Char) : Bool :=
  (Substr.strstr word.toList attr).isSome

/-- What {lit}`zcfgTr98ParmGurdScan` does with an entry whose {lit}`attr` is not empty. -/
def scanEntry (rout : Option (GuardValue → GuardEntry → ZcfgRet)) (paramObj : GuardEntry)
    (spvparamobj : GuardValue) (attr : List Char) : ZcfgRet :=
  let ret :=
    if attrNames "minmax" attr then zcfgTr98ParmGurdMinMax spvparamobj paramObj.minmax
    else .success
  if attrNames "minmax" attr ∧ ret = .success then ret
  else
    let ret :=
      if attrNames "acl" attr then zcfgTr98ParmGurdACL spvparamobj paramObj.yes paramObj.no
      else ret
    if attrNames "acl" attr ∧ (ret = .success ∨ ret = .invalidParamValue) then ret
    else if attrNames "rout" attr then
      rout.elim ret fun rout => rout spvparamobj paramObj
    else if ret ≠ .success ∧ ret ≠ .invalidParamValue then .invalidParamValue
    else ret

/-- {lit}`zcfgTr98ParmGurdScan`; {lit}`retrieved` is what {lit}`zcfgTr98RetrieveParmGurdObj` finds for the
object. -/
def zcfgTr98ParmGurdScan (retrieved : Option ParmGurdObj) (parmname : List Char)
    (objParmGurd : Option ParmGurdObj) (spvobj : List Char → Option GuardValue) : ZcfgRet :=
  match objParmGurd.or retrieved with
  | none => .success
  | some guard =>
      match guard.entry parmname, spvobj parmname with
      | some paramObj, some spvparamobj =>
          match paramObj.attr with
          | none | some [] => .success
          | some attr => scanEntry (guard.rout.map (· parmname)) paramObj spvparamobj attr
      | _, _ => .success

/-! ## What an entry asks for -/

/-- The entry names a check. -/
def GuardEntry.Names (entry : GuardEntry) (word : String) : Prop :=
  word.toList <:+: entry.attr.getD []

/-- The elements of a list; a list that is not there or whose text is empty has none. -/
def listElements (acl : Option (List Char)) : List (List Char) :=
  if acl.getD [] = [] then [] else (acl.getD []).splitOn ','

/-- The value lies in the range of the entry, or there is no range to check. -/
def GuardEntry.InRange (entry : GuardEntry) (value : GuardValue) : Prop :=
  entry.minmax.getD [] = [] ∨
    match value with
    | .int value =>
        (scanRange (entry.minmax.getD [])).1.bmod (2 ^ 32) ≤ value ∧
          value ≤ (scanRange (entry.minmax.getD [])).2.bmod (2 ^ 32)
    | _ => True

/-- The value is what an element of a list stands for: a number is read with {lit}`atoi`, and two single
quotes at the front stand for the empty string. -/
def IsElement (value : GuardValue) (element : List Char) : Prop :=
  match value with
  | .int value => value = atoiInt element
  | .string text => text = if "''".toList <+: element then [] else element
  | _ => False

/-- The value is in the first list, or there is no first list and the value is not in the second. -/
def GuardEntry.Allows (entry : GuardEntry) (value : GuardValue) : Prop :=
  (∃ e ∈ listElements entry.yes, IsElement value e) ∨
    entry.yes = none ∧ ∀ e ∈ listElements entry.no, ¬ IsElement value e

/-- A string, or a number that an {lit}`int` can hold. -/
def GuardValue.Comparable : GuardValue → Prop
  | .int value => -2 ^ 31 ≤ value ∧ value < 2 ^ 31
  | .string _ => True
  | _ => False

/-- The entry has nothing to compare a value with. -/
structure GuardEntry.ComparesNothing (entry : GuardEntry) : Prop where
  range : entry.Names "minmax" → entry.minmax.getD [] = []
  lists : entry.Names "acl" → listElements entry.yes = [] ∧ listElements entry.no = []

/-! ## The range of a text -/

/-- A number as a guard file writes it. -/
def signedText (n : Int) : List Char :=
  if n < 0 then '-' :: decimal n.natAbs else decimal n.natAbs

/-- The digits of a number in front of another character. -/
theorem scanDigits_decimal (sign : Int) {n : Nat} (hn : n < 2 ^ 64) {c : Char}
    (hc : c.isDigit = false) (rest : List Char) :
    scanDigits sign (decimal n ++ c :: rest) = some (sign * n, c :: rest) := by
  have htake : (decimal n ++ c :: rest).takeWhile Char.isDigit = decimal n :=
    takeWhile_decimal_append n (by simp [hc])
  unfold scanDigits
  simp only [htake, digitsValue_decimal, if_neg (decimal_ne_nil n), if_pos hn, List.drop_left]

/-- A number in front of another character is read back. -/
theorem scanNumber_signedText {n : Int} (hn : n.natAbs < 2 ^ 64) {c : Char}
    (hc : c.isDigit = false) (rest : List Char) :
    scanNumber (signedText n ++ c :: rest) = some (n, c :: rest) := by
  unfold signedText scanNumber
  by_cases hneg : n < 0
  · have hdrop : ('-' :: decimal n.natAbs ++ c :: rest).dropWhile isSpace =
        '-' :: (decimal n.natAbs ++ c :: rest) :=
      List.dropWhile_cons_of_neg (by decide)
    have hvalue : -1 * (n.natAbs : Int) = n := by omega
    simp only [if_pos hneg, hdrop, scanDigits_decimal (-1) hn hc rest, hvalue]
  · obtain ⟨d, ds, hds⟩ := List.exists_cons_of_ne_nil (decimal_ne_nil n.natAbs)
    obtain ⟨hspace, hminus, hplus⟩ :=
      not_isSpace_of_isDigit (isDigit_of_mem_decimal (hds ▸ List.mem_cons_self))
    have hdrop : (decimal n.natAbs ++ c :: rest).dropWhile isSpace =
        decimal n.natAbs ++ c :: rest := by
      rw [hds]
      exact List.dropWhile_cons_of_neg (by simp [hspace])
    have hvalue : 1 * (n.natAbs : Int) = n := by omega
    rw [if_neg hneg, hdrop]
    split
    · rename_i heq
      rw [hds] at heq
      exact absurd (List.cons.inj heq).1 hminus
    · rename_i heq
      rw [hds] at heq
      exact absurd (List.cons.inj heq).1 hplus
    · rw [scanDigits_decimal 1 hn hc rest, hvalue]

/-- The two bounds of a range are read from its text. -/
theorem scanRange_text {min max : Int} (hmin : min.natAbs < 2 ^ 64) (hmax : max.natAbs < 2 ^ 64) :
    scanRange ('(' :: (signedText min ++ '-' :: (signedText max ++ [')']))) = (min, max) := by
  have hfirst := scanNumber_signedText hmin (c := '-') (by decide) (signedText max ++ [')'])
  have hsecond := scanNumber_signedText hmax (c := ')') (by decide) []
  simp [scanRange, hfirst, hsecond]

/-! ## Elements of a list -/

/-- The loop compares the value with each piece between the commas. -/
theorem anyElement_eq (cmp : List Char → Bool) (s : List Char) :
    ∀ element, anyElement cmp element s =
      ((s.splitOn ',').modifyHead (element ++ ·)).any cmp := by
  induction s with
  | nil =>
      intro element
      simp [anyElement]
  | cons c rest ih =>
      intro element
      rw [List.splitOn_cons_eq_if_modifyHead]
      obtain ⟨first, pieces, hsplit⟩ :=
        List.exists_cons_of_ne_nil (List.splitOn_ne_nil ',' rest)
      by_cases hc : c = ','
      · subst hc
        rw [anyElement, ih, hsplit]
        simp
      · have hstep : anyElement cmp element (c :: rest) = anyElement cmp (element ++ [c]) rest := by
          rw [anyElement]
          exact hc
        rw [hstep, ih, hsplit]
        simp [hc]

/-- The whole loop. -/
theorem anyElement_nil (cmp : List Char → Bool) (s : List Char) :
    anyElement cmp [] s = (s.splitOn ',').any cmp := by
  rw [anyElement_eq]
  cases s.splitOn ',' with
  | nil => rfl
  | cons first pieces => rfl

/-- The comparison of a value finds out whether an element stands for it. -/
theorem zcfgTr98ParmGurdCmp_iff {value : GuardValue} (hvalue : value.Comparable)
    (element : List Char) : zcfgTr98ParmGurdCmp value element = true ↔ IsElement value element := by
  cases value with
  | int value =>
      have hcut : value.bmod (2 ^ 32) = value := by
        have hrange : -2 ^ 31 ≤ value ∧ value < 2 ^ 31 := hvalue
        rw [Int.bmod_eq_of_le] <;> omega
      simp only [zcfgTr98ParmGurdCmp, jsonGetInt, hcut, IsElement, decide_eq_true_eq]
  | string text =>
      simp only [zcfgTr98ParmGurdCmp, IsElement, List.isPrefixOf_iff_prefix]
      split
      · exact decide_eq_true_iff
      · exact decide_eq_true_iff
  | uint32 value => exact hvalue.elim
  | other => exact hvalue.elim

/-- A list text is searched for the value. -/
theorem aclMatches_iff {value : GuardValue} (hvalue : value.Comparable) (acl : Option (List Char)) :
    aclMatches value acl = true ↔ ∃ e ∈ listElements acl, IsElement value e := by
  unfold aclMatches
  split
  · simp [listElements]
  · simp [listElements]
  · rename_i text hne
    have hlist : listElements (some text) = text.splitOn ',' := by
      have htext : text ≠ [] := hne
      simp [listElements, htext]
    simp only [anyElement_nil, hlist, List.any_eq_true, zcfgTr98ParmGurdCmp_iff hvalue]

theorem aclMatches_of_nil {acl : Option (List Char)} (h : listElements acl = [])
    (value : GuardValue) : aclMatches value acl = false := by
  unfold aclMatches
  split
  · rfl
  · rfl
  · rename_i text hne
    have htext : text ≠ [] := hne
    exact absurd h (by simp [listElements, htext])

/-! ## The verdicts of the two checks -/

theorem zcfgTr98ParmGurdMinMax_cases (value : GuardValue) (minmax : Option (List Char)) :
    zcfgTr98ParmGurdMinMax value minmax = .success ∨
      zcfgTr98ParmGurdMinMax value minmax = .invalidParamValue := by
  unfold zcfgTr98ParmGurdMinMax
  split
  · exact .inl rfl
  · exact .inl rfl
  · cases value with
    | int value => exact ite_eq_or_eq _ _ _
    | uint32 value => exact ite_eq_or_eq _ _ _
    | string text => exact .inl rfl
    | other => exact .inl rfl

/-- The range check lets the values in the range pass. -/
theorem zcfgTr98ParmGurdMinMax_success_iff {value : GuardValue} {entry : GuardEntry}
    (h : value.Comparable ∨ entry.minmax.getD [] = []) :
    zcfgTr98ParmGurdMinMax value entry.minmax = .success ↔ entry.InRange value := by
  unfold zcfgTr98ParmGurdMinMax GuardEntry.InRange
  split
  · rename_i hnone
    simp [hnone]
  · rename_i hnil
    simp [hnil]
  · rename_i minmaxvalue hne hsome
    have htext : minmaxvalue ≠ [] := hne
    rw [hsome, Option.getD_some] at h
    have hvalue : value.Comparable := h.resolve_right htext
    rw [hsome, Option.getD_some]
    cases value with
    | int value =>
        have hcut : value.bmod (2 ^ 32) = value := by
          have hrange : -2 ^ 31 ≤ value ∧ value < 2 ^ 31 := hvalue
          rw [Int.bmod_eq_of_le] <;> omega
        simp only [jsonGetInt, hcut]
        split
        · rename_i hin
          exact iff_of_true rfl (.inr hin)
        · rename_i hout
          exact iff_of_false (by decide) (fun h => h.elim htext hout)
    | string text => simp
    | uint32 value => exact hvalue.elim
    | other => exact hvalue.elim

/-- The lists let a value pass that matches the first one, and without a first one a value that does
not match the second. -/
theorem zcfgTr98ParmGurdACL_success_iff (value : GuardValue) (yes no : Option (List Char)) :
    zcfgTr98ParmGurdACL value yes no = .success ↔
      aclMatches value yes = true ∨ yes = none ∧ aclMatches value no = false := by
  unfold zcfgTr98ParmGurdACL
  by_cases hyes : aclMatches value yes = true
  · simp [hyes]
  · rw [if_neg hyes]
    by_cases hno : aclMatches value no = true
    · have hsome : no ≠ none := by
        rintro rfl
        exact absurd hno (by simp [aclMatches])
      simp [hyes, hno, hsome]
    · by_cases hnone : yes = none
      · by_cases hnone' : no = none <;> simp [hnone, hnone', aclMatches]
      · by_cases hnone' : no = none <;> simp [hyes, hno, hnone, hnone']

theorem zcfgTr98ParmGurdACL_cases (value : GuardValue) (yes no : Option (List Char)) :
    zcfgTr98ParmGurdACL value yes no = .success ∨
      zcfgTr98ParmGurdACL value yes no = .invalidParamValue ∨
      zcfgTr98ParmGurdACL value yes no = .notFound := by
  unfold zcfgTr98ParmGurdACL
  split_ifs <;> simp

/-- What the lists let pass, by the elements of the two lists. -/
theorem parmGurdACL_allows_iff {value : GuardValue} {entry : GuardEntry}
    (h : value.Comparable ∨ listElements entry.yes = [] ∧ listElements entry.no = []) :
    zcfgTr98ParmGurdACL value entry.yes entry.no = .success ↔ entry.Allows value := by
  rw [zcfgTr98ParmGurdACL_success_iff]
  unfold GuardEntry.Allows
  rcases h with hvalue | ⟨hyes, hno⟩
  · rw [aclMatches_iff hvalue, ← Bool.not_eq_true, aclMatches_iff hvalue]
    simp
  · simp [aclMatches_of_nil hyes, aclMatches_of_nil hno, hyes, hno]

/-! ## The scan -/

theorem attrNames_iff (word : String) (attr : List Char) :
    attrNames word attr = true ↔ word.toList <:+: attr := by
  rw [attrNames, Option.isSome_iff_ne_none, ne_eq, Substr.strstr_eq_none_iff, not_not]

/-- The result for an entry without a routine, by the results of the two checks. -/
theorem scanEntry_cases (rout : Option (GuardValue → GuardEntry → ZcfgRet)) (paramObj : GuardEntry)
    (value : GuardValue) {attr : List Char} (hrout : attrNames "rout" attr = false) :
    (scanEntry rout paramObj value attr = .success ↔
      attrNames "minmax" attr = false ∧ attrNames "acl" attr = false ∨
      attrNames "minmax" attr = true ∧
        zcfgTr98ParmGurdMinMax value paramObj.minmax = .success ∨
      attrNames "acl" attr = true ∧
        zcfgTr98ParmGurdACL value paramObj.yes paramObj.no = .success) ∧
    (scanEntry rout paramObj value attr ≠ .success →
      scanEntry rout paramObj value attr = .invalidParamValue) := by
  unfold scanEntry
  rcases zcfgTr98ParmGurdMinMax_cases value paramObj.minmax with hrange | hrange <;>
    rcases zcfgTr98ParmGurdACL_cases value paramObj.yes paramObj.no with hacl | hacl | hacl <;>
    cases hminmax : attrNames "minmax" attr <;> cases hlists : attrNames "acl" attr <;>
    simp [hrange, hacl, hrout]

/-- An entry without a routine accepts a value if it names no check, or if it names the range and the
value is in it, or if it names the lists and they allow the value; other values are invalid. -/
theorem parmGurdScan_success_iff {retrieved objParmGurd : Option ParmGurdObj} {guard : ParmGurdObj}
    {parmname : List Char} {spvobj : List Char → Option GuardValue} {entry : GuardEntry}
    {value : GuardValue} (hguard : objParmGurd.or retrieved = some guard)
    (hentry : guard.entry parmname = some entry) (hvalue : spvobj parmname = some value)
    (hrout : ¬ entry.Names "rout") :
    (value.Comparable ∨ entry.ComparesNothing →
      (zcfgTr98ParmGurdScan retrieved parmname objParmGurd spvobj = .success ↔
        ¬ entry.Names "minmax" ∧ ¬ entry.Names "acl" ∨
        entry.Names "minmax" ∧ entry.InRange value ∨
        entry.Names "acl" ∧ entry.Allows value)) ∧
    (zcfgTr98ParmGurdScan retrieved parmname objParmGurd spvobj ≠ .success →
      zcfgTr98ParmGurdScan retrieved parmname objParmGurd spvobj = .invalidParamValue) := by
  unfold zcfgTr98ParmGurdScan
  simp only [hguard, hentry, hvalue]
  unfold GuardEntry.Names at hrout
  split
  · rename_i hattr
    simp [GuardEntry.Names, hattr]
  · rename_i hattr
    simp [GuardEntry.Names, hattr]
  · rename_i attr _ hattr
    have hnames : ∀ word, entry.Names word ↔ attrNames word attr = true := by
      intro word
      rw [attrNames_iff, GuardEntry.Names, hattr, Option.getD_some]
    rw [hattr, Option.getD_some, ← attrNames_iff, Bool.not_eq_true] at hrout
    obtain ⟨hsuccess, hother⟩ := scanEntry_cases (guard.rout.map (· parmname)) entry value hrout
    refine ⟨fun hcompare => ?_, hother⟩
    have hrange : entry.Names "minmax" →
        (zcfgTr98ParmGurdMinMax value entry.minmax = .success ↔ entry.InRange value) := fun h =>
      zcfgTr98ParmGurdMinMax_success_iff (hcompare.imp_right fun hnothing => hnothing.range h)
    have hlists : entry.Names "acl" →
        (zcfgTr98ParmGurdACL value entry.yes entry.no = .success ↔ entry.Allows value) := fun h =>
      parmGurdACL_allows_iff (hcompare.imp_right fun hnothing => hnothing.lists h)
    rw [hnames] at hrange hlists
    rw [hsuccess, hnames, hnames, Bool.not_eq_true, Bool.not_eq_true]
    exact or_congr_right (or_congr (and_congr_right hrange) (and_congr_right hlists))

/-- An entry that accepts the empty string and {lit}`on`. -/
def quotesEntry : GuardEntry where
  attr := some "acl".toList
  minmax := none
  yes := some "'',on".toList
  no := none

/-- The guard of an object with this entry for {lit}`Mode`. -/
def quotesGuard : ParmGurdObj where
  entry name := if name = "Mode".toList then some quotesEntry else none
  rout := none

/-- A request that sets {lit}`Mode`. -/
def modeRequest (text : String) (name : List Char) : Option GuardValue :=
  if name = "Mode".toList then some (.string text.toList) else none

theorem parmGurdScan_success_iff_on :
    zcfgTr98ParmGurdScan none "Mode".toList (some quotesGuard) (modeRequest "on") = .success := by
  have hguard : (some quotesGuard).or none = some quotesGuard := rfl
  have hentry : quotesGuard.entry "Mode".toList = some quotesEntry := by decide
  have hvalue : modeRequest "on" "Mode".toList = some (.string "on".toList) := by decide
  have hrout : ¬ quotesEntry.Names "rout" := by
    rw [GuardEntry.Names]
    decide
  have hstring : (GuardValue.string "on".toList).Comparable := trivial
  have hscan := (parmGurdScan_success_iff hguard hentry hvalue hrout).1 (.inl hstring)
  have hacl : quotesEntry.Names "acl" := by
    rw [GuardEntry.Names]
    decide
  have hallows : quotesEntry.Allows (.string "on".toList) :=
    .inl ⟨"on".toList, by decide, by rw [IsElement]; decide⟩
  exact hscan.mpr (.inr (.inr ⟨hacl, hallows⟩))

/-- The empty string is accepted, although it is no element of the list. -/
theorem quotes_stand_for_empty :
    zcfgTr98ParmGurdScan none "Mode".toList (some quotesGuard) (modeRequest "") = .success ∧
      quotesGuard.entry "Mode".toList = some quotesEntry ∧
      attrNames "minmax" "acl".toList = false ∧ attrNames "rout" "acl".toList = false ∧
      [] ∉ ("'',on".toList).splitOn ',' := by
  decide

end FeTr98
end ZyxelRouter
