import Mathlib.Data.List.Basic
import Mathlib.Data.List.Forall2
import Mathlib.Tactic.IntervalCases
import ZyxelRouter.Lib.Decimal
import ZyxelRouter.ZcfgCommon

/-!
# Setting a parameter

{lit}`zcfgFeJsonObjParamSet` checks a value string against the schema and puts it into a JSON object.
The format is checked and the string is converted by the type that the caller names, which need not
be the type in the schema.

Main results:

- Theorem {lit}`zcfgFeJsonObjParamSet_success`: what has been checked when a value is stored.
- Theorem {lit}`paramSet_conforms_iff`: when the stored value conforms to the schema.
-/

namespace ZyxelRouter
namespace FeString

open Lib

/-! ## Types and values -/

/-- {lit}`json_type` as a number of 32 bits. -/
inductive JsonType where
  | null
  | boolean
  | double
  | int
  | uint8
  | uint16
  | uint32
  | object
  | array
  | string
  | time
  | base64
  | hex
  | ulong
  | other (code : UInt32) (isOther : 14 ≤ code)
deriving DecidableEq

/-- The fields of {lit}`parameterInfo_t` used here. -/
structure ParamInfo where
  name : List Char
  type : JsonType
  len : UInt32
  attr : UInt32
deriving DecidableEq

/-- {lit}`PARAMETER_ATTR_READONLY`. -/
def parameterAttrReadonly : UInt32 := 8

/-- The parameter can be set. -/
def ParamInfo.writable (paramInfo : ParamInfo) : Bool :=
  paramInfo.attr &&& parameterAttrReadonly == 0

/-- The parameters behind the object at every offset. -/
abbrev ParamTable := Nat → List ParamInfo

/-- The {lit}`strcmp` loop over the parameters of an object. -/
def findParam (schema : ParamTable) (oid : Nat) (parameterName : List Char) : Option ParamInfo :=
  (schema oid).find? (fun paramInfo => paramInfo.name = parameterName)

/-- A JSON value.  Integers are {lit}`int64_t`; a text has the type that was set for it. -/
inductive JsonValue where
  | boolean (b : Bool)
  | int (n : Int)
  | text (type : JsonType) (s : List Char)
  | other (json : List Char)
deriving DecidableEq

/-- A JSON object with its members. -/
abbrev JsonObject := List (List Char × JsonValue)

/-- {lit}`json_object_object_add`. -/
def jsonObjectObjectAdd (key : List Char) (v : JsonValue) : JsonObject → JsonObject
  | [] => [(key, v)]
  | m :: ms => if m.1 = key then (key, v) :: ms else m :: jsonObjectObjectAdd key v ms

/-- {lit}`json_object_object_get`. -/
def jsonObjectObjectGet (obj : JsonObject) (key : List Char) : Option JsonValue :=
  (obj.find? (fun m => m.1 = key)).map Prod.snd

/-! ## Conversions -/

/-- {lit}`strlen` in an {lit}`int`. -/
def strLen (value : List Char) : Int :=
  (value.length : Int).bmod (2 ^ 32)

/-- {lit}`atol`; the sum wraps. -/
def atol (value : List Char) : Int :=
  (atoi value).bmod (2 ^ 64)

/-- {lit}`strtoul`: {lit}`ULONG_MAX` if the number is too large, negated as an
{lit}`unsigned long` behind a minus. -/
def strtoul (value : List Char) : Nat :=
  if 2 ^ 64 ≤ (atoi value).natAbs then 2 ^ 64 - 1
  else (atoi value % 2 ^ 64).toNat

/-! ## The check -/

/-- The test in the case {lit}`json_type_hex`. -/
def isHexDigit (c : Char) : Bool :=
  c.isDigit || ('a' ≤ c && c ≤ 'f') || ('A' ≤ c && c ≤ 'F')

/-- The characters of base64 without the padding. -/
def isBase64Char (c : Char) : Bool :=
  c.isDigit || c.isAlpha || c = '+' || c = '/'

/-- The case {lit}`json_type_int`. -/
def intFormat (value : List Char) : Bool :=
  if atol value < 0 then
    match value with
    | '-' :: rest => rest.all Char.isDigit
    | _ => false
  else value.all Char.isDigit

/-- One round of the case {lit}`json_type_time`. -/
def timeChar (index : Nat) (c : Char) : Bool :=
  if index = 4 || index = 7 then c = '-'
  else if index = 10 then c = 'T'
  else if index = 13 || index = 16 then c = ':'
  else if index = 19 then c = 'Z'
  else c.isDigit

/-- The case {lit}`json_type_time`. -/
def timeFormat (value : List Char) : Bool :=
  (strLen value = 19 || strLen value = 20) &&
    (value.take (strLen value).toNat).zipIdx.all (fun (c, index) => timeChar index c)

/-- The case {lit}`json_type_hex`. -/
def hexFormat (value : List Char) : Bool :=
  (value.take (strLen value).toNat).all isHexDigit

/-- The first loop of the case {lit}`json_type_base64`: what is left at the {lit}`break`. -/
def base64Scan (strLen : Int) : Nat → List Char → Option (List Char)
  | _, [] => some []
  | index, c :: rest =>
      if isBase64Char c then base64Scan strLen (index + 1) rest
      else if c = '=' ∧ strLen - 2 ≤ index then some (c :: rest)
      else none

/-- The case {lit}`json_type_base64`. -/
def base64Format (value : List Char) : Bool :=
  (strLen value).tmod 4 = 0 &&
    match base64Scan (strLen value) 0 (value.take (strLen value).toNat) with
    | none => false
    | some rest => rest.all (· = '=')

/-- The case {lit}`json_type_boolean`: the string is normalised in place. -/
def booleanFormat (value : List Char) : Option (List Char) :=
  if value.map Char.toLower = ['t', 'r', 'u', 'e'] then some ['1']
  else if value.map Char.toLower = ['f', 'a', 'l', 's', 'e'] then some ['0']
  else if value = ['0'] ∨ value = ['1'] then some value
  else none

/-- The {lit}`switch` over the type that the caller names: the string afterwards, or {lit}`none` for
{lit}`ZCFG_INVALID_PARAM_VALUE`. -/
def validateFormat (type : JsonType) (value : List Char) : Option (List Char) :=
  match type with
  | .int => if intFormat value then some value else none
  | .uint8 | .uint16 | .uint32 | .ulong => if value.all Char.isDigit then some value else none
  | .boolean => booleanFormat value
  | .time => if timeFormat value then some value else none
  | .hex => if hexFormat value then some value else none
  | .base64 => if base64Format value then some value else none
  | _ => some value

/-- The types with a text, whose length is checked. -/
def JsonType.isText : JsonType → Bool
  | .string | .time | .base64 | .hex => true
  | _ => false

/-- The types that a parameter can be set with. -/
def typeAccepted (type paramType : JsonType) : Bool :=
  type = paramType || (type = .string && paramType = .hex) ||
    (type = .uint32 && paramType = .int) || (type = .int && paramType = .uint32)

/-- {lit}`zcfgFeParamChk`: the string after the check or the error. -/
def zcfgFeParamChk (schema : ParamTable) (oid : Nat) (parameterName : List Char) (type : JsonType)
    (value : List Char) : Except ZcfgRet (List Char) :=
  match findParam schema oid parameterName with
  | none => .error .noSuchParameter
  | some paramInfo =>
      if !paramInfo.writable then .error .setReadOnlyParam
      else if !typeAccepted type paramInfo.type then .error .errorParameterType
      else if type.isText && paramInfo.len.toNat ≤ value.length % 2 ^ 32 then
        .error .invalidParamValueLength
      else
        match validateFormat type value with
        | none => .error .invalidParamValue
        | some value => .ok value

/-- The JSON value that is made of a string, if the type is supported. -/
def newValue (type : JsonType) (value : List Char) : Option JsonValue :=
  match type with
  | .boolean => some (.boolean (atoiInt value ≠ 0))
  | .int => some (.int (atoiInt value))
  | .uint8 | .uint16 | .uint32 | .ulong => some (.int ((strtoul value : Int).bmod (2 ^ 64)))
  | .string | .hex | .base64 | .time => some (.text type value)
  | _ => none

/-- {lit}`zcfgFeJsonObjParamSet`: the result and the JSON object, which may be missing. -/
def zcfgFeJsonObjParamSet (schema : ParamTable) (oid : Nat) (paramName : List Char)
    (type : JsonType) (setJobj : Option JsonObject) (value : List Char) :
    ZcfgRet × Option JsonObject :=
  match setJobj with
  | none => (.internalError, none)
  | some obj =>
      match zcfgFeParamChk schema oid paramName type value with
      | .error ret => (ret, some obj)
      | .ok value =>
          match newValue type value with
          | none => (.errorParameterType, some obj)
          | some setValue => (.success, some (jsonObjectObjectAdd paramName setValue obj))

/-! ## What has been checked -/

theorem get_add (obj : JsonObject) (key : List Char) (v : JsonValue) :
    jsonObjectObjectGet (jsonObjectObjectAdd key v obj) key = some v := by
  induction obj with
  | nil => simp [jsonObjectObjectAdd, jsonObjectObjectGet]
  | cons m ms ih =>
      by_cases hkey : m.1 = key
      · simp [jsonObjectObjectAdd, jsonObjectObjectGet, hkey]
      · rw [jsonObjectObjectAdd, if_neg hkey, jsonObjectObjectGet, List.find?_cons_of_neg (by simpa)]
        exact ih

/-- What has been checked of a parameter and a string, and the value that is stored. -/
structure Stored (schema : ParamTable) (oid : Nat) (paramName : List Char) (type : JsonType)
    (value : List Char) (paramInfo : ParamInfo) (setValue : JsonValue) : Prop where
  found : findParam schema oid paramName = some paramInfo
  writable : paramInfo.writable = true
  accepted : typeAccepted type paramInfo.type = true
  length_lt : type.isText = true → value.length % 2 ^ 32 < paramInfo.len.toNat
  converted : (validateFormat type value).bind (newValue type) = some setValue

theorem zcfgFeParamChk_ok {schema : ParamTable} {oid : Nat} {paramName : List Char}
    {type : JsonType} {value value' : List Char}
    (h : zcfgFeParamChk schema oid paramName type value = .ok value') :
    ∃ paramInfo, findParam schema oid paramName = some paramInfo ∧ paramInfo.writable = true ∧
      typeAccepted type paramInfo.type = true ∧
      (type.isText = true → value.length % 2 ^ 32 < paramInfo.len.toNat) ∧
      validateFormat type value = some value' := by
  rw [zcfgFeParamChk] at h
  split at h
  · cases h
  · rename_i paramInfo hfound
    split at h
    · cases h
    · rename_i hwritable
      split at h
      · cases h
      · rename_i haccepted
        split at h
        · cases h
        · rename_i hlength
          split at h
          · cases h
          · rename_i checked hformat
            injection h with hvalue
            subst hvalue
            refine ⟨paramInfo, hfound, by simpa using hwritable, by simpa using haccepted, ?_,
              hformat⟩
            intro htext
            rw [htext, Bool.true_and, decide_eq_true_eq, Nat.not_le] at hlength
            exact hlength

/-- A failed check has an error code. -/
theorem zcfgFeParamChk_error {schema : ParamTable} {oid : Nat} {paramName : List Char}
    {type : JsonType} {value : List Char} {ret : ZcfgRet}
    (h : zcfgFeParamChk schema oid paramName type value = .error ret) : ret ≠ .success := by
  rw [zcfgFeParamChk] at h
  repeat' split at h
  all_goals cases h
  all_goals decide

/-- When a value is stored, these checks have been passed and it is found under its name. -/
theorem zcfgFeJsonObjParamSet_success {schema : ParamTable} {oid : Nat} {paramName : List Char}
    {type : JsonType} {setJobj obj : Option JsonObject} {value : List Char}
    (h : zcfgFeJsonObjParamSet schema oid paramName type setJobj value = (.success, obj)) :
    ∃ paramInfo setValue, Stored schema oid paramName type value paramInfo setValue ∧
      obj.bind (jsonObjectObjectGet · paramName) = some setValue := by
  unfold zcfgFeJsonObjParamSet at h
  split at h
  · cases h
  · rename_i old
    split at h
    · rename_i ret herror
      obtain ⟨hret, -⟩ := Prod.mk.inj h
      exact absurd hret (zcfgFeParamChk_error herror)
    · rename_i value' hok
      obtain ⟨paramInfo, hfound, hwritable, haccepted, hlength, hformat⟩ := zcfgFeParamChk_ok hok
      split at h
      · cases h
      · rename_i setValue hnew
        obtain ⟨-, hobj⟩ := Prod.mk.inj h
        refine ⟨paramInfo, setValue, ?_, ?_⟩
        · exact ⟨hfound, hwritable, haccepted, hlength, by rw [hformat]; exact hnew⟩
        · rw [← hobj]
          exact get_add old paramName setValue

/-! ## What the schema asks for -/

/-- A decimal numeral, with a minus in front if that is allowed. -/
def Numeral (minus : Prop) (value : List Char) (n : Int) : Prop :=
  (value ≠ [] ∧ value.all Char.isDigit = true ∧ n = digitsValue value) ∨
    (minus ∧ ∃ digits, value = '-' :: digits ∧ digits ≠ [] ∧ digits.all Char.isDigit = true ∧
      n = -(digitsValue digits : Int))

/-- An integer of a type with the given range. -/
def NumberConforms (minus : Prop) (low high : Int) (value : List Char) (setValue : JsonValue) :
    Prop :=
  ∃ n, Numeral minus value n ∧ setValue = .int n ∧ low ≤ n ∧ n < high

/-- The layout that the source gives for a time, {lit}`0001-01-01T00:00:00Z`. -/
def timeLayout : List Char :=
  ['0', '0', '0', '1', '-', '0', '1', '-', '0', '1', 'T', '0', '0', ':', '0', '0', ':', '0', '0',
    'Z']

/-- Digits where the layout has digits, and what the layout has elsewhere. -/
def IsTime (value : List Char) : Prop :=
  List.Forall₂ (fun l c => if l.isDigit then c.isDigit = true else c = l) timeLayout value

/-- Groups of four base64 characters, with at most two of them replaced by the padding. -/
def IsBase64 (value : List Char) : Prop :=
  ∃ body pad, value = body ++ List.replicate pad '=' ∧ body.all isBase64Char = true ∧ pad ≤ 2 ∧
    value.length % 4 = 0

/-- A text that is shorter than the length in the schema. -/
def TextConforms (paramInfo : ParamInfo) (value : List Char) (setValue : JsonValue) : Prop :=
  (∃ type, setValue = .text type value) ∧ value.length < paramInfo.len.toNat

/-- The strings for a truth value. -/
def Flag (value : List Char) (b : Bool) : Prop :=
  if b then value = ['1'] ∨ value.map Char.toLower = ['t', 'r', 'u', 'e']
  else value = ['0'] ∨ value.map Char.toLower = ['f', 'a', 'l', 's', 'e']

/-- A string and the value that is stored for it conform to the type in the schema. -/
def Conforms (paramInfo : ParamInfo) (value : List Char) (setValue : JsonValue) : Prop :=
  match paramInfo.type with
  | .boolean => ∃ b, Flag value b ∧ setValue = .boolean b
  | .int => NumberConforms True (-2 ^ 31) (2 ^ 31) value setValue
  | .uint8 => NumberConforms False 0 (2 ^ 8) value setValue
  | .uint16 => NumberConforms False 0 (2 ^ 16) value setValue
  | .uint32 => NumberConforms False 0 (2 ^ 32) value setValue
  | .ulong => NumberConforms False 0 (2 ^ 64) value setValue
  | .string => TextConforms paramInfo value setValue
  | .hex => TextConforms paramInfo value setValue ∧ value.all isHexDigit = true
  | .base64 => TextConforms paramInfo value setValue ∧ IsBase64 value
  | .time => TextConforms paramInfo value setValue ∧ IsTime value
  | _ => False

/-! ## Numbers -/

theorem atoi_of_all {value : List Char} (h : value.all Char.isDigit = true) :
    atoi value = digitsValue value := by
  by_cases hne : value = []
  · subst hne
    rfl
  · exact atoi_digits hne (List.all_eq_true.mp h)

theorem atoi_nonneg_of_all {value : List Char} (h : value.all Char.isDigit = true) :
    0 ≤ atoi value := by
  rw [atoi_of_all h]
  exact Int.natCast_nonneg _

theorem atoi_minus {digits : List Char} (h : digits.all Char.isDigit = true) :
    atoi ('-' :: digits) = -(digitsValue digits : Int) := by
  have htake : digits.takeWhile Char.isDigit = digits :=
    List.takeWhile_eq_self_iff.mpr (List.all_eq_true.mp h)
  have hdrop : ('-' :: digits).dropWhile isSpace = '-' :: digits :=
    List.dropWhile_cons_of_neg (by decide)
  rw [atoi, hdrop]
  simp only [htake]

theorem not_all_minus (digits : List Char) : ('-' :: digits).all Char.isDigit = false := by
  rw [List.all_cons]
  rfl

/-- A string of digits is the numeral of its number, unless it is empty. -/
theorem numeral_iff_of_digits {value : List Char} (h : value.all Char.isDigit = true)
    (minus : Prop) (n : Int) : Numeral minus value n ↔ value ≠ [] ∧ n = atoi value := by
  constructor
  · rintro (⟨hne, -, hn⟩ | ⟨-, digits, rfl, -⟩)
    · exact ⟨hne, hn.trans (atoi_of_all h).symm⟩
    · rw [not_all_minus] at h
      cases h
  · rintro ⟨hne, hn⟩
    exact Or.inl ⟨hne, h, hn.trans (atoi_of_all h)⟩

/-- What the check for {lit}`json_type_int` lets through: digits, or a minus and a number that is not
zero. -/
theorem of_intFormat {value : List Char} (h : intFormat value = true) :
    value.all Char.isDigit = true ∨
      ∃ digits, value = '-' :: digits ∧ digits ≠ [] ∧ digits.all Char.isDigit = true ∧
        atoi value < 0 := by
  unfold intFormat at h
  split at h
  · rename_i hneg
    split at h
    · rename_i digits
      have hle : atoi ('-' :: digits) = -(digitsValue digits : Int) := atoi_minus h
      have hzero : atoi ('-' :: digits) ≠ 0 := by
        intro hzero
        rw [atol, hzero] at hneg
        exact absurd hneg (by decide)
      refine Or.inr ⟨digits, rfl, ?_, h, by omega⟩
      rintro rfl
      exact hzero (by decide)
    · cases h
  · exact Or.inl h

theorem numeral_iff_of_intFormat {value : List Char} (h : intFormat value = true) {minus : Prop}
    {n : Int} (hminus : minus ∨ 0 ≤ n) : Numeral minus value n ↔ value ≠ [] ∧ n = atoi value := by
  rcases of_intFormat h with hdigits | ⟨digits, rfl, hne, hdigits, hneg⟩
  · exact numeral_iff_of_digits hdigits minus n
  · have hvalue := atoi_minus hdigits
    constructor
    · rintro (⟨-, hall, -⟩ | ⟨-, digits', heq, -, -, hn⟩)
      · rw [not_all_minus] at hall
        cases hall
      · obtain ⟨-, rfl⟩ := List.cons.inj heq
        exact ⟨List.cons_ne_nil _ _, hn.trans hvalue.symm⟩
    · rintro ⟨-, hn⟩
      have hm : minus := by
        rcases hminus with hm | hn'
        · exact hm
        · omega
      exact Or.inr ⟨hm, digits, rfl, hne, hdigits, hn.trans hvalue⟩

/-- A stored integer conforms if it is the number of a string that is not empty, and in range. -/
theorem numberConforms_iff {minus : Prop} {low high m : Int} {value : List Char}
    (hnumeral : ∀ n, low ≤ n → (Numeral minus value n ↔ value ≠ [] ∧ n = atoi value)) :
    NumberConforms minus low high value (.int m) ↔
      value ≠ [] ∧ m = atoi value ∧ low ≤ atoi value ∧ atoi value < high := by
  constructor
  · rintro ⟨n, hn, hm, hlow, hhigh⟩
    obtain ⟨hne, rfl⟩ := (hnumeral n hlow).mp hn
    exact ⟨hne, JsonValue.int.inj hm, hlow, hhigh⟩
  · rintro ⟨hne, hm, hlow, hhigh⟩
    exact ⟨atoi value, (hnumeral _ hlow).mpr ⟨hne, rfl⟩, by rw [hm], hlow, hhigh⟩

/-- Conversion to a signed type of twice the given size keeps the numbers in its range. -/
theorem bmod_eq_self_iff {n : Int} {k : Nat} (hk : 0 < k) :
    n.bmod (2 * k) = n ↔ -(k : Int) ≤ n ∧ n < k := by
  rw [Int.bmod_eq_iff (by omega), Int.sub_self]
  constructor
  · rintro ⟨hlow, hhigh, -⟩
    omega
  · rintro ⟨hlow, hhigh⟩
    exact ⟨by omega, by omega, Int.dvd_zero _⟩

theorem atoiInt_eq_iff (value : List Char) :
    atoiInt value = atoi value ↔ -2 ^ 31 ≤ atoi value ∧ atoi value < 2 ^ 31 := by
  rw [atoiInt, show (2 ^ 32 : Nat) = 2 * 2 ^ 31 from rfl, bmod_eq_self_iff (by decide)]
  omega

/-- An unsigned number is stored as it is if it is a positive {lit}`int64_t`. -/
theorem strtoul_eq_iff {value : List Char} (h : 0 ≤ atoi value) :
    (strtoul value : Int).bmod (2 ^ 64) = atoi value ↔ atoi value < 2 ^ 63 := by
  rw [strtoul]
  split
  · have hmax : ((2 ^ 64 - 1 : Nat) : Int).bmod (2 ^ 64) = -1 := by decide
    rw [hmax]
    omega
  · have hvalue : ((atoi value % 2 ^ 64).toNat : Int) = atoi value := by omega
    rw [hvalue, show (2 ^ 64 : Nat) = 2 * 2 ^ 63 from rfl, bmod_eq_self_iff (by decide)]
    omega

/-! ## Texts -/

theorem bmod_of_lt {n : Nat} (h : n < 2 ^ 31) : (n : Int).bmod (2 ^ 32) = n := by
  rw [show (2 ^ 32 : Nat) = 2 * 2 ^ 31 from rfl, bmod_eq_self_iff (by decide)]
  omega

theorem strLen_eq {value : List Char} (h : value.length < 2 ^ 31) : strLen value = value.length :=
  bmod_of_lt h

theorem take_strLen {value : List Char} (h : value.length < 2 ^ 31) :
    value.take (strLen value).toNat = value := by
  rw [strLen_eq h, Int.toNat_natCast, List.take_length]

theorem textConforms_iff {paramInfo : ParamInfo} {value : List Char} (type : JsonType)
    (h : value.length % 2 ^ 32 < paramInfo.len.toNat) :
    TextConforms paramInfo value (.text type value) ↔ value.length < 2 ^ 32 := by
  have hlen := paramInfo.len.toNat_lt
  constructor
  · rintro ⟨-, hlt⟩
    omega
  · intro hlt
    rw [Nat.mod_eq_of_lt hlt] at h
    exact ⟨⟨type, rfl⟩, h⟩

theorem all_of_hexFormat {value : List Char} (hshort : value.length < 2 ^ 31)
    (h : hexFormat value = true) : value.all isHexDigit = true := by
  rwa [hexFormat, take_strLen hshort] at h

/-- The loop stops at the end or at a padding of at most two characters. -/
theorem base64Scan_some {n : Int} {cs rest : List Char} {index : Nat}
    (h : base64Scan n index cs = some rest) :
    ∃ body, cs = body ++ rest ∧ body.all isBase64Char = true ∧
      (rest = [] ∨ n - 2 ≤ (index + body.length : Nat)) := by
  induction cs generalizing index with
  | nil =>
      obtain rfl := Option.some.inj h
      exact ⟨[], rfl, rfl, Or.inl rfl⟩
  | cons c cs ih =>
      rw [base64Scan] at h
      split at h
      · rename_i hc
        obtain ⟨body, rfl, hbody, hrest⟩ := ih h
        refine ⟨c :: body, rfl, by rw [List.all_cons, hc, hbody]; rfl, ?_⟩
        rw [List.length_cons, ← Nat.add_assoc, Nat.add_right_comm]
        exact hrest
      · split at h
        · rename_i hpad
          obtain rfl := Option.some.inj h
          exact ⟨[], rfl, rfl, Or.inr hpad.2⟩
        · cases h

theorem isBase64_of_format {value : List Char} (hshort : value.length < 2 ^ 31)
    (h : base64Format value = true) : IsBase64 value := by
  rw [base64Format, take_strLen hshort, strLen_eq hshort, Bool.and_eq_true, decide_eq_true_eq] at h
  obtain ⟨hmod, hscan⟩ := h
  split at hscan
  · cases hscan
  · rename_i rest hrest
    obtain ⟨body, hvalue, hbody, hpad⟩ := base64Scan_some hrest
    have hlen : value.length = body.length + rest.length := by rw [hvalue, List.length_append]
    have hrep : rest = List.replicate rest.length '=' := by
      apply List.eq_replicate_of_mem
      intro c hc
      exact of_decide_eq_true (List.all_eq_true.mp hscan c hc)
    have htwo : rest.length ≤ 2 := by
      rcases hpad with rfl | hpad
      · exact Nat.zero_le 2
      · omega
    refine ⟨body, rest.length, ?_, hbody, htwo, ?_⟩
    · rw [← hrep]
      exact hvalue
    · have hcast : ((value.length : Int).tmod 4) = ((value.length % 4 : Nat) : Int) := rfl
      omega

/-- Character by character, the loop compares with the layout. -/
theorem timeChar_layout (index : Nat) (h : index < timeLayout.length) (c : Char)
    (hc : timeChar index c = true) :
    if timeLayout[index].isDigit then c.isDigit = true else c = timeLayout[index] := by
  have hindex : index < 20 := h
  interval_cases index <;> simpa [timeChar, timeLayout] using hc

/-- A time that has been checked has the layout if it has the length of the layout. -/
theorem isTime_iff {value : List Char} (h : timeFormat value = true) :
    IsTime value ↔ value.length = 20 := by
  constructor
  · intro htime
    exact (List.Forall₂.length_eq htime).symm
  · intro hlen
    have hshort : value.length < 2 ^ 31 := by omega
    rw [timeFormat, take_strLen hshort, Bool.and_eq_true, List.all_eq_true] at h
    have hlayout : timeLayout.length = value.length := hlen.symm
    apply List.forall₂_iff_get.mpr
    refine ⟨hlayout, ?_⟩
    intro i hi hi'
    apply timeChar_layout i hi
    exact h.2 (value[i], i) (List.mk_mem_zipIdx_iff_getElem?.mpr (List.getElem?_eq_getElem hi'))

theorem flag_of_format {value value' : List Char} (h : booleanFormat value = some value') :
    Flag value (atoiInt value' ≠ 0) := by
  rw [booleanFormat] at h
  split at h
  · rename_i htrue
    obtain rfl := Option.some.inj h
    exact Or.inr htrue
  · split at h
    · rename_i hfalse
      obtain rfl := Option.some.inj h
      exact Or.inr hfalse
    · split at h
      · rename_i hdigit
        obtain rfl := Option.some.inj h
        rcases hdigit with rfl | rfl
        · exact Or.inl rfl
        · exact Or.inl rfl
      · cases h

/-! ## When the stored value conforms -/

/-- What the check leaves open: a number is there, in the range of the schema and of the conversion;
a text is not too long for an {lit}`int`, or has its format all the same; a time has its last
character. -/
def Representable (paramInfo : ParamInfo) (type : JsonType) (value : List Char) : Prop :=
  match paramInfo.type with
  | .boolean => True
  | .int => value ≠ [] ∧ -2 ^ 31 ≤ atoi value ∧ atoi value < 2 ^ 31
  | .uint8 => value ≠ [] ∧ atoi value < 2 ^ 8
  | .uint16 => value ≠ [] ∧ atoi value < 2 ^ 16
  | .uint32 => value ≠ [] ∧ 0 ≤ atoi value ∧
      atoi value < if type = .int then 2 ^ 31 else 2 ^ 32
  | .ulong => value ≠ [] ∧ atoi value < 2 ^ 63
  | .string => value.length < 2 ^ 32
  | .hex => value.length < 2 ^ 32 ∧
      ((type = .hex ∧ value.length < 2 ^ 31) ∨ value.all isHexDigit = true)
  | .base64 => value.length < 2 ^ 32 ∧ (value.length < 2 ^ 31 ∨ IsBase64 value)
  | .time => value.length = 20
  | _ => False

/-- A string converted by {lit}`strtoul` for an unsigned type. -/
theorem unsigned_conforms_iff {value : List Char} (h : value.all Char.isDigit = true) (minus : Prop)
    (low high : Int) (hlow : low ≤ 0) :
    NumberConforms minus low high value (.int ((strtoul value : Int).bmod (2 ^ 64))) ↔
      value ≠ [] ∧ atoi value < 2 ^ 63 ∧ atoi value < high := by
  have hpos := atoi_nonneg_of_all h
  rw [numberConforms_iff (fun n _ => numeral_iff_of_digits h minus n), strtoul_eq_iff hpos]
  constructor
  · rintro ⟨hne, hsmall, -, hhigh⟩
    exact ⟨hne, hsmall, hhigh⟩
  · rintro ⟨hne, hsmall, hhigh⟩
    exact ⟨hne, hsmall, by omega, hhigh⟩

/-- A string converted by {lit}`atoi`. -/
theorem signed_conforms_iff {value : List Char} (h : intFormat value = true) (minus : Prop)
    (low high : Int) (hminus : minus ∨ low = 0) :
    NumberConforms minus low high value (.int (atoiInt value)) ↔
      value ≠ [] ∧ (-2 ^ 31 ≤ atoi value ∧ atoi value < 2 ^ 31) ∧ low ≤ atoi value ∧
        atoi value < high := by
  have hnumeral : ∀ n, low ≤ n → (Numeral minus value n ↔ value ≠ [] ∧ n = atoi value) := by
    intro n hn
    apply numeral_iff_of_intFormat h
    rcases hminus with hminus | rfl
    · exact Or.inl hminus
    · exact Or.inr hn
  rw [numberConforms_iff hnumeral, atoiInt_eq_iff]

/-- The pairs of types that a value is stored with. -/
theorem typeAccepted_cases {type paramType : JsonType} (h : typeAccepted type paramType = true) :
    type = paramType ∨ (type = .string ∧ paramType = .hex) ∨ (type = .uint32 ∧ paramType = .int) ∨
      (type = .int ∧ paramType = .uint32) := by
  simpa [typeAccepted, or_assoc] using h

theorem converted_of_bool {type : JsonType} {value : List Char} {b : Bool} {setValue : JsonValue}
    (h : (if b = true then some value else none).bind (newValue type) = some setValue) :
    b = true ∧ newValue type value = some setValue := by
  cases b with
  | false => cases h
  | true => exact ⟨rfl, h⟩

/-- The caller names the type in the schema. -/
theorem conforms_iff_same {paramInfo : ParamInfo} {value : List Char} {setValue : JsonValue}
    (hlength : paramInfo.type.isText = true → value.length % 2 ^ 32 < paramInfo.len.toNat)
    (hconv : (validateFormat paramInfo.type value).bind (newValue paramInfo.type) = some setValue) :
    Conforms paramInfo value setValue ↔ Representable paramInfo paramInfo.type value := by
  unfold Conforms Representable
  generalize paramInfo.type = type at hlength hconv
  cases type with
  | boolean =>
      obtain ⟨value', hformat, hnew⟩ := Option.bind_eq_some_iff.mp hconv
      exact iff_of_true ⟨_, flag_of_format hformat, (Option.some.inj hnew).symm⟩ trivial
  | int =>
      obtain ⟨hformat, hnew⟩ := converted_of_bool hconv
      obtain rfl := Option.some.inj hnew
      simp only
      rw [signed_conforms_iff hformat True _ _ (Or.inl trivial)]
      exact ⟨fun h => ⟨h.1, h.2.2⟩, fun h => ⟨h.1, h.2, h.2⟩⟩
  | uint8 | uint16 | uint32 | ulong =>
      obtain ⟨hdigits, hnew⟩ := converted_of_bool hconv
      obtain rfl := Option.some.inj hnew
      have hpos := atoi_nonneg_of_all hdigits
      simp only [reduceCtorEq, if_false]
      rw [unsigned_conforms_iff hdigits False _ _ (by decide)]
      constructor
      · rintro ⟨hne, hsmall, hhigh⟩
        exact ⟨hne, by omega⟩
      · intro h
        exact ⟨h.1, by omega, by omega⟩
  | string =>
      obtain rfl := Option.some.inj hconv
      exact textConforms_iff .string (hlength rfl)
  | time =>
      rw [validateFormat] at hconv
      obtain ⟨hformat, hnew⟩ := converted_of_bool hconv
      obtain rfl := Option.some.inj hnew
      have hlen := hlength rfl
      simp only
      rw [textConforms_iff .time hlen, isTime_iff hformat]
      constructor
      · exact fun h => h.2
      · exact fun h => ⟨by omega, h⟩
  | base64 =>
      rw [validateFormat] at hconv
      obtain ⟨hformat, hnew⟩ := converted_of_bool hconv
      obtain rfl := Option.some.inj hnew
      have hlen := hlength rfl
      simp only
      rw [textConforms_iff .base64 hlen]
      constructor
      · exact fun h => ⟨h.1, Or.inr h.2⟩
      · rintro ⟨hlt, hshort | hbase⟩
        · exact ⟨hlt, isBase64_of_format hshort hformat⟩
        · exact ⟨hlt, hbase⟩
  | hex =>
      rw [validateFormat] at hconv
      obtain ⟨hformat, hnew⟩ := converted_of_bool hconv
      obtain rfl := Option.some.inj hnew
      have hlen := hlength rfl
      simp only
      rw [textConforms_iff .hex hlen]
      constructor
      · exact fun h => ⟨h.1, Or.inr h.2⟩
      · rintro ⟨hlt, ⟨-, hshort⟩ | hhex⟩
        · exact ⟨hlt, all_of_hexFormat hshort hformat⟩
        · exact ⟨hlt, hhex⟩
  | null | double | object | array | other => cases hconv

/-- The checks leave open what {lit}`Representable` says. -/
theorem Stored.conforms_iff {schema : ParamTable} {oid : Nat} {paramName : List Char}
    {type : JsonType} {value : List Char} {paramInfo : ParamInfo} {setValue : JsonValue}
    (h : Stored schema oid paramName type value paramInfo setValue) :
    Conforms paramInfo value setValue ↔ Representable paramInfo type value := by
  obtain ⟨-, -, haccepted, hlength, hconv⟩ := h
  rcases typeAccepted_cases haccepted with rfl | ⟨rfl, htype⟩ | ⟨rfl, htype⟩ | ⟨rfl, htype⟩
  · exact conforms_iff_same hlength hconv
  · -- a text for hexadecimal digits, which are not looked at
    obtain rfl := Option.some.inj hconv
    simp only [Conforms, Representable, htype]
    rw [textConforms_iff .string (hlength rfl)]
    simp
  · -- an unsigned number for a signed type
    obtain ⟨hdigits, hnew⟩ := converted_of_bool hconv
    obtain rfl := Option.some.inj hnew
    have hpos := atoi_nonneg_of_all hdigits
    simp only [Conforms, Representable, htype]
    rw [unsigned_conforms_iff hdigits True _ _ (by decide)]
    constructor
    · rintro ⟨hne, -, hhigh⟩
      exact ⟨hne, by omega, hhigh⟩
    · rintro ⟨hne, -, hhigh⟩
      exact ⟨hne, by omega, hhigh⟩
  · -- a signed number for an unsigned type
    obtain ⟨hformat, hnew⟩ := converted_of_bool hconv
    obtain rfl := Option.some.inj hnew
    simp only [Conforms, Representable, htype, if_true]
    rw [signed_conforms_iff hformat False _ _ (Or.inr rfl)]
    constructor
    · rintro ⟨hne, ⟨-, hint⟩, hlow, -⟩
      exact ⟨hne, hlow, hint⟩
    · rintro ⟨hne, hlow, hint⟩
      exact ⟨hne, ⟨by omega, hint⟩, hlow, by omega⟩

/-- The parameter is writable, and the value that is stored for it conforms to the schema. -/
def StoredConforms (schema : ParamTable) (oid : Nat) (paramName value : List Char)
    (obj : Option JsonObject) : Prop :=
  ∃ paramInfo setValue, findParam schema oid paramName = some paramInfo ∧
    paramInfo.writable = true ∧ obj.bind (jsonObjectObjectGet · paramName) = some setValue ∧
    Conforms paramInfo value setValue

/-- When {lit}`zcfgFeJsonObjParamSet` succeeds, the parameter is writable and the stored value
conforms to the schema if and only if a number is there and in the range of the schema and of the
conversion, a hexadecimal text under another type has only hexadecimal digits, a time ends with
{lit}`Z`, and no text is too long for an {lit}`int`. -/
theorem paramSet_conforms_iff (schema : ParamTable) (oid : Nat) (paramName : List Char)
    (type : JsonType) (setJobj obj : Option JsonObject) (value : List Char)
    (h : zcfgFeJsonObjParamSet schema oid paramName type setJobj value = (.success, obj)) :
    StoredConforms schema oid paramName value obj ↔
      ∃ paramInfo, findParam schema oid paramName = some paramInfo ∧
        Representable paramInfo type value := by
  obtain ⟨paramInfo, setValue, hstored, hget⟩ := zcfgFeJsonObjParamSet_success h
  have hiff := hstored.conforms_iff
  constructor
  · rintro ⟨paramInfo', setValue', hfound, -, hget', hconforms⟩
    rw [hstored.found] at hfound
    rw [hget] at hget'
    obtain rfl := Option.some.inj hfound
    obtain rfl := Option.some.inj hget'
    exact ⟨paramInfo, hstored.found, hiff.mp hconforms⟩
  · rintro ⟨paramInfo', hfound, hrep⟩
    rw [hstored.found] at hfound
    obtain rfl := Option.some.inj hfound
    exact ⟨paramInfo, setValue, hstored.found, hstored.writable, hget, hiff.mpr hrep⟩

/-- A schema with one writable parameter {lit}`Prio` of type {lit}`uint8`. -/
def prioSchema : ParamTable :=
  fun _ => [{ name := ['P', 'r', 'i', 'o'], type := .uint8, len := 0, attr := 0 }]

/-- {lit}`"255"` is stored and conforms. -/
theorem paramSet_255_conforms :
    StoredConforms prioSchema 0 ['P', 'r', 'i', 'o'] ['2', '5', '5']
      (some [(['P', 'r', 'i', 'o'], .int 255)]) :=
  (paramSet_conforms_iff prioSchema 0 ['P', 'r', 'i', 'o'] .uint8 (some [])
    (some [(['P', 'r', 'i', 'o'], .int 255)]) ['2', '5', '5'] (by decide)).mpr
    ⟨_, rfl, by decide, by decide⟩

/-- {lit}`"256"` is stored for a {lit}`uint8`, and so is the empty string. -/
theorem paramSet_stores_256 :
    zcfgFeJsonObjParamSet prioSchema 0 ['P', 'r', 'i', 'o'] .uint8 (some []) ['2', '5', '6'] =
        (.success, some [(['P', 'r', 'i', 'o'], .int 256)]) ∧
      ¬ StoredConforms prioSchema 0 ['P', 'r', 'i', 'o'] ['2', '5', '6']
        (some [(['P', 'r', 'i', 'o'], .int 256)]) ∧
      zcfgFeJsonObjParamSet prioSchema 0 ['P', 'r', 'i', 'o'] .uint8 (some []) [] =
        (.success, some [(['P', 'r', 'i', 'o'], .int 0)]) ∧
      ¬ StoredConforms prioSchema 0 ['P', 'r', 'i', 'o'] []
        (some [(['P', 'r', 'i', 'o'], .int 0)]) := by
  refine ⟨by decide, ?_, by decide, ?_⟩
  · rintro ⟨paramInfo, setValue, hfound, -, hget, hconforms⟩
    obtain rfl := Option.some.inj hfound
    obtain rfl := Option.some.inj hget
    obtain ⟨n, -, hn, -, hhigh⟩ := hconforms
    obtain rfl := JsonValue.int.inj hn
    exact absurd hhigh (by decide)
  · rintro ⟨paramInfo, setValue, hfound, -, -, hconforms⟩
    obtain rfl := Option.some.inj hfound
    obtain ⟨n, hn, -⟩ := hconforms
    rcases hn with ⟨hne, -⟩ | ⟨hminus, -⟩
    · exact hne rfl
    · exact hminus

end FeString
end ZyxelRouter
