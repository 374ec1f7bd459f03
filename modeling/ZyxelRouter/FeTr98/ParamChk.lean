import ZyxelRouter.FeString.ParamSet
import ZyxelRouter.FeTr98.Notify

/-!
# Checking and setting a TR-098 parameter

{lit}`zcfgFeTr98ParamChk` looks up a parameter in the table of objects and checks a value string by its
type, and {lit}`zcfgFeTr98ObjParamSet` puts the string into a JSON object as a value of the type.

Main results:

- Theorem {lit}`paramChk_success`: what has been checked of a parameter.
- Theorem {lit}`checkFormat_conforms_iff`: when a checked string is stored as the type asks.
- Theorem {lit}`paramChk_set_iff`: the same for a parameter of the table.
-/

namespace ZyxelRouter
namespace FeTr98

open Lib FeString

/-! ## The table -/

/-- {lit}`tr98Parameter_t`. -/
structure Tr98Parameter where
  name : List Char
  attr : UInt32
  len : Int
  type : JsonType
deriving DecidableEq

/-- The fields of {lit}`tr98Object_t` that are used here. -/
structure Tr98Object where
  name : List Char
  parameter : Option (List Tr98Parameter)
deriving DecidableEq

/-- {lit}`zcfgFeTr98HandlerGet`: the search starts at the object that was found last and goes around. -/
def zcfgFeTr98HandlerGet (tr98Obj : List Tr98Object) (last : Nat) (tr98FullPathName : List Char) :
    Option Nat :=
  ((List.range' last (tr98Obj.length - last)) ++ List.range last).find? fun c =>
    tr98Obj[c]?.any (·.name = tr98FullPathName)

/-- The loop over the parameters of the object. -/
def findTr98Param (tr98Obj : List Tr98Object) (last : Nat) (tr98ClassName name : List Char) :
    Option Tr98Parameter := do
  let handler ← zcfgFeTr98HandlerGet tr98Obj last tr98ClassName
  let obj ← tr98Obj[handler]?
  let paramList ← obj.parameter
  paramList.find? (·.name = name)

/-! ## The functions -/

/-- The {lit}`switch` of {lit}`zcfgFeTr98ParamChk`: the string afterwards, or {lit}`none` for
{lit}`ZCFG_INVALID_PARAM_VALUE`. -/
def checkFormat (type : JsonType) (value : List Char) : Option (List Char) :=
  match type with
  | .int => if intFormat value then some value else none
  | .uint8 | .uint16 | .uint32 | .ulong => if value.all Char.isDigit then some value else none
  | .boolean => booleanFormat value
  | .time => if timeFormat value then some value else none
  | _ => some value

/-- The test of the length, with {lit}`len` as a {lit}`size_t`. -/
def tooLong (param : Tr98Parameter) (value : List Char) : Bool :=
  (param.type = .string || param.type = .base64) && (param.len % 2 ^ 64).toNat ≤ value.length

/-- {lit}`zcfgFeTr98ParamChk`: the result and {lit}`value` afterwards, or {lit}`none` if the class name does
not fit into its buffer. -/
def zcfgFeTr98ParamChk (tr98Obj : List Tr98Object) (last : Nat)
    (tr98ObjName name value : List Char) : Option (ZcfgRet × List Char) :=
  match zcfgFeTr98ClassNameGet tr98ObjName with
  | none => some (.invalidObject, value)
  | some tr98ClassName =>
      if tr98ClassNameSize ≤ tr98ClassName.length then none
      else
        match findTr98Param tr98Obj last tr98ClassName name with
        | none => some (.noSuchParameter, value)
        | some param =>
            if param.attr &&& parameterAttrReadonly ≠ 0 then some (.setReadOnlyParam, value)
            else if tooLong param value then some (.invalidParamValueLength, value)
            else
              match checkFormat param.type value with
              | none => some (.invalidParamValue, value)
              | some value => some (.success, value)

/-- {lit}`base64Char`. -/
def base64Char (c : Char) : Bool :=
  c.isDigit || c.isAlpha || c = '+' || c = '=' || c = '/'

/-- The JSON value of a string in {lit}`zcfgFeTr98ObjParamSet`.  Other characters are taken out of a
base64 text, which {lit}`base64Decode` decodes then. -/
def tr98SetValue (base64Decode : List Char → List Char) (type : JsonType) (value : List Char) :
    Option JsonValue :=
  match type with
  | .boolean => some (.boolean (atoiInt value ≠ 0))
  | .int => some (.int (atoiInt value))
  | .uint8 | .uint16 | .uint32 | .ulong => some (.int ((strtoul value : Int).bmod (2 ^ 64)))
  | .base64 =>
      if value = [] then some (.text .string [])
      else some (.text .string (base64Decode (value.filter base64Char)))
  | .string | .time => some (.text .string value)
  | _ => none

/-- {lit}`zcfgFeTr98ObjParamSet`: the result and the JSON object, which may be missing. -/
def zcfgFeTr98ObjParamSet (base64Decode : List Char → List Char) (paramName : List Char)
    (type : JsonType) (setJobj : Option JsonObject) (value : List Char) :
    ZcfgRet × Option JsonObject :=
  match setJobj with
  | none => (.internalError, none)
  | some obj =>
      match tr98SetValue base64Decode type value with
      | none => (.errorParameterType, some obj)
      | some setValue => (.success, some (jsonObjectObjectAdd paramName setValue obj))

/-! ## What the types ask for -/

/-- A time, with or without its last character. -/
def IsTr98Time (value : List Char) : Prop :=
  IsTime value ∨ IsTime (value ++ ['Z'])

/-- A string and the value that is stored for it conform to a type. -/
def ConformsTo (type : JsonType) (value : List Char) (setValue : JsonValue) : Prop :=
  match type with
  | .boolean => ∃ b, Flag value b ∧ setValue = .boolean b
  | .int => NumberConforms True (-2 ^ 31) (2 ^ 31) value setValue
  | .uint8 => NumberConforms False 0 (2 ^ 8) value setValue
  | .uint16 => NumberConforms False 0 (2 ^ 16) value setValue
  | .uint32 => NumberConforms False 0 (2 ^ 32) value setValue
  | .ulong => NumberConforms False 0 (2 ^ 64) value setValue
  | .time => setValue = .text .string value ∧ IsTr98Time value
  | .string => setValue = .text .string value
  | .base64 => ∃ decoded, setValue = .text .string decoded
  | _ => False

/-- What the check leaves open: a number is there, in the range of its type and of the conversion; a
time is not too long for an {lit}`int`; the type can be set. -/
def Settable (type : JsonType) (value : List Char) : Prop :=
  match type with
  | .boolean | .string | .base64 => True
  | .int => value ≠ [] ∧ -2 ^ 31 ≤ atoi value ∧ atoi value < 2 ^ 31
  | .uint8 => value ≠ [] ∧ atoi value < 2 ^ 8
  | .uint16 => value ≠ [] ∧ atoi value < 2 ^ 16
  | .uint32 => value ≠ [] ∧ atoi value < 2 ^ 32
  | .ulong => value ≠ [] ∧ atoi value < 2 ^ 63
  | .time => value.length ≤ 20
  | _ => False

/-! ## Checked strings -/

/-- A checked time conforms if it is not longer than the layout. -/
theorem isTr98Time_iff {value : List Char} (h : timeFormat value = true) :
    IsTr98Time value ↔ value.length ≤ 20 := by
  constructor
  · rintro (htime | htime)
    · exact le_of_eq (List.Forall₂.length_eq htime).symm
    · have hlen := (List.Forall₂.length_eq htime).symm
      rw [List.length_append, List.length_singleton] at hlen
      have hlayout : timeLayout.length = 20 := rfl
      omega
  · intro hle
    have hshort : value.length < 2 ^ 31 := by omega
    have hparts := h
    rw [timeFormat, take_strLen hshort, strLen_eq hshort, Bool.and_eq_true, Bool.or_eq_true,
      decide_eq_true_eq, decide_eq_true_eq] at hparts
    obtain ⟨hlen | hlen, hchars⟩ := hparts
    · -- without the last character
      have hlen' : (value ++ ['Z']).length = 20 := by
        rw [List.length_append, List.length_singleton]
        omega
      have hshort' : (value ++ ['Z']).length < 2 ^ 31 := by omega
      have hlast : value.length = 19 := by omega
      refine .inr ((isTime_iff ?_).mpr hlen')
      rw [timeFormat, take_strLen hshort', strLen_eq hshort', hlen', List.zipIdx_append,
        List.all_append, hchars, hlast]
      rfl
    · exact .inl ((isTime_iff h).mpr (by omega))

/-- A checked string is stored as its type asks if and only if the check left nothing open. -/
theorem checkFormat_conforms_iff (base64Decode : List Char → List Char) {type : JsonType}
    {value value' : List Char} (h : checkFormat type value = some value') :
    (∃ setValue, tr98SetValue base64Decode type value' = some setValue ∧
        ConformsTo type value setValue) ↔ Settable type value := by
  unfold checkFormat at h
  unfold tr98SetValue ConformsTo Settable
  cases type with
  | boolean => exact iff_of_true ⟨_, rfl, _, flag_of_format h, rfl⟩ trivial
  | int =>
      obtain ⟨hformat, hvalue⟩ := Option.ite_none_right_eq_some.mp h
      obtain rfl := Option.some.inj hvalue
      simp only [Option.some.injEq, exists_eq_left']
      rw [signed_conforms_iff hformat True _ _ (Or.inl trivial)]
      exact ⟨fun h => ⟨h.1, h.2.2⟩, fun h => ⟨h.1, h.2, h.2⟩⟩
  | uint8 | uint16 | uint32 | ulong =>
      obtain ⟨hdigits, hvalue⟩ := Option.ite_none_right_eq_some.mp h
      obtain rfl := Option.some.inj hvalue
      simp only [Option.some.injEq, exists_eq_left']
      rw [unsigned_conforms_iff hdigits False _ _ (by decide)]
      constructor
      · rintro ⟨hne, hsmall, hhigh⟩
        exact ⟨hne, by omega⟩
      · intro h
        exact ⟨h.1, by omega, by omega⟩
  | string =>
      obtain rfl := Option.some.inj h
      exact iff_of_true ⟨_, rfl, rfl⟩ trivial
  | time =>
      obtain ⟨hformat, hvalue⟩ := Option.ite_none_right_eq_some.mp h
      obtain rfl := Option.some.inj hvalue
      simp only [Option.some.injEq, exists_eq_left', true_and]
      exact isTr98Time_iff hformat
  | base64 =>
      obtain rfl := Option.some.inj h
      refine iff_of_true ?_ trivial
      by_cases hne : value = []
      · exact ⟨_, if_pos hne, [], rfl⟩
      · exact ⟨_, if_neg hne, _, rfl⟩
  | null | double | object | array | hex | other =>
      refine iff_of_false ?_ id
      rintro ⟨setValue, hnone, -⟩
      cases hnone

/-! ## Parameters of the table -/

/-- What has been checked of a parameter and a string. -/
theorem paramChk_success {tr98Obj : List Tr98Object} {last : Nat}
    {tr98ObjName name value value' : List Char}
    (h : zcfgFeTr98ParamChk tr98Obj last tr98ObjName name value = some (.success, value')) :
    ∃ tr98ClassName param, zcfgFeTr98ClassNameGet tr98ObjName = some tr98ClassName ∧
      findTr98Param tr98Obj last tr98ClassName name = some param ∧
      param.attr &&& parameterAttrReadonly = 0 ∧ tooLong param value = false ∧
      checkFormat param.type value = some value' := by
  unfold zcfgFeTr98ParamChk at h
  split at h
  · cases h
  · rename_i tr98ClassName hclass
    split at h
    · cases h
    · split at h
      · cases h
      · rename_i param hfound
        split at h
        · cases h
        · rename_i hwritable
          split at h
          · cases h
          · rename_i hshort
            split at h
            · cases h
            · rename_i checked hformat
              obtain ⟨-, rfl⟩ := Prod.mk.inj (Option.some.inj h)
              exact ⟨tr98ClassName, param, hclass, hfound, by simpa using hwritable,
                by simpa using hshort, hformat⟩

/-- The parameter of an object in the table. -/
def paramOf (tr98Obj : List Tr98Object) (last : Nat) (tr98ObjName name : List Char) :
    Option Tr98Parameter :=
  (zcfgFeTr98ClassNameGet tr98ObjName).bind fun tr98ClassName =>
    findTr98Param tr98Obj last tr98ClassName name

/-- The checked string can be set with the type of the parameter, and what is stored conforms to the
type. -/
def SetConforms (base64Decode : List Char → List Char) (param : Tr98Parameter)
    (name value value' : List Char) : Prop :=
  ∀ obj : JsonObject, ∃ setValue,
    zcfgFeTr98ObjParamSet base64Decode name param.type (some obj) value' =
        (.success, some (jsonObjectObjectAdd name setValue obj)) ∧
      ConformsTo param.type value setValue

/-- After a check that succeeds, the string is set and conforms to the type of the parameter if and
only if a number is there and in range, a time is not too long for an {lit}`int`, and the type can be
set at all. -/
theorem paramChk_set_iff (base64Decode : List Char → List Char) (tr98Obj : List Tr98Object)
    (last : Nat) (tr98ObjName name value value' : List Char)
    (h : zcfgFeTr98ParamChk tr98Obj last tr98ObjName name value = some (.success, value')) :
    (∃ param, paramOf tr98Obj last tr98ObjName name = some param ∧
        SetConforms base64Decode param name value value') ↔
      ∃ param, paramOf tr98Obj last tr98ObjName name = some param ∧ Settable param.type value := by
  obtain ⟨tr98ClassName, param, hclass, hfound, -, -, hformat⟩ := paramChk_success h
  have hparam : paramOf tr98Obj last tr98ObjName name = some param := by
    rw [paramOf, hclass]
    exact hfound
  have hiff := checkFormat_conforms_iff base64Decode hformat
  have hset : SetConforms base64Decode param name value value' ↔
      ∃ setValue, tr98SetValue base64Decode param.type value' = some setValue ∧
        ConformsTo param.type value setValue := by
    constructor
    · intro hall
      obtain ⟨setValue, hresult, hconforms⟩ := hall []
      simp only [zcfgFeTr98ObjParamSet] at hresult
      split at hresult
      · cases hresult
      · rename_i stored hstored
        have hobj := Option.some.inj (Prod.mk.inj hresult).2
        obtain rfl : stored = setValue := (Prod.mk.inj (List.cons.inj hobj).1).2
        exact ⟨stored, hstored, hconforms⟩
    · rintro ⟨setValue, hstored, hconforms⟩ obj
      refine ⟨setValue, ?_, hconforms⟩
      simp only [zcfgFeTr98ObjParamSet, hstored]
  simp only [hparam, Option.some.injEq, exists_eq_left', hset, hiff]

/-- The writable parameter {lit}`Timeout` of the ping diagnostics. -/
def pingTable : List Tr98Object :=
  [{ name := "InternetGatewayDevice.IPPingDiagnostics".toList
     parameter := some [{ name := "Timeout".toList, attr := 128, len := 0, type := .uint32 }] }]

theorem paramChk_set_5000 :
    (∃ param, paramOf pingTable 0 "InternetGatewayDevice.IPPingDiagnostics".toList
        "Timeout".toList = some param ∧
        SetConforms id param "Timeout".toList "5000".toList "5000".toList) ↔
      ∃ param, paramOf pingTable 0 "InternetGatewayDevice.IPPingDiagnostics".toList
        "Timeout".toList = some param ∧ Settable param.type "5000".toList :=
  paramChk_set_iff id pingTable 0 _ _ _ _ (by decide +kernel)

/-- The empty string passes the check of an unsigned parameter. -/
theorem paramChk_accepts_empty :
    zcfgFeTr98ParamChk pingTable 0 "InternetGatewayDevice.IPPingDiagnostics".toList
        "Timeout".toList [] = some (.success, []) ∧
      ¬ ∃ param, paramOf pingTable 0 "InternetGatewayDevice.IPPingDiagnostics".toList
        "Timeout".toList = some param ∧ SetConforms id param "Timeout".toList [] [] := by
  refine ⟨by decide +kernel, ?_⟩
  rintro ⟨param, hparam, hset⟩
  have htype : param.type = .uint32 := by
    have hfound : (paramOf pingTable 0 "InternetGatewayDevice.IPPingDiagnostics".toList
        "Timeout".toList).map (·.type) = some .uint32 := by decide +kernel
    rw [hparam] at hfound
    exact Option.some.inj hfound
  obtain ⟨setValue, -, hconforms⟩ := hset []
  rw [htype] at hconforms
  obtain ⟨n, hnumeral, -⟩ := hconforms
  rcases hnumeral with ⟨hne, -⟩ | ⟨hminus, -⟩
  · exact hne rfl
  · exact hminus

end FeTr98
end ZyxelRouter
