import Mathlib.Data.List.Basic

/-!
# Types shared by the configuration libraries

Return codes and object indices of {lit}`zcfg_common.h`.
-/

namespace ZyxelRouter

/-- The values of {lit}`zcfgRet_t` that the modelled functions return. -/
inductive ZcfgRet where
  | invalidObject
  | invalidParamValue
  | invalidParamValueLength
  | setReadOnlyParam
  | noSuchObject
  | invalidArguments
  | requestReject
  | notFound
  | objectUpdated
  | internalError
  | noSuchParameter
  | errorParameterType
  | invalidEid
  | timeout
  | success
  | successAndNoReply
  | deleteReject
  | noMoreInstance
deriving DecidableEq, Repr

/-- {lit}`SUPPORTED_INDEX_LEVEL`. -/
def supportedIndexLevel : Nat := 6

/-- {lit}`MAX_PARMNAME_LEN`. -/
def maxParmnameLen : Nat := 64

/-- {lit}`objIndex_t`. -/
structure ObjIndex where
  level : UInt8
  idx : List UInt8
  idx_length : idx.length = supportedIndexLevel
deriving DecidableEq

/-- {lit}`IID_INIT`: everything zero. -/
def ObjIndex.zero : ObjIndex where
  level := 0
  idx := List.replicate supportedIndexLevel 0
  idx_length := List.length_replicate

theorem ObjIndex.length_set (objIid : ObjIndex) (n : Nat) (value : UInt8) :
    (objIid.idx.set n value).length = supportedIndexLevel := by
  rw [List.length_set, objIid.idx_length]

theorem ObjIndex.length_single (i : UInt8) : [i, 0, 0, 0, 0, 0].length = supportedIndexLevel := rfl

/-- The seven bytes of an object index. -/
def ObjIndex.bytes (objIid : ObjIndex) : List UInt8 :=
  objIid.level :: objIid.idx

end ZyxelRouter
