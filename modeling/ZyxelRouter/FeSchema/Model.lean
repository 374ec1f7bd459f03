import Mathlib.Logic.Function.Basic
import ZyxelRouter.Lib.Bytes

/-!
# Parameter attributes in the shared schema

The front end keeps one attribute word per schema parameter in shared memory and
saves modified words in a JSON file.  {lit}`zcfgFeParamAttrSet` changes one word,
{lit}`zcfgFeMultiAttrSet` a whole request, with a rollback list for failures.

The outcome of saving the file is free in every call and given by {lit}`Env`, indexed
by the number of the call; memory allocation is taken to succeed.  json-c asserts that
members are added to objects only; a file in which that fails aborts the process,
modelled as {lit}`none`.
-/

namespace ZyxelRouter
namespace FeSchema

open Lib

/-! ## Schema and file -/

/-- An attribute word, {lit}`uint32_t`. -/
abbrev Attr := BitVec 32

/-- {lit}`PARAMETER_ATTR_NOTIFY_MASK`. -/
def parameterAttrNotifyMask : Attr := 3#32

/-- {lit}`PARAMETER_ATTR_ACTIVENOTIFY`. -/
def parameterAttrActiveNotify : Attr := 2#32

/-- {lit}`PARAMETER_ATTR_DENY_ACTIVENOTIFY_REQUEST`. -/
def parameterAttrDenyActiveNotifyRequest : Attr := 4#32

/-- The fields of {lit}`parameterInfo_t` used here. -/
structure ParamInfo where
  name : String
  attr : Attr
deriving DecidableEq, Repr

/-- The fields of {lit}`objInfo_t` used here, with the parameters behind it. -/
structure ObjInfo where
  name : String
  params : List ParamInfo
deriving DecidableEq, Repr

/-- The schema shared memory: the object at every offset ({lit}`GET_OBJ_INFO_BY_OID`). -/
abbrev Schema := Nat → ObjInfo

/-- The word found by the {lit}`strcmp` loop over the parameters of an object. -/
def findAttr (obj : ObjInfo) (name : String) : Option Attr :=
  (obj.params.find? (fun p => p.name = name)).map (·.attr)

/-- Store a word in the first parameter of the given name. -/
def setParamAttr (name : String) (attr : Attr) : List ParamInfo → List ParamInfo
  | [] => []
  | p :: ps => if p.name = name then { p with attr } :: ps else p :: setParamAttr name attr ps

/-- {lit}`paramInfo->attr = attr` at the parameter the loop stopped at. -/
def setAttr (schema : Schema) (oid : Nat) (name : String) (attr : Attr) : Schema :=
  Function.update schema oid
    { schema oid with params := setParamAttr name attr (schema oid).params }

/-- What the file holds under one object name. -/
inductive FileEntry where
  | attrs (words : List (String × Int))
  | null
  | notObject
deriving DecidableEq, Repr

/-- The file {lit}`ZCFG_ATTR_MODIFIED_SCHEMA_FILE`: missing, without a JSON object, or an
object from object names to entries. -/
inductive AttrFile where
  | absent
  | notObject
  | object (entries : List (String × FileEntry))
deriving DecidableEq, Repr

/-- Replace the value of a key, or append it. -/
def assocSet {α : Type} (key : String) (v : α) : List (String × α) → List (String × α)
  | [] => [(key, v)]
  | m :: ms => if m.1 = key then (key, v) :: ms else m :: assocSet key v ms

/-- The JSON tree to save after adding a word; {lit}`none` is a failed assertion of
{lit}`json_object_object_add`. -/
def recordAttr (file : AttrFile) (objName name : String) (attr : Attr) : Option AttrFile :=
  match file with
  | .absent => some (.object [(objName, .attrs [(name, attr.toNat)])])
  | .notObject => none
  | .object entries =>
      match entries.lookup objName with
      | some (.attrs words) =>
          some (.object (assocSet objName (.attrs (assocSet name (attr.toNat : Int) words)) entries))
      | some .notObject => none
      | some .null | none =>
          some (.object (assocSet objName (.attrs [(name, attr.toNat)]) entries))

/-! ## Setting one word -/

/-- Return codes of the two setters. -/
inductive ZcfgRet where
  | success
  | internalError
  | setAttrError
  | noSuchParameter
deriving DecidableEq, Repr

/-- The outcome of {lit}`json_object_to_file`; a failed save may leave any file. -/
inductive SaveResult where
  | saved
  | failed (left : AttrFile)
deriving DecidableEq, Repr

/-- The outcome of saving in the n-th call of {lit}`zcfgFeParamAttrSet`. -/
structure Env where
  save : Nat → SaveResult

/-- Shared memory, file, the global {lit}`attrSetRollback` and the calls made so far. -/
structure World where
  schema : Schema
  file : AttrFile
  attrSetRollback : Bool
  calls : Nat

/-- The request turns active notification on for a parameter that denies it. -/
def deniesRequest (rollback : Bool) (old attr : Attr) : Bool :=
  (old &&& parameterAttrNotifyMask) != (attr &&& parameterAttrNotifyMask) && !rollback &&
    (attr &&& parameterAttrNotifyMask) == parameterAttrActiveNotify &&
    (old &&& parameterAttrDenyActiveNotifyRequest) != 0

/-- {lit}`zcfgFeParamAttrSet`: the word in shared memory changes before the file is
saved. -/
def zcfgFeParamAttrSet (env : Env) (w : World) (rdmObjId : Nat) (parameterName : String)
    (attr : Attr) : Option (ZcfgRet × World) :=
  let w₁ := { w with calls := w.calls + 1 }
  match findAttr (w.schema rdmObjId) parameterName with
  | none => some (.noSuchParameter, w₁)
  | some old =>
      if deniesRequest w.attrSetRollback old attr then
        some (.setAttrError, w₁)
      else
        let w₂ := { w₁ with schema := setAttr w.schema rdmObjId parameterName attr }
        match recordAttr w.file (w.schema rdmObjId).name parameterName attr with
        | none => none
        | some schemaParamAttr =>
            match env.save w.calls with
            | .saved => some (.success, { w₂ with file := schemaParamAttr })
            | .failed left => some (.internalError, { w₂ with file := left })

/-! ## Setting a request -/

/-- {lit}`atoi`: blanks, an optional sign, and the digits that follow. -/
def atoi (s : String) : Int :=
  let cs := s.toList.dropWhile (fun ch => ch = ' ' ∨ (9 ≤ ch.toNat ∧ ch.toNat ≤ 13))
  let digits : List Char → Nat := fun ds =>
    (ds.takeWhile Char.isDigit).foldl (fun n ch => 10 * n + (ch.toNat - 48)) 0
  match cs with
  | '-' :: ds => -(digits ds : Int)
  | '+' :: ds => digits ds
  | ds => digits ds

/-- One word to set or to restore: {lit}`oid`, {lit}`paramName` and {lit}`attr`. -/
structure AttrRecord where
  oid : Nat
  paramName : String
  attr : Attr
deriving DecidableEq, Repr

/-- A request: object ids as keys, each with parameter names and integer values. -/
abbrev MultiAttr := List (String × List (String × Int))

/-- The words of a request in the order of the two nested foreach loops. -/
def attrRecords (multiAttrJobj : MultiAttr) : List AttrRecord :=
  multiAttrJobj.flatMap fun obj =>
    obj.2.map fun param => ⟨wordOf 4 (atoi obj.1), param.1, BitVec.ofInt 32 param.2⟩

/-- The rollback loop: restore the recorded words in the order they were recorded,
only logging failures. -/
def attrRollback (env : Env) : List AttrRecord → World → Option World
  | [], w => some w
  | now :: rest, w =>
      match zcfgFeParamAttrSet env w now.oid now.paramName now.attr with
      | none => none
      | some (_, w') => attrRollback env rest w'

/-- The body of {lit}`zcfgFeMultiAttrSet`, with the local {lit}`oldAttr` and the record
list starting at {lit}`head`. -/
def multiAttrLoop (env : Env) :
    List AttrRecord → World → Attr → List AttrRecord → Option (ZcfgRet × World)
  | [], w, _, _ => some (.success, w)
  | e :: rest, w, oldAttr, head =>
      let oldAttr := (findAttr (w.schema e.oid) e.paramName).getD oldAttr
      match zcfgFeParamAttrSet env w e.oid e.paramName e.attr with
      | none => none
      | some (.success, w') =>
          multiAttrLoop env rest w' oldAttr (head ++ [⟨e.oid, e.paramName, oldAttr⟩])
      | some (ret, w') =>
          match attrRollback env head { w' with attrSetRollback := true } with
          | none => none
          | some w'' => some (ret, { w'' with attrSetRollback := false })

/-- {lit}`zcfgFeMultiAttrSet`. -/
def zcfgFeMultiAttrSet (env : Env) (w : World) (multiAttrJobj : MultiAttr) :
    Option (ZcfgRet × World) :=
  multiAttrLoop env (attrRecords multiAttrJobj) w 0 []

end FeSchema
end ZyxelRouter
