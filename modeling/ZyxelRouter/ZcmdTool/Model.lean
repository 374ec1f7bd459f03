import ZyxelRouter.Lib.Bytes
import ZyxelRouter.Lib.StructLayout

/-!
# Struct and JSON conversion of schema objects

{lit}`zcmd_tool.c` turns the C struct of a data-model object into JSON and back.
Neither direction knows the struct type: both walk the parameter list of the
schema and recompute the byte position of every member with a cursor made of a
position and the number of bytes left up to the next four-byte boundary.

The module follows the two functions branch by branch.  JSON values are those of
json-c; parsing, printing and the parsing of numbers inside strings belong to
that library and enter as the parameter {lit}`JsonC`.
-/

namespace ZyxelRouter
namespace ZcmdTool

open Lib

/-! ## JSON values and the json-c accessors -/

/-- A JSON value.  Doubles and arrays are known to this code only through the
boolean and integer accessors, so {lit}`other` records what these return. -/
inductive JValue where
  | null
  | boolean (b : Bool)
  | int (i : Int)
  | string (s : List UInt8)
  | object (members : List (String × JValue))
  | other (asBool : Bool) (asInt : Int)

/-- The parts of json-c the conversion relies on and does not define. -/
structure JsonC where
  /-- {lit}`json_tokener_parse`, with {lit}`none` for an error. -/
  tokenerParse : List UInt8 → Option JValue
  /-- {lit}`json_object_to_json_string`. -/
  toJsonString : JValue → List UInt8
  /-- {lit}`json_parse_int64`, with {lit}`none` for a failed conversion. -/
  parseInt64 : List UInt8 → Option Int

/-- {lit}`INT64_MAX`. -/
def int64Max : Int := 2 ^ 63 - 1

/-- {lit}`json_object_object_get`: absent members and JSON null give no object. -/
def jsonObjectObjectGet (j : JValue) (key : String) : Option JValue :=
  match j with
  | .object members =>
      match members.lookup key with
      | some .null => none
      | found => found
  | _ => none

/-- {lit}`json_object_object_add`: replace the value of an existing key in place,
append a new key at the end. -/
def jsonObjectObjectAdd (members : List (String × JValue)) (key : String)
    (v : JValue) : List (String × JValue) :=
  if members.any (fun m => m.1 = key) then
    members.map (fun m => if m.1 = key then (m.1, v) else m)
  else members ++ [(key, v)]

/-- {lit}`json_object_get_boolean`. -/
def jsonObjectGetBoolean : JValue → Bool
  | .boolean b => b
  | .int i => i ≠ 0
  | .string s => s.length ≠ 0
  | .other asBool _ => asBool
  | _ => false

/-- {lit}`json_object_get_int` with the 64-bit patch: stored unsigned values above
{lit}`INT64_MAX` saturate. -/
def jsonObjectGetInt (jc : JsonC) : JValue → Int
  | .boolean b => if b then 1 else 0
  | .int i => if i ≥ int64Max then int64Max else i
  | .string s => (jc.parseInt64 s).getD 0
  | .other _ asInt => asInt
  | _ => 0

/-- {lit}`json_object_get_string`: any value but a string is printed. -/
def jsonObjectGetString (jc : JsonC) : JValue → List UInt8
  | .string s => s
  | v => jc.toJsonString v

/-- {lit}`json_object_new_int` with the 64-bit patch: the argument is converted to
{lit}`int64_t`. -/
def jsonObjectNewInt (i : Int) : JValue :=
  .int (signedOf 8 (wordOf 8 i))

/-- The bytes of a C string, up to its terminator. -/
def cstr (s : List UInt8) : List UInt8 :=
  s.takeWhile (· ≠ 0)

/-! ## The schema -/

/-- Schema parameter types, {lit}`other` being any code the switches do not list. -/
inductive ParamType where
  | boolean | int | ulong | uint32 | uint16 | uint8
  | string | time | base64 | hex | other
deriving DecidableEq, Repr

/-- The switch label group of an unsigned integer type. -/
def ParamType.isUnsigned : ParamType → Bool
  | .ulong | .uint32 | .uint16 | .uint8 => true
  | _ => false

/-- The switch label group of a character-array type. -/
def ParamType.isText : ParamType → Bool
  | .string | .time | .base64 | .hex => true
  | _ => false

/-- The fields of {lit}`parameterInfo_t` the conversion reads. -/
structure ParameterInfo where
  name : String
  type : ParamType
  len : Nat
deriving DecidableEq, Repr

/-- Signed or unsigned integer parameters. -/
def ParameterInfo.isInteger (p : ParameterInfo) : Bool :=
  p.type = .int || p.type.isUnsigned

/-- The lengths a schema gives to each type. -/
def ParameterInfo.WellTyped (p : ParameterInfo) : Prop :=
  (p.type = .boolean ∧ p.len = 1) ∨
  (p.isInteger ∧ (p.len = 1 ∨ p.len = 2 ∨ p.len = 4 ∨ p.len = 8)) ∨
  (p.type.isText ∧ 1 ≤ p.len)

/-- The struct member generated for a parameter: booleans and character arrays
are byte aligned, integers are aligned to their width. -/
def ParameterInfo.member (p : ParameterInfo) : StructLayout.Member where
  align := if p.isInteger then p.len else 1
  size := p.len

/-- A schema object: the parameters of {lit}`objInfo_t` and the allocation size.
The names are the members of one C struct, which fits the allocation. -/
structure ObjInfo where
  params : List ParameterInfo
  size : Nat
  namesNodup : (params.map (·.name)).Nodup
  wellTyped : ∀ p ∈ params, p.WellTyped
  structFits : StructLayout.endOffset 0 (params.map (·.member)) ≤ size

/-! ## The layout cursor -/

/-- {lit}`BOUNDARY`. -/
def boundary : Nat := 4

/-- The local variables {lit}`pos` and {lit}`redundantSpace`. -/
structure Cursor where
  pos : Nat
  redundantSpace : Nat
deriving DecidableEq, Repr

/-- Both functions start with {lit}`pos = 0` and {lit}`redundantSpace = 0`. -/
def Cursor.start : Cursor := ⟨0, 0⟩

/-- The boolean branch: offset used for the member, and the cursor after it. -/
def placeBoolean (c : Cursor) (len : Nat) : Nat × Cursor :=
  if len > c.redundantSpace then
    let pos := c.pos + c.redundantSpace
    (pos, ⟨pos + len, boundary - len⟩)
  else
    (c.pos, ⟨c.pos + len, c.redundantSpace - len⟩)

/-- The padding step shared by the integer branches. -/
def padInteger (c : Cursor) (len : Nat) : Cursor :=
  if len > c.redundantSpace then
    ⟨c.pos + c.redundantSpace,
      if len > boundary then boundary * 2 - len else boundary - len⟩
  else
    ⟨c.pos, c.redundantSpace - len⟩

/-- The integer branches; {lit}`target64` is {lit}`CONFIG_TARGET_64`. -/
def placeInteger (target64 : Bool) (c : Cursor) (len : Nat) : Nat × Cursor :=
  let padded := padInteger c len
  let pos :=
    -- Only an eight-byte member on a 64-bit target gets the extra four bytes.
    if len = 8 ∧ target64 ∧ padded.pos % 8 ≠ 0 then padded.pos + boundary
    else padded.pos
  (pos, ⟨pos + len, padded.redundantSpace⟩)

/-- The text branch: the bytes go to {lit}`pos` directly, then the space left up to
the next boundary is recomputed. -/
def placeText (c : Cursor) (len : Nat) : Nat × Cursor :=
  (c.pos,
    ⟨c.pos + len,
      if len > c.redundantSpace then
        if (len - c.redundantSpace) % boundary ≠ 0 then
          boundary - (len - c.redundantSpace) % boundary
        else 0
      else c.redundantSpace - len⟩)

/-- The layout switch of {lit}`zcmdStructToJString`, where signed and unsigned
integers are separate cases. -/
def structToJStringPlace (target64 : Bool) (c : Cursor) (p : ParameterInfo) :
    Nat × Cursor :=
  match p.type with
  | .boolean => placeBoolean c p.len
  | .int => placeInteger target64 c p.len
  | .ulong | .uint32 | .uint16 | .uint8 => placeInteger target64 c p.len
  | .string | .time | .base64 | .hex => placeText c p.len
  | .other => (c.pos, c)

/-- The layout switch of {lit}`zcmdJStringToStruct`, with one integer case. -/
def jStringToStructPlace (target64 : Bool) (c : Cursor) (p : ParameterInfo) :
    Nat × Cursor :=
  match p.type with
  | .boolean => placeBoolean c p.len
  | .ulong | .int | .uint32 | .uint16 | .uint8 => placeInteger target64 c p.len
  | .string | .time | .base64 | .hex => placeText c p.len
  | .other => (c.pos, c)

/-! ## From JSON to the struct -/

/-- The return codes of {lit}`zcmdJStringToStruct` other than success. -/
inductive ZcfgRet where
  | internalError
  | invalidParamValueLength
deriving DecidableEq, Repr

/-- The integer bytes stored for a parameter of the given length; any length but
8, 4 and 2 takes the one-byte branch. -/
def storedInteger (i : Int) (len : Nat) : List UInt8 :=
  if len = 8 then leBytes 8 (wordOf 8 i)
  else if len = 4 then leBytes 4 (wordOf 4 i)
  else if len = 2 then leBytes 2 (wordOf 2 i)
  else leBytes 1 (wordOf 1 i)

/-- The zero-filled {lit}`len` bytes {lit}`ZOS_STRNCPY` leaves for a string. -/
def storedText (s : List UInt8) (len : Nat) : List UInt8 :=
  (cstr s ++ List.replicate (len - (cstr s).length) 0).take len

/-- The bytes copied into the struct for one parameter value. -/
def storedBytes (jc : JsonC) (p : ParameterInfo) (v : JValue) :
    Except ZcfgRet (List UInt8) :=
  match p.type with
  | .boolean => .ok [if jsonObjectGetBoolean v then 1 else 0]
  | .ulong | .int | .uint32 | .uint16 | .uint8 =>
      .ok (storedInteger (jsonObjectGetInt jc v) p.len)
  | .string | .time | .base64 | .hex =>
      if (cstr (jsonObjectGetString jc v)).length ≤ p.len then
        .ok (storedText (jsonObjectGetString jc v) p.len)
      else .error .invalidParamValueLength
  | .other => .ok []

/-- The parameter loop of {lit}`zcmdJStringToStruct`. -/
def fillStruct (target64 : Bool) (jc : JsonC) (jobj : JValue) :
    Cursor → List ParameterInfo → List UInt8 → Except ZcfgRet (List UInt8)
  | _, [], objStruct => .ok objStruct
  | c, p :: ps, objStruct =>
      match jsonObjectObjectGet jobj p.name with
      | none => .error .internalError
      | some v =>
          match storedBytes jc p v with
          | .error ret => .error ret
          | .ok bytes =>
              fillStruct target64 jc jobj (jStringToStructPlace target64 c p).2 ps
                (writeAt objStruct (jStringToStructPlace target64 c p).1 bytes)

/-- {lit}`zcmdJStringToStruct`: parse the request and fill a zeroed struct. -/
def zcmdJStringToStruct (target64 : Bool) (jc : JsonC) (obj : ObjInfo)
    (jstr : List UInt8) : Except ZcfgRet (List UInt8) :=
  match jc.tokenerParse jstr with
  | none => .error .internalError
  | some jobj =>
      fillStruct target64 jc jobj .start obj.params (List.replicate obj.size 0)

/-! ## From the struct to JSON -/

/-- The signed branch reads the width the schema gives. -/
def readSigned (objStruct : List UInt8) (pos len : Nat) : JValue :=
  if len = 8 then jsonObjectNewInt (signedOf 8 (leNat (readAt objStruct pos 8)))
  else if len = 4 then jsonObjectNewInt (signedOf 4 (leNat (readAt objStruct pos 4)))
  else if len = 2 then jsonObjectNewInt (signedOf 2 (leNat (readAt objStruct pos 2)))
  else jsonObjectNewInt (signedOf 1 (leNat (readAt objStruct pos 1)))

/-- The unsigned branch reads the width the schema gives. -/
def readUnsigned (objStruct : List UInt8) (pos len : Nat) : JValue :=
  if len = 8 then jsonObjectNewInt (leNat (readAt objStruct pos 8))
  else if len = 4 then jsonObjectNewInt (leNat (readAt objStruct pos 4))
  else if len = 2 then jsonObjectNewInt (leNat (readAt objStruct pos 2))
  else jsonObjectNewInt (leNat (readAt objStruct pos 1))

/-- The value read back for one parameter; the default case adds none.  The text
buffer is one byte longer than the copied bytes and zero filled. -/
def loadedValue (p : ParameterInfo) (objStruct : List UInt8) (pos : Nat) :
    Option JValue :=
  match p.type with
  | .boolean => some (.boolean (leNat (readAt objStruct pos p.len) ≠ 0))
  | .int => some (readSigned objStruct pos p.len)
  | .ulong | .uint32 | .uint16 | .uint8 => some (readUnsigned objStruct pos p.len)
  | .string | .time | .base64 | .hex =>
      some (.string (cstr (readAt objStruct pos p.len ++ [0])))
  | .other => none

/-- The parameter loop of {lit}`zcmdStructToJString`. -/
def collectMembers (target64 : Bool) (objStruct : List UInt8) :
    Cursor → List ParameterInfo → List (String × JValue) → List (String × JValue)
  | _, [], members => members
  | c, p :: ps, members =>
      collectMembers target64 objStruct (structToJStringPlace target64 c p).2 ps
        (match loadedValue p objStruct (structToJStringPlace target64 c p).1 with
        | some v => jsonObjectObjectAdd members p.name v
        | none => members)

/-- The JSON object {lit}`zcmdStructToJString` builds. -/
def zcmdStructToJObject (target64 : Bool) (obj : ObjInfo) (objStruct : List UInt8) :
    JValue :=
  .object (collectMembers target64 objStruct .start obj.params [])

/-- {lit}`zcmdStructToJString`: the built object, printed. -/
def zcmdStructToJString (target64 : Bool) (jc : JsonC) (obj : ObjInfo)
    (objStruct : List UInt8) : List UInt8 :=
  jc.toJsonString (zcmdStructToJObject target64 obj objStruct)

/-! ## Offsets used by the two loops -/

/-- The offsets at which {lit}`zcmdJStringToStruct` writes the parameters. -/
def writtenOffsets (target64 : Bool) : Cursor → List ParameterInfo → List Nat
  | _, [] => []
  | c, p :: ps =>
      (jStringToStructPlace target64 c p).1 ::
        writtenOffsets target64 (jStringToStructPlace target64 c p).2 ps

/-- The offsets at which {lit}`zcmdStructToJString` reads the parameters. -/
def readOffsets (target64 : Bool) : Cursor → List ParameterInfo → List Nat
  | _, [] => []
  | c, p :: ps =>
      (structToJStringPlace target64 c p).1 ::
        readOffsets target64 (structToJStringPlace target64 c p).2 ps

/-- Both functions place every parameter at the same offset. -/
theorem structToJStringPlace_eq (target64 : Bool) (c : Cursor) (p : ParameterInfo) :
    structToJStringPlace target64 c p = jStringToStructPlace target64 c p := by
  unfold structToJStringPlace jStringToStructPlace
  cases p.type <;> rfl

end ZcmdTool
end ZyxelRouter
