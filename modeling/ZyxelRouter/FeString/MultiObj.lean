import Mathlib.Data.List.Induction
import ZyxelRouter.FeString.ObjWalk
import ZyxelRouter.Lib.Decimal

/-!
# Several objects in one

{lit}`zcfgFeJsonMultiObjAppend` and its companions keep copies of objects and values for parameters in one
JSON object of two levels.  The keys of the first level are object ids, those of the second level are
indices, or indices with the name of a parameter.

Main results:

- Theorem {lit}`keyText_injective`: the keys of the second level are apart.
- Theorem {lit}`entry_setEntry`: storing an entry changes no other.
- Theorem {lit}`MultiOp.run_stores`: what one operation does to what is stored.
- Theorem {lit}`multiRun_stores`: the same for a history.
- Theorem {lit}`multiObj_history_iff`: the two retrievals behind a history.
-/

namespace ZyxelRouter
namespace FeString

open Lib

/-! ## JSON objects -/

/-- The members of a JSON object. -/
abbrev Members := List (List Char × Json)

/-- {lit}`json_object_object_add`. -/
def objectAdd {α : Type} (key : List Char) (v : α) : List (List Char × α) → List (List Char × α)
  | [] => [(key, v)]
  | m :: ms => if m.1 = key then (key, v) :: ms else m :: objectAdd key v ms

theorem lookup_objectAdd {α : Type} (key key' : List Char) (v : α) (members : List (List Char × α)) :
    (objectAdd key v members).lookup key' = if key' = key then some v else members.lookup key' := by
  induction members with
  | nil =>
      rw [objectAdd, List.lookup_cons, List.lookup_nil]
      by_cases hkey : key' = key
      · rw [if_pos hkey, hkey, beq_self_eq_true]
      · rw [if_neg hkey, beq_false_of_ne hkey]
  | cons m ms ih =>
      rw [objectAdd]
      by_cases hm : m.1 = key
      · rw [if_pos hm, List.lookup_cons, List.lookup_cons, hm]
        by_cases hkey : key' = key
        · rw [if_pos hkey, hkey, beq_self_eq_true]
        · rw [if_neg hkey, beq_false_of_ne hkey]
      · rw [if_neg hm, List.lookup_cons, List.lookup_cons, ih]
        by_cases hkey : key' = key
        · subst hkey
          simp only [if_true, beq_false_of_ne (Ne.symm hm)]
        · simp only [if_neg hkey]

/-! ## Keys -/

/-- {lit}`%d` of an {lit}`zcfg_offset_t`. -/
def objIDText (oid : UInt32) : List Char :=
  if oid.toNat < 2 ^ 31 then decimal oid.toNat else '-' :: decimal (2 ^ 32 - oid.toNat)

/-- The seven numbers of an index with dots between them. -/
def indexText (objIid : ObjIndex) : List Char :=
  ['.'].intercalate (objIid.bytes.map (fun b => decimal b.toNat))

/-- The key of a parameter. -/
def paramText (objIid : ObjIndex) (parmName : List Char) : List Char :=
  indexText objIid ++ '_' :: parmName

/-- The size of {lit}`paramStr`. -/
def paramStrSize : Nat := 200

/-- The keys of the second level: an index, or an index with a name. -/
def keyText : ObjIndex × Option (List Char) → List Char
  | (objIid, none) => indexText objIid
  | (objIid, some parmName) => paramText objIid parmName

theorem objIDText_injective : Function.Injective objIDText := by
  intro oid oid' h
  have hlt := oid.toNat_lt
  have hlt' := oid'.toNat_lt
  have hminus : ∀ m n : Nat, decimal m ≠ '-' :: decimal n := by
    intro m n heq
    have hdigit := isDigit_of_mem_decimal (n := m) (c := '-') (by rw [heq]; exact List.mem_cons_self)
    exact absurd hdigit (by decide)
  rw [objIDText, objIDText] at h
  apply UInt32.toNat_inj.mp
  split at h
  · split at h
    · exact decimal_injective h
    · exact absurd h (hminus _ _)
  · split at h
    · exact absurd h.symm (hminus _ _)
    · have hsame := decimal_injective (List.cons.inj h).2
      omega

theorem notMem_decimal {c : Char} (hc : c.isDigit = false) (n : Nat) : c ∉ decimal n := by
  intro hmem
  rw [isDigit_of_mem_decimal hmem] at hc
  exact absurd hc (by decide)

theorem indexText_injective : Function.Injective indexText := by
  intro objIid objIid' h
  have hparts : ∀ iid : ObjIndex, (indexText iid).splitOn '.' =
      iid.bytes.map (fun b => decimal b.toNat) := by
    intro iid
    refine splitOn_eq_iff.mpr ⟨by simp [ObjIndex.bytes], rfl, ?_⟩
    intro part hpart
    obtain ⟨b, -, rfl⟩ := List.mem_map.mp hpart
    exact notMem_decimal (by decide) b.toNat
  have hbytes : objIid.bytes = objIid'.bytes := by
    have hmap := hparts objIid
    rw [h, hparts objIid'] at hmap
    refine List.map_injective_iff.mpr ?_ hmap.symm
    intro b b' hb
    exact UInt8.toNat_inj.mp (decimal_injective hb)
  obtain ⟨level, idx, hlen⟩ := objIid
  obtain ⟨level', idx', hlen'⟩ := objIid'
  obtain ⟨rfl, rfl⟩ := List.cons.inj hbytes
  rfl

theorem notMem_intercalate {c : Char} {sep : List Char} (hsep : c ∉ sep) :
    ∀ parts : List (List Char), (∀ part ∈ parts, c ∉ part) → c ∉ sep.intercalate parts := by
  intro parts
  induction parts with
  | nil => simp
  | cons part parts ih =>
      intro hparts
      have hpart := hparts part List.mem_cons_self
      cases parts with
      | nil =>
          rw [List.intercalate_singleton]
          exact hpart
      | cons next parts =>
          rw [List.intercalate_cons_cons, List.append_assoc, List.mem_append, List.mem_append]
          rintro (h | h | h)
          · exact hpart h
          · exact hsep h
          · exact ih (fun p hp => hparts p (List.mem_cons_of_mem _ hp)) h

/-- An index has digits and dots only. -/
theorem notMem_indexText (objIid : ObjIndex) : '_' ∉ indexText objIid := by
  apply notMem_intercalate (by decide)
  intro part hpart
  obtain ⟨b, -, rfl⟩ := List.mem_map.mp hpart
  exact notMem_decimal (by decide) b.toNat

/-- The index is what stands in front of the first underscore. -/
theorem paramText_inj {objIid objIid' : ObjIndex} {parmName parmName' : List Char}
    (h : paramText objIid parmName = paramText objIid' parmName') :
    objIid = objIid' ∧ parmName = parmName' := by
  have hfront : ∀ (iid : ObjIndex) (name : List Char),
      (paramText iid name).takeWhile (· ≠ '_') = indexText iid := by
    intro iid name
    rw [paramText, List.takeWhile_append_of_pos, List.takeWhile_cons_of_neg (by simp), List.append_nil]
    intro c hc
    have hne : c ≠ '_' := by
      rintro rfl
      exact notMem_indexText iid hc
    simpa using hne
  have hindex : indexText objIid = indexText objIid' := by
    rw [← hfront objIid parmName, h, hfront]
  rw [paramText, paramText, hindex] at h
  exact ⟨indexText_injective hindex, (List.cons.inj (List.append_cancel_left h)).2⟩

theorem paramText_ne_indexText (objIid objIid' : ObjIndex) (parmName : List Char) :
    paramText objIid parmName ≠ indexText objIid' := by
  intro h
  apply notMem_indexText objIid'
  rw [← h, paramText]
  simp

/-- The keys of the second level are apart. -/
theorem keyText_injective : Function.Injective keyText := by
  rintro ⟨objIid, name⟩ ⟨objIid', name'⟩ h
  cases name with
  | none =>
      cases name' with
      | none => rw [indexText_injective h]
      | some name' => exact absurd h.symm (paramText_ne_indexText objIid' objIid name')
  | some name =>
      cases name' with
      | none => exact absurd h (paramText_ne_indexText objIid objIid' name)
      | some name' =>
          obtain ⟨rfl, rfl⟩ := paramText_inj h
          rfl

/-! ## The functions -/

/-- The multi-object: for each object id that occurs, the entries of the second level. -/
abbrev MultiObj := List (List Char × Members)

/-- {lit}`json_object_object_get` on both levels; the null pointer if there is none. -/
def entry (multiJobj : MultiObj) (oid : UInt32) (key : List Char) : Json :=
  match multiJobj.lookup (objIDText oid) with
  | none => .null
  | some oidJobj => (oidJobj.lookup key).getD .null

/-- {lit}`json_object_object_add` on the second level, in the object of the id or in a new one. -/
def setEntry (multiJobj : MultiObj) (oid : UInt32) (key : List Char) (v : Json) : MultiObj :=
  match multiJobj.lookup (objIDText oid) with
  | none => objectAdd (objIDText oid) [(key, v)] multiJobj
  | some oidJobj => objectAdd (objIDText oid) (objectAdd key v oidJobj) multiJobj

/-- The copy of an object that is appended, {lit}`json_tokener_parse(json_object_to_json_string(jobj))`;
there is none of the null pointer. -/
def dupJobj (copy : Members → Option Members) (jobj : Option Members) : Json :=
  match jobj.bind copy with
  | none => .null
  | some members => .object members

/-- {lit}`zcfgFeJsonMultiObjAppend`: the object that is returned, and the multi-object. -/
def zcfgFeJsonMultiObjAppend (copy : Members → Option Members) (oid : UInt32) (objIid : ObjIndex)
    (multiJobj : MultiObj) (jobj : Option Members) : Json × MultiObj :=
  match entry multiJobj oid (indexText objIid) with
  | .null => (dupJobj copy jobj, setEntry multiJobj oid (indexText objIid) (dupJobj copy jobj))
  | iidJobj => (iidJobj, multiJobj)

/-- {lit}`zcfgFeJsonMultiObjRetrieve` with an index: the return code and {lit}`*rtdObj`. -/
def zcfgFeJsonMultiObjRetrieve (multiJobj : MultiObj) (oid : UInt32) (objIid : ObjIndex) :
    ZcfgRet × Json :=
  match entry multiJobj oid (indexText objIid) with
  | .null => (.noSuchObject, .null)
  | rtdObj => (.success, rtdObj)

/-- {lit}`zcfgFeJsonMultiObjAddParam`; {lit}`none` if the key overflows {lit}`paramStr`. -/
def zcfgFeJsonMultiObjAddParam (multiobj : MultiObj) (oid : UInt32) (objIid : ObjIndex)
    (parmName : List Char) (paramObj : Json) : Option MultiObj :=
  match entry multiobj oid (indexText objIid) with
  | .null => some multiobj
  | _ =>
      if parmName = [] then some multiobj
      else if paramStrSize ≤ (paramText objIid parmName).length then none
      else some (setEntry multiobj oid (paramText objIid parmName) paramObj)

/-- {lit}`zcfgFeJsonMultiObjRetrieveParam` with the old value of {lit}`*paramObj`; {lit}`none` if the key
overflows {lit}`paramStr`. -/
def zcfgFeJsonMultiObjRetrieveParam (multiobj : MultiObj) (oid : UInt32) (objIid : ObjIndex)
    (parmName : List Char) (paramObj : Json) : Option Json :=
  match entry multiobj oid (indexText objIid) with
  | .null => some paramObj
  | _ =>
      if parmName = [] then some paramObj
      else if paramStrSize ≤ (paramText objIid parmName).length then none
      else some (entry multiobj oid (paramText objIid parmName))

/-- {lit}`zcfgFeJsonMultiObjAddObjParam`; {lit}`none` if a failed assertion of json-c ends the process. -/
def zcfgFeJsonMultiObjAddObjParam (multiobj : MultiObj) (oid : UInt32) (objIid : ObjIndex)
    (parmName : List Char) (paramObj : Json) : Option MultiObj :=
  match (zcfgFeJsonMultiObjRetrieve multiobj oid objIid).2 with
  | .null => some multiobj
  | indexObj =>
      if parmName = [] then some multiobj
      else
        match paramObj, indexObj with
        | .null, _ => some multiobj
        | _, .object members =>
            some (setEntry multiobj oid (indexText objIid) (.object (objectAdd parmName paramObj members)))
        | _, _ => none

/-- Storing an entry changes no other. -/
theorem entry_setEntry (multiJobj : MultiObj) (oid oid' : UInt32) (key key' : List Char) (v : Json) :
    entry (setEntry multiJobj oid key v) oid' key' =
      if oid' = oid ∧ key' = key then v else entry multiJobj oid' key' := by
  rw [entry, setEntry]
  by_cases hoid : oid' = oid
  · subst hoid
    cases hold : multiJobj.lookup (objIDText oid') with
    | none =>
        simp only [lookup_objectAdd, if_true, true_and, entry, hold]
        rw [List.lookup_cons, List.lookup_nil]
        by_cases hkey : key' = key
        · rw [if_pos hkey, hkey, beq_self_eq_true]
          rfl
        · rw [if_neg hkey, beq_false_of_ne hkey]
          rfl
    | some oidJobj =>
        simp only [lookup_objectAdd, if_true, true_and, entry, hold]
        split
        · rfl
        · rfl
  · have hid : objIDText oid' ≠ objIDText oid := fun h => hoid (objIDText_injective h)
    rw [if_neg (fun h => hoid h.1), entry]
    cases multiJobj.lookup (objIDText oid) with
    | none => simp only [lookup_objectAdd, if_neg hid]
    | some oidJobj => simp only [lookup_objectAdd, if_neg hid]

/-! ## Histories -/

/-- An operation that changes the multi-object. -/
inductive MultiOp where
  | append (oid : UInt32) (objIid : ObjIndex) (jobj : Option Members)
  | addParam (oid : UInt32) (objIid : ObjIndex) (parmName : List Char) (paramObj : Json)
  | addObjParam (oid : UInt32) (objIid : ObjIndex) (parmName : List Char) (paramObj : Json)

/-- The multi-object behind an operation. -/
def MultiOp.run (copy : Members → Option Members) (multiJobj : MultiObj) : MultiOp → Option MultiObj
  | .append oid objIid jobj => some (zcfgFeJsonMultiObjAppend copy oid objIid multiJobj jobj).2
  | .addParam oid objIid parmName paramObj =>
      zcfgFeJsonMultiObjAddParam multiJobj oid objIid parmName paramObj
  | .addObjParam oid objIid parmName paramObj =>
      zcfgFeJsonMultiObjAddObjParam multiJobj oid objIid parmName paramObj

/-- The multi-object behind a history that starts with an empty one. -/
def multiRun (copy : Members → Option Members) (ops : List MultiOp) : Option MultiObj :=
  ops.foldl (fun multi op => multi.bind (fun multiJobj => op.run copy multiJobj)) (some [])

/-- A value that is not the null pointer. -/
def Json.isSet : Json → Bool
  | .null => false
  | _ => true

/-- What an operation does to the copy for one id and index. -/
def objectStep (copy : Members → Option Members) (oid : UInt32) (objIid : ObjIndex)
    (copied : Option Members) : MultiOp → Option Members
  | .append oid' objIid' jobj =>
      if (oid', objIid') = (oid, objIid) then copied.or (jobj.bind copy) else copied
  | .addParam _ _ _ _ => copied
  | .addObjParam oid' objIid' parmName paramObj =>
      if (oid', objIid') = (oid, objIid) ∧ parmName ≠ [] ∧ paramObj.isSet = true then
        copied.map (objectAdd parmName paramObj)
      else copied

/-- The copy that the first {lit}`Append` of an object for an id and an index has made, as changed by
{lit}`AddObjParam` for them. -/
def objectOf (copy : Members → Option Members) (oid : UInt32) (objIid : ObjIndex)
    (ops : List MultiOp) : Option Members :=
  ops.foldl (objectStep copy oid objIid) none

/-- What an operation behind a history does to the value for one id, index and name. -/
def paramStep (copy : Members → Option Members) (oid : UInt32) (objIid : ObjIndex)
    (parmName : List Char) (ops : List MultiOp) (value : Json) : MultiOp → Json
  | .addParam oid' objIid' parmName' paramObj =>
      if (oid', objIid', parmName') = (oid, objIid, parmName) ∧ (objectOf copy oid objIid ops).isSome then
        paramObj
      else value
  | _ => value

/-- The value of the last {lit}`AddParam` for an id, an index and a name that was made behind the
{lit}`Append`; the operations of the history stand in reverse order. -/
def lastParam (copy : Members → Option Members) (oid : UInt32) (objIid : ObjIndex)
    (parmName : List Char) : List MultiOp → Json
  | [] => .null
  | op :: before =>
      paramStep copy oid objIid parmName before.reverse
        (lastParam copy oid objIid parmName before) op

/-- The same in the order of the history. -/
def paramOf (copy : Members → Option Members) (oid : UInt32) (objIid : ObjIndex)
    (parmName : List Char) (ops : List MultiOp) : Json :=
  lastParam copy oid objIid parmName ops.reverse

/-- A copy as an entry. -/
def toJson : Option Members → Json
  | none => .null
  | some members => .object members

/-- The keys of the parameters that an operation behind a history stores fit {lit}`paramStr`. -/
def OpFits (copy : Members → Option Members) (ops : List MultiOp) : MultiOp → Prop
  | .addParam oid objIid parmName _ =>
      (objectOf copy oid objIid ops).isSome → parmName ≠ [] →
        (paramText objIid parmName).length < paramStrSize
  | _ => True

/-- So it is with each operation of a history. -/
def Fits (copy : Members → Option Members) (ops : List MultiOp) : Prop :=
  ∀ before op, before ++ [op] <+: ops → OpFits copy before op

/-- What the multi-object holds behind a history. -/
structure Stores (copy : Members → Option Members) (multiJobj : MultiObj) (ops : List MultiOp) :
    Prop where
  object : ∀ oid objIid, entry multiJobj oid (indexText objIid) = toJson (objectOf copy oid objIid ops)
  param : ∀ oid objIid parmName, parmName ≠ [] →
    entry multiJobj oid (paramText objIid parmName) = paramOf copy oid objIid parmName ops

section Histories

variable {copy : Members → Option Members} {multi : MultiObj} {ops : List MultiOp}

theorem objectOf_concat (oid : UInt32) (objIid : ObjIndex) (op : MultiOp) :
    objectOf copy oid objIid (ops ++ [op]) =
      objectStep copy oid objIid (objectOf copy oid objIid ops) op := by
  rw [objectOf, List.foldl_concat, ← objectOf]

theorem paramOf_concat (oid : UInt32) (objIid : ObjIndex) (parmName : List Char) (op : MultiOp) :
    paramOf copy oid objIid parmName (ops ++ [op]) =
      paramStep copy oid objIid parmName ops (paramOf copy oid objIid parmName ops) op := by
  rw [paramOf, List.reverse_concat, lastParam, List.reverse_reverse, ← paramOf]

theorem fits_concat (op : MultiOp) : Fits copy (ops ++ [op]) ↔ Fits copy ops ∧ OpFits copy ops op := by
  constructor
  · intro h
    refine ⟨fun before last hrun => h before last ?_, h ops op (List.prefix_refl _)⟩
    exact hrun.trans (List.prefix_append ops [op])
  · rintro ⟨hbefore, hlast⟩ before last hrun
    rcases List.prefix_concat_iff.mp hrun with heq | hrun
    · obtain ⟨rfl, hop⟩ := List.append_inj' heq rfl
      obtain rfl := List.singleton_inj.mp hop
      exact hlast
    · exact hbefore before last hrun

/-- The entry for an index is there if a copy was made. -/
theorem Stores.absent (h : Stores copy multi ops) {oid : UInt32} {objIid : ObjIndex}
    (hnone : objectOf copy oid objIid ops = none) : entry multi oid (indexText objIid) = .null := by
  rw [h.object, hnone]
  rfl

theorem Stores.present (h : Stores copy multi ops) {oid : UInt32} {objIid : ObjIndex}
    {members : Members} (hsome : objectOf copy oid objIid ops = some members) :
    entry multi oid (indexText objIid) = .object members := by
  rw [h.object, hsome]
  rfl

/-- An operation that does not change the multi-object. -/
theorem Stores.unchanged (h : Stores copy multi ops) {op : MultiOp}
    (hobject : ∀ oid objIid, objectStep copy oid objIid (objectOf copy oid objIid ops) op =
      objectOf copy oid objIid ops)
    (hparam : ∀ oid objIid parmName, parmName ≠ [] →
      paramStep copy oid objIid parmName ops (paramOf copy oid objIid parmName ops) op =
        paramOf copy oid objIid parmName ops) : Stores copy multi (ops ++ [op]) := by
  refine ⟨fun oid objIid => ?_, fun oid objIid parmName hname => ?_⟩
  · rw [objectOf_concat, hobject]
    exact h.object oid objIid
  · rw [paramOf_concat, hparam oid objIid parmName hname]
    exact h.param oid objIid parmName hname

/-- An operation that stores a copy. -/
theorem Stores.setObject (h : Stores copy multi ops) {op : MultiOp} {oid : UInt32} {objIid : ObjIndex}
    {copied : Option Members}
    (hhere : objectStep copy oid objIid (objectOf copy oid objIid ops) op = copied)
    (hother : ∀ oid' objIid', ¬ (oid' = oid ∧ objIid' = objIid) →
      objectStep copy oid' objIid' (objectOf copy oid' objIid' ops) op = objectOf copy oid' objIid' ops)
    (hparam : ∀ oid objIid parmName,
      paramStep copy oid objIid parmName ops (paramOf copy oid objIid parmName ops) op =
        paramOf copy oid objIid parmName ops) :
    Stores copy (setEntry multi oid (indexText objIid) (toJson copied)) (ops ++ [op]) := by
  refine ⟨fun oid' objIid' => ?_, fun oid' objIid' parmName hname => ?_⟩
  · rw [objectOf_concat, entry_setEntry]
    by_cases hkey : oid' = oid ∧ objIid' = objIid
    · obtain ⟨rfl, rfl⟩ := hkey
      rw [if_pos ⟨rfl, rfl⟩, hhere]
    · rw [if_neg (fun hboth => hkey ⟨hboth.1, indexText_injective hboth.2⟩), hother oid' objIid' hkey]
      exact h.object oid' objIid'
  · rw [paramOf_concat, entry_setEntry, hparam,
      if_neg (fun hboth => paramText_ne_indexText _ _ _ hboth.2)]
    exact h.param oid' objIid' parmName hname

/-- An operation that stores the value of a parameter. -/
theorem Stores.setParam (h : Stores copy multi ops) {oid : UInt32} {objIid : ObjIndex}
    {parmName : List Char} {paramObj : Json} (hpresent : (objectOf copy oid objIid ops).isSome) :
    Stores copy (setEntry multi oid (paramText objIid parmName) paramObj)
      (ops ++ [.addParam oid objIid parmName paramObj]) := by
  refine ⟨fun oid' objIid' => ?_, fun oid' objIid' parmName' hname => ?_⟩
  · rw [objectOf_concat, entry_setEntry,
      if_neg (fun hboth => paramText_ne_indexText _ _ _ hboth.2.symm)]
    exact h.object oid' objIid'
  · rw [paramOf_concat, entry_setEntry, paramStep]
    by_cases hkey : oid' = oid ∧ objIid' = objIid ∧ parmName' = parmName
    · obtain ⟨rfl, rfl, rfl⟩ := hkey
      rw [if_pos ⟨rfl, rfl⟩, if_pos ⟨rfl, hpresent⟩]
    · rw [if_neg, if_neg]
      · exact h.param oid' objIid' parmName' hname
      · rintro ⟨heq, -⟩
        simp only [Prod.mk.injEq] at heq
        exact hkey ⟨heq.1.symm, heq.2.1.symm, heq.2.2.symm⟩
      · rintro ⟨hoid, htext⟩
        exact hkey ⟨hoid, paramText_inj htext⟩

/-- An {lit}`Append`: the first one with an object makes a copy. -/
theorem append_stores (h : Stores copy multi ops) (oid : UInt32) (objIid : ObjIndex)
    (jobj : Option Members) :
    Stores copy (zcfgFeJsonMultiObjAppend copy oid objIid multi jobj).2
      (ops ++ [.append oid objIid jobj]) := by
  rw [zcfgFeJsonMultiObjAppend]
  cases hcopied : objectOf copy oid objIid ops with
  | none =>
      have hdup : dupJobj copy jobj = toJson (jobj.bind copy) := by
        rw [dupJobj]
        cases jobj.bind copy with
        | none => rfl
        | some members => rfl
      simp only [h.absent hcopied]
      rw [hdup]
      refine h.setObject ?_ ?_ (fun _ _ _ => rfl)
      · rw [objectStep, if_pos rfl, hcopied, Option.none_or]
      · intro oid' objIid' hkey
        rw [objectStep, if_neg]
        intro heq
        simp only [Prod.mk.injEq] at heq
        exact hkey ⟨heq.1.symm, heq.2.symm⟩
  | some members =>
      simp only [h.present hcopied]
      refine h.unchanged (fun oid' objIid' => ?_) (fun _ _ _ _ => rfl)
      rw [objectStep]
      split
      · rename_i heq
        simp only [Prod.mk.injEq] at heq
        rw [← heq.1, ← heq.2, hcopied, Option.some_or]
      · rfl

/-- An {lit}`AddParam`: it stores the value if a copy is there, and overflows its buffer if the key does
not fit. -/
theorem addParam_stores (h : Stores copy multi ops) (oid : UInt32) (objIid : ObjIndex)
    (parmName : List Char) (paramObj : Json) :
    (OpFits copy ops (.addParam oid objIid parmName paramObj) →
      ∃ multi', zcfgFeJsonMultiObjAddParam multi oid objIid parmName paramObj = some multi' ∧
        Stores copy multi' (ops ++ [.addParam oid objIid parmName paramObj])) ∧
    (¬ OpFits copy ops (.addParam oid objIid parmName paramObj) →
      zcfgFeJsonMultiObjAddParam multi oid objIid parmName paramObj = none) := by
  rw [zcfgFeJsonMultiObjAddParam, OpFits]
  cases hcopied : objectOf copy oid objIid ops with
  | none =>
      simp only [h.absent hcopied]
      refine ⟨fun _ => ⟨multi, rfl, h.unchanged (fun _ _ => rfl) ?_⟩, fun hfits => ?_⟩
      · intro oid' objIid' parmName' _
        rw [paramStep, if_neg]
        rintro ⟨heq, hsome⟩
        simp only [Prod.mk.injEq] at heq
        rw [← heq.1, ← heq.2.1, hcopied] at hsome
        exact absurd hsome (by decide)
      · exact absurd (fun hsome => absurd hsome (by decide)) hfits
  | some members =>
      simp only [h.present hcopied]
      by_cases hname : parmName = []
      · rw [if_pos hname]
        refine ⟨fun _ => ⟨multi, rfl, h.unchanged (fun _ _ => rfl) ?_⟩, fun hfits => ?_⟩
        · intro oid' objIid' parmName' hname'
          rw [paramStep, if_neg]
          rintro ⟨heq, -⟩
          simp only [Prod.mk.injEq] at heq
          exact hname' (heq.2.2.symm.trans hname)
        · exact absurd (fun _ hne => absurd hname hne) hfits
      · rw [if_neg hname]
        by_cases hlen : paramStrSize ≤ (paramText objIid parmName).length
        · rw [if_pos hlen]
          refine ⟨fun hfits => ?_, fun _ => rfl⟩
          exact absurd (hfits rfl hname) (Nat.not_lt.mpr hlen)
        · rw [if_neg hlen]
          refine ⟨fun _ => ⟨_, rfl, h.setParam ?_⟩, fun hfits => ?_⟩
          · rw [hcopied]
            rfl
          · exact absurd (fun _ _ => Nat.not_le.mp hlen) hfits

/-- An {lit}`AddObjParam`: it changes the copy if there is one. -/
theorem addObjParam_stores (h : Stores copy multi ops) (oid : UInt32) (objIid : ObjIndex)
    (parmName : List Char) (paramObj : Json) :
    ∃ multi', zcfgFeJsonMultiObjAddObjParam multi oid objIid parmName paramObj = some multi' ∧
      Stores copy multi' (ops ++ [.addObjParam oid objIid parmName paramObj]) := by
  have hother : ∀ oid' objIid', ¬ (oid' = oid ∧ objIid' = objIid) →
      objectStep copy oid' objIid' (objectOf copy oid' objIid' ops)
        (.addObjParam oid objIid parmName paramObj) = objectOf copy oid' objIid' ops := by
    intro oid' objIid' hkey
    rw [objectStep, if_neg]
    rintro ⟨heq, -⟩
    simp only [Prod.mk.injEq] at heq
    exact hkey ⟨heq.1.symm, heq.2.symm⟩
  have hkeep : objectStep copy oid objIid (objectOf copy oid objIid ops)
        (.addObjParam oid objIid parmName paramObj) = objectOf copy oid objIid ops →
      Stores copy multi (ops ++ [.addObjParam oid objIid parmName paramObj]) := by
    intro hhere
    refine h.unchanged (fun oid' objIid' => ?_) (fun _ _ _ _ => rfl)
    by_cases hkey : oid' = oid ∧ objIid' = objIid
    · obtain ⟨rfl, rfl⟩ := hkey
      exact hhere
    · exact hother oid' objIid' hkey
  rw [zcfgFeJsonMultiObjAddObjParam, zcfgFeJsonMultiObjRetrieve]
  cases hcopied : objectOf copy oid objIid ops with
  | none =>
      simp only [h.absent hcopied]
      refine ⟨multi, rfl, hkeep ?_⟩
      rw [objectStep, hcopied]
      split
      · rfl
      · rfl
  | some members =>
      simp only [h.present hcopied]
      by_cases hname : parmName = []
      · rw [if_pos hname]
        refine ⟨multi, rfl, hkeep ?_⟩
        rw [objectStep, if_neg (fun hall => hall.2.1 hname)]
      · rw [if_neg hname]
        have hstores : paramObj.isSet = true → Stores copy (setEntry multi oid (indexText objIid)
            (.object (objectAdd parmName paramObj members)))
            (ops ++ [.addObjParam oid objIid parmName paramObj]) := by
          intro hset
          show Stores copy (setEntry multi oid (indexText objIid)
            (toJson (some (objectAdd parmName paramObj members)))) _
          refine h.setObject ?_ hother (fun _ _ _ => rfl)
          rw [objectStep, if_pos ⟨rfl, hname, hset⟩, hcopied]
          rfl
        cases paramObj with
        | null =>
            refine ⟨multi, rfl, hkeep ?_⟩
            rw [objectStep, if_neg (fun hall => absurd hall.2.2 (by decide))]
        | scalar text => exact ⟨_, rfl, hstores rfl⟩
        | array elems => exact ⟨_, rfl, hstores rfl⟩
        | object members' => exact ⟨_, rfl, hstores rfl⟩

/-- What one operation does to what is stored. -/
theorem MultiOp.run_stores (op : MultiOp) (h : Stores copy multi ops) :
    (OpFits copy ops op →
      ∃ multi', op.run copy multi = some multi' ∧ Stores copy multi' (ops ++ [op])) ∧
    (¬ OpFits copy ops op → op.run copy multi = none) := by
  cases op with
  | append oid objIid jobj =>
      exact ⟨fun _ => ⟨_, rfl, append_stores h oid objIid jobj⟩, fun hfits => absurd trivial hfits⟩
  | addParam oid objIid parmName paramObj => exact addParam_stores h oid objIid parmName paramObj
  | addObjParam oid objIid parmName paramObj =>
      exact ⟨fun _ => addObjParam_stores h oid objIid parmName paramObj,
        fun hfits => absurd trivial hfits⟩

theorem multiRun_concat (op : MultiOp) :
    multiRun copy (ops ++ [op]) = (multiRun copy ops).bind (fun multi => op.run copy multi) := by
  rw [multiRun, List.foldl_concat, ← multiRun]

/-- A history whose keys fit is stored, and another one overflows a buffer. -/
theorem multiRun_stores (copy : Members → Option Members) (ops : List MultiOp) :
    (Fits copy ops → ∃ multi, multiRun copy ops = some multi ∧ Stores copy multi ops) ∧
      (¬ Fits copy ops → multiRun copy ops = none) := by
  induction ops using List.reverseRecOn with
  | nil =>
      refine ⟨fun _ => ⟨[], rfl, fun _ _ => rfl, fun _ _ _ _ => rfl⟩, fun hfits => ?_⟩
      refine absurd (fun before op hrun => ?_) hfits
      exact absurd (List.prefix_nil.mp hrun) (by simp)
  | append_singleton ops op ih =>
      rw [multiRun_concat, fits_concat]
      by_cases hfits : Fits copy ops
      · obtain ⟨multi, hrun, hstores⟩ := ih.1 hfits
        obtain ⟨hyes, hno⟩ := op.run_stores hstores
        rw [hrun]
        exact ⟨fun hboth => hyes hboth.2, fun hnot => hno (fun hop => hnot ⟨hfits, hop⟩)⟩
      · rw [ih.2 hfits]
        exact ⟨fun hboth => absurd hboth.1 hfits, fun _ => rfl⟩

end Histories

/-! ## The retrievals -/

/-- What the two retrievals return behind a history: the copy for the id and the index, and the last value
for them and the name. -/
structure Retrieves (copy : Members → Option Members) (ops : List MultiOp) (oid : UInt32)
    (objIid : ObjIndex) (parmName : List Char) (multi : MultiObj) : Prop where
  found : ∀ members, objectOf copy oid objIid ops = some members →
    zcfgFeJsonMultiObjRetrieve multi oid objIid = (.success, .object members)
  missing : objectOf copy oid objIid ops = none →
    zcfgFeJsonMultiObjRetrieve multi oid objIid = (.noSuchObject, .null)
  value : (objectOf copy oid objIid ops).isSome → parmName ≠ [] → ∀ paramObj,
    zcfgFeJsonMultiObjRetrieveParam multi oid objIid parmName paramObj =
      some (paramOf copy oid objIid parmName ops)

/-- The retrievals return what the history says exactly if the keys fit their buffer, those of the history
and the one that is asked for. -/
theorem multiObj_history_iff (copy : Members → Option Members) (ops : List MultiOp) (oid : UInt32)
    (objIid : ObjIndex) (parmName : List Char) :
    (∃ multi, multiRun copy ops = some multi ∧ Retrieves copy ops oid objIid parmName multi) ↔
      Fits copy ops ∧ ((objectOf copy oid objIid ops).isSome → parmName ≠ [] →
        (paramText objIid parmName).length < paramStrSize) := by
  obtain ⟨hyes, hno⟩ := multiRun_stores copy ops
  constructor
  · rintro ⟨multi, hrun, hretrieves⟩
    have hfits : Fits copy ops := by
      by_contra hfits
      rw [hno hfits] at hrun
      cases hrun
    refine ⟨hfits, fun hsome hname => ?_⟩
    obtain ⟨multi', hrun', hstores⟩ := hyes hfits
    obtain rfl := Option.some.inj (hrun.symm.trans hrun')
    have hvalue := hretrieves.value hsome hname .null
    obtain ⟨members, hmembers⟩ := Option.isSome_iff_exists.mp hsome
    rw [zcfgFeJsonMultiObjRetrieveParam, hstores.present hmembers] at hvalue
    simp only [if_neg hname] at hvalue
    by_contra hlen
    rw [if_pos (Nat.not_lt.mp hlen)] at hvalue
    cases hvalue
  · rintro ⟨hfits, hlen⟩
    obtain ⟨multi, hrun, hstores⟩ := hyes hfits
    refine ⟨multi, hrun,
      ⟨fun members hmembers => ?_, fun hnone => ?_, fun hsome hname paramObj => ?_⟩⟩
    · rw [zcfgFeJsonMultiObjRetrieve, hstores.present hmembers]
    · rw [zcfgFeJsonMultiObjRetrieve, hstores.absent hnone]
    · obtain ⟨members, hmembers⟩ := Option.isSome_iff_exists.mp hsome
      rw [zcfgFeJsonMultiObjRetrieveParam, hstores.present hmembers]
      simp only [if_neg hname]
      rw [if_neg (Nat.not_le.mpr (hlen hsome hname)), hstores.param oid objIid parmName hname]

/-- A name of 200 characters overflows the buffer for the key. -/
theorem multiObj_history_fails :
    ¬ ∀ (copy : Members → Option Members) (ops : List MultiOp) (oid : UInt32) (objIid : ObjIndex)
      (parmName : List Char),
      ∃ multi, multiRun copy ops = some multi ∧ Retrieves copy ops oid objIid parmName multi := by
  intro h
  obtain ⟨hfits, -⟩ := (multiObj_history_iff some [.append 1 .zero (some []),
    .addParam 1 .zero (List.replicate 200 'a') .null] 1 .zero []).mp (h _ _ _ _ _)
  have hshort := hfits [.append 1 .zero (some [])] (.addParam 1 .zero (List.replicate 200 'a') .null)
    (List.prefix_refl _) rfl (by decide)
  rw [paramText, List.length_append, List.length_cons, List.length_replicate, paramStrSize] at hshort
  omega

end FeString
end ZyxelRouter
