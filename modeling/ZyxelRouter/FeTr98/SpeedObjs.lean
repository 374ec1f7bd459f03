import ZyxelRouter.FeString.MultiObj
import ZyxelRouter.FeTr98.MapConvert
import ZyxelRouter.Lib.StepRuns

/-!
# The cache of queried objects

The speed objects are kept in a JSON array by sequence number, and in each of its elements by the text of
their indices.

Main results:

- Theorem {lit}`mappingIdx_inj`: indices of up to five levels fit into the buffer and have texts of their
  own.
- Theorem {lit}`SpeedOp.run_cached`: what an operation does to the object of a key, and that it leaves the
  objects of other keys alone.
- Theorem {lit}`speedObjs_map_iff`: when the cache behaves as a map from keys to objects.
-/

namespace ZyxelRouter
namespace FeTr98

open Lib FeString

variable {V : Type}

/-! ## The cache -/

/-- A cached object: its members. -/
abbrev SpeedObj (V : Type) := List (List Char × V)

/-- An element of the array: objects by the texts of their indices.  The member of an object that has been
taken out stays with a null pointer. -/
abbrev ArrayObj (V : Type) := List (List Char × Option (SpeedObj V))

/-- {lit}`zcfgTr98GpnSpeedObjs` and {lit}`zcfgTr98GpvSpeedObjs`. -/
abbrev SpeedObjs (V : Type) := List (Option (ArrayObj V))

/-- {lit}`json_object_array_put_idx`. -/
def arrayPutIdx {α : Type} (array : List (Option α)) (arrayIdx : Nat) (a : α) : List (Option α) :=
  if arrayIdx < array.length then array.set arrayIdx (some a)
  else array ++ List.replicate (arrayIdx - array.length) none ++ [some a]

/-- {lit}`json_object_object_pull`: the member keeps a null pointer. -/
def objectPull {α : Type} (key : List Char) (members : List (List Char × Option α)) :
    List (List Char × Option α) :=
  members.map fun m => if m.1 = key then (m.1, none) else m

/-- {lit}`json_object_object_del`. -/
def objectDel {α : Type} (key : List Char) (members : List (List Char × α)) :
    List (List Char × α) :=
  members.filter fun m => m.1 ≠ key

/-- The size of {lit}`tr98ObjIidStr`. -/
def tr98ObjIidStrSize : Nat := 20

/-- {lit}`zcfgObjIidToMappingName(0, tr98ObjIid, tr98ObjIidStr)`; {lit}`none` if the text and its end leave
the buffer. -/
def tr98ObjIidStr (tr98ObjIid : ObjIndex) : Option (List Char) :=
  if (mappingIdx tr98ObjIid).length < tr98ObjIidStrSize then some (mappingIdx tr98ObjIid) else none

/-! ## The functions -/

/-- {lit}`zcfgTr98SpeedObjsRetrieve`; the outer {lit}`none` is a write behind the buffer, here and
below. -/
def zcfgTr98SpeedObjsRetrieve (tr98SpeedObjs : SpeedObjs V) (seqnum : Nat) (tr98ObjIid : ObjIndex) :
    Option (Option (SpeedObj V)) :=
  match arrayGetIdx tr98SpeedObjs (arraySeqnum seqnum) with
  | none => some none
  | some arrayObj =>
      (tr98ObjIidStr tr98ObjIid).map fun iidStr => (arrayObj.lookup iidStr).join

/-- {lit}`zcfgTr98SpeedObjsRetObj`: the object that is returned, and the cache. -/
def zcfgTr98SpeedObjsRetObj (tr98SpeedObjs : SpeedObjs V) (seqnum : Nat) (tr98ObjIid : ObjIndex) :
    Option (Option (SpeedObj V) × SpeedObjs V) :=
  match arrayGetIdx tr98SpeedObjs (arraySeqnum seqnum) with
  | none => some (none, tr98SpeedObjs)
  | some arrayObj =>
      (tr98ObjIidStr tr98ObjIid).map fun iidStr =>
        ((arrayObj.lookup iidStr).join,
          arrayPutIdx tr98SpeedObjs (arraySeqnum seqnum) (objectPull iidStr arrayObj))

/-- The cache with an element for the sequence number. -/
def withArrayObj (tr98SpeedObjs : SpeedObjs V) (arrayIdx : Nat) : SpeedObjs V :=
  match arrayGetIdx tr98SpeedObjs arrayIdx with
  | none => arrayPutIdx tr98SpeedObjs arrayIdx []
  | some _ => tr98SpeedObjs

/-- {lit}`json_object_object_add` to an element of the array. -/
def arrayObjAdd (tr98SpeedObjs : SpeedObjs V) (arrayIdx : Nat) (iidStr : List Char)
    (obj : SpeedObj V) : SpeedObjs V :=
  arrayPutIdx tr98SpeedObjs arrayIdx
    (objectAdd iidStr (some obj) ((arrayGetIdx tr98SpeedObjs arrayIdx).getD []))

/-- {lit}`zcfgTr98SpeedObjsAddObj`; the object may be the null pointer. -/
def zcfgTr98SpeedObjsAddObj (table : NameTable) (tr98SpeedObjs : SpeedObjs V) (seqnum : Nat)
    (tr98ObjIid : ObjIndex) (obj : Option (SpeedObj V)) : Option (ZcfgRet × SpeedObjs V) :=
  if isSeqnumRight table seqnum = false then some (.internalError, tr98SpeedObjs)
  else
    let objs := withArrayObj tr98SpeedObjs (arraySeqnum seqnum)
    (tr98ObjIidStr tr98ObjIid).map fun iidStr =>
      match obj with
      | none => (.internalError, objs)
      | some obj => (.success, arrayObjAdd objs (arraySeqnum seqnum) iidStr obj)

/-- {lit}`zcfgTr98SpeedObjsDeleteObj`. -/
def zcfgTr98SpeedObjsDeleteObj (table : NameTable) (tr98SpeedObjs : SpeedObjs V) (seqnum : Nat)
    (tr98ObjIid : ObjIndex) : Option (ZcfgRet × SpeedObjs V) :=
  if isSeqnumRight table seqnum = false then some (.internalError, tr98SpeedObjs)
  else
    match arrayGetIdx tr98SpeedObjs (arraySeqnum seqnum) with
    | none => some (.noSuchObject, tr98SpeedObjs)
    | some arrayObj =>
        (tr98ObjIidStr tr98ObjIid).map fun iidStr =>
          (.success, arrayPutIdx tr98SpeedObjs (arraySeqnum seqnum) (objectDel iidStr arrayObj))

/-- {lit}`zcfgTr98SpeedObjsAddParam`.  Where there is no object the parameter goes to a new one, which is
not put into the cache. -/
def zcfgTr98SpeedObjsAddParam (table : NameTable) (tr98SpeedObjs : SpeedObjs V) (seqnum : Nat)
    (tr98ObjIid : ObjIndex) (parmname : List Char) (paramObj : V) :
    Option (ZcfgRet × SpeedObjs V) :=
  if isSeqnumRight table seqnum = false then some (.internalError, tr98SpeedObjs)
  else
    let objs := withArrayObj tr98SpeedObjs (arraySeqnum seqnum)
    (tr98ObjIidStr tr98ObjIid).map fun iidStr =>
      match (((arrayGetIdx objs (arraySeqnum seqnum)).getD []).lookup iidStr).join with
      | none => (.success, objs)
      | some obj =>
          (.success, arrayObjAdd objs (arraySeqnum seqnum) iidStr (objectAdd parmname paramObj obj))

/-! ## Keys -/

/-- Up to five indices that are not zero, and zeros behind them. -/
def LeadingIdx (idx : List UInt8) : Prop :=
  ∃ lead : List UInt8, lead.length ≤ 5 ∧ (∀ i ∈ lead, i ≠ 0) ∧
    idx = lead ++ List.replicate (supportedIndexLevel - lead.length) 0

/-- A valid sequence number with the index of an instance. -/
structure SpeedKey (table : NameTable) where
  seqnum : Nat
  objIid : ObjIndex
  right : isSeqnumRight table seqnum = true
  leading : LeadingIdx objIid.idx

variable {table : NameTable}

/-- What tells two keys apart: the level of an index has no meaning here. -/
def SpeedKey.key (k : SpeedKey table) : Nat × List UInt8 :=
  (k.seqnum, k.objIid.idx)

/-! ## Histories -/

/-- A call that changes the cache. -/
inductive SpeedOp (table : NameTable) (V : Type) where
  | addObj (k : SpeedKey table) (obj : Option (SpeedObj V))
  | addParam (k : SpeedKey table) (parmname : List Char) (paramObj : V)
  | deleteObj (k : SpeedKey table)
  | retObj (k : SpeedKey table)

/-- The cache behind a call. -/
def SpeedOp.run (objs : SpeedObjs V) : SpeedOp table V → Option (SpeedObjs V)
  | .addObj k obj => (zcfgTr98SpeedObjsAddObj table objs k.seqnum k.objIid obj).map Prod.snd
  | .addParam k parmname paramObj =>
      (zcfgTr98SpeedObjsAddParam table objs k.seqnum k.objIid parmname paramObj).map Prod.snd
  | .deleteObj k => (zcfgTr98SpeedObjsDeleteObj table objs k.seqnum k.objIid).map Prod.snd
  | .retObj k => (zcfgTr98SpeedObjsRetObj objs k.seqnum k.objIid).map Prod.snd

/-- A call in a run; a write behind the buffer ends it. -/
def speedStep (objs : Option (SpeedObjs V)) (op : SpeedOp table V) : Option (SpeedObjs V) :=
  objs.bind op.run

/-- What a cache is for: the objects by their keys. -/
abbrev ObjMap (V : Type) := Nat × List UInt8 → Option (SpeedObj V)

/-- A call on the map.  A parameter without an object gets an empty one. -/
def SpeedOp.apply (objMap : ObjMap V) : SpeedOp table V → ObjMap V
  | .addObj _ none => objMap
  | .addObj k (some obj) => Function.update objMap k.key (some obj)
  | .addParam k parmname paramObj =>
      Function.update objMap k.key (some (objectAdd parmname paramObj ((objMap k.key).getD [])))
  | .deleteObj k => Function.update objMap k.key none
  | .retObj k => Function.update objMap k.key none

/-- The cache has not been left, and each key gives the object of the map; taking the object returns it
too. -/
def Behaves (table : NameTable) (objs : Option (SpeedObjs V)) (objMap : ObjMap V) : Prop :=
  ∃ cache, objs = some cache ∧ ∀ k : SpeedKey table,
    zcfgTr98SpeedObjsRetrieve cache k.seqnum k.objIid = some (objMap k.key) ∧
      (zcfgTr98SpeedObjsRetObj cache k.seqnum k.objIid).map Prod.fst = some (objMap k.key)

/-- A parameter is added to an object that is there. -/
def HasObject (objs : Option (SpeedObjs V)) : SpeedOp table V → Prop
  | .addParam k _ _ => ∃ cache obj, objs = some cache ∧
      zcfgTr98SpeedObjsRetrieve cache k.seqnum k.objIid = some (some obj)
  | _ => True

/-! ## Texts of indices -/

/-- The numbers with dots between them. -/
theorem decimal_dottedIdx (i : UInt8) (rest : List UInt8) :
    decimal i.toNat ++ dottedIdx rest =
      ['.'].intercalate ((i :: rest).map fun i => decimal i.toNat) := by
  induction rest generalizing i with
  | nil => simp [dottedIdx]
  | cons next rest ih =>
      rw [List.map_cons, List.map_cons, List.intercalate_cons_cons, dottedIdx, ih next,
        List.map_cons, List.append_assoc]
      rfl

/-- The text tells the indices in front of the first zero. -/
theorem takeWhile_of_mappingIdx {objIid objIid' : ObjIndex}
    (h : mappingIdx objIid = mappingIdx objIid') :
    objIid.idx.takeWhile (· ≠ 0) = objIid'.idx.takeWhile (· ≠ 0) := by
  have hminus : ∀ (i : UInt8) (rest : List UInt8), ['-'] ≠ decimal i.toNat ++ dottedIdx rest := by
    intro i rest heq
    obtain ⟨d, ds, hds⟩ := List.exists_cons_of_ne_nil (decimal_ne_nil i.toNat)
    have hd := isDigit_of_mem_decimal (n := i.toNat) (c := d) (hds ▸ List.mem_cons_self)
    rw [hds, List.cons_append] at heq
    rw [← (List.cons.inj heq).1] at hd
    exact absurd hd (by decide)
  unfold mappingIdx at h
  split at h
  · rename_i hnil
    split at h
    · rename_i hnil'
      rw [hnil, hnil']
    · exact absurd h (hminus _ _)
  · rename_i i rest hcons
    split at h
    · exact absurd h.symm (hminus _ _)
    · rename_i i' rest' hcons'
      have hdot : ∀ idx : List UInt8, ∀ p ∈ idx.map (fun i => decimal i.toNat), '.' ∉ p := by
        intro idx p hp
        obtain ⟨b, -, rfl⟩ := List.mem_map.mp hp
        exact not_mem_decimal (by decide) b.toNat
      rw [decimal_dottedIdx, decimal_dottedIdx] at h
      have hmap := intercalate_injective (by simp) (by simp) (hdot _) (hdot _) h
      rw [hcons, hcons']
      exact List.map_injective_iff.mpr
        (fun b b' hb => UInt8.toNat_inj.mp (decimal_injective hb)) hmap

theorem takeWhile_leading {lead : List UInt8} (hlead : ∀ i ∈ lead, i ≠ 0) (n : Nat) :
    (lead ++ List.replicate n 0).takeWhile (· ≠ 0) = lead := by
  rw [List.takeWhile_append_of_pos (by simpa using hlead)]
  cases n with
  | zero => simp
  | succ n => simp [List.replicate_succ]

/-- Different indices have different texts. -/
theorem mappingIdx_inj {objIid objIid' : ObjIndex} (hidx : LeadingIdx objIid.idx)
    (hidx' : LeadingIdx objIid'.idx) :
    mappingIdx objIid = mappingIdx objIid' ↔ objIid.idx = objIid'.idx := by
  constructor
  · intro h
    have hlead := takeWhile_of_mappingIdx h
    obtain ⟨lead, -, hne, heq⟩ := hidx
    obtain ⟨lead', -, hne', heq'⟩ := hidx'
    rw [heq, heq', takeWhile_leading hne, takeWhile_leading hne'] at hlead
    rw [heq, heq', hlead]
  · intro h
    rw [mappingIdx, mappingIdx, h]

/-- The text of five numbers fits into the buffer. -/
theorem tr98ObjIidStr_of_leading {objIid : ObjIndex} (hidx : LeadingIdx objIid.idx) :
    tr98ObjIidStr objIid = some (mappingIdx objIid) := by
  obtain ⟨lead, hlength, hne, heq⟩ := hidx
  have hshort : (mappingIdx objIid).length < tr98ObjIidStrSize := by
    have hlead := takeWhile_leading hne (supportedIndexLevel - lead.length)
    rw [← heq] at hlead
    unfold mappingIdx
    rw [hlead]
    cases lead with
    | nil => decide
    | cons i rest =>
        have hrest := length_dottedIdx_le rest
        have hdigits := length_decimal_le i
        simp only [List.length_append, List.length_cons, tr98ObjIidStrSize] at hlength ⊢
        omega
  rw [tr98ObjIidStr, if_pos hshort]

/-! ## Arrays and members -/

theorem arrayGetIdx_putIdx {α : Type} (array : List (Option α)) (i j : Nat) (a : α) :
    arrayGetIdx (arrayPutIdx array i a) j = if j = i then some a else arrayGetIdx array j := by
  unfold arrayGetIdx arrayPutIdx
  by_cases hi : i < array.length
  · rw [if_pos hi, List.getElem?_set]
    by_cases hj : j = i
    · subst hj
      simp [hi]
    · simp [hj, Ne.symm hj]
  · rw [if_neg hi]
    have hlength : (array ++ List.replicate (i - array.length) none).length = i := by
      rw [List.length_append, List.length_replicate]
      omega
    rcases lt_trichotomy j i with hj | rfl | hj
    · rw [List.getElem?_append_left (by omega), if_neg (by omega)]
      rcases Nat.lt_or_ge j array.length with hin | hout
      · rw [List.getElem?_append_left hin]
      · rw [List.getElem?_append_right hout, List.getElem?_replicate,
          List.getElem?_eq_none hout]
        split <;> rfl
    · rw [List.getElem?_append_right hlength.le, hlength]
      simp
    · rw [List.getElem?_eq_none (by simp only [List.length_append, List.length_singleton] at *; omega),
        List.getElem?_eq_none (by omega), if_neg (by omega)]

theorem lookup_objectPull {α : Type} (key key' : List Char)
    (members : List (List Char × Option α)) :
    ((objectPull key members).lookup key').join =
      if key' = key then none else (members.lookup key').join := by
  induction members with
  | nil => simp [objectPull]
  | cons m members ih =>
      rw [objectPull] at ih ⊢
      rw [List.map_cons, List.lookup_cons, List.lookup_cons]
      by_cases hm : m.1 = key
      · by_cases hkey : key' = key
        · simp [hm, hkey]
        · have hne : (key' == key) = false := by simpa using hkey
          simp only [hm, if_true, hne, ih, if_neg hkey]
      · rw [if_neg hm]
        by_cases hfound : key' = m.1
        · have hne : key' ≠ key := fun h => hm (hfound ▸ h)
          simp [hfound, hm]
        · have hne : (key' == m.1) = false := by simpa using hfound
          simp only [hne, ih]

theorem lookup_objectDel {α : Type} (key key' : List Char) (members : List (List Char × α)) :
    (objectDel key members).lookup key' = if key' = key then none else members.lookup key' := by
  induction members with
  | nil => simp [objectDel]
  | cons m members ih =>
      rw [objectDel] at ih ⊢
      by_cases hm : m.1 = key
      · rw [List.filter_cons_of_neg (by simp [hm]), ih, List.lookup_cons]
        by_cases hkey : key' = key
        · rw [if_pos hkey, if_pos hkey]
        · have hne : (key' == m.1) = false := by simpa [hm] using hkey
          rw [if_neg hkey, if_neg hkey, hne]
      · rw [List.filter_cons_of_pos (by simp [hm]), List.lookup_cons, List.lookup_cons, ih]
        by_cases hfound : key' = m.1
        · simp [hfound, hm]
        · have hne : (key' == m.1) = false := by simpa using hfound
          simp only [hne]

/-! ## The object of a key -/

/-- The object under a text in an element of the array. -/
def cached (objs : SpeedObjs V) (arrayIdx : Nat) (iidStr : List Char) : Option (SpeedObj V) :=
  (((arrayGetIdx objs arrayIdx).getD []).lookup iidStr).join

/-- The object of a key. -/
def SpeedKey.cached (k : SpeedKey table) (objs : SpeedObjs V) : Option (SpeedObj V) :=
  FeTr98.cached objs (arraySeqnum k.seqnum) (mappingIdx k.objIid)

theorem cached_putIdx (objs : SpeedObjs V) (i j : Nat) (arrayObj : ArrayObj V) (iidStr : List Char) :
    cached (arrayPutIdx objs i arrayObj) j iidStr =
      if j = i then (arrayObj.lookup iidStr).join else cached objs j iidStr := by
  unfold cached
  rw [arrayGetIdx_putIdx]
  by_cases hj : j = i
  · rw [if_pos hj, if_pos hj, Option.getD_some]
  · rw [if_neg hj, if_neg hj]

/-- A new element of the array holds no object. -/
theorem cached_withArrayObj (objs : SpeedObjs V) (i j : Nat) (iidStr : List Char) :
    cached (withArrayObj objs i) j iidStr = cached objs j iidStr := by
  unfold withArrayObj
  split
  · rename_i hnone
    rw [cached_putIdx]
    by_cases hj : j = i
    · rw [if_pos hj, hj, cached, hnone]
      rfl
    · rw [if_neg hj]
  · rfl

theorem cached_arrayObjAdd (objs : SpeedObjs V) (i j : Nat) (iidStr iidStr' : List Char)
    (obj : SpeedObj V) :
    cached (arrayObjAdd objs i iidStr obj) j iidStr' =
      if j = i ∧ iidStr' = iidStr then some obj else cached objs j iidStr' := by
  rw [arrayObjAdd, cached_putIdx, lookup_objectAdd]
  by_cases hj : j = i
  · by_cases hstr : iidStr' = iidStr
    · rw [if_pos hj, if_pos hstr, if_pos ⟨hj, hstr⟩]
      rfl
    · rw [if_pos hj, if_neg hstr, if_neg (fun h => hstr h.2), hj]
      rfl
  · rw [if_neg hj, if_neg (fun h => hj h.1)]

/-- Keys with the same element and the same text are the same. -/
theorem SpeedKey.place_eq_iff (k k' : SpeedKey table) :
    arraySeqnum k'.seqnum = arraySeqnum k.seqnum ∧ mappingIdx k'.objIid = mappingIdx k.objIid ↔
      k'.key = k.key := by
  have hright := k.right
  have hright' := k'.right
  simp only [isSeqnumRight, Bool.and_eq_true, decide_eq_true_eq] at hright hright'
  rw [mappingIdx_inj k'.leading k.leading, SpeedKey.key, SpeedKey.key, Prod.mk.injEq]
  apply and_congr_left
  intro _
  unfold arraySeqnum
  constructor
  · intro h
    omega
  · intro h
    rw [h]

/-- What {lit}`Retrieve` returns. -/
theorem SpeedKey.retrieve_eq (k : SpeedKey table) (objs : SpeedObjs V) :
    zcfgTr98SpeedObjsRetrieve objs k.seqnum k.objIid = some (k.cached objs) := by
  unfold zcfgTr98SpeedObjsRetrieve SpeedKey.cached FeTr98.cached
  split
  · rename_i hnone
    rw [hnone]
    rfl
  · rename_i arrayObj hsome
    rw [tr98ObjIidStr_of_leading k.leading, hsome]
    rfl

/-- What {lit}`RetObj` returns. -/
theorem SpeedKey.retObj_fst (k : SpeedKey table) (objs : SpeedObjs V) :
    (zcfgTr98SpeedObjsRetObj objs k.seqnum k.objIid).map Prod.fst = some (k.cached objs) := by
  rw [← k.retrieve_eq objs]
  unfold zcfgTr98SpeedObjsRetObj zcfgTr98SpeedObjsRetrieve
  split
  · rfl
  · rw [tr98ObjIidStr_of_leading k.leading]
    rfl

/-- A key stands for one object. -/
theorem SpeedKey.cached_congr {k k' : SpeedKey table} (h : k'.key = k.key) (objs : SpeedObjs V) :
    k'.cached objs = k.cached objs := by
  obtain ⟨hseq, htext⟩ := (k.place_eq_iff k').mpr h
  rw [SpeedKey.cached, hseq, htext]
  rfl

theorem SpeedKey.cached_withArrayObj (k : SpeedKey table) (objs : SpeedObjs V) (i : Nat) :
    k.cached (withArrayObj objs i) = k.cached objs :=
  FeTr98.cached_withArrayObj objs i _ _

/-- An object that is put under a key. -/
theorem SpeedKey.cached_arrayObjAdd (k k' : SpeedKey table) (objs : SpeedObjs V) (obj : SpeedObj V) :
    k'.cached (arrayObjAdd objs (arraySeqnum k.seqnum) (mappingIdx k.objIid) obj) =
      if k'.key = k.key then some obj else k'.cached objs := by
  rw [SpeedKey.cached, FeTr98.cached_arrayObjAdd]
  simp only [k.place_eq_iff k']
  rfl

/-- An element of the array from which the object of a key has gone. -/
theorem SpeedKey.cached_gone (k k' : SpeedKey table) {objs : SpeedObjs V}
    {arrayObj arrayObj' : ArrayObj V}
    (hold : arrayGetIdx objs (arraySeqnum k.seqnum) = some arrayObj)
    (hgone : ∀ iidStr, (arrayObj'.lookup iidStr).join =
      if iidStr = mappingIdx k.objIid then none else (arrayObj.lookup iidStr).join) :
    k'.cached (arrayPutIdx objs (arraySeqnum k.seqnum) arrayObj') =
      if k'.key = k.key then none else k'.cached objs := by
  rw [SpeedKey.cached, cached_putIdx, hgone, SpeedKey.cached]
  simp only [← k.place_eq_iff k']
  by_cases hseq : arraySeqnum k'.seqnum = arraySeqnum k.seqnum
  · simp only [hseq, true_and, if_true, FeTr98.cached, hold, Option.getD_some]
  · simp only [hseq, false_and, if_false]

/-! ## One call -/

theorem addObj_cached (k : SpeedKey table) (objs : SpeedObjs V) (obj : Option (SpeedObj V)) :
    ∃ ret objs', zcfgTr98SpeedObjsAddObj table objs k.seqnum k.objIid obj = some (ret, objs') ∧
      ∀ k' : SpeedKey table, k'.cached objs' =
        if k'.key = k.key then obj.or (k.cached objs) else k'.cached objs := by
  have hcall : zcfgTr98SpeedObjsAddObj table objs k.seqnum k.objIid obj =
      some (match obj with
        | none => (.internalError, withArrayObj objs (arraySeqnum k.seqnum))
        | some obj => (.success, arrayObjAdd (withArrayObj objs (arraySeqnum k.seqnum))
            (arraySeqnum k.seqnum) (mappingIdx k.objIid) obj)) := by
    unfold zcfgTr98SpeedObjsAddObj
    rw [if_neg (by simp [k.right]), tr98ObjIidStr_of_leading k.leading]
    cases obj with
    | none => rfl
    | some obj => rfl
  cases obj with
  | none =>
      refine ⟨_, _, hcall, ?_⟩
      intro k'
      rw [k'.cached_withArrayObj]
      split
      · rename_i hkey
        rw [SpeedKey.cached_congr hkey]
        rfl
      · rfl
  | some obj =>
      refine ⟨_, _, hcall, ?_⟩
      intro k'
      rw [k.cached_arrayObjAdd k', k'.cached_withArrayObj]
      rfl

/-- A parameter is added to the object of the key, if there is one. -/
theorem addParam_cached (k : SpeedKey table) (objs : SpeedObjs V) (parmname : List Char)
    (paramObj : V) :
    ∃ ret objs', zcfgTr98SpeedObjsAddParam table objs k.seqnum k.objIid parmname paramObj =
        some (ret, objs') ∧
      ∀ k' : SpeedKey table, k'.cached objs' =
        if k'.key = k.key then (k.cached objs).map (objectAdd parmname paramObj)
        else k'.cached objs := by
  have hcall : zcfgTr98SpeedObjsAddParam table objs k.seqnum k.objIid parmname paramObj =
      some (match k.cached (withArrayObj objs (arraySeqnum k.seqnum)) with
        | none => (.success, withArrayObj objs (arraySeqnum k.seqnum))
        | some obj => (.success, arrayObjAdd (withArrayObj objs (arraySeqnum k.seqnum))
            (arraySeqnum k.seqnum) (mappingIdx k.objIid) (objectAdd parmname paramObj obj))) := by
    simp only [zcfgTr98SpeedObjsAddParam, k.right, tr98ObjIidStr_of_leading k.leading]
    rfl
  rw [k.cached_withArrayObj] at hcall
  cases hobj : k.cached objs with
  | none =>
      rw [hobj] at hcall
      refine ⟨_, _, hcall, ?_⟩
      intro k'
      rw [k'.cached_withArrayObj]
      split
      · rename_i hkey
        rw [SpeedKey.cached_congr hkey, hobj]
        rfl
      · rfl
  | some obj =>
      rw [hobj] at hcall
      refine ⟨_, _, hcall, ?_⟩
      intro k'
      rw [k.cached_arrayObjAdd k', k'.cached_withArrayObj]
      rfl

theorem deleteObj_cached (k : SpeedKey table) (objs : SpeedObjs V) :
    ∃ ret objs', zcfgTr98SpeedObjsDeleteObj table objs k.seqnum k.objIid = some (ret, objs') ∧
      ∀ k' : SpeedKey table, k'.cached objs' =
        if k'.key = k.key then none else k'.cached objs := by
  unfold zcfgTr98SpeedObjsDeleteObj
  rw [if_neg (by simp [k.right])]
  split
  · rename_i hnone
    refine ⟨_, _, rfl, ?_⟩
    intro k'
    split
    · rename_i hkey
      rw [SpeedKey.cached_congr hkey, SpeedKey.cached, FeTr98.cached, hnone]
      rfl
    · rfl
  · rename_i arrayObj hsome
    rw [tr98ObjIidStr_of_leading k.leading]
    refine ⟨_, _, rfl, ?_⟩
    intro k'
    apply k.cached_gone k' hsome
    intro iidStr
    rw [lookup_objectDel]
    split <;> rfl

theorem retObj_cached (k : SpeedKey table) (objs : SpeedObjs V) :
    ∃ taken objs', zcfgTr98SpeedObjsRetObj objs k.seqnum k.objIid = some (taken, objs') ∧
      ∀ k' : SpeedKey table, k'.cached objs' =
        if k'.key = k.key then none else k'.cached objs := by
  unfold zcfgTr98SpeedObjsRetObj
  split
  · rename_i hnone
    refine ⟨_, _, rfl, ?_⟩
    intro k'
    split
    · rename_i hkey
      rw [SpeedKey.cached_congr hkey, SpeedKey.cached, FeTr98.cached, hnone]
      rfl
    · rfl
  · rename_i arrayObj hsome
    rw [tr98ObjIidStr_of_leading k.leading]
    refine ⟨_, _, rfl, ?_⟩
    intro k'
    apply k.cached_gone k' hsome
    intro iidStr
    exact lookup_objectPull _ _ _

/-- The key that a call is for. -/
def SpeedOp.opKey : SpeedOp table V → SpeedKey table
  | .addObj k _ => k
  | .addParam k _ _ => k
  | .deleteObj k => k
  | .retObj k => k

/-- What a call makes of the object of its key.  A parameter without an object is lost. -/
def SpeedOp.onObject (obj : Option (SpeedObj V)) : SpeedOp table V → Option (SpeedObj V)
  | .addObj _ added => added.or obj
  | .addParam _ parmname paramObj => obj.map (objectAdd parmname paramObj)
  | .deleteObj _ => none
  | .retObj _ => none

/-- A call ends, changes the object of its key and leaves the objects of other keys alone. -/
theorem SpeedOp.run_cached (op : SpeedOp table V) (objs : SpeedObjs V) :
    ∃ objs', op.run objs = some objs' ∧ ∀ k : SpeedKey table,
      k.cached objs' =
        if k.key = op.opKey.key then op.onObject (op.opKey.cached objs) else k.cached objs := by
  cases op with
  | addObj k obj =>
      obtain ⟨ret, objs', hcall, hcached⟩ := addObj_cached k objs obj
      exact ⟨objs', by rw [SpeedOp.run, hcall]; rfl, hcached⟩
  | addParam k parmname paramObj =>
      obtain ⟨ret, objs', hcall, hcached⟩ := addParam_cached k objs parmname paramObj
      exact ⟨objs', by rw [SpeedOp.run, hcall]; rfl, hcached⟩
  | deleteObj k =>
      obtain ⟨ret, objs', hcall, hcached⟩ := deleteObj_cached k objs
      exact ⟨objs', by rw [SpeedOp.run, hcall]; rfl, hcached⟩
  | retObj k =>
      obtain ⟨taken, objs', hcall, hcached⟩ := retObj_cached k objs
      exact ⟨objs', by rw [SpeedOp.run, hcall]; rfl, hcached⟩

/-! ## Histories -/

/-- What a call makes of the object of its key in the map. -/
def SpeedOp.onMap (obj : Option (SpeedObj V)) : SpeedOp table V → Option (SpeedObj V)
  | .addObj _ added => added.or obj
  | .addParam _ parmname paramObj => some (objectAdd parmname paramObj (obj.getD []))
  | .deleteObj _ => none
  | .retObj _ => none

theorem SpeedOp.apply_eq (op : SpeedOp table V) (objMap : ObjMap V) (key : Nat × List UInt8) :
    op.apply objMap key =
      if key = op.opKey.key then op.onMap (objMap op.opKey.key) else objMap key := by
  cases op with
  | addObj k obj =>
      cases obj with
      | none =>
          rw [SpeedOp.apply]
          split
          · rename_i hkey
            rw [hkey]
            rfl
          · rfl
      | some obj => exact Function.update_apply objMap k.key _ key
  | addParam k parmname paramObj => exact Function.update_apply objMap k.key _ key
  | deleteObj k => exact Function.update_apply objMap k.key _ key
  | retObj k => exact Function.update_apply objMap k.key _ key

theorem behaves_some_iff (objs : SpeedObjs V) (objMap : ObjMap V) :
    Behaves table (some objs) objMap ↔ ∀ k : SpeedKey table, k.cached objs = objMap k.key := by
  unfold Behaves
  constructor
  · rintro ⟨cache, heq, hcache⟩ k
    rw [Option.some.inj heq, ← Option.some.injEq, ← k.retrieve_eq cache]
    exact (hcache k).1
  · intro h
    refine ⟨objs, rfl, ?_⟩
    intro k
    rw [k.retrieve_eq, k.retObj_fst, h k]
    exact ⟨rfl, rfl⟩

/-- A call does to the cache what it does to the map, exactly if a parameter has an object. -/
theorem hasObject_iff (objs : SpeedObjs V) (op : SpeedOp table V) :
    HasObject (some objs) op ↔
      op.onObject (op.opKey.cached objs) = op.onMap (op.opKey.cached objs) := by
  cases op with
  | addParam k parmname paramObj =>
      simp only [HasObject, SpeedOp.onObject, SpeedOp.onMap, SpeedOp.opKey]
      cases hobj : k.cached objs with
      | none => simp [k.retrieve_eq, hobj]
      | some obj => simp [k.retrieve_eq, hobj]
  | addObj k obj => exact iff_of_true trivial rfl
  | deleteObj k => exact iff_of_true trivial rfl
  | retObj k => exact iff_of_true trivial rfl

/-- A call that meets a cache which behaves as a map leaves one that does, exactly if a parameter is
added to an object that is there. -/
theorem behaves_step_iff {objs : SpeedObjs V} {objMap : ObjMap V}
    (h : Behaves table (some objs) objMap) (op : SpeedOp table V) :
    Behaves table (speedStep (some objs) op) (op.apply objMap) ↔ HasObject (some objs) op := by
  rw [behaves_some_iff] at h
  obtain ⟨objs', hrun, hcached⟩ := op.run_cached objs
  have hstep : speedStep (some objs) op = some objs' := hrun
  rw [hstep, behaves_some_iff, hasObject_iff]
  constructor
  · intro hmap
    have hkey := hmap op.opKey
    rw [hcached, op.apply_eq, if_pos rfl, if_pos rfl, ← h op.opKey] at hkey
    exact hkey
  · intro hsame k
    rw [hcached, op.apply_eq, hsame, h op.opKey, h k]

/-- The cache behaves as a map after every part of a history that starts with an empty cache, exactly
if every parameter is added to an object that is there. -/
theorem speedObjs_map_iff (ops : List (SpeedOp table V)) :
    (∀ done, done <+: ops →
      Behaves table (done.foldl speedStep (some [])) (done.foldl SpeedOp.apply fun _ => none)) ↔
      EveryStep speedStep HasObject (some []) ops := by
  apply simulates_iff
  · intro objs objMap op h
    obtain ⟨cache, rfl, -⟩ := id h
    exact behaves_step_iff h op
  · rw [behaves_some_iff]
    intro k
    rfl

/-! ## A parameter that is lost -/

/-- The name table with one name. -/
def oneName : NameTable := ["InternetGatewayDevice".toList]

/-- The index with a first number. -/
def firstIdx (i : UInt8) : ObjIndex where
  level := 1
  idx := [i, 0, 0, 0, 0, 0]
  idx_length := ObjIndex.length_single i

def firstKey : SpeedKey oneName where
  seqnum := 100
  objIid := firstIdx 1
  right := by decide
  leading := ⟨[1], by decide, by simp, by decide⟩

/-- A parameter that is added without an object is not in the cache. -/
theorem param_lost :
    ¬ ∀ done, done <+: [SpeedOp.addParam firstKey "Enable".toList true] →
      Behaves oneName (done.foldl speedStep (some [])) (done.foldl SpeedOp.apply fun _ => none) := by
  intro h
  obtain ⟨cache, hcache, hget⟩ := h [SpeedOp.addParam firstKey "Enable".toList true] List.prefix_rfl
  have hlost : some cache = some [some []] := hcache.symm.trans rfl
  obtain rfl := Option.some.inj hlost
  have hnone : zcfgTr98SpeedObjsRetrieve [some ([] : ArrayObj Bool)] 100 (firstIdx 1) =
      some none := by decide
  have hkey := (hget firstKey).1
  rw [show firstKey.seqnum = 100 from rfl, show firstKey.objIid = firstIdx 1 from rfl, hnone] at hkey
  exact absurd (Option.some.inj hkey).symm (by simp [SpeedOp.apply])

end FeTr98
end ZyxelRouter
