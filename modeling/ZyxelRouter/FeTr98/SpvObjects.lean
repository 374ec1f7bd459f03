import Mathlib.Data.List.Nodup
import ZyxelRouter.ZcfgCommon

/-!
# Lists of objects to be set

An SPV object list holds objects with their path names and the values that are to be set.  An appended
list replaces the objects of the same names.

Main results:

- Theorem {lit}`deleteSpvObject_eq`: a deleted entry is the last one and goes, or becomes a placeholder.
- Theorem {lit}`replaceEntry_entryOf`: what one appended entry does to the entries by their names.
- Theorem {lit}`appendReplace_replaces`: what the appended list makes of a list with distinct names.
-/

namespace ZyxelRouter
namespace FeTr98

variable {J : Type}

/-! ## The lists -/

/-- The members of an entry that are read; {lit}`J` is the type of JSON values that are not null. -/
structure SpvEntry (J : Type) where
  name : Option (List Char)
  obj : Option J
  spv : Option J
deriving DecidableEq

/-- An SPV object list; an element can be the null pointer. -/
abbrev SpvList (J : Type) := List (Option (SpvEntry J))

/-- The object that {lit}`json_object_array_delete_idx` leaves in the middle of an array. -/
def emptyIns : SpvEntry J where
  name := none
  obj := none
  spv := none

/-- {lit}`json_object_array_delete_idx`: the last element goes, another one is replaced. -/
def arrayDeleteIdx (array : SpvList J) (idx : Nat) : SpvList J :=
  if idx + 1 = array.length then array.dropLast else array.set idx (some emptyIns)

/-! ## The functions -/

/-- {lit}`zcfgFeAddTr98SpvObject`. -/
def zcfgFeAddTr98SpvObject (tr98SpvObj : SpvList J) (objpath : List Char) (obj spv : Option J) :
    ZcfgRet × SpvList J :=
  match obj with
  | none => (.internalError, tr98SpvObj)
  | some obj => (.success, tr98SpvObj ++ [some { name := some objpath, obj := some obj, spv }])

/-- The loop of {lit}`zcfgFeDeleteTr98SpvObject` at position {lit}`n`: {lit}`objseq`.  A null element keeps
the loops at it for ever, which is {lit}`none` here and below. -/
def objseqFrom (objpath : List Char) : SpvList J → Nat → Option (Option Nat)
  | [], _ => some none
  | none :: _, _ => none
  | some arrayObj :: rest, n =>
      if arrayObj.name = some objpath then some (some n) else objseqFrom objpath rest (n + 1)

/-- {lit}`zcfgFeDeleteTr98SpvObject`. -/
def zcfgFeDeleteTr98SpvObject (tr98SpvObj : SpvList J) (objpath : List Char) :
    Option (SpvList J) :=
  (objseqFrom objpath tr98SpvObj 0).map fun objseq =>
    match objseq with
    | none => tr98SpvObj
    | some objseq => arrayDeleteIdx tr98SpvObj objseq

/-- {lit}`zcfgFeRetrieveTr98SpvObject` with the old value of {lit}`*spv`: the object and {lit}`*spv`. -/
def zcfgFeRetrieveTr98SpvObject (objpath : List Char) (spv : Option J) :
    SpvList J → Option (Option J × Option J)
  | [] => some (none, spv)
  | none :: _ => none
  | some arrayObj :: rest =>
      if arrayObj.name = some objpath then some (arrayObj.obj, arrayObj.spv)
      else zcfgFeRetrieveTr98SpvObject objpath spv rest

/-- {lit}`zcfgFeTr98SpvObjectAppendReplace`; {lit}`copy` prints a value and parses the text. -/
def zcfgFeTr98SpvObjectAppendReplace (copy : J → Option J) :
    SpvList J → SpvList J → Option (SpvList J)
  | tr98SpvObj, [] => some tr98SpvObj
  | _, none :: _ => none
  | tr98SpvObj, some arrayObj :: rest =>
      match arrayObj.name with
      | none => zcfgFeTr98SpvObjectAppendReplace copy tr98SpvObj rest
      | some arrayObjPath =>
          (zcfgFeDeleteTr98SpvObject tr98SpvObj arrayObjPath).bind fun tr98SpvObj =>
            let added := zcfgFeAddTr98SpvObject tr98SpvObj arrayObjPath
              (arrayObj.obj.bind copy) (arrayObj.spv.bind copy)
            zcfgFeTr98SpvObjectAppendReplace copy added.2 rest

/-! ## Entries by their names -/

/-- The names of the entries. -/
def spvNames (list : SpvList J) : List (List Char) :=
  list.filterMap fun elem => elem.bind SpvEntry.name

/-- The element, if it is an entry with a name. -/
def named (objpath : List Char) (elem : Option (SpvEntry J)) : Option (SpvEntry J) :=
  elem.filter fun arrayObj => arrayObj.name = some objpath

/-- The first entry with a name. -/
def entryOf (objpath : List Char) (list : SpvList J) : Option (SpvEntry J) :=
  list.findSome? (named objpath)

/-- The last entry with a name. -/
def lastOccurrence (objpath : List Char) (list : SpvList J) : Option (SpvEntry J) :=
  entryOf objpath list.reverse

/-- What an appended list with its names makes of a list. -/
structure Replaces (copy : J → Option J) (before append after : SpvList J) : Prop where
  distinct : (spvNames after).Nodup
  /-- A name of the appended list gives the copies of its last occurrence there, if this has an object
  to copy, and otherwise nothing. -/
  appended : ∀ objpath arrayObj, lastOccurrence objpath append = some arrayObj → ∀ spv,
    zcfgFeRetrieveTr98SpvObject objpath spv after =
      match arrayObj.obj.bind copy with
      | some obj => some (some obj, arrayObj.spv.bind copy)
      | none => some (none, spv)
  others : ∀ objpath, objpath ∉ spvNames append → ∀ spv,
    zcfgFeRetrieveTr98SpvObject objpath spv after =
      zcfgFeRetrieveTr98SpvObject objpath spv before
  /-- A deletion behind it makes a name unretrievable, and no other. -/
  deleted : ∀ objpath, ∃ list, zcfgFeDeleteTr98SpvObject after objpath = some list ∧
    ∀ other spv, zcfgFeRetrieveTr98SpvObject other spv list =
      if other = objpath then some (none, spv) else zcfgFeRetrieveTr98SpvObject other spv after

theorem named_eq_some_iff {objpath : List Char} {elem : Option (SpvEntry J)} {e : SpvEntry J} :
    named objpath elem = some e ↔ elem = some e ∧ e.name = some objpath := by
  simp [named, Option.filter_eq_some_iff]

theorem entryOf_append (objpath : List Char) (front back : SpvList J) :
    entryOf objpath (front ++ back) = (entryOf objpath front).or (entryOf objpath back) :=
  List.findSome?_append

theorem entryOf_cons (objpath : List Char) (elem : Option (SpvEntry J)) (list : SpvList J) :
    entryOf objpath (elem :: list) = (named objpath elem).or (entryOf objpath list) := by
  rw [entryOf, List.findSome?_cons]
  cases named objpath elem with
  | none => rfl
  | some e => rfl

theorem lastOccurrence_cons (objpath : List Char) (elem : Option (SpvEntry J)) (list : SpvList J) :
    lastOccurrence objpath (elem :: list) =
      (lastOccurrence objpath list).or (named objpath elem) := by
  rw [lastOccurrence, List.reverse_cons, entryOf_append, entryOf_cons]
  simp [lastOccurrence, entryOf]

theorem spvNames_append (front back : SpvList J) :
    spvNames (front ++ back) = spvNames front ++ spvNames back :=
  List.filterMap_append

theorem spvNames_cons (e : SpvEntry J) (list : SpvList J) :
    spvNames (some e :: list) = e.name.toList ++ spvNames list := by
  rw [spvNames, List.filterMap_cons, Option.bind_some]
  cases e.name with
  | none => rfl
  | some name => rfl

/-- There is no entry of a name that the list does not have. -/
theorem entryOf_eq_none_iff {objpath : List Char} {list : SpvList J} :
    entryOf objpath list = none ↔ objpath ∉ spvNames list := by
  unfold entryOf spvNames
  rw [List.findSome?_eq_none_iff, List.mem_filterMap]
  constructor
  · rintro h ⟨elem, helem, hname⟩
    obtain ⟨e, rfl, hname⟩ := Option.bind_eq_some_iff.mp hname
    have hsome : named objpath (some e) = some e := named_eq_some_iff.mpr ⟨rfl, hname⟩
    rw [h _ helem] at hsome
    exact absurd hsome (by simp)
  · intro h elem helem
    rw [Option.eq_none_iff_forall_ne_some]
    intro e he
    obtain ⟨rfl, hname⟩ := named_eq_some_iff.mp he
    exact h ⟨some e, helem, hname⟩

theorem lastOccurrence_eq_none_iff {objpath : List Char} {list : SpvList J} :
    lastOccurrence objpath list = none ↔ objpath ∉ spvNames list := by
  rw [lastOccurrence, entryOf_eq_none_iff, spvNames, List.filterMap_reverse, List.mem_reverse]
  rfl

/-- What is retrieved without null elements: the members of the entry, or {lit}`*spv` as it was. -/
theorem retrieve_eq {list : SpvList J} (hnull : none ∉ list) (objpath : List Char)
    (spv : Option J) :
    zcfgFeRetrieveTr98SpvObject objpath spv list =
      some (match entryOf objpath list with
        | none => (none, spv)
        | some e => (e.obj, e.spv)) := by
  induction list with
  | nil => rfl
  | cons elem list ih =>
      rw [List.mem_cons, not_or] at hnull
      cases elem with
      | none => exact absurd rfl hnull.1
      | some e =>
          rw [zcfgFeRetrieveTr98SpvObject, entryOf_cons]
          by_cases hname : e.name = some objpath
          · have hnamed : named objpath (some e) = some e := named_eq_some_iff.mpr ⟨rfl, hname⟩
            rw [if_pos hname, hnamed]
            rfl
          · have hnamed : named objpath (some e) = none := by simp [named, hname]
            rw [if_neg hname, hnamed, ih hnull.2]
            rfl

/-! ## Deleting an entry -/

/-- The first entry with a name, with what is in front of it. -/
theorem objseqFrom_spec (objpath : List Char) {list : SpvList J} (hnull : none ∉ list) :
    ∀ n, objpath ∉ spvNames list ∧ objseqFrom objpath list n = some none ∨
      ∃ front e back, list = front ++ some e :: back ∧ e.name = some objpath ∧
        objpath ∉ spvNames front ∧
        objseqFrom objpath list n = some (some (n + front.length)) := by
  induction list with
  | nil => exact fun n => .inl ⟨by simp [spvNames], rfl⟩
  | cons elem list ih =>
      intro n
      rw [List.mem_cons, not_or] at hnull
      cases elem with
      | none => exact absurd rfl hnull.1
      | some e =>
          rw [objseqFrom]
          by_cases hname : e.name = some objpath
          · rw [if_pos hname]
            exact .inr ⟨[], e, list, rfl, hname, by simp [spvNames], rfl⟩
          · have hnot : objpath ∉ e.name.toList := by simpa [eq_comm] using hname
            rw [if_neg hname]
            rcases ih hnull.2 (n + 1) with ⟨hnone, heq⟩ | ⟨front, e', back, rfl, he', hfront, heq⟩
            · left
              rw [spvNames_cons, List.mem_append, not_or]
              exact ⟨⟨hnot, hnone⟩, heq⟩
            · right
              refine ⟨some e :: front, e', back, rfl, he', ?_, ?_⟩
              · rw [spvNames_cons, List.mem_append, not_or]
                exact ⟨hnot, hfront⟩
              · rw [heq, List.length_cons]
                congr 2
                omega

theorem arrayDeleteIdx_append (front : SpvList J) (elem : Option (SpvEntry J)) (back : SpvList J) :
    arrayDeleteIdx (front ++ elem :: back) front.length =
      if back = [] then front else front ++ some emptyIns :: back := by
  unfold arrayDeleteIdx
  cases back with
  | nil => simp
  | cons next back => simp

/-- A deletion finds the entry and takes it away, or it finds none and changes nothing. -/
theorem deleteSpvObject_eq (objpath : List Char) {list : SpvList J} (hnull : none ∉ list) :
    objpath ∉ spvNames list ∧ zcfgFeDeleteTr98SpvObject list objpath = some list ∨
      ∃ front e back, list = front ++ some e :: back ∧ e.name = some objpath ∧
        zcfgFeDeleteTr98SpvObject list objpath =
          some (if back = [] then front else front ++ some emptyIns :: back) := by
  rcases objseqFrom_spec objpath hnull 0 with ⟨hnone, heq⟩ | ⟨front, e, back, hlist, he, -, heq⟩
  · left
    rw [zcfgFeDeleteTr98SpvObject, heq]
    exact ⟨hnone, rfl⟩
  · right
    refine ⟨front, e, back, hlist, he, ?_⟩
    rw [zcfgFeDeleteTr98SpvObject, heq, Nat.zero_add, Option.map_some, hlist]
    simp only [arrayDeleteIdx_append]

/-- The list without one of its entries, which may leave a placeholder. -/
theorem entryOf_gap (other : List Char) (front back : SpvList J) :
    entryOf other (if back = [] then front else front ++ some emptyIns :: back) =
      entryOf other (front ++ back) := by
  split
  · rename_i hback
    rw [hback, List.append_nil]
  · rw [entryOf_append, entryOf_append, entryOf_cons]
    rfl

theorem spvNames_gap (front back : SpvList J) :
    spvNames (if back = [] then front else front ++ some emptyIns :: back) =
      spvNames (front ++ back) := by
  split
  · rename_i hback
    rw [hback, List.append_nil]
  · rw [spvNames_append, spvNames_append, spvNames_cons]
    rfl

/-- With distinct names a deletion takes the name away, and no other. -/
theorem deleteSpvObject_spec (objpath : List Char) {list : SpvList J} (hnull : none ∉ list)
    (hdistinct : (spvNames list).Nodup) :
    ∃ left, zcfgFeDeleteTr98SpvObject list objpath = some left ∧ none ∉ left ∧
      (spvNames left).Nodup ∧
      ∀ other, entryOf other left = if other = objpath then none else entryOf other list := by
  rcases deleteSpvObject_eq objpath hnull with ⟨hnone, heq⟩ | ⟨front, e, back, rfl, he, heq⟩
  · refine ⟨list, heq, hnull, hdistinct, ?_⟩
    intro other
    split
    · rename_i hother
      rw [hother, entryOf_eq_none_iff]
      exact hnone
    · rfl
  · have hnames : spvNames (front ++ some e :: back) =
        spvNames front ++ objpath :: spvNames back := by
      rw [spvNames_append, spvNames_cons, he]
      rfl
    rw [hnames, List.nodup_middle, List.nodup_cons, ← spvNames_append] at hdistinct
    refine ⟨_, heq, ?_, ?_, ?_⟩
    · simp only [List.mem_append, List.mem_cons, not_or] at hnull
      split
      · exact hnull.1
      · simp [hnull.1, hnull.2.2]
    · rw [spvNames_gap]
      exact hdistinct.2
    · intro other
      rw [entryOf_gap]
      split
      · rename_i hother
        rw [hother, entryOf_eq_none_iff]
        exact hdistinct.1
      · rename_i hother
        have hnamed : named other (some e) = none := by
          simp [named, he, Ne.symm hother]
        rw [entryOf_append, entryOf_append, entryOf_cons, hnamed, Option.none_or]

/-! ## Appending and replacing -/

/-- The copy of an appended entry, if it has an object that can be copied. -/
def SpvEntry.copied (copy : J → Option J) (objpath : List Char) (e : SpvEntry J) :
    Option (SpvEntry J) :=
  (e.obj.bind copy).map fun obj =>
    { name := some objpath, obj := some obj, spv := e.spv.bind copy }

/-- One appended entry replaces the entry of its name, and no other. -/
theorem replaceEntry_entryOf (copy : J → Option J) {list : SpvList J} (hnull : none ∉ list)
    (hdistinct : (spvNames list).Nodup) (objpath : List Char) (e : SpvEntry J) :
    ∃ left, zcfgFeDeleteTr98SpvObject list objpath = some left ∧
      none ∉ (zcfgFeAddTr98SpvObject left objpath (e.obj.bind copy) (e.spv.bind copy)).2 ∧
      (spvNames (zcfgFeAddTr98SpvObject left objpath (e.obj.bind copy)
        (e.spv.bind copy)).2).Nodup ∧
      ∀ other, entryOf other (zcfgFeAddTr98SpvObject left objpath (e.obj.bind copy)
          (e.spv.bind copy)).2 =
        if other = objpath then e.copied copy objpath else entryOf other list := by
  obtain ⟨left, hdelete, hleft, hnodup, hentry⟩ := deleteSpvObject_spec objpath hnull hdistinct
  have hgone : objpath ∉ spvNames left := by
    rw [← entryOf_eq_none_iff, hentry, if_pos rfl]
  refine ⟨left, hdelete, ?_⟩
  unfold zcfgFeAddTr98SpvObject SpvEntry.copied
  cases e.obj.bind copy with
  | none => exact ⟨hleft, hnodup, hentry⟩
  | some obj =>
      refine ⟨by simpa using hleft, ?_, ?_⟩
      · rw [spvNames_append, spvNames_cons]
        simpa [spvNames] using hnodup.concat hgone
      · intro other
        rw [entryOf_append, hentry, entryOf_cons]
        by_cases hother : other = objpath
        · rw [if_pos hother, if_pos hother, hother]
          simp [named, entryOf]
        · rw [if_neg hother, if_neg hother]
          have hnamed : ∀ e' : SpvEntry J, e'.name = some objpath → named other (some e') = none := by
            intro e' he'
            simp [named, he', Ne.symm hother]
          rw [hnamed _ rfl]
          cases entryOf other list with
          | none => rfl
          | some e' => rfl

/-- The entries behind a whole appended list. -/
theorem appendReplace_entryOf (copy : J → Option J) {append : SpvList J} (happend : none ∉ append) :
    ∀ {list : SpvList J}, none ∉ list → (spvNames list).Nodup →
      ∃ after, zcfgFeTr98SpvObjectAppendReplace copy list append = some after ∧
        none ∉ after ∧ (spvNames after).Nodup ∧
        ∀ objpath, entryOf objpath after =
          match lastOccurrence objpath append with
          | none => entryOf objpath list
          | some e => e.copied copy objpath := by
  induction append with
  | nil => exact fun hnull hdistinct => ⟨_, rfl, hnull, hdistinct, fun objpath => rfl⟩
  | cons elem append ih =>
      intro list hnull hdistinct
      rw [List.mem_cons, not_or] at happend
      cases elem with
      | none => exact absurd rfl happend.1
      | some e =>
          rw [zcfgFeTr98SpvObjectAppendReplace]
          cases hname : e.name with
          | none =>
              obtain ⟨after, hrun, hafter, hnodup, hentry⟩ := ih happend.2 hnull hdistinct
              refine ⟨after, hrun, hafter, hnodup, ?_⟩
              intro objpath
              have hnamed : named objpath (some e) = none := by simp [named, hname]
              rw [hentry, lastOccurrence_cons, hnamed, Option.or_none]
          | some path =>
              obtain ⟨left, hdelete, hadded, hnodup, hreplaced⟩ :=
                replaceEntry_entryOf copy hnull hdistinct path e
              obtain ⟨after, hrun, hafter, hnodup', hentry⟩ := ih happend.2 hadded hnodup
              refine ⟨after, ?_, hafter, hnodup', ?_⟩
              · simp only [hdelete, Option.bind_some]
                exact hrun
              intro objpath
              rw [hentry, lastOccurrence_cons, hreplaced]
              cases lastOccurrence objpath append with
              | some e' => rfl
              | none =>
                  by_cases hpath : objpath = path
                  · have hnamed : named objpath (some e) = some e :=
                      named_eq_some_iff.mpr ⟨rfl, by rw [hname, hpath]⟩
                    rw [if_pos hpath, hnamed, hpath]
                    rfl
                  · have hnamed : named objpath (some e) = none := by
                      simp [named, hname, Ne.symm hpath]
                    rw [if_neg hpath, hnamed]
                    rfl

/-- The appended list replaces the objects of its names by its last occurrences of them, and leaves
the other objects alone. -/
theorem appendReplace_replaces (copy : J → Option J) {before append : SpvList J}
    (hbefore : none ∉ before) (happend : none ∉ append) (hdistinct : (spvNames before).Nodup) :
    ∃ after, zcfgFeTr98SpvObjectAppendReplace copy before append = some after ∧
      Replaces copy before append after := by
  obtain ⟨after, hrun, hafter, hnodup, hentry⟩ :=
    appendReplace_entryOf copy happend hbefore hdistinct
  refine ⟨after, hrun, hnodup, ?_, ?_, ?_⟩
  · intro objpath arrayObj hlast spv
    rw [retrieve_eq hafter, hentry, hlast]
    cases hobj : arrayObj.obj.bind copy with
    | none => simp only [SpvEntry.copied, hobj, Option.map_none]
    | some obj => simp only [SpvEntry.copied, hobj, Option.map_some]
  · intro objpath hnot spv
    rw [retrieve_eq hafter, retrieve_eq hbefore, hentry, lastOccurrence_eq_none_iff.mpr hnot]
  · intro objpath
    obtain ⟨list, hdelete, hlist, -, hleft⟩ := deleteSpvObject_spec objpath hafter hnodup
    refine ⟨list, hdelete, ?_⟩
    intro other spv
    rw [retrieve_eq hlist, hleft, retrieve_eq hafter]
    by_cases hother : other = objpath
    · rw [if_pos hother, if_pos hother]
    · rw [if_neg hother, if_neg hother]

/-- A list with one object. -/
def oneObject : SpvList Nat :=
  [some { name := some "WANDevice.1".toList, obj := some 1, spv := none }]

/-- An appended list with the object twice. -/
def twiceAppended : SpvList Nat :=
  [some { name := some "WANDevice.1".toList, obj := some 2, spv := none },
    some { name := some "WANDevice.1".toList, obj := some 3, spv := some 4 }]

theorem appendReplace_replaces_twice :
    ∃ after, zcfgFeTr98SpvObjectAppendReplace some oneObject twiceAppended = some after ∧
      zcfgFeRetrieveTr98SpvObject "WANDevice.1".toList none after = some (some 3, some 4) := by
  have hbefore : none ∉ oneObject := by decide
  have happend : none ∉ twiceAppended := by decide
  have hdistinct : (spvNames oneObject).Nodup := by decide
  obtain ⟨after, hrun, hreplaces⟩ := appendReplace_replaces some hbefore happend hdistinct
  exact ⟨after, hrun, hreplaces.appended "WANDevice.1".toList _ rfl none⟩

/-- The last occurrence has values to set but no object, so the entry is deleted and none is added. -/
theorem entry_without_object :
    let append := [some { name := some "WANDevice.1".toList, obj := none, spv := some 4 }]
    zcfgFeTr98SpvObjectAppendReplace some oneObject append = some [] ∧
      (lastOccurrence "WANDevice.1".toList append).map (fun e => (e.obj, e.spv)) =
        some (none, some 4) ∧
      zcfgFeRetrieveTr98SpvObject "WANDevice.1".toList none ([] : SpvList Nat) =
        some (none, none) := by
  decide

end FeTr98
end ZyxelRouter
