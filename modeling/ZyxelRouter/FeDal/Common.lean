import ZyxelRouter.ZcfgCommon
import ZyxelRouter.Lib.KeyedTable

/-!
# Handlers of the web interface

What the handlers of {lit}`zcfg_fe_dal` share: numbers of instances, replies, and the call that a handler
makes to the store.  A handler numbers the rules that it lists; what a request for a number has to do
is said here for any kind of rule.

Main results:

- Theorem {lit}`InstNum.ofIndex_toInt`: an index is the number of its instance.
- Theorem {lit}`putAgrees_frame`, {lit}`deleteAgrees_frame`: what agreement means for the rules.
-/

namespace ZyxelRouter
namespace FeDal

open Lib

/-! ## Instances and replies -/

/-- Numbers of instances start at 1. -/
def InstNum : Type := { n : UInt8 // n ≠ 0 }

instance : DecidableEq InstNum := inferInstanceAs (DecidableEq { n : UInt8 // n ≠ 0 })

theorem InstNum.one_ne : (1 : UInt8) ≠ 0 := by decide

theorem InstNum.two_ne : (2 : UInt8) ≠ 0 := by decide

theorem InstNum.three_ne : (3 : UInt8) ≠ 0 := by decide

/-- The number of an instance as an {lit}`int`. -/
def InstNum.toInt (n : InstNum) : Int := n.val.toNat

/-- {lit}`objIid.idx[0] = index`; no instance has number 0. -/
def InstNum.ofIndex (index : Int) : Option InstNum :=
  if h : UInt8.ofInt index ≠ 0 then some ⟨UInt8.ofInt index, h⟩ else none

/-- What the caller gets besides the result: {lit}`replyMsg` and {lit}`__multi_lang_replyMsg`. -/
structure DalReply where
  replyMsg : List Char
  multiLangReplyMsg : Option (List Char)
deriving DecidableEq

/-- {lit}`strcpy(replyMsg, text)`. -/
def DalReply.copy (reply : DalReply) (text : String) : DalReply :=
  { reply with replyMsg := text.toList }

/-- {lit}`strcat(replyMsg, text)`. -/
def DalReply.cat (reply : DalReply) (text : String) : DalReply :=
  { reply with replyMsg := reply.replyMsg ++ text.toList }

/-- An empty reply. -/
def DalReply.empty : DalReply where
  replyMsg := []
  multiLangReplyMsg := none

/-- A handler's result, its replies and the table behind it. -/
abbrev TableResult (T : Type) := ZcfgRet × DalReply × T

/-- {lit}`dalType_int` of {lit}`parseValidateParameter`, with bounds. -/
def acceptedInt (min max value : Int) : Bool := min ≤ value && value ≤ max

/-! ## Properties of numbers -/

theorem InstNum.toInt_ne_zero (n : InstNum) : (0 : Int) ≠ n.toInt := by
  intro h
  apply n.property
  rw [InstNum.toInt] at h
  exact UInt8.toNat_inj.mp (by simpa using h.symm)

theorem InstNum.toInt_inj {m n : InstNum} : m.toInt = n.toInt ↔ m = n := by
  constructor
  · intro h
    rw [InstNum.toInt, InstNum.toInt] at h
    exact Subtype.ext (UInt8.toNat_inj.mp (by omega))
  · intro h
    rw [h]

theorem InstNum.ofIndex_toInt (n : InstNum) : InstNum.ofIndex n.toInt = some n := by
  have hval : UInt8.ofInt n.toInt = n.val := by
    have hlt := n.val.toNat_lt
    have hmod : ((n.val.toNat : Int) % 2 ^ 8).toNat = n.val.toNat := by omega
    rw [InstNum.toInt, UInt8.ofInt, hmod, UInt8.ofNat_toNat]
  unfold InstNum.ofIndex
  simp only [hval]
  rw [dif_pos n.property]
  rfl

/-! ## Calls to the store -/

/-- The call to the store with which a handler ends. -/
inductive StoreCall (I R : Type) where
  | none
  | set (iid : I) (rule : R)
  | del (iid : I)

namespace StoreCall

variable {I R : Type} [DecidableEq I]

/-- The rules after the call; there is no rule to set where there was none. -/
def apply (call : StoreCall I R) (rules : I → Option R) : I → Option R :=
  match call with
  | .none => rules
  | .set iid rule => Function.update rules iid ((rules iid).map (fun _ => rule))
  | .del iid => Function.update rules iid .none

end StoreCall

/-- The entry of a list with a given number, counted from 1. -/
def atIndex {α : Type} (list : List α) (index : Int) : Option α :=
  if index ≤ 0 then none else list[(index - 1).toNat]?

/-- The position of an index. -/
theorem atIndex_eq_some_iff {α : Type} {list : List α} {index : Int} {a : α} :
    atIndex list index = some a ↔ ∃ n : Nat, index = n + 1 ∧ list[n]? = some a := by
  rw [atIndex]
  by_cases hpos : index ≤ 0
  · rw [if_pos hpos]
    refine iff_of_false (by simp) ?_
    rintro ⟨n, rfl, -⟩
    omega
  · rw [if_neg hpos]
    constructor
    · intro h
      exact ⟨(index - 1).toNat, by omega, h⟩
    · rintro ⟨n, rfl, h⟩
      have hn : ((n : Int) + 1 - 1).toNat = n := by omega
      rwa [hn]

/-- Looking for a number in a numbered list. -/
theorem find?_numbered {α β : Type} (number : β → Int) (index : Int) :
    ∀ (list : List α) (entry : Nat → α → β) (first : Nat),
      (∀ n a, number (entry n a) = (n + first : Nat)) →
      (list.mapIdx entry).find? (fun e => number e = index) =
        if index < first then none
        else (list[(index - first).toNat]?).map (entry (index - first).toNat) := by
  intro list
  induction list with
  | nil =>
      intro entry first _
      simp
  | cons a list ih =>
      intro entry first hnumber
      have hhead : number (entry 0 a) = first := by simpa using hnumber 0 a
      rw [List.mapIdx_cons, List.find?_cons, hhead]
      by_cases heq : (first : Int) = index
      · subst heq
        simp
      · have htail : ∀ n b, number (entry (n + 1) b) = (n + (first + 1) : Nat) := by
          intro n b
          rw [hnumber]
          congr 1
          omega
        rw [decide_eq_false heq]
        simp only
        rw [ih (fun n => entry (n + 1)) (first + 1) htail]
        by_cases hlt : index < first
        · rw [if_pos hlt, if_pos (by omega)]
        · obtain ⟨n, hn⟩ : ∃ n : Nat, index - first = (n + 1 : Nat) :=
            ⟨(index - first - 1).toNat, by omega⟩
          have hrest : index - ((first + 1 : Nat) : Int) = n := by omega
          rw [if_neg hlt, if_neg (by omega), hn, hrest]
          simp

/-- Numbers of a numbered list are different. -/
theorem numbered_unique {α β : Type} {number : β → Int} {list : List α} {entry : Nat → α → β}
    {first : Nat} (hnumber : ∀ n a, number (entry n a) = (n + first : Nat)) {e e' : β}
    (he : e ∈ list.mapIdx entry) (he' : e' ∈ list.mapIdx entry) (heq : number e = number e') :
    e = e' := by
  obtain ⟨n, hn, rfl⟩ := List.mem_mapIdx.mp he
  obtain ⟨n', hn', rfl⟩ := List.mem_mapIdx.mp he'
  rw [hnumber, hnumber] at heq
  obtain rfl : n = n' := by omega
  rfl

section Agreement

variable {I R : Type}

/-- A {lit}`PUT` request agrees with the list: it sets the listed rule with the fields of the request, or
fails and sets nothing; without a listed rule it fails. -/
def PutAgrees (listed : Option I) (FieldsSet : R → Prop) (ret : ZcfgRet) (call : StoreCall I R) :
    Prop :=
  match listed with
  | none => ret ≠ .success ∧ call = .none
  | some iid =>
      (ret = .success → ∃ rule, call = .set iid rule ∧ FieldsSet rule) ∧
      (ret ≠ .success → call = .none)

/-- A {lit}`DELETE` request agrees with the list. -/
def DeleteAgrees (listed : Option I) (ret : ZcfgRet) (call : StoreCall I R) : Prop :=
  match listed with
  | none => ret ≠ .success ∧ call = .none
  | some iid => (ret = .success → call = .del iid) ∧ (ret ≠ .success → call = .none)

/-- A failed request that calls nothing agrees with any list. -/
theorem putAgrees_of_failed {listed : Option I} {FieldsSet : R → Prop} {ret : ZcfgRet}
    (h : ret ≠ .success) : PutAgrees listed FieldsSet ret .none := by
  cases listed with
  | none => exact ⟨h, rfl⟩
  | some iid => exact ⟨fun hret => absurd hret h, fun _ => rfl⟩

/-- A successful request agrees if it meets the listed rule. -/
theorem putAgrees_success_iff {listed : Option I} {FieldsSet : R → Prop} {iid : I} {rule : R} :
    PutAgrees listed FieldsSet .success (.set iid rule) ↔ listed = some iid ∧ FieldsSet rule := by
  cases listed with
  | none => simp [PutAgrees]
  | some iid' =>
      rw [PutAgrees, Option.some.injEq]
      constructor
      · rintro ⟨hset, -⟩
        obtain ⟨rule', hcall, hfields⟩ := hset rfl
        obtain ⟨rfl, rfl⟩ : iid = iid' ∧ rule = rule' := by simpa using hcall
        exact ⟨rfl, hfields⟩
      · rintro ⟨rfl, hfields⟩
        exact ⟨fun _ => ⟨rule, rfl, hfields⟩, fun h => absurd rfl h⟩

theorem deleteAgrees_of_failed {listed : Option I} {ret : ZcfgRet} (h : ret ≠ .success) :
    DeleteAgrees (R := R) listed ret .none := by
  cases listed with
  | none => exact ⟨h, rfl⟩
  | some iid => exact ⟨fun hret => absurd hret h, fun _ => rfl⟩

theorem deleteAgrees_success_iff {listed : Option I} {iid : I} :
    DeleteAgrees (R := R) listed .success (.del iid) ↔ listed = some iid := by
  cases listed with
  | none => simp [DeleteAgrees]
  | some iid' =>
      rw [DeleteAgrees, Option.some.injEq]
      constructor
      · rintro ⟨hdel, -⟩
        have heq : iid = iid' := by simpa using hdel rfl
        exact heq.symm
      · rintro rfl
        exact ⟨fun _ => rfl, fun h => absurd rfl h⟩

variable [DecidableEq I]

/-- Agreement in terms of the rules: the listed rule has the fields, all others are as they were. -/
theorem putAgrees_frame {listed : Option I} {FieldsSet : R → Prop} {ret : ZcfgRet}
    {call : StoreCall I R} {rules : I → Option R} (h : PutAgrees listed FieldsSet ret call)
    (hlisted : ∀ iid, listed = some iid → rules iid ≠ none) :
    (ret = .success → ∃ iid rule, listed = some iid ∧ call.apply rules iid = some rule ∧
      FieldsSet rule ∧ ∀ other, other ≠ iid → call.apply rules other = rules other) ∧
    (ret ≠ .success → call.apply rules = rules) := by
  cases listed with
  | none =>
      rw [PutAgrees] at h
      refine ⟨fun hret => absurd hret h.1, fun _ => ?_⟩
      rw [h.2, StoreCall.apply]
  | some iid =>
      rw [PutAgrees] at h
      constructor
      · intro hret
        obtain ⟨rule, hcall, hset⟩ := h.1 hret
        obtain ⟨old, hold⟩ := Option.ne_none_iff_exists'.mp (hlisted iid rfl)
        refine ⟨iid, rule, rfl, ?_, hset, ?_⟩
        · rw [hcall, StoreCall.apply, Function.update_self, hold, Option.map_some]
        · intro other hother
          rw [hcall, StoreCall.apply, Function.update_of_ne hother]
      · intro hret
        rw [h.2 hret, StoreCall.apply]

theorem deleteAgrees_frame {listed : Option I} {ret : ZcfgRet} {call : StoreCall I R}
    {rules : I → Option R} (h : DeleteAgrees listed ret call) :
    (ret = .success → ∃ iid, listed = some iid ∧ call.apply rules iid = none ∧
      ∀ other, other ≠ iid → call.apply rules other = rules other) ∧
    (ret ≠ .success → call.apply rules = rules) := by
  cases listed with
  | none =>
      rw [DeleteAgrees] at h
      refine ⟨fun hret => absurd hret h.1, fun _ => ?_⟩
      rw [h.2, StoreCall.apply]
  | some iid =>
      rw [DeleteAgrees] at h
      constructor
      · intro hret
        refine ⟨iid, rfl, ?_, ?_⟩
        · rw [h.1 hret, StoreCall.apply, Function.update_self]
        · intro other hother
          rw [h.1 hret, StoreCall.apply, Function.update_of_ne hother]
      · intro hret
        rw [h.2 hret, StoreCall.apply]

end Agreement

/-! ## Tables with one level of instances -/

/-- What the store decides when an instance is added: its number, which is a new one, and its
values. -/
structure InstanceStore (R : Type) where
  newInstance : KeyedTable InstNum R → Except ZcfgRet InstNum
  initial : R
  fresh : ∀ table n, newInstance table = .ok n → n ∉ table.rows.map Prod.fst

/-- A number, if it is free. -/
def freeNumber (table : KeyedTable InstNum R) (number : Nat) : Option InstNum :=
  match InstNum.ofIndex number with
  | none => none
  | some n => if n ∈ table.rows.map Prod.fst then none else some n

/-- A store that gives a new instance the first free number. -/
def InstanceStore.firstFree (initial : R) : InstanceStore R where
  newInstance table :=
    match (List.range 256).findSome? (freeNumber table) with
    | none => .error .internalError
    | some n => .ok n
  initial := initial
  fresh := by
    intro table n h
    split at h
    · exact absurd h (by simp)
    · rename_i found hfound
      obtain rfl : found = n := by simpa using h
      obtain ⟨number, -, hfree⟩ := List.exists_of_findSome?_eq_some hfound
      unfold freeNumber at hfree
      split at hfree
      · exact absurd hfree (by simp)
      · split at hfree
        · exact absurd hfree (by simp)
        · rename_i hnotMem
          obtain rfl := Option.some.inj hfree
          exact hnotMem

/-- What the store decides when an instance is added under another one. -/
structure ChildStore (R : Type) where
  newInstance : KeyedTable (InstNum × InstNum) R → InstNum → Except ZcfgRet InstNum
  initial : R
  fresh : ∀ table parent n, newInstance table parent = .ok n →
    (parent, n) ∉ table.rows.map Prod.fst

/-- A number under another instance, if it is free. -/
def freeChild (table : KeyedTable (InstNum × InstNum) R) (parent : InstNum) (number : Nat) :
    Option InstNum :=
  match InstNum.ofIndex number with
  | none => none
  | some n => if (parent, n) ∈ table.rows.map Prod.fst then none else some n

/-- A store that gives a new instance the first free number. -/
def ChildStore.firstFree (initial : R) : ChildStore R where
  newInstance table parent :=
    match (List.range 256).findSome? (freeChild table parent) with
    | none => .error .internalError
    | some n => .ok n
  initial := initial
  fresh := by
    intro table parent n h
    split at h
    · exact absurd h (by simp)
    · rename_i found hfound
      obtain rfl : found = n := by simpa using h
      obtain ⟨number, -, hfree⟩ := List.exists_of_findSome?_eq_some hfound
      unfold freeChild at hfree
      split at hfree
      · exact absurd hfree (by simp)
      · split at hfree
        · exact absurd hfree (by simp)
        · rename_i hnotMem
          obtain rfl := Option.some.inj hfree
          exact hnotMem

/-- What the calls of a handler return that read, set or delete an instance that is there.  A call that
fails changes nothing. -/
structure StoreResults where
  get : ZcfgRet
  set : ZcfgRet
  del : ZcfgRet

/-- No call fails. -/
def StoreResults.succeed : StoreResults where
  get := .success
  set := .success
  del := .success

namespace StoreResults

variable {K : Type} [DecidableEq K]

/-- {lit}`zcfgFeObjJsonSet` of an instance that is there. -/
def zcfgFeObjJsonSet (results : StoreResults) (table : KeyedTable K R) (objIid : K) (rule : R) :
    ZcfgRet × KeyedTable K R :=
  if results.set = .success then (.success, table.put objIid rule) else (results.set, table)

/-- {lit}`zcfgFeObjJsonDel` of an instance that is there. -/
def zcfgFeObjJsonDel (results : StoreResults) (table : KeyedTable K R) (objIid : K) :
    ZcfgRet × KeyedTable K R :=
  if results.del = .success then (.success, table.del objIid) else (results.del, table)

theorem set_of_success {results : StoreResults} (h : results.set = .success)
    (table : KeyedTable K R) (objIid : K) (rule : R) :
    results.zcfgFeObjJsonSet table objIid rule = (.success, table.put objIid rule) := by
  rw [zcfgFeObjJsonSet, if_pos h]

theorem set_of_failed {results : StoreResults} (h : results.set ≠ .success)
    (table : KeyedTable K R) (objIid : K) (rule : R) :
    results.zcfgFeObjJsonSet table objIid rule = (results.set, table) := by
  rw [zcfgFeObjJsonSet, if_neg h]

theorem del_of_success {results : StoreResults} (h : results.del = .success)
    (table : KeyedTable K R) (objIid : K) :
    results.zcfgFeObjJsonDel table objIid = (.success, table.del objIid) := by
  rw [zcfgFeObjJsonDel, if_pos h]

theorem del_of_failed {results : StoreResults} (h : results.del ≠ .success)
    (table : KeyedTable K R) (objIid : K) :
    results.zcfgFeObjJsonDel table objIid = (results.del, table) := by
  rw [zcfgFeObjJsonDel, if_neg h]

end StoreResults

/-- The loop of {lit}`convertIndextoIid` without a key. -/
def nthInstance (idx : Int) : List (InstNum × R) → Int → Option InstNum
  | [], _ => none
  | row :: rest, count => if idx = count then some row.1 else nthInstance idx rest (count + 1)

/-- {lit}`convertIndextoIid` without a key. -/
def convertIndextoIid (table : KeyedTable InstNum R) (idx : Int) (reply : DalReply) :
    Except (ZcfgRet × DalReply) InstNum :=
  if idx ≤ 0 then .error (.noSuchObject, reply.cat " Index error.")
  else
    match nthInstance idx table.rows 1 with
    | none => .error (.noSuchObject, reply.cat " Index error.")
    | some iid => .ok iid

theorem nthInstance_mem {idx : Int} {iid : InstNum} :
    ∀ {rows : List (InstNum × R)} {count : Int}, nthInstance idx rows count = some iid →
      iid ∈ rows.map Prod.fst := by
  intro rows
  induction rows with
  | nil =>
      intro count h
      exact absurd h (by simp [nthInstance])
  | cons row rest ih =>
      intro count h
      rw [nthInstance] at h
      by_cases hcount : idx = count
      · rw [if_pos hcount, Option.some.injEq] at h
        simp [h]
      · rw [if_neg hcount] at h
        exact List.mem_cons_of_mem _ (ih h)

/-- The instance of an index is there. -/
theorem convertIndextoIid_ok {table : KeyedTable InstNum R} {idx : Int} {reply : DalReply}
    {iid : InstNum} (h : convertIndextoIid table idx reply = .ok iid) :
    ∃ rule, (iid, rule) ∈ table.rows := by
  unfold convertIndextoIid at h
  split at h
  · exact absurd h (by simp)
  · split at h
    · exact absurd h (by simp)
    · rename_i found hfound
      obtain rfl : found = iid := by simpa using h
      obtain ⟨row, hrow, rfl⟩ := List.mem_map.mp (nthInstance_mem hfound)
      exact ⟨row.2, hrow⟩

/-- The instance of an index can be read. -/
theorem convertIndextoIid_get {table : KeyedTable InstNum R} {idx : Int} {reply : DalReply}
    {iid : InstNum} (h : convertIndextoIid table idx reply = .ok iid) :
    ∃ rule, table.get iid = some rule := by
  obtain ⟨rule, hrule⟩ := convertIndextoIid_ok h
  exact ⟨rule, KeyedTable.get_eq_some_iff.mpr hrule⟩

/-- The loop of {lit}`convertIndextoIid` finds the entry at a position. -/
theorem nthInstance_eq {R : Type} (rows : List (InstNum × R)) (n : Nat) (count : Int) :
    nthInstance (count + n) rows count = (rows[n]?).map Prod.fst := by
  induction rows generalizing n count with
  | nil => rfl
  | cons row rest ih =>
      rw [nthInstance]
      cases n with
      | zero => simp
      | succ n =>
          have hnext : count + ((n + 1 : Nat) : Int) = (count + 1) + n := by omega
          rw [if_neg (by omega), hnext, ih, List.getElem?_cons_succ]

theorem convertIndextoIid_succ {R : Type} (table : KeyedTable InstNum R) (n : Nat)
    (reply : DalReply) :
    convertIndextoIid table (n + 1) reply =
      match table.rows[n]? with
      | none => .error (.noSuchObject, reply.cat " Index error.")
      | some row => .ok row.1 := by
  have hindex : (n : Int) + 1 = 1 + n := by omega
  rw [convertIndextoIid, if_neg (by omega), hindex, nthInstance_eq]
  cases table.rows[n]? <;> rfl

theorem convertIndextoIid_error {table : KeyedTable InstNum R} {idx : Int} {reply : DalReply}
    {failed : ZcfgRet × DalReply} (h : convertIndextoIid table idx reply = .error failed) :
    failed = (.noSuchObject, reply.cat " Index error.") := by
  unfold convertIndextoIid at h
  split at h
  · simpa using h.symm
  · split at h
    · simpa using h.symm
    · exact absurd h (by simp)

end FeDal
end ZyxelRouter
