import ZyxelRouter.Lib.SplitText
import ZyxelRouter.FeString.ObjName

/-!
# Access to the data model by object id

{lit}`zcfgFeDalQueryRdmObjHandler` answers queries of the web interface for objects that a table
allows.  An entry of the table may list instances, as texts, and parameters.  A text is compared
with the list after it has been cut at its first character 0.

Main results:

- Theorem {lit}`iidStr2ObjIid_plain`: the text of indices without the digit 0 is read back.
- Theorem {lit}`listed_of_plain`: instances without the digit 0 are authorised if listed.
- Theorem {lit}`rdmAcl_sound_iff`: when a reply holds listed instances and parameters only.
-/

namespace ZyxelRouter
namespace FeDal

open Lib FeString

/-! ## The table -/

/-- {lit}`rdmObjectACL_t`; null pointers are {lit}`none`. -/
structure RdmObjectACL where
  oid : Nat
  method : Nat
  iid : Option (List (List Char))
  params : Option (List (List Char))

/-- {lit}`retrieveRdmObjectACL`: the first entry for an object in front of the end mark. -/
def retrieveRdmObjectACL (rdmObjectACList : List RdmObjectACL) (oid : Nat) : Option RdmObjectACL :=
  (rdmObjectACList.takeWhile (·.method ≠ 0)).find? (·.oid = oid)

/-- {lit}`if(p && p != &iidStr[0]) *(p-1) = '\0'` for the first character 0. -/
def cutAtZero (iid : List Char) : List Char :=
  match iid.findIdx? (· = '0') with
  | none => iid
  | some p => if p = 0 then iid else iid.take (p - 1)

attribute [local instance] lawfulBEq_text in
/-- {lit}`zcfgFeDalACLIidAuth`, whether the result is zero.  Texts have at most 30 characters. -/
def zcfgFeDalACLIidAuth (objIidAuth : List (List Char)) (iid : List Char) : Bool :=
  let iidStr := cutAtZero (iid.take 30)
  iidStr ≠ [] && iidStr ∈ objIidAuth

/-! ## Indices as texts -/

/-- {lit}`objIid->idx[n]` and the level that goes with it. -/
def storeIdx (objIid : ObjIndex) (n : Nat) (value : UInt8) : ObjIndex where
  level := if value ≠ 0 then UInt8.ofNat (n + 1) else objIid.level
  idx := objIid.idx.set n value
  idx_length := objIid.length_set n value

/-- The loop of {lit}`iidStr2ObjIid`; a seventh number would be written behind the indices. -/
def iidLoop : Nat → ObjIndex → List (List Char) → Option ObjIndex
  | _, objIid, [] => some objIid
  | n, objIid, p :: rest =>
      if supportedIndexLevel ≤ n then none
      else if 0 < idxOf p then iidLoop (n + 1) (storeIdx objIid n (idxOf p)) rest
      else some (storeIdx objIid n (idxOf p))

/-- {lit}`strtok_r` with a comma. -/
def commaTokens (iid : List Char) : List (List Char) :=
  (iid.splitOn ',').filter (· ≠ [])

/-- {lit}`iidStr2ObjIid`. -/
def iidStr2ObjIid (iid : List Char) : Option ObjIndex :=
  iidLoop 0 ObjIndex.zero (commaTokens (iid.take 30))

/-- {lit}`"%hhu,%hhu,%hhu,%hhu,%hhu,%hhu"`. -/
def iidText (idx : List UInt8) : List Char :=
  [','].intercalate (idx.map (fun i => decimal i.toNat))

/-! ## Queries -/

/-- What is asked of the process that keeps the data model: whether an object has indices
({lit}`ATTR_INDEXNODE`), the instance with given indices, and the instances in the order in which
{lit}`zcfgFeObjJsonGetNext` goes through them. -/
structure RdmData (V : Type) where
  indexNode : Nat → Bool
  objJsonGet : Nat → ObjIndex → Option (List (List Char × V))
  objJsonGetNext : Nat → List (ObjIndex × List (List Char × V))

/-- An entry of the reply: {lit}`Iid` and {lit}`Object`. -/
structure ReplyEntry (V : Type) where
  iid : List UInt8
  object : List (List Char × V)
deriving DecidableEq

variable {V : Type}

/-- The parameters of an object that are in the reply. -/
def allowedParams (params : Option (List (List Char))) (queriedObj : List (List Char × V)) :
    List (List Char × V) :=
  match params with
  | none => queriedObj
  | some names =>
      names.eraseDups.filterMap
        (fun parmName => (queriedObj.lookup parmName).map (fun value => (parmName, value)))

/-- {lit}`zcfgFeDalQueryRdmObj` behind the query: whether the instance is one of a walk through all of
them decides if it is looked up in the list.  The handler never asks for sub objects. -/
def replyFor (objAcl : RdmObjectACL) (next : Bool) (objIid : ObjIndex)
    (queriedObj : List (List Char × V)) : List (ReplyEntry V) :=
  let entry : ReplyEntry V := { iid := objIid.idx, object := allowedParams objAcl.params queriedObj }
  match objAcl.iid with
  | none => [entry]
  | some iidACL =>
      if next && !zcfgFeDalACLIidAuth iidACL (cutAtZero (iidText objIid.idx)) then [] else [entry]

/-- {lit}`zcfgFeDalQueryRdmObj` for one instance. -/
def zcfgFeDalQueryRdmObj (data : RdmData V) (objAcl : RdmObjectACL) (objOid : Nat)
    (objIid : ObjIndex) : List (ReplyEntry V) :=
  match data.objJsonGet objOid objIid with
  | none => []
  | some queriedObj => replyFor objAcl false objIid queriedObj

/-- {lit}`zcfgFeDalQueryRdmObjs`: all instances. -/
def zcfgFeDalQueryRdmObjs (data : RdmData V) (objAcl : RdmObjectACL) (objOid : Nat) :
    List (ReplyEntry V) :=
  (data.objJsonGetNext objOid).flatMap (fun inst => replyFor objAcl true inst.1 inst.2)

/-- The text between the first bracket and the next closing one. -/
def bracketText (iidStr : Option (List Char)) : List Char :=
  match iidStr with
  | none => []
  | some str =>
      let p1 := (str.dropWhile (· ≠ '[')).drop 1
      if '[' ∈ str ∧ ']' ∈ p1 then p1.takeWhile (· ≠ ']') else []

/-- {lit}`zcfgFeDalQueryRdmObjHandler`: the result and the entries added to the reply, or {lit}`none` if
memory outside of the buffers is written; {lit}`iidStrSave` has room for 30 characters. -/
def zcfgFeDalQueryRdmObjHandler (rdmObjectACList : List RdmObjectACL) (data : RdmData V) (oid : Nat)
    (iidStr : Option (List Char)) : Option (ZcfgRet × List (ReplyEntry V)) :=
  let iidStrSave := bracketText iidStr
  if 30 < iidStrSave.length then none
  else
    match retrieveRdmObjectACL rdmObjectACList oid with
    | none => some (.requestReject, [])
    | some objACL =>
        if iidStrSave = [] then
          if data.indexNode oid then some (.success, zcfgFeDalQueryRdmObjs data objACL oid)
          else some (.success, zcfgFeDalQueryRdmObj data objACL oid ObjIndex.zero)
        else if objACL.iid.any (fun iid => !zcfgFeDalACLIidAuth iid iidStrSave) then
          some (.requestReject, [])
        else
          match iidStr2ObjIid iidStrSave with
          | none => none
          | some objIid => some (.success, zcfgFeDalQueryRdmObj data objACL oid objIid)

/-! ## Texts without the digit 0 -/

/-- Indices in front of zeros, none of them zero or with a digit 0. -/
def PlainIdx (idx : List UInt8) : Prop :=
  ∃ used, idx = used ++ List.replicate (supportedIndexLevel - used.length) 0 ∧
    used.length ≤ supportedIndexLevel ∧ ∀ i ∈ used, i ≠ 0 ∧ '0' ∉ decimal i.toNat

theorem findIdx?_zero_append {front rest : List Char} (h : '0' ∉ front) :
    (front ++ ',' :: '0' :: rest).findIdx? (· = '0') = some (front.length + 1) := by
  have hnone : front.findIdx? (· = '0') = none := by
    rw [List.findIdx?_eq_none_iff]
    intro c hc
    simpa using fun heq : c = '0' => h (heq ▸ hc)
  rw [List.findIdx?_append, hnone]
  simp [List.findIdx?_cons, Nat.add_comm]

theorem cutAtZero_of_notMem {iid : List Char} (h : '0' ∉ iid.tail) : cutAtZero iid = iid := by
  rw [cutAtZero]
  cases iid with
  | nil => rfl
  | cons c rest =>
      have hrest : rest.findIdx? (· = '0') = none := by
        rw [List.findIdx?_eq_none_iff]
        intro d hd
        simpa using fun heq : d = '0' => h (heq ▸ hd)
      rw [List.findIdx?_cons, hrest]
      by_cases hc : c = '0'
      · simp [hc]
      · simp [hc]

/-- The text of used indices in front of a zero. -/
theorem cutAtZero_append {front rest : List Char} (h : '0' ∉ front) :
    cutAtZero (front ++ ',' :: '0' :: rest) = front := by
  rw [cutAtZero, findIdx?_zero_append h]
  simp

theorem cutAtZero_idem (iid : List Char) : cutAtZero (cutAtZero iid) = cutAtZero iid := by
  cases hp : iid.findIdx? (· = '0') with
  | none =>
      have hself : cutAtZero iid = iid := by rw [cutAtZero, hp]
      rw [hself, hself]
  | some p =>
      by_cases hzero : p = 0
      · have hself : cutAtZero iid = iid := by
          rw [cutAtZero, hp]
          simp [hzero]
        rw [hself, hself]
      · have hcut : cutAtZero iid = iid.take (p - 1) := by
          rw [cutAtZero, hp]
          simp [hzero]
        rw [hcut]
        apply cutAtZero_of_notMem
        intro hmem
        obtain ⟨n, hn, heq⟩ := List.mem_iff_getElem.mp (List.mem_of_mem_tail hmem)
        rw [List.length_take] at hn
        have hbefore := (List.findIdx?_eq_some_iff_getElem.mp hp).2.2 n (by omega)
        rw [List.getElem_take] at heq
        simp [heq] at hbefore

theorem comma_notMem_decimal (n : Nat) : ',' ∉ decimal n := by
  intro h
  exact absurd (isDigit_of_mem_decimal h) (by decide)

/-- The numbers of a text are the numbers it was printed from. -/
theorem commaTokens_iidText {idx : List UInt8} (hne : idx ≠ []) :
    commaTokens (iidText idx) = idx.map (fun i => decimal i.toNat) := by
  have hcomma : ∀ t ∈ idx.map (fun i => decimal i.toNat), ',' ∉ t := by
    intro t ht
    obtain ⟨i, -, rfl⟩ := List.mem_map.mp ht
    exact comma_notMem_decimal _
  rw [commaTokens, iidText, List.splitOn_intercalate ',' hcomma (by simpa using hne),
    List.filter_eq_self]
  intro t ht
  obtain ⟨i, -, rfl⟩ := List.mem_map.mp ht
  simpa using decimal_ne_nil _

/-- Used indices are stored one after the other. -/
theorem iidLoop_used :
    ∀ (used : List UInt8) (n : Nat) (objIid : ObjIndex),
      n + used.length ≤ supportedIndexLevel →
      (∀ i ∈ used, i ≠ 0) →
      ∃ objIid', iidLoop n objIid (used.map (fun i => decimal i.toNat)) = some objIid' ∧
        objIid'.idx = objIid.idx.take n ++ used ++ objIid.idx.drop (n + used.length) := by
  intro used
  induction used with
  | nil =>
      intro n objIid _ _
      exact ⟨objIid, rfl, by simp⟩
  | cons i used ih =>
      intro n objIid hlen hused
      rw [List.length_cons] at hlen
      have hi : i ≠ 0 := hused i List.mem_cons_self
      have hpos : 0 < i := UInt8.pos_iff_ne_zero.mpr hi
      rw [List.map_cons, iidLoop, if_neg (by omega), idxOf_decimal, if_pos hpos]
      obtain ⟨objIid', hloop, hidx⟩ := ih (n + 1) _ (by omega)
        (fun j hj => hused j (List.mem_cons_of_mem i hj))
      refine ⟨objIid', hloop, ?_⟩
      have hlt : n < objIid.idx.length := by
        rw [objIid.idx_length]
        omega
      rw [hidx, storeIdx]
      have htake : (objIid.idx.set n i).take (n + 1) = objIid.idx.take n ++ [i] := by
        rw [List.take_set, List.take_succ_eq_append_getElem hlt, List.set_append_right _ _ (by simp)]
        simp [Nat.min_eq_left (Nat.le_of_lt hlt)]
      rw [htake, List.drop_set, if_pos (by omega), List.length_cons]
      simp [Nat.add_assoc, Nat.add_comm 1]

theorem iidText_cons_cons (x y : UInt8) (zs : List UInt8) :
    iidText (x :: y :: zs) = decimal x.toNat ++ ',' :: iidText (y :: zs) := by
  rw [iidText, List.map_cons, List.map_cons, List.intercalate_cons_cons, iidText, List.map_cons]
  simp

theorem length_iidText_le {idx : List UInt8} (h : idx.length ≤ supportedIndexLevel) :
    (iidText idx).length ≤ 30 := by
  have hfour : ∀ (xs : List UInt8), (iidText xs).length ≤ 4 * xs.length := by
    intro xs
    induction xs with
    | nil => simp [iidText]
    | cons x xs ih =>
        have hx := length_decimal_le x
        cases xs with
        | nil =>
            simp only [iidText, List.map_cons, List.map_nil, List.intercalate_singleton,
              List.length_cons, List.length_nil]
            omega
        | cons y ys =>
            rw [iidText_cons_cons]
            simp only [List.length_append, List.length_cons] at ih ⊢
            omega
  have hle := hfour idx
  rw [supportedIndexLevel] at h
  omega

/-- The text of indices without the digit 0 is read back. -/
theorem iidStr2ObjIid_plain {used : List UInt8} (hlen : used.length ≤ supportedIndexLevel)
    (hused : ∀ i ∈ used, i ≠ 0) :
    ∃ objIid, iidStr2ObjIid (iidText used) = some objIid ∧
      objIid.idx = used ++ List.replicate (supportedIndexLevel - used.length) 0 := by
  rw [iidStr2ObjIid, List.take_of_length_le (length_iidText_le hlen)]
  by_cases hne : used = []
  · subst hne
    exact ⟨ObjIndex.zero, rfl, rfl⟩
  · rw [commaTokens_iidText hne]
    obtain ⟨objIid, hloop, hidx⟩ := iidLoop_used used 0 ObjIndex.zero (by omega) hused
    refine ⟨objIid, hloop, ?_⟩
    rw [hidx, List.take_zero, List.nil_append, Nat.zero_add]
    congr 1
    exact List.drop_replicate

theorem iidText_append {xs ys : List UInt8} (hxs : xs ≠ []) (hys : ys ≠ []) :
    iidText (xs ++ ys) = iidText xs ++ ',' :: iidText ys := by
  induction xs with
  | nil => exact absurd rfl hxs
  | cons x xs ih =>
      cases xs with
      | nil =>
          obtain ⟨y, ys, rfl⟩ := List.exists_cons_of_ne_nil hys
          rw [List.cons_append, List.nil_append, iidText_cons_cons]
          simp [iidText]
      | cons x' xs =>
          have ih' := ih (by simp)
          rw [List.cons_append] at ih'
          rw [List.cons_append, List.cons_append, iidText_cons_cons, ih', iidText_cons_cons]
          simp

theorem zero_notMem_iidText {used : List UInt8} (h : ∀ i ∈ used, '0' ∉ decimal i.toNat) :
    '0' ∉ iidText used := by
  induction used with
  | nil => simp [iidText]
  | cons x xs ih =>
      have hx := h x List.mem_cons_self
      cases xs with
      | nil => simpa [iidText] using hx
      | cons y ys =>
          have hrest := ih (fun i hi => h i (List.mem_cons_of_mem x hi))
          rw [iidText_cons_cons]
          simp only [List.mem_append, List.mem_cons, not_or]
          exact ⟨hx, by decide, hrest⟩

/-! ## Listed instances -/

/-- An instance that a list of texts names. -/
def Listed (list : List (List Char)) (idx : List UInt8) : Prop :=
  ∃ text ∈ list, ∃ objIid, iidStr2ObjIid text = some objIid ∧ objIid.idx = idx

theorem auth_iff {list : List (List Char)} {iid : List Char} (hlen : iid.length ≤ 30) :
    zcfgFeDalACLIidAuth list iid = true ↔ cutAtZero iid ≠ [] ∧ cutAtZero iid ∈ list := by
  simp [zcfgFeDalACLIidAuth, List.take_of_length_le hlen]

theorem length_cutAtZero_le (iid : List Char) : (cutAtZero iid).length ≤ iid.length := by
  unfold cutAtZero
  split
  · rfl
  · split
    · rfl
    · rw [List.length_take]
      omega

/-- A text without the character 0 is listed as it is. -/
theorem listed_of_text {list : List (List Char)} {iid : List Char} {objIid : ObjIndex}
    (hlen : iid.length ≤ 30)
    (hzero : '0' ∉ iid.tail)
    (hauth : zcfgFeDalACLIidAuth list iid = true)
    (hiid : iidStr2ObjIid iid = some objIid) : Listed list objIid.idx := by
  have hmem := ((auth_iff hlen).mp hauth).2
  rw [cutAtZero_of_notMem hzero] at hmem
  exact ⟨iid, hmem, objIid, hiid, rfl⟩

/-- The text of an instance, cut as in the walk, names the instance. -/
theorem cut_iidText_plain {idx : List UInt8} (hplain : PlainIdx idx) :
    ∃ objIid, iidStr2ObjIid (cutAtZero (iidText idx)) = some objIid ∧ objIid.idx = idx := by
  obtain ⟨used, hidx, hlen, hused⟩ := hplain
  have hread := iidStr2ObjIid_plain hlen (fun i hi => (hused i hi).1)
  rw [← hidx] at hread
  have hfree := zero_notMem_iidText (fun i hi => (hused i hi).2)
  by_cases hnil : used = []
  · -- the text of the object without indices starts with 0
    subst hnil
    subst hidx
    exact ⟨ObjIndex.zero, by decide +kernel, rfl⟩
  · by_cases hfull : used.length = supportedIndexLevel
    · rw [hfull, Nat.sub_self, List.replicate_zero, List.append_nil] at hidx
      rw [hidx] at hread ⊢
      rw [cutAtZero_of_notMem (fun h => hfree (List.mem_of_mem_tail h))]
      exact hread
    · obtain ⟨n, hn⟩ : ∃ n, supportedIndexLevel - used.length = n + 1 :=
        Nat.exists_eq_succ_of_ne_zero (by omega)
      have hcut : cutAtZero (iidText idx) = iidText used := by
        rw [hidx, hn, iidText_append hnil (by simp [List.replicate_succ])]
        cases n with
        | zero => exact @cutAtZero_append _ [] hfree
        | succ n =>
            rw [List.replicate_succ, List.replicate_succ, iidText_cons_cons]
            exact cutAtZero_append hfree
      rw [hcut]
      exact hread

/-- Instances without a digit 0 in their indices are in the reply of a walk only if listed. -/
theorem listed_of_plain {list : List (List Char)} {idx : List UInt8} (hplain : PlainIdx idx)
    (hauth : zcfgFeDalACLIidAuth list (cutAtZero (iidText idx)) = true) : Listed list idx := by
  obtain ⟨objIid, hread, hidx⟩ := cut_iidText_plain hplain
  have hlevel : idx.length ≤ supportedIndexLevel := by
    rw [← hidx, objIid.idx_length]
  have hlen : (cutAtZero (iidText idx)).length ≤ 30 :=
    (length_cutAtZero_le _).trans (length_iidText_le hlevel)
  have hmem := ((auth_iff hlen).mp hauth).2
  rw [cutAtZero_idem] at hmem
  exact ⟨_, hmem, objIid, hread, hidx⟩

/-! ## Replies -/

/-- What an entry of the reply may hold. -/
structure Allowed (objACL : RdmObjectACL) (entry : ReplyEntry V) : Prop where
  listed : ∀ list, objACL.iid = some list → Listed list entry.iid
  params : ∀ names, objACL.params = some names → ∀ p ∈ entry.object, p.1 ∈ names

theorem mem_allowedParams {names : List (List Char)} {queriedObj : List (List Char × V)}
    {p : List Char × V} (hp : p ∈ allowedParams (some names) queriedObj) : p.1 ∈ names := by
  rw [allowedParams] at hp
  obtain ⟨parmName, hname, hvalue⟩ := List.mem_filterMap.mp hp
  obtain ⟨value, -, rfl⟩ := Option.map_eq_some_iff.mp hvalue
  exact List.mem_eraseDups.mp hname

/-- The parameters of an entry are always allowed ones. -/
theorem allowed_iff (objACL : RdmObjectACL) (objIid : ObjIndex) (queriedObj : List (List Char × V)) :
    Allowed objACL
        { iid := objIid.idx, object := allowedParams objACL.params queriedObj : ReplyEntry V } ↔
      ∀ list, objACL.iid = some list → Listed list objIid.idx := by
  constructor
  · intro h
    exact h.listed
  · intro h
    refine ⟨h, ?_⟩
    intro names hnames p hp
    rw [hnames] at hp
    exact mem_allowedParams hp

/-- A single instance is not looked up in the list. -/
theorem forall_replyFor_single (objACL : RdmObjectACL) (objIid : ObjIndex)
    (queriedObj : List (List Char × V)) :
    (∀ entry ∈ replyFor objACL false objIid queriedObj, Allowed objACL entry) ↔
      ∀ list, objACL.iid = some list → Listed list objIid.idx := by
  rw [← allowed_iff objACL objIid queriedObj, replyFor]
  cases objACL.iid with
  | none => simp
  | some list => simp

/-- An instance of a walk is in the reply if its text is authorised. -/
theorem forall_replyFor_walk (objACL : RdmObjectACL) (objIid : ObjIndex)
    (queriedObj : List (List Char × V)) :
    (∀ entry ∈ replyFor objACL true objIid queriedObj, Allowed objACL entry) ↔
      ∀ list, objACL.iid = some list →
        zcfgFeDalACLIidAuth list (cutAtZero (iidText objIid.idx)) = true →
        Listed list objIid.idx := by
  have hiff := allowed_iff objACL objIid queriedObj
  rw [replyFor]
  cases hacl : objACL.iid with
  | none =>
      rw [hacl] at hiff
      simpa using hiff
  | some list =>
      rw [hacl] at hiff
      by_cases hauth : zcfgFeDalACLIidAuth list (cutAtZero (iidText objIid.idx)) = true
      · simpa [hauth] using hiff
      · simp [hauth]

/-- The reply to a request holds entries of an object of the table, of listed instances and with
listed parameters only. -/
def SoundReply (rdmObjectACList : List RdmObjectACL) (data : RdmData V) (oid : Nat)
    (iidStr : Option (List Char)) : Prop :=
  ∃ ret entries, zcfgFeDalQueryRdmObjHandler rdmObjectACList data oid iidStr = some (ret, entries) ∧
    ∀ entry ∈ entries, ∃ objACL, retrieveRdmObjectACL rdmObjectACList oid = some objACL ∧
      Allowed objACL entry

/-- The condition for an object of the table and the text of a request: the indices fit, and where a
text is cut, or no text is looked up at all, the instance is listed none the less. -/
structure CutAgrees (objACL : RdmObjectACL) (data : RdmData V) (oid : Nat) (iid : List Char) :
    Prop where
  fits : iid ≠ [] → (∀ list, objACL.iid = some list → zcfgFeDalACLIidAuth list iid = true) →
    iidStr2ObjIid iid ≠ none
  specific : ∀ list objIid, objACL.iid = some list → '0' ∈ iid.tail →
    zcfgFeDalACLIidAuth list iid = true → iidStr2ObjIid iid = some objIid →
    data.objJsonGet oid objIid ≠ none → Listed list objIid.idx
  single : ∀ list, objACL.iid = some list → iid = [] → data.indexNode oid = false →
    data.objJsonGet oid ObjIndex.zero ≠ none → Listed list ObjIndex.zero.idx
  walk : ∀ list, objACL.iid = some list → iid = [] → data.indexNode oid = true →
    ∀ inst ∈ data.objJsonGetNext oid, ¬ PlainIdx inst.1.idx →
      zcfgFeDalACLIidAuth list (cutAtZero (iidText inst.1.idx)) = true → Listed list inst.1.idx

theorem forall_queryRdmObj (data : RdmData V) (objACL : RdmObjectACL) (oid : Nat)
    (objIid : ObjIndex) :
    (∀ entry ∈ zcfgFeDalQueryRdmObj data objACL oid objIid, Allowed objACL entry) ↔
      ∀ list, objACL.iid = some list → data.objJsonGet oid objIid ≠ none →
        Listed list objIid.idx := by
  rw [zcfgFeDalQueryRdmObj]
  cases data.objJsonGet oid objIid with
  | none => simp
  | some queriedObj =>
      rw [forall_replyFor_single]
      simp

theorem forall_queryRdmObjs (data : RdmData V) (objACL : RdmObjectACL) (oid : Nat) :
    (∀ entry ∈ zcfgFeDalQueryRdmObjs data objACL oid, Allowed objACL entry) ↔
      ∀ inst ∈ data.objJsonGetNext oid, ∀ list, objACL.iid = some list →
        zcfgFeDalACLIidAuth list (cutAtZero (iidText inst.1.idx)) = true →
        Listed list inst.1.idx := by
  rw [zcfgFeDalQueryRdmObjs]
  constructor
  · intro h inst hinst
    rw [← forall_replyFor_walk objACL inst.1 inst.2]
    intro entry hentry
    exact h entry (List.mem_flatMap.mpr ⟨inst, hinst, hentry⟩)
  · intro h entry hentry
    obtain ⟨inst, hinst, hmem⟩ := List.mem_flatMap.mp hentry
    exact (forall_replyFor_walk objACL inst.1 inst.2).mpr (h inst hinst) entry hmem

/-- The reply of the handler in terms of its entries. -/
theorem soundReply_iff {rdmObjectACList : List RdmObjectACL} {data : RdmData V} {oid : Nat}
    {iidStr : Option (List Char)} {objACL : RdmObjectACL} {ret : ZcfgRet}
    {entries : List (ReplyEntry V)}
    (hacl : retrieveRdmObjectACL rdmObjectACList oid = some objACL)
    (hreply : zcfgFeDalQueryRdmObjHandler rdmObjectACList data oid iidStr = some (ret, entries)) :
    SoundReply rdmObjectACList data oid iidStr ↔ ∀ entry ∈ entries, Allowed objACL entry := by
  rw [SoundReply, hreply, hacl]
  constructor
  · rintro ⟨ret', entries', heq, hall⟩ entry hentry
    obtain ⟨-, rfl⟩ : ret = ret' ∧ entries = entries' := by simpa using heq
    obtain ⟨objACL', hsome, hallowed⟩ := hall entry hentry
    rw [Option.some.injEq] at hsome
    exact hsome ▸ hallowed
  · intro hall
    exact ⟨ret, entries, rfl, fun entry hentry => ⟨objACL, rfl, hall entry hentry⟩⟩

/-- A request without indices. -/
theorem soundReply_all {rdmObjectACList : List RdmObjectACL} {data : RdmData V} {oid : Nat}
    {iidStr : Option (List Char)} {objACL : RdmObjectACL}
    (hacl : retrieveRdmObjectACL rdmObjectACList oid = some objACL)
    (hnil : bracketText iidStr = []) :
    SoundReply rdmObjectACList data oid iidStr ↔ CutAgrees objACL data oid [] := by
  cases hindex : data.indexNode oid with
  | false =>
      have hreply : zcfgFeDalQueryRdmObjHandler rdmObjectACList data oid iidStr =
          some (.success, zcfgFeDalQueryRdmObj data objACL oid ObjIndex.zero) := by
        simp [zcfgFeDalQueryRdmObjHandler, hnil, hacl, hindex]
      rw [soundReply_iff hacl hreply, forall_queryRdmObj]
      constructor
      · intro h
        refine ⟨by simp, by simp, fun list hlist _ _ => h list hlist, ?_⟩
        intro _ _ _ htrue
        rw [hindex] at htrue
        exact absurd htrue (by decide)
      · intro h list hlist
        exact h.single list hlist rfl hindex
  | true =>
      have hreply : zcfgFeDalQueryRdmObjHandler rdmObjectACList data oid iidStr =
          some (.success, zcfgFeDalQueryRdmObjs data objACL oid) := by
        simp [zcfgFeDalQueryRdmObjHandler, hnil, hacl, hindex]
      rw [soundReply_iff hacl hreply, forall_queryRdmObjs]
      constructor
      · intro h
        refine ⟨by simp, by simp, ?_, fun list hlist _ _ inst hinst _ => h inst hinst list hlist⟩
        intro _ _ _ hfalse
        rw [hindex] at hfalse
        exact absurd hfalse (by decide)
      · intro h inst hinst list hlist hauth
        by_cases hplain : PlainIdx inst.1.idx
        · exact listed_of_plain hplain hauth
        · exact h.walk list hlist rfl hindex inst hinst hplain hauth

/-- A request for one instance. -/
theorem soundReply_specific {rdmObjectACList : List RdmObjectACL} {data : RdmData V} {oid : Nat}
    {iidStr : Option (List Char)} {objACL : RdmObjectACL}
    (hacl : retrieveRdmObjectACL rdmObjectACList oid = some objACL)
    (hlen : (bracketText iidStr).length ≤ 30)
    (hnil : bracketText iidStr ≠ []) :
    SoundReply rdmObjectACList data oid iidStr ↔
      CutAgrees objACL data oid (bracketText iidStr) := by
  have hshort : ¬ 30 < (bracketText iidStr).length := by omega
  by_cases hauth : ∀ list, objACL.iid = some list →
      zcfgFeDalACLIidAuth list (bracketText iidStr) = true
  · have hany : objACL.iid.any (fun iid => !zcfgFeDalACLIidAuth iid (bracketText iidStr)) =
        false := by
      cases hlist : objACL.iid with
      | none => rfl
      | some list => simp [hauth list hlist]
    cases hiid : iidStr2ObjIid (bracketText iidStr) with
    | none =>
        have hreply : zcfgFeDalQueryRdmObjHandler rdmObjectACList data oid iidStr = none := by
          simp [zcfgFeDalQueryRdmObjHandler, hshort, hacl, hnil, hany, hiid]
        constructor
        · rintro ⟨ret, entries, hsome, -⟩
          rw [hreply] at hsome
          exact absurd hsome (by simp)
        · intro h
          exact absurd hiid (h.fits hnil hauth)
    | some objIid =>
        have hreply : zcfgFeDalQueryRdmObjHandler rdmObjectACList data oid iidStr =
            some (.success, zcfgFeDalQueryRdmObj data objACL oid objIid) := by
          simp [zcfgFeDalQueryRdmObjHandler, hshort, hacl, hnil, hany, hiid]
        rw [soundReply_iff hacl hreply, forall_queryRdmObj]
        constructor
        · intro h
          refine ⟨fun _ _ => by simp [hiid], ?_, fun _ _ heq => absurd heq hnil,
            fun _ _ heq => absurd heq hnil⟩
          intro list objIid' hlist _ _ hsome
          rw [hiid, Option.some.injEq] at hsome
          exact hsome ▸ h list hlist
        · intro h list hlist hget
          by_cases hzero : '0' ∈ (bracketText iidStr).tail
          · exact h.specific list objIid hlist hzero (hauth list hlist) hiid hget
          · exact listed_of_text hlen hzero (hauth list hlist) hiid
  · obtain ⟨list, hlist, hreject⟩ : ∃ list, objACL.iid = some list ∧
        zcfgFeDalACLIidAuth list (bracketText iidStr) = false := by
      simpa using hauth
    have hreply : zcfgFeDalQueryRdmObjHandler rdmObjectACList data oid iidStr =
        some (.requestReject, []) := by
      simp [zcfgFeDalQueryRdmObjHandler, hshort, hacl, hnil, hlist, hreject]
    rw [soundReply_iff hacl hreply]
    constructor
    · intro _
      refine ⟨fun _ hall => absurd hall hauth, ?_, fun _ _ heq => absurd heq hnil,
        fun _ _ heq => absurd heq hnil⟩
      intro list' _ hlist' _ htrue
      rw [hlist, Option.some.injEq] at hlist'
      rw [← hlist', hreject] at htrue
      exact absurd htrue (by decide)
    · intro _ entry hentry
      exact absurd hentry List.not_mem_nil

/-- Replies are sound exactly for requests whose text fits and, for an object of the table, agrees with
the lists where it is cut. -/
theorem rdmAcl_sound_iff (rdmObjectACList : List RdmObjectACL) (data : RdmData V) (oid : Nat)
    (iidStr : Option (List Char)) :
    SoundReply rdmObjectACList data oid iidStr ↔
      (bracketText iidStr).length ≤ 30 ∧
      ∀ objACL, retrieveRdmObjectACL rdmObjectACList oid = some objACL →
        CutAgrees objACL data oid (bracketText iidStr) := by
  by_cases hlen : (bracketText iidStr).length ≤ 30
  · cases hacl : retrieveRdmObjectACL rdmObjectACList oid with
    | none =>
        have hreply : zcfgFeDalQueryRdmObjHandler rdmObjectACList data oid iidStr =
            some (.requestReject, []) := by
          simp [zcfgFeDalQueryRdmObjHandler, hacl, Nat.not_lt.mpr hlen]
        constructor
        · intro _
          exact ⟨hlen, by simp⟩
        · intro _
          exact ⟨_, _, hreply, by simp⟩
    | some objACL =>
        have hone : SoundReply rdmObjectACList data oid iidStr ↔
            CutAgrees objACL data oid (bracketText iidStr) := by
          by_cases hnil : bracketText iidStr = []
          · rw [hnil]
            exact soundReply_all hacl hnil
          · exact soundReply_specific hacl hlen hnil
        rw [hone]
        simp [hlen]
  · have hreply : zcfgFeDalQueryRdmObjHandler rdmObjectACList data oid iidStr = none := by
      simp [zcfgFeDalQueryRdmObjHandler, Nat.lt_of_not_le hlen]
    constructor
    · rintro ⟨ret, entries, hsome, -⟩
      rw [hreply] at hsome
      exact absurd hsome (by simp)
    · intro h
      exact absurd h.1 hlen

/-! ## Instances behind a cut text -/

/-- A table that lists instance 1 of an object. -/
def oneInstance : List RdmObjectACL :=
  [{ oid := 5, method := 1, iid := some ["1".toList], params := none }]

/-- An object with indices of which every instance exists. -/
def everyInstance : RdmData Nat where
  indexNode := fun _ => true
  objJsonGet := fun _ _ => some []
  objJsonGetNext := fun _ => []

/-- A request for the indices {lit}`1,05` is looked up as the listed 1 and answered with instance 1.5. -/
theorem rdmAcl_sound_fails :
    ¬ ∀ (rdmObjectACList : List RdmObjectACL) (data : RdmData Nat) (oid : Nat)
        (iidStr : Option (List Char)), SoundReply rdmObjectACList data oid iidStr := by
  intro h
  have hreply : zcfgFeDalQueryRdmObjHandler oneInstance everyInstance 5 (some "[1,05]".toList) =
      some (.success, [{ iid := [1, 5, 0, 0, 0, 0], object := [] }]) := by
    decide +kernel
  have hacl : retrieveRdmObjectACL oneInstance 5 = some oneInstance[0] := rfl
  have hall := (soundReply_iff hacl hreply).mp (h _ _ _ _) _ List.mem_cons_self
  obtain ⟨text, htext, objIid, hread, hidx⟩ := hall.listed ["1".toList] rfl
  obtain rfl := List.mem_singleton.mp htext
  have hone : (iidStr2ObjIid "1".toList).map (·.idx) = some [1, 0, 0, 0, 0, 0] := by
    decide +kernel
  rw [hread, Option.map_some, hidx] at hone
  exact absurd hone (by decide)

end FeDal
end ZyxelRouter
