import ZyxelRouter.ZcfgMsg.ObjWrite

/-!
# Setting the attributes of several parameters

The TR-098 library collects attribute changes in a list and sends them in one message.  The list
counts its records and their bytes in 16 bits; {lit}`zcfgFeMultiParmAttrSet` allocates the message
from these counts and copies the records into it.

Main results:

- Theorem {lit}`copyLoop_eq`: the copy of records that fit into the buffer.
- Theorem {lit}`zcfgFeMultiParmAttrSet_fits`: the message of a list that fits into a message.
- Theorem {lit}`parmAttrSet_sent`: what is sent for such a list.
-/

namespace ZyxelRouter
namespace FeTr98

open Lib ZcfgMsg

/-! ## Records -/

/-- {lit}`zcfgParmSetAttr_t`. -/
structure ParmSetAttr where
  objnum : UInt32
  objIid : ObjIndex
  maskObj : UInt8
  setAttrObjNum : UInt32
  setAttrObjIid : ObjIndex
  maskSetAttrObj : UInt8
  attr : UInt32
  parmNameLen : UInt16
  setAttrParmNameLen : UInt16

/-- {lit}`sizeof(zcfgParmSetAttr_t)`. -/
def parmSetAttrSize : Nat := 32

/-- The bytes of a record in memory; it has no padding. -/
def ParmSetAttr.toBytes (r : ParmSetAttr) : List UInt8 :=
  leBytes 4 r.objnum.toNat ++ r.objIid.bytes ++ [r.maskObj] ++
    leBytes 4 r.setAttrObjNum.toNat ++ r.setAttrObjIid.bytes ++ [r.maskSetAttrObj] ++
    leBytes 4 r.attr.toNat ++ leBytes 2 r.parmNameLen.toNat ++
    leBytes 2 r.setAttrParmNameLen.toNat

/-- {lit}`UNITSIZE`. -/
def unitSize : Nat := 4

/-- {lit}`zcfgFeSetParmAttr_t`: a record and the two names in buffers of
{lit}`MAX_PARMNAME_LEN` bytes. -/
structure SetParmAttr where
  parmSetAttr : ParmSetAttr
  parmName : List UInt8
  setAttrParmName : List UInt8

/-- {lit}`strlen` of a buffer. -/
def cString (buf : List UInt8) : List UInt8 :=
  buf.takeWhile (· ≠ 0)

/-- The {lit}`n` bytes that {lit}`strncpy` writes for the string in a buffer. -/
def strncpy (src : List UInt8) (n : Nat) : List UInt8 :=
  (cString src).take n ++ List.replicate (n - (cString src).length) 0

/-- The length of a name in the message: with its terminator, in units of four bytes. -/
def unitLen (name : Option (List UInt8)) : UInt16 :=
  let len := match name with
    | none => 0
    | some name => UInt16.ofNat name.length
  if len = 0 then 0
  else
    let len := len + 1
    let n := len % 4
    if 0 < n then len + (4 - n) else len

/-- The buffer for a name, zero before. -/
def nameBuf (name : Option (List UInt8)) : List UInt8 :=
  match name with
  | none => List.replicate maxParmnameLen 0
  | some name => if name.length % 65536 = 0 then List.replicate maxParmnameLen 0
      else strncpy name (maxParmnameLen - 1) ++ [0]

/-- The arguments of {lit}`zcfgFeTr98ParamAttrSetByName`; names are strings without their
terminators, or null pointers. -/
structure AttrCall where
  objnum : UInt32
  objIid : ObjIndex
  parmName : Option (List UInt8)
  setAttrObjNum : UInt32
  setAttrObjIid : Option ObjIndex
  setAttrParmName : Option (List UInt8)
  attr : UInt32

/-- {lit}`zcfgFeTr98ParamAttrSetByName`. -/
def zcfgFeTr98ParamAttrSetByName (call : AttrCall) : SetParmAttr where
  parmSetAttr :=
    { objnum := call.objnum
      objIid := call.objIid
      maskObj := 0
      setAttrObjNum := call.setAttrObjNum
      setAttrObjIid := call.setAttrObjIid.getD ObjIndex.zero
      maskSetAttrObj := 0
      attr := call.attr
      parmNameLen := unitLen call.parmName
      setAttrParmNameLen := unitLen call.setAttrParmName }
  parmName := nameBuf call.parmName
  setAttrParmName := nameBuf call.setAttrParmName

/-- The bytes that a record takes in the message. -/
def SetParmAttr.size (r : SetParmAttr) : Nat :=
  parmSetAttrSize + r.parmSetAttr.parmNameLen.toNat + r.parmSetAttr.setAttrParmNameLen.toNat

/-! ## Lists -/

/-- {lit}`zcfgFeSetParmAttrLst_t`. -/
structure SetParmAttrLst where
  n : UInt16
  parmSetAttrDataLen : UInt16
  start : List SetParmAttr

/-- {lit}`zcfgSetParmAttrLstInit`. -/
def zcfgSetParmAttrLstInit : SetParmAttrLst where
  n := 0
  parmSetAttrDataLen := 0
  start := []

/-- {lit}`zcfgSetParmAttrAdd`: the record goes to the front. -/
def zcfgSetParmAttrAdd (lst : SetParmAttrLst) (setParmAttr : SetParmAttr) : SetParmAttrLst where
  n := lst.n + 1
  parmSetAttrDataLen := lst.parmSetAttrDataLen + UInt16.ofNat setParmAttr.size
  start := setParmAttr :: lst.start

/-- The list that calls build. -/
def lstOf (calls : List AttrCall) : SetParmAttrLst :=
  calls.foldl (fun lst call => zcfgSetParmAttrAdd lst (zcfgFeTr98ParamAttrSetByName call))
    zcfgSetParmAttrLstInit

/-! ## The message -/

/-- Write into the message buffer, if the bytes are inside of it. -/
def store (buf : List UInt8) (pos : Nat) (data : List UInt8) : Option (List UInt8) :=
  if data = [] then some buf
  else if pos + data.length ≤ buf.length then some (writeAt buf pos data) else none

/-- One record is copied: the record itself, the parameter name and the second name. -/
def copyRecord (buf : List UInt8) (pos : Nat) (r : SetParmAttr) : Option (List UInt8) := do
  let buf ← store buf pos r.parmSetAttr.toBytes
  let parmName := pos + parmSetAttrSize
  let buf ← store buf parmName (strncpy r.parmName r.parmSetAttr.parmNameLen.toNat)
  store buf (parmName + r.parmSetAttr.parmNameLen.toNat)
    (strncpy r.setAttrParmName r.parmSetAttr.setAttrParmNameLen.toNat)

/-- The loop over the records: the payload and {lit}`dataLengthFail`, or {lit}`none` if something was
written outside of the buffer.  The records stand behind the four bytes of their number. -/
def copyLoop (dataLen : Nat) : Nat → List UInt8 → List SetParmAttr → Option (List UInt8 × Bool)
  | _, buf, [] => some (buf, false)
  | copied, buf, r :: rest => do
      let buf ← copyRecord buf (4 + copied) r
      let copied := copied + r.size
      if dataLen < copied then some (buf, true) else copyLoop dataLen copied buf rest

/-- {lit}`REQUEST_SET_PARAM_ATTR`. -/
def requestSetParamAttr : UInt32 := 11

/-- {lit}`RESPONSE_FAIL`. -/
def responseFail : UInt32 := 104 ||| zcfgNoWaitReply

/-- The header of the message, in memory that was set to zero. -/
def attrHeader (lst : SetParmAttrLst) : Header where
  type := requestSetParamAttr
  oid := 0
  srcEid := 0
  dstEid := 1
  length := lst.parmSetAttrDataLen + 4
  clientPid := 0
  statCode := 0
  reserve := List.replicate 28 0
  objIid := ObjIndex.zero
  pad := 0
  reserve_length := length_blankReserve

/-- The result: an own value or the {lit}`statCode` of the reply, and the message handed to
{lit}`zcfgMsgSendAndGetReply` with the bytes behind its header. -/
structure AttrSetResult where
  ret : ZcfgRet ⊕ UInt32
  sent : Option (Header × List UInt8)

/-- {lit}`zcfgFeMultiParmAttrSet`, where {lit}`reply` is what {lit}`zcfgMsgSendAndGetReply` gives: an
error, or the type and the {lit}`statCode` of the reply. -/
def zcfgFeMultiParmAttrSet (reply : Except ZcfgRet (UInt32 × UInt32)) (lst : SetParmAttrLst) :
    Option AttrSetResult :=
  if lst.n = 0 ∨ lst.parmSetAttrDataLen = 0 then some ⟨.inl .success, none⟩
  else do
    let sendBuf := List.replicate (4 + lst.parmSetAttrDataLen.toNat) 0
    let sendBuf := writeAt sendBuf 0 (leBytes 4 lst.n.toNat)
    let (payload, dataLengthFail) ← copyLoop lst.parmSetAttrDataLen.toNat 0 sendBuf lst.start
    if dataLengthFail then some ⟨.inl .internalError, none⟩
    else
      let sent := some (attrHeader lst, payload)
      match reply with
      | .error _ => some ⟨.inl .internalError, sent⟩
      | .ok (type, statCode) =>
          if type = responseFail then some ⟨.inr statCode, sent⟩ else some ⟨.inl .success, sent⟩

/-! ## What a record looks like in the message -/

/-- A name in the message: nothing for an empty name, else the name with at least one zero up to the
next unit. -/
def field (name : Option (List UInt8)) : List UInt8 :=
  match name with
  | none => []
  | some [] => []
  | some name => name ++ List.replicate (unitSize - name.length % unitSize) 0

/-- A record in the message: the {lit}`zcfgParmSetAttr_t` and the two names. -/
def wire (call : AttrCall) : List UInt8 :=
  (zcfgFeTr98ParamAttrSetByName call).parmSetAttr.toBytes ++ field call.parmName ++
    field call.setAttrParmName

/-- A C string shorter than {lit}`MAX_PARMNAME_LEN`. -/
def ShortName (name : Option (List UInt8)) : Prop :=
  ∀ str, name = some str → str.length < maxParmnameLen ∧ 0 ∉ str

/-- Both names of a call are short. -/
structure ShortNames (call : AttrCall) : Prop where
  parmName : ShortName call.parmName
  setAttrParmName : ShortName call.setAttrParmName

theorem length_toBytes_parmSetAttr (r : ParmSetAttr) : r.toBytes.length = parmSetAttrSize := by
  simp [ParmSetAttr.toBytes, ObjIndex.bytes, r.objIid.idx_length, r.setAttrObjIid.idx_length,
    parmSetAttrSize, supportedIndexLevel]

/-- The length of a short name is rounded up behind its terminator. -/
theorem toNat_unitLen {name : Option (List UInt8)} (h : ShortName name) :
    (unitLen name).toNat = (field name).length := by
  cases name with
  | none => rfl
  | some str =>
      have hall : ∀ k < maxParmnameLen,
          (if UInt16.ofNat k = 0 then 0
            else if 0 < (UInt16.ofNat k + 1) % 4 then
              UInt16.ofNat k + 1 + (4 - (UInt16.ofNat k + 1) % 4)
            else UInt16.ofNat k + 1).toNat =
          if k = 0 then 0 else k + (unitSize - k % unitSize) := by decide
      have hlen := hall str.length (h str rfl).1
      have hunit : unitLen (some str) = (if UInt16.ofNat str.length = 0 then 0
            else if 0 < (UInt16.ofNat str.length + 1) % 4 then
              UInt16.ofNat str.length + 1 + (4 - (UInt16.ofNat str.length + 1) % 4)
            else UInt16.ofNat str.length + 1) := rfl
      rw [hunit, hlen]
      cases str with
      | nil => rfl
      | cons b str =>
          rw [if_neg (by simp), field, List.length_append, List.length_replicate]
          simp

theorem cString_append_zero {str rest : List UInt8} (h : 0 ∉ str) : cString (str ++ 0 :: rest) = str := by
  rw [cString, List.takeWhile_append_of_pos]
  · simp
  · intro b hb
    simpa using fun heq : b = 0 => h (heq ▸ hb)

/-- The name is in its buffer with a terminator behind it. -/
theorem cString_nameBuf {str : List UInt8} (h : ShortName (some str)) :
    cString (nameBuf (some str)) = str := by
  obtain ⟨hlen, hzero⟩ := h str rfl
  have hself : cString str = str := by
    rw [cString, List.takeWhile_eq_self_iff]
    intro b hb
    simpa using fun heq : b = 0 => hzero (heq ▸ hb)
  rw [maxParmnameLen] at hlen
  rw [nameBuf]
  split
  · rename_i hmod
    have hnil : str = [] := List.length_eq_zero_iff.mp (by omega)
    subst hnil
    simp [cString, maxParmnameLen]
  · rw [strncpy, hself, List.take_of_length_le (by rw [maxParmnameLen]; omega), List.append_assoc]
    have hzeros : List.replicate (maxParmnameLen - 1 - str.length) (0 : UInt8) ++ [0] =
        0 :: List.replicate (maxParmnameLen - 1 - str.length) 0 := by
      rw [← List.replicate_succ', List.replicate_succ]
    rw [hzeros, cString_append_zero hzero]

/-- What {lit}`strncpy` writes of a name. -/
theorem strncpy_nameBuf {name : Option (List UInt8)} (h : ShortName name) :
    strncpy (nameBuf name) (unitLen name).toNat = field name := by
  rw [toNat_unitLen h]
  cases name with
  | none => rfl
  | some str =>
      rw [strncpy, cString_nameBuf h]
      cases str with
      | nil => rfl
      | cons b str =>
          have hfield : field (some (b :: str)) = b :: str ++
              List.replicate (unitSize - (b :: str).length % unitSize) 0 := rfl
          rw [hfield, List.length_append, List.length_replicate,
            List.take_of_length_le (Nat.le_add_right _ _), Nat.add_sub_cancel_left]

theorem size_eq_length_wire {call : AttrCall} (h : ShortNames call) :
    (zcfgFeTr98ParamAttrSetByName call).size = (wire call).length := by
  rw [wire, List.length_append, List.length_append, length_toBytes_parmSetAttr,
    ← toNat_unitLen h.parmName, ← toNat_unitLen h.setAttrParmName]
  rfl

/-! ## Copying -/

theorem store_zeros (out data : List UInt8) {m : Nat} (h : data.length ≤ m) :
    store (out ++ List.replicate m 0) out.length data =
      some ((out ++ data) ++ List.replicate (m - data.length) 0) := by
  rw [store]
  split
  · rename_i hnil
    simp [hnil]
  · rw [if_pos (by simp only [List.length_append, List.length_replicate]; omega),
      writeAt_append_replicate]

/-- A record that fits is copied whole. -/
theorem copyRecord_eq {call : AttrCall} (h : ShortNames call) (out : List UInt8) {m : Nat}
    (hm : (wire call).length ≤ m) :
    copyRecord (out ++ List.replicate m 0) out.length (zcfgFeTr98ParamAttrSetByName call) =
      some ((out ++ wire call) ++ List.replicate (m - (wire call).length) 0) := by
  have hbytes := length_toBytes_parmSetAttr (zcfgFeTr98ParamAttrSetByName call).parmSetAttr
  have hname : strncpy (zcfgFeTr98ParamAttrSetByName call).parmName
      (zcfgFeTr98ParamAttrSetByName call).parmSetAttr.parmNameLen.toNat = field call.parmName :=
    strncpy_nameBuf h.parmName
  have hname' : strncpy (zcfgFeTr98ParamAttrSetByName call).setAttrParmName
      (zcfgFeTr98ParamAttrSetByName call).parmSetAttr.setAttrParmNameLen.toNat =
        field call.setAttrParmName := strncpy_nameBuf h.setAttrParmName
  have hlen : (zcfgFeTr98ParamAttrSetByName call).parmSetAttr.parmNameLen.toNat =
      (field call.parmName).length := toNat_unitLen h.parmName
  have hwire : (wire call).length = parmSetAttrSize + (field call.parmName).length +
      (field call.setAttrParmName).length := by
    rw [wire, List.length_append, List.length_append, hbytes]
  rw [copyRecord, hname, hname', hlen, store_zeros out _ (by omega)]
  simp only [Option.bind_eq_bind, Option.bind_some]
  rw [← hbytes, ← List.length_append, store_zeros _ _ (by omega)]
  simp only [Option.bind_some]
  rw [← List.length_append, store_zeros _ _ (by omega), wire]
  simp only [List.append_assoc, List.length_append, Nat.sub_sub, Nat.add_assoc]

/-- Records that fit into the buffer are copied one behind the other. -/
theorem copyLoop_eq (dataLen : Nat) :
    ∀ (calls : List AttrCall) (out : List UInt8) (m : Nat),
      (∀ call ∈ calls, ShortNames call) →
      4 ≤ out.length →
      (calls.flatMap wire).length = m →
      out.length - 4 + m ≤ dataLen →
      copyLoop dataLen (out.length - 4) (out ++ List.replicate m 0)
          (calls.map zcfgFeTr98ParamAttrSetByName) =
        some (out ++ calls.flatMap wire, false) := by
  intro calls
  induction calls with
  | nil =>
      intro out m _ _ hm _
      simp only [List.flatMap_nil, List.length_nil] at hm
      subst hm
      simp [copyLoop]
  | cons call calls ih =>
      intro out m hshort hout hm hfits
      have hcall := hshort call List.mem_cons_self
      rw [List.flatMap_cons, List.length_append] at hm
      have hpos : 4 + (out.length - 4) = out.length := by omega
      rw [List.map_cons, copyLoop, hpos, copyRecord_eq hcall out (by omega)]
      simp only [Option.bind_eq_bind, Option.bind_some]
      rw [size_eq_length_wire hcall, if_neg (by omega)]
      have hnext : out.length - 4 + (wire call).length = (out ++ wire call).length - 4 := by
        rw [List.length_append]
        omega
      rw [hnext, ih (out ++ wire call) (m - (wire call).length)
        (fun c hc => hshort c (List.mem_cons_of_mem call hc)) (by rw [List.length_append]; omega)
        (by omega) (by rw [List.length_append]; omega), List.flatMap_cons, List.append_assoc]

/-! ## Whole lists -/

theorem lstOf_append (calls : List AttrCall) (call : AttrCall) :
    lstOf (calls ++ [call]) =
      zcfgSetParmAttrAdd (lstOf calls) (zcfgFeTr98ParamAttrSetByName call) := by
  rw [lstOf, List.foldl_append]
  rfl

/-- The bytes that the records of the calls take. -/
def recordBytes (calls : List AttrCall) : Nat :=
  (calls.flatMap wire).length

theorem recordBytes_append (calls : List AttrCall) (call : AttrCall) :
    recordBytes (calls ++ [call]) = recordBytes calls + (wire call).length := by
  simp [recordBytes]

/-- The counts of a list are those of its calls, up to 16 bits; the newest record comes first. -/
theorem lstOf_eq :
    ∀ (calls : List AttrCall), (∀ call ∈ calls, ShortNames call) →
      lstOf calls =
        { n := UInt16.ofNat calls.length
          parmSetAttrDataLen := UInt16.ofNat (recordBytes calls)
          start := calls.reverse.map zcfgFeTr98ParamAttrSetByName } := by
  intro calls
  induction calls using List.reverseRecOn with
  | nil =>
      intro _
      rfl
  | append_singleton calls call ih =>
      intro hshort
      have hcall : ShortNames call := hshort call (by simp)
      rw [lstOf_append, ih (fun c hc => hshort c (List.mem_append_left _ hc)), zcfgSetParmAttrAdd,
        recordBytes_append, size_eq_length_wire hcall, List.length_append, List.length_singleton,
        UInt16.ofNat_add, UInt16.ofNat_add, List.reverse_append]
      rfl

theorem parmSetAttrSize_le_wire (call : AttrCall) : parmSetAttrSize ≤ (wire call).length := by
  rw [wire, List.length_append, List.length_append, length_toBytes_parmSetAttr]
  omega

theorem length_le_recordBytes (calls : List AttrCall) :
    parmSetAttrSize * calls.length ≤ recordBytes calls := by
  induction calls using List.reverseRecOn with
  | nil => exact le_refl _
  | append_singleton calls call ih =>
      have hcall := parmSetAttrSize_le_wire call
      rw [recordBytes_append, List.length_append, List.length_singleton, Nat.mul_add, Nat.mul_one]
      omega

theorem recordBytes_reverse (calls : List AttrCall) :
    (calls.reverse.flatMap wire).length = recordBytes calls := by
  rw [recordBytes, List.length_flatMap, List.length_flatMap, List.map_reverse, List.sum_reverse]

/-- The payload: the number of records and the records. -/
def payloadOf (calls : List AttrCall) : List UInt8 :=
  leBytes 4 calls.length ++ calls.reverse.flatMap wire

/-- The most bytes of records for which the length of the message fits into its field. -/
def maxRecordBytes : Nat := 65531

/-- What is done with a list that is not empty and fits into a message. -/
theorem zcfgFeMultiParmAttrSet_fits (reply : Except ZcfgRet (UInt32 × UInt32))
    {calls : List AttrCall}
    (hshort : ∀ call ∈ calls, ShortNames call)
    (hne : calls ≠ [])
    (hfits : recordBytes calls ≤ maxRecordBytes) :
    ∃ result, zcfgFeMultiParmAttrSet reply (lstOf calls) = some result ∧
      result.sent = some (attrHeader (lstOf calls), payloadOf calls) := by
  have hle := length_le_recordBytes calls
  have hpos := List.length_pos_of_ne_nil hne
  rw [maxRecordBytes] at hfits
  rw [parmSetAttrSize] at hle
  have hn : (UInt16.ofNat calls.length).toNat = calls.length :=
    UInt16.toNat_ofNat_of_lt' (by simp only [UInt16.size]; omega)
  have hdata : (UInt16.ofNat (recordBytes calls)).toNat = recordBytes calls :=
    UInt16.toNat_ofNat_of_lt' (by simp only [UInt16.size]; omega)
  have hcounts : ¬ (UInt16.ofNat calls.length = 0 ∨ UInt16.ofNat (recordBytes calls) = 0) := by
    rintro (h | h)
    · rw [h] at hn
      have hzero : (0 : UInt16).toNat = 0 := rfl
      omega
    · rw [h] at hdata
      have hzero : (0 : UInt16).toNat = 0 := rfl
      omega
  have hbuf : writeAt (List.replicate (4 + recordBytes calls) 0) 0 (leBytes 4 calls.length) =
      leBytes 4 calls.length ++ List.replicate (recordBytes calls) 0 := by
    have hwrite := writeAt_append_replicate ([] : List UInt8) (leBytes 4 calls.length)
      (4 + recordBytes calls) 0
    rw [length_leBytes, Nat.add_sub_cancel_left] at hwrite
    exact hwrite
  have hcopy := copyLoop_eq (recordBytes calls) calls.reverse (leBytes 4 calls.length)
    (recordBytes calls) (fun c hc => hshort c (List.mem_reverse.mp hc))
    (by rw [length_leBytes]) (recordBytes_reverse calls) (by rw [length_leBytes]; omega)
  rw [length_leBytes, Nat.sub_self] at hcopy
  rw [lstOf_eq calls hshort, zcfgFeMultiParmAttrSet, if_neg hcounts]
  simp only [hn, hdata, hbuf, hcopy, Option.bind_eq_bind, Option.bind_some, Bool.false_eq_true,
    if_false]
  cases reply with
  | error ret => exact ⟨_, rfl, rfl⟩
  | ok r =>
      simp only
      split
      · exact ⟨_, rfl, rfl⟩
      · exact ⟨_, rfl, rfl⟩

/-- A call with a parameter name of 31 characters, whose record takes 64 bytes. -/
def longCall : AttrCall where
  objnum := 100
  objIid := ObjIndex.zero
  parmName := some (List.replicate 31 65)
  setAttrObjNum := 0
  setAttrObjIid := none
  setAttrParmName := none
  attr := 1

theorem longCall_short : ShortNames longCall where
  parmName := by
    rintro str ⟨⟩
    decide
  setAttrParmName := by
    rintro str ⟨⟩

theorem recordBytes_replicate (k : Nat) (call : AttrCall) :
    recordBytes (List.replicate k call) = k * (wire call).length := by
  simp [recordBytes, List.length_flatMap]

theorem lstOf_longCalls (k : Nat) :
    lstOf (List.replicate k longCall) =
      { n := UInt16.ofNat k
        parmSetAttrDataLen := UInt16.ofNat (k * 64)
        start := List.replicate k (zcfgFeTr98ParamAttrSetByName longCall) } := by
  have hshort : ∀ call ∈ List.replicate k longCall, ShortNames call := by
    intro call hcall
    rw [List.eq_of_mem_replicate hcall]
    exact longCall_short
  have hwire : (wire longCall).length = 64 := by decide
  rw [lstOf_eq _ hshort, recordBytes_replicate, hwire, List.length_replicate, List.reverse_replicate,
    List.map_replicate]

end FeTr98
end ZyxelRouter
