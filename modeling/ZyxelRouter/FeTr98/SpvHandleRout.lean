import ZyxelRouter.FeString.MultiObj
import ZyxelRouter.FeTr98.HexOption
import ZyxelRouter.FeTr98.ParamGuard

/-!
# Handlers of a multi-object set request

{lit}`zcfgFeMultiObjJsonSpvHandleRout` calls the handler of each object that has one, for each of its
instances in the request, and sums up what the handlers return.

Main results:

- Theorem {lit}`scanObjIndex_indexText`: the indices of a request are read back from their texts.
- Theorem {lit}`objectLoop_eq_calls`: the two loops are one run of calls.
- Theorem {lit}`spvHandleRout_eq`: the result, by what the handlers returned.
- Theorem {lit}`sumsUp_iff`: when the result sums them up.
-/

namespace ZyxelRouter

/-- The numbers of {lit}`zcfgRet_t`. -/
def ZcfgRet.value : ZcfgRet → Int
  | .deleteReject => -21
  | .requestReject => -20
  | .invalidObject => -18
  | .invalidParamValue => -17
  | .invalidParamValueLength => -16
  | .invalidArguments => -14
  | .setReadOnlyParam => -13
  | .notFound => -7
  | .noSuchObject => -6
  | .internalError => -5
  | .noSuchParameter => -4
  | .errorParameterType => -3
  | .invalidEid => -2
  | .timeout => -1
  | .success => 0
  | .successAndNoReply => 1
  | .noMoreInstance => 2
  | .objectUpdated => 4

namespace FeTr98

open Lib FeString

/-! ## Handlers and requests -/

/-- {lit}`ZCFG_SUCCESS`. -/
def zcfgSuccess : Int := ZcfgRet.success.value

/-- {lit}`ZCFG_OBJECT_UPDATED`. -/
def zcfgObjectUpdated : Int := ZcfgRet.objectUpdated.value

variable {σ V : Type}

/-- {lit}`spvHandleRout`: what a handler returns, and what it makes of the state, which holds the members of
the instances.  An instance is passed as a reference. -/
abbrev SpvHandleRout (σ V : Type) := UInt32 → ObjIndex → V → σ → Int × σ

/-- A request: the objects by the texts of their numbers, and their instances by the texts of their
indices.  A null pointer is {lit}`none`. -/
abbrev MultiJobj (V : Type) := List (List Char × Option (List (List Char × Option V)))

/-- {lit}`zcfgFeTr181SpvHandleRoutInit`. -/
def tr181SpvHandleRoutObj (spvHandleRoutList : List (UInt32 × SpvHandleRout σ V)) :
    List (List Char × SpvHandleRout σ V) :=
  spvHandleRoutList.foldl (fun obj entry => objectAdd (decimal entry.1.toNat) entry.2 obj) []

/-! ## Numbers of a request -/

/-- {lit}`sscanf(objnumStr, "%u", &oid)`; the registered texts are numbers. -/
def scanOid (objnumStr : List Char) : UInt32 :=
  UInt32.ofNat (((scanNumber objnumStr).elim 0 Prod.fst) % 2 ^ 32).toNat

/-- Up to {lit}`n` times {lit}`%hhu` with dots between them: the bytes that are stored. -/
def scanBytes : Nat → List Char → List UInt8
  | 0, _ => []
  | n + 1, s =>
      match scanNumber s with
      | none => []
      | some (value, rest) =>
          UInt8.ofNat (value % 256).toNat ::
            match rest with
            | '.' :: rest => scanBytes n rest
            | _ => []

/-- The index that {lit}`sscanf` stores behind {lit}`IID_INIT`, if it stores a number at all. -/
def scanObjIndex (objIndexStr : List Char) : Option ObjIndex :=
  match scanBytes (supportedIndexLevel + 1) objIndexStr with
  | [] => none
  | level :: bytes =>
      some
        { level := level
          idx := (bytes ++ List.replicate supportedIndexLevel 0).take supportedIndexLevel
          idx_length := by simp }

/-! ## The function -/

/-- The variables of the loops. -/
structure SpvLoop (σ : Type) where
  rst : Int
  faultrst : Int
  state : σ

/-- The inner loop at one instance. -/
def instanceStep (handleRout : SpvHandleRout σ V) (oid : UInt32) (loop : SpvLoop σ)
    (inst : List Char × Option V) : SpvLoop σ :=
  match inst.2, scanObjIndex inst.1 with
  | some objIdxJObj, some objIid =>
      let (rst, state) := handleRout oid objIid objIdxJObj loop.state
      { rst := rst
        faultrst := if rst ≠ zcfgSuccess ∧ rst ≠ zcfgObjectUpdated then rst else loop.faultrst
        state := state }
  | _, _ => loop

/-- The outer loop at one object. -/
def objectStep (routObj : List (List Char × SpvHandleRout σ V)) (loop : SpvLoop σ)
    (obj : List Char × Option (List (List Char × Option V))) : SpvLoop σ :=
  match obj.2, routObj.lookup obj.1 with
  | some objnumJobj, some handleRout =>
      objnumJobj.foldl (instanceStep handleRout (scanOid obj.1)) loop
  | _, _ => loop

/-- {lit}`zcfgFeMultiObjJsonSpvHandleRout`. -/
def zcfgFeMultiObjJsonSpvHandleRout (routObj : List (List Char × SpvHandleRout σ V))
    (multiJobj : MultiJobj V) (state : σ) : Int × σ :=
  let loop := multiJobj.foldl (objectStep routObj)
    { rst := zcfgSuccess, faultrst := zcfgSuccess, state := state }
  (if loop.faultrst ≠ zcfgSuccess then loop.faultrst else loop.rst, loop.state)

/-! ## The calls of a request -/

/-- A call of a handler. -/
structure SpvCall (σ V : Type) where
  handleRout : SpvHandleRout σ V
  oid : UInt32
  objIid : ObjIndex
  spvObj : V

/-- The call for an instance. -/
def instanceCall (handleRout : SpvHandleRout σ V) (oid : UInt32) (inst : List Char × Option V) :
    Option (SpvCall σ V) :=
  match inst.2, scanObjIndex inst.1 with
  | some objIdxJObj, some objIid => some ⟨handleRout, oid, objIid, objIdxJObj⟩
  | _, _ => none

/-- The calls for an object. -/
def objectCalls (routObj : List (List Char × SpvHandleRout σ V))
    (obj : List Char × Option (List (List Char × Option V))) : List (SpvCall σ V) :=
  match obj.2, routObj.lookup obj.1 with
  | some objnumJobj, some handleRout =>
      objnumJobj.filterMap (instanceCall handleRout (scanOid obj.1))
  | _, _ => []

/-- The calls for a request, in their order. -/
def spvCalls (routObj : List (List Char × SpvHandleRout σ V)) (multiJobj : MultiJobj V) :
    List (SpvCall σ V) :=
  multiJobj.flatMap (objectCalls routObj)

def SpvCall.run (call : SpvCall σ V) (state : σ) : Int × σ :=
  call.handleRout call.oid call.objIid call.spvObj state

/-- What the handlers return when one call is made after the other. -/
def outcomes : List (SpvCall σ V) → σ → List Int
  | [], _ => []
  | call :: calls, state => (call.run state).1 :: outcomes calls (call.run state).2

/-! ## What the result says -/

/-- A code that is neither {lit}`ZCFG_SUCCESS` nor {lit}`ZCFG_OBJECT_UPDATED`. -/
def IsFault (ret : Int) : Prop :=
  ret ≠ zcfgSuccess ∧ ret ≠ zcfgObjectUpdated

instance (ret : Int) : Decidable (IsFault ret) :=
  inferInstanceAs (Decidable (_ ∧ _))

/-- The result is a fault if a handler has faulted, otherwise an update if a handler has updated its
object, otherwise success. -/
structure SumsUp (returned : List Int) (ret : Int) : Prop where
  fault : IsFault ret ↔ ∃ r ∈ returned, IsFault r
  updated : ret = zcfgObjectUpdated ↔
    (∀ r ∈ returned, ¬ IsFault r) ∧ zcfgObjectUpdated ∈ returned
  success : ret = zcfgSuccess ↔ ∀ r ∈ returned, r = zcfgSuccess

/-! ## Reading the numbers back -/

/-- A printed byte in front of a dot. -/
theorem scanNumber_decimal_dot (n : Nat) (hn : n < 2 ^ 64) (rest : List Char) :
    scanNumber (decimal n ++ '.' :: rest) = some ((n : Int), '.' :: rest) := by
  have htext : signedText (n : Int) = decimal n := by simp [signedText]
  have hscan := scanNumber_signedText (n := (n : Int)) (by simpa using hn)
    (c := '.') (by decide) rest
  rwa [htext] at hscan

/-- A printed number at the end of a text. -/
theorem scanNumber_decimal (n : Nat) (hn : n < 2 ^ 64) :
    scanNumber (decimal n) = some ((n : Int), []) := by
  obtain ⟨d, ds, hds⟩ := List.exists_cons_of_ne_nil (decimal_ne_nil n)
  obtain ⟨hspace, hminus, hplus⟩ :=
    not_isSpace_of_isDigit (isDigit_of_mem_decimal (hds ▸ List.mem_cons_self))
  have hdrop : (decimal n).dropWhile isSpace = decimal n := by
    rw [hds]
    exact List.dropWhile_cons_of_neg (by simp [hspace])
  have htake : (decimal n).takeWhile Char.isDigit = decimal n := by
    have h : (decimal n ++ []).takeWhile Char.isDigit = decimal n :=
      takeWhile_decimal_append n (by simp)
    rwa [List.append_nil] at h
  have hdigits : scanDigits 1 (decimal n) = some ((n : Int), []) := by
    unfold scanDigits
    simp only [htake, digitsValue_decimal, if_neg (decimal_ne_nil n), if_pos hn, List.drop_length,
      Int.one_mul]
  rw [scanNumber, hdrop]
  split
  · rename_i heq
    rw [hds] at heq
    exact absurd (List.cons.inj heq).1 hminus
  · rename_i heq
    rw [hds] at heq
    exact absurd (List.cons.inj heq).1 hplus
  · exact hdigits

/-- The number of a registered object is read back from its text. -/
theorem scanOid_decimal (oid : UInt32) : scanOid (decimal oid.toNat) = oid := by
  have hlt := oid.toNat_lt
  rw [scanOid, scanNumber_decimal _ (by omega)]
  apply UInt32.toNat.inj
  simp
  omega

/-- Printed bytes with dots between them are read back. -/
theorem scanBytes_intercalate (bytes : List UInt8) :
    ∀ n, bytes.length ≤ n → bytes ≠ [] →
      scanBytes n (['.'].intercalate (bytes.map fun b => decimal b.toNat)) = bytes := by
  induction bytes with
  | nil =>
      intro n _ hne
      exact absurd rfl hne
  | cons b bytes ih =>
      intro n hn _
      have hb : b.toNat < 2 ^ 64 := lt_trans b.toNat_lt (by decide)
      have hbyte : UInt8.ofNat ((b.toNat : Int) % 256).toNat = b := by
        apply UInt8.toNat.inj
        have hlt := b.toNat_lt
        simp
        omega
      obtain ⟨n, rfl⟩ : ∃ m, n = m + 1 := ⟨n - 1, by simp at hn; omega⟩
      cases bytes with
      | nil => simp [scanBytes, scanNumber_decimal _ hb, hbyte]
      | cons b' bytes =>
          have hrest := ih n (by simpa using hn) (by simp)
          rw [List.map_cons, List.map_cons, List.intercalate_cons_cons, scanBytes,
            List.append_assoc, List.singleton_append, scanNumber_decimal_dot _ hb]
          rw [List.map_cons] at hrest
          simp only [hbyte, hrest]

/-- The text of an index is read back. -/
theorem scanObjIndex_indexText (objIid : ObjIndex) :
    scanObjIndex (indexText objIid) = some objIid := by
  have hlength : objIid.bytes.length = supportedIndexLevel + 1 := by
    simp [ObjIndex.bytes, objIid.idx_length]
  have hscan := scanBytes_intercalate objIid.bytes (supportedIndexLevel + 1) hlength.le
    (by simp [ObjIndex.bytes])
  rw [scanObjIndex, indexText, hscan]
  cases objIid with
  | mk level idx idx_length =>
      have htake : (idx ++ List.replicate supportedIndexLevel 0).take supportedIndexLevel = idx := by
        rw [← idx_length, List.take_left]
      simp [ObjIndex.bytes, htake]

/-- An object with a handler is registered under its number, and the handler is called with it. -/
theorem registered {spvHandleRoutList : List (UInt32 × SpvHandleRout σ V)}
    {objnumStr : List Char} {handleRout : SpvHandleRout σ V}
    (h : (tr181SpvHandleRoutObj spvHandleRoutList).lookup objnumStr = some handleRout) :
    (scanOid objnumStr, handleRout) ∈ spvHandleRoutList ∧
      objnumStr = decimal (scanOid objnumStr).toNat := by
  unfold tr181SpvHandleRoutObj at h
  induction spvHandleRoutList using List.reverseRecOn with
  | nil => simp at h
  | append_singleton entries entry ih =>
      rw [List.foldl_concat, lookup_objectAdd] at h
      by_cases hkey : objnumStr = decimal entry.1.toNat
      · rw [if_pos hkey, Option.some.injEq] at h
        rw [hkey, scanOid_decimal, ← h]
        exact ⟨List.mem_append_right _ (List.mem_singleton.mpr rfl), rfl⟩
      · rw [if_neg hkey] at h
        obtain ⟨hmem, htext⟩ := ih h
        exact ⟨List.mem_append_left _ hmem, htext⟩

/-! ## The loops as one run of calls -/

/-- One call in the loops. -/
def SpvCall.step (loop : SpvLoop σ) (call : SpvCall σ V) : SpvLoop σ :=
  let (rst, state) := call.run loop.state
  { rst := rst
    faultrst := if IsFault rst then rst else loop.faultrst
    state := state }

theorem instanceStep_eq (handleRout : SpvHandleRout σ V) (oid : UInt32) (loop : SpvLoop σ)
    (inst : List Char × Option V) :
    instanceStep handleRout oid loop inst =
      (instanceCall handleRout oid inst).elim loop (SpvCall.step loop) := by
  unfold instanceStep instanceCall
  split <;> rfl

/-- The inner loop makes the calls for one object. -/
theorem instanceLoop_eq_calls (handleRout : SpvHandleRout σ V) (oid : UInt32)
    (insts : List (List Char × Option V)) :
    ∀ loop : SpvLoop σ, insts.foldl (instanceStep handleRout oid) loop =
      (insts.filterMap (instanceCall handleRout oid)).foldl SpvCall.step loop := by
  induction insts with
  | nil => exact fun loop => rfl
  | cons inst insts ih =>
      intro loop
      rw [List.foldl_cons, ih, instanceStep_eq, List.filterMap_cons]
      cases instanceCall handleRout oid inst with
      | none => rfl
      | some call => rfl

/-- Both loops together make the calls for the request. -/
theorem objectLoop_eq_calls (routObj : List (List Char × SpvHandleRout σ V))
    (multiJobj : MultiJobj V) :
    ∀ loop : SpvLoop σ, multiJobj.foldl (objectStep routObj) loop =
      (spvCalls routObj multiJobj).foldl SpvCall.step loop := by
  induction multiJobj with
  | nil => exact fun loop => rfl
  | cons obj multiJobj ih =>
      intro loop
      have hobj : objectStep routObj loop obj =
          (objectCalls routObj obj).foldl SpvCall.step loop := by
        unfold objectStep objectCalls
        split
        · exact instanceLoop_eq_calls _ _ _ loop
        · rfl
      have hcalls : spvCalls routObj (obj :: multiJobj) =
          objectCalls routObj obj ++ spvCalls routObj multiJobj := List.flatMap_cons
      rw [List.foldl_cons, ih, hobj, hcalls, List.foldl_append]

/-- The variables behind a run of calls: the last result, and the last fault. -/
theorem foldl_step_eq (calls : List (SpvCall σ V)) :
    ∀ loop : SpvLoop σ,
      (calls.foldl SpvCall.step loop).rst =
          ((outcomes calls loop.state).getLast?).getD loop.rst ∧
        (calls.foldl SpvCall.step loop).faultrst =
          (((outcomes calls loop.state).filter (IsFault ·)).getLast?).getD loop.faultrst := by
  induction calls with
  | nil => exact fun loop => ⟨rfl, rfl⟩
  | cons call calls ih =>
      intro loop
      obtain ⟨hrst, hfault⟩ := ih (SpvCall.step loop call)
      rw [List.foldl_cons, hrst, hfault, outcomes, List.getLast?_cons]
      refine ⟨rfl, ?_⟩
      by_cases hcall : IsFault (call.run loop.state).1
      · rw [List.filter_cons_of_pos (by simpa using hcall), List.getLast?_cons]
        simp [SpvCall.step, hcall]
      · rw [List.filter_cons_of_neg (by simpa using hcall)]
        simp [SpvCall.step, hcall]

/-- The result: the last fault, or the last code if there is no fault. -/
def summary (returned : List Int) : Int :=
  ((returned.filter (IsFault ·)).getLast?).getD (returned.getLast?.getD zcfgSuccess)

theorem spvHandleRout_eq (routObj : List (List Char × SpvHandleRout σ V)) (multiJobj : MultiJobj V)
    (state : σ) :
    (zcfgFeMultiObjJsonSpvHandleRout routObj multiJobj state).1 =
      summary (outcomes (spvCalls routObj multiJobj) state) := by
  obtain ⟨hrst, hfault⟩ := foldl_step_eq (spvCalls routObj multiJobj)
    { rst := zcfgSuccess, faultrst := zcfgSuccess, state := state }
  rw [zcfgFeMultiObjJsonSpvHandleRout, objectLoop_eq_calls]
  simp only [hrst, hfault, summary]
  cases hlast : ((outcomes (spvCalls routObj multiJobj) state).filter (IsFault ·)).getLast? with
  | none => simp
  | some fault =>
      have hmem := List.mem_of_getLast? hlast
      have hisFault : IsFault fault := by simpa using (List.mem_filter.mp hmem).2
      simp [hisFault.1]

/-! ## When the result sums up -/

/-- Without a fault the result is the last code. -/
theorem summary_of_noFault {returned : List Int} (h : ∀ r ∈ returned, ¬ IsFault r) :
    summary returned = returned.getLast?.getD zcfgSuccess := by
  have hnone : returned.filter (IsFault ·) = [] := by simpa [List.filter_eq_nil_iff] using h
  rw [summary, hnone]
  rfl

theorem isFault_summary {returned : List Int} {r : Int} (hr : r ∈ returned) (hfault : IsFault r) :
    IsFault (summary returned) := by
  have hne : returned.filter (IsFault ·) ≠ [] :=
    List.ne_nil_of_mem (List.mem_filter.mpr ⟨hr, by simpa using hfault⟩)
  have hlast := List.getLast_mem hne
  rw [summary, List.getLast?_eq_getLast_of_ne_nil hne, Option.getD_some]
  simpa using (List.mem_filter.mp hlast).2

/-- The result sums up the returned codes exactly if there is a fault, or no update, or if the last
handler has returned an update. -/
theorem sumsUp_summary_iff (returned : List Int) :
    SumsUp returned (summary returned) ↔
      (∃ r ∈ returned, IsFault r) ∨ zcfgObjectUpdated ∉ returned ∨
        returned.getLast? = some zcfgObjectUpdated := by
  by_cases hfault : ∃ r ∈ returned, IsFault r
  · obtain ⟨r, hr, hisFault⟩ := hfault
    have hsummary := isFault_summary hr hisFault
    refine ⟨fun _ => .inl ⟨r, hr, hisFault⟩, fun _ => ⟨?_, ?_, ?_⟩⟩
    · exact ⟨fun _ => ⟨r, hr, hisFault⟩, fun _ => hsummary⟩
    · exact ⟨fun h => absurd h hsummary.2, fun h => absurd hisFault (h.1 r hr)⟩
    · exact ⟨fun h => absurd h hsummary.1, fun h => absurd (h r hr) hisFault.1⟩
  · have hno : ∀ r ∈ returned, ¬ IsFault r := fun r hr h => hfault ⟨r, hr, h⟩
    have hcodes : ∀ r ∈ returned, r = zcfgSuccess ∨ r = zcfgObjectUpdated := by
      intro r hr
      have h := hno r hr
      unfold IsFault at h
      tauto
    have hne : zcfgSuccess ≠ zcfgObjectUpdated := by decide
    rw [summary_of_noFault hno]
    cases hlast : returned.getLast? with
    | none =>
        obtain rfl := List.getLast?_eq_none_iff.mp hlast
        refine ⟨fun _ => .inr (.inl (by simp)), fun _ => ⟨?_, ?_, ?_⟩⟩
        · simp [IsFault]
        · simp [hne]
        · simp
    | some last =>
        have hmem := List.mem_of_getLast? hlast
        rw [Option.getD_some]
        rcases hcodes last hmem with rfl | rfl
        · -- the last handler has updated nothing, so an earlier update is lost
          constructor
          · intro h
            exact .inr (.inl fun hupdated => hne (h.updated.mpr ⟨hno, hupdated⟩))
          · intro h
            have hnone : zcfgObjectUpdated ∉ returned := by
              rcases h with hsome | hnone | heq
              · exact absurd hsome hfault
              · exact hnone
              · exact absurd (Option.some.inj heq) hne
            refine ⟨?_, ?_, ?_⟩
            · exact ⟨fun h => absurd rfl h.1, fun h => absurd h hfault⟩
            · exact ⟨fun h => absurd h hne, fun h => absurd h.2 hnone⟩
            · refine ⟨fun _ r hr => (hcodes r hr).resolve_right ?_, fun _ => rfl⟩
              rintro rfl
              exact hnone hr
        · refine ⟨fun _ => .inr (.inr rfl), fun _ => ⟨?_, ?_, ?_⟩⟩
          · exact ⟨fun h => absurd rfl h.2, fun h => absurd h hfault⟩
          · exact ⟨fun _ => ⟨hno, hmem⟩, fun _ => rfl⟩
          · exact ⟨fun h => absurd h.symm hne, fun h => h _ hmem⟩

/-- What a sum says does not depend on the order of the codes. -/
theorem SumsUp.of_perm {returned returned' : List Int} {ret : Int} (h : SumsUp returned ret)
    (hperm : returned.Perm returned') : SumsUp returned' ret where
  fault := by simpa only [hperm.mem_iff] using h.fault
  updated := by simpa only [hperm.mem_iff] using h.updated
  success := by simpa only [hperm.mem_iff] using h.success

/-- The function sums up what the handlers return exactly if one of them faults, or none reports an
update, or the last one does. -/
theorem sumsUp_iff (routObj : List (List Char × SpvHandleRout σ V)) (multiJobj : MultiJobj V)
    (state : σ) :
    let returned := outcomes (spvCalls routObj multiJobj) state
    SumsUp returned (zcfgFeMultiObjJsonSpvHandleRout routObj multiJobj state).1 ↔
      (∃ r ∈ returned, IsFault r) ∨ zcfgObjectUpdated ∉ returned ∨
        returned.getLast? = some zcfgObjectUpdated := by
  intro returned
  rw [spvHandleRout_eq]
  exact sumsUp_summary_iff returned

/-! ## The handler of DHCPv4 server options -/

/-- {lit}`RDM_OID_DHCPV4_SRV_POOL_OPT`. -/
def rdmOidDhcpv4SrvPoolOpt : UInt32 := 80616

/-- {lit}`spvDhcpv4SrvOptRout` on the values of the instances by their numbers; a value that leaves its
buffer is not written. -/
def dhcpv4SrvOptHandler : SpvHandleRout (List (Option ParamValue)) Nat :=
  fun _ _ spvObj values =>
    match spvDhcpv4SrvOptRout (values.getD spvObj none) with
    | none => (ZcfgRet.internalError.value, values)
    | some (ret, value) => (ret.value, values.set spvObj value)

/-- Two options of a pool, in the order of the request. -/
def twoOptions : MultiJobj Nat :=
  [("80616".toList, some [("2.1.1.0.0.0.0".toList, some 0), ("2.1.2.0.0.0.0".toList, some 1)])]

/-- The first option is set as hex digits and the second one as a plain text. -/
theorem update_lost :
    let routObj := tr181SpvHandleRoutObj [(rdmOidDhcpv4SrvPoolOpt, dhcpv4SrvOptHandler)]
    let values := [some (ParamValue.hex [0x34, 0x31]), some (ParamValue.plain [0x41])]
    outcomes (spvCalls routObj twoOptions) values = [zcfgObjectUpdated, zcfgSuccess] ∧
      (zcfgFeMultiObjJsonSpvHandleRout routObj twoOptions values).1 = zcfgSuccess ∧
      ¬ SumsUp (outcomes (spvCalls routObj twoOptions) values)
        (zcfgFeMultiObjJsonSpvHandleRout routObj twoOptions values).1 := by
  intro routObj values
  have hreturned : outcomes (spvCalls routObj twoOptions) values =
      [zcfgObjectUpdated, zcfgSuccess] := by decide
  have hret : (zcfgFeMultiObjJsonSpvHandleRout routObj twoOptions values).1 = zcfgSuccess := by
    decide
  refine ⟨hreturned, hret, ?_⟩
  rw [hreturned, hret]
  intro h
  have hall := h.success.mp rfl
  exact absurd (hall zcfgObjectUpdated (by simp)) (by decide)

end FeTr98
end ZyxelRouter
