import ZyxelRouter.FeTr98.PathName

/-!
# Notifications for TR-098

{lit}`zcfgFeTr98Notify` translates the changed parameters of TR-181 objects.  The buffers for the two
object names are declared in front of the loop over the entries, so that a round starts with what
the rounds before it have left there.

Main results:

- Theorem {lit}`seqnumToNameLoop_lands`: over any buffer the name is written as into zeros, if each
  number lands in its place.
- Theorem {lit}`notifyRound_alone`: a round in an undisturbed state sends what the entry sends alone.
- Theorem {lit}`notify_sameSent`: then so does the whole list.
-/

namespace ZyxelRouter
namespace FeTr98

open Lib FeString

/-! ## The object name of an entry -/

/-- Why a call ends inside of the loop: the source returns, or it writes behind a buffer. -/
inductive NotifyStop where
  | returned (ret : ZcfgRet)
  | overflow
deriving DecidableEq, Repr

/-- {lit}`"Device."`. -/
def deviceDot : List Char := device ++ ['.']

/-- {lit}`IpIntObjName`. -/
def ipIntObjName : List Char := "IP.Interface".toList

/-- {lit}`PppIntObjName`. -/
def pppIntObjName : List Char := "PPP.Interface".toList

/-- {lit}`sizeof(tr181ObjName)`. -/
def tr181ObjNameSize : Nat := 128

/-- {lit}`sizeof(tr181ParamName)`. -/
def tr181ParamNameSize : Nat := 64

/-- {lit}`sizeof(tr98ClassName)`. -/
def tr98ClassNameSize : Nat := 128

/-- {lit}`strrchr` for a dot: what is in front of the last dot and what is behind it. -/
def splitLastDot (name : List Char) : Option (List Char × List Char) :=
  if '.' ∈ name then
    some ((((name.reverse).dropWhile (· ≠ '.')).drop 1).reverse,
      ((name.reverse).takeWhile (· ≠ '.')).reverse)
  else none

/-- {lit}`strstr`: the position of the first occurrence. -/
def strstr (word : List Char) : List Char → Option Nat
  | [] => if word = [] then some 0 else none
  | c :: rest =>
      if word.isPrefixOf (c :: rest) then some 0 else (strstr word rest).map (· + 1)

/-- {lit}`%hhu`: blanks, an optional sign and digits; too large numbers are cut to the largest
{lit}`unsigned long`. -/
def scanHhu (cs : List Char) : UInt8 :=
  let value := atoi cs
  let cut : Int := min (max value (-(2 ^ 64 - 1))) (2 ^ 64 - 1)
  UInt8.ofNat (cut % 256).toNat

/-- The number that {lit}`sscanf(objName, "IP.Interface.%hhu", …)` leaves in a zero byte. -/
def ipInterfaceIdx (objName : List Char) : UInt8 :=
  if (ipIntObjName ++ ['.']).isPrefixOf objName then
    scanHhu (objName.drop (ipIntObjName.length + 1))
  else 0

/-- {lit}`*(ptr-1) = '\0'` for the first {lit}`word` behind the first {lit}`n` characters, if there is
a dot in front of it. -/
def cutBefore (buf : List Char) (n : Nat) (word : List Char) : List Char :=
  match strstr word ((stringOf buf).drop n) with
  | none => buf
  | some j =>
      if (stringOf buf).getD (n + j - 1) nul = '.' then writeAt buf (n + j - 1) [nul] else buf

/-- The part of a name that {lit}`strncpy` copies.  The length behind {lit}`"Device."` is negative if
there is no further dot. -/
def copiedPart (notifyName front : List Char) : Option (List Char) :=
  if deviceDot.isPrefixOf notifyName then
    if front.length < deviceDot.length then none else some (front.drop deviceDot.length)
  else some front

/-- The interface names: the address object is cut off, and an address of an IP interface is taken
from the PPP interface under it. -/
def fixInterface (ipIface : UInt8 → Option (List Char)) (objName objParm : List Char) :
    Except NotifyStop (List Char × List Char) :=
  if ipIntObjName.isPrefixOf (stringOf objName) then
    let objName := cutBefore objName ipIntObjName.length "IPv4Address".toList
    if objParm = "IPAddress".toList then
      match ipIface (ipInterfaceIdx (stringOf objName)) with
      | none => .ok (objName, objParm)
      | some lowerLayers =>
          if pppIntObjName.isPrefixOf lowerLayers then
            if tr181ObjNameSize ≤ lowerLayers.length then .error .overflow
            else .ok (writeAt objName 0 (lowerLayers ++ [nul]), "LocalIPAddress".toList)
          else .ok (objName, objParm)
    else .ok (objName, objParm)
  else if pppIntObjName.isPrefixOf (stringOf objName) then
    .ok (cutBefore objName pppIntObjName.length "IPCP".toList, objParm)
  else .ok (objName, objParm)

/-- {lit}`zcfgFeGetTr181NameParm`: the result, the buffer with the object name and the parameter name.
The argument {lit}`ipIface` gives the {lit}`LowerLayers` of an IP interface. -/
def zcfgFeGetTr181NameParm (ipIface : UInt8 → Option (List Char)) (notifyName objName : List Char) :
    Except NotifyStop (ZcfgRet × List Char × List Char) :=
  let objName := writeAt objName 0 [nul]
  match splitLastDot notifyName with
  | none => .ok (.invalidArguments, objName, [])
  | some (front, parm) =>
      if tr181ParamNameSize ≤ parm.length then .error .overflow
      else
        match copiedPart notifyName front with
        | none => .error .overflow
        | some part =>
            if tr181ObjNameSize ≤ part.length then .error .overflow
            else
              (fixInterface ipIface (writeAt objName 0 part) parm).map (fun r => (.success, r.1, r.2))

/-! ## The loop over the entries -/

/-- What the call reads besides its arguments: the names and handlers, the TR-181 schema, the mapping
kept by another process, the IP interfaces and the mapping of parameters. -/
structure NotifyEnv where
  table : NameTable
  nulless : ∀ name ∈ table, nul ∉ name
  notifies : Nat → Bool
  schema : Schema
  mapping : Nat → ObjIndex → Option (Nat × ObjIndex)
  ipIface : UInt8 → Option (List Char)
  parmMapping : List Char → Except ZcfgRet (List Char)

/-- What a notify handler is called with: the object name, the parameter name and the value. -/
abbrev Sent (V : Type) := List Char × List Char × V

/-- The buffers in front of the loop. -/
structure NotifyState where
  tr98ObjName : List Char
  tr181ObjName : List Char
  tr181ParamName : List Char

/-- All buffers are zero. -/
def NotifyState.init : NotifyState where
  tr98ObjName := List.replicate tr98MaxObjNameLength nul
  tr181ObjName := List.replicate tr181ObjNameSize nul
  tr181ParamName := []

/-- {lit}`zcfgFe181To98ObjMappingNameGet`: whether there is a name, and the buffer. -/
def zcfgFe181To98ObjMappingNameGet (env : NotifyEnv) (tr181PathName tr98PathName : List Char) :
    Except NotifyStop (ZcfgRet × List Char) :=
  match zcfgFeObjNameToObjId env.schema tr181PathName with
  | (none, _) => .ok (.internalError, tr98PathName)
  | (some oid, tr181ObjIid) =>
      match env.mapping oid tr181ObjIid with
      | none => .ok (.noSuchObject, tr98PathName)
      | some (nameSeqNum, objIid) =>
          let r := zcfgFe98SeqnumToName env.table nameSeqNum objIid tr98PathName
          if tr98PathName.length < r.2.length then .error .overflow else .ok r

/-- The end of a round: the handler of the class is called. -/
def callHandler {V : Type} (env : NotifyEnv) (tr98ObjName parm : List Char) (val : V) :
    Except NotifyStop (List (Sent V)) :=
  match zcfgFeTr98ClassNameGet tr98ObjName with
  | none => .error (.returned .invalidObject)
  | some tr98ClassName =>
      if tr98ClassNameSize ≤ tr98ClassName.length then .error .overflow
      else
        match env.table.findIdx? (· = tr98ClassName) with
        | none => .ok []
        | some handler =>
            if env.notifies handler then .ok [(tr98ObjName, parm, val)] else .ok []

/-- {lit}`strtok_r(tr181ObjName, ".", &tmp)`: the token, {lit}`tmp` and the buffer. -/
def strtokDot (buf : List Char) : List Char × List Char × List Char :=
  let skipped := ((stringOf buf).takeWhile (· = '.')).length
  let str := (stringOf buf).drop skipped
  let token := str.takeWhile (· ≠ '.')
  let tmp := (str.drop token.length).drop 1
  (token, tmp, if '.' ∈ str then writeAt buf (skipped + token.length) [nul] else buf)

/-- One round of {lit}`zcfgFeTr98Notify`. -/
def notifyRound {V : Type} (env : NotifyEnv) (st : NotifyState) (tr181NotifyName : List Char)
    (tr181ParamVal : V) : Except NotifyStop (NotifyState × List (Sent V)) :=
  if device.isPrefixOf tr181NotifyName then
    match zcfgFeGetTr181NameParm env.ipIface tr181NotifyName st.tr181ObjName with
    | .error stop => .error stop
    | .ok (ret, tr181ObjName, tr181ParamName) =>
        let st := { st with tr181ObjName, tr181ParamName }
        if ret ≠ .success then .ok (st, [])
        else
          match zcfgFe181To98ObjMappingNameGet env (stringOf tr181ObjName) st.tr98ObjName with
          | .error stop => .error stop
          | .ok (ret, tr98ObjName) =>
              let st := { st with tr98ObjName }
              if ret ≠ .success then .ok (st, [])
              else
                match callHandler env (stringOf tr98ObjName) tr181ParamName tr181ParamVal with
                | .error stop => .error stop
                | .ok sent => .ok (st, sent)
  else if "Tr98_".toList.isPrefixOf tr181NotifyName then
    match env.parmMapping (tr181NotifyName.drop "Tr98_".toList.length) with
    | .error ret => .error (.returned ret)
    | .ok _ => .ok (st, [])
  else
    let (token, tmp, tr181ObjName) := strtokDot st.tr181ObjName
    if token = device then
      let tr98ObjName := writeAt st.tr98ObjName 0 ("InternetGatewayDevice.".toList ++ tmp ++ [nul])
      match callHandler env (stringOf tr98ObjName) st.tr181ParamName tr181ParamVal with
      | .error stop => .error stop
      | .ok sent => .ok ({ st with tr98ObjName, tr181ObjName }, sent)
    else .error (.returned .invalidArguments)

/-- The loop. -/
def notifyLoop {V : Type} (env : NotifyEnv) :
    NotifyState → List (List Char × V) → Except NotifyStop (List (Sent V))
  | _, [] => .ok []
  | st, entry :: rest =>
      match notifyRound env st entry.1 entry.2 with
      | .error stop => .error stop
      | .ok (st', sent) => (notifyLoop env st' rest).map (sent ++ ·)

/-- {lit}`zcfgFeTr98Notify`: what is passed to the notify handlers. -/
def zcfgFeTr98Notify {V : Type} (env : NotifyEnv) (tr181NotifyInfo : List (List Char × V)) :
    Except NotifyStop (List (Sent V)) :=
  notifyLoop env NotifyState.init tr181NotifyInfo

/-! ## Strings in buffers -/

theorem stringOf_append_nul (str rest : List Char) : stringOf (str ++ nul :: rest) = stringOf str := by
  induction str with
  | nil => simp [stringOf]
  | cons c str ih =>
      by_cases hc : c = nul
      · simp [stringOf, hc]
      · rw [stringOf, stringOf] at *
        rw [List.cons_append, List.takeWhile_cons_of_pos (by simpa using hc), ih,
          List.takeWhile_cons_of_pos (by simpa using hc)]

/-- A name copied over a buffer is the string in it if there is a terminator right behind it. -/
theorem stringOf_writeAt_zero {buf part : List Char} (h : buf[part.length]? = some nul) :
    stringOf (writeAt buf 0 part) = stringOf part := by
  obtain ⟨hlt, hget⟩ := List.getElem?_eq_some_iff.mp h
  have hdrop : buf.drop part.length = nul :: buf.drop (part.length + 1) := by
    rw [List.drop_eq_getElem_cons hlt, hget]
  rw [writeAt, List.take_zero, List.nil_append, Nat.zero_add, hdrop, stringOf_append_nul]

theorem stringOf_strcpy (buf str : List Char) :
    stringOf (writeAt buf 0 (str ++ [nul])) = stringOf str := by
  rw [writeAt, List.take_zero, List.nil_append, List.append_assoc, List.singleton_append,
    stringOf_append_nul]

/-- A terminator inside of the string cuts it. -/
theorem stringOf_writeAt_nul {buf : List Char} {j : Nat} (h : j < (stringOf buf).length) :
    stringOf (writeAt buf j [nul]) = (stringOf buf).take j := by
  have hpre : stringOf buf <+: buf := List.takeWhile_prefix _
  have htake : buf.take j = (stringOf buf).take j := by
    obtain ⟨rest, hrest⟩ := hpre
    conv_lhs => rw [← hrest]
    rw [List.take_append_of_le_length (by omega)]
  have hclean : ∀ c ∈ (stringOf buf).take j, c ≠ nul := fun c hc => by
    simpa using List.mem_takeWhile_imp (List.mem_of_mem_take hc)
  rw [writeAt, List.append_assoc, List.singleton_append, stringOf_append_nul, htake, stringOf,
    List.takeWhile_eq_self_iff]
  simpa using hclean

theorem length_le_of_strstr {word : List Char} (hword : word ≠ []) :
    ∀ {str : List Char} {j : Nat}, strstr word str = some j → j + word.length ≤ str.length := by
  intro str
  induction str with
  | nil =>
      intro j h
      rw [strstr, if_neg hword] at h
      cases h
  | cons c str ih =>
      intro j h
      rw [strstr] at h
      split at h
      · rename_i hpre
        cases h
        simpa using (List.isPrefixOf_iff_prefix.mp hpre).length_le
      · obtain ⟨i, hi, rfl⟩ := Option.map_eq_some_iff.mp h
        have := ih hi
        rw [List.length_cons]
        omega

/-- Where the word begins is inside of the string. -/
theorem cutBefore_bound {buf word : List Char} {n j : Nat} (hword : word ≠ [])
    (h : strstr word ((stringOf buf).drop n) = some j) : n + j - 1 < (stringOf buf).length := by
  have hle := length_le_of_strstr hword h
  have hpos := List.length_pos_of_ne_nil hword
  rw [List.length_drop] at hle
  omega

theorem length_stringOf_le (buf : List Char) : (stringOf buf).length ≤ buf.length :=
  (List.takeWhile_prefix _).length_le

theorem length_cutBefore (buf : List Char) (n : Nat) {word : List Char} (hword : word ≠ []) :
    (cutBefore buf n word).length = buf.length := by
  rw [cutBefore]
  split
  · rfl
  · rename_i j hj
    split
    · have hbound := cutBefore_bound hword hj
      have hle := length_stringOf_le buf
      exact length_writeAt (by simp; omega)
    · rfl

/-- What is cut off depends on the string only. -/
theorem stringOf_cutBefore_congr {buf buf' : List Char} (n : Nat) {word : List Char}
    (hword : word ≠ [])
    (h : stringOf buf = stringOf buf') :
    stringOf (cutBefore buf n word) = stringOf (cutBefore buf' n word) := by
  rw [cutBefore, cutBefore, ← h]
  cases hj : strstr word ((stringOf buf).drop n) with
  | none => exact h
  | some j =>
      have hbound := cutBefore_bound hword hj
      simp only
      split
      · rw [stringOf_writeAt_nul hbound, stringOf_writeAt_nul (by rwa [← h]), h]
      · exact h

/-- What the later code sees of an object name and a parameter name. -/
def seen (r : List Char × List Char) : List Char × List Char :=
  (stringOf r.1, r.2)

/-- The interface names depend on the string only. -/
theorem fixInterface_congr (ipIface : UInt8 → Option (List Char)) (parm : List Char)
    {buf buf' : List Char} (h : stringOf buf = stringOf buf') :
    (fixInterface ipIface buf parm).map seen = (fixInterface ipIface buf' parm).map seen := by
  have hip := stringOf_cutBefore_congr ipIntObjName.length
    (show "IPv4Address".toList ≠ [] by decide) h
  have hppp := stringOf_cutBefore_congr pppIntObjName.length (show "IPCP".toList ≠ [] by decide) h
  rw [fixInterface, fixInterface, ← h]
  split
  · simp only [← hip]
    split
    · split
      · simp only [Except.map, seen, hip]
      · split
        · split
          · rfl
          · simp only [Except.map, seen, stringOf_strcpy]
        · simp only [Except.map, seen, hip]
    · simp only [Except.map, seen, hip]
  · split
    · simp only [Except.map, seen, hppp]
    · simp only [Except.map, seen, h]

theorem length_fixInterface {ipIface : UInt8 → Option (List Char)} {buf parm : List Char}
    {r : List Char × List Char}
    (hlen : buf.length = tr181ObjNameSize)
    (h : fixInterface ipIface buf parm = .ok r) : r.1.length = tr181ObjNameSize := by
  have hip : (cutBefore buf ipIntObjName.length "IPv4Address".toList).length = tr181ObjNameSize := by
    rw [length_cutBefore _ _ (by decide), hlen]
  have hppp : (cutBefore buf pppIntObjName.length "IPCP".toList).length = tr181ObjNameSize := by
    rw [length_cutBefore _ _ (by decide), hlen]
  rw [fixInterface] at h
  split at h
  · simp only at h
    split at h
    · split at h
      · cases h
        exact hip
      · split at h
        · split at h
          · cases h
          · rename_i hshort
            cases h
            rw [length_writeAt, hip]
            rw [hip]
            simp only [List.length_append, List.length_singleton]
            omega
        · cases h
          exact hip
    · cases h
      exact hip
  · split at h
    · cases h
      exact hppp
    · cases h
      exact hlen

/-! ## Reading an entry into a used buffer -/

/-- The part of the name that is copied into the buffer. -/
def objPart (notifyName : List Char) : List Char :=
  match splitLastDot notifyName with
  | none => []
  | some (front, _) => (copiedPart notifyName front).getD []

/-- The terminator is right behind the copied part: no longer name of an earlier round goes on
there. -/
def CopyClean (buf notifyName : List Char) : Prop :=
  objPart notifyName = [] ∨ buf[(objPart notifyName).length]? = some nul

instance (buf notifyName : List Char) : Decidable (CopyClean buf notifyName) :=
  inferInstanceAs (Decidable (_ ∨ _))

/-- The string in the buffer is the copied part. -/
theorem stringOf_copied {buf part : List Char} (hlen : 0 < buf.length)
    (h : part = [] ∨ buf[part.length]? = some nul) :
    stringOf (writeAt (writeAt buf 0 [nul]) 0 part) = stringOf part := by
  apply stringOf_writeAt_zero
  obtain ⟨c, buf, rfl⟩ := List.exists_cons_of_ne_nil (List.ne_nil_of_length_pos hlen)
  have hfirst : writeAt (c :: buf) 0 [nul] = nul :: buf := by simp [writeAt]
  rw [hfirst]
  cases part with
  | nil => rfl
  | cons x part =>
      rcases h with h | h
      · cases h
      · simpa using h

/-- What the round sees of the result. -/
def seenName (r : ZcfgRet × List Char × List Char) : ZcfgRet × List Char × List Char :=
  (r.1, stringOf r.2.1, r.2.2)

theorem seenName_map (x : Except NotifyStop (List Char × List Char)) :
    (x.map (fun r => (ZcfgRet.success, r.1, r.2))).map seenName =
      (x.map seen).map (fun r => (ZcfgRet.success, r.1, r.2)) := by
  cases x <;> rfl

/-- Reading into a clean buffer is reading into zeros. -/
theorem zcfgFeGetTr181NameParm_clean (ipIface : UInt8 → Option (List Char)) {name buf : List Char}
    (hlen : buf.length = tr181ObjNameSize)
    (hclean : CopyClean buf name) :
    (zcfgFeGetTr181NameParm ipIface name buf).map seenName =
      (zcfgFeGetTr181NameParm ipIface name (List.replicate tr181ObjNameSize nul)).map seenName := by
  have hpos : 0 < buf.length := by
    rw [hlen]
    decide
  have hnil : ∀ b : List Char, stringOf (writeAt b 0 [nul]) = [] := fun b => by
    simp [writeAt, stringOf]
  rw [zcfgFeGetTr181NameParm, zcfgFeGetTr181NameParm]
  cases hsplit : splitLastDot name with
  | none => simp only [Except.map, seenName, hnil]
  | some r =>
      obtain ⟨front, parm⟩ := r
      simp only
      split
      · rfl
      · cases hpart : copiedPart name front with
        | none => rfl
        | some part =>
            have hobj : objPart name = part := by simp [objPart, hsplit, hpart]
            rw [CopyClean, hobj] at hclean
            simp only
            split
            · rfl
            · rename_i hshort
              have hzero : (List.replicate tr181ObjNameSize nul)[part.length]? = some nul :=
                List.getElem?_replicate_of_lt (by omega)
              have hzeros : 0 < (List.replicate tr181ObjNameSize nul).length := by
                simp [tr181ObjNameSize]
              have hfix := fixInterface_congr ipIface parm
                ((stringOf_copied hpos hclean).trans (stringOf_copied hzeros (.inr hzero)).symm)
              rw [seenName_map, seenName_map, hfix]

theorem length_zcfgFeGetTr181NameParm {ipIface : UInt8 → Option (List Char)} {name buf : List Char}
    {r : ZcfgRet × List Char × List Char}
    (hlen : buf.length = tr181ObjNameSize)
    (h : zcfgFeGetTr181NameParm ipIface name buf = .ok r) : r.2.1.length = tr181ObjNameSize := by
  have hfirst : (writeAt buf 0 [nul]).length = tr181ObjNameSize := by
    rw [length_writeAt (by rw [hlen]; decide), hlen]
  rw [zcfgFeGetTr181NameParm] at h
  split at h
  · cases h
    exact hfirst
  · split at h
    · cases h
    · split at h
      · cases h
      · split at h
        · cases h
        · rename_i part _ hshort
          cases hfix : fixInterface ipIface (writeAt (writeAt buf 0 [nul]) 0 part) _ with
          | error stop =>
              rw [hfix] at h
              cases h
          | ok r' =>
              rw [hfix] at h
              cases h
              apply length_fixInterface _ hfix
              rw [length_writeAt (by omega), hfirst]

/-! ## Writing a name over a used buffer -/

/-- The last level and the characters that {lit}`seqnumToNameLoop` has to write. -/
def numbered (objIid : ObjIndex) : Nat → Option Char → Nat → List Char → Nat × List Char
  | 0, _, level, _ => (level, [])
  | _, _, level, [] => (level, [])
  | n + 1, prev, level, c :: rest =>
      if level < supportedIndexLevel ∧ isPlaceholder prev c rest = true then
        let r := numbered objIid n (some c) (level + 1) rest
        (r.1, decimal (objIid.idx.getD level 0).toNat ++ r.2)
      else
        let r := numbered objIid n (some c) level rest
        (r.1, c :: r.2)

/-- A number lands at a position of a buffer: the string there ends at the position or has the digits
already, and they fit in behind the string, where {lit}`strcat` puts them. -/
def landsAt (buf : List Char) (len : Nat) (instNumStr : List Char) : Bool :=
  instNumStr.isPrefixOf ((stringOf buf).drop len ++ instNumStr) &&
    decide ((stringOf buf).length + instNumStr.length < buf.length)

/-- Every number of a name lands at its position. -/
def numbersLand (objIid : ObjIndex) :
    Nat → Option Char → Nat → Nat → List Char → List Char → Bool
  | 0, _, _, _, _, _ => true
  | _, _, _, _, _, [] => true
  | n + 1, prev, level, len, buf, c :: rest =>
      if level < supportedIndexLevel ∧ isPlaceholder prev c rest = true then
        let instNumStr := decimal (objIid.idx.getD level 0).toNat
        landsAt buf len instNumStr &&
          numbersLand objIid n (some c) (level + 1) (len + instNumStr.length)
            (strcat buf instNumStr) rest
      else numbersLand objIid n (some c) level (len + 1) (writeAt buf len [c]) rest

/-- Appending a number that lands. -/
theorem take_strcat_of_lands {out buf ds : List Char} (hout : nul ∉ out)
    (htake : buf.take out.length = out)
    (hlands : landsAt buf out.length ds = true) :
    (strcat buf ds).take (out ++ ds).length = out ++ ds ∧ (strcat buf ds).length = buf.length := by
  rw [landsAt, Bool.and_eq_true, decide_eq_true_eq, List.isPrefixOf_iff_prefix] at hlands
  obtain ⟨hpre, hfits⟩ := hlands
  have hstr : (buf.takeWhile (· ≠ nul)) = stringOf buf := rfl
  have hbuf : buf.take (stringOf buf).length = stringOf buf :=
    (List.prefix_iff_eq_take.mp (List.takeWhile_prefix _)).symm
  have hle : out.length ≤ (stringOf buf).length := by
    have hsplit : buf = out ++ buf.drop out.length := by
      conv_lhs => rw [← List.take_append_drop out.length buf, htake]
    have hfront : stringOf buf = out ++ stringOf (buf.drop out.length) := by
      conv_lhs => rw [hsplit]
      rw [stringOf, List.takeWhile_append_of_pos]
      · rfl
      · intro c hc
        simpa using fun heq : c = nul => hout (heq ▸ hc)
    rw [hfront, List.length_append]
    omega
  have hfront : stringOf buf = out ++ (stringOf buf).drop out.length := by
    have htwo : (stringOf buf).take out.length = out := by
      rw [← hbuf, List.take_take, Nat.min_eq_left hle, htake]
    conv_lhs => rw [← List.take_append_drop out.length (stringOf buf), htwo]
  rw [strcat, hstr]
  refine ⟨?_, length_writeAt (by simp only [List.length_append, List.length_singleton]; omega)⟩
  rw [writeAt, hbuf, ← List.append_assoc, List.append_assoc _ [nul], List.take_append_of_le_length
    (by simp only [List.length_append]; omega)]
  conv_lhs => rw [hfront]
  rw [List.append_assoc, List.length_append, List.take_length_add_append]
  congr 1
  exact (List.prefix_iff_eq_take.mp hpre).symm

/-- Over any buffer the name is written as into zeros, if the numbers land. -/
theorem seqnumToNameLoop_lands (objIid : ObjIndex) :
    ∀ (rest : List Char) (n : Nat) (prev : Option Char) (level : Nat) (out buf : List Char),
      nul ∉ out →
      nul ∉ rest →
      buf.take out.length = out →
      (out ++ (numbered objIid n prev level rest).2).length < buf.length →
      numbersLand objIid n prev level out.length buf rest = true →
      ∃ buf', seqnumToNameLoop objIid n prev level out.length buf rest =
          ((numbered objIid n prev level rest).1,
            (out ++ (numbered objIid n prev level rest).2).length, buf') ∧
        buf'.take (out ++ (numbered objIid n prev level rest).2).length =
          out ++ (numbered objIid n prev level rest).2 ∧
        buf'.length = buf.length := by
  intro rest
  induction rest with
  | nil =>
      intro n prev level out buf _ _ htake _ _
      refine ⟨buf, ?_⟩
      cases n <;> simpa [seqnumToNameLoop, numbered] using htake
  | cons c rest ih =>
      intro n prev level out buf hout hrest htake hfits hlands
      cases n with
      | zero => exact ⟨buf, by simpa [seqnumToNameLoop, numbered] using htake⟩
      | succ n =>
          rw [List.mem_cons, not_or] at hrest
          simp only [numbered, numbersLand, seqnumToNameLoop] at hfits hlands ⊢
          split
          · rename_i hplace
            rw [if_pos hplace, Bool.and_eq_true] at hlands
            rw [if_pos hplace] at hfits
            obtain ⟨hstr, hlen⟩ := take_strcat_of_lands hout htake hlands.1
            have hout' : nul ∉ out ++ decimal (objIid.idx.getD level 0).toNat := by
              simp [hout, nul_notMem_decimal]
            simp only at hfits ⊢
            rw [← List.append_assoc] at hfits ⊢
            rw [← List.length_append] at hlands ⊢
            rw [← hlen] at hfits
            obtain ⟨buf', hloop, htake', hlen'⟩ :=
              ih n (some c) (level + 1) _ _ hout' hrest.2 hstr hfits hlands.2
            exact ⟨buf', hloop, htake', hlen'.trans hlen⟩
          · rename_i hplace
            rw [if_neg hplace] at hlands hfits
            have hout' : nul ∉ out ++ [c] := by simp [hout, hrest.1]
            simp only at hfits ⊢
            rw [List.append_cons] at hfits ⊢
            have hlt : out.length + 1 ≤ buf.length := by
              rw [List.length_append, List.length_append, List.length_singleton] at hfits
              omega
            have hwrite : (writeAt buf out.length [c]).length = buf.length := length_writeAt hlt
            have hstr : (writeAt buf out.length [c]).take (out ++ [c]).length = out ++ [c] := by
              rw [writeAt, htake, List.take_left]
            rw [← hwrite] at hfits
            have hone : out.length + 1 = (out ++ [c]).length := by simp
            rw [hone] at hlands ⊢
            obtain ⟨buf', hloop, htake', hlen'⟩ :=
              ih n (some c) level _ _ hout' hrest.2 hstr hfits hlands
            exact ⟨buf', hloop, htake', hlen'.trans hwrite⟩

/-- Into zeros the name is written whether it fits or not. -/
theorem seqnumToNameLoop_zeros (objIid : ObjIndex) :
    ∀ (rest : List Char) (n : Nat) (prev : Option Char) (level : Nat) (out : List Char) (m : Nat),
      nul ∉ out →
      nul ∉ rest →
      ∃ k, seqnumToNameLoop objIid n prev level out.length (out ++ List.replicate m nul) rest =
        ((numbered objIid n prev level rest).1,
          (out ++ (numbered objIid n prev level rest).2).length,
          (out ++ (numbered objIid n prev level rest).2) ++ List.replicate k nul) := by
  intro rest
  induction rest with
  | nil =>
      intro n prev level out m _ _
      exact ⟨m, by cases n <;> simp [seqnumToNameLoop, numbered]⟩
  | cons c rest ih =>
      intro n prev level out m hout hrest
      cases n with
      | zero => exact ⟨m, by simp [seqnumToNameLoop, numbered]⟩
      | succ n =>
          rw [List.mem_cons, not_or] at hrest
          simp only [numbered, seqnumToNameLoop]
          split
          · have hout' : nul ∉ out ++ decimal (objIid.idx.getD level 0).toNat := by
              simp [hout, nul_notMem_decimal]
            rw [strcat, takeWhile_zeros hout, writeAt_zeros, ← List.append_assoc, List.append_assoc _ [nul],
              List.singleton_append, ← List.replicate_succ, ← List.length_append, ← List.append_assoc]
            exact ih n (some c) (level + 1) _ _ hout' hrest.2
          · have hout' : nul ∉ out ++ [c] := by simp [hout, hrest.1]
            have hone : out.length + 1 = (out ++ [c]).length := by simp
            have hcons := List.append_cons out c (numbered objIid n (some c) level rest).2
            simp only [hcons]
            rw [writeAt_zeros, hone]
            exact ih n (some c) level _ _ hout' hrest.2

theorem nul_notMem_numbered (objIid : ObjIndex) :
    ∀ (rest : List Char) (n : Nat) (prev : Option Char) (level : Nat),
      nul ∉ rest →
      nul ∉ (numbered objIid n prev level rest).2 := by
  intro rest
  induction rest with
  | nil =>
      intro n prev level _
      cases n <;> simp [numbered]
  | cons c rest ih =>
      intro n prev level hrest
      rw [List.mem_cons, not_or] at hrest
      cases n with
      | zero => simp [numbered]
      | succ n =>
          simp only [numbered]
          split
          · simp [nul_notMem_decimal, ih _ _ _ hrest.2]
          · simp [hrest.1, ih _ _ _ hrest.2]

theorem stringOf_terminated {buf out : List Char} (hout : nul ∉ out)
    (htake : buf.take out.length = out) : stringOf (writeAt buf out.length [nul]) = out := by
  rw [writeAt, htake, List.append_assoc, List.singleton_append, stringOf_append_nul, stringOf,
    List.takeWhile_eq_self_iff]
  intro c hc
  simpa using fun heq : c = nul => hout (heq ▸ hc)

/-- Whether the numbers of an instance's name land in a buffer. -/
def nameLands (table : NameTable) (seqnum : Nat) (objIid : ObjIndex) (buf : List Char) : Bool :=
  match table[arraySeqnum seqnum]? with
  | none => true
  | some name => numbersLand objIid (tr98MaxObjNameLength - 1) none 0 0 buf name

/-- What is seen of a written name: the result, the string and whether it fits in. -/
theorem zcfgFe98SeqnumToName_lands {table : NameTable} (hnul : ∀ name ∈ table, nul ∉ name)
    {seqnum : Nat} {objIid : ObjIndex} {buf : List Char}
    (hlen : buf.length = tr98MaxObjNameLength)
    (hlands : nameLands table seqnum objIid buf = true)
    (hfits : (zcfgFe98SeqnumToName table seqnum objIid
      (List.replicate tr98MaxObjNameLength nul)).2.length ≤ tr98MaxObjNameLength) :
    (zcfgFe98SeqnumToName table seqnum objIid buf).2.length = tr98MaxObjNameLength ∧
    (zcfgFe98SeqnumToName table seqnum objIid buf).1 =
      (zcfgFe98SeqnumToName table seqnum objIid (List.replicate tr98MaxObjNameLength nul)).1 ∧
    ((zcfgFe98SeqnumToName table seqnum objIid buf).1 = .success →
      stringOf (zcfgFe98SeqnumToName table seqnum objIid buf).2 =
        stringOf (zcfgFe98SeqnumToName table seqnum objIid
          (List.replicate tr98MaxObjNameLength nul)).2) := by
  rw [zcfgFe98SeqnumToName, zcfgFe98SeqnumToName] at *
  split
  · exact ⟨hlen, rfl, fun h => by cases h⟩
  · rename_i hright
    rw [if_neg hright] at hfits
    cases hname : table[arraySeqnum seqnum]? with
    | none => exact ⟨hlen, rfl, fun h => by cases h⟩
    | some name =>
        rw [hname] at hfits
        rw [nameLands, hname] at hlands
        have hnul' := hnul name (List.mem_of_getElem? hname)
        obtain ⟨k, hzeros⟩ := seqnumToNameLoop_zeros objIid name (tr98MaxObjNameLength - 1) none 0 []
          tr98MaxObjNameLength (by simp) hnul'
        rw [List.nil_append, List.length_nil, List.nil_append] at hzeros
        have hclean := nul_notMem_numbered objIid name (tr98MaxObjNameLength - 1) none 0 hnul'
        simp only [hzeros] at hfits ⊢
        have hshort : (numbered objIid (tr98MaxObjNameLength - 1) none 0 name).2.length <
            tr98MaxObjNameLength := by
          split at hfits
          all_goals
            rw [writeAt_zeros] at hfits
            simp only [List.length_append, List.length_singleton] at hfits
            omega
        obtain ⟨buf', hloop, htake, hlen'⟩ := seqnumToNameLoop_lands objIid name
          (tr98MaxObjNameLength - 1) none 0 [] buf (by simp) hnul' rfl
          (by rw [List.nil_append, hlen]; exact hshort) hlands
        rw [List.nil_append] at htake
        rw [List.nil_append, List.length_nil] at hloop
        simp only [hloop]
        have hwrite : (writeAt buf' (numbered objIid (tr98MaxObjNameLength - 1) none 0
            name).2.length [nul]).length = tr98MaxObjNameLength := by
          rw [length_writeAt (by simp only [List.length_singleton]; omega), hlen', hlen]
        have hstring := stringOf_terminated hclean htake
        have hstringZeros := stringOf_terminated hclean
          (@List.take_left _ _ (List.replicate k nul))
        split
        · exact ⟨hwrite, rfl, fun h => by cases h⟩
        · exact ⟨hwrite, rfl, fun _ => hstring.trans hstringZeros.symm⟩

/-! ## Rounds -/

/-- Whether the numbers of the name mapped to a TR-181 object land in a buffer. -/
def mappedLands (env : NotifyEnv) (objName buf : List Char) : Bool :=
  match zcfgFeObjNameToObjId env.schema objName with
  | (none, _) => true
  | (some oid, tr181ObjIid) =>
      match env.mapping oid tr181ObjIid with
      | none => true
      | some (seqnum, objIid) => nameLands env.table seqnum objIid buf

/-- A round finds the object name clean and writes every number of the TR-098 name into its place. -/
def roundClean (env : NotifyEnv) (st : NotifyState) (notifyName : List Char) : Bool :=
  decide (CopyClean st.tr181ObjName notifyName) &&
    match zcfgFeGetTr181NameParm env.ipIface notifyName st.tr181ObjName with
    | .error _ => true
    | .ok (_, objName, _) => mappedLands env (stringOf objName) st.tr98ObjName

/-- The sizes of the buffers. -/
structure NotifyState.Sized (st : NotifyState) : Prop where
  tr98 : st.tr98ObjName.length = tr98MaxObjNameLength
  tr181 : st.tr181ObjName.length = tr181ObjNameSize

theorem NotifyState.init_sized : NotifyState.init.Sized where
  tr98 := List.length_replicate
  tr181 := List.length_replicate

/-- The mapped name written over a buffer in which its numbers land. -/
theorem zcfgFe181To98ObjMappingNameGet_lands {env : NotifyEnv} {objName buf : List Char}
    {ret : ZcfgRet} {zeroBuf : List Char}
    (hlen : buf.length = tr98MaxObjNameLength)
    (hlands : mappedLands env objName buf = true)
    (hzero : zcfgFe181To98ObjMappingNameGet env objName (List.replicate tr98MaxObjNameLength nul) =
      .ok (ret, zeroBuf)) :
    ∃ buf', zcfgFe181To98ObjMappingNameGet env objName buf = .ok (ret, buf') ∧
      buf'.length = tr98MaxObjNameLength ∧
      (ret = .success → stringOf buf' = stringOf zeroBuf) := by
  rw [zcfgFe181To98ObjMappingNameGet] at hzero ⊢
  rw [mappedLands] at hlands
  cases hoid : zcfgFeObjNameToObjId env.schema objName with
  | mk found tr181ObjIid =>
      rw [hoid] at hzero hlands
      cases found with
      | none =>
          cases hzero
          exact ⟨buf, rfl, hlen, fun h => by cases h⟩
      | some oid =>
          simp only at hzero hlands ⊢
          cases hmap : env.mapping oid tr181ObjIid with
          | none =>
              rw [hmap] at hzero
              cases hzero
              exact ⟨buf, rfl, hlen, fun h => by cases h⟩
          | some r =>
              obtain ⟨seqnum, objIid⟩ := r
              rw [hmap] at hzero hlands
              simp only [List.length_replicate] at hzero hlands ⊢
              split at hzero
              · cases hzero
              · rename_i hshort
                have hresult := Except.ok.inj hzero
                obtain ⟨hlen', hsame, hstring⟩ := zcfgFe98SeqnumToName_lands env.nulless hlen
                  hlands (Nat.le_of_not_lt hshort)
                rw [hresult] at hsame hstring
                rw [if_neg (by omega)]
                refine ⟨(zcfgFe98SeqnumToName env.table seqnum objIid buf).2, ?_, hlen', fun h => ?_⟩
                · exact congrArg Except.ok (Prod.ext hsame rfl)
                · exact hstring (hsame.trans h)

/-- Two results that look the same. -/
theorem ok_of_map_eq {ε α β : Type} {x : Except ε α} {a : α} {f : α → β}
    (h : x.map f = (Except.ok a : Except ε α).map f) : ∃ b, x = .ok b ∧ f b = f a := by
  cases x with
  | error e => cases h
  | ok b => exact ⟨b, rfl, Except.ok.inj h⟩

variable {V : Type}

/-- A clean round sends what the entry sends alone. -/
theorem notifyRound_alone {env : NotifyEnv} {st st₁ : NotifyState} {name : List Char} {val : V}
    {sent : List (Sent V)}
    (hdevice : deviceDot.isPrefixOf name = true)
    (hsized : st.Sized)
    (hclean : roundClean env st name = true)
    (halone : notifyRound env NotifyState.init name val = .ok (st₁, sent)) :
    ∃ st', notifyRound env st name val = .ok (st', sent) ∧ st'.Sized := by
  have hprefix : device.isPrefixOf name = true := by
    rw [List.isPrefixOf_iff_prefix] at hdevice ⊢
    exact (List.prefix_append device ['.']).trans hdevice
  rw [roundClean, Bool.and_eq_true, decide_eq_true_eq] at hclean
  have hsame := zcfgFeGetTr181NameParm_clean env.ipIface hsized.tr181 hclean.1
  have hinit : NotifyState.init.tr181ObjName = List.replicate tr181ObjNameSize nul := rfl
  have hinit' : NotifyState.init.tr98ObjName = List.replicate tr98MaxObjNameLength nul := rfl
  rw [notifyRound, if_pos hprefix, hinit, hinit'] at halone
  rw [notifyRound, if_pos hprefix]
  cases hzero : zcfgFeGetTr181NameParm env.ipIface name (List.replicate tr181ObjNameSize nul) with
  | error stop =>
      rw [hzero] at halone
      cases halone
  | ok r₁ =>
      rw [hzero] at hsame halone
      obtain ⟨r, hread, hseen⟩ := ok_of_map_eq hsame
      obtain ⟨ret, objName, parm⟩ := r
      obtain ⟨ret₁, objName₁, parm₁⟩ := r₁
      simp only [seenName, Prod.mk.injEq] at hseen
      obtain ⟨rfl, hstring, rfl⟩ := hseen
      have hlen := length_zcfgFeGetTr181NameParm hsized.tr181 hread
      have hlands : mappedLands env (stringOf objName) st.tr98ObjName = true := by
        have hsecond := hclean.2
        rwa [hread] at hsecond
      simp only [hread] at halone ⊢
      by_cases hret : ret = .success
      · subst hret
        rw [if_neg (by simp)] at halone ⊢
        rw [← hstring] at halone
        cases hmap : zcfgFe181To98ObjMappingNameGet env (stringOf objName)
            (List.replicate tr98MaxObjNameLength nul) with
        | error stop =>
            rw [hmap] at halone
            cases halone
        | ok r₂ =>
            obtain ⟨ret₂, zeroBuf⟩ := r₂
            obtain ⟨buf', hwrite, hlen', hstring'⟩ := zcfgFe181To98ObjMappingNameGet_lands
              hsized.tr98 hlands hmap
            simp only [hmap] at halone
            simp only [hwrite]
            by_cases hret₂ : ret₂ = .success
            · rw [if_neg (by simpa using hret₂)] at halone ⊢
              rw [hstring' hret₂]
              cases hcall : callHandler env (stringOf zeroBuf) parm val with
              | error stop =>
                  rw [hcall] at halone
                  cases halone
              | ok sent' =>
                  rw [hcall] at halone
                  cases halone
                  exact ⟨_, rfl, ⟨hlen', hlen⟩⟩
            · rw [if_pos hret₂] at halone ⊢
              cases halone
              exact ⟨_, rfl, ⟨hlen', hlen⟩⟩
      · rw [if_pos hret] at halone ⊢
        cases halone
        exact ⟨_, rfl, ⟨hsized.tr98, hlen⟩⟩

/-! ## Whole lists -/

/-- Every round finds its buffers clean. -/
def undisturbed (env : NotifyEnv) : NotifyState → List (List Char × V) → Bool
  | _, [] => true
  | st, entry :: rest =>
      roundClean env st entry.1 &&
        match notifyRound env st entry.1 entry.2 with
        | .error _ => true
        | .ok (st', _) => undisturbed env st' rest

/-- What an entry sends alone. -/
def sentAlone (env : NotifyEnv) (entry : List Char × V) : List (Sent V) :=
  match zcfgFeTr98Notify env [entry] with
  | .error _ => []
  | .ok sent => sent

theorem notify_singleton {env : NotifyEnv} {entry : List Char × V} {sent : List (Sent V)}
    (h : zcfgFeTr98Notify env [entry] = .ok sent) :
    ∃ st', notifyRound env NotifyState.init entry.1 entry.2 = .ok (st', sent) := by
  rw [zcfgFeTr98Notify, notifyLoop] at h
  cases hround : notifyRound env NotifyState.init entry.1 entry.2 with
  | error stop =>
      rw [hround] at h
      cases h
  | ok r =>
      rw [hround] at h
      simp only [notifyLoop, Except.map, List.append_nil] at h
      cases h
      exact ⟨_, rfl⟩

/-- Rounds that all start clean send what the entries send alone. -/
theorem notifyLoop_alone {env : NotifyEnv} :
    ∀ (entries : List (List Char × V)) (st : NotifyState),
      st.Sized →
      (∀ entry ∈ entries, deviceDot.isPrefixOf entry.1 = true) →
      (∀ entry ∈ entries, ∃ sent, zcfgFeTr98Notify env [entry] = .ok sent) →
      undisturbed env st entries = true →
      notifyLoop env st entries = .ok (entries.flatMap (sentAlone env)) := by
  intro entries
  induction entries with
  | nil =>
      intro st _ _ _ _
      rfl
  | cons entry rest ih =>
      intro st hsized hdevice hok hclean
      rw [undisturbed, Bool.and_eq_true] at hclean
      obtain ⟨sent, hsent⟩ := hok entry List.mem_cons_self
      obtain ⟨st₁, hround₁⟩ := notify_singleton hsent
      obtain ⟨st', hround, hsized'⟩ :=
        notifyRound_alone (hdevice entry List.mem_cons_self) hsized hclean.1 hround₁
      rw [hround] at hclean
      have hrest := ih st' hsized' (fun e he => hdevice e (List.mem_cons_of_mem entry he))
        (fun e he => hok e (List.mem_cons_of_mem entry he)) hclean.2
      have halone : sentAlone env entry = sent := by rw [sentAlone, hsent]
      rw [notifyLoop, hround]
      simp only [hrest, Except.map, List.flatMap_cons, halone]

/-- If in no round a longer object name of an earlier one goes on behind the name, and no number is
appended behind the place where it belongs, then the call passes to the handlers what the calls
with one entry each do, in whatever order the entries come. -/
theorem notify_sameSent (env : NotifyEnv) (entries : List (List Char × V))
    (hdevice : ∀ entry ∈ entries, deviceDot.isPrefixOf entry.1 = true)
    (hok : ∀ entry ∈ entries, ∃ sent, zcfgFeTr98Notify env [entry] = .ok sent) :
    ∀ order, order.Perm entries → undisturbed env NotifyState.init order = true →
      ∃ sent, zcfgFeTr98Notify env order = .ok sent ∧
        ∀ triple, triple ∈ sent ↔
          ∃ entry ∈ entries, ∃ sent', zcfgFeTr98Notify env [entry] = .ok sent' ∧ triple ∈ sent' := by
  intro order hperm hclean
  refine ⟨_, notifyLoop_alone order NotifyState.init NotifyState.init_sized
    (fun e he => hdevice e (hperm.mem_iff.mp he)) (fun e he => hok e (hperm.mem_iff.mp he)) hclean, ?_⟩
  intro triple
  rw [List.mem_flatMap]
  constructor
  · rintro ⟨entry, hentry, htriple⟩
    have hentry' := hperm.mem_iff.mp hentry
    obtain ⟨sent, hsent⟩ := hok entry hentry'
    rw [sentAlone, hsent] at htriple
    exact ⟨entry, hentry', sent, hsent, htriple⟩
  · rintro ⟨entry, hentry, sent, hsent, htriple⟩
    refine ⟨entry, hperm.mem_iff.mpr hentry, ?_⟩
    rw [sentAlone, hsent]
    exact htriple

/-- TR-181 has one object {lit}`Device.A.i`, which is mapped to {lit}`X.i`. -/
def smallEnv : NotifyEnv where
  table := smallTable
  nulless := by decide
  notifies := fun _ => true
  schema := [{ name := "Device.A.i".toList, count := 0 }]
  mapping := fun _ objIid => some (eTr98Start, objIid)
  ipIface := fun _ => none
  parmMapping := fun _ => .ok []

/-- Two parameters of one instance. -/
theorem notify_sameSent_small :
    ∃ sent, zcfgFeTr98Notify smallEnv [("Device.A.1.P".toList, 5), ("Device.A.1.Q".toList, 6)] =
        .ok sent ∧
      ("X.1".toList, "P".toList, 5) ∈ sent := by
  have hok : ∀ entry ∈ [("Device.A.1.P".toList, 5), ("Device.A.1.Q".toList, 6)],
      ∃ sent, zcfgFeTr98Notify smallEnv [entry] = .ok sent := by
    intro entry hentry
    simp only [List.mem_cons, List.not_mem_nil, or_false] at hentry
    rcases hentry with rfl | rfl
    · exact ⟨[("X.1".toList, "P".toList, 5)], by decide +kernel⟩
    · exact ⟨[("X.1".toList, "Q".toList, 6)], by decide +kernel⟩
  obtain ⟨sent, hsent, hsame⟩ := notify_sameSent smallEnv
    [("Device.A.1.P".toList, 5), ("Device.A.1.Q".toList, 6)] (by decide) hok _ (List.Perm.refl _)
    (by decide +kernel)
  refine ⟨sent, hsent, (hsame _).mpr ?_⟩
  exact ⟨_, List.mem_cons_self, [("X.1".toList, "P".toList, 5)], by decide +kernel,
    List.mem_cons_self⟩

/-- The second instance is sent under the name of the first, and for an object that is not there an
instance is named because of the longer name before. -/
theorem notify_sameSent_fails :
    zcfgFeTr98Notify smallEnv [("Device.A.1.P".toList, 5), ("Device.A.2.P".toList, 6)] =
      .ok [("X.1".toList, "P".toList, 5), ("X.1".toList, "P".toList, 6)] ∧
    zcfgFeTr98Notify smallEnv [("Device.A.2.P".toList, 6)] = .ok [("X.2".toList, "P".toList, 6)] ∧
    zcfgFeTr98Notify smallEnv [("Device.A.2.P".toList, 6), ("Device.A.1.P".toList, 5)] =
      .ok [("X.2".toList, "P".toList, 6), ("X.2".toList, "P".toList, 5)] ∧
    zcfgFeTr98Notify smallEnv [("Device.A.1.P".toList, 5), ("Device.A.Q".toList, 7)] =
      .ok [("X.1".toList, "P".toList, 5), ("X.1".toList, "Q".toList, 7)] ∧
    zcfgFeTr98Notify smallEnv [("Device.A.Q".toList, 7)] = .ok [] := by
  refine ⟨?_, ?_, ?_, ?_, ?_⟩
  all_goals decide +kernel

end FeTr98
end ZyxelRouter
