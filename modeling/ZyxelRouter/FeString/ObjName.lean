import Mathlib.Data.List.Basic
import Mathlib.Data.List.GetD
import ZyxelRouter.Lib.Bytes
import ZyxelRouter.Lib.Decimal
import ZyxelRouter.ZcfgCommon

/-!
# Object names

The schema has an object name with placeholders for every object.  {lit}`zcfgFeObjIdToName` puts
the indices of an instance in place of the placeholders; {lit}`zcfgFeObjNameToObjId` takes the
indices out of a path again and looks for the name in the schema.

Main results:

- Theorem {lit}`zcfgFeObjIdToName_eq`: the name that is written.
- Theorem {lit}`zcfgFeObjNameToObjId_eq`: what is made of a path.
- Theorem {lit}`name_roundTrip_iff`: when a name is resolved to the object and the indices it was
  written for.
-/

namespace ZyxelRouter
namespace FeString

open Lib

/-! ## The schema in shared memory -/

/-- The fields of {lit}`objInfo_t` used here: the name it points to and the number of parameters. -/
structure ObjInfo where
  name : List Char
  count : Nat
deriving DecidableEq, Repr

/-- The objects in the order they are packed; the parameters of an object are behind it. -/
abbrev Schema := List ObjInfo

/-- {lit}`sizeof(objInfo_t) + count * sizeof(parameterInfo_t)`. -/
def ObjInfo.size (objInfo : ObjInfo) : Nat :=
  56 + objInfo.count * 40

/-- {lit}`schemaShmSize`. -/
def shmSize (schema : Schema) : Nat :=
  (schema.map ObjInfo.size).sum

/-- {lit}`GET_OBJ_INFO_BY_OID`, if there is an object at the offset. -/
def objInfoByOid : Schema → Nat → Option ObjInfo
  | [], _ => none
  | objInfo :: rest, oid =>
      if oid = 0 then some objInfo
      else if oid < objInfo.size then none
      else objInfoByOid rest (oid - objInfo.size)

/-- The object id of the {lit}`n`th object. -/
def oidOf (schema : Schema) (n : Nat) : Nat :=
  shmSize (schema.take n)

/-! ## From names to object ids -/

/-- The state of the loop over the tokens: the path so far, {lit}`level`, and {lit}`idx`. -/
structure NameState where
  fullPathName : List Char
  level : UInt8
  idx : List UInt8
deriving DecidableEq, Repr

/-- The loop over the characters of a token, whose length is a {lit}`uint16_t`. -/
def allDigits (token : List Char) : Bool :=
  (token.take (token.length % 65536)).all Char.isDigit

/-- What is stored of a number in one byte. -/
def idxOf (token : List Char) : UInt8 :=
  UInt8.ofNat (atoi token % 256).toNat

/-- One token of the path. -/
def nameStep (st : NameState) (token : List Char) : NameState :=
  if allDigits token then
    { fullPathName := st.fullPathName ++ ['.', 'i']
      level := st.level + 1
      idx := if st.level.toNat < supportedIndexLevel then st.idx.set st.level.toNat (idxOf token)
        else st.idx }
  else { st with fullPathName := st.fullPathName ++ '.' :: token }

/-- What {lit}`strtok_r` with {lit}`"."` delivers. -/
def tokens (name : List Char) : List (List Char) :=
  (name.splitOn '.').filter (· ≠ [])

/-- {lit}`"Device"`. -/
def device : List Char := ['D', 'e', 'v', 'i', 'c', 'e']

/-- {lit}`tmpName`: the path, with {lit}`"Device."` in front if it is not there. -/
def tmpName (objName : List Char) : List Char :=
  if (device ++ ['.']).isPrefixOf objName || objName == device then objName
  else device ++ '.' :: objName

/-- The loops over a path. -/
def pathState (objName : List Char) : NameState :=
  match tokens (tmpName objName) with
  | [] => { fullPathName := [], level := 0, idx := ObjIndex.zero.idx }
  | token :: rest =>
      rest.foldl nameStep { fullPathName := token, level := 0, idx := ObjIndex.zero.idx }

/-- The walk over the schema. -/
def findOid (fullPathName : List Char) : Schema → Nat → Option Nat
  | [], _ => none
  | objInfo :: rest, oid =>
      if fullPathName = objInfo.name then some oid
      else findOid fullPathName rest (oid + objInfo.size)

theorem length_idx_nameStep (st : NameState) (token : List Char) :
    (nameStep st token).idx.length = st.idx.length := by
  simp only [nameStep]
  split
  · simp only
    split
    · exact List.length_set
    · rfl
  · rfl

theorem length_idx_foldl (ts : List (List Char)) (st : NameState) :
    (ts.foldl nameStep st).idx.length = st.idx.length := by
  induction ts generalizing st with
  | nil => rfl
  | cons t ts ih => rw [List.foldl_cons, ih, length_idx_nameStep]

theorem length_idx_pathState (objName : List Char) :
    (pathState objName).idx.length = supportedIndexLevel := by
  rw [pathState]
  split
  · exact ObjIndex.zero.idx_length
  · rw [length_idx_foldl]
    exact ObjIndex.zero.idx_length

/-- {lit}`zcfgFeObjNameToObjId`: the object id or {lit}`ZCFG_NO_SUCH_OBJECT`, and what is left in
{lit}`objIid`. -/
def zcfgFeObjNameToObjId (schema : Schema) (objName : List Char) : Option Nat × ObjIndex :=
  if objName = [] then (none, ObjIndex.zero)
  else
    let st := pathState objName
    let idx : ObjIndex :=
      { level := 0, idx := st.idx, idx_length := length_idx_pathState objName }
    if supportedIndexLevel ≤ st.level.toNat then (none, idx)
    else (findOid st.fullPathName schema 0, { idx with level := st.level })

/-! ## From object ids to names -/

/-- The terminator of a string. -/
def nul : Char := Char.ofNat 0

/-- {lit}`strcat` into a buffer. -/
def strcat (buf str : List Char) : List Char :=
  writeAt buf (buf.takeWhile (· ≠ nul)).length (str ++ [nul])

/-- The test for a placeholder: an {lit}`i` between a dot and a dot or the end. -/
def isPlaceholder (prev : Option Char) (c : Char) (rest : List Char) : Bool :=
  c = 'i' && prev = some '.' && (rest.head? = some '.' || rest = [])

/-- The loop of {lit}`zcfgFeObjIdToName` over the characters that are left, with the one in front of
them, {lit}`level`, {lit}`objNameLen` and the buffer. -/
def idToNameLoop (objIid : ObjIndex) :
    Option Char → Nat → Nat → List Char → List Char → Nat × List Char
  | _, _, objNameLen, objName, [] => (objNameLen, objName)
  | prev, level, objNameLen, objName, c :: rest =>
      if isPlaceholder prev c rest then
        let instNumStr := decimal (objIid.idx.getD level 0).toNat
        idToNameLoop objIid (some c) (level + 1) (objNameLen + instNumStr.length)
          (strcat objName instNumStr) rest
      else
        idToNameLoop objIid (some c) level (objNameLen + 1) (writeAt objName objNameLen [c]) rest

/-- {lit}`zcfgFeObjIdToName`: the result and the buffer.  An offset inside of an object, for which
the source reads whatever is there, counts as no object. -/
def zcfgFeObjIdToName (schema : Schema) (oid : Nat) (objIid : ObjIndex) (objName : List Char) :
    ZcfgRet × List Char :=
  if shmSize schema < oid then (.noSuchObject, objName)
  else
    match objInfoByOid schema oid with
    | none => (.noSuchObject, objName)
    | some objInfo =>
        if 256 ≤ objInfo.name.length then (.internalError, objName)
        else
          let (objNameLen, buf) := idToNameLoop objIid none 0 0 objName objInfo.name
          (.success, writeAt buf objNameLen [nul])

/-- The string in a buffer. -/
def stringOf (buf : List Char) : List Char :=
  buf.takeWhile (· ≠ nul)

/-! ## What is written -/

/-- The characters that the loop writes. -/
def expand (objIid : ObjIndex) : Option Char → Nat → List Char → List Char
  | _, _, [] => []
  | prev, level, c :: rest =>
      if isPlaceholder prev c rest then
        decimal (objIid.idx.getD level 0).toNat ++ expand objIid (some c) (level + 1) rest
      else c :: expand objIid (some c) level rest

/-- Writing into the zeros behind a string. -/
theorem writeAt_zeros (out str : List Char) (m : Nat) :
    writeAt (out ++ List.replicate m nul) out.length str =
      (out ++ str) ++ List.replicate (m - str.length) nul :=
  writeAt_append_replicate out str m nul

theorem takeWhile_zeros {out : List Char} (hout : nul ∉ out) (m : Nat) :
    (out ++ List.replicate m nul).takeWhile (· ≠ nul) = out := by
  rw [List.takeWhile_append_of_pos]
  · cases m <;> simp [List.replicate_succ]
  · intro c hc
    have hne : c ≠ nul := fun heq => hout (heq ▸ hc)
    simpa using hne

theorem nul_notMem_decimal (n : Nat) : nul ∉ decimal n := by
  intro h
  exact absurd (isDigit_of_mem_decimal h) (by decide)

/-- With zeros behind what is written so far, {lit}`strcat` and the single characters go on
together. -/
theorem idToNameLoop_eq (objIid : ObjIndex) :
    ∀ (rest : List Char) (prev : Option Char) (level : Nat) (out : List Char) (m : Nat),
      nul ∉ out →
      nul ∉ rest →
      (expand objIid prev level rest).length < m →
      idToNameLoop objIid prev level out.length (out ++ List.replicate m nul) rest =
        ((out ++ expand objIid prev level rest).length,
          (out ++ expand objIid prev level rest) ++
            List.replicate (m - (expand objIid prev level rest).length) nul) := by
  intro rest
  induction rest with
  | nil =>
      intro prev level out m _ _ _
      simp [idToNameLoop, expand]
  | cons c rest ih =>
      intro prev level out m hout hrest hm
      have hc : nul ≠ c := fun heq => hrest (heq ▸ List.mem_cons_self)
      have hrest' : nul ∉ rest := fun hmem => hrest (List.mem_cons_of_mem c hmem)
      by_cases hplace : isPlaceholder prev c rest = true
      · simp only [expand, if_pos hplace, List.length_append] at hm
        simp only [idToNameLoop, expand, if_pos hplace]
        generalize hstr : decimal (objIid.idx.getD level 0).toNat = str at hm ⊢
        have hnul : nul ∉ str := hstr ▸ nul_notMem_decimal _
        have hcat : strcat (out ++ List.replicate m nul) str =
            (out ++ str) ++ List.replicate (m - str.length) nul := by
          rw [strcat, takeWhile_zeros hout, writeAt_zeros out (str ++ [nul])]
          have hsplit : m - str.length = 1 + (m - (str ++ [nul]).length) := by simp; omega
          rw [hsplit, ← List.append_assoc, List.append_assoc (out ++ str), List.replicate_add]
          rfl
        have hout' : nul ∉ out ++ str := by simp [hout, hnul]
        rw [hcat, ← List.length_append, ih _ _ _ _ hout' hrest' (by omega), List.append_assoc out,
          @List.length_append _ str, Nat.sub_sub]
      · simp only [expand, if_neg hplace, List.length_cons] at hm
        simp only [idToNameLoop, expand, if_neg hplace]
        rw [writeAt_zeros out [c]]
        have hout' : nul ∉ out ++ [c] := by simp [hout, hc]
        have hlen : out.length + 1 = (out ++ [c]).length := by simp
        have hone : m - [c].length = m - 1 := rfl
        rw [hlen, hone, ih _ _ _ _ hout' hrest' (by omega), List.append_assoc out,
          List.singleton_append, List.length_cons, Nat.sub_sub,
          Nat.add_comm 1 (expand objIid (some c) level rest).length]

/-! ## Names and their components -/

/-- The components of an object name: {lit}`Device` first, none of them empty or all digits. -/
structure Components (comps : List (List Char)) : Prop where
  first : comps.head? = some device
  nonempty : ∀ c ∈ comps, c ≠ []
  dotless : ∀ c ∈ comps, '.' ∉ c
  nulless : ∀ c ∈ comps, nul ∉ c
  noNumber : ∀ c ∈ comps, c.all Char.isDigit = false

theorem exists_cons_of_head {comps : List (List Char)} {c : List Char} (h : comps.head? = some c) :
    ∃ cs, comps = c :: cs := by
  cases comps with
  | nil => cases h
  | cons d cs => exact ⟨cs, by rw [Option.some.inj h]⟩

/-- The components with dots between them. -/
def join (comps : List (List Char)) : List Char :=
  ['.'].intercalate comps

/-- The placeholder. -/
def placeholder : List Char := ['i']

/-- The components with the indices from {lit}`level` on in place of the placeholders. -/
def instantiate (objIid : ObjIndex) : Nat → List (List Char) → List (List Char)
  | _, [] => []
  | level, c :: cs =>
      if c = placeholder then decimal (objIid.idx.getD level 0).toNat :: instantiate objIid (level + 1) cs
      else c :: instantiate objIid level cs

theorem join_cons_cons (c d : List Char) (cs : List (List Char)) :
    join (c :: d :: cs) = c ++ '.' :: join (d :: cs) := by
  rw [join, List.intercalate_cons_cons, List.append_assoc]
  rfl

theorem instantiate_placeholder (objIid : ObjIndex) (level : Nat) (cs : List (List Char)) :
    instantiate objIid level (placeholder :: cs) =
      decimal (objIid.idx.getD level 0).toNat :: instantiate objIid (level + 1) cs := by
  rw [instantiate, if_pos rfl]

theorem instantiate_other (objIid : ObjIndex) (level : Nat) {c : List Char} (hc : c ≠ placeholder)
    (cs : List (List Char)) :
    instantiate objIid level (c :: cs) = c :: instantiate objIid level cs := by
  rw [instantiate, if_neg hc]

theorem instantiate_cons_ne_nil (objIid : ObjIndex) (level : Nat) (c : List Char) (cs : List (List Char)) :
    ∃ d ds, instantiate objIid level (c :: cs) = d :: ds := by
  simp only [instantiate]
  split
  · exact ⟨_, _, rfl⟩
  · exact ⟨_, _, rfl⟩

/-- Behind a dot or at the end it does not matter what came before. -/
theorem expand_boundary (objIid : ObjIndex) (prev prev' : Option Char) (level : Nat) {rest : List Char}
    (hrest : rest = [] ∨ rest.head? = some '.') :
    expand objIid prev level rest = expand objIid prev' level rest := by
  cases rest with
  | nil => rfl
  | cons c rest =>
      have hc : c = '.' := by simpa using hrest
      subst hc
      simp [expand, isPlaceholder]

/-- Characters that do not follow a dot are copied. -/
theorem expand_inner (objIid : ObjIndex) (level : Nat) (rest : List Char) :
    ∀ (c : List Char) (prev : Option Char),
      '.' ∉ c →
      prev ≠ some '.' →
      ∃ prev', expand objIid prev level (c ++ rest) = c ++ expand objIid prev' level rest := by
  intro c
  induction c with
  | nil =>
      intro prev _ _
      exact ⟨prev, rfl⟩
  | cons x c ih =>
      intro prev hdot hprev
      rw [List.mem_cons, not_or] at hdot
      have hx : some x ≠ some '.' := fun heq => hdot.1 (Option.some.inj heq).symm
      obtain ⟨prev', heq⟩ := ih (some x) hdot.2 hx
      refine ⟨prev', ?_⟩
      rw [List.cons_append, expand, if_neg (by simp [isPlaceholder, hprev]), heq]
      rfl

/-- A component behind a dot: a placeholder is replaced, anything else copied. -/
theorem expand_component (objIid : ObjIndex) (level : Nat) {c rest : List Char} (hne : c ≠ [])
    (hdot : '.' ∉ c) (hrest : rest = [] ∨ rest.head? = some '.') :
    expand objIid (some '.') level (c ++ rest) =
      if c = placeholder then
        decimal (objIid.idx.getD level 0).toNat ++ expand objIid none (level + 1) rest
      else c ++ expand objIid none level rest := by
  obtain ⟨x, c, rfl⟩ := List.exists_cons_of_ne_nil hne
  rw [List.mem_cons, not_or] at hdot
  have hx : some x ≠ some '.' := fun heq => hdot.1 (Option.some.inj heq).symm
  rw [List.cons_append, expand]
  by_cases hplace : x :: c = placeholder
  · obtain ⟨rfl, rfl⟩ := List.cons.inj hplace
    have htest : isPlaceholder (some '.') 'i' ([] ++ rest) = true := by
      rcases hrest with rfl | hrest
      · decide
      · simp [isPlaceholder, hrest]
    rw [if_pos htest, if_pos hplace, List.nil_append, expand_boundary objIid (some 'i') none _ hrest]
  · have htest : isPlaceholder (some '.') x (c ++ rest) = false := by
      cases c with
      | nil =>
          have hi : x ≠ 'i' := fun heq => hplace (by rw [heq]; rfl)
          simp [isPlaceholder, hi]
      | cons y c =>
          have hy : y ≠ '.' := fun heq => hdot.2 (heq ▸ List.mem_cons_self)
          simp [isPlaceholder, hy]
    obtain ⟨prev', heq⟩ := expand_inner objIid level rest c (some x) hdot.2 hx
    rw [htest, if_neg (by simp), if_neg hplace, heq, expand_boundary objIid prev' none _ hrest]
    rfl

/-- The loop writes the instantiated components. -/
theorem expand_join (objIid : ObjIndex) :
    ∀ (comps : List (List Char)) (level : Nat),
      (∀ c ∈ comps, c ≠ []) →
      (∀ c ∈ comps, '.' ∉ c) →
      expand objIid (some '.') level (join comps) = join (instantiate objIid level comps) := by
  intro comps
  induction comps with
  | nil =>
      intro level _ _
      rfl
  | cons c cs ih =>
      intro level hne hdot
      have hc := hne c List.mem_cons_self
      have hcdot := hdot c List.mem_cons_self
      cases cs with
      | nil =>
          have hjoin : join [c] = c ++ [] := by simp [join]
          rw [hjoin, expand_component objIid level hc hcdot (.inl rfl)]
          by_cases hplace : c = placeholder
          · simp [instantiate, hplace, expand, join]
          · simp [instantiate, hplace, expand, join]
      | cons d ds =>
          have ih' := fun level => ih level (fun e he => hne e (List.mem_cons_of_mem c he))
            (fun e he => hdot e (List.mem_cons_of_mem c he))
          have hnext : ∀ l, expand objIid none l ('.' :: join (d :: ds)) =
              '.' :: join (instantiate objIid l (d :: ds)) := by
            intro l
            rw [expand, if_neg (by simp [isPlaceholder]), ih']
          rw [join_cons_cons, expand_component objIid level hc hcdot (.inr rfl), hnext, hnext]
          by_cases hplace : c = placeholder
          · obtain ⟨e, es, heq⟩ := instantiate_cons_ne_nil objIid (level + 1) d ds
            rw [if_pos hplace, hplace, instantiate_placeholder, heq, join_cons_cons]
          · obtain ⟨e, es, heq⟩ := instantiate_cons_ne_nil objIid level d ds
            rw [if_neg hplace, instantiate_other objIid level hplace, heq, join_cons_cons]

theorem mem_join {x : Char} {comps : List (List Char)} (h : x ∈ join comps) :
    x = '.' ∨ ∃ c ∈ comps, x ∈ c := by
  induction comps with
  | nil => cases h
  | cons c cs ih =>
      cases cs with
      | nil =>
          have hc : x ∈ c := by simpa [join] using h
          exact .inr ⟨c, List.mem_cons_self, hc⟩
      | cons d ds =>
          rw [join_cons_cons, List.mem_append, List.mem_cons] at h
          rcases h with h | h | h
          · exact .inr ⟨c, List.mem_cons_self, h⟩
          · exact .inl h
          · rcases ih h with h | ⟨e, he, hx⟩
            · exact .inl h
            · exact .inr ⟨e, List.mem_cons_of_mem c he, hx⟩

/-- An instantiated component is one of the name or an index. -/
theorem mem_instantiate (objIid : ObjIndex) {d : List Char} :
    ∀ (comps : List (List Char)) (level : Nat),
      d ∈ instantiate objIid level comps → d ∈ comps ∨ ∃ x : UInt8, d = decimal x.toNat := by
  intro comps
  induction comps with
  | nil =>
      intro level h
      cases h
  | cons c cs ih =>
      intro level h
      simp only [instantiate] at h
      split at h
      · rcases List.mem_cons.mp h with rfl | h
        · exact .inr ⟨_, rfl⟩
        · exact (ih _ h).imp_left (List.mem_cons_of_mem c)
      · rcases List.mem_cons.mp h with rfl | h
        · exact .inl List.mem_cons_self
        · exact (ih _ h).imp_left (List.mem_cons_of_mem c)

theorem nul_notMem_join {comps : List (List Char)} (h : ∀ c ∈ comps, nul ∉ c) : nul ∉ join comps := by
  intro hmem
  rcases mem_join hmem with heq | ⟨c, hc, hx⟩
  · exact absurd heq (by decide)
  · exact h c hc hx

/-- A name starts with {lit}`Device`, so it does not matter that nothing is in front of it. -/
theorem Components.expand_none {comps : List (List Char)} (h : Components comps) (objIid : ObjIndex) :
    expand objIid none 0 (join comps) = join (instantiate objIid 0 comps) := by
  obtain ⟨cs, rfl⟩ := exists_cons_of_head h.first
  obtain ⟨tail, htail⟩ : ∃ tail, join (device :: cs) = 'D' :: tail := by
    cases cs with
    | nil => exact ⟨_, rfl⟩
    | cons d ds => exact ⟨_, join_cons_cons device d ds⟩
  rw [← expand_join objIid _ 0 h.nonempty h.dotless, htail, expand, expand,
    if_neg (by simp [isPlaceholder]), if_neg (by simp [isPlaceholder])]

/-- What {lit}`zcfgFeObjIdToName` leaves in a buffer of zeros that is long enough. -/
theorem zcfgFeObjIdToName_eq {schema : Schema} {oid : Nat} {objInfo : ObjInfo}
    {comps : List (List Char)} (objIid : ObjIndex) {m : Nat}
    (hoid : oid ≤ shmSize schema) (hobj : objInfoByOid schema oid = some objInfo)
    (hcomps : Components comps) (hname : objInfo.name = join comps)
    (hshort : objInfo.name.length < 256)
    (hm : (join (instantiate objIid 0 comps)).length < m) :
    ∃ buf, zcfgFeObjIdToName schema oid objIid (List.replicate m nul) = (.success, buf) ∧
      stringOf buf = join (instantiate objIid 0 comps) := by
  have hnul : nul ∉ join (instantiate objIid 0 comps) := by
    apply nul_notMem_join
    intro d hd
    rcases mem_instantiate objIid comps 0 hd with hd | ⟨x, rfl⟩
    · exact hcomps.nulless d hd
    · exact nul_notMem_decimal _
  have hexpand := hcomps.expand_none objIid
  have hloop := idToNameLoop_eq objIid objInfo.name none 0 [] m (by simp)
    (by rw [hname]; exact nul_notMem_join hcomps.nulless) (by rw [hname, hexpand]; exact hm)
  rw [hname, hexpand, List.nil_append, List.nil_append, List.length_nil] at hloop
  refine ⟨writeAt (join (instantiate objIid 0 comps) ++
    List.replicate (m - (join (instantiate objIid 0 comps)).length) nul)
    (join (instantiate objIid 0 comps)).length [nul], ?_, ?_⟩
  · rw [zcfgFeObjIdToName, if_neg (by omega), hobj]
    rw [hname] at hshort
    simp only [hname, if_neg (Nat.not_le.mpr hshort), hloop]
  · rw [stringOf, writeAt_zeros, List.append_assoc]
    have hzeros : [nul] ++ List.replicate
        (m - (join (instantiate objIid 0 comps)).length - [nul].length) nul =
        List.replicate (1 + (m - (join (instantiate objIid 0 comps)).length - [nul].length)) nul := by
      rw [List.replicate_add]
      rfl
    rw [hzeros, takeWhile_zeros hnul]

/-! ## What a path is resolved to -/

theorem tokens_join {comps : List (List Char)} (hne : comps ≠ []) (hnonempty : ∀ c ∈ comps, c ≠ [])
    (hdot : ∀ c ∈ comps, '.' ∉ c) : tokens (join comps) = comps := by
  rw [tokens, join, List.splitOn_intercalate '.' hdot hne]
  apply List.filter_eq_self.mpr
  intro c hc
  simpa using hnonempty c hc

/-- A component of ordinary length that is not all digits is kept. -/
theorem allDigits_of_short {c : List Char} (hlen : c.length < 65536) :
    allDigits c = c.all Char.isDigit := by
  rw [allDigits, Nat.mod_eq_of_lt hlen, List.take_length]

theorem length_decimal_le (x : UInt8) : (decimal x.toNat).length ≤ 3 := by
  have hlt : x.toNat < 10 ^ 3 := Nat.lt_of_lt_of_le x.toNat_lt (by decide)
  exact (Nat.length_toDigits_le_iff (by decide) (by decide)).mpr hlt

theorem allDigits_decimal (x : UInt8) : allDigits (decimal x.toNat) = true := by
  have hlen := length_decimal_le x
  rw [allDigits_of_short (by omega), List.all_eq_true]
  exact fun c hc => isDigit_of_mem_decimal hc

theorem idxOf_decimal (x : UInt8) : idxOf (decimal x.toNat) = x := by
  have hlt := x.toNat_lt
  rw [idxOf, atoi_digits (decimal_ne_nil _) (fun c hc => isDigit_of_mem_decimal hc), digitsValue_decimal]
  have hmod : ((x.toNat : Int) % 256).toNat = x.toNat := by omega
  rw [hmod, UInt8.ofNat_toNat]

theorem join_cons (c : List Char) (cs : List (List Char)) :
    join (c :: cs) = c ++ cs.flatMap ('.' :: ·) := by
  induction cs generalizing c with
  | nil => simp [join]
  | cons d ds ih =>
      rw [join_cons_cons, ih, List.flatMap_cons]
      rfl

/-- The number of placeholders of a name. -/
def placeholders (comps : List (List Char)) : Nat :=
  comps.count placeholder

/-- An index goes to the next place. -/
theorem take_succ_set {xs ys : List UInt8} {l : Nat} (hl : l < xs.length) (hlen : xs.length = ys.length)
    (htake : xs.take l = ys.take l) : (xs.set l (ys.getD l 0)).take (l + 1) = ys.take (l + 1) := by
  have hy : l < ys.length := by omega
  rw [List.take_succ_eq_append_getElem (by rw [List.length_set]; exact hl),
    List.take_succ_eq_append_getElem hy, List.take_set_of_le (Nat.le_refl l), htake,
    List.getElem_set_self, List.getD_eq_getElem _ _ hy]

/-- The loop over the tokens of an instantiated name gives back the name and the indices. -/
theorem foldl_nameStep_instantiate (objIid : ObjIndex) :
    ∀ (cs : List (List Char)) (l : Nat) (st : NameState),
      (∀ c ∈ cs, c.all Char.isDigit = false) →
      (∀ c ∈ cs, c.length < 65536) →
      st.level.toNat = l →
      l + placeholders cs ≤ supportedIndexLevel →
      st.idx.length = supportedIndexLevel →
      st.idx.take l = objIid.idx.take l →
      ((instantiate objIid l cs).foldl nameStep st).fullPathName =
          st.fullPathName ++ cs.flatMap ('.' :: ·) ∧
        ((instantiate objIid l cs).foldl nameStep st).level.toNat = l + placeholders cs ∧
        ((instantiate objIid l cs).foldl nameStep st).idx.take (l + placeholders cs) =
          objIid.idx.take (l + placeholders cs) := by
  intro cs
  induction cs with
  | nil =>
      intro l st _ _ hlevel _ _ htake
      refine ⟨by simp [instantiate], hlevel, htake⟩
  | cons c cs ih =>
      intro l st hdigits hlen hlevel hle hidx htake
      have hdigits' : ∀ d ∈ cs, d.all Char.isDigit = false :=
        fun d hd => hdigits d (List.mem_cons_of_mem c hd)
      have hlen' : ∀ d ∈ cs, d.length < 65536 := fun d hd => hlen d (List.mem_cons_of_mem c hd)
      by_cases hplace : c = placeholder
      · subst hplace
        have hcount : placeholders (placeholder :: cs) = placeholders cs + 1 := List.count_cons_self
        have hl : l < supportedIndexLevel := by omega
        have hsmall : l < 6 := hl
        have hnext : (st.level + 1).toNat = l + 1 := by
          rw [UInt8.toNat_add, hlevel]
          have hone : (1 : UInt8).toNat = 1 := rfl
          omega
        have hstep : nameStep st (decimal (objIid.idx.getD l 0).toNat) =
            { fullPathName := st.fullPathName ++ ['.', 'i'], level := st.level + 1,
              idx := st.idx.set l (objIid.idx.getD l 0) } := by
          rw [nameStep, if_pos (allDigits_decimal _), hlevel, if_pos hl, idxOf_decimal]
        have htake' : (st.idx.set l (objIid.idx.getD l 0)).take (l + 1) = objIid.idx.take (l + 1) :=
          take_succ_set (by omega) (by rw [hidx, objIid.idx_length]) htake
        rw [instantiate_placeholder, List.foldl_cons, hstep, hcount]
        obtain ⟨hfull, hlevel', hrest⟩ := ih (l + 1)
          { fullPathName := st.fullPathName ++ ['.', 'i'], level := st.level + 1,
            idx := st.idx.set l (objIid.idx.getD l 0) } hdigits' hlen' hnext (by omega)
          (by rw [List.length_set]; exact hidx) htake'
        have hsum : l + 1 + placeholders cs = l + (placeholders cs + 1) := by omega
        rw [hsum] at hlevel' hrest
        refine ⟨?_, hlevel', hrest⟩
        rw [hfull, List.flatMap_cons, List.append_assoc]
        rfl
      · have hcount : placeholders (c :: cs) = placeholders cs := List.count_cons_of_ne hplace
        have hstep : nameStep st c = { st with fullPathName := st.fullPathName ++ '.' :: c } := by
          have hno : allDigits c = false := by
            rw [allDigits_of_short (hlen c List.mem_cons_self)]
            exact hdigits c List.mem_cons_self
          rw [nameStep, hno, if_neg (by simp)]
        rw [instantiate_other objIid l hplace, List.foldl_cons, hstep, hcount]
        rw [hcount] at hle
        obtain ⟨hfull, hlevel', hrest⟩ := ih l { st with fullPathName := st.fullPathName ++ '.' :: c }
          hdigits' hlen' hlevel hle hidx htake
        refine ⟨?_, hlevel', hrest⟩
        rw [hfull, List.flatMap_cons, List.append_assoc]

/-- Starting with {lit}`Device`, a path is not changed. -/
theorem tmpName_join {comps : List (List Char)} (hfirst : comps.head? = some device) :
    tmpName (join comps) = join comps := by
  obtain ⟨cs, rfl⟩ := exists_cons_of_head hfirst
  cases cs with
  | nil => rfl
  | cons d ds =>
      have hstart : (device ++ ['.']).isPrefixOf (join (device :: d :: ds)) = true := by
        rw [join_cons_cons, List.isPrefixOf_iff_prefix]
        exact ⟨join (d :: ds), by simp⟩
      rw [tmpName, hstart, Bool.true_or, if_pos rfl]

/-- What is made of the path of an instance. -/
theorem pathState_instantiate {comps : List (List Char)} (h : Components comps) (objIid : ObjIndex)
    (hlen : ∀ c ∈ comps, c.length < 65536) (hlevel : placeholders comps ≤ supportedIndexLevel) :
    (pathState (join (instantiate objIid 0 comps))).fullPathName = join comps ∧
      (pathState (join (instantiate objIid 0 comps))).level.toNat = placeholders comps ∧
      (pathState (join (instantiate objIid 0 comps))).idx.take (placeholders comps) =
        objIid.idx.take (placeholders comps) := by
  obtain ⟨cs, rfl⟩ := exists_cons_of_head h.first
  have hdevice : device ≠ placeholder := by decide
  have hinst : instantiate objIid 0 (device :: cs) = device :: instantiate objIid 0 cs :=
    instantiate_other objIid 0 hdevice cs
  have hcount : placeholders (device :: cs) = placeholders cs := List.count_cons_of_ne hdevice
  have htokens : tokens (join (instantiate objIid 0 (device :: cs))) =
      instantiate objIid 0 (device :: cs) := by
    apply tokens_join
    · rw [hinst]
      exact List.cons_ne_nil _ _
    · intro c hc
      rcases mem_instantiate objIid _ 0 hc with hc | ⟨x, rfl⟩
      · exact h.nonempty c hc
      · exact decimal_ne_nil _
    · intro c hc
      rcases mem_instantiate objIid _ 0 hc with hc | ⟨x, rfl⟩
      · exact h.dotless c hc
      · intro hdot
        exact absurd (isDigit_of_mem_decimal hdot) (by decide)
  have htmp : tmpName (join (instantiate objIid 0 (device :: cs))) =
      join (instantiate objIid 0 (device :: cs)) := tmpName_join (by rw [hinst]; rfl)
  rw [hcount] at hlevel
  obtain ⟨hfull, hlevel', hidx⟩ := foldl_nameStep_instantiate objIid cs 0
    { fullPathName := device, level := 0, idx := ObjIndex.zero.idx }
    (fun c hc => h.noNumber c (List.mem_cons_of_mem _ hc))
    (fun c hc => hlen c (List.mem_cons_of_mem _ hc)) rfl (by omega) ObjIndex.zero.idx_length rfl
  rw [Nat.zero_add] at hlevel' hidx
  rw [pathState, htmp, htokens, hinst, hcount, join_cons]
  exact ⟨hfull, hlevel', hidx⟩

/-! ## Objects and their ids -/

theorem oidOf_succ (objInfo : ObjInfo) (schema : Schema) (n : Nat) :
    oidOf (objInfo :: schema) (n + 1) = objInfo.size + oidOf schema n := by
  simp [oidOf, shmSize]

theorem size_pos (objInfo : ObjInfo) : 0 < objInfo.size := by
  simp only [ObjInfo.size]
  omega

theorem oidOf_le (schema : Schema) (n : Nat) : oidOf schema n ≤ shmSize schema := by
  induction schema generalizing n with
  | nil => simp [oidOf]
  | cons objInfo schema ih =>
      cases n with
      | zero => simp [oidOf, shmSize]
      | succ n =>
          rw [oidOf_succ]
          have hsize : shmSize (objInfo :: schema) = objInfo.size + shmSize schema := by simp [shmSize]
          have := ih n
          omega

/-- The object is found at its id. -/
theorem objInfoByOid_oidOf {schema : Schema} {n : Nat} {objInfo : ObjInfo}
    (h : schema[n]? = some objInfo) : objInfoByOid schema (oidOf schema n) = some objInfo := by
  induction schema generalizing n with
  | nil => cases h
  | cons first schema ih =>
      cases n with
      | zero =>
          have heq : first = objInfo := by simpa using h
          simp [oidOf, shmSize, objInfoByOid, heq]
      | succ n =>
          have hpos := size_pos first
          have hstep : objInfoByOid (first :: schema) (first.size + oidOf schema n) =
              objInfoByOid schema (oidOf schema n) := by
            rw [objInfoByOid, if_neg (by omega), if_neg (by omega), Nat.add_sub_cancel_left]
          rw [oidOf_succ, hstep]
          exact ih (by simpa using h)

/-- With distinct names the walk stops at the object of the name. -/
theorem findOid_eq {schema : Schema} {n base : Nat} {objInfo : ObjInfo}
    (hdistinct : (schema.map ObjInfo.name).Nodup) (h : schema[n]? = some objInfo) :
    findOid objInfo.name schema base = some (base + oidOf schema n) := by
  induction schema generalizing n base with
  | nil => cases h
  | cons first schema ih =>
      rw [List.map_cons, List.nodup_cons] at hdistinct
      cases n with
      | zero =>
          have heq : first = objInfo := by simpa using h
          simp [findOid, heq, oidOf, shmSize]
      | succ n =>
          have hrest : schema[n]? = some objInfo := by simpa using h
          have hne : objInfo.name ≠ first.name := by
            intro heq
            apply hdistinct.1
            rw [← heq]
            exact List.mem_map_of_mem (List.mem_of_getElem? hrest)
          rw [findOid, if_neg hne, ih hdistinct.2 hrest, oidOf_succ, Nat.add_assoc]

/-! ## The round trip -/

/-- A schema with distinct names made of components. -/
structure WellNamed (schema : Schema) : Prop where
  distinct : (schema.map ObjInfo.name).Nodup
  components : ∀ objInfo ∈ schema, ∃ comps, Components comps ∧ objInfo.name = join comps

/-- The number of indices that an object has. -/
def ObjInfo.levels (objInfo : ObjInfo) : Nat :=
  placeholders (tokens objInfo.name)

/-- The name that {lit}`zcfgFeObjIdToName` writes into a buffer of zeros. -/
def writtenName (schema : Schema) (oid : Nat) (objIid : ObjIndex) (bufSize : Nat) : List Char :=
  stringOf (zcfgFeObjIdToName schema oid objIid (List.replicate bufSize nul)).2

/-- The name written for an object and its indices is resolved to the same object and indices. -/
structure RoundTrips (schema : Schema) (oid : Nat) (objIid : ObjIndex) (bufSize : Nat) : Prop where
  oid_eq : (zcfgFeObjNameToObjId schema (writtenName schema oid objIid bufSize)).1 = some oid
  level_eq : (zcfgFeObjNameToObjId schema (writtenName schema oid objIid bufSize)).2.level = objIid.level
  idx_eq : (zcfgFeObjNameToObjId schema (writtenName schema oid objIid bufSize)).2.idx.take
      objIid.level.toNat = objIid.idx.take objIid.level.toNat

/-- Resolving the path of an instance. -/
theorem zcfgFeObjNameToObjId_eq {schema : Schema} (hschema : WellNamed schema) {n : Nat}
    {objInfo : ObjInfo} (hobj : schema[n]? = some objInfo) {comps : List (List Char)}
    (hcomps : Components comps) (hname : objInfo.name = join comps)
    (hlen : ∀ c ∈ comps, c.length < 65536) (objIid : ObjIndex)
    (hlevel : placeholders comps ≤ supportedIndexLevel) :
    ∃ iid, zcfgFeObjNameToObjId schema (join (instantiate objIid 0 comps)) =
        (if placeholders comps < supportedIndexLevel then some (oidOf schema n) else none, iid) ∧
      (placeholders comps < supportedIndexLevel → iid.level.toNat = placeholders comps) ∧
      iid.idx.take (placeholders comps) = objIid.idx.take (placeholders comps) := by
  obtain ⟨hfull, hlevel', hidx⟩ := pathState_instantiate hcomps objIid hlen hlevel
  have hne : join (instantiate objIid 0 comps) ≠ [] := by
    obtain ⟨cs, rfl⟩ := exists_cons_of_head hcomps.first
    rw [instantiate_other objIid 0 (by decide), join_cons]
    exact List.append_ne_nil_of_left_ne_nil (by decide) _
  have hfind : findOid (join comps) schema 0 = some (oidOf schema n) := by
    rw [← hname, findOid_eq hschema.distinct hobj, Nat.zero_add]
  by_cases hlt : placeholders comps < supportedIndexLevel
  · refine ⟨{ level := _, idx := _, idx_length := length_idx_pathState _ }, ?_, fun _ => hlevel',
      hidx⟩
    · rw [zcfgFeObjNameToObjId, if_neg hne]
      simp only [hlevel', if_neg (Nat.not_le.mpr hlt), hfull, hfind, if_pos hlt]
  · refine ⟨{ level := 0, idx := _, idx_length := length_idx_pathState _ }, ?_,
      fun h => absurd h hlt, hidx⟩
    · rw [zcfgFeObjNameToObjId, if_neg hne]
      simp only [hlevel', if_pos (Nat.not_lt.mp hlt), if_neg hlt]

/-- Components are not longer than the name. -/
theorem length_le_join {comps : List (List Char)} {c : List Char} (h : c ∈ comps) :
    c.length ≤ (join comps).length := by
  induction comps with
  | nil => cases h
  | cons d ds ih =>
      rw [join_cons, List.length_append]
      rcases List.mem_cons.mp h with rfl | h
      · omega
      · have hsub : c.length ≤ (ds.flatMap ('.' :: ·)).length := by
          obtain ⟨front, back, rfl⟩ := List.append_of_mem h
          simp
          omega
        omega

/-- For an object with at most six placeholders, the name written for an instance is resolved to the
object and the indices of the instance if and only if there are at most five placeholders and the
name has fewer than 256 characters. -/
theorem name_roundTrip_iff (schema : Schema) (hschema : WellNamed schema) (n : Nat)
    (objInfo : ObjInfo) (hobj : schema[n]? = some objInfo)
    (hlevels : objInfo.levels ≤ supportedIndexLevel) (objIid : ObjIndex)
    (hlevel : objIid.level.toNat = objInfo.levels) (bufSize : Nat)
    (hfits : (join (instantiate objIid 0 (tokens objInfo.name))).length < bufSize) :
    RoundTrips schema (oidOf schema n) objIid bufSize ↔
      objInfo.levels < supportedIndexLevel ∧ objInfo.name.length < 256 := by
  obtain ⟨comps, hcomps, hname⟩ := hschema.components objInfo (List.mem_of_getElem? hobj)
  have hne : comps ≠ [] := by
    obtain ⟨cs, rfl⟩ := exists_cons_of_head hcomps.first
    exact List.cons_ne_nil _ _
  have htokens : tokens objInfo.name = comps := by
    rw [hname]
    exact tokens_join hne hcomps.nonempty hcomps.dotless
  have hcount : objInfo.levels = placeholders comps := by rw [ObjInfo.levels, htokens]
  rw [htokens] at hfits
  rw [hcount] at hlevels hlevel ⊢
  have hbyOid := objInfoByOid_oidOf hobj
  by_cases hshort : objInfo.name.length < 256
  · obtain ⟨buf, hwrite, hbuf⟩ := zcfgFeObjIdToName_eq objIid (oidOf_le schema n) hbyOid hcomps hname
      hshort hfits
    have hwritten : writtenName schema (oidOf schema n) objIid bufSize =
        join (instantiate objIid 0 comps) := by rw [writtenName, hwrite, hbuf]
    have hlen : ∀ c ∈ comps, c.length < 65536 := by
      intro c hc
      have hle := length_le_join hc
      rw [← hname] at hle
      omega
    obtain ⟨iid, hresolve, hlevel', hidx⟩ := zcfgFeObjNameToObjId_eq hschema hobj hcomps hname hlen
      objIid hlevels
    constructor
    · intro h
      have hoid := h.oid_eq
      rw [hwritten, hresolve] at hoid
      refine ⟨?_, hshort⟩
      by_contra hlt
      simp [hlt] at hoid
    · rintro ⟨hlt, _⟩
      constructor
      · rw [hwritten, hresolve]
        exact if_pos hlt
      · rw [hwritten, hresolve]
        exact UInt8.toNat_inj.mp ((hlevel' hlt).trans hlevel.symm)
      · rw [hwritten, hresolve, hlevel]
        exact hidx
  · -- nothing is written, and the empty name is no object
    have hwritten : writtenName schema (oidOf schema n) objIid bufSize = [] := by
      have hle := oidOf_le schema n
      rw [writtenName, zcfgFeObjIdToName, if_neg (by omega), hbyOid]
      simp only [if_pos (Nat.not_lt.mp hshort)]
      have h := @takeWhile_zeros [] (by simp) bufSize
      rwa [List.nil_append] at h
    constructor
    · intro h
      have hoid := h.oid_eq
      rw [hwritten] at hoid
      cases hoid
    · exact fun h => absurd h.2 hshort

/-- Distinct names made of given components are well named. -/
theorem WellNamed.of_components {schema : Schema} {names : List (List (List Char))}
    (hnames : schema.map ObjInfo.name = names.map join) (hcomps : ∀ comps ∈ names, Components comps)
    (hdistinct : (names.map join).Nodup) : WellNamed schema := by
  constructor
  · rw [hnames]
    exact hdistinct
  · intro objInfo hmem
    have hjoin : objInfo.name ∈ names.map join := hnames ▸ List.mem_map_of_mem hmem
    obtain ⟨comps, hin, heq⟩ := List.mem_map.mp hjoin
    exact ⟨comps, hcomps comps hin, heq.symm⟩

/-- {lit}`Device` with {lit}`k` placeholders. -/
def deviceInstances (k : Nat) : ObjInfo :=
  { name := join (device :: List.replicate k placeholder), count := 3 }

theorem components_deviceInstances (k : Nat) :
    Components (device :: List.replicate k placeholder) := by
  have hmem : ∀ c ∈ device :: List.replicate k placeholder, c = device ∨ c = placeholder := by
    intro c hc
    rcases List.mem_cons.mp hc with rfl | hc
    · exact Or.inl rfl
    · exact Or.inr (List.eq_of_mem_replicate hc)
  constructor
  · rfl
  all_goals
    intro c hc
    rcases hmem c hc with rfl | rfl <;> decide

theorem wellNamed_deviceInstances (k : Nat) : WellNamed [deviceInstances k] := by
  have hnames : [deviceInstances k].map ObjInfo.name =
      [device :: List.replicate k placeholder].map join := rfl
  apply WellNamed.of_components hnames
  · intro comps hmem
    rw [List.mem_singleton.mp hmem]
    exact components_deviceInstances k
  · simp

/-- Two indices. -/
def twoIndices : ObjIndex :=
  { level := 2, idx := [7, 255, 0, 0, 0, 0], idx_length := rfl }

/-- Six indices. -/
def sixIndices : ObjIndex :=
  { level := 6, idx := [1, 2, 3, 4, 5, 6], idx_length := rfl }

/-- {lit}`Device.7.255`. -/
theorem name_roundTrip_two : RoundTrips [deviceInstances 2] 0 twoIndices 256 :=
  (name_roundTrip_iff [deviceInstances 2] (wellNamed_deviceInstances 2) 0 (deviceInstances 2) rfl
    (by decide) twoIndices (by decide) 256 (by decide)).mpr (by decide)

/-- {lit}`Device.1.2.3.4.5.6`: the name is written, but not resolved. -/
theorem name_roundTrip_six_fails :
    (deviceInstances 6).levels = supportedIndexLevel ∧
      sixIndices.level.toNat = (deviceInstances 6).levels ∧
      (∀ i ∈ sixIndices.idx, 1 ≤ i) ∧
      WellNamed [deviceInstances 6] ∧
      objInfoByOid [deviceInstances 6] 0 = some (deviceInstances 6) ∧
      (zcfgFeObjIdToName [deviceInstances 6] 0 sixIndices (List.replicate 256 nul)).1 = .success ∧
      ¬ RoundTrips [deviceInstances 6] 0 sixIndices 256 := by
  have hone : ∀ i ∈ sixIndices.idx, 1 ≤ i := by
    simp [sixIndices]
  refine ⟨by decide, by decide, hone, wellNamed_deviceInstances 6, by decide, by decide, ?_⟩
  intro h
  have hoid := h.oid_eq
  revert hoid
  decide

end FeString
end ZyxelRouter
