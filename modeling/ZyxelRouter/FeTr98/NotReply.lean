import ZyxelRouter.FeTr98.PathResolve

/-!
# Objects that are not replied

A list of object paths, with wildcards or instance numbers, hides objects from queries.  Queries by
path name and queries by object number have a matcher each.

Main results:

- Theorem {lit}`matchLoop_iff`: the matcher of path names takes a pattern for everything below it.
- Theorem {lit}`objectPathToObjPathIdx_instance`: how the path name of an instance is read.
- Theorem {lit}`notReply_agree_iff`: when the two queries agree.
-/

namespace ZyxelRouter
namespace FeTr98

open Lib FeString

/-! ## Patterns -/

/-- {lit}`runningDataModel`. -/
inductive DataModel where
  | notDefined
  | tr98
  | tr181
deriving DecidableEq, Repr

/-- The data models: which one is running, the TR-098 names and the TR-181 schema. -/
structure ModelEnv where
  runningDataModel : DataModel
  table : NameTable
  schema : Schema

/-- {lit}`tr98objhead`. -/
def tr98objhead : List Char := "InternetGatewayDevice".toList

/-- {lit}`tr181objhead`. -/
def tr181objhead : List Char := device

/-- {lit}`dataModelType`. -/
def dataModelType (objectPathName : List Char) : DataModel :=
  if tr98objhead.isPrefixOf objectPathName then .tr98
  else if tr181objhead.isPrefixOf objectPathName then .tr181
  else .notDefined

/-- The number of an object by its name with placeholders. -/
def ModelEnv.objnum (env : ModelEnv) (objectPath : List Char) : Option Nat :=
  match env.runningDataModel with
  | .tr98 => (env.table.findIdx? (· = objectPath)).map (eTr98Start + ·)
  | _ => (zcfgFeObjNameToObjId env.schema objectPath).1

/-- {lit}`objPathIdx_t`; an index is a number, or -1 for any. -/
structure ObjPathIdx where
  objnum : Nat
  idx : List Int
  objpath : List Char
deriving DecidableEq

/-- A number cut to an {lit}`int16_t`. -/
def toInt16 (x : Int) : Int :=
  (x + 32768) % 65536 - 32768

/-- The index that a component stands for. -/
def indexOf (token : List Char) : Option Int :=
  if token = placeholder then some (-1)
  else if isNumber token then some (toInt16 (atoi token))
  else none

/-- The six indices of a pattern, with zeros behind the used ones. -/
def padIdx (idx : List Int) : List Int :=
  (idx ++ List.replicate supportedIndexLevel 0).take supportedIndexLevel

/-- The object of a path, which may have its last placeholder left out. -/
def findObject (env : ModelEnv) (objectPath : List Char) (idx : List Int) : Option ObjPathIdx :=
  match env.objnum objectPath with
  | some objnum =>
      if objnum = 0 then none else some { objnum, idx := padIdx idx, objpath := objectPath }
  | none =>
      if objectPath.getLast? = some 'i' then none
      else
        let objectPath := objectPath ++ ['.', 'i']
        match env.objnum objectPath with
        | none => none
        | some objnum =>
            if objnum = 0 then none
            else some { objnum, idx := padIdx (idx ++ [-1]), objpath := objectPath }

/-- A dot at the end is taken off. -/
def stripDot (objectPathName : List Char) : List Char :=
  if objectPathName.getLast? = some '.' then objectPathName.dropLast else objectPathName

/-- {lit}`objectPathToObjPathIdx`.  The source writes an index behind the sixth outside of the array;
no object has a seventh placeholder, so this happens for paths that are not accepted only. -/
def objectPathToObjPathIdx (env : ModelEnv) (objectPathName : List Char) : Option ObjPathIdx :=
  if objectPathName = [] ∨ 256 < objectPathName.length then none
  else
    let name := stripDot objectPathName
    if dataModelType name = .notDefined ∨ dataModelType name ≠ env.runningDataModel then none
    else findObject env (join ((tokens name).map classOf)) ((tokens name).filterMap indexOf)

/-- The loop over the paths of a list: one that is not accepted spoils them all. -/
def pathListLoop (env : ModelEnv) : List (List Char) → Option (List ObjPathIdx)
  | [] => some []
  | objectPathName :: rest =>
      match objectPathToObjPathIdx env objectPathName with
      | none => none
      | some objPathIdx => (pathListLoop env rest).map (objPathIdx :: ·)

/-- {lit}`zcfgSetQueryNotReplyObjects`: the patterns of a list of paths, if it is accepted. -/
def zcfgSetQueryNotReplyObjects (env : ModelEnv) (objectPathList : List Char) :
    Option (List ObjPathIdx) :=
  if objectPathList = [] then none
  else pathListLoop env ((objectPathList.splitOn ',').filter (· ≠ []))

/-! ## The two matchers -/

/-- The test of one index in both matchers. -/
def idxMatch (pattern idx : Int) : Bool :=
  (pattern = 0 && idx = 0) || (pattern = -1 && idx ≠ 0) || pattern = idx

/-- The comparison of all six indices. -/
def allIdxMatch (pattern idx : List Int) : Bool :=
  (List.range supportedIndexLevel).all (fun n => idxMatch (pattern.getD n 0) (idx.getD n 0))

/-- The indices of an instance as numbers. -/
def ObjIndex.ints (objIid : ObjIndex) : List Int :=
  objIid.idx.map (fun i => (i.toNat : Int))

/-- {lit}`objPathIdxMatch`. -/
def objPathIdxMatch (objPathIdx : ObjPathIdx) (objnum : Nat) (objIid : ObjIndex) : Bool :=
  objPathIdx.objnum = objnum && allIdxMatch objPathIdx.idx (ObjIndex.ints objIid)

/-- Whether a component stands for an instance. -/
def isInstance (token : List Char) : Bool :=
  token = placeholder || isNumber token

/-- The loop of {lit}`objectPathIdxMatch` over the components of both paths; {lit}`l` counts the
indices. -/
def matchLoop (idx₁ idx₂ : List Int) : Nat → List (List Char) → List (List Char) → Bool
  | _, [], _ => false
  | _, _, [] => false
  | l, token₁ :: rest₁, token₂ :: rest₂ =>
      let both := isInstance token₁ && isInstance token₂
      let l' := if both then l + 1 else l
      let ok := if both then
          (idx₁.getD l 0 = -1 && idx₂.getD l 0 ≠ 0) || idx₁.getD l 0 = idx₂.getD l 0
        else token₁ = token₂
      -- At the end of the pattern the match stands; a path that ends before it does not match.
      ok && (rest₁ = [] || matchLoop idx₁ idx₂ l' rest₁ rest₂)

/-- {lit}`objectPathIdxMatch`. -/
def objectPathIdxMatch (objPathIdx₁ objPathIdx₂ : ObjPathIdx) : Bool :=
  if objPathIdx₁.objnum ≠ objPathIdx₂.objnum then
    matchLoop objPathIdx₁.idx objPathIdx₂.idx 0 (tokens objPathIdx₁.objpath)
      (tokens objPathIdx₂.objpath)
  else allIdxMatch objPathIdx₁.idx objPathIdx₂.idx

/-! ## The two queries -/

/-- The entries of an array up to the one with object number zero. -/
def entries (objectPathIdx : List ObjPathIdx) : List ObjPathIdx :=
  objectPathIdx.takeWhile (·.objnum ≠ 0)

/-- {lit}`zcfgQueryObjectPathIdxNotRepliedPathName`. -/
def zcfgQueryObjectPathIdxNotRepliedPathName (env : ModelEnv) (objectPathName : List Char)
    (objectPathIdx : List ObjPathIdx) : Bool :=
  if objectPathName = [] then false
  else if dataModelType objectPathName = .notDefined ∨
      dataModelType objectPathName ≠ env.runningDataModel then false
  else
    match objectPathToObjPathIdx env objectPathName with
    | none => false
    | some objPathIdxSt => (entries objectPathIdx).any (objectPathIdxMatch · objPathIdxSt)

/-- {lit}`zcfgQueryPathNameNotReplied`. -/
def zcfgQueryPathNameNotReplied (env : ModelEnv) (quryBlackObjPathIdx : List ObjPathIdx)
    (objectPathName : List Char) : ZcfgRet :=
  if zcfgQueryObjectPathIdxNotRepliedPathName env objectPathName quryBlackObjPathIdx then
    .noSuchObject
  else .success

/-- {lit}`zcfgQueryObjectPathIdxNotReplied`. -/
def zcfgQueryObjectPathIdxNotReplied (oid : Nat) (objIid : ObjIndex)
    (objectPathIdx : List ObjPathIdx) : Bool :=
  (entries objectPathIdx).any (objPathIdxMatch · oid objIid)

/-- {lit}`zcfgQueryObjectNotReplied`; {lit}`rootQuryBlackObjPathIdx` is looked at if it is enabled. -/
def zcfgQueryObjectNotReplied (enableRootQuryBlackObjPath : Bool)
    (rootQuryBlackObjPathIdx quryBlackObjPathIdx : List ObjPathIdx) (oid : Nat)
    (objIid : ObjIndex) : ZcfgRet :=
  if zcfgQueryObjectPathIdxNotReplied oid objIid quryBlackObjPathIdx then .noSuchObject
  else if enableRootQuryBlackObjPath &&
      zcfgQueryObjectPathIdxNotReplied oid objIid rootQuryBlackObjPathIdx then .noSuchObject
  else .success

/-! ## The matcher of path names -/

/-- A pattern index that lets an index through. -/
def Lets (pattern idx : Int) : Prop :=
  (pattern = -1 ∧ idx ≠ 0) ∨ pattern = idx

/-- The pattern of an object above: its components come first, and its indices let those of the
instance through. -/
structure Above (pattern : ObjPathIdx) (comps : List (List Char)) (idx : List Int) : Prop where
  nonempty : tokens pattern.objpath ≠ []
  components : tokens pattern.objpath <+: comps
  indices : ∀ l < placeholders (tokens pattern.objpath), Lets (pattern.idx.getD l 0) (idx.getD l 0)

/-- One round of the loop. -/
theorem matchLoop_cons (idx₁ idx₂ : List Int) (l : Nat) (t₁ t₂ : List Char)
    (ts₁ ts₂ : List (List Char)) :
    matchLoop idx₁ idx₂ l (t₁ :: ts₁) (t₂ :: ts₂) =
      ((if isInstance t₁ && isInstance t₂ then
          (decide (idx₁.getD l 0 = -1) && decide (idx₂.getD l 0 ≠ 0)) ||
            decide (idx₁.getD l 0 = idx₂.getD l 0)
        else decide (t₁ = t₂)) &&
      (decide (ts₁ = []) ||
        matchLoop idx₁ idx₂ (if isInstance t₁ && isInstance t₂ then l + 1 else l) ts₁ ts₂)) := by
  rw [matchLoop]

/-- The first index and the others. -/
theorem forall_lets_succ {idx₁ idx₂ : List Int} {l k : Nat} :
    (∀ j < k + 1, Lets (idx₁.getD (l + j) 0) (idx₂.getD (l + j) 0)) ↔
      Lets (idx₁.getD l 0) (idx₂.getD l 0) ∧
        ∀ j < k, Lets (idx₁.getD (l + 1 + j) 0) (idx₂.getD (l + 1 + j) 0) := by
  constructor
  · intro h
    refine ⟨h 0 (Nat.succ_pos k), fun j hj => ?_⟩
    have hnext := h (j + 1) (Nat.succ_lt_succ hj)
    rwa [show l + (j + 1) = l + 1 + j by omega] at hnext
  · rintro ⟨hfirst, hrest⟩ j hj
    cases j with
    | zero => exact hfirst
    | succ j =>
        rw [show l + (j + 1) = l + 1 + j by omega]
        exact hrest j (Nat.lt_of_succ_lt_succ hj)

/-- The loop compares the components up to the end of the pattern. -/
theorem matchLoop_iff (idx₁ idx₂ : List Int) :
    ∀ (ts₁ ts₂ : List (List Char)) (l : Nat),
      (∀ t ∈ ts₁, isNumber t = false) →
      (∀ t ∈ ts₂, isNumber t = false) →
      (matchLoop idx₁ idx₂ l ts₁ ts₂ = true ↔
        ts₁ ≠ [] ∧ ts₁ <+: ts₂ ∧
          ∀ j < placeholders ts₁, Lets (idx₁.getD (l + j) 0) (idx₂.getD (l + j) 0)) := by
  intro ts₁
  induction ts₁ with
  | nil =>
      intro ts₂ l _ _
      simp [matchLoop]
  | cons t₁ ts₁ ih =>
      intro ts₂ l hts₁ hts₂
      cases ts₂ with
      | nil => simp [matchLoop]
      | cons t₂ ts₂ =>
          have ht₁ := hts₁ t₁ List.mem_cons_self
          have ht₂ := hts₂ t₂ List.mem_cons_self
          have hrest : ∀ l, (ts₁ = [] ∨ matchLoop idx₁ idx₂ l ts₁ ts₂ = true) ↔
              ts₁ <+: ts₂ ∧
                ∀ j < placeholders ts₁, Lets (idx₁.getD (l + j) 0) (idx₂.getD (l + j) 0) := by
            intro l
            rw [ih ts₂ l (fun t ht => hts₁ t (List.mem_cons_of_mem t₁ ht))
              (fun t ht => hts₂ t (List.mem_cons_of_mem t₂ ht))]
            by_cases hnil : ts₁ = []
            · simp [hnil, placeholders]
            · simp [hnil]
          have hinst₁ : isInstance t₁ = decide (t₁ = placeholder) := by simp [isInstance, ht₁]
          have hinst₂ : isInstance t₂ = decide (t₂ = placeholder) := by simp [isInstance, ht₂]
          rw [matchLoop_cons, Bool.and_eq_true, Bool.or_eq_true, decide_eq_true_eq, hrest, hinst₁,
            hinst₂, List.cons_prefix_cons]
          by_cases hplace : t₁ = placeholder ∧ t₂ = placeholder
          · obtain ⟨rfl, rfl⟩ := hplace
            have hcount : placeholders (placeholder :: ts₁) = placeholders ts₁ + 1 :=
              List.count_cons_self
            rw [hcount, forall_lets_succ]
            simp only [decide_true, Bool.and_true, if_true, Bool.or_eq_true, Bool.and_eq_true,
              decide_eq_true_eq, Lets]
            tauto
          · have hboth : (decide (t₁ = placeholder) && decide (t₂ = placeholder)) = false := by
              simpa using hplace
            simp only [hboth, Bool.false_eq_true, if_false, decide_eq_true_eq]
            by_cases heq : t₁ = t₂
            · subst heq
              have hnot : t₁ ≠ placeholder := fun h => hplace ⟨h, h⟩
              have hcount : placeholders (t₁ :: ts₁) = placeholders ts₁ :=
                List.count_cons_of_ne hnot
              rw [hcount]
              simp
            · simp [heq]

/-! ## Accepted patterns -/

/-- A stored pattern: the number is that of its path, and no component of the path is a number. -/
structure Stored (env : ModelEnv) (pattern : ObjPathIdx) : Prop where
  positive : pattern.objnum ≠ 0
  number : env.objnum pattern.objpath = some pattern.objnum
  joined : pattern.objpath = join (tokens pattern.objpath)
  noNumber : ∀ t ∈ tokens pattern.objpath, isNumber t = false

theorem nonempty_of_mem_tokens {name t : List Char} (h : t ∈ tokens name) : t ≠ [] := by
  simpa using (List.mem_filter.mp h).2

theorem dotless_of_mem_tokens {name t : List Char} (h : t ∈ tokens name) : '.' ∉ t :=
  notMem_of_mem_splitOn (List.mem_filter.mp h).1

theorem isNumber_classOf (t : List Char) : isNumber (classOf t) = false := by
  rw [classOf]
  split
  · decide
  · rename_i h
    simpa using h

theorem nonempty_classOf {ts : List (List Char)} {c : List Char} (hts : ∀ t ∈ ts, t ≠ [])
    (hc : c ∈ ts.map classOf) : c ≠ [] := by
  obtain ⟨t, ht, rfl⟩ := List.mem_map.mp hc
  rw [classOf]
  split
  · decide
  · exact hts t ht

theorem dotless_classOf {ts : List (List Char)} {c : List Char} (hts : ∀ t ∈ ts, '.' ∉ t)
    (hc : c ∈ ts.map classOf) : '.' ∉ c := by
  obtain ⟨t, ht, rfl⟩ := List.mem_map.mp hc
  rw [classOf]
  split
  · decide
  · exact hts t ht

/-- What holds of the components and of the placeholder. -/
theorem forall_mem_missing {P : List Char → Prop} {cs : List (List Char)} (hplace : P placeholder)
    (hcs : ∀ c ∈ cs, P c) : ∀ c ∈ cs ++ [placeholder], P c := by
  intro c hc
  rcases List.mem_append.mp hc with hc | hc
  · exact hcs c hc
  · rw [List.mem_singleton.mp hc]
    exact hplace

/-- The path of joined components, none of which is a number. -/
theorem tokens_join_classOf {ts : List (List Char)} (hne : ts ≠ [])
    (hnonempty : ∀ t ∈ ts, t ≠ [])
    (hdot : ∀ t ∈ ts, '.' ∉ t) : tokens (join (ts.map classOf)) = ts.map classOf :=
  tokens_join (by simpa using hne) (fun _ hc => nonempty_classOf hnonempty hc)
    (fun _ hc => dotless_classOf hdot hc)

theorem join_append_placeholder :
    ∀ {ts : List (List Char)}, ts ≠ [] → join ts ++ ['.', 'i'] = join (ts ++ [placeholder]) := by
  intro ts
  induction ts with
  | nil =>
      intro hne
      exact absurd rfl hne
  | cons t ts ih =>
      intro _
      cases ts with
      | nil => simp [join, placeholder]
      | cons u us =>
          rw [List.cons_append, List.cons_append, join_cons_cons, join_cons_cons, List.append_assoc,
            List.cons_append, ih (by simp)]
          rfl

/-- Patterns found for a path are stored ones. -/
theorem findObject_stored {env : ModelEnv} {ts : List (List Char)} {idx : List Int}
    {pattern : ObjPathIdx}
    (hne : ts ≠ [])
    (hnonempty : ∀ t ∈ ts, t ≠ [])
    (hdot : ∀ t ∈ ts, '.' ∉ t)
    (h : findObject env (join (ts.map classOf)) idx = some pattern) : Stored env pattern := by
  have hnoNumber : ∀ t ∈ ts.map classOf, isNumber t = false := by
    intro t ht
    obtain ⟨u, -, rfl⟩ := List.mem_map.mp ht
    exact isNumber_classOf u
  have htokens := tokens_join_classOf hne hnonempty hdot
  rw [findObject] at h
  split at h
  · rename_i objnum hnum
    split at h
    · cases h
    · rename_i hpos
      cases h
      exact ⟨hpos, hnum, by rw [htokens], by rw [htokens]; exact hnoNumber⟩
  · split at h
    · cases h
    · simp only at h
      split at h
      · cases h
      · rename_i objnum hnum
        split at h
        · cases h
        · rename_i hpos
          cases h
          have hmap : ts.map classOf ++ [placeholder] = (ts ++ [placeholder]).map classOf := by
            rw [List.map_append]
            rfl
          have hpath : join (ts.map classOf) ++ ['.', 'i'] =
              join ((ts ++ [placeholder]).map classOf) := by
            rw [join_append_placeholder (by simpa using hne), hmap]
          have htokens' : tokens (join ((ts ++ [placeholder]).map classOf)) =
              (ts ++ [placeholder]).map classOf :=
            tokens_join_classOf (by simp) (forall_mem_missing (by decide) hnonempty)
              (forall_mem_missing (by decide) hdot)
          simp only [hpath] at hnum ⊢
          refine ⟨hpos, hnum, by rw [htokens'], ?_⟩
          simp only [htokens']
          intro t ht
          obtain ⟨u, -, rfl⟩ := List.mem_map.mp ht
          exact isNumber_classOf u

theorem tokens_ne_nil_of_dataModelType {name : List Char} (h : dataModelType name ≠ .notDefined) :
    tokens name ≠ [] := by
  have hhead : ∃ c rest, name = c :: rest ∧ c ≠ '.' := by
    rw [dataModelType] at h
    split at h
    · rename_i hpre
      obtain ⟨rest, rfl⟩ := List.isPrefixOf_iff_prefix.mp hpre
      exact ⟨'I', _, rfl, by decide⟩
    · split at h
      · rename_i hpre
        obtain ⟨rest, rfl⟩ := List.isPrefixOf_iff_prefix.mp hpre
        exact ⟨'D', _, rfl, by decide⟩
      · exact absurd rfl h
  obtain ⟨c, rest, rfl, hc⟩ := hhead
  rw [tokens, List.splitOn_cons_eq_if_modifyHead, if_neg (by simpa using hc)]
  obtain ⟨first, others, hsplit⟩ := List.exists_cons_of_ne_nil (List.splitOn_ne_nil '.' rest)
  rw [hsplit, List.modifyHead_cons, List.filter_cons, if_pos (by simp)]
  simp

theorem objectPathToObjPathIdx_stored {env : ModelEnv} {name : List Char} {pattern : ObjPathIdx}
    (h : objectPathToObjPathIdx env name = some pattern) : Stored env pattern := by
  rw [objectPathToObjPathIdx] at h
  split at h
  · cases h
  · simp only at h
    split at h
    · cases h
    · rename_i hmodel
      rw [not_or] at hmodel
      exact findObject_stored (tokens_ne_nil_of_dataModelType hmodel.1)
        (fun t ht => nonempty_of_mem_tokens ht) (fun t ht => dotless_of_mem_tokens ht) h

section Lists

variable {env : ModelEnv}

/-- The patterns of an accepted list are stored in its order. -/
theorem pathListLoop_forall₂ :
    ∀ {names : List (List Char)} {patterns : List ObjPathIdx},
      pathListLoop env names = some patterns →
      List.Forall₂ (fun name pattern => objectPathToObjPathIdx env name = some pattern) names
        patterns := by
  intro names
  induction names with
  | nil =>
      intro patterns h
      cases h
      exact .nil
  | cons name names ih =>
      intro patterns h
      rw [pathListLoop] at h
      split at h
      · cases h
      · rename_i first hfirst
        obtain ⟨others, hothers, rfl⟩ := Option.map_eq_some_iff.mp h
        exact .cons hfirst (ih hothers)

theorem accepted_forall₂ {objectPathList : List Char} {patterns : List ObjPathIdx}
    (h : zcfgSetQueryNotReplyObjects env objectPathList = some patterns) :
    List.Forall₂ (fun name pattern => objectPathToObjPathIdx env name = some pattern)
      ((objectPathList.splitOn ',').filter (· ≠ [])) patterns := by
  rw [zcfgSetQueryNotReplyObjects] at h
  split at h
  · cases h
  · exact pathListLoop_forall₂ h

/-- Each path of an accepted list is taken apart. -/
theorem exists_of_accepted {objectPathList : List Char} {patterns : List ObjPathIdx}
    (h : zcfgSetQueryNotReplyObjects env objectPathList = some patterns) :
    ∀ name ∈ (objectPathList.splitOn ',').filter (· ≠ []),
      ∃ pattern, objectPathToObjPathIdx env name = some pattern := by
  intro name hname
  obtain ⟨pattern, -, hpattern⟩ := exists_of_forall₂ (accepted_forall₂ h) name hname
  exact ⟨pattern, hpattern⟩

theorem zcfgSetQueryNotReplyObjects_stored {objectPathList : List Char}
    {patterns : List ObjPathIdx}
    (h : zcfgSetQueryNotReplyObjects env objectPathList = some patterns) :
    ∀ pattern ∈ patterns, Stored env pattern := by
  intro pattern hpattern
  obtain ⟨name, -, hname⟩ := exists_of_forall₂ (accepted_forall₂ h).flip pattern hpattern
  exact objectPathToObjPathIdx_stored hname

end Lists

/-! ## Instances -/

/-- An instance of an object whose name has the components {lit}`first` and {lit}`cs`: unused indices are
zero, and the path name fits into the buffers of the source. -/
structure Instance (env : ModelEnv) (first : List Char) (cs : List (List Char)) (objnum : Nat)
    (objIid : ObjIndex) : Prop where
  nonempty : ∀ c ∈ first :: cs, c ≠ []
  dotless : ∀ c ∈ first :: cs, '.' ∉ c
  noNumber : ∀ c ∈ first :: cs, isNumber c = false
  number : env.objnum (join (first :: cs)) = some objnum
  levels : placeholders cs ≤ supportedIndexLevel
  unused : ∀ i ∈ objIid.idx.drop (placeholders cs), i = 0
  model : dataModelType (join (first :: instantiate objIid 0 cs)) = env.runningDataModel
  running : env.runningDataModel ≠ .notDefined
  short : (join (first :: instantiate objIid 0 cs)).length ≤ 256

/-- The full path name of an instance. -/
def pathNameOf (first : List Char) (cs : List (List Char)) (objIid : ObjIndex) : List Char :=
  join (first :: instantiate objIid 0 cs)

theorem map_classOf_instantiate (objIid : ObjIndex) :
    ∀ (cs : List (List Char)) (level : Nat),
      (∀ c ∈ cs, isNumber c = false) →
      (instantiate objIid level cs).map classOf = cs := by
  intro cs
  induction cs with
  | nil =>
      intro level _
      rfl
  | cons c cs ih =>
      intro level hcs
      have ih' := fun l => ih l (fun d hd => hcs d (List.mem_cons_of_mem c hd))
      by_cases hplace : c = placeholder
      · rw [hplace, instantiate_placeholder, List.map_cons, ih', classOf, if_pos (isNumber_decimal _)]
      · rw [instantiate_other objIid level hplace, List.map_cons, ih', classOf,
          hcs c List.mem_cons_self, if_neg (by decide)]

theorem indexOf_decimal (x : UInt8) : indexOf (decimal x.toNat) = some (x.toNat : Int) := by
  have hlt := x.toNat_lt
  have hne : decimal x.toNat ≠ placeholder := by
    intro h
    have hnum := isNumber_decimal x
    rw [h] at hnum
    exact absurd hnum (by decide)
  rw [indexOf, if_neg hne, if_pos (isNumber_decimal x),
    atoi_digits (decimal_ne_nil _) (fun c hc => isDigit_of_mem_decimal hc), digitsValue_decimal, toInt16]
  exact congrArg some (by omega)

theorem filterMap_indexOf_instantiate (objIid : ObjIndex) :
    ∀ (cs : List (List Char)) (level : Nat),
      (∀ c ∈ cs, isNumber c = false) →
      (instantiate objIid level cs).filterMap indexOf =
        (List.range' level (placeholders cs)).map (fun l => ((objIid.idx.getD l 0).toNat : Int)) := by
  intro cs
  induction cs with
  | nil =>
      intro level _
      rfl
  | cons c cs ih =>
      intro level hcs
      have ih' := fun l => ih l (fun d hd => hcs d (List.mem_cons_of_mem c hd))
      by_cases hplace : c = placeholder
      · have hcount : placeholders (placeholder :: cs) = placeholders cs + 1 :=
          List.count_cons_self
        rw [hplace, instantiate_placeholder, List.filterMap_cons, indexOf_decimal, hcount,
          List.range'_succ, List.map_cons]
        simp only
        rw [ih']
      · have hcount : placeholders (c :: cs) = placeholders cs := List.count_cons_of_ne hplace
        have hindex : indexOf c = none := by
          rw [indexOf, if_neg hplace, hcs c List.mem_cons_self, if_neg (by decide)]
        rw [instantiate_other objIid level hplace, List.filterMap_cons, hindex, hcount]
        exact ih' level

theorem map_getD_range (objIid : ObjIndex) {k : Nat} (hk : k ≤ supportedIndexLevel) :
    (List.range' 0 k).map (fun l => ((objIid.idx.getD l 0).toNat : Int)) =
      (objIid.idx.take k).map (fun i => (i.toNat : Int)) := by
  have hlen : objIid.idx.length = supportedIndexLevel := objIid.idx_length
  apply List.ext_getElem
  · simp only [List.length_map, List.length_range', List.length_take]
    omega
  · intro n hn _
    simp only [List.length_map, List.length_range'] at hn
    rw [List.getElem_map, List.getElem_map, List.getElem_range', List.getElem_take, Nat.zero_add,
      Nat.one_mul, List.getD_eq_getElem _ _ (by omega)]

/-- The used indices with zeros behind them are all indices. -/
theorem padIdx_range (objIid : ObjIndex) {k : Nat} (hk : k ≤ supportedIndexLevel)
    (hunused : ∀ i ∈ objIid.idx.drop k, i = 0) :
    padIdx ((List.range' 0 k).map (fun l => ((objIid.idx.getD l 0).toNat : Int))) =
      ObjIndex.ints objIid := by
  have hlen : objIid.idx.length = supportedIndexLevel := objIid.idx_length
  have hrest : objIid.idx.drop k = List.replicate (supportedIndexLevel - k) 0 := by
    rw [List.eq_replicate_iff]
    exact ⟨by rw [List.length_drop, hlen], hunused⟩
  have hints : ObjIndex.ints objIid = (objIid.idx.take k).map (fun i => (i.toNat : Int)) ++
      List.replicate (supportedIndexLevel - k) 0 := by
    conv_lhs => rw [ObjIndex.ints, ← List.take_append_drop k objIid.idx, List.map_append, hrest,
      List.map_replicate]
    rfl
  have hfront : ((objIid.idx.take k).map (fun i => (i.toNat : Int))).length = k := by
    rw [List.length_map, List.length_take]
    omega
  rw [map_getD_range objIid hk, padIdx, hints, List.take_append, hfront, List.take_replicate,
    List.take_of_length_le (by omega), Nat.min_eq_left (by omega)]

section Instances

variable {env : ModelEnv} {first : List Char} {cs : List (List Char)} {objnum : Nat}
  {objIid : ObjIndex}

/-- The name of an object does not start with a placeholder. -/
theorem Instance.first_ne (h : Instance env first cs objnum objIid) : first ≠ placeholder := by
  rintro rfl
  have hmodel : dataModelType (join (placeholder :: instantiate objIid 0 cs)) = .notDefined := by
    rw [join_eq_dotted]
    rfl
  exact h.running (h.model.symm.trans hmodel)

theorem Instance.tokens_pathName (h : Instance env first cs objnum objIid) :
    tokens (pathNameOf first cs objIid) = first :: instantiate objIid 0 cs := by
  apply tokens_join (by simp)
  · intro c hc
    rcases List.mem_cons.mp hc with rfl | hc
    · exact h.nonempty c List.mem_cons_self
    · rcases mem_instantiate objIid cs 0 hc with hc | ⟨x, rfl⟩
      · exact h.nonempty c (List.mem_cons_of_mem first hc)
      · exact decimal_ne_nil _
  · intro c hc
    rcases List.mem_cons.mp hc with rfl | hc
    · exact h.dotless c List.mem_cons_self
    · rcases mem_instantiate objIid cs 0 hc with hc | ⟨x, rfl⟩
      · exact h.dotless c (List.mem_cons_of_mem first hc)
      · exact (plain_decimal x).dotless

theorem Instance.stripDot_pathName (h : Instance env first cs objnum objIid) :
    stripDot (pathNameOf first cs objIid) = pathNameOf first cs objIid := by
  rw [stripDot, if_neg]
  have htokens := h.tokens_pathName
  have hmem : ∀ c ∈ first :: instantiate objIid 0 cs, c ∈ tokens (pathNameOf first cs objIid) :=
    fun c hc => by rwa [htokens]
  exact getLast?_join (fun c hc => nonempty_of_mem_tokens (hmem c hc))
    (fun c hc => dotless_of_mem_tokens (hmem c hc))

theorem Instance.pathName_ne_nil (h : Instance env first cs objnum objIid) :
    pathNameOf first cs objIid ≠ [] := by
  rw [pathNameOf, join_eq_dotted]
  simp [h.nonempty first List.mem_cons_self]

/-- How the path name of an instance is read; the object with number zero is not found. -/
theorem objectPathToObjPathIdx_instance (h : Instance env first cs objnum objIid) :
    objectPathToObjPathIdx env (pathNameOf first cs objIid) =
      if objnum = 0 then none
      else some { objnum := objnum, idx := ObjIndex.ints objIid, objpath := join (first :: cs) } := by
  have hcs : ∀ c ∈ cs, isNumber c = false := fun c hc => h.noNumber c (List.mem_cons_of_mem first hc)
  have hfirst := h.noNumber first List.mem_cons_self
  have hclass : (tokens (pathNameOf first cs objIid)).map classOf = first :: cs := by
    rw [h.tokens_pathName, List.map_cons, map_classOf_instantiate objIid cs 0 hcs, classOf, hfirst,
      if_neg (by decide)]
  have hindex : (tokens (pathNameOf first cs objIid)).filterMap indexOf =
      (List.range' 0 (placeholders cs)).map (fun l => ((objIid.idx.getD l 0).toNat : Int)) := by
    have hnone : indexOf first = none := by
      rw [indexOf, if_neg h.first_ne, hfirst, if_neg (by decide)]
    rw [h.tokens_pathName, List.filterMap_cons, hnone]
    exact filterMap_indexOf_instantiate objIid cs 0 hcs
  have hne := h.pathName_ne_nil
  have hmodel : dataModelType (pathNameOf first cs objIid) = env.runningDataModel := h.model
  have hshort : (pathNameOf first cs objIid).length ≤ 256 := h.short
  rw [objectPathToObjPathIdx, if_neg (by rw [not_or]; exact ⟨hne, by omega⟩), h.stripDot_pathName]
  simp only
  rw [if_neg (by rw [not_or, hmodel]; exact ⟨h.running, fun hnot => hnot rfl⟩), hclass, hindex,
    findObject, h.number]
  simp only [padIdx_range objIid h.levels h.unused]

/-- What hides an instance from queries by its path name: a pattern of its own object, or one of an
object above it. -/
theorem objectPathIdxMatch_iff (h : Instance env first cs objnum objIid) {pattern : ObjPathIdx}
    (hstored : Stored env pattern) :
    objectPathIdxMatch pattern
        { objnum := objnum, idx := ObjIndex.ints objIid, objpath := join (first :: cs) } = true ↔
      objPathIdxMatch pattern objnum objIid = true ∨
        (pattern.objnum ≠ objnum ∧ Above pattern (first :: cs) (ObjIndex.ints objIid)) := by
  have htokens : tokens (join (first :: cs)) = first :: cs :=
    tokens_join (by simp) h.nonempty h.dotless
  rw [objectPathIdxMatch, objPathIdxMatch]
  by_cases hnum : pattern.objnum = objnum
  · simp [hnum]
  · have hloop := matchLoop_iff pattern.idx (ObjIndex.ints objIid) (tokens pattern.objpath)
      (first :: cs) 0 hstored.noNumber h.noNumber
    simp only [Nat.zero_add] at hloop
    simp only [ne_eq, hnum, not_false_eq_true, if_true, htokens, hloop, decide_false,
      Bool.false_and, Bool.false_eq_true, false_or, true_and]
    constructor
    · rintro ⟨hne, hpre, hidx⟩
      exact ⟨hne, hpre, hidx⟩
    · rintro ⟨hne, hpre, hidx⟩
      exact ⟨hne, hpre, hidx⟩

end Instances

theorem entries_stored {env : ModelEnv} {patterns : List ObjPathIdx}
    (h : ∀ pattern ∈ patterns, Stored env pattern) : entries patterns = patterns := by
  rw [entries, List.takeWhile_eq_self_iff]
  intro pattern hpattern
  simpa using (h pattern hpattern).positive

/-- The query by the path name of an instance compares the instance with all patterns. -/
theorem queryPathName_instance {env : ModelEnv} {first : List Char} {cs : List (List Char)}
    {objnum : Nat} {objIid : ObjIndex} {patterns : List ObjPathIdx}
    (h : Instance env first cs objnum objIid) (hstored : ∀ pattern ∈ patterns, Stored env pattern) :
    zcfgQueryObjectPathIdxNotRepliedPathName env (pathNameOf first cs objIid) patterns =
      if objnum = 0 then false
      else patterns.any (objectPathIdxMatch ·
        { objnum := objnum, idx := ObjIndex.ints objIid, objpath := join (first :: cs) }) := by
  have hmodel : dataModelType (pathNameOf first cs objIid) = env.runningDataModel := h.model
  rw [zcfgQueryObjectPathIdxNotRepliedPathName, if_neg h.pathName_ne_nil,
    if_neg (by rw [not_or, hmodel]; exact ⟨h.running, fun hnot => hnot rfl⟩),
    objectPathToObjPathIdx_instance h, entries_stored hstored]
  split <;> rename_i heq
  · split at heq
    · rw [if_pos ‹_›]
    · cases heq
  · split at heq
    · cases heq
    · rw [if_neg ‹_›, ← Option.some.inj heq]

/-- A pattern hides an instance by its path name, if it is one of its own object that matches or one of
an object above. -/
theorem any_objectPathIdxMatch_instance_iff {env : ModelEnv} {first : List Char}
    {cs : List (List Char)} {objnum : Nat} {objIid : ObjIndex} {patterns : List ObjPathIdx}
    (h : Instance env first cs objnum objIid) (hstored : ∀ pattern ∈ patterns, Stored env pattern) :
    patterns.any (objectPathIdxMatch ·
        { objnum := objnum, idx := ObjIndex.ints objIid, objpath := join (first :: cs) }) = true ↔
      (∃ pattern ∈ patterns, objPathIdxMatch pattern objnum objIid = true) ∨
        ∃ pattern ∈ patterns,
          pattern.objnum ≠ objnum ∧ Above pattern (first :: cs) (ObjIndex.ints objIid) := by
  rw [List.any_eq_true]
  constructor
  · rintro ⟨pattern, hpattern, hmatch⟩
    rcases (objectPathIdxMatch_iff h (hstored pattern hpattern)).mp hmatch with hown | habove
    · exact .inl ⟨pattern, hpattern, hown⟩
    · exact .inr ⟨pattern, hpattern, habove⟩
  · rintro (⟨pattern, hpattern, hown⟩ | ⟨pattern, hpattern, habove⟩)
    · exact ⟨pattern, hpattern,
        (objectPathIdxMatch_iff h (hstored pattern hpattern)).mpr (.inl hown)⟩
    · exact ⟨pattern, hpattern,
        (objectPathIdxMatch_iff h (hstored pattern hpattern)).mpr (.inr habove)⟩

/-- The two queries give the same answer for an instance if and only if no pattern is that of an
object above it, or there is one of its own object that matches it too. -/
theorem notReply_agree_iff (env : ModelEnv) (objectPathList : List Char)
    (patterns rootPatterns : List ObjPathIdx) (first : List Char) (cs : List (List Char)) (objnum : Nat)
    (objIid : ObjIndex)
    (haccepted : zcfgSetQueryNotReplyObjects env objectPathList = some patterns)
    (hinstance : Instance env first cs objnum objIid) :
    zcfgQueryPathNameNotReplied env patterns (pathNameOf first cs objIid) =
        zcfgQueryObjectNotReplied false rootPatterns patterns objnum objIid ↔
      (objnum ≠ 0 →
        (∃ pattern ∈ patterns,
          pattern.objnum ≠ objnum ∧ Above pattern (first :: cs) (ObjIndex.ints objIid)) →
        ∃ pattern ∈ patterns, objPathIdxMatch pattern objnum objIid = true) := by
  have hstored := zcfgSetQueryNotReplyObjects_stored haccepted
  have hobject : zcfgQueryObjectPathIdxNotReplied objnum objIid patterns =
      patterns.any (objPathIdxMatch · objnum objIid) := by
    rw [zcfgQueryObjectPathIdxNotReplied, entries_stored hstored]
  have hname := queryPathName_instance hinstance hstored
  rw [zcfgQueryPathNameNotReplied, zcfgQueryObjectNotReplied, hname, hobject]
  simp only [Bool.false_and, Bool.false_eq_true, if_false]
  by_cases hzero : objnum = 0
  · have hnone : patterns.any (objPathIdxMatch · objnum objIid) = false := by
      rw [List.any_eq_false]
      intro pattern hpattern hmatch
      rw [objPathIdxMatch, Bool.and_eq_true, decide_eq_true_eq] at hmatch
      exact (hstored pattern hpattern).positive (hmatch.1.trans hzero)
    rw [if_pos hzero, hnone]
    exact ⟨fun _ hpos => absurd hzero hpos, fun _ => rfl⟩
  · have hiff := any_objectPathIdxMatch_instance_iff hinstance hstored
    have hown := @List.any_eq_true _ (objPathIdxMatch · objnum objIid) patterns
    rw [if_neg hzero]
    by_cases howns : ∃ pattern ∈ patterns, objPathIdxMatch pattern objnum objIid = true
    · rw [hiff.mpr (.inl howns), hown.mpr howns]
      simp [howns]
    · have hnot : patterns.any (objPathIdxMatch · objnum objIid) = false :=
        Bool.eq_false_iff.mpr (fun h => howns (hown.mp h))
      rw [hnot]
      by_cases habove : ∃ pattern ∈ patterns,
          pattern.objnum ≠ objnum ∧ Above pattern (first :: cs) (ObjIndex.ints objIid)
      · rw [hiff.mpr (.inr habove)]
        simp only [if_true, Bool.false_eq_true, if_false]
        constructor
        · intro h
          cases h
        · intro h
          exact absurd (h hzero habove) howns
      · have hnone : patterns.any (objectPathIdxMatch ·
            { objnum := objnum, idx := ObjIndex.ints objIid, objpath := join (first :: cs) }) =
              false :=
          Bool.eq_false_iff.mpr (fun h => (hiff.mp h).elim howns habove)
        rw [hnone]
        exact ⟨fun _ _ h => absurd h habove, fun _ => rfl⟩

/-- Three objects: the root, the LAN devices and the hosts of one. -/
def lanEnv : ModelEnv where
  runningDataModel := .tr98
  table := ["InternetGatewayDevice".toList, "InternetGatewayDevice.LANDevice.i".toList,
    "InternetGatewayDevice.LANDevice.i.Hosts".toList]
  schema := []

/-- The first LAN device. -/
def firstLan : ObjIndex where
  level := 1
  idx := [1, 0, 0, 0, 0, 0]
  idx_length := ObjIndex.length_single 1

theorem lan_instance :
    Instance lanEnv "InternetGatewayDevice".toList ["LANDevice".toList, placeholder] 101 firstLan := by
  constructor <;> decide +kernel

theorem hosts_instance :
    Instance lanEnv "InternetGatewayDevice".toList ["LANDevice".toList, placeholder, "Hosts".toList] 102
      firstLan := by
  constructor <;> decide +kernel

/-- The pattern of the first LAN device. -/
def lanPattern : ObjPathIdx where
  objnum := 101
  idx := [1, 0, 0, 0, 0, 0]
  objpath := "InternetGatewayDevice.LANDevice.i".toList

/-- A hidden LAN device is hidden by name and by number. -/
theorem notReply_agree_lan :
    ∃ patterns,
      zcfgSetQueryNotReplyObjects lanEnv "InternetGatewayDevice.LANDevice.1".toList = some patterns ∧
      zcfgQueryPathNameNotReplied lanEnv patterns "InternetGatewayDevice.LANDevice.1".toList =
        zcfgQueryObjectNotReplied false [] patterns 101 firstLan := by
  refine ⟨[lanPattern], by decide +kernel, ?_⟩
  apply (notReply_agree_iff lanEnv "InternetGatewayDevice.LANDevice.1".toList _ [] _ _ 101 firstLan
    (by decide +kernel) lan_instance).mpr
  intro _ _
  exact ⟨_, List.mem_cons_self, by decide +kernel⟩

/-- The hosts of the hidden LAN device are hidden by name and not by number. -/
theorem notReply_agree_fails :
    ∃ patterns,
      zcfgSetQueryNotReplyObjects lanEnv "InternetGatewayDevice.LANDevice.1".toList = some patterns ∧
      Instance lanEnv "InternetGatewayDevice".toList ["LANDevice".toList, placeholder, "Hosts".toList]
        102 firstLan ∧
      zcfgQueryPathNameNotReplied lanEnv patterns
        "InternetGatewayDevice.LANDevice.1.Hosts".toList = .noSuchObject ∧
      zcfgQueryObjectNotReplied false [] patterns 102 firstLan = .success := by
  refine ⟨[lanPattern], by decide +kernel, hosts_instance, by decide +kernel, by decide +kernel⟩

end FeTr98
end ZyxelRouter
