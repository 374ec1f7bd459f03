import ZyxelRouter.FeTr98.NotReply

/-!
# Paths that are not replied

A list of patterns hides the objects whose paths they are prefixes of.  The patterns and the queried path
are split into an object number, six indices and a path with placeholders, and compared in that form.

Main results:

- Theorem {lit}`objectPathToObjPathIdx_readAs`: the form holds the components of a path, with the numbers
  cut to 16 bits.
- Theorem {lit}`objectPathIdxMatch_matches_iff`: the two comparisons together are the comparison
  component by component.
- Theorem {lit}`inBounds_iff`: when all indices are written inside of the array.
- Theorem {lit}`queryPathName_iff`: when a query agrees with the patterns as they are written.
-/

namespace ZyxelRouter
namespace FeTr98

open Lib FeString

/-! ## The names of the table -/

/-- {lit}`sizeof(objPathIdx->objpath)`. -/
def objpathSize : Nat := 258

/-- The name of an object by its components.  A name of an instance does not end with the letter of a
placeholder in front of its last one, and it has a place for each index. -/
structure TableName (comps : List (List Char)) : Prop where
  head : comps.head? = some tr98objhead
  nonempty : ∀ c ∈ comps, c ≠ []
  dotless : ∀ c ∈ comps, '.' ∉ c
  noNumber : ∀ c ∈ comps, isNumber c = false
  levels : placeholders comps ≤ supportedIndexLevel
  short : (join comps).length < objpathSize
  missing : comps.getLast? = some placeholder → (join comps.dropLast).getLast? ≠ some 'i'

/-- What holds of the names in {lit}`tr98Obj`. -/
def WellNamed (table : NameTable) : Prop :=
  ∀ name ∈ table, ∃ comps, name = join comps ∧ TableName comps

/-! ## Paths as they are written -/

/-- A component of a path: the name of an object, any instance, or an instance by its number. -/
inductive PathComp where
  | name (c : List Char)
  | any
  | number (n : Int)
deriving DecidableEq

def readComp (token : List Char) : PathComp :=
  if token = placeholder then .any
  else if isNumber token then .number (atoi token)
  else .name token

/-- The component of a name in the table. -/
def PathComp.className : PathComp → List Char
  | .name c => c
  | _ => placeholder

/-- The components of a path.  If there is no object of its name, then the last instance is missing and
stands for any. -/
def readPath (env : ModelEnv) (objectPathName : List Char) : List PathComp :=
  let comps := (tokens (stripDot objectPathName)).map readComp
  match env.objnum (join (comps.map PathComp.className)) with
  | some _ => comps
  | none => comps ++ [.any]

/-- The paths of a list. -/
def readPatterns (env : ModelEnv) (objectPathList : List Char) : List (List PathComp) :=
  ((objectPathList.splitOn ',').filter (· ≠ [])).map (readPath env)

/-- A component of a pattern and one of a path. -/
def CompMatches : PathComp → PathComp → Prop
  | .name c, .name c' => c = c'
  | .any, .any => True
  | .any, .number _ => True
  | .number n, .number n' => n = n'
  | _, _ => False

/-- The pattern is a prefix of the path or equal to it. -/
def Matches (pattern path : List PathComp) : Prop :=
  ∃ front back, path = front ++ back ∧ List.Forall₂ CompMatches pattern front

/-- A component whose number has been cut to an {lit}`int16_t`, where -1 stands for any instance. -/
def PathComp.cut : PathComp → PathComp
  | .number n => if toInt16 n = -1 then .any else .number (toInt16 n)
  | comp => comp

/-- The path names an object or an instance of one, with numbers from 1 to 32767 for the instances; the
number of the last instance may be missing. -/
structure NamesObject (table : NameTable) (comps : List (List Char)) : Prop where
  nonempty : ∀ c ∈ comps, c ≠ []
  dotless : ∀ c ∈ comps, '.' ∉ c
  instances : ∀ c ∈ comps, isNumber c = true → 1 ≤ atoi c ∧ atoi c ≤ 32767
  named : join (comps.map classOf) ∈ table ∨ join (comps.map classOf ++ [placeholder]) ∈ table

/-- The text of a path, with or without a dot at its end. -/
def IsPathText (comps : List (List Char)) (objectPathName : List Char) : Prop :=
  objectPathName = join comps ∨ objectPathName = join comps ++ ['.']

/-! ## Writes of the parser -/

/-- The loop of {lit}`objectPathToObjPathIdx` with {lit}`n` indices stored; {lit}`none` if one is written
outside of {lit}`idx`. -/
def idxLoop (idx : List Int) : List (List Char) → Option (List Int)
  | [] => some idx
  | token :: rest =>
      match indexOf token with
      | none => idxLoop idx rest
      | some value =>
          if idx.length < supportedIndexLevel then idxLoop (idx ++ [value]) rest else none

/-- {lit}`strcpy(objPathIdx->objpath, objectPath)`. -/
def storeObjpath (objPathIdx : ObjPathIdx) : Option (Option ObjPathIdx) :=
  if objPathIdx.objpath.length < objpathSize then some (some objPathIdx) else none

/-- {lit}`findObject` with the write of the index for the missing instance, and of the path. -/
def findObjectWrites (env : ModelEnv) (objectPath : List Char) (idx : List Int) :
    Option (Option ObjPathIdx) :=
  match env.objnum objectPath with
  | some objnum =>
      if objnum = 0 then some none
      else storeObjpath { objnum, idx := padIdx idx, objpath := objectPath }
  | none =>
      if objectPath.getLast? = some 'i' then some none
      else if idx.length < supportedIndexLevel then
        let objectPath := objectPath ++ ['.', 'i']
        match env.objnum objectPath with
        | none => some none
        | some objnum =>
            if objnum = 0 then some none
            else storeObjpath { objnum, idx := padIdx (idx ++ [-1]), objpath := objectPath }
      else none

/-- {lit}`objectPathToObjPathIdx` with its writes; the outer {lit}`none` is one outside of {lit}`idx` or
of {lit}`objpath`. -/
def objectPathToObjPathIdxWrites (env : ModelEnv) (objectPathName : List Char) :
    Option (Option ObjPathIdx) :=
  if objectPathName = [] ∨ 256 < objectPathName.length then some none
  else
    let name := stripDot objectPathName
    if dataModelType name = .notDefined ∨ dataModelType name ≠ env.runningDataModel then some none
    else
      (idxLoop [] (tokens name)).bind fun idx =>
        findObjectWrites env (join ((tokens name).map classOf)) idx

/-- The name of the object that a path is looked up with. -/
def lookupName (objectPathName : List Char) : List Char :=
  join ((tokens (stripDot objectPathName)).map classOf)

/-- The number of instances in a path. -/
def instanceCount (objectPathName : List Char) : Nat :=
  (tokens (stripDot objectPathName)).countP isInstance

/-- The path is not taken apart, or it has at most six instances, and at most five if one more is looked
up. -/
def InBounds (env : ModelEnv) (objectPathName : List Char) : Prop :=
  objectPathName = [] ∨ 256 < objectPathName.length ∨
    dataModelType (stripDot objectPathName) ≠ env.runningDataModel ∨
    instanceCount objectPathName ≤ supportedIndexLevel ∧
      (env.objnum (lookupName objectPathName) = none →
        (lookupName objectPathName).getLast? ≠ some 'i' →
          instanceCount objectPathName < supportedIndexLevel)

/-! ## Patterns and paths -/

theorem matches_nil (path : List PathComp) : Matches [] path :=
  ⟨[], path, rfl, .nil⟩

theorem not_matches_cons_nil (a : PathComp) (pattern : List PathComp) :
    ¬ Matches (a :: pattern) [] := by
  rintro ⟨front, back, heq, h⟩
  rw [List.nil_eq_append_iff.mp heq |>.1] at h
  cases h

theorem matches_cons_cons_iff (a b : PathComp) (pattern path : List PathComp) :
    Matches (a :: pattern) (b :: path) ↔ CompMatches a b ∧ Matches pattern path := by
  constructor
  · rintro ⟨front, back, heq, h⟩
    cases h with
    | cons hfirst hrest =>
        obtain ⟨rfl, rfl⟩ := List.cons.inj heq
        exact ⟨hfirst, _, back, rfl, hrest⟩
  · rintro ⟨hfirst, front, back, rfl, hrest⟩
    exact ⟨b :: front, back, rfl, .cons hfirst hrest⟩

/-- The index that is stored for a component. -/
def PathComp.index : PathComp → Option Int
  | .name _ => none
  | .any => some (-1)
  | .number n => some (toInt16 n)

/-- A name is neither a placeholder nor a number. -/
def PathComp.Plain : PathComp → Prop
  | .name c => c ≠ placeholder
  | _ => True

theorem plain_readComp (token : List Char) : (readComp token).Plain := by
  unfold readComp
  split
  · trivial
  · split
    · trivial
    · assumption

theorem className_readComp (token : List Char) : (readComp token).className = classOf token := by
  unfold readComp classOf
  by_cases hplace : token = placeholder
  · rw [if_pos hplace, hplace]
    decide
  · rw [if_neg hplace]
    by_cases hnum : isNumber token
    · rw [if_pos hnum, if_pos hnum]
      rfl
    · rw [if_neg hnum, if_neg hnum]
      rfl

theorem index_readComp (token : List Char) : (readComp token).index = indexOf token := by
  unfold readComp indexOf
  by_cases hplace : token = placeholder
  · rw [if_pos hplace, if_pos hplace]
    rfl
  · rw [if_neg hplace, if_neg hplace]
    by_cases hnum : isNumber token
    · rw [if_pos hnum, if_pos hnum]
      rfl
    · rw [if_neg hnum, if_neg hnum]
      rfl

/-- A component of a queried path: a number is one that an {lit}`int16_t` holds and not zero. -/
def PathComp.Queried : PathComp → Prop
  | .number n => 1 ≤ n ∧ n ≤ 32767
  | comp => comp.Plain

theorem PathComp.Queried.plain {comp : PathComp} (h : comp.Queried) : comp.Plain := by
  cases comp with
  | name c => exact h
  | any => trivial
  | number n => trivial

/-- A component is a name without an index, or an instance with one. -/
theorem PathComp.name_or_instance (a : PathComp) :
    (∃ c, a = .name c) ∨ ∃ i, a.index = some i ∧ a.className = placeholder := by
  cases a with
  | name c => exact .inl ⟨c, rfl⟩
  | any => exact .inr ⟨-1, rfl, rfl⟩
  | number n => exact .inr ⟨toInt16 n, rfl, rfl⟩

/-- Two instances: the index of the pattern lets that of the path through, exactly if the component that
is cut matches. -/
theorem lets_cut_iff {a b : PathComp} {i j : Int} (ha : a.index = some i) (hb : b.index = some j)
    (hqueried : b.Queried) : Lets i j ↔ CompMatches a.cut b := by
  have hj : j ≠ 0 ∧ (b = .any ∧ j = -1 ∨ b = .number j ∧ 1 ≤ j) := by
    cases b with
    | name c => cases hb
    | any =>
        obtain rfl := Option.some.inj hb
        exact ⟨by decide, .inl ⟨rfl, rfl⟩⟩
    | number n =>
        have hrange : 1 ≤ n ∧ n ≤ 32767 := hqueried
        have heq : toInt16 n = n := by
          unfold toInt16
          omega
        rw [PathComp.index, heq] at hb
        obtain rfl := Option.some.inj hb
        exact ⟨by omega, .inr ⟨rfl, hrange.1⟩⟩
  have hcut : a.cut = if i = -1 then .any else .number i := by
    cases a with
    | name c => cases ha
    | any =>
        obtain rfl := Option.some.inj ha
        rfl
    | number n =>
        obtain rfl := Option.some.inj ha
        rfl
  rw [hcut, Lets]
  by_cases hi : i = -1
  · rw [if_pos hi]
    refine iff_of_true (.inl ⟨hi, hj.1⟩) ?_
    rcases hj.2 with ⟨rfl, -⟩ | ⟨rfl, -⟩ <;> trivial
  · rw [if_neg hi]
    rcases hj.2 with ⟨rfl, rfl⟩ | ⟨rfl, -⟩
    · simp [hi, CompMatches]
    · simp [hi, CompMatches]

/-- Placeholders and indices of a path belong together. -/
theorem placeholders_className {comps : List PathComp} (hplain : ∀ c ∈ comps, c.Plain) :
    placeholders (comps.map PathComp.className) = (comps.filterMap PathComp.index).length := by
  induction comps with
  | nil => rfl
  | cons comp comps ih =>
      have ih' := ih fun c hc => hplain c (List.mem_cons_of_mem comp hc)
      have hcomp := hplain comp List.mem_cons_self
      rw [placeholders] at ih' ⊢
      rcases comp.name_or_instance with ⟨c, rfl⟩ | ⟨i, hindex, hclass⟩
      · have hne : c ≠ placeholder := hcomp
        rw [List.map_cons, PathComp.className, List.count_cons_of_ne hne, ih']
        rfl
      · rw [List.map_cons, hclass, List.count_cons_self, ih', List.filterMap_cons, hindex]
        rfl

/-- The first instance and the others. -/
theorem forall_lets_cons {i j : Int} {is js : List Int} {k : Nat} :
    (∀ l < k + 1, Lets ((i :: is).getD l 0) ((j :: js).getD l 0)) ↔
      Lets i j ∧ ∀ l < k, Lets (is.getD l 0) (js.getD l 0) := by
  constructor
  · intro h
    exact ⟨h 0 (Nat.succ_pos k), fun l hl => h (l + 1) (Nat.succ_lt_succ hl)⟩
  · rintro ⟨hfirst, hrest⟩ l hl
    cases l with
    | zero => exact hfirst
    | succ l => exact hrest l (Nat.lt_of_succ_lt_succ hl)

theorem not_compMatches_of_instance {a b : PathComp} {c : List Char} {i : Int}
    (ha : a.index = some i) (hb : b = .name c) : ¬ CompMatches a.cut b := by
  subst hb
  cases a with
  | name c' => cases ha
  | any => exact id
  | number n =>
      by_cases hn : toInt16 n = -1
      · rw [PathComp.cut, if_pos hn]
        exact id
      · rw [PathComp.cut, if_neg hn]
        exact id

/-- The comparison by placeholders and indices is the comparison component by component, with the
numbers of the pattern cut. -/
theorem prefix_lets_iff {pattern : List PathComp} (hplain : ∀ c ∈ pattern, c.Plain) :
    ∀ {path : List PathComp}, (∀ c ∈ path, c.Queried) →
      (pattern.map PathComp.className <+: path.map PathComp.className ∧
        (∀ l < placeholders (pattern.map PathComp.className),
          Lets ((pattern.filterMap PathComp.index).getD l 0)
            ((path.filterMap PathComp.index).getD l 0)) ↔
        Matches (pattern.map PathComp.cut) path) := by
  induction pattern with
  | nil =>
      intro path _
      exact iff_of_true ⟨List.nil_prefix, fun l hl => absurd hl (Nat.not_lt_zero l)⟩
        (matches_nil path)
  | cons a pattern ih =>
      intro path hqueried
      cases path with
      | nil =>
          refine iff_of_false ?_ (not_matches_cons_nil _ _)
          rintro ⟨hfront, -⟩
          exact absurd (List.prefix_nil.mp hfront) (by simp)
      | cons b path =>
          have ih' := @ih (fun c hc => hplain c (List.mem_cons_of_mem a hc)) path
            (fun c hc => hqueried c (List.mem_cons_of_mem b hc))
          have ha := hplain a List.mem_cons_self
          have hb := hqueried b List.mem_cons_self
          rw [List.map_cons, List.map_cons, List.map_cons, List.cons_prefix_cons,
            matches_cons_cons_iff, ← ih', placeholders]
          rcases a.name_or_instance with ⟨c, rfl⟩ | ⟨i, hi, hclass⟩
          · have hc : c ≠ placeholder := ha
            rcases b.name_or_instance with ⟨c', rfl⟩ | ⟨j, hj, hclass'⟩
            · rw [PathComp.className, List.count_cons_of_ne hc, ← placeholders]
              exact and_assoc
            · have hnot : ¬ CompMatches (PathComp.name c).cut b := by
                cases b with
                | name c' => cases hj
                | any => exact id
                | number n => exact id
              rw [hclass']
              exact iff_of_false (fun h => hc h.1.1) (fun h => hnot h.1)
          · rcases b.name_or_instance with ⟨c', rfl⟩ | ⟨j, hj, hclass'⟩
            · have hc' : c' ≠ placeholder := hb
              refine iff_of_false ?_ (fun h => not_compMatches_of_instance hi rfl h.1)
              rintro ⟨⟨heq, -⟩, -⟩
              exact hc' (heq.symm.trans hclass)
            · rw [hclass, hclass', List.count_cons_self, ← placeholders, List.filterMap_cons, hi,
                List.filterMap_cons, hj, forall_lets_cons, lets_cut_iff hi hj hb]
              tauto

/-! ## The stored form of a path -/

/-- The components as they are looked up. -/
theorem map_className_readComp (tokens : List (List Char)) :
    (tokens.map readComp).map PathComp.className = tokens.map classOf := by
  rw [List.map_map]
  exact List.map_congr_left fun token _ => className_readComp token

theorem filterMap_index_readComp (tokens : List (List Char)) :
    (tokens.map readComp).filterMap PathComp.index = tokens.filterMap indexOf := by
  rw [List.filterMap_map]
  exact List.filterMap_congr fun token _ => index_readComp token

theorem readPath_of_found {env : ModelEnv} {text : List Char} {objnum : Nat}
    (h : env.objnum (lookupName text) = some objnum) :
    readPath env text = (tokens (stripDot text)).map readComp := by
  rw [lookupName, ← map_className_readComp] at h
  simp only [readPath, h]

theorem readPath_of_missing {env : ModelEnv} {text : List Char}
    (h : env.objnum (lookupName text) = none) :
    readPath env text = (tokens (stripDot text)).map readComp ++ [.any] := by
  rw [lookupName, ← map_className_readComp] at h
  simp only [readPath, h]

/-- The indices and the path that are stored for a path. -/
structure ReadAs (objPathIdx : ObjPathIdx) (comps : List PathComp) : Prop where
  path : tokens objPathIdx.objpath = comps.map PathComp.className
  idx : objPathIdx.idx = padIdx (comps.filterMap PathComp.index)
  plain : ∀ c ∈ comps, c.Plain

/-- A component of a path is written there or stands for the missing instance. -/
theorem mem_readPath {env : ModelEnv} {text : List Char} {c : PathComp}
    (hc : c ∈ readPath env text) :
    (∃ token ∈ tokens (stripDot text), readComp token = c) ∨ c = .any := by
  cases hnum : env.objnum (lookupName text) with
  | some objnum =>
      rw [readPath_of_found hnum] at hc
      exact .inl (List.mem_map.mp hc)
  | none =>
      rw [readPath_of_missing hnum] at hc
      rcases List.mem_append.mp hc with hc | hc
      · exact .inl (List.mem_map.mp hc)
      · exact .inr (List.mem_singleton.mp hc)

theorem plain_readPath (env : ModelEnv) (text : List Char) :
    ∀ c ∈ readPath env text, c.Plain := by
  intro c hc
  rcases mem_readPath hc with ⟨token, -, rfl⟩ | rfl
  · exact plain_readComp token
  · trivial

/-- An accepted path is looked up with or without an instance that is missing. -/
theorem objectPathToObjPathIdx_cases {env : ModelEnv} {text : List Char} {objPathIdx : ObjPathIdx}
    (h : objectPathToObjPathIdx env text = some objPathIdx) :
    tokens (stripDot text) ≠ [] ∧
      findObject env (lookupName text) ((tokens (stripDot text)).filterMap indexOf) =
        some objPathIdx := by
  rw [objectPathToObjPathIdx] at h
  split at h
  · cases h
  · simp only at h
    split at h
    · cases h
    · rename_i hmodel
      rw [not_or] at hmodel
      exact ⟨tokens_ne_nil_of_dataModelType hmodel.1, h⟩

/-- An accepted path is stored by its components. -/
theorem objectPathToObjPathIdx_readAs {env : ModelEnv} {text : List Char} {objPathIdx : ObjPathIdx}
    (h : objectPathToObjPathIdx env text = some objPathIdx) :
    ReadAs objPathIdx (readPath env text) := by
  have hplain := plain_readPath env text
  obtain ⟨hne, hfind⟩ := objectPathToObjPathIdx_cases h
  have hnonempty : ∀ t ∈ tokens (stripDot text), t ≠ [] := fun t ht => nonempty_of_mem_tokens ht
  have hdot : ∀ t ∈ tokens (stripDot text), '.' ∉ t := fun t ht => dotless_of_mem_tokens ht
  have hmap := map_className_readComp (tokens (stripDot text))
  have hindex := filterMap_index_readComp (tokens (stripDot text))
  rw [findObject] at hfind
  split at hfind
  · rename_i objnum hnum
    rw [readPath_of_found hnum] at hplain ⊢
    split at hfind
    · cases hfind
    · cases hfind
      refine ⟨?_, ?_, hplain⟩
      · rw [hmap, lookupName, tokens_join_classOf hne hnonempty hdot]
      · rw [hindex]
  · rename_i hnum
    rw [readPath_of_missing hnum] at hplain ⊢
    split at hfind
    · cases hfind
    · simp only at hfind
      split at hfind
      · cases hfind
      · split at hfind
        · cases hfind
        · cases hfind
          refine ⟨?_, ?_, hplain⟩
          · have hpath : lookupName text ++ ['.', 'i'] =
                join ((tokens (stripDot text)).map classOf ++ [placeholder]) :=
              join_append_placeholder (by simpa using hne)
            rw [List.map_append, hmap, hpath]
            apply tokens_join (by simp)
            · exact forall_mem_missing (by decide) fun c hc => nonempty_classOf hnonempty hc
            · exact forall_mem_missing (by decide) fun c hc => dotless_classOf hdot hc
          · rw [List.filterMap_append, hindex]
            rfl

/-! ## Numbers of objects -/

section Tr98

variable {env : ModelEnv}

theorem objnum_eq_some (hmodel : env.runningDataModel = .tr98) {name : List Char} {objnum : Nat}
    (h : env.objnum name = some objnum) :
    objnum ≠ 0 ∧ env.table[objnum - eTr98Start]? = some name := by
  rw [ModelEnv.objnum, hmodel] at h
  obtain ⟨i, hfind, rfl⟩ := Option.map_eq_some_iff.mp h
  obtain ⟨hi, hname, -⟩ := List.findIdx?_eq_some_iff_getElem.mp hfind
  have hname' : env.table[i] = name := by simpa using hname
  refine ⟨by simp [eTr98Start], ?_⟩
  rw [Nat.add_sub_cancel_left, List.getElem?_eq_getElem hi, hname']

theorem mem_table_of_objnum (hmodel : env.runningDataModel = .tr98) {name : List Char}
    {objnum : Nat} (h : env.objnum name = some objnum) : name ∈ env.table :=
  List.mem_of_getElem? (objnum_eq_some hmodel h).2

/-- Objects with one number have one name. -/
theorem objnum_inj (hmodel : env.runningDataModel = .tr98) {name name' : List Char} {objnum : Nat}
    (h : env.objnum name = some objnum) (h' : env.objnum name' = some objnum) : name = name' := by
  have hname := (objnum_eq_some hmodel h).2
  rw [(objnum_eq_some hmodel h').2] at hname
  exact (Option.some.inj hname).symm

theorem objnum_ne_none (hmodel : env.runningDataModel = .tr98) {name : List Char}
    (h : name ∈ env.table) : env.objnum name ≠ none := by
  rw [ModelEnv.objnum, hmodel]
  intro hnone
  have hfind := Option.map_eq_none_iff.mp hnone
  rw [List.findIdx?_eq_none_iff] at hfind
  simpa using hfind name h

/-- The name of an object is one of the table, whichever components it is written with. -/
theorem tableName_of_mem {table : NameTable} (htable : WellNamed table) {comps : List (List Char)}
    (hnonempty : ∀ c ∈ comps, c ≠ []) (hdot : ∀ c ∈ comps, '.' ∉ c) (hmem : join comps ∈ table) :
    TableName comps := by
  obtain ⟨cs, hjoin, hcs⟩ := htable _ hmem
  have htokens : tokens (join cs) = cs := by
    refine tokens_join ?_ hcs.nonempty hcs.dotless
    intro hnil
    have hhead := hcs.head
    rw [hnil] at hhead
    cases hhead
  have hne : comps ≠ [] := by
    intro hnil
    have hhead := hcs.head
    rw [← htokens, ← hjoin, hnil] at hhead
    cases hhead
  rw [← htokens, ← hjoin, tokens_join hne hnonempty hdot] at hcs
  exact hcs

/-- The stored path of a pattern has the components of a name in the table. -/
theorem Stored.tableName (hmodel : env.runningDataModel = .tr98) (htable : WellNamed env.table)
    {pattern : ObjPathIdx} (h : Stored env pattern) : TableName (tokens pattern.objpath) := by
  apply tableName_of_mem htable (fun c hc => nonempty_of_mem_tokens hc)
    (fun c hc => dotless_of_mem_tokens hc)
  rw [← h.joined]
  exact mem_table_of_objnum hmodel h.number

/-! ## The two comparisons -/

theorem idxMatch_iff (pattern idx : Int) : idxMatch pattern idx = true ↔ Lets pattern idx := by
  simp only [idxMatch, Lets, Bool.or_eq_true, Bool.and_eq_true, decide_eq_true_eq]
  omega

theorem allIdxMatch_iff (pattern idx : List Int) :
    allIdxMatch pattern idx = true ↔
      ∀ l < supportedIndexLevel, Lets (pattern.getD l 0) (idx.getD l 0) := by
  simp only [allIdxMatch, List.all_eq_true, List.mem_range, idxMatch_iff]

/-- The first six indices are stored. -/
theorem getD_padIdx (idx : List Int) {l : Nat} (hl : l < supportedIndexLevel) :
    (padIdx idx).getD l 0 = idx.getD l 0 := by
  rw [List.getD_eq_getElem?_getD, List.getD_eq_getElem?_getD, padIdx, List.getElem?_take_of_lt hl]
  by_cases hidx : l < idx.length
  · rw [List.getElem?_append_left hidx]
  · have hlen : idx.length ≤ l := Nat.le_of_not_lt hidx
    rw [List.getElem?_append_right hlen, List.getElem?_eq_none hlen,
      List.getElem?_replicate_of_lt (by omega)]
    rfl

/-- Behind the indices of a path there are zeros. -/
theorem getD_index_eq_zero {comps : List PathComp} (hplain : ∀ c ∈ comps, c.Plain) {l : Nat}
    (hl : placeholders (comps.map PathComp.className) ≤ l) :
    (comps.filterMap PathComp.index).getD l 0 = 0 := by
  rw [placeholders_className hplain] at hl
  rw [List.getD_eq_getElem?_getD, List.getElem?_eq_none hl]
  rfl

/-- Whether the objects are the same or not, the path is compared with the pattern component by
component. -/
theorem objectPathIdxMatch_matches_iff (hmodel : env.runningDataModel = .tr98)
    (htable : WellNamed env.table) {P Q : ObjPathIdx} {pattern path : List PathComp}
    (hPstored : Stored env P) (hQstored : Stored env Q) (hP : ReadAs P pattern)
    (hQ : ReadAs Q path) (hqueried : ∀ c ∈ path, c.Queried) :
    objectPathIdxMatch P Q = true ↔ Matches (pattern.map PathComp.cut) path := by
  have hPname := hPstored.tableName hmodel htable
  have hlevels : placeholders (tokens P.objpath) ≤ supportedIndexLevel := hPname.levels
  have hstored : ∀ l < supportedIndexLevel,
      (Lets (P.idx.getD l 0) (Q.idx.getD l 0) ↔
        Lets ((pattern.filterMap PathComp.index).getD l 0)
          ((path.filterMap PathComp.index).getD l 0)) := by
    intro l hl
    rw [hP.idx, hQ.idx, getD_padIdx _ hl, getD_padIdx _ hl]
  rw [← prefix_lets_iff hP.plain hqueried, ← hP.path, ← hQ.path, objectPathIdxMatch]
  by_cases hnum : P.objnum = Q.objnum
  · -- The same object: the indices behind the placeholders are zero on both sides.
    have hobjpath : P.objpath = Q.objpath :=
      objnum_inj hmodel hPstored.number (hnum ▸ hQstored.number)
    rw [if_neg (not_not_intro hnum), allIdxMatch_iff, ← hobjpath]
    constructor
    · intro h
      refine ⟨List.prefix_refl _, fun l hl => ?_⟩
      have hl' := Nat.lt_of_lt_of_le hl hlevels
      exact (hstored l hl').mp (h l hl')
    · rintro ⟨-, h⟩ l hl
      rw [hstored l hl]
      by_cases hfew : l < placeholders (tokens P.objpath)
      · exact h l hfew
      · have hbehind := Nat.le_of_not_lt hfew
        rw [getD_index_eq_zero hP.plain (hP.path ▸ hbehind),
          getD_index_eq_zero (fun c hc => (hqueried c hc).plain)
            (hQ.path ▸ hobjpath ▸ hbehind)]
        exact .inr rfl
  · have hne : tokens P.objpath ≠ [] := by
      intro hnil
      have hhead := hPname.head
      rw [hnil] at hhead
      cases hhead
    rw [if_pos hnum, matchLoop_iff _ _ _ _ _ hPstored.noNumber hQstored.noNumber]
    simp only [Nat.zero_add]
    constructor
    · rintro ⟨-, hfront, h⟩
      exact ⟨hfront, fun l hl => (hstored l (Nat.lt_of_lt_of_le hl hlevels)).mp (h l hl)⟩
    · rintro ⟨hfront, h⟩
      exact ⟨hne, hfront, fun l hl => (hstored l (Nat.lt_of_lt_of_le hl hlevels)).mpr (h l hl)⟩

/-! ## Queries -/

/-- The stored patterns hide a path exactly if one of the written patterns does, with its numbers cut. -/
theorem any_objectPathIdxMatch_iff (hmodel : env.runningDataModel = .tr98)
    (htable : WellNamed env.table) {names : List (List Char)} {patterns : List ObjPathIdx}
    {Q : ObjPathIdx} {path : List PathComp}
    (h : List.Forall₂ (fun name pattern => objectPathToObjPathIdx env name = some pattern) names
      patterns)
    (hQstored : Stored env Q) (hQ : ReadAs Q path) (hqueried : ∀ c ∈ path, c.Queried) :
    patterns.any (objectPathIdxMatch · Q) = true ↔
      ∃ pattern ∈ names.map (readPath env), Matches (pattern.map PathComp.cut) path := by
  induction h with
  | nil => simp
  | cons hfirst _ ih =>
      rw [List.any_cons, Bool.or_eq_true, ih, List.map_cons, List.exists_mem_cons_iff,
        objectPathIdxMatch_matches_iff hmodel htable (objectPathToObjPathIdx_stored hfirst) hQstored
          (objectPathToObjPathIdx_readAs hfirst) hQ hqueried]

/-! ## Paths of objects -/

theorem exists_head_of_classOf {comps : List (List Char)}
    (h : (comps.map classOf).head? = some tr98objhead) : ∃ rest, comps = tr98objhead :: rest := by
  cases comps with
  | nil => cases h
  | cons c rest =>
      have hc : classOf c = tr98objhead := Option.some.inj h
      rw [classOf] at hc
      split at hc
      · exact absurd hc (by decide)
      · exact ⟨rest, by rw [hc]⟩

/-- The name of a path, with or without the last placeholder. -/
theorem NamesObject.tableName (htable : WellNamed env.table) {comps : List (List Char)}
    (h : NamesObject env.table comps) :
    TableName (comps.map classOf) ∨ TableName (comps.map classOf ++ [placeholder]) := by
  have hnonempty : ∀ c ∈ comps.map classOf, c ≠ [] := fun c hc => nonempty_classOf h.nonempty hc
  have hdot : ∀ c ∈ comps.map classOf, '.' ∉ c := fun c hc => dotless_classOf h.dotless hc
  rcases h.named with hmem | hmem
  · exact .inl (tableName_of_mem htable hnonempty hdot hmem)
  · exact .inr (tableName_of_mem htable (forall_mem_missing (by decide) hnonempty)
      (forall_mem_missing (by decide) hdot) hmem)

/-- A path starts with the head of the data model. -/
theorem NamesObject.exists_head (htable : WellNamed env.table) {comps : List (List Char)}
    (h : NamesObject env.table comps) : ∃ rest, comps = tr98objhead :: rest := by
  rcases h.tableName htable with hname | hname
  · exact exists_head_of_classOf hname.head
  · apply exists_head_of_classOf
    have hhead := hname.head
    cases comps with
    | nil => exact absurd (Option.some.inj hhead) (by decide)
    | cons c rest => exact hhead

theorem dataModelType_path (rest : List (List Char)) (back : List Char) :
    dataModelType (join (tr98objhead :: rest) ++ back) = .tr98 := by
  rw [join_cons, dataModelType, if_pos]
  rw [List.isPrefixOf_iff_prefix, List.append_assoc]
  exact List.prefix_append _ _

theorem NamesObject.dataModelType_text (htable : WellNamed env.table) {comps : List (List Char)}
    {text : List Char} (h : NamesObject env.table comps) (htext : IsPathText comps text) :
    dataModelType text = .tr98 := by
  obtain ⟨rest, rfl⟩ := h.exists_head htable
  rcases htext with rfl | rfl
  · have hmodel := dataModelType_path rest []
    rwa [List.append_nil] at hmodel
  · exact dataModelType_path rest ['.']

theorem NamesObject.text_ne_nil (htable : WellNamed env.table) {comps : List (List Char)}
    {text : List Char} (h : NamesObject env.table comps) (htext : IsPathText comps text) :
    text ≠ [] := by
  rintro rfl
  have htype := h.dataModelType_text htable htext
  exact absurd htype (by decide)

theorem NamesObject.stripDot_text {comps : List (List Char)} {text : List Char}
    (h : NamesObject env.table comps) (htext : IsPathText comps text) :
    stripDot text = join comps := by
  rcases htext with rfl | rfl
  · rw [stripDot, if_neg (getLast?_join h.nonempty h.dotless)]
  · rw [stripDot, if_pos List.getLast?_concat, List.dropLast_concat]

theorem NamesObject.tokens_text (htable : WellNamed env.table) {comps : List (List Char)}
    {text : List Char} (h : NamesObject env.table comps) (htext : IsPathText comps text) :
    tokens (stripDot text) = comps := by
  obtain ⟨rest, rfl⟩ := h.exists_head htable
  rw [h.stripDot_text htext]
  exact tokens_join (by simp) h.nonempty h.dotless

/-- The path of an object is taken apart. -/
theorem NamesObject.exists_read (hmodel : env.runningDataModel = .tr98)
    (htable : WellNamed env.table) {comps : List (List Char)} {text : List Char}
    (h : NamesObject env.table comps) (htext : IsPathText comps text) (hlen : text.length ≤ 256) :
    ∃ objPathIdx, objectPathToObjPathIdx env text = some objPathIdx := by
  have hnil := h.text_ne_nil htable htext
  have htype : dataModelType (stripDot text) = env.runningDataModel := by
    obtain ⟨rest, rfl⟩ := h.exists_head htable
    have hpath := dataModelType_path rest []
    rw [List.append_nil] at hpath
    rw [h.stripDot_text htext, hpath, hmodel]
  have hdefined : env.runningDataModel ≠ .notDefined := by
    rw [hmodel]
    decide
  rw [objectPathToObjPathIdx, if_neg (by rw [not_or]; exact ⟨hnil, by omega⟩)]
  simp only
  rw [if_neg (by rw [not_or, htype]; exact ⟨hdefined, fun hnot => hnot rfl⟩),
    h.tokens_text htable htext, findObject]
  cases hfound : env.objnum (join (comps.map classOf)) with
  | some objnum =>
      simp only
      rw [if_neg (objnum_eq_some hmodel hfound).1]
      exact ⟨_, rfl⟩
  | none =>
      -- The instance is missing, so the name with one more placeholder is in the table.
      have hmem : join (comps.map classOf ++ [placeholder]) ∈ env.table :=
        h.named.resolve_left fun hmem => objnum_ne_none hmodel hmem hfound
      have hne : comps.map classOf ≠ [] := by
        obtain ⟨rest, rfl⟩ := h.exists_head htable
        simp
      have hname := tableName_of_mem htable
        (forall_mem_missing (by decide) fun c hc => nonempty_classOf h.nonempty hc)
        (forall_mem_missing (by decide) fun c hc => dotless_classOf h.dotless hc) hmem
      have hlast := hname.missing List.getLast?_concat
      rw [List.dropLast_concat] at hlast
      obtain ⟨objnum, hnum⟩ := Option.ne_none_iff_exists'.mp (objnum_ne_none hmodel hmem)
      simp only
      rw [if_neg hlast, join_append_placeholder hne, hnum]
      simp only
      rw [if_neg (objnum_eq_some hmodel hnum).1]
      exact ⟨_, rfl⟩

theorem NamesObject.queried (htable : WellNamed env.table) {comps : List (List Char)}
    {text : List Char} (h : NamesObject env.table comps) (htext : IsPathText comps text) :
    ∀ c ∈ readPath env text, c.Queried := by
  intro c hc
  rcases mem_readPath hc with ⟨token, htoken, rfl⟩ | rfl
  · rw [h.tokens_text htable htext] at htoken
    have hplain := plain_readComp token
    rw [readComp] at hplain ⊢
    split
    · trivial
    · rename_i hplace
      rw [if_neg hplace] at hplain
      split
      · exact h.instances token htoken ‹_›
      · rwa [if_neg ‹_›] at hplain
  · trivial

/-- The answer of a query, by the patterns with their numbers cut. -/
theorem queryPathName_cut_iff (hmodel : env.runningDataModel = .tr98)
    (htable : WellNamed env.table) {objectPathList text : List Char} {patterns : List ObjPathIdx}
    {comps : List (List Char)}
    (haccepted : zcfgSetQueryNotReplyObjects env objectPathList = some patterns)
    (h : NamesObject env.table comps) (htext : IsPathText comps text) (hlen : text.length ≤ 256) :
    zcfgQueryPathNameNotReplied env patterns text = .noSuchObject ↔
      ∃ pattern ∈ readPatterns env objectPathList,
        Matches (pattern.map PathComp.cut) (readPath env text) := by
  have hstored := zcfgSetQueryNotReplyObjects_stored haccepted
  obtain ⟨Q, hQ⟩ := h.exists_read hmodel htable htext hlen
  have htype := h.dataModelType_text htable htext
  have hnil := h.text_ne_nil htable htext
  have hquery : zcfgQueryObjectPathIdxNotRepliedPathName env text patterns =
      patterns.any (objectPathIdxMatch · Q) := by
    rw [zcfgQueryObjectPathIdxNotRepliedPathName, if_neg hnil,
      if_neg (by rw [htype, hmodel]; decide), hQ, entries_stored hstored]
  have hany := any_objectPathIdxMatch_iff hmodel htable (accepted_forall₂ haccepted)
    (objectPathToObjPathIdx_stored hQ) (objectPathToObjPathIdx_readAs hQ) (h.queried htable htext)
  rw [readPatterns, ← hany, zcfgQueryPathNameNotReplied, hquery]
  split
  · rename_i hmatch
    exact iff_of_true rfl hmatch
  · rename_i hmatch
    exact iff_of_false (by decide) hmatch

/-- A path that a pattern matches as it is written is matched with the numbers cut. -/
theorem matches_cut {pattern : List PathComp} :
    ∀ {path : List PathComp}, (∀ c ∈ path, c.Queried) → Matches pattern path →
      Matches (pattern.map PathComp.cut) path := by
  induction pattern with
  | nil =>
      intro path _ _
      exact matches_nil path
  | cons a pattern ih =>
      intro path hqueried h
      cases path with
      | nil => exact absurd h (not_matches_cons_nil a pattern)
      | cons b path =>
          rw [matches_cons_cons_iff] at h
          rw [List.map_cons, matches_cons_cons_iff]
          refine ⟨?_, ih (fun c hc => hqueried c (List.mem_cons_of_mem b hc)) h.2⟩
          have hb := hqueried b List.mem_cons_self
          have hab := h.1
          cases a with
          | name c => exact hab
          | any => exact hab
          | number n =>
              cases b with
              | name c => exact hab.elim
              | any => exact hab.elim
              | number m =>
                  have hnm : n = m := hab
                  have hrange : 1 ≤ m ∧ m ≤ 32767 := hb
                  have hsame : toInt16 n = n := by
                    unfold toInt16
                    omega
                  rw [PathComp.cut, hsame, if_neg (by omega)]
                  exact hab

end Tr98

/-! ## Writes inside of the form -/

theorem isInstance_of_indexOf (token : List Char) :
    (∃ i, indexOf token = some i ∧ isInstance token = true ∧ classOf token = placeholder) ∨
      indexOf token = none ∧ isInstance token = false ∧ classOf token ≠ placeholder := by
  by_cases hplace : token = placeholder
  · subst hplace
    exact .inl ⟨-1, rfl, rfl, by decide⟩
  · by_cases hnum : isNumber token = true
    · refine .inl ⟨toInt16 (atoi token), ?_, ?_, ?_⟩
      · rw [indexOf, if_neg hplace, if_pos hnum]
      · rw [isInstance, hnum, Bool.or_true]
      · rw [classOf, if_pos hnum]
    · refine .inr ⟨?_, ?_, ?_⟩
      · rw [indexOf, if_neg hplace, if_neg hnum]
      · rw [isInstance, decide_eq_false hplace, Bool.false_or]
        exact Bool.eq_false_iff.mpr hnum
      · rw [classOf, if_neg hnum]
        exact hplace

/-- The loop stays inside of the array, if there is a place for each instance. -/
theorem idxLoop_eq :
    ∀ (ts : List (List Char)) (idx : List Int),
      idx.length ≤ supportedIndexLevel →
      idxLoop idx ts =
        if idx.length + ts.countP isInstance ≤ supportedIndexLevel then
          some (idx ++ ts.filterMap indexOf)
        else none := by
  intro ts
  induction ts with
  | nil =>
      intro idx hidx
      rw [idxLoop, List.countP_nil, Nat.add_zero, if_pos hidx, List.filterMap_nil, List.append_nil]
  | cons token ts ih =>
      intro idx hidx
      rcases isInstance_of_indexOf token with ⟨i, hindex, hinst, -⟩ | ⟨hindex, hinst, -⟩
      · rw [idxLoop, hindex, List.countP_cons_of_pos hinst, List.filterMap_cons_some hindex]
        simp only
        by_cases hplace : idx.length < supportedIndexLevel
        · have hlen : (idx ++ [i]).length = idx.length + 1 := by rw [List.length_append]; rfl
          rw [if_pos hplace, ih (idx ++ [i]) (by omega), hlen, List.append_assoc,
            List.singleton_append]
          congr 1
          exact propext (by omega)
        · rw [if_neg hplace, if_neg (by omega)]
      · rw [idxLoop, hindex, List.countP_cons_of_neg (by simp [hinst]),
          List.filterMap_cons_none hindex]
        exact ih idx hidx

theorem length_filterMap_indexOf (ts : List (List Char)) :
    (ts.filterMap indexOf).length = ts.countP isInstance := by
  induction ts with
  | nil => rfl
  | cons token ts ih =>
      rcases isInstance_of_indexOf token with ⟨i, hindex, hinst, -⟩ | ⟨hindex, hinst, -⟩
      · rw [List.filterMap_cons_some hindex, List.length_cons, List.countP_cons_of_pos hinst, ih]
      · rw [List.filterMap_cons_none hindex, List.countP_cons_of_neg (by simp [hinst]), ih]

theorem placeholders_map_classOf (ts : List (List Char)) :
    placeholders (ts.map classOf) = ts.countP isInstance := by
  induction ts with
  | nil => rfl
  | cons token ts ih =>
      rw [placeholders] at ih ⊢
      rcases isInstance_of_indexOf token with ⟨i, -, hinst, hclass⟩ | ⟨-, hinst, hclass⟩
      · rw [List.map_cons, hclass, List.count_cons_self, List.countP_cons_of_pos hinst, ih]
      · rw [List.map_cons, List.count_cons_of_ne hclass, List.countP_cons_of_neg (by simp [hinst]),
          ih]

section Writes

variable {env : ModelEnv} (hmodel : env.runningDataModel = .tr98) (htable : WellNamed env.table)

include hmodel htable

/-- The name of an object fits. -/
theorem storeObjpath_of_objnum {objPathIdx : ObjPathIdx} {objnum : Nat}
    (h : env.objnum objPathIdx.objpath = some objnum) :
    storeObjpath objPathIdx = some (some objPathIdx) := by
  obtain ⟨cs, hjoin, hcs⟩ := htable _ (mem_table_of_objnum hmodel h)
  rw [storeObjpath, if_pos (by rw [hjoin]; exact hcs.short)]

/-- The lookup writes one more index, if the instance is missing. -/
theorem findObjectWrites_eq (objectPath : List Char) (idx : List Int) :
    findObjectWrites env objectPath idx =
      if env.objnum objectPath = none ∧ objectPath.getLast? ≠ some 'i' ∧
          supportedIndexLevel ≤ idx.length then none
      else some (findObject env objectPath idx) := by
  rw [findObjectWrites, findObject]
  cases hnum : env.objnum objectPath with
  | some objnum =>
      have hfound : ¬ (some objnum = none ∧ objectPath.getLast? ≠ some 'i' ∧
          supportedIndexLevel ≤ idx.length) := fun h => by cases h.1
      rw [if_neg hfound]
      simp only
      split
      · rfl
      · exact storeObjpath_of_objnum hmodel htable hnum
  | none =>
      simp only [true_and]
      by_cases hlast : objectPath.getLast? = some 'i'
      · rw [if_pos hlast, if_pos hlast, if_neg (fun h => h.1 hlast)]
      · rw [if_neg hlast, if_neg hlast]
        by_cases hplace : idx.length < supportedIndexLevel
        · rw [if_pos hplace, if_neg (fun h => absurd h.2 (Nat.not_le_of_lt hplace))]
          cases hnum' : env.objnum (objectPath ++ ['.', 'i']) with
          | none => rfl
          | some objnum =>
              simp only
              split
              · rfl
              · exact storeObjpath_of_objnum hmodel htable hnum'
        · rw [if_neg hplace, if_pos ⟨hlast, Nat.le_of_not_lt hplace⟩]

/-- The parser writes inside of the form exactly if there is a place for each instance, and then it
gives the form of the path. -/
theorem objectPathToObjPathIdxWrites_eq (objectPathName : List Char) :
    (InBounds env objectPathName ∧
      objectPathToObjPathIdxWrites env objectPathName =
        some (objectPathToObjPathIdx env objectPathName)) ∨
      ¬ InBounds env objectPathName ∧ objectPathToObjPathIdxWrites env objectPathName = none := by
  have hdefined : env.runningDataModel ≠ .notDefined := by
    rw [hmodel]
    decide
  rw [objectPathToObjPathIdxWrites, objectPathToObjPathIdx]
  by_cases hlen : objectPathName = [] ∨ 256 < objectPathName.length
  · rw [if_pos hlen, if_pos hlen]
    exact .inl ⟨hlen.elim .inl fun h => .inr (.inl h), rfl⟩
  · rw [if_neg hlen, if_neg hlen]
    simp only
    by_cases htype : dataModelType (stripDot objectPathName) = env.runningDataModel
    · have hrun : ¬ (dataModelType (stripDot objectPathName) = .notDefined ∨
          dataModelType (stripDot objectPathName) ≠ env.runningDataModel) := by
        rw [htype, not_or]
        exact ⟨hdefined, not_not_intro rfl⟩
      have hbounds : InBounds env objectPathName ↔
          instanceCount objectPathName ≤ supportedIndexLevel ∧
            (env.objnum (lookupName objectPathName) = none →
              (lookupName objectPathName).getLast? ≠ some 'i' →
                instanceCount objectPathName < supportedIndexLevel) := by
        rw [not_or] at hlen
        rw [InBounds]
        simp only [hlen.1, hlen.2, htype, ne_eq, not_true_eq_false, false_or]
      have hlength := length_filterMap_indexOf (tokens (stripDot objectPathName))
      rw [if_neg hrun, if_neg hrun, hbounds, idxLoop_eq _ [] (Nat.zero_le _), List.length_nil,
        Nat.zero_add, List.nil_append, ← instanceCount, ← lookupName]
      rw [← instanceCount] at hlength
      by_cases hcount : instanceCount objectPathName ≤ supportedIndexLevel
      · rw [if_pos hcount, Option.bind_some, findObjectWrites_eq hmodel htable, hlength]
        split
        · rename_i hmissing
          exact .inr ⟨fun h => absurd (h.2 hmissing.1 hmissing.2.1)
            (Nat.not_lt_of_le hmissing.2.2), rfl⟩
        · rename_i hmissing
          refine .inl ⟨⟨hcount, fun hnum hlast => ?_⟩, rfl⟩
          exact Nat.lt_of_not_le fun hfull => hmissing ⟨hnum, hlast, hfull⟩
      · rw [if_neg hcount]
        exact .inr ⟨fun h => hcount h.1, rfl⟩
    · have hrun : dataModelType (stripDot objectPathName) = .notDefined ∨
          dataModelType (stripDot objectPathName) ≠ env.runningDataModel := .inr htype
      rw [if_pos hrun, if_pos hrun]
      exact .inl ⟨.inr (.inr (.inl htype)), rfl⟩

theorem inBounds_iff (objectPathName : List Char) :
    objectPathToObjPathIdxWrites env objectPathName ≠ none ↔ InBounds env objectPathName := by
  rcases objectPathToObjPathIdxWrites_eq hmodel htable objectPathName with ⟨hin, heq⟩ | ⟨hout, heq⟩
  · rw [heq]
    exact iff_of_true (by simp) hin
  · rw [heq]
    exact iff_of_false (fun h => h rfl) hout

/-- A path that is accepted has no more instances than an object can have. -/
theorem inBounds_of_accepted {objectPathName : List Char} {objPathIdx : ObjPathIdx}
    (h : objectPathToObjPathIdx env objectPathName = some objPathIdx) :
    InBounds env objectPathName := by
  have hlevels := ((objectPathToObjPathIdx_stored h).tableName hmodel htable).levels
  rw [(objectPathToObjPathIdx_readAs h).path] at hlevels
  have hcount := placeholders_map_classOf (tokens (stripDot objectPathName))
  rw [← instanceCount] at hcount
  refine .inr (.inr (.inr ?_))
  cases hnum : env.objnum (lookupName objectPathName) with
  | some objnum =>
      rw [readPath_of_found hnum, map_className_readComp, hcount] at hlevels
      exact ⟨hlevels, fun h => by cases h⟩
  | none =>
      have hmissing : placeholders ((tokens (stripDot objectPathName)).map classOf ++
          [placeholder]) = instanceCount objectPathName + 1 := by
        rw [← hcount, placeholders, List.count_append, List.count_singleton_self, placeholders]
      rw [readPath_of_missing hnum, List.map_append, map_className_readComp] at hlevels
      have hlevels' : instanceCount objectPathName + 1 ≤ supportedIndexLevel :=
        hmissing ▸ hlevels
      exact ⟨Nat.le_of_succ_le hlevels', fun _ _ => hlevels'⟩

end Writes

/-! ## Queries by path name -/

/-- A query hides what the patterns match, if and only if no path is hidden through a number that is cut
alone.  Accepted patterns and the paths of objects are taken apart inside of the form; any other path is,
if and only if there is a place for each of its instances. -/
theorem queryPathName_iff (env : ModelEnv) (objectPathList text : List Char)
    (patterns : List ObjPathIdx) (comps : List (List Char))
    (hmodel : env.runningDataModel = .tr98) (htable : WellNamed env.table)
    (haccepted : zcfgSetQueryNotReplyObjects env objectPathList = some patterns)
    (hpath : NamesObject env.table comps) (htext : IsPathText comps text)
    (hlen : text.length ≤ 256) :
    ((zcfgQueryPathNameNotReplied env patterns text = .noSuchObject ↔
        ∃ pattern ∈ readPatterns env objectPathList, Matches pattern (readPath env text)) ↔
      ((∃ pattern ∈ readPatterns env objectPathList,
          Matches (pattern.map PathComp.cut) (readPath env text)) →
        ∃ pattern ∈ readPatterns env objectPathList, Matches pattern (readPath env text))) ∧
    (∀ name ∈ (objectPathList.splitOn ',').filter (· ≠ []),
      objectPathToObjPathIdxWrites env name ≠ none) ∧
    objectPathToObjPathIdxWrites env text ≠ none ∧
    ∀ name, objectPathToObjPathIdxWrites env name ≠ none ↔ InBounds env name := by
  have hqueried := hpath.queried htable htext
  have hcut : (∃ pattern ∈ readPatterns env objectPathList,
      Matches pattern (readPath env text)) →
        ∃ pattern ∈ readPatterns env objectPathList,
          Matches (pattern.map PathComp.cut) (readPath env text) := by
    rintro ⟨pattern, hpattern, hmatch⟩
    exact ⟨pattern, hpattern, matches_cut hqueried hmatch⟩
  have hwrites := inBounds_iff hmodel htable
  refine ⟨?_, ?_, ?_, hwrites⟩
  · rw [queryPathName_cut_iff hmodel htable haccepted hpath htext hlen]
    exact ⟨fun h => h.mp, fun h => ⟨h, hcut⟩⟩
  · intro name hname
    obtain ⟨pattern, hpattern⟩ := exists_of_accepted haccepted name hname
    exact (hwrites name).mpr (inBounds_of_accepted hmodel htable hpattern)
  · obtain ⟨Q, hQ⟩ := hpath.exists_read hmodel htable htext hlen
    exact (hwrites text).mpr (inBounds_of_accepted hmodel htable hQ)

theorem lanEnv_wellNamed : WellNamed lanEnv.table := by
  intro name hname
  rw [lanEnv, List.mem_cons, List.mem_cons, List.mem_singleton] at hname
  rcases hname with rfl | rfl | rfl
  · exact ⟨["InternetGatewayDevice".toList], by decide +kernel, by constructor <;> decide +kernel⟩
  · exact ⟨["InternetGatewayDevice".toList, "LANDevice".toList, placeholder], by decide +kernel,
      by constructor <;> decide +kernel⟩
  · exact ⟨["InternetGatewayDevice".toList, "LANDevice".toList, placeholder, "Hosts".toList],
      by decide +kernel, by constructor <;> decide +kernel⟩

/-- The components of the first LAN device. -/
def lanComps : List (List Char) :=
  ["InternetGatewayDevice".toList, "LANDevice".toList, "1".toList]

theorem lanComps_names : NamesObject lanEnv.table lanComps := by
  constructor <;> decide +kernel

theorem readPath_lan :
    readPath lanEnv "InternetGatewayDevice.LANDevice.1".toList =
      [.name "InternetGatewayDevice".toList, .name "LANDevice".toList, .number 1] := by
  decide +kernel

/-- All LAN devices are hidden, so the first one is. -/
theorem queryPathName_iff_lan :
    ∃ patterns,
      zcfgSetQueryNotReplyObjects lanEnv "InternetGatewayDevice.LANDevice".toList = some patterns ∧
      (zcfgQueryPathNameNotReplied lanEnv patterns "InternetGatewayDevice.LANDevice.1".toList =
          .noSuchObject ↔
        ∃ pattern ∈ readPatterns lanEnv "InternetGatewayDevice.LANDevice".toList,
          Matches pattern (readPath lanEnv "InternetGatewayDevice.LANDevice.1".toList)) := by
  have hread : readPatterns lanEnv "InternetGatewayDevice.LANDevice".toList =
      [[.name "InternetGatewayDevice".toList, .name "LANDevice".toList, .any]] := by
    decide +kernel
  refine ⟨[⟨101, [-1, 0, 0, 0, 0, 0], "InternetGatewayDevice.LANDevice.i".toList⟩],
    by decide +kernel, ?_⟩
  apply (queryPathName_iff lanEnv "InternetGatewayDevice.LANDevice".toList _ _ lanComps rfl
    lanEnv_wellNamed (by decide +kernel) lanComps_names (.inl (by decide +kernel))
    (by decide +kernel)).1.mpr
  intro _
  rw [hread, readPath_lan]
  refine ⟨_, List.mem_singleton_self _, ?_⟩
  rw [matches_cons_cons_iff, matches_cons_cons_iff, matches_cons_cons_iff]
  exact ⟨rfl, rfl, trivial, matches_nil []⟩

/-- A pattern for the instance 65537 hides the first LAN device, and the seventh index of a path is
written behind the others. -/
theorem queryPathName_fails :
    (∃ patterns,
      zcfgSetQueryNotReplyObjects lanEnv "InternetGatewayDevice.LANDevice.65537".toList =
          some patterns ∧
        NamesObject lanEnv.table lanComps ∧
        IsPathText lanComps "InternetGatewayDevice.LANDevice.1".toList ∧
        zcfgQueryPathNameNotReplied lanEnv patterns "InternetGatewayDevice.LANDevice.1".toList =
          .noSuchObject ∧
        ¬ ∃ pattern ∈ readPatterns lanEnv "InternetGatewayDevice.LANDevice.65537".toList,
          Matches pattern (readPath lanEnv "InternetGatewayDevice.LANDevice.1".toList)) ∧
      objectPathToObjPathIdxWrites lanEnv "InternetGatewayDevice.1.1.1.1.1.1.1".toList = none := by
  have hread : readPatterns lanEnv "InternetGatewayDevice.LANDevice.65537".toList =
      [[.name "InternetGatewayDevice".toList, .name "LANDevice".toList, .number 65537]] := by
    decide +kernel
  refine ⟨⟨[lanPattern], by decide +kernel, lanComps_names, .inl (by decide +kernel),
    by decide +kernel, ?_⟩, by decide +kernel⟩
  rw [hread, readPath_lan]
  rintro ⟨pattern, hpattern, hmatch⟩
  obtain rfl := List.mem_singleton.mp hpattern
  rw [matches_cons_cons_iff, matches_cons_cons_iff, matches_cons_cons_iff] at hmatch
  have hnumber : (65537 : Int) = 1 := hmatch.2.2.1
  exact absurd hnumber (by decide)

end FeTr98
end ZyxelRouter
