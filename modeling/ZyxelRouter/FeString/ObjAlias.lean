import ZyxelRouter.Lib.SplitText
import ZyxelRouter.FeString.ObjName

/-!
# Paths of one instance

{lit}`zcfgFeObjNameToObjId` keeps an instance number in one byte.  Here is what two paths that are
resolved to the same object and index have in common.

Main results:

- Theorem {lit}`map_shown_eq`: apart from numbers and the placeholder, they have the same components.
- Theorem {lit}`pathState_idx`: the byte that is left of a number.
- Theorem {lit}`sameNumbers_iff`: when they have the same instance numbers.
- Theorem {lit}`separated_iff_of_ordinary`: for ordinary paths it depends on the quotients by 256.
-/

namespace ZyxelRouter
namespace FeString

open Lib

/-! ## The components of a path -/

/-- The components behind {lit}`Device`. -/
def components (objName : List Char) : List (List Char) :=
  (tokens (tmpName objName)).tail

/-- What a component is in {lit}`fullPathName`. -/
def shown (token : List Char) : List Char :=
  if allDigits token then placeholder else token

theorem ne_nil_of_mem_tokens {name token : List Char} (h : token ∈ tokens name) : token ≠ [] := by
  simpa using (List.mem_filter.mp h).2

theorem dot_notMem_of_mem_tokens {name token : List Char} (h : token ∈ tokens name) :
    '.' ∉ token :=
  notMem_of_mem_splitOn (List.mem_filter.mp h).1

/-- In front of every path there is {lit}`Device`. -/
theorem tokens_tmpName (objName : List Char) :
    tokens (tmpName objName) = device :: components objName := by
  have hdot : '.' ∉ device := by decide
  have hfirst : ∀ rest, tokens (device ++ '.' :: rest) = device :: tokens rest := by
    intro rest
    rw [tokens, List.splitOn_append_cons_self_of_not_mem hdot, List.filter_cons_of_pos (by decide)]
    rfl
  have hex : ∃ rest, tokens (tmpName objName) = device :: rest := by
    rw [tmpName]
    split
    · rename_i htest
      rw [Bool.or_eq_true, List.isPrefixOf_iff_prefix, beq_iff_eq] at htest
      rcases htest with ⟨rest, rfl⟩ | rfl
      · rw [List.append_assoc, List.singleton_append]
        exact ⟨_, hfirst rest⟩
      · exact ⟨[], by decide⟩
    · exact ⟨_, hfirst objName⟩
  obtain ⟨rest, hrest⟩ := hex
  rw [components, hrest, List.tail_cons]

theorem mem_tokens_of_mem_components {objName token : List Char} (h : token ∈ components objName) :
    token ∈ tokens (tmpName objName) :=
  List.mem_of_mem_tail h

theorem pathState_eq (objName : List Char) :
    pathState objName = (components objName).foldl nameStep
      { fullPathName := device, level := 0, idx := ObjIndex.zero.idx } := by
  rw [pathState, tokens_tmpName]

/-! ## The path that is looked up -/

theorem fullPathName_foldl (ts : List (List Char)) (st : NameState) :
    (ts.foldl nameStep st).fullPathName = st.fullPathName ++ (ts.map shown).flatMap ('.' :: ·) := by
  induction ts generalizing st with
  | nil => simp
  | cons t ts ih =>
      have hstep : (nameStep st t).fullPathName = st.fullPathName ++ '.' :: shown t := by
        rw [nameStep, shown]
        split
        · rfl
        · rfl
      rw [List.foldl_cons, ih, hstep, List.map_cons, List.flatMap_cons, List.append_assoc]

theorem fullPathName_pathState (objName : List Char) :
    (pathState objName).fullPathName = join (device :: (components objName).map shown) := by
  rw [pathState_eq, fullPathName_foldl, join_cons]

/-- The components can be read off the path that is looked up. -/
theorem tokens_fullPathName (objName : List Char) :
    tokens (pathState objName).fullPathName = device :: (components objName).map shown := by
  rw [fullPathName_pathState]
  apply tokens_join (List.cons_ne_nil _ _)
  · intro c hc
    rcases List.mem_cons.mp hc with rfl | hc
    · decide
    · obtain ⟨t, ht, rfl⟩ := List.mem_map.mp hc
      rw [shown]
      split
      · decide
      · exact ne_nil_of_mem_tokens (mem_tokens_of_mem_components ht)
  · intro c hc
    rcases List.mem_cons.mp hc with rfl | hc
    · decide
    · obtain ⟨t, ht, rfl⟩ := List.mem_map.mp hc
      rw [shown]
      split
      · decide
      · exact dot_notMem_of_mem_tokens (mem_tokens_of_mem_components ht)

theorem le_of_findOid {full : List Char} {schema : Schema} {base oid : Nat}
    (h : findOid full schema base = some oid) : base ≤ oid := by
  induction schema generalizing base with
  | nil => cases h
  | cons objInfo schema ih =>
      rw [findOid] at h
      split at h
      · exact Nat.le_of_eq (Option.some.inj h)
      · exact Nat.le_trans (Nat.le_add_right _ _) (ih h)

/-- An object has one name. -/
theorem findOid_injective {full full' : List Char} {schema : Schema} {base oid : Nat}
    (h : findOid full schema base = some oid) (h' : findOid full' schema base = some oid) :
    full = full' := by
  induction schema generalizing base with
  | nil => cases h
  | cons objInfo schema ih =>
      have hpos := size_pos objInfo
      rw [findOid] at h h'
      split at h
      · rename_i hname
        split at h'
        · rename_i hname'
          rw [hname, hname']
        · have hle := le_of_findOid h'
          have hoid := Option.some.inj h
          omega
      · split at h'
        · have hle := le_of_findOid h
          have hoid := Option.some.inj h'
          omega
        · exact ih h h'

/-- Resolving a path: what is found and what is left in the index. -/
theorem of_resolved {schema : Schema} {objName : List Char} {oid : Nat} {objIid : ObjIndex}
    (h : zcfgFeObjNameToObjId schema objName = (some oid, objIid)) :
    findOid (pathState objName).fullPathName schema 0 = some oid ∧
      objIid.idx = (pathState objName).idx ∧
      (pathState objName).level.toNat < supportedIndexLevel := by
  rw [zcfgFeObjNameToObjId] at h
  split at h
  · cases h
  · simp only at h
    split at h
    · cases h
    · rename_i hlevel
      obtain ⟨hfind, hiid⟩ := Prod.mk.inj h
      rw [← hiid]
      exact ⟨hfind, rfl, Nat.not_le.mp hlevel⟩

/-- Apart from numbers and the placeholder, two paths of one object have the same components. -/
theorem map_shown_eq {schema : Schema} {p q : List Char} {oid : Nat} {objIid objIid' : ObjIndex}
    (hp : zcfgFeObjNameToObjId schema p = (some oid, objIid))
    (hq : zcfgFeObjNameToObjId schema q = (some oid, objIid')) :
    (components p).map shown = (components q).map shown := by
  have hfull := findOid_injective (of_resolved hp).1 (of_resolved hq).1
  have htokens := tokens_fullPathName p
  rw [hfull, tokens_fullPathName q] at htokens
  exact (List.cons.inj htokens).2.symm

/-! ## The bytes of the index -/

/-- The number of components in front of the {lit}`j`th that count as numbers. -/
def numbersBefore (ts : List (List Char)) (j : Nat) : Nat :=
  (ts.take j).countP allDigits

/-- The byte of the index that the {lit}`j`th component is left in.  The level is a
{lit}`uint8_t`, so a byte is written again every 256 numbers. -/
def keptIn (ts : List (List Char)) (j : Nat) : Option Nat :=
  if numbersBefore ts j % 256 < supportedIndexLevel ∧ ts.countP allDigits ≤ numbersBefore ts j + 256
  then some (numbersBefore ts j % 256)
  else none

theorem numbersBefore_succ (t : List Char) (ts : List (List Char)) (j : Nat) :
    numbersBefore (t :: ts) (j + 1) = numbersBefore ts j + if allDigits t then 1 else 0 := by
  rw [numbersBefore, List.take_succ_cons, List.countP_cons]
  rfl

theorem level_nameStep {st : NameState} {m : Nat} (hlevel : st.level.toNat = m % 256)
    (t : List Char) :
    (nameStep st t).level.toNat = (m + if allDigits t then 1 else 0) % 256 := by
  rw [nameStep]
  split
  · have hone : (1 : UInt8).toNat = 1 := rfl
    simp only [UInt8.toNat_add, hlevel, hone]
    omega
  · simpa using hlevel

/-- The numbers up to the next round do not touch a byte. -/
theorem idx_untouched {s : Nat} :
    ∀ (ts : List (List Char)) (m : Nat) (st : NameState),
      st.level.toNat = m % 256 →
      (∀ n, m ≤ n → n < m + ts.countP allDigits → n % 256 ≠ s) →
      (ts.foldl nameStep st).idx[s]? = st.idx[s]? := by
  intro ts
  induction ts with
  | nil =>
      intro m st _ _
      rfl
  | cons t ts ih =>
      intro m st hlevel hne
      rw [List.countP_cons] at hne
      rw [List.foldl_cons, ih _ _ (level_nameStep hlevel t)
        (fun n hle hlt => hne n (by omega) (by omega)), nameStep]
      split
      · rename_i hdigits
        rw [if_pos hdigits] at hne
        simp only
        split
        · have hs := hne m (Nat.le_refl m) (by omega)
          rw [hlevel, List.getElem?_set_ne hs]
        · rfl
      · rfl

/-- What is left of a number. -/
theorem idx_foldl {t : List Char} :
    ∀ (ts : List (List Char)) (m j : Nat) (st : NameState),
      st.level.toNat = m % 256 →
      st.idx.length = supportedIndexLevel →
      ts[j]? = some t →
      allDigits t = true →
      (m + numbersBefore ts j) % 256 < supportedIndexLevel →
      m + ts.countP allDigits ≤ m + numbersBefore ts j + 256 →
      (ts.foldl nameStep st).idx[(m + numbersBefore ts j) % 256]? = some (idxOf t) := by
  intro ts
  induction ts with
  | nil =>
      intro m j st _ _ hget
      cases hget
  | cons u ts ih =>
      intro m j st hlevel hlen hget hdigits hslot hround
      rw [List.foldl_cons]
      cases j with
      | zero =>
          have hu : u = t := by simpa using hget
          subst hu
          have hzero : numbersBefore (u :: ts) 0 = 0 := rfl
          rw [List.countP_cons, hdigits, hzero] at hround
          rw [hzero] at hslot ⊢
          have hnext := level_nameStep hlevel u
          rw [if_pos hdigits] at hnext
          rw [idx_untouched ts _ _ hnext]
          · have hlt : st.level.toNat < supportedIndexLevel := by
              rw [hlevel]
              exact hslot
            rw [nameStep, if_pos hdigits]
            simp only [if_pos hlt]
            rw [hlevel, Nat.add_zero, List.getElem?_set_self]
            rw [hlen, ← hlevel]
            exact hlt
          · intro n hle hlt
            simp only [if_true] at hround
            omega
      | succ j =>
          rw [numbersBefore_succ] at hslot hround ⊢
          rw [List.countP_cons] at hround
          have hsum : m + (numbersBefore ts j + if allDigits u then 1 else 0) =
              (m + if allDigits u then 1 else 0) + numbersBefore ts j := by omega
          rw [hsum] at hslot ⊢
          exact ih _ j _ (level_nameStep hlevel u) (by rw [length_idx_nameStep, hlen])
            (by simpa using hget) hdigits hslot (by omega)

/-- The byte that is left of a number of a path. -/
theorem pathState_idx {objName t : List Char} {j s : Nat} (hget : (components objName)[j]? = some t)
    (hdigits : allDigits t = true) (hkept : keptIn (components objName) j = some s) :
    (pathState objName).idx[s]? = some (idxOf t) := by
  rw [keptIn] at hkept
  split at hkept
  · rename_i hround
    obtain rfl := Option.some.inj hkept
    have h := idx_foldl (components objName) 0 j
      { fullPathName := device, level := 0, idx := ObjIndex.zero.idx } rfl
      ObjIndex.zero.idx_length hget hdigits (by rw [Nat.zero_add]; exact hround.1)
      (by rw [Nat.zero_add, Nat.zero_add]; exact hround.2)
    rw [Nat.zero_add] at h
    rw [pathState_eq]
    exact h
  · cases hkept

/-! ## Instance numbers -/

/-- The instance number that a component is, if it is one. -/
def number (token : List Char) : Option Nat :=
  if token.all Char.isDigit then some (digitsValue token) else none

/-- The instance numbers of a path, component by component. -/
def instanceNumbers (objName : List Char) : List (Option Nat) :=
  (components objName).map number

/-- The {lit}`j`th components are left in the same byte of the index. -/
def SameByte (p q : List Char) (j : Nat) : Prop :=
  keptIn (components p) j = keptIn (components q) j ∧ (keptIn (components p) j).isSome

/-- Numbers are opposite to numbers, and they agree in what the index has no room for. -/
structure Separated (p q : List Char) : Prop where
  opposite : ∀ j : Nat, ((instanceNumbers p)[j]?.bind id).isSome =
    ((instanceNumbers q)[j]?.bind id).isSome
  quotient : ∀ (j v w : Nat), (instanceNumbers p)[j]? = some (some v) →
    (instanceNumbers q)[j]? = some (some w) → SameByte p q j → v / 256 = w / 256
  lost : ∀ (j v w : Nat), (instanceNumbers p)[j]? = some (some v) →
    (instanceNumbers q)[j]? = some (some w) → ¬ SameByte p q j → v = w

theorem of_number {objName : List Char} {j v : Nat}
    (h : (instanceNumbers objName)[j]? = some (some v)) :
    ∃ t, (components objName)[j]? = some t ∧ allDigits t = true ∧
      (idxOf t).toNat = v % 256 := by
  rw [instanceNumbers, List.getElem?_map, Option.map_eq_some_iff] at h
  obtain ⟨t, hget, hnumber⟩ := h
  rw [number] at hnumber
  split at hnumber
  · rename_i hall
    rw [List.all_eq_true] at hall
    refine ⟨t, hget, ?_, ?_⟩
    · rw [allDigits, List.all_eq_true]
      exact fun c hc => hall c (List.mem_of_mem_take hc)
    · have hne : t ≠ [] :=
        ne_nil_of_mem_tokens (mem_tokens_of_mem_components (List.mem_of_getElem? hget))
      rw [idxOf, atoi_digits hne hall, ← Option.some.inj hnumber, UInt8.toNat_ofNat']
      omega
  · cases hnumber

/-- Numbers in the same byte of one index agree modulo 256. -/
theorem mod_eq_of_sameByte {p q : List Char} {j v w : Nat}
    (hidx : (pathState p).idx = (pathState q).idx) (hsame : SameByte p q j)
    (hv : (instanceNumbers p)[j]? = some (some v))
    (hw : (instanceNumbers q)[j]? = some (some w)) : v % 256 = w % 256 := by
  obtain ⟨t, htget, htdigits, htidx⟩ := of_number hv
  obtain ⟨u, huget, hudigits, huidx⟩ := of_number hw
  obtain ⟨s, hs⟩ := Option.isSome_iff_exists.mp hsame.2
  have hp := pathState_idx htget htdigits hs
  have hq := pathState_idx huget hudigits (hsame.1 ▸ hs)
  rw [hidx, hq] at hp
  rw [← htidx, ← huidx, Option.some.inj hp]

/-- Two paths that are resolved to the same object and index have the same instance numbers if and
only if numbers are opposite to numbers and agree in what the index has no room for: in the quotient
by 256, or altogether if they are not left in the same byte. -/
theorem sameNumbers_iff (schema : Schema) (p q : List Char) (oid : Nat) (objIid : ObjIndex)
    (hp : zcfgFeObjNameToObjId schema p = (some oid, objIid))
    (hq : zcfgFeObjNameToObjId schema q = (some oid, objIid)) :
    instanceNumbers p = instanceNumbers q ↔ Separated p q := by
  have hidx : (pathState p).idx = (pathState q).idx := by
    rw [← (of_resolved hp).2.1, (of_resolved hq).2.1]
  have hlen : (instanceNumbers p).length = (instanceNumbers q).length := by
    have h := congrArg List.length (map_shown_eq hp hq)
    rw [List.length_map, List.length_map] at h
    rw [instanceNumbers, instanceNumbers, List.length_map, List.length_map, h]
  constructor
  · intro h
    have heq : ∀ {j v w : Nat}, (instanceNumbers p)[j]? = some (some v) →
        (instanceNumbers q)[j]? = some (some w) → v = w := by
      intro j v w hv hw
      rw [h, hw] at hv
      exact (Option.some.inj (Option.some.inj hv)).symm
    constructor
    · intro j
      rw [h]
    · intro j v w hv hw _
      rw [heq hv hw]
    · intro j v w hv hw _
      exact heq hv hw
  · intro h
    apply List.ext_getElem?
    intro j
    by_cases hj : j < (instanceNumbers p).length
    · have hside := h.opposite j
      have hpj := List.getElem?_eq_getElem hj
      have hqj := List.getElem?_eq_getElem (hlen ▸ hj)
      rw [hpj, hqj] at hside ⊢
      congr 1
      generalize hv : (instanceNumbers p)[j] = a at hside hpj ⊢
      generalize hw : (instanceNumbers q)[j] = b at hside hqj ⊢
      cases a with
      | none =>
          cases b with
          | none => rfl
          | some w => cases hside
      | some v =>
          cases b with
          | none => cases hside
          | some w =>
              congr 1
              by_cases hsame : SameByte p q j
              · have hmod := mod_eq_of_sameByte hidx hsame hpj hqj
                have hquot := h.quotient j v w hpj hqj hsame
                omega
              · exact h.lost j v w hpj hqj hsame
    · rw [List.getElem?_eq_none (Nat.not_lt.mp hj), List.getElem?_eq_none (hlen ▸ Nat.not_lt.mp hj)]

/-- {lit}`Device.X.i`. -/
def deviceX : ObjInfo :=
  { name := join [device, ['X'], placeholder], count := 2 }

/-- The first instance, with one level. -/
def firstInstance : ObjIndex :=
  { level := 1, idx := [1, 0, 0, 0, 0, 0], idx_length := rfl }

/-- No number has more than one digit and a zero in front. -/
def NoLeadingZeros (objName : List Char) : Prop :=
  ∀ token ∈ components objName, token.all Char.isDigit → 1 < token.length → token.head? ≠ some '0'

instance (objName : List Char) : Decidable (NoLeadingZeros objName) :=
  inferInstanceAs (Decidable (∀ token ∈ components objName,
    token.all Char.isDigit → 1 < token.length → token.head? ≠ some '0'))

/-- {lit}`Device.X.1` and {lit}`X.1`. -/
theorem sameNumbers_relative :
    Separated (join [device, ['X'], ['1']]) (join [['X'], ['1']]) :=
  (sameNumbers_iff [deviceX] (join [device, ['X'], ['1']]) (join [['X'], ['1']]) 0 firstInstance
    (by decide) (by decide)).mp (by decide)

/-- {lit}`Device.X.257` is resolved to the instance {lit}`Device.X.1`. -/
theorem resolves_257_to_1 :
    zcfgFeObjNameToObjId [deviceX] (join [device, ['X'], ['1']]) = (some 0, firstInstance) ∧
      zcfgFeObjNameToObjId [deviceX] (join [device, ['X'], ['2', '5', '7']]) =
        (some 0, firstInstance) ∧
      NoLeadingZeros (join [device, ['X'], ['1']]) ∧
      NoLeadingZeros (join [device, ['X'], ['2', '5', '7']]) ∧
      instanceNumbers (join [device, ['X'], ['1']]) ≠
        instanceNumbers (join [device, ['X'], ['2', '5', '7']]) := by
  decide

/-! ## Ordinary paths -/

/-- A path with fewer than 256 numbers, without the placeholder and without components too long for
a {lit}`uint16_t`. -/
structure Ordinary (objName : List Char) : Prop where
  concrete : placeholder ∉ components objName
  short : ∀ token ∈ components objName, token.length < 65536
  few : (components objName).countP allDigits < 256

/-- The components that count as numbers can be seen in the path that is looked up. -/
theorem map_allDigits_eq {ts us : List (List Char)} (hts : placeholder ∉ ts) (hus : placeholder ∉ us)
    (h : ts.map shown = us.map shown) : ts.map allDigits = us.map allDigits := by
  have hshown : ∀ t : List Char, t ≠ placeholder → allDigits t = decide (shown t = placeholder) := by
    intro t ht
    rw [shown]
    split
    · rename_i hdigits
      simp [hdigits]
    · rename_i hdigits
      simp [hdigits, ht]
  have hmap : ∀ ts : List (List Char), placeholder ∉ ts →
      ts.map allDigits = (ts.map shown).map (fun t => decide (t = placeholder)) := by
    intro ts hts
    rw [List.map_map]
    apply List.map_congr_left
    intro t ht
    exact hshown t (fun heq => hts (heq ▸ ht))
  rw [hmap ts hts, hmap us hus, h]

theorem countP_eq_count (ts : List (List Char)) :
    ts.countP allDigits = (ts.map allDigits).count true := by
  rw [List.count, List.countP_map]
  congr 1
  ext t
  simp

theorem level_foldl (ts : List (List Char)) {st : NameState} {m : Nat}
    (hlevel : st.level.toNat = m % 256) :
    (ts.foldl nameStep st).level.toNat = (m + ts.countP allDigits) % 256 := by
  induction ts generalizing st m with
  | nil => simpa using hlevel
  | cons t ts ih =>
      rw [List.foldl_cons, ih (level_nameStep hlevel t), List.countP_cons]
      congr 1
      omega

/-- In a path that is resolved, all of the few numbers are kept. -/
theorem keptIn_isSome {schema : Schema} {objName : List Char} {oid : Nat} {objIid : ObjIndex}
    (h : zcfgFeObjNameToObjId schema objName = (some oid, objIid)) (hord : Ordinary objName) (j : Nat) :
    (keptIn (components objName) j).isSome := by
  have hlevel := (of_resolved h).2.2
  rw [pathState_eq, @level_foldl _ _ 0 rfl, Nat.zero_add, Nat.mod_eq_of_lt hord.few] at hlevel
  have hle : numbersBefore (components objName) j ≤ (components objName).countP allDigits :=
    (List.take_sublist j _).countP_le
  have hsix : supportedIndexLevel = 6 := rfl
  rw [keptIn, if_pos ⟨by omega, by omega⟩]
  rfl

theorem numbersBefore_eq {ts us : List (List Char)} (h : ts.map allDigits = us.map allDigits) (j : Nat) :
    numbersBefore ts j = numbersBefore us j := by
  rw [numbersBefore, numbersBefore, countP_eq_count, countP_eq_count, List.map_take, List.map_take, h]

theorem number_isSome {token : List Char} (hshort : token.length < 65536) :
    (number token).isSome = allDigits token := by
  rw [number, allDigits_of_short hshort]
  split
  · rename_i hall
    rw [hall]
    rfl
  · rename_i hall
    simpa using hall

theorem map_isSome_instanceNumbers {objName : List Char} (hord : Ordinary objName) :
    (instanceNumbers objName).map Option.isSome = (components objName).map allDigits := by
  rw [instanceNumbers, List.map_map]
  apply List.map_congr_left
  intro t ht
  exact number_isSome (hord.short t ht)

/-- For two ordinary paths of one object it is only the quotients that the index does not tell
apart. -/
theorem separated_iff_of_ordinary {schema : Schema} {p q : List Char} {oid : Nat} {objIid : ObjIndex}
    (hp : zcfgFeObjNameToObjId schema p = (some oid, objIid))
    (hq : zcfgFeObjNameToObjId schema q = (some oid, objIid))
    (hpord : Ordinary p) (hqord : Ordinary q) :
    Separated p q ↔ ∀ (j v w : Nat), (instanceNumbers p)[j]? = some (some v) →
      (instanceNumbers q)[j]? = some (some w) → v / 256 = w / 256 := by
  have hdigits : (components p).map allDigits = (components q).map allDigits :=
    map_allDigits_eq hpord.concrete hqord.concrete (map_shown_eq hp hq)
  have hcount : (components p).countP allDigits = (components q).countP allDigits := by
    rw [countP_eq_count, countP_eq_count, hdigits]
  have hsame : ∀ j, SameByte p q j := by
    intro j
    refine ⟨?_, keptIn_isSome hp hpord j⟩
    rw [keptIn, keptIn, numbersBefore_eq hdigits, hcount]
  have hsome : (instanceNumbers p).map Option.isSome = (instanceNumbers q).map Option.isSome := by
    rw [map_isSome_instanceNumbers hpord, map_isSome_instanceNumbers hqord, hdigits]
  constructor
  · intro h j v w hv hw
    exact h.quotient j v w hv hw (hsame j)
  · intro h
    constructor
    · intro j
      have hj := congrArg (fun bs => bs[j]?) hsome
      simp only [List.getElem?_map] at hj
      cases hpj : (instanceNumbers p)[j]? <;> cases hqj : (instanceNumbers q)[j]? <;>
        simp_all
    · intro j v w hv hw _
      exact h j v w hv hw
    · intro j v w _ _ hne
      exact absurd (hsame j) hne

end FeString
end ZyxelRouter
