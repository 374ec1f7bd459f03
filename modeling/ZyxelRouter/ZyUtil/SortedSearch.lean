import Mathlib.Algebra.Ring.Int.Defs
import Mathlib.Data.Int.Order.Basic
import Mathlib.Order.Compare

/-!
# Searching a sorted array

{lit}`zyUtilSortedArraySearch` of {lit}`common.c` bisects the units {lit}`l` to {lit}`r` of an array with
a compare routine of its caller.  The middle is half the sum of the two bounds, which is an {lit}`int`.

Main results:

- Theorem {lit}`search_outcome`: what the search makes of a part that holds all matching units.
- Theorem {lit}`sumsFit_of_le`: no sum is too large for an array of up to 2^30 + 1 units.
- Theorem {lit}`searchesRight_iff`: the search is right exactly if no sum that it comes to is too large.
-/

namespace ZyxelRouter
namespace ZyUtil

/-! ## The function -/

/-- {lit}`INT_MAX`. -/
def intMax : Int := 2147483647

/-- {lit}`compRout`: what a routine returns for an array, an index and a value, and the unit that it
stores, if it stores one. -/
abbrev CompRout (A V U : Type) : Type :=
  A → Int → V → Int × Option U

section Search

variable {A V U : Type}

/-- The middle lies between the bounds. -/
theorem middle_bounds {l r : Int} (h : l < r) : l ≤ (l + r).tdiv 2 ∧ (l + r).tdiv 2 ≤ r := by
  rcases Int.le_total 0 (l + r) with hpos | hneg
  · rw [Int.tdiv_eq_ediv_of_nonneg hpos]
    omega
  · have hsum : (l + r).tdiv 2 = -((-(l + r)) / 2) := by
      rw [← Int.tdiv_eq_ediv_of_nonneg (by omega), Int.neg_tdiv, Int.neg_neg]
    rw [hsum]
    omega

/-- The search without the tests for null pointers, which come out the same in each call; {lit}`none` is a
sum that an {lit}`int` does not hold. -/
def sectionSearch (array : A) (cr : CompRout A V U) (value : V) (l r : Int) : Option (Option U) :=
  if r < l then some none
  else if l = r then some (cr array l value).2
  else if intMax < l + r then none
  else
    let m := (l + r).tdiv 2
    let (rst, unit) := cr array m value
    if rst = 0 then some unit
    else if 0 < rst then sectionSearch array cr value (m + 1) r
    else sectionSearch array cr value l (m - 1)
termination_by (r - l + 1).toNat
decreasing_by
  · have hm := middle_bounds (l := l) (r := r) (by omega)
    omega
  · have hm := middle_bounds (l := l) (r := r) (by omega)
    omega

/-- {lit}`zyUtilSortedArraySearch`. -/
def zyUtilSortedArraySearch (array : Option A) (cr : Option (CompRout A V U)) (value : Option V)
    (l r : Int) : Option (Option U) :=
  match array, cr, value with
  | some array, some cr, some value => sectionSearch array cr value l r
  | _, _, _ => some none

/-! ## Compare routines -/

/-- What a compare routine promises for an array of {lit}`n` units: {lit}`place` tells whether a unit
comes before the value, matches it or comes behind it, and the units stand in this order. -/
structure Contract (array : A) (cr : CompRout A V U) (value : V) (unit : Int → U)
    (place : U → Ordering) (n : Nat) : Prop where
  equal : ∀ i : Int, 0 ≤ i → i < n → place (unit i) = .eq → cr array i value = (0, some (unit i))
  right : ∀ i : Int, 0 ≤ i → i < n → place (unit i) = .lt →
    0 < (cr array i value).1 ∧ (cr array i value).2 = none
  left : ∀ i : Int, 0 ≤ i → i < n → place (unit i) = .gt →
    (cr array i value).1 < 0 ∧ (cr array i value).2 = none
  before : ∀ i j : Int, 0 ≤ i → i ≤ j → j < n → place (unit j) = .lt → place (unit i) = .lt
  behind : ∀ i j : Int, 0 ≤ i → i ≤ j → j < n → place (unit i) = .gt → place (unit j) = .gt

/-- The sums of the bounds that the search comes to from {lit}`l` and {lit}`r` on. -/
inductive SumsFit (side : Int → Ordering) : Int → Int → Prop where
  | done {l r : Int} (h : r ≤ l) : SumsFit side l r
  | equal {l r : Int} (h : l < r) (fits : l + r ≤ intMax) (m : side ((l + r).tdiv 2) = .eq) :
      SumsFit side l r
  | right {l r : Int} (h : l < r) (fits : l + r ≤ intMax) (m : side ((l + r).tdiv 2) = .lt)
      (rest : SumsFit side ((l + r).tdiv 2 + 1) r) : SumsFit side l r
  | left {l r : Int} (h : l < r) (fits : l + r ≤ intMax) (m : side ((l + r).tdiv 2) = .gt)
      (rest : SumsFit side l ((l + r).tdiv 2 - 1)) : SumsFit side l r

/-- What a search of the units {lit}`l` to {lit}`r` is for. -/
def FoundIn (unit : Int → U) (place : U → Ordering) (l r : Int) : Option U → Prop
  | some u => ∃ i : Int, l ≤ i ∧ i ≤ r ∧ unit i = u ∧ place u = .eq
  | none => ∀ i : Int, l ≤ i → i ≤ r → place (unit i) ≠ .eq

/-- The search ends with a matching unit, or with a null pointer if there is none. -/
def SearchesRight (array : A) (cr : CompRout A V U) (value : V) (unit : Int → U)
    (place : U → Ordering) (n : Nat) : Prop :=
  ∃ result, zyUtilSortedArraySearch (some array) (some cr) (some value) 0 (n - 1) = some result ∧
    FoundIn unit place 0 (n - 1) result

/-! ## The search of a part -/

section Proofs

variable {array : A} {cr : CompRout A V U} {value : V} {unit : Int → U} {place : U → Ordering}
  {n : Nat} {l r : Int}

theorem sectionSearch_empty (h : r < l) : sectionSearch array cr value l r = some none := by
  rw [sectionSearch, if_pos h]

theorem sectionSearch_single : sectionSearch array cr value l l = some (cr array l value).2 := by
  rw [sectionSearch, if_neg (Int.lt_irrefl l), if_pos rfl]

theorem sectionSearch_overflow (h : l < r) (hsum : intMax < l + r) :
    sectionSearch array cr value l r = none := by
  rw [sectionSearch, if_neg (by omega), if_neg (by omega), if_pos hsum]

/-- One turn of the search. -/
theorem sectionSearch_turn (h : l < r) (hsum : l + r ≤ intMax) :
    sectionSearch array cr value l r =
      if (cr array ((l + r).tdiv 2) value).1 = 0 then some (cr array ((l + r).tdiv 2) value).2
      else if 0 < (cr array ((l + r).tdiv 2) value).1 then
        sectionSearch array cr value ((l + r).tdiv 2 + 1) r
      else sectionSearch array cr value l ((l + r).tdiv 2 - 1) := by
  rw [sectionSearch, if_neg (by omega), if_neg (by omega), if_neg (by omega)]

/-- A unit alone is returned if it matches. -/
theorem foundIn_single (h : Contract array cr value unit place n) (hl : 0 ≤ l) (hn : l < n) :
    FoundIn unit place l l (cr array l value).2 := by
  cases hplace : place (unit l) with
  | eq =>
      rw [h.equal l hl hn hplace]
      exact ⟨l, Int.le_refl l, Int.le_refl l, rfl, hplace⟩
  | lt =>
      rw [(h.right l hl hn hplace).2]
      intro i hli hil
      rw [Int.le_antisymm hil hli, hplace]
      decide
  | gt =>
      rw [(h.left l hl hn hplace).2]
      intro i hli hil
      rw [Int.le_antisymm hil hli, hplace]
      decide

/-- The result of the compare routine tells the place. -/
theorem Contract.place_of_eq (h : Contract array cr value unit place n) {i : Int} (hi : 0 ≤ i)
    (hn : i < n) (hrst : (cr array i value).1 = 0) : place (unit i) = .eq := by
  cases hplace : place (unit i) with
  | eq => rfl
  | lt => exact absurd (h.right i hi hn hplace).1 (by omega)
  | gt => exact absurd (h.left i hi hn hplace).1 (by omega)

theorem Contract.place_of_pos (h : Contract array cr value unit place n) {i : Int} (hi : 0 ≤ i)
    (hn : i < n) (hrst : 0 < (cr array i value).1) : place (unit i) = .lt := by
  cases hplace : place (unit i) with
  | eq =>
      rw [h.equal i hi hn hplace] at hrst
      exact absurd hrst (Int.lt_irrefl 0)
  | lt => rfl
  | gt => exact absurd (h.left i hi hn hplace).1 (by omega)

theorem Contract.place_of_neg (h : Contract array cr value unit place n) {i : Int} (hi : 0 ≤ i)
    (hn : i < n) (hrst : (cr array i value).1 < 0) : place (unit i) = .gt := by
  cases hplace : place (unit i) with
  | eq =>
      rw [h.equal i hi hn hplace] at hrst
      exact absurd hrst (Int.lt_irrefl 0)
  | lt => exact absurd (h.right i hi hn hplace).1 (by omega)
  | gt => rfl

/-- If the middle comes before the value, then so does everything in front of it. -/
theorem FoundIn.of_right (h : Contract array cr value unit place n) (hl : 0 ≤ l) {m : Int}
    (hlm : l ≤ m) (hm : m < n) (hplace : place (unit m) = .lt) {result : Option U}
    (hfound : FoundIn unit place (m + 1) r result) : FoundIn unit place l r result := by
  cases result with
  | some u =>
      obtain ⟨i, hmi, hir, hu, heq⟩ := hfound
      exact ⟨i, by omega, hir, hu, heq⟩
  | none =>
      intro i hli hir
      rcases Int.lt_or_le m i with hmi | him
      · exact hfound i hmi hir
      · rw [h.before i m (by omega) him hm hplace]
        decide

/-- If the middle comes behind the value, then so does everything behind it. -/
theorem FoundIn.of_left (h : Contract array cr value unit place n) (hr : r < n) {m : Int}
    (hm : 0 ≤ m) (hmr : m ≤ r) (hplace : place (unit m) = .gt) {result : Option U}
    (hfound : FoundIn unit place l (m - 1) result) : FoundIn unit place l r result := by
  cases result with
  | some u =>
      obtain ⟨i, hli, him, hu, heq⟩ := hfound
      exact ⟨i, hli, by omega, hu, heq⟩
  | none =>
      intro i hli hir
      rcases Int.lt_or_le i m with him | hmi
      · exact hfound i hli (by omega)
      · rw [h.behind m i hm hmi (by omega) hplace]
        decide

/-- If the middle comes before the value, the sums are those of the right part. -/
theorem SumsFit.right_iff {side : Int → Ordering} (h : l < r) (fits : l + r ≤ intMax)
    (m : side ((l + r).tdiv 2) = .lt) :
    SumsFit side l r ↔ SumsFit side ((l + r).tdiv 2 + 1) r := by
  constructor
  · intro hsums
    cases hsums with
    | done hdone => omega
    | equal _ _ hside => exact absurd (m.symm.trans hside) (by decide)
    | right _ _ _ rest => exact rest
    | left _ _ hside => exact absurd (m.symm.trans hside) (by decide)
  · exact .right h fits m

/-- If the middle comes behind the value, the sums are those of the left part. -/
theorem SumsFit.left_iff {side : Int → Ordering} (h : l < r) (fits : l + r ≤ intMax)
    (m : side ((l + r).tdiv 2) = .gt) :
    SumsFit side l r ↔ SumsFit side l ((l + r).tdiv 2 - 1) := by
  constructor
  · intro hsums
    cases hsums with
    | done hdone => omega
    | equal _ _ hside => exact absurd (m.symm.trans hside) (by decide)
    | right _ _ hside => exact absurd (m.symm.trans hside) (by decide)
    | left _ _ _ rest => exact rest
  · exact .left h fits m

/-- What the search makes of the units {lit}`l` to {lit}`r`. -/
theorem search_outcome (h : Contract array cr value unit place n) :
    ∀ {l r : Int}, 0 ≤ l → r < n →
      (SumsFit (fun i => place (unit i)) l r ∧
        ∃ result, sectionSearch array cr value l r = some result ∧
          FoundIn unit place l r result) ∨
      ¬ SumsFit (fun i => place (unit i)) l r ∧ sectionSearch array cr value l r = none := by
  intro l r
  induction l, r using sectionSearch.induct array cr value with
  | case1 l r hempty =>
      intro hl hr
      refine .inl ⟨.done (by omega), none, sectionSearch_empty hempty, ?_⟩
      intro i hli hir
      omega
  | case2 l hne =>
      intro hl hr
      exact .inl ⟨.done (Int.le_refl l), _, sectionSearch_single, foundIn_single h hl hr⟩
  | case3 l r hle hne hsum =>
      intro hl hr
      refine .inr ⟨?_, sectionSearch_overflow (by omega) hsum⟩
      intro hfit
      cases hfit <;> omega
  | case4 l r hle hne hsum m u hcr =>
      intro hl hr
      have hlr : l < r := by omega
      have hm := middle_bounds hlr
      have hplace := h.place_of_eq (i := m) (by omega) (by omega) (by rw [hcr])
      have heq := h.equal m (by omega) (by omega) hplace
      refine .inl ⟨.equal hlr (by omega) hplace, some (unit m), ?_, m, hm.1, hm.2, rfl, hplace⟩
      rw [sectionSearch_turn hlr (by omega), if_pos (by rw [heq]), heq]
  | case5 l r hle hne hsum m rst u hcr hzero hpos ih =>
      intro hl hr
      have hlr : l < r := by omega
      have hm := middle_bounds hlr
      have hplace := h.place_of_pos (i := m) (by omega) (by omega) (by rw [hcr]; exact hpos)
      have hturn : sectionSearch array cr value l r = sectionSearch array cr value (m + 1) r := by
        rw [sectionSearch_turn hlr (by omega), if_neg (by rw [hcr]; exact hzero),
          if_pos (by rw [hcr]; exact hpos)]
      rw [hturn, SumsFit.right_iff hlr (by omega) hplace]
      rcases ih (by omega) hr with ⟨hfit, result, hresult, hfound⟩ | hoverflow
      · exact .inl ⟨hfit, result, hresult, hfound.of_right h hl hm.1 (by omega) hplace⟩
      · exact .inr hoverflow
  | case6 l r hle hne hsum m rst u hcr hzero hpos ih =>
      intro hl hr
      have hlr : l < r := by omega
      have hm := middle_bounds hlr
      have hplace := h.place_of_neg (i := m) (by omega) (by omega) (by rw [hcr]; show rst < 0; omega)
      have hturn : sectionSearch array cr value l r = sectionSearch array cr value l (m - 1) := by
        rw [sectionSearch_turn hlr (by omega), if_neg (by rw [hcr]; exact hzero),
          if_neg (by rw [hcr]; exact hpos)]
      rw [hturn, SumsFit.left_iff hlr (by omega) hplace]
      rcases ih hl (by omega) with ⟨hfit, result, hresult, hfound⟩ | hoverflow
      · exact .inl ⟨hfit, result, hresult, hfound.of_left h hr (by omega) hm.2 hplace⟩
      · exact .inr hoverflow

/-! ## The whole array -/

/-- The sums of up to 2^30 + 1 units are all small. -/
theorem sumsFit_of_le {side : Int → Ordering} :
    ∀ {l r : Int}, 0 ≤ l → r ≤ 2 ^ 30 → SumsFit side l r := by
  intro l r
  induction hsize : (r - l + 1).toNat using Nat.strongRecOn generalizing l r with
  | _ size ih =>
      intro hl hr
      rcases Int.lt_or_le l r with hlr | hrl
      · have hm := middle_bounds hlr
        have hfits : l + r ≤ intMax := by
          unfold intMax
          omega
        cases hside : side ((l + r).tdiv 2) with
        | eq => exact .equal hlr hfits hside
        | lt => exact .right hlr hfits hside (ih _ (by omega) rfl (by omega) hr)
        | gt => exact .left hlr hfits hside (ih _ (by omega) rfl hl (by omega))
      · exact .done hrl

end Proofs

end Search

/-- The search is right exactly if every sum of bounds that it comes to is an {lit}`int`. -/
theorem searchesRight_iff {A V U : Type} {array : A} {cr : CompRout A V U} {value : V}
    {unit : Int → U} {place : U → Ordering} {n : Nat}
    (h : Contract array cr value unit place n) :
    SearchesRight array cr value unit place n ↔
      SumsFit (fun i => place (unit i)) 0 (n - 1) := by
  rcases search_outcome h (Int.le_refl 0) (show (n : Int) - 1 < n by omega) with
    ⟨hfit, hfound⟩ | ⟨hfit, hnone⟩
  · exact iff_of_true hfound hfit
  · refine iff_of_false ?_ hfit
    rintro ⟨result, hresult, -⟩
    have hsome : sectionSearch array cr value 0 (n - 1) = some result := hresult
    rw [hnone] at hsome
    cases hsome

/-- The numbers from zero on as an array. -/
def compareInt : CompRout Unit Int Int :=
  fun _ i v => if i < v then (1, none) else if v < i then (-1, none) else (0, some i)

theorem compareInt_contract (v : Int) (n : Nat) :
    Contract () compareInt v id (compare · v) n where
  equal i _ _ hplace := by
    have heq : i = v := compare_eq_iff_eq.mp hplace
    rw [compareInt, if_neg (by omega), if_neg (by omega)]
    rfl
  right i _ _ hplace := by
    have hlt : i < v := compare_lt_iff_lt.mp hplace
    rw [compareInt, if_pos hlt]
    exact ⟨by decide, rfl⟩
  left i _ _ hplace := by
    have hgt : v < i := compare_gt_iff_gt.mp hplace
    rw [compareInt, if_neg (by omega), if_pos hgt]
    exact ⟨by decide, rfl⟩
  before i j _ hij _ hplace := by
    have hlt : j < v := compare_lt_iff_lt.mp hplace
    exact compare_lt_iff_lt.mpr (show i < v by omega)
  behind i j _ hij _ hplace := by
    have hgt : v < i := compare_gt_iff_gt.mp hplace
    exact compare_gt_iff_gt.mpr (show v < j by omega)

/-- A thousand numbers are searched right. -/
theorem searchesRight_thousand : SearchesRight () compareInt 700 id (compare · 700) 1000 :=
  (searchesRight_iff (compareInt_contract 700 1000)).mpr
    (sumsFit_of_le (Int.le_refl 0) (by decide))

/-- The last of 2^31 - 1 numbers is not found. -/
theorem last_not_found :
    Contract () compareInt 2147483646 id (compare · 2147483646) 2147483647 ∧
      ¬ SearchesRight () compareInt 2147483646 id (compare · 2147483646) 2147483647 := by
  refine ⟨compareInt_contract _ _, ?_⟩
  rintro ⟨result, hresult, -⟩
  have hsome : sectionSearch () compareInt 2147483646 0 2147483646 = some result := hresult
  have hm : ((0 : Int) + 2147483646).tdiv 2 = 1073741823 := by decide
  have hcr : compareInt () 1073741823 2147483646 = (1, none) := by decide
  rw [sectionSearch_turn (by decide) (by decide), hm, hcr, if_neg (by decide),
    if_pos (by decide), sectionSearch_overflow (by decide) (by decide)] at hsome
  cases hsome

end ZyUtil
end ZyxelRouter
