import ZyxelRouter.Lib.SkipCount
import ZyxelRouter.Nmbm.Attach

/-!
# NMBM: walks over good blocks

What {lit}`nmbm_block_walk` and {lit}`nmbm_try_reserve_blocks` return, by the number of good blocks between
the start and the limit.

Main results:

- Theorems {lit}`nmbmBlockWalkAsc_iff`, {lit}`nmbmBlockWalkDesc_iff`: where a walk stops.
- Theorem {lit}`tryReserveLoop_eq`: the loop of {lit}`nmbm_try_reserve_blocks` takes the largest number of
  blocks that can be skipped.
- Theorem {lit}`blockWalk_iff`: both functions by the numbers of good blocks.
-/

namespace ZyxelRouter
namespace Nmbm

open Lib

/-! ## Reserving -/

/-- The loop of {lit}`nmbm_try_reserve_blocks`; {lit}`nblocks` goes to the walk as a {lit}`uint32_t`. -/
def tryReserveLoop (nld : LowerDevice) (ni : NmbmInstance) (ba : Nat) (minCount : Int) (limit : Nat)
    (nblocks : Int) : Option Nat :=
  if minCount ≤ nblocks then
    match nmbmBlockWalk nld ni true ba (wordOf 4 nblocks) limit with
    | some nba => some nba
    | none => tryReserveLoop nld ni ba minCount limit (nblocks - 1)
  else none
termination_by (nblocks - minCount + 1).toNat
decreasing_by omega

/-- {lit}`nmbm_try_reserve_blocks` for any {lit}`uint32_t count`. -/
def nmbmTryReserveBlocksFull (nld : LowerDevice) (ni : NmbmInstance) (ba count : Nat) (minCount : Int)
    (limit : Nat) : Option Nat :=
  tryReserveLoop nld ni ba minCount limit (signedOf 4 (u32 count))

/-! ## Good blocks -/

/-- A block is good. -/
def isGood (ni : NmbmInstance) (ba : Nat) : Bool :=
  nmbmGetBlockState ni ba = blockStGood

/-- The number of good blocks from {lit}`lo` to {lit}`hi`, without {lit}`hi`. -/
def goodBetween (ni : NmbmInstance) (lo hi : Nat) : Nat :=
  (List.range' lo (hi - lo)).countP (isGood ni)

/-- The good block behind {lit}`count` others from {lit}`ba` up. -/
structure AscStop (ni : NmbmInstance) (ba limit count nba : Nat) : Prop where
  start : ba ≤ nba
  stop : nba < limit
  good : isGood ni nba = true
  skipped : goodBetween ni ba nba = count

/-- The good block behind {lit}`count` others from {lit}`ba` down. -/
structure DescStop (ni : NmbmInstance) (ba limit count nba : Nat) : Prop where
  start : nba ≤ ba
  stop : limit < nba
  good : isGood ni nba = true
  skipped : goodBetween ni (nba + 1) (ba + 1) = count

variable {nld : LowerDevice} {ni : NmbmInstance} {ba limit count : Nat}

/-! ## Walks -/

theorem walkAsc_eq (ni : NmbmInstance) :
    ∀ (n ba : Nat) (nblock : Int), walkAsc ni n ba nblock = skipCount (isGood ni) n ba nblock := by
  intro n
  induction n with
  | zero =>
      intro ba nblock
      rfl
  | succ n ih =>
      intro ba nblock
      simp only [walkAsc, skipCount, isGood, decide_eq_true_eq, ih]

theorem walkDesc_eq (ni : NmbmInstance) (ba : Nat) :
    ∀ (n k : Nat) (nblock : Int),
      walkDesc ni n (ba - k) nblock =
        (skipCount (fun i => isGood ni (ba - i)) n k nblock).map (ba - ·) := by
  intro n
  induction n with
  | zero =>
      intro k nblock
      rfl
  | succ n ih =>
      intro k nblock
      have hnext := ih (k + 1)
      rw [← Nat.sub_sub] at hnext
      simp only [walkDesc, skipCount, isGood, decide_eq_true_eq, hnext]
      split
      · split
        · rfl
        · rfl
      · split
        · rfl
        · rfl

/-- A count of an {lit}`int32_t` comes through the conversions. -/
theorem signedOf_u32 (hcount : count < 2 ^ 31) : signedOf 4 (u32 count) = count := by
  rw [u32, Nat.mod_eq_of_lt (by omega), signedOf, if_pos (by norm_num; omega)]

/-- The good blocks on the way down, from the start on. -/
theorem countP_down {j : Nat} (hj : j ≤ ba) :
    (List.range' 0 j).countP (fun i => isGood ni (ba - i)) = goodBetween ni (ba - j + 1) (ba + 1) := by
  have hmap : (List.range' (ba - j + 1) j).reverse = (List.range j).map (ba - ·) := by
    rw [List.reverse_range']
    apply List.map_congr_left
    intro i _
    omega
  have hlen : ba + 1 - (ba - j + 1) = j := by omega
  rw [goodBetween, hlen, ← List.countP_reverse (l := List.range' (ba - j + 1) j), hmap, List.countP_map,
    List.range_eq_range']
  rfl

/-- Where the walk up stops. -/
theorem nmbmBlockWalkAsc_iff (hcount : count < 2 ^ 31) (hlimit : limit < nld.blockCount) :
    ((nmbmBlockWalkAsc nld ni ba count limit).isSome ↔ count < goodBetween ni ba limit) ∧
      ∀ nba, nmbmBlockWalkAsc nld ni ba count limit = some nba ↔ AscStop ni ba limit count nba := by
  have hwalk : nmbmBlockWalkAsc nld ni ba count limit =
      skipCount (isGood ni) (limit - ba) ba count := by
    rw [nmbmBlockWalkAsc, if_neg (Nat.not_le.mpr hlimit), signedOf_u32 hcount, walkAsc_eq]
  rw [hwalk]
  refine ⟨skipCount_isSome_iff _ _ _ _, fun nba => ?_⟩
  rw [skipCount_eq_some_iff]
  constructor
  · rintro ⟨hstart, hstop, hgood, hskipped⟩
    exact ⟨hstart, by omega, hgood, hskipped⟩
  · rintro ⟨hstart, hstop, hgood, hskipped⟩
    exact ⟨hstart, by omega, hgood, hskipped⟩

/-- Where the walk down stops. -/
theorem nmbmBlockWalkDesc_iff (hcount : count < 2 ^ 31) (hlimit : limit < nld.blockCount) :
    ((nmbmBlockWalkDesc nld ni ba count limit).isSome ↔
        count < goodBetween ni (limit + 1) (ba + 1)) ∧
      ∀ nba, nmbmBlockWalkDesc nld ni ba count limit = some nba ↔ DescStop ni ba limit count nba := by
  have hwalk : nmbmBlockWalkDesc nld ni ba count limit =
      (skipCount (fun i => isGood ni (ba - i)) (ba - limit) 0 count).map (ba - ·) := by
    rw [nmbmBlockWalkDesc, if_neg (Nat.not_le.mpr hlimit), signedOf_u32 hcount]
    exact walkDesc_eq ni ba (ba - limit) 0 count
  rw [hwalk, Option.isSome_map, skipCount_isSome_iff]
  constructor
  · rcases Nat.le_total limit ba with hle | hle
    · rw [countP_down (Nat.sub_le ba limit), Nat.sub_sub_self hle]
    · have hnone : ba + 1 - (limit + 1) = 0 := by omega
      rw [Nat.sub_eq_zero_of_le hle, goodBetween, hnone]
      rfl
  · intro nba
    rw [Option.map_eq_some_iff]
    constructor
    · rintro ⟨j, hj, rfl⟩
      obtain ⟨-, hjn, hgood, hskipped⟩ := (skipCount_eq_some_iff _ _ _ _ _).mp hj
      rw [Nat.sub_zero, countP_down (by omega)] at hskipped
      exact ⟨Nat.sub_le ba j, by omega, hgood, hskipped⟩
    · rintro ⟨hstart, hstop, hgood, hskipped⟩
      have hback : ba - (ba - nba) = nba := Nat.sub_sub_self hstart
      refine ⟨ba - nba, ?_, hback⟩
      rw [skipCount_eq_some_iff, hback, Nat.sub_zero, countP_down (Nat.sub_le ba nba), hback]
      exact ⟨Nat.zero_le _, by omega, hgood, hskipped⟩

/-! ## Reserving as many blocks as possible -/

theorem wordOf_count (hcount : count < 2 ^ 31) : wordOf 4 (count : Int) = count := by
  rw [wordOf]
  omega

/-- The loop stops at the walk over the largest number of blocks that can be skipped. -/
theorem tryReserveLoop_eq {minCount : Nat} (hlimit : limit < nld.blockCount) :
    ∀ {count : Nat}, count < 2 ^ 31 →
      tryReserveLoop nld ni ba minCount limit count =
        if minCount ≤ count ∧ minCount < goodBetween ni ba limit then
          nmbmBlockWalkAsc nld ni ba (min count (goodBetween ni ba limit - 1)) limit
        else none := by
  intro count
  induction count with
  | zero =>
      intro hcount
      have hwalk := @nmbmBlockWalkAsc_iff nld ni ba limit _ hcount hlimit
      rw [tryReserveLoop]
      by_cases hmin : minCount = 0
      · subst hmin
        rw [if_pos (by omega), wordOf_count hcount, Nat.zero_min]
        simp only [nmbmBlockWalk, if_true]
        cases hfirst : nmbmBlockWalkAsc nld ni ba 0 limit with
        | some nba =>
            have hpos := hwalk.1.mp (by rw [hfirst]; rfl)
            rw [if_pos ⟨Nat.le_refl 0, hpos⟩]
        | none =>
            have hnot : ¬ 0 < goodBetween ni ba limit := fun hpos => by
              have hsome := hwalk.1.mpr hpos
              rw [hfirst] at hsome
              cases hsome
            rw [if_neg (fun h => hnot h.2)]
            simp only
            rw [tryReserveLoop, if_neg (by omega)]
      · rw [if_neg (by omega), if_neg (by omega)]
  | succ count ih =>
      intro hcount
      have hwalk := @nmbmBlockWalkAsc_iff nld ni ba limit _ hcount hlimit
      rw [tryReserveLoop]
      by_cases hmin : minCount ≤ count + 1
      · rw [if_pos (by omega), wordOf_count hcount]
        simp only [nmbmBlockWalk, if_true]
        cases hfirst : nmbmBlockWalkAsc nld ni ba (count + 1) limit with
        | some nba =>
            have hmore := hwalk.1.mp (by rw [hfirst]; rfl)
            rw [if_pos ⟨hmin, by omega⟩, Nat.min_eq_left (by omega), hfirst]
        | none =>
            have hfew : ¬ count + 1 < goodBetween ni ba limit := fun hmore => by
              have hsome := hwalk.1.mpr hmore
              rw [hfirst] at hsome
              cases hsome
            have hprev : ((count + 1 : Nat) : Int) - 1 = count := by omega
            simp only [hprev]
            rw [ih (by omega)]
            by_cases henough : minCount < goodBetween ni ba limit
            · rw [if_pos ⟨by omega, henough⟩, if_pos ⟨hmin, henough⟩,
                Nat.min_eq_right (by omega), Nat.min_eq_right (by omega)]
            · rw [if_neg (fun h => henough h.2), if_neg (fun h => henough h.2)]
      · rw [if_neg (by omega), if_neg (by omega)]

/-- The loop agrees with the recursion on the number of blocks. -/
theorem tryReserveLoop_nat {minCount : Nat} :
    ∀ {count : Nat}, count < 2 ^ 31 →
      tryReserveLoop nld ni ba minCount limit count =
        nmbmTryReserveBlocks nld ni ba minCount limit count := by
  intro count
  induction count with
  | zero =>
      intro hcount
      rw [tryReserveLoop, nmbmTryReserveBlocks, wordOf_count hcount]
      by_cases hmin : minCount = 0
      · rw [if_pos (by omega), if_neg (by omega)]
        cases nmbmBlockWalk nld ni true ba 0 limit with
        | some nba => rfl
        | none =>
            simp only
            rw [tryReserveLoop, if_neg (by omega)]
      · rw [if_neg (by omega), if_pos (by omega)]
  | succ count ih =>
      intro hcount
      have hprev : ((count + 1 : Nat) : Int) - 1 = count := by omega
      rw [tryReserveLoop, nmbmTryReserveBlocks, wordOf_count hcount, hprev, ih (by omega)]
      by_cases hmin : minCount ≤ count + 1
      · refine (if_pos (by omega)).trans (Eq.trans ?_ (if_neg (by omega)).symm)
        cases nmbmBlockWalk nld ni true ba (count + 1) limit with
        | some nba => rfl
        | none => rfl
      · rw [if_neg (by omega), if_pos (by omega)]

/-- The loop for a {lit}`uint32_t count`, which is negative as an {lit}`int32_t` from 2^31 on. -/
theorem nmbmTryReserveBlocksFull_iff {minCount : Nat} (hcount : count < 2 ^ 32)
    (hlimit : limit < nld.blockCount) :
    ((nmbmTryReserveBlocksFull nld ni ba count minCount limit).isSome ↔
        (minCount : Int) ≤ signedOf 4 count ∧ minCount < goodBetween ni ba limit) ∧
      ∀ nba, nmbmTryReserveBlocksFull nld ni ba count minCount limit = some nba ↔
        (minCount : Int) ≤ signedOf 4 count ∧ minCount < goodBetween ni ba limit ∧
          AscStop ni ba limit (min count (goodBetween ni ba limit - 1)) nba := by
  have hword : u32 count = count := Nat.mod_eq_of_lt hcount
  rw [nmbmTryReserveBlocksFull, hword]
  rcases Nat.lt_or_ge count (2 ^ 31) with hsmall | hlarge
  · have hsigned : signedOf 4 count = count := by
      have hsigned := signedOf_u32 hsmall
      rwa [hword] at hsigned
    have hmin : min count (goodBetween ni ba limit - 1) < 2 ^ 31 := by omega
    have hwalk := @nmbmBlockWalkAsc_iff nld ni ba limit _ hmin hlimit
    rw [hsigned, tryReserveLoop_eq hlimit hsmall]
    by_cases hfits : minCount ≤ count ∧ minCount < goodBetween ni ba limit
    · have hsome := hwalk.1.mpr (by omega)
      simp only [if_pos hfits, hsome, hwalk.2, true_iff]
      refine ⟨⟨by omega, hfits.2⟩, fun nba => ?_⟩
      exact ⟨fun h => ⟨by omega, hfits.2, h⟩, fun h => h.2.2⟩
    · rw [if_neg hfits]
      refine ⟨iff_of_false (by simp) (fun h => hfits ⟨by omega, h.2⟩), fun nba => ?_⟩
      exact iff_of_false (by simp) (fun h => hfits ⟨by omega, h.2.1⟩)
  · have hneg : signedOf 4 count < 0 := by
      rw [signedOf, if_neg (by norm_num; omega)]
      norm_num
      omega
    rw [tryReserveLoop, if_neg (by omega)]
    refine ⟨iff_of_false (by simp) (fun h => by omega), fun nba => ?_⟩
    exact iff_of_false (by simp) (fun h => by omega)

/-- The walks stop exactly if there are more than {lit}`count` good blocks, at the one behind that
number; blocks are reserved exactly if {lit}`min_count` is not above {lit}`count` and there are more than
{lit}`min_count` good blocks. -/
theorem blockWalk_iff (nld : LowerDevice) (ni : NmbmInstance) (ba limit : Nat)
    (hlimit : limit < nld.blockCount) :
    (∀ count < 2 ^ 31,
      ((nmbmBlockWalk nld ni true ba count limit).isSome ↔ count < goodBetween ni ba limit) ∧
      ∀ nba, nmbmBlockWalk nld ni true ba count limit = some nba ↔
        AscStop ni ba limit count nba) ∧
    (∀ count < 2 ^ 31,
      ((nmbmBlockWalk nld ni false ba count limit).isSome ↔
        count < goodBetween ni (limit + 1) (ba + 1)) ∧
      ∀ nba, nmbmBlockWalk nld ni false ba count limit = some nba ↔
        DescStop ni ba limit count nba) ∧
    ∀ count < 2 ^ 32, ∀ minCount : Nat,
      ((nmbmTryReserveBlocksFull nld ni ba count minCount limit).isSome ↔
        (minCount : Int) ≤ signedOf 4 count ∧ minCount < goodBetween ni ba limit) ∧
      ∀ nba, nmbmTryReserveBlocksFull nld ni ba count minCount limit = some nba ↔
        (minCount : Int) ≤ signedOf 4 count ∧ minCount < goodBetween ni ba limit ∧
          AscStop ni ba limit (min count (goodBetween ni ba limit - 1)) nba :=
  ⟨fun _ hcount => nmbmBlockWalkAsc_iff hcount hlimit,
    fun _ hcount => nmbmBlockWalkDesc_iff hcount hlimit,
    fun _ hcount _ => nmbmTryReserveBlocksFull_iff hcount hlimit⟩

/-- Sixteen blocks. -/
def sixteenBlocks : LowerDevice where
  maxRatio := 8
  maxReservedBlocks := 0
  create := true
  emptyPageEccOk := false
  readOnly := false
  size := 4096
  erasesize := 256
  writesize := 64
  oobsize := 16
  hasIsBadBlock := true
  hasMarkBadBlock := true
  fates := fun _ _ => ⟨0, .done⟩

/-- A fresh instance, whose blocks are all good. -/
def goodInstance : NmbmInstance :=
  nmbmInitStructure sixteenBlocks

/-- The third of the blocks above the fourth is reached. -/
theorem blockWalk_iff_third :
    AscStop goodInstance 4 15 2 6 ∧
      nmbmBlockWalk sixteenBlocks goodInstance true 4 2 15 = some 6 := by
  have hstop : AscStop goodInstance 4 15 2 6 := by constructor <;> decide
  exact ⟨hstop, (((blockWalk_iff sixteenBlocks goodInstance 4 15 (by decide)).1 2
    (by decide)).2 6).mpr hstop⟩

/-- No block is reserved if at least one is to be skipped and none is wanted. -/
theorem none_reserved :
    1 < goodBetween goodInstance 4 15 ∧
      nmbmTryReserveBlocksFull sixteenBlocks goodInstance 4 0 1 15 = none := by
  refine ⟨by decide, ?_⟩
  rw [nmbmTryReserveBlocksFull, tryReserveLoop, if_neg (by decide)]

end Nmbm
end ZyxelRouter
