import ZyxelRouter.Nmbm.Healthy

/-!
# NMBM: who owns a block

A physical block belongs to at most one logic block, and the blocks that are erased for tables or as
spare blocks belong to none.  {lit}`nmbm_map_block` looks for a good block from the top of the spare
pool down but lowers the top by one block only, so this holds as long as the block at the top is
good whenever a block is taken.

Main results:

- Theorem {lit}`Orderly.blocksOwned`: an orderly instance has it.
- Theorem {lit}`reaches_blocksOwned`: so does every state reached from a new instance.
- Theorem {lit}`remap_shares_block`: a bad block at the top of the pool, and two logic blocks that
  share a block.
-/

namespace ZyxelRouter
namespace Nmbm

open Lib Lib.Prog

variable {w w' : World} {nld nld' : LowerDevice}

/-! ## Ownership -/

/-- Logic blocks have different blocks, none of them the signature, and no block of a logic block was
erased by {lit}`nmbm_write_info_table` or {lit}`nmbm_erase_range`. -/
structure BlocksOwned (w : World) : Prop where
  injective : ∀ lb lb', lb < w.ni.dataBlockCount → lb' < w.ni.dataBlockCount →
    0 ≤ w.ni.entry lb → w.ni.entry lb = w.ni.entry lb' → lb = lb'
  signature : ∀ lb, lb < w.ni.dataBlockCount → w.ni.entry lb ≠ w.ni.signatureBa
  erases : ∀ e ∈ w.events, EraseOk e

theorem Orderly.blocksOwned (h : Orderly nld w) (hgood : TopGood w.events) : BlocksOwned w := by
  have howned := h.owned hgood
  constructor
  · intro lb lb' _ _ hlb heq
    exact howned.injective lb lb' hlb heq
  · intro lb _ heq
    have hmgmt := h.pool.mgmt_le_top
    have htop := h.pool.top_lt
    have hplace := howned.place lb (by omega)
    omega
  · exact h.erases hgood

/-- In every state reached from a new instance by calls under any failures, logic blocks own their
blocks if the block at the top of the spare pool was good whenever a block was taken. -/
theorem reaches_blocksOwned (nld nld' : LowerDevice) (flash : Flash) (w₀ w : World)
    (hcreated : CreatedBy nld flash nld' w₀)
    (hrun : Reaches nld' (fun _ => True) w₀ w)
    (hgood : TopGood w.events) :
    BlocksOwned w := by
  have hws := writesize_pos_of_accepted (attached_iff hcreated.attached).1
  have horderly := hcreated.sound.toOrderly.reaches hws hrun
  exact horderly.blocksOwned hgood

/-! ## A chip of 512 blocks -/

/-- Blocks of four pages on a device that does its job. -/
def smallChip : LowerDevice where
  maxRatio := 1
  maxReservedBlocks := 0
  create := true
  emptyPageEccOk := false
  readOnly := false
  size := 2 ^ 21
  erasesize := 4096
  writesize := 1024
  oobsize := 64
  hasIsBadBlock := true
  hasMarkBadBlock := true
  fates := fun _ _ => ⟨0, .done⟩

/-- A blank chip with the given factory bad blocks. -/
def blankFlash (bad : List Nat) : Flash where
  cells := fun _ => blankBlock
  marks := fun b => decide (b ∈ bad)

theorem accepted_smallChip : nmbmCheckLowerMembers smallChip = some smallChip := by
  rfl

theorem roomy_smallChip : Roomy smallChip := by
  constructor
  · constructor <;> decide
  all_goals decide

theorem healthy_smallChip (w : World) : Healthy smallChip w :=
  ⟨by decide, rfl, rfl, fun _ _ _ => rfl⟩

theorem usable_blankFlash {bad : List Nat}
    (houtside : ∀ b ∈ bad, b < 512)
    (htables : ∀ b ∈ bad, b < 480 ∨ 483 < b)
    (htop : ∀ b ∈ bad, b < 510) : Usable smallChip (blankFlash bad).marks := by
  have hcount : smallChip.blockCount = 512 := by decide
  have hstart : mgmtStart smallChip = 480 := by decide
  constructor
  · intro b hb
    rw [hcount] at hb
    refine decide_eq_false (fun hmem => ?_)
    have := houtside b hmem
    omega
  · intro i hi
    rw [hstart]
    refine decide_eq_false (fun hmem => ?_)
    have := htables _ hmem
    omega
  · rw [hcount]
    refine decide_eq_false (fun hmem => ?_)
    have := htop _ hmem
    omega
  · rw [hcount]
    refine decide_eq_false (fun hmem => ?_)
    have := htop _ hmem
    omega

/-- Nothing went wrong. -/
theorem topGood_of_sane {events : List Event} (h : ∀ e ∈ events, e.Sane) : TopGood events :=
  fun _ hmem => h _ hmem

/-- Without bad blocks nothing is left to do once the area is made. -/
theorem attach_blank : ∃ w, CreatedBy smallChip (blankFlash []) smallChip w ∧
    NewArea smallChip (blankFlash []).marks w := by
  have hstart : mgmtStart smallChip = 480 := by decide
  apply healthy_attach roomy_smallChip accepted_smallChip rfl (healthy_smallChip _) (fun _ => rfl)
    (usable_blankFlash (by decide) (by decide) (by decide))
  intro w₁ hnew
  have hcount : w₁.ni.dataBlockCount = 480 := by
    rw [hnew.count, hstart]
    decide +kernel
  have hrounds : w₁.ni.mgmtStartBa - w₁.ni.dataBlockCount = 0 := by
    rw [hnew.mgmt, hstart, hcount]
  have hchanged : ¬ (w₁.ni.blockStateChanged ≠ 0 ∨ w₁.ni.blockMappingChanged ≠ 0) := by
    simp [hnew.clean.1, hnew.clean.2]
  rw [hrounds, wp_bind, remapLoop, wp_pure]
  simp only [nmbmUpdateInfoTable, wp_bind, wp_ask, wp_get, hnew.unprotected, updateLoop,
    if_neg hchanged, Bool.false_eq_true, if_false, wp_pure]
  exact ⟨trivial, hnew⟩

/-- A new instance that is read from. -/
theorem blocksOwned_after_read : ∃ w, CreatedBy smallChip (blankFlash []) smallChip w ∧
    BlocksOwned (w.after smallChip (.readRange 0 5000) smallChip.fates) := by
  obtain ⟨w, hcreated, hnew⟩ := attach_blank
  have hphys := nmbmReadRange_phys smallChip 0 5000 w
  have hevents : (w.after smallChip (.readRange 0 5000) smallChip.fates).events = w.events :=
    hphys.events
  refine ⟨w, hcreated, ?_⟩
  apply reaches_blocksOwned smallChip smallChip (blankFlash []) w _ hcreated
    (Reaches.call Reaches.refl (.readRange 0 5000) trivial)
  rw [hevents]
  exact topGood_of_sane hnew.log

/-! ## Remapping -/

/-- The state after a logic block was mapped to a block of the pool and counted. -/
def World.remapped (w : World) (lb pb : Nat) : World :=
  { w with
    ni := { w.ni with
      blockMapping := w.ni.blockMapping.set lb pb
      mappingBlocksTopBa := u32Sub w.ni.mappingBlocksTopBa 1
      blockMappingChanged := w.ni.blockMappingChanged + 1
      dataBlockCount := w.ni.dataBlockCount + 1 }
    events := .map (nmbmGetBlockState w.ni w.ni.mappingBlocksTopBa == blockStGood) :: w.events }

/-- One round of the loop, if there is a good block in the pool. -/
theorem wp_remapLoop_succ {Q : Unit → World → Prop} {n lb pb : Nat}
    (hne : w.ni.mappingBlocksBa ≠ w.ni.mappingBlocksTopBa)
    (hwalk : nmbmBlockWalk nld w.ni false w.ni.mappingBlocksTopBa 0 w.ni.mappingBlocksBa = some pb) :
    wp (remapLoop (n + 1) lb) nld Q w ↔ wp (remapLoop n (lb + 1)) nld Q (w.remapped lb pb) := by
  simp only [remapLoop, nmbmMapBlock, wp_bind, wp_ask, wp_get, if_neg hne, hwalk, wp_logEvent,
    wp_modifyNi, wp_pure, if_true]
  rfl

/-- The walk down from a good block. -/
theorem walk_good {ni : NmbmInstance} {top mb : Nat} (hcount : mb < nld.blockCount)
    (hlt : mb < top) (hgood : nmbmGetBlockState ni top = blockStGood) :
    nmbmBlockWalk nld ni false top 0 mb = some top := by
  obtain ⟨n, hn⟩ : ∃ n, top - mb = n + 1 := ⟨top - mb - 1, by omega⟩
  simp only [nmbmBlockWalk, nmbmBlockWalkDesc, if_neg (Nat.not_le.mpr hcount), hn,
    Bool.false_eq_true, if_false]
  rw [walkDesc, if_pos hgood, if_pos (by decide)]

/-- The walk down from a bad block with a good one below it. -/
theorem walk_bad {ni : NmbmInstance} {top mb : Nat} (hcount : mb < nld.blockCount)
    (hlt : mb + 1 < top) (hbad : nmbmGetBlockState ni top = blockStBad)
    (hgood : nmbmGetBlockState ni (top - 1) = blockStGood) :
    nmbmBlockWalk nld ni false top 0 mb = some (top - 1) := by
  obtain ⟨n, hn⟩ : ∃ n, top - mb = n + 2 := ⟨top - mb - 2, by omega⟩
  have hne : nmbmGetBlockState ni top ≠ blockStGood := by
    rw [hbad]
    decide
  simp only [nmbmBlockWalk, nmbmBlockWalkDesc, if_neg (Nat.not_le.mpr hcount), hn,
    Bool.false_eq_true, if_false]
  rw [walkDesc, if_neg hne, if_neg (by decide), walkDesc, if_pos hgood, if_pos (by decide)]

/-- A new area with some logic blocks mapped into it. -/
structure Remapped (nld : LowerDevice) (marks : Nat → Bool) (w₁ w : World) : Prop where
  area : NewArea nld marks w₁
  chip : w.chip = w₁.chip
  ni : ∃ blockMapping mappingBlocksTopBa blockMappingChanged dataBlockCount,
    w.ni = { w₁.ni with
      blockMapping, mappingBlocksTopBa, blockMappingChanged, dataBlockCount }
  length : w.ni.blockMapping.length = w₁.ni.blockMapping.length

theorem NewArea.remapped_refl {marks : Nat → Bool} {w₁ : World} (h : NewArea nld marks w₁) :
    Remapped nld marks w₁ w₁ :=
  ⟨h, rfl, ⟨_, _, _, _, rfl⟩, rfl⟩

theorem Remapped.step {marks : Nat → Bool} {w₁ : World} (h : Remapped nld marks w₁ w) (lb pb : Nat) :
    Remapped nld marks w₁ (w.remapped lb pb) := by
  obtain ⟨mapping, top, changed, count, hni⟩ := h.ni
  refine ⟨h.area, h.chip, ⟨mapping.set lb pb, u32Sub top 1, changed + 1, count + 1, ?_⟩, ?_⟩
  · rw [World.remapped, hni]
  · rw [World.remapped, List.length_set]
    exact h.length

theorem Remapped.state {marks : Nat → Bool} {w₁ : World} (h : Remapped nld marks w₁ w) {b : Nat}
    (hb : b < nld.blockCount) :
    nmbmGetBlockState w.ni b = if marks b = true then blockStBad else blockStGood := by
  obtain ⟨mapping, top, changed, count, hni⟩ := h.ni
  rw [hni]
  exact h.area.state b hb

theorem Remapped.mb {marks : Nat → Bool} {w₁ : World} (h : Remapped nld marks w₁ w) :
    w.ni.mappingBlocksBa = mgmtStart nld + 4 := by
  obtain ⟨mapping, top, changed, count, hni⟩ := h.ni
  rw [hni]
  exact h.area.mb

/-- A round of the loop with a good block at the top. -/
theorem Remapped.round_good {marks : Nat → Bool} {w₁ : World} (h : Remapped nld marks w₁ w)
    {Q : Unit → World → Prop} {n lb top : Nat}
    (htop : w.ni.mappingBlocksTopBa = top)
    (hlow : mgmtStart nld + 4 < top)
    (hhigh : top < nld.blockCount)
    (hmark : marks top = false) :
    wp (remapLoop (n + 1) lb) nld Q w ↔ wp (remapLoop n (lb + 1)) nld Q (w.remapped lb top) := by
  have hgood : nmbmGetBlockState w.ni top = blockStGood := by
    rw [h.state hhigh, hmark]
    rfl
  apply wp_remapLoop_succ
  · rw [htop, h.mb]
    omega
  · rw [htop, h.mb]
    exact walk_good (by omega) hlow hgood

/-- A round of the loop with a bad block at the top: the block below is taken. -/
theorem Remapped.round_bad {marks : Nat → Bool} {w₁ : World} (h : Remapped nld marks w₁ w)
    {Q : Unit → World → Prop} {n lb top : Nat}
    (htop : w.ni.mappingBlocksTopBa = top)
    (hlow : mgmtStart nld + 5 < top)
    (hhigh : top < nld.blockCount)
    (hmark : marks top = true)
    (hmark' : marks (top - 1) = false) :
    wp (remapLoop (n + 1) lb) nld Q w ↔
      wp (remapLoop n (lb + 1)) nld Q (w.remapped lb (top - 1)) := by
  have hbad : nmbmGetBlockState w.ni top = blockStBad := by
    rw [h.state hhigh, hmark]
    rfl
  have hgood : nmbmGetBlockState w.ni (top - 1) = blockStGood := by
    rw [h.state (by omega), hmark']
    rfl
  apply wp_remapLoop_succ
  · rw [htop, h.mb]
    omega
  · rw [htop, h.mb]
    exact walk_bad (by omega) hlow hbad hgood

/-- The top of the pool after a round. -/
theorem top_remapped {top : Nat} (htop : w.ni.mappingBlocksTopBa = top) (hpos : 0 < top)
    (hlt : top < 2 ^ 32) (lb pb : Nat) : (w.remapped lb pb).ni.mappingBlocksTopBa = top - 1 := by
  show u32Sub w.ni.mappingBlocksTopBa 1 = top - 1
  rw [htop, u32Sub, u32]
  omega

/-- Saving the tables of a new area. -/
theorem Remapped.update {marks : Nat → Bool} {w₁ : World} (h : Remapped nld marks w₁ w)
    (hr : Roomy nld)
    (hmarks : ∀ i, i ≤ 3 → marks (mgmtStart nld + i) = false)
    (hmain : mgmtStart nld ≠ 0)
    (htop : mgmtStart nld + 3 < w.ni.mappingBlocksTopBa) :
    wp nmbmUpdateInfoTable nld (fun ok w' => ok = true ∧
      w'.ni.dataBlockCount = w.ni.dataBlockCount ∧ w'.ni.blockMapping = w.ni.blockMapping) w := by
  have hroom := hr.room
  have hgood : ∀ i, i ≤ 3 → nmbmGetBlockState w.ni (mgmtStart nld + i) = blockStGood := by
    intro i hi
    rw [h.state (by omega), hmarks i hi]
    rfl
  have hmainTable : w.ni.mainTableBa = mgmtStart nld := by
    obtain ⟨mapping, top, changed, count, hni⟩ := h.ni
    rw [hni]
    exact h.area.main
  have hbackupTable : w.ni.backupTableBa = mgmtStart nld + 3 := by
    obtain ⟨mapping, top, changed, count, hni⟩ := h.ni
    rw [hni]
    exact h.area.backup
  have hhealthy : Healthy nld w := by
    refine ⟨h.area.healthy.writesize_pos, h.area.healthy.writable, h.area.healthy.checks, ?_⟩
    rw [h.chip]
    exact h.area.healthy.fates
  have htruthful : Truthful w := by
    intro b hb
    obtain ⟨mapping, top, changed, count, hni⟩ := h.ni
    rw [hni] at hb
    rw [h.chip]
    exact h.area.truthful b hb
  have hshape : Shape nld w.ni := by
    obtain ⟨mapping, top, changed, count, hni⟩ := h.ni
    apply h.area.shape.congr
    · rw [hni]
    · exact h.length
    · rw [hni]
  have hprot : w.ni.isProtected = false := by
    obtain ⟨mapping, top, changed, count, hni⟩ := h.ni
    rw [hni]
    exact h.area.unprotected
  refine wp_mono (healthy_updateInfoTable hr hhealthy htruthful hshape hprot (by omega) (by omega)
    (by omega) ?_ ?_) ?_
  · rw [hmainTable]
    exact hgood 0 (by omega)
  · rw [hbackupTable]
    exact hgood 3 (by omega)
  · rintro ok w' ⟨hok, hdr, cache, mb, hsmooth⟩
    obtain ⟨pc, hni⟩ := hsmooth.ni
    rw [hni]
    exact ⟨hok, rfl, rfl⟩

/-! ## A bad block at the top of the pool -/

/-- With three bad blocks among the data and one below the top of the pool, two logic blocks of the
new instance have block 508. -/
theorem attach_shares_block : ∃ w, CreatedBy smallChip (blankFlash [3, 4, 5, 509]) smallChip w ∧
    w.ni.dataBlockCount = 480 ∧ w.ni.entry 478 = 508 ∧ w.ni.entry 479 = 508 := by
  have hblocks : smallChip.blockCount = 512 := by decide
  have hstart : mgmtStart smallChip = 480 := by decide
  have hu : Usable smallChip (blankFlash [3, 4, 5, 509]).marks :=
    usable_blankFlash (by decide) (by decide) (by decide)
  apply healthy_attach roomy_smallChip accepted_smallChip rfl (healthy_smallChip _) (fun _ => rfl) hu
  intro w₁ hnew
  have hcount : w₁.ni.dataBlockCount = 477 := by
    rw [hnew.count, hstart]
    decide +kernel
  have hlength : w₁.ni.blockMapping.length = 512 := by
    rw [hnew.mapping, List.length_append, List.length_map, ← hnew.count, List.length_replicate,
      hcount, hblocks]
  -- Block 477 takes the top of the pool, 478 the block below the bad one, and 479 the same one.
  have h₁ := hnew.remapped_refl
  have h₂ := h₁.step 477 510
  have h₃ := h₂.step 478 508
  have h₄ := h₃.step 479 508
  have htop₁ : w₁.ni.mappingBlocksTopBa = 510 := by rw [hnew.top, hblocks]
  have htop₂ := top_remapped htop₁ (by omega) (by omega) 477 510
  have htop₃ := top_remapped htop₂ (by omega) (by omega) 478 508
  have htop₄ := top_remapped htop₃ (by omega) (by omega) 479 508
  have hrounds : w₁.ni.mgmtStartBa - w₁.ni.dataBlockCount = 3 := by
    rw [hnew.mgmt, hstart, hcount]
  rw [hrounds, hcount, wp_bind, h₁.round_good htop₁ (by decide) (by decide) (by decide),
    h₂.round_bad htop₂ (by decide) (by decide) (by decide) (by decide),
    h₃.round_good htop₃ (by decide) (by decide) (by decide), remapLoop, wp_pure]
  have hcount₄ : (((w₁.remapped 477 510).remapped 478 508).remapped 479 508).ni.dataBlockCount =
      480 := by
    show w₁.ni.dataBlockCount + 1 + 1 + 1 = 480
    rw [hcount]
  have hmapping₄ : (((w₁.remapped 477 510).remapped 478 508).remapped 479 508).ni.blockMapping =
      ((w₁.ni.blockMapping.set 477 510).set 478 508).set 479 508 := rfl
  refine wp_mono (h₄.update roomy_smallChip hu.tables (by decide) (by rw [htop₄]; decide)) ?_
  rintro ok w₅ ⟨rfl, hcount₅, hmapping₅⟩
  refine ⟨rfl, hcount₅.trans hcount₄, ?_, ?_⟩
  · rw [NmbmInstance.entry, hmapping₅, hmapping₄]
    simp [hlength]
  · rw [NmbmInstance.entry, hmapping₅, hmapping₄]
    simp [hlength]

/-- Right after {lit}`nmbm_attach`, two logic blocks share a block. -/
theorem blocksOwned_fails : ∃ w, CreatedBy smallChip (blankFlash [3, 4, 5, 509]) smallChip w ∧
    Reaches smallChip (fun _ => True) w w ∧ ¬ BlocksOwned w := by
  obtain ⟨w, hcreated, hcount, h478, h479⟩ := attach_shares_block
  refine ⟨w, hcreated, Reaches.refl, fun howned => ?_⟩
  have heq := howned.injective 478 479 (by omega) (by omega) (by rw [h478]; decide)
    (h478.trans h479.symm)
  exact absurd heq (by decide)

end Nmbm
end ZyxelRouter
