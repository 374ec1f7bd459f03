import ZyxelRouter.Lib.StateProg
import ZyxelRouter.Nmbm.Layout

/-!
# NMBM: the instance and its physical operations

The instance structure, the retrying page and block operations on the lower device, the
block state table and the walks over it.

A log of {lit}`Event` values accompanies the instance.  It records the decisions later
results are about and is read by no function.
-/

namespace ZyxelRouter
namespace Nmbm

open Lib Lib.Prog

/-! ## State -/

/-- {lit}`struct nmbm_instance` without the members that {lit}`nmbm_init_structure`
derives from the lower device.  The structure is allocated zeroed. -/
structure NmbmInstance where
  signature : Signature
  infoTableCache : List UInt8
  infoTable : InfoTableHeader
  blockState : BlockStates
  blockStateChanged : Nat
  blockMapping : List Int
  blockMappingChanged : Nat
  pageCache : List UInt8
  isProtected : Bool
  dataBlockCount : Nat
  mgmtStartBa : Nat
  mainTableBa : Nat
  backupTableBa : Nat
  mappingBlocksBa : Nat
  mappingBlocksTopBa : Nat
  signatureBa : Nat

/-- Decisions put on record. -/
inductive Event where
  /-- The cache of the info table is generated. -/
  | generate (cache : List UInt8)
  /-- A block of the management area is erased for a table or as a spare block, with the
  mapping and the number of data blocks at that time. -/
  | tableErase (ba : Nat) (blockMapping : List Int) (dataBlockCount : Nat)
  /-- A table is written past block {lit}`ba`, and whether its first chunk is stored. -/
  | tableSkip (ba : Nat) (started : Bool)
  /-- A block is taken from the spare pool, and whether the block at its top is good. -/
  | map (topGood : Bool)
  /-- The tables are marked clean, and whether the cache holds the tables in memory. -/
  | clean (inSync : Bool)
  /-- A mapping entry was dropped, and whether a change is on record afterwards. -/
  | unmap (changed : Bool)
  /-- The only table left is rewritten in place, after {lit}`changes` operations that could
  change the memory. -/
  | loneRewrite (changes : Nat)
  /-- No info table could be written. -/
  | rebuildFailed

/-- The instance, the chip below it and the log, latest event first. -/
structure World where
  ni : NmbmInstance
  chip : Chip
  events : List Event

/-- Programs of the manager. -/
abbrev NmbmM (α : Type) :=
  Prog LowerDevice World α

/-- Change the instance. -/
def modifyNi (f : NmbmInstance → NmbmInstance) : NmbmM Unit :=
  modify (fun w => { w with ni := f w.ni })

/-- Put an event on record. -/
def logEvent (e : NmbmInstance → Chip → Event) : NmbmM Unit :=
  modify (fun w => { w with events := e w.ni w.chip :: w.events })

/-- Run an operation of the chip. -/
def lower {α : Type} (f : Fates → Chip → α × Chip) : NmbmM α :=
  step (fun nld w => ((f nld.fates w.chip).1, { w with chip := (f nld.fates w.chip).2 }))

/-! ## Physical pages and blocks -/

/-- The {lit}`-EBADMSG` of an uncorrectable page. -/
def eBadMsg : Int := -74

/-- The main area of a page. -/
def mainArea (nld : LowerDevice) (columns : Page) : List UInt8 :=
  (List.range nld.writesize).map columns

/-- The spare area of a page. -/
def oobArea (nld : LowerDevice) (columns : Page) : List UInt8 :=
  (List.range nld.oobsize).map (fun i => columns (nld.writesize + i))

/-- The columns programmed from a main buffer and a spare buffer; a missing buffer leaves
its columns alone. -/
def columnsOf (nld : LowerDevice) (data oob : Option (List UInt8)) : Nat → Option UInt8 :=
  fun col =>
    if col < nld.writesize then data.bind (fun bytes => bytes[col]?)
    else oob.bind (fun bytes => bytes[col - nld.writesize]?)

/-- The loop of {lit}`nmbm_read_phys_page` with {lit}`more` attempts left after this
one. -/
def readTries (ba page : Nat) : Nat → NmbmM (Int × Page)
  | 0 => lower (Chip.readPage · ba page)
  | more + 1 => do
      let r ← lower (Chip.readPage · ba page)
      if 0 ≤ r.1 then pure r else readTries ba page more

/-- {lit}`nmbm_read_phys_page`. -/
def nmbmReadPhysPage (ba page : Nat) : NmbmM (Int × Page) :=
  readTries ba page (nmbmTryCount - 1)

/-- The loop of {lit}`nmbm_write_phys_page`. -/
def writeTries (ba page : Nat) (columns : Nat → Option UInt8) : Nat → NmbmM Bool
  | 0 => do
      let ret ← lower (Chip.writePage · ba page columns)
      pure (decide (ret = 0))
  | more + 1 => do
      let ret ← lower (Chip.writePage · ba page columns)
      if ret = 0 then pure true else writeTries ba page columns more

/-- {lit}`nmbm_write_phys_page`. -/
def nmbmWritePhysPage (ba page : Nat) (data oob : Option (List UInt8)) : NmbmM Bool := do
  let nld ← ask
  if nld.readOnly then pure false
  else writeTries ba page (columnsOf nld data oob) (nmbmTryCount - 1)

/-- The loop of {lit}`nmbm_erase_phys_block`. -/
def eraseTries (ba : Nat) : Nat → NmbmM Bool
  | 0 => do
      let ret ← lower (Chip.eraseBlock · ba)
      pure (decide (ret = 0))
  | more + 1 => do
      let ret ← lower (Chip.eraseBlock · ba)
      if ret = 0 then pure true else eraseTries ba more

/-- {lit}`nmbm_erase_phys_block`. -/
def nmbmErasePhysBlock (ba : Nat) : NmbmM Bool := do
  let nld ← ask
  if nld.readOnly then pure false
  else eraseTries ba (nmbmTryCount - 1)

/-- Store bytes in the page cache. -/
def setPageCache (off : Nat) (bytes : List UInt8) : NmbmM Unit :=
  modifyNi (fun ni => { ni with pageCache := writeAt ni.pageCache off bytes })

/-- {lit}`nmbm_check_bad_phys_block`. -/
def nmbmCheckBadPhysBlock (ba : Nat) : NmbmM Bool := do
  let nld ← ask
  if nld.hasIsBadBlock then
    lower (Chip.isBadBlock · ba)
  else
    let r ← nmbmReadPhysPage ba 0
    setPageCache nld.writesize (oobArea nld r.2)
    if r.1 < 0 ∧ r.1 ≠ eBadMsg then pure true
    else
      let w ← get
      pure (w.ni.pageCache.getD nld.writesize 0 != 0xff)

/-- Overwrite the pages of a block from {lit}`page` on, ignoring all results. -/
def overwritePages (ba : Nat) : Nat → Nat → NmbmM Unit
  | 0, _ => pure ()
  | n + 1, page => do
      let nld ← ask
      let _ ← nmbmWritePhysPage ba page (some (List.replicate nld.writesize 0))
        (some (List.replicate nld.oobsize 0))
      overwritePages ba n (page + 1)

/-- {lit}`nmbm_mark_phys_bad_block`; its result is never used. -/
def nmbmMarkPhysBadBlock (ba : Nat) : NmbmM Unit := do
  let nld ← ask
  if nld.readOnly then pure ()
  else if nld.hasMarkBadBlock then
    let _ ← lower (Chip.markBadBlock · ba)
    pure ()
  else
    setPageCache 0 (List.replicate nld.rawpageSize 0)
    overwritePages ba nld.pagesPerBlock 0

/-- The page loop of {lit}`nmbm_erase_block_and_check`. -/
def checkErasedPages (ba : Nat) : Nat → Nat → NmbmM Bool
  | 0, _ => pure true
  | n + 1, page => do
      let nld ← ask
      let r ← nmbmReadPhysPage ba page
      setPageCache 0 (mainArea nld r.2)
      if r.1 = eBadMsg then pure false else checkErasedPages ba n (page + 1)

/-- {lit}`nmbm_erase_block_and_check`. -/
def nmbmEraseBlockAndCheck (ba : Nat) : NmbmM Bool := do
  let nld ← ask
  let success ← nmbmErasePhysBlock ba
  if !success then pure false
  else if !nld.emptyPageEccOk then pure true
  else checkErasedPages ba nld.pagesPerBlock 0

/-! ## Block states and walks -/

/-- {lit}`nmbm_get_block_state`. -/
def nmbmGetBlockState (ni : NmbmInstance) (ba : Nat) : BitVec 32 :=
  nmbmGetBlockStateRaw ni.blockState ba

/-- {lit}`nmbm_set_block_state`; its result is never used. -/
def nmbmSetBlockState (ba : Nat) (state : BitVec 32) : NmbmM Unit :=
  modifyNi (fun ni =>
    let orig := nmbmGetBlockState ni ba
    { ni with
      blockState := setBlockStateRaw ni.blockState ba state
      blockStateChanged :=
        if orig ≠ state &&& blockStMask then ni.blockStateChanged + 1
        else ni.blockStateChanged })

/-- The loop of {lit}`nmbm_block_walk_asc` over the {lit}`n` blocks from {lit}`ba` on. -/
def walkAsc (ni : NmbmInstance) : Nat → Nat → Int → Option Nat
  | 0, _, _ => none
  | n + 1, ba, nblock =>
      let nblock' := if nmbmGetBlockState ni ba = blockStGood then nblock - 1 else nblock
      if nblock' < 0 then some ba else walkAsc ni n (ba + 1) nblock'

/-- {lit}`nmbm_block_walk_asc`. -/
def nmbmBlockWalkAsc (nld : LowerDevice) (ni : NmbmInstance) (ba count limit : Nat) :
    Option Nat :=
  let limit := if nld.blockCount ≤ limit then nld.blockCount - 1 else limit
  walkAsc ni (limit - ba) ba (signedOf 4 (u32 count))

/-- The loop of {lit}`nmbm_block_walk_desc` over the {lit}`n` blocks from {lit}`ba`
down. -/
def walkDesc (ni : NmbmInstance) : Nat → Nat → Int → Option Nat
  | 0, _, _ => none
  | n + 1, ba, nblock =>
      let nblock' := if nmbmGetBlockState ni ba = blockStGood then nblock - 1 else nblock
      if nblock' < 0 then some ba else walkDesc ni n (ba - 1) nblock'

/-- {lit}`nmbm_block_walk_desc`. -/
def nmbmBlockWalkDesc (nld : LowerDevice) (ni : NmbmInstance) (ba count limit : Nat) :
    Option Nat :=
  let limit := if nld.blockCount ≤ limit then nld.blockCount - 1 else limit
  walkDesc ni (ba - limit) ba (signedOf 4 (u32 count))

/-- {lit}`nmbm_block_walk`. -/
def nmbmBlockWalk (nld : LowerDevice) (ni : NmbmInstance) (ascending : Bool)
    (ba count limit : Nat) : Option Nat :=
  if ascending then nmbmBlockWalkAsc nld ni ba count limit
  else nmbmBlockWalkDesc nld ni ba count limit

/-- {lit}`nmbm_try_reserve_blocks` with {lit}`count` blocks to be skipped. -/
def nmbmTryReserveBlocks (nld : LowerDevice) (ni : NmbmInstance) (ba minCount limit : Nat) :
    Nat → Option Nat
  | 0 => if 0 < minCount then none else nmbmBlockWalk nld ni true ba 0 limit
  | n + 1 =>
      if n + 1 < minCount then none
      else
        match nmbmBlockWalk nld ni true ba (n + 1) limit with
        | some nba => some nba
        | none => nmbmTryReserveBlocks nld ni ba minCount limit n

/-- The 32-bit difference. -/
def u32Sub (a b : Nat) : Nat :=
  u32 (a + 2 ^ 32 - b)

end Nmbm
end ZyxelRouter
