import ZyxelRouter.Nmbm.Instance

/-!
# NMBM: writing and updating the info tables

From writing one table into a range of the management area up to
{lit}`nmbm_update_info_table` with its rescue and rebuild paths, and the mapping of a
logic block to a spare block.

The loops over blocks recurse on the number of blocks left.  The repeat-until-clean loop
has fuel for one round per block, which is enough since every further round needs a block
newly found bad.
-/

namespace ZyxelRouter
namespace Nmbm

open Lib Lib.Prog

/-! ## Reading and writing a run of pages -/

/-- {lit}`nmbn_read_data` of {lit}`size` bytes from the start of a page: result and bytes.
Each round takes at least one byte and needs one unit of fuel. -/
def readDataLoop (ba : Nat) : Nat → Nat → Nat → List UInt8 → NmbmM (Int × List UInt8)
  | 0, _, _, acc => pure (0, acc)
  | fuel + 1, page, sizeremain, acc => do
      if sizeremain = 0 then return (0, acc)
      let nld ← ask
      let r ← nmbmReadPhysPage ba page
      if sizeremain < nld.writesize then
        setPageCache 0 (mainArea nld r.2)
      if r.1 < 0 then return (r.1, acc)
      let chunk := (mainArea nld r.2).take sizeremain
      readDataLoop ba fuel (page + 1) (sizeremain - nld.writesize) (acc ++ chunk)

/-- {lit}`nmbn_read_data`. -/
def nmbnReadData (ba page size : Nat) : NmbmM (Int × List UInt8) :=
  readDataLoop ba size page size []

/-- The loop of {lit}`nmbn_write_verify_data`. -/
def writeVerifyLoop (ba : Nat) : Nat → Nat → List UInt8 → NmbmM Bool
  | 0, _, _ => pure true
  | fuel + 1, page, data => do
      if data.length = 0 then return true
      let nld ← ask
      let chunk := data.take nld.writesize
      setPageCache 0 (List.replicate nld.rawpageSize 0xff)
      setPageCache 0 chunk
      let w ← get
      let success ← nmbmWritePhysPage ba page (some (w.ni.pageCache.take nld.writesize)) none
      if !success then return false
      let r ← nmbmReadPhysPage ba page
      setPageCache 0 (mainArea nld r.2)
      if r.1 < 0 then return false
      if (mainArea nld r.2).take chunk.length ≠ chunk then return false
      writeVerifyLoop ba fuel (page + 1) (data.drop nld.writesize)

/-- {lit}`nmbn_write_verify_data` from the start of a block. -/
def nmbnWriteVerifyData (ba : Nat) (data : List UInt8) : NmbmM Bool :=
  writeVerifyLoop ba data.length 0 data

/-! ## One table -/

/-- Mark a block bad on the chip and in the state table. -/
def retireBlock (ba : Nat) : NmbmM Unit := do
  nmbmMarkPhysBadBlock ba
  nmbmSetBlockState ba blockStBad

/-- {lit}`nmbm_erase_range` over the {lit}`n` blocks from {lit}`ba` on. -/
def nmbmEraseRange : Nat → Nat → NmbmM Unit
  | 0, _ => pure ()
  | n + 1, ba => do
      let w ← get
      if nmbmGetBlockState w.ni ba = blockStGood then
        let bad ← nmbmCheckBadPhysBlock ba
        if bad then
          nmbmSetBlockState ba blockStBad
        else
          logEvent (fun ni _ => .tableErase ba ni.blockMapping ni.dataBlockCount)
          let success ← nmbmEraseBlockAndCheck ba
          if !success then
            retireBlock ba
      nmbmEraseRange n (ba + 1)

/-- The body of the loop of {lit}`nmbm_write_mgmt_range`: whether the chunk was stored in
block {lit}`ba`. -/
def writeMgmtBlock (ba : Nat) (chunk : List UInt8) : NmbmM Bool := do
  let w ← get
  if nmbmGetBlockState w.ni ba ≠ blockStGood then return false
  let bad ← nmbmCheckBadPhysBlock ba
  if bad then
    nmbmSetBlockState ba blockStBad
    pure false
  else
    logEvent (fun ni _ => .tableErase ba ni.blockMapping ni.dataBlockCount)
    let erased ← nmbmEraseBlockAndCheck ba
    let success ← if erased then nmbnWriteVerifyData ba chunk else pure false
    if !success then
      retireBlock ba
    pure success

/-- The loop of {lit}`nmbm_write_mgmt_range` over the {lit}`n` blocks from {lit}`ba` on,
with the bytes that remain and the block of the first chunk: the range written. -/
def writeMgmtLoop : Nat → Nat → List UInt8 → Option Nat → NmbmM (Option (Nat × Nat))
  | 0, ba, rest, start =>
      if rest.length = 0 then pure (some (start.getD 0, ba)) else pure none
  | n + 1, ba, rest, start => do
      if rest.length = 0 then return some (start.getD 0, ba)
      let nld ← ask
      let stored ← writeMgmtBlock ba (rest.take nld.erasesize)
      if stored then
        writeMgmtLoop n (ba + 1) (rest.drop nld.erasesize) (some (start.getD ba))
      else
        logEvent (fun _ _ => .tableSkip ba start.isSome)
        writeMgmtLoop n (ba + 1) rest start

/-- {lit}`nmbm_write_info_table`, by {lit}`nmbm_write_mgmt_range`: the actual start block
and the block after the end. -/
def nmbmWriteInfoTable (ba limit : Nat) : NmbmM (Option (Nat × Nat)) := do
  let w ← get
  writeMgmtLoop (limit - ba) ba w.ni.infoTableCache none

/-- The bytes {lit}`nmbm_generate_info_table_cache` produces. -/
def tableBytes (nld : LowerDevice) (ni : NmbmInstance) (infoTable : InfoTableHeader) :
    List UInt8 :=
  let cache := List.replicate nld.infoTableSize 0xff
  let cache := writeAt cache infoTable.stateTableOff (stateBytes ni.blockState)
  let cache := writeAt cache infoTable.mappingTableOff (mappingBytes ni.blockMapping)
  nmbmUpdateChecksum (writeAt cache 0 infoTable.bytes)

/-- {lit}`nmbm_generate_info_table_cache`: whether the tables changed. -/
def nmbmGenerateInfoTableCache : NmbmM Bool := do
  let nld ← ask
  let w ← get
  let changed := decide (w.ni.blockStateChanged ≠ 0 ∨ w.ni.blockMappingChanged ≠ 0)
  let infoTable :=
    { w.ni.infoTable with
      header :=
        { w.ni.infoTable.header with
          magic := nmbmMagicInfoTable
          version := nmbmVer
          size := nld.infoTableSize }
      writeCount :=
        if changed then u32 (w.ni.infoTable.writeCount + 1) else w.ni.infoTable.writeCount }
  modifyNi (fun ni =>
    { ni with infoTable, infoTableCache := tableBytes nld ni infoTable })
  logEvent (fun ni _ => .generate ni.infoTableCache)
  pure changed

/-- The cache holds the state and mapping tables in memory. -/
def cacheInSync (nld : LowerDevice) (ni : NmbmInstance) : Bool :=
  readAt ni.infoTableCache ni.infoTable.stateTableOff nld.stateTableSize ==
      stateBytes ni.blockState &&
    readAt ni.infoTableCache ni.infoTable.mappingTableOff nld.mappingTableSize ==
      mappingBytes ni.blockMapping

/-- {lit}`nmbm_mark_tables_clean`. -/
def nmbmMarkTablesClean : NmbmM Unit := do
  let nld ← ask
  logEvent (fun ni _ => .clean (cacheInSync nld ni))
  modifyNi (fun ni => { ni with blockStateChanged := 0, blockMappingChanged := 0 })

/-! ## Rebuilding and rescuing -/

/-- The highest block a new table may start at: {lit}`mapping_blocks_top_ba` less the size
of a table. -/
def reserveLimit (nld : LowerDevice) (ni : NmbmInstance) : Nat :=
  u32Sub ni.mappingBlocksTopBa (nld.size2blk nld.infoTableSize)

/-- Reserve spare blocks from {lit}`ba` on. -/
def reserveSpare (nld : LowerDevice) (ni : NmbmInstance) (ba : Nat) : Option Nat :=
  nmbmTryReserveBlocks nld ni ba 0 (reserveLimit nld ni) nld.infoTableSpareBlocks

/-- The loops that try to write a table at {lit}`writeBa` and, failing that, at up to
{lit}`n - 1` blocks before it. -/
def writeDescending : Nat → Nat → NmbmM (Option (Nat × Nat))
  | 0, _ => pure none
  | n + 1, writeBa => do
      let w ← get
      let r ← nmbmWriteInfoTable writeBa w.ni.mappingBlocksTopBa
      match r with
      | some range => pure (some range)
      | none => writeDescending n (writeBa - 1)

/-- The end of {lit}`nmbm_rebuild_info_table`: the backup table from {lit}`nextStart` on. -/
def rebuildBackup (mainEnd nextStart : Nat) : NmbmM Bool := do
  let w ← get
  match ← nmbmWriteInfoTable nextStart w.ni.mappingBlocksTopBa with
  | none => pure true
  | some (backupStart, backupEnd) =>
      modifyNi (fun ni =>
        { ni with backupTableBa := backupStart, mappingBlocksBa := backupEnd })
      nmbmEraseRange (backupStart - mainEnd) mainEnd
      pure true

/-- {lit}`nmbm_rebuild_info_table`. -/
def nmbmRebuildInfoTable : NmbmM Bool := do
  let nld ← ask
  modifyNi (fun ni =>
    { ni with mainTableBa := 0, backupTableBa := 0, mappingBlocksBa := ni.mappingBlocksTopBa })
  let w ← get
  match ← nmbmWriteInfoTable w.ni.mgmtStartBa w.ni.mappingBlocksTopBa with
  | none =>
      modifyNi (fun ni => { ni with isProtected := true })
      logEvent (fun _ _ => .rebuildFailed)
      pure false
  | some (mainStart, mainEnd) =>
      modifyNi (fun ni => { ni with mainTableBa := mainStart, mappingBlocksBa := mainEnd })
      nmbmMarkTablesClean
      let w ← get
      match reserveSpare nld w.ni mainEnd with
      | none => pure true
      | some nextStart => rebuildBackup mainEnd nextStart

/-- {lit}`nmbm_rescue_single_info_table`. -/
def nmbmRescueSingleInfoTable : NmbmM Bool := do
  let nld ← ask
  let w ← get
  match ← nmbmWriteInfoTable w.ni.mgmtStartBa w.ni.mainTableBa with
  | some (tableStart, tableEnd) =>
      let w ← get
      let backup := w.ni.mainTableBa
      modifyNi (fun ni => { ni with backupTableBa := backup, mainTableBa := tableStart })
      nmbmMarkTablesClean
      nmbmEraseRange (backup - tableEnd) tableEnd
      pure true
  | none =>
      let w ← get
      let mb := w.ni.mappingBlocksBa
      match reserveSpare nld w.ni mb with
      | none => pure false
      | some writeBa =>
          match ← writeDescending (writeBa + 1 - mb) writeBa with
          | some (tableStart, tableEnd) =>
              nmbmEraseRange (tableStart - mb) mb
              modifyNi (fun ni =>
                { ni with backupTableBa := tableStart, mappingBlocksBa := tableEnd })
              nmbmMarkTablesClean
              pure true
          | none => pure false

/-- {lit}`nmbm_update_single_info_table`. -/
def nmbmUpdateSingleInfoTable (updateMainTable : Bool) : NmbmM Bool := do
  let w ← get
  let writeStart := if updateMainTable then w.ni.mainTableBa else w.ni.backupTableBa
  let writeLimit := if updateMainTable then w.ni.backupTableBa else w.ni.mappingBlocksTopBa
  match ← nmbmWriteInfoTable writeStart writeLimit with
  | some (tableStart, tableEnd) =>
      if updateMainTable then
        modifyNi (fun ni => { ni with mainTableBa := tableStart })
      else
        modifyNi (fun ni =>
          { ni with backupTableBa := tableStart, mappingBlocksBa := tableEnd })
      nmbmMarkTablesClean
      pure true
  | none =>
      if updateMainTable then
        modifyNi (fun ni => { ni with mainTableBa := ni.backupTableBa, backupTableBa := 0 })
        nmbmRescueSingleInfoTable
      else
        modifyNi (fun ni => { ni with mappingBlocksBa := ni.backupTableBa, backupTableBa := 0 })
        pure false

/-- The end of {lit}`nmbm_rescue_main_info_table`, when the new main table has run over
the temporary one. -/
def rewriteBackup (mainEnd : Nat) : NmbmM Bool := do
  let nld ← ask
  modifyNi (fun ni => { ni with mappingBlocksBa := mainEnd })
  let w ← get
  match reserveSpare nld w.ni mainEnd with
  | none =>
      modifyNi (fun ni => { ni with backupTableBa := 0 })
      pure true
  | some writeBa =>
      match ← writeDescending (writeBa + 1 - mainEnd) writeBa with
      | none =>
          modifyNi (fun ni => { ni with backupTableBa := 0 })
          pure true
      | some (backupStart, backupEnd) =>
          modifyNi (fun ni =>
            { ni with backupTableBa := backupStart, mappingBlocksBa := backupEnd })
          nmbmEraseRange (backupStart - mainEnd) mainEnd
          pure true

/-- {lit}`nmbm_rescue_main_info_table`. -/
def nmbmRescueMainInfoTable : NmbmM Bool := do
  let nld ← ask
  let w ← get
  let mb := w.ni.mappingBlocksBa
  let backupBecomesMain : NmbmM Bool := do
    modifyNi (fun ni => { ni with mainTableBa := ni.backupTableBa, backupTableBa := 0 })
    pure true
  match reserveSpare nld w.ni mb with
  | none => backupBecomesMain
  | some writeBa =>
      match ← writeDescending (writeBa + 1 - mb) writeBa with
      | none => backupBecomesMain
      | some (tmpStart, tmpEnd) =>
          modifyNi (fun ni => { ni with mappingBlocksBa := tmpEnd })
          let w ← get
          match ← nmbmWriteInfoTable w.ni.mgmtStartBa tmpStart with
          | none =>
              modifyNi (fun ni => { ni with mainTableBa := tmpStart, backupTableBa := 0 })
              nmbmMarkTablesClean
              pure true
          | some (mainStart, mainEnd) =>
              modifyNi (fun ni => { ni with mainTableBa := mainStart })
              nmbmMarkTablesClean
              if mainEnd ≤ tmpStart then
                modifyNi (fun ni => { ni with backupTableBa := tmpStart })
                pure true
              else
                rewriteBackup mainEnd

/-! ## Updating -/

/-- The label {lit}`write_main_table` of {lit}`nmbm_update_info_table_once`. -/
def writeMainTable (mainTableLimit : Nat) : NmbmM Bool := do
  let w ← get
  if w.ni.mainTableBa = 0 then
    nmbmRebuildInfoTable
  else
    if w.ni.backupTableBa = 0 then
      logEvent (fun _ chip => .loneRewrite chip.history.length)
    match ← nmbmWriteInfoTable w.ni.mainTableBa mainTableLimit with
    | none =>
        if w.ni.backupTableBa = 0 then nmbmRebuildInfoTable
        else nmbmRescueMainInfoTable
    | some (tableStart, tableEnd) =>
        modifyNi (fun ni =>
          { ni with
            mainTableBa := tableStart
            mappingBlocksBa := if ni.backupTableBa = 0 then tableEnd else ni.mappingBlocksBa })
        nmbmMarkTablesClean
        pure true

/-- {lit}`nmbm_update_info_table_once`. -/
def nmbmUpdateInfoTableOnce (force : Bool) : NmbmM Bool := do
  let changed ← nmbmGenerateInfoTableCache
  if !changed && !force then
    pure true
  else
    let w ← get
    if w.ni.backupTableBa = 0 then
      writeMainTable w.ni.mappingBlocksTopBa
    else
      match ← nmbmWriteInfoTable w.ni.backupTableBa w.ni.mappingBlocksTopBa with
      | none =>
          modifyNi (fun ni => { ni with mappingBlocksBa := ni.backupTableBa, backupTableBa := 0 })
          writeMainTable w.ni.mappingBlocksTopBa
      | some (tableStart, tableEnd) =>
          modifyNi (fun ni =>
            { ni with backupTableBa := tableStart, mappingBlocksBa := tableEnd })
          nmbmMarkTablesClean
          writeMainTable tableStart

/-- The loop of {lit}`nmbm_update_info_table`. -/
def updateLoop : Nat → NmbmM Bool
  | 0 => pure true
  | fuel + 1 => do
      let w ← get
      if w.ni.blockStateChanged ≠ 0 ∨ w.ni.blockMappingChanged ≠ 0 then
        let success ← nmbmUpdateInfoTableOnce false
        if !success then pure false else updateLoop fuel
      else
        pure true

/-- {lit}`nmbm_update_info_table`. -/
def nmbmUpdateInfoTable : NmbmM Bool := do
  let nld ← ask
  let w ← get
  if w.ni.isProtected then pure true
  else updateLoop (nld.blockCount + 2)

/-- {lit}`nmbm_map_block`. -/
def nmbmMapBlock (lb : Nat) : NmbmM Bool := do
  let nld ← ask
  let w ← get
  let top := w.ni.mappingBlocksTopBa
  if w.ni.mappingBlocksBa = top then
    pure false
  else
    match nmbmBlockWalk nld w.ni false top 0 w.ni.mappingBlocksBa with
    | none =>
        let _ ← nmbmUpdateInfoTable
        modifyNi (fun ni => { ni with mappingBlocksTopBa := ni.mappingBlocksBa })
        pure false
    | some pb =>
        logEvent (fun ni _ => .map (nmbmGetBlockState ni top == blockStGood))
        modifyNi (fun ni =>
          { ni with
            blockMapping := ni.blockMapping.set lb pb
            mappingBlocksTopBa := u32Sub ni.mappingBlocksTopBa 1
            blockMappingChanged := ni.blockMappingChanged + 1 })
        pure true

end Nmbm
end ZyxelRouter
