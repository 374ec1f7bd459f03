import ZyxelRouter.Nmbm.Tables

/-!
# NMBM: creating and loading an instance

{lit}`nmbm_attach` with its two ways: a chip without a signature gets a new management
area, and on a chip with a signature the info tables are searched and loaded.
-/

namespace ZyxelRouter
namespace Nmbm

open Lib Lib.Prog

/-! ## Creation -/

/-- {lit}`nmbm_scan_badblocks` over the {lit}`n` blocks from {lit}`ba` on. -/
def nmbmScanBadblocks : Nat → Nat → NmbmM Unit
  | 0, _ => pure ()
  | n + 1, ba => do
      let bad ← nmbmCheckBadPhysBlock ba
      if bad then
        nmbmSetBlockState ba blockStBad
      nmbmScanBadblocks n (ba + 1)

/-- The blocks below {lit}`limit` that are not bad. -/
def usableBlocks (ni : NmbmInstance) (limit : Nat) : List Nat :=
  (List.range limit).filter (fun pb => nmbmGetBlockState ni pb ≠ blockStBad)

/-- {lit}`nmbm_build_mapping_table`. -/
def nmbmBuildMappingTable : NmbmM Unit := do
  let nld ← ask
  modifyNi (fun ni =>
    let usable := usableBlocks ni ni.mgmtStartBa
    { ni with
      blockMapping :=
        usable.map Int.ofNat ++ List.replicate (nld.blockCount - usable.length) (-1)
      dataBlockCount := usable.length })

/-- The page loop of {lit}`nmbm_write_repeated_data`. -/
def writeRepeatedLoop (ba : Nat) (data : List UInt8) : Nat → Nat → NmbmM Bool
  | 0, _ => pure true
  | n + 1, page => do
      let nld ← ask
      setPageCache 0 (data ++ List.replicate (nld.rawpageSize - data.length) 0xff)
      let w ← get
      let success ← nmbmWritePhysPage ba page (some (w.ni.pageCache.take nld.writesize)) none
      if !success then return false
      let r ← nmbmReadPhysPage ba page
      setPageCache 0 (mainArea nld r.2)
      if r.1 < 0 then return false
      if (mainArea nld r.2).take data.length ≠ data then return false
      writeRepeatedLoop ba data n (page + 1)

/-- {lit}`nmbm_write_repeated_data`. -/
def nmbmWriteRepeatedData (ba : Nat) (data : List UInt8) : NmbmM Bool := do
  let nld ← ask
  if nld.writesize < data.length then pure false
  else writeRepeatedLoop ba data nld.pagesPerBlock 0

/-- Erase a block and fill its pages with the signature. -/
def writeSignatureBlock (ba : Nat) (signature : List UInt8) : NmbmM Bool := do
  let erased ← nmbmEraseBlockAndCheck ba
  if erased then nmbmWriteRepeatedData ba signature else pure false

/-- {lit}`nmbm_write_signature` over the {lit}`n` blocks from {lit}`ba` down. -/
def nmbmWriteSignature (signature : List UInt8) : Nat → Nat → NmbmM (Option Nat)
  | 0, _ => pure none
  | n + 1, ba => do
      let w ← get
      if nmbmGetBlockState w.ni ba ≠ blockStGood then
        nmbmWriteSignature signature n (ba - 1)
      else
        let bad ← nmbmCheckBadPhysBlock ba
        if bad then
          nmbmSetBlockState ba blockStBad
          nmbmWriteSignature signature n (ba - 1)
        else
          let success ← writeSignatureBlock ba signature
          if success then
            pure (some ba)
          else
            retireBlock ba
            nmbmWriteSignature signature n (ba - 1)

/-- The remapping loop of {lit}`nmbm_create_info_table` over {lit}`n` logic blocks. -/
def remapLoop : Nat → Nat → NmbmM Unit
  | 0, _ => pure ()
  | n + 1, lb => do
      let success ← nmbmMapBlock lb
      if success then
        modifyNi (fun ni => { ni with dataBlockCount := ni.dataBlockCount + 1 })
        remapLoop n (lb + 1)

/-- {lit}`nmbm_create_info_table`. -/
def nmbmCreateInfoTable : NmbmM Bool := do
  let nld ← ask
  let w ← get
  match nmbmBlockWalk nld w.ni false w.ni.signatureBa 1 w.ni.mgmtStartBa with
  | none => pure false
  | some top =>
      modifyNi (fun ni => { ni with mappingBlocksTopBa := top })
      let _ ← nmbmGenerateInfoTableCache
      let success ← nmbmRebuildInfoTable
      if !success then return false
      let w ← get
      remapLoop (w.ni.mgmtStartBa - w.ni.dataBlockCount) w.ni.dataBlockCount
      nmbmUpdateInfoTable

/-- The boundary of the management blocks on a new chip. -/
def mgmtStart (nld : LowerDevice) : Nat :=
  let start := u32 (nld.blockCount * (nmbmMgmtDiv - nld.maxRatio)) / nmbmMgmtDiv
  if nld.maxReservedBlocks ≠ 0 ∧ nld.maxReservedBlocks < nld.blockCount - start then
    nld.blockCount - nld.maxReservedBlocks
  else start

/-- The bytes of the signature written on a new chip. -/
def newSignature (nld : LowerDevice) (mgmtStartBa : Nat) : Signature :=
  let signature : Signature :=
    { header :=
        { magic := nmbmMagicSignature, version := nmbmVer, size := signatureSize, checksum := 0 }
      nandSize := nld.size
      blockSize := nld.erasesize
      pageSize := nld.writesize
      spareSize := nld.oobsize
      mgmtStartPb := mgmtStartBa
      maxTryCount := nmbmTryCount }
  { signature with
    header := { signature.header with checksum := nmbmCrc32 0 signature.bytes } }

/-- {lit}`nmbm_create_new`. -/
def nmbmCreateNew : NmbmM Bool := do
  let nld ← ask
  modifyNi (fun ni => { ni with mgmtStartBa := mgmtStart nld })
  nmbmScanBadblocks nld.blockCount 0
  nmbmBuildMappingTable
  modifyNi (fun ni => { ni with signature := newSignature nld ni.mgmtStartBa })
  if nld.readOnly then
    return true
  let w ← get
  match ← nmbmWriteSignature w.ni.signature.bytes (nld.blockCount - 1 - w.ni.mgmtStartBa)
      (nld.blockCount - 1) with
  | none => pure false
  | some ba =>
      modifyNi (fun ni => { ni with signatureBa := ba })
      nmbmCreateInfoTable

/-! ## Loading -/

/-- {lit}`nmbm_check_info_table_header`. -/
def nmbmCheckInfoTableHeader (nld : LowerDevice) (data : List UInt8) : Bool :=
  let ifthdr := readInfoTableHeader data
  if ifthdr.header.magic ≠ nmbmMagicInfoTable then false
  else if ifthdr.header.size ≠ nld.infoTableSize then false
  else if u32Sub ifthdr.mappingTableOff ifthdr.stateTableOff < nld.stateTableSize then false
  else if u32Sub nld.infoTableSize ifthdr.mappingTableOff < nld.mappingTableSize then false
  else true

/-- The mapping entries of {lit}`nmbm_check_info_table`: the lowest mapped block at or
above {lit}`endBa`, unless an entry is out of place.  Entries are compared unsigned. -/
def checkMapping (dataBlockCount endBa signatureBa : Nat) : List Int → Nat → Option Nat
  | [], minimum => some minimum
  | pb :: rest, minimum =>
      let word := wordOf 4 pb
      if (dataBlockCount ≤ word ∧ word < endBa) ∨ word = signatureBa then none
      else
        checkMapping dataBlockCount endBa signatureBa rest
          (if endBa ≤ word ∧ word < minimum then word else minimum)

/-- {lit}`nmbm_check_info_table`: the new {lit}`mapping_blocks_top_ba`. -/
def nmbmCheckInfoTable (nld : LowerDevice) (ni : NmbmInstance) (startBa endBa : Nat)
    (data : List UInt8) : Option Nat :=
  let ifthdr := readInfoTableHeader data
  let blockMapping := readMapping data ifthdr.mappingTableOff nld.mappingTableSize
  let blockState := readStates data ifthdr.stateTableOff nld.stateTableSize
  match checkMapping ni.dataBlockCount endBa ni.signatureBa
      (blockMapping.take ni.dataBlockCount) ni.signatureBa with
  | none => none
  | some minimum =>
      if (List.range' startBa (endBa - startBa)).all (fun ba =>
          decide (nmbmGetBlockState ni ba ≠ blockStGood) ||
            decide (nmbmGetBlockStateRaw blockState ba = blockStGood)) then
        some (u32Sub minimum 1)
      else none

/-- The loop of {lit}`nmbm_try_load_info_table` over {lit}`n` blocks from {lit}`ba` on,
with the bytes still wanted, those read so far and the first block read: these bytes, the
first block and the end, or nothing if no table is here. -/
def tryLoadLoop : Nat → Nat → Nat → List UInt8 → Option Nat →
    NmbmM (Option (List UInt8 × Nat × Nat))
  | 0, ba, sizeremain, acc, start =>
      if sizeremain = 0 then pure (some (acc, start.getD 0, ba)) else pure none
  | n + 1, ba, sizeremain, acc, start => do
      if sizeremain = 0 then return some (acc, start.getD 0, ba)
      let nld ← ask
      let w ← get
      if nmbmGetBlockState w.ni ba ≠ blockStGood then
        tryLoadLoop n (ba + 1) sizeremain acc start
      else
        let bad ← nmbmCheckBadPhysBlock ba
        if bad then
          nmbmSetBlockState ba blockStBad
          tryLoadLoop n (ba + 1) sizeremain acc start
        else
          let chunksize := min sizeremain nld.erasesize
          let r ← nmbnReadData ba 0 chunksize
          if r.1 < 0 then
            nmbmSetBlockState ba blockStBad
            tryLoadLoop n (ba + 1) sizeremain acc start
          else if 0 < r.1 then
            pure none
          else if start = none ∧ nmbmCheckInfoTableHeader nld r.2 = false then
            pure none
          else
            tryLoadLoop n (ba + 1) (sizeremain - chunksize) (acc ++ r.2) (some (start.getD ba))

/-- A table found on the chip: its end, its write count and the top of the spare pool. -/
structure FoundTable where
  startBa : Nat
  endBa : Nat
  writeCount : Nat
  mappingBlocksTopBa : Nat
deriving DecidableEq, Repr

/-- {lit}`nmbm_try_load_info_table`. -/
def nmbmTryLoadInfoTable (ba : Nat) (tableLoaded : Bool) : NmbmM (Option FoundTable) := do
  let nld ← ask
  match ← tryLoadLoop (nld.size2blk nld.infoTableSize) ba nld.infoTableSize [] none with
  | none => pure none
  | some (data, startBa, endBa) =>
      modifyNi (fun ni => { ni with infoTableCache := data })
      if nmbmCheckHeader data nld.infoTableSize = false then
        pure none
      else
        let ifthdr := readInfoTableHeader data
        let w ← get
        match nmbmCheckInfoTable nld w.ni startBa endBa data with
        | none => pure none
        | some top =>
            if tableLoaded = false ∨ w.ni.infoTable.writeCount < ifthdr.writeCount then
              modifyNi (fun ni =>
                { ni with
                  infoTable := ifthdr
                  blockState := readStates data ifthdr.stateTableOff nld.stateTableSize
                  blockMapping := readMapping data ifthdr.mappingTableOff nld.mappingTableSize })
            pure (some
              { startBa := ba
                endBa
                writeCount := ifthdr.writeCount
                mappingBlocksTopBa := top })

/-- {lit}`nmbm_search_info_table` over the {lit}`n` blocks from {lit}`ba` on. -/
def searchLoop (tableLoaded : Bool) : Nat → Nat → NmbmM (Option FoundTable)
  | 0, _ => pure none
  | n + 1, ba => do
      match ← nmbmTryLoadInfoTable ba tableLoaded with
      | some found => pure (some found)
      | none => searchLoop tableLoaded n (ba + 1)

/-- {lit}`nmbm_search_info_table`. -/
def nmbmSearchInfoTable (ba limit : Nat) (tableLoaded : Bool) : NmbmM (Option FoundTable) := do
  let nld ← ask
  searchLoop tableLoaded (u32Sub limit (nld.size2blk nld.infoTableSize) - ba) ba

/-- The final {lit}`data_block_count`: one more than the last of {lit}`n` entries that is
mapped, or {lit}`dflt`. -/
def lastMapped (blockMapping : List Int) (dflt : Nat) : Nat → Nat
  | 0 => dflt
  | n + 1 => if 0 ≤ blockMapping.getD n 0 then n + 1 else lastMapped blockMapping dflt n

/-- The end of {lit}`nmbm_load_info_table`: write a missing table, bring a lagging one up
to date, and protect an instance without spare blocks or without a second table. -/
def settleTables (mainWriteCount : Nat) (backup : Option FoundTable) : NmbmM Unit := do
  let success ←
    match backup with
    | none => nmbmRescueSingleInfoTable
    | some found =>
        if mainWriteCount ≠ found.writeCount then do
          modifyNi (fun ni => { ni with blockStateChanged := 1, blockMappingChanged := 1 })
          nmbmUpdateSingleInfoTable (decide (mainWriteCount < found.writeCount))
        else
          pure true
  modifyNi (fun ni =>
    { ni with
      isProtected :=
        if ni.mappingBlocksBa = ni.mappingBlocksTopBa then true
        else if !success then true
        else ni.isProtected })

/-- {lit}`nmbm_load_info_table`. -/
def nmbmLoadInfoTable (ba limit : Nat) : NmbmM Bool := do
  let nld ← ask
  modifyNi (fun ni =>
    { ni with
      mainTableBa := 0
      backupTableBa := 0
      infoTable := { ni.infoTable with writeCount := 0 }
      mappingBlocksTopBa := u32Sub ni.signatureBa 1
      dataBlockCount := ni.signature.mgmtStartPb })
  match ← nmbmSearchInfoTable ba limit false with
  | none => pure false
  | some main =>
      modifyNi (fun ni => { ni with mainTableBa := main.startBa })
      let backup ← nmbmSearchInfoTable main.endBa limit true
      let top :=
        match backup with
        | none => main.mappingBlocksTopBa
        | some found =>
            if found.writeCount ≤ main.writeCount then main.mappingBlocksTopBa
            else found.mappingBlocksTopBa
      modifyNi (fun ni =>
        { ni with
          backupTableBa := (backup.map (·.startBa)).getD 0
          mappingBlocksTopBa := top
          mappingBlocksBa := (backup.map (·.endBa)).getD main.endBa
          dataBlockCount :=
            lastMapped ni.blockMapping ni.dataBlockCount ni.signature.mgmtStartPb })
      let _ ← nmbmGenerateInfoTableCache
      if nld.readOnly then
        return true
      settleTables main.writeCount backup
      pure true

/-- {lit}`nmbm_load_existing`. -/
def nmbmLoadExisting : NmbmM Bool := do
  let nld ← ask
  modifyNi (fun ni => { ni with mgmtStartBa := ni.signature.mgmtStartPb })
  let w ← get
  let success ← nmbmLoadInfoTable w.ni.mgmtStartBa w.ni.signatureBa
  if success then
    return true
  if !nld.create then
    return false
  nmbmScanBadblocks nld.blockCount 0
  nmbmBuildMappingTable
  if nld.readOnly then
    return true
  nmbmCreateInfoTable

/-! ## Attaching -/

/-- The page loop of {lit}`nmbm_find_signature` over {lit}`n` pages of a block. -/
def findInPages (ba : Nat) : Nat → Nat → NmbmM (Option Signature)
  | 0, _ => pure none
  | n + 1, page => do
      let r ← nmbnReadData ba page signatureSize
      if r.1 = 0 ∧ nmbmCheckHeader r.2 signatureSize = true ∧
          (readHeader r.2).magic = nmbmMagicSignature then
        pure (some (readSignature r.2))
      else
        findInPages ba n (page + 1)

/-- The block loop of {lit}`nmbm_find_signature`; without fuel there is no result. -/
def findSignatureLoop (limit : Nat) : Nat → Nat → NmbmM (Option (Option (Signature × Nat)))
  | 0, _ => pure none
  | fuel + 1, ba => do
      if ba < limit then return some none
      let nld ← ask
      let ba := u32Sub ba 1
      let bad ← nmbmCheckBadPhysBlock ba
      if bad then
        findSignatureLoop limit fuel ba
      else
        match ← findInPages ba nld.pagesPerBlock 0 with
        | some signature => pure (some (some (signature, ba)))
        | none => findSignatureLoop limit fuel ba

/-- The lower end of the signature search. -/
def findSignatureLimit (nld : LowerDevice) : Nat :=
  let limit := u32 (nld.blockCount / nmbmMgmtDiv * (nmbmMgmtDiv - nld.maxRatio))
  if nld.maxReservedBlocks ≠ 0 ∧ nld.maxReservedBlocks < u32Sub nld.blockCount limit then
    nld.blockCount - nld.maxReservedBlocks
  else limit

/-- {lit}`nmbm_find_signature`. -/
def nmbmFindSignature : NmbmM (Option (Signature × Nat)) := do
  let nld ← ask
  let found ← findSignatureLoop (findSignatureLimit nld) (nld.blockCount + 2) nld.blockCount
  pure (found.getD none)

/-- The instance after {lit}`nmbm_init_structure` on zeroed memory. -/
def nmbmInitStructure (nld : LowerDevice) : NmbmInstance where
  signature := readSignature (List.replicate signatureSize 0)
  infoTableCache := List.replicate nld.infoTableSize 0
  infoTable :=
    { header := readHeader (List.replicate headerSize 0)
      writeCount := 0
      stateTableOff := nld.stateTableOff
      mappingTableOff := nld.mappingTableOff
      padding := 0 }
  blockState := List.replicate (nld.stateTableSize / 4) 0xffffffff#32
  blockStateChanged := 0
  blockMapping := List.replicate nld.blockCount 0
  blockMappingChanged := 0
  pageCache := List.replicate nld.rawpageSize 0
  isProtected := false
  dataBlockCount := 0
  mgmtStartBa := 0
  mainTableBa := 0
  backupTableBa := 0
  mappingBlocksBa := 0
  mappingBlocksTopBa := 0
  signatureBa := 0

/-- {lit}`EINVAL`. -/
def eInval : Int := 22

/-- {lit}`ENODEV`. -/
def eNoDev : Int := 19

/-- {lit}`nmbm_attach` after its checks of the lower device. -/
def nmbmAttachDevice : NmbmM Int := do
  let nld ← ask
  match ← nmbmFindSignature with
  | none =>
      if !nld.create then return -eNoDev
      let success ← nmbmCreateNew
      pure (if success then 0 else -eNoDev)
  | some (signature, signatureBa) =>
      modifyNi (fun ni => { ni with signature, signatureBa })
      if signature.header.version ≠ nmbmVer then return -eInval
      if signature.nandSize ≠ nld.size ∨ signature.blockSize ≠ nld.erasesize ∨
          signature.pageSize ≠ nld.writesize ∨ signature.spareSize ≠ nld.oobsize then
        return -eInval
      let success ← nmbmLoadExisting
      pure (if success then 0 else -eNoDev)

/-- The world of a fresh instance on a chip with the given memory. -/
def freshWorld (nld : LowerDevice) (flash : Flash) : World where
  ni := nmbmInitStructure nld
  chip := { flash, clock := 0, history := [] }
  events := []

/-- {lit}`nmbm_attach`: the return value, the lower device as kept in the instance, and
the instance. -/
def nmbmAttach (nld : LowerDevice) (flash : Flash) : Int × LowerDevice × World :=
  match nmbmCheckLowerMembers nld with
  | none => (-eInval, nld, freshWorld nld flash)
  | some nld' =>
      let r := nmbmAttachDevice nld' (freshWorld nld' flash)
      (r.1, nld', r.2)

end Nmbm
end ZyxelRouter
