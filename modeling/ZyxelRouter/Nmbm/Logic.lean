import ZyxelRouter.Nmbm.Attach

/-!
# NMBM: operations on logic blocks

Erasing, reading, writing and marking logic blocks of an attached instance, and runs of
such calls.  Every call of a run may meet its own failures of the lower device.
-/

namespace ZyxelRouter
namespace Nmbm

open Lib Lib.Prog

/-- {lit}`EIO`. -/
def eIo : Int := 5

/-- {lit}`EROFS`. -/
def eRofs : Int := 30

/-- Truncation to {lit}`uint64_t`. -/
def u64 (n : Nat) : Nat :=
  n % 2 ^ 64

/-! ## Erasing -/

/-- Record a block that was replaced as bad, unless it is to be remapped only. -/
def condemnBlock (pb : Nat) : NmbmM Unit := do
  let w ← get
  if nmbmGetBlockState w.ni pb ≠ blockStNeedRemap then
    nmbmSetBlockState pb blockStBad

/-- The label {lit}`remap_logic_block`: whether a new block was found for {lit}`lb` in place
of {lit}`pb`. -/
def remapLogicBlock (lb pb : Nat) : NmbmM Bool := do
  let success ← nmbmMapBlock lb
  if success then
    condemnBlock pb
    let _ ← nmbmUpdateInfoTable
    pure true
  else
    modifyNi (fun ni => { ni with blockMapping := ni.blockMapping.set lb (-1) })
    condemnBlock pb
    logEvent (fun ni _ =>
      .unmap (decide (ni.blockStateChanged ≠ 0 ∨ ni.blockMappingChanged ≠ 0)))
    let _ ← nmbmUpdateInfoTable
    pure false

/-- One attempt of {lit}`nmbm_erase_logic_block` at physical block {lit}`pb`. -/
def eraseMapped (pb : Nat) : NmbmM Bool := do
  let w ← get
  let state := nmbmGetBlockState w.ni pb
  if state = blockStBad ∨ state = blockStNeedRemap then return false
  let bad ← nmbmCheckBadPhysBlock pb
  if bad then
    nmbmSetBlockState pb blockStBad
    pure false
  else
    let success ← nmbmEraseBlockAndCheck pb
    if !success then
      retireBlock pb
    pure success

/-- The retry loop of {lit}`nmbm_erase_logic_block`; every retry takes a block from the
spare pool. -/
def eraseRetry (lb : Nat) : Nat → NmbmM Int
  | 0 => pure (-eIo)
  | fuel + 1 => do
      let w ← get
      let entry := w.ni.blockMapping.getD lb (-1)
      if entry < 0 then return -eIo
      let usable ← eraseMapped entry.toNat
      if usable then return 0
      let mapped ← remapLogicBlock lb entry.toNat
      if mapped then eraseRetry lb fuel else pure (-eIo)

/-- {lit}`nmbm_erase_logic_block`. -/
def nmbmEraseLogicBlock (lb : Nat) : NmbmM Int := do
  let w ← get
  eraseRetry lb (w.ni.mappingBlocksTopBa + 2)

/-- The loop of {lit}`nmbm_erase_block_range` over {lit}`n` logic blocks. -/
def eraseBlocksLoop : Nat → Nat → NmbmM Int
  | 0, _ => pure 0
  | n + 1, lb => do
      let ret ← nmbmEraseLogicBlock lb
      if ret ≠ 0 then pure ret else eraseBlocksLoop n (lb + 1)

/-- {lit}`nmbm_erase_block_range`. -/
def nmbmEraseBlockRange (addr size : Nat) : NmbmM Int := do
  let nld ← ask
  let w ← get
  let avail := nld.ba2addr w.ni.dataBlockCount
  if w.ni.isProtected ∨ nld.readOnly then return -eRofs
  if avail ≤ addr then return -eInval
  if avail < u64 (addr + size) then return -eInval
  if size = 0 then return 0
  let startBa := nld.addr2ba addr
  let endBa := nld.addr2ba (u64 (addr + size - 1))
  eraseBlocksLoop (endBa + 1 - startBa) startBa

/-! ## Reading -/

/-- The page of a block that holds an address. -/
def pageOf (nld : LowerDevice) (addr : Nat) : Nat :=
  (addr &&& (nld.erasesize - 1)) / nld.writesize

/-- {lit}`nmbm_read_logic_page`. -/
def nmbmReadLogicPage (addr : Nat) : NmbmM (Int × Page) := do
  let nld ← ask
  let w ← get
  let entry := w.ni.blockMapping.getD (nld.addr2ba addr) (-1)
  if entry < 0 then return (-eIo, fun _ => 0)
  if nmbmGetBlockState w.ni entry.toNat = blockStBad then return (-eIo, fun _ => 0)
  nmbmReadPhysPage entry.toNat (pageOf nld addr)

/-- {lit}`nmbm_read_single_page`. -/
def nmbmReadSinglePage (addr : Nat) : NmbmM (Int × Page) := do
  let nld ← ask
  let w ← get
  if w.ni.isProtected then return (-eRofs, fun _ => 0)
  if nld.ba2addr w.ni.dataBlockCount ≤ addr then return (-eInval, fun _ => 0)
  nmbmReadLogicPage addr

/-- The loop of {lit}`nmbm_read_range`: the last result, whether a page had an ECC error,
the maximum of bitflips and the bytes read. -/
def readRangeLoop : Nat → Nat → Nat → Bool → Int → List UInt8 →
    NmbmM (Int × Bool × Int × List UInt8)
  | 0, _, _, eccErr, flips, acc => pure (0, eccErr, flips, acc)
  | fuel + 1, off, sizeremain, eccErr, flips, acc => do
      let nld ← ask
      let leading := off &&& (nld.writesize - 1)
      let chunksize := min (nld.writesize - leading) sizeremain
      let r ← nmbmReadLogicPage (off - leading)
      if chunksize ≠ nld.writesize then
        setPageCache 0 (mainArea nld r.2)
      if r.1 < 0 ∧ r.1 ≠ eBadMsg then return (r.1, eccErr, flips, acc)
      let eccErr' := eccErr || r.1 == eBadMsg
      let flips' := max flips r.1
      let acc' := acc ++ readAt (mainArea nld r.2) leading chunksize
      if sizeremain - chunksize = 0 then return (r.1, eccErr', flips', acc')
      readRangeLoop fuel (off + chunksize) (sizeremain - chunksize) eccErr' flips' acc'

/-- {lit}`nmbm_read_range`: the return value and the bytes read. -/
def nmbmReadRange (addr size : Nat) : NmbmM (Int × List UInt8) := do
  let nld ← ask
  let w ← get
  let avail := nld.ba2addr w.ni.dataBlockCount
  if w.ni.isProtected then return (-eRofs, [])
  if avail ≤ addr then return (-eInval, [])
  if avail < u64 (addr + size) then return (-eInval, [])
  if size = 0 then return (0, [])
  let r ← readRangeLoop size addr size false 0 []
  if r.1 < 0 ∧ r.1 ≠ eBadMsg then return (r.1, r.2.2.2)
  if r.2.1 then return (eBadMsg, r.2.2.2)
  pure (r.2.2.1, r.2.2.2)

/-! ## Writing and marking -/

/-- {lit}`nmbm_write_logic_page`. -/
def nmbmWriteLogicPage (addr : Nat) (data oob : Option (List UInt8)) : NmbmM Int := do
  let nld ← ask
  let w ← get
  let entry := w.ni.blockMapping.getD (nld.addr2ba addr) (-1)
  if entry < 0 then return -eIo
  if nmbmGetBlockState w.ni entry.toNat = blockStBad then return -eIo
  let success ← nmbmWritePhysPage entry.toNat (pageOf nld addr) data oob
  if success then return 0
  nmbmSetBlockState entry.toNat blockStNeedRemap
  let _ ← nmbmUpdateInfoTable
  pure (-eIo)

/-- {lit}`nmbm_write_single_page`. -/
def nmbmWriteSinglePage (addr : Nat) (data oob : Option (List UInt8)) : NmbmM Int := do
  let nld ← ask
  let w ← get
  if w.ni.isProtected ∨ nld.readOnly then return -eRofs
  if nld.ba2addr w.ni.dataBlockCount ≤ addr then return -eInval
  nmbmWriteLogicPage addr data oob

/-- The page that {lit}`nmbm_write_range` writes for a chunk behind {lit}`leading` bytes. -/
def fillPage (leading : Nat) (chunk : List UInt8) : NmbmM (List UInt8) := do
  let nld ← ask
  if chunk.length = nld.writesize then return chunk
  setPageCache 0 (List.replicate leading 0xff)
  setPageCache leading chunk
  let w ← get
  pure (w.ni.pageCache.take nld.writesize)

/-- The loop of {lit}`nmbm_write_range`. -/
def writeRangeLoop : Nat → Nat → List UInt8 → NmbmM Int
  | 0, _, _ => pure 0
  | fuel + 1, off, data => do
      let nld ← ask
      let leading := off &&& (nld.writesize - 1)
      let chunksize := min (nld.writesize - leading) data.length
      let page ← fillPage leading (data.take chunksize)
      let ret ← nmbmWriteLogicPage (off - leading) (some page) none
      if ret ≠ 0 then return ret
      if data.length - chunksize = 0 then return 0
      writeRangeLoop fuel (off + chunksize) (data.drop chunksize)

/-- {lit}`nmbm_write_range`. -/
def nmbmWriteRange (addr : Nat) (data : List UInt8) : NmbmM Int := do
  let nld ← ask
  let w ← get
  let avail := nld.ba2addr w.ni.dataBlockCount
  if w.ni.isProtected ∨ nld.readOnly then return -eRofs
  if avail ≤ addr then return -eInval
  if avail < u64 (addr + data.length) then return -eInval
  if data.length = 0 then return 0
  writeRangeLoop data.length addr data

/-- {lit}`nmbm_mark_bad_block`. -/
def nmbmMarkBadBlock (addr : Nat) : NmbmM Int := do
  let nld ← ask
  let w ← get
  if w.ni.isProtected ∨ nld.readOnly then return -eRofs
  if nld.ba2addr w.ni.dataBlockCount ≤ addr then return -eInval
  let lb := nld.addr2ba addr
  let entry := w.ni.blockMapping.getD lb (-1)
  if entry < 0 then return 0
  modifyNi (fun ni => { ni with blockMapping := ni.blockMapping.set lb (-1) })
  retireBlock entry.toNat
  logEvent (fun ni _ =>
    .unmap (decide (ni.blockStateChanged ≠ 0 ∨ ni.blockMappingChanged ≠ 0)))
  let _ ← nmbmUpdateInfoTable
  pure 0

/-! ## Runs -/

/-- The public calls on an attached instance. -/
inductive Call where
  | eraseBlockRange (addr size : Nat)
  | writeSinglePage (addr : Nat) (data oob : Option (List UInt8))
  | writeRange (addr : Nat) (data : List UInt8)
  | markBadBlock (addr : Nat)
  | readSinglePage (addr : Nat)
  | readRange (addr size : Nat)

/-- Carry out a call: its return value. -/
def Call.exec : Call → NmbmM Int
  | .eraseBlockRange addr size => nmbmEraseBlockRange addr size
  | .writeSinglePage addr data oob => nmbmWriteSinglePage addr data oob
  | .writeRange addr data => nmbmWriteRange addr data
  | .markBadBlock addr => nmbmMarkBadBlock addr
  | .readSinglePage addr => do
      let r ← nmbmReadSinglePage addr
      pure r.1
  | .readRange addr size => do
      let r ← nmbmReadRange addr size
      pure r.1

/-- The state after a call on a chip that behaves as {lit}`fates` says. -/
def World.after (nld : LowerDevice) (w : World) (call : Call) (fates : Fates) : World :=
  (call.exec { nld with fates } w).2

/-- States reached from {lit}`w` by calls, each on a chip whose behaviour meets
{lit}`P`. -/
inductive Reaches (nld : LowerDevice) (P : Fates → Prop) (w : World) : World → Prop
  | refl : Reaches nld P w w
  | call {w' : World} (h : Reaches nld P w w') (c : Call) {fates : Fates} (hP : P fates) :
      Reaches nld P w (w'.after nld c fates)

end Nmbm
end ZyxelRouter
