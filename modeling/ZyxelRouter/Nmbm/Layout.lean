import ZyxelRouter.Lib.Bytes
import ZyxelRouter.Lib.NandChip

/-!
# NMBM: device parameters and on-flash structures

The NAND mapped-block manager keeps a signature block and two copies of an info table in
a management area at the end of the chip.  This module gives the parameters of the lower
device, the sizes derived from them, the block state bitmap and the byte layout of
headers.  Sizes are computed in 32 bits, as in {lit}`nmbm_init_structure`.
-/

namespace ZyxelRouter
namespace Nmbm

open Lib

/-! ## Lower device -/

/-- {lit}`struct nmbm_lower_device`, with the behaviour of the chip in place of its
callbacks. -/
structure LowerDevice where
  maxRatio : Nat
  maxReservedBlocks : Nat
  create : Bool
  emptyPageEccOk : Bool
  readOnly : Bool
  size : Nat
  erasesize : Nat
  writesize : Nat
  oobsize : Nat
  hasIsBadBlock : Bool
  hasMarkBadBlock : Bool
  fates : Fates

/-- {lit}`NMBM_MGMT_DIV`. -/
def nmbmMgmtDiv : Nat := 16

/-- {lit}`NMBM_MGMT_BLOCKS_MIN`. -/
def nmbmMgmtBlocksMin : Nat := 32

/-- {lit}`NMBM_TRY_COUNT`. -/
def nmbmTryCount : Nat := 3

/-- {lit}`is_power_of_2_u64`. -/
def isPowerOf2U64 (n : Nat) : Bool :=
  n != 0 && (n &&& (n - 1)) == 0

/-- {lit}`nmbm_check_lower_members`: the device with its ratio defaulted, if valid. -/
def nmbmCheckLowerMembers (nld : LowerDevice) : Option LowerDevice :=
  if !isPowerOf2U64 nld.size then none
  else if !isPowerOf2U64 nld.erasesize then none
  else if !isPowerOf2U64 nld.writesize then none
  else if !isPowerOf2U64 nld.oobsize then none
  else
    let maxRatio := if nld.maxRatio = 0 then 1 else nld.maxRatio
    if nmbmMgmtDiv - 1 ≤ maxRatio then none
    else if nld.maxReservedBlocks ≠ 0 ∧ nld.maxReservedBlocks < nmbmMgmtBlocksMin then none
    else some { nld with maxRatio }

/-- Truncation to {lit}`uint32_t`. -/
def u32 (n : Nat) : Nat :=
  n % 2 ^ 32

/-- {lit}`NMBM_ALIGN` in 32 bits. -/
def nmbmAlign (v a : Nat) : Nat :=
  u32 (v + a - 1) &&& (2 ^ 32 - a)

namespace LowerDevice

/-- {lit}`erasesize_shift`. -/
def erasesizeShift (nld : LowerDevice) : Nat :=
  Nat.log2 nld.erasesize

/-- {lit}`block_count`. -/
def blockCount (nld : LowerDevice) : Nat :=
  u32 (nld.size >>> nld.erasesizeShift)

/-- The pages of a block. -/
def pagesPerBlock (nld : LowerDevice) : Nat :=
  (nld.erasesize + nld.writesize - 1) / nld.writesize

/-- {lit}`rawpage_size`. -/
def rawpageSize (nld : LowerDevice) : Nat :=
  nld.writesize + nld.oobsize

/-- {lit}`state_table_size`. -/
def stateTableSize (nld : LowerDevice) : Nat :=
  u32 (u32 (nld.blockCount + 15) / 16 * 4)

/-- {lit}`mapping_table_size`. -/
def mappingTableSize (nld : LowerDevice) : Nat :=
  u32 (nld.blockCount * 4)

/-- The initial {lit}`state_table_off`. -/
def stateTableOff (nld : LowerDevice) : Nat :=
  nmbmAlign 32 nld.writesize

/-- The initial {lit}`mapping_table_off`. -/
def mappingTableOff (nld : LowerDevice) : Nat :=
  u32 (nld.stateTableOff + nmbmAlign nld.stateTableSize nld.writesize)

/-- {lit}`info_table_size`. -/
def infoTableSize (nld : LowerDevice) : Nat :=
  u32 (nld.mappingTableOff + nmbmAlign nld.mappingTableSize nld.writesize)

/-- {lit}`addr2ba`. -/
def addr2ba (nld : LowerDevice) (addr : Nat) : Nat :=
  u32 (addr >>> nld.erasesizeShift)

/-- {lit}`ba2addr`. -/
def ba2addr (nld : LowerDevice) (ba : Nat) : Nat :=
  ba <<< nld.erasesizeShift

/-- {lit}`size2blk`. -/
def size2blk (nld : LowerDevice) (size : Nat) : Nat :=
  (size + nld.erasesize - 1) >>> nld.erasesizeShift

/-- {lit}`nmbm_get_spare_block_count` of the info table:
{lit}`info_table_spare_blocks`. -/
def infoTableSpareBlocks (nld : LowerDevice) : Nat :=
  max ((nld.size2blk nld.infoTableSize + 1) / 2) 2

end LowerDevice

/-! ## Block states -/

/-- {lit}`BLOCK_ST_BAD`. -/
def blockStBad : BitVec 32 := 0#32

/-- {lit}`BLOCK_ST_NEED_REMAP`. -/
def blockStNeedRemap : BitVec 32 := 2#32

/-- {lit}`BLOCK_ST_GOOD`. -/
def blockStGood : BitVec 32 := 3#32

/-- {lit}`BLOCK_ST_MASK`. -/
def blockStMask : BitVec 32 := 3#32

/-- {lit}`nmbm_bitmap_t *block_state`: 16 blocks in each unit. -/
abbrev BlockStates := List (BitVec 32)

/-- {lit}`nmbm_get_block_state_raw`. -/
def nmbmGetBlockStateRaw (blockState : BlockStates) (ba : Nat) : BitVec 32 :=
  (blockState.getD (ba / 16) 0#32 >>> (ba % 16 * 2)) &&& blockStMask

/-- The bitmap after {lit}`nmbm_set_block_state`. -/
def setBlockStateRaw (blockState : BlockStates) (ba : Nat) (state : BitVec 32) : BlockStates :=
  let unit := ba / 16
  let shift := ba % 16 * 2
  let uv := blockState.getD unit 0#32 &&& ~~~(blockStMask <<< shift)
  blockState.set unit (uv ||| ((state &&& blockStMask) <<< shift))

/-! ## Headers and checksums -/

/-- One bit of {lit}`crc32_le`. -/
def crc32Bit (crc : Nat) : Nat :=
  if crc % 2 = 1 then (crc >>> 1) ^^^ 0xedb88320 else crc >>> 1

/-- One byte of {lit}`crc32_le`. -/
def crc32Byte (crc : Nat) (b : UInt8) : Nat :=
  crc32Bit (crc32Bit (crc32Bit (crc32Bit (crc32Bit (crc32Bit (crc32Bit (crc32Bit
    (crc ^^^ b.toNat))))))))

/-- {lit}`nmbm_crc32`, which is {lit}`crc32_le`. -/
def nmbmCrc32 (crc : Nat) (data : List UInt8) : Nat :=
  data.foldl crc32Byte crc

/-- {lit}`struct nmbm_header`. -/
structure Header where
  magic : Nat
  version : Nat
  size : Nat
  checksum : Nat
deriving DecidableEq, Repr

/-- {lit}`struct nmbm_signature`. -/
structure Signature where
  header : Header
  nandSize : Nat
  blockSize : Nat
  pageSize : Nat
  spareSize : Nat
  mgmtStartPb : Nat
  maxTryCount : Nat
deriving DecidableEq, Repr

/-- {lit}`struct nmbm_info_table_header`. -/
structure InfoTableHeader where
  header : Header
  writeCount : Nat
  stateTableOff : Nat
  mappingTableOff : Nat
  padding : Nat
deriving DecidableEq, Repr

/-- {lit}`NMBM_MAGIC_SIGNATURE`. -/
def nmbmMagicSignature : Nat := 0x304d4d4e

/-- {lit}`NMBM_MAGIC_INFO_TABLE`. -/
def nmbmMagicInfoTable : Nat := 0x314d4d4e

/-- {lit}`NMBM_VER`. -/
def nmbmVer : Nat := 1

/-- {lit}`sizeof(struct nmbm_header)`. -/
def headerSize : Nat := 16

/-- {lit}`sizeof(struct nmbm_signature)`. -/
def signatureSize : Nat := 48

/-- The bytes of a header. -/
def Header.bytes (h : Header) : List UInt8 :=
  leBytes 4 h.magic ++ leBytes 4 h.version ++ leBytes 4 h.size ++ leBytes 4 h.checksum

/-- The bytes of a signature. -/
def Signature.bytes (s : Signature) : List UInt8 :=
  s.header.bytes ++ leBytes 8 s.nandSize ++ leBytes 4 s.blockSize ++ leBytes 4 s.pageSize ++
    leBytes 4 s.spareSize ++ leBytes 4 s.mgmtStartPb ++ leBytes 1 s.maxTryCount ++
    List.replicate 7 0

/-- The bytes of an info table header. -/
def InfoTableHeader.bytes (h : InfoTableHeader) : List UInt8 :=
  h.header.bytes ++ leBytes 4 h.writeCount ++ leBytes 4 h.stateTableOff ++
    leBytes 4 h.mappingTableOff ++ leBytes 4 h.padding

/-- The word at an offset of a structure in memory. -/
def wordAt (data : List UInt8) (off : Nat) : Nat :=
  leNat (readAt data off 4)

/-- The header at the start of a structure. -/
def readHeader (data : List UInt8) : Header where
  magic := wordAt data 0
  version := wordAt data 4
  size := wordAt data 8
  checksum := wordAt data 12

/-- The info table header at the start of a table. -/
def readInfoTableHeader (data : List UInt8) : InfoTableHeader where
  header := readHeader data
  writeCount := wordAt data 16
  stateTableOff := wordAt data 20
  mappingTableOff := wordAt data 24
  padding := wordAt data 28

/-- The signature in a buffer. -/
def readSignature (data : List UInt8) : Signature where
  header := readHeader data
  nandSize := leNat (readAt data 16 8)
  blockSize := wordAt data 24
  pageSize := wordAt data 28
  spareSize := wordAt data 32
  mgmtStartPb := wordAt data 36
  maxTryCount := leNat (readAt data 40 1)

/-- {lit}`nmbm_check_header`. -/
def nmbmCheckHeader (data : List UInt8) (size : Nat) : Bool :=
  let header := readHeader data
  if size < header.size then false
  else
    let nhdr := { header with checksum := 0 }
    let newChecksum := nmbmCrc32 0 nhdr.bytes
    let newChecksum :=
      if headerSize < header.size then
        nmbmCrc32 newChecksum (readAt data headerSize (header.size - headerSize))
      else newChecksum
    header.checksum == newChecksum

/-- {lit}`nmbm_update_checksum` of a structure whose header states its size. -/
def nmbmUpdateChecksum (data : List UInt8) : List UInt8 :=
  let cleared := writeAt data 12 (leBytes 4 0)
  writeAt cleared 12 (leBytes 4 (nmbmCrc32 0 (cleared.take (readHeader cleared).size)))

/-- The bytes of the block state table. -/
def stateBytes (blockState : BlockStates) : List UInt8 :=
  blockState.flatMap (fun unit => leBytes 4 unit.toNat)

/-- The bytes of the block mapping table. -/
def mappingBytes (blockMapping : List Int) : List UInt8 :=
  blockMapping.flatMap (fun pb => leBytes 4 (wordOf 4 pb))

/-- Cut a byte string into {lit}`n` words. -/
def readWords (data : List UInt8) : Nat → Nat → List Nat
  | 0, _ => []
  | n + 1, off => wordAt data off :: readWords data n (off + 4)

/-- The block state table of {lit}`size` bytes at an offset. -/
def readStates (data : List UInt8) (off size : Nat) : BlockStates :=
  (readWords data (size / 4) off).map (BitVec.ofNat 32)

/-- The block mapping table of {lit}`size` bytes at an offset. -/
def readMapping (data : List UInt8) (off size : Nat) : List Int :=
  (readWords data (size / 4) off).map (signedOf 4)

end Nmbm
end ZyxelRouter
