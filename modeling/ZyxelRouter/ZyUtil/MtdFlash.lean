import Mathlib.Algebra.Ring.Int.Defs
import Mathlib.Algebra.Ring.Nat
import Mathlib.Data.List.Basic

/-!
# Buffers on a raw MTD partition

The utility library stores a buffer on an MTD partition, block by block and page by
page, and reads it back.  Writer and reader walk the partition separately and each of
them skips blocks by its own rule.

The outcome of every device operation is free and given by {lit}`Env`, indexed by the
address and by how often the operation was tried there.  A failing or lying operation
leaves arbitrary bytes in the range it addresses, and nothing outside it changes.
{lit}`MEMUNLOCK` has no effect on the contents and its result is never looked at; the
log output is left out.
-/

namespace ZyxelRouter
namespace ZyUtil

/-! ## The device -/

/-- The fields of {lit}`struct mtd_info_user` that are used.  Block sizes fit the
{lit}`int` in which the writer keeps them. -/
structure MtdInfo where
  ubiVolume : Bool
  size : Nat
  erasesize : Nat
  writesize : Nat
  oobsize : Nat
  size_lt : size < 2 ^ 32
  erasesize_lt : erasesize < 2 ^ 31
  writesize_pos : 0 < writesize
  erasesize_pos : 0 < erasesize
  writesize_dvd : writesize ∣ erasesize
  erasesize_dvd : erasesize ∣ size

/-- The number of erase blocks. -/
def MtdInfo.blocks (mtd : MtdInfo) : Nat :=
  mtd.size / mtd.erasesize

/-- What one {lit}`write` does: the page is stored; the full count is returned although
other bytes were stored; or the call fails. -/
inductive WriteFate where
  | stored
  | wrong (left : Nat → UInt8)
  | failed (left : Nat → UInt8)

/-- What one {lit}`read` does: it returns the contents, or some count and other bytes. -/
inductive ReadFate where
  | truthful
  | returns (ret : Int) (data : List UInt8)

/-- What one {lit}`MEMERASE` does. -/
inductive EraseFate where
  | erased
  | failed (left : Nat → UInt8)

/-- The outcomes of all device operations, by address and attempt since the device was
opened. -/
structure Env where
  opens : Bool
  getsInfo : Bool
  write : Nat → Nat → WriteFate
  read : Nat → Nat → ReadFate
  erase : Nat → Nat → EraseFate

/-- The contents of the partition, the file position and the attempts made so far. -/
structure Dev where
  contents : Nat → UInt8
  fpos : Nat
  writes : Nat → Nat
  reads : Nat → Nat
  erases : Nat → Nat

/-- The bytes of a range. -/
def bytesAt (contents : Nat → UInt8) (pos n : Nat) : List UInt8 :=
  (List.range' pos n).map contents

/-- Replace the bytes of a range. -/
def fill (contents : Nat → UInt8) (pos n : Nat) (new : Nat → UInt8) : Nat → UInt8 :=
  fun a => if pos ≤ a ∧ a < pos + n then new a else contents a

/-- Put a list of bytes at a position. -/
def put (contents : Nat → UInt8) (pos : Nat) (data : List UInt8) : Nat → UInt8 :=
  fill contents pos data.length (fun a => data.getD (a - pos) 0)

/-- A freshly opened device. -/
def openDev (contents : Nat → UInt8) : Dev where
  contents := contents
  fpos := 0
  writes := fun _ => 0
  reads := fun _ => 0
  erases := fun _ => 0

/-- One more attempt at an address. -/
def bump (count : Nat → Nat) (a : Nat) : Nat → Nat :=
  fun b => if b = a then count b + 1 else count b

/-- {lit}`lseek` to an absolute position; positions outside the device are refused. -/
def lseek (mtd : MtdInfo) (dev : Dev) (pos : Int) : Dev :=
  if 0 ≤ pos ∧ pos ≤ mtd.size then { dev with fpos := pos.toNat } else dev

/-- {lit}`write` at the file position: whether the full count was returned. -/
def writePage (env : Env) (mtd : MtdInfo) (dev : Dev) (data : List UInt8) : Bool × Dev :=
  let dev₁ := { dev with writes := bump dev.writes dev.fpos }
  if mtd.size < dev.fpos + data.length then
    (false, dev₁)
  else
    match env.write dev.fpos (dev.writes dev.fpos) with
    | .stored =>
        (true, { dev₁ with
          contents := put dev.contents dev.fpos data
          fpos := dev.fpos + data.length })
    | .wrong left =>
        (true, { dev₁ with
          contents := fill dev.contents dev.fpos data.length left
          fpos := dev.fpos + data.length })
    | .failed left =>
        (false, { dev₁ with contents := fill dev.contents dev.fpos data.length left })

/-- {lit}`read` of {lit}`n` bytes at the file position: result and bytes. -/
def readBack (env : Env) (mtd : MtdInfo) (dev : Dev) (n : Nat) : Int × List UInt8 × Dev :=
  let dev₁ := { dev with reads := bump dev.reads dev.fpos }
  match env.read dev.fpos (dev.reads dev.fpos) with
  | .truthful =>
      let got := min n (mtd.size - dev.fpos)
      (got, bytesAt dev.contents dev.fpos got, { dev₁ with fpos := dev.fpos + got })
  | .returns ret data =>
      let result := max (-1) (min ret n)
      (result, data, { dev₁ with fpos := dev.fpos + result.toNat })

/-- {lit}`MEMERASE` of the block at {lit}`start`; its result is never used. -/
def memErase (env : Env) (mtd : MtdInfo) (dev : Dev) (start : Nat) : Dev :=
  let left :=
    match env.erase start (dev.erases start) with
    | .erased => fun _ => 0xff
    | .failed left => left
  { dev with
    contents := fill dev.contents start mtd.erasesize left
    erases := bump dev.erases start }

/-- {lit}`MEMGETBADBLOCK` of the block that contains an offset. -/
def memGetBadBlock (mtd : MtdInfo) (bad : Nat → Bool) (ofs : Nat) : Bool :=
  bad (ofs / mtd.erasesize)

/-! ## The writer -/

/-- Return codes of the writer. -/
inductive ZcfgRet where
  | success
  | internalError
deriving DecidableEq, Repr

/-- Erase {lit}`n` blocks one after another. -/
def eraseBlocks (env : Env) (mtd : MtdInfo) : Nat → Nat → Dev → Dev
  | 0, _, dev => dev
  | n + 1, start, dev => eraseBlocks env mtd n (start + mtd.erasesize) (memErase env mtd dev start)

/-- The page loop over the bytes meant for one block.  After a failing write the position
moves to the next block.  Each round needs one unit of fuel. -/
def writeUnit (env : Env) (mtd : MtdInfo) (offset : Nat) :
    Nat → Dev → List UInt8 → Bool × Dev
  | 0, dev, _ => (true, dev)
  | fuel + 1, dev, unit =>
      if unit.length = 0 then
        (true, dev)
      else
        let pagesize := min mtd.writesize unit.length
        match writePage env mtd dev (unit.take pagesize) with
        | (true, dev') => writeUnit env mtd offset fuel dev' (unit.drop pagesize)
        | (false, dev') => (false, lseek mtd dev' (offset + mtd.erasesize))

/-- The data confirmation of one block.  A short read moves the position back by what was
read, a mismatch leaves it behind the data. -/
def confirmUnit (env : Env) (mtd : MtdInfo) (offset : Nat) (dev : Dev) (unit : List UInt8) :
    Bool × Dev :=
  let dev₁ := lseek mtd dev offset
  let (result, dest, dev₂) := readBack env mtd dev₁ unit.length
  if result ≠ unit.length then
    (false, lseek mtd dev₂ (dev₂.fpos - result))
  else
    (dest = unit, dev₂)

/-- One block of the write loop: the bytes that remain to be written afterwards. -/
def writeBlock (env : Env) (mtd : MtdInfo) (bad : Nat → Bool) (start : Nat) (dev : Dev)
    (rest : List UInt8) : Dev × List UInt8 :=
  if memGetBadBlock mtd bad start then
    (lseek mtd dev (dev.fpos + mtd.erasesize), rest)
  else
    let unit := rest.take mtd.erasesize
    match writeUnit env mtd start unit.length dev unit with
    | (false, dev₁) => (memErase env mtd dev₁ start, rest)
    | (true, dev₁) =>
        match confirmUnit env mtd start dev₁ unit with
        | (false, dev₂) => (memErase env mtd dev₂ start, rest)
        | (true, dev₂) => (dev₂, rest.drop mtd.erasesize)

/-- The write loop over the {lit}`n` blocks from {lit}`start` on. -/
def writeBlocks (env : Env) (mtd : MtdInfo) (bad : Nat → Bool) :
    Nat → Nat → Dev → List UInt8 → Dev × List UInt8
  | 0, _, dev, rest => (dev, rest)
  | n + 1, start, dev, rest =>
      if rest.length = 0 then
        (dev, rest)
      else
        let (dev', rest') := writeBlock env mtd bad start dev rest
        writeBlocks env mtd bad n (start + mtd.erasesize) dev' rest'

/-- {lit}`_zyUtilWriteBufToFlash_mtd` of a buffer: return code and new contents. -/
def zyUtilWriteBufToFlashMtd (env : Env) (mtd : MtdInfo) (bad : Nat → Bool)
    (contents : Nat → UInt8) (buf : List UInt8) : ZcfgRet × (Nat → UInt8) :=
  if buf.length = 0 then (.internalError, contents)
  else if !env.opens then (.internalError, contents)
  else if !env.getsInfo then (.internalError, contents)
  else if mtd.size < buf.length then (.internalError, contents)
  else
    let erased := eraseBlocks env mtd mtd.blocks 0 (openDev contents)
    let (dev, rest) := writeBlocks env mtd bad mtd.blocks 0 erased buf
    if rest.length ≠ 0 then
      (.internalError, (eraseBlocks env mtd mtd.blocks 0 dev).contents)
    else
      (.success, dev.contents)

/-! ## The reader -/

/-- The page sizes the reader accepts. -/
def knownGeometry (mtd : MtdInfo) : Bool :=
  if mtd.ubiVolume then
    mtd.writesize ∈ [4096, 2048, 1024]
  else
    (mtd.oobsize, mtd.writesize) ∈
      [(216, 4096), (256, 4096), (128, 4096), (128, 2048), (108, 2048), (64, 2048),
        (32, 1024), (16, 512), (8, 256)]

/-- {lit}`ofs & (~mtd.erasesize + 1)`. -/
def blockMask (mtd : MtdInfo) (ofs : Nat) : Nat :=
  ofs &&& (2 ^ 32 - mtd.erasesize)

/-- The dump loop, with {lit}`blockstart` and {lit}`badblock` of the last look-up and the
bytes still wanted: the bytes copied into the buffer.  All preads succeed.  Each round
needs one unit of fuel. -/
def readPages (mtd : MtdInfo) (bad : Nat → Bool) (contents : Nat → UInt8) :
    Nat → Nat → Nat → Bool → Nat → List UInt8
  | 0, _, _, _, _ => []
  | fuel + 1, ofs, blockstart, badblock, bufSize =>
      if ofs < mtd.size ∧ 0 < bufSize then
        let start := blockMask mtd ofs
        let badblock' := if blockstart ≠ start then memGetBadBlock mtd bad start else badblock
        if badblock' then
          readPages mtd bad contents fuel (ofs + mtd.erasesize) start badblock' bufSize
        else
          let readbuf := bytesAt contents ofs mtd.writesize
          if bufSize < mtd.writesize then
            readbuf.take bufSize
          else
            readbuf ++ readPages mtd bad contents fuel (ofs + mtd.writesize) start badblock'
              (bufSize - mtd.writesize)
      else
        []

/-- {lit}`zyUtilReadBufFromFlash` with the new MTD driver: return value and the bytes
copied to the buffer. -/
def zyUtilReadBufFromFlash (env : Env) (mtd : MtdInfo) (bad : Nat → Bool)
    (contents : Nat → UInt8) (bufSize : Nat) : Int × List UInt8 :=
  if !env.opens then (-1, [])
  else if !env.getsInfo then (-1, [])
  else if !knownGeometry mtd then (-1, [])
  else if mtd.size < bufSize then (-1, [])
  else (0, readPages mtd bad contents (mtd.size / mtd.writesize + 1) 0 1 false bufSize)

end ZyUtil
end ZyxelRouter
