import ZyxelRouter.Lib.PageStream
import ZyxelRouter.Nmbm.Logic

/-!
# NMBM: the MTD device on top

Requests of the MTD layer read and write data and spare bytes in one call.  A request without spare
bytes takes the ranges of the manager, the others go page by page through a buffer of their own.

The page programs that a write issues are returned along with its result.
-/

namespace ZyxelRouter
namespace Nmbm

open Lib Lib.Prog

/-! ## Requests -/

/-- {lit}`ENOTSUPP`. -/
def eNotSupp : Int := 524

/-- {lit}`enum nmbm_oob_mode`. -/
inductive OobMode where
  | placeOob
  | autoOob
  | raw
deriving DecidableEq, Repr

/-- The mode for {lit}`MTD_OPS_PLACE_OOB`, {lit}`MTD_OPS_AUTO_OOB` or {lit}`MTD_OPS_RAW`. -/
def oobModeOf : Nat → Option OobMode
  | 0 => some .placeOob
  | 1 => some .autoOob
  | 2 => some .raw
  | _ => none

/-- {lit}`struct mtd_oob_ops`: the lengths are those of the buffers, and 0 without one. -/
structure MtdOobOps where
  mode : Nat
  ooboffs : Nat
  datbuf : Option (List UInt8)
  oobbuf : Option (List UInt8)

/-- {lit}`ops->len`. -/
def MtdOobOps.len (ops : MtdOobOps) : Nat :=
  (ops.datbuf.getD []).length

/-- {lit}`ops->ooblen`. -/
def MtdOobOps.ooblen (ops : MtdOobOps) : Nat :=
  (ops.oobbuf.getD []).length

/-- {lit}`struct nmbm_mtd`: the free spare bytes of a page, by their positions, and the page cache. -/
structure NmbmMtd where
  freeOob : List Nat
  pageCache : List UInt8

/-- {lit}`mtd_oobavail`. -/
def mtdOobavail (nld : LowerDevice) (nm : NmbmMtd) (mode : OobMode) : Nat :=
  if mode = .autoOob then nm.freeOob.length else nld.oobsize

/-- {lit}`mtd->size`. -/
def mtdSize (nld : LowerDevice) (ni : NmbmInstance) : Nat :=
  ni.dataBlockCount * nld.erasesize

/-- What becomes of a request. -/
inductive OobRequest where
  | done (ret : Int)
  | dataOnly (mode : OobMode)
  | withOob (mode : OobMode)
deriving DecidableEq

/-- The checks that {lit}`nmbm_mtd_read_oob` and {lit}`nmbm_mtd_write_oob` start with. -/
def checkOobRequest (nld : LowerDevice) (ni : NmbmInstance) (nm : NmbmMtd) (addr : Nat)
    (ops : MtdOobOps) : OobRequest :=
  if ops.oobbuf.isNone ∧ ops.datbuf.isNone then
    .done (if ops.ooblen ≠ 0 ∨ ops.len ≠ 0 then -eInval else 0)
  else
    match oobModeOf ops.mode with
    | none => .done (-eNotSupp)
    | some mode =>
        let maxooblen := mtdOobavail nld nm mode
        let shift := Nat.log2 nld.writesize
        let pages := (mtdSize nld ni >>> shift) - (addr >>> shift)
        if ops.datbuf.isSome ∧ mtdSize nld ni < u64 (addr + ops.len) then .done (-eInval)
        else if ops.oobbuf.isNone then .dataOnly mode
        else if maxooblen ≤ ops.ooboffs then .done (-eInval)
        else if mtdSize nld ni ≤ addr ∨ u64 (pages * maxooblen) < u64 (ops.ooboffs + ops.ooblen) then
          .done (-eInval)
        else .withOob mode

/-! ## Page programs -/

/-- A page program of the lower device: the page, the buffers and the mode it is handed. -/
structure PageProgram where
  ba : Nat
  page : Nat
  data : Option (List UInt8)
  oob : Option (List UInt8)
  mode : OobMode
deriving DecidableEq

/-- The program that {lit}`nmbm_write_logic_page` issues, if it gets as far as this. -/
def logicPrograms (nld : LowerDevice) (ni : NmbmInstance) (mode : OobMode) (addr : Nat)
    (data oob : Option (List UInt8)) : List PageProgram :=
  let entry := ni.blockMapping.getD (nld.addr2ba addr) (-1)
  if entry < 0 then []
  else if nmbmGetBlockState ni entry.toNat = blockStBad then []
  else if nld.readOnly then []
  else [⟨entry.toNat, pageOf nld addr, data, oob, mode⟩]

/-- {lit}`nmbm_write_logic_page`, with its page programs. -/
def writeLogicPage (mode : OobMode) (addr : Nat) (data oob : Option (List UInt8)) :
    NmbmM (Int × List PageProgram) := do
  let nld ← ask
  let w ← get
  let ret ← nmbmWriteLogicPage addr data oob
  pure (ret, logicPrograms nld w.ni mode addr data oob)

/-- {lit}`nmbm_write_single_page`, with its page programs. -/
def writeSinglePage (mode : OobMode) (addr : Nat) (data oob : Option (List UInt8)) :
    NmbmM (Int × List PageProgram) := do
  let nld ← ask
  let w ← get
  if w.ni.isProtected ∨ nld.readOnly then return (-eRofs, [])
  if nld.ba2addr w.ni.dataBlockCount ≤ addr then return (-eInval, [])
  writeLogicPage mode addr data oob

/-! ## Writing -/

/-- The result of a write request, and the page programs it issued. -/
structure WriteReply where
  ret : Int
  retlen : Nat
  oobretlen : Nat
  programs : List PageProgram
deriving DecidableEq

/-- Page programs that were issued before. -/
def WriteReply.after (programs : List PageProgram) (r : WriteReply) : WriteReply :=
  { r with programs := programs ++ r.programs }

/-- The loop of {lit}`nmbm_write_range`, {lit}`written` bytes of which are done. -/
def writeRangePages (mode : OobMode) : Nat → Nat → List UInt8 → Nat → NmbmM WriteReply
  | 0, _, _, written => pure ⟨0, written, 0, []⟩
  | fuel + 1, off, data, written => do
      let nld ← ask
      let leading := off &&& (nld.writesize - 1)
      let chunksize := min (nld.writesize - leading) data.length
      let page ← fillPage leading (data.take chunksize)
      let r ← writeLogicPage mode (off - leading) (some page) none
      if r.1 ≠ 0 then return ⟨r.1, written, 0, r.2⟩
      if data.length - chunksize = 0 then return ⟨0, written + chunksize, 0, r.2⟩
      let rest ← writeRangePages mode fuel (off + chunksize) (data.drop chunksize)
        (written + chunksize)
      pure (rest.after r.2)

/-- {lit}`nmbm_write_range` with the length it returns, which stays 0 when the request is refused. -/
def writeRange (mode : OobMode) (addr : Nat) (data : List UInt8) : NmbmM WriteReply := do
  let nld ← ask
  let w ← get
  let avail := nld.ba2addr w.ni.dataBlockCount
  if w.ni.isProtected ∨ nld.readOnly then return ⟨-eRofs, 0, 0, []⟩
  if avail ≤ addr then return ⟨-eInval, 0, 0, []⟩
  if avail < u64 (addr + data.length) then return ⟨-eInval, 0, 0, []⟩
  if data.length = 0 then return ⟨0, 0, 0, []⟩
  writeRangePages mode data.length addr data 0

/-- The local variables of {lit}`nmbm_mtd_write_data`: the streams are what is left of both buffers. -/
structure WriteCursor where
  addr : Nat
  col : Nat
  ooboffs : Nat
  data : List UInt8
  oob : List UInt8
  datcache : List UInt8
  oobcache : List UInt8
  retlen : Nat
  oobretlen : Nat

/-- Move data: the cache is filled up with {lit}`0xff` around the chunk. -/
def WriteCursor.moveData (nld : LowerDevice) (s : WriteCursor) : WriteCursor :=
  if s.data.length = 0 then s
  else
    let chklen := min (nld.writesize - s.col) s.data.length
    { s with
      datcache := fillBuffer 0xff nld.writesize s.col (s.data.take chklen) s.datcache
      data := s.data.drop chklen
      col := 0
      retlen := s.retlen + chklen }

/-- Move oob. -/
def WriteCursor.moveOob (nld : LowerDevice) (maxooblen : Nat) (s : WriteCursor) : WriteCursor :=
  if s.oob.length = 0 then s
  else
    let chklen := min (maxooblen - s.ooboffs) s.oob.length
    { s with
      oobcache := fillBuffer 0xff nld.oobsize s.ooboffs (s.oob.take chklen) s.oobcache
      oob := s.oob.drop chklen
      ooboffs := 0
      oobretlen := s.oobretlen + chklen }

/-- The loop of {lit}`nmbm_mtd_write_data`; a cache is handed on if its part of the request is not
empty. -/
def mtdWriteDataLoop (mode : OobMode) (maxooblen : Nat) (useData useOob : Bool) :
    Nat → WriteCursor → NmbmM WriteReply
  | 0, s => pure ⟨0, s.retlen, s.oobretlen, []⟩
  | fuel + 1, s => do
      if s.data.length = 0 ∧ s.oob.length = 0 then return ⟨0, s.retlen, s.oobretlen, []⟩
      let nld ← ask
      let s' := (s.moveData nld).moveOob nld maxooblen
      let r ← writeSinglePage mode s'.addr (if useData then some s'.datcache else none)
        (if useOob then some s'.oobcache else none)
      if r.1 ≠ 0 then return ⟨r.1, s'.retlen, s'.oobretlen, r.2⟩
      let rest ← mtdWriteDataLoop mode maxooblen useData useOob fuel
        { s' with addr := s'.addr + nld.writesize }
      pure (rest.after r.2)

/-- {lit}`nmbm_mtd_write_data`. -/
def nmbmMtdWriteData (nm : NmbmMtd) (addr : Nat) (ops : MtdOobOps) (mode : OobMode) :
    NmbmM WriteReply := do
  let nld ← ask
  let col := addr &&& (nld.writesize - 1)
  mtdWriteDataLoop mode (mtdOobavail nld nm mode) (ops.len != 0) (ops.ooblen != 0)
    (ops.len + ops.ooblen)
    { addr := addr - col
      col
      ooboffs := ops.ooboffs
      data := ops.datbuf.getD []
      oob := ops.oobbuf.getD []
      datcache := nm.pageCache.take nld.writesize
      oobcache := readAt nm.pageCache nld.writesize nld.oobsize
      retlen := 0
      oobretlen := 0 }

/-- {lit}`nmbm_mtd_write_oob`. -/
def nmbmMtdWriteOob (nm : NmbmMtd) (addr : Nat) (ops : MtdOobOps) : NmbmM WriteReply := do
  let nld ← ask
  let w ← get
  match checkOobRequest nld w.ni nm addr ops with
  | .done ret => pure ⟨ret, 0, 0, []⟩
  | .dataOnly mode => writeRange mode addr (ops.datbuf.getD [])
  | .withOob mode => nmbmMtdWriteData nm addr ops mode

/-! ## Reading -/

/-- The result of a read request: the bytes stored in both buffers. -/
structure ReadReply where
  ret : Int
  data : List UInt8
  oob : List UInt8
deriving DecidableEq

/-- The spare bytes that the lower device stores in the buffer. -/
def oobBytes (nld : LowerDevice) (nm : NmbmMtd) (mode : OobMode) (columns : Page) : List UInt8 :=
  if mode = .autoOob then nm.freeOob.map (fun i => columns (nld.writesize + i))
  else oobArea nld columns

/-- The local variables of {lit}`nmbm_mtd_read_data`; {lit}`data` and {lit}`oob` are the bytes moved so
far. -/
structure ReadCursor where
  addr : Nat
  col : Nat
  ooboffs : Nat
  len : Nat
  ooblen : Nat
  eccErr : Bool
  flips : Int
  data : List UInt8
  oob : List UInt8

/-- Move data from the page that was read. -/
def ReadCursor.moveData (nld : LowerDevice) (datcache : List UInt8) (s : ReadCursor) : ReadCursor :=
  if s.len = 0 then s
  else
    let chklen := min (nld.writesize - s.col) s.len
    { s with
      data := s.data ++ readAt datcache s.col chklen
      len := s.len - chklen
      col := 0 }

/-- Move oob from the page that was read. -/
def ReadCursor.moveOob (maxooblen : Nat) (oobcache : List UInt8) (s : ReadCursor) : ReadCursor :=
  if s.ooblen = 0 then s
  else
    let chklen := min (maxooblen - s.ooboffs) s.ooblen
    { s with
      oob := s.oob ++ readAt oobcache s.ooboffs chklen
      ooblen := s.ooblen - chklen
      ooboffs := 0 }

/-- The loop of {lit}`nmbm_mtd_read_data` and what follows it. -/
def mtdReadDataLoop (nm : NmbmMtd) (mode : OobMode) : Nat → ReadCursor → NmbmM ReadReply
  | 0, s => pure ⟨if s.eccErr then eBadMsg else s.flips, s.data, s.oob⟩
  | fuel + 1, s => do
      if s.len = 0 ∧ s.ooblen = 0 then
        return ⟨if s.eccErr then eBadMsg else s.flips, s.data, s.oob⟩
      let nld ← ask
      let r ← nmbmReadSinglePage s.addr
      if r.1 < 0 ∧ r.1 ≠ eBadMsg then return ⟨r.1, s.data, s.oob⟩
      let s' := { s with eccErr := s.eccErr || r.1 == eBadMsg, flips := max s.flips r.1 }
      let s'' := (s'.moveData nld (mainArea nld r.2)).moveOob (mtdOobavail nld nm mode)
        (oobBytes nld nm mode r.2)
      mtdReadDataLoop nm mode fuel { s'' with addr := s''.addr + nld.writesize }

/-- {lit}`nmbm_mtd_read_data`. -/
def nmbmMtdReadData (nm : NmbmMtd) (addr : Nat) (ops : MtdOobOps) (mode : OobMode) :
    NmbmM ReadReply := do
  let nld ← ask
  let col := addr &&& (nld.writesize - 1)
  mtdReadDataLoop nm mode (ops.len + ops.ooblen)
    { addr := addr - col
      col
      ooboffs := ops.ooboffs
      len := ops.len
      ooblen := ops.ooblen
      eccErr := false
      flips := 0
      data := []
      oob := [] }

/-- {lit}`nmbm_mtd_read_oob`. -/
def nmbmMtdReadOob (nm : NmbmMtd) (addr : Nat) (ops : MtdOobOps) : NmbmM ReadReply := do
  let nld ← ask
  let w ← get
  match checkOobRequest nld w.ni nm addr ops with
  | .done ret => pure ⟨ret, [], []⟩
  | .dataOnly _ => do
      let r ← nmbmReadRange addr ops.len
      pure ⟨r.1, r.2, []⟩
  | .withOob mode => nmbmMtdReadData nm addr ops mode

end Nmbm
end ZyxelRouter
