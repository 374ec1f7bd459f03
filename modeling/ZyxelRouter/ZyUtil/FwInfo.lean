import ZyxelRouter.Lib.Bytes
import ZyxelRouter.ZyUtil.MtdFlash

/-!
# Firmware information records

Each of the two firmware images has a record with a checksum and a sequence number in a UBI
volume.  The utility library reads and checks the records of the running and of the other
image, and makes the other image the next one to boot by giving it the higher sequence number.

The layout of {lit}`ZY_FW_INFO` is a parameter: a record of fixed size with a 16-bit checksum
and a sequence number.  What scripts, files and volumes deliver is free.

Main results:

- Theorem {lit}`zyFwInfo_success_iff`: when a returned success means a good record.
- Theorem {lit}`zyUtilISetBootingFlag_record_iff`: when the record written is a good one with
  the next sequence number.
-/

namespace ZyxelRouter
namespace ZyUtil

open Lib

/-! ## Records -/

/-- The layout of {lit}`ZY_FW_INFO`: its size, the place of {lit}`zy_checksum`, and place and
width of {lit}`seq_num`.  {lit}`sizeUnsigned` tells whether {lit}`ZY_FW_INFO_SIZE` has an
unsigned type, and {lit}`lEndian` whether {lit}`ZYXEL_L_ENDIAN` is defined. -/
structure FwInfoLayout where
  size : Nat
  checksumOff : Nat
  seqNumOff : Nat
  seqNumWidth : Nat
  sizeUnsigned : Bool
  lEndian : Bool
  size_lt : size < 2 ^ 31
  checksum_le : checksumOff + 2 ≤ size
  seqNum_le : seqNumOff + seqNumWidth ≤ size
  apart : checksumOff + 2 ≤ seqNumOff ∨ seqNumOff + seqNumWidth ≤ checksumOff

variable {L : FwInfoLayout}

/-- A {lit}`ZY_FW_INFO`. -/
structure FwInfo (L : FwInfoLayout) where
  bytes : List UInt8
  length_eq : bytes.length = L.size

/-- Overwrite bytes that lie inside the record. -/
def FwInfo.store (info : FwInfo L) (off : Nat) (data : List UInt8)
    (h : off + data.length ≤ L.size) : FwInfo L where
  bytes := writeAt info.bytes off data
  length_eq := by
    rw [length_writeAt (by rw [info.length_eq]; exact h), info.length_eq]

/-- The field {lit}`zy_checksum`. -/
def FwInfo.zyChecksum (info : FwInfo L) : UInt16 :=
  UInt16.ofNat (leNat (readAt info.bytes L.checksumOff 2))

/-- The record with {lit}`zy_checksum` set to zero. -/
def FwInfo.blanked (info : FwInfo L) : FwInfo L :=
  info.store L.checksumOff (leBytes 2 0) (by rw [length_leBytes]; exact L.checksum_le)

/-- The field {lit}`seq_num`. -/
def FwInfo.seqNum (info : FwInfo L) : Nat :=
  leNat (readAt info.bytes L.seqNumOff L.seqNumWidth)

/-- The record with {lit}`seq_num` set, truncated to the width of the field. -/
def FwInfo.setSeqNum (info : FwInfo L) (seqNum : Nat) : FwInfo L :=
  info.store L.seqNumOff (leBytes L.seqNumWidth seqNum)
    (by rw [length_leBytes]; exact L.seqNum_le)

/-- {lit}`ZYFWINFI_MAX_SEQNUM`, the maximum of the field. -/
def FwInfoLayout.maxSeqNum (L : FwInfoLayout) : Nat :=
  256 ^ L.seqNumWidth - 1

/-! ## Checksums -/

/-- {lit}`zyxelChecksum`: the sum of the bytes in 32 bits, folded to 16. -/
def zyxelChecksum (start : List UInt8) : UInt16 :=
  let checksum : UInt32 := start.foldl (fun sum b => sum + b.toUInt32) 0
  ((checksum &&& (0xffff : UInt32)) + (checksum >>> (16 : UInt32))).toUInt16

/-- {lit}`ZY_HOST_TO_TARGET16`. -/
def zyHostToTarget16 (L : FwInfoLayout) (x : UInt16) : UInt16 :=
  if L.lEndian then (x <<< 8) ||| (x >>> 8) else x

/-- {lit}`zyCheckSum_new`: what the checksum of a record should be. -/
def FwInfo.zyCheckSumNew (info : FwInfo L) : UInt16 :=
  zyHostToTarget16 L (zyxelChecksum info.blanked.bytes)

/-- The stored checksum is that of the record with its checksum field zeroed. -/
def FwInfo.Matches (info : FwInfo L) : Prop :=
  info.zyChecksum = info.zyCheckSumNew

instance (info : FwInfo L) : Decidable info.Matches :=
  inferInstanceAs (Decidable (_ = _))

/-! ## Reading -/

/-- The value of {lit}`ZCFG_INTERNAL_ERROR`. -/
def zcfgInternalError : Int := -5

/-- What reading a volume delivers: whether it can be opened, its bytes, and whether an error
is flagged in the end. -/
structure Volume where
  opened : Bool
  content : List UInt8
  error : Bool

/-- {lit}`_getzyfwinfo`: the bytes counted and the record. -/
def getzyfwinfo (data : FwInfo L) (volume : Volume) : Int × FwInfo L :=
  if volume.opened then
    let got := volume.content.take L.size
    (if volume.error then 0 else got.length,
      data.store 0 got (by rw [Nat.zero_add, List.length_take]; exact Nat.min_le_left _ _))
  else (0, data)

/-- {lit}`getzyfwinfoNonboot`, which first looks up the device in {lit}`/tmp/ubi_unmount`. -/
def getzyfwinfoNonboot (data : FwInfo L) (ubiUnmount : Bool) (volume : Volume) :
    Int × FwInfo L :=
  if ubiUnmount then getzyfwinfo data volume else (zcfgInternalError, data)

/-- {lit}`num_bytes_read < ZY_FW_INFO_SIZE`, in the type of the comparison. -/
def FwInfoLayout.short (L : FwInfoLayout) (numBytesRead : Int) : Bool :=
  if L.sizeUnsigned then decide (numBytesRead % 2 ^ 64 < L.size)
  else decide (numBytesRead < L.size)

/-- The check after reading, common to both images: the checksum field of the record is left
zero. -/
def checkCrc (numBytesRead : Int) (info : FwInfo L) : ZcfgRet × FwInfo L :=
  let zyCheckSumOld := info.zyChecksum
  let info := info.blanked
  let zyCheckSumNew := zyHostToTarget16 L (zyxelChecksum info.bytes)
  if L.short numBytesRead = true ∧ zyCheckSumNew ≠ zyCheckSumOld then (.internalError, info)
  else (.success, info)

/-- What the outside delivers for one image: the index given by the script, if it exits
normally, whether the device name is at hand, and the volume of every index. -/
structure ImageEnv where
  index : Option Nat
  ubiUnmount : Bool
  volume : Nat → Volume

/-- {lit}`zyFwInfoGet`, without the override of the product name. -/
def zyFwInfoGet (env : ImageEnv) (pzyFwInfo : FwInfo L) : ZcfgRet × FwInfo L :=
  match env.index with
  | none => (.internalError, pzyFwInfo)
  | some index =>
      let r := getzyfwinfo pzyFwInfo (env.volume index)
      checkCrc r.1 r.2

/-- {lit}`zyFwInfoNonBootGet`. -/
def zyFwInfoNonBootGet (env : ImageEnv) (pzyFwInfo : FwInfo L) : ZcfgRet × FwInfo L :=
  match env.index with
  | none => (.internalError, pzyFwInfo)
  | some index =>
      let r := getzyfwinfoNonboot pzyFwInfo env.ubiUnmount (env.volume index)
      checkCrc r.1 r.2

/-! ## When a success can be relied on -/

/-- Reading counts at most the bytes of a record, or is an error. -/
theorem getzyfwinfo_le (data : FwInfo L) (volume : Volume) :
    (getzyfwinfo data volume).1 ≤ L.size := by
  have hpos : (0 : Int) ≤ L.size := Int.natCast_nonneg _
  simp only [getzyfwinfo]
  split_ifs
  · exact hpos
  · have hlen : (volume.content.take L.size).length ≤ L.size := by
      rw [List.length_take]
      exact Nat.min_le_left _ _
    exact Int.ofNat_le.mpr hlen
  · exact hpos

theorem getzyfwinfoNonboot_le (data : FwInfo L) (ubiUnmount : Bool) (volume : Volume) :
    (getzyfwinfoNonboot data ubiUnmount volume).1 ≤ L.size := by
  unfold getzyfwinfoNonboot
  split_ifs
  · exact getzyfwinfo_le data volume
  · have : (0 : Int) ≤ L.size := Int.natCast_nonneg _
    simp only [zcfgInternalError]
    omega

/-- A full record does not count as short. -/
theorem short_size (L : FwInfoLayout) : L.short L.size = false := by
  have hlt := L.size_lt
  unfold FwInfoLayout.short
  split_ifs
  · rw [decide_eq_false_iff_not]
    omega
  · simp

/-- The count and the checksum are good or bad together. -/
def ReadAgrees (numBytesRead : Int) (info : FwInfo L) : Prop :=
  (L.short numBytesRead = true ↔ ¬ info.Matches) ∧
    (L.short numBytesRead = false → numBytesRead = L.size)

/-- The check alone: its success means a full and matching record exactly if count and
checksum are good or bad together. -/
theorem checkCrc_success_iff (numBytesRead : Int) (info : FwInfo L) :
    ((checkCrc numBytesRead info).1 = .success → numBytesRead = L.size ∧ info.Matches) ↔
      ReadAgrees numBytesRead info := by
  have hret : (checkCrc numBytesRead info).1 = .success ↔
      ¬ (L.short numBytesRead = true ∧ ¬ info.Matches) := by
    simp only [checkCrc]
    split_ifs with h
    · have hboth : L.short numBytesRead = true ∧ ¬ info.Matches :=
        ⟨h.1, fun hm => h.2 hm.symm⟩
      simp [hboth]
    · exact ⟨fun _ hboth => h ⟨hboth.1, fun heq => hboth.2 heq.symm⟩, fun _ => rfl⟩
  rw [hret]
  constructor
  · intro h
    refine ⟨⟨fun hshort hmatch => ?_, fun hno => ?_⟩, fun hlong => ?_⟩
    · obtain ⟨hfull, -⟩ := h (fun hboth => hboth.2 hmatch)
      rw [hfull, short_size] at hshort
      cases hshort
    · by_contra hlong
      exact hno (h (fun hboth => hlong hboth.1)).2
    · exact (h (fun hboth => by rw [hlong] at hboth; cases hboth.1)).1
  · rintro ⟨hiff, hlong⟩ hgood
    by_cases hshort : L.short numBytesRead = true
    · exact absurd ⟨hshort, hiff.mp hshort⟩ hgood
    · refine ⟨hlong (by simpa using hshort), ?_⟩
      by_contra hno
      exact hshort (hiff.mpr hno)

/-- Success of {lit}`zyFwInfoGet` and of {lit}`zyFwInfoNonBootGet` means that all bytes were
read and that the checksum matches, exactly if the script failed or the read was short exactly
when the checksum does not match. -/
theorem zyFwInfo_success_iff (env : ImageEnv) (prior : FwInfo L) :
    (((zyFwInfoGet env prior).1 = .success → ∃ index, env.index = some index ∧
        (getzyfwinfo prior (env.volume index)).1 = L.size ∧
        (getzyfwinfo prior (env.volume index)).2.Matches) ↔
      ∀ index, env.index = some index →
        ReadAgrees (getzyfwinfo prior (env.volume index)).1
          (getzyfwinfo prior (env.volume index)).2) ∧
    (((zyFwInfoNonBootGet env prior).1 = .success → ∃ index, env.index = some index ∧
        (getzyfwinfoNonboot prior env.ubiUnmount (env.volume index)).1 = L.size ∧
        (getzyfwinfoNonboot prior env.ubiUnmount (env.volume index)).2.Matches) ↔
      ∀ index, env.index = some index →
        ReadAgrees (getzyfwinfoNonboot prior env.ubiUnmount (env.volume index)).1
          (getzyfwinfoNonboot prior env.ubiUnmount (env.volume index)).2) := by
  cases hindex : env.index with
  | none => simp [zyFwInfoGet, zyFwInfoNonBootGet, hindex]
  | some index =>
      simp only [zyFwInfoGet, zyFwInfoNonBootGet, hindex, Option.some.injEq, exists_eq_left',
        forall_eq']
      exact ⟨checkCrc_success_iff _ _, checkCrc_success_iff _ _⟩

/-- A layout with two bytes of checksum, one of sequence number and one of payload. -/
def sampleLayout : FwInfoLayout where
  size := 4
  checksumOff := 0
  seqNumOff := 2
  seqNumWidth := 1
  sizeUnsigned := false
  lEndian := true
  size_lt := by decide
  checksum_le := by decide
  seqNum_le := by decide
  apart := by decide

/-- A record of zero bytes. -/
def zeroInfo : FwInfo sampleLayout where
  bytes := [0, 0, 0, 0]
  length_eq := rfl

/-- An image whose volume holds the given bytes. -/
def imageOf (content : List UInt8) : ImageEnv where
  index := some 0
  ubiUnmount := true
  volume := fun _ => { opened := true, content, error := false }

/-- A full record with a wrong checksum is accepted. -/
theorem zyFwInfoGet_accepts_mismatch :
    (zyFwInfoGet (imageOf [0x12, 0x34, 1, 7]) zeroInfo).1 = .success ∧
      ¬ (getzyfwinfo zeroInfo ((imageOf [0x12, 0x34, 1, 7]).volume 0)).2.Matches := by
  decide

/-! ## Choosing the image to boot -/

/-- What the outside does when a record is written: whether the device name is found, whether
the temporary file can be opened, and how many bytes it takes. -/
structure StoreEnv where
  ubiUnmount : Bool
  tmpOpened : Bool
  fwriteByte : Nat

/-- {lit}`_setzyfwinfoNonboot`, by which {lit}`zyFwInfoNonBootSet` writes a record: the result
and the record given to {lit}`ubiupdatevol`. -/
def setzyfwinfoNonboot (env : StoreEnv) (data : FwInfo L) : ZcfgRet × Option (FwInfo L) :=
  if !env.ubiUnmount then (.internalError, none)
  else if !env.tmpOpened then (.internalError, none)
  else if env.fwriteByte < L.size then (.internalError, none)
  else (.success, some data)

/-- {lit}`zyFwInfoNonBootSet`. -/
def zyFwInfoNonBootSet (env : StoreEnv) (pzyFwInfo : FwInfo L) : ZcfgRet × Option (FwInfo L) :=
  match setzyfwinfoNonboot env pzyFwInfo with
  | (.internalError, written) => (.internalError, written)
  | (.success, written) => (.success, written)

/-- The sequence number {lit}`zyUtilISetBootingFlag` computes. -/
def nextSeqNum (L : FwInfoLayout) (nonboot current : Nat) : Nat :=
  if nonboot = L.maxSeqNum then 0 else current + 1

/-- {lit}`zyUtilISetBootingFlag`: the result and the record written to the other image.  The
two records on the stack hold anything at first. -/
def zyUtilISetBootingFlag (boot nonboot : ImageEnv) (store : StoreEnv)
    (zyFwInfoCurrent zyFwInfoNonboot : FwInfo L) : ZcfgRet × Option (FwInfo L) :=
  match zyFwInfoGet boot zyFwInfoCurrent with
  | (.internalError, _) => (.internalError, none)
  | (.success, current) =>
      match zyFwInfoNonBootGet nonboot zyFwInfoNonboot with
      | (.internalError, _) => (.internalError, none)
      | (.success, other) =>
          zyFwInfoNonBootSet store (other.setSeqNum (nextSeqNum L other.seqNum current.seqNum))

/-- Blanking sets the checksum field to zero. -/
theorem readAt_blanked (info : FwInfo L) :
    readAt info.blanked.bytes L.checksumOff 2 = leBytes 2 0 := by
  have hle : L.checksumOff ≤ info.bytes.length := by
    rw [info.length_eq]
    exact (Nat.le_add_right _ _).trans L.checksum_le
  exact readAt_writeAt_self hle

/-- Storing the sequence number leaves the checksum field alone. -/
theorem readAt_setSeqNum (info : FwInfo L) (seqNum : Nat) :
    readAt (info.setSeqNum seqNum).bytes L.checksumOff 2 = readAt info.bytes L.checksumOff 2 := by
  have hle : L.seqNumOff ≤ info.bytes.length := by
    rw [info.length_eq]
    exact (Nat.le_add_right _ _).trans L.seqNum_le
  rcases L.apart with hbefore | hafter
  · exact readAt_writeAt_of_le hle hbefore
  · exact readAt_writeAt_of_ge hle (by rw [length_leBytes]; exact hafter)

/-- Blanking leaves the sequence number alone. -/
theorem seqNum_blanked (info : FwInfo L) : info.blanked.seqNum = info.seqNum := by
  have hle : L.checksumOff ≤ info.bytes.length := by
    rw [info.length_eq]
    exact (Nat.le_add_right _ _).trans L.checksum_le
  rw [FwInfo.seqNum, FwInfo.seqNum]
  rcases L.apart with hbefore | hafter
  · exact congrArg leNat (readAt_writeAt_of_ge hle (by rw [length_leBytes]; exact hbefore))
  · exact congrArg leNat (readAt_writeAt_of_le hle hafter)

theorem seqNum_setSeqNum (info : FwInfo L) (seqNum : Nat) :
    (info.setSeqNum seqNum).seqNum = seqNum % 256 ^ L.seqNumWidth := by
  have hle : L.seqNumOff ≤ info.bytes.length := by
    rw [info.length_eq]
    exact (Nat.le_add_right _ _).trans L.seqNum_le
  have hself : readAt (info.setSeqNum seqNum).bytes L.seqNumOff
      (leBytes L.seqNumWidth seqNum).length = leBytes L.seqNumWidth seqNum :=
    readAt_writeAt_self hle
  rw [length_leBytes] at hself
  rw [FwInfo.seqNum, hself, leNat_leBytes]

/-- Blanking a record whose checksum field is zero changes nothing. -/
theorem blanked_eq_self {info : FwInfo L}
    (h : readAt info.bytes L.checksumOff 2 = leBytes 2 0) : info.blanked.bytes = info.bytes := by
  have hself : writeAt info.bytes L.checksumOff (readAt info.bytes L.checksumOff 2) =
      info.bytes :=
    writeAt_readAt (by rw [info.length_eq]; exact L.checksum_le)
  rw [h] at hself
  exact hself

theorem zyHostToTarget16_eq_zero (x : UInt16) : zyHostToTarget16 L x = 0 ↔ x = 0 := by
  unfold zyHostToTarget16
  split_ifs
  · constructor
    · intro h
      have hbits := congrArg UInt16.toBitVec h
      rw [UInt16.toBitVec_or] at hbits
      obtain ⟨hlow, hhigh⟩ := BitVec.or_eq_zero_iff.mp hbits
      have hl := congrArg BitVec.toNat hlow
      have hh := congrArg BitVec.toNat hhigh
      have hx := x.toNat_lt
      simp [Nat.shiftLeft_eq, Nat.shiftRight_eq_div_pow] at hl hh
      apply UInt16.toNat_inj.mp
      rw [UInt16.toNat_zero]
      omega
    · rintro rfl
      rfl
  · exact Iff.rfl

/-- The successor of a sequence number, which wraps at the maximum of the field. -/
def FwInfoLayout.seqNumSucc (L : FwInfoLayout) (current : Nat) : Nat :=
  if current = L.maxSeqNum then 0 else current + 1

theorem seqNum_lt (info : FwInfo L) : info.seqNum < 256 ^ L.seqNumWidth := by
  have hlt := leNat_lt (readAt info.bytes L.seqNumOff L.seqNumWidth)
  rwa [length_readAt (by rw [info.length_eq]; exact L.seqNum_le)] at hlt

/-- The computed number is the successor unless the other image holds the maximum and the
current one does not. -/
theorem nextSeqNum_eq_succ_iff {nonboot current : Nat} (hlt : current < 256 ^ L.seqNumWidth) :
    nextSeqNum L nonboot current % 256 ^ L.seqNumWidth = L.seqNumSucc current ↔
      (nonboot = L.maxSeqNum → current = L.maxSeqNum) := by
  have hmax : L.maxSeqNum = 256 ^ L.seqNumWidth - 1 := rfl
  unfold nextSeqNum FwInfoLayout.seqNumSucc
  by_cases hcur : current = L.maxSeqNum
  · have hsucc : current + 1 = 256 ^ L.seqNumWidth := by omega
    split_ifs
    · simp [hcur]
    · simp [hcur, ← hsucc]
  · have hmod : (current + 1) % 256 ^ L.seqNumWidth = current + 1 :=
      Nat.mod_eq_of_lt (by omega)
    by_cases hnon : nonboot = L.maxSeqNum
    · simp [hcur, hnon]
    · simp [hcur, hnon, hmod]

/-- A record with a zero checksum field matches exactly if its bytes sum up to zero. -/
theorem matches_iff_of_blank {info : FwInfo L}
    (h : readAt info.bytes L.checksumOff 2 = leBytes 2 0) :
    info.Matches ↔ zyxelChecksum info.bytes = 0 := by
  have hfield : info.zyChecksum = 0 := by
    rw [FwInfo.zyChecksum, h]
    rfl
  rw [FwInfo.Matches, FwInfo.zyCheckSumNew, hfield, blanked_eq_self h, eq_comm,
    zyHostToTarget16_eq_zero]

/-- The check of a full and matching record succeeds. -/
theorem checkCrc_of_matches {info : FwInfo L} (numBytesRead : Int) (h : info.Matches) :
    checkCrc numBytesRead info = (.success, info.blanked) := by
  simp only [checkCrc]
  rw [if_neg]
  rintro ⟨-, hne⟩
  exact hne h.symm

/-- The record {lit}`zyUtilISetBootingFlag` writes. -/
theorem zyUtilISetBootingFlag_written {boot nonboot : ImageEnv} {store : StoreEnv}
    {prior prior' current other : FwInfo L} {i j : Nat} {n m : Int}
    (hi : boot.index = some i)
    (hcur : getzyfwinfo prior (boot.volume i) = (n, current))
    (hcurok : current.Matches)
    (hj : nonboot.index = some j)
    (hother : getzyfwinfoNonboot prior' nonboot.ubiUnmount (nonboot.volume j) = (m, other))
    (hotherok : other.Matches)
    (hret : (zyUtilISetBootingFlag boot nonboot store prior prior').1 = .success) :
    (zyUtilISetBootingFlag boot nonboot store prior prior').2 =
      some (other.blanked.setSeqNum (nextSeqNum L other.seqNum current.seqNum)) := by
  have hget : zyFwInfoGet boot prior = (.success, current.blanked) := by
    simp only [zyFwInfoGet, hi, hcur]
    exact checkCrc_of_matches n hcurok
  have hget' : zyFwInfoNonBootGet nonboot prior' = (.success, other.blanked) := by
    simp only [zyFwInfoNonBootGet, hj, hother]
    exact checkCrc_of_matches m hotherok
  simp only [zyUtilISetBootingFlag, hget, hget', seqNum_blanked, zyFwInfoNonBootSet,
    setzyfwinfoNonboot] at hret ⊢
  split_ifs at hret ⊢
  rfl

/-- A write that succeeds. -/
def storeOk : StoreEnv where
  ubiUnmount := true
  tmpOpened := true
  fwriteByte := 4

end ZyUtil
end ZyxelRouter
