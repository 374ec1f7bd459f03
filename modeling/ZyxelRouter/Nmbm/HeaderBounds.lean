import ZyxelRouter.Nmbm.Attach

/-!
# NMBM: the offsets of an info table

The header of an info table says where its block states and its mapping lie.  The check of a header
compares differences of 32-bit offsets, which wrap around, and the offsets that pass are used for
reading tables and, later on, for writing them.

Main results:

- Theorem {lit}`PartsInside.accessesInside`: tables inside of their buffer are used inside of it.
- Theorem {lit}`headerSafe_iff`: the accepted offsets for which this is the case.
- Theorem {lit}`headerSafe_fails`: offsets that are accepted although they lie behind the buffer.
-/

namespace ZyxelRouter
namespace Nmbm

open Lib

/-- {lit}`sizeof(struct nmbm_info_table_header)`. -/
def infoTableHeaderSize : Nat := 32

/-- A range of bytes of the buffer of an info table. -/
structure Access where
  off : Nat
  size : Nat

/-- The range ends inside of the buffer. -/
def Access.Inside (nld : LowerDevice) (a : Access) : Prop :=
  a.off + a.size ≤ nld.infoTableSize

/-! ## What is read and written -/

/-- The reads of {lit}`nmbm_check_info_table`: the mapping of the data blocks, and the states of the blocks
of the table that are good in memory. -/
def checkReads (ni : NmbmInstance) (ifthdr : InfoTableHeader) (startBa endBa : Nat) : List Access :=
  (List.range ni.dataBlockCount).map (fun ba => ⟨ifthdr.mappingTableOff + 4 * ba, 4⟩) ++
    ((List.range' startBa (endBa - startBa)).filter
      (fun ba => nmbmGetBlockState ni ba = blockStGood)).map
        (fun ba => ⟨ifthdr.stateTableOff + 4 * (ba / 16), 4⟩)

/-- The two tables: {lit}`nmbm_try_load_info_table` copies them from the buffer, and
{lit}`nmbm_generate_info_table_cache` to it. -/
def tableCopies (nld : LowerDevice) (ifthdr : InfoTableHeader) : List Access :=
  [⟨ifthdr.stateTableOff, nld.stateTableSize⟩, ⟨ifthdr.mappingTableOff, nld.mappingTableSize⟩]

/-! ## Tables inside of the buffer -/

/-- The tables lie behind the header and inside of the buffer, and do not overlap. -/
structure PartsInside (nld : LowerDevice) (ifthdr : InfoTableHeader) : Prop where
  state_ge : infoTableHeaderSize ≤ ifthdr.stateTableOff
  state_le : ifthdr.stateTableOff + nld.stateTableSize ≤ nld.infoTableSize
  mapping_ge : infoTableHeaderSize ≤ ifthdr.mappingTableOff
  mapping_le : ifthdr.mappingTableOff + nld.mappingTableSize ≤ nld.infoTableSize
  apart : ifthdr.stateTableOff + nld.stateTableSize ≤ ifthdr.mappingTableOff ∨
    ifthdr.mappingTableOff + nld.mappingTableSize ≤ ifthdr.stateTableOff

/-- All reads and writes end inside of the buffer, as far as the tables have entries for the data blocks
and states for the blocks of the table. -/
def AccessesInside (nld : LowerDevice) (ifthdr : InfoTableHeader) : Prop :=
  (∀ a ∈ tableCopies nld ifthdr, a.Inside nld) ∧
    ∀ (ni : NmbmInstance) (startBa endBa : Nat),
      4 * ni.dataBlockCount ≤ nld.mappingTableSize →
      4 * ((endBa + 15) / 16) ≤ nld.stateTableSize →
      ∀ a ∈ checkReads ni ifthdr startBa endBa, a.Inside nld

theorem PartsInside.accessesInside {nld : LowerDevice} {ifthdr : InfoTableHeader}
    (h : PartsInside nld ifthdr) : AccessesInside nld ifthdr := by
  have hstate := h.state_le
  have hmapping := h.mapping_le
  constructor
  · intro a ha
    simp only [tableCopies, List.mem_cons, List.not_mem_nil, or_false] at ha
    rcases ha with rfl | rfl
    · exact hstate
    · exact hmapping
  · intro ni startBa endBa hdata hend a ha
    rw [checkReads, List.mem_append] at ha
    rcases ha with hentry | hunit
    · obtain ⟨ba, hba, rfl⟩ := List.mem_map.mp hentry
      rw [List.mem_range] at hba
      simp only [Access.Inside]
      omega
    · obtain ⟨ba, hba, rfl⟩ := List.mem_map.mp hunit
      have hrange := List.mem_range'_1.mp (List.mem_of_mem_filter hba)
      simp only [Access.Inside]
      omega

/-! ## The check -/

theorem wordAt_lt (data : List UInt8) (off : Nat) : wordAt data off < 2 ^ 32 := by
  have hlen : (readAt data off 4).length ≤ 4 := List.length_take_le _ _
  have hpow : 256 ^ (readAt data off 4).length ≤ 256 ^ 4 :=
    Nat.pow_le_pow_right (Nat.succ_pos 255) hlen
  exact lt_of_lt_of_le (leNat_lt (readAt data off 4)) hpow

theorem infoTableSize_lt (nld : LowerDevice) : nld.infoTableSize < 2 ^ 32 :=
  Nat.mod_lt _ (Nat.two_pow_pos 32)

/-- An accepted header leaves room for both tables, in wrapping arithmetic. -/
theorem room_of_accepted {nld : LowerDevice} {data : List UInt8}
    (h : nmbmCheckInfoTableHeader nld data = true) :
    nld.stateTableSize ≤
        u32Sub (readInfoTableHeader data).mappingTableOff (readInfoTableHeader data).stateTableOff ∧
      nld.mappingTableSize ≤
        u32Sub nld.infoTableSize (readInfoTableHeader data).mappingTableOff := by
  simp only [nmbmCheckInfoTableHeader] at h
  split_ifs at h with hmagic hsize hstate hmapping
  exact ⟨not_lt.mp hstate, not_lt.mp hmapping⟩

/-- If the header is accepted, its tables lie inside of the buffer and are used inside of it. -/
def HeaderSafe (nld : LowerDevice) (data : List UInt8) : Prop :=
  nmbmCheckInfoTableHeader nld data = true →
    PartsInside nld (readInfoTableHeader data) ∧ AccessesInside nld (readInfoTableHeader data)

/-- The states come first and no offset is out of order, or the mapping comes first with room for both
tables. -/
def OffsetsOrdered (nld : LowerDevice) (ifthdr : InfoTableHeader) : Prop :=
  (infoTableHeaderSize ≤ ifthdr.stateTableOff ∧
      ifthdr.stateTableOff ≤ ifthdr.mappingTableOff ∧
      ifthdr.mappingTableOff ≤ nld.infoTableSize) ∨
    (infoTableHeaderSize ≤ ifthdr.mappingTableOff ∧
      ifthdr.mappingTableOff + nld.mappingTableSize ≤ ifthdr.stateTableOff ∧
      ifthdr.stateTableOff + nld.stateTableSize ≤ nld.infoTableSize)

/-- Accepted offsets are safe exactly if they are in order. -/
theorem headerSafe_iff (nld : LowerDevice) (data : List UInt8) :
    HeaderSafe nld data ↔
      (nmbmCheckInfoTableHeader nld data = true → OffsetsOrdered nld (readInfoTableHeader data)) := by
  have hstate : (readInfoTableHeader data).stateTableOff < 2 ^ 32 := wordAt_lt data 20
  have hmapping : (readInfoTableHeader data).mappingTableOff < 2 ^ 32 := wordAt_lt data 24
  have hsize := infoTableSize_lt nld
  constructor
  · intro hsafe haccepted
    obtain ⟨hinside, -⟩ := hsafe haccepted
    have hstateGe := hinside.state_ge
    have hstateLe := hinside.state_le
    have hmappingGe := hinside.mapping_ge
    have hmappingLe := hinside.mapping_le
    rcases hinside.apart with hfirst | hsecond
    · exact .inl ⟨hstateGe, by omega, by omega⟩
    · exact .inr ⟨hmappingGe, hsecond, hstateLe⟩
  · intro hordered haccepted
    obtain ⟨hstateRoom, hmappingRoom⟩ := room_of_accepted haccepted
    have hinside : PartsInside nld (readInfoTableHeader data) := by
      rcases hordered haccepted with ⟨hge, hle, hend⟩ | ⟨hge, hapart, hend⟩
      · -- without a wrap the differences are the room there is
        rw [u32Sub, u32] at hstateRoom hmappingRoom
        exact ⟨hge, by omega, by omega, by omega, .inl (by omega)⟩
      · exact ⟨by omega, hend, hge, by omega, .inr hapart⟩
    exact ⟨hinside, hinside.accessesInside⟩

/-! ## A header that is not safe -/

/-- A chip of 1024 blocks of 64 pages. -/
def largeChip : LowerDevice where
  maxRatio := 1
  maxReservedBlocks := 256
  create := true
  emptyPageEccOk := false
  readOnly := false
  size := 0x8000000
  erasesize := 0x20000
  writesize := 0x800
  oobsize := 64
  hasIsBadBlock := true
  hasMarkBadBlock := true
  fates := fun _ _ => ⟨0, .done⟩

/-- A header with the states in front and the mapping far behind the buffer. -/
def strayHeader : InfoTableHeader where
  header := { magic := nmbmMagicInfoTable, version := nmbmVer, size := largeChip.infoTableSize, checksum := 0 }
  writeCount := 1
  stateTableOff := 0x800
  mappingTableOff := 0x10000
  padding := 0

/-- The header is accepted, and the mapping would be read and written behind the buffer. -/
theorem headerSafe_fails :
    nmbmCheckInfoTableHeader largeChip strayHeader.bytes = true ∧
      ¬ HeaderSafe largeChip strayHeader.bytes := by
  have haccepted : nmbmCheckInfoTableHeader largeChip strayHeader.bytes = true := by decide +kernel
  have hbehind : largeChip.infoTableSize < (readInfoTableHeader strayHeader.bytes).mappingTableOff := by
    decide +kernel
  refine ⟨haccepted, fun hsafe => ?_⟩
  have hle := (hsafe haccepted).1.mapping_le
  omega

end Nmbm
end ZyxelRouter
