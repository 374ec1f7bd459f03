import ZyxelRouter.Lib.Bits
import ZyxelRouter.Nmbm.Tables

/-!
# NMBM: the bytes of an info table

The layout of the table that {lit}`nmbm_generate_info_table_cache` produces: header, block
states and mapping are found at their offsets, and the checksum is right.

Main results:

- Theorem {lit}`LowerDevice.Regular.fits`: on a chip of ordinary size the three parts follow
  one another inside the table.
- Theorems {lit}`readStates_tableBytes`, {lit}`readMapping_tableBytes`: both tables are read
  back from the bytes.
- Theorem {lit}`nmbmCheckHeader_tableBytes`: the checksum holds.
-/

namespace ZyxelRouter
namespace Nmbm

open Lib

/-! ## Sizes -/

/-- An accepted device whose blocks hold whole pages and whose table sizes fit 32 bits. -/
structure LowerDevice.Regular (nld : LowerDevice) : Prop where
  accepted : nmbmCheckLowerMembers nld = some nld
  page_le : nld.writesize ≤ nld.erasesize
  erasesize_lt : nld.erasesize < 2 ^ 32
  sizes_lt : 32 + 5 * nld.blockCount + 4 * nld.writesize < 2 ^ 32

/-- The parts of an info table follow one another. -/
structure LowerDevice.Fits (nld : LowerDevice) : Prop where
  writesize_pos : 0 < nld.writesize
  erasesize_pos : 0 < nld.erasesize
  writesize_dvd : nld.writesize ∣ nld.erasesize
  shift : nld.erasesize = 2 ^ nld.erasesizeShift
  stateSize : nld.stateTableSize = 4 * ((nld.blockCount + 15) / 16)
  mappingSize : nld.mappingTableSize = 4 * nld.blockCount
  header_le : 32 ≤ nld.stateTableOff
  state_le : nld.stateTableOff + nld.stateTableSize ≤ nld.mappingTableOff
  mapping_le : nld.mappingTableOff + nld.mappingTableSize ≤ nld.infoTableSize
  size_lt : nld.infoTableSize < 2 ^ 32
  writesize_dvd_size : nld.writesize ∣ nld.infoTableSize

/-- Accepted sizes are powers of two. -/
theorem accepted_two_pow {nld nld' : LowerDevice} (h : nmbmCheckLowerMembers nld = some nld') :
    nld.erasesize = 2 ^ Nat.log2 nld.erasesize ∧
      nld.writesize = 2 ^ Nat.log2 nld.writesize ∧ nld.size = 2 ^ Nat.log2 nld.size := by
  have hpow : ∀ n, isPowerOf2U64 n = true → n = 2 ^ Nat.log2 n := by
    intro n hn
    simp only [isPowerOf2U64, Bool.and_eq_true, bne_iff_ne, beq_iff_eq] at hn
    exact eq_two_pow_of_and_pred hn.1 hn.2
  unfold nmbmCheckLowerMembers at h
  split_ifs at h with h₁ h₂ h₃ h₄ <;>
  exact ⟨hpow _ (by simpa using h₂), hpow _ (by simpa using h₃), hpow _ (by simpa using h₁)⟩

/-- Alignment to a power of two rounds up. -/
theorem nmbmAlign_eq {v e : Nat} (he : e ≤ 32) (hv : v + 2 ^ e - 1 < 2 ^ 32) :
    nmbmAlign v (2 ^ e) = (v + 2 ^ e - 1) / 2 ^ e * 2 ^ e := by
  rw [nmbmAlign, u32, Nat.mod_eq_of_lt hv, and_sub_two_pow he hv]

/-- What alignment guarantees. -/
theorem nmbmAlign_bounds {v e : Nat} (he : e ≤ 32) (hv : v + 2 ^ e - 1 < 2 ^ 32) :
    v ≤ nmbmAlign v (2 ^ e) ∧ nmbmAlign v (2 ^ e) < v + 2 ^ e ∧ 2 ^ e ∣ nmbmAlign v (2 ^ e) := by
  have hpos := Nat.two_pow_pos e
  have hmod := Nat.mod_lt (v + 2 ^ e - 1) hpos
  have hdiv := Nat.div_add_mod (v + 2 ^ e - 1) (2 ^ e)
  rw [nmbmAlign_eq he hv, Nat.mul_comm]
  refine ⟨by omega, by omega, Nat.dvd_mul_right _ _⟩

/-- Ordinary chips have well-formed tables. -/
theorem LowerDevice.Regular.fits {nld : LowerDevice} (h : nld.Regular) : nld.Fits := by
  obtain ⟨hes, hws, -⟩ := accepted_two_pow h.accepted
  have hlt := h.sizes_lt
  have hle := h.page_le
  have helt := h.erasesize_lt
  have hwspos : 0 < nld.writesize := by
    rw [hws]
    exact Nat.two_pow_pos _
  have hespos : 0 < nld.erasesize := by omega
  have hshift : nld.writesize.log2 ≤ 32 := by
    by_contra hbig
    have : 2 ^ 32 ≤ 2 ^ nld.writesize.log2 := Nat.pow_le_pow_right (by omega) (by omega)
    omega
  have hdvd : nld.writesize ∣ nld.erasesize := by
    rw [hws, hes]
    apply Nat.pow_dvd_pow
    by_contra hgt
    have : 2 ^ nld.erasesize.log2 < 2 ^ nld.writesize.log2 :=
      Nat.pow_lt_pow_right (by omega) (by omega)
    omega
  have hstate : nld.stateTableSize = 4 * ((nld.blockCount + 15) / 16) := by
    rw [LowerDevice.stateTableSize, u32, u32, Nat.mod_eq_of_lt (by omega : nld.blockCount + 15 < _),
      Nat.mod_eq_of_lt (by omega), Nat.mul_comm]
  have hmapping : nld.mappingTableSize = 4 * nld.blockCount := by
    rw [LowerDevice.mappingTableSize, u32, Nat.mod_eq_of_lt (by omega), Nat.mul_comm]
  have halign : ∀ v, v + nld.writesize - 1 < 2 ^ 32 →
      v ≤ nmbmAlign v nld.writesize ∧ nmbmAlign v nld.writesize < v + nld.writesize ∧
        nld.writesize ∣ nmbmAlign v nld.writesize := by
    intro v hv
    rw [hws] at hv ⊢
    exact nmbmAlign_bounds hshift hv
  have hoff := halign 32 (by omega)
  have hoff₂ := halign nld.stateTableSize (by omega)
  have hoff₃ := halign nld.mappingTableSize (by omega)
  have hmap : nld.mappingTableOff =
      nld.stateTableOff + nmbmAlign nld.stateTableSize nld.writesize := by
    rw [LowerDevice.mappingTableOff, u32, Nat.mod_eq_of_lt]
    rw [LowerDevice.stateTableOff]
    omega
  have hinfo : nld.infoTableSize =
      nld.mappingTableOff + nmbmAlign nld.mappingTableSize nld.writesize := by
    rw [LowerDevice.infoTableSize, u32, Nat.mod_eq_of_lt]
    rw [hmap, LowerDevice.stateTableOff]
    omega
  have hstateOff : nld.stateTableOff = nmbmAlign 32 nld.writesize := rfl
  refine ⟨hwspos, hespos, hdvd, hes, hstate, hmapping, ?_, ?_, ?_, ?_, ?_⟩
  · rw [hstateOff]
    omega
  · omega
  · omega
  · omega
  · rw [hinfo, hmap, hstateOff]
    exact Nat.dvd_add (Nat.dvd_add hoff.2.2 hoff₂.2.2) hoff₃.2.2

/-! ## Parts of the table -/

/-- The tables in memory have the sizes of the device, and the header states the offsets
of {lit}`nmbm_init_structure`. -/
structure Shape (nld : LowerDevice) (ni : NmbmInstance) : Prop where
  states : 4 * ni.blockState.length = nld.stateTableSize
  mapping : 4 * ni.blockMapping.length = nld.mappingTableSize
  stateOff : ni.infoTable.stateTableOff = nld.stateTableOff
  mappingOff : ni.infoTable.mappingTableOff = nld.mappingTableOff
  writeCount : ni.infoTable.writeCount < 2 ^ 32

@[simp]
theorem length_stateBytes (blockState : BlockStates) :
    (stateBytes blockState).length = 4 * blockState.length := by
  induction blockState with
  | nil => rfl
  | cons unit rest ih =>
      rw [stateBytes] at ih ⊢
      rw [List.flatMap_cons, List.length_append, length_leBytes, ih, List.length_cons]
      omega

@[simp]
theorem length_mappingBytes (blockMapping : List Int) :
    (mappingBytes blockMapping).length = 4 * blockMapping.length := by
  induction blockMapping with
  | nil => rfl
  | cons pb rest ih =>
      rw [mappingBytes] at ih ⊢
      rw [List.flatMap_cons, List.length_append, length_leBytes, ih, List.length_cons]
      omega

@[simp]
theorem length_headerBytes (h : Header) : h.bytes.length = 16 := by
  simp [Header.bytes]

@[simp]
theorem length_infoTableHeaderBytes (h : InfoTableHeader) : h.bytes.length = 32 := by
  simp [InfoTableHeader.bytes]

section Parts

variable {nld : LowerDevice} {ni : NmbmInstance} {hdr : InfoTableHeader}

/-- The table before its checksum is computed. -/
def uncheckedBytes (nld : LowerDevice) (ni : NmbmInstance) (hdr : InfoTableHeader) :
    List UInt8 :=
  writeAt
    (writeAt
      (writeAt (List.replicate nld.infoTableSize 0xff) hdr.stateTableOff
        (stateBytes ni.blockState))
      hdr.mappingTableOff (mappingBytes ni.blockMapping))
    0 hdr.bytes

theorem tableBytes_eq (nld : LowerDevice) (ni : NmbmInstance) (hdr : InfoTableHeader) :
    tableBytes nld ni hdr = nmbmUpdateChecksum (uncheckedBytes nld ni hdr) :=
  rfl

/-- A table is never empty. -/
theorem tableBytes_ne_nil (nld : LowerDevice) (ni : NmbmInstance) (hdr : InfoTableHeader) :
    tableBytes nld ni hdr ≠ [] := by
  intro h
  have hlen := congrArg List.length h
  rw [tableBytes_eq, nmbmUpdateChecksum, writeAt] at hlen
  simp [leBytes] at hlen

/-- Where the parts lie. -/
structure PartsFit (nld : LowerDevice) (ni : NmbmInstance) (hdr : InfoTableHeader) : Prop where
  header : 32 ≤ hdr.stateTableOff
  states : hdr.stateTableOff + 4 * ni.blockState.length ≤ hdr.mappingTableOff
  mapping : hdr.mappingTableOff + 4 * ni.blockMapping.length ≤ nld.infoTableSize

theorem length_uncheckedBytes (h : PartsFit nld ni hdr) :
    (uncheckedBytes nld ni hdr).length = nld.infoTableSize := by
  have h₁ := h.header
  have h₂ := h.states
  have h₃ := h.mapping
  have hlen₁ : (writeAt (List.replicate nld.infoTableSize (0xff : UInt8)) hdr.stateTableOff
      (stateBytes ni.blockState)).length = nld.infoTableSize := by
    rw [length_writeAt] <;> simp
    omega
  have hlen₂ : (writeAt (writeAt (List.replicate nld.infoTableSize (0xff : UInt8))
      hdr.stateTableOff (stateBytes ni.blockState)) hdr.mappingTableOff
      (mappingBytes ni.blockMapping)).length = nld.infoTableSize := by
    rw [length_writeAt] <;> simp only [hlen₁, length_mappingBytes]
    omega
  rw [uncheckedBytes, length_writeAt] <;> simp only [hlen₂, length_infoTableHeaderBytes]
  omega

/-- The block states lie at their offset. -/
theorem readAt_states_unchecked (h : PartsFit nld ni hdr) :
    readAt (uncheckedBytes nld ni hdr) hdr.stateTableOff (4 * ni.blockState.length) =
      stateBytes ni.blockState := by
  have h₁ := h.header
  have h₂ := h.states
  have h₃ := h.mapping
  have hlen : (stateBytes ni.blockState).length = 4 * ni.blockState.length :=
    length_stateBytes _
  have hfit : (writeAt (List.replicate nld.infoTableSize (0xff : UInt8)) hdr.stateTableOff
      (stateBytes ni.blockState)).length = nld.infoTableSize := by
    rw [length_writeAt] <;> simp
    omega
  rw [uncheckedBytes, readAt_writeAt_of_ge (by omega)
      (by rw [length_infoTableHeaderBytes]; omega),
    readAt_writeAt_of_le (by omega) (by omega), ← hlen]
  exact readAt_writeAt_self (by rw [List.length_replicate]; omega)

/-- The mapping lies at its offset. -/
theorem readAt_mapping_unchecked (h : PartsFit nld ni hdr) :
    readAt (uncheckedBytes nld ni hdr) hdr.mappingTableOff (4 * ni.blockMapping.length) =
      mappingBytes ni.blockMapping := by
  have h₁ := h.header
  have h₂ := h.states
  have h₃ := h.mapping
  have hlen : (mappingBytes ni.blockMapping).length = 4 * ni.blockMapping.length :=
    length_mappingBytes _
  have hfit : (writeAt (List.replicate nld.infoTableSize (0xff : UInt8)) hdr.stateTableOff
      (stateBytes ni.blockState)).length = nld.infoTableSize := by
    rw [length_writeAt] <;> simp
    omega
  rw [uncheckedBytes, readAt_writeAt_of_ge (by omega)
      (by rw [length_infoTableHeaderBytes]; omega), ← hlen]
  exact readAt_writeAt_self (by omega)

end Parts

/-! ## Checksums -/

section Checksum

variable {data : List UInt8} {off n : Nat}

/-- The bytes that are summed: the checksum is cleared. -/
def clearedChecksum (data : List UInt8) : List UInt8 :=
  writeAt data 12 (leBytes 4 0)

theorem length_clearedChecksum (h : 16 ≤ data.length) :
    (clearedChecksum data).length = data.length := by
  rw [clearedChecksum, length_writeAt]
  rw [length_leBytes]
  omega

theorem wordAt_clearedChecksum (h : 16 ≤ data.length) {k : Nat} (hk : k + 4 ≤ 12) :
    wordAt (clearedChecksum data) k = wordAt data k :=
  congrArg leNat (readAt_writeAt_of_le (by omega) hk)

theorem checksum_clearedChecksum (h : 16 ≤ data.length) : wordAt (clearedChecksum data) 12 = 0 := by
  have hself : readAt (writeAt data 12 (leBytes 4 0)) 12 (leBytes 4 0).length = leBytes 4 0 :=
    readAt_writeAt_self (by omega)
  rw [length_leBytes] at hself
  rw [clearedChecksum, wordAt, hself, leNat_leBytes]
  rfl

/-- The sum over the size that the header states. -/
def summedChecksum (data : List UInt8) : Nat :=
  nmbmCrc32 0 ((clearedChecksum data).take (wordAt data 8))

theorem nmbmUpdateChecksum_eq (h : 16 ≤ data.length) :
    nmbmUpdateChecksum data =
      writeAt (clearedChecksum data) 12 (leBytes 4 (summedChecksum data)) := by
  have hsize : (readHeader (clearedChecksum data)).size = wordAt data 8 :=
    wordAt_clearedChecksum h (by omega)
  rw [summedChecksum, ← hsize]
  rfl

@[simp]
theorem length_nmbmUpdateChecksum (h : 16 ≤ data.length) :
    (nmbmUpdateChecksum data).length = data.length := by
  have hlen := length_clearedChecksum h
  rw [nmbmUpdateChecksum_eq h, length_writeAt, hlen]
  rw [hlen, length_leBytes]
  omega

/-- The checksum field is the only part that {lit}`nmbm_update_checksum` changes. -/
theorem readAt_nmbmUpdateChecksum (h : 16 ≤ data.length)
    (hoff : 16 ≤ off ∨ off + n ≤ 12) :
    readAt (nmbmUpdateChecksum data) off n = readAt data off n := by
  have hlen := length_clearedChecksum h
  rw [nmbmUpdateChecksum_eq h]
  rcases hoff with hge | hle
  · rw [readAt_writeAt_of_ge (by omega) (by rw [length_leBytes]; omega), clearedChecksum,
      readAt_writeAt_of_ge (by omega) (by rw [length_leBytes]; omega)]
  · rw [readAt_writeAt_of_le (by omega) hle, clearedChecksum, readAt_writeAt_of_le (by omega) hle]

theorem crc32Bit_lt {crc : Nat} (h : crc < 2 ^ 32) : crc32Bit crc < 2 ^ 32 := by
  have hshift : crc >>> 1 < 2 ^ 32 := by
    rw [Nat.shiftRight_eq_div_pow]
    omega
  rw [crc32Bit]
  split_ifs
  · exact Nat.xor_lt_two_pow hshift (by decide)
  · exact hshift

theorem crc32Byte_lt {crc : Nat} (h : crc < 2 ^ 32) (b : UInt8) : crc32Byte crc b < 2 ^ 32 := by
  have hb : b.toNat < 2 ^ 32 := by
    have := b.toNat_lt
    omega
  unfold crc32Byte
  iterate 8 apply crc32Bit_lt
  exact Nat.xor_lt_two_pow h hb

theorem nmbmCrc32_lt {crc : Nat} (h : crc < 2 ^ 32) (data : List UInt8) :
    nmbmCrc32 crc data < 2 ^ 32 := by
  induction data generalizing crc with
  | nil => exact h
  | cons b data ih =>
      rw [nmbmCrc32, List.foldl_cons]
      exact ih (crc32Byte_lt h b)

theorem nmbmCrc32_append (crc : Nat) (a b : List UInt8) :
    nmbmCrc32 crc (a ++ b) = nmbmCrc32 (nmbmCrc32 crc a) b := by
  rw [nmbmCrc32, nmbmCrc32, nmbmCrc32, List.foldl_append]

/-- Encoding the words of a header gives its bytes. -/
theorem readHeader_bytes (h : 16 ≤ data.length) : (readHeader data).bytes = data.take 16 := by
  have hword : ∀ k, k + 4 ≤ data.length → leBytes 4 (wordAt data k) = readAt data k 4 := by
    intro k hk
    have hlen : (readAt data k 4).length = 4 := length_readAt hk
    have henc := leBytes_leNat (readAt data k 4)
    rw [hlen] at henc
    exact henc
  have h16 : data.take 16 = readAt data 0 16 := rfl
  have hcut : readAt data 0 16 =
      readAt data 0 4 ++ readAt data 4 4 ++ readAt data 8 4 ++ readAt data 12 4 := by
    rw [← readAt_add data 0 4 4, ← readAt_add data 0 8 4, ← readAt_add data 0 12 4]
  simp only [Header.bytes, readHeader, hword 0 (by omega), hword 4 (by omega),
    hword 8 (by omega), hword 12 (by omega)]
  rw [h16, hcut]

theorem summedChecksum_lt (data : List UInt8) : summedChecksum data < 2 ^ 32 :=
  nmbmCrc32_lt (by decide) _

/-- The checksum that is stored. -/
theorem checksum_nmbmUpdateChecksum (h : 16 ≤ data.length) :
    wordAt (nmbmUpdateChecksum data) 12 = summedChecksum data := by
  have hlen := length_clearedChecksum h
  have hself : readAt (writeAt (clearedChecksum data) 12 (leBytes 4 (summedChecksum data))) 12
      (leBytes 4 (summedChecksum data)).length = leBytes 4 (summedChecksum data) :=
    readAt_writeAt_self (by omega)
  rw [length_leBytes] at hself
  rw [nmbmUpdateChecksum_eq h, wordAt, hself, leNat_leBytes, Nat.mod_eq_of_lt]
  exact summedChecksum_lt data

/-- The header without its checksum is that of the bytes that are summed. -/
theorem readHeader_nmbmUpdateChecksum (h : 16 ≤ data.length) :
    { readHeader (nmbmUpdateChecksum data) with checksum := 0 } = readHeader (clearedChecksum data) := by
  have hfield : ∀ k, k + 4 ≤ 12 → wordAt (nmbmUpdateChecksum data) k = wordAt data k :=
    fun k hk => congrArg leNat (readAt_nmbmUpdateChecksum h (.inr hk))
  simp only [readHeader, hfield 0 (by omega), hfield 4 (by omega), hfield 8 (by omega),
    wordAt_clearedChecksum h (show 0 + 4 ≤ 12 by omega),
    wordAt_clearedChecksum h (show 4 + 4 ≤ 12 by omega),
    wordAt_clearedChecksum h (show 8 + 4 ≤ 12 by omega), checksum_clearedChecksum h]

/-- The bytes behind the header are those that are summed. -/
theorem tail_nmbmUpdateChecksum (h : 16 ≤ data.length) (n : Nat) :
    readAt (nmbmUpdateChecksum data) 16 n = readAt (clearedChecksum data) 16 n := by
  have hlen := length_clearedChecksum h
  rw [nmbmUpdateChecksum_eq h, readAt_writeAt_of_ge (by omega) (by rw [length_leBytes])]

/-- A structure whose checksum was updated passes {lit}`nmbm_check_header`. -/
theorem nmbmCheckHeader_updated {size : Nat} (h : 16 ≤ data.length)
    (hmin : 16 ≤ wordAt data 8)
    (hle : wordAt data 8 ≤ size) :
    nmbmCheckHeader (nmbmUpdateChecksum data) size = true := by
  have hlen := length_clearedChecksum h
  have hsize : (readHeader (nmbmUpdateChecksum data)).size = wordAt data 8 :=
    congrArg leNat (readAt_nmbmUpdateChecksum h (.inr (by omega)))
  have hchecksum : (readHeader (nmbmUpdateChecksum data)).checksum = summedChecksum data :=
    checksum_nmbmUpdateChecksum h
  have hheader : (Header.mk (readHeader (nmbmUpdateChecksum data)).magic
      (readHeader (nmbmUpdateChecksum data)).version (wordAt data 8) 0).bytes =
        (clearedChecksum data).take 16 := by
    rw [← readHeader_bytes (by omega), ← readHeader_nmbmUpdateChecksum h, ← hsize]
  -- The sum is taken over the header and over what is behind it, one after the other.
  have hwhole : (clearedChecksum data).take (wordAt data 8) =
      (clearedChecksum data).take 16 ++ readAt (clearedChecksum data) 16 (wordAt data 8 - 16) := by
    have hadd := readAt_add (clearedChecksum data) 0 16 (wordAt data 8 - 16)
    rw [Nat.add_sub_cancel' hmin] at hadd
    exact hadd
  have hsum : summedChecksum data = nmbmCrc32 (nmbmCrc32 0 ((clearedChecksum data).take 16))
      (readAt (clearedChecksum data) 16 (wordAt data 8 - 16)) := by
    rw [summedChecksum, hwhole, nmbmCrc32_append]
  simp only [nmbmCheckHeader, hsize, hchecksum, hheader, headerSize, tail_nmbmUpdateChecksum h]
  rw [if_neg (by omega), hsum]
  by_cases hlong : 16 < wordAt data 8
  · rw [if_pos hlong]
    simp
  · have hnone : wordAt data 8 - 16 = 0 := by omega
    rw [if_neg hlong, hnone]
    simp [readAt, nmbmCrc32]

end Checksum

/-! ## Reading a table back -/

/-- Words that were laid out one after another are read back. -/
theorem readWords_of_flatMap :
    ∀ (words : List Nat) (data : List UInt8) (off : Nat),
      readAt data off (4 * words.length) = words.flatMap (leBytes 4) →
      readWords data words.length off = words.map (· % 2 ^ 32) := by
  intro words
  induction words with
  | nil =>
      intro data off _
      rfl
  | cons x words ih =>
      intro data off h
      have hsplit : 4 * (x :: words).length = 4 + 4 * words.length := by
        rw [List.length_cons]
        omega
      rw [hsplit, readAt_add, List.flatMap_cons] at h
      have hlen : (readAt data off 4).length = (leBytes 4 x).length := by
        have htotal := congrArg List.length h
        have hle : (readAt data off 4).length ≤ 4 := by
          rw [readAt, List.length_take]
          omega
        have hle' : (readAt data (off + 4) (4 * words.length)).length ≤ 4 * words.length := by
          rw [readAt, List.length_take]
          omega
        have hflat : (words.flatMap (leBytes 4)).length = 4 * words.length := by
          simp [List.length_flatMap, Nat.mul_comm]
        rw [List.length_append, List.length_append, length_leBytes, hflat] at htotal
        rw [length_leBytes]
        omega
      obtain ⟨hhead, htail⟩ := List.append_inj h hlen
      rw [List.length_cons, readWords, ih data (off + 4) htail, wordAt, hhead, leNat_leBytes]
      rfl

section Reading

variable {nld : LowerDevice} {ni : NmbmInstance} {hdr : InfoTableHeader}

theorem long_uncheckedBytes (h : PartsFit nld ni hdr) :
    32 ≤ (uncheckedBytes nld ni hdr).length := by
  have h₁ := h.header
  have h₂ := h.states
  have h₃ := h.mapping
  rw [length_uncheckedBytes h]
  omega

@[simp]
theorem length_tableBytes (h : PartsFit nld ni hdr) :
    (tableBytes nld ni hdr).length = nld.infoTableSize := by
  have hlong := long_uncheckedBytes h
  rw [tableBytes_eq, length_nmbmUpdateChecksum (by omega), length_uncheckedBytes h]

theorem readAt_states_tableBytes (h : PartsFit nld ni hdr) :
    readAt (tableBytes nld ni hdr) hdr.stateTableOff (4 * ni.blockState.length) =
      stateBytes ni.blockState := by
  have hlong := long_uncheckedBytes h
  have hoff := h.header
  rw [tableBytes_eq, readAt_nmbmUpdateChecksum (by omega) (.inl (by omega)),
    readAt_states_unchecked h]

theorem readAt_mapping_tableBytes (h : PartsFit nld ni hdr) :
    readAt (tableBytes nld ni hdr) hdr.mappingTableOff (4 * ni.blockMapping.length) =
      mappingBytes ni.blockMapping := by
  have hlong := long_uncheckedBytes h
  have hoff := h.header
  have hoff₂ := h.states
  rw [tableBytes_eq, readAt_nmbmUpdateChecksum (by omega) (.inl (by omega)),
    readAt_mapping_unchecked h]

/-- The block states are read back. -/
theorem readStates_tableBytes (h : PartsFit nld ni hdr) :
    readStates (tableBytes nld ni hdr) hdr.stateTableOff (4 * ni.blockState.length) =
      ni.blockState := by
  have hbytes := readAt_states_tableBytes h
  have hwords : stateBytes ni.blockState =
      (ni.blockState.map BitVec.toNat).flatMap (leBytes 4) := by
    rw [stateBytes, List.flatMap_map]
  rw [hwords] at hbytes
  have hread := readWords_of_flatMap (ni.blockState.map BitVec.toNat) _ _
    (by rw [List.length_map]; exact hbytes)
  have hcount : 4 * ni.blockState.length / 4 = (ni.blockState.map BitVec.toNat).length := by
    rw [List.length_map]
    omega
  rw [readStates, hcount, hread, List.map_map, List.map_map]
  conv_rhs => rw [← List.map_id ni.blockState]
  apply List.map_congr_left
  intro unit _
  apply BitVec.eq_of_toNat_eq
  simp only [Function.comp_apply, BitVec.toNat_ofNat, Nat.mod_mod, id]
  exact Nat.mod_eq_of_lt unit.isLt

/-- The mapping is read back. -/
theorem readMapping_tableBytes (h : PartsFit nld ni hdr)
    (hrange : ∀ pb ∈ ni.blockMapping, -(2 ^ 31) ≤ pb ∧ pb < 2 ^ 31) :
    readMapping (tableBytes nld ni hdr) hdr.mappingTableOff (4 * ni.blockMapping.length) =
      ni.blockMapping := by
  have hbytes := readAt_mapping_tableBytes h
  have hwords : mappingBytes ni.blockMapping =
      (ni.blockMapping.map (wordOf 4)).flatMap (leBytes 4) := by
    rw [mappingBytes, List.flatMap_map]
  rw [hwords] at hbytes
  have hread := readWords_of_flatMap (ni.blockMapping.map (wordOf 4)) _ _
    (by rw [List.length_map]; exact hbytes)
  have hcount : 4 * ni.blockMapping.length / 4 = (ni.blockMapping.map (wordOf 4)).length := by
    rw [List.length_map]
    omega
  rw [readMapping, hcount, hread, List.map_map, List.map_map]
  conv_rhs => rw [← List.map_id ni.blockMapping]
  apply List.map_congr_left
  intro pb hpb
  obtain ⟨hlo, hhi⟩ := hrange pb hpb
  have hlt : wordOf 4 pb < 2 ^ 32 := wordOf_lt 4 pb
  simp only [Function.comp_apply, Nat.mod_eq_of_lt hlt, id]
  exact signedOf_wordOf (by norm_num; omega) (by norm_num; omega)

/-- A word of the header that no checksum is stored in. -/
theorem wordAt_tableBytes (h : PartsFit nld ni hdr) {k : Nat}
    (hk : 16 ≤ k ∧ k + 4 ≤ 32 ∨ k + 4 ≤ 12) :
    wordAt (tableBytes nld ni hdr) k = wordAt hdr.bytes k := by
  have hlong := long_uncheckedBytes h
  have hoff : 16 ≤ k ∨ k + 4 ≤ 12 := by omega
  rw [wordAt, wordAt, tableBytes_eq, readAt_nmbmUpdateChecksum (by omega) hoff]
  have hlen : k + 4 ≤ hdr.bytes.length := by
    rw [length_infoTableHeaderBytes]
    omega
  have hmem : ∀ buf : List UInt8, readAt (writeAt buf 0 hdr.bytes) (0 + k) 4 =
      readAt hdr.bytes k 4 := fun buf => readAt_writeAt_of_mem (Nat.zero_le _) hlen
  rw [Nat.zero_add] at hmem
  rw [uncheckedBytes, hmem]

/-- The words of a header in range. -/
structure HeaderInRange (hdr : InfoTableHeader) : Prop where
  magic : hdr.header.magic < 2 ^ 32
  size : hdr.header.size < 2 ^ 32
  writeCount : hdr.writeCount < 2 ^ 32
  stateTableOff : hdr.stateTableOff < 2 ^ 32
  mappingTableOff : hdr.mappingTableOff < 2 ^ 32

/-- A word of the header as it was encoded. -/
theorem wordAt_tableBytes_eq (h : PartsFit nld ni hdr) {k x : Nat}
    (hk : 16 ≤ k ∧ k + 4 ≤ 32 ∨ k + 4 ≤ 12)
    (hx : x < 2 ^ 32)
    (henc : readAt hdr.bytes k 4 = leBytes 4 x) :
    wordAt (tableBytes nld ni hdr) k = x := by
  rw [wordAt_tableBytes h hk, wordAt, henc, leNat_leBytes]
  exact Nat.mod_eq_of_lt hx

/-- The fields that the loader looks at are read back. -/
theorem readInfoTableHeader_tableBytes (h : PartsFit nld ni hdr) (hr : HeaderInRange hdr) :
    (readInfoTableHeader (tableBytes nld ni hdr)).header.magic = hdr.header.magic ∧
      (readInfoTableHeader (tableBytes nld ni hdr)).header.size = hdr.header.size ∧
      (readInfoTableHeader (tableBytes nld ni hdr)).writeCount = hdr.writeCount ∧
      (readInfoTableHeader (tableBytes nld ni hdr)).stateTableOff = hdr.stateTableOff ∧
      (readInfoTableHeader (tableBytes nld ni hdr)).mappingTableOff = hdr.mappingTableOff := by
  have hmagic := wordAt_tableBytes_eq h (k := 0) (by omega) hr.magic
    (by simp [InfoTableHeader.bytes, Header.bytes, readAt, leBytes])
  have hsize := wordAt_tableBytes_eq h (k := 8) (by omega) hr.size
    (by simp [InfoTableHeader.bytes, Header.bytes, readAt, leBytes])
  have hcount := wordAt_tableBytes_eq h (k := 16) (by omega) hr.writeCount
    (by simp [InfoTableHeader.bytes, Header.bytes, readAt, leBytes])
  have hstate := wordAt_tableBytes_eq h (k := 20) (by omega) hr.stateTableOff
    (by simp [InfoTableHeader.bytes, Header.bytes, readAt, leBytes])
  have hmapping := wordAt_tableBytes_eq h (k := 24) (by omega) hr.mappingTableOff
    (by simp [InfoTableHeader.bytes, Header.bytes, readAt, leBytes])
  simp only [readInfoTableHeader, readHeader]
  exact ⟨hmagic, hsize, hcount, hstate, hmapping⟩

/-- The checksum of a generated table holds. -/
theorem nmbmCheckHeader_tableBytes (h : PartsFit nld ni hdr) (hr : HeaderInRange hdr)
    (hsize : hdr.header.size = nld.infoTableSize) :
    nmbmCheckHeader (tableBytes nld ni hdr) nld.infoTableSize = true := by
  have hlong := long_uncheckedBytes h
  have hlen := length_uncheckedBytes h
  have hword : wordAt (uncheckedBytes nld ni hdr) 8 = nld.infoTableSize := by
    have hsame : wordAt (uncheckedBytes nld ni hdr) 8 = wordAt (tableBytes nld ni hdr) 8 :=
      congrArg leNat (readAt_nmbmUpdateChecksum (by omega) (.inr (by omega))).symm
    have hread := (readInfoTableHeader_tableBytes h hr).2.1
    simp only [readInfoTableHeader, readHeader] at hread
    rw [hsame, hread, hsize]
  rw [tableBytes_eq]
  exact nmbmCheckHeader_updated (by omega) (by omega) (by omega)

/-- The parts fit on a chip of ordinary size. -/
theorem Shape.partsFit (hs : Shape nld ni) (hf : nld.Fits)
    (hstate : hdr.stateTableOff = ni.infoTable.stateTableOff)
    (hmapping : hdr.mappingTableOff = ni.infoTable.mappingTableOff) :
    PartsFit nld ni hdr := by
  refine ⟨?_, ?_, ?_⟩
  · rw [hstate, hs.stateOff]
    exact hf.header_le
  · rw [hstate, hmapping, hs.stateOff, hs.mappingOff, hs.states]
    exact hf.state_le
  · rw [hmapping, hs.mappingOff, hs.mapping]
    exact hf.mapping_le

/-- A freshly generated cache holds the tables in memory. -/
theorem cacheInSync_tableBytes (hs : Shape nld ni) (hf : nld.Fits)
    (hstate : hdr.stateTableOff = ni.infoTable.stateTableOff)
    (hmapping : hdr.mappingTableOff = ni.infoTable.mappingTableOff) :
    cacheInSync nld
      { ni with infoTable := hdr, infoTableCache := tableBytes nld ni hdr } = true := by
  have hfit := hs.partsFit hf hstate hmapping
  simp only [cacheInSync, Bool.and_eq_true, beq_iff_eq, ← hs.states, ← hs.mapping]
  exact ⟨readAt_states_tableBytes hfit, readAt_mapping_tableBytes hfit⟩

end Reading

end Nmbm
end ZyxelRouter
