import ZyxelRouter.Nmbm.Creation

/-!
# NMBM: loading a table that was written

{lit}`nmbm_write_info_table` passes over blocks that are or turn out bad, also between two chunks of a
table.  {lit}`nmbm_try_load_info_table` passes over bad blocks too, but it looks at no more blocks than
the table has chunks.  So a written table is loaded again exactly if its chunks are adjacent.

Main results:

- Theorem {lit}`tryLoadLoop_stored`: the chunks of adjacent blocks are read one after another.
- Theorem {lit}`Cached.legible`: a generated table passes the checks of the loader.
- Theorem {lit}`written_loads_iff`: which written tables are loaded.
- Theorem {lit}`written_not_loaded`: a table of two chunks around a bad block.
-/

namespace ZyxelRouter
namespace Nmbm

open Lib Lib.Prog

variable {w w' w₂ : World} {nld : LowerDevice}

/-! ## Blocks of a table -/

/-- Increasing numbers that fill an interval. -/
theorem eq_range'_of_pairwise {l : List Nat} :
    ∀ {lo : Nat}, l.Pairwise (· < ·) → (∀ b ∈ l, lo ≤ b ∧ b < lo + l.length) →
      l = List.range' lo l.length := by
  induction l with
  | nil =>
      intro lo _ _
      rfl
  | cons b l ih =>
      intro lo hsorted hbounds
      obtain ⟨hhead, htail⟩ := List.pairwise_cons.mp hsorted
      have hb := hbounds b List.mem_cons_self
      rw [List.length_cons] at hbounds hb
      have hrest : l = List.range' (lo + 1) l.length := by
        apply ih htail
        intro c hc
        have hlt := hhead c hc
        have hc' := hbounds c (List.mem_cons_of_mem _ hc)
        omega
      have hlo : b = lo := by
        cases l with
        | nil =>
            simp only [List.length_nil] at hb
            omega
        | cons c l =>
            have hc : c = lo + 1 := by
              rw [List.length_cons, List.range'_succ] at hrest
              exact (List.cons.inj hrest).1
            have hlt := hhead c List.mem_cons_self
            omega
      rw [List.length_cons, List.range'_succ, ← hrest, hlo]

/-- The number of blocks of stored data. -/
theorem StoredIn.length (hes : 0 < nld.erasesize) {flash : Flash} :
    ∀ {data : List UInt8} {bs : List Nat}, StoredIn nld flash data bs →
      bs.length = (data.length + nld.erasesize - 1) / nld.erasesize := by
  intro data bs
  induction bs generalizing data with
  | nil =>
      intro h
      have hnil : data = [] := h
      subst hnil
      rw [List.length_nil, List.length_nil]
      exact (Nat.div_eq_of_lt (by omega)).symm
  | cons b bs ih =>
      rintro ⟨hne, -, hrest⟩
      have hpos : 0 < data.length := List.length_pos_of_ne_nil hne
      rw [List.length_cons, ih hrest, List.length_drop]
      by_cases hle : data.length ≤ nld.erasesize
      · have hone : (data.length + nld.erasesize - 1) / nld.erasesize = 1 := by
          apply Nat.div_eq_of_lt_le <;> omega
        rw [hone, Nat.sub_eq_zero_of_le hle, Nat.div_eq_of_lt (by omega)]
      · have hsplit : data.length + nld.erasesize - 1 =
            data.length - nld.erasesize + nld.erasesize - 1 + nld.erasesize := by omega
        rw [hsplit, Nat.add_div_right _ hes]

/-- {lit}`size2blk` of a size in bytes. -/
theorem size2blk_eq (hf : nld.Fits) (size : Nat) :
    nld.size2blk size = (size + nld.erasesize - 1) / nld.erasesize := by
  rw [LowerDevice.size2blk, Nat.shiftRight_eq_div_pow, ← hf.shift]

/-- Without blocks passed over behind the first chunk, the blocks are adjacent. -/
theorem WrittenRange.adjacent {data : List UInt8} {ba limit s e : Nat} {bs : List Nat}
    (h : WrittenRange nld w w' data ba limit none s e bs)
    (hdata : data ≠ [])
    (hskips : startedSkips w'.events = startedSkips w.events) :
    e = s + bs.length ∧ bs = List.range' s bs.length := by
  have hext : s + bs.length + startedSkips w'.events = e + startedSkips w.events :=
    h.extent (.inl hdata)
  have he : e = s + bs.length := by omega
  refine ⟨he, ?_⟩
  apply eq_range'_of_pairwise h.placed.sorted
  intro b hb
  obtain ⟨c, rest, rfl⟩ := List.exists_cons_of_ne_nil (h.placed.nonempty hdata)
  have hs : s = c := h.head
  have hlt := (h.placed.bounds b hb).2
  rcases List.mem_cons.mp hb with rfl | hrest
  · omega
  · have hgt := (List.pairwise_cons.mp h.placed.sorted).1 b hrest
    omega

/-! ## Reading without errors -/

/-- A chip whose reads and bad-block checks do not fail. -/
structure Readable (nld : LowerDevice) : Prop where
  writesize_pos : 0 < nld.writesize
  oobsize_pos : 0 < nld.oobsize
  reads : ReadsWork nld
  checks : ∀ t, (nld.fates t .check).ret = 0

/-- Only the page cache changed, which does not shrink. -/
structure Peeks (w w' : World) : Prop where
  ni : ∃ pageCache, w'.ni = { w.ni with pageCache } ∧
    w.ni.pageCache.length ≤ pageCache.length
  flash : w'.chip.flash = w.chip.flash

theorem Peeks.refl (w : World) : Peeks w w :=
  ⟨⟨_, rfl, le_refl _⟩, rfl⟩

theorem Peeks.trans {w'' : World} (h : Peeks w w') (h' : Peeks w' w'') : Peeks w w'' := by
  obtain ⟨pc, hni, hlen⟩ := h.ni
  obtain ⟨pc', hni', hlen'⟩ := h'.ni
  refine ⟨⟨pc', ?_, ?_⟩, h'.flash.trans h.flash⟩
  · rw [hni', hni]
  · rw [hni] at hlen'
    exact hlen.trans hlen'

theorem Quiet.peeks (h : Quiet w w') : Peeks w w' :=
  ⟨⟨w.ni.pageCache, h.ni, le_refl _⟩, h.flash⟩

theorem peeks_setPageCache (w : World) (off : Nat) (bytes : List UInt8) :
    Peeks w { w with ni := { w.ni with pageCache := writeAt w.ni.pageCache off bytes } } := by
  refine ⟨⟨_, rfl, ?_⟩, rfl⟩
  simp only [writeAt, List.length_append, List.length_take, List.length_drop]
  omega

theorem Peeks.state (h : Peeks w w') (b : Nat) :
    nmbmGetBlockState w'.ni b = nmbmGetBlockState w.ni b := by
  obtain ⟨pc, hni, -⟩ := h.ni
  rw [hni]
  rfl

/-- The page loop reads the stored bytes. -/
theorem readDataLoop_peeks (hr : Readable nld) (ba : Nat) :
    ∀ (fuel page size : Nat) (acc : List UInt8) (w : World),
      wp (readDataLoop ba fuel page size acc) nld (fun _ w' => Peeks w w') w := by
  intro fuel
  induction fuel with
  | zero =>
      intro page size acc w
      exact Peeks.refl w
  | succ fuel ih =>
      intro page size acc w
      simp only [readDataLoop, wp_bind, wp_ask, wp_ite, wp_pure, wp_setPageCache]
      refine ⟨fun _ => Peeks.refl w, fun _ => ?_⟩
      refine wp_mono (nmbmReadPhysPage_complete hr.reads ba page w) ?_
      rintro r w₁ ⟨hquiet, -, -⟩
      have hshort := hquiet.peeks.trans (peeks_setPageCache w₁ 0 (mainArea nld r.2))
      exact ⟨fun _ => ⟨fun _ => hshort, fun _ => wp_mono (ih _ _ _ _) (fun _ _ h => hshort.trans h)⟩,
        fun _ => ⟨fun _ => hquiet.peeks,
          fun _ => wp_mono (ih _ _ _ _) (fun _ _ h => hquiet.peeks.trans h)⟩⟩

theorem nmbnReadData_peeks (hr : Readable nld) (ba size : Nat) (w : World) :
    wp (nmbnReadData ba 0 size) nld (fun r w' =>
      Peeks w w' ∧ r = (0, bytesFrom nld (w.chip.flash.cells ba) 0 size)) w := by
  have hread := nmbnReadData_complete hr.writesize_pos hr.reads ba 0 size w
  rw [Nat.zero_mul] at hread
  exact ⟨readDataLoop_peeks hr ba size 0 size [] w, hread.2.2⟩

/-- What a check that does not fail says about a block. -/
def markedBad (nld : LowerDevice) (flash : Flash) (b : Nat) : Bool :=
  if nld.hasIsBadBlock then flash.marks b else flash.cells b 0 nld.writesize != 0xff

theorem nmbmCheckBadPhysBlock_complete (hr : Readable nld)
    (hcache : nld.writesize ≤ w.ni.pageCache.length) (ba : Nat) :
    wp (nmbmCheckBadPhysBlock ba) nld (fun bad w' =>
      Peeks w w' ∧ bad = markedBad nld w.chip.flash ba) w := by
  simp only [nmbmCheckBadPhysBlock, wp_bind, wp_ask, wp_ite, wp_lower, wp_setPageCache,
    wp_pure, wp_get, Chip.isBadBlock, hr.checks, if_true, markedBad]
  refine ⟨fun hcall => ⟨⟨⟨_, rfl, le_refl _⟩, rfl⟩, (if_pos hcall).symm⟩, fun hcall => ?_⟩
  refine wp_mono (nmbmReadPhysPage_complete hr.reads ba 0 w) ?_
  rintro r w₁ ⟨hquiet, hret, hpage⟩
  have hpeeks := hquiet.peeks.trans (peeks_setPageCache w₁ nld.writesize (oobArea nld r.2))
  refine ⟨fun h => absurd h.1 (not_lt.mpr hret), fun _ => ⟨hpeeks, ?_⟩⟩
  have hoob : (oobArea nld r.2)[0]? = some (w.chip.flash.cells ba 0 nld.writesize) := by
    rw [oobArea, hpage, List.getElem?_map, List.getElem?_range hr.oobsize_pos]
    rfl
  have hbyte : (writeAt w₁.ni.pageCache nld.writesize (oobArea nld r.2)).getD nld.writesize 0 =
      w.chip.flash.cells ba 0 nld.writesize := by
    have hfront : (w₁.ni.pageCache.take nld.writesize).length = nld.writesize := by
      rw [List.length_take, hquiet.ni]
      omega
    rw [writeAt, List.append_assoc, List.getD_eq_getElem?_getD,
      List.getElem?_append_right (le_of_eq hfront), hfront, Nat.sub_self]
    have hpos : 0 < (oobArea nld r.2).length := by
      rw [oobArea, List.length_map, List.length_range]
      exact hr.oobsize_pos
    rw [List.getElem?_append_left hpos, hoob]
    rfl
  rw [hbyte, if_neg hcall]

/-! ## The loader's loop -/

/-- Blocks from {lit}`ba` on hold the bytes, are good and carry no mark. -/
structure Adjacent (nld : LowerDevice) (w : World) (data : List UInt8) (ba n : Nat) : Prop where
  stored : StoredIn nld w.chip.flash data (List.range' ba n)
  good : ∀ b, ba ≤ b → b < ba + n → nmbmGetBlockState w.ni b = blockStGood
  unmarked : ∀ b, ba ≤ b → b < ba + n → markedBad nld w.chip.flash b = false

/-- The chunks of adjacent blocks are read one after another. -/
theorem tryLoadLoop_stored (hr : Readable nld) :
    ∀ (n ba : Nat) (data acc : List UInt8) (start : Option Nat) (w : World),
      Adjacent nld w data ba n →
      nld.writesize ≤ w.ni.pageCache.length →
      (start = none → nmbmCheckInfoTableHeader nld (data.take nld.erasesize) = true) →
      wp (tryLoadLoop n ba data.length acc start) nld (fun r w' =>
        Peeks w w' ∧
          r = some (acc ++ data, start.getD (if n = 0 then 0 else ba), ba + n)) w := by
  intro n
  induction n with
  | zero =>
      intro ba data acc start w h _ _
      have hnil : data = [] := h.stored
      subst hnil
      refine ⟨Peeks.refl w, ?_⟩
      rw [List.append_nil]
      rfl
  | succ n ih =>
      intro ba data acc start w h hcache hheader
      obtain ⟨hne, hbytes, hrest⟩ := h.stored
      have hpos : data.length ≠ 0 := by simpa using hne
      have hgood := h.good ba (le_refl _) (by omega)
      have hmark := h.unmarked ba (le_refl _) (by omega)
      have hchunk : min data.length nld.erasesize = (data.take nld.erasesize).length := by
        rw [List.length_take, Nat.min_comm]
      simp only [tryLoadLoop, wp_bind, wp_ask, wp_get, if_neg hpos, hgood, ne_eq, not_true_eq_false,
        if_false]
      refine wp_mono (nmbmCheckBadPhysBlock_complete hr hcache ba) ?_
      rintro _ w₁ ⟨h₁, rfl⟩
      rw [hmark, if_neg (by decide), wp_bind]
      refine wp_mono (nmbnReadData_peeks hr ba (min data.length nld.erasesize) w₁) ?_
      rintro _ w₂ ⟨h₂, rfl⟩
      rw [h₁.flash, hchunk, hbytes]
      have hpeeks := h₁.trans h₂
      have hchecked : ¬ (start = none ∧
          nmbmCheckInfoTableHeader nld (data.take nld.erasesize) = false) := by
        rintro ⟨hstart, hbad⟩
        rw [hheader hstart] at hbad
        cases hbad
      simp only [lt_irrefl, if_false, if_neg hchecked]
      have hnext : Adjacent nld w₂ (data.drop nld.erasesize) (ba + 1) n := by
        refine ⟨?_, fun b hb hb' => ?_, fun b hb hb' => ?_⟩
        · rw [hpeeks.flash]
          exact hrest
        · rw [hpeeks.state]
          exact h.good b (by omega) (by omega)
        · rw [hpeeks.flash]
          exact h.unmarked b (by omega) (by omega)
      have hcache₂ : nld.writesize ≤ w₂.ni.pageCache.length := by
        obtain ⟨pc, hni, hlen⟩ := hpeeks.ni
        rw [hni]
        exact hcache.trans hlen
      have hsize : data.length - (data.take nld.erasesize).length =
          (data.drop nld.erasesize).length := by
        rw [List.length_take, List.length_drop]
        omega
      rw [hsize]
      refine wp_mono (ih (ba + 1) _ _ _ w₂ hnext hcache₂ (by simp)) ?_
      rintro r w₃ ⟨h₃, rfl⟩
      refine ⟨hpeeks.trans h₃, ?_⟩
      rw [List.append_assoc, List.take_append_drop]
      simp [Nat.add_assoc, Nat.add_comm 1 n]

/-- The loader looks at no more than {lit}`n` blocks. -/
theorem tryLoadLoop_end (nld : LowerDevice) :
    ∀ (n ba sizeremain : Nat) (acc : List UInt8) (start : Option Nat) (w : World),
      wp (tryLoadLoop n ba sizeremain acc start) nld (fun r _ =>
        ∀ found, r = some found → found.2.2 ≤ ba + n) w := by
  intro n
  induction n with
  | zero =>
      intro ba sizeremain acc start w
      simp only [tryLoadLoop, wp_ite, wp_pure]
      refine ⟨?_, ?_⟩
      · rintro - found ⟨⟩
        exact le_refl _
      · rintro - found ⟨⟩
  | succ n ih =>
      intro ba sizeremain acc start w
      have hrest : ∀ sizeremain acc start w₁,
          wp (tryLoadLoop n (ba + 1) sizeremain acc start) nld (fun r _ =>
            ∀ found, r = some found → found.2.2 ≤ ba + (n + 1)) w₁ := by
        intro sizeremain acc start w₁
        refine wp_mono (ih (ba + 1) sizeremain acc start w₁) ?_
        intro r _ hr found hfound
        have := hr found hfound
        omega
      simp only [tryLoadLoop, wp_bind, wp_ask, wp_get, wp_ite, wp_pure]
      refine ⟨?_, fun _ => ⟨fun _ => hrest _ _ _ w, fun _ => ?_⟩⟩
      · rintro - found ⟨⟩
        exact Nat.le_add_right _ _
      · refine wp_mono (wp_run _ nld w) ?_
        intro bad w₁ _
        refine ⟨fun _ => hrest _ _ _ _, fun _ => ?_⟩
        refine wp_mono (wp_run _ nld w₁) ?_
        intro r w₂ _
        refine ⟨fun _ => hrest _ _ _ _, fun _ => ⟨?_, fun _ => ⟨?_, fun _ => hrest _ _ _ _⟩⟩⟩
        · rintro - found ⟨⟩
        · rintro - found ⟨⟩

/-! ## The loader's checks -/

theorem u32Sub_of_le {a b : Nat} (h : b ≤ a) (ha : a < 2 ^ 32) : u32Sub a b = a - b := by
  rw [u32Sub, u32]
  omega

/-- The header lies in the first 32 bytes. -/
theorem readInfoTableHeader_take {data : List UInt8} {k : Nat} (hk : 32 ≤ k) :
    readInfoTableHeader (data.take k) = readInfoTableHeader data := by
  have hsame : (data.take k).take k = data.take k := by
    rw [List.take_take, Nat.min_self]
  have hword : ∀ off, off + 4 ≤ k → wordAt (data.take k) off = wordAt data off := by
    intro off hoff
    rw [wordAt, wordAt, readAt_congr_of_take hsame hoff]
  simp only [readInfoTableHeader, readHeader]
  rw [hword 0 (by omega), hword 4 (by omega), hword 8 (by omega), hword 12 (by omega),
    hword 16 (by omega), hword 20 (by omega), hword 24 (by omega), hword 28 (by omega)]

/-- The bytes are an info table with the given contents, in the eyes of the loader. -/
structure Legible (nld : LowerDevice) (data : List UInt8) (writeCount : Nat)
    (states : BlockStates) : Prop where
  length : data.length = nld.infoTableSize
  header : nmbmCheckInfoTableHeader nld data = true
  checksum : nmbmCheckHeader data nld.infoTableSize = true
  writeCount : (readInfoTableHeader data).writeCount = writeCount
  stateOff : (readInfoTableHeader data).stateTableOff = nld.stateTableOff
  mappingOff : (readInfoTableHeader data).mappingTableOff = nld.mappingTableOff
  states : readStates data nld.stateTableOff nld.stateTableSize = states

section Cached

variable {ni : NmbmInstance} {states : BlockStates}

theorem Cached.partsFit (h : Cached nld ni states) (hf : nld.Fits) (hs : Shape nld ni) :
    PartsFit nld { ni with blockState := states } ni.infoTable := by
  have hs' : Shape nld { ni with blockState := states } := hs.congr h.length rfl rfl
  exact hs'.partsFit hf rfl rfl

theorem Cached.headerInRange (h : Cached nld ni states) (hf : nld.Fits) (hs : Shape nld ni) :
    HeaderInRange ni.infoTable := by
  have hstate := hf.state_le
  have hmapping := hf.mapping_le
  have hsize := hf.size_lt
  refine ⟨?_, ?_, hs.writeCount, ?_, ?_⟩
  · rw [h.magic]
    decide
  · rw [h.size]
    exact hsize
  · rw [hs.stateOff]
    omega
  · rw [hs.mappingOff]
    omega

/-- A cache that was generated is legible. -/
theorem Cached.legible (h : Cached nld ni states) (hf : nld.Fits) (hs : Shape nld ni) :
    Legible nld ni.infoTableCache ni.infoTable.writeCount states := by
  have hfit := h.partsFit hf hs
  obtain ⟨hmagic, hsize, hcount, hstate, hmapping⟩ :=
    readInfoTableHeader_tableBytes hfit (h.headerInRange hf hs)
  have hstateLe := hf.state_le
  have hmappingLe := hf.mapping_le
  have hsizeLt := hf.size_lt
  rw [h.bytes]
  refine ⟨length_tableBytes hfit, ?_,
    nmbmCheckHeader_tableBytes hfit (h.headerInRange hf hs) h.size, hcount,
    hstate.trans hs.stateOff, hmapping.trans hs.mappingOff, ?_⟩
  · have hgap : ¬ u32Sub nld.mappingTableOff nld.stateTableOff < nld.stateTableSize := by
      rw [u32Sub_of_le (by omega) (by omega)]
      omega
    have hrest : ¬ u32Sub nld.infoTableSize nld.mappingTableOff < nld.mappingTableSize := by
      rw [u32Sub_of_le (by omega) (by omega)]
      omega
    simp only [nmbmCheckInfoTableHeader, hmagic, hsize, hstate, hmapping, h.magic, h.size,
      hs.stateOff, hs.mappingOff, ne_eq, not_true_eq_false, if_false, if_neg hgap, if_neg hrest]
  · have hread := readStates_tableBytes hfit
    have hstates : 4 * states.length = nld.stateTableSize := by
      rw [h.length]
      exact hs.states
    rw [hstates, hs.stateOff] at hread
    exact hread

/-- Entries are read back as signed 32-bit numbers. -/
theorem Cached.readMapping (h : Cached nld ni states) (hf : nld.Fits) (hs : Shape nld ni)
    (hrange : ∀ pb ∈ ni.blockMapping, -(2 ^ 31) ≤ pb ∧ pb < 2 ^ 31) :
    Nmbm.readMapping ni.infoTableCache nld.mappingTableOff nld.mappingTableSize =
      ni.blockMapping := by
  have hread := readMapping_tableBytes (h.partsFit hf hs) hrange
  rw [h.bytes, ← hs.mappingOff, ← hs.mapping]
  exact hread

end Cached

/-- Entries that are in place pass. -/
theorem checkMapping_isSome {dataBlockCount endBa signatureBa : Nat} :
    ∀ (entries : List Int) (minimum : Nat),
      (∀ pb ∈ entries, ¬ ((dataBlockCount ≤ wordOf 4 pb ∧ wordOf 4 pb < endBa) ∨
        wordOf 4 pb = signatureBa)) →
      ∃ top, checkMapping dataBlockCount endBa signatureBa entries minimum = some top := by
  intro entries
  induction entries with
  | nil =>
      intro minimum _
      exact ⟨minimum, rfl⟩
  | cons pb rest ih =>
      intro minimum h
      rw [checkMapping, if_neg (h pb List.mem_cons_self)]
      exact ih _ (fun pb' hpb' => h pb' (List.mem_cons_of_mem _ hpb'))

/-- A legible table in adjacent blocks is loaded, if it calls its blocks good and no entry of its
mapping is out of place. -/
theorem nmbmTryLoadInfoTable_stored (hr : Readable nld) {data : List UInt8} {s writeCount : Nat}
    {states : BlockStates}
    (h : Adjacent nld w data s (nld.size2blk nld.infoTableSize))
    (hblocks : 0 < nld.size2blk nld.infoTableSize)
    (hblock : 32 ≤ nld.erasesize)
    (hlegible : Legible nld data writeCount states)
    (hcache : nld.writesize ≤ w.ni.pageCache.length)
    (hmapping : ∀ pb ∈ (readMapping data nld.mappingTableOff nld.mappingTableSize).take
      w.ni.dataBlockCount, ¬ ((w.ni.dataBlockCount ≤ wordOf 4 pb ∧
        wordOf 4 pb < s + nld.size2blk nld.infoTableSize) ∨ wordOf 4 pb = w.ni.signatureBa))
    (hstates : ∀ b, s ≤ b → b < s + nld.size2blk nld.infoTableSize →
      nmbmGetBlockStateRaw states b = blockStGood) :
    wp (nmbmTryLoadInfoTable s false) nld (fun r w' =>
      (∃ found, r = some found ∧ found.endBa = s + nld.size2blk nld.infoTableSize ∧
        found.writeCount = writeCount) ∧
      w'.ni.blockState = states ∧
      w'.ni.blockMapping = readMapping data nld.mappingTableOff nld.mappingTableSize) w := by
  have hheader : nmbmCheckInfoTableHeader nld (data.take nld.erasesize) = true := by
    have hsame : nmbmCheckInfoTableHeader nld (data.take nld.erasesize) =
        nmbmCheckInfoTableHeader nld data := by
      simp only [nmbmCheckInfoTableHeader, readInfoTableHeader_take hblock]
    rw [hsame, hlegible.header]
  have hloop := tryLoadLoop_stored hr _ s data [] none w h hcache (fun _ => hheader)
  rw [hlegible.length] at hloop
  simp only [nmbmTryLoadInfoTable, wp_bind, wp_ask]
  refine wp_mono hloop ?_
  rintro _ w₁ ⟨h₁, rfl⟩
  obtain ⟨pc, hni, -⟩ := h₁.ni
  obtain ⟨top, htop⟩ := checkMapping_isSome _ w.ni.signatureBa hmapping
  have hgood : (List.range' s (s + nld.size2blk nld.infoTableSize - s)).all (fun ba =>
      decide (nmbmGetBlockState w.ni ba ≠ blockStGood) ||
        decide (nmbmGetBlockStateRaw states ba = blockStGood)) = true := by
    rw [List.all_eq_true]
    intro b hb
    rw [List.mem_range'_1] at hb
    rw [hstates b (by omega) (by omega)]
    simp
  have hcheck : nmbmCheckInfoTable nld { w₁.ni with infoTableCache := data } s
      (s + nld.size2blk nld.infoTableSize) data = some (u32Sub top 1) := by
    rw [hni]
    simp only [nmbmCheckInfoTable, hlegible.mappingOff, hlegible.stateOff, hlegible.states]
    rw [htop]
    exact if_pos hgood
  simp only [List.nil_append, Option.getD_none, if_neg hblocks.ne', wp_bind, wp_modifyNi,
    hlegible.checksum, Bool.true_eq_false, if_false, wp_get, hcheck, true_or, if_true, wp_pure]
  refine ⟨⟨_, rfl, rfl, hlegible.writeCount⟩, ?_, ?_⟩
  · rw [hlegible.stateOff]
    exact hlegible.states
  · rw [hlegible.mappingOff]

/-! ## Writing and loading -/

/-- An instance before it loads a table, with what the signature says. -/
structure FreshOn (nld : LowerDevice) (flash : Flash) (mgmtStartPb signatureBa : Nat) (w : World) :
    Prop where
  flash : w.chip.flash = flash
  states : w.ni.blockState = (nmbmInitStructure nld).blockState
  count : w.ni.dataBlockCount = mgmtStartPb
  signature : w.ni.signatureBa = signatureBa
  cache : nld.rawpageSize ≤ w.ni.pageCache.length

/-- The table in {lit}`[s, e)` is loaded with its write count and contents. -/
structure LoadsTable (nld : LowerDevice) (w : World) (s e writeCount : Nat) (states : BlockStates)
    (blockMapping : List Int) : Prop where
  found : ∃ found, (nmbmTryLoadInfoTable s false nld w).1 = some found ∧ found.endBa = e ∧
    found.writeCount = writeCount
  states : (nmbmTryLoadInfoTable s false nld w).2.ni.blockState = states
  mapping : (nmbmTryLoadInfoTable s false nld w).2.ni.blockMapping = blockMapping

/-- No logic block below {lit}`mgmtStartPb` is sent into {lit}`[mgmtStartPb, e)` or to the
signature. -/
def Apart (ni : NmbmInstance) (mgmtStartPb e signatureBa : Nat) : Prop :=
  ∀ lb, lb < mgmtStartPb →
    ¬ ((mgmtStartPb : Int) ≤ ni.entry lb ∧ ni.entry lb < e) ∧ ni.entry lb ≠ signatureBa

/-- As unsigned words the entries are apart too: dropped entries are large. -/
theorem Apart.words {ni : NmbmInstance} {mgmtStartPb e signatureBa : Nat}
    (h : Apart ni mgmtStartPb e signatureBa)
    (hrange : ∀ pb ∈ ni.blockMapping, -(2 ^ 31) ≤ pb ∧ pb < 2 ^ 31)
    (he : e ≤ 2 ^ 31)
    (hsignature : signatureBa < 2 ^ 31) :
    ∀ pb ∈ ni.blockMapping.take mgmtStartPb,
      ¬ ((mgmtStartPb ≤ wordOf 4 pb ∧ wordOf 4 pb < e) ∨ wordOf 4 pb = signatureBa) := by
  intro pb hpb
  obtain ⟨lb, hlt, heq⟩ := List.mem_take_iff_getElem.mp hpb
  have hentry : ni.entry lb = pb := by
    rw [NmbmInstance.entry, List.getD_eq_getElem?_getD, List.getElem?_eq_getElem (by omega), heq]
    rfl
  obtain ⟨hout, hne⟩ := h lb (by omega)
  rw [hentry] at hout hne
  obtain ⟨hlo, hhi⟩ := hrange pb (List.mem_of_mem_take hpb)
  have hword : (wordOf 4 pb : Int) = pb % 2 ^ 32 := by
    rw [wordOf, Int.toNat_of_nonneg (Int.emod_nonneg _ (by decide))]
    rfl
  omega

section Written

variable {fates : Fates} {ba limit s e mgmtStartPb signatureBa : Nat} {states : BlockStates}
  {bs : List Nat}

/-- A table has as many chunks as the loader looks at blocks. -/
theorem WrittenRange.blocks (h : WrittenRange nld w w' w.ni.infoTableCache ba limit none s e bs)
    (hf : nld.Fits)
    (hlocal : nld.fates.PageLocal)
    (hlength : w.ni.infoTableCache.length = nld.infoTableSize) :
    bs.length = nld.size2blk nld.infoTableSize := by
  rw [(h.placed.stored hlocal).length hf.erasesize_pos, size2blk_eq hf, hlength]

/-- Blocks of a written table are blocks of the chip. -/
theorem WrittenRange.lt_states (h : WrittenRange nld w w' w.ni.infoTableCache ba limit none s e bs)
    {b : Nat} (hb : b ∈ bs) : b / 16 < w'.ni.blockState.length :=
  lt_length_of_good (h.placed.good b hb)

/-- The end of a table that spans more blocks than it has chunks is never reported. -/
theorem not_loadsTable (h : WrittenRange nld w w' w.ni.infoTableCache ba limit none s e bs)
    (hblocks : bs.length = nld.size2blk nld.infoTableSize)
    (hdata : w.ni.infoTableCache ≠ [])
    (hskips : startedSkips w'.events ≠ startedSkips w.events)
    (hmore : startedSkips w.events ≤ startedSkips w'.events)
    {writeCount : Nat} {blockMapping : List Int} :
    ¬ LoadsTable { nld with fates } w₂ s e writeCount states blockMapping := by
  rintro ⟨⟨found, hfound, hend, -⟩, -, -⟩
  have hext : s + bs.length + startedSkips w'.events = e + startedSkips w.events :=
    h.extent (.inl hdata)
  have hwp : wp (nmbmTryLoadInfoTable s false) { nld with fates } (fun r _ =>
      ∀ found, r = some found → found.endBa ≤ s + nld.size2blk nld.infoTableSize) w₂ := by
    simp only [nmbmTryLoadInfoTable, wp_bind, wp_ask]
    refine wp_mono (tryLoadLoop_end _ _ _ _ _ _ w₂) ?_
    intro r w₃ hr
    cases r with
    | none =>
        rintro found ⟨⟩
    | some t =>
        obtain ⟨data, startBa, endBa⟩ := t
        have hle := hr _ rfl
        simp only [wp_bind, wp_modifyNi, wp_ite, wp_pure, wp_get]
        refine ⟨?_, fun _ => ?_⟩
        · rintro - found ⟨⟩
        · split
          · rintro found ⟨⟩
          · simp only [wp_bind, wp_ite, wp_modifyNi, wp_pure]
            constructor
            · rintro - found ⟨⟩
              exact hle
            · rintro - found ⟨⟩
              exact hle
  have hle := hwp found hfound
  omega

/-- A table in adjacent blocks is loaded by a fresh instance. -/
theorem loadsTable (h : WrittenRange nld w w' w.ni.infoTableCache ba limit none s e bs)
    (hreg : nld.Regular)
    (hblock : 32 ≤ nld.erasesize)
    (hlocal : nld.fates.PageLocal)
    (hcached : Cached nld w.ni states)
    (hshape : Shape nld w.ni)
    (hlength : w'.ni.blockState.length = w.ni.blockState.length)
    (hstates : ∀ b, nmbmGetBlockState w'.ni b = blockStGood → nmbmGetBlockState w.ni b = blockStGood)
    (hrange : ∀ pb ∈ w.ni.blockMapping, -(2 ^ 31) ≤ pb ∧ pb < 2 ^ 31)
    (hsignature : signatureBa < nld.blockCount)
    (hapart : Apart w.ni mgmtStartPb e signatureBa)
    (hfresh : FreshOn nld w'.chip.flash mgmtStartPb signatureBa w₂)
    (hread : Readable { nld with fates })
    (hspare : nld.hasIsBadBlock = false → ∀ b, s ≤ b → b < e →
      nmbmGetBlockState w'.ni b = blockStGood → w'.chip.flash.cells b 0 nld.writesize = 0xff)
    (hskips : startedSkips w'.events = startedSkips w.events) :
    LoadsTable { nld with fates } w₂ s e w.ni.infoTable.writeCount states w.ni.blockMapping := by
  have hf := hreg.fits
  have hlegible := hcached.legible hf hshape
  have hmapping := hcached.readMapping hf hshape hrange
  have hblocks := h.blocks hf hlocal hlegible.length
  have hdata : w.ni.infoTableCache ≠ [] := by
    rw [hcached.bytes]
    exact tableBytes_ne_nil _ _ _
  obtain ⟨hend, hbs⟩ := h.adjacent hdata hskips
  rw [hblocks] at hend hbs
  have hmem : ∀ b, s ≤ b → b < s + nld.size2blk nld.infoTableSize → b ∈ bs := by
    intro b hlo hhi
    rw [hbs, List.mem_range'_1]
    exact ⟨hlo, hhi⟩
  have hpos : 0 < nld.size2blk nld.infoTableSize := by
    rw [← hblocks]
    exact List.length_pos_of_ne_nil (h.placed.nonempty hdata)
  have hcount : w'.ni.blockState.length * 4 = nld.stateTableSize := by
    rw [hlength, Nat.mul_comm]
    exact hshape.states
  have hlt : ∀ b ∈ bs, b / 16 < nld.stateTableSize / 4 := by
    intro b hb
    have := h.lt_states hb
    omega
  have hsmall := hreg.sizes_lt
  have he : e ≤ 2 ^ 31 := by
    have hlast := hlt (s + nld.size2blk nld.infoTableSize - 1) (hmem _ (by omega) (by omega))
    rw [hf.stateSize] at hlast
    omega
  have hadjacent : Adjacent { nld with fates } w₂ w.ni.infoTableCache s
      (nld.size2blk nld.infoTableSize) := by
    refine ⟨?_, fun b hlo hhi => ?_, fun b hlo hhi => ?_⟩
    · rw [hfresh.flash, ← hbs]
      exact (h.placed.stored hlocal).withFates fates
    · rw [nmbmGetBlockState, hfresh.states]
      exact nmbmGetBlockStateRaw_replicate (hlt b (hmem b hlo hhi))
    · rw [hfresh.flash]
      have hb := hmem b hlo hhi
      cases hcall : nld.hasIsBadBlock with
      | true => simp [markedBad, h.placed.unmarked hcall b hb]
      | false => simp [markedBad, hspare hcall b hlo (by omega) (h.placed.good b hb)]
  have hlegible' : Legible { nld with fates } w.ni.infoTableCache _ states :=
    ⟨hlegible.length, hlegible.header, hlegible.checksum, hlegible.writeCount, hlegible.stateOff,
      hlegible.mappingOff, hlegible.states⟩
  have hload := nmbmTryLoadInfoTable_stored hread hadjacent hpos hblock hlegible'
    ((Nat.le_add_right _ _).trans hfresh.cache) ?_ ?_
  · obtain ⟨⟨found, hfound, hfoundEnd, hfoundCount⟩, hstate', hmap'⟩ := hload
    exact ⟨⟨found, hfound, hfoundEnd.trans hend.symm, hfoundCount⟩, hstate', hmap'.trans hmapping⟩
  · have hwords := hapart.words hrange he (by omega)
    rw [hfresh.count, hfresh.signature]
    rw [hend, ← hmapping] at hwords
    exact hwords
  · intro b hlo hhi
    exact hcached.good b (hstates b (h.placed.good b (hmem b hlo hhi)))

end Written

/-- A written table is loaded by a fresh instance exactly if no block was passed over behind its
first chunk. -/
theorem written_loads_iff (nld : LowerDevice) (fates : Fates) (w w' w₂ : World)
    (ba limit s e mgmtStartPb signatureBa : Nat) (states : BlockStates)
    (hreg : nld.Regular)
    (hblock : 32 ≤ nld.erasesize)
    (hlocal : nld.fates.PageLocal)
    (hcached : Cached nld w.ni states)
    (hshape : Shape nld w.ni)
    (hrange : ∀ pb ∈ w.ni.blockMapping, -(2 ^ 31) ≤ pb ∧ pb < 2 ^ 31)
    (hwrite : nmbmWriteInfoTable ba limit nld w = (some (s, e), w'))
    (hsignature : signatureBa < nld.blockCount)
    (hapart : Apart w.ni mgmtStartPb e signatureBa)
    (hfresh : FreshOn nld w'.chip.flash mgmtStartPb signatureBa w₂)
    (hread : Readable { nld with fates })
    (hspare : nld.hasIsBadBlock = false → ∀ b, s ≤ b → b < e →
      nmbmGetBlockState w'.ni b = blockStGood → w'.chip.flash.cells b 0 nld.writesize = 0xff) :
    LoadsTable { nld with fates } w₂ s e w.ni.infoTable.writeCount states w.ni.blockMapping ↔
      startedSkips w'.events = startedSkips w.events := by
  have hf := hreg.fits
  have hspec := nmbmWriteInfoTable_spec nld hf.writesize_pos ba limit w
  rw [wp, hwrite] at hspec
  obtain ⟨hmgmt, hwritten⟩ := hspec
  obtain ⟨bs, h⟩ := hwritten s e rfl
  have hblocks := h.blocks hf hlocal (hcached.legible hf hshape).length
  have hdata : w.ni.infoTableCache ≠ [] := by
    rw [hcached.bytes]
    exact tableBytes_ne_nil _ _ _
  constructor
  · intro hload
    by_contra hskips
    obtain ⟨es, hevents, -⟩ := hmgmt.events
    have hmore : startedSkips w.events ≤ startedSkips w'.events := by
      rw [hevents, startedSkips, startedSkips, List.countP_append]
      exact Nat.le_add_left _ _
    exact not_loadsTable h hblocks hdata hskips hmore hload
  · refine loadsTable h hreg hblock hlocal hcached hshape hmgmt.length ?_ hrange hsignature hapart
      hfresh hread hspare
    intro b hb
    rcases hmgmt.state b with heq | ⟨-, hgood, -⟩
    · rw [← heq]
      exact hb
    · exact hgood

/-! ## Tables of two chunks -/

/-- Sixteen blocks of two pages, whose info table takes two blocks. -/
def tinyChip : LowerDevice where
  maxRatio := 8
  maxReservedBlocks := 0
  create := true
  emptyPageEccOk := false
  readOnly := false
  size := 1024
  erasesize := 64
  writesize := 32
  oobsize := 16
  hasIsBadBlock := true
  hasMarkBadBlock := true
  fates := fun _ _ => ⟨0, .done⟩

/-- A blank chip with the given bad blocks and an instance that maps eight logic blocks. -/
def tinyWorld (bad : List Nat) : World :=
  { freshWorld tinyChip ⟨fun _ => blankBlock, fun b => decide (b ∈ bad)⟩ with
    ni :=
      { nmbmInitStructure tinyChip with
        blockMapping := (List.range 8).map Int.ofNat ++ List.replicate 8 (-1) } }

/-- The instance with its cache generated. -/
def tinyCached (bad : List Nat) : World :=
  (nmbmGenerateInfoTableCache tinyChip (tinyWorld bad)).2

/-- A fresh instance with the signature in the last block. -/
def tinyLoader (flash : Flash) : World :=
  { freshWorld tinyChip flash with
    ni := { nmbmInitStructure tinyChip with dataBlockCount := 8, signatureBa := 15 } }

theorem regular_tinyChip : tinyChip.Regular := by
  constructor
  · rfl
  all_goals decide

theorem pageLocal_tinyChip : tinyChip.fates.PageLocal := by
  intro t change h
  cases h

theorem cached_tinyCached (bad : List Nat) :
    Cached tinyChip (tinyCached bad).ni (nmbmInitStructure tinyChip).blockState := by
  obtain ⟨-, hdr, hgen⟩ := nmbmGenerateInfoTableCache_spec tinyChip (tinyWorld bad)
  exact hgen.cached

theorem shape_tinyCached (bad : List Nat) : Shape tinyChip (tinyCached bad).ni :=
  ⟨rfl, rfl, rfl, rfl, Nat.two_pow_pos 32⟩

theorem mapping_tinyCached (bad : List Nat) : (tinyCached bad).ni.blockMapping =
    (List.range 8).map Int.ofNat ++ List.replicate 8 (-1) :=
  rfl

theorem apart_tinyCached (bad : List Nat) (e : Nat) : Apart (tinyCached bad).ni 8 e 15 := by
  have hentry : ∀ lb, lb < 8 →
      ((List.range 8).map Int.ofNat ++ List.replicate 8 (-1)).getD lb (-1) < 8 := by
    decide
  intro lb hlb
  have hlt := hentry lb hlb
  rw [NmbmInstance.entry, mapping_tinyCached]
  omega

theorem freshOn_tinyLoader (flash : Flash) : FreshOn tinyChip flash 8 15 (tinyLoader flash) :=
  ⟨rfl, rfl, rfl, rfl, le_refl 48⟩

theorem readable_tinyChip : Readable { tinyChip with fates := tinyChip.fates } :=
  ⟨by decide, by decide, fun _ => le_refl 0, fun _ => rfl⟩

/-- Without bad blocks the table is loaded again. -/
theorem written_loads_tiny : ∃ w', nmbmWriteInfoTable 8 14 tinyChip (tinyCached []) =
      (some (8, 10), w') ∧
    LoadsTable { tinyChip with fates := tinyChip.fates } (tinyLoader w'.chip.flash) 8 10
      (tinyCached []).ni.infoTable.writeCount (nmbmInitStructure tinyChip).blockState
      (tinyCached []).ni.blockMapping := by
  have hrange : ∀ pb ∈ (tinyCached []).ni.blockMapping, -(2 ^ 31) ≤ pb ∧ pb < 2 ^ 31 := by
    rw [mapping_tinyCached]
    decide
  have hresult : (nmbmWriteInfoTable 8 14 tinyChip (tinyCached [])).1 = some (8, 10) := by
    decide +kernel
  have hskips : startedSkips (nmbmWriteInfoTable 8 14 tinyChip (tinyCached [])).2.events =
      startedSkips (tinyCached []).events := by
    decide +kernel
  have hwrite : nmbmWriteInfoTable 8 14 tinyChip (tinyCached []) =
      (some (8, 10), (nmbmWriteInfoTable 8 14 tinyChip (tinyCached [])).2) := by
    rw [← hresult]
  refine ⟨_, hwrite, ?_⟩
  apply (written_loads_iff tinyChip tinyChip.fates (tinyCached []) _ _ 8 14 8 10 8 15 _
    regular_tinyChip (by decide) pageLocal_tinyChip (cached_tinyCached [])
    (shape_tinyCached []) hrange hwrite (by decide) (apart_tinyCached [] 10)
    (freshOn_tinyLoader _) readable_tinyChip (fun h => by cases h)).mpr
  exact hskips

/-- The second chunk lies behind a bad block, and the table is not loaded. -/
theorem written_not_loaded : ∃ w', nmbmWriteInfoTable 8 14 tinyChip (tinyCached [9]) =
      (some (8, 11), w') ∧
    tinyChip.Regular ∧ 32 ≤ tinyChip.erasesize ∧ tinyChip.fates.PageLocal ∧
    Cached tinyChip (tinyCached [9]).ni (nmbmInitStructure tinyChip).blockState ∧
    Shape tinyChip (tinyCached [9]).ni ∧
    Apart (tinyCached [9]).ni 8 11 15 ∧
    FreshOn tinyChip w'.chip.flash 8 15 (tinyLoader w'.chip.flash) ∧
    Readable { tinyChip with fates := tinyChip.fates } ∧
    ¬ LoadsTable { tinyChip with fates := tinyChip.fates } (tinyLoader w'.chip.flash) 8 11
      (tinyCached [9]).ni.infoTable.writeCount (nmbmInitStructure tinyChip).blockState
      (tinyCached [9]).ni.blockMapping := by
  have hresult : (nmbmWriteInfoTable 8 14 tinyChip (tinyCached [9])).1 = some (8, 11) := by
    decide +kernel
  have hload : (nmbmTryLoadInfoTable 8 false tinyChip (tinyLoader
      (nmbmWriteInfoTable 8 14 tinyChip (tinyCached [9])).2.chip.flash)).1 = none := by
    decide +kernel
  have hwrite : nmbmWriteInfoTable 8 14 tinyChip (tinyCached [9]) =
      (some (8, 11), (nmbmWriteInfoTable 8 14 tinyChip (tinyCached [9])).2) := by
    rw [← hresult]
  refine ⟨_, hwrite, regular_tinyChip, by decide, pageLocal_tinyChip,
    cached_tinyCached [9], shape_tinyCached [9], apart_tinyCached [9] 11, freshOn_tinyLoader _,
    readable_tinyChip, ?_⟩
  rintro ⟨⟨found, hfound, -⟩, -, -⟩
  rw [hload] at hfound
  cases hfound

end Nmbm
end ZyxelRouter
