import ZyxelRouter.Nmbm.Creation

/-!
# NMBM: healthy chips

On a chip whose operations all do their job, a table goes to the first good block of its
range and no block is retired.  What the manager computes on such a chip is known exactly, up
to the page cache.

Main results:

- Theorem {lit}`blank_unsigned`: no signature is found on a blank chip, healthy or not.
- Theorem {lit}`healthy_writeInfoTable`: where a table is written.
- Theorem {lit}`healthy_attach`: what {lit}`nmbm_attach` makes of a blank chip.
-/

namespace ZyxelRouter
namespace Nmbm

open Lib Lib.Prog

variable {S T : Set Nat} {w w' w'' : World} {nld : LowerDevice} {ba page : Nat}

/-! ## Healthy operations -/

/-- A writable device with its own bad-block check, on which from now on every operation does
its job. -/
structure Healthy (nld : LowerDevice) (w : World) : Prop where
  writesize_pos : 0 < nld.writesize
  writable : nld.readOnly = false
  checks : nld.hasIsBadBlock = true
  fates : ∀ t, w.chip.clock ≤ t → ∀ kind, nld.fates t kind = ⟨0, .done⟩

/-- A decision that goes with nothing going wrong. -/
def Event.Sane : Event → Prop
  | .tableSkip _ _ => False
  | .map topGood => topGood = true
  | .clean inSync => inSync = true
  | .unmap changed => changed = true
  | .rebuildFailed => False
  | _ => True

/-- The instance became {lit}`ni` up to its page cache, no bad-block mark changed and nothing
went wrong. -/
structure Smooth (ni : NmbmInstance) (w w' : World) : Prop where
  ni : ∃ pageCache, w'.ni = { ni with pageCache }
  marks : w'.chip.flash.marks = w.chip.flash.marks
  clock : w.chip.clock ≤ w'.chip.clock
  log : ∀ e ∈ w'.events, e ∈ w.events ∨ e.Sane

theorem Smooth.refl (w : World) : Smooth w.ni w w :=
  ⟨⟨_, rfl⟩, rfl, le_refl _, fun _ => .inl⟩

/-- What comes next, whatever it makes of the instance. -/
theorem Smooth.after {ni ni' : NmbmInstance} (h : Smooth ni w w') (h' : Smooth ni' w' w'') :
    Smooth ni' w w'' := by
  refine ⟨h'.ni, h'.marks.trans h.marks, h.clock.trans h'.clock, ?_⟩
  intro e he
  rcases h'.log e he with hold | hsane
  · exact h.log e hold
  · exact .inr hsane

theorem Smooth.congr {ni v : NmbmInstance} (h : Smooth ni w w')
    (hni : ∃ pageCache, ni = { v with pageCache }) : Smooth v w w' := by
  obtain ⟨pc, rfl⟩ := hni
  exact ⟨h.ni, h.marks, h.clock, h.log⟩

theorem Smooth.trans {ni : NmbmInstance} (h : Smooth ni w w') (h' : Smooth w'.ni w' w'') :
    Smooth ni w w'' :=
  (h.after h').congr h.ni

/-- A change of the instance that has nothing to do with the page cache. -/
theorem Smooth.modify {ni : NmbmInstance} (h : Smooth ni w w')
    (f : NmbmInstance → NmbmInstance)
    (hf : ∀ pageCache, f { ni with pageCache } = { f ni with pageCache }) :
    Smooth (f ni) w { w' with ni := f w'.ni } := by
  obtain ⟨pc, hpc⟩ := h.ni
  exact ⟨⟨pc, by rw [hpc]; exact hf pc⟩, h.marks, h.clock, h.log⟩

theorem Smooth.event {ni : NmbmInstance} (h : Smooth ni w w') {e : Event} (he : e.Sane) :
    Smooth ni w { w' with events := e :: w'.events } := by
  refine ⟨h.ni, h.marks, h.clock, fun e' he' => ?_⟩
  rcases List.mem_cons.mp he' with rfl | hold
  · exact .inr he
  · exact h.log e' hold

theorem Smooth.pageCache {ni : NmbmInstance} (h : Smooth ni w w') (pageCache : List UInt8) :
    Smooth ni w { w' with ni := { w'.ni with pageCache } } := by
  obtain ⟨pc, hpc⟩ := h.ni
  exact ⟨⟨pageCache, by rw [hpc]⟩, h.marks, h.clock, h.log⟩

theorem Healthy.smooth {ni : NmbmInstance} (h : Healthy nld w) (hs : Smooth ni w w') :
    Healthy nld w' :=
  ⟨h.writesize_pos, h.writable, h.checks, fun t ht => h.fates t (hs.clock.trans ht)⟩

theorem Smooth.state {ni : NmbmInstance} (h : Smooth ni w w') (b : Nat) :
    nmbmGetBlockState w'.ni b = nmbmGetBlockState ni b := by
  obtain ⟨pc, hni⟩ := h.ni
  rw [hni]
  rfl

theorem healthy_readPhysPage (h : Healthy nld w) (ba page : Nat) :
    wp (nmbmReadPhysPage ba page) nld (fun r w' =>
      r = (0, w.chip.flash.cells ba page) ∧ Smooth w.ni w w') w := by
  have hfate := h.fates _ (le_refl _) .read
  have hread : Chip.readPage nld.fates ba page w.chip =
      ((0, w.chip.flash.cells ba page), { w.chip with clock := w.chip.clock + 1 }) := by
    simp only [Chip.readPage, hfate]
  simp only [nmbmReadPhysPage, nmbmTryCount, readTries, wp_bind, wp_lower, hread, wp_ite, wp_pure]
  exact ⟨fun _ => ⟨trivial, ⟨_, rfl⟩, rfl, Nat.le_succ _, fun _ => .inl⟩, fun hneg => absurd (le_refl _) hneg⟩

theorem healthy_writePhysPage (h : Healthy nld w) (ba page : Nat)
    (data oob : Option (List UInt8)) :
    wp (nmbmWritePhysPage ba page data oob) nld (fun ok w' =>
      ok = true ∧ Smooth w.ni w w' ∧
        ∀ col, w'.chip.flash.cells ba page col =
          (columnsOf nld data oob col).getD (w.chip.flash.cells ba page col)) w := by
  have hfate := h.fates _ (le_refl _) .write
  have hro : ¬ nld.readOnly = true := by simp [h.writable]
  simp only [nmbmWritePhysPage, nmbmTryCount, writeTries, wp_bind, wp_ask, if_neg hro, wp_lower,
    Chip.writePage, hfate, if_true, wp_pure]
  refine ⟨trivial, ⟨⟨_, rfl⟩, rfl, Nat.le_succ _, fun _ => .inl⟩, fun col => ?_⟩
  simp only [Chip.advance, Chip.setBlock, Function.update_self]

theorem healthy_checkErasedPages (ba : Nat) :
    ∀ (n page : Nat) (w : World),
      Healthy nld w →
      wp (checkErasedPages ba n page) nld (fun ok w' => ok = true ∧ Smooth w.ni w w') w := by
  intro n
  induction n with
  | zero =>
      intro page w _
      exact ⟨rfl, Smooth.refl w⟩
  | succ n ih =>
      intro page w h
      simp only [checkErasedPages, wp_bind, wp_ask, wp_setPageCache, wp_ite, wp_pure]
      refine wp_mono (healthy_readPhysPage h ba page) ?_
      rintro _ w₁ ⟨rfl, h₁⟩
      refine ⟨fun heq => by simp [eBadMsg] at heq, fun _ => ?_⟩
      have h₂ := h₁.pageCache (writeAt w₁.ni.pageCache 0 (mainArea nld (w.chip.flash.cells ba page)))
      refine wp_mono (ih (page + 1) _ (h.smooth h₂)) ?_
      rintro ok w₃ ⟨hok, h₃⟩
      exact ⟨hok, h₂.trans h₃⟩

theorem healthy_eraseBlock (h : Healthy nld w) (ba : Nat) :
    wp (nmbmEraseBlockAndCheck ba) nld (fun ok w' => ok = true ∧ Smooth w.ni w w') w := by
  have hfate := h.fates _ (le_refl _) .erase
  have hro : ¬ nld.readOnly = true := by simp [h.writable]
  simp only [nmbmEraseBlockAndCheck, nmbmErasePhysBlock, nmbmTryCount, eraseTries, wp_bind, wp_ask,
    if_neg hro, wp_lower, Chip.eraseBlock, hfate, if_true, wp_pure, Bool.not_true,
    Bool.false_eq_true, if_false]
  generalize hw₁ : World.mk _ _ _ = w₁
  have h₁ : Smooth w.ni w w₁ := by
    rw [← hw₁]
    exact ⟨⟨_, rfl⟩, rfl, Nat.le_succ _, fun _ => .inl⟩
  rw [wp_ite]
  refine ⟨fun _ => ⟨rfl, h₁⟩, fun _ => ?_⟩
  refine wp_mono (healthy_checkErasedPages ba _ 0 w₁ (h.smooth h₁)) ?_
  rintro ok w₂ ⟨hok, h₂⟩
  exact ⟨hok, h₁.trans h₂⟩

theorem healthy_checkBadPhysBlock (h : Healthy nld w) (ba : Nat) :
    wp (nmbmCheckBadPhysBlock ba) nld (fun bad w' =>
      bad = w.chip.flash.marks ba ∧ Smooth w.ni w w') w := by
  have hfate := h.fates _ (le_refl _) .check
  simp only [nmbmCheckBadPhysBlock, wp_bind, wp_ask, h.checks, if_true, wp_lower, Chip.isBadBlock,
    hfate]
  exact ⟨trivial, ⟨_, rfl⟩, rfl, Nat.le_succ _, fun _ => .inl⟩

/-! ## Verified writing -/

/-- The first bytes of a page that was programmed from a buffer are those of the buffer. -/
theorem take_mainArea_programmed {columns : Page} {data buf : List UInt8} {old : Page}
    (hcols : ∀ col, columns col = (columnsOf nld (some (buf.take nld.writesize)) none col).getD
      (old col))
    (hlen : data.length ≤ nld.writesize)
    (hstart : data <+: buf) :
    (mainArea nld columns).take data.length = data := by
  obtain ⟨rest, rfl⟩ := hstart
  apply List.ext_getElem?
  intro i
  by_cases hi : i < data.length
  · have hget : ((data ++ rest).take nld.writesize)[i]? = data[i]? := by
      rw [List.getElem?_take_of_lt (by omega), List.getElem?_append_left hi]
    rw [List.getElem?_take_of_lt hi, mainArea, List.getElem?_map, List.getElem?_range (by omega),
      Option.map_some, hcols, columnsOf, if_pos (by omega)]
    simp only [Option.bind_some, hget, List.getElem?_eq_getElem hi, Option.getD_some]
  · rw [List.getElem?_eq_none (by rw [List.length_take]; omega),
      List.getElem?_eq_none (by omega)]

/-- What is copied to the start of a buffer is a prefix of it. -/
theorem prefix_writeAt_zero (buf data : List UInt8) : data <+: writeAt buf 0 data := by
  rw [writeAt, List.take_zero, List.nil_append]
  exact List.prefix_append _ _

/-- Data that is written is verified. -/
theorem healthy_writeVerifyLoop (ba : Nat) :
    ∀ (fuel page : Nat) (data : List UInt8) (w : World),
      Healthy nld w →
      wp (writeVerifyLoop ba fuel page data) nld (fun ok w' =>
        ok = true ∧ Smooth w.ni w w') w := by
  intro fuel
  induction fuel with
  | zero =>
      intro page data w _
      exact ⟨rfl, Smooth.refl w⟩
  | succ fuel ih =>
      intro page data w h
      simp only [writeVerifyLoop, wp_bind, wp_ask, wp_ite, wp_pure, wp_setPageCache, wp_get]
      refine ⟨fun _ => ⟨trivial, Smooth.refl w⟩, fun _ => ?_⟩
      have hcache := fun pageCache => (Smooth.refl w).pageCache pageCache
      refine wp_mono (healthy_writePhysPage (h.smooth (hcache _)) ba page _ _) ?_
      rintro _ w₁ ⟨rfl, h₁, hcols⟩
      refine ⟨fun hfalse => absurd hfalse (by decide), fun _ => ?_⟩
      have hw₁ := (hcache _).trans h₁
      refine wp_mono (healthy_readPhysPage (h.smooth hw₁) ba page) ?_
      rintro _ w₂ ⟨rfl, h₂⟩
      have hw₂ := hw₁.trans h₂
      refine ⟨fun hneg => absurd hneg (lt_irrefl _), fun _ => ⟨fun hdiff => ?_, fun _ => ?_⟩⟩
      · have hlen : (data.take nld.writesize).length ≤ nld.writesize := by
          rw [List.length_take]
          exact Nat.min_le_left _ _
        exact absurd (take_mainArea_programmed hcols hlen (prefix_writeAt_zero _ _)) hdiff
      · have hw₃ := hw₂.pageCache
          (writeAt w₂.ni.pageCache 0 (mainArea nld (w₁.chip.flash.cells ba page)))
        refine wp_mono (ih (page + 1) _ _ (h.smooth hw₃)) ?_
        rintro ok w₄ ⟨hok, h₄⟩
        exact ⟨hok, hw₃.trans h₄⟩

/-! ## Tables -/

/-- Good blocks are not marked bad. -/
def Truthful (w : World) : Prop :=
  ∀ b, nmbmGetBlockState w.ni b = blockStGood → w.chip.flash.marks b = false

theorem Truthful.smooth {ni : NmbmInstance} (ht : Truthful w) (h : Smooth ni w w')
    (hni : ni.blockState = w.ni.blockState) : Truthful w' := by
  intro b hb
  rw [h.marks]
  apply ht b
  rw [h.state, nmbmGetBlockState, hni] at hb
  exact hb

theorem healthy_writeMgmtBlock (h : Healthy nld w) (ht : Truthful w) (chunk : List UInt8)
    (hgood : nmbmGetBlockState w.ni ba = blockStGood) :
    wp (writeMgmtBlock ba chunk) nld (fun ok w' => ok = true ∧ Smooth w.ni w w') w := by
  simp only [writeMgmtBlock, nmbnWriteVerifyData, wp_bind, wp_get, wp_ite, wp_pure, wp_logEvent]
  refine ⟨fun hbad => absurd hgood hbad, fun _ => ?_⟩
  refine wp_mono (healthy_checkBadPhysBlock h ba) ?_
  rintro _ w₁ ⟨rfl, h₁⟩
  rw [ht ba hgood]
  refine ⟨fun hfalse => absurd hfalse (by decide), fun _ => ?_⟩
  have h₂ := h₁.event (e := .tableErase ba w₁.ni.blockMapping w₁.ni.dataBlockCount) trivial
  refine wp_mono (healthy_eraseBlock (h.smooth h₂) ba) ?_
  rintro _ w₃ ⟨rfl, h₃⟩
  have hw₃ := h₂.trans h₃
  refine ⟨fun _ => ?_, fun hno => absurd rfl hno⟩
  refine wp_mono (healthy_writeVerifyLoop ba _ 0 chunk w₃ (h.smooth hw₃)) ?_
  rintro _ w₄ ⟨rfl, h₄⟩
  exact ⟨fun hfalse => absurd hfalse (by decide), fun _ => ⟨rfl, hw₃.trans h₄⟩⟩

/-- A table of one block goes to the first block of its range, if that is good. -/
theorem healthy_writeInfoTable {limit : Nat} (h : Healthy nld w) (ht : Truthful w)
    (hgood : nmbmGetBlockState w.ni ba = blockStGood)
    (hlt : ba < limit)
    (hcache : w.ni.infoTableCache ≠ [])
    (hone : w.ni.infoTableCache.length ≤ nld.erasesize) :
    wp (nmbmWriteInfoTable ba limit) nld (fun r w' =>
      r = some (ba, ba + 1) ∧ Smooth w.ni w w') w := by
  obtain ⟨n, hn⟩ : ∃ n, limit - ba = n + 1 := ⟨limit - ba - 1, by omega⟩
  have hlen : w.ni.infoTableCache.length ≠ 0 := by simpa using hcache
  have hdrop : w.ni.infoTableCache.drop nld.erasesize = [] := List.drop_eq_nil_of_le hone
  have hrest : ∀ (n : Nat) (w₁ : World), Smooth w.ni w w₁ →
      wp (writeMgmtLoop n (ba + 1) [] (some ba)) nld (fun r w' =>
        r = some (ba, ba + 1) ∧ Smooth w.ni w w') w₁ := by
    intro n w₁ h₁
    cases n <;> exact ⟨rfl, h₁⟩
  simp only [nmbmWriteInfoTable, wp_bind, wp_get, hn, writeMgmtLoop, if_neg hlen, wp_ask]
  refine wp_mono (healthy_writeMgmtBlock h ht _ hgood) ?_
  rintro _ w₁ ⟨rfl, h₁⟩
  rw [if_pos rfl, hdrop]
  exact hrest n w₁ h₁

theorem healthy_eraseRange :
    ∀ (n ba : Nat) (w : World),
      Healthy nld w →
      Truthful w →
      wp (nmbmEraseRange n ba) nld (fun _ w' => Smooth w.ni w w') w := by
  intro n
  induction n with
  | zero =>
      intro ba w _ _
      exact Smooth.refl w
  | succ n ih =>
      intro ba w h ht
      have hrest : ∀ w₁, Smooth w.ni w w₁ →
          wp (nmbmEraseRange n (ba + 1)) nld (fun _ w' => Smooth w.ni w w') w₁ := by
        intro w₁ h₁
        refine wp_mono (ih (ba + 1) w₁ (h.smooth h₁) (ht.smooth h₁ rfl)) ?_
        intro _ w₂ h₂
        exact h₁.trans h₂
      simp only [nmbmEraseRange, wp_bind, wp_get, wp_ite, wp_logEvent]
      refine ⟨fun hgood => ?_, fun _ => hrest w (Smooth.refl w)⟩
      refine wp_mono (healthy_checkBadPhysBlock h ba) ?_
      rintro _ w₁ ⟨rfl, h₁⟩
      rw [ht ba hgood]
      refine ⟨fun hfalse => absurd hfalse (by decide), fun _ => ?_⟩
      have h₂ := h₁.event (e := .tableErase ba w₁.ni.blockMapping w₁.ni.dataBlockCount) trivial
      refine wp_mono (healthy_eraseBlock (h.smooth h₂) ba) ?_
      rintro _ w₃ ⟨rfl, h₃⟩
      exact ⟨fun hfalse => absurd hfalse (by decide), fun _ => hrest w₃ (h₂.trans h₃)⟩

/-! ## Rebuilding -/

/-- The walk over good blocks. -/
theorem walkAsc_good {ni : NmbmInstance} :
    ∀ (k n ba : Nat),
      k < n →
      (∀ i, i ≤ k → nmbmGetBlockState ni (ba + i) = blockStGood) →
      walkAsc ni n ba k = some (ba + k) := by
  intro k
  induction k with
  | zero =>
      intro n ba hn hgood
      obtain ⟨m, rfl⟩ := Nat.exists_eq_succ_of_ne_zero (by omega : n ≠ 0)
      have hba := hgood 0 (le_refl _)
      rw [Nat.add_zero] at hba
      simp [walkAsc, hba]
  | succ k ih =>
      intro n ba hn hgood
      obtain ⟨m, rfl⟩ := Nat.exists_eq_succ_of_ne_zero (by omega : n ≠ 0)
      have hba := hgood 0 (Nat.zero_le _)
      rw [Nat.add_zero] at hba
      have hnext := ih m (ba + 1) (by omega) (fun i hi => by
        have := hgood (i + 1) (by omega)
        rwa [Nat.add_assoc, Nat.add_comm 1 i])
      have hsub : ((k + 1 : Nat) : Int) - 1 = k := by omega
      simp only [walkAsc, hba, if_true, hsub]
      rw [if_neg (by omega), hnext]
      congr 1
      omega

/-- Spare blocks are reserved in front of the next table. -/
theorem reserveSpare_good {ni : NmbmInstance} (hspare : nld.infoTableSpareBlocks = 2)
    (hgood : ∀ i, i ≤ 2 → nmbmGetBlockState ni (ba + i) = blockStGood)
    (hroom : ba + 2 < reserveLimit nld ni)
    (hlimit : reserveLimit nld ni < nld.blockCount) :
    reserveSpare nld ni ba = some (ba + 2) := by
  have hwalk := walkAsc_good 2 (reserveLimit nld ni - ba) ba (by omega) hgood
  have htwo : signedOf 4 (u32 2) = ((2 : Nat) : Int) := by decide
  rw [reserveSpare, hspare]
  simp only [nmbmTryReserveBlocks, nmbmBlockWalk, nmbmBlockWalkAsc, if_true, htwo,
    Nat.not_lt_zero, if_false, if_neg (not_le.mpr hlimit), hwalk]

/-- The cache is a table of the tables in memory and fills one block at most. -/
structure Ripe (nld : LowerDevice) (ni : NmbmInstance) : Prop where
  nonempty : ni.infoTableCache ≠ []
  one : ni.infoTableCache.length ≤ nld.erasesize
  inSync : cacheInSync nld ni = true

theorem Smooth.clean {ni : NmbmInstance} (h : Smooth ni w w') (hc : Ripe nld ni)
    {Q : Unit → World → Prop}
    (hQ : ∀ w'', Smooth { ni with blockStateChanged := 0, blockMappingChanged := 0 } w w'' →
      Q () w'') :
    wp nmbmMarkTablesClean nld Q w' := by
  have hsync : (Event.clean (cacheInSync nld w'.ni)).Sane := by
    obtain ⟨pc, hni⟩ := h.ni
    rw [hni]
    exact hc.inSync
  simp only [nmbmMarkTablesClean, wp_bind, wp_ask, wp_logEvent, wp_modifyNi]
  exact hQ _ ((h.event hsync).modify
    (fun ni => { ni with blockStateChanged := 0, blockMappingChanged := 0 }) (fun _ => rfl))

/-- The new tables of a rebuilt area: the first at its start, the second behind two spare
blocks. -/
theorem healthy_rebuild (h : Healthy nld w) (ht : Truthful w) (hc : Ripe nld w.ni)
    (hspare : nld.infoTableSpareBlocks = 2)
    (hgood : ∀ i, i ≤ 3 → nmbmGetBlockState w.ni (w.ni.mgmtStartBa + i) = blockStGood)
    (hroom : w.ni.mgmtStartBa + 3 < reserveLimit nld w.ni)
    (hlimit : reserveLimit nld w.ni < nld.blockCount)
    (htop : w.ni.mgmtStartBa + 3 < w.ni.mappingBlocksTopBa) :
    wp nmbmRebuildInfoTable nld (fun ok w' => ok = true ∧
      Smooth { w.ni with
        mainTableBa := w.ni.mgmtStartBa
        backupTableBa := w.ni.mgmtStartBa + 3
        mappingBlocksBa := w.ni.mgmtStartBa + 4
        blockStateChanged := 0
        blockMappingChanged := 0 } w w') w := by
  simp only [nmbmRebuildInfoTable, wp_bind, wp_ask, wp_get, wp_modifyNi]
  have h₁ := (Smooth.refl w).modify (fun ni =>
    { ni with mainTableBa := 0, backupTableBa := 0, mappingBlocksBa := ni.mappingBlocksTopBa })
    (fun _ => rfl)
  generalize hw₁ : World.mk _ w.chip w.events = w₁ at h₁ ⊢
  have hni₁ : w₁.ni = { w.ni with
      mainTableBa := 0, backupTableBa := 0, mappingBlocksBa := w.ni.mappingBlocksTopBa } := by
    rw [← hw₁]
  have hgood₁ : nmbmGetBlockState w₁.ni w.ni.mgmtStartBa = blockStGood := by
    rw [hni₁]
    exact hgood 0 (by omega)
  have hcache₁ : w₁.ni.infoTableCache = w.ni.infoTableCache := by rw [hni₁]
  refine wp_mono (healthy_writeInfoTable (h.smooth h₁) (ht.smooth h₁ rfl) hgood₁ (by omega)
    (hcache₁ ▸ hc.nonempty) (hcache₁ ▸ hc.one)) ?_
  rintro _ w₂ ⟨rfl, h₂⟩
  have hw₂ := (h₁.trans h₂).modify (fun ni =>
    { ni with
      mainTableBa := w.ni.mgmtStartBa
      mappingBlocksBa := w.ni.mgmtStartBa + 1 }) (fun _ => rfl)
  simp only [wp_bind, wp_modifyNi]
  refine hw₂.clean ⟨hc.nonempty, hc.one, hc.inSync⟩ (fun w₃ h₃ => ?_)
  obtain ⟨pc, hni₃⟩ := h₃.ni
  have hstate₃ : ∀ b, nmbmGetBlockState w₃.ni b = nmbmGetBlockState w.ni b := by
    intro b
    rw [hni₃]
    rfl
  have hres : reserveSpare nld w₃.ni (w.ni.mgmtStartBa + 1) = some (w.ni.mgmtStartBa + 3) := by
    have hsame : reserveLimit nld w₃.ni = reserveLimit nld w.ni := by rw [hni₃]; rfl
    refine reserveSpare_good hspare (fun i hi => ?_) (by omega) (by omega)
    rw [hstate₃, Nat.add_assoc]
    exact hgood (1 + i) (by omega)
  rw [wp_get, hres]
  simp only [rebuildBackup, wp_bind, wp_get]
  have hgood₃ : nmbmGetBlockState w₃.ni (w.ni.mgmtStartBa + 3) = blockStGood := by
    rw [hstate₃]
    exact hgood 3 (le_refl _)
  have htop₃ : w.ni.mgmtStartBa + 3 < w₃.ni.mappingBlocksTopBa := by rw [hni₃]; exact htop
  have hcache₃ : w₃.ni.infoTableCache = w.ni.infoTableCache := by rw [hni₃]
  refine wp_mono (healthy_writeInfoTable (h.smooth h₃) (ht.smooth h₃ rfl) hgood₃ htop₃
    (hcache₃ ▸ hc.nonempty) (hcache₃ ▸ hc.one)) ?_
  rintro _ w₄ ⟨rfl, h₄⟩
  have hw₄ := (h₃.trans h₄).modify (fun ni =>
    { ni with
      backupTableBa := w.ni.mgmtStartBa + 3
      mappingBlocksBa := w.ni.mgmtStartBa + 3 + 1 }) (fun _ => rfl)
  simp only [wp_bind, wp_modifyNi]
  refine wp_mono (healthy_eraseRange _ _ _ (h.smooth hw₄) (ht.smooth hw₄ rfl)) ?_
  intro _ w₅ h₅
  exact ⟨rfl, hw₄.trans h₅⟩

/-! ## Creating -/

/-- A table is generated. -/
theorem Smooth.generate {ni : NmbmInstance} (h : Smooth ni w w') (hf : nld.Fits)
    (hs : Shape nld ni)
    (hone : nld.infoTableSize ≤ nld.erasesize)
    {Q : Bool → World → Prop}
    (hQ : ∀ changed w'' hdr,
      (changed = true ↔ ni.blockStateChanged ≠ 0 ∨ ni.blockMappingChanged ≠ 0) →
      Smooth { ni with infoTable := hdr, infoTableCache := tableBytes nld ni hdr } w w'' →
      Ripe nld { ni with infoTable := hdr, infoTableCache := tableBytes nld ni hdr } →
      Shape nld { ni with infoTable := hdr, infoTableCache := tableBytes nld ni hdr } →
      Q changed w'') :
    wp nmbmGenerateInfoTableCache nld Q w' := by
  obtain ⟨pc, hni⟩ := h.ni
  refine wp_mono (nmbmGenerateInfoTableCache_spec nld w') ?_
  rintro changed w₁ ⟨hiff, hdr, hgen⟩
  have hoff : hdr.stateTableOff = ni.infoTable.stateTableOff := by rw [hgen.stateOff, hni]
  have hoff' : hdr.mappingTableOff = ni.infoTable.mappingTableOff := by rw [hgen.mappingOff, hni]
  have hfit := hs.partsFit hf hoff hoff'
  rw [hni] at hiff
  refine hQ changed w₁ hdr hiff ⟨⟨pc, ?_⟩, ?_, ?_, fun e he => ?_⟩ ⟨?_, ?_, ?_⟩ ?_
  · rw [hgen.ni, hni]
    rfl
  · rw [hgen.chip, h.marks]
  · rw [hgen.chip]
    exact h.clock
  · rw [hgen.events] at he
    rcases List.mem_cons.mp he with rfl | hold
    · exact .inr trivial
    · exact h.log e hold
  · exact tableBytes_ne_nil nld ni hdr
  · exact (length_tableBytes hfit).trans_le hone
  · exact cacheInSync_tableBytes hs hf hoff hoff'
  · have hcount := hgen.writeCount
    rw [hni] at hcount
    exact ⟨hs.states, hs.mapping, hoff.trans hs.stateOff, hoff'.trans hs.mappingOff,
      hcount hs.writeCount⟩

/-- Factory bad blocks are put on record. -/
theorem healthy_scanBadblocks :
    ∀ (n ba : Nat) (w : World),
      Healthy nld w →
      (∀ b, b < ba + n → b / 16 < w.ni.blockState.length) →
      wp (nmbmScanBadblocks n ba) nld (fun _ w' => ∃ blockState blockStateChanged,
        Smooth { w.ni with blockState, blockStateChanged } w w' ∧
          blockState.length = w.ni.blockState.length ∧
          ∀ b, nmbmGetBlockStateRaw blockState b =
            if (ba ≤ b ∧ b < ba + n) ∧ w.chip.flash.marks b = true then blockStBad
            else nmbmGetBlockState w.ni b) w := by
  intro n
  induction n with
  | zero =>
      intro ba w _ _
      refine ⟨_, _, Smooth.refl w, rfl, fun b => ?_⟩
      rw [if_neg (by omega)]
      rfl
  | succ n ih =>
      intro ba w h hlen
      simp only [nmbmScanBadblocks, wp_bind, wp_ite]
      refine wp_mono (healthy_checkBadPhysBlock h ba) ?_
      rintro _ w₁ ⟨rfl, h₁⟩
      refine ⟨fun hbad => ?_, fun hgood => ?_⟩
      · simp only [nmbmSetBlockState, wp_modifyNi]
        have h₂ := h₁.modify (fun ni =>
          { ni with
            blockState := setBlockStateRaw ni.blockState ba blockStBad
            blockStateChanged :=
              if nmbmGetBlockState ni ba ≠ blockStBad &&& blockStMask then ni.blockStateChanged + 1
              else ni.blockStateChanged }) (fun _ => rfl)
        obtain ⟨pc, hni⟩ := h₁.ni
        have hlen₂ : (setBlockStateRaw w₁.ni.blockState ba blockStBad).length =
            w.ni.blockState.length := by
          rw [length_setBlockStateRaw, hni]
        refine wp_mono (ih (ba + 1) _ (h.smooth h₂) (fun b hb => ?_)) ?_
        · rw [hlen₂]
          exact hlen b (by omega)
        · rintro _ w₃ ⟨st, k, h₃, hlen₃, hst⟩
          refine ⟨st, k, (h₂.after h₃).congr ⟨pc, by rw [hni]⟩, hlen₃.trans hlen₂, fun b => ?_⟩
          · have hset : nmbmGetBlockStateRaw
                (setBlockStateRaw w₁.ni.blockState ba blockStBad) b =
                if ba = b then blockStBad else nmbmGetBlockState w.ni b := by
              rw [nmbmGetBlockStateRaw_set _ _ (by rw [hni]; exact hlen ba (by omega)), hni]
              rfl
            rw [hst b]
            show (if _ ∧ w₁.chip.flash.marks b = true then _ else nmbmGetBlockStateRaw
              (setBlockStateRaw w₁.ni.blockState ba blockStBad) b) = _
            rw [h₁.marks, hset]
            by_cases hb : ba = b
            · subst hb
              rw [if_neg (by omega), if_pos rfl, if_pos ⟨by omega, hbad⟩]
            · rw [if_neg hb]
              exact if_congr (and_congr_left fun _ => by omega) rfl rfl
      · obtain ⟨pc, hni⟩ := h₁.ni
        refine wp_mono (ih (ba + 1) w₁ (h.smooth h₁) (fun b hb => ?_)) ?_
        · rw [hni]
          exact hlen b (by omega)
        · rintro _ w₃ ⟨st, k, h₃, hlen₃, hst⟩
          refine ⟨st, k, (h₁.after h₃).congr ⟨pc, by rw [hni]⟩, ?_, fun b => ?_⟩
          · rw [hlen₃, hni]
          · have hba : w.chip.flash.marks b = true → b ≠ ba := by
              rintro hmark rfl
              exact hgood hmark
            rw [hst b, h₁.marks, h₁.state]
            exact if_congr (and_congr_left fun hmark => by have := hba hmark; omega) rfl rfl

/-- Repeated data is verified on every page. -/
theorem healthy_writeRepeatedLoop {data : List UInt8} (hlen : data.length ≤ nld.writesize)
    (ba : Nat) :
    ∀ (n page : Nat) (w : World),
      Healthy nld w →
      wp (writeRepeatedLoop ba data n page) nld (fun ok w' => ok = true ∧ Smooth w.ni w w') w := by
  intro n
  induction n with
  | zero =>
      intro page w _
      exact ⟨rfl, Smooth.refl w⟩
  | succ n ih =>
      intro page w h
      simp only [writeRepeatedLoop, wp_bind, wp_ask, wp_ite, wp_pure, wp_setPageCache, wp_get]
      have hcache := fun pageCache => (Smooth.refl w).pageCache pageCache
      refine wp_mono (healthy_writePhysPage (h.smooth (hcache _)) ba page _ _) ?_
      rintro _ w₁ ⟨rfl, h₁, hcols⟩
      refine ⟨fun hfalse => absurd hfalse (by decide), fun _ => ?_⟩
      have hw₁ := (hcache _).trans h₁
      refine wp_mono (healthy_readPhysPage (h.smooth hw₁) ba page) ?_
      rintro _ w₂ ⟨rfl, h₂⟩
      have hw₂ := hw₁.trans h₂
      refine ⟨fun hneg => absurd hneg (lt_irrefl _), fun _ => ⟨fun hdiff => ?_, fun _ => ?_⟩⟩
      · have hstart := (List.prefix_append data _).trans (prefix_writeAt_zero w.ni.pageCache
          (data ++ List.replicate (nld.rawpageSize - data.length) 0xff))
        exact absurd (take_mainArea_programmed hcols hlen hstart) hdiff
      · have hw₃ := hw₂.pageCache
          (writeAt w₂.ni.pageCache 0 (mainArea nld (w₁.chip.flash.cells ba page)))
        refine wp_mono (ih (page + 1) _ (h.smooth hw₃)) ?_
        rintro ok w₄ ⟨hok, h₄⟩
        exact ⟨hok, hw₃.trans h₄⟩

/-- The signature goes to the first block tried, if that is good. -/
theorem healthy_writeSignature {signature : List UInt8} {n : Nat} (h : Healthy nld w)
    (ht : Truthful w)
    (hlen : signature.length ≤ nld.writesize)
    (hgood : nmbmGetBlockState w.ni ba = blockStGood) :
    wp (nmbmWriteSignature signature (n + 1) ba) nld (fun r w' =>
      r = some ba ∧ Smooth w.ni w w') w := by
  simp only [nmbmWriteSignature, writeSignatureBlock, nmbmWriteRepeatedData, wp_bind, wp_get,
    wp_ite, wp_ask, wp_pure]
  refine ⟨fun hbad => absurd hgood hbad, fun _ => ?_⟩
  refine wp_mono (healthy_checkBadPhysBlock h ba) ?_
  rintro _ w₁ ⟨rfl, h₁⟩
  rw [ht ba hgood]
  refine ⟨fun hfalse => absurd hfalse (by decide), fun _ => ?_⟩
  refine wp_mono (healthy_eraseBlock (h.smooth h₁) ba) ?_
  rintro _ w₂ ⟨rfl, h₂⟩
  have hw₂ := h₁.trans h₂
  refine ⟨fun _ => ⟨fun hlt => absurd hlen (not_le.mpr hlt), fun _ => ?_⟩,
    fun hno => absurd rfl hno⟩
  refine wp_mono (healthy_writeRepeatedLoop hlen ba _ 0 w₂ (h.smooth hw₂)) ?_
  rintro _ w₃ ⟨rfl, h₃⟩
  exact ⟨fun _ => ⟨trivial, hw₂.trans h₃⟩, fun hno => absurd rfl hno⟩

/-- A device whose table fills one block, with room for two tables and spare blocks. -/
structure Roomy (nld : LowerDevice) : Prop where
  fits : nld.Fits
  one : nld.infoTableSize ≤ nld.erasesize
  blocks : nld.size2blk nld.infoTableSize = 1
  spare : nld.infoTableSpareBlocks = 2
  signature : signatureSize ≤ nld.writesize
  room : mgmtStart nld + 6 < nld.blockCount

/-- The factory marks leave the ends of the management area usable. -/
structure Usable (nld : LowerDevice) (marks : Nat → Bool) : Prop where
  outside : ∀ b, nld.blockCount ≤ b → marks b = false
  tables : ∀ i, i ≤ 3 → marks (mgmtStart nld + i) = false
  last : marks (nld.blockCount - 1) = false
  top : marks (nld.blockCount - 2) = false

/-- The area that was made, before logic blocks are mapped into it. -/
structure NewArea (nld : LowerDevice) (marks : Nat → Bool) (w : World) : Prop where
  healthy : Healthy nld w
  flash : w.chip.flash.marks = marks
  truthful : Truthful w
  state : ∀ b, b < nld.blockCount →
    nmbmGetBlockState w.ni b = if marks b = true then blockStBad else blockStGood
  mgmt : w.ni.mgmtStartBa = mgmtStart nld
  signature : w.ni.signatureBa = nld.blockCount - 1
  top : w.ni.mappingBlocksTopBa = nld.blockCount - 2
  main : w.ni.mainTableBa = mgmtStart nld
  backup : w.ni.backupTableBa = mgmtStart nld + 3
  mb : w.ni.mappingBlocksBa = mgmtStart nld + 4
  mapping : w.ni.blockMapping =
    ((List.range (mgmtStart nld)).filter (fun pb => marks pb = false)).map Int.ofNat ++
      List.replicate (nld.blockCount - w.ni.dataBlockCount) (-1)
  count : w.ni.dataBlockCount =
    ((List.range (mgmtStart nld)).filter (fun pb => marks pb = false)).length
  clean : Clean w.ni
  unprotected : w.ni.isProtected = false
  ripe : Ripe nld w.ni
  shape : Shape nld w.ni
  log : ∀ e ∈ w.events, e.Sane

/-- The blocks of a fresh instance are good. -/
theorem getBlockState_init (hf : nld.Fits) {b : Nat} (hb : b < nld.blockCount) :
    nmbmGetBlockState (nmbmInitStructure nld) b = blockStGood := by
  have hlen : b / 16 < nld.stateTableSize / 4 := by
    rw [hf.stateSize]
    omega
  exact nmbmGetBlockStateRaw_replicate hlen

theorem length_signatureBytes (signature : Signature) :
    signature.bytes.length = signatureSize := by
  simp [Signature.bytes, length_headerBytes, signatureSize]

/-- The walk from two good blocks down. -/
theorem walkDesc_second {ni : NmbmInstance} {n : Nat} (hn : 1 < n)
    (hgood : nmbmGetBlockState ni ba = blockStGood)
    (hgood' : nmbmGetBlockState ni (ba - 1) = blockStGood) :
    walkDesc ni n ba 1 = some (ba - 1) := by
  obtain ⟨m, rfl⟩ : ∃ m, n = m + 2 := ⟨n - 2, by omega⟩
  simp [walkDesc, hgood, hgood']

/-- The two tables of a new area, before logic blocks are mapped into it. -/
theorem healthy_createInfoTable {Q : Bool → World → Prop} (hr : Roomy nld) (h : Healthy nld w)
    (ht : Truthful w)
    (hs : Shape nld w.ni)
    (hmgmt : w.ni.mgmtStartBa = mgmtStart nld)
    (hsig : w.ni.signatureBa = nld.blockCount - 1)
    (hlast : nmbmGetBlockState w.ni (nld.blockCount - 1) = blockStGood)
    (htop : nmbmGetBlockState w.ni (nld.blockCount - 2) = blockStGood)
    (hgood : ∀ i, i ≤ 3 → nmbmGetBlockState w.ni (mgmtStart nld + i) = blockStGood)
    (hQ : ∀ w₁ hdr cache,
      Smooth { w.ni with
        infoTable := hdr
        infoTableCache := cache
        mappingBlocksTopBa := nld.blockCount - 2
        mainTableBa := mgmtStart nld
        backupTableBa := mgmtStart nld + 3
        mappingBlocksBa := mgmtStart nld + 4
        blockStateChanged := 0
        blockMappingChanged := 0 } w w₁ →
      Ripe nld w₁.ni → Shape nld w₁.ni →
      wp (do
        remapLoop (w₁.ni.mgmtStartBa - w₁.ni.dataBlockCount) w₁.ni.dataBlockCount
        nmbmUpdateInfoTable) nld Q w₁) :
    wp nmbmCreateInfoTable nld Q w := by
  have hroom := hr.room
  have hlt := blockCount_lt nld
  have hwalk : nmbmBlockWalk nld w.ni false w.ni.signatureBa 1 w.ni.mgmtStartBa =
      some (nld.blockCount - 2) := by
    have hone : signedOf 4 (u32 1) = 1 := by decide
    simp only [nmbmBlockWalk, Bool.false_eq_true, if_false, nmbmBlockWalkDesc, hone, hmgmt, hsig]
    rw [if_neg (by omega)]
    exact walkDesc_second (by omega) hlast (by rw [Nat.sub_sub]; exact htop)
  simp only [nmbmCreateInfoTable, wp_bind, wp_ask, wp_get, hwalk, wp_modifyNi]
  have h₁ := (Smooth.refl w).modify
    (fun ni => { ni with mappingBlocksTopBa := nld.blockCount - 2 }) (fun _ => rfl)
  refine h₁.generate hr.fits (hs.congr rfl rfl rfl) hr.one ?_
  intro changed w₂ hdr _ h₂ hripe hshape
  obtain ⟨pc, hni₂⟩ := h₂.ni
  have hlimit : reserveLimit nld w₂.ni = nld.blockCount - 3 := by
    rw [reserveLimit, hr.blocks, hni₂]
    show u32Sub (nld.blockCount - 2) 1 = _
    rw [u32Sub_one (by omega) (by omega)]
    omega
  have hmgmt₂ : w₂.ni.mgmtStartBa = mgmtStart nld := by rw [hni₂]; exact hmgmt
  have htop₂ : w₂.ni.mappingBlocksTopBa = nld.blockCount - 2 := by rw [hni₂]
  have hripe₂ : Ripe nld w₂.ni := by
    rw [hni₂]
    exact ⟨hripe.nonempty, hripe.one, hripe.inSync⟩
  refine wp_mono (healthy_rebuild (h.smooth h₂) (ht.smooth h₂ rfl) hripe₂ hr.spare
    (fun i hi => ?_) (by omega) (by omega) (by omega)) ?_
  · rw [hmgmt₂, h₂.state]
    exact hgood i hi
  · rintro _ w₃ ⟨rfl, h₃⟩
    simp only [Bool.not_true, Bool.false_eq_true, if_false]
    have hw₃ := (h₂.after h₃).congr (v := { w.ni with
        infoTable := hdr
        infoTableCache := tableBytes nld { w.ni with mappingBlocksTopBa := nld.blockCount - 2 } hdr
        mappingBlocksTopBa := nld.blockCount - 2
        mainTableBa := mgmtStart nld
        backupTableBa := mgmtStart nld + 3
        mappingBlocksBa := mgmtStart nld + 4
        blockStateChanged := 0
        blockMappingChanged := 0 }) ⟨pc, by rw [hmgmt₂, hni₂]⟩
    obtain ⟨pc₃, hni₃⟩ := hw₃.ni
    refine hQ w₃ hdr _ hw₃ ?_ ?_
    · rw [hni₃]
      exact ⟨hripe.nonempty, hripe.one, hripe.inSync⟩
    · rw [hni₃]
      exact hshape.congr rfl rfl rfl

/-- If the states say what the marks say, the usable blocks are those without a mark. -/
theorem usableBlocks_of_states {ni : NmbmInstance} {marks : Nat → Bool} {n : Nat}
    (hstate : ∀ b, b < n →
      nmbmGetBlockState ni b = if marks b = true then blockStBad else blockStGood) :
    usableBlocks ni n = (List.range n).filter (fun pb => marks pb = false) := by
  rw [usableBlocks]
  apply List.filter_congr
  intro pb hpb
  rw [hstate pb (List.mem_range.mp hpb)]
  cases marks pb <;> decide

/-- States that say what the marks say are true. -/
theorem truthful_of_states
    (hstate : ∀ b, b < nld.blockCount → nmbmGetBlockState w.ni b =
      if w.chip.flash.marks b = true then blockStBad else blockStGood)
    (houtside : ∀ b, nld.blockCount ≤ b → w.chip.flash.marks b = false) : Truthful w := by
  intro b hb
  by_cases hlt : b < nld.blockCount
  · rw [hstate b hlt] at hb
    split_ifs at hb with hmark
    · exact absurd hb (by decide)
    · simpa using hmark
  · exact houtside b (by omega)

/-- The states found on a chip with these marks. -/
structure Scanned (nld : LowerDevice) (marks : Nat → Bool) (states : BlockStates) : Prop where
  length : 4 * states.length = nld.stateTableSize
  state : ∀ b, b < nld.blockCount →
    nmbmGetBlockStateRaw states b = if marks b = true then blockStBad else blockStGood

/-- The blocks below the management area that have no mark. -/
def unmarkedBlocks (nld : LowerDevice) (marks : Nat → Bool) : List Nat :=
  (List.range (mgmtStart nld)).filter (fun pb => marks pb = false)

theorem length_unmarkedBlocks_le (nld : LowerDevice) (marks : Nat → Bool) :
    (unmarkedBlocks nld marks).length ≤ mgmtStart nld :=
  (List.length_filter_le _ _).trans_eq List.length_range

/-- A new instance whose blocks are scanned and mapped in order. -/
def scannedInstance (nld : LowerDevice) (marks : Nat → Bool) (states : BlockStates) (changed : Nat) :
    NmbmInstance :=
  let blocks := unmarkedBlocks nld marks
  { nmbmInitStructure nld with
    mgmtStartBa := mgmtStart nld
    blockState := states
    blockStateChanged := changed
    blockMapping := blocks.map Int.ofNat ++ List.replicate (nld.blockCount - blocks.length) (-1)
    dataBlockCount := blocks.length
    signature := newSignature nld (mgmtStart nld) }

theorem Scanned.shape {marks : Nat → Bool} {states : BlockStates} (h : Scanned nld marks states)
    (hr : Roomy nld) (changed : Nat) : Shape nld (scannedInstance nld marks states changed) := by
  have hroom := hr.room
  have hle := length_unmarkedBlocks_le nld marks
  refine ⟨h.length, ?_, rfl, rfl, Nat.two_pow_pos 32⟩
  simp only [scannedInstance, List.length_append, List.length_map, List.length_replicate,
    hr.fits.mappingSize]
  omega

/-- The blocks of a blank chip are scanned, and those below the area are mapped. -/
theorem healthy_scan {Q : Bool → World → Prop} (hr : Roomy nld) (h : Healthy nld w)
    (hni : ∃ pageCache, w.ni = { nmbmInitStructure nld with pageCache })
    (hQ : ∀ w' states changed,
      Scanned nld w.chip.flash.marks states →
      Smooth (scannedInstance nld w.chip.flash.marks states changed) w w' →
      wp (nmbmWriteSignature (newSignature nld (mgmtStart nld)).bytes
          (nld.blockCount - 1 - mgmtStart nld) (nld.blockCount - 1) >>= fun
        | none => pure false
        | some ba => do
            modifyNi (fun ni => { ni with signatureBa := ba })
            nmbmCreateInfoTable) nld Q w') :
    wp nmbmCreateNew nld Q w := by
  have hf := hr.fits
  have hroom := hr.room
  have hro : ¬ nld.readOnly = true := by simp [h.writable]
  obtain ⟨pc, hni⟩ := hni
  simp only [nmbmCreateNew, wp_bind, wp_ask, wp_modifyNi]
  have h₀ := (Smooth.refl w).modify
    (fun ni => { ni with mgmtStartBa := mgmtStart nld }) (fun _ => rfl)
  refine wp_mono (healthy_scanBadblocks nld.blockCount 0 _ (h.smooth h₀) (fun b hb => ?_)) ?_
  · rw [hni]
    simp only [nmbmInitStructure, List.length_replicate, hf.stateSize]
    omega
  rintro _ w₁ ⟨states, changed, h₁, hlen, hstates⟩
  have hscanned : Scanned nld w.chip.flash.marks states := by
    refine ⟨?_, fun b hb => ?_⟩
    · rw [hlen, hni]
      show 4 * (List.replicate (nld.stateTableSize / 4) _).length = _
      rw [List.length_replicate, hf.stateSize]
      omega
    · rw [hstates b, hni]
      simp only [Nat.zero_le, Nat.zero_add, hb, and_self, true_and]
      exact if_congr Iff.rfl rfl (getBlockState_init hf hb)
  have husable : ∀ ni : NmbmInstance, ni.blockState = states →
      usableBlocks ni (mgmtStart nld) = unmarkedBlocks nld w.chip.flash.marks := by
    intro ni hblockState
    apply usableBlocks_of_states
    intro pb hpb
    rw [nmbmGetBlockState, hblockState, hscanned.state pb (by omega)]
  have hw₁ := h₀.after h₁
  obtain ⟨pc₁, hni₁⟩ := hw₁.ni
  have hmgmt₁ : w₁.ni.mgmtStartBa = mgmtStart nld := by rw [hni₁]
  simp only [nmbmBuildMappingTable, wp_bind, wp_ask, wp_modifyNi, if_neg hro, wp_get, hmgmt₁]
  refine hQ _ states changed hscanned ⟨⟨pc₁, ?_⟩, hw₁.marks, hw₁.clock, hw₁.log⟩
  rw [hni₁]
  simp only [husable, hni, scannedInstance]

/-- What is left to do once the area of a blank chip is made. -/
theorem healthy_createNew {Q : Bool → World → Prop} (hr : Roomy nld)
    (hu : Usable nld w.chip.flash.marks)
    (h : Healthy nld w)
    (hni : ∃ pageCache, w.ni = { nmbmInitStructure nld with pageCache })
    (hevents : w.events = [])
    (hQ : ∀ w₁, NewArea nld w.chip.flash.marks w₁ →
      wp (do
        remapLoop (w₁.ni.mgmtStartBa - w₁.ni.dataBlockCount) w₁.ni.dataBlockCount
        nmbmUpdateInfoTable) nld Q w₁) :
    wp nmbmCreateNew nld Q w := by
  have hroom := hr.room
  refine healthy_scan hr h hni (fun w₂ states changed hscanned h₂ => ?_)
  obtain ⟨pc₂, hni₂⟩ := h₂.ni
  have hstate₂ : ∀ b, b < nld.blockCount → nmbmGetBlockState w₂.ni b =
      if w.chip.flash.marks b = true then blockStBad else blockStGood := by
    intro b hb
    rw [hni₂]
    exact hscanned.state b hb
  have hgood₂ : ∀ b, b < nld.blockCount → w.chip.flash.marks b = false →
      nmbmGetBlockState w₂.ni b = blockStGood := by
    intro b hb hmark
    rw [hstate₂ b hb, hmark]
    rfl
  have ht₂ : Truthful w₂ := by
    apply truthful_of_states
    · rw [h₂.marks]
      exact hstate₂
    · rw [h₂.marks]
      exact fun b hb => hu.outside b hb
  obtain ⟨n, hn⟩ : ∃ n, nld.blockCount - 1 - mgmtStart nld = n + 1 :=
    ⟨nld.blockCount - 2 - mgmtStart nld, by omega⟩
  have hlen₂ : (newSignature nld (mgmtStart nld)).bytes.length ≤ nld.writesize := by
    rw [length_signatureBytes]
    exact hr.signature
  rw [hn, wp_bind]
  refine wp_mono (healthy_writeSignature (h.smooth h₂) ht₂ hlen₂ (hgood₂ _ (by omega) hu.last)) ?_
  rintro _ w₃ ⟨rfl, h₃⟩
  have hw₃ := (h₂.trans h₃).modify
    (fun ni => { ni with signatureBa := nld.blockCount - 1 }) (fun _ => rfl)
  simp only [wp_bind, wp_modifyNi]
  generalize World.mk _ w₃.chip w₃.events = w₄ at hw₃ ⊢
  obtain ⟨pc₄, hni₄⟩ := hw₃.ni
  have hstate₄ : ∀ b, nmbmGetBlockState w₄.ni b = nmbmGetBlockState w₂.ni b := by
    intro b
    rw [hni₄, hni₂]
    rfl
  have hshape₄ : Shape nld w₄.ni := by
    rw [hni₄]
    exact (hscanned.shape hr changed).congr rfl rfl rfl
  refine healthy_createInfoTable hr (h.smooth hw₃) (fun b hb => ?_) hshape₄ (by rw [hni₄]; rfl)
    (by rw [hni₄]) ?_ ?_ (fun i hi => ?_) ?_
  · rw [hw₃.marks, ← h₂.marks]
    rw [hstate₄] at hb
    exact ht₂ b hb
  · rw [hstate₄]
    exact hgood₂ _ (by omega) hu.last
  · rw [hstate₄]
    exact hgood₂ _ (by omega) hu.top
  · rw [hstate₄]
    exact hgood₂ _ (by omega) (hu.tables i hi)
  · intro w₅ hdr cache h₅ hripe hshape
    have hw₅ := hw₃.after h₅
    obtain ⟨pc₅, hni₅⟩ := hw₅.ni
    have hstate₅ : ∀ b, nmbmGetBlockState w₅.ni b = nmbmGetBlockState w₂.ni b := by
      intro b
      rw [h₅.state, ← hstate₄]
      rfl
    refine hQ w₅ ⟨h.smooth hw₅, hw₅.marks, fun b hb => ?_, fun b hb => ?_, ?_, ?_, ?_, ?_, ?_, ?_,
      ?_, ?_, ?_, ?_, hripe, hshape, fun e he => ?_⟩
    · rw [hw₅.marks, ← h₂.marks]
      rw [hstate₅] at hb
      exact ht₂ b hb
    · rw [hstate₅]
      exact hstate₂ b hb
    · rw [hni₅, hni₄]
      rfl
    · rw [hni₅, hni₄]
    · rw [hni₅]
    · rw [hni₅]
    · rw [hni₅]
    · rw [hni₅]
    · rw [hni₅, hni₄]
      rfl
    · rw [hni₅, hni₄]
      rfl
    · rw [hni₅]
      exact ⟨rfl, rfl⟩
    · rw [hni₅, hni₄]
      rfl
    · rcases hw₅.log e he with hold | hsane
      · rw [hevents] at hold
        cases hold
      · exact hsane

/-! ## Updating -/

/-- Two tables that are in place are rewritten there. -/
theorem healthy_updateInfoTable (hr : Roomy nld) (h : Healthy nld w) (ht : Truthful w)
    (hs : Shape nld w.ni)
    (hprot : w.ni.isProtected = false)
    (hmain : w.ni.mainTableBa ≠ 0)
    (hback : w.ni.mainTableBa < w.ni.backupTableBa)
    (htop : w.ni.backupTableBa < w.ni.mappingBlocksTopBa)
    (hgood : nmbmGetBlockState w.ni w.ni.mainTableBa = blockStGood)
    (hgood' : nmbmGetBlockState w.ni w.ni.backupTableBa = blockStGood) :
    wp nmbmUpdateInfoTable nld (fun ok w' => ok = true ∧ ∃ hdr cache mb,
      Smooth { w.ni with
        infoTable := hdr
        infoTableCache := cache
        mappingBlocksBa := mb
        blockStateChanged := 0
        blockMappingChanged := 0 } w w') w := by
  have hprot' : ¬ w.ni.isProtected = true := by simp [hprot]
  have hback' : w.ni.backupTableBa ≠ 0 := by omega
  simp only [nmbmUpdateInfoTable, wp_bind, wp_ask, wp_get, if_neg hprot', updateLoop]
  by_cases hchanged : w.ni.blockStateChanged ≠ 0 ∨ w.ni.blockMappingChanged ≠ 0
  · simp only [if_pos hchanged, nmbmUpdateInfoTableOnce, wp_bind]
    refine (Smooth.refl w).generate hr.fits hs hr.one ?_
    intro changed w₁ hdr hiff h₁ hripe _
    obtain ⟨pc₁, hni₁⟩ := h₁.ni
    rw [hiff.mpr hchanged]
    have hback₁ : w₁.ni.backupTableBa = w.ni.backupTableBa := by rw [hni₁]
    have htop₁ : w₁.ni.mappingBlocksTopBa = w.ni.mappingBlocksTopBa := by rw [hni₁]
    simp only [Bool.not_true, Bool.false_and, Bool.false_eq_true, if_false, wp_get, hback₁,
      if_neg hback', wp_bind, htop₁]
    have hcache₁ : w₁.ni.infoTableCache ≠ [] ∧
        w₁.ni.infoTableCache.length ≤ nld.erasesize := by
      rw [hni₁]
      exact ⟨hripe.nonempty, hripe.one⟩
    refine wp_mono (healthy_writeInfoTable (h.smooth h₁) (ht.smooth h₁ rfl)
      ((h₁.state _).trans hgood') htop hcache₁.1 hcache₁.2) ?_
    rintro _ w₂ ⟨rfl, h₂⟩
    have hw₂ := (h₁.trans h₂).modify (fun ni =>
      { ni with
        backupTableBa := w.ni.backupTableBa
        mappingBlocksBa := w.ni.backupTableBa + 1 }) (fun _ => rfl)
    simp only [wp_bind, wp_modifyNi]
    refine hw₂.clean ⟨hripe.nonempty, hripe.one, hripe.inSync⟩ (fun w₃ h₃ => ?_)
    obtain ⟨pc₃, hni₃⟩ := h₃.ni
    have hmain₃ : w₃.ni.mainTableBa = w.ni.mainTableBa := by rw [hni₃]
    have hback₃ : w₃.ni.backupTableBa = w.ni.backupTableBa := by rw [hni₃]
    have hcache₃ : w₃.ni.infoTableCache ≠ [] ∧
        w₃.ni.infoTableCache.length ≤ nld.erasesize := by
      rw [hni₃]
      exact ⟨hripe.nonempty, hripe.one⟩
    simp only [writeMainTable, wp_bind, wp_get, hmain₃, if_neg hmain, hback₃, if_neg hback']
    refine wp_mono (healthy_writeInfoTable (h.smooth h₃) (ht.smooth h₃ rfl)
      ((h₃.state _).trans hgood) hback hcache₃.1 hcache₃.2) ?_
    rintro _ w₄ ⟨rfl, h₄⟩
    have hw₄ := (h₃.trans h₄).modify (fun ni =>
      { ni with
        mainTableBa := w.ni.mainTableBa
        mappingBlocksBa :=
          if ni.backupTableBa = 0 then w.ni.mainTableBa + 1 else ni.mappingBlocksBa })
      (fun _ => rfl)
    simp only [wp_bind, wp_modifyNi]
    refine hw₄.clean ⟨hripe.nonempty, hripe.one, hripe.inSync⟩ (fun w₅ h₅ => ?_)
    obtain ⟨pc₅, hni₅⟩ := h₅.ni
    have hclean : ¬ (w₅.ni.blockStateChanged ≠ 0 ∨ w₅.ni.blockMappingChanged ≠ 0) := by
      rw [hni₅]
      simp
    simp only [wp_pure, Bool.not_true, Bool.false_eq_true, if_false, wp_bind, wp_get,
      if_neg hclean]
    exact ⟨trivial, _, _, _, h₅⟩
  · simp only [if_neg hchanged, wp_pure]
    simp only [not_or, not_not] at hchanged
    have heta : w.ni = { w.ni with
        blockStateChanged := w.ni.blockStateChanged
        blockMappingChanged := w.ni.blockMappingChanged } := rfl
    rw [hchanged.1, hchanged.2] at heta
    exact ⟨trivial, w.ni.infoTable, w.ni.infoTableCache, w.ni.mappingBlocksBa,
      (Smooth.refl w).congr ⟨w.ni.pageCache, heta⟩⟩

/-! ## Attaching -/

/-- No page of a blank block holds a signature. -/
theorem blank_findInPages (hws : 0 < nld.writesize) (ba : Nat) :
    ∀ (n page : Nat) (w : World),
      w.chip.flash.cells ba = blankBlock →
      wp (findInPages ba n page) nld (fun r _ => r = none) w := by
  have hblank : ∀ off n, bytesFrom nld blankBlock off n = List.replicate n 0xff := by
    intro off n
    simp [bytesFrom, blankBlock, List.map_const']
  have hcheck : nmbmCheckHeader (List.replicate signatureSize 0xff) signatureSize = false := by
    decide
  intro n
  induction n with
  | zero =>
      intro page w _
      rfl
  | succ n ih =>
      intro page w hcells
      simp only [findInPages, wp_bind, wp_ite, wp_pure]
      refine wp_mono (nmbnReadData_spec hws ba page signatureSize w) ?_
      rintro r w₁ ⟨-, hflash, -, hbytes⟩
      refine ⟨?_, fun _ => ih (page + 1) w₁ (by rw [hflash]; exact hcells)⟩
      rintro ⟨hret, hok, -⟩
      rw [hbytes hret, hcells, hblank, hcheck] at hok
      cases hok

/-- No signature is found on a blank chip. -/
theorem blank_unsigned (hws : 0 < nld.writesize)
    (hcells : ∀ b, w.chip.flash.cells b = blankBlock) :
    (nmbmFindSignature nld w).1 = none := by
  have hloop : ∀ (limit fuel ba : Nat) (w : World), (∀ b, w.chip.flash.cells b = blankBlock) →
      wp (findSignatureLoop limit fuel ba) nld (fun r _ => r.getD none = none) w := by
    intro limit fuel
    induction fuel with
    | zero =>
        intro ba w _
        rfl
    | succ fuel ih =>
        intro ba w hcells
        simp only [findSignatureLoop, wp_bind, wp_ask, wp_ite, wp_pure]
        refine ⟨fun _ => rfl, fun _ => ?_⟩
        refine wp_mono (nmbmCheckBadPhysBlock_spec nld _ w) ?_
        rintro bad w₁ ⟨-, hflash₁, -⟩
        have hcells₁ : ∀ b, w₁.chip.flash.cells b = blankBlock := by
          rw [hflash₁]
          exact hcells
        refine ⟨fun _ => ih _ w₁ hcells₁, fun _ => ?_⟩
        have hnone := blank_findInPages hws (u32Sub ba 1) nld.pagesPerBlock 0 w₁ (hcells₁ _)
        have hframe := findInPages_spec hws (u32Sub ba 1) nld.pagesPerBlock 0 w₁
        rw [wp] at hnone hframe ⊢
        rw [hnone]
        apply ih
        rw [hframe.2]
        exact hcells₁
  have hfind : wp nmbmFindSignature nld (fun r _ => r = none) w := by
    simp only [nmbmFindSignature, wp_bind, wp_ask, wp_pure]
    exact hloop _ _ _ w hcells
  exact hfind

/-- What {lit}`nmbm_attach` makes of a blank chip: it remains to map logic blocks into the new area
and to save the tables. -/
theorem healthy_attach {flash : Flash} {P : World → Prop} (hr : Roomy nld)
    (haccepted : nmbmCheckLowerMembers nld = some nld)
    (hcreate : nld.create = true)
    (h : Healthy nld (freshWorld nld flash))
    (hcells : ∀ b, flash.cells b = blankBlock)
    (hu : Usable nld flash.marks)
    (hP : ∀ w₁, NewArea nld flash.marks w₁ →
      wp (do
        remapLoop (w₁.ni.mgmtStartBa - w₁.ni.dataBlockCount) w₁.ni.dataBlockCount
        nmbmUpdateInfoTable) nld (fun ok w' => ok = true ∧ P w') w₁) :
    ∃ w, CreatedBy nld flash nld w ∧ P w := by
  have hunsigned : (nmbmFindSignature nld (freshWorld nld flash)).1 = none :=
    blank_unsigned h.writesize_pos hcells
  have hrun : wp nmbmAttachDevice nld (fun ret w' => ret = 0 ∧ P w') (freshWorld nld flash) := by
    simp only [nmbmAttachDevice, wp_bind, wp_ask]
    have hfind := nmbmFindSignature_spec h.writesize_pos (freshWorld nld flash)
    rw [wp] at hfind ⊢
    rw [hunsigned]
    obtain ⟨hphys, hflash⟩ := hfind
    generalize (nmbmFindSignature nld (freshWorld nld flash)).2 = w₁ at hphys hflash ⊢
    have hmarks : w₁.chip.flash.marks = flash.marks := by
      rw [hflash]
      rfl
    simp only [hcreate, Bool.not_true, Bool.false_eq_true, if_false, wp_bind, wp_pure]
    have h₁ : Healthy nld w₁ :=
      ⟨h.writesize_pos, h.writable, h.checks, fun t _ => h.fates t (Nat.zero_le t)⟩
    refine wp_mono (healthy_createNew (Q := fun ok w' => ok = true ∧ P w') hr (by rw [hmarks]; exact hu)
      h₁ hphys.ni hphys.events ?_) ?_
    · intro w₂ hnew
      rw [hmarks] at hnew
      exact hP w₂ hnew
    · rintro ok w₂ ⟨rfl, hw⟩
      exact ⟨rfl, hw⟩
  obtain ⟨hret, hw⟩ := hrun
  refine ⟨_, ⟨?_, hunsigned, h.writable⟩, hw⟩
  unfold nmbmAttach
  rw [haccepted]
  exact Prod.ext hret rfl

end Nmbm
end ZyxelRouter
