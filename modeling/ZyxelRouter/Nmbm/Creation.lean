import ZyxelRouter.Nmbm.Calls
import ZyxelRouter.Nmbm.Probe

/-!
# NMBM: a new management area

What {lit}`nmbm_attach` establishes on a chip without a signature, and what every public call
keeps from then on.

Main results:

- Theorem {lit}`CreatedBy.sound`: a new instance is sound.
- Theorem {lit}`Orderly.after`: public calls keep an instance orderly.
- Theorem {lit}`Orderly.reaches`: so do runs of them.
-/

namespace ZyxelRouter
namespace Nmbm

open Lib Lib.Prog

variable {w w' w'' : World} {nld nld' : LowerDevice}

/-! ## Sound instances -/

/-- The invariant of an attached instance. -/
structure Orderly (nld : LowerDevice) (w : World) : Prop where
  pool : Pool nld w.ni
  owned : TopGood w.events → Owned w.ni
  erases : TopGood w.events → ∀ e ∈ w.events, EraseOk e
  shape : nld.Fits → Shape nld w.ni

/-- An orderly instance whose tables are saved. -/
structure Sound (nld : LowerDevice) (w : World) : Prop extends Orderly nld w where
  kept : nld.Fits → Faultless w.events → Kept nld w

/-! ## The mapping of a new chip -/

/-- Logic blocks are mapped below the management area only. -/
structure Fresh (ni : NmbmInstance) : Prop where
  place : ∀ lb, 0 ≤ ni.entry lb → ni.entry lb < ni.mgmtStartBa
  injective : ∀ lb lb', 0 ≤ ni.entry lb → ni.entry lb = ni.entry lb' → lb = lb'

theorem Fresh.owned {ni : NmbmInstance} (h : Fresh ni) : Owned ni :=
  ⟨fun lb hlb => .inl (h.place lb hlb), h.injective⟩

theorem Fresh.congr {ni ni' : NmbmInstance} (h : Fresh ni)
    (hmapping : ni'.blockMapping = ni.blockMapping)
    (hmgmt : ni'.mgmtStartBa = ni.mgmtStartBa) :
    Fresh ni' := by
  have hentry : ∀ lb, ni'.entry lb = ni.entry lb := by
    intro lb
    rw [NmbmInstance.entry, hmapping]
    rfl
  refine ⟨fun lb => ?_, fun lb lb' => ?_⟩
  · rw [hentry, hmgmt]
    exact h.place lb
  · rw [hentry, hentry]
    exact h.injective lb lb'

theorem length_usableBlocks_le (ni : NmbmInstance) (limit : Nat) :
    (usableBlocks ni limit).length ≤ limit := by
  have := List.length_filter_le (fun pb => nmbmGetBlockState ni pb ≠ blockStBad) (List.range limit)
  rwa [List.length_range] at this

/-- The entries of a mapping that {lit}`nmbm_build_mapping_table` makes. -/
theorem getD_built (usable : List Nat) (n lb : Nat) :
    (usable.map Int.ofNat ++ List.replicate n (-1)).getD lb (-1) =
      ((usable[lb]?).map Int.ofNat).getD (-1) := by
  rw [List.getD_eq_getElem?_getD, List.getElem?_append]
  simp only [List.length_map]
  split_ifs with hlt
  · rw [List.getElem?_map]
  · rw [List.getElem?_eq_none (by omega : usable.length ≤ lb), List.getElem?_replicate]
    split_ifs <;> rfl

/-- Different logic blocks of a new chip have different blocks. -/
theorem fresh_built (ni : NmbmInstance) (n : Nat) :
    Fresh { ni with
      blockMapping := (usableBlocks ni ni.mgmtStartBa).map Int.ofNat ++ List.replicate n (-1)
      dataBlockCount := (usableBlocks ni ni.mgmtStartBa).length } := by
  have hnodup : (usableBlocks ni ni.mgmtStartBa).Nodup := List.nodup_range.filter _
  have hentry : ∀ lb : Nat,
      0 ≤ (((usableBlocks ni ni.mgmtStartBa)[lb]?).map Int.ofNat).getD (-1) →
      ∃ pb : Nat, (usableBlocks ni ni.mgmtStartBa)[lb]? = some pb ∧
        (((usableBlocks ni ni.mgmtStartBa)[lb]?).map Int.ofNat).getD (-1) = pb := by
    intro lb hlb
    cases hget : (usableBlocks ni ni.mgmtStartBa)[lb]? with
    | none =>
        rw [hget] at hlb
        simp at hlb
    | some pb => exact ⟨pb, rfl, rfl⟩
  refine ⟨fun lb hlb => ?_, fun lb lb' hlb heq => ?_⟩
  · simp only [NmbmInstance.entry, getD_built] at hlb ⊢
    obtain ⟨pb, hget, hval⟩ := hentry lb hlb
    have hmem := List.mem_of_getElem? hget
    have hlt := List.mem_range.mp (List.mem_of_mem_filter hmem)
    rw [hval]
    exact_mod_cast hlt
  · simp only [NmbmInstance.entry, getD_built] at hlb heq
    obtain ⟨pb, hget, hval⟩ := hentry lb hlb
    obtain ⟨pb', hget', hval'⟩ := hentry lb' (heq ▸ hlb)
    have hpb : pb = pb' := by
      rw [hval, hval'] at heq
      exact_mod_cast heq
    subst hpb
    obtain ⟨hlt, -⟩ := List.getElem?_eq_some_iff.mp hget
    exact (List.getElem?_inj hlt hnodup).mp (hget.trans hget'.symm)

/-! ## The signature -/

theorem writeRepeatedLoop_spec (nld : LowerDevice) (ba : Nat) (data : List UInt8) :
    ∀ (n page : Nat) (w : World),
      wp (writeRepeatedLoop ba data n page) nld (fun _ w' => Programs {ba} w w') w := by
  intro n
  induction n with
  | zero =>
      intro page w
      exact Programs.refl _ w
  | succ n ih =>
      intro page w
      simp only [writeRepeatedLoop, wp_bind, wp_ask, wp_setPageCache, wp_get, wp_ite, wp_pure]
      refine wp_mono (nmbmWritePhysPage_spec nld ba page _ _ _) ?_
      intro success w₁ hwrite
      have h₁ : Programs {ba} w w₁ := (programs_setPageCache {ba} w _).trans hwrite.1
      refine ⟨fun _ => h₁, fun _ => ?_⟩
      refine wp_mono (nmbmReadPhysPage_spec nld ba page w₁) ?_
      intro r w₂ hread
      have h₂ := fun pageCache =>
        (h₁.trans (hread.1.programs {ba})).trans (programs_setPageCache {ba} w₂ pageCache)
      refine ⟨fun _ => h₂ _, fun _ => ⟨fun _ => h₂ _, fun _ => ?_⟩⟩
      exact wp_mono (ih (page + 1) _) (fun _ _ h => (h₂ _).trans h)

theorem writeSignatureBlock_spec (nld : LowerDevice) (ba : Nat) (signature : List UInt8)
    (w : World) :
    wp (writeSignatureBlock ba signature) nld (fun _ w' => Programs {ba} w w') w := by
  simp only [writeSignatureBlock, nmbmWriteRepeatedData, wp_bind, wp_ask, wp_ite, wp_pure]
  refine wp_mono (nmbmEraseBlockAndCheck_spec nld ba w) ?_
  intro erased w₁ h₁
  refine ⟨fun _ => ⟨fun _ => h₁, fun _ => ?_⟩, fun _ => h₁⟩
  exact wp_mono (writeRepeatedLoop_spec nld ba signature _ 0 w₁) (fun _ _ h => h₁.trans h)

/-- The specification of {lit}`nmbm_write_signature`: only good blocks of its range are
erased, written or retired, and the signature is in one of them. -/
theorem nmbmWriteSignature_spec (nld : LowerDevice) (signature : List UInt8) :
    ∀ (n ba : Nat) (w : World),
      n ≤ ba →
      wp (nmbmWriteSignature signature n ba) nld (fun r w' =>
        Mgmt {b | ba - n < b ∧ b ≤ ba} w w' ∧ w'.events = w.events ∧
          ∀ s, r = some s → ba - n < s ∧ s ≤ ba) w := by
  intro n
  induction n with
  | zero =>
      intro ba w _
      exact ⟨Mgmt.refl _ w, rfl, by simp [nmbmWriteSignature, pure]⟩
  | succ n ih =>
      intro ba w hle
      have hmem : ba ∈ {b | ba - (n + 1) < b ∧ b ≤ ba} := ⟨by omega, le_refl _⟩
      have hone : {ba} ⊆ {b | ba - (n + 1) < b ∧ b ≤ ba} := Set.singleton_subset_iff.mpr hmem
      have hsub : {b | ba - 1 - n < b ∧ b ≤ ba - 1} ⊆ {b | ba - (n + 1) < b ∧ b ≤ ba} := by
        rintro b ⟨hlo, hhi⟩
        exact ⟨by omega, by omega⟩
      have hrest : ∀ w₁, Mgmt {b | ba - (n + 1) < b ∧ b ≤ ba} w w₁ → w₁.events = w.events →
          wp (nmbmWriteSignature signature n (ba - 1)) nld (fun r w' =>
            Mgmt {b | ba - (n + 1) < b ∧ b ≤ ba} w w' ∧ w'.events = w.events ∧
              ∀ s, r = some s → ba - (n + 1) < s ∧ s ≤ ba) w₁ := by
        intro w₁ h₁ hevents₁
        refine wp_mono (ih (ba - 1) w₁ (by omega)) ?_
        rintro r w₂ ⟨h₂, hevents₂, hr⟩
        refine ⟨h₁.trans (h₂.mono hsub), hevents₂.trans hevents₁, fun s hs => ?_⟩
        have := hr s hs
        omega
      simp only [nmbmWriteSignature, wp_bind, wp_get, wp_ite, wp_pure]
      refine ⟨fun _ => hrest w (Mgmt.refl _ w) rfl, fun hgood => ?_⟩
      have hgood := not_not.mp hgood
      refine wp_mono (nmbmCheckBadPhysBlock_spec nld ba w) ?_
      rintro bad w₁ ⟨hcheck, -, -⟩
      have hphys₁ : Phys {ba} w w₁ := hcheck.mono (Set.empty_subset _)
      have hkeep : ∀ w₂, Phys {ba} w w₂ → nmbmGetBlockState w₂.ni ba = blockStGood := by
        intro w₂ h₂
        obtain ⟨pc, hni⟩ := h₂.ni
        rw [hni]
        exact hgood
      refine ⟨fun _ => ?_, fun _ => ?_⟩
      · refine wp_mono (mgmt_setBad hmem (hkeep w₁ hphys₁)) ?_
        rintro _ w₂ ⟨h₂, -, hevents₂⟩
        exact hrest w₂ ((hphys₁.mono hone).mgmt.trans h₂) (hevents₂.trans hphys₁.events)
      · refine wp_mono (writeSignatureBlock_spec nld ba signature w₁) ?_
        intro success w₂ hwrite
        have hphys₂ := hphys₁.trans hwrite.toPhys
        refine ⟨fun _ => ⟨(hphys₂.mono hone).mgmt, hphys₂.events, ?_⟩, fun _ => ?_⟩
        · rintro s ⟨⟩
          exact ⟨by omega, le_refl _⟩
        · refine wp_mono (retireBlock_spec hmem (hkeep w₂ hphys₂)) ?_
          rintro _ w₃ ⟨h₃, -, hevents₃⟩
          exact hrest w₃ ((hphys₂.mono hone).mgmt.trans h₃) (hevents₃.trans hphys₂.events)

/-! ## The info tables of a new chip -/

/-- The invariant of the remapping loop: as for a sound instance, but changes may be left to
be saved. -/
structure Made (nld : LowerDevice) (w : World) : Prop extends Orderly nld w where
  kept : nld.Fits → CleanLog w.events → Clean w.ni → Kept nld w

/-- A step keeps what depends on the mapping and the log. -/
theorem Orderly.step {L S : Set Nat} (h : Orderly nld w) (hstep : Step nld L S w w')
    (hp : Pool nld w'.ni) :
    Orderly nld w' := by
  refine ⟨hp, fun ht => hstep.owned ht (h.owned (hstep.topGood ht)), fun ht e he => ?_,
    fun hf => hstep.shape (h.shape hf)⟩
  rcases hstep.erases ht (h.owned (hstep.topGood ht)) e he with hold | hok
  · exact h.erases (hstep.topGood ht) e hold
  · exact hok

/-- One more data block. -/
theorem Made.counted (h : Made nld w)
    (hni : w'.ni = { w.ni with dataBlockCount := w.ni.dataBlockCount + 1 })
    (hevents : w'.events = w.events)
    (hchip : w'.chip = w.chip) :
    Made nld w' := by
  have htable : ∀ data s hi, TableAt nld w data s hi → TableAt nld w' data s hi :=
    fun data s hi ht => ht.congr (by rw [hchip]) (by rw [hni])
  have hp := h.pool
  refine ⟨⟨?_, fun ht => ?_, fun ht e he => ?_, fun hf => ?_⟩, fun hf hlog hclean hprot => ?_⟩
  · rw [hni]
    exact ⟨⟨hp.mgmt_le_top, hp.top_lt, hp.signature_lt, hp.cached⟩, hp.mgmt_le, hp.le_top,
      hp.main, hp.main_le, hp.backup, hp.backup_le⟩
  · rw [hevents] at ht
    have ho := h.owned ht
    rw [hni]
    exact ⟨ho.place, ho.injective⟩
  · rw [hevents] at ht he
    exact h.erases ht e he
  · exact (h.shape hf).congr (by rw [hni]) (by rw [hni]) (by rw [hni])
  · rw [hevents] at hlog
    rw [hni] at hclean hprot
    obtain ⟨-, ⟨hsaved, states, hcached⟩, hsync⟩ := h.kept hf hlog hclean hprot
    refine ⟨?_, ⟨⟨?_, ?_, fun hne => ?_⟩, states, ?_⟩, ?_⟩
    · rw [hni]
      exact hclean
    · rw [hni]
      exact hsaved.mgmt_le
    · rw [hni]
      exact htable _ _ _ hsaved.main
    · rw [hni] at hne ⊢
      exact htable _ _ _ (hsaved.backup hne)
    · rw [hni]
      exact ⟨hcached.bytes, hcached.length, hcached.good, hcached.magic, hcached.size⟩
    · rw [hni]
      exact hsync

/-- The loop that maps the bad blocks at the end of the data area. -/
theorem remapLoop_spec (hws : 0 < nld.writesize) :
    ∀ (n lb : Nat) (w : World),
      Made nld w →
      wp (remapLoop n lb) nld (fun _ w' => Made nld w') w := by
  intro n
  induction n with
  | zero =>
      intro lb w h
      exact h
  | succ n ih =>
      intro lb w h
      simp only [remapLoop, wp_bind]
      refine wp_mono (nmbmMapBlock_spec hws h.pool (Set.subset_univ _)) ?_
      rintro success w₁ ⟨hstep, hp₁, hmapped, hfailed⟩
      simp only [wp_ite, wp_bind, wp_modifyNi, wp_pure]
      refine ⟨fun hok => ?_, fun hno => ?_⟩
      · have h₁ : Made nld w₁ := ⟨h.toOrderly.step hstep hp₁,
          fun _ _ hclean => absurd hclean.2 (hmapped hok)⟩
        exact ih (lb + 1) _ (h₁.counted rfl rfl rfl)
      · refine ⟨h.toOrderly.step hstep hp₁, fun hf hlog hclean => ?_⟩
        have hold : CleanLog w.events := fun b he => hlog b (hstep.mem_events he)
        exact hfailed (by simpa using hno) hf (h.shape hf) hlog (h.kept hf hold) hclean

/-- What is known when the info tables of a new chip are to be made. -/
structure Starting (nld : LowerDevice) (w : World) : Prop where
  fresh : Fresh w.ni
  signature_lt : w.ni.signatureBa < nld.blockCount
  shape : nld.Fits → w.ni.mgmtStartBa ≤ nld.blockCount → Shape nld w.ni
  events : w.events = []

/-- A walk that skips good blocks leaves its first block behind. -/
theorem walkDesc_lt {ni : NmbmInstance} {n ba r : Nat} {nblock : Int}
    (hle : n ≤ ba)
    (hpos : 0 < nblock)
    (h : walkDesc ni n ba nblock = some r) :
    r < ba := by
  cases n with
  | zero => simp [walkDesc] at h
  | succ n =>
      simp only [walkDesc] at h
      split_ifs at h with hgood hneg hneg
      · omega
      · have := walkDesc_bounds (by omega) h
        omega
      · omega
      · have := walkDesc_bounds (by omega) h
        omega

/-- The walk from the signature down ends between the bounds of the management area. -/
theorem nmbmBlockWalk_top {ni : NmbmInstance} {top : Nat}
    (hsig : ni.signatureBa < nld.blockCount)
    (h : nmbmBlockWalk nld ni false ni.signatureBa 1 ni.mgmtStartBa = some top) :
    ni.mgmtStartBa < top ∧ top < ni.signatureBa := by
  have hone : signedOf 4 (u32 1) = 1 := by decide
  simp only [nmbmBlockWalk, Bool.false_eq_true, if_false, nmbmBlockWalkDesc, hone] at h
  have hlt := walkDesc_lt (Nat.sub_le _ _) (by decide) h
  obtain ⟨hlo, -⟩ := walkDesc_bounds (Nat.sub_le _ _) h
  split_ifs at hlo <;> omega

/-- The specification of {lit}`nmbm_create_info_table`. -/
theorem nmbmCreateInfoTable_spec (hws : 0 < nld.writesize) (hs : Starting nld w) :
    wp nmbmCreateInfoTable nld (fun ok w' => ok = true → Sound nld w') w := by
  simp only [nmbmCreateInfoTable, wp_bind, wp_ask, wp_get]
  split
  · exact fun hok => by cases hok
  · rename_i top hwalk
    obtain ⟨hlo, hhi⟩ := nmbmBlockWalk_top hs.signature_lt hwalk
    have hsig := hs.signature_lt
    simp only [wp_bind, wp_modifyNi]
    generalize hw₁ : ({ w with ni := { w.ni with mappingBlocksTopBa := top } } : World) = w₁
    have hfresh₁ : Fresh w₁.ni := by
      rw [← hw₁]
      exact hs.fresh.congr rfl rfl
    have hshape₁ : nld.Fits → Shape nld w₁.ni := by
      intro hf
      rw [← hw₁]
      exact (hs.shape hf (by omega)).congr rfl rfl rfl
    have hevents₁ : w₁.events = [] := by
      rw [← hw₁]
      exact hs.events
    refine wp_mono (nmbmGenerateInfoTableCache_spec nld w₁) ?_
    rintro _ w₂ ⟨-, hdr, hgen⟩
    have hfresh₂ : Fresh w₂.ni := hfresh₁.congr hgen.upkeep.mapping hgen.upkeep.mgmt
    have hb₂ : Bounds nld w₂.ni := by
      rw [hgen.ni, ← hw₁]
      exact ⟨hlo.le, hhi, hsig, tableBytes_ne_nil _ _ _⟩
    refine wp_mono (nmbmRebuildInfoTable_spec hws (Rewrite.refl nld w₂) hb₂) ?_
    intro ok w₃ ho
    simp only [wp_ite, wp_pure, wp_bind, wp_get]
    refine ⟨fun _ hfalse => absurd hfalse (by decide), fun hok => ?_⟩
    have hok : ok = true := by simpa using hok
    have hstep : Step nld Set.univ Set.univ w₂ w₃ :=
      ho.rewrite.toUpkeep.step (Set.subset_univ _)
    -- The tables are stored, and only blocks retired since then are left to be saved.
    have hmade : Made nld w₃ := by
      refine ⟨⟨ho.pool, fun ht => hstep.owned ht hfresh₂.owned, fun ht e he => ?_,
        fun hf => hstep.shape (hgen.upkeep.shape (hshape₁ hf))⟩, fun hf hlog hclean _ => ?_⟩
      · rcases hstep.erases ht hfresh₂.owned e he with hold | hgood
        · rw [hgen.events, hevents₁] at hold
          rw [List.mem_singleton.mp hold]
          trivial
        · exact hgood
      · have hs₂ := hgen.upkeep.shape (hshape₁ hf)
        exact ⟨hclean, ⟨ho.saved hok, _, hgen.cached.rewrite ho.rewrite⟩,
          ho.rewrite.synced hf hs₂ hlog (fun _ _ => hgen.inSync hf (hshape₁ hf)) hclean.1 hclean.2⟩
    refine wp_mono (remapLoop_spec hws _ _ w₃ hmade) ?_
    intro _ w₄ h₄
    refine wp_mono (nmbmUpdateInfoTable_kept hws h₄.pool) ?_
    rintro ok₅ w₅ ⟨hu, hp₅, hkept⟩ _
    have hstep₅ : Step nld Set.univ Set.univ w₄ w₅ := hu.step (Set.subset_univ _)
    exact ⟨h₄.toOrderly.step hstep₅ hp₅, fun hf hlog =>
      hkept hf (h₄.shape hf) hlog.clean (h₄.kept hf (hlog.clean.of_upkeep hu))⟩

/-! ## Attaching -/

/-- The boundary of the management blocks lies on the chip. -/
theorem mgmtStart_le (nld : LowerDevice) : mgmtStart nld ≤ nld.blockCount := by
  have hbound : u32 (nld.blockCount * (nmbmMgmtDiv - nld.maxRatio)) / nmbmMgmtDiv ≤
      nld.blockCount := by
    have hmod : u32 (nld.blockCount * (nmbmMgmtDiv - nld.maxRatio)) ≤
        nld.blockCount * nmbmMgmtDiv :=
      (Nat.mod_le _ _).trans (Nat.mul_le_mul_left _ (Nat.sub_le _ _))
    calc u32 (nld.blockCount * (nmbmMgmtDiv - nld.maxRatio)) / nmbmMgmtDiv
        ≤ nld.blockCount * nmbmMgmtDiv / nmbmMgmtDiv := Nat.div_le_div_right hmod
      _ = nld.blockCount := Nat.mul_div_cancel _ (by decide)
  simp only [mgmtStart]
  split_ifs <;> omega

/-- A zeroed instance of the right sizes, to be filled. -/
structure Blank (nld : LowerDevice) (w : World) : Prop where
  states : 4 * w.ni.blockState.length = nld.stateTableSize
  stateOff : w.ni.infoTable.stateTableOff = nld.stateTableOff
  mappingOff : w.ni.infoTable.mappingTableOff = nld.mappingTableOff
  writeCount : w.ni.infoTable.writeCount = 0
  events : w.events = []

theorem blank_freshWorld (nld : LowerDevice) (flash : Flash) :
    nld.Fits → Blank nld (freshWorld nld flash) := by
  intro hf
  refine ⟨?_, rfl, rfl, rfl, rfl⟩
  show 4 * (List.replicate (nld.stateTableSize / 4) 0xffffffff#32).length = nld.stateTableSize
  rw [List.length_replicate, hf.stateSize]
  omega

/-- The specification of {lit}`nmbm_create_new` on a writable chip. -/
theorem nmbmCreateNew_spec (hws : 0 < nld.writesize)
    (hblank : nld.Fits → Blank nld w)
    (hevents : w.events = [])
    (hrw : nld.readOnly = false) :
    wp nmbmCreateNew nld (fun ok w' => ok = true → Sound nld w') w := by
  have hmgmt := mgmtStart_le nld
  simp only [nmbmCreateNew, nmbmBuildMappingTable, wp_bind, wp_ask, wp_modifyNi]
  refine wp_mono (nmbmScanBadblocks_spec nld _ 0 _) ?_
  intro _ w₁ hprobe
  obtain ⟨pc, bs, n, cache, hni⟩ := hprobe.ni
  have hmgmt₁ : w₁.ni.mgmtStartBa = mgmtStart nld := by rw [hni]
  have hlen := length_usableBlocks_le w₁.ni w₁.ni.mgmtStartBa
  rw [wp_ite]
  refine ⟨fun hro => absurd hro (by simp [hrw]), fun _ => ?_⟩
  simp only [wp_bind, wp_get]
  generalize hw₂ : World.mk _ _ _ = w₂
  have hfresh₂ : Fresh w₂.ni := by
    rw [← hw₂]
    exact (fresh_built w₁.ni _).congr rfl rfl
  have hmgmt₂ : w₂.ni.mgmtStartBa = mgmtStart nld := by
    rw [← hw₂]
    exact hmgmt₁
  have hshape₂ : nld.Fits → Shape nld w₂.ni := by
    intro hf
    have hb := hblank hf
    rw [← hw₂]
    refine ⟨?_, ?_, ?_, ?_, ?_⟩
    · show 4 * w₁.ni.blockState.length = _
      rw [hprobe.length]
      exact hb.states
    · simp only [List.length_append, List.length_map, List.length_replicate, hf.mappingSize]
      omega
    · show w₁.ni.infoTable.stateTableOff = _
      rw [hni]
      exact hb.stateOff
    · show w₁.ni.infoTable.mappingTableOff = _
      rw [hni]
      exact hb.mappingOff
    · show w₁.ni.infoTable.writeCount < _
      rw [hni]
      exact hb.writeCount.trans_lt (by decide)
  have hevents₂ : w₂.events = [] := by
    rw [← hw₂]
    exact hprobe.events.trans hevents
  refine wp_mono (nmbmWriteSignature_spec nld _ _ _ w₂ (Nat.sub_le _ _)) ?_
  rintro r w₃ ⟨hm, hevents₃, hr⟩
  cases r with
  | none =>
      rw [wp_pure]
      exact fun hok => absurd hok (by decide)
  | some ba =>
      have hba := hr ba rfl
      simp only [wp_bind, wp_modifyNi]
      obtain ⟨pc₃, bs₃, n₃, hni₃⟩ := hm.ni
      refine nmbmCreateInfoTable_spec hws ⟨?_, ?_, fun hf _ => ?_, ?_⟩
      · refine hfresh₂.congr ?_ ?_
        · show w₃.ni.blockMapping = _
          rw [hni₃]
        · show w₃.ni.mgmtStartBa = _
          rw [hni₃]
      · show ba < nld.blockCount
        omega
      · refine (hshape₂ hf).congr ?_ ?_ ?_
        · exact hm.length
        · show w₃.ni.blockMapping.length = _
          rw [hni₃]
        · show w₃.ni.infoTable = _
          rw [hni₃]
      · exact hevents₃.trans hevents₂

/-- A writable chip on which {lit}`nmbm_attach` finds no signature and succeeds. -/
structure CreatedBy (nld : LowerDevice) (flash : Flash) (nld' : LowerDevice) (w : World) :
    Prop where
  attached : nmbmAttach nld flash = (0, nld', w)
  unsigned : (nmbmFindSignature nld' (freshWorld nld' flash)).1 = none
  writable : nld'.readOnly = false

/-- An accepted device has pages. -/
theorem writesize_pos_of_accepted (h : nmbmCheckLowerMembers nld = some nld') :
    0 < nld'.writesize := by
  simp only [nmbmCheckLowerMembers] at h
  generalize (if nld.maxRatio = 0 then 1 else nld.maxRatio) = maxRatio at h
  split_ifs at h with h₁ h₂ h₃
  obtain rfl := Option.some.inj h
  simp [isPowerOf2U64] at h₃
  exact Nat.pos_of_ne_zero h₃.1

/-- What the run of {lit}`nmbm_attach` is, if it succeeds. -/
theorem attached_iff {flash : Flash} (h : nmbmAttach nld flash = (0, nld', w)) :
    nmbmCheckLowerMembers nld = some nld' ∧
      nmbmAttachDevice nld' (freshWorld nld' flash) = (0, w) := by
  unfold nmbmAttach at h
  split at h
  · simp [eInval] at h
  · rename_i nld₁ haccepted
    simp only [Prod.mk.injEq] at h
    obtain ⟨hret, rfl, hw⟩ := h
    exact ⟨haccepted, Prod.ext hret hw⟩

/-- A new instance is sound. -/
theorem CreatedBy.sound {flash : Flash} (h : CreatedBy nld flash nld' w) : Sound nld' w := by
  obtain ⟨haccepted, hrun⟩ := attached_iff h.attached
  have hws := writesize_pos_of_accepted haccepted
  have hwp : wp nmbmAttachDevice nld' (fun ret w' => ret = 0 → Sound nld' w')
      (freshWorld nld' flash) := by
    simp only [nmbmAttachDevice, wp_bind, wp_ask]
    have hfind := nmbmFindSignature_spec hws (freshWorld nld' flash)
    rw [wp] at hfind ⊢
    rw [h.unsigned]
    obtain ⟨hphys, -⟩ := hfind
    generalize (nmbmFindSignature nld' (freshWorld nld' flash)).2 = w₁ at hphys ⊢
    obtain ⟨pc, hni⟩ := hphys.ni
    have hblank₁ : nld'.Fits → Blank nld' w₁ := by
      intro hf
      have hb := blank_freshWorld nld' flash hf
      refine ⟨?_, ?_, ?_, ?_, hphys.events.trans hb.events⟩
      · rw [hni]
        exact hb.states
      · rw [hni]
        exact hb.stateOff
      · rw [hni]
        exact hb.mappingOff
      · rw [hni]
        exact hb.writeCount
    simp only [wp_ite, wp_bind, wp_pure]
    refine ⟨fun _ hret => absurd hret (by decide), fun _ => ?_⟩
    refine wp_mono (nmbmCreateNew_spec hws hblank₁ hphys.events h.writable) ?_
    intro ok w₂ hsound hret
    apply hsound
    by_contra hno
    simp [hno, eNoDev] at hret
  rw [wp, hrun] at hwp
  exact hwp rfl

/-! ## Runs -/

section Fates

variable {fates : Fates}

/-- Sizes do not depend on the behaviour of the chip. -/
theorem Orderly.withFates (h : Orderly nld w) (fates : Fates) :
    Orderly { nld with fates } w := by
  have hp := h.pool
  refine ⟨⟨⟨hp.mgmt_le_top, hp.top_lt, hp.signature_lt, hp.cached⟩, hp.mgmt_le, hp.le_top, hp.main,
    hp.main_le, hp.backup, hp.backup_le⟩, h.owned, h.erases, fun hf => ?_⟩
  have hs := h.shape ⟨hf.writesize_pos, hf.erasesize_pos, hf.writesize_dvd, hf.shift, hf.stateSize,
    hf.mappingSize, hf.header_le, hf.state_le, hf.mapping_le, hf.size_lt, hf.writesize_dvd_size⟩
  exact ⟨hs.states, hs.mapping, hs.stateOff, hs.mappingOff, hs.writeCount⟩

theorem StoredIn.withFates {flash : Flash} (fates : Fates) :
    ∀ {data : List UInt8} {bs : List Nat},
      StoredIn nld flash data bs → StoredIn { nld with fates } flash data bs := by
  intro data bs
  induction bs generalizing data with
  | nil => exact id
  | cons b bs ih =>
      rintro ⟨hne, hbytes, hrest⟩
      exact ⟨hne, hbytes, ih hrest⟩

theorem TableAt.withFates {data : List UInt8} {s hi : Nat} (h : TableAt nld w data s hi)
    (hlocal : nld.fates.PageLocal) (fates : Fates) :
    TableAt { nld with fates } w data s hi := by
  obtain ⟨bs, hbs, hhead⟩ := h
  exact ⟨bs, ⟨fun _ => (hbs.stored hlocal).withFates fates, hbs.sorted, hbs.bounds, hbs.good,
    hbs.unmarked, hbs.nonempty⟩, hhead⟩

/-- Tables that are saved stay so whatever the chip does next. -/
theorem Kept.withFates (h : Kept nld w) (hlocal : nld.fates.PageLocal) (fates : Fates) :
    Kept { nld with fates } w := by
  intro hprot
  obtain ⟨hclean, ⟨hsaved, states, hcached⟩, hsync⟩ := h hprot
  exact ⟨hclean, ⟨⟨hsaved.mgmt_le, hsaved.main.withFates hlocal fates,
    fun hne => (hsaved.backup hne).withFates hlocal fates⟩, states,
    ⟨hcached.bytes, hcached.length, hcached.good, hcached.magic, hcached.size⟩⟩, hsync⟩

end Fates

/-- A call leaves an orderly instance orderly. -/
theorem Orderly.after (hws : 0 < nld.writesize) (h : Orderly nld w) (call : Call)
    (fates : Fates) :
    Orderly nld (w.after nld call fates) := by
  have hcall := @Call.exec_spec _ { nld with fates } hws (h.withFates fates).pool call
  exact ((h.withFates fates).step hcall.toStep hcall.pool).withFates nld.fates

/-- Runs of calls leave an orderly instance orderly. -/
theorem Orderly.reaches {P : Fates → Prop} {w₀ : World} (hws : 0 < nld.writesize)
    (h : Orderly nld w₀) (hrun : Reaches nld P w₀ w) : Orderly nld w := by
  induction hrun with
  | refl => exact h
  | call _ c _ ih => exact ih.after hws c _

end Nmbm
end ZyxelRouter
