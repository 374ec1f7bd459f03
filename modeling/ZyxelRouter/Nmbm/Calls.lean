import ZyxelRouter.Nmbm.Step

/-!
# NMBM: the public calls

Every public call is a step on the logic blocks it names, inside the territory of these
blocks.  Between calls an instance that is not protected has its tables saved.

Main results:

- Theorem {lit}`eraseRetry_spec`: erasing a logic block, with all its retries.
- Theorem {lit}`nmbmWriteLogicPage_spec`: writing a page of a logic block.
- Theorem {lit}`Call.exec_spec`: every public call is such a step.
-/

namespace ZyxelRouter
namespace Nmbm

open Lib Lib.Prog

variable {L L' S S' : Set Nat} {w w' w'' : World} {nld : LowerDevice}

/-! ## What holds between calls -/

/-- Mapping entries were dropped only with a change on record afterwards. -/
def UnmapLog (events : List Event) : Prop :=
  ∀ changed, Event.unmap changed ∈ events → changed = true

/-- None of the recorded decisions went wrong. -/
structure Faultless (events : List Event) : Prop where
  top : TopGood events
  clean : CleanLog events
  unmap : UnmapLog events

theorem Faultless.of_step (hf : Faultless w'.events) (h : Step nld L S w w') :
    Faultless w.events :=
  ⟨h.topGood hf.top, fun b he => hf.clean b (h.mem_events he),
    fun b he => hf.unmap b (h.mem_events he)⟩

/-- A step of a call, which keeps the pool, and the saved tables unless a recorded decision
went wrong. -/
structure CallStep (nld : LowerDevice) (L S : Set Nat) (w w' : World) : Prop
    extends Step nld L S w w' where
  pool : Pool nld w'.ni
  kept : nld.Fits → Shape nld w.ni → Faultless w'.events → Owned w.ni → Kept nld w → Kept nld w'

theorem CallStep.refl (hp : Pool nld w.ni) : CallStep nld L S w w :=
  ⟨Step.refl nld L S w, hp, fun _ _ _ _ => id⟩

theorem CallStep.trans (h : CallStep nld L S w w') (h' : CallStep nld L S w' w'') :
    CallStep nld L S w w'' := by
  refine ⟨h.toStep.trans h'.toStep, h'.pool, fun hf hs hlog ho hk => ?_⟩
  have hlog' := hlog.of_step h'.toStep
  exact h'.kept hf (h.shape hs) hlog (h.owned hlog'.top ho) (h.kept hf hs hlog' ho hk)

theorem CallStep.mono (h : CallStep nld L S w w') (hL : L ⊆ L') : CallStep nld L' S w w' :=
  ⟨h.toStep.mono hL, h.pool, h.kept⟩

/-! ## Frames -/

/-- The pool depends on the bounds and the cache only. -/
theorem pool_of_frame (hp : Pool nld w.ni)
    (hni : ∃ pageCache blockState blockStateChanged,
      w'.ni = { w.ni with pageCache, blockState, blockStateChanged }) :
    Pool nld w'.ni := by
  obtain ⟨pc, bs, n, hni⟩ := hni
  rw [hni]
  exact ⟨⟨hp.mgmt_le_top, hp.top_lt, hp.signature_lt, hp.cached⟩, hp.mgmt_le, hp.le_top,
    hp.main, hp.main_le, hp.backup, hp.backup_le⟩

theorem Phys.pool (h : Phys S w w') (hp : Pool nld w.ni) : Pool nld w'.ni := by
  obtain ⟨pc, hni⟩ := h.ni
  exact pool_of_frame hp ⟨pc, w.ni.blockState, w.ni.blockStateChanged, hni⟩

theorem SetsState.pool {ba : Nat} {state : BitVec 32} (h : SetsState ba state w w')
    (hp : Pool nld w.ni) : Pool nld w'.ni := by
  obtain ⟨bs, n, hni⟩ := h.ni
  exact pool_of_frame hp ⟨w.ni.pageCache, bs, n, hni⟩

theorem Drops.pool {lb : Nat} (h : Drops lb w w') (hp : Pool nld w.ni) : Pool nld w'.ni := by
  rw [h.ni]
  exact ⟨⟨hp.mgmt_le_top, hp.top_lt, hp.signature_lt, hp.cached⟩, hp.mgmt_le, hp.le_top,
    hp.main, hp.main_le, hp.backup, hp.backup_le⟩

/-- Saved tables are not affected by operations outside the area. -/
theorem Saved.keep (h : Saved nld w) (hp : Pool nld w.ni) (hm : Mgmt S w w')
    (hout : ∀ b ∈ w.ni.area, b ∉ S) : Saved nld w' := by
  have hmgmt := h.mgmt_le
  have hmb := hp.le_top
  have hback := hp.backup_le
  obtain ⟨pc, bs, n, hni⟩ := hm.ni
  have harea : ∀ lo hi, w.ni.mgmtStartBa ≤ lo → hi ≤ w.ni.mappingBlocksBa →
      ∀ b, lo ≤ b → b < hi → b ∉ S := by
    intro lo hi hlo hhi b hb hb'
    exact hout b ⟨by omega, by omega⟩
  have hmain := h.main.keep hm (harea _ _ hmgmt (by split_ifs <;> omega))
  refine ⟨?_, ?_, fun hne => ?_⟩
  · rw [hni]
    exact hmgmt
  · rw [hni]
    exact hmain
  · rw [hni] at hne ⊢
    have hlo := hp.backup.resolve_left hne
    exact (h.backup hne).keep hm (harea _ _ hlo.1 (le_refl _))

/-- Tables stay saved when other blocks are read, written or erased. -/
theorem Kept.phys (hk : Kept nld w) (hp : Pool nld w.ni) (h : Phys S w w')
    (hout : ∀ b ∈ w.ni.area, b ∉ S) : Kept nld w' := by
  intro hprot
  have hsaved := fun hsaved : Saved nld w => hsaved.keep hp h.mgmt hout
  obtain ⟨pc, hni⟩ := h.ni
  rw [hni] at hprot
  obtain ⟨hclean, ⟨hsv, states, hcached⟩, hsync⟩ := hk hprot
  refine ⟨?_, ⟨hsaved hsv, states, ?_⟩, ?_⟩
  · rw [hni]
    exact hclean
  · rw [hni]
    exact ⟨hcached.bytes, hcached.length, hcached.good, hcached.magic, hcached.size⟩
  · rw [hni]
    exact hsync

/-! ## Erasing a logic block -/

/-- A block is marked bad on the chip, whatever its state. -/
theorem retireBlock_step (nld : LowerDevice) (pb : Nat) (w : World) :
    wp (retireBlock pb) nld (fun _ w' =>
      ∃ w₁, Phys {pb} w w₁ ∧ SetsState pb blockStBad w₁ w') w := by
  simp only [retireBlock, wp_bind]
  refine wp_mono (nmbmMarkPhysBadBlock_spec nld pb w) (fun _ w₁ hmark => ?_)
  exact wp_mono (nmbmSetBlockState_spec nld pb blockStBad w₁) (fun _ w' hset => ⟨w₁, hmark, hset⟩)

/-- One attempt at a physical block. -/
theorem eraseMapped_spec (hp : Pool nld w.ni) {pb : Nat} (hpb : pb ∈ S) :
    wp (eraseMapped pb) nld (fun ok w' =>
      Step nld L S w w' ∧ Pool nld w'.ni ∧ w'.ni.blockMapping = w.ni.blockMapping ∧
        (ok = true → Phys {pb} w w')) w := by
  have hsub : {pb} ⊆ S := Set.singleton_subset_iff.mpr hpb
  simp only [eraseMapped, wp_bind, wp_get, wp_ite, wp_pure]
  refine ⟨fun _ => ⟨Step.refl nld L S w, hp, trivial, by simp⟩, fun _ => ?_⟩
  refine wp_mono (nmbmCheckBadPhysBlock_spec nld pb w) ?_
  rintro bad w₁ ⟨hcheck, -, -⟩
  have hp₁ := hcheck.pool hp
  have hmap₁ : w₁.ni.blockMapping = w.ni.blockMapping := by
    obtain ⟨pc, hni⟩ := hcheck.ni
    rw [hni]
  refine ⟨fun _ => ?_, fun _ => ?_⟩
  · refine wp_mono (nmbmSetBlockState_spec nld pb blockStBad w₁) ?_
    intro _ w₂ hset
    obtain ⟨bs, n, hni⟩ := hset.ni
    exact ⟨(hcheck.step (Set.empty_subset S)).trans (hset.step hpb), hset.pool hp₁,
      by rw [hni]; exact hmap₁, by simp⟩
  · refine wp_mono (nmbmEraseBlockAndCheck_spec nld pb w₁) ?_
    intro success w₂ herase
    have h₂ : Phys {pb} w w₂ := (hcheck.mono (Set.empty_subset _)).trans herase.toPhys
    have hp₂ := h₂.pool hp
    have hmap₂ : w₂.ni.blockMapping = w.ni.blockMapping := by
      obtain ⟨pc, hni⟩ := h₂.ni
      rw [hni]
    refine ⟨fun _ => ?_, fun _ => ⟨h₂.step hsub, hp₂, hmap₂, fun _ => h₂⟩⟩
    refine wp_mono (retireBlock_step nld pb w₂) ?_
    rintro _ w₄ ⟨w₃, hmark, hset⟩
    obtain ⟨pc, hni⟩ := hmark.ni
    obtain ⟨bs, n, hni'⟩ := hset.ni
    refine ⟨(h₂.step hsub).trans ((hmark.step hsub).trans (hset.step hpb)),
      hset.pool (hmark.pool hp₂), ?_, fun hok => ?_⟩
    · rw [hni', hni]
      exact hmap₂
    · simp_all

/-- The state of the replaced block is the only thing that changes. -/
theorem condemnBlock_spec (nld : LowerDevice) (pb : Nat) (w : World) :
    wp (condemnBlock pb) nld (fun _ w' => w' = w ∨ SetsState pb blockStBad w w') w := by
  simp only [condemnBlock, wp_bind, wp_get, wp_ite, wp_pure]
  refine ⟨fun _ => ?_, fun _ => .inl trivial⟩
  exact wp_mono (nmbmSetBlockState_spec nld pb blockStBad w) (fun _ _ hset => .inr hset)

/-- Condemning a block is a step that forgets no change. -/
theorem condemnBlock_step (hp : Pool nld w.ni) {pb : Nat} (hpb : pb ∈ S) :
    wp (condemnBlock pb) nld (fun _ w' =>
      Step nld L S w w' ∧ Pool nld w'.ni ∧
        w'.ni.blockMappingChanged = w.ni.blockMappingChanged) w := by
  refine wp_mono (condemnBlock_spec nld pb w) ?_
  rintro _ w' (rfl | hset)
  · exact ⟨Step.refl nld L S w', hp, rfl⟩
  · obtain ⟨bs, n, hni⟩ := hset.ni
    exact ⟨hset.step hpb, hset.pool hp, by rw [hni]⟩

/-- An event that is not about blocks taken, erased or lost. -/
theorem Logs.step {e : Event} (h : Logs w w' e) (he : EraseOk e)
    (hmap : ∀ topGood, e ≠ .map topGood)
    (hne : e ≠ .rebuildFailed) :
    Step nld L S w w' := by
  have hold : ∀ e' ∈ w'.events, e' = e ∨ e' ∈ w.events := by
    intro e' he'
    rw [h.events] at he'
    exact List.mem_cons.mp he'
  refine ⟨by rw [h.ni], by rw [h.ni], by rw [h.ni], by rw [h.ni], fun _ _ => by rw [h.ni],
    by rw [h.ni]; exact id, fun _ _ => by rw [h.ni], by rw [h.ni]; exact id, .inl (by rw [h.ni]),
    fun hev => .inl ((hold _ hev).resolve_left (fun heq => hne heq.symm)), ⟨[e], h.events⟩,
    fun _ ho => by rw [h.ni]; exact ho, fun _ _ e' he' => ?_, ?_⟩
  · rcases hold e' he' with rfl | hmem
    · exact .inr he
    · exact .inl hmem
  · rw [h.chip]
    exact Chip.Touches.refl _ _

/-- The block is replaced or given up, and the tables are saved. -/
theorem remapLogicBlock_spec (hws : 0 < nld.writesize) (hp : Pool nld w.ni) {lb pb : Nat}
    (hS : territory {lb} w.ni ⊆ S)
    (hpb : pb ∈ S) :
    wp (remapLogicBlock lb pb) nld (fun _ w' =>
      Step nld {lb} S w w' ∧ Pool nld w'.ni ∧
        (nld.Fits → Shape nld w.ni → Faultless w'.events → Kept nld w')) w := by
  simp only [remapLogicBlock, wp_bind]
  refine wp_mono (nmbmMapBlock_spec hws hp hS) ?_
  rintro success w₁ ⟨h₁, hp₁, hmapped, -⟩
  simp only [wp_ite, wp_bind, wp_pure]
  refine ⟨fun hok => ?_, fun _ => ?_⟩
  · refine wp_mono (condemnBlock_step (L := {lb}) hp₁ hpb) ?_
    rintro _ w₂ ⟨h₂, hp₂, hsame⟩
    refine wp_mono (nmbmUpdateInfoTable_kept hws hp₂) ?_
    rintro _ w₃ ⟨hu, hp₃, hkept⟩
    have h₁₂ := h₁.trans h₂
    refine ⟨h₁₂.trans (hu.step (h₁₂.inside hS)), hp₃, fun hf hs hlog => ?_⟩
    refine hkept hf (h₁₂.shape hs) hlog.clean (fun hclean => ?_)
    exact absurd (hsame.symm.trans hclean.2) (hmapped hok)
  · refine wp_drops (fun w₂ hdrop => ?_)
    have hp₂ := hdrop.pool hp₁
    have h₂ : Step nld {lb} S w w₂ := h₁.trans (hdrop.step (Set.mem_singleton lb))
    refine wp_mono (condemnBlock_step (L := {lb}) hp₂ hpb) ?_
    rintro _ w₃ ⟨h₃, hp₃, -⟩
    refine wp_logs (fun w₄ hlogs => ?_)
    have hp₄ : Pool nld w₄.ni := by
      rw [hlogs.ni]
      exact hp₃
    have h₄ := (h₂.trans h₃).trans (hlogs.step trivial (by simp) (by simp))
    refine wp_mono (nmbmUpdateInfoTable_kept hws hp₄) ?_
    rintro _ w₅ ⟨hu, hp₅, hkept⟩
    refine ⟨h₄.trans (hu.step (h₄.inside hS)), hp₅, fun hf hs hlog => ?_⟩
    refine hkept hf (h₄.shape hs) hlog.clean (fun hclean => ?_)
    -- A dropped entry with no change on record is ruled out by the log.
    have hchanged := hlog.unmap _ (hu.mem_events (by rw [hlogs.events]; exact List.mem_cons_self))
    rw [decide_eq_true_iff, ← hlogs.ni] at hchanged
    rcases hchanged with hstate | hmapping
    · exact absurd hclean.1 hstate
    · exact absurd hclean.2 hmapping

/-- The specification of the retry loop of {lit}`nmbm_erase_logic_block`. -/
theorem eraseRetry_spec (hws : 0 < nld.writesize) (lb : Nat) :
    ∀ (fuel : Nat) (w : World),
      Pool nld w.ni →
      territory {lb} w.ni ⊆ S →
      wp (eraseRetry lb fuel) nld (fun _ w' => CallStep nld {lb} S w w') w := by
  intro fuel
  induction fuel with
  | zero =>
      intro w hp _
      exact CallStep.refl hp
  | succ fuel ih =>
      intro w hp hS
      simp only [eraseRetry, wp_bind, wp_get, wp_ite, wp_pure]
      refine ⟨fun _ => CallStep.refl hp, fun hentry => ?_⟩
      have hentry : 0 ≤ w.ni.entry lb := not_lt.mp hentry
      have hpb : (w.ni.entry lb).toNat ∈ S :=
        hS (entry_mem_territory (Set.mem_singleton lb) hentry)
      refine wp_mono (eraseMapped_spec (L := {lb}) hp hpb) ?_
      rintro usable w₁ ⟨h₁, hp₁, hmap₁, husable⟩
      refine ⟨fun hok => ⟨h₁, hp₁, fun _ _ _ ho hk => ?_⟩, fun _ => ?_⟩
      · refine hk.phys hp (husable hok) (fun b hb hbpb => ?_)
        have hbpb : b = (w.ni.entry lb).toNat := hbpb
        exact ho.entry_ne hb lb (by omega)
      · refine wp_mono (remapLogicBlock_spec hws hp₁ (h₁.inside hS) hpb) ?_
        rintro mapped w₂ ⟨h₂, hp₂, hkept⟩
        have h₁₂ : CallStep nld {lb} S w w₂ :=
          ⟨h₁.trans h₂, hp₂, fun hf hs hlog _ _ => hkept hf (h₁.shape hs) hlog⟩
        refine ⟨fun _ => ?_, fun _ => h₁₂⟩
        exact wp_mono (ih w₂ hp₂ (h₁₂.inside hS)) (fun _ _ h₃ => h₁₂.trans h₃)

/-- The loop of {lit}`nmbm_erase_block_range`. -/
theorem eraseBlocksLoop_spec (hws : 0 < nld.writesize) :
    ∀ (n lb : Nat) (w : World),
      Pool nld w.ni →
      (∀ x, lb ≤ x → x < lb + n → x ∈ L) →
      territory L w.ni ⊆ S →
      wp (eraseBlocksLoop n lb) nld (fun _ w' => CallStep nld L S w w') w := by
  intro n
  induction n with
  | zero =>
      intro lb w hp _ _
      exact CallStep.refl hp
  | succ n ih =>
      intro lb w hp hL hS
      have hlb : {lb} ⊆ L := Set.singleton_subset_iff.mpr (hL lb (le_refl _) (by omega))
      simp only [eraseBlocksLoop, nmbmEraseLogicBlock, wp_bind, wp_get, wp_ite, wp_pure]
      refine wp_mono (eraseRetry_spec hws lb _ w hp ((territory_mono hlb).trans hS)) ?_
      intro ret w₁ h
      have h₁ := h.mono hlb
      refine ⟨fun _ => h₁, fun _ => ?_⟩
      refine wp_mono (ih (lb + 1) w₁ h₁.pool (fun x hx hx' => hL x (by omega) (by omega))
        (h₁.inside hS)) ?_
      exact fun _ _ h₂ => h₁.trans h₂

/-! ## Writing and marking -/

/-- The specification of {lit}`nmbm_write_logic_page`. -/
theorem nmbmWriteLogicPage_spec (hws : 0 < nld.writesize) (hp : Pool nld w.ni) {addr : Nat}
    (data oob : Option (List UInt8))
    (hlb : nld.addr2ba addr ∈ L)
    (hS : territory L w.ni ⊆ S) :
    wp (nmbmWriteLogicPage addr data oob) nld (fun _ w' => CallStep nld L S w w') w := by
  simp only [nmbmWriteLogicPage, wp_bind, wp_ask, wp_get, wp_ite, wp_pure]
  refine ⟨fun _ => CallStep.refl hp, fun hentry => ⟨fun _ => CallStep.refl hp, fun _ => ?_⟩⟩
  have hentry : 0 ≤ w.ni.entry (nld.addr2ba addr) := not_lt.mp hentry
  have hpb : (w.ni.entry (nld.addr2ba addr)).toNat ∈ S := hS (entry_mem_territory hlb hentry)
  refine wp_mono (nmbmWritePhysPage_spec nld _ _ data oob w) ?_
  rintro success w₁ ⟨hwrite, -⟩
  have hphys : Phys {(w.ni.entry (nld.addr2ba addr)).toNat} w w₁ := hwrite.toPhys
  have h₁ : Step nld L S w w₁ := hphys.step (Set.singleton_subset_iff.mpr hpb)
  have hp₁ := hphys.pool hp
  have hkept₁ : Owned w.ni → Kept nld w → Kept nld w₁ := by
    intro ho hk
    refine hk.phys hp hphys (fun b hb hbpb => ?_)
    have hbpb : b = (w.ni.entry (nld.addr2ba addr)).toNat := hbpb
    exact ho.entry_ne hb (nld.addr2ba addr) (by omega)
  refine ⟨fun _ => ⟨h₁, hp₁, fun _ _ _ => hkept₁⟩, fun _ => ?_⟩
  refine wp_mono (nmbmSetBlockState_spec nld _ blockStNeedRemap w₁) ?_
  intro _ w₂ hset
  have hp₂ := hset.pool hp₁
  have h₂ := h₁.trans (hset.step hpb)
  refine wp_mono (nmbmUpdateInfoTable_kept hws hp₂) ?_
  rintro _ w₃ ⟨hu, hp₃, hkept⟩
  refine ⟨h₂.trans (hu.step (h₂.inside hS)), hp₃, fun hf hs hlog ho hk => ?_⟩
  refine hkept hf (h₂.shape hs) hlog.clean (fun hclean => ?_)
  -- Without a change on record the state was stored before, and nothing is to be saved.
  obtain ⟨hzero, hsame⟩ := hset.unchanged hclean.1
  obtain ⟨bs, n, hni⟩ := hset.ni
  have hni₂ : w₂.ni = w₁.ni := by
    rw [hni] at hsame hclean ⊢
    have hbs : bs = w₁.ni.blockState := hsame
    have hn : n = w₁.ni.blockStateChanged := hclean.1.trans hzero.symm
    rw [hbs, hn]
  intro hprot
  rw [hni₂] at hprot hclean ⊢
  obtain ⟨-, ⟨hsaved, hcached⟩, hsync⟩ := hkept₁ ho hk hprot
  refine ⟨hclean, ⟨?_, ?_⟩, hsync⟩
  · have hkeep : ∀ data s hi, TableAt nld w₁ data s hi → TableAt nld w₂ data s hi :=
      fun data s hi ht => ht.congr (by rw [hset.chip]) (by rw [hni₂])
    refine ⟨?_, ?_, fun hne => ?_⟩
    · rw [hni₂]
      exact hsaved.mgmt_le
    · rw [hni₂]
      exact hkeep _ _ _ hsaved.main
    · rw [hni₂] at hne ⊢
      exact hkeep _ _ _ (hsaved.backup hne)
  · rw [hni₂]
    exact hcached

/-- The logic block of the page that holds an address. -/
def pageBlock (nld : LowerDevice) (addr : Nat) : Nat :=
  nld.addr2ba (addr - (addr &&& (nld.writesize - 1)))

theorem Phys.callStep (h : Phys ∅ w w') (hp : Pool nld w.ni) : CallStep nld L S w w' :=
  ⟨h.step (Set.empty_subset S), h.pool hp,
    fun _ _ _ _ hk => hk.phys hp h (fun _ _ hb => hb)⟩

theorem fillPage_spec (nld : LowerDevice) (leading : Nat) (chunk : List UInt8) (w : World) :
    wp (fillPage leading chunk) nld (fun _ w' => Phys ∅ w w') w := by
  simp only [fillPage, wp_bind, wp_ask, wp_ite, wp_pure, wp_setPageCache, wp_get]
  exact ⟨fun _ => Phys.refl ∅ w,
    fun _ => (phys_setPageCache ∅ w _).trans (phys_setPageCache ∅ _ _)⟩

/-- The loop of {lit}`nmbm_write_range`. -/
theorem writeRangeLoop_spec (hws : 0 < nld.writesize) :
    ∀ (fuel off : Nat) (data : List UInt8) (w : World),
      Pool nld w.ni →
      data ≠ [] →
      (∀ i, i < data.length → pageBlock nld (off + i) ∈ L) →
      territory L w.ni ⊆ S →
      wp (writeRangeLoop fuel off data) nld (fun _ w' => CallStep nld L S w w') w := by
  intro fuel
  induction fuel with
  | zero =>
      intro off data w hp _ _ _
      exact CallStep.refl hp
  | succ fuel ih =>
      intro off data w hp hdata hL hS
      have hpos : 0 < data.length := List.length_pos_iff.mpr hdata
      have hlb : nld.addr2ba (off - (off &&& (nld.writesize - 1))) ∈ L := hL 0 hpos
      simp only [writeRangeLoop, wp_bind, wp_ask]
      generalize hchunk : min (nld.writesize - (off &&& (nld.writesize - 1))) data.length = chunk
      refine wp_mono (fillPage_spec nld _ _ w) ?_
      intro page w₁ hfill
      have h₁ : CallStep nld L S w w₁ := hfill.callStep hp
      refine wp_mono (nmbmWriteLogicPage_spec hws h₁.pool (some page) none hlb (h₁.inside hS)) ?_
      intro ret w₂ h
      have h₂ := h₁.trans h
      simp only [wp_ite, wp_pure]
      refine ⟨fun _ => h₂, fun _ => ⟨fun _ => h₂, fun hmore => ?_⟩⟩
      have hlen : (data.drop chunk).length = data.length - chunk := List.length_drop
      refine wp_mono (ih _ _ w₂ h₂.pool ?_ (fun i hi => ?_) (h₂.inside hS))
        (fun _ _ h₃ => h₂.trans h₃)
      · intro hnil
        rw [hnil, List.length_nil] at hlen
        omega
      · have hnext := hL (chunk + i) (by omega)
        rwa [← Nat.add_assoc] at hnext

/-! ## Reading -/

theorem nmbmReadLogicPage_quiet (nld : LowerDevice) (addr : Nat) (w : World) :
    wp (nmbmReadLogicPage addr) nld (fun _ w' => Quiet w w') w := by
  simp only [nmbmReadLogicPage, wp_bind, wp_ask, wp_get, wp_ite, wp_pure]
  refine ⟨fun _ => Quiet.refl w, fun _ => ⟨fun _ => Quiet.refl w, fun _ => ?_⟩⟩
  exact wp_mono (nmbmReadPhysPage_spec nld _ _ w) (fun _ _ h => h.1)

/-- Reading changes the page cache only. -/
theorem readRangeLoop_phys (nld : LowerDevice) :
    ∀ (fuel off sizeremain : Nat) (eccErr : Bool) (flips : Int) (acc : List UInt8) (w : World),
      wp (readRangeLoop fuel off sizeremain eccErr flips acc) nld (fun _ w' => Phys ∅ w w') w := by
  intro fuel
  induction fuel with
  | zero =>
      intro off sizeremain eccErr flips acc w
      exact Phys.refl ∅ w
  | succ fuel ih =>
      intro off sizeremain eccErr flips acc w
      simp only [readRangeLoop, wp_bind, wp_ask]
      refine wp_mono (nmbmReadLogicPage_quiet nld _ w) ?_
      intro r w₁ h₁
      have hrest : ∀ w₂, Phys ∅ w w₂ → ∀ off sizeremain eccErr flips acc,
          wp (readRangeLoop fuel off sizeremain eccErr flips acc) nld
            (fun _ w' => Phys ∅ w w') w₂ := by
        intro w₂ h₂ off sizeremain eccErr flips acc
        exact wp_mono (ih off sizeremain eccErr flips acc w₂) (fun _ _ h => h₂.trans h)
      have hcache := fun pageCache => (h₁.phys ∅).trans (phys_setPageCache ∅ w₁ pageCache)
      simp only [wp_ite, wp_bind, wp_pure, wp_setPageCache]
      exact ⟨fun _ => ⟨fun _ => hcache _, fun _ => ⟨fun _ => hcache _, fun _ =>
          hrest _ (hcache _) _ _ _ _ _⟩⟩,
        fun _ => ⟨fun _ => h₁.phys ∅, fun _ => ⟨fun _ => h₁.phys ∅, fun _ =>
          hrest _ (h₁.phys ∅) _ _ _ _ _⟩⟩⟩

/-- The specification of {lit}`nmbm_read_range`, as to what it changes. -/
theorem nmbmReadRange_phys (nld : LowerDevice) (addr size : Nat) (w : World) :
    wp (nmbmReadRange addr size) nld (fun _ w' => Phys ∅ w w') w := by
  simp only [nmbmReadRange, wp_bind, wp_ask, wp_get, wp_ite, wp_pure]
  refine ⟨fun _ => Phys.refl ∅ w, fun _ => ⟨fun _ => Phys.refl ∅ w, fun _ =>
    ⟨fun _ => Phys.refl ∅ w, fun _ => ⟨fun _ => Phys.refl ∅ w, fun _ => ?_⟩⟩⟩⟩
  refine wp_mono (readRangeLoop_phys nld _ _ _ _ _ _ w) ?_
  intro r w₁ h₁
  exact ⟨fun _ => h₁, fun _ => ⟨fun _ => h₁, fun _ => h₁⟩⟩

/-! ## Public calls -/

/-- The logic blocks a call names; reading names none, as it changes none. -/
def Call.blocks (nld : LowerDevice) : Call → Set Nat
  | .eraseBlockRange addr size =>
      {lb | 0 < size ∧ nld.addr2ba addr ≤ lb ∧ lb ≤ nld.addr2ba (u64 (addr + size - 1))}
  | .writeSinglePage addr _ _ => {nld.addr2ba addr}
  | .writeRange addr data => {lb | ∃ i, i < data.length ∧ lb = pageBlock nld (addr + i)}
  | .markBadBlock addr => {nld.addr2ba addr}
  | .readSinglePage _ => ∅
  | .readRange _ _ => ∅

/-- The specification of {lit}`nmbm_mark_bad_block`. -/
theorem nmbmMarkBadBlock_spec (hws : 0 < nld.writesize) (hp : Pool nld w.ni) {addr : Nat}
    (hlb : nld.addr2ba addr ∈ L)
    (hS : territory L w.ni ⊆ S) :
    wp (nmbmMarkBadBlock addr) nld (fun _ w' => CallStep nld L S w w') w := by
  have hself : CallStep nld L S w w := CallStep.refl hp
  simp only [nmbmMarkBadBlock, wp_bind, wp_ask, wp_get, wp_ite, wp_pure]
  refine ⟨fun _ => hself, fun _ => ⟨fun _ => hself, fun _ => ⟨fun _ => hself, fun hentry => ?_⟩⟩⟩
  have hentry : 0 ≤ w.ni.entry (nld.addr2ba addr) := not_lt.mp hentry
  have hpb : (w.ni.entry (nld.addr2ba addr)).toNat ∈ S := hS (entry_mem_territory hlb hentry)
  refine wp_drops (fun w₁ hdrop => ?_)
  refine wp_mono (retireBlock_step nld _ w₁) ?_
  rintro _ w₃ ⟨w₂, hmark, hset⟩
  refine wp_logs (fun w₄ hlogs => ?_)
  have hp₃ : Pool nld w₃.ni := hset.pool (hmark.pool (hdrop.pool hp))
  have hp₄ : Pool nld w₄.ni := by
    rw [hlogs.ni]
    exact hp₃
  have h₄ : Step nld L S w w₄ :=
    (((hdrop.step hlb).trans (hmark.step (Set.singleton_subset_iff.mpr hpb))).trans
      (hset.step hpb)).trans (hlogs.step trivial (by simp) (by simp))
  refine wp_mono (nmbmUpdateInfoTable_kept hws hp₄) ?_
  rintro _ w₅ ⟨hu, hp₅, hkept⟩
  refine ⟨h₄.trans (hu.step (h₄.inside hS)), hp₅, fun hf hs hlog _ _ => ?_⟩
  refine hkept hf (h₄.shape hs) hlog.clean (fun hclean => ?_)
  have hchanged := hlog.unmap _ (hu.mem_events (by rw [hlogs.events]; exact List.mem_cons_self))
  rw [decide_eq_true_iff, ← hlogs.ni] at hchanged
  rcases hchanged with hstate | hmapping
  · exact absurd hclean.1 hstate
  · exact absurd hclean.2 hmapping

/-- Every public call is a step on the logic blocks it names. -/
theorem Call.exec_spec (hws : 0 < nld.writesize) (hp : Pool nld w.ni) (call : Call) :
    wp call.exec nld (fun _ w' =>
      CallStep nld (call.blocks nld) (territory (call.blocks nld) w.ni) w w') w := by
  have hself : CallStep nld (call.blocks nld) (territory (call.blocks nld) w.ni) w w :=
    CallStep.refl hp
  cases call with
  | eraseBlockRange addr size =>
      simp only [Call.exec, nmbmEraseBlockRange, wp_bind, wp_ask, wp_get, wp_ite, wp_pure]
      refine ⟨fun _ => hself, fun _ => ⟨fun _ => hself, fun _ => ⟨fun _ => hself, fun _ =>
        ⟨fun _ => hself, fun hsize => ?_⟩⟩⟩⟩
      refine eraseBlocksLoop_spec hws _ _ w hp (fun x hx hx' => ?_) subset_rfl
      exact ⟨by omega, hx, by omega⟩
  | writeSinglePage addr data oob =>
      simp only [Call.exec, nmbmWriteSinglePage, wp_bind, wp_ask, wp_get, wp_ite, wp_pure]
      refine ⟨fun _ => hself, fun _ => ⟨fun _ => hself, fun _ => ?_⟩⟩
      exact nmbmWriteLogicPage_spec hws hp data oob (Set.mem_singleton _) subset_rfl
  | writeRange addr data =>
      simp only [Call.exec, nmbmWriteRange, wp_bind, wp_ask, wp_get, wp_ite, wp_pure]
      refine ⟨fun _ => hself, fun _ => ⟨fun _ => hself, fun _ => ⟨fun _ => hself, fun _ =>
        ⟨fun _ => hself, fun hsize => ?_⟩⟩⟩⟩
      refine writeRangeLoop_spec hws _ _ data w hp (fun hnil => hsize (by rw [hnil]; rfl))
        (fun i hi => ⟨i, hi, rfl⟩) subset_rfl
  | markBadBlock addr =>
      exact nmbmMarkBadBlock_spec hws hp (Set.mem_singleton _) subset_rfl
  | readSinglePage addr =>
      simp only [Call.exec, nmbmReadSinglePage, wp_bind, wp_ask, wp_get, wp_ite, wp_pure]
      refine ⟨fun _ => hself, fun _ => ⟨fun _ => hself, fun _ => ?_⟩⟩
      exact wp_mono (nmbmReadLogicPage_quiet nld addr w) (fun _ _ h => (h.phys ∅).callStep hp)
  | readRange addr size =>
      simp only [Call.exec, wp_bind, wp_pure]
      exact wp_mono (nmbmReadRange_phys nld addr size w) (fun _ _ h => h.callStep hp)

end Nmbm
end ZyxelRouter
