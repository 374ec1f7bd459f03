import Mathlib.Data.Set.Card
import ZyxelRouter.Nmbm.Loops
import ZyxelRouter.Nmbm.Ownership

/-!
# NMBM: updates and erasures end

Every further round of an update needs a block found bad in the last one, and every retry of an erasure
takes a block from the spare pool.  This holds in every state, whatever the lower device answers.

Main results:

- Theorem {lit}`updateOnce_settles`: changes left behind by a round have cost a good block.
- Theorems {lit}`updateInfoTableFuel_within`, {lit}`eraseRetryFuel_within`: some amount of fuel is enough.
- Theorems {lit}`updateInfoTable_counted`, {lit}`eraseLogicBlock_counted`: in the states the manager
  reaches the loops end as those with counts do.
- Theorem {lit}`updates_and_erasures_end`: the calls end.
-/

namespace ZyxelRouter
namespace Nmbm

open Lib Lib.Prog Lib.Fuelled

variable {w₀ w w' w'' : World} {nld : LowerDevice} {fuel : Nat}

/-! ## What an update uses up -/

/-- The blocks on record as good. -/
def goodBlocks (ni : NmbmInstance) : Set Nat :=
  {b | nmbmGetBlockState ni b = blockStGood}

theorem goodBlocks_finite (ni : NmbmInstance) : (goodBlocks ni).Finite := by
  refine (Set.finite_lt_nat (16 * ni.blockState.length)).subset (fun b hb => ?_)
  have hlt := lt_length_of_good hb
  show b < 16 * ni.blockState.length
  omega

/-- No block has become good, and the pool has not grown. -/
structure Wanes (w w' : World) : Prop where
  good : goodBlocks w'.ni ⊆ goodBlocks w.ni
  top : w'.ni.mappingBlocksTopBa ≤ w.ni.mappingBlocksTopBa

theorem Wanes.refl (w : World) : Wanes w w :=
  ⟨subset_rfl, le_rfl⟩

theorem Wanes.trans (h : Wanes w w') (h' : Wanes w' w'') : Wanes w w'' :=
  ⟨h'.good.trans h.good, h'.top.trans h.top⟩

/-- A step that leaves the states alone. -/
theorem wanes_of_states (hstate : w'.ni.blockState = w.ni.blockState)
    (htop : w'.ni.mappingBlocksTopBa ≤ w.ni.mappingBlocksTopBa) : Wanes w w' := by
  refine ⟨fun b hb => ?_, htop⟩
  have hb : nmbmGetBlockState w'.ni b = blockStGood := hb
  show nmbmGetBlockState w.ni b = blockStGood
  rwa [nmbmGetBlockState, hstate] at hb

theorem Mgmt.wanes {S : Set Nat} (h : Mgmt S w w') : Wanes w w' := by
  obtain ⟨pc, bs, n, hni⟩ := h.ni
  refine ⟨fun b hb => ?_, by rw [hni]⟩
  have hb : nmbmGetBlockState w'.ni b = blockStGood := hb
  rcases h.state b with heq | ⟨-, hgood, -⟩
  · exact heq.symm.trans hb
  · exact hgood

/-- A block is recorded as bad. -/
theorem SetsState.wanes {pb : Nat} (h : SetsState pb blockStBad w w') : Wanes w w' := by
  obtain ⟨bs, n, hni⟩ := h.ni
  refine ⟨fun b hb => ?_, by rw [hni]⟩
  have hb : nmbmGetBlockState w'.ni b = blockStGood := hb
  show nmbmGetBlockState w.ni b = blockStGood
  by_cases hself : b = pb
  · subst hself
    rcases h.self with hbad | heq
    · rw [hbad] at hb
      exact absurd hb (by decide)
    · exact heq.symm.trans hb
  · exact (h.other b hself).symm.trans hb

/-- Retired blocks are what is left to be saved. -/
theorem Settled.keep {S : Set Nat} (h : Settled w₀ w) (hw : Wanes w₀ w) (hm : Mgmt S w w') :
    Settled w₀ w' := by
  obtain ⟨pc, bs, n, hni⟩ := hm.ni
  have hmapping : w'.ni.blockMappingChanged = 0 := by
    rw [hni]
    exact h.1
  refine ⟨hmapping, ?_⟩
  have hle := hm.changed
  by_cases hmore : w.ni.blockStateChanged < w'.ni.blockStateChanged
  · obtain ⟨b, hgood, hbad⟩ := hm.retired hmore
    exact .inr ⟨b, hw.good hgood, hbad⟩
  · rcases h.2 with hzero | ⟨b, hgood, hbad⟩
    · exact .inl (by omega)
    · rcases hm.state b with heq | ⟨-, hgood', -⟩
      · exact .inr ⟨b, hgood, heq.trans hbad⟩
      · rw [hbad] at hgood'
        exact absurd hgood' (by decide)

/-- What work on the tables leaves behind, and whether the changes are saved. -/
structure Wears (w₀ : World) (saved : Bool) (w : World) : Prop where
  wanes : Wanes w₀ w
  settled : saved = true → Settled w₀ w

section Wears

variable {saved : Bool}

theorem Wears.mgmt {S : Set Nat} (h : Wears w₀ saved w) (hm : Mgmt S w w') : Wears w₀ saved w' :=
  ⟨h.wanes.trans hm.wanes, fun hsaved => (h.settled hsaved).keep h.wanes hm⟩

theorem Wears.records {main backup mb : Nat} (h : Wears w₀ saved w)
    (hrec : Records w w' main backup mb) : Wears w₀ saved w' := by
  refine ⟨h.wanes.trans (wanes_of_states ?_ ?_), fun hsaved => hrec.settled (h.settled hsaved)⟩
  · rw [hrec.ni]
  · rw [hrec.ni]

theorem Wears.cleans (h : Wears w₀ saved w) (hclean : Cleans nld w w') : Wears w₀ true w' := by
  refine ⟨h.wanes.trans (wanes_of_states ?_ ?_), fun _ => hclean.settled⟩
  · rw [hclean.ni]
  · rw [hclean.ni]

theorem Wears.logs {e : Event} (h : Wears w₀ saved w) (hlog : Logs w w' e) : Wears w₀ saved w' := by
  refine ⟨h.wanes.trans (wanes_of_states ?_ ?_), fun hsaved => ?_⟩
  · rw [hlog.ni]
  · rw [hlog.ni]
  · rw [Settled, hlog.ni]
    exact h.settled hsaved

theorem Wears.unsaved (h : Wears w₀ saved w) : Wears w₀ false w :=
  ⟨h.wanes, by simp⟩

end Wears

/-! ## What a round leaves behind -/

theorem rebuildBackup_wears (hws : 0 < nld.writesize) {mainEnd nextStart : Nat}
    (h : Wears w₀ true w) : wp (rebuildBackup mainEnd nextStart) nld (Wears w₀) w := by
  simp only [rebuildBackup, wp_bind, wp_get]
  refine wp_mono (nmbmWriteInfoTable_spec nld hws _ _ w) ?_
  rintro (_ | ⟨backupStart, backupEnd⟩) w₁ ⟨hm₁, -⟩
  · exact h.mgmt hm₁
  · simp only [wp_bind, wp_pure]
    refine wp_records rfl (fun w₂ hrec => ?_)
    refine wp_mono (nmbmEraseRange_spec nld _ _ w₂) (fun _ w₃ hm₃ => ?_)
    exact ((h.mgmt hm₁).records hrec).mgmt hm₃

theorem nmbmRebuildInfoTable_wears (hws : 0 < nld.writesize) (h : Wears w₀ false w) :
    wp nmbmRebuildInfoTable nld (Wears w₀) w := by
  simp only [nmbmRebuildInfoTable, wp_bind, wp_ask, wp_get]
  refine wp_records rfl (fun w₁ hrec₁ => ?_)
  refine wp_mono (nmbmWriteInfoTable_spec nld hws _ _ w₁) ?_
  rintro (_ | ⟨mainStart, mainEnd⟩) w₂ ⟨hm₂, -⟩
  · have h₂ := (h.records hrec₁).mgmt hm₂
    exact ⟨h₂.wanes.trans (wanes_of_states rfl le_rfl), by simp⟩
  · simp only [wp_bind, wp_get]
    refine wp_records rfl (fun w₃ hrec₃ => wp_cleans (fun w₄ hclean => ?_))
    have h₄ := (((h.records hrec₁).mgmt hm₂).records hrec₃).cleans hclean
    split
    · exact h₄
    · exact rebuildBackup_wears hws h₄

/-- The loops that go down leave the states as one table does. -/
theorem writeDescending_wears (hws : 0 < nld.writesize) {saved : Bool} :
    ∀ (n writeBa : Nat) (w : World),
      Wears w₀ saved w →
      wp (writeDescending n writeBa) nld (fun _ w' => Wears w₀ saved w') w := by
  intro n
  induction n with
  | zero => exact fun _ _ h => h
  | succ n ih =>
      intro writeBa w h
      simp only [writeDescending, wp_bind, wp_get]
      refine wp_mono (nmbmWriteInfoTable_spec nld hws _ _ w) ?_
      rintro (_ | range) w₁ ⟨hm₁, -⟩
      · exact ih (writeBa - 1) w₁ (h.mgmt hm₁)
      · exact h.mgmt hm₁

theorem rewriteBackup_wears (hws : 0 < nld.writesize) {mainEnd : Nat} (h : Wears w₀ true w) :
    wp (rewriteBackup mainEnd) nld (Wears w₀) w := by
  simp only [rewriteBackup, wp_bind, wp_ask, wp_get]
  refine wp_records rfl (fun w₁ hrec₁ => ?_)
  have h₁ := h.records hrec₁
  split
  · simp only [wp_bind, wp_pure]
    exact wp_records rfl (fun w₂ hrec₂ => h₁.records hrec₂)
  · simp only [wp_bind]
    refine wp_mono (writeDescending_wears hws _ _ w₁ h₁) ?_
    rintro (_ | range) w₂ h₂
    · simp only [wp_bind, wp_pure]
      exact wp_records rfl (fun w₃ hrec₃ => h₂.records hrec₃)
    · simp only [wp_bind, wp_pure]
      refine wp_records rfl (fun w₃ hrec₃ => ?_)
      exact wp_mono (nmbmEraseRange_spec nld _ _ w₃) (fun _ w₄ hm₄ => (h₂.records hrec₃).mgmt hm₄)

theorem nmbmRescueMainInfoTable_wears (hws : 0 < nld.writesize) (h : Wears w₀ true w) :
    wp nmbmRescueMainInfoTable nld (Wears w₀) w := by
  simp only [nmbmRescueMainInfoTable, wp_bind, wp_ask, wp_get]
  split
  · simp only [wp_bind, wp_pure]
    exact wp_records rfl (fun w₁ hrec₁ => h.records hrec₁)
  · simp only [wp_bind]
    refine wp_mono (writeDescending_wears hws _ _ w h) ?_
    rintro (_ | ⟨tmpStart, tmpEnd⟩) w₁ h₁
    · simp only [wp_bind, wp_pure]
      exact wp_records rfl (fun w₂ hrec₂ => h₁.records hrec₂)
    · simp only [wp_bind, wp_get]
      refine wp_records rfl (fun w₂ hrec₂ => ?_)
      refine wp_mono (nmbmWriteInfoTable_spec nld hws _ _ w₂) ?_
      rintro (_ | ⟨mainStart, mainEnd⟩) w₃ ⟨hm₃, -⟩
      · simp only [wp_bind, wp_pure]
        refine wp_records rfl (fun w₄ hrec₄ => wp_cleans (fun w₅ hclean => ?_))
        exact (((h₁.records hrec₂).mgmt hm₃).records hrec₄).cleans hclean
      · simp only [wp_bind]
        refine wp_records rfl (fun w₄ hrec₄ => wp_cleans (fun w₅ hclean => ?_))
        have h₅ := (((h₁.records hrec₂).mgmt hm₃).records hrec₄).cleans hclean
        split
        · simp only [wp_bind, wp_pure]
          exact wp_records rfl (fun w₆ hrec₆ => h₅.records hrec₆)
        · exact rewriteBackup_wears hws h₅

/-- The main table is written, or what becomes of it if that fails.  A backup table on record has
saved the changes. -/
theorem writeMainTable_wears (hws : 0 < nld.writesize) {limit : Nat} (h : Wears w₀ false w)
    (hback : w.ni.backupTableBa ≠ 0 → Wears w₀ true w) :
    wp (writeMainTable limit) nld (Wears w₀) w := by
  simp only [writeMainTable, wp_bind, wp_get]
  split
  · exact nmbmRebuildInfoTable_wears hws h
  by_cases hzero : w.ni.backupTableBa = 0
  · simp only [if_pos hzero, wp_bind]
    refine wp_logs (fun w₁ hlog => ?_)
    refine wp_mono (nmbmWriteInfoTable_spec nld hws _ _ w₁) ?_
    rintro (_ | range) w₂ ⟨hm₂, -⟩
    · exact nmbmRebuildInfoTable_wears hws ((h.logs hlog).mgmt hm₂)
    · simp only [wp_bind, wp_pure]
      refine wp_records rfl (fun w₃ hrec => wp_cleans (fun w₄ hclean => ?_))
      exact (((h.logs hlog).mgmt hm₂).records hrec).cleans hclean
  · simp only [if_neg hzero, wp_bind]
    refine wp_mono (nmbmWriteInfoTable_spec nld hws _ _ w) ?_
    rintro (_ | range) w₁ ⟨hm₁, -⟩
    · exact nmbmRescueMainInfoTable_wears hws ((hback hzero).mgmt hm₁)
    · simp only [wp_bind, wp_pure]
      refine wp_records rfl (fun w₂ hrec => wp_cleans (fun w₃ hclean => ?_))
      exact ((h.mgmt hm₁).records hrec).cleans hclean

/-- A round that succeeds saves the changes, and what it leaves behind has cost a good block. -/
theorem updateOnce_settles (hws : 0 < nld.writesize)
    (hchanged : w.ni.blockStateChanged ≠ 0 ∨ w.ni.blockMappingChanged ≠ 0) :
    wp (nmbmUpdateInfoTableOnce false) nld (Wears w) w := by
  simp only [nmbmUpdateInfoTableOnce, wp_bind]
  refine wp_mono (nmbmGenerateInfoTableCache_spec nld w) ?_
  rintro changed w₁ ⟨hiff, hdr, hgen⟩
  have h₁ : Wears w false w₁ := by
    refine ⟨wanes_of_states ?_ ?_, by simp⟩
    · rw [hgen.ni]
    · rw [hgen.ni]
  rw [hiff.mpr hchanged]
  simp only [Bool.not_true, Bool.false_and, Bool.false_eq_true, if_false, wp_bind, wp_get]
  split
  · rename_i hback
    exact writeMainTable_wears hws h₁ (fun hne => absurd hback hne)
  · simp only [wp_bind]
    refine wp_mono (nmbmWriteInfoTable_spec nld hws _ _ w₁) ?_
    rintro (_ | ⟨tableStart, tableEnd⟩) w₂ ⟨hm₂, -⟩
    · simp only [wp_bind]
      refine wp_records rfl (fun w₃ hrec => ?_)
      exact writeMainTable_wears hws ((h₁.mgmt hm₂).records hrec) (fun hne => absurd hrec.backup_eq hne)
    · simp only [wp_bind]
      refine wp_records rfl (fun w₃ hrec => wp_cleans (fun w₄ hclean => ?_))
      have h₄ := ((h₁.mgmt hm₂).records hrec).cleans hclean
      exact writeMainTable_wears hws h₄.unsaved (fun _ => h₄)

/-! ## The loop of an update -/

/-- Enough fuel for the rounds of an update and the loops in them. -/
structure Enough (nld : LowerDevice) (N : Nat) (w : World) : Prop where
  rounds : (goodBlocks w.ni).ncard + 2 ≤ N
  blocks : nld.blockCount + 2 ≤ N

theorem Enough.keep {N : Nat} (h : Enough nld N w) (hgood : goodBlocks w'.ni ⊆ goodBlocks w.ni) :
    Enough nld N w' := by
  have hle := Set.ncard_le_ncard hgood (goodBlocks_finite _)
  have hrounds := h.rounds
  exact ⟨by omega, h.blocks⟩

/-- After a round that succeeds no change is left, or fewer blocks are good. -/
theorem updateOnce_progress (hws : 0 < nld.writesize)
    (hchanged : w.ni.blockStateChanged ≠ 0 ∨ w.ni.blockMappingChanged ≠ 0) :
    wp (nmbmUpdateInfoTableOnce false) nld (fun ok w' =>
      ok = true → True ∧
        (Clean w'.ni ∨ (goodBlocks w'.ni).ncard < (goodBlocks w.ni).ncard)) w := by
  refine wp_mono (updateOnce_settles hws hchanged) (fun _ w' h hok => ⟨trivial, ?_⟩)
  obtain ⟨hmapping, hstate | ⟨b, hgood, hbad⟩⟩ := h.settled hok
  · exact .inl ⟨hstate, hmapping⟩
  · refine .inr (Set.ncard_lt_ncard ⟨h.wanes.good, fun hsub => ?_⟩ (goodBlocks_finite _))
    have hstill : nmbmGetBlockState w'.ni b = blockStGood := hsub hgood
    rw [hbad] at hstill
    exact absurd hstill (by decide)

theorem updateLoop_wanes (hws : 0 < nld.writesize) :
    ∀ (rounds : Nat) (w : World), wp (updateLoop rounds) nld (fun _ w' => Wanes w w') w := by
  intro rounds
  induction rounds with
  | zero => exact Wanes.refl
  | succ rounds ih =>
      intro w
      simp only [updateLoop, wp_bind, wp_get]
      split
      · rename_i hchanged
        simp only [wp_bind]
        refine wp_mono (updateOnce_settles hws hchanged) ?_
        rintro (_ | _) w₁ h₁
        · exact h₁.wanes
        · exact wp_mono (ih w₁) (fun _ _ h₂ => h₁.wanes.trans h₂)
      · exact Wanes.refl w

theorem updateInfoTableFuel_within (hws : 0 < nld.writesize) {N : Nat} (h : Enough nld N w) :
    EndsWithin N updateInfoTableFuel nld (fun _ w' => Wanes w w') w := by
  by_cases hprot : w.ni.isProtected = true
  · refine endsWithin_of_ends (d := pure true) (fun fuel _ => ?_) (Wanes.refl w)
    rw [updateInfoTableFuel, ends_get_left, if_pos hprot]
    exact ends_pure true
  · refine endsWithin_of_ends (d := updateLoop ((goodBlocks w.ni).ncard + 2)) (fun fuel hfuel => ?_)
      (updateLoop_wanes hws _ w)
    rw [updateInfoTableFuel, ends_get_left, if_neg hprot]
    obtain ⟨spare, hspare⟩ := Nat.exists_eq_add_of_le (h.rounds.trans hfuel)
    have hends := updateLoopFuel_ends hws (h.blocks.trans hfuel)
      (fun _ => True) (fun w => (goodBlocks w.ni).ncard)
      (fun w _ hchanged => updateOnce_progress hws hchanged) spare _ w trivial (.inr le_rfl)
    rwa [← hspare] at hends

/-! ## The retries of an erasure -/

/-- A success took a block from the pool. -/
structure Takes (w : World) (ok : Bool) (w' : World) : Prop where
  good : goodBlocks w'.ni ⊆ goodBlocks w.ni
  top : ok = true → w'.ni.mappingBlocksTopBa < w.ni.mappingBlocksTopBa

theorem mapBlockFuel_within (hws : 0 < nld.writesize) {N : Nat} (h : Enough nld N w) (lb : Nat) :
    EndsWithin N (fun fuel => mapBlockFuel fuel lb) nld (Takes w) w := by
  refine endsWithin_lift_bind (wp_ask.mpr (endsWithin_lift_bind (wp_get.mpr ?_)))
  dsimp only
  by_cases hempty : w.ni.mappingBlocksBa = w.ni.mappingBlocksTopBa
  · simp only [if_pos hempty]
    exact endsWithin_pure ⟨subset_rfl, by simp⟩
  simp only [if_neg hempty]
  cases hwalk : nmbmBlockWalk nld w.ni false w.ni.mappingBlocksTopBa 0 w.ni.mappingBlocksBa with
  | none =>
      refine endsWithin_bind (updateInfoTableFuel_within hws h) (fun _ w₁ h₁ => endsWithin_lift ?_)
      exact ⟨h₁.good, by simp⟩
  | some pb =>
      have hpos : 0 < w.ni.mappingBlocksTopBa := by
        simp only [nmbmBlockWalk, nmbmBlockWalkDesc, Bool.false_eq_true, if_false] at hwalk
        have hbounds := walkDesc_bounds (Nat.sub_le _ _) hwalk
        omega
      have hlower : u32Sub w.ni.mappingBlocksTopBa 1 < w.ni.mappingBlocksTopBa := by
        rw [u32Sub, u32]
        omega
      exact endsWithin_lift ⟨subset_rfl, fun _ => hlower⟩

theorem condemnBlock_wanes (pb : Nat) : wp (condemnBlock pb) nld (fun _ w' => Wanes w w') w := by
  refine wp_mono (condemnBlock_spec nld pb w) ?_
  rintro _ w' (rfl | hset)
  · exact Wanes.refl w'
  · exact hset.wanes

theorem remapLogicBlockFuel_within (hws : 0 < nld.writesize) {N : Nat} (h : Enough nld N w)
    (lb pb : Nat) : EndsWithin N (fun fuel => remapLogicBlockFuel fuel lb pb) nld (Takes w) w := by
  refine endsWithin_bind (mapBlockFuel_within hws h lb) ?_
  rintro (_ | _) w₁ h₁
  · simp only [Bool.false_eq_true, if_false]
    refine endsWithin_lift_bind ?_
    simp only [wp_bind]
    refine wp_drops (fun w₂ hdrop => wp_mono (condemnBlock_wanes pb) (fun _ w₃ h₃ => ?_))
    refine wp_logs (fun w₄ hlog => ?_)
    have hgood : goodBlocks w₄.ni ⊆ goodBlocks w.ni := by
      have h₂ : Wanes w₁ w₂ := wanes_of_states (by rw [hdrop.ni]) (by rw [hdrop.ni])
      rw [hlog.ni]
      exact (h₂.trans h₃).good.trans h₁.good
    refine endsWithin_bind (updateInfoTableFuel_within hws (h.keep hgood)) (fun _ w₅ h₅ => ?_)
    exact endsWithin_pure ⟨h₅.good.trans hgood, by simp⟩
  · simp only [if_true]
    refine endsWithin_lift_bind (wp_mono (condemnBlock_wanes pb) (fun _ w₂ h₂ => ?_))
    have hgood := h₂.good.trans h₁.good
    refine endsWithin_bind (updateInfoTableFuel_within hws (h.keep hgood)) (fun _ w₃ h₃ => ?_)
    have htop := h₁.top rfl
    have htop₂ := h₂.top
    have htop₃ := h₃.top
    exact endsWithin_pure ⟨h₃.good.trans hgood, fun _ => by omega⟩

theorem eraseMapped_wanes (pb : Nat) : wp (eraseMapped pb) nld (fun _ w' => Wanes w w') w := by
  simp only [eraseMapped, wp_bind, wp_get, wp_ite, wp_pure]
  refine ⟨fun _ => Wanes.refl w, fun _ => ?_⟩
  refine wp_mono (nmbmCheckBadPhysBlock_spec nld pb w) ?_
  rintro bad w₁ ⟨hcheck, -, -⟩
  have h₁ := hcheck.mgmt.wanes
  refine ⟨fun _ => ?_, fun _ => ?_⟩
  · exact wp_mono (nmbmSetBlockState_spec nld pb blockStBad w₁) (fun _ _ hset => h₁.trans hset.wanes)
  · refine wp_mono (nmbmEraseBlockAndCheck_spec nld pb w₁) (fun success w₂ herase => ?_)
    have h₂ := h₁.trans herase.toPhys.mgmt.wanes
    refine ⟨fun _ => wp_mono (retireBlock_step nld pb w₂) ?_, fun _ => h₂⟩
    rintro _ w₄ ⟨w₃, hmark, hset⟩
    exact (h₂.trans hmark.mgmt.wanes).trans hset.wanes

/-- Every retry has a smaller pool, whatever the erasures, updates and rescues do. -/
theorem eraseRetryFuel_within (hws : 0 < nld.writesize) {N : Nat} (lb : Nat) :
    ∀ (tries used : Nat) (w : World),
      Enough nld N w →
      w.ni.mappingBlocksTopBa < tries →
      tries + used ≤ N →
      EndsWithin N (fun fuel => eraseRetryFuel fuel lb (fuel - used)) nld (fun _ _ => True) w := by
  intro tries
  induction tries with
  | zero =>
      intro used w _ htop _
      exact absurd htop (Nat.not_lt_zero _)
  | succ tries ih =>
      intro used w h htop hN
      have hround : ∀ fuel, N ≤ fuel →
          eraseRetryFuel fuel lb (fuel - used) = eraseRetryFuel fuel lb (fuel - (used + 1) + 1) := by
        intro fuel hfuel
        congr 1
        omega
      refine endsWithin_congr ?_ hround
      simp only [eraseRetryFuel]
      refine endsWithin_lift_bind (wp_get.mpr ?_)
      by_cases hentry : w.ni.blockMapping.getD lb (-1) < 0
      · simp only [if_pos hentry]
        exact endsWithin_pure trivial
      simp only [if_neg hentry]
      refine endsWithin_lift_bind (wp_mono (eraseMapped_wanes _) ?_)
      rintro (_ | _) w₁ h₁
      · simp only [Bool.false_eq_true, if_false]
        refine endsWithin_bind (remapLogicBlockFuel_within hws (h.keep h₁.good) lb _) ?_
        rintro (_ | _) w₂ h₂
        · exact endsWithin_pure trivial
        · have htop₁ := h₁.top
          have htop₂ := h₂.top rfl
          exact ih (used + 1) w₂ (h.keep (h₂.good.trans h₁.good)) (by omega) (by omega)
      · exact endsWithin_pure trivial

/-! ## The loops with counts

In the states the manager reaches the counts of {lit}`nmbmUpdateInfoTable` and
{lit}`nmbmEraseLogicBlock` never run out. -/

section Counted

variable {lb pb : Nat}

theorem updateInfoTable_counted (hws : 0 < nld.writesize) (hfuel : nld.blockCount + 2 ≤ fuel)
    (hp : Pool nld w.ni) : Ends (updateInfoTableFuel fuel) nmbmUpdateInfoTable nld w := by
  rw [updateInfoTableFuel, nmbmUpdateInfoTable, ends_get_left, ends_ask_right, ends_get_right]
  by_cases hprot : w.ni.isProtected = true
  · rw [if_pos hprot, if_pos hprot]
    exact ends_pure true
  rw [if_neg hprot, if_neg hprot]
  obtain ⟨spare, rfl⟩ := Nat.exists_eq_add_of_le hfuel
  have hle := goodCount_le nld w.ni
  refine updateLoopFuel_ends hws hfuel (fun w => Pool nld w.ni) (fun w => goodCount nld w.ni)
    (fun w hp hchanged => ?_) spare _ w hp (.inr (by omega))
  refine wp_mono (nmbmUpdateInfoTableOnce_spec hws hp hchanged) ?_
  rintro _ w₂ ⟨w₁, hdr, hgen, ho⟩ rfl
  have hupkeep := hgen.upkeep.trans ho.rewrite.toUpkeep
  exact ⟨ho.pool, (ho.settled rfl).progress hgen.upkeep hupkeep hp.toBounds⟩

theorem mapBlock_counted (hws : 0 < nld.writesize) (hfuel : nld.blockCount + 2 ≤ fuel)
    (hp : Pool nld w.ni) : Ends (mapBlockFuel fuel lb) (nmbmMapBlock lb) nld w := by
  rw [mapBlockFuel, nmbmMapBlock, ends_ask_left, ends_ask_right, ends_get_left, ends_get_right]
  dsimp only
  by_cases hempty : w.ni.mappingBlocksBa = w.ni.mappingBlocksTopBa
  · rw [if_pos hempty, if_pos hempty]
    exact ends_pure false
  rw [if_neg hempty, if_neg hempty]
  cases nmbmBlockWalk nld w.ni false w.ni.mappingBlocksTopBa 0 w.ni.mappingBlocksBa with
  | none =>
      refine ends_bind (updateInfoTable_counted hws hfuel hp) (wp_mono (wp_run _ nld w) ?_)
      exact fun _ _ _ => ends_lift _
  | some pb => exact ends_lift _

theorem remapLogicBlock_counted (hws : 0 < nld.writesize) (hfuel : nld.blockCount + 2 ≤ fuel)
    (hp : Pool nld w.ni) : Ends (remapLogicBlockFuel fuel lb pb) (remapLogicBlock lb pb) nld w := by
  rw [remapLogicBlockFuel, remapLogicBlock]
  refine ends_bind (mapBlock_counted hws hfuel hp)
    (wp_mono (nmbmMapBlock_spec hws hp (Set.subset_univ _)) ?_)
  rintro (_ | _) w₁ ⟨-, hp₁, -⟩
  · simp only [Bool.false_eq_true, if_false]
    rw [ends_lift_assoc]
    refine ends_lift_bind (wp_drops (fun w₂ hdrop => ?_))
    rw [ends_lift_assoc]
    refine ends_lift_bind
      (wp_mono (condemnBlock_step (L := ∅) (hdrop.pool hp₁) (Set.mem_univ pb)) ?_)
    rintro _ w₃ ⟨-, hp₃, -⟩
    refine ends_lift_bind (wp_logs (fun w₄ hlog => ?_))
    have hp₄ : Pool nld w₄.ni := by
      rw [hlog.ni]
      exact hp₃
    refine ends_bind (updateInfoTable_counted hws hfuel hp₄) (wp_mono (wp_run _ nld w₄) ?_)
    exact fun _ _ _ => ends_pure false
  · simp only [if_true]
    refine ends_lift_bind (wp_mono (condemnBlock_step (L := ∅) hp₁ (Set.mem_univ pb)) ?_)
    rintro _ w₂ ⟨-, hp₂, -⟩
    refine ends_bind (updateInfoTable_counted hws hfuel hp₂) (wp_mono (wp_run _ nld w₂) ?_)
    exact fun _ _ _ => ends_pure true

/-- A replaced block comes from the pool. -/
theorem remapLogicBlock_takes (hws : 0 < nld.writesize) (hp : Pool nld w.ni) :
    wp (remapLogicBlock lb pb) nld (Takes w) w := by
  have h : Enough nld ((goodBlocks w.ni).ncard + nld.blockCount + 2) w := ⟨by omega, by omega⟩
  exact wp_of_endsWithin (remapLogicBlockFuel_within hws h lb pb)
    (remapLogicBlock_counted hws h.blocks hp)

theorem eraseRetry_counted (hws : 0 < nld.writesize) (hfuel : nld.blockCount + 2 ≤ fuel)
    (lb spare : Nat) :
    ∀ (tries : Nat) (w : World),
      Pool nld w.ni →
      w.ni.mappingBlocksTopBa < tries →
      Ends (eraseRetryFuel fuel lb (tries + spare)) (eraseRetry lb tries) nld w := by
  intro tries
  induction tries with
  | zero =>
      intro w _ htop
      exact absurd htop (Nat.not_lt_zero _)
  | succ tries ih =>
      intro w hp htop
      rw [Nat.add_right_comm, eraseRetryFuel, eraseRetry, ends_get_left, ends_get_right]
      dsimp only
      by_cases hentry : w.ni.blockMapping.getD lb (-1) < 0
      · rw [if_pos hentry, if_pos hentry]
        exact ends_pure (-eIo)
      rw [if_neg hentry, if_neg hentry]
      have hstep := eraseMapped_spec (L := ∅) hp (Set.mem_univ (w.ni.blockMapping.getD lb (-1)).toNat)
      refine ends_lift_bind (wp_mono (wp_and hstep (eraseMapped_wanes _)) ?_)
      rintro (_ | _) w₁ ⟨⟨-, hp₁, -⟩, h₁⟩
      · refine ends_bind (remapLogicBlock_counted hws hfuel hp₁) ?_
        refine wp_mono (wp_and (remapLogicBlock_spec hws hp₁ (Set.subset_univ _) (Set.mem_univ _))
          (remapLogicBlock_takes hws hp₁)) ?_
        rintro (_ | _) w₂ ⟨⟨-, hp₂, -⟩, h₂⟩
        · exact ends_pure (-eIo)
        · have htop₁ := h₁.top
          have htop₂ := h₂.top rfl
          exact ih w₂ hp₂ (by omega)
      · exact ends_pure 0

theorem eraseLogicBlock_counted (hws : 0 < nld.writesize) (hfuel : nld.blockCount + 2 ≤ fuel)
    (hp : Pool nld w.ni) : Ends (eraseLogicBlockFuel fuel lb) (nmbmEraseLogicBlock lb) nld w := by
  have htop := hp.top_lt
  have hsig := hp.signature_lt
  rw [eraseLogicBlockFuel, nmbmEraseLogicBlock, ends_get_right]
  have hle : w.ni.mappingBlocksTopBa + 2 ≤ fuel := by omega
  obtain ⟨spare, hspare⟩ := Nat.exists_eq_add_of_le hle
  have hends := eraseRetry_counted hws hfuel lb spare (w.ni.mappingBlocksTopBa + 2) w hp (by omega)
  rwa [← hspare] at hends

end Counted

/-! ## The calls end -/

/-- The manager's loops end, in every state and whatever the lower device answers: those of an update, with
the rescue of the main table, and those of an erasure.  The rescue of a single table, which belongs to
attaching, ends unless the spare blocks begin at block 0. -/
theorem updates_and_erasures_end {nld₀ : LowerDevice} (haccepted : nmbmCheckLowerMembers nld₀ = some nld)
    (w : World) :
    (∃ N ok w', ∀ fuel, N ≤ fuel → run (updateInfoTableFuel fuel).run nld w = (some ok, w')) ∧
      (∀ lb, ∃ N ret w', ∀ fuel, N ≤ fuel →
        run (eraseLogicBlockFuel fuel lb).run nld w = (some ret, w')) ∧
      (w.ni.mappingBlocksBa ≠ 0 → ∃ N ok w', ∀ fuel, N ≤ fuel →
        run (rescueSingleFuel fuel).run nld w = (some ok, w')) := by
  have hws := writesize_pos_of_accepted haccepted
  have henough : ∀ extra, Enough nld ((goodBlocks w.ni).ncard + nld.blockCount + 2 + extra) w :=
    fun extra => ⟨by omega, by omega⟩
  refine ⟨?_, fun lb => ?_, fun hmb => ?_⟩
  · obtain ⟨ok, w', hrun, -⟩ := updateInfoTableFuel_within hws (henough 0)
    exact ⟨_, ok, w', hrun⟩
  · obtain ⟨ret, w', hrun, -⟩ := eraseRetryFuel_within hws lb (w.ni.mappingBlocksTopBa + 1) 0 w
      (henough (w.ni.mappingBlocksTopBa + 1)) (Nat.lt_succ_self _) (by omega)
    exact ⟨_, ret, w', hrun⟩
  · exact ⟨_, _, _, fun fuel hfuel => rescueSingleFuel_ends hws hfuel hmb⟩

/-- The calls on a new instance. -/
theorem updates_and_erasures_end_small : ∃ w, CreatedBy smallChip (blankFlash []) smallChip w ∧
    (∃ N ok w', ∀ fuel, N ≤ fuel → run (updateInfoTableFuel fuel).run smallChip w = (some ok, w')) ∧
    (∃ N ret w', ∀ fuel, N ≤ fuel →
      run (eraseLogicBlockFuel fuel 7).run smallChip w = (some ret, w')) ∧
    ∃ N ok w', ∀ fuel, N ≤ fuel → run (rescueSingleFuel fuel).run smallChip w = (some ok, w') := by
  obtain ⟨w, hcreated, hnew⟩ := attach_blank
  have hmb : w.ni.mappingBlocksBa ≠ 0 := by
    rw [hnew.mb]
    exact Nat.succ_ne_zero _
  obtain ⟨hupdate, herase, hrescue⟩ := updates_and_erasures_end accepted_smallChip w
  exact ⟨w, hcreated, hupdate, herase 7, hrescue hmb⟩

end Nmbm
end ZyxelRouter
