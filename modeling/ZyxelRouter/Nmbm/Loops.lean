import ZyxelRouter.Lib.Fuelled
import ZyxelRouter.Nmbm.Calls

/-!
# NMBM: the loops of updates and erasures

The loops of {lit}`nmbm_update_info_table`, {lit}`nmbm_erase_logic_block` and the rescue routines
run until a condition holds, and some go down in unsigned arithmetic.  Here they are recursions on
fuel without a result when it runs out.

Main results:

- Theorem {lit}`descendLoop_ends`: a loop that goes down to a block other than block 0 ends.
- Theorems {lit}`rescueMainFuel_ends`, {lit}`rescueSingleFuel_ends`: so do the rescue routines.
- Theorem {lit}`updateOnceFuel_ends`: so does one round of an update, in every state.
- Theorem {lit}`updateLoopFuel_ends`: so do the rounds, if each uses something up.
- Theorem {lit}`loadInfoTableFuel_ends`: so does loading, where a single table is rescued.
-/

namespace ZyxelRouter
namespace Nmbm

open Lib Lib.Prog Lib.Fuelled

variable {w w' : World} {nld : LowerDevice} {fuel : Nat}

/-- Programs of the manager whose loops may not end. -/
abbrev NmbmFuelled (α : Type) :=
  Fuelled LowerDevice World α

/-! ## The routines -/

/-- The loops {lit}`while (write_ba >= bottom)`. -/
def descendLoop (bottom : NmbmInstance → Nat) : Nat → Nat → NmbmFuelled (Option (Nat × Nat))
  | 0, _ => outOfFuel
  | fuel + 1, writeBa => do
      let w ← lift get
      if writeBa < bottom w.ni then return none
      match ← lift (nmbmWriteInfoTable writeBa w.ni.mappingBlocksTopBa) with
      | some range => return some range
      | none => descendLoop bottom fuel (u32Sub writeBa 1)

/-- The end of {lit}`nmbm_rescue_main_info_table` with its loop. -/
def rewriteBackupFuel (fuel mainEnd : Nat) : NmbmFuelled Bool := do
  let nld ← lift ask
  lift (modifyNi (fun ni => { ni with mappingBlocksBa := mainEnd }))
  let w ← lift get
  match reserveSpare nld w.ni mainEnd with
  | none => lift (do
      modifyNi (fun ni => { ni with backupTableBa := 0 })
      pure true)
  | some writeBa => do
      match ← descendLoop (fun _ => mainEnd) fuel writeBa with
      | none => lift (do
          modifyNi (fun ni => { ni with backupTableBa := 0 })
          pure true)
      | some (backupStart, backupEnd) => lift (do
          modifyNi (fun ni =>
            { ni with backupTableBa := backupStart, mappingBlocksBa := backupEnd })
          nmbmEraseRange (backupStart - mainEnd) mainEnd
          pure true)

/-- {lit}`nmbm_rescue_main_info_table` with its loops. -/
def rescueMainFuel (fuel : Nat) : NmbmFuelled Bool := do
  let nld ← lift ask
  let w ← lift get
  let backupBecomesMain : NmbmM Bool := do
    modifyNi (fun ni => { ni with mainTableBa := ni.backupTableBa, backupTableBa := 0 })
    pure true
  match reserveSpare nld w.ni w.ni.mappingBlocksBa with
  | none => lift backupBecomesMain
  | some writeBa => do
      match ← descendLoop (fun ni => ni.mappingBlocksBa) fuel writeBa with
      | none => lift backupBecomesMain
      | some (tmpStart, tmpEnd) => do
          lift (modifyNi (fun ni => { ni with mappingBlocksBa := tmpEnd }))
          let w ← lift get
          match ← lift (nmbmWriteInfoTable w.ni.mgmtStartBa tmpStart) with
          | none => lift (do
              modifyNi (fun ni => { ni with mainTableBa := tmpStart, backupTableBa := 0 })
              nmbmMarkTablesClean
              pure true)
          | some (mainStart, mainEnd) => do
              lift (modifyNi (fun ni => { ni with mainTableBa := mainStart }))
              lift nmbmMarkTablesClean
              if mainEnd ≤ tmpStart then
                lift (do
                  modifyNi (fun ni => { ni with backupTableBa := tmpStart })
                  pure true)
              else rewriteBackupFuel fuel mainEnd

/-- {lit}`nmbm_rescue_single_info_table` with its loop. -/
def rescueSingleFuel (fuel : Nat) : NmbmFuelled Bool := do
  let nld ← lift ask
  let w ← lift get
  match ← lift (nmbmWriteInfoTable w.ni.mgmtStartBa w.ni.mainTableBa) with
  | some (tableStart, tableEnd) => lift (do
      let w ← get
      let backup := w.ni.mainTableBa
      modifyNi (fun ni => { ni with backupTableBa := backup, mainTableBa := tableStart })
      nmbmMarkTablesClean
      nmbmEraseRange (backup - tableEnd) tableEnd
      pure true)
  | none => do
      let w ← lift get
      let mb := w.ni.mappingBlocksBa
      match reserveSpare nld w.ni mb with
      | none => return false
      | some writeBa => do
          match ← descendLoop (fun ni => ni.mappingBlocksBa) fuel writeBa with
          | some (tableStart, tableEnd) => lift (do
              nmbmEraseRange (tableStart - mb) mb
              modifyNi (fun ni =>
                { ni with backupTableBa := tableStart, mappingBlocksBa := tableEnd })
              nmbmMarkTablesClean
              pure true)
          | none => return false

/-- The label {lit}`write_main_table` with the loops of the rescue. -/
def writeMainTableFuel (fuel mainTableLimit : Nat) : NmbmFuelled Bool := do
  let w ← lift get
  if w.ni.mainTableBa = 0 then
    lift nmbmRebuildInfoTable
  else do
    lift (if w.ni.backupTableBa = 0 then
      logEvent (fun _ chip => .loneRewrite chip.history.length) else pure ())
    match ← lift (nmbmWriteInfoTable w.ni.mainTableBa mainTableLimit) with
    | none =>
        if w.ni.backupTableBa = 0 then lift nmbmRebuildInfoTable
        else rescueMainFuel fuel
    | some (tableStart, tableEnd) => lift (do
        modifyNi (fun ni =>
          { ni with
            mainTableBa := tableStart
            mappingBlocksBa := if ni.backupTableBa = 0 then tableEnd else ni.mappingBlocksBa })
        nmbmMarkTablesClean
        pure true)

/-- {lit}`nmbm_update_info_table_once` with the loops of the rescue. -/
def updateOnceFuel (fuel : Nat) (force : Bool) : NmbmFuelled Bool := do
  let changed ← lift nmbmGenerateInfoTableCache
  if !changed && !force then
    return true
  else do
    let w ← lift get
    if w.ni.backupTableBa = 0 then
      writeMainTableFuel fuel w.ni.mappingBlocksTopBa
    else do
      match ← lift (nmbmWriteInfoTable w.ni.backupTableBa w.ni.mappingBlocksTopBa) with
      | none => do
          lift (modifyNi (fun ni =>
            { ni with mappingBlocksBa := ni.backupTableBa, backupTableBa := 0 }))
          writeMainTableFuel fuel w.ni.mappingBlocksTopBa
      | some (tableStart, tableEnd) => do
          lift (modifyNi (fun ni =>
            { ni with backupTableBa := tableStart, mappingBlocksBa := tableEnd }))
          lift nmbmMarkTablesClean
          writeMainTableFuel fuel tableStart

/-- The loop of {lit}`nmbm_update_info_table`. -/
def updateLoopFuel (fuel : Nat) : Nat → NmbmFuelled Bool
  | 0 => outOfFuel
  | rounds + 1 => do
      let w ← lift get
      if w.ni.blockStateChanged ≠ 0 ∨ w.ni.blockMappingChanged ≠ 0 then do
        let success ← updateOnceFuel fuel false
        if !success then return false else updateLoopFuel fuel rounds
      else return true

/-- {lit}`nmbm_update_info_table` with its loops. -/
def updateInfoTableFuel (fuel : Nat) : NmbmFuelled Bool := do
  let w ← lift get
  if w.ni.isProtected then return true
  else updateLoopFuel fuel fuel

/-- {lit}`nmbm_map_block` with the loops of the update. -/
def mapBlockFuel (fuel lb : Nat) : NmbmFuelled Bool := do
  let nld ← lift ask
  let w ← lift get
  let top := w.ni.mappingBlocksTopBa
  if w.ni.mappingBlocksBa = top then
    return false
  else
    match nmbmBlockWalk nld w.ni false top 0 w.ni.mappingBlocksBa with
    | none => do
        let _ ← updateInfoTableFuel fuel
        lift (do
          modifyNi (fun ni => { ni with mappingBlocksTopBa := ni.mappingBlocksBa })
          pure false)
    | some pb => lift (do
        logEvent (fun ni _ => .map (nmbmGetBlockState ni top == blockStGood))
        modifyNi (fun ni =>
          { ni with
            blockMapping := ni.blockMapping.set lb pb
            mappingBlocksTopBa := u32Sub ni.mappingBlocksTopBa 1
            blockMappingChanged := ni.blockMappingChanged + 1 })
        pure true)

/-- The label {lit}`remap_logic_block` with the loops of the update. -/
def remapLogicBlockFuel (fuel lb pb : Nat) : NmbmFuelled Bool := do
  let success ← mapBlockFuel fuel lb
  if success then do
    lift (condemnBlock pb)
    let _ ← updateInfoTableFuel fuel
    return true
  else do
    lift (do
      modifyNi (fun ni => { ni with blockMapping := ni.blockMapping.set lb (-1) })
      condemnBlock pb
      logEvent (fun ni _ =>
        .unmap (decide (ni.blockStateChanged ≠ 0 ∨ ni.blockMappingChanged ≠ 0))))
    let _ ← updateInfoTableFuel fuel
    return false

/-- The label {lit}`retry` of {lit}`nmbm_erase_logic_block`. -/
def eraseRetryFuel (fuel lb : Nat) : Nat → NmbmFuelled Int
  | 0 => outOfFuel
  | tries + 1 => do
      let w ← lift get
      let entry := w.ni.blockMapping.getD lb (-1)
      if entry < 0 then return -eIo
      let usable ← lift (eraseMapped entry.toNat)
      if usable then return 0
      let mapped ← remapLogicBlockFuel fuel lb entry.toNat
      if mapped then eraseRetryFuel fuel lb tries else return -eIo

/-- {lit}`nmbm_erase_logic_block` with its loops. -/
def eraseLogicBlockFuel (fuel lb : Nat) : NmbmFuelled Int :=
  eraseRetryFuel fuel lb fuel

/-! ## Loops that go down -/

/-- A loop that goes down to a block other than block 0 ends as the loop with a count does. -/
theorem descendLoop_ends (hws : 0 < nld.writesize) {bottom : NmbmInstance → Nat}
    (hbottom : ∀ S w w', Mgmt S w w' → bottom w'.ni = bottom w.ni) :
    ∀ (n fuel writeBa : Nat) (w : World),
      bottom w.ni ≠ 0 → writeBa < 2 ^ 32 → n = writeBa + 1 - bottom w.ni → n < fuel →
      Ends (descendLoop bottom fuel writeBa) (writeDescending n writeBa) nld w := by
  intro n
  induction n with
  | zero =>
      intro fuel writeBa w hzero _ hn hfuel
      obtain ⟨fuel, rfl⟩ := Nat.exists_eq_add_one.mpr hfuel
      rw [descendLoop, ends_get_left, if_pos (by omega)]
      exact ends_pure none
  | succ n ih =>
      intro fuel writeBa w hzero hlt hn hfuel
      obtain ⟨fuel, rfl⟩ := Nat.exists_eq_add_one.mpr (Nat.zero_lt_of_lt hfuel)
      rw [descendLoop, ends_get_left, if_neg (by omega), writeDescending, ends_get_right]
      refine ends_lift_bind (wp_mono (nmbmWriteInfoTable_spec nld hws _ _ w) ?_)
      rintro (_ | range) w₁ ⟨hm, -⟩
      · have hsame := hbottom _ _ _ hm
        have hsub : u32Sub writeBa 1 = writeBa - 1 := u32Sub_one (by omega) hlt
        simp only [hsub]
        exact ih fuel (writeBa - 1) w₁ (by omega) (by omega) (by omega) (by omega)
      · exact ends_pure _

/-- Reserved blocks are blocks of the chip. -/
theorem reserveSpare_lt {ni : NmbmInstance} {ba writeBa : Nat}
    (h : reserveSpare nld ni ba = some writeBa) : writeBa < nld.blockCount := by
  have hwalk : ∀ {count r : Nat}, nmbmBlockWalk nld ni true ba count (reserveLimit nld ni) = some r →
      r < nld.blockCount := by
    intro count r hr
    simp only [nmbmBlockWalk, if_true, nmbmBlockWalkAsc] at hr
    have hbounds := walkAsc_bounds hr
    split_ifs at hbounds with hlimit
    · omega
    · omega
  have htry : ∀ {count r : Nat},
      nmbmTryReserveBlocks nld ni ba 0 (reserveLimit nld ni) count = some r → r < nld.blockCount := by
    intro count
    induction count with
    | zero => exact fun hr => hwalk hr
    | succ count ih =>
        intro r hr
        simp only [nmbmTryReserveBlocks, Nat.not_lt_zero, if_false] at hr
        split at hr
        · rename_i nba hnba
          obtain rfl := Option.some.inj hr
          exact hwalk hnba
        · exact ih hr
  exact htry h

/-- The loops behind reserved blocks, with fuel for all blocks of the chip. -/
theorem descend_reserved (hws : 0 < nld.writesize) (hfuel : nld.blockCount + 2 ≤ fuel)
    {bottom : NmbmInstance → Nat}
    (hbottom : ∀ S w w', Mgmt S w w' → bottom w'.ni = bottom w.ni) {ni : NmbmInstance}
    {ba writeBa : Nat} (hreserve : reserveSpare nld ni ba = some writeBa)
    (hba : bottom w.ni = ba) (hzero : ba ≠ 0) :
    Ends (descendLoop bottom fuel writeBa) (writeDescending (writeBa + 1 - ba) writeBa) nld w := by
  have hlt := reserveSpare_lt hreserve
  have hcount := blockCount_lt nld
  exact descendLoop_ends hws hbottom _ fuel writeBa w (by omega) (by omega) (by omega) (by omega)

/-! ## The rescue routines -/

theorem rewriteBackupFuel_ends (hws : 0 < nld.writesize) (hfuel : nld.blockCount + 2 ≤ fuel)
    {mainEnd : Nat} (hzero : mainEnd ≠ 0) :
    Ends (rewriteBackupFuel fuel mainEnd) (rewriteBackup mainEnd) nld w := by
  rw [rewriteBackupFuel, rewriteBackup, ends_ask_left, ends_ask_right]
  refine ends_lift_bind (wp_records rfl (fun w₁ hrec => ?_))
  rw [ends_get_left, ends_get_right]
  cases hreserve : reserveSpare nld w₁.ni mainEnd with
  | none => exact ends_lift _
  | some writeBa =>
      refine ends_bind (descend_reserved hws hfuel (fun _ _ _ _ => rfl) hreserve rfl hzero) ?_
      refine wp_mono (wp_run _ nld _) ?_
      rintro (_ | range) w₂ -
      · exact ends_lift _
      · exact ends_lift _

theorem mappingBlocksBa_mgmt (S : Set Nat) (w w' : World) (h : Mgmt S w w') :
    w'.ni.mappingBlocksBa = w.ni.mappingBlocksBa := by
  obtain ⟨pc, bs, n, hni⟩ := h.ni
  rw [hni]

theorem infoTableCache_mgmt {S : Set Nat} (h : Mgmt S w w') (hcache : w.ni.infoTableCache ≠ []) :
    w'.ni.infoTableCache ≠ [] := by
  obtain ⟨pc, bs, n, hni⟩ := h.ni
  rw [hni]
  exact hcache

/-- The loops of {lit}`nmbm_rescue_main_info_table` end if the spare blocks do not begin at block 0. -/
theorem rescueMainFuel_ends (hws : 0 < nld.writesize) (hfuel : nld.blockCount + 2 ≤ fuel)
    (hcache : w.ni.infoTableCache ≠ []) (hmb : w.ni.mappingBlocksBa ≠ 0) :
    Ends (rescueMainFuel fuel) nmbmRescueMainInfoTable nld w := by
  rw [rescueMainFuel, nmbmRescueMainInfoTable, ends_ask_left, ends_ask_right, ends_get_left,
    ends_get_right]
  dsimp only
  cases hreserve : reserveSpare nld w.ni w.ni.mappingBlocksBa with
  | none => exact ends_lift _
  | some writeBa =>
      have hle := nmbmTryReserveBlocks_le hreserve
      refine ends_bind (descend_reserved hws hfuel mappingBlocksBa_mgmt hreserve rfl hmb) ?_
      refine wp_mono (writeDescending_spec hws w.ni.mappingBlocksBa _ _ w (by omega) hcache) ?_
      rintro (_ | ⟨tmpStart, tmpEnd⟩) w₁ ⟨hm, -⟩
      · exact ends_lift _
      · refine ends_lift_bind (wp_records rfl (fun w₂ hrec₂ => ?_))
        rw [ends_get_left, ends_get_right]
        have hcache₂ : w₂.ni.infoTableCache ≠ [] := by
          rw [hrec₂.ni]
          exact infoTableCache_mgmt hm hcache
        refine ends_lift_bind (wp_mono (nmbmWriteInfoTable_rewrite hws hcache₂) ?_)
        rintro (_ | ⟨mainStart, mainEnd⟩) w₃ ⟨-, hwritten⟩
        · exact ends_lift _
        · have hlt := (hwritten _ _ rfl).lt
          refine ends_lift_bind (wp_records rfl (fun w₄ _ => ?_))
          refine ends_lift_bind (wp_cleans (fun w₅ _ => ?_))
          by_cases hin : mainEnd ≤ tmpStart
          · rw [if_pos hin, if_pos hin]
            exact ends_lift _
          · rw [if_neg hin, if_neg hin]
            exact rewriteBackupFuel_ends hws hfuel (by omega)

/-- The loop of {lit}`nmbm_rescue_single_info_table` ends if the spare blocks do not begin at block 0. -/
theorem rescueSingleFuel_ends (hws : 0 < nld.writesize) (hfuel : nld.blockCount + 2 ≤ fuel)
    (hmb : w.ni.mappingBlocksBa ≠ 0) :
    Ends (rescueSingleFuel fuel) nmbmRescueSingleInfoTable nld w := by
  rw [rescueSingleFuel, nmbmRescueSingleInfoTable, ends_ask_left, ends_ask_right, ends_get_left,
    ends_get_right]
  refine ends_lift_bind (wp_mono (nmbmWriteInfoTable_spec nld hws _ _ w) ?_)
  rintro (_ | range) w₁ ⟨hm, -⟩
  · have hmb₁ := mappingBlocksBa_mgmt _ _ _ hm
    simp only [ends_get_left, ends_get_right]
    cases hreserve : reserveSpare nld w₁.ni w₁.ni.mappingBlocksBa with
    | none => exact ends_pure false
    | some writeBa =>
        refine ends_bind (descend_reserved hws hfuel mappingBlocksBa_mgmt hreserve rfl
          (by rw [hmb₁]; exact hmb)) ?_
        refine wp_mono (wp_run _ nld _) ?_
        rintro (_ | range) w₂ -
        · exact ends_pure false
        · exact ends_lift _
  · exact ends_lift _

/-! ## One round -/

theorem writeMainTableFuel_ends (hws : 0 < nld.writesize) (hfuel : nld.blockCount + 2 ≤ fuel)
    {limit : Nat} (hcache : w.ni.infoTableCache ≠ [])
    (hmb : w.ni.backupTableBa ≠ 0 → w.ni.mappingBlocksBa ≠ 0) :
    Ends (writeMainTableFuel fuel limit) (writeMainTable limit) nld w := by
  rw [writeMainTableFuel, writeMainTable, ends_get_left, ends_get_right]
  by_cases hmain : w.ni.mainTableBa = 0
  · rw [if_pos hmain, if_pos hmain]
    exact ends_lift _
  rw [if_neg hmain, if_neg hmain]
  by_cases hback : w.ni.backupTableBa = 0
  · simp only [if_pos hback]
    refine ends_lift_bind (wp_logs fun w₁ _ => ends_lift_bind (wp_mono (wp_run _ nld w₁) ?_))
    rintro (_ | range) w₂ -
    · exact ends_lift _
    · exact ends_lift _
  · simp only [if_neg hback, ends_pure_left]
    refine ends_lift_bind (wp_mono (nmbmWriteInfoTable_spec nld hws _ _ w) ?_)
    rintro (_ | range) w₂ ⟨hm, -⟩
    · refine rescueMainFuel_ends hws hfuel (infoTableCache_mgmt hm hcache) ?_
      rw [mappingBlocksBa_mgmt _ _ _ hm]
      exact hmb hback
    · exact ends_lift _

theorem updateOnceFuel_ends (hws : 0 < nld.writesize) (hfuel : nld.blockCount + 2 ≤ fuel)
    (force : Bool) : Ends (updateOnceFuel fuel force) (nmbmUpdateInfoTableOnce force) nld w := by
  rw [updateOnceFuel, nmbmUpdateInfoTableOnce]
  refine ends_lift_bind (wp_mono (nmbmGenerateInfoTableCache_spec nld w) ?_)
  rintro changed w₁ ⟨-, hdr, hgen⟩
  have hcache : w₁.ni.infoTableCache ≠ [] := by
    rw [hgen.ni]
    exact tableBytes_ne_nil nld w.ni hdr
  by_cases hskip : (!changed && !force) = true
  · rw [if_pos hskip, if_pos hskip]
    exact ends_pure true
  rw [if_neg hskip, if_neg hskip, ends_get_left, ends_get_right]
  by_cases hback : w₁.ni.backupTableBa = 0
  · rw [if_pos hback, if_pos hback]
    exact writeMainTableFuel_ends hws hfuel hcache (fun h => absurd hback h)
  · rw [if_neg hback, if_neg hback]
    refine ends_lift_bind (wp_mono (nmbmWriteInfoTable_rewrite hws hcache) ?_)
    rintro (_ | ⟨tableStart, tableEnd⟩) w₂ ⟨hm, hwritten⟩
    · refine ends_lift_bind (wp_records rfl (fun w₃ hrec => ?_))
      refine writeMainTableFuel_ends hws hfuel ?_ (fun h => absurd hrec.backup_eq h)
      rw [hrec.ni]
      exact infoTableCache_mgmt hm hcache
    · have hlt := (hwritten _ _ rfl).lt
      refine ends_lift_bind (wp_records rfl (fun w₃ hrec => ?_))
      refine ends_lift_bind (wp_cleans (fun w₄ hclean => ?_))
      refine writeMainTableFuel_ends hws hfuel ?_ (fun _ => ?_)
      · rw [hclean.ni, hrec.ni]
        exact infoTableCache_mgmt hm hcache
      · rw [hclean.ni, hrec.ni]
        change tableEnd ≠ 0
        omega

/-- The rounds end as counted ones do if every round that leaves changes behind uses something up. -/
theorem updateLoopFuel_ends (hws : 0 < nld.writesize) (hfuel : nld.blockCount + 2 ≤ fuel)
    (I : World → Prop) (left : World → Nat)
    (hround : ∀ w, I w → w.ni.blockStateChanged ≠ 0 ∨ w.ni.blockMappingChanged ≠ 0 →
      wp (nmbmUpdateInfoTableOnce false) nld (fun ok w' =>
        ok = true → I w' ∧ (Clean w'.ni ∨ left w' < left w)) w)
    (spare : Nat) :
    ∀ (rounds : Nat) (w : World),
      I w →
      (Clean w.ni ∧ 0 < rounds) ∨ left w + 2 ≤ rounds →
      Ends (updateLoopFuel fuel (rounds + spare)) (updateLoop rounds) nld w := by
  intro rounds
  induction rounds with
  | zero =>
      intro w _ hrounds
      omega
  | succ rounds ih =>
      intro w hw hrounds
      rw [Nat.add_right_comm, updateLoopFuel, updateLoop, ends_get_left, ends_get_right]
      by_cases hchanged : w.ni.blockStateChanged ≠ 0 ∨ w.ni.blockMappingChanged ≠ 0
      · rw [if_pos hchanged, if_pos hchanged]
        have hnot : ¬ Clean w.ni := fun hclean => hchanged.elim (absurd hclean.1) (absurd hclean.2)
        have hleft := hrounds.resolve_left (fun hclean => hnot hclean.1)
        refine ends_bind (updateOnceFuel_ends hws hfuel false) (wp_mono (hround w hw hchanged) ?_)
        rintro (_ | _) w₁ h₁
        · exact ends_pure false
        · obtain ⟨hw₁, hnext⟩ := h₁ rfl
          apply ih w₁ hw₁
          rcases hnext with hclean | hlt
          · exact .inl ⟨hclean, by omega⟩
          · exact .inr (by omega)
      · rw [if_neg hchanged, if_neg hchanged]
        exact ends_pure true

/-! ## The rescue of a single table

It belongs to loading the tables of a chip, where the spare blocks begin at the end of a table. -/

/-- {lit}`nmbm_update_single_info_table` with the loop of the rescue. -/
def updateSingleFuel (fuel : Nat) (updateMainTable : Bool) : NmbmFuelled Bool := do
  let w ← lift get
  let writeStart := if updateMainTable then w.ni.mainTableBa else w.ni.backupTableBa
  let writeLimit := if updateMainTable then w.ni.backupTableBa else w.ni.mappingBlocksTopBa
  match ← lift (nmbmWriteInfoTable writeStart writeLimit) with
  | some (tableStart, tableEnd) => lift (do
      if updateMainTable then
        modifyNi (fun ni => { ni with mainTableBa := tableStart })
      else
        modifyNi (fun ni =>
          { ni with backupTableBa := tableStart, mappingBlocksBa := tableEnd })
      nmbmMarkTablesClean
      pure true)
  | none =>
      if updateMainTable then do
        lift (modifyNi (fun ni => { ni with mainTableBa := ni.backupTableBa, backupTableBa := 0 }))
        rescueSingleFuel fuel
      else lift (do
        modifyNi (fun ni => { ni with mappingBlocksBa := ni.backupTableBa, backupTableBa := 0 })
        pure false)

/-- The end of {lit}`nmbm_load_info_table` with the loop of the rescue. -/
def settleTablesFuel (fuel mainWriteCount : Nat) (backup : Option FoundTable) :
    NmbmFuelled Unit := do
  let success ←
    match backup with
    | none => rescueSingleFuel fuel
    | some found =>
        if mainWriteCount ≠ found.writeCount then do
          lift (modifyNi (fun ni => { ni with blockStateChanged := 1, blockMappingChanged := 1 }))
          updateSingleFuel fuel (decide (mainWriteCount < found.writeCount))
        else
          pure true
  lift (modifyNi (fun ni =>
    { ni with
      isProtected :=
        if ni.mappingBlocksBa = ni.mappingBlocksTopBa then true
        else if !success then true
        else ni.isProtected }))

/-- {lit}`nmbm_load_info_table` with the loop of the rescue. -/
def loadInfoTableFuel (fuel ba limit : Nat) : NmbmFuelled Bool := do
  let nld ← lift ask
  lift (modifyNi (fun ni =>
    { ni with
      mainTableBa := 0
      backupTableBa := 0
      infoTable := { ni.infoTable with writeCount := 0 }
      mappingBlocksTopBa := u32Sub ni.signatureBa 1
      dataBlockCount := ni.signature.mgmtStartPb }))
  match ← lift (nmbmSearchInfoTable ba limit false) with
  | none => return false
  | some main => do
      lift (modifyNi (fun ni => { ni with mainTableBa := main.startBa }))
      let backup ← lift (nmbmSearchInfoTable main.endBa limit true)
      let top :=
        match backup with
        | none => main.mappingBlocksTopBa
        | some found =>
            if found.writeCount ≤ main.writeCount then main.mappingBlocksTopBa
            else found.mappingBlocksTopBa
      lift (modifyNi (fun ni =>
        { ni with
          backupTableBa := (backup.map (·.startBa)).getD 0
          mappingBlocksTopBa := top
          mappingBlocksBa := (backup.map (·.endBa)).getD main.endBa
          dataBlockCount :=
            lastMapped ni.blockMapping ni.dataBlockCount ni.signature.mgmtStartPb }))
      let _ ← lift nmbmGenerateInfoTableCache
      if nld.readOnly then
        return true
      settleTablesFuel fuel main.writeCount backup
      return true

/-- A table that is loaded ends behind the place it was looked for at. -/
theorem tryLoadLoop_lt (nld : LowerDevice) :
    ∀ (n ba sizeremain : Nat) (acc : List UInt8) (start : Option Nat) (w : World),
      wp (tryLoadLoop n ba sizeremain acc start) nld (fun r _ =>
        ∀ found, r = some found → ba ≤ found.2.2 ∧ (sizeremain ≠ 0 → ba < found.2.2)) w := by
  intro n
  induction n with
  | zero =>
      intro ba sizeremain acc start w
      simp only [tryLoadLoop, wp_ite, wp_pure]
      refine ⟨?_, ?_⟩
      · rintro hzero found ⟨⟩
        exact ⟨le_rfl, fun hne => absurd hzero hne⟩
      · rintro - found ⟨⟩
  | succ n ih =>
      intro ba sizeremain acc start w
      have hrest : ∀ sizeremain' acc start w₁,
          wp (tryLoadLoop n (ba + 1) sizeremain' acc start) nld (fun r _ =>
            ∀ found, r = some found → ba ≤ found.2.2 ∧ (sizeremain ≠ 0 → ba < found.2.2)) w₁ := by
        intro sizeremain' acc start w₁
        refine wp_mono (ih (ba + 1) sizeremain' acc start w₁) ?_
        intro r _ hr found hfound
        have hle := (hr found hfound).1
        exact ⟨by omega, fun _ => by omega⟩
      simp only [tryLoadLoop, wp_bind, wp_ask, wp_get, wp_ite, wp_pure]
      refine ⟨?_, fun _ => ⟨fun _ => hrest _ _ _ w, fun _ => ?_⟩⟩
      · rintro hzero found ⟨⟩
        exact ⟨le_rfl, fun hne => absurd hzero hne⟩
      · refine wp_mono (wp_run _ nld w) ?_
        intro bad w₁ _
        refine ⟨fun _ => hrest _ _ _ _, fun _ => ?_⟩
        refine wp_mono (wp_run _ nld w₁) ?_
        intro r w₂ _
        refine ⟨fun _ => hrest _ _ _ _, fun _ => ⟨?_, fun _ => ⟨?_, fun _ => hrest _ _ _ _⟩⟩⟩
        · rintro - found ⟨⟩
        · rintro - found ⟨⟩

theorem nmbmTryLoadInfoTable_lt (hsize : nld.infoTableSize ≠ 0) (ba : Nat) (tableLoaded : Bool)
    (w : World) :
    wp (nmbmTryLoadInfoTable ba tableLoaded) nld (fun r _ =>
      ∀ found, r = some found → ba < found.endBa) w := by
  simp only [nmbmTryLoadInfoTable, wp_bind, wp_ask]
  refine wp_mono (tryLoadLoop_lt nld _ _ _ _ _ w) ?_
  rintro (_ | ⟨data, startBa, endBa⟩) w₁ hr
  · rintro found ⟨⟩
  · have hlt := (hr _ rfl).2 hsize
    simp only [wp_bind, wp_modifyNi, wp_ite, wp_pure, wp_get]
    refine ⟨?_, fun _ => ?_⟩
    · rintro - found ⟨⟩
    · split
      · rintro found ⟨⟩
      · simp only [wp_bind, wp_ite, wp_modifyNi, wp_pure]
        constructor
        · rintro - found ⟨⟩
          exact hlt
        · rintro - found ⟨⟩
          exact hlt

/-- No table that is found ends at block 0. -/
theorem nmbmSearchInfoTable_end (hsize : nld.infoTableSize ≠ 0) (ba limit : Nat) (tableLoaded : Bool)
    (w : World) :
    wp (nmbmSearchInfoTable ba limit tableLoaded) nld (fun r _ =>
      ∀ found, r = some found → found.endBa ≠ 0) w := by
  have hloop : ∀ (n ba : Nat) (w : World),
      wp (searchLoop tableLoaded n ba) nld (fun r _ =>
        ∀ found, r = some found → found.endBa ≠ 0) w := by
    intro n
    induction n with
    | zero =>
        rintro ba w found ⟨⟩
    | succ n ih =>
        intro ba w
        simp only [searchLoop, wp_bind]
        refine wp_mono (nmbmTryLoadInfoTable_lt hsize ba tableLoaded w) ?_
        rintro (_ | found) w₁ h₁
        · exact ih (ba + 1) w₁
        · rintro _ ⟨⟩
          exact Nat.ne_zero_of_lt (h₁ found rfl)
  simp only [nmbmSearchInfoTable, wp_bind, wp_ask]
  exact hloop _ _ w

theorem updateSingleFuel_ends (hws : 0 < nld.writesize) (hfuel : nld.blockCount + 2 ≤ fuel)
    (updateMainTable : Bool) (hmb : w.ni.mappingBlocksBa ≠ 0) :
    Ends (updateSingleFuel fuel updateMainTable) (nmbmUpdateSingleInfoTable updateMainTable)
      nld w := by
  rw [updateSingleFuel, nmbmUpdateSingleInfoTable, ends_get_left, ends_get_right]
  refine ends_lift_bind (wp_mono (nmbmWriteInfoTable_spec nld hws _ _ w) ?_)
  rintro (_ | range) w₁ ⟨hm, -⟩
  · cases updateMainTable with
    | false => exact ends_lift _
    | true =>
        refine ends_lift_bind (wp_records rfl (fun w₂ hrec => ?_))
        refine rescueSingleFuel_ends hws hfuel ?_
        rw [hrec.mb_eq, mappingBlocksBa_mgmt _ _ _ hm]
        exact hmb
  · exact ends_lift _

theorem settleTablesFuel_ends (hws : 0 < nld.writesize) (hfuel : nld.blockCount + 2 ≤ fuel)
    (mainWriteCount : Nat) (backup : Option FoundTable) (hmb : w.ni.mappingBlocksBa ≠ 0) :
    Ends (settleTablesFuel fuel mainWriteCount backup) (settleTables mainWriteCount backup)
      nld w := by
  unfold settleTablesFuel settleTables
  dsimp only
  cases backup with
  | none =>
      exact ends_bind (rescueSingleFuel_ends hws hfuel hmb)
        (wp_mono (wp_run _ nld w) (fun _ _ _ => ends_lift _))
  | some found =>
      dsimp only
      by_cases hlag : mainWriteCount ≠ found.writeCount
      · rw [if_pos hlag, if_pos hlag]
        refine ends_lift_bind ?_
        rw [wp_modifyNi]
        exact ends_bind (updateSingleFuel_ends hws hfuel _ hmb)
          (wp_mono (wp_run _ nld _) (fun _ _ _ => ends_lift _))
      · rw [if_neg hlag, if_neg hlag]
        exact ends_bind (ends_pure true) (ends_lift _)

/-- Loading ends: the spare blocks begin at the end of a table when a single table is rescued. -/
theorem loadInfoTableFuel_ends (hws : 0 < nld.writesize) (hfuel : nld.blockCount + 2 ≤ fuel)
    (hsize : nld.infoTableSize ≠ 0) (ba limit : Nat) :
    Ends (loadInfoTableFuel fuel ba limit) (nmbmLoadInfoTable ba limit) nld w := by
  rw [loadInfoTableFuel, nmbmLoadInfoTable, ends_ask_left, ends_ask_right]
  refine ends_lift_bind (wp_mono (wp_run _ nld w) (fun _ w₁ _ => ?_))
  refine ends_lift_bind (wp_mono (nmbmSearchInfoTable_end hsize ba limit false w₁) ?_)
  rintro (_ | main) w₂ hmain
  · exact ends_pure false
  refine ends_lift_bind (wp_mono (wp_run _ nld w₂) (fun _ w₃ _ => ?_))
  refine ends_lift_bind (wp_mono (nmbmSearchInfoTable_end hsize main.endBa limit true w₃) ?_)
  intro backup w₄ hbackup
  have hend : (backup.map (·.endBa)).getD main.endBa ≠ 0 := by
    cases backup with
    | none => exact hmain main rfl
    | some found => exact hbackup found rfl
  refine ends_lift_bind ?_
  rw [wp_modifyNi]
  refine ends_lift_bind (wp_mono (nmbmGenerateInfoTableCache_spec nld _) ?_)
  rintro _ w₅ ⟨-, hdr, hgen⟩
  by_cases hreadOnly : nld.readOnly = true
  · simp only [if_pos hreadOnly]
    exact ends_pure true
  · simp only [if_neg hreadOnly]
    refine ends_bind (settleTablesFuel_ends hws hfuel _ _ ?_)
      (wp_mono (wp_run _ nld w₅) (fun _ _ _ => ends_pure true))
    rw [hgen.ni]
    exact hend

end Nmbm
end ZyxelRouter
