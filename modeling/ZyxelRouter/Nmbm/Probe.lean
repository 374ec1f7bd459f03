import ZyxelRouter.Nmbm.Step

/-!
# NMBM: looking at a chip

What {lit}`nmbm_attach` may change while it looks for a signature, for bad blocks and for
info tables.  Nothing is written to the chip in these phases.

Main results:

- Theorem {lit}`nmbnReadData_spec`: bytes that are read without an error are the stored ones.
- Theorem {lit}`nmbmFindSignature_spec`: the search for the signature changes the page cache
  only.
- Theorem {lit}`nmbmSearchInfoTable_spec`: a search that finds no info table may record bad
  blocks and fill the cache.
-/

namespace ZyxelRouter
namespace Nmbm

open Lib Lib.Prog

variable {w w' w'' : World} {nld : LowerDevice}

/-! ## Reading data -/

/-- A chip whose reads do not fail. -/
def ReadsWork (nld : LowerDevice) : Prop :=
  ∀ t, 0 ≤ (nld.fates t .read).ret

theorem nmbmReadPhysPage_complete (hreads : ReadsWork nld) (ba page : Nat) (w : World) :
    wp (nmbmReadPhysPage ba page) nld (fun r w' =>
      Quiet w w' ∧ 0 ≤ r.1 ∧ r.2 = w.chip.flash.cells ba page) w := by
  have hread := nmbmReadPhysPage_spec nld ba page w
  have hret : wp (nmbmReadPhysPage ba page) nld (fun r _ => 0 ≤ r.1) w := by
    simp only [nmbmReadPhysPage, readTries, nmbmTryCount, wp_bind, wp_lower, wp_ite, wp_pure]
    exact ⟨fun h => h, fun h => absurd (hreads _) h⟩
  exact ⟨hread.1, hret, hread.2 hret⟩

/-- The page loop reads the stored bytes and changes the page cache only. -/
theorem readDataLoop_spec (hws : 0 < nld.writesize) (ba : Nat) :
    ∀ (fuel page size : Nat) (acc : List UInt8) (w : World),
      size ≤ fuel →
      wp (readDataLoop ba fuel page size acc) nld (fun r w' =>
        Phys ∅ w w' ∧ w'.chip.flash = w.chip.flash ∧ r.1 ≤ 0 ∧
          (r.1 = 0 → r.2 = acc ++
            bytesFrom nld (w.chip.flash.cells ba) (page * nld.writesize) size)) w := by
  intro fuel
  induction fuel with
  | zero =>
      intro page size acc w hsize
      have hzero : size = 0 := by omega
      subst hzero
      exact ⟨Phys.refl ∅ w, rfl, le_refl _, fun _ => (List.append_nil acc).symm⟩
  | succ fuel ih =>
      intro page size acc w hsize
      simp only [readDataLoop, wp_bind, wp_ask, wp_ite, wp_pure, wp_setPageCache]
      refine ⟨fun hzero => ?_, fun hmore => ?_⟩
      · subst hzero
        exact ⟨Phys.refl ∅ w, trivial, le_refl _, fun _ => (List.append_nil acc).symm⟩
      · refine wp_mono (nmbmReadPhysPage_spec nld ba page w) ?_
        rintro r w₁ ⟨hquiet, htrue⟩
        have hrest : ∀ w₂, Phys ∅ w w₂ → w₂.chip.flash = w.chip.flash → ¬ r.1 < 0 →
            wp (readDataLoop ba fuel (page + 1) (size - nld.writesize)
              (acc ++ (mainArea nld r.2).take size)) nld (fun r w' =>
                Phys ∅ w w' ∧ w'.chip.flash = w.chip.flash ∧ r.1 ≤ 0 ∧
                  (r.1 = 0 → r.2 = acc ++
                    bytesFrom nld (w.chip.flash.cells ba) (page * nld.writesize) size)) w₂ := by
          intro w₂ h₂ hflash hret
          refine wp_mono (ih (page + 1) (size - nld.writesize) _ w₂ (by omega)) ?_
          rintro r₃ w₃ ⟨h₃, hflash₃, hle, hbytes⟩
          refine ⟨h₂.trans h₃, hflash₃.trans hflash, hle, fun hok => ?_⟩
          rw [hbytes hok, hflash, htrue (by omega), List.append_assoc]
          congr 1
          by_cases hshort : size ≤ nld.writesize
          · rw [take_mainArea _ page hshort, Nat.sub_eq_zero_of_le hshort]
            exact List.append_nil _
          · have hfull : (mainArea nld (w.chip.flash.cells ba page)).take size =
                (mainArea nld (w.chip.flash.cells ba page)).take nld.writesize := by
              have hlen : (mainArea nld (w.chip.flash.cells ba page)).length = nld.writesize := by
                simp [mainArea]
              rw [List.take_of_length_le (by omega), List.take_of_length_le (by omega)]
            have hsum : size = nld.writesize + (size - nld.writesize) := by omega
            conv_rhs => rw [hsum, bytesFrom_add]
            rw [hfull, take_mainArea _ page (le_refl _), Nat.add_mul, Nat.one_mul]
        have hcache := fun pageCache =>
          (hquiet.phys ∅).trans (phys_setPageCache ∅ w₁ pageCache)
        have hneg : ∀ w₂, Phys ∅ w w₂ → w₂.chip.flash = w.chip.flash → r.1 < 0 →
            Phys ∅ w w₂ ∧ w₂.chip.flash = w.chip.flash ∧ r.1 ≤ 0 ∧
              (r.1 = 0 → acc = acc ++
                bytesFrom nld (w.chip.flash.cells ba) (page * nld.writesize) size) :=
          fun w₂ h₂ hflash hret => ⟨h₂, hflash, hret.le, fun hzero => by omega⟩
        exact ⟨fun _ => ⟨hneg _ (hcache _) hquiet.flash, hrest _ (hcache _) hquiet.flash⟩,
          fun _ => ⟨hneg _ (hquiet.phys ∅) hquiet.flash, hrest _ (hquiet.phys ∅) hquiet.flash⟩⟩

/-- The specification of {lit}`nmbn_read_data`. -/
theorem nmbnReadData_spec (hws : 0 < nld.writesize) (ba page size : Nat) (w : World) :
    wp (nmbnReadData ba page size) nld (fun r w' =>
      Phys ∅ w w' ∧ w'.chip.flash = w.chip.flash ∧ r.1 ≤ 0 ∧
        (r.1 = 0 → r.2 =
          bytesFrom nld (w.chip.flash.cells ba) (page * nld.writesize) size)) w :=
  readDataLoop_spec hws ba size page size [] w (le_refl _)

/-- On a chip whose reads do not fail, the bytes are read. -/
theorem readDataLoop_ret (hreads : ReadsWork nld) (ba : Nat) :
    ∀ (fuel page size : Nat) (acc : List UInt8) (w : World),
      wp (readDataLoop ba fuel page size acc) nld (fun r _ => r.1 = 0) w := by
  intro fuel
  induction fuel with
  | zero =>
      intro page size acc w
      rfl
  | succ fuel ih =>
      intro page size acc w
      simp only [readDataLoop, wp_bind, wp_ask, wp_ite, wp_pure, wp_setPageCache]
      refine ⟨fun _ => trivial, fun _ => ?_⟩
      refine wp_mono (nmbmReadPhysPage_complete hreads ba page w) ?_
      rintro r w₁ ⟨-, hret, -⟩
      have hneg : ¬ r.1 < 0 := not_lt.mpr hret
      exact ⟨fun _ => ⟨fun h => absurd h hneg, fun _ => ih _ _ _ _⟩,
        fun _ => ⟨fun h => absurd h hneg, fun _ => ih _ _ _ _⟩⟩

theorem nmbnReadData_complete (hws : 0 < nld.writesize) (hreads : ReadsWork nld)
    (ba page size : Nat) (w : World) :
    wp (nmbnReadData ba page size) nld (fun r w' =>
      Phys ∅ w w' ∧ w'.chip.flash = w.chip.flash ∧
        r = (0, bytesFrom nld (w.chip.flash.cells ba) (page * nld.writesize) size)) w := by
  have hread := nmbnReadData_spec hws ba page size w
  have hret : wp (nmbnReadData ba page size) nld (fun r _ => r.1 = 0) w :=
    readDataLoop_ret hreads ba size page size [] w
  obtain ⟨hphys, hflash, -, hbytes⟩ := hread
  exact ⟨hphys, hflash, Prod.ext hret (hbytes hret)⟩

/-! ## The signature -/

theorem findInPages_spec (hws : 0 < nld.writesize) (ba : Nat) :
    ∀ (n page : Nat) (w : World),
      wp (findInPages ba n page) nld (fun _ w' =>
        Phys ∅ w w' ∧ w'.chip.flash = w.chip.flash) w := by
  intro n
  induction n with
  | zero =>
      intro page w
      exact ⟨Phys.refl ∅ w, rfl⟩
  | succ n ih =>
      intro page w
      simp only [findInPages, wp_bind, wp_ite, wp_pure]
      refine wp_mono (nmbnReadData_spec hws ba page signatureSize w) ?_
      rintro r w₁ ⟨h₁, hflash, -, -⟩
      refine ⟨fun _ => ⟨h₁, hflash⟩, fun _ => ?_⟩
      refine wp_mono (ih (page + 1) w₁) ?_
      rintro _ w₂ ⟨h₂, hflash₂⟩
      exact ⟨h₁.trans h₂, hflash₂.trans hflash⟩

theorem findSignatureLoop_spec (hws : 0 < nld.writesize) (limit : Nat) :
    ∀ (fuel ba : Nat) (w : World),
      wp (findSignatureLoop limit fuel ba) nld (fun _ w' =>
        Phys ∅ w w' ∧ w'.chip.flash = w.chip.flash) w := by
  intro fuel
  induction fuel with
  | zero =>
      intro ba w
      exact ⟨Phys.refl ∅ w, rfl⟩
  | succ fuel ih =>
      intro ba w
      simp only [findSignatureLoop, wp_bind, wp_ask, wp_ite, wp_pure]
      refine ⟨fun _ => ⟨Phys.refl ∅ w, trivial⟩, fun _ => ?_⟩
      refine wp_mono (nmbmCheckBadPhysBlock_spec nld _ w) ?_
      rintro bad w₁ ⟨h₁, hflash, -⟩
      have hrest : ∀ w₂, Phys ∅ w w₂ → w₂.chip.flash = w.chip.flash →
          wp (findSignatureLoop limit fuel (u32Sub ba 1)) nld (fun _ w' =>
            Phys ∅ w w' ∧ w'.chip.flash = w.chip.flash) w₂ := by
        intro w₂ h₂ hflash₂
        refine wp_mono (ih (u32Sub ba 1) w₂) ?_
        rintro _ w₃ ⟨h₃, hflash₃⟩
        exact ⟨h₂.trans h₃, hflash₃.trans hflash₂⟩
      refine ⟨fun _ => hrest w₁ h₁ hflash, fun _ => ?_⟩
      refine wp_mono (findInPages_spec hws _ _ 0 w₁) ?_
      rintro found w₂ ⟨h₂, hflash₂⟩
      cases found with
      | some signature => exact ⟨h₁.trans h₂, hflash₂.trans hflash⟩
      | none => exact hrest w₂ (h₁.trans h₂) (hflash₂.trans hflash)

/-- The specification of {lit}`nmbm_find_signature`, as to what it changes. -/
theorem nmbmFindSignature_spec (hws : 0 < nld.writesize) (w : World) :
    wp nmbmFindSignature nld (fun _ w' =>
      Phys ∅ w w' ∧ w'.chip.flash = w.chip.flash) w := by
  simp only [nmbmFindSignature, wp_bind, wp_ask, wp_pure]
  exact findSignatureLoop_spec hws _ _ _ w

/-! ## Bad blocks and tables -/

/-- The chip was looked at: bad blocks may be on record and bytes in the caches. -/
structure Probes (w w' : World) : Prop where
  ni : ∃ pageCache blockState blockStateChanged infoTableCache,
    w'.ni = { w.ni with pageCache, blockState, blockStateChanged, infoTableCache }
  length : w'.ni.blockState.length = w.ni.blockState.length
  events : w'.events = w.events
  flash : w'.chip.flash = w.chip.flash

theorem Probes.refl (w : World) : Probes w w :=
  ⟨⟨_, _, _, _, rfl⟩, rfl, rfl, rfl⟩

theorem Probes.trans (h : Probes w w') (h' : Probes w' w'') : Probes w w'' := by
  obtain ⟨pc, bs, n, cache, hni⟩ := h.ni
  obtain ⟨pc', bs', n', cache', hni'⟩ := h'.ni
  exact ⟨⟨pc', bs', n', cache', by rw [hni', hni]⟩, h'.length.trans h.length,
    h'.events.trans h.events, h'.flash.trans h.flash⟩

theorem Phys.probes {S : Set Nat} (h : Phys S w w') (hflash : w'.chip.flash = w.chip.flash) :
    Probes w w' := by
  obtain ⟨pc, hni⟩ := h.ni
  exact ⟨⟨pc, w.ni.blockState, w.ni.blockStateChanged, w.ni.infoTableCache, hni⟩, by rw [hni],
    h.events, hflash⟩

theorem SetsState.probes {ba : Nat} {state : BitVec 32} (h : SetsState ba state w w') :
    Probes w w' := by
  obtain ⟨bs, n, hni⟩ := h.ni
  exact ⟨⟨w.ni.pageCache, bs, n, w.ni.infoTableCache, hni⟩, h.length, h.events, by rw [h.chip]⟩

/-- The specification of {lit}`nmbm_scan_badblocks`, as to what it changes. -/
theorem nmbmScanBadblocks_spec (nld : LowerDevice) :
    ∀ (n ba : Nat) (w : World),
      wp (nmbmScanBadblocks n ba) nld (fun _ w' => Probes w w') w := by
  intro n
  induction n with
  | zero =>
      intro ba w
      exact Probes.refl w
  | succ n ih =>
      intro ba w
      simp only [nmbmScanBadblocks, wp_bind, wp_ite]
      refine wp_mono (nmbmCheckBadPhysBlock_spec nld ba w) ?_
      rintro bad w₁ ⟨h₁, hflash, -⟩
      have hprobe := h₁.probes hflash
      refine ⟨fun _ => ?_, fun _ => ?_⟩
      · refine wp_mono (nmbmSetBlockState_spec nld ba blockStBad w₁) ?_
        intro _ w₂ hset
        exact wp_mono (ih (ba + 1) w₂) (fun _ _ h => (hprobe.trans hset.probes).trans h)
      · exact wp_mono (ih (ba + 1) w₁) (fun _ _ h => hprobe.trans h)

theorem tryLoadLoop_probes (hws : 0 < nld.writesize) :
    ∀ (n ba sizeremain : Nat) (acc : List UInt8) (start : Option Nat) (w : World),
      wp (tryLoadLoop n ba sizeremain acc start) nld (fun _ w' => Probes w w') w := by
  intro n
  induction n with
  | zero =>
      intro ba sizeremain acc start w
      simp only [tryLoadLoop, wp_ite, wp_pure]
      exact ⟨fun _ => Probes.refl w, fun _ => Probes.refl w⟩
  | succ n ih =>
      intro ba sizeremain acc start w
      have hrest : ∀ w₁ sizeremain acc start, Probes w w₁ →
          wp (tryLoadLoop n (ba + 1) sizeremain acc start) nld (fun _ w' => Probes w w') w₁ := by
        intro w₁ sizeremain acc start h₁
        exact wp_mono (ih (ba + 1) sizeremain acc start w₁) (fun _ _ h => h₁.trans h)
      simp only [tryLoadLoop, wp_bind, wp_ask, wp_get, wp_ite, wp_pure]
      refine ⟨fun _ => Probes.refl w, fun _ => ⟨fun _ => hrest w _ _ _ (Probes.refl w), fun _ => ?_⟩⟩
      refine wp_mono (nmbmCheckBadPhysBlock_spec nld ba w) ?_
      rintro bad w₁ ⟨h₁, hflash, -⟩
      have hprobe := h₁.probes hflash
      refine ⟨fun _ => ?_, fun _ => ?_⟩
      · refine wp_mono (nmbmSetBlockState_spec nld ba blockStBad w₁) ?_
        intro _ w₂ hset
        exact hrest w₂ _ _ _ (hprobe.trans hset.probes)
      · refine wp_mono (nmbnReadData_spec hws ba 0 _ w₁) ?_
        rintro r w₂ ⟨h₂, hflash₂, -, -⟩
        have hprobe₂ := hprobe.trans (h₂.probes hflash₂)
        refine ⟨fun _ => ?_, fun _ => ⟨fun _ => hprobe₂, fun _ => ⟨fun _ => hprobe₂, fun _ => ?_⟩⟩⟩
        · refine wp_mono (nmbmSetBlockState_spec nld ba blockStBad w₂) ?_
          intro _ w₃ hset
          exact hrest w₃ _ _ _ (hprobe₂.trans hset.probes)
        · exact hrest w₂ _ _ _ hprobe₂

/-- A place that holds no table. -/
theorem nmbmTryLoadInfoTable_probes (hws : 0 < nld.writesize) (ba : Nat) (tableLoaded : Bool)
    (w : World) :
    wp (nmbmTryLoadInfoTable ba tableLoaded) nld (fun r w' => r = none → Probes w w') w := by
  simp only [nmbmTryLoadInfoTable, wp_bind, wp_ask]
  refine wp_mono (tryLoadLoop_probes hws _ _ _ _ _ w) ?_
  intro r w₁ h₁
  cases r with
  | none => exact fun _ => h₁
  | some found =>
      obtain ⟨data, startBa, endBa⟩ := found
      obtain ⟨pc, bs, n, cache, hni⟩ := h₁.ni
      have hcache : Probes w { w₁ with ni := { w₁.ni with infoTableCache := data } } :=
        ⟨⟨pc, bs, n, data, by rw [hni]⟩, h₁.length, h₁.events, h₁.flash⟩
      simp only [wp_bind, wp_modifyNi, wp_ite, wp_pure, wp_get]
      refine ⟨fun _ _ => hcache, fun _ => ?_⟩
      split
      · exact fun _ => hcache
      · simp only [wp_ite, wp_bind, wp_modifyNi, wp_pure]
        constructor
        · intro _ hnone
          cases hnone
        · intro _ hnone
          cases hnone

/-- The specification of {lit}`nmbm_search_info_table` when it finds nothing. -/
theorem nmbmSearchInfoTable_spec (hws : 0 < nld.writesize) (ba limit : Nat) (tableLoaded : Bool)
    (w : World) :
    wp (nmbmSearchInfoTable ba limit tableLoaded) nld (fun r w' => r = none → Probes w w') w := by
  have hloop : ∀ (n ba : Nat) (w : World),
      wp (searchLoop tableLoaded n ba) nld (fun r w' => r = none → Probes w w') w := by
    intro n
    induction n with
    | zero =>
        intro ba w _
        exact Probes.refl w
    | succ n ih =>
        intro ba w
        simp only [searchLoop, wp_bind]
        refine wp_mono (nmbmTryLoadInfoTable_probes hws ba tableLoaded w) ?_
        intro r w₁ h₁
        cases r with
        | some found => exact fun hnone => by cases hnone
        | none =>
            refine wp_mono (ih (ba + 1) w₁) ?_
            exact fun _ _ h hnone => (h₁ rfl).trans (h hnone)
  simp only [nmbmSearchInfoTable, wp_bind, wp_ask]
  exact hloop _ _ w

end Nmbm
end ZyxelRouter
