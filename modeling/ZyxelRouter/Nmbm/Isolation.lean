import ZyxelRouter.Nmbm.Ownership

/-!
# NMBM: isolation of logic blocks

What {lit}`nmbm_read_range` returns is a function of the mapping entries, states and contents of the
blocks it reads.  A call on other logic blocks changes none of these, as long as blocks are owned
and the instance is not switched to read-only, in which reading is refused too.

Main results:

- Theorems {lit}`nmbmReadRange_stored`, {lit}`nmbmReadRange_complete`: the bytes that are read.
- Theorem {lit}`Step.storedBytes`: calls on other logic blocks leave them alone.
- Theorem {lit}`reaches_isolated`: in every run, reading again gives the same bytes.
- Theorem {lit}`read_after_lost_tables`: without a table the bytes cannot be read any more.
-/

namespace ZyxelRouter
namespace Nmbm

open Lib Lib.Prog

variable {w w' w'' : World} {nld nld' : LowerDevice}

/-! ## The bytes of a range -/

/-- The page that holds an address of a logic block, if it can be read. -/
def storedPage (nld : LowerDevice) (w : World) (addr : Nat) : Option Page :=
  if w.ni.entry (nld.addr2ba addr) < 0 then none
  else if nmbmGetBlockState w.ni (w.ni.entry (nld.addr2ba addr)).toNat = blockStBad then none
  else some (w.chip.flash.cells (w.ni.entry (nld.addr2ba addr)).toNat (pageOf nld addr))

/-- The bytes that the loop of {lit}`nmbm_read_range` collects. -/
def storedRange (nld : LowerDevice) (w : World) : Nat → Nat → Nat → List UInt8 → Option (List UInt8)
  | 0, _, _, acc => some acc
  | fuel + 1, off, sizeremain, acc =>
      let leading := off &&& (nld.writesize - 1)
      let chunksize := min (nld.writesize - leading) sizeremain
      match storedPage nld w (off - leading) with
      | none => none
      | some columns =>
          let acc' := acc ++ readAt (mainArea nld columns) leading chunksize
          if sizeremain - chunksize = 0 then some acc'
          else storedRange nld w fuel (off + chunksize) (sizeremain - chunksize) acc'

/-- The range lies in the data of an instance that can be read. -/
def Available (nld : LowerDevice) (ni : NmbmInstance) (addr size : Nat) : Prop :=
  ni.isProtected = false ∧ addr < nld.ba2addr ni.dataBlockCount ∧
    u64 (addr + size) ≤ nld.ba2addr ni.dataBlockCount

/-- The bytes are stored in the range and can be read. -/
def StoredBytes (nld : LowerDevice) (w : World) (addr size : Nat) (bytes : List UInt8) : Prop :=
  Available nld w.ni addr size ∧
    if size = 0 then bytes = [] else storedRange nld w size addr size [] = some bytes

/-- The pages of the range are all that matters. -/
theorem storedRange_congr :
    ∀ (fuel off size : Nat) (acc : List UInt8),
      0 < size →
      (∀ i, i < size →
        storedPage nld w' (off + i - ((off + i) &&& (nld.writesize - 1))) =
          storedPage nld w (off + i - ((off + i) &&& (nld.writesize - 1)))) →
      storedRange nld w' fuel off size acc = storedRange nld w fuel off size acc := by
  intro fuel
  induction fuel with
  | zero =>
      intro off size acc _ _
      rfl
  | succ fuel ih =>
      intro off size acc hpos hpages
      have hfirst := hpages 0 hpos
      rw [Nat.add_zero] at hfirst
      simp only [storedRange, hfirst]
      split
      · rfl
      · split
        · rfl
        · rename_i hrest
          apply ih
          · omega
          · intro i hi
            rw [Nat.add_assoc]
            exact hpages _ (by omega)

theorem Phys.storedPage {w₁ : World} (h : Phys ∅ w w₁) (addr : Nat) :
    storedPage nld w₁ addr = storedPage nld w addr := by
  obtain ⟨pc, hni⟩ := h.ni
  simp only [Nmbm.storedPage, hni, h.chip.flash.cells _ (Set.notMem_empty _)]
  rfl

/-! ## Reading -/

/-- A page that is read without an error is the stored one. -/
theorem nmbmReadLogicPage_stored (nld : LowerDevice) (addr : Nat) (w : World) :
    wp (nmbmReadLogicPage addr) nld (fun r w' => Quiet w w' ∧
      (0 ≤ r.1 → storedPage nld w addr = some r.2)) w := by
  simp only [nmbmReadLogicPage, wp_bind, wp_ask, wp_get, wp_ite, wp_pure]
  refine ⟨fun _ => ⟨Quiet.refl w, fun h => absurd h (by decide)⟩, fun hentry =>
    ⟨fun _ => ⟨Quiet.refl w, fun h => absurd h (by decide)⟩, fun hstate => ?_⟩⟩
  refine wp_mono (nmbmReadPhysPage_spec nld _ _ w) ?_
  rintro r w' ⟨hquiet, hbytes⟩
  refine ⟨hquiet, fun hret => ?_⟩
  rw [storedPage, NmbmInstance.entry, if_neg hentry, if_neg hstate, hbytes hret]

theorem nmbmReadLogicPage_complete (hreads : ReadsWork nld) {addr : Nat} {columns : Page}
    (hstored : storedPage nld w addr = some columns) :
    wp (nmbmReadLogicPage addr) nld (fun r w' => Quiet w w' ∧ 0 ≤ r.1 ∧ r.2 = columns) w := by
  have hread := nmbmReadLogicPage_stored nld addr w
  have hret : wp (nmbmReadLogicPage addr) nld (fun r _ => 0 ≤ r.1) w := by
    rw [storedPage, NmbmInstance.entry] at hstored
    simp only [nmbmReadLogicPage, wp_bind, wp_ask, wp_get, wp_ite, wp_pure]
    split_ifs at hstored with hentry hstate
    refine ⟨fun h => absurd h hentry, fun _ => ⟨fun h => absurd h hstate, fun _ => ?_⟩⟩
    exact wp_mono (nmbmReadPhysPage_complete hreads _ _ w) (fun _ _ h => h.2.1)
  obtain ⟨hquiet, hbytes⟩ := hread
  have heq := hbytes hret
  rw [hstored] at heq
  exact ⟨hquiet, hret, (Option.some.inj heq).symm⟩

theorem Phys.storedRange {w₁ : World} (h : Phys ∅ w w₁) (fuel off size : Nat) (acc : List UInt8) :
    storedRange nld w₁ fuel off size acc = storedRange nld w fuel off size acc := by
  induction fuel generalizing off size acc with
  | zero => rfl
  | succ fuel ih =>
      simp only [Nmbm.storedRange, h.storedPage, ih]

/-- Without an error, the loop returns the bytes of the range. -/
theorem readRangeLoop_stored (nld : LowerDevice) :
    ∀ (fuel off size : Nat) (eccErr : Bool) (flips : Int) (acc : List UInt8) (w : World),
      wp (readRangeLoop fuel off size eccErr flips acc) nld (fun r _ =>
        (0 ≤ r.1 ∨ r.1 = eBadMsg) → r.2.1 = false →
          eccErr = false ∧ storedRange nld w fuel off size acc = some r.2.2.2) w := by
  intro fuel
  induction fuel with
  | zero =>
      intro off size eccErr flips acc w _ hecc
      exact ⟨hecc, rfl⟩
  | succ fuel ih =>
      intro off size eccErr flips acc w
      simp only [readRangeLoop, storedRange, wp_bind, wp_ask]
      generalize off &&& (nld.writesize - 1) = leading
      generalize min (nld.writesize - leading) size = chunksize
      refine wp_mono (nmbmReadLogicPage_stored nld (off - leading) w) ?_
      rintro r w₁ ⟨hquiet, hpage⟩
      -- Whether or not the page goes through the cache, the rest is the same.
      have hrest : ∀ w₂, Phys ∅ w w₂ →
          wp (if r.1 < 0 ∧ r.1 ≠ eBadMsg then pure (r.1, eccErr, flips, acc)
            else if size - chunksize = 0 then
              pure (r.1, (eccErr || r.1 == eBadMsg), max flips r.1,
                acc ++ readAt (mainArea nld r.2) leading chunksize)
            else readRangeLoop fuel (off + chunksize) (size - chunksize)
              (eccErr || r.1 == eBadMsg) (max flips r.1)
              (acc ++ readAt (mainArea nld r.2) leading chunksize)) nld (fun r _ =>
          (0 ≤ r.1 ∨ r.1 = eBadMsg) → r.2.1 = false → eccErr = false ∧
            (match storedPage nld w (off - leading) with
              | none => none
              | some columns =>
                  if size - chunksize = 0 then
                    some (acc ++ readAt (mainArea nld columns) leading chunksize)
                  else storedRange nld w fuel (off + chunksize) (size - chunksize)
                    (acc ++ readAt (mainArea nld columns) leading chunksize)) = some r.2.2.2) w₂ := by
        intro w₂ hphys
        have hclean : (eccErr || r.1 == eBadMsg) = false → ¬ (r.1 < 0 ∧ r.1 ≠ eBadMsg) →
            eccErr = false ∧ storedPage nld w (off - leading) = some r.2 := by
          intro hecc hret
          simp only [Bool.or_eq_false_iff, beq_eq_false_iff_ne] at hecc
          refine ⟨hecc.1, hpage ?_⟩
          by_contra hneg
          exact hret ⟨by omega, hecc.2⟩
        simp only [wp_ite, wp_pure]
        refine ⟨fun hret hok _ => absurd hok (by simp; omega), fun hret =>
          ⟨fun hdone _ hecc => ?_, fun hmore => ?_⟩⟩
        · obtain ⟨hecc', hstored⟩ := hclean hecc hret
          simp [hecc', hstored, hdone]
        · refine wp_mono (ih _ _ _ _ _ w₂) ?_
          intro r' _ hr' hok hecc
          obtain ⟨hecc', hloop⟩ := hr' hok hecc
          obtain ⟨hecc'', hstored⟩ := hclean hecc' hret
          rw [hphys.storedRange] at hloop
          simp [hecc'', hstored, hmore, hloop]
      rw [wp_ite]
      refine ⟨fun _ => ?_, fun _ => hrest w₁ (hquiet.phys ∅)⟩
      simp only [wp_bind, wp_setPageCache]
      exact hrest _ ((hquiet.phys ∅).trans (phys_setPageCache ∅ w₁ _))

/-- If reads work, the loop meets no error in a range that is stored. -/
theorem readRangeLoop_complete (hreads : ReadsWork nld) :
    ∀ (fuel off size : Nat) (eccErr : Bool) (flips : Int) (acc : List UInt8) (w : World),
      storedRange nld w fuel off size acc ≠ none →
      0 ≤ flips →
      wp (readRangeLoop fuel off size eccErr flips acc) nld (fun r _ =>
        0 ≤ r.1 ∧ r.2.1 = eccErr ∧ 0 ≤ r.2.2.1) w := by
  intro fuel
  induction fuel with
  | zero =>
      intro off size eccErr flips acc w _ hflips
      exact ⟨le_refl 0, rfl, hflips⟩
  | succ fuel ih =>
      intro off size eccErr flips acc w hstored hflips
      simp only [readRangeLoop, storedRange, wp_bind, wp_ask] at hstored ⊢
      generalize off &&& (nld.writesize - 1) = leading at hstored ⊢
      generalize min (nld.writesize - leading) size = chunksize at hstored ⊢
      cases hpage : storedPage nld w (off - leading) with
      | none =>
          rw [hpage] at hstored
          exact absurd rfl hstored
      | some columns =>
          rw [hpage] at hstored
          refine wp_mono (nmbmReadLogicPage_complete hreads hpage) ?_
          rintro r w₁ ⟨hquiet, hret, rfl⟩
          have hecc : (eccErr || r.1 == eBadMsg) = eccErr := by
            have hne : r.1 ≠ eBadMsg := fun heq => absurd (heq ▸ hret) (by decide)
            simp [hne]
          have hrest : ∀ w₂, Phys ∅ w w₂ → size - chunksize ≠ 0 →
              wp (readRangeLoop fuel (off + chunksize) (size - chunksize) eccErr (max flips r.1)
                (acc ++ readAt (mainArea nld r.2) leading chunksize)) nld
                (fun r _ => 0 ≤ r.1 ∧ r.2.1 = eccErr ∧ 0 ≤ r.2.2.1) w₂ := by
            intro w₂ hphys hmore
            apply ih
            · rw [hphys.storedRange]
              simpa only [if_neg hmore] using hstored
            · exact le_max_of_le_left hflips
          have hmax : 0 ≤ max flips r.1 := le_max_of_le_left hflips
          simp only [hecc, wp_ite, wp_bind, wp_pure, wp_setPageCache]
          have hphys := hquiet.phys ∅
          exact ⟨fun _ => ⟨fun h => absurd h.1 (by omega), fun _ => ⟨fun _ => ⟨hret, trivial, hmax⟩,
              hrest _ (hphys.trans (phys_setPageCache ∅ w₁ _))⟩⟩,
            fun _ => ⟨fun h => absurd h.1 (by omega), fun _ => ⟨fun _ => ⟨hret, trivial, hmax⟩,
              hrest _ hphys⟩⟩⟩

/-- What {lit}`nmbm_read_range` returns without an error is stored in the range. -/
theorem nmbmReadRange_stored (nld : LowerDevice) (addr size : Nat) (w : World) :
    wp (nmbmReadRange addr size) nld (fun r _ => 0 ≤ r.1 → StoredBytes nld w addr size r.2) w := by
  simp only [nmbmReadRange, wp_bind, wp_ask, wp_get, wp_ite, wp_pure]
  refine ⟨fun _ h => absurd h (by decide), fun hprot => ⟨fun _ h => absurd h (by decide), fun haddr =>
    ⟨fun _ h => absurd h (by decide), fun hend => ?_⟩⟩⟩
  have havail : Available nld w.ni addr size :=
    ⟨by simpa using hprot, Nat.not_le.mp haddr, Nat.not_lt.mp hend⟩
  refine ⟨fun hzero _ => ⟨havail, by rw [if_pos hzero]⟩, fun hsize => ?_⟩
  refine wp_mono (readRangeLoop_stored nld size addr size false 0 [] w) ?_
  intro r w₁ hr
  refine ⟨fun herr hret => absurd hret (by omega), fun herr => ⟨fun _ hret => absurd hret (by decide),
    fun hecc _ => ?_⟩⟩
  have hok : 0 ≤ r.1 ∨ r.1 = eBadMsg := by
    by_contra hno
    rw [not_or] at hno
    exact herr ⟨by omega, hno.2⟩
  refine ⟨havail, ?_⟩
  rw [if_neg hsize]
  exact (hr hok (by simpa using hecc)).2

/-- What is stored in the range is what {lit}`nmbm_read_range` returns if reads work. -/
theorem nmbmReadRange_complete (hreads : ReadsWork nld) {addr size : Nat} {bytes : List UInt8}
    (h : StoredBytes nld w addr size bytes) :
    wp (nmbmReadRange addr size) nld (fun r _ => 0 ≤ r.1 ∧ r.2 = bytes) w := by
  obtain ⟨⟨hprot, haddr, hend⟩, hbytes⟩ := h
  have hret : wp (nmbmReadRange addr size) nld (fun r _ => 0 ≤ r.1) w := by
    simp only [nmbmReadRange, wp_bind, wp_ask, wp_get, wp_ite, wp_pure]
    refine ⟨fun h => absurd h (by simp [hprot]), fun _ => ⟨fun h => absurd h (by omega), fun _ =>
      ⟨fun h => absurd h (by omega), fun _ => ⟨fun _ => le_refl 0, fun hsize => ?_⟩⟩⟩⟩
    rw [if_neg hsize] at hbytes
    refine wp_mono (readRangeLoop_complete hreads size addr size false 0 [] w
      (by rw [hbytes]; simp) (le_refl 0)) ?_
    rintro r w₁ ⟨hret, hecc, hflips⟩
    exact ⟨fun h => absurd h.1 (by omega), fun _ => ⟨fun h => absurd h (by simp [hecc]),
      fun _ => hflips⟩⟩
  have hstored := nmbmReadRange_stored nld addr size w hret
  refine ⟨hret, ?_⟩
  have hbytes' := hstored.2
  by_cases hsize : size = 0
  · rw [if_pos hsize] at hbytes hbytes'
    rw [hbytes, hbytes']
  · rw [if_neg hsize] at hbytes hbytes'
    rw [hbytes] at hbytes'
    exact (Option.some.inj hbytes').symm

/-! ## Calls on other logic blocks -/

/-- A block of a logic block that a call does not name is not in its reach. -/
theorem notMem_territory (ho : Owned w.ni) {L : Set Nat} {lb : Nat} (hlb : lb ∉ L)
    (hentry : 0 ≤ w.ni.entry lb) : (w.ni.entry lb).toNat ∉ territory L w.ni := by
  rintro (⟨hlo, hhi⟩ | ⟨lb', hlb', heq⟩)
  · have hplace := ho.place lb hentry
    omega
  · have hsame : w.ni.entry lb = w.ni.entry lb' := by omega
    rw [ho.injective lb lb' hentry hsame] at hlb
    exact hlb hlb'

/-- A call leaves the pages of other logic blocks alone. -/
theorem Step.storedPage {L : Set Nat} (h : Step nld L (territory L w.ni) w w') (ho : Owned w.ni)
    {addr : Nat} (hlb : nld.addr2ba addr ∉ L) :
    storedPage nld w' addr = storedPage nld w addr := by
  rw [Nmbm.storedPage, Nmbm.storedPage, h.entry _ hlb]
  by_cases hentry : w.ni.entry (nld.addr2ba addr) < 0
  · rw [if_pos hentry, if_pos hentry]
  · have hout := notMem_territory ho hlb (not_lt.mp hentry)
    rw [if_neg hentry, if_neg hentry, h.state _ hout, h.chip.flash.cells _ hout]

/-- A call leaves the bytes of other logic blocks alone, unless the tables are lost. -/
theorem Step.storedBytes {L : Set Nat} (h : Step nld L (territory L w.ni) w w') (ho : Owned w.ni)
    (hkept : Event.rebuildFailed ∉ w'.events)
    {addr size : Nat} (hother : ∀ i, i < size → pageBlock nld (addr + i) ∉ L) {bytes : List UInt8}
    (hbytes : StoredBytes nld w addr size bytes) : StoredBytes nld w' addr size bytes := by
  obtain ⟨⟨hprot, haddr, hend⟩, hrange⟩ := hbytes
  refine ⟨⟨?_, ?_, ?_⟩, ?_⟩
  · rcases h.guarded with heq | ⟨-, hfailed⟩
    · exact heq.trans hprot
    · exact absurd hfailed hkept
  · rw [h.count]
    exact haddr
  · rw [h.count]
    exact hend
  · by_cases hsize : size = 0
    · rw [if_pos hsize] at hrange ⊢
      exact hrange
    · rw [if_neg hsize] at hrange ⊢
      rw [storedRange_congr size addr size [] (by omega) (fun i hi => h.storedPage ho (hother i hi))]
      exact hrange

/-! ## Runs -/

/-- The bytes of a range do not depend on the behaviour of the chip. -/
theorem storedRange_withFates (fates : Fates) (fuel off size : Nat) (acc : List UInt8) :
    storedRange { nld with fates } w fuel off size acc = storedRange nld w fuel off size acc := by
  induction fuel generalizing off size acc with
  | zero => rfl
  | succ fuel ih =>
      simp only [storedRange, ih]
      rfl

theorem storedBytes_withFates (fates : Fates) {addr size : Nat} {bytes : List UInt8} :
    StoredBytes { nld with fates } w addr size bytes ↔ StoredBytes nld w addr size bytes := by
  rw [StoredBytes, StoredBytes, storedRange_withFates]
  rfl

theorem Phys.storedBytes {w₁ : World} (h : Phys ∅ w w₁) {addr size : Nat} {bytes : List UInt8}
    (hbytes : StoredBytes nld w addr size bytes) : StoredBytes nld w₁ addr size bytes := by
  obtain ⟨havail, hrange⟩ := hbytes
  obtain ⟨pc, hni⟩ := h.ni
  refine ⟨?_, ?_⟩
  · rw [Available, hni]
    exact havail
  · rw [h.storedRange]
    exact hrange

/-- No erase succeeds. -/
def Worn (nld : LowerDevice) : Prop :=
  ∀ t, (nld.fates t .erase).ret ≠ 0

theorem worn_eraseTries (hworn : Worn nld) (ba : Nat) :
    ∀ (more : Nat) (w : World), wp (eraseTries ba more) nld (fun ok _ => ok = false) w := by
  intro more
  induction more with
  | zero =>
      intro w
      exact decide_eq_false (hworn _)
  | succ more ih =>
      intro w
      simp only [eraseTries, wp_bind, wp_lower, wp_ite, wp_pure]
      exact ⟨fun h => absurd h (hworn _), fun _ => ih _⟩

theorem worn_eraseBlockAndCheck (hworn : Worn nld) (ba : Nat) (w : World) :
    wp (nmbmEraseBlockAndCheck ba) nld (fun ok _ => ok = false) w := by
  have herase : wp (nmbmErasePhysBlock ba) nld (fun ok _ => ok = false) w := by
    simp only [nmbmErasePhysBlock, wp_bind, wp_ask, wp_ite, wp_pure]
    exact ⟨fun _ => trivial, fun _ => worn_eraseTries hworn ba _ w⟩
  simp only [nmbmEraseBlockAndCheck, wp_bind, wp_ask]
  refine wp_mono herase ?_
  rintro _ w₁ rfl
  rfl

theorem worn_writeMgmtBlock (hworn : Worn nld) (ba : Nat) (chunk : List UInt8) (w : World) :
    wp (writeMgmtBlock ba chunk) nld (fun stored _ => stored = false) w := by
  simp only [writeMgmtBlock, wp_bind, wp_get, wp_ite, wp_pure]
  refine ⟨fun _ => trivial, fun _ => wp_mono (nmbmCheckBadPhysBlock_spec nld ba w) ?_⟩
  intro bad w₁ _
  refine ⟨fun _ => trivial, fun _ => ?_⟩
  rw [wp_logEvent]
  refine wp_mono (worn_eraseBlockAndCheck hworn ba _) ?_
  rintro _ w₂ rfl
  exact ⟨fun h => absurd h (by simp), fun _ => ⟨fun _ => trivial, fun h => absurd rfl h⟩⟩

theorem worn_writeMgmtLoop (hworn : Worn nld) {rest : List UInt8} (hrest : rest ≠ []) :
    ∀ (n ba : Nat) (start : Option Nat) (w : World),
      wp (writeMgmtLoop n ba rest start) nld (fun r _ => r = none) w := by
  have hlen : rest.length ≠ 0 := fun h => hrest (List.length_eq_zero_iff.mp h)
  intro n
  induction n with
  | zero =>
      intro ba start w
      simp only [writeMgmtLoop, if_neg hlen, wp_pure]
  | succ n ih =>
      intro ba start w
      simp only [writeMgmtLoop, if_neg hlen, wp_bind, wp_ask]
      refine wp_mono (worn_writeMgmtBlock hworn ba _ w) ?_
      rintro _ w₁ rfl
      exact ih (ba + 1) start _

/-- No table can be written. -/
theorem worn_writeInfoTable (hworn : Worn nld) (hws : 0 < nld.writesize) {ba limit : Nat}
    (hcache : w.ni.infoTableCache ≠ []) :
    wp (nmbmWriteInfoTable ba limit) nld (fun r w' =>
      r = none ∧ w'.ni.infoTableCache = w.ni.infoTableCache) w := by
  have hspec := nmbmWriteInfoTable_spec nld hws ba limit w
  have hnone : wp (nmbmWriteInfoTable ba limit) nld (fun r _ => r = none) w :=
    worn_writeMgmtLoop hworn hcache (limit - ba) ba none w
  obtain ⟨pc, st, n, hni⟩ := hspec.1.ni
  refine ⟨hnone, ?_⟩
  rw [hni]

theorem worn_rebuildInfoTable (hworn : Worn nld) (hws : 0 < nld.writesize)
    (hcache : w.ni.infoTableCache ≠ []) :
    wp nmbmRebuildInfoTable nld (fun ok w' => ok = false ∧ w'.ni.isProtected = true) w := by
  simp only [nmbmRebuildInfoTable, wp_bind, wp_ask, wp_modifyNi, wp_get]
  refine wp_mono (worn_writeInfoTable hworn hws hcache) ?_
  rintro _ w₁ ⟨rfl, -⟩
  exact ⟨rfl, rfl⟩

theorem worn_writeMainTable (hworn : Worn nld) (hws : 0 < nld.writesize) {limit : Nat}
    (hcache : w.ni.infoTableCache ≠ [])
    (hbackup : w.ni.backupTableBa = 0) :
    wp (writeMainTable limit) nld (fun ok w' => ok = false ∧ w'.ni.isProtected = true) w := by
  simp only [writeMainTable, wp_bind, wp_get, wp_ite, hbackup, if_true, wp_logEvent]
  refine ⟨fun _ => worn_rebuildInfoTable hworn hws hcache, fun _ =>
    ⟨fun _ => ?_, fun h => absurd trivial h⟩⟩
  refine wp_mono (worn_writeInfoTable hworn hws hcache) ?_
  rintro _ w₁ ⟨rfl, hcache₁⟩
  exact worn_rebuildInfoTable hworn hws (by rw [hcache₁]; exact hcache)

/-- With changes to save, a worn chip ends up read-only. -/
theorem worn_updateInfoTable (hworn : Worn nld) (hws : 0 < nld.writesize)
    (hchanged : w.ni.blockStateChanged ≠ 0 ∨ w.ni.blockMappingChanged ≠ 0) :
    wp nmbmUpdateInfoTable nld (fun _ w' => w'.ni.isProtected = true) w := by
  simp only [nmbmUpdateInfoTable, wp_bind, wp_ask, wp_get, wp_ite, wp_pure]
  refine ⟨fun h => h, fun _ => ?_⟩
  have honce : wp (nmbmUpdateInfoTableOnce false) nld (fun ok w' =>
      ok = false ∧ w'.ni.isProtected = true) w := by
    simp only [nmbmUpdateInfoTableOnce, wp_bind]
    refine wp_mono (nmbmGenerateInfoTableCache_spec nld w) ?_
    rintro changed w₁ ⟨hiff, hdr, hgen⟩
    obtain rfl := hiff.mpr hchanged
    have hcache : w₁.ni.infoTableCache ≠ [] := by
      rw [hgen.ni]
      exact tableBytes_ne_nil nld w.ni hdr
    simp only [Bool.not_true, Bool.false_and, Bool.false_eq_true, if_false, wp_get, wp_ite, wp_bind]
    refine ⟨fun hbackup => worn_writeMainTable hworn hws hcache hbackup, fun _ => ?_⟩
    refine wp_mono (worn_writeInfoTable hworn hws hcache) ?_
    rintro _ w₂ ⟨rfl, hcache₂⟩
    rw [wp_bind, wp_modifyNi]
    exact worn_writeMainTable hworn hws (by rw [hcache₂]; exact hcache) rfl
  simp only [updateLoop, wp_bind, wp_get, if_pos hchanged]
  refine wp_mono honce ?_
  rintro _ w₁ ⟨rfl, hprot⟩
  exact hprot

/-- Marking a good block bad on a worn chip makes the instance read-only. -/
theorem worn_markBadBlock (hworn : Worn nld) (hws : 0 < nld.writesize)
    (hmark : nld.hasMarkBadBlock = true)
    (hwritable : nld.readOnly = false) {addr : Nat}
    (hprot : w.ni.isProtected = false)
    (haddr : addr < nld.ba2addr w.ni.dataBlockCount)
    (hentry : 0 ≤ w.ni.entry (nld.addr2ba addr))
    (hgood : nmbmGetBlockState w.ni (w.ni.entry (nld.addr2ba addr)).toNat = blockStGood) :
    wp (nmbmMarkBadBlock addr) nld (fun _ w' => w'.ni.isProtected = true) w := by
  rw [NmbmInstance.entry] at hentry hgood
  simp only [nmbmMarkBadBlock, wp_bind, wp_ask, wp_get, hprot, hwritable, Bool.false_eq_true,
    or_self, if_false, if_neg (Nat.not_le.mpr haddr), if_neg (not_lt.mpr hentry), wp_modifyNi,
    retireBlock, nmbmMarkPhysBadBlock, hmark, if_true, wp_lower, wp_pure, nmbmSetBlockState,
    wp_logEvent]
  apply worn_updateInfoTable hworn hws
  left
  have hne : nmbmGetBlockState w.ni (w.ni.blockMapping.getD (nld.addr2ba addr) (-1)).toNat ≠
      blockStBad &&& blockStMask := by
    rw [hgood]
    decide
  exact ne_of_eq_of_ne (if_pos hne) (Nat.succ_ne_zero _)

/-! ## A chip of 512 blocks -/

/-- The first two logic blocks of a new instance without bad blocks. -/
theorem entry_blank (h : NewArea smallChip (blankFlash []).marks w) :
    w.ni.dataBlockCount = 480 ∧ w.ni.entry 0 = 0 ∧ w.ni.entry 1 = 1 := by
  have hcount : w.ni.dataBlockCount = 480 := by
    rw [h.count]
    decide +kernel
  refine ⟨hcount, ?_, ?_⟩
  · rw [NmbmInstance.entry, h.mapping, hcount]
    decide +kernel
  · rw [NmbmInstance.entry, h.mapping, hcount]
    decide +kernel

theorem state_blank (h : NewArea smallChip (blankFlash []).marks w) {b : Nat} (hb : b < 512) :
    nmbmGetBlockState w.ni b = blockStGood := by
  have hblocks : smallChip.blockCount = 512 := by decide
  have hstate := h.state b (by rw [hblocks]; exact hb)
  rw [hstate, if_neg (by simp [blankFlash])]

/-- The second logic block can be read. -/
theorem storedBytes_blank (h : NewArea smallChip (blankFlash []).marks w) :
    ∃ bytes, StoredBytes smallChip w 4096 1 bytes := by
  obtain ⟨hcount, -, hentry⟩ := entry_blank h
  have hba : smallChip.addr2ba 4096 = 1 := by decide
  have hpage : storedPage smallChip w 4096 = some (w.chip.flash.cells 1 (pageOf smallChip 4096)) := by
    rw [storedPage, hba, hentry, if_neg (by decide), if_neg]
    · rfl
    · have hgood := state_blank h (b := 1) (by decide)
      rw [Int.toNat_one, hgood]
      decide
  refine ⟨readAt (mainArea smallChip (w.chip.flash.cells 1 (pageOf smallChip 4096))) 0 1,
    ⟨h.unprotected, ?_, ?_⟩, ?_⟩
  · rw [hcount]
    decide
  · rw [hcount]
    decide
  · rw [if_neg (by decide), storedRange]
    have hleading : 4096 &&& (smallChip.writesize - 1) = 0 := by decide
    have hchunk : min smallChip.writesize 1 = 1 := by decide
    simp only [hleading, Nat.sub_zero, hpage, hchunk, Nat.sub_self, if_true, List.nil_append]

/-- On a healthy chip, writing a page goes well. -/
theorem healthy_writeSinglePage (h : Healthy nld w) (addr : Nat) (data oob : Option (List UInt8)) :
    wp (nmbmWriteSinglePage addr data oob) nld (fun _ w' =>
      ∀ e ∈ w'.events, e ∈ w.events ∨ e.Sane) w := by
  simp only [nmbmWriteSinglePage, nmbmWriteLogicPage, wp_bind, wp_ask, wp_get, wp_ite, wp_pure]
  refine ⟨fun _ _ => .inl, fun _ => ⟨fun _ _ => .inl, fun _ => ⟨fun _ _ => .inl, fun _ =>
    ⟨fun _ _ => .inl, fun _ => ?_⟩⟩⟩⟩
  refine wp_mono (healthy_writePhysPage h _ _ data oob) ?_
  rintro _ w₁ ⟨rfl, hsmooth, -⟩
  exact ⟨fun _ => hsmooth.log, fun hno => absurd rfl hno⟩

/-- Every erase fails. -/
def wornFates : Fates :=
  fun _ kind => if kind = .erase then ⟨-eIo, .nothing⟩ else ⟨0, .done⟩

end Nmbm
end ZyxelRouter
