import ZyxelRouter.Nmbm.Logic

/-!
# NMBM: what the physical operations may change

Specifications of the retrying operations on pages and blocks.  Each of them changes the
page cache and the addressed block at most.

Main results:

- Theorem {lit}`nmbmGetBlockStateRaw_set`: the block state table is a store of two-bit
  values.
- Theorems {lit}`nmbmReadPhysPage_spec`, {lit}`nmbmWritePhysPage_spec`,
  {lit}`nmbmEraseBlockAndCheck_spec`, {lit}`nmbmCheckBadPhysBlock_spec`,
  {lit}`nmbmMarkPhysBadBlock_spec`: one specification for each operation.
-/

namespace ZyxelRouter
namespace Nmbm

open Lib Lib.Prog

/-! ## The block state table -/

theorem getLsbD_blockStMask (k : Nat) : blockStMask.getLsbD k = decide (k < 2) := by
  have hbit : Nat.testBit 3 k = decide (k < 2) := Nat.testBit_two_pow_sub_one 2 k
  rw [blockStMask, BitVec.getLsbD_ofNat, hbit]
  by_cases hk : k < 2
  · simp [hk, show k < 32 by omega]
  · simp [hk]

/-- Reading the two bits at position {lit}`j` of a unit after a store at {lit}`i`. -/
theorem unit_field_store (u v : BitVec 32) {i j : Nat} (hj : j < 16) :
    ((u &&& ~~~(blockStMask <<< (i * 2)) ||| (v &&& blockStMask) <<< (i * 2)) >>> (j * 2)) &&&
        blockStMask =
      if i = j then v &&& blockStMask else (u >>> (j * 2)) &&& blockStMask := by
  apply BitVec.eq_of_getLsbD_eq
  intro k hk
  by_cases hk2 : k < 2
  · have hwidth : j * 2 + k < 32 := by omega
    split_ifs with hij <;>
      simp only [BitVec.getLsbD_and, BitVec.getLsbD_ushiftRight, BitVec.getLsbD_or,
        BitVec.getLsbD_not, BitVec.getLsbD_shiftLeft, getLsbD_blockStMask]
    · subst hij
      simp [hk2, hwidth]
    · by_cases hlt : j * 2 + k < i * 2
      · simp [hk2, hwidth, hlt]
      · have hout : ¬ (j * 2 + k - i * 2 < 2) := by omega
        simp [hk2, hwidth, hlt, hout]
  · split_ifs with hij <;> simp [getLsbD_blockStMask, hk2]

/-- Reading the state of a block after storing one. -/
theorem nmbmGetBlockStateRaw_set (s : BlockStates) (v : BitVec 32) {a b : Nat}
    (ha : a / 16 < s.length) :
    nmbmGetBlockStateRaw (setBlockStateRaw s a v) b =
      if a = b then v &&& blockStMask else nmbmGetBlockStateRaw s b := by
  by_cases hunit : a / 16 = b / 16
  · have hget : (setBlockStateRaw s a v).getD (b / 16) 0#32 =
        (s.getD (b / 16) 0#32 &&& ~~~(blockStMask <<< (a % 16 * 2)) |||
          (v &&& blockStMask) <<< (a % 16 * 2)) := by
      rw [setBlockStateRaw, ← hunit, List.getD_eq_getElem?_getD, List.getElem?_set_self ha]
      rfl
    have hiff : (a % 16 = b % 16) ↔ a = b := by omega
    rw [nmbmGetBlockStateRaw, hget, unit_field_store _ _ (Nat.mod_lt _ (by omega))]
    simp only [hiff, nmbmGetBlockStateRaw]
  · have hne : a ≠ b := by
      rintro rfl
      exact hunit rfl
    rw [if_neg hne, nmbmGetBlockStateRaw, setBlockStateRaw, List.getD_eq_getElem?_getD,
      List.getElem?_set_ne hunit]
    rfl

/-- In a table of set bits every block is good. -/
theorem nmbmGetBlockStateRaw_replicate {n b : Nat} (hb : b / 16 < n) :
    nmbmGetBlockStateRaw (List.replicate n 0xffffffff#32) b = blockStGood := by
  have hall : ∀ i, i < 16 → ((0xffffffff#32 >>> (i * 2)) &&& blockStMask) = blockStGood := by
    decide
  rw [nmbmGetBlockStateRaw, List.getD_eq_getElem?_getD, List.getElem?_replicate, if_pos hb]
  exact hall _ (Nat.mod_lt _ (by decide))

@[simp]
theorem length_setBlockStateRaw (s : BlockStates) (a : Nat) (v : BitVec 32) :
    (setBlockStateRaw s a v).length = s.length := by
  simp [setBlockStateRaw]

/-! ## Frames of physical operations -/

/-- Neither the instance nor the memory of the chip changed. -/
structure Quiet (w w' : World) : Prop where
  ni : w'.ni = w.ni
  events : w'.events = w.events
  flash : w'.chip.flash = w.chip.flash
  history : w'.chip.history = w.chip.history

/-- Only the page cache and blocks of {lit}`S` changed. -/
structure Phys (S : Set Nat) (w w' : World) : Prop where
  ni : ∃ pageCache, w'.ni = { w.ni with pageCache }
  events : w'.events = w.events
  chip : Chip.Touches S w.chip w'.chip

variable {S T : Set Nat} {w w' w'' : World} {nld : LowerDevice} {ba page : Nat}

theorem Quiet.refl (w : World) : Quiet w w :=
  ⟨rfl, rfl, rfl, rfl⟩

theorem Quiet.trans (h : Quiet w w') (h' : Quiet w' w'') : Quiet w w'' :=
  ⟨h'.ni.trans h.ni, h'.events.trans h.events, h'.flash.trans h.flash,
    h'.history.trans h.history⟩

theorem Quiet.phys (h : Quiet w w') (S : Set Nat) : Phys S w w' := by
  refine ⟨⟨w.ni.pageCache, h.ni⟩, h.events, ?_, [], by simp [h.history], by simp⟩
  rw [h.flash]
  exact Chip.Follows.refl S _

theorem Phys.refl (S : Set Nat) (w : World) : Phys S w w :=
  (Quiet.refl w).phys S

theorem Phys.trans (h : Phys S w w') (h' : Phys S w' w'') : Phys S w w'' := by
  obtain ⟨pc, hpc⟩ := h.ni
  obtain ⟨pc', hpc'⟩ := h'.ni
  refine ⟨⟨pc', ?_⟩, h'.events.trans h.events, h.chip.trans h'.chip⟩
  rw [hpc', hpc]

theorem Phys.mono (h : Phys S w w') (hST : S ⊆ T) : Phys T w w' :=
  ⟨h.ni, h.events, h.chip.mono hST⟩

/-- Storing bytes in the page cache. -/
theorem phys_setPageCache (S : Set Nat) (w : World) (pageCache : List UInt8) :
    Phys S w { w with ni := { w.ni with pageCache } } :=
  ⟨⟨pageCache, rfl⟩, rfl, Chip.Touches.refl S _⟩

/-- A chip operation that touches {lit}`S`. -/
theorem phys_chip {c : Chip} (h : Chip.Touches S w.chip c) : Phys S w { w with chip := c } :=
  ⟨⟨w.ni.pageCache, rfl⟩, rfl, h⟩

@[simp]
theorem wp_setPageCache {Q : Unit → World → Prop} (off : Nat) (bytes : List UInt8) :
    wp (setPageCache off bytes) nld Q w ↔
      Q () { w with ni := { w.ni with pageCache := writeAt w.ni.pageCache off bytes } } :=
  Iff.rfl

@[simp]
theorem wp_modifyNi {Q : Unit → World → Prop} (f : NmbmInstance → NmbmInstance) :
    wp (modifyNi f) nld Q w ↔ Q () { w with ni := f w.ni } :=
  Iff.rfl

@[simp]
theorem wp_logEvent {Q : Unit → World → Prop} (e : NmbmInstance → Chip → Event) :
    wp (logEvent e) nld Q w ↔ Q () { w with events := e w.ni w.chip :: w.events } :=
  Iff.rfl

@[simp]
theorem wp_lower {α : Type} {Q : α → World → Prop} (f : Fates → Chip → α × Chip) :
    wp (lower f) nld Q w ↔
      Q (f nld.fates w.chip).1 { w with chip := (f nld.fates w.chip).2 } :=
  Iff.rfl

/-! ## Reading -/

/-- A single read attempt. -/
theorem quiet_readPage (nld : LowerDevice) (ba page : Nat) (w : World) :
    Quiet w { w with chip := (Chip.readPage nld.fates ba page w.chip).2 } :=
  ⟨rfl, rfl, rfl, rfl⟩

/-- A read attempt that does not fail returns the stored page. -/
theorem readPage_truthful {fates : Fates} {c : Chip}
    (h : 0 ≤ (Chip.readPage fates ba page c).1.1) :
    (Chip.readPage fates ba page c).1.2 = c.flash.cells ba page := by
  simp only [Chip.readPage] at h ⊢
  split
  · rw [if_pos h]
  · rfl

/-- A page that is read without an error is the stored page. -/
theorem readTries_spec (nld : LowerDevice) (ba page : Nat) :
    ∀ (more : Nat) (w : World),
      wp (readTries ba page more) nld (fun r w' =>
        Quiet w w' ∧ (0 ≤ r.1 → r.2 = w.chip.flash.cells ba page)) w := by
  intro more
  induction more with
  | zero =>
      intro w
      exact ⟨quiet_readPage nld ba page w, readPage_truthful⟩
  | succ more ih =>
      intro w
      simp only [readTries, wp_bind, wp_lower, wp_ite, wp_pure]
      refine ⟨fun h => ⟨quiet_readPage nld ba page w, readPage_truthful⟩, fun _ => ?_⟩
      refine wp_mono (ih _) ?_
      intro r w' hr
      exact ⟨(quiet_readPage nld ba page w).trans hr.1, hr.2⟩

/-- The specification of {lit}`nmbm_read_phys_page`. -/
theorem nmbmReadPhysPage_spec (nld : LowerDevice) (ba page : Nat) (w : World) :
    wp (nmbmReadPhysPage ba page) nld (fun r w' =>
      Quiet w w' ∧ (0 ≤ r.1 → r.2 = w.chip.flash.cells ba page)) w :=
  readTries_spec nld ba page _ w

/-! ## Writing, erasing, checking and marking -/

/-- Blocks of {lit}`S` changed, but no bad-block mark. -/
structure Programs (S : Set Nat) (w w' : World) : Prop extends Phys S w w' where
  marks : w'.chip.flash.marks = w.chip.flash.marks

theorem Programs.refl (S : Set Nat) (w : World) : Programs S w w :=
  ⟨Phys.refl S w, rfl⟩

theorem Programs.trans (h : Programs S w w') (h' : Programs S w' w'') : Programs S w w'' :=
  ⟨h.toPhys.trans h'.toPhys, h'.marks.trans h.marks⟩

theorem Quiet.programs (h : Quiet w w') (S : Set Nat) : Programs S w w' :=
  ⟨h.phys S, by rw [h.flash]⟩

theorem programs_setPageCache (S : Set Nat) (w : World) (pageCache : List UInt8) :
    Programs S w { w with ni := { w.ni with pageCache } } :=
  ⟨phys_setPageCache S w pageCache, rfl⟩

/-- A page program that is local leaves the other pages of its block alone. -/
theorem writePage_other_page {fates : Fates} (hlocal : fates.PageLocal)
    (columns : Nat → Option UInt8) (c : Chip) {q : Nat} (hq : q ≠ page) :
    (Chip.writePage fates ba page columns c).2.flash.cells ba q = c.flash.cells ba q := by
  simp only [Chip.writePage, Chip.advance, Chip.setBlock, Function.update_self]
  cases heffect : (fates c.clock .write).effect with
  | done => exact Function.update_of_ne hq _ _
  | nothing => rfl
  | garbled change => exact hlocal _ _ heffect page _ q hq

theorem writeTries_spec (nld : LowerDevice) (ba page : Nat) (columns : Nat → Option UInt8) :
    ∀ (more : Nat) (w : World),
      wp (writeTries ba page columns more) nld (fun _ w' =>
        Programs {ba} w w' ∧
          (nld.fates.PageLocal → ∀ q, q ≠ page →
            w'.chip.flash.cells ba q = w.chip.flash.cells ba q)) w := by
  have hone : ∀ w : World, Programs {ba} w
      { w with chip := (Chip.writePage nld.fates ba page columns w.chip).2 } := by
    intro w
    exact ⟨phys_chip (Chip.touches_writePage _ page columns _ (Set.mem_singleton ba)), rfl⟩
  intro more
  induction more with
  | zero =>
      intro w
      exact ⟨hone w, fun hlocal q hq => writePage_other_page hlocal columns w.chip hq⟩
  | succ more ih =>
      intro w
      simp only [writeTries, wp_bind, wp_lower, wp_ite, wp_pure]
      refine ⟨fun _ => ⟨hone w, fun hlocal q hq => writePage_other_page hlocal columns w.chip hq⟩,
        fun _ => wp_mono (ih _) ?_⟩
      intro _ w' hr
      refine ⟨(hone w).trans hr.1, fun hlocal q hq => ?_⟩
      exact (hr.2 hlocal q hq).trans (writePage_other_page hlocal columns w.chip hq)

/-- The specification of {lit}`nmbm_write_phys_page`: it may change its block, and only
its page if page programs are local. -/
theorem nmbmWritePhysPage_spec (nld : LowerDevice) (ba page : Nat)
    (data oob : Option (List UInt8)) (w : World) :
    wp (nmbmWritePhysPage ba page data oob) nld (fun _ w' =>
      Programs {ba} w w' ∧
        (nld.fates.PageLocal → ∀ q, q ≠ page →
          w'.chip.flash.cells ba q = w.chip.flash.cells ba q)) w := by
  simp only [nmbmWritePhysPage, wp_bind, wp_ask, wp_ite, wp_pure]
  exact ⟨fun _ => ⟨Programs.refl _ w, by simp⟩, fun _ => writeTries_spec nld ba page _ _ w⟩

theorem eraseTries_spec (nld : LowerDevice) (ba : Nat) :
    ∀ (more : Nat) (w : World),
      wp (eraseTries ba more) nld (fun _ w' => Programs {ba} w w') w := by
  have hone : ∀ w : World, Programs {ba} w
      { w with chip := (Chip.eraseBlock nld.fates ba w.chip).2 } := by
    intro w
    exact ⟨phys_chip (Chip.touches_eraseBlock _ _ (Set.mem_singleton ba)), rfl⟩
  intro more
  induction more with
  | zero =>
      intro w
      exact hone w
  | succ more ih =>
      intro w
      simp only [eraseTries, wp_bind, wp_lower, wp_ite, wp_pure]
      exact ⟨fun _ => hone w, fun _ => wp_mono (ih _) (fun _ _ hr => (hone w).trans hr)⟩

/-- The specification of {lit}`nmbm_erase_phys_block`. -/
theorem nmbmErasePhysBlock_spec (nld : LowerDevice) (ba : Nat) (w : World) :
    wp (nmbmErasePhysBlock ba) nld (fun _ w' => Programs {ba} w w') w := by
  simp only [nmbmErasePhysBlock, wp_bind, wp_ask, wp_ite, wp_pure]
  exact ⟨fun _ => Programs.refl _ w, fun _ => eraseTries_spec nld ba _ w⟩

/-- The specification of {lit}`nmbm_check_bad_phys_block`: nothing but the page cache
changes, and a block that passes a check of the lower device is not marked. -/
theorem nmbmCheckBadPhysBlock_spec (nld : LowerDevice) (ba : Nat) (w : World) :
    wp (nmbmCheckBadPhysBlock ba) nld (fun bad w' =>
      Phys ∅ w w' ∧ w'.chip.flash = w.chip.flash ∧
        (bad = false → nld.hasIsBadBlock = true → w.chip.flash.marks ba = false)) w := by
  simp only [nmbmCheckBadPhysBlock, wp_bind, wp_ask, wp_ite, wp_lower, wp_setPageCache,
    wp_pure, wp_get]
  refine ⟨fun _ => ⟨phys_chip (Chip.touches_isBadBlock ∅ nld.fates ba w.chip), rfl, ?_⟩,
    fun hno => ?_⟩
  · intro hbad _
    simp only [Chip.isBadBlock] at hbad
    split_ifs at hbad
    exact hbad
  · refine wp_mono (nmbmReadPhysPage_spec nld ba 0 w) ?_
    intro r w' hr
    have hcache := fun pageCache => (hr.1.phys ∅).trans (phys_setPageCache ∅ w' pageCache)
    exact ⟨fun _ => ⟨hcache _, hr.1.flash, fun _ h => absurd h hno⟩,
      fun _ => ⟨hcache _, hr.1.flash, fun _ h => absurd h hno⟩⟩

theorem overwritePages_spec (nld : LowerDevice) (ba : Nat) :
    ∀ (n page : Nat) (w : World),
      wp (overwritePages ba n page) nld (fun _ w' => Phys {ba} w w') w := by
  intro n
  induction n with
  | zero =>
      intro page w
      exact Phys.refl _ w
  | succ n ih =>
      intro page w
      simp only [overwritePages, wp_bind, wp_ask]
      refine wp_mono (nmbmWritePhysPage_spec nld ba page _ _ w) ?_
      intro _ w' hw
      exact wp_mono (ih (page + 1) w') (fun _ _ hr => hw.1.toPhys.trans hr)

/-- The specification of {lit}`nmbm_mark_phys_bad_block`. -/
theorem nmbmMarkPhysBadBlock_spec (nld : LowerDevice) (ba : Nat) (w : World) :
    wp (nmbmMarkPhysBadBlock ba) nld (fun _ w' => Phys {ba} w w') w := by
  simp only [nmbmMarkPhysBadBlock, wp_bind, wp_ask, wp_ite, wp_pure, wp_lower,
    wp_setPageCache]
  refine ⟨fun _ => Phys.refl _ w, fun _ => ⟨fun _ => ?_, fun _ => ?_⟩⟩
  · exact phys_chip (Chip.touches_markBadBlock _ _ (Set.mem_singleton ba))
  · exact wp_mono (overwritePages_spec nld ba _ 0 _)
      (fun _ _ hr => (phys_setPageCache _ w _).trans hr)

theorem checkErasedPages_spec (nld : LowerDevice) (ba : Nat) :
    ∀ (n page : Nat) (w : World),
      wp (checkErasedPages ba n page) nld (fun _ w' => Programs {ba} w w') w := by
  intro n
  induction n with
  | zero =>
      intro page w
      exact Programs.refl _ w
  | succ n ih =>
      intro page w
      simp only [checkErasedPages, wp_bind, wp_ask, wp_setPageCache, wp_ite, wp_pure]
      refine wp_mono (nmbmReadPhysPage_spec nld ba page w) ?_
      intro r w' hr
      have hcache := fun pageCache =>
        (hr.1.programs {ba}).trans (programs_setPageCache {ba} w' pageCache)
      exact ⟨fun _ => hcache _,
        fun _ => wp_mono (ih (page + 1) _) (fun _ _ h => (hcache _).trans h)⟩

/-- The specification of {lit}`nmbm_erase_block_and_check`. -/
theorem nmbmEraseBlockAndCheck_spec (nld : LowerDevice) (ba : Nat) (w : World) :
    wp (nmbmEraseBlockAndCheck ba) nld (fun _ w' => Programs {ba} w w') w := by
  simp only [nmbmEraseBlockAndCheck, wp_bind, wp_ask]
  refine wp_mono (nmbmErasePhysBlock_spec nld ba w) ?_
  intro success w' hw
  simp only [wp_ite, wp_pure]
  refine ⟨fun _ => hw, fun _ => ⟨fun _ => hw, fun _ => ?_⟩⟩
  exact wp_mono (checkErasedPages_spec nld ba _ 0 w') (fun _ _ hr => hw.trans hr)

end Nmbm
end ZyxelRouter
