import ZyxelRouter.Nmbm.Isolation
import ZyxelRouter.Nmbm.Loading

/-!
# NMBM: persistence of the tables

Between calls the info tables on flash hold what is in memory.  Two counters stand for the changes
that are still to be saved, so a change is lost if they are cleared while the bytes just written
lack it, or if it never reaches them.

Main results:

- Theorem {lit}`Kept.persisted`: tables that were saved are on flash.
- Theorem {lit}`reaches_persisted`: in every run without such a decision the tables are on flash.
- Theorem {lit}`persisted_fails`: a block found bad while a table is written is forgotten.
-/

namespace ZyxelRouter
namespace Nmbm

open Lib Lib.Prog

variable {w w' : World} {nld nld' : LowerDevice}

/-! ## Tables on flash -/

/-- The bytes are a valid info table with the tables in memory. -/
structure TablesOf (nld : LowerDevice) (ni : NmbmInstance) (data : List UInt8) : Prop where
  length : data.length = nld.infoTableSize
  header : nmbmCheckInfoTableHeader nld data = true
  checksum : nmbmCheckHeader data nld.infoTableSize = true
  states : readAt data nld.stateTableOff nld.stateTableSize = stateBytes ni.blockState
  mapping : readAt data nld.mappingTableOff nld.mappingTableSize = mappingBytes ni.blockMapping

/-- From block {lit}`s` on, good blocks of the flash hold the tables in memory. -/
def HoldsTables (nld : LowerDevice) (w : World) (s : Nat) : Prop :=
  ∃ data bs, TablesOf nld w.ni data ∧ StoredIn nld w.chip.flash data bs ∧ bs.head? = some s ∧
    bs.Pairwise (· < ·) ∧ ∀ b ∈ bs, nmbmGetBlockState w.ni b = blockStGood

/-- The tables on record hold the tables in memory. -/
structure Persisted (nld : LowerDevice) (w : World) : Prop where
  main : HoldsTables nld w w.ni.mainTableBa
  backup : w.ni.backupTableBa ≠ 0 → HoldsTables nld w w.ni.backupTableBa

/-- A cache in sync holds the tables in memory. -/
theorem Cached.tablesOf {ni : NmbmInstance} {states : BlockStates} (h : Cached nld ni states)
    (hf : nld.Fits) (hs : Shape nld ni)
    (hsync : cacheInSync nld ni = true) :
    TablesOf nld ni ni.infoTableCache := by
  have hlegible := h.legible hf hs
  simp only [cacheInSync, Bool.and_eq_true, beq_iff_eq, hs.stateOff, hs.mappingOff] at hsync
  exact ⟨hlegible.length, hlegible.header, hlegible.checksum, hsync.1, hsync.2⟩

theorem TableAt.holdsTables {data : List UInt8} {s hi : Nat} (h : TableAt nld w data s hi)
    (hlocal : nld.fates.PageLocal)
    (htables : TablesOf nld w.ni data) :
    HoldsTables nld w s := by
  obtain ⟨bs, hbs, hhead⟩ := h
  exact ⟨data, bs, htables, hbs.stored hlocal, hhead, hbs.sorted, hbs.good⟩

/-- Tables that were saved are on flash. -/
theorem Kept.persisted (h : Kept nld w) (hf : nld.Fits) (hs : Shape nld w.ni)
    (hlocal : nld.fates.PageLocal)
    (hprot : w.ni.isProtected = false) :
    Persisted nld w := by
  obtain ⟨-, ⟨hsaved, states, hcached⟩, hsync⟩ := h hprot
  have htables := hcached.tablesOf hf hs hsync
  exact ⟨hsaved.main.holdsTables hlocal htables,
    fun hne => (hsaved.backup hne).holdsTables hlocal htables⟩

/-! ## Runs -/

/-- A call leaves the tables saved, unless a recorded decision went wrong. -/
theorem Sound.after (hws : 0 < nld.writesize) (h : Sound nld w) (hlocal : nld.fates.PageLocal)
    (call : Call) {fates : Fates} (hfates : fates.PageLocal) :
    Sound nld (w.after nld call fates) := by
  have horderly := h.toOrderly.after hws call fates
  refine ⟨horderly, fun hf hlog => ?_⟩
  have hcall := @Call.exec_spec _ { nld with fates } hws (h.withFates fates).pool call
  have hold : Faultless w.events := hlog.of_step hcall.toStep
  have hf' : LowerDevice.Fits { nld with fates } :=
    ⟨hf.writesize_pos, hf.erasesize_pos, hf.writesize_dvd, hf.shift, hf.stateSize,
      hf.mappingSize, hf.header_le, hf.state_le, hf.mapping_le, hf.size_lt, hf.writesize_dvd_size⟩
  have hkept : Kept { nld with fates } (w.after nld call fates) :=
    hcall.kept hf' ((h.withFates fates).shape hf') hlog (h.owned hold.top)
      ((h.kept hf hold).withFates hlocal fates)
  exact hkept.withFates hfates nld.fates

theorem Sound.reaches {w₀ : World} (hws : 0 < nld.writesize) (h : Sound nld w₀)
    (hlocal : nld.fates.PageLocal)
    (hrun : Reaches nld Fates.PageLocal w₀ w) : Sound nld w := by
  induction hrun with
  | refl => exact h
  | call _ c hfates ih => exact ih.after hws hlocal c hfates

/-- In every state reached after {lit}`nmbm_attach` made an instance, or found one in order, the
tables on flash are those in memory, if no recorded decision went wrong. -/
theorem reaches_persisted (nld nld' : LowerDevice) (flash : Flash) (w₀ w : World)
    (hattached : nmbmAttach nld flash = (0, nld', w₀))
    (hstart : CreatedBy nld flash nld' w₀ ∨ Sound nld' w₀)
    (hf : nld'.Fits)
    (hlocal : nld'.fates.PageLocal)
    (hrun : Reaches nld' Fates.PageLocal w₀ w)
    (hlog : Faultless w.events)
    (hprot : w.ni.isProtected = false) :
    Persisted nld' w := by
  have hws := writesize_pos_of_accepted (attached_iff hattached).1
  have hsound : Sound nld' w₀ := by
    rcases hstart with hcreated | hsound
    · exact hcreated.sound
    · exact hsound
  have hend := hsound.reaches hws hlocal hrun
  exact (hend.kept hf hlog).persisted hf (hend.shape hf) hlocal hprot

/-! ## A chip of sixteen blocks -/

/-- Sixteen blocks of four pages, whose info table takes one block. -/
def miniChip : LowerDevice where
  maxRatio := 8
  maxReservedBlocks := 0
  create := true
  emptyPageEccOk := false
  readOnly := false
  size := 4096
  erasesize := 256
  writesize := 64
  oobsize := 16
  hasIsBadBlock := true
  hasMarkBadBlock := true
  fates := fun _ _ => ⟨0, .done⟩

/-- The instance made on a blank chip. -/
def miniWorld : World :=
  (nmbmAttachDevice miniChip (freshWorld miniChip (blankFlash []))).2

theorem attach_miniChip : nmbmAttach miniChip (blankFlash []) = (0, miniChip, miniWorld) := by
  have haccepted : nmbmCheckLowerMembers miniChip = some miniChip := rfl
  have hret : (nmbmAttachDevice miniChip (freshWorld miniChip (blankFlash []))).1 = 0 := by
    decide +kernel
  simp only [nmbmAttach, haccepted, hret, miniWorld]

theorem created_miniWorld : CreatedBy miniChip (blankFlash []) miniChip miniWorld :=
  ⟨attach_miniChip, by decide +kernel, rfl⟩

theorem fits_miniChip : miniChip.Fits := by
  constructor
  all_goals decide

/-- A decision that did not go wrong. -/
def Event.isRight : Event → Bool
  | .map topGood => topGood
  | .clean inSync => inSync
  | .unmap changed => changed
  | _ => true

theorem faultless_of_isRight {events : List Event} (h : events.all Event.isRight = true) :
    Faultless events := by
  rw [List.all_eq_true] at h
  exact ⟨fun _ he => h _ he, fun _ he => h _ he, fun _ he => h _ he⟩

/-- A logic block is marked bad, and the tables on flash say so. -/
theorem persisted_after_mark :
    Persisted miniChip (miniWorld.after miniChip (.markBadBlock 0) miniChip.fates) := by
  have hlocal : miniChip.fates.PageLocal := by
    intro t change h
    cases h
  have hrun : (miniWorld.after miniChip (.markBadBlock 0) miniChip.fates).events.all Event.isRight =
        true ∧
      (miniWorld.after miniChip (.markBadBlock 0) miniChip.fates).ni.isProtected = false := by
    decide +kernel
  exact reaches_persisted miniChip miniChip (blankFlash []) miniWorld _ attach_miniChip
    (.inl created_miniWorld) fits_miniChip hlocal
    (Reaches.call Reaches.refl (.markBadBlock 0) hlocal) (faultless_of_isRight hrun.1) hrun.2

/-- The second operation from now on fails if it is a bad-block check. -/
def failedCheck (w : World) : Fates :=
  fun t kind => if t = w.chip.clock + 1 ∧ kind = .check then ⟨-eIo, .nothing⟩ else ⟨0, .done⟩

theorem pageLocal_failedCheck (w : World) : (failedCheck w).PageLocal := by
  intro t change h
  rw [failedCheck] at h
  split_ifs at h

/-- A table of one block is at the start of it. -/
theorem HoldsTables.states {s : Nat} (h : HoldsTables nld w s)
    (hone : nld.infoTableSize ≤ nld.erasesize) :
    readAt (bytesFrom nld (w.chip.flash.cells s) 0 nld.infoTableSize) nld.stateTableOff
      nld.stateTableSize = stateBytes w.ni.blockState := by
  obtain ⟨data, bs, htables, hstored, hhead, -, -⟩ := h
  cases bs with
  | nil => cases hhead
  | cons b bs =>
      obtain rfl : b = s := Option.some.inj hhead
      have hbytes := hstored.2.1
      have htake : data.take nld.erasesize = data := by
        apply List.take_of_length_le
        rw [htables.length]
        exact hone
      rw [htake, htables.length] at hbytes
      rw [hbytes, htables.states]

/-- The logic block is marked bad, but while the tables are written the check of the block of the
backup table fails.  That this block is bad now is forgotten. -/
theorem persisted_fails :
    CreatedBy miniChip (blankFlash []) miniChip miniWorld ∧
    Reaches miniChip Fates.PageLocal miniWorld
      (miniWorld.after miniChip (.markBadBlock 0) (failedCheck miniWorld)) ∧
    (miniWorld.after miniChip (.markBadBlock 0) (failedCheck miniWorld)).ni.isProtected = false ∧
    Clean (miniWorld.after miniChip (.markBadBlock 0) (failedCheck miniWorld)).ni ∧
    ¬ Persisted miniChip (miniWorld.after miniChip (.markBadBlock 0) (failedCheck miniWorld)) := by
  have hrun : (miniWorld.after miniChip (.markBadBlock 0) (failedCheck miniWorld)).ni.isProtected =
        false ∧
      (miniWorld.after miniChip (.markBadBlock 0) (failedCheck miniWorld)).ni.blockStateChanged = 0 ∧
      (miniWorld.after miniChip (.markBadBlock 0) (failedCheck miniWorld)).ni.blockMappingChanged =
        0 ∧
      readAt (bytesFrom miniChip
          ((miniWorld.after miniChip (.markBadBlock 0) (failedCheck miniWorld)).chip.flash.cells
            (miniWorld.after miniChip (.markBadBlock 0) (failedCheck miniWorld)).ni.mainTableBa) 0
          miniChip.infoTableSize) miniChip.stateTableOff miniChip.stateTableSize ≠
        stateBytes
          (miniWorld.after miniChip (.markBadBlock 0) (failedCheck miniWorld)).ni.blockState := by
    decide +kernel
  refine ⟨created_miniWorld, Reaches.call Reaches.refl _ (pageLocal_failedCheck miniWorld),
    hrun.1, ⟨hrun.2.1, hrun.2.2.1⟩, fun h => ?_⟩
  exact hrun.2.2.2 (h.main.states (by decide))

end Nmbm
end ZyxelRouter
