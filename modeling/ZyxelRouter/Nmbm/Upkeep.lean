import ZyxelRouter.Nmbm.TableBytes
import ZyxelRouter.Nmbm.TableWrite

/-!
# NMBM: the spare pool and the upkeep of the info tables

The management area holds the info tables at its lower end, spare blocks above them up to
{lit}`mapping_blocks_top_ba`, and the blocks given to logic blocks above that, below the
signature.  This module states the invariants of the area and the relation between the
states before and after any work on the tables.

Main results:

- Theorems {lit}`Upkeep.trans`, {lit}`Rewrite.trans`: runs of table operations.
- Theorem {lit}`Upkeep.owned`: work on the tables leaves the ownership of blocks alone.
- Theorem {lit}`Mgmt.rewrite`: writing one table inside the area is such work.
-/

namespace ZyxelRouter
namespace Nmbm

open Lib Lib.Prog

/-! ## The pool -/

/-- The physical block of a logic block, negative if there is none. -/
def NmbmInstance.entry (ni : NmbmInstance) (lb : Nat) : Int :=
  ni.blockMapping.getD lb (-1)

/-- The blocks of tables and spare blocks. -/
def NmbmInstance.area (ni : NmbmInstance) : Set Nat :=
  {b | ni.mgmtStartBa ≤ b ∧ b < ni.mappingBlocksTopBa}

/-- The bounds of the management area. -/
structure Bounds (nld : LowerDevice) (ni : NmbmInstance) : Prop where
  mgmt_le_top : ni.mgmtStartBa ≤ ni.mappingBlocksTopBa
  top_lt : ni.mappingBlocksTopBa < ni.signatureBa
  signature_lt : ni.signatureBa < nld.blockCount
  cached : ni.infoTableCache ≠ []

/-- The tables lie in front of the spare blocks. -/
structure Pool (nld : LowerDevice) (ni : NmbmInstance) : Prop extends Bounds nld ni where
  mgmt_le : ni.mgmtStartBa ≤ ni.mappingBlocksBa
  le_top : ni.mappingBlocksBa ≤ ni.mappingBlocksTopBa
  main : ni.mainTableBa = 0 ∨ ni.mgmtStartBa ≤ ni.mainTableBa
  main_le : ni.mainTableBa ≤ ni.mappingBlocksBa
  backup : ni.backupTableBa = 0 ∨
    (ni.mgmtStartBa ≤ ni.backupTableBa ∧ ni.mainTableBa ≤ ni.backupTableBa)
  backup_le : ni.backupTableBa ≤ ni.mappingBlocksBa

/-- Who owns which physical block: a logic block has one below the management area or
between the pool and the signature, and no other logic block has it. -/
structure Owned (ni : NmbmInstance) : Prop where
  place : ∀ lb, 0 ≤ ni.entry lb → ni.entry lb < ni.mgmtStartBa ∨
    (ni.mappingBlocksTopBa < ni.entry lb ∧ ni.entry lb < ni.signatureBa)
  injective : ∀ lb lb', 0 ≤ ni.entry lb → ni.entry lb = ni.entry lb' → lb = lb'

/-- No mapped block lies among the tables and spare blocks. -/
theorem Owned.entry_ne {ni : NmbmInstance} (h : Owned ni) {b : Nat} (hb : b ∈ ni.area)
    (lb : Nat) : ni.entry lb ≠ b := by
  intro heq
  obtain ⟨hlo, hhi⟩ := hb
  rcases h.place lb (by omega) with hlt | ⟨hgt, -⟩ <;> omega

/-! ## Contents -/

/-- The data is stored in blocks of {lit}`[s, hi)`, from block {lit}`s` on. -/
def TableAt (nld : LowerDevice) (w : World) (data : List UInt8) (s hi : Nat) : Prop :=
  ∃ bs, Placed nld w data s hi bs ∧ bs.head? = some s

/-- The tables on record hold the cache. -/
structure Saved (nld : LowerDevice) (w : World) : Prop where
  mgmt_le : w.ni.mgmtStartBa ≤ w.ni.mainTableBa
  main : TableAt nld w w.ni.infoTableCache w.ni.mainTableBa
    (if w.ni.backupTableBa = 0 then w.ni.mappingBlocksBa else w.ni.backupTableBa)
  backup : w.ni.backupTableBa ≠ 0 →
    TableAt nld w w.ni.infoTableCache w.ni.backupTableBa w.ni.mappingBlocksBa

/-- Without changes on record the cache holds the tables in memory. -/
def Synced (nld : LowerDevice) (ni : NmbmInstance) : Prop :=
  ni.blockStateChanged = 0 → ni.blockMappingChanged = 0 → cacheInSync nld ni = true

/-- Tables were marked clean only while the cache held the tables in memory. -/
def CleanLog (events : List Event) : Prop :=
  ∀ inSync, Event.clean inSync ∈ events → inSync = true

/-! ## Upkeep -/

/-- Events of table upkeep. -/
def TableEvent (ni : NmbmInstance) : Event → Prop
  | .tableErase b blockMapping dataBlockCount =>
      b ∈ ni.area ∧ blockMapping = ni.blockMapping ∧ dataBlockCount = ni.dataBlockCount
  | .map _ => False
  | .unmap _ => False
  | _ => True

/-- Work on the tables: the mapping and the bounds of the area stay, and only good blocks
of the area were written, erased or retired. -/
structure Upkeep (nld : LowerDevice) (w w' : World) : Prop where
  mapping : w'.ni.blockMapping = w.ni.blockMapping
  count : w'.ni.dataBlockCount = w.ni.dataBlockCount
  mgmt : w'.ni.mgmtStartBa = w.ni.mgmtStartBa
  top : w'.ni.mappingBlocksTopBa = w.ni.mappingBlocksTopBa
  signature : w'.ni.signatureBa = w.ni.signatureBa
  length : w'.ni.blockState.length = w.ni.blockState.length
  state : ∀ b, nmbmGetBlockState w'.ni b = nmbmGetBlockState w.ni b ∨
    (b ∈ w.ni.area ∧ nmbmGetBlockState w.ni b = blockStGood ∧
      nmbmGetBlockState w'.ni b = blockStBad)
  cached : w.ni.infoTableCache ≠ [] → w'.ni.infoTableCache ≠ []
  shape : Shape nld w.ni → Shape nld w'.ni
  synced : nld.Fits → Shape nld w.ni → CleanLog w'.events → Synced nld w.ni → Synced nld w'.ni
  guarded : w'.ni.isProtected = w.ni.isProtected ∨
    (w'.ni.isProtected = true ∧ Event.rebuildFailed ∈ w'.events)
  failed : Event.rebuildFailed ∈ w'.events →
    Event.rebuildFailed ∈ w.events ∨ w'.ni.isProtected = true
  log : ∃ es, w'.events = es ++ w.events ∧ ∀ e ∈ es, TableEvent w.ni e
  chip : Chip.Touches w.ni.area w.chip w'.chip

/-- Work on the tables that keeps the cache. -/
structure Rewrite (nld : LowerDevice) (w w' : World) : Prop extends Upkeep nld w w' where
  cache : w'.ni.infoTableCache = w.ni.infoTableCache
  header : w'.ni.infoTable = w.ni.infoTable

variable {w₀ w w' w'' : World} {nld : LowerDevice}

theorem Upkeep.area (h : Upkeep nld w w') : w'.ni.area = w.ni.area := by
  rw [NmbmInstance.area, NmbmInstance.area, h.mgmt, h.top]

theorem Upkeep.entry (h : Upkeep nld w w') (lb : Nat) : w'.ni.entry lb = w.ni.entry lb := by
  rw [NmbmInstance.entry, NmbmInstance.entry, h.mapping]

theorem Upkeep.tableEvent (h : Upkeep nld w w') {e : Event} (he : TableEvent w'.ni e) :
    TableEvent w.ni e := by
  cases e <;> simp only [TableEvent] at he ⊢
  rw [h.area, h.mapping, h.count] at he
  exact he

/-- The log only grows. -/
theorem Upkeep.mem_events (h : Upkeep nld w w') {e : Event} (he : e ∈ w.events) :
    e ∈ w'.events := by
  obtain ⟨es, hes, -⟩ := h.log
  rw [hes]
  exact List.mem_append_right es he

theorem CleanLog.of_upkeep (hc : CleanLog w'.events) (h : Upkeep nld w w') :
    CleanLog w.events :=
  fun inSync he => hc inSync (h.mem_events he)

/-- A block that is good afterwards was good before. -/
theorem Upkeep.good (h : Upkeep nld w w') {b : Nat}
    (hb : nmbmGetBlockState w'.ni b = blockStGood) : nmbmGetBlockState w.ni b = blockStGood := by
  rcases h.state b with heq | ⟨-, hgood, -⟩
  · exact heq ▸ hb
  · exact hgood

theorem Upkeep.refl (nld : LowerDevice) (w : World) : Upkeep nld w w where
  mapping := rfl
  count := rfl
  mgmt := rfl
  top := rfl
  signature := rfl
  length := rfl
  state := fun _ => .inl rfl
  cached := id
  shape := id
  synced := fun _ _ _ => id
  guarded := .inl rfl
  failed := .inl
  log := ⟨[], rfl, by simp⟩
  chip := Chip.Touches.refl _ _

theorem Upkeep.trans (h : Upkeep nld w w') (h' : Upkeep nld w' w'') : Upkeep nld w w'' where
  mapping := h'.mapping.trans h.mapping
  count := h'.count.trans h.count
  mgmt := h'.mgmt.trans h.mgmt
  top := h'.top.trans h.top
  signature := h'.signature.trans h.signature
  length := h'.length.trans h.length
  state := by
    intro b
    rcases h'.state b with heq' | ⟨hS, hgood, hbad⟩
    · rcases h.state b with heq | ⟨hS, hgood, hbad⟩
      · exact .inl (heq'.trans heq)
      · exact .inr ⟨hS, hgood, heq'.trans hbad⟩
    · rw [h.area] at hS
      exact .inr ⟨hS, h.good hgood, hbad⟩
  cached := fun hc => h'.cached (h.cached hc)
  shape := fun hs => h'.shape (h.shape hs)
  synced := by
    intro hf hs hclean hsync
    exact h'.synced hf (h.shape hs) hclean (h.synced hf hs (hclean.of_upkeep h') hsync)
  guarded := by
    rcases h'.guarded with heq' | hprot
    · rcases h.guarded with heq | ⟨hprot, hev⟩
      · exact .inl (heq'.trans heq)
      · exact .inr ⟨heq'.trans hprot, h'.mem_events hev⟩
    · exact .inr hprot
  failed := by
    intro hev
    rcases h'.failed hev with hev' | hprot
    · rcases h.failed hev' with hev | hprot
      · exact .inl hev
      · rcases h'.guarded with heq' | ⟨hprot', -⟩
        · exact .inr (heq'.trans hprot)
        · exact .inr hprot'
    · exact .inr hprot
  log := by
    obtain ⟨es, hes, hall⟩ := h.log
    obtain ⟨es', hes', hall'⟩ := h'.log
    refine ⟨es' ++ es, ?_, ?_⟩
    · rw [hes', hes, List.append_assoc]
    · intro e he
      rcases List.mem_append.mp he with hnew | hold
      · exact h.tableEvent (hall' e hnew)
      · exact hall e hold
  chip := by
    have hchip := h'.chip
    rw [h.area] at hchip
    exact h.chip.trans hchip

theorem Rewrite.refl (nld : LowerDevice) (w : World) : Rewrite nld w w :=
  ⟨Upkeep.refl nld w, rfl, rfl⟩

theorem Rewrite.trans (h : Rewrite nld w w') (h' : Rewrite nld w' w'') : Rewrite nld w w'' :=
  ⟨h.toUpkeep.trans h'.toUpkeep, h'.cache.trans h.cache, h'.header.trans h.header⟩

/-- Work on the tables keeps the bounds. -/
theorem Upkeep.bounds (h : Upkeep nld w w') (hb : Bounds nld w.ni) : Bounds nld w'.ni := by
  refine ⟨?_, ?_, ?_, h.cached hb.cached⟩
  · rw [h.mgmt, h.top]
    exact hb.mgmt_le_top
  · rw [h.top, h.signature]
    exact hb.top_lt
  · rw [h.signature]
    exact hb.signature_lt

/-- Work on the tables leaves the ownership of blocks alone. -/
theorem Upkeep.owned (h : Upkeep nld w w') (ho : Owned w.ni) : Owned w'.ni := by
  refine ⟨fun lb => ?_, fun lb lb' => ?_⟩
  · rw [h.entry, h.mgmt, h.top, h.signature]
    exact ho.place lb
  · rw [h.entry, h.entry]
    exact ho.injective lb lb'

/-- Shape does not depend on the bounds, the counters or single states. -/
theorem Shape.congr {ni ni' : NmbmInstance} (h : Shape nld ni)
    (hstates : ni'.blockState.length = ni.blockState.length)
    (hmapping : ni'.blockMapping.length = ni.blockMapping.length)
    (htable : ni'.infoTable = ni.infoTable) :
    Shape nld ni' := by
  refine ⟨?_, ?_, ?_, ?_, ?_⟩
  · rw [hstates]
    exact h.states
  · rw [hmapping]
    exact h.mapping
  · rw [htable]
    exact h.stateOff
  · rw [htable]
    exact h.mappingOff
  · rw [htable]
    exact h.writeCount

/-- Work of one table operation inside the area. -/
theorem Mgmt.rewrite {S : Set Nat} (h : Mgmt S w w') (hS : S ⊆ w.ni.area) :
    Rewrite nld w w' := by
  obtain ⟨pc, bs, n, hni⟩ := h.ni
  obtain ⟨es, hes, hall⟩ := h.events
  have hmem : ∀ e ∈ es, TableEvent w.ni e := by
    intro e he
    obtain ⟨b, hb, rfl | ⟨started, rfl⟩⟩ := hall e he
    · exact ⟨hS hb, rfl, rfl⟩
    · trivial
  have hfailed : Event.rebuildFailed ∈ w'.events → Event.rebuildFailed ∈ w.events := by
    intro hev
    rw [hes] at hev
    rcases List.mem_append.mp hev with hnew | hold
    · obtain ⟨b, -, hcase | ⟨started, hcase⟩⟩ := hall _ hnew <;> cases hcase
    · exact hold
  refine ⟨⟨by rw [hni], by rw [hni], by rw [hni], by rw [hni], by rw [hni], h.length,
    fun b => ?_, by rw [hni]; exact id, fun hs => ?_, fun _ _ _ hsync => ?_, .inl (by rw [hni]),
    fun hev => .inl (hfailed hev), ⟨es, hes, hmem⟩, h.chip.mono hS⟩, by rw [hni], by rw [hni]⟩
  · rcases h.state b with heq | ⟨hb, hrest⟩
    · exact .inl heq
    · exact .inr ⟨hS hb, hrest⟩
  · exact hs.congr h.length (by rw [hni]) (by rw [hni])
  · -- A counter that is still zero means that no state was changed.
    intro hstate hmapping
    have hle := h.changed
    have hsame : w'.ni.blockState = w.ni.blockState := h.unchanged (by omega)
    have hold := hsync (by omega) (by rw [hni] at hmapping; exact hmapping)
    rw [cacheInSync] at hold ⊢
    rw [hsame]
    rw [hni]
    exact hold

/-- One table operation keeps the pool. -/
theorem Mgmt.pool {S : Set Nat} (h : Mgmt S w w') (hp : Pool nld w.ni) : Pool nld w'.ni := by
  obtain ⟨pc, bs, n, hni⟩ := h.ni
  rw [hni]
  exact ⟨⟨hp.mgmt_le_top, hp.top_lt, hp.signature_lt, hp.cached⟩, hp.mgmt_le, hp.le_top,
    hp.main, hp.main_le, hp.backup, hp.backup_le⟩

/-! ## Keeping a stored table -/

theorem TableAt.mono {data : List UInt8} {s hi hi' : Nat} (h : TableAt nld w data s hi)
    (hle : hi ≤ hi') : TableAt nld w data s hi' := by
  obtain ⟨bs, hbs, hhead⟩ := h
  refine ⟨bs, ⟨hbs.stored, hbs.sorted, fun b hb => ?_, hbs.good, hbs.unmarked, hbs.nonempty⟩,
    hhead⟩
  obtain ⟨hlo, hlt⟩ := hbs.bounds b hb
  exact ⟨hlo, by omega⟩

/-- A stored table starts below its end. -/
theorem TableAt.lt {data : List UInt8} {s hi : Nat} (h : TableAt nld w data s hi) : s < hi := by
  obtain ⟨bs, hbs, hhead⟩ := h
  exact (hbs.bounds s (List.mem_of_mem_head? hhead)).2

/-- Only the memory and the block states matter. -/
theorem TableAt.congr {data : List UInt8} {s hi : Nat} (h : TableAt nld w data s hi)
    (hflash : w'.chip.flash = w.chip.flash)
    (hstate : w'.ni.blockState = w.ni.blockState) :
    TableAt nld w' data s hi := by
  obtain ⟨bs, hbs, hhead⟩ := h
  refine ⟨bs, ⟨fun hlocal => ?_, hbs.sorted, hbs.bounds, fun b hb => ?_, fun hcall b hb => ?_,
    hbs.nonempty⟩, hhead⟩
  · rw [hflash]
    exact hbs.stored hlocal
  · rw [nmbmGetBlockState, hstate]
    exact hbs.good b hb
  · rw [hflash]
    exact hbs.unmarked hcall b hb

/-- A table is kept by operations on other blocks. -/
theorem TableAt.keep {S : Set Nat} {data : List UInt8} {s hi : Nat}
    (h : TableAt nld w data s hi)
    (hm : Mgmt S w w')
    (hout : ∀ b, s ≤ b → b < hi → b ∉ S) :
    TableAt nld w' data s hi := by
  obtain ⟨bs, hbs, hhead⟩ := h
  have hoff : ∀ b ∈ bs, b ∉ S := by
    intro b hb
    obtain ⟨hlo, hlt⟩ := hbs.bounds b hb
    exact hout b hlo hlt
  refine ⟨bs, ⟨fun hlocal => ?_, hbs.sorted, hbs.bounds, fun b hb => ?_, fun hcall b hb => ?_,
    hbs.nonempty⟩, hhead⟩
  · exact (hbs.stored hlocal).congr (fun b hb => hm.chip.flash.cells b (hoff b hb))
  · rcases hm.state b with heq | ⟨hin, -, -⟩
    · rw [heq]
      exact hbs.good b hb
    · exact absurd hin (hoff b hb)
  · rw [hm.chip.flash.marks b (hoff b hb)]
    exact hbs.unmarked hcall b hb

/-- What was written is a stored table. -/
theorem WrittenRange.tableAt {data : List UInt8} {ba limit s e : Nat} {bs : List Nat}
    (h : WrittenRange nld w w' data ba limit none s e bs)
    (hdata : data ≠ []) :
    TableAt nld w' data s e ∧ ba ≤ s ∧ s < e := by
  have hne := h.placed.nonempty hdata
  obtain ⟨b, rest, rfl⟩ := List.exists_cons_of_ne_nil hne
  have hs : s = b := h.head
  subst hs
  obtain ⟨hlo, hlt⟩ := h.placed.bounds s List.mem_cons_self
  refine ⟨⟨_, ⟨h.placed.stored, h.placed.sorted, fun b hb => ?_, h.placed.good,
    h.placed.unmarked, h.placed.nonempty⟩, rfl⟩, hlo, hlt⟩
  have hb' := h.placed.bounds b hb
  rcases List.mem_cons.mp hb with rfl | hrest
  · omega
  · have := (List.pairwise_cons.mp h.placed.sorted).1 b hrest
    omega

end Nmbm
end ZyxelRouter
