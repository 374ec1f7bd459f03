import ZyxelRouter.Nmbm.Update

/-!
# NMBM: steps of a call

A call works on the logic blocks it names.  Physically it may touch the blocks these are
mapped to and the management area up to the top of the spare pool, and nothing else.  This
module defines such steps and shows that storing a block state, dropping a mapping entry and
taking a block from the pool are steps.

Main results:

- Theorems {lit}`Step.trans`, {lit}`Step.mono`: runs of steps.
- Theorem {lit}`Upkeep.step`: work on the tables is a step.
- Theorem {lit}`nmbmMapBlock_spec`: so is taking a block from the spare pool, and the
  ownership of blocks is kept if the block at the top of the pool is good.
-/

namespace ZyxelRouter
namespace Nmbm

open Lib Lib.Prog

variable {L L' S S' : Set Nat} {w w' w'' : World} {nld : LowerDevice}

/-! ## Storing a block state -/

/-- Storing the value that a unit holds already. -/
theorem unit_store_self (u v : BitVec 32) (i : Nat)
    (h : (u >>> (i * 2)) &&& blockStMask = v &&& blockStMask) :
    u &&& ~~~(blockStMask <<< (i * 2)) ||| (v &&& blockStMask) <<< (i * 2) = u := by
  rw [← h]
  apply BitVec.eq_of_getLsbD_eq
  intro k hk
  simp only [BitVec.getLsbD_and, BitVec.getLsbD_ushiftRight, BitVec.getLsbD_or,
    BitVec.getLsbD_not, BitVec.getLsbD_shiftLeft, getLsbD_blockStMask]
  by_cases hlt : k < i * 2
  · simp [hk, hlt]
  · have hadd : i * 2 + (k - i * 2) = k := by omega
    by_cases hin : k - i * 2 < 2
    · simp [hk, hlt, hin, hadd]
    · simp [hk, hlt, hin]

/-- Storing the state that a block has already. -/
theorem setBlockStateRaw_self (s : BlockStates) (v : BitVec 32) (a : Nat)
    (h : nmbmGetBlockStateRaw s a = v &&& blockStMask) : setBlockStateRaw s a v = s := by
  by_cases ha : a / 16 < s.length
  · rw [setBlockStateRaw, unit_store_self _ _ _ h,
      List.getD_eq_getElem _ _ ha, List.set_getElem_self]
  · rw [setBlockStateRaw, List.set_eq_of_length_le (by omega)]

/-- The state of block {lit}`ba` is stored. -/
structure SetsState (ba : Nat) (state : BitVec 32) (w w' : World) : Prop where
  ni : ∃ blockState blockStateChanged, w'.ni = { w.ni with blockState, blockStateChanged }
  length : w'.ni.blockState.length = w.ni.blockState.length
  other : ∀ b, b ≠ ba → nmbmGetBlockState w'.ni b = nmbmGetBlockState w.ni b
  self : nmbmGetBlockState w'.ni ba = state &&& blockStMask ∨
    nmbmGetBlockState w'.ni ba = nmbmGetBlockState w.ni ba
  unchanged : w'.ni.blockStateChanged = 0 →
    w.ni.blockStateChanged = 0 ∧ w'.ni.blockState = w.ni.blockState
  events : w'.events = w.events
  chip : w'.chip = w.chip

/-- The specification of {lit}`nmbm_set_block_state`. -/
theorem nmbmSetBlockState_spec (nld : LowerDevice) (ba : Nat) (state : BitVec 32) (w : World) :
    wp (nmbmSetBlockState ba state) nld (fun _ w' => SetsState ba state w w') w := by
  simp only [nmbmSetBlockState, wp_modifyNi]
  have hget : ∀ b, nmbmGetBlockStateRaw (setBlockStateRaw w.ni.blockState ba state) b =
      if ba = b ∧ ba / 16 < w.ni.blockState.length then state &&& blockStMask
      else nmbmGetBlockState w.ni b := by
    intro b
    by_cases hlen : ba / 16 < w.ni.blockState.length
    · rw [nmbmGetBlockStateRaw_set _ _ hlen]
      simp only [hlen, and_true]
      rfl
    · rw [setBlockStateRaw, List.set_eq_of_length_le (by omega)]
      simp only [hlen, and_false, if_false]
      rfl
  refine ⟨⟨_, _, rfl⟩, by simp, fun b hb => ?_, ?_, fun hzero => ?_, rfl, rfl⟩
  · rw [nmbmGetBlockState, hget, if_neg (fun h => hb h.1.symm)]
  · rw [nmbmGetBlockState, hget]
    split_ifs
    · exact .inl rfl
    · exact .inr rfl
  · by_cases hsame : nmbmGetBlockState w.ni ba ≠ state &&& blockStMask
    · simp only [if_pos hsame] at hzero
      omega
    · simp only [if_neg hsame] at hzero
      exact ⟨hzero, setBlockStateRaw_self _ _ _ (not_not.mp hsame)⟩

/-! ## Territories -/

/-- The management area up to the top of the pool, and the blocks of the logic blocks of
{lit}`L`. -/
def territory (L : Set Nat) (ni : NmbmInstance) : Set Nat :=
  {b | (ni.mgmtStartBa ≤ b ∧ b ≤ ni.mappingBlocksTopBa) ∨ ∃ lb ∈ L, ni.entry lb = b}

/-- Blocks are taken from the spare pool only while the block at its top is good. -/
def TopGood (events : List Event) : Prop :=
  ∀ topGood, Event.map topGood ∈ events → topGood = true

/-- A block that is erased for the tables belongs to no logic block. -/
def EraseOk : Event → Prop
  | .tableErase b blockMapping dataBlockCount =>
      ∀ lb, lb < dataBlockCount → blockMapping.getD lb (-1) ≠ (b : Int)
  | _ => True

/-- Work on the logic blocks of {lit}`L` and on no other physical blocks than those of
{lit}`S`. -/
structure Step (nld : LowerDevice) (L S : Set Nat) (w w' : World) : Prop where
  mgmt : w'.ni.mgmtStartBa = w.ni.mgmtStartBa
  count : w'.ni.dataBlockCount = w.ni.dataBlockCount
  signature : w'.ni.signatureBa = w.ni.signatureBa
  top_le : w'.ni.mappingBlocksTopBa ≤ w.ni.mappingBlocksTopBa
  entry : ∀ lb, lb ∉ L → w'.ni.entry lb = w.ni.entry lb
  inside : territory L w.ni ⊆ S → territory L w'.ni ⊆ S
  state : ∀ b, b ∉ S → nmbmGetBlockState w'.ni b = nmbmGetBlockState w.ni b
  shape : Shape nld w.ni → Shape nld w'.ni
  guarded : w'.ni.isProtected = w.ni.isProtected ∨
    (w'.ni.isProtected = true ∧ Event.rebuildFailed ∈ w'.events)
  failed : Event.rebuildFailed ∈ w'.events →
    Event.rebuildFailed ∈ w.events ∨ w'.ni.isProtected = true
  log : ∃ es, w'.events = es ++ w.events
  owned : TopGood w'.events → Owned w.ni → Owned w'.ni
  erases : TopGood w'.events → Owned w.ni → ∀ e ∈ w'.events, e ∈ w.events ∨ EraseOk e
  chip : Chip.Touches S w.chip w'.chip

theorem Step.mem_events (h : Step nld L S w w') {e : Event} (he : e ∈ w.events) :
    e ∈ w'.events := by
  obtain ⟨es, hes⟩ := h.log
  rw [hes]
  exact List.mem_append_right es he

theorem Step.topGood (h : Step nld L S w w') (ht : TopGood w'.events) : TopGood w.events :=
  fun topGood he => ht topGood (h.mem_events he)

theorem Step.refl (nld : LowerDevice) (L S : Set Nat) (w : World) : Step nld L S w w :=
  ⟨rfl, rfl, rfl, le_refl _, fun _ _ => rfl, id, fun _ _ => rfl, id, .inl rfl, .inl,
    ⟨[], rfl⟩, fun _ => id, fun _ _ _ => .inl, Chip.Touches.refl _ _⟩

theorem Step.trans (h : Step nld L S w w') (h' : Step nld L S w' w'') : Step nld L S w w'' where
  mgmt := h'.mgmt.trans h.mgmt
  count := h'.count.trans h.count
  signature := h'.signature.trans h.signature
  top_le := h'.top_le.trans h.top_le
  entry := fun lb hlb => (h'.entry lb hlb).trans (h.entry lb hlb)
  inside := fun hS => h'.inside (h.inside hS)
  state := fun b hb => (h'.state b hb).trans (h.state b hb)
  shape := fun hs => h'.shape (h.shape hs)
  guarded := by
    rcases h'.guarded with heq' | hprot
    · rcases h.guarded with heq | ⟨hprot, hev⟩
      · exact .inl (heq'.trans heq)
      · exact .inr ⟨heq'.trans hprot, h'.mem_events hev⟩
    · exact .inr hprot
  failed := by
    intro hev
    rcases h'.failed hev with hev' | hprot
    · rcases h.failed hev' with hev | hprot
      · exact .inl hev
      · rcases h'.guarded with heq' | ⟨hprot', -⟩
        · exact .inr (heq'.trans hprot)
        · exact .inr hprot'
    · exact .inr hprot
  log := by
    obtain ⟨es, hes⟩ := h.log
    obtain ⟨es', hes'⟩ := h'.log
    exact ⟨es' ++ es, by rw [hes', hes, List.append_assoc]⟩
  owned := fun ht ho => h'.owned ht (h.owned (h'.topGood ht) ho)
  erases := by
    intro ht ho e he
    rcases h'.erases ht (h.owned (h'.topGood ht) ho) e he with hold | hok
    · exact h.erases (h'.topGood ht) ho e hold
    · exact .inr hok
  chip := h.chip.trans h'.chip

theorem territory_mono {ni : NmbmInstance} (hL : L ⊆ L') : territory L ni ⊆ territory L' ni := by
  rintro b (harea | ⟨lb, hlb, heq⟩)
  · exact .inl harea
  · exact .inr ⟨lb, hL hlb, heq⟩

/-- A step for fewer logic blocks. -/
theorem Step.mono (h : Step nld L S w w') (hL : L ⊆ L') : Step nld L' S w w' where
  mgmt := h.mgmt
  count := h.count
  signature := h.signature
  top_le := h.top_le
  entry := fun lb hlb => h.entry lb (fun hin => hlb (hL hin))
  inside := by
    rintro hS b (⟨hlo, hhi⟩ | ⟨lb, hlb, heq⟩)
    · have htop := h.top_le
      rw [h.mgmt] at hlo
      exact hS (.inl ⟨hlo, by omega⟩)
    · by_cases hin : lb ∈ L
      · exact h.inside ((territory_mono hL).trans hS) (.inr ⟨lb, hin, heq⟩)
      · rw [h.entry lb hin] at heq
        exact hS (.inr ⟨lb, hlb, heq⟩)
  state := h.state
  shape := h.shape
  guarded := h.guarded
  failed := h.failed
  log := h.log
  owned := h.owned
  erases := h.erases
  chip := h.chip

/-! ## Steps -/

theorem area_subset_territory (L : Set Nat) (ni : NmbmInstance) : ni.area ⊆ territory L ni :=
  fun _ hb => .inl ⟨hb.1, hb.2.le⟩

/-- A logic block's own physical block. -/
theorem entry_mem_territory {ni : NmbmInstance} {lb : Nat} (hlb : lb ∈ L)
    (hentry : 0 ≤ ni.entry lb) : (ni.entry lb).toNat ∈ territory L ni :=
  .inr ⟨lb, hlb, by omega⟩

/-- Work on the tables is a step for any logic blocks. -/
theorem Upkeep.step (h : Upkeep nld w w') (hS : territory L w.ni ⊆ S) :
    Step nld L S w w' where
  mgmt := h.mgmt
  count := h.count
  signature := h.signature
  top_le := h.top.le
  entry := fun lb _ => h.entry lb
  inside := by
    rintro - b (hb | ⟨lb, hlb, heq⟩)
    · rw [h.mgmt, h.top] at hb
      exact hS (.inl hb)
    · rw [h.entry] at heq
      exact hS (.inr ⟨lb, hlb, heq⟩)
  state := by
    intro b hb
    rcases h.state b with heq | ⟨hin, -, -⟩
    · exact heq
    · exact absurd (hS (area_subset_territory L w.ni hin)) hb
  shape := h.shape
  guarded := h.guarded
  failed := h.failed
  log := by
    obtain ⟨es, hes, -⟩ := h.log
    exact ⟨es, hes⟩
  owned := fun _ ho => h.owned ho
  erases := by
    intro _ ho e he
    obtain ⟨es, hes, hall⟩ := h.log
    rw [hes] at he
    rcases List.mem_append.mp he with hnew | hold
    · right
      have hevent := hall e hnew
      cases e <;> try trivial
      obtain ⟨hin, rfl, rfl⟩ := hevent
      exact fun lb _ => ho.entry_ne hin lb
    · exact .inl hold
  chip := h.chip.mono ((area_subset_territory L w.ni).trans hS)

/-- A step that keeps the mapping and the bounds. -/
theorem step_of_frame
    (hni : ∃ pageCache blockState blockStateChanged,
      w'.ni = { w.ni with pageCache, blockState, blockStateChanged })
    (hlength : w'.ni.blockState.length = w.ni.blockState.length)
    (hstate : ∀ b, b ∉ S → nmbmGetBlockState w'.ni b = nmbmGetBlockState w.ni b)
    (hevents : w'.events = w.events)
    (hchip : Chip.Touches S w.chip w'.chip) :
    Step nld L S w w' := by
  obtain ⟨pc, bs, n, hni⟩ := hni
  have howned : Owned w.ni → Owned w'.ni := by
    intro ho
    rw [hni]
    exact ⟨ho.place, ho.injective⟩
  refine ⟨by rw [hni], by rw [hni], by rw [hni], by rw [hni], fun lb _ => by rw [hni]; rfl, ?_,
    hstate, fun hs => ?_, .inl (by rw [hni]), fun hev => .inl (hevents ▸ hev), ⟨[], hevents⟩,
    fun _ => howned, fun _ _ e he => .inl (hevents ▸ he), hchip⟩
  · rw [hni]
    exact id
  · exact hs.congr hlength (by rw [hni]) (by rw [hni])

theorem Phys.step (h : Phys S' w w') (hS : S' ⊆ S) : Step nld L S w w' := by
  obtain ⟨pc, hni⟩ := h.ni
  exact step_of_frame ⟨pc, w.ni.blockState, w.ni.blockStateChanged, hni⟩ (by rw [hni])
    (fun b _ => by rw [hni]; rfl) h.events (h.chip.mono hS)

theorem SetsState.step {ba : Nat} {state : BitVec 32} (h : SetsState ba state w w')
    (hba : ba ∈ S) : Step nld L S w w' := by
  obtain ⟨bs, n, hni⟩ := h.ni
  refine step_of_frame ⟨w.ni.pageCache, bs, n, hni⟩ h.length (fun b hb => h.other b ?_) h.events ?_
  · rintro rfl
    exact hb hba
  · rw [h.chip]
    exact Chip.Touches.refl _ _

/-- The entry of a logic block is overwritten. -/
theorem entry_set (ni : NmbmInstance) (lb x : Nat) (v : Int) :
    NmbmInstance.entry { ni with blockMapping := ni.blockMapping.set lb v } x =
      if x = lb ∧ lb < ni.blockMapping.length then v else ni.entry x := by
  simp only [NmbmInstance.entry, List.getD_eq_getElem?_getD, List.getElem?_set]
  by_cases hx : lb = x
  · subst hx
    by_cases hlt : lb < ni.blockMapping.length
    · simp [hlt]
    · simp [hlt]
  · have hx' : ¬ x = lb := fun h => hx h.symm
    simp [hx, hx']

/-- A logic block loses its physical block. -/
structure Drops (lb : Nat) (w w' : World) : Prop where
  ni : w'.ni = { w.ni with blockMapping := w.ni.blockMapping.set lb (-1) }
  events : w'.events = w.events
  chip : w'.chip = w.chip

theorem wp_drops {lb : Nat} {Q : Unit → World → Prop} (h : ∀ w', Drops lb w w' → Q () w') :
    wp (modifyNi (fun ni => { ni with blockMapping := ni.blockMapping.set lb (-1) })) nld Q w :=
  h _ ⟨rfl, rfl, rfl⟩

theorem Drops.entry {lb : Nat} (h : Drops lb w w') (x : Nat) :
    w'.ni.entry x = w.ni.entry x ∨ (x = lb ∧ w'.ni.entry x = -1) := by
  rw [h.ni, entry_set]
  split_ifs with hx
  · exact .inr ⟨hx.1, rfl⟩
  · exact .inl rfl

theorem Drops.step {lb : Nat} (h : Drops lb w w') (hlb : lb ∈ L) : Step nld L S w w' := by
  have hkeep : ∀ x, 0 ≤ w'.ni.entry x → w'.ni.entry x = w.ni.entry x := by
    intro x hx
    rcases h.entry x with heq | ⟨-, hneg⟩
    · exact heq
    · omega
  have hmgmt : w'.ni.mgmtStartBa = w.ni.mgmtStartBa := by rw [h.ni]
  have htop : w'.ni.mappingBlocksTopBa = w.ni.mappingBlocksTopBa := by rw [h.ni]
  have hsig : w'.ni.signatureBa = w.ni.signatureBa := by rw [h.ni]
  refine ⟨hmgmt, by rw [h.ni], hsig, htop.le, fun x hx => ?_, ?_, fun b _ => by rw [h.ni]; rfl,
    fun hs => ?_, .inl (by rw [h.ni]), fun hev => .inl (h.events ▸ hev), ⟨[], h.events⟩,
    fun _ ho => ⟨fun x hx => ?_, fun x y hx hxy => ?_⟩, fun _ _ e he => .inl (h.events ▸ he), ?_⟩
  · rcases h.entry x with heq | ⟨rfl, -⟩
    · exact heq
    · exact absurd hlb hx
  · rintro hS b (hb | ⟨x, hx, heq⟩)
    · rw [hmgmt, htop] at hb
      exact hS (.inl hb)
    · rw [hkeep x (by omega)] at heq
      exact hS (.inr ⟨x, hx, heq⟩)
  · exact hs.congr (by rw [h.ni]) (by rw [h.ni]; simp) (by rw [h.ni])
  · have hplace := ho.place x (hkeep x hx ▸ hx)
    rw [hkeep x hx, hmgmt, htop, hsig]
    exact hplace
  · have hy : 0 ≤ w'.ni.entry y := hxy ▸ hx
    rw [hkeep x hx] at hx
    apply ho.injective x y hx
    rw [← hkeep x (by rw [hxy]; exact hy), ← hkeep y hy, hxy]
  · rw [h.chip]
    exact Chip.Touches.refl _ _

/-! ## Taking a block from the pool -/

theorem walkDesc_bounds {ni : NmbmInstance} :
    ∀ {n ba : Nat} {nblock : Int} {r : Nat},
      n ≤ ba → walkDesc ni n ba nblock = some r → ba - n < r ∧ r ≤ ba := by
  intro n
  induction n with
  | zero =>
      intro ba nblock r _ h
      simp [walkDesc] at h
  | succ n ih =>
      intro ba nblock r hle h
      simp only [walkDesc] at h
      split_ifs at h with hgood hneg hneg
      · cases h
        omega
      · have := ih (by omega) h
        omega
      · cases h
        omega
      · have := ih (by omega) h
        omega

theorem blockCount_lt (nld : LowerDevice) : nld.blockCount < 2 ^ 32 :=
  Nat.mod_lt _ (Nat.two_pow_pos 32)

theorem u32Sub_one {n : Nat} (hpos : 0 < n) (hlt : n < 2 ^ 32) : u32Sub n 1 = n - 1 := by
  rw [u32Sub, u32]
  omega

/-- The walk of {lit}`nmbm_map_block` ends between the tables and the top of the pool, and
right at the top if that block is good. -/
theorem nmbmBlockWalk_pool {ni : NmbmInstance} (hp : Pool nld ni) {pb : Nat}
    (h : nmbmBlockWalk nld ni false ni.mappingBlocksTopBa 0 ni.mappingBlocksBa = some pb) :
    ni.mappingBlocksBa < pb ∧ pb ≤ ni.mappingBlocksTopBa ∧
      (nmbmGetBlockState ni ni.mappingBlocksTopBa = blockStGood → pb = ni.mappingBlocksTopBa) := by
  have hle := hp.le_top
  have hsig := hp.top_lt
  have hbc := hp.signature_lt
  simp only [nmbmBlockWalk, Bool.false_eq_true, if_false, nmbmBlockWalkDesc,
    if_neg (by omega : ¬ nld.blockCount ≤ ni.mappingBlocksBa)] at h
  obtain ⟨hlo, hhi⟩ := walkDesc_bounds (Nat.sub_le _ _) h
  refine ⟨by omega, hhi, fun hgood => ?_⟩
  obtain ⟨n, hn⟩ : ∃ n, ni.mappingBlocksTopBa - ni.mappingBlocksBa = n + 1 :=
    ⟨ni.mappingBlocksTopBa - ni.mappingBlocksBa - 1, by omega⟩
  have hneg : signedOf 4 (u32 0) - 1 < 0 := by decide
  rw [hn, walkDesc] at h
  simp only [hgood, if_true, if_pos hneg] at h
  exact (Option.some.inj h).symm

/-- A logic block gets a block of the pool, which loses its top block. -/
structure Maps (lb pb : Nat) (w w' : World) : Prop where
  ni : w'.ni =
    { w.ni with
      blockMapping := w.ni.blockMapping.set lb pb
      mappingBlocksTopBa := w.ni.mappingBlocksTopBa - 1
      blockMappingChanged := w.ni.blockMappingChanged + 1 }
  events : w'.events =
    .map (nmbmGetBlockState w.ni w.ni.mappingBlocksTopBa == blockStGood) :: w.events
  chip : w'.chip = w.chip

theorem wp_maps {lb pb : Nat} {Q : Bool → World → Prop}
    (hpred : u32Sub w.ni.mappingBlocksTopBa 1 = w.ni.mappingBlocksTopBa - 1)
    (h : ∀ w', Maps lb pb w w' → Q true w') :
    wp (do
      logEvent (fun ni _ => .map (nmbmGetBlockState ni w.ni.mappingBlocksTopBa == blockStGood))
      modifyNi (fun ni =>
        { ni with
          blockMapping := ni.blockMapping.set lb pb
          mappingBlocksTopBa := u32Sub ni.mappingBlocksTopBa 1
          blockMappingChanged := ni.blockMappingChanged + 1 })
      pure true) nld Q w := by
  apply h
  refine ⟨?_, rfl, rfl⟩
  rw [← hpred]
  rfl

theorem Maps.entry {lb pb : Nat} (h : Maps lb pb w w') (x : Nat) :
    w'.ni.entry x = w.ni.entry x ∨ (x = lb ∧ w'.ni.entry x = pb) := by
  have hset := entry_set w.ni lb x pb
  have hsame : w'.ni.entry x =
      NmbmInstance.entry { w.ni with blockMapping := w.ni.blockMapping.set lb pb } x := by
    rw [h.ni]
    rfl
  rw [hsame, hset]
  split_ifs with hx
  · exact .inr ⟨hx.1, rfl⟩
  · exact .inl rfl

theorem Maps.pool {lb pb : Nat} (h : Maps lb pb w w') (hp : Pool nld w.ni)
    (hlt : w.ni.mappingBlocksBa < w.ni.mappingBlocksTopBa) : Pool nld w'.ni := by
  have hmgmt := hp.mgmt_le
  have htop := hp.top_lt
  rw [h.ni]
  refine ⟨⟨?_, ?_, hp.signature_lt, hp.cached⟩, hmgmt, ?_, hp.main, hp.main_le, hp.backup,
    hp.backup_le⟩
  · show w.ni.mgmtStartBa ≤ w.ni.mappingBlocksTopBa - 1
    omega
  · show w.ni.mappingBlocksTopBa - 1 < w.ni.signatureBa
    omega
  · show w.ni.mappingBlocksBa ≤ w.ni.mappingBlocksTopBa - 1
    omega

theorem Maps.step {lb pb : Nat} (h : Maps lb pb w w') (hp : Pool nld w.ni)
    (hlo : w.ni.mappingBlocksBa < pb)
    (hhi : pb ≤ w.ni.mappingBlocksTopBa)
    (hgood : nmbmGetBlockState w.ni w.ni.mappingBlocksTopBa = blockStGood →
      pb = w.ni.mappingBlocksTopBa) :
    Step nld {lb} S w w' := by
  have hmgmt_le := hp.mgmt_le
  have htop_lt := hp.top_lt
  have hmgmt : w'.ni.mgmtStartBa = w.ni.mgmtStartBa := by rw [h.ni]
  have htop : w'.ni.mappingBlocksTopBa = w.ni.mappingBlocksTopBa - 1 := by rw [h.ni]
  have hsig : w'.ni.signatureBa = w.ni.signatureBa := by rw [h.ni]
  have hold : ∀ e ∈ w'.events, e ∈ w.events ∨ ∃ g, e = .map g := by
    intro e he
    rw [h.events] at he
    rcases List.mem_cons.mp he with rfl | hmem
    · exact .inr ⟨_, rfl⟩
    · exact .inl hmem
  refine ⟨hmgmt, by rw [h.ni], hsig, by omega, fun x hx => ?_, ?_, fun b _ => by rw [h.ni]; rfl,
    fun hs => ?_, .inl (by rw [h.ni]), fun hev => .inl ?_, ⟨[_], h.events⟩, fun ht ho => ?_,
    fun _ _ e he => ?_, ?_⟩
  · rcases h.entry x with heq | ⟨rfl, -⟩
    · exact heq
    · exact absurd rfl hx
  · rintro hS b (hb | ⟨x, hx, heq⟩)
    · rw [hmgmt, htop] at hb
      exact hS (.inl ⟨hb.1, by omega⟩)
    · rcases h.entry x with hsame | ⟨-, hnew⟩
      · rw [hsame] at heq
        exact hS (.inr ⟨x, hx, heq⟩)
      · exact hS (.inl ⟨by omega, by omega⟩)
  · exact hs.congr (by rw [h.ni]) (by rw [h.ni]; simp) (by rw [h.ni])
  · rcases hold _ hev with hmem | ⟨g, hg⟩
    · exact hmem
    · cases hg
  · -- The block at the top goes to the logic block, and the top moves below it.
    have hpb : pb = w.ni.mappingBlocksTopBa := by
      have hlog := ht _ (by rw [h.events]; exact List.mem_cons_self)
      exact hgood (by simpa using hlog)
    refine ⟨fun x hx => ?_, fun x y hx hxy => ?_⟩
    · rcases h.entry x with heq | ⟨-, heq⟩
      · rw [heq] at hx ⊢
        rcases ho.place x hx with hlt | ⟨hgt, hlt⟩ <;> omega
      · omega
    · rcases h.entry x with hxe | ⟨hxl, hxe⟩ <;> rcases h.entry y with hye | ⟨hyl, hye⟩
      · rw [hxe] at hx
        exact ho.injective x y hx (hxe.symm.trans (hxy.trans hye))
      · have hplace := ho.place x (hxe ▸ hx)
        omega
      · have hplace := ho.place y (by omega)
        omega
      · exact hxl.trans hyl.symm
  · rcases hold e he with hmem | ⟨g, rfl⟩
    · exact .inl hmem
    · exact .inr trivial
  · rw [h.chip]
    exact Chip.Touches.refl _ _

/-- The top of the pool is lowered to the end of the tables. -/
structure Lowers (w w' : World) : Prop where
  ni : w'.ni = { w.ni with mappingBlocksTopBa := w.ni.mappingBlocksBa }
  events : w'.events = w.events
  chip : w'.chip = w.chip

theorem wp_lowers {Q : Unit → World → Prop} (h : ∀ w', Lowers w w' → Q () w') :
    wp (modifyNi (fun ni => { ni with mappingBlocksTopBa := ni.mappingBlocksBa })) nld Q w :=
  h _ ⟨rfl, rfl, rfl⟩

theorem Lowers.pool (h : Lowers w w') (hp : Pool nld w.ni) : Pool nld w'.ni := by
  have hle := hp.le_top
  have htop := hp.top_lt
  rw [h.ni]
  exact ⟨⟨hp.mgmt_le, hle.trans_lt htop, hp.signature_lt, hp.cached⟩, hp.mgmt_le, le_refl _,
    hp.main, hp.main_le, hp.backup, hp.backup_le⟩

theorem Lowers.kept (h : Lowers w w') (hk : Kept nld w) : Kept nld w' := by
  intro hprot
  have htable : ∀ data s hi, TableAt nld w data s hi → TableAt nld w' data s hi :=
    fun data s hi ht => ht.congr (by rw [h.chip]) (by rw [h.ni])
  rw [h.ni] at hprot
  obtain ⟨hclean, ⟨hsaved, states, hcached⟩, hsync⟩ := hk hprot
  refine ⟨?_, ⟨⟨?_, ?_, fun hne => ?_⟩, states, ?_⟩, ?_⟩
  · rw [h.ni]
    exact hclean
  · rw [h.ni]
    exact hsaved.mgmt_le
  · rw [h.ni]
    exact htable _ _ _ hsaved.main
  · rw [h.ni] at hne ⊢
    exact htable _ _ _ (hsaved.backup hne)
  · rw [h.ni]
    exact ⟨hcached.bytes, hcached.length, hcached.good, hcached.magic, hcached.size⟩
  · rw [h.ni]
    exact hsync

theorem Lowers.step (h : Lowers w w') (hp : Pool nld w.ni) : Step nld L S w w' := by
  have hle := hp.le_top
  have htop : w'.ni.mappingBlocksTopBa = w.ni.mappingBlocksBa := by rw [h.ni]
  have hmgmt : w'.ni.mgmtStartBa = w.ni.mgmtStartBa := by rw [h.ni]
  have hsig : w'.ni.signatureBa = w.ni.signatureBa := by rw [h.ni]
  have hentry : ∀ x, w'.ni.entry x = w.ni.entry x := by
    intro x
    rw [h.ni]
    rfl
  refine ⟨hmgmt, by rw [h.ni], hsig, by omega, fun x _ => hentry x, ?_,
    fun b _ => by rw [h.ni]; rfl, fun hs => ?_, .inl (by rw [h.ni]),
    fun hev => .inl (h.events ▸ hev), ⟨[], h.events⟩, fun _ ho => ⟨fun x hx => ?_, ?_⟩,
    fun _ _ e he => .inl (h.events ▸ he), ?_⟩
  · rintro hS b (hb | ⟨x, hx, heq⟩)
    · rw [hmgmt, htop] at hb
      exact hS (.inl ⟨hb.1, by omega⟩)
    · rw [hentry] at heq
      exact hS (.inr ⟨x, hx, heq⟩)
  · exact hs.congr (by rw [h.ni]) (by rw [h.ni]) (by rw [h.ni])
  · rw [hentry] at hx ⊢
    rcases ho.place x hx with hlt | ⟨hgt, hlt⟩ <;> omega
  · intro x y
    rw [hentry, hentry]
    exact ho.injective x y
  · rw [h.chip]
    exact Chip.Touches.refl _ _

/-- The specification of {lit}`nmbm_map_block`. -/
theorem nmbmMapBlock_spec (hws : 0 < nld.writesize) (hp : Pool nld w.ni) {lb : Nat}
    (hS : territory {lb} w.ni ⊆ S) :
    wp (nmbmMapBlock lb) nld (fun ok w' =>
      Step nld {lb} S w w' ∧ Pool nld w'.ni ∧ (ok = true → w'.ni.blockMappingChanged ≠ 0) ∧
        (ok = false → nld.Fits → Shape nld w.ni → CleanLog w'.events →
          (Clean w.ni → Kept nld w) → Clean w'.ni → Kept nld w')) w := by
  have hle := hp.le_top
  have htop := hp.top_lt
  have hsig := hp.signature_lt
  have hbc := blockCount_lt nld
  simp only [nmbmMapBlock, wp_bind, wp_ask, wp_get]
  split
  · exact ⟨Step.refl nld _ _ w, hp, by simp, fun _ _ _ _ hk => hk⟩
  · rename_i hne
    split
    · simp only [wp_bind, wp_pure]
      refine wp_mono (nmbmUpdateInfoTable_kept hws hp) ?_
      rintro ok w₁ ⟨hu, hp₁, hkept⟩
      refine wp_lowers (fun w₂ hlow => ?_)
      refine ⟨(hu.step hS).trans (hlow.step hp₁), hlow.pool hp₁, by simp, ?_⟩
      intro _ hf hs hclean hk _
      rw [hlow.events] at hclean
      exact hlow.kept (hkept hf hs hclean hk)
    · rename_i pb hwalk
      obtain ⟨hlo, hhi, hgood⟩ := nmbmBlockWalk_pool hp hwalk
      have hpred := u32Sub_one (by omega : 0 < w.ni.mappingBlocksTopBa) (by omega)
      refine wp_maps hpred (fun w' hmaps => ?_)
      refine ⟨hmaps.step hp hlo hhi hgood, hmaps.pool hp (by omega), fun _ => ?_, by simp⟩
      rw [hmaps.ni]
      exact Nat.succ_ne_zero _

end Nmbm
end ZyxelRouter
