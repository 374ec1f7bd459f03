import Mathlib.Data.List.Pairwise
import ZyxelRouter.Nmbm.Frame

/-!
# NMBM: writing one info table

What {lit}`nmbm_write_info_table` and {lit}`nmbm_erase_range` may change, and where a
table that was written is found.

Main results:

- Theorem {lit}`nmbmEraseRange_spec`: erasing spare blocks retires good blocks of the range
  at most.
- Theorem {lit}`nmbmWriteInfoTable_spec`: so does writing a table, and a written table lies
  in increasing good blocks of the range, chunk by chunk.
-/

namespace ZyxelRouter
namespace Nmbm

open Lib Lib.Prog

variable {S T : Set Nat} {w w' w'' : World} {nld : LowerDevice} {ba page : Nat}

/-! ## Bytes of a block -/

/-- The {lit}`n` bytes of the main area of a block from {lit}`off` on. -/
def bytesFrom (nld : LowerDevice) (blk : Block) (off n : Nat) : List UInt8 :=
  (List.range' off n).map (fun i => blk (i / nld.writesize) (i % nld.writesize))

@[simp]
theorem length_bytesFrom (blk : Block) (off n : Nat) : (bytesFrom nld blk off n).length = n := by
  simp [bytesFrom]

theorem bytesFrom_add (blk : Block) (off m n : Nat) :
    bytesFrom nld blk off (m + n) = bytesFrom nld blk off m ++ bytesFrom nld blk (off + m) n := by
  rw [bytesFrom, ← List.range'_append_1, List.map_append]
  rfl

/-- The first bytes of a page are the bytes of the block at its place. -/
theorem take_mainArea (blk : Block) (page : Nat) {n : Nat}
    (hn : n ≤ nld.writesize) :
    (mainArea nld (blk page)).take n = bytesFrom nld blk (page * nld.writesize) n := by
  rw [mainArea, bytesFrom, ← List.map_take, List.take_range, Nat.min_eq_left hn,
    List.range'_eq_map_range, List.map_map]
  apply List.map_congr_left
  intro i hi
  have hlt : i < nld.writesize := by
    rw [List.mem_range] at hi
    omega
  have hdiv : (page * nld.writesize + i) / nld.writesize = page := by
    rw [Nat.mul_comm, Nat.mul_add_div (by omega), Nat.div_eq_of_lt hlt, Nat.add_zero]
  have hmod : (page * nld.writesize + i) % nld.writesize = i := by
    rw [Nat.mul_comm, Nat.mul_add_mod, Nat.mod_eq_of_lt hlt]
  simp only [Function.comp_apply, hdiv, hmod]

/-! ## Writing the pages of a chunk -/

/-- The page loop changes its block only; if it succeeds and page programs are local, the
data is found from its first page on and the pages in front are as before. -/
theorem writeVerifyLoop_spec (nld : LowerDevice) (ba : Nat) :
    ∀ (fuel page : Nat) (data : List UInt8) (w : World),
      data.length ≤ fuel →
      0 < nld.writesize →
      wp (writeVerifyLoop ba fuel page data) nld (fun ok w' =>
        Programs {ba} w w' ∧
          (nld.fates.PageLocal → ok = true →
            bytesFrom nld (w'.chip.flash.cells ba) (page * nld.writesize) data.length = data ∧
            ∀ q, q < page → w'.chip.flash.cells ba q = w.chip.flash.cells ba q)) w := by
  intro fuel
  induction fuel with
  | zero =>
      intro page data w hfuel _
      have hnil : data = [] := List.length_eq_zero_iff.mp (by omega)
      subst hnil
      exact ⟨Programs.refl _ w, fun _ _ => ⟨rfl, fun _ _ => rfl⟩⟩
  | succ fuel ih =>
      intro page data w hfuel hws
      simp only [writeVerifyLoop, wp_bind, wp_ask, wp_ite, wp_pure, wp_setPageCache, wp_get]
      refine ⟨fun hzero => ?_, fun hmore => ?_⟩
      · have hnil : data = [] := List.length_eq_zero_iff.mp hzero
        subst hnil
        exact ⟨Programs.refl _ w, fun _ _ => ⟨rfl, fun _ _ => trivial⟩⟩
      · refine wp_mono (nmbmWritePhysPage_spec nld ba page _ _ _) ?_
        intro ok w₁ hwrite
        have h₁ : Programs {ba} w w₁ :=
          (programs_setPageCache {ba} w _).trans
            ((programs_setPageCache {ba} _ _).trans hwrite.1)
        refine ⟨fun hfail => ⟨h₁, fun _ hok => by simp at hok⟩, fun _ => ?_⟩
        refine wp_mono (nmbmReadPhysPage_spec nld ba page w₁) ?_
        intro r w₂ hread
        have h₂ := fun pageCache =>
          (h₁.trans (hread.1.programs {ba})).trans (programs_setPageCache {ba} w₂ pageCache)
        refine ⟨fun _ => ⟨h₂ _, fun _ hok => by simp at hok⟩, fun hret => ?_⟩
        refine ⟨fun _ => ⟨h₂ _, fun _ hok => by simp at hok⟩, fun hsame => ?_⟩
        have hdrop : (data.drop nld.writesize).length = data.length - nld.writesize :=
          List.length_drop
        refine wp_mono (ih (page + 1) (data.drop nld.writesize) _ (by omega) hws) ?_
        intro ok₃ w₃ hrest
        refine ⟨(h₂ _).trans hrest.1, fun hlocal hok => ?_⟩
        obtain ⟨hbytes, hkeep⟩ := hrest.2 hlocal hok
        refine ⟨?_, fun q hq => ?_⟩
        · -- The page just verified is kept, and the rest follows behind it.
          have hlen : (data.take nld.writesize).length ≤ nld.writesize := by
            rw [List.length_take]
            omega
          have hpage : bytesFrom nld (w₃.chip.flash.cells ba) (page * nld.writesize)
              (data.take nld.writesize).length = data.take nld.writesize := by
            rw [← take_mainArea _ page hlen, hkeep page (by omega)]
            have hstored := hread.2 (by omega)
            have hflash : w₂.chip.flash.cells ba page = r.2 := by
              rw [hread.1.flash, hstored]
            simp only [hflash]
            exact not_not.mp hsame
          have hsum : data.length =
              (data.take nld.writesize).length + (data.drop nld.writesize).length := by
            rw [← List.length_append, List.take_append_drop]
          have hnext : bytesFrom nld (w₃.chip.flash.cells ba)
              (page * nld.writesize + (data.take nld.writesize).length)
              (data.drop nld.writesize).length = data.drop nld.writesize := by
            by_cases hshort : data.length ≤ nld.writesize
            · rw [List.drop_eq_nil_of_le hshort]
              rfl
            · have hfull : (data.take nld.writesize).length = nld.writesize := by
                rw [List.length_take]
                omega
              rw [hfull, ← Nat.succ_mul]
              exact hbytes
          rw [hsum, bytesFrom_add, hpage, hnext, List.take_append_drop]
        · rw [hkeep q (by omega)]
          show w₂.chip.flash.cells ba q = _
          rw [hread.1.flash, hwrite.2 hlocal q (by omega)]

/-- The specification of {lit}`nmbn_write_verify_data`. -/
theorem nmbnWriteVerifyData_spec (nld : LowerDevice) (hws : 0 < nld.writesize) (ba : Nat)
    (data : List UInt8) (w : World) :
    wp (nmbnWriteVerifyData ba data) nld (fun ok w' =>
      Programs {ba} w w' ∧
        (nld.fates.PageLocal → ok = true →
          bytesFrom nld (w'.chip.flash.cells ba) 0 data.length = data)) w := by
  refine wp_mono (writeVerifyLoop_spec nld ba data.length 0 data w (le_refl _) hws) ?_
  intro ok w' h
  refine ⟨h.1, fun hlocal hok => ?_⟩
  have hbytes := (h.2 hlocal hok).1
  rwa [Nat.zero_mul] at hbytes

/-! ## Frames of table operations -/

/-- Good blocks of {lit}`S` were written, erased or retired, and nothing else changed
but the page cache and the log. -/
structure Mgmt (S : Set Nat) (w w' : World) : Prop where
  ni : ∃ pageCache blockState blockStateChanged,
    w'.ni = { w.ni with pageCache, blockState, blockStateChanged }
  length : w'.ni.blockState.length = w.ni.blockState.length
  state : ∀ b, nmbmGetBlockState w'.ni b = nmbmGetBlockState w.ni b ∨
    (b ∈ S ∧ nmbmGetBlockState w.ni b = blockStGood ∧ nmbmGetBlockState w'.ni b = blockStBad)
  changed : w.ni.blockStateChanged ≤ w'.ni.blockStateChanged
  unchanged : w'.ni.blockStateChanged = w.ni.blockStateChanged →
    w'.ni.blockState = w.ni.blockState
  retired : w.ni.blockStateChanged < w'.ni.blockStateChanged → ∃ b,
    nmbmGetBlockState w.ni b = blockStGood ∧ nmbmGetBlockState w'.ni b = blockStBad
  events : ∃ es, w'.events = es ++ w.events ∧ ∀ e ∈ es, ∃ b ∈ S,
    e = .tableErase b w.ni.blockMapping w.ni.dataBlockCount ∨ ∃ started, e = .tableSkip b started
  chip : Chip.Touches S w.chip w'.chip

theorem Phys.mgmt (h : Phys S w w') : Mgmt S w w' := by
  obtain ⟨pc, hni⟩ := h.ni
  refine ⟨⟨pc, w.ni.blockState, w.ni.blockStateChanged, hni⟩, ?_, fun b => .inl ?_, ?_, ?_, ?_,
    ⟨[], h.events, by simp⟩, h.chip⟩ <;> simp [hni, nmbmGetBlockState]

theorem Mgmt.refl (S : Set Nat) (w : World) : Mgmt S w w :=
  (Phys.refl S w).mgmt

theorem Mgmt.trans (h : Mgmt S w w') (h' : Mgmt S w' w'') : Mgmt S w w'' := by
  obtain ⟨pc, bs, n, hni⟩ := h.ni
  obtain ⟨pc', bs', n', hni'⟩ := h'.ni
  obtain ⟨es, hes, hall⟩ := h.events
  obtain ⟨es', hes', hall'⟩ := h'.events
  refine ⟨⟨pc', bs', n', by rw [hni', hni]⟩, h'.length.trans h.length, fun b => ?_,
    h.changed.trans h'.changed, fun hsame => ?_, fun hmore => ?_, ⟨es' ++ es, ?_, ?_⟩,
    h.chip.trans h'.chip⟩
  · rcases h'.state b with heq' | ⟨hS, hgood, hbad⟩
    · rcases h.state b with heq | ⟨hS, hgood, hbad⟩
      · exact .inl (heq'.trans heq)
      · exact .inr ⟨hS, hgood, heq'.trans hbad⟩
    · rcases h.state b with heq | ⟨_, _, hbad'⟩
      · exact .inr ⟨hS, heq ▸ hgood, hbad⟩
      · rw [hbad'] at hgood
        exact absurd hgood (by decide)
  · have hle := h.changed
    have hle' := h'.changed
    rw [h'.unchanged (by omega), h.unchanged (by omega)]
  · have hbad : blockStBad ≠ blockStGood := by decide
    have hle := h.changed
    by_cases hfirst : w.ni.blockStateChanged < w'.ni.blockStateChanged
    · obtain ⟨b, hgood, hb⟩ := h.retired hfirst
      rcases h'.state b with heq | ⟨-, hgood', -⟩
      · exact ⟨b, hgood, heq.trans hb⟩
      · exact absurd (hb.symm.trans hgood') hbad
    · obtain ⟨b, hgood, hb⟩ := h'.retired (by omega)
      rcases h.state b with heq | ⟨-, -, hb'⟩
      · exact ⟨b, heq ▸ hgood, hb⟩
      · exact absurd (hb'.symm.trans hgood) hbad
  · rw [hes', hes, List.append_assoc]
  · intro e he
    rcases List.mem_append.mp he with hnew | hold
    · have hmap : w'.ni.blockMapping = w.ni.blockMapping := by rw [hni]
      have hcount : w'.ni.dataBlockCount = w.ni.dataBlockCount := by rw [hni]
      rw [hmap, hcount] at hall'
      exact hall' e hnew
    · exact hall e hold

theorem Mgmt.mono (h : Mgmt S w w') (hST : S ⊆ T) : Mgmt T w w' := by
  obtain ⟨es, hes, hall⟩ := h.events
  refine ⟨h.ni, h.length, fun b => ?_, h.changed, h.unchanged, h.retired,
    ⟨es, hes, fun e he => ?_⟩, h.chip.mono hST⟩
  · rcases h.state b with heq | ⟨hS, hrest⟩
    · exact .inl heq
    · exact .inr ⟨hST hS, hrest⟩
  · obtain ⟨b, hb, hcase⟩ := hall e he
    exact ⟨b, hST hb, hcase⟩

/-- A good block has its bits inside the table. -/
theorem lt_length_of_good {ni : NmbmInstance} (h : nmbmGetBlockState ni ba = blockStGood) :
    ba / 16 < ni.blockState.length := by
  by_contra hge
  have hzero : ni.blockState.getD (ba / 16) 0#32 = 0#32 := by
    rw [List.getD_eq_getElem?_getD, List.getElem?_eq_none (by omega)]
    rfl
  rw [nmbmGetBlockState, nmbmGetBlockStateRaw, hzero, BitVec.zero_ushiftRight] at h
  exact absurd h (by decide)

/-- Recording a good block of {lit}`S` as bad. -/
theorem mgmt_setBad (hS : ba ∈ S)
    (hgood : nmbmGetBlockState w.ni ba = blockStGood) :
    wp (nmbmSetBlockState ba blockStBad) nld (fun _ w' =>
      Mgmt S w w' ∧ nmbmGetBlockState w'.ni ba = blockStBad ∧ w'.events = w.events) w := by
  have hlen := lt_length_of_good hgood
  have hset : ∀ b, nmbmGetBlockStateRaw (setBlockStateRaw w.ni.blockState ba blockStBad) b =
      if ba = b then blockStBad else nmbmGetBlockState w.ni b := by
    intro b
    rw [nmbmGetBlockStateRaw_set _ _ hlen]
    rfl
  have hne : nmbmGetBlockState w.ni ba ≠ blockStBad &&& blockStMask := by
    rw [hgood]
    decide
  simp only [nmbmSetBlockState, wp_modifyNi, if_pos hne]
  refine ⟨⟨⟨_, _, _, rfl⟩, ?_, fun b => ?_, ?_, ?_, fun _ => ⟨ba, hgood, ?_⟩, ⟨[], rfl, by simp⟩,
    Chip.Touches.refl S _⟩, ?_, trivial⟩
  · simp
  · by_cases hb : ba = b
    · subst hb
      refine .inr ⟨hS, hgood, ?_⟩
      rw [nmbmGetBlockState, hset, if_pos rfl]
    · left
      rw [nmbmGetBlockState, hset, if_neg hb]
  · simp
  · intro hsame
    simp at hsame
  · rw [nmbmGetBlockState, hset, if_pos rfl]
  · rw [nmbmGetBlockState, hset, if_pos rfl]

/-- Retiring a good block of {lit}`S`. -/
theorem retireBlock_spec (hS : ba ∈ S)
    (hgood : nmbmGetBlockState w.ni ba = blockStGood) :
    wp (retireBlock ba) nld (fun _ w' =>
      Mgmt S w w' ∧ nmbmGetBlockState w'.ni ba = blockStBad ∧ w'.events = w.events) w := by
  simp only [retireBlock, wp_bind]
  refine wp_mono (nmbmMarkPhysBadBlock_spec nld ba w) ?_
  intro _ w₁ hmark
  obtain ⟨pc, hni⟩ := hmark.ni
  have hgood₁ : nmbmGetBlockState w₁.ni ba = blockStGood := by
    rw [hni]
    exact hgood
  refine wp_mono (mgmt_setBad hS hgood₁) ?_
  intro _ w₂ hset
  exact ⟨((hmark.mono (Set.singleton_subset_iff.mpr hS)).mgmt).trans hset.1, hset.2.1,
    hset.2.2.trans hmark.events⟩

/-- Putting a table event on record. -/
theorem mgmt_event {e : Event}
    (he : ∃ b ∈ S, e = .tableErase b w.ni.blockMapping w.ni.dataBlockCount ∨
      ∃ started, e = .tableSkip b started) :
    Mgmt S w { w with events := e :: w.events } := by
  refine ⟨⟨_, _, _, rfl⟩, rfl, fun _ => .inl rfl, le_refl _, fun _ => rfl,
    fun h => absurd h (lt_irrefl _), ⟨[e], rfl, ?_⟩, Chip.Touches.refl S _⟩
  intro e' he'
  rw [List.mem_singleton.mp he']
  exact he

/-- The {lit}`n` blocks from {lit}`ba` on. -/
def blocksFrom (ba n : Nat) : Set Nat :=
  {b | ba ≤ b ∧ b < ba + n}

theorem mem_blocksFrom {b n : Nat} : b ∈ blocksFrom ba n ↔ ba ≤ b ∧ b < ba + n :=
  Iff.rfl

theorem blocksFrom_succ_subset (ba n : Nat) : blocksFrom (ba + 1) n ⊆ blocksFrom ba (n + 1) := by
  intro b hb
  rw [mem_blocksFrom] at hb ⊢
  omega

theorem self_mem_blocksFrom (ba n : Nat) : ba ∈ blocksFrom ba (n + 1) := by
  rw [mem_blocksFrom]
  omega

/-- The specification of {lit}`nmbm_erase_range`. -/
theorem nmbmEraseRange_spec (nld : LowerDevice) :
    ∀ (n ba : Nat) (w : World),
      wp (nmbmEraseRange n ba) nld (fun _ w' => Mgmt (blocksFrom ba n) w w') w := by
  intro n
  induction n with
  | zero =>
      intro ba w
      exact Mgmt.refl _ w
  | succ n ih =>
      intro ba w
      have hmem := self_mem_blocksFrom ba n
      have hrest : ∀ w₁, Mgmt (blocksFrom ba (n + 1)) w w₁ →
          wp (nmbmEraseRange n (ba + 1)) nld
            (fun _ w' => Mgmt (blocksFrom ba (n + 1)) w w') w₁ := by
        intro w₁ h₁
        refine wp_mono (ih (ba + 1) w₁) (fun _ w₂ h₂ => ?_)
        exact h₁.trans (h₂.mono (blocksFrom_succ_subset ba n))
      simp only [nmbmEraseRange, wp_bind, wp_get, wp_ite, wp_logEvent]
      refine ⟨fun hgood => ?_, fun _ => hrest w (Mgmt.refl _ w)⟩
      refine wp_mono (nmbmCheckBadPhysBlock_spec nld ba w) ?_
      rintro bad w₁ ⟨hcheck, -, -⟩
      have h₁ : Mgmt (blocksFrom ba (n + 1)) w w₁ := (hcheck.mono (Set.empty_subset _)).mgmt
      obtain ⟨pc, hni⟩ := hcheck.ni
      have hgood₁ : nmbmGetBlockState w₁.ni ba = blockStGood := by
        rw [hni]
        exact hgood
      refine ⟨fun _ => ?_, fun _ => ?_⟩
      · exact wp_mono (mgmt_setBad hmem hgood₁) (fun _ w₂ h₂ => hrest w₂ (h₁.trans h₂.1))
      · have hlog : Mgmt (blocksFrom ba (n + 1)) w₁ _ := mgmt_event ⟨ba, hmem, .inl rfl⟩
        refine wp_mono (nmbmEraseBlockAndCheck_spec nld ba _) ?_
        intro success w₂ herase
        have h₂ := (h₁.trans hlog).trans
          ((herase.toPhys.mono (Set.singleton_subset_iff.mpr hmem)).mgmt)
        obtain ⟨pc₂, hni₂⟩ := herase.ni
        have hgood₂ : nmbmGetBlockState w₂.ni ba = blockStGood := by
          rw [hni₂]
          exact hgood₁
        refine ⟨fun _ => ?_, fun _ => hrest w₂ h₂⟩
        exact wp_mono (retireBlock_spec hmem hgood₂) (fun _ w₃ h₃ => hrest w₃ (h₂.trans h₃.1))

/-- One block of a table: it is passed over or retired, or it stays good, unmarked, and
holds the chunk. -/
theorem writeMgmtBlock_spec (nld : LowerDevice) (hws : 0 < nld.writesize) (ba : Nat)
    (chunk : List UInt8) (w : World) :
    wp (writeMgmtBlock ba chunk) nld (fun ok w' =>
      Mgmt {ba} w w' ∧
        (w'.events = w.events ∨
          w'.events = .tableErase ba w.ni.blockMapping w.ni.dataBlockCount :: w.events) ∧
        (ok = false → nmbmGetBlockState w'.ni ba ≠ blockStGood) ∧
        (ok = true →
          nmbmGetBlockState w'.ni ba = blockStGood ∧
          w'.ni.blockState = w.ni.blockState ∧
          (nld.hasIsBadBlock = true → w'.chip.flash.marks ba = false) ∧
          (nld.fates.PageLocal →
            bytesFrom nld (w'.chip.flash.cells ba) 0 chunk.length = chunk))) w := by
  have hmem : ba ∈ ({ba} : Set Nat) := Set.mem_singleton ba
  simp only [writeMgmtBlock, wp_bind, wp_get, wp_ite, wp_pure, wp_logEvent]
  refine ⟨fun hbad => ⟨Mgmt.refl _ w, .inl trivial, fun _ => hbad, by simp⟩, fun hgood => ?_⟩
  have hgood := not_not.mp hgood
  refine wp_mono (nmbmCheckBadPhysBlock_spec nld ba w) ?_
  rintro bad w₁ ⟨hcheck, hflash₁, hmark⟩
  have h₁ : Mgmt {ba} w w₁ := (hcheck.mono (Set.empty_subset _)).mgmt
  obtain ⟨pc, hni⟩ := hcheck.ni
  have hgood₁ : nmbmGetBlockState w₁.ni ba = blockStGood := by
    rw [hni]
    exact hgood
  refine ⟨fun _ => ?_, fun hok => ?_⟩
  · refine wp_mono (mgmt_setBad hmem hgood₁) ?_
    intro _ w₂ h₂
    refine ⟨h₁.trans h₂.1, .inl (h₂.2.2.trans hcheck.events), fun _ => ?_, by simp⟩
    rw [h₂.2.1]
    decide
  · have hlog : Mgmt {ba} w₁ _ := mgmt_event ⟨ba, hmem, .inl rfl⟩
    refine wp_mono (nmbmEraseBlockAndCheck_spec nld ba _) ?_
    intro erased w₂ herase
    have h₂ := (h₁.trans hlog).trans herase.toPhys.mgmt
    obtain ⟨pc₂, hni₂⟩ := herase.ni
    have hevents₂ : w₂.events =
        .tableErase ba w.ni.blockMapping w.ni.dataBlockCount :: w.events := by
      rw [herase.events]
      simp only [hcheck.events, hni]
    have hretire : ∀ w₃, Programs {ba} w₂ w₃ →
        wp (retireBlock ba) nld (fun _ w' =>
          Mgmt {ba} w w' ∧ w'.events = w₂.events ∧
            nmbmGetBlockState w'.ni ba ≠ blockStGood) w₃ := by
      intro w₃ h₃
      obtain ⟨pc₃, hni₃⟩ := h₃.ni
      have hgood₃ : nmbmGetBlockState w₃.ni ba = blockStGood := by
        rw [hni₃, hni₂]
        exact hgood₁
      refine wp_mono (retireBlock_spec hmem hgood₃) ?_
      intro _ w₄ h₄
      refine ⟨(h₂.trans h₃.toPhys.mgmt).trans h₄.1, h₄.2.2.trans h₃.events, ?_⟩
      rw [h₄.2.1]
      decide
    refine ⟨fun _ => ?_, fun _ => ?_⟩
    · refine wp_mono (nmbnWriteVerifyData_spec nld hws ba chunk w₂) ?_
      rintro success w₃ ⟨hwrite, hbytes⟩
      obtain ⟨pc₃, hni₃⟩ := hwrite.ni
      refine ⟨fun hfail => ?_, fun hsucc => ?_⟩
      · refine wp_mono (hretire w₃ hwrite) ?_
        intro _ w₄ h₄
        have hfail : success = false := by simpa using hfail
        exact ⟨h₄.1, .inr (h₄.2.1.trans hevents₂), fun _ => h₄.2.2,
          fun hok => by simp [hfail] at hok⟩
      · have hsucc : success = true := by simpa using hsucc
        refine ⟨h₂.trans hwrite.toPhys.mgmt, .inr (hwrite.events.trans hevents₂),
          fun hf => by simp [hsucc] at hf, fun _ => ?_⟩
        refine ⟨?_, ?_, fun hcallback => ?_, fun hlocal => hbytes hlocal hsucc⟩
        · rw [hni₃, hni₂]
          exact hgood₁
        · rw [hni₃, hni₂]
          show w₁.ni.blockState = _
          rw [hni]
        · rw [hwrite.marks, herase.marks]
          show w₁.chip.flash.marks ba = false
          rw [hflash₁]
          exact hmark (by simpa using hok) hcallback
    · refine ⟨fun _ => ?_, fun h => absurd rfl h⟩
      refine wp_mono (hretire w₂ (Programs.refl _ w₂)) ?_
      intro _ w₄ h₄
      exact ⟨h₄.1, .inr (h₄.2.1.trans hevents₂), fun _ => h₄.2.2, by simp⟩

/-! ## Written tables -/

/-- The data is stored chunk by chunk in the listed blocks. -/
def StoredIn (nld : LowerDevice) (flash : Flash) : List UInt8 → List Nat → Prop
  | data, [] => data = []
  | data, b :: bs =>
      data ≠ [] ∧
      bytesFrom nld (flash.cells b) 0 (data.take nld.erasesize).length =
        data.take nld.erasesize ∧
      StoredIn nld flash (data.drop nld.erasesize) bs

/-- Only the listed blocks matter. -/
theorem StoredIn.congr {flash flash' : Flash} :
    ∀ {data : List UInt8} {bs : List Nat},
      StoredIn nld flash data bs →
      (∀ b ∈ bs, flash'.cells b = flash.cells b) →
      StoredIn nld flash' data bs := by
  intro data bs
  induction bs generalizing data with
  | nil =>
      intro h _
      exact h
  | cons b bs ih =>
      rintro ⟨hne, hbytes, hrest⟩ hsame
      refine ⟨hne, ?_, ih hrest (fun b' hb' => hsame b' (List.mem_cons_of_mem _ hb'))⟩
      rw [hsame b List.mem_cons_self]
      exact hbytes

/-- The data lies in increasing blocks of {lit}`[lo, hi)`, all of them good and
unmarked. -/
structure Placed (nld : LowerDevice) (w : World) (data : List UInt8) (lo hi : Nat)
    (bs : List Nat) : Prop where
  stored : nld.fates.PageLocal → StoredIn nld w.chip.flash data bs
  sorted : bs.Pairwise (· < ·)
  bounds : ∀ b ∈ bs, lo ≤ b ∧ b < hi
  good : ∀ b ∈ bs, nmbmGetBlockState w.ni b = blockStGood
  unmarked : nld.hasIsBadBlock = true → ∀ b ∈ bs, w.chip.flash.marks b = false
  nonempty : data ≠ [] → bs ≠ []

/-- Whether an event passes over a block behind the first chunk. -/
def isStartedSkip : Event → Bool
  | .tableSkip _ started => started
  | _ => false

/-- The number of blocks passed over behind the first chunk of a table. -/
def startedSkips (events : List Event) : Nat :=
  events.countP isStartedSkip

/-- A range that was written: where the data lies, and how the skipped blocks widen it. -/
structure WrittenRange (nld : LowerDevice) (w w' : World) (data : List UInt8) (ba limit : Nat)
    (start : Option Nat) (s e : Nat) (bs : List Nat) : Prop where
  placed : Placed nld w' data ba e bs
  le : ba ≤ e
  limit : e ≤ limit
  head : s = start.getD (bs.headD 0)
  extent : data ≠ [] ∨ start.isSome →
    (if start.isSome then ba else s) + bs.length + startedSkips w'.events =
      e + startedSkips w.events

/-- Nothing left to write. -/
theorem writtenRange_nil (nld : LowerDevice) (w : World) (ba n : Nat) (start : Option Nat) :
    WrittenRange nld w w [] ba (ba + n) start (start.getD 0) ba [] := by
  refine ⟨⟨fun _ => rfl, List.Pairwise.nil, by simp, by simp, by simp, by simp⟩, le_refl _,
    by omega, rfl, ?_⟩
  rintro (h | h)
  · exact absurd rfl h
  · rw [if_pos h]
    rfl

/-- Block {lit}`ba` takes the first chunk and the rest is written behind it. -/
theorem WrittenRange.cons {n s e : Nat} {data : List UInt8} {start : Option Nat} {bs : List Nat}
    (h : WrittenRange nld w' w'' (data.drop nld.erasesize) (ba + 1) (ba + 1 + n)
      (some (start.getD ba)) s e bs)
    (hdata : data ≠ [])
    (hrest : Mgmt (blocksFrom (ba + 1) n) w' w'')
    (hgood : nmbmGetBlockState w'.ni ba = blockStGood)
    (hmark : nld.hasIsBadBlock = true → w'.chip.flash.marks ba = false)
    (hbytes : nld.fates.PageLocal →
      bytesFrom nld (w'.chip.flash.cells ba) 0 (data.take nld.erasesize).length =
        data.take nld.erasesize)
    (hskips : startedSkips w'.events = startedSkips w.events) :
    WrittenRange nld w w'' data ba (ba + (n + 1)) start s e (ba :: bs) := by
  have hout : ba ∉ blocksFrom (ba + 1) n := by
    rw [mem_blocksFrom]
    omega
  have hs : s = start.getD ba := h.head
  have hle := h.le
  have hlimit := h.limit
  refine ⟨⟨fun hlocal => ⟨hdata, ?_, h.placed.stored hlocal⟩, ?_, ?_, ?_, ?_, by simp⟩, by omega,
    by omega, hs, fun _ => ?_⟩
  · rw [hrest.chip.flash.cells ba hout]
    exact hbytes hlocal
  · refine List.pairwise_cons.mpr ⟨fun b hb => ?_, h.placed.sorted⟩
    have := h.placed.bounds b hb
    omega
  · intro b hb
    rcases List.mem_cons.mp hb with rfl | hb
    · omega
    · have := h.placed.bounds b hb
      omega
  · intro b hb
    rcases List.mem_cons.mp hb with rfl | hb
    · rcases hrest.state b with hsame | ⟨hin, -, -⟩
      · rw [hsame, hgood]
      · exact absurd hin hout
    · exact h.placed.good b hb
  · intro hcallback b hb
    rcases List.mem_cons.mp hb with rfl | hb
    · rw [hrest.chip.flash.marks b hout]
      exact hmark hcallback
    · exact h.placed.unmarked hcallback b hb
  · have hext := h.extent (.inr rfl)
    simp only [Option.isSome_some, if_true, hskips] at hext
    rw [List.length_cons]
    cases start with
    | none =>
        have hs' : s = ba := hs
        simp only [Option.isSome_none, Bool.false_eq_true, if_false]
        omega
    | some s₀ =>
        simp only [Option.isSome_some, if_true]
        omega

/-- Block {lit}`ba` is passed over and all data is written behind it. -/
theorem WrittenRange.skip {n s e : Nat} {data : List UInt8} {start : Option Nat} {bs : List Nat}
    (h : WrittenRange nld w' w'' data (ba + 1) (ba + 1 + n) start s e bs)
    (hskips : startedSkips w'.events =
      startedSkips w.events + (if start.isSome then 1 else 0)) :
    WrittenRange nld w w'' data ba (ba + (n + 1)) start s e bs := by
  have hle := h.le
  have hlimit := h.limit
  refine ⟨⟨h.placed.stored, h.placed.sorted, fun b hb => ?_, h.placed.good, h.placed.unmarked,
    h.placed.nonempty⟩, by omega, by omega, h.head, fun hne => ?_⟩
  · have := h.placed.bounds b hb
    omega
  · have hext := h.extent hne
    rw [hskips] at hext
    cases start with
    | none =>
        simp only [Option.isSome_none, Bool.false_eq_true, if_false] at hext ⊢
        omega
    | some s₀ =>
        simp only [Option.isSome_some, if_true] at hext ⊢
        omega

/-- The specification of the loop of {lit}`nmbm_write_mgmt_range`. -/
theorem writeMgmtLoop_spec (nld : LowerDevice) (hws : 0 < nld.writesize) :
    ∀ (n ba : Nat) (data : List UInt8) (start : Option Nat) (w : World),
      wp (writeMgmtLoop n ba data start) nld (fun r w' =>
        Mgmt (blocksFrom ba n) w w' ∧
          ∀ s e, r = some (s, e) →
            ∃ bs, WrittenRange nld w w' data ba (ba + n) start s e bs) w := by
  have hdone : ∀ (n ba : Nat) (data : List UInt8) (start : Option Nat) (w : World),
      data.length = 0 → Mgmt (blocksFrom ba n) w w ∧
        ∀ s e, some (start.getD 0, ba) = some (s, e) →
          ∃ bs, WrittenRange nld w w data ba (ba + n) start s e bs := by
    intro n ba data start w hzero
    have hnil : data = [] := List.length_eq_zero_iff.mp hzero
    subst hnil
    refine ⟨Mgmt.refl _ w, ?_⟩
    rintro s e ⟨⟩
    exact ⟨[], writtenRange_nil nld w ba n start⟩
  intro n
  induction n with
  | zero =>
      intro ba data start w
      simp only [writeMgmtLoop, wp_ite, wp_pure]
      exact ⟨hdone 0 ba data start w, fun _ => ⟨Mgmt.refl _ w, by simp⟩⟩
  | succ n ih =>
      intro ba data start w
      simp only [writeMgmtLoop, wp_bind, wp_ask, wp_ite, wp_pure, wp_logEvent]
      refine ⟨hdone (n + 1) ba data start w, fun hmore => ?_⟩
      have hdata : data ≠ [] := fun h => hmore (by simp [h])
      have hmem := Set.singleton_subset_iff.mpr (self_mem_blocksFrom ba n)
      refine wp_mono (writeMgmtBlock_spec nld hws ba _ w) ?_
      rintro ok w₁ ⟨h₁, hevents, -, hok⟩
      have hskips₁ : startedSkips w₁.events = startedSkips w.events := by
        rcases hevents with he | he
        · rw [he]
        · rw [he]
          rfl
      refine ⟨fun hstored => ?_, fun _ => ?_⟩
      · obtain ⟨hgood, -, hmark, hbytes⟩ := hok hstored
        refine wp_mono (ih (ba + 1) (data.drop nld.erasesize) _ w₁) ?_
        rintro r w₂ ⟨h₂, hr⟩
        refine ⟨(h₁.mono hmem).trans (h₂.mono (blocksFrom_succ_subset ba n)), ?_⟩
        intro s e hse
        obtain ⟨bs, hbs⟩ := hr s e hse
        exact ⟨ba :: bs, hbs.cons hdata h₂ hgood hmark hbytes hskips₁⟩
      · have hlog : Mgmt {ba} w₁ _ :=
          mgmt_event ⟨ba, Set.mem_singleton ba, .inr ⟨start.isSome, rfl⟩⟩
        refine wp_mono (ih (ba + 1) data start _) ?_
        rintro r w₂ ⟨h₂, hr⟩
        refine ⟨((h₁.trans hlog).mono hmem).trans (h₂.mono (blocksFrom_succ_subset ba n)), ?_⟩
        intro s e hse
        obtain ⟨bs, hbs⟩ := hr s e hse
        refine ⟨bs, hbs.skip ?_⟩
        rw [← hskips₁]
        cases start <;> simp [startedSkips, isStartedSkip, List.countP_cons]

/-- The specification of {lit}`nmbm_write_info_table`. -/
theorem nmbmWriteInfoTable_spec (nld : LowerDevice) (hws : 0 < nld.writesize) (ba limit : Nat)
    (w : World) :
    wp (nmbmWriteInfoTable ba limit) nld (fun r w' =>
      Mgmt (blocksFrom ba (limit - ba)) w w' ∧
        ∀ s e, r = some (s, e) →
          ∃ bs, WrittenRange nld w w' w.ni.infoTableCache ba (ba + (limit - ba)) none s e bs) w :=
  writeMgmtLoop_spec nld hws (limit - ba) ba w.ni.infoTableCache none w

end Nmbm
end ZyxelRouter
