import ZyxelRouter.Nmbm.Upkeep

/-!
# NMBM: rebuilding, rescuing and updating the info tables

Every routine that moves the tables works inside the management area below the top of the
spare pool.  When it succeeds the cache is stored at the recorded places; when it fails no
table could be written and the instance is protected.

Main results:

- Theorem {lit}`nmbmRebuildInfoTable_spec`: building both tables from scratch.
- Theorem {lit}`nmbmRescueMainInfoTable_spec`: replacing a main table that cannot be written.
- Theorem {lit}`nmbmUpdateInfoTableOnce_spec`: one round of an update.
- Theorem {lit}`nmbmUpdateInfoTable_spec`: a whole update, which ends with no change left.
- Theorem {lit}`nmbmUpdateInfoTable_kept`: it saves the tables in memory, or the instance
  becomes protected.
-/

namespace ZyxelRouter
namespace Nmbm

open Lib Lib.Prog

variable {w₀ w w' w'' : World} {nld : LowerDevice}

/-! ## Walks -/

theorem walkAsc_bounds {ni : NmbmInstance} :
    ∀ {n ba : Nat} {nblock : Int} {r : Nat},
      walkAsc ni n ba nblock = some r → ba ≤ r ∧ r < ba + n := by
  intro n
  induction n with
  | zero =>
      intro ba nblock r h
      simp [walkAsc] at h
  | succ n ih =>
      intro ba nblock r h
      simp only [walkAsc] at h
      split_ifs at h with hgood hneg hneg
      · cases h
        omega
      · have := ih h
        omega
      · cases h
        omega
      · have := ih h
        omega

/-- Reserved blocks lie behind the start of the walk. -/
theorem nmbmTryReserveBlocks_le {ni : NmbmInstance} {ba minCount limit : Nat} :
    ∀ {count nba : Nat},
      nmbmTryReserveBlocks nld ni ba minCount limit count = some nba → ba ≤ nba := by
  intro count
  induction count with
  | zero =>
      intro nba h
      simp only [nmbmTryReserveBlocks, nmbmBlockWalk, if_true, nmbmBlockWalkAsc] at h
      split_ifs at h <;> exact (walkAsc_bounds h).1
  | succ n ih =>
      intro nba h
      simp only [nmbmTryReserveBlocks] at h
      split_ifs at h
      cases hwalk : nmbmBlockWalk nld ni true ba (n + 1) limit with
      | none =>
          rw [hwalk] at h
          exact ih h
      | some r =>
          rw [hwalk] at h
          cases h
          exact (walkAsc_bounds hwalk).1

/-! ## Writing a table inside the area -/

/-- The blocks in front of {lit}`hi` from {lit}`lo` on. -/
theorem blocksFrom_subset {ba limit lo hi : Nat} (hlo : lo ≤ ba) (hhi : limit ≤ hi) :
    blocksFrom ba (limit - ba) ⊆ blocksFrom lo (hi - lo) := by
  intro b hb
  rw [mem_blocksFrom] at hb ⊢
  omega

theorem blocksFrom_subset_area {ni : NmbmInstance} {ba limit : Nat}
    (hlo : ni.mgmtStartBa ≤ ba) (hhi : limit ≤ ni.mappingBlocksTopBa) :
    blocksFrom ba (limit - ba) ⊆ ni.area := by
  intro b hb
  rw [mem_blocksFrom] at hb
  exact ⟨by omega, by omega⟩

/-- A table of {lit}`data` was written into {lit}`[lo, hi)`. -/
structure Written (nld : LowerDevice) (w : World) (data : List UInt8) (lo hi s e : Nat) :
    Prop where
  table : TableAt nld w data s e
  lo_le : lo ≤ s
  lt : s < e
  le_hi : e ≤ hi

/-- {lit}`nmbm_write_info_table` inside the area. -/
theorem nmbmWriteInfoTable_rewrite (hws : 0 < nld.writesize) {ba limit : Nat}
    (hcache : w.ni.infoTableCache ≠ []) :
    wp (nmbmWriteInfoTable ba limit) nld (fun r w' =>
      Mgmt (blocksFrom ba (limit - ba)) w w' ∧
        ∀ s e, r = some (s, e) → Written nld w' w'.ni.infoTableCache ba limit s e) w := by
  refine wp_mono (nmbmWriteInfoTable_spec nld hws ba limit w) ?_
  rintro r w' ⟨hm, hr⟩
  refine ⟨hm, fun s e hse => ?_⟩
  obtain ⟨bs, hbs⟩ := hr s e hse
  obtain ⟨htable, hlo, hlt⟩ := hbs.tableAt hcache
  obtain ⟨pc, st, n, hni⟩ := hm.ni
  have hsame : w'.ni.infoTableCache = w.ni.infoTableCache := by rw [hni]
  have hlimit := hbs.limit
  rw [hsame]
  exact ⟨htable, hlo, hlt, by omega⟩

/-- The loops that go down to {lit}`lo` for a place for the table. -/
theorem writeDescending_spec (hws : 0 < nld.writesize) (lo : Nat) :
    ∀ (n writeBa : Nat) (w : World),
      lo + n ≤ writeBa + 1 →
      w.ni.infoTableCache ≠ [] →
      wp (writeDescending n writeBa) nld (fun r w' =>
        Mgmt (blocksFrom lo (w.ni.mappingBlocksTopBa - lo)) w w' ∧
          ∀ s e, r = some (s, e) →
            Written nld w' w'.ni.infoTableCache lo w.ni.mappingBlocksTopBa s e) w := by
  intro n
  induction n with
  | zero =>
      intro writeBa w _ _
      exact ⟨Mgmt.refl _ w, by simp [writeDescending, pure]⟩
  | succ n ih =>
      intro writeBa w hlo hcache
      simp only [writeDescending, wp_bind, wp_get]
      refine wp_mono (nmbmWriteInfoTable_rewrite hws hcache) ?_
      rintro r w₁ ⟨hm, hr⟩
      have hm₁ := hm.mono (blocksFrom_subset (by omega : lo ≤ writeBa) (le_refl _))
      cases r with
      | some range =>
          refine ⟨hm₁, fun s e hse => ?_⟩
          have hw := hr s e hse
          have hge := hw.lo_le
          exact ⟨hw.table, by omega, hw.lt, hw.le_hi⟩
      | none =>
          obtain ⟨pc, st, k, hni⟩ := hm.ni
          have htop : w₁.ni.mappingBlocksTopBa = w.ni.mappingBlocksTopBa := by rw [hni]
          have hcache₁ : w₁.ni.infoTableCache ≠ [] := by
            rw [hni]
            exact hcache
          refine wp_mono (ih (writeBa - 1) w₁ (by omega) hcache₁) ?_
          rintro r₂ w₂ ⟨hm₂, hr₂⟩
          rw [htop] at hm₂ hr₂
          exact ⟨hm₁.trans hm₂, hr₂⟩

/-! ## Outcomes -/

/-- Since {lit}`w₀` the mapping was saved, and a change of states left over is a block
retired since then. -/
def Settled (w₀ w : World) : Prop :=
  w.ni.blockMappingChanged = 0 ∧
    (w.ni.blockStateChanged = 0 ∨ ∃ b, nmbmGetBlockState w₀.ni b = blockStGood ∧
      nmbmGetBlockState w.ni b = blockStBad)

/-- The outcome of a table routine: the tables are stored, or none could be. -/
structure Outcome (nld : LowerDevice) (w₀ : World) (ok : Bool) (w : World) : Prop where
  rewrite : Rewrite nld w₀ w
  pool : Pool nld w.ni
  saved : ok = true → Saved nld w
  settled : ok = true → Settled w₀ w
  failed : ok = false → w.ni.isProtected = true

/-- Retired blocks are what is left to be saved. -/
theorem Settled.mgmt {S : Set Nat} (h : Settled w₀ w) (hu : Upkeep nld w₀ w) (hm : Mgmt S w w') :
    Settled w₀ w' := by
  obtain ⟨pc, st, n, hni⟩ := hm.ni
  have hmapping : w'.ni.blockMappingChanged = 0 := by
    rw [hni]
    exact h.1
  refine ⟨hmapping, ?_⟩
  have hle := hm.changed
  by_cases hmore : w.ni.blockStateChanged < w'.ni.blockStateChanged
  · obtain ⟨b, hgood, hbad⟩ := hm.retired hmore
    exact .inr ⟨b, hu.good hgood, hbad⟩
  · rcases h.2 with hzero | ⟨b, hgood, hbad⟩
    · exact .inl (by omega)
    · rcases hm.state b with heq | ⟨-, hgood', -⟩
      · exact .inr ⟨b, hgood, heq.trans hbad⟩
      · rw [hbad] at hgood'
        exact absurd hgood' (by decide)

/-! ## Bookkeeping steps -/

/-- The places of the tables and the end of the spare pool are put on record. -/
structure Records (w w' : World) (main backup mb : Nat) : Prop where
  ni : w'.ni =
    { w.ni with mainTableBa := main, backupTableBa := backup, mappingBlocksBa := mb }
  events : w'.events = w.events
  chip : w'.chip = w.chip

/-- A step that changes the places of the tables only. -/
theorem wp_records {f : NmbmInstance → NmbmInstance} {Q : Unit → World → Prop}
    {main backup mb : Nat}
    (hf : f w.ni =
      { w.ni with mainTableBa := main, backupTableBa := backup, mappingBlocksBa := mb })
    (h : ∀ w', Records w w' main backup mb → Q () w') :
    wp (modifyNi f) nld Q w :=
  h _ ⟨hf, rfl, rfl⟩

section Records

variable {main backup mb : Nat}

theorem Records.main_eq (h : Records w w' main backup mb) : w'.ni.mainTableBa = main := by
  rw [h.ni]

theorem Records.backup_eq (h : Records w w' main backup mb) : w'.ni.backupTableBa = backup := by
  rw [h.ni]

theorem Records.mb_eq (h : Records w w' main backup mb) : w'.ni.mappingBlocksBa = mb := by
  rw [h.ni]

theorem Records.rewrite (h : Records w w' main backup mb) : Rewrite nld w w' := by
  have hchip : Chip.Touches w.ni.area w.chip w'.chip := by
    rw [h.chip]
    exact Chip.Touches.refl _ _
  refine ⟨⟨by rw [h.ni], by rw [h.ni], by rw [h.ni], by rw [h.ni], by rw [h.ni], by rw [h.ni],
    fun b => .inl (by rw [h.ni]; rfl), by rw [h.ni]; exact id, fun hs => ?_, fun _ _ _ hsync => ?_,
    .inl (by rw [h.ni]), fun hev => .inl (h.events ▸ hev), ⟨[], h.events, by simp⟩, hchip⟩,
    by rw [h.ni], by rw [h.ni]⟩
  · exact hs.congr (by rw [h.ni]) (by rw [h.ni]) (by rw [h.ni])
  · rw [h.ni]
    exact hsync

theorem Records.tableAt {data : List UInt8} {s hi : Nat} (h : Records w w' main backup mb)
    (ht : TableAt nld w data s hi) : TableAt nld w' data s hi :=
  ht.congr (by rw [h.chip]) (by rw [h.ni])

theorem Records.settled (h : Records w w' main backup mb) (hs : Settled w₀ w) :
    Settled w₀ w' := by
  rw [Settled, h.ni]
  exact hs

end Records

/-- The tables are marked clean. -/
structure Cleans (nld : LowerDevice) (w w' : World) : Prop where
  ni : w'.ni = { w.ni with blockStateChanged := 0, blockMappingChanged := 0 }
  events : w'.events = .clean (cacheInSync nld w.ni) :: w.events
  chip : w'.chip = w.chip

theorem wp_cleans {Q : Unit → World → Prop} (h : ∀ w', Cleans nld w w' → Q () w') :
    wp nmbmMarkTablesClean nld Q w :=
  h _ ⟨rfl, rfl, rfl⟩

theorem Cleans.rewrite (h : Cleans nld w w') : Rewrite nld w w' := by
  have hchip : Chip.Touches w.ni.area w.chip w'.chip := by
    rw [h.chip]
    exact Chip.Touches.refl _ _
  have hmem : ∀ e ∈ [Event.clean (cacheInSync nld w.ni)], TableEvent w.ni e := by
    intro e he
    rw [List.mem_singleton.mp he]
    trivial
  refine ⟨⟨by rw [h.ni], by rw [h.ni], by rw [h.ni], by rw [h.ni], by rw [h.ni], by rw [h.ni],
    fun b => .inl (by rw [h.ni]; rfl), by rw [h.ni]; exact id, fun hs => ?_,
    fun _ _ hclean _ _ _ => ?_, .inl (by rw [h.ni]), fun hev => .inl ?_, ⟨_, h.events, hmem⟩,
    hchip⟩, by rw [h.ni], by rw [h.ni]⟩
  · exact hs.congr (by rw [h.ni]) (by rw [h.ni]) (by rw [h.ni])
  · rw [h.ni]
    exact hclean _ (by rw [h.events]; exact List.mem_cons_self)
  · rw [h.events] at hev
    rcases List.mem_cons.mp hev with heq | hold
    · cases heq
    · exact hold

theorem Cleans.settled (h : Cleans nld w w') : Settled w₀ w' := by
  rw [Settled, h.ni]
  exact ⟨rfl, .inl rfl⟩

theorem Cleans.tableAt {data : List UInt8} {s hi : Nat} (h : Cleans nld w w')
    (ht : TableAt nld w data s hi) : TableAt nld w' data s hi :=
  ht.congr (by rw [h.chip]) (by rw [h.ni])

/-- A decision is put on record. -/
structure Logs (w w' : World) (e : Event) : Prop where
  ni : w'.ni = w.ni
  events : w'.events = e :: w.events
  chip : w'.chip = w.chip

theorem wp_logs {f : NmbmInstance → Chip → Event} {Q : Unit → World → Prop}
    (h : ∀ w', Logs w w' (f w.ni w.chip) → Q () w') :
    wp (logEvent f) nld Q w :=
  h _ ⟨rfl, rfl, rfl⟩

theorem Logs.rewrite {e : Event} (h : Logs w w' e) (he : TableEvent w.ni e)
    (hne : e ≠ .rebuildFailed) : Rewrite nld w w' := by
  have hchip : Chip.Touches w.ni.area w.chip w'.chip := by
    rw [h.chip]
    exact Chip.Touches.refl _ _
  have hmem : ∀ e' ∈ [e], TableEvent w.ni e' := by
    intro e' he'
    rw [List.mem_singleton.mp he']
    exact he
  refine ⟨⟨by rw [h.ni], by rw [h.ni], by rw [h.ni], by rw [h.ni], by rw [h.ni], by rw [h.ni],
    fun b => .inl (by rw [h.ni]), by rw [h.ni]; exact id, by rw [h.ni]; exact id,
    fun _ _ _ hsync => by rw [h.ni]; exact hsync, .inl (by rw [h.ni]), fun hev => .inl ?_,
    ⟨_, h.events, hmem⟩, hchip⟩, by rw [h.ni], by rw [h.ni]⟩
  rw [h.events] at hev
  rcases List.mem_cons.mp hev with heq | hold
  · exact absurd heq.symm hne
  · exact hold

/-! ## Good outcomes -/

/-- One table is stored. -/
theorem outcome_single {s e : Nat} (h : Rewrite nld w₀ w) (hb : Bounds nld w.ni)
    (hmain : w.ni.mainTableBa = s)
    (hbackup : w.ni.backupTableBa = 0)
    (hmb : w.ni.mappingBlocksBa = e)
    (htable : TableAt nld w w.ni.infoTableCache s e)
    (hlo : w.ni.mgmtStartBa ≤ s)
    (hhi : e ≤ w.ni.mappingBlocksTopBa)
    (hsettled : Settled w₀ w) :
    Outcome nld w₀ true w := by
  have hlt := htable.lt
  refine ⟨h, ⟨hb, by omega, by omega, .inr (by omega), by omega, .inl hbackup, by omega⟩,
    fun _ => ⟨by omega, ?_, fun hne => absurd hbackup hne⟩, fun _ => hsettled, by simp⟩
  rw [hbackup, if_pos rfl, hmain, hmb]
  exact htable

/-- Two tables are stored, the main table in front of the backup table. -/
theorem outcome_double {s t b e : Nat} (h : Rewrite nld w₀ w) (hb : Bounds nld w.ni)
    (hmain : w.ni.mainTableBa = s)
    (hbackup : w.ni.backupTableBa = b)
    (hmb : w.ni.mappingBlocksBa = e)
    (htable : TableAt nld w w.ni.infoTableCache s t)
    (hle : t ≤ b)
    (htable' : TableAt nld w w.ni.infoTableCache b e)
    (hlo : w.ni.mgmtStartBa ≤ s)
    (hhi : e ≤ w.ni.mappingBlocksTopBa)
    (hsettled : Settled w₀ w) :
    Outcome nld w₀ true w := by
  have hlt := htable.lt
  have hlt' := htable'.lt
  refine ⟨h, ⟨hb, by omega, by omega, .inr (by omega), by omega,
    .inr ⟨by omega, by omega⟩, by omega⟩, fun _ => ⟨by omega, ?_, fun _ => ?_⟩,
    fun _ => hsettled, by simp⟩
  · rw [if_neg (by omega), hmain, hbackup]
    exact htable.mono hle
  · rw [hbackup, hmb]
    exact htable'

/-! ## Rebuilding -/

/-- The state of an instance for which no table could be written. -/
def World.lost (w : World) : World :=
  { w with
    ni := { w.ni with isProtected := true }
    events := .rebuildFailed :: w.events }

theorem rewrite_lost (nld : LowerDevice) (w : World) : Rewrite nld w w.lost := by
  have hmem : ∀ e ∈ [Event.rebuildFailed], TableEvent w.ni e := by
    intro e he
    rw [List.mem_singleton.mp he]
    trivial
  exact ⟨⟨rfl, rfl, rfl, rfl, rfl, rfl, fun _ => .inl rfl, id, fun hs => hs.congr rfl rfl rfl,
    fun _ _ _ hsync => hsync, .inr ⟨rfl, List.mem_cons_self⟩, fun _ => .inr rfl,
    ⟨_, rfl, hmem⟩, Chip.Touches.refl _ _⟩, rfl, rfl⟩

/-- The backup table is added behind a main table that is in place. -/
theorem rebuildBackup_spec (hws : 0 < nld.writesize) {s e nextStart : Nat}
    (h : Rewrite nld w₀ w)
    (hb : Bounds nld w.ni)
    (hmain : w.ni.mainTableBa = s)
    (hbackup : w.ni.backupTableBa = 0)
    (hmb : w.ni.mappingBlocksBa = e)
    (htable : TableAt nld w w.ni.infoTableCache s e)
    (hlo : w.ni.mgmtStartBa ≤ s)
    (hhi : e ≤ w.ni.mappingBlocksTopBa)
    (hsettled : Settled w₀ w)
    (hnext : e ≤ nextStart) :
    wp (rebuildBackup e nextStart) nld (Outcome nld w₀) w := by
  have hlt := htable.lt
  simp only [rebuildBackup, wp_bind, wp_get]
  refine wp_mono (nmbmWriteInfoTable_rewrite hws hb.cached) ?_
  rintro r w₁ ⟨hm₁, hr₁⟩
  have h₁ : Rewrite nld w w₁ := hm₁.rewrite (blocksFrom_subset_area (by omega) (le_refl _))
  have hb₁ := h₁.bounds hb
  have hset₁ := hsettled.mgmt h.toUpkeep hm₁
  have hmgmt₁ := h₁.mgmt
  have htop₁ := h₁.top
  have htable₁ : TableAt nld w₁ w₁.ni.infoTableCache s e := by
    rw [h₁.cache]
    refine htable.keep hm₁ (fun b _ hb => ?_)
    rw [mem_blocksFrom]
    omega
  obtain ⟨pc₁, st₁, n₁, hni₁⟩ := hm₁.ni
  have hmain₁ : w₁.ni.mainTableBa = s := by rw [hni₁, hmain]
  have hbackup₁ : w₁.ni.backupTableBa = 0 := by rw [hni₁, hbackup]
  have hmb₁ : w₁.ni.mappingBlocksBa = e := by rw [hni₁, hmb]
  cases r with
  | none =>
      simp only [wp_pure]
      exact outcome_single (h.trans h₁) hb₁ hmain₁ hbackup₁ hmb₁ htable₁ (by omega) (by omega)
        hset₁
  | some range =>
      obtain ⟨backupStart, backupEnd⟩ := range
      have hback := hr₁ backupStart backupEnd rfl
      have hback_lo := hback.lo_le
      have hback_hi := hback.le_hi
      have hback_lt := hback.lt
      simp only [wp_bind, wp_pure]
      refine wp_records rfl (fun w₂ hrec => ?_)
      have h₂ : Rewrite nld w w₂ := h₁.trans hrec.rewrite
      have hmgmt₂ := h₂.mgmt
      have htop₂ := h₂.top
      refine wp_mono (nmbmEraseRange_spec nld (backupStart - e) e w₂) ?_
      intro _ w₃ hm₃
      have h₃ := h₂.trans (hm₃.rewrite (blocksFrom_subset_area (by omega) (by omega)))
      have hset₃ := (hrec.settled hset₁).mgmt (h.trans h₂).toUpkeep hm₃
      have hmgmt₃ := h₃.mgmt
      have htop₃ := h₃.top
      have hcache₃ : w₃.ni.infoTableCache = w₁.ni.infoTableCache := h₃.cache.trans h₁.cache.symm
      obtain ⟨pc₃, st₃, n₃, hni₃⟩ := hm₃.ni
      have hmain₃ : w₃.ni.mainTableBa = s := by rw [hni₃, hrec.ni, hmain₁]
      have hbackup₃ : w₃.ni.backupTableBa = backupStart := by rw [hni₃, hrec.ni]
      have hmb₃ : w₃.ni.mappingBlocksBa = backupEnd := by rw [hni₃, hrec.ni]
      refine outcome_double (h.trans h₃) (h₃.bounds hb) hmain₃ hbackup₃ hmb₃ ?_
        (by omega : e ≤ backupStart) ?_ (by omega) (by omega) hset₃
      · rw [hcache₃]
        refine (hrec.tableAt htable₁).keep hm₃ (fun b _ hb => ?_)
        rw [mem_blocksFrom]
        omega
      · rw [hcache₃]
        refine (hrec.tableAt hback.table).keep hm₃ (fun b hb _ => ?_)
        rw [mem_blocksFrom]
        omega

/-- The specification of {lit}`nmbm_rebuild_info_table`. -/
theorem nmbmRebuildInfoTable_spec (hws : 0 < nld.writesize)
    (h : Rewrite nld w₀ w)
    (hb : Bounds nld w.ni) :
    wp nmbmRebuildInfoTable nld (Outcome nld w₀) w := by
  have htop := hb.mgmt_le_top
  simp only [nmbmRebuildInfoTable, wp_bind, wp_ask, wp_get]
  refine wp_records rfl (fun w₁ hrec₁ => ?_)
  have h₁ : Rewrite nld w w₁ := hrec₁.rewrite
  have hb₁ := h₁.bounds hb
  refine wp_mono (nmbmWriteInfoTable_rewrite hws hb₁.cached) ?_
  rintro r w₂ ⟨hm₂, hr₂⟩
  have h₂ := h₁.trans (hm₂.rewrite (blocksFrom_subset_area (le_refl _) (le_refl _)))
  have hb₂ := h₂.bounds hb
  have hmgmt₁ := h₁.mgmt
  have htop₁ := h₁.top
  have hmgmt₂ := h₂.mgmt
  have htop₂ := h₂.top
  obtain ⟨pc₂, st₂, n₂, hni₂⟩ := hm₂.ni
  have hmain₂ : w₂.ni.mainTableBa = 0 := by rw [hni₂, hrec₁.ni]
  have hbackup₂ : w₂.ni.backupTableBa = 0 := by rw [hni₂, hrec₁.ni]
  have hmb₂ : w₂.ni.mappingBlocksBa = w.ni.mappingBlocksTopBa := by rw [hni₂, hrec₁.ni]
  cases r with
  | none =>
      have hpool₂ : Pool nld w₂.ni :=
        ⟨hb₂, by omega, by omega, .inl hmain₂, by omega, .inl hbackup₂, by omega⟩
      refine ⟨(h.trans h₂).trans (rewrite_lost nld w₂), ?_, by simp, by simp, fun _ => rfl⟩
      exact ⟨⟨hb₂.mgmt_le_top, hb₂.top_lt, hb₂.signature_lt, hb₂.cached⟩, hpool₂.mgmt_le,
        hpool₂.le_top, hpool₂.main, hpool₂.main_le, hpool₂.backup, hpool₂.backup_le⟩
  | some range =>
      obtain ⟨mainStart, mainEnd⟩ := range
      have hmain := hr₂ mainStart mainEnd rfl
      have hlo := hmain.lo_le
      have hhi := hmain.le_hi
      simp only [wp_bind, wp_get]
      refine wp_records rfl (fun w₃ hrec₃ => wp_cleans (fun w₄ hclean => ?_))
      have h₄ := (h₂.trans hrec₃.rewrite).trans hclean.rewrite
      have hmgmt₄ := h₄.mgmt
      have htop₄ := h₄.top
      have htable₄ : TableAt nld w₄ w₄.ni.infoTableCache mainStart mainEnd := by
        rw [h₄.cache, ← h₂.cache]
        exact hclean.tableAt (hrec₃.tableAt hmain.table)
      have hmain₄ : w₄.ni.mainTableBa = mainStart := by rw [hclean.ni, hrec₃.ni]
      have hbackup₄ : w₄.ni.backupTableBa = 0 := by rw [hclean.ni, hrec₃.ni, hbackup₂]
      have hmb₄ : w₄.ni.mappingBlocksBa = mainEnd := by rw [hclean.ni, hrec₃.ni]
      split
      · rw [wp_pure]
        exact outcome_single (h.trans h₄) (h₄.bounds hb) hmain₄ hbackup₄ hmb₄ htable₄ (by omega)
          (by omega) hclean.settled
      · rename_i nextStart hreserve
        exact rebuildBackup_spec hws (h.trans h₄) (h₄.bounds hb) hmain₄ hbackup₄ hmb₄ htable₄
          (by omega) (by omega) hclean.settled (nmbmTryReserveBlocks_le hreserve)

/-! ## Rescuing the main table -/

/-- The backup table takes the place of the main table. -/
theorem outcome_promoted (h : Rewrite nld w₀ w) (hp : Pool nld w.ni)
    (hback : w.ni.backupTableBa ≠ 0)
    (htable : TableAt nld w w.ni.infoTableCache w.ni.backupTableBa w.ni.mappingBlocksBa)
    (hsettled : Settled w₀ w)
    (hrec : Records w w' w.ni.backupTableBa 0 w.ni.mappingBlocksBa) :
    Outcome nld w₀ true w' := by
  have h₁ : Rewrite nld w w' := hrec.rewrite
  have hlo := hp.backup.resolve_left hback
  have hhi := hp.le_top
  have hmgmt := h₁.mgmt
  have htop := h₁.top
  refine outcome_single (h.trans h₁) (h₁.bounds hp.toBounds) hrec.main_eq hrec.backup_eq
    hrec.mb_eq ?_ (by omega) (by omega) (hrec.settled hsettled)
  rw [h₁.cache]
  exact hrec.tableAt htable

section Rescued

variable {w₁ w₂ w₃ : World} {s t b e : Nat}

/-- The temporary table takes the place of the main table. -/
theorem outcome_temporary (h : Rewrite nld w₀ w) (hb : Bounds nld w.ni)
    (hmb : w.ni.mappingBlocksBa = e)
    (htable : TableAt nld w w.ni.infoTableCache s e)
    (hlo : w.ni.mgmtStartBa ≤ s)
    (hhi : e ≤ w.ni.mappingBlocksTopBa)
    (hrec : Records w w₁ s 0 w.ni.mappingBlocksBa)
    (hclean : Cleans nld w₁ w₂) :
    Outcome nld w₀ true w₂ := by
  have h₂ : Rewrite nld w w₂ := hrec.rewrite.trans hclean.rewrite
  have hmgmt := h₂.mgmt
  have htop := h₂.top
  have hmain₂ : w₂.ni.mainTableBa = s := by rw [hclean.ni, hrec.ni]
  have hbackup₂ : w₂.ni.backupTableBa = 0 := by rw [hclean.ni, hrec.ni]
  have hmb₂ : w₂.ni.mappingBlocksBa = e := by rw [hclean.ni, hrec.ni, hmb]
  refine outcome_single (h.trans h₂) (h₂.bounds hb) hmain₂ hbackup₂ hmb₂ ?_ (by omega) (by omega)
    hclean.settled
  rw [h₂.cache]
  exact hclean.tableAt (hrec.tableAt htable)

/-- The temporary table is the backup table of a new main table in front of it. -/
theorem outcome_rescued {backup : Nat} (h : Rewrite nld w₀ w) (hb : Bounds nld w.ni)
    (hmb : w.ni.mappingBlocksBa = e)
    (htable : TableAt nld w w.ni.infoTableCache s t)
    (hle : t ≤ b)
    (htable' : TableAt nld w w.ni.infoTableCache b e)
    (hlo : w.ni.mgmtStartBa ≤ s)
    (hhi : e ≤ w.ni.mappingBlocksTopBa)
    (hrec : Records w w₁ s backup w.ni.mappingBlocksBa)
    (hclean : Cleans nld w₁ w₂)
    (hrec' : Records w₂ w₃ w₂.ni.mainTableBa b w₂.ni.mappingBlocksBa) :
    Outcome nld w₀ true w₃ := by
  have h₃ : Rewrite nld w w₃ := (hrec.rewrite.trans hclean.rewrite).trans hrec'.rewrite
  have hmgmt := h₃.mgmt
  have htop := h₃.top
  have hmain₃ : w₃.ni.mainTableBa = s := by rw [hrec'.ni, hclean.ni, hrec.ni]
  have hmb₃ : w₃.ni.mappingBlocksBa = e := by rw [hrec'.ni, hclean.ni, hrec.ni, hmb]
  refine outcome_double (h.trans h₃) (h₃.bounds hb) hmain₃ hrec'.backup_eq hmb₃ ?_ hle ?_
    (by omega) (by omega) (hrec'.settled hclean.settled)
  · rw [h₃.cache]
    exact hrec'.tableAt (hclean.tableAt (hrec.tableAt htable))
  · rw [h₃.cache]
    exact hrec'.tableAt (hclean.tableAt (hrec.tableAt htable'))

end Rescued

/-- The specification of {lit}`nmbm_rescue_main_info_table`.  The new main table ends in front
of the temporary table, so its last part is never reached. -/
theorem nmbmRescueMainInfoTable_spec (hws : 0 < nld.writesize)
    (h : Rewrite nld w₀ w)
    (hp : Pool nld w.ni)
    (hback : w.ni.backupTableBa ≠ 0)
    (htable : TableAt nld w w.ni.infoTableCache w.ni.backupTableBa w.ni.mappingBlocksBa)
    (hsettled : Settled w₀ w) :
    wp nmbmRescueMainInfoTable nld (Outcome nld w₀) w := by
  have hlo := hp.backup.resolve_left hback
  have hmgmt := hp.mgmt_le
  have hhi := hp.le_top
  simp only [nmbmRescueMainInfoTable, wp_bind, wp_ask, wp_get]
  split
  · simp only [wp_bind, wp_pure]
    exact wp_records rfl (fun w₁ hrec => outcome_promoted h hp hback htable hsettled hrec)
  · rename_i writeBa hreserve
    have hle : w.ni.mappingBlocksBa ≤ writeBa := nmbmTryReserveBlocks_le hreserve
    simp only [wp_bind]
    refine wp_mono (writeDescending_spec hws w.ni.mappingBlocksBa _ writeBa w (by omega)
      hp.cached) ?_
    rintro r w₁ ⟨hm₁, hr₁⟩
    have h₁ : Rewrite nld w w₁ := hm₁.rewrite (blocksFrom_subset_area hmgmt (le_refl _))
    have hp₁ := hm₁.pool hp
    have hset₁ := hsettled.mgmt h.toUpkeep hm₁
    have hmgmt₁ := h₁.mgmt
    have htop₁ := h₁.top
    obtain ⟨pc₁, st₁, n₁, hni₁⟩ := hm₁.ni
    have hbackup₁ : w₁.ni.backupTableBa = w.ni.backupTableBa := by rw [hni₁]
    have hmb₁ : w₁.ni.mappingBlocksBa = w.ni.mappingBlocksBa := by rw [hni₁]
    cases r with
    | none =>
        have htable₁ : TableAt nld w₁ w₁.ni.infoTableCache w₁.ni.backupTableBa
            w₁.ni.mappingBlocksBa := by
          rw [h₁.cache, hbackup₁, hmb₁]
          refine htable.keep hm₁ (fun b _ hb => ?_)
          rw [mem_blocksFrom]
          omega
        simp only [wp_bind, wp_pure]
        exact wp_records rfl (fun w₂ hrec =>
          outcome_promoted (h.trans h₁) hp₁ (hbackup₁ ▸ hback) htable₁ hset₁ hrec)
    | some range =>
        obtain ⟨tmpStart, tmpEnd⟩ := range
        have htmp := hr₁ tmpStart tmpEnd rfl
        have htmp_lo := htmp.lo_le
        have htmp_lt := htmp.lt
        have htmp_hi := htmp.le_hi
        simp only [wp_bind, wp_get]
        refine wp_records rfl (fun w₂ hrec₂ => ?_)
        have h₂ := h₁.trans hrec₂.rewrite
        have hb₂ := h₂.bounds hp.toBounds
        have hmgmt₂ := h₂.mgmt
        have htop₂ := h₂.top
        refine wp_mono (nmbmWriteInfoTable_rewrite hws hb₂.cached) ?_
        rintro r₃ w₃ ⟨hm₃, hr₃⟩
        have h₃ := h₂.trans (hm₃.rewrite (blocksFrom_subset_area (le_refl _) (by omega)))
        have hset₃ := (hrec₂.settled hset₁).mgmt (h.trans h₂).toUpkeep hm₃
        have hmgmt₃ := h₃.mgmt
        have htop₃ := h₃.top
        -- The temporary table lies behind everything written now.
        have htable₃ : TableAt nld w₃ w₃.ni.infoTableCache tmpStart tmpEnd := by
          rw [h₃.cache, ← h₁.cache]
          refine (hrec₂.tableAt htmp.table).keep hm₃ (fun b hb _ => ?_)
          rw [mem_blocksFrom]
          omega
        obtain ⟨pc₃, st₃, n₃, hni₃⟩ := hm₃.ni
        have hmb₃ : w₃.ni.mappingBlocksBa = tmpEnd := by rw [hni₃, hrec₂.ni]
        cases r₃ with
        | none =>
            simp only [wp_bind, wp_pure]
            refine wp_records rfl (fun w₄ hrec₄ => wp_cleans (fun w₅ hclean => ?_))
            exact outcome_temporary (h.trans h₃) (h₃.bounds hp.toBounds) hmb₃ htable₃ (by omega)
              (by omega) hrec₄ hclean
        | some range₃ =>
            obtain ⟨mainStart, mainEnd⟩ := range₃
            have hmain := hr₃ mainStart mainEnd rfl
            have hmain_lo := hmain.lo_le
            have hmain_hi := hmain.le_hi
            simp only [wp_bind]
            refine wp_records rfl (fun w₄ hrec₄ => wp_cleans (fun w₅ hclean => ?_))
            rw [if_pos hmain_hi]
            simp only [wp_bind, wp_pure]
            refine wp_records rfl (fun w₆ hrec₆ => ?_)
            exact outcome_rescued (h.trans h₃) (h₃.bounds hp.toBounds) hmb₃ hmain.table hmain_hi
              htable₃ (by omega) (by omega) hrec₄ hclean hrec₆

/-! ## One round of an update -/

/-- A main table without a backup table is written, or both are rebuilt. -/
theorem writeMainTable_alone (hws : 0 < nld.writesize)
    (h : Rewrite nld w₀ w)
    (hp : Pool nld w.ni)
    (hmain : w.ni.mainTableBa ≠ 0)
    (hback : w.ni.backupTableBa = 0) :
    wp (writeMainTable w.ni.mappingBlocksTopBa) nld (Outcome nld w₀) w := by
  have hlo := hp.main.resolve_left hmain
  simp only [writeMainTable, wp_bind, wp_get, if_neg hmain, if_pos hback]
  refine wp_logs (fun w₁ hlog => ?_)
  have h₁ : Rewrite nld w w₁ := hlog.rewrite trivial (by simp)
  have hcache₁ : w₁.ni.infoTableCache ≠ [] := h₁.cached hp.cached
  refine wp_mono (nmbmWriteInfoTable_rewrite hws hcache₁) ?_
  rintro r w₂ ⟨hm₂, hr₂⟩
  have h₂ := h₁.trans (hm₂.rewrite (blocksFrom_subset_area
    (by rw [hlog.ni]; exact hlo) (by rw [hlog.ni])))
  have hmgmt₂ := h₂.mgmt
  have htop₂ := h₂.top
  obtain ⟨pc₂, st₂, n₂, hni₂⟩ := hm₂.ni
  cases r with
  | none => exact nmbmRebuildInfoTable_spec hws (h.trans h₂) (h₂.bounds hp.toBounds)
  | some range =>
      obtain ⟨s, e⟩ := range
      have hw := hr₂ s e rfl
      have hw_lo := hw.lo_le
      have hw_hi := hw.le_hi
      have hback₂ : w₂.ni.backupTableBa = 0 := by rw [hni₂, hlog.ni, hback]
      simp only [wp_bind, wp_pure]
      refine wp_records rfl (fun w₃ hrec => wp_cleans (fun w₄ hclean => ?_))
      have h₄ := (h₂.trans hrec.rewrite).trans hclean.rewrite
      have hmgmt₄ := h₄.mgmt
      have htop₄ := h₄.top
      refine outcome_single (s := s) (e := e) (h.trans h₄) (h₄.bounds hp.toBounds) ?_ ?_ ?_ ?_
        (by omega) (by omega) hclean.settled
      · rw [hclean.ni, hrec.ni]
      · rw [hclean.ni, hrec.ni, hback₂]
      · rw [hclean.ni, hrec.ni]
        simp only [hback₂, if_true]
      · rw [h₄.cache, ← h₂.cache]
        exact hclean.tableAt (hrec.tableAt hw.table)

/-- The main table is written in front of a backup table, or rescued with it. -/
theorem writeMainTable_backed (hws : 0 < nld.writesize)
    (h : Rewrite nld w₀ w)
    (hp : Pool nld w.ni)
    (hmain : w.ni.mainTableBa ≠ 0)
    (hback : w.ni.backupTableBa ≠ 0)
    (htable : TableAt nld w w.ni.infoTableCache w.ni.backupTableBa w.ni.mappingBlocksBa)
    (hsettled : Settled w₀ w) :
    wp (writeMainTable w.ni.backupTableBa) nld (Outcome nld w₀) w := by
  have hmb := hp.le_top
  have hback_le := hp.backup_le
  have hlo := hp.main.resolve_left hmain
  simp only [writeMainTable, wp_bind, wp_get, if_neg hmain, if_neg hback]
  refine wp_mono (nmbmWriteInfoTable_rewrite hws hp.cached) ?_
  rintro r w₁ ⟨hm₁, hr₁⟩
  have h₁ : Rewrite nld w w₁ := hm₁.rewrite (blocksFrom_subset_area hlo (by omega))
  have hmgmt₁ := h₁.mgmt
  have htop₁ := h₁.top
  have hset₁ := hsettled.mgmt h.toUpkeep hm₁
  obtain ⟨pc₁, st₁, n₁, hni₁⟩ := hm₁.ni
  have hbackup₁ : w₁.ni.backupTableBa = w.ni.backupTableBa := by rw [hni₁]
  have hmb₁ : w₁.ni.mappingBlocksBa = w.ni.mappingBlocksBa := by rw [hni₁]
  have htable₁ : TableAt nld w₁ w₁.ni.infoTableCache w₁.ni.backupTableBa
      w₁.ni.mappingBlocksBa := by
    rw [h₁.cache, hbackup₁, hmb₁]
    refine htable.keep hm₁ (fun b hb _ => ?_)
    rw [mem_blocksFrom]
    omega
  cases r with
  | none =>
      exact nmbmRescueMainInfoTable_spec hws (h.trans h₁) (hm₁.pool hp) (hbackup₁ ▸ hback)
        htable₁ hset₁
  | some range =>
      obtain ⟨s, e⟩ := range
      have hw := hr₁ s e rfl
      have hw_lo := hw.lo_le
      have hw_hi := hw.le_hi
      simp only [wp_bind, wp_pure]
      refine wp_records rfl (fun w₂ hrec => wp_cleans (fun w₃ hclean => ?_))
      have h₃ := (h₁.trans hrec.rewrite).trans hclean.rewrite
      have hmgmt₃ := h₃.mgmt
      have htop₃ := h₃.top
      refine outcome_double (s := s) (t := e) (b := w.ni.backupTableBa)
        (e := w.ni.mappingBlocksBa) (h.trans h₃) (h₃.bounds hp.toBounds) ?_ ?_ ?_ ?_ (by omega) ?_
        (by omega) (by omega) hclean.settled
      · rw [hclean.ni, hrec.ni]
      · rw [hclean.ni, hrec.ni, hbackup₁]
      · rw [hclean.ni, hrec.ni]
        simp only [hbackup₁, if_neg hback, hmb₁]
      · rw [h₃.cache, ← h₁.cache]
        exact hclean.tableAt (hrec.tableAt hw.table)
      · rw [h₃.cache, ← h₁.cache, ← hbackup₁, ← hmb₁]
        exact hclean.tableAt (hrec.tableAt htable₁)

/-- The main table is written, or what becomes of it if that fails. -/
theorem writeMainTable_spec (hws : 0 < nld.writesize) {limit : Nat}
    (h : Rewrite nld w₀ w)
    (hp : Pool nld w.ni)
    (hlimit : limit = if w.ni.backupTableBa = 0 then w.ni.mappingBlocksTopBa
      else w.ni.backupTableBa)
    (htable : w.ni.backupTableBa ≠ 0 →
      TableAt nld w w.ni.infoTableCache w.ni.backupTableBa w.ni.mappingBlocksBa ∧ Settled w₀ w) :
    wp (writeMainTable limit) nld (Outcome nld w₀) w := by
  by_cases hmain : w.ni.mainTableBa = 0
  · simp only [writeMainTable, wp_bind, wp_get, if_pos hmain]
    exact nmbmRebuildInfoTable_spec hws h hp.toBounds
  by_cases hback : w.ni.backupTableBa = 0
  · rw [hlimit, if_pos hback]
    exact writeMainTable_alone hws h hp hmain hback
  · obtain ⟨htable, hsettled⟩ := htable hback
    rw [hlimit, if_neg hback]
    exact writeMainTable_backed hws h hp hmain hback htable hsettled

/-- The cache is generated with the header {lit}`hdr`. -/
structure Generates (nld : LowerDevice) (w w' : World) (hdr : InfoTableHeader) : Prop where
  ni : w'.ni = { w.ni with infoTable := hdr, infoTableCache := tableBytes nld w.ni hdr }
  events : w'.events = .generate (tableBytes nld w.ni hdr) :: w.events
  chip : w'.chip = w.chip
  magic : hdr.header.magic = nmbmMagicInfoTable
  size : hdr.header.size = nld.infoTableSize
  stateOff : hdr.stateTableOff = w.ni.infoTable.stateTableOff
  mappingOff : hdr.mappingTableOff = w.ni.infoTable.mappingTableOff
  writeCount : w.ni.infoTable.writeCount < 2 ^ 32 → hdr.writeCount < 2 ^ 32

/-- The specification of {lit}`nmbm_generate_info_table_cache`. -/
theorem nmbmGenerateInfoTableCache_spec (nld : LowerDevice) (w : World) :
    wp nmbmGenerateInfoTableCache nld (fun changed w' =>
      (changed = true ↔ w.ni.blockStateChanged ≠ 0 ∨ w.ni.blockMappingChanged ≠ 0) ∧
        ∃ hdr, Generates nld w w' hdr) w := by
  refine ⟨decide_eq_true_iff, _, ⟨rfl, rfl, rfl, rfl, rfl, rfl, rfl, fun hlt => ?_⟩⟩
  show (if _ then u32 (w.ni.infoTable.writeCount + 1) else w.ni.infoTable.writeCount) < 2 ^ 32
  split_ifs
  · exact Nat.mod_lt _ (Nat.two_pow_pos 32)
  · exact hlt

/-- A generated cache holds the tables in memory. -/
theorem Generates.inSync {hdr : InfoTableHeader} (h : Generates nld w w' hdr) (hf : nld.Fits)
    (hs : Shape nld w.ni) : cacheInSync nld w'.ni = true := by
  rw [h.ni]
  exact cacheInSync_tableBytes hs hf h.stateOff h.mappingOff

theorem Generates.upkeep {hdr : InfoTableHeader} (h : Generates nld w w' hdr) :
    Upkeep nld w w' := by
  have hchip : Chip.Touches w.ni.area w.chip w'.chip := by
    rw [h.chip]
    exact Chip.Touches.refl _ _
  have hmem : ∀ e ∈ [Event.generate (tableBytes nld w.ni hdr)], TableEvent w.ni e := by
    intro e he
    rw [List.mem_singleton.mp he]
    trivial
  refine ⟨by rw [h.ni], by rw [h.ni], by rw [h.ni], by rw [h.ni], by rw [h.ni], by rw [h.ni],
    fun b => .inl (by rw [h.ni]; rfl), fun _ => ?_, fun hs => ?_,
    fun hf hs _ _ _ _ => h.inSync hf hs, .inl (by rw [h.ni]), fun hev => .inl ?_,
    ⟨_, h.events, hmem⟩, hchip⟩
  · rw [h.ni]
    exact tableBytes_ne_nil nld w.ni hdr
  · rw [h.ni]
    exact ⟨hs.states, hs.mapping, h.stateOff.trans hs.stateOff, h.mappingOff.trans hs.mappingOff,
      h.writeCount hs.writeCount⟩
  · rw [h.events] at hev
    rcases List.mem_cons.mp hev with heq | hold
    · cases heq
    · exact hold

/-- The cache is a table of the current mapping and of states in which every block that is
good now was good. -/
structure Cached (nld : LowerDevice) (ni : NmbmInstance) (states : BlockStates) : Prop where
  bytes : ni.infoTableCache = tableBytes nld { ni with blockState := states } ni.infoTable
  length : states.length = ni.blockState.length
  good : ∀ b, nmbmGetBlockState ni b = blockStGood → nmbmGetBlockStateRaw states b = blockStGood
  magic : ni.infoTable.header.magic = nmbmMagicInfoTable
  size : ni.infoTable.header.size = nld.infoTableSize

theorem Generates.cached {hdr : InfoTableHeader} (h : Generates nld w w' hdr) :
    Cached nld w'.ni w.ni.blockState := by
  rw [h.ni]
  exact ⟨rfl, rfl, fun _ hb => hb, h.magic, h.size⟩

theorem Cached.rewrite {states : BlockStates} (hc : Cached nld w.ni states)
    (h : Rewrite nld w w') : Cached nld w'.ni states := by
  refine ⟨?_, hc.length.trans h.length.symm, fun b hb => hc.good b (h.good hb), ?_, ?_⟩
  · rw [h.cache, h.header, hc.bytes]
    simp only [tableBytes, h.mapping]
  · rw [h.header]
    exact hc.magic
  · rw [h.header]
    exact hc.size

/-- The specification of {lit}`nmbm_update_info_table_once` when there are changes: a cache
is generated, and the outcome is that of writing it. -/
theorem nmbmUpdateInfoTableOnce_spec (hws : 0 < nld.writesize)
    (hp : Pool nld w.ni)
    (hchanged : w.ni.blockStateChanged ≠ 0 ∨ w.ni.blockMappingChanged ≠ 0) :
    wp (nmbmUpdateInfoTableOnce false) nld (fun ok w' =>
      ∃ w₁ hdr, Generates nld w w₁ hdr ∧ Outcome nld w₁ ok w') w := by
  simp only [nmbmUpdateInfoTableOnce, wp_bind]
  refine wp_mono (nmbmGenerateInfoTableCache_spec nld w) ?_
  rintro changed w₁ ⟨hiff, hdr, hgen⟩
  rw [hiff.mpr hchanged]
  refine wp_mono (Q := Outcome nld w₁) ?_ (fun ok w' ho => ⟨w₁, hdr, hgen, ho⟩)
  simp only [Bool.not_true, Bool.false_and, Bool.false_eq_true, if_false, wp_bind, wp_get]
  have hp₁ : Pool nld w₁.ni := by
    have hb := hgen.upkeep.bounds hp.toBounds
    rw [hgen.ni] at hb ⊢
    exact ⟨hb, hp.mgmt_le, hp.le_top, hp.main, hp.main_le, hp.backup, hp.backup_le⟩
  have hself := Rewrite.refl nld w₁
  split
  · rename_i hback
    exact writeMainTable_spec hws hself hp₁ (by rw [if_pos hback]) (fun hne => absurd hback hne)
  · rename_i hback
    have hlo := hp₁.backup.resolve_left hback
    have hmain := hp₁.main
    have hback_le := hp₁.backup_le
    have hmb := hp₁.le_top
    simp only [wp_bind]
    refine wp_mono (nmbmWriteInfoTable_rewrite hws hp₁.cached) ?_
    rintro r w₂ ⟨hm₂, hr₂⟩
    have h₂ : Rewrite nld w₁ w₂ := hm₂.rewrite (blocksFrom_subset_area hlo.1 (le_refl _))
    have hmgmt₂ := h₂.mgmt
    have htop₂ := h₂.top
    obtain ⟨pc₂, st₂, n₂, hni₂⟩ := hm₂.ni
    have hmain₂ : w₂.ni.mainTableBa = w₁.ni.mainTableBa := by rw [hni₂]
    have hbackup₂ : w₂.ni.backupTableBa = w₁.ni.backupTableBa := by rw [hni₂]
    cases r with
    | none =>
        simp only [wp_bind]
        refine wp_records rfl (fun w₃ hrec => ?_)
        have h₃ := h₂.trans hrec.rewrite
        have hmgmt₃ := h₃.mgmt
        have htop₃ := h₃.top
        have hmain₃ := hrec.main_eq
        have hback₃ := hrec.backup_eq
        have hmb₃ := hrec.mb_eq
        refine writeMainTable_spec hws h₃ ⟨h₃.bounds hp₁.toBounds, by omega, by omega, by omega,
          by omega, .inl hback₃, by omega⟩ ?_ (fun hne => absurd hback₃ hne)
        rw [if_pos hback₃, htop₃]
    | some range =>
        obtain ⟨s, e⟩ := range
        have hw := hr₂ s e rfl
        have hw_lo := hw.lo_le
        have hw_lt := hw.lt
        have hw_hi := hw.le_hi
        simp only [wp_bind]
        refine wp_records rfl (fun w₃ hrec => wp_cleans (fun w₄ hclean => ?_))
        have h₄ := (h₂.trans hrec.rewrite).trans hclean.rewrite
        have hmgmt₄ := h₄.mgmt
        have htop₄ := h₄.top
        have hmain₄ : w₄.ni.mainTableBa = w₁.ni.mainTableBa := by
          rw [hclean.ni, hrec.ni, hmain₂]
        have hback₄ : w₄.ni.backupTableBa = s := by rw [hclean.ni, hrec.ni]
        have hmb₄ : w₄.ni.mappingBlocksBa = e := by rw [hclean.ni, hrec.ni]
        have hne₄ : w₄.ni.backupTableBa ≠ 0 := by omega
        refine writeMainTable_spec hws h₄ ⟨h₄.bounds hp₁.toBounds, by omega, by omega, by omega,
          by omega, .inr ⟨by omega, by omega⟩, by omega⟩ ?_ (fun _ => ⟨?_, hclean.settled⟩)
        · rw [if_neg hne₄, hback₄]
        · rw [h₄.cache, ← h₂.cache, hback₄, hmb₄]
          exact hclean.tableAt (hrec.tableAt hw.table)

/-! ## The whole update -/

/-- No change is on record. -/
def Clean (ni : NmbmInstance) : Prop :=
  ni.blockStateChanged = 0 ∧ ni.blockMappingChanged = 0

/-- The tables on flash are the cache, and the cache is a table of the current mapping. -/
structure Durable (nld : LowerDevice) (w : World) : Prop where
  saved : Saved nld w
  cached : ∃ states, Cached nld w.ni states

/-- The good blocks of the chip. -/
def goodCount (nld : LowerDevice) (ni : NmbmInstance) : Nat :=
  (List.range nld.blockCount).countP (fun b => nmbmGetBlockState ni b == blockStGood)

theorem goodCount_le (nld : LowerDevice) (ni : NmbmInstance) :
    goodCount nld ni ≤ nld.blockCount := by
  have := List.countP_le_length (p := fun b => nmbmGetBlockState ni b == blockStGood)
    (l := List.range nld.blockCount)
  rwa [List.length_range] at this

/-- Work on the tables that retires a block leaves fewer good ones. -/
theorem Upkeep.goodCount_lt (h : Upkeep nld w w') (hb : Bounds nld w.ni) {b : Nat}
    (hgood : nmbmGetBlockState w.ni b = blockStGood)
    (hbad : nmbmGetBlockState w'.ni b = blockStBad) :
    goodCount nld w'.ni < goodCount nld w.ni := by
  have hlt : b < nld.blockCount := by
    rcases h.state b with heq | ⟨⟨-, hb'⟩, -, -⟩
    · rw [heq, hgood] at hbad
      exact absurd hbad (by decide)
    · have := hb.top_lt
      have := hb.signature_lt
      omega
  obtain ⟨front, rest, hsplit⟩ := List.append_of_mem (List.mem_range.mpr hlt)
  have hmono : ∀ l : List Nat,
      l.countP (fun b => nmbmGetBlockState w'.ni b == blockStGood) ≤
        l.countP (fun b => nmbmGetBlockState w.ni b == blockStGood) := by
    intro l
    apply List.countP_mono_left
    intro c _ hc
    rw [beq_iff_eq] at hc ⊢
    exact h.good hc
  have hfront := hmono front
  have hrest := hmono rest
  have hne : (blockStBad == blockStGood) = false := by decide
  simp only [goodCount, hsplit, List.countP_append, List.countP_cons, hgood, hbad, hne,
    BEq.rfl, if_true, Bool.false_eq_true, if_false]
  omega

/-- After a round that saved the mapping no change is left, or fewer blocks are good. -/
theorem Settled.progress (hs : Settled w w') (hu : Upkeep nld w₀ w) (hu' : Upkeep nld w₀ w')
    (hb : Bounds nld w₀.ni) : Clean w'.ni ∨ goodCount nld w'.ni < goodCount nld w₀.ni := by
  obtain ⟨hmapping, hstate | ⟨b, hgood, hbad⟩⟩ := hs
  · exact .inl ⟨hstate, hmapping⟩
  · exact .inr (hu'.goodCount_lt hb (hu.good hgood) hbad)

/-- The outcome of an update: no change is left, or no table could be written. -/
structure Updated (nld : LowerDevice) (w : World) (ok : Bool) (w' : World) : Prop where
  upkeep : Upkeep nld w w'
  pool : Pool nld w'.ni
  clean : ok = true → Clean w'.ni
  durable : ok = true → (Clean w.ni → Durable nld w) → Durable nld w'
  failed : ok = false → w'.ni.isProtected = true

/-- The loop ends with all changes saved before its fuel runs out: a further round needs a
block that was retired in the last one. -/
theorem updateLoop_spec (hws : 0 < nld.writesize) :
    ∀ (fuel : Nat) (w : World),
      Pool nld w.ni →
      (Clean w.ni ∧ 0 < fuel) ∨ goodCount nld w.ni + 2 ≤ fuel →
      wp (updateLoop fuel) nld (Updated nld w) w := by
  intro fuel
  induction fuel with
  | zero =>
      intro w _ hfuel
      omega
  | succ fuel ih =>
      intro w hp hfuel
      simp only [updateLoop, wp_bind, wp_get]
      split
      · rename_i hchanged
        have hnot : ¬ Clean w.ni := by
          rintro ⟨hstate, hmapping⟩
          omega
        have hfuel' := hfuel.resolve_left (fun hclean => hnot hclean.1)
        simp only [wp_bind]
        refine wp_mono (nmbmUpdateInfoTableOnce_spec hws hp hchanged) ?_
        rintro ok w₂ ⟨w₁, hdr, hgen, ho⟩
        have hu₂ := hgen.upkeep.trans ho.rewrite.toUpkeep
        cases ok with
        | false =>
            exact ⟨hu₂, ho.pool, by simp, by simp, fun _ => ho.failed rfl⟩
        | true =>
            have hnext : (Clean w₂.ni ∧ 0 < fuel) ∨ goodCount nld w₂.ni + 2 ≤ fuel := by
              rcases (ho.settled rfl).progress hgen.upkeep hu₂ hp.toBounds with hclean | hlt
              · exact .inl ⟨hclean, by omega⟩
              · exact .inr (by omega)
            refine wp_mono (ih w₂ ho.pool hnext) ?_
            intro ok₃ w₃ h₃
            have hdurable : Durable nld w₂ := ⟨ho.saved rfl, _, hgen.cached.rewrite ho.rewrite⟩
            exact ⟨hu₂.trans h₃.upkeep, h₃.pool, h₃.clean,
              fun hok _ => h₃.durable hok (fun _ => hdurable), h₃.failed⟩
      · rename_i hchanged
        have hclean : Clean w.ni := by
          constructor <;> omega
        exact ⟨Upkeep.refl nld w, hp, fun _ => hclean, fun _ hd => hd hclean, by simp⟩

/-- The specification of {lit}`nmbm_update_info_table`. -/
theorem nmbmUpdateInfoTable_spec (hws : 0 < nld.writesize) (hp : Pool nld w.ni) :
    wp nmbmUpdateInfoTable nld (fun ok w' =>
      Upkeep nld w w' ∧ Pool nld w'.ni ∧ (w.ni.isProtected = false → Updated nld w ok w')) w := by
  simp only [nmbmUpdateInfoTable, wp_bind, wp_ask, wp_get]
  split
  · rename_i hprot
    exact ⟨Upkeep.refl nld w, hp, fun hno => by simp [hprot] at hno⟩
  · have hle := goodCount_le nld w.ni
    refine wp_mono (updateLoop_spec hws _ w hp (.inr (by omega))) ?_
    intro ok w' h
    exact ⟨h.upkeep, h.pool, fun _ => h⟩

/-! ## What an update leaves behind -/

/-- Unless the instance is protected, the tables on flash are those in memory. -/
def Kept (nld : LowerDevice) (w : World) : Prop :=
  w.ni.isProtected = false →
    Clean w.ni ∧ Durable nld w ∧ cacheInSync nld w.ni = true

/-- An update saves the tables, or the instance becomes protected. -/
theorem nmbmUpdateInfoTable_kept (hws : 0 < nld.writesize) (hp : Pool nld w.ni) :
    wp nmbmUpdateInfoTable nld (fun _ w' =>
      Upkeep nld w w' ∧ Pool nld w'.ni ∧
        (nld.Fits → Shape nld w.ni → CleanLog w'.events → (Clean w.ni → Kept nld w) →
          Kept nld w')) w := by
  refine wp_mono (nmbmUpdateInfoTable_spec hws hp) ?_
  rintro ok w' ⟨hu, hp', hupd⟩
  refine ⟨hu, hp', fun hf hs hclean hk hprot' => ?_⟩
  have hprot : w.ni.isProtected = false := by
    rcases hu.guarded with heq | ⟨htrue, -⟩
    · rw [← heq]
      exact hprot'
    · rw [htrue] at hprot'
      cases hprot'
  have h := hupd hprot
  have hok : ok = true := by
    by_contra hno
    rw [h.failed (by simpa using hno)] at hprot'
    cases hprot'
  have hclean' := h.clean hok
  refine ⟨hclean', h.durable hok (fun hc => (hk hc hprot).2.1), ?_⟩
  exact hu.synced hf hs hclean (fun hstate hmapping => (hk ⟨hstate, hmapping⟩ hprot).2.2)
    hclean'.1 hclean'.2

end Nmbm
end ZyxelRouter
