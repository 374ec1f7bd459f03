import ZyxelRouter.Lib.NandKnowledge
import ZyxelRouter.Nmbm.Isolation
import ZyxelRouter.Nmbm.MtdWrite

/-!
# NMBM: the contents of logic blocks

To its user the manager is a NAND device of logic blocks.  This module gives the outcome of every
public call on this device, which the user can tell from the call and its return value, and shows that
the calls have these outcomes, whatever is remapped, retired or rewritten below.

Main results:

- Theorem {lit}`eraseRetry_blank`: a logic block that is erased with success is blank.
- Theorem {lit}`nmbmWriteLogicPage_outcome`: writing a page, whether or not it goes well.
- Theorem {lit}`Call.exec_trace`: every public call has its outcomes.
-/

namespace ZyxelRouter
namespace Nmbm

open Lib Lib.Prog

variable {L S : Set Nat} {w w' : World} {nld : LowerDevice}

/-! ## Logic blocks -/

/-- An operation that reports success did its job, and failed page programs are local. -/
structure Honest (fates : Fates) : Prop where
  write : ∀ t, (fates t .write).ret = 0 → (fates t .write).effect = .done
  erase : ∀ t, (fates t .erase).ret = 0 → (fates t .erase).effect = .done
  pageLocal : fates.PageLocal

/-- The contents of a logic block, if it can be read. -/
def logicBlock (w : World) (lb : Nat) : Option Block :=
  if w.ni.entry lb < 0 then none
  else if nmbmGetBlockState w.ni (w.ni.entry lb).toNat = blockStBad then none
  else some (w.chip.flash.cells (w.ni.entry lb).toNat)

theorem logicBlock_of_good {b : Nat} (hentry : w.ni.entry b ≥ 0)
    (hstate : nmbmGetBlockState w.ni (w.ni.entry b).toNat ≠ blockStBad) :
    logicBlock w b = some (w.chip.flash.cells (w.ni.entry b).toNat) := by
  rw [logicBlock, if_neg (not_lt.mpr hentry), if_neg hstate]

/-- A page is read from its logic block. -/
theorem storedPage_eq (nld : LowerDevice) (w : World) (addr : Nat) :
    storedPage nld w addr =
      (logicBlock w (nld.addr2ba addr)).map (fun content => content (pageOf nld addr)) := by
  rw [storedPage, logicBlock]
  split_ifs
  all_goals rfl

/-- A call leaves other logic blocks alone. -/
theorem Step.logicBlock (h : Step nld L (territory L w.ni) w w') (ho : Owned w.ni) {lb : Nat}
    (hlb : lb ∉ L) : logicBlock w' lb = logicBlock w lb := by
  rw [Nmbm.logicBlock, Nmbm.logicBlock, h.entry _ hlb]
  by_cases hentry : w.ni.entry lb < 0
  · rw [if_pos hentry, if_pos hentry]
  · have hout := notMem_territory ho hlb (not_lt.mp hentry)
    rw [if_neg hentry, if_neg hentry, h.state _ hout, h.chip.flash.cells _ hout]

/-- Work on the tables leaves all logic blocks alone. -/
theorem Upkeep.logicBlock (h : Upkeep nld w w') (ho : Owned w.ni) : logicBlock w' = logicBlock w := by
  funext lb
  exact (h.step (L := ∅) subset_rfl).logicBlock ho (Set.notMem_empty lb)

theorem Phys.logicBlock (h : Phys ∅ w w') : logicBlock w' = logicBlock w := by
  funext lb
  obtain ⟨pc, hni⟩ := h.ni
  simp only [Nmbm.logicBlock, hni, h.chip.flash.cells _ (Set.notMem_empty _)]
  rfl

/-! ## Operations that report success -/

theorem eraseTries_blank (hhonest : Honest nld.fates) (ba : Nat) :
    ∀ (more : Nat) (w : World), wp (eraseTries ba more) nld (fun ok w' =>
      ok = true → w'.chip.flash.cells ba = blankBlock) w := by
  have hone : ∀ w : World, (Chip.eraseBlock nld.fates ba w.chip).1 = 0 →
      (Chip.eraseBlock nld.fates ba w.chip).2.flash.cells ba = blankBlock := by
    intro w hret
    have hdone := hhonest.erase w.chip.clock hret
    simp only [Chip.eraseBlock, Chip.advance, Chip.setBlock, Function.update_self, hdone]
  intro more
  induction more with
  | zero =>
      intro w hok
      exact hone w (of_decide_eq_true hok)
  | succ more ih =>
      intro w
      simp only [eraseTries, wp_bind, wp_lower, wp_ite, wp_pure]
      exact ⟨fun hret _ => hone w hret, fun _ => ih _⟩

theorem writeTries_columns (hhonest : Honest nld.fates) (ba page : Nat)
    (columns : Nat → Option UInt8) :
    ∀ (more : Nat) (w : World), wp (writeTries ba page columns more) nld (fun ok w' =>
      ok = true → ∀ c byte, columns c = some byte → w'.chip.flash.cells ba page c = byte) w := by
  have hone : ∀ w : World, (Chip.writePage nld.fates ba page columns w.chip).1 = 0 →
      ∀ c byte, columns c = some byte →
        (Chip.writePage nld.fates ba page columns w.chip).2.flash.cells ba page c = byte := by
    intro w hret c byte hbyte
    have hdone := hhonest.write w.chip.clock hret
    simp only [Chip.writePage, Chip.advance, Chip.setBlock, Function.update_self, hdone, hbyte,
      Option.getD_some]
  intro more
  induction more with
  | zero =>
      intro w hok
      exact hone w (of_decide_eq_true hok)
  | succ more ih =>
      intro w
      simp only [writeTries, wp_bind, wp_lower, wp_ite, wp_pure]
      exact ⟨fun hret _ => hone w hret, fun _ => ih _⟩

/-- Reading the pages of an erased block changes nothing in the memory. -/
theorem checkErasedPages_flash (nld : LowerDevice) (ba : Nat) :
    ∀ (n page : Nat) (w : World), wp (checkErasedPages ba n page) nld (fun _ w' =>
      w'.chip.flash = w.chip.flash) w := by
  intro n
  induction n with
  | zero =>
      intro page w
      rfl
  | succ n ih =>
      intro page w
      simp only [checkErasedPages, wp_bind, wp_ask, wp_setPageCache, wp_ite, wp_pure]
      refine wp_mono (nmbmReadPhysPage_spec nld ba page w) ?_
      rintro r w₁ ⟨hquiet, -⟩
      exact ⟨fun _ => hquiet.flash, fun _ => wp_mono (ih (page + 1) _)
        (fun _ _ h => h.trans hquiet.flash)⟩

theorem nmbmEraseBlockAndCheck_blank (hhonest : Honest nld.fates) (ba : Nat) (w : World) :
    wp (nmbmEraseBlockAndCheck ba) nld (fun ok w' =>
      ok = true → w'.chip.flash.cells ba = blankBlock) w := by
  have herase : wp (nmbmErasePhysBlock ba) nld (fun ok w' =>
      ok = true → w'.chip.flash.cells ba = blankBlock) w := by
    simp only [nmbmErasePhysBlock, wp_bind, wp_ask, wp_ite, wp_pure]
    exact ⟨fun _ h => absurd h Bool.false_ne_true, fun _ => eraseTries_blank hhonest ba _ w⟩
  simp only [nmbmEraseBlockAndCheck, wp_bind, wp_ask]
  refine wp_mono herase ?_
  intro ok w₁ hok
  simp only [wp_ite, wp_pure]
  refine ⟨fun _ h => absurd h Bool.false_ne_true, fun hyes => ?_⟩
  have hblank := hok (by simpa using hyes)
  refine ⟨fun _ _ => hblank, fun _ => ?_⟩
  refine wp_mono (checkErasedPages_flash nld ba _ 0 w₁) ?_
  intro _ w₂ hflash _
  rw [hflash]
  exact hblank

/-! ## Erasing -/

/-- A physical block that is found usable was erased. -/
theorem eraseMapped_blank (hhonest : Honest nld.fates) (pb : Nat) (w : World) :
    wp (eraseMapped pb) nld (fun ok w' => ok = true →
      w'.ni.blockMapping = w.ni.blockMapping ∧ nmbmGetBlockState w'.ni pb ≠ blockStBad ∧
        w'.chip.flash.cells pb = blankBlock) w := by
  simp only [eraseMapped, wp_bind, wp_get, wp_ite, wp_pure]
  refine ⟨fun _ h => absurd h Bool.false_ne_true, fun hstate => ?_⟩
  refine wp_mono (nmbmCheckBadPhysBlock_spec nld pb w) ?_
  rintro bad w₁ ⟨hcheck, -, -⟩
  refine ⟨fun _ => ?_, fun _ => ?_⟩
  · exact wp_mono (nmbmSetBlockState_spec nld pb blockStBad w₁)
      (fun _ _ _ h => absurd h Bool.false_ne_true)
  · refine wp_mono (wp_and (nmbmEraseBlockAndCheck_spec nld pb w₁)
      (nmbmEraseBlockAndCheck_blank hhonest pb w₁)) ?_
    rintro ok w₂ ⟨herase, hblank⟩
    refine ⟨fun hno => wp_mono (retireBlock_step nld pb w₂) (fun _ _ _ h => ?_), fun _ hok => ?_⟩
    · simp [h] at hno
    · have hphys : Phys {pb} w w₂ := (hcheck.mono (Set.empty_subset _)).trans herase.toPhys
      obtain ⟨pc, hni⟩ := hphys.ni
      refine ⟨by rw [hni], ?_, hblank hok⟩
      rw [hni]
      exact (not_or.mp hstate).1

/-- A logic block that is erased with success is blank. -/
theorem eraseRetry_blank (hhonest : Honest nld.fates) (lb : Nat) :
    ∀ (fuel : Nat) (w : World), wp (eraseRetry lb fuel) nld (fun ret w' =>
      (ret = 0 ∨ ret = -eIo) ∧ (ret = 0 → logicBlock w' lb = some blankBlock)) w := by
  have hfail : ∀ w' : World, ((-eIo : Int) = 0 ∨ True) ∧
      ((-eIo : Int) = 0 → logicBlock w' lb = some blankBlock) :=
    fun _ => ⟨.inr trivial, fun h => absurd h (by decide)⟩
  intro fuel
  induction fuel with
  | zero =>
      intro w
      exact ⟨.inr rfl, (hfail w).2⟩
  | succ fuel ih =>
      intro w
      simp only [eraseRetry, wp_bind, wp_get, wp_ite, wp_pure]
      refine ⟨fun _ => hfail w, fun hentry => ?_⟩
      refine wp_mono (eraseMapped_blank hhonest _ w) ?_
      intro usable w₁ husable
      refine ⟨fun hok => ⟨.inl trivial, fun _ => ?_⟩, fun _ => ?_⟩
      · obtain ⟨hmapping, hstate, hblank⟩ := husable hok
        have hsame : w₁.ni.entry lb = w.ni.entry lb := by
          rw [NmbmInstance.entry, NmbmInstance.entry, hmapping]
        rw [logicBlock_of_good, hsame]
        · exact congrArg some hblank
        · rw [hsame]
          exact not_lt.mp hentry
        · rw [hsame]
          exact hstate
      · refine wp_mono (wp_run (remapLogicBlock lb _) nld w₁) ?_
        intro mapped w₂ _
        exact ⟨fun _ => ih w₂, fun _ => hfail w₂⟩

/-- What becomes of a logic block that is to be erased. -/
def eraseOutcome (ret : Int) (lb : Nat) : NandOutcome :=
  if ret = 0 then .erased lb else .lostBlock lb

/-- What becomes of the {lit}`n` logic blocks from {lit}`lb` on. -/
def eraseOutcomes (ret : Int) (lb n : Nat) : List NandOutcome :=
  (List.range' lb n).map (eraseOutcome ret)

/-- The loop of {lit}`nmbm_erase_block_range` as a run of erasures. -/
theorem eraseBlocksLoop_trace (hws : 0 < nld.writesize) (hhonest : Honest nld.fates) :
    ∀ (n lb : Nat) (w : World), Pool nld w.ni →
      wp (eraseBlocksLoop n lb) nld (fun ret w' => (ret = 0 ∨ ret = -eIo) ∧
        (TopGood w'.events → Owned w.ni →
          NandTrace (eraseOutcomes ret lb n) (logicBlock w) (logicBlock w'))) w := by
  intro n
  induction n with
  | zero =>
      intro lb w _
      exact ⟨.inl rfl, fun _ _ => rfl⟩
  | succ n ih =>
      intro lb w hp
      simp only [eraseBlocksLoop, nmbmEraseLogicBlock, wp_bind, wp_get, wp_ite, wp_pure]
      refine wp_mono (wp_and (eraseRetry_spec hws lb _ w hp subset_rfl)
        (eraseRetry_blank hhonest lb _ w)) ?_
      rintro ret w₁ ⟨hcall, hret, hblank⟩
      have hother : Owned w.ni → ∀ b, b ≠ lb → logicBlock w₁ b = logicBlock w b :=
        fun ho b hb => hcall.toStep.logicBlock ho hb
      refine ⟨fun hne => ⟨hret, fun _ ho => ?_⟩, fun hzero => ?_⟩
      · -- The blocks behind the one that failed are not tried.
        refine ⟨logicBlock w₁, ?_, nandTrace_refl ?_⟩
        · rw [eraseOutcome, if_neg hne]
          exact ⟨hother ho, trivial⟩
        · intro o ho
          obtain ⟨b, -, rfl⟩ := List.mem_map.mp ho
          rw [eraseOutcome, if_neg hne]
          exact NandOutcome.step_lostBlock_refl b _
      · have hzero : ret = 0 := not_not.mp hzero
        refine wp_mono (wp_and (ih (lb + 1) w₁ hcall.pool) (eraseBlocksLoop_spec (L := Set.univ) hws n
          (lb + 1) w₁ hcall.pool (fun _ _ _ => Set.mem_univ _) subset_rfl)) ?_
        rintro ret' w₂ ⟨⟨hret', htrace⟩, hrest⟩
        refine ⟨hret', fun hgood ho => ?_⟩
        have herased : (NandOutcome.erased lb).Step (logicBlock w) (logicBlock w₁) :=
          ⟨hother ho, hblank hzero⟩
        refine ⟨logicBlock w₁, ?_, htrace hgood
          (hcall.toStep.owned (hrest.toStep.topGood hgood) ho)⟩
        rw [eraseOutcome]
        split_ifs
        · exact herased
        · exact herased.lostBlock rfl

/-! ## Writing a page -/

/-- What becomes of a page that is written. -/
def pageOutcome (nld : LowerDevice) (ret : Int) (addr : Nat) (columns : Nat → Option UInt8) :
    NandOutcome :=
  if ret = 0 then .programmed (nld.addr2ba addr) (pageOf nld addr) columns
  else .lostPage (nld.addr2ba addr) (pageOf nld addr)

/-- The page of the block is the only one of the device that changes. -/
theorem step_of_page {lb page : Nat} {content : Block}
    (hother : ∀ b, b ≠ lb → logicBlock w' b = logicBlock w b)
    (hold : logicBlock w lb = some content)
    {content' : Block} (hnew : logicBlock w' lb = some content')
    (hpages : ∀ q, q ≠ page → content' q = content q) :
    (NandOutcome.lostPage lb page).Step (logicBlock w) (logicBlock w') := by
  refine ⟨hother, fun old hold' => ⟨content', hnew, ?_⟩⟩
  obtain rfl : content = old := Option.some.inj (hold.symm.trans hold')
  exact hpages

/-- Writing a page, whether or not it goes well. -/
theorem nmbmWriteLogicPage_outcome (hws : 0 < nld.writesize) (hhonest : Honest nld.fates)
    (hwritable : nld.readOnly = false) (hp : Pool nld w.ni) (addr : Nat)
    (data oob : Option (List UInt8)) :
    wp (nmbmWriteLogicPage addr data oob) nld (fun ret w' => (ret = 0 ∨ ret = -eIo) ∧
      (TopGood w'.events → Owned w.ni →
        (pageOutcome nld ret addr (columnsOf nld data oob)).Step (logicBlock w) (logicBlock w'))) w := by
  have hrefused : (pageOutcome nld (-eIo) addr (columnsOf nld data oob)).Step (logicBlock w)
      (logicBlock w) := NandOutcome.step_lostPage_refl _ _ _
  simp only [nmbmWriteLogicPage, wp_bind, wp_ask, wp_get, wp_ite, wp_pure]
  refine ⟨fun _ => ⟨.inr trivial, fun _ _ => hrefused⟩, fun hentry =>
    ⟨fun _ => ⟨.inr trivial, fun _ _ => hrefused⟩, fun hstate => ?_⟩⟩
  have hentry : 0 ≤ w.ni.entry (nld.addr2ba addr) := not_lt.mp hentry
  generalize hlb : nld.addr2ba addr = lb at hentry hstate
  have hold := logicBlock_of_good hentry hstate
  generalize hpb : (w.ni.entry lb).toNat = pb at hold
  replace hstate : ¬ nmbmGetBlockState w.ni pb = blockStBad := hpb ▸ hstate
  have hcolumns : wp (nmbmWritePhysPage pb (pageOf nld addr) data oob) nld (fun ok w' => ok = true →
      ∀ c byte, columnsOf nld data oob c = some byte →
        w'.chip.flash.cells pb (pageOf nld addr) c = byte) w := by
    simp only [nmbmWritePhysPage, wp_bind, wp_ask, wp_ite]
    exact ⟨fun h => absurd h (by simp [hwritable]), fun _ => writeTries_columns hhonest _ _ _ _ w⟩
  have hpb' : (w.ni.blockMapping.getD lb (-1)).toNat = pb := hpb
  rw [hpb']
  refine wp_mono (wp_and (nmbmWritePhysPage_spec nld pb (pageOf nld addr) data oob w) hcolumns) ?_
  rintro ok w₁ ⟨⟨hwrite, hpages⟩, hbytes⟩
  have hphys : Phys {pb} w w₁ := hwrite.toPhys
  obtain ⟨pc, hni⟩ := hphys.ni
  have hsame : w₁.ni.entry = w.ni.entry := by rw [hni]; rfl
  have hsub : ({pb} : Set Nat) ⊆ territory {lb} w.ni := by
    rw [Set.singleton_subset_iff, ← hpb]
    exact entry_mem_territory (Set.mem_singleton lb) hentry
  have hstep : Step nld {lb} (territory {lb} w.ni) w w₁ := hphys.step hsub
  have hother : Owned w.ni → ∀ b, b ≠ lb → logicBlock w₁ b = logicBlock w b :=
    fun ho b hb => hstep.logicBlock ho hb
  refine ⟨fun hok => ⟨.inl trivial, fun _ ho => ?_⟩, fun _ => ?_⟩
  · have hnew : logicBlock w₁ lb = some (w₁.chip.flash.cells pb) := by
      rw [← hpb, ← hsame]
      apply logicBlock_of_good
      · rw [hsame]
        exact hentry
      · rw [hsame, hpb, hni]
        exact hstate
    rw [pageOutcome, if_pos rfl, hlb]
    exact ⟨hother ho, _, _, hold, hnew, hpages hhonest.pageLocal, hbytes hok⟩
  · refine wp_mono (nmbmSetBlockState_spec nld pb blockStNeedRemap w₁) ?_
    intro _ w₂ hset
    refine wp_mono (nmbmUpdateInfoTable_kept hws (hset.pool (hphys.pool hp))) ?_
    rintro _ w₃ ⟨hupkeep, -, -⟩
    refine ⟨.inr trivial, fun hgood ho => ?_⟩
    have hstep₂ := hstep.trans (hset.step (L := {lb}) (hsub (Set.mem_singleton pb)))
    have htop₂ : TopGood w₂.events := (hupkeep.step (L := ∅) subset_rfl).topGood hgood
    obtain ⟨states, n, hni₂⟩ := hset.ni
    have hentry₂ : w₂.ni.entry lb = w.ni.entry lb := by
      rw [← hsame, hni₂]
      rfl
    rw [hupkeep.logicBlock (hstep₂.owned htop₂ ho), pageOutcome, if_neg (by decide), hlb]
    refine step_of_page (fun b hb => hstep₂.logicBlock ho hb) hold ?_ (hpages hhonest.pageLocal)
    rw [← hset.chip, ← hpb, ← hentry₂]
    apply logicBlock_of_good
    · rw [hentry₂]
      exact hentry
    · -- The block is to be remapped, but can still be read.
      rw [hentry₂, hpb]
      rcases hset.self with hremap | hsame₂
      · rw [hremap]
        decide
      · rw [hsame₂, hni]
        exact hstate

/-! ## Writing a range -/

/-- The address of a page of a range. -/
def rangePage (nld : LowerDevice) (off i : Nat) : Nat :=
  off - off % nld.writesize + i * nld.writesize

/-- The columns that a range gives to one of its pages: {lit}`0xff` in front of the data. -/
def rangeColumns (nld : LowerDevice) (off : Nat) (data : List UInt8) (i : Nat) : Nat → Option UInt8 :=
  fun c =>
    if nld.writesize ≤ c then none
    else if i * nld.writesize + c < off % nld.writesize then some 0xff
    else data[i * nld.writesize + c - off % nld.writesize]?

/-- What becomes of the pages of a range. -/
def rangeOutcomes (nld : LowerDevice) (ret : Int) (off : Nat) (data : List UInt8) :
    List NandOutcome :=
  (List.range (pageSpan nld.writesize (off % nld.writesize) data.length)).map
    (fun i => pageOutcome nld ret (rangePage nld off i) (rangeColumns nld off data i))

/-- The page that is written for a chunk has the columns of the range. -/
theorem fillPage_columns (nld : LowerDevice) (off : Nat) (data : List UInt8)
    (hws : 0 < nld.writesize) (w : World) :
    wp (fillPage (off % nld.writesize)
        (data.take (min (nld.writesize - off % nld.writesize) data.length))) nld (fun page _ =>
      ∀ c byte, rangeColumns nld off data 0 c = some byte →
        columnsOf nld (some page) none c = some byte) w := by
  have hcol := Nat.mod_lt off hws
  generalize hchunk : data.take (min (nld.writesize - off % nld.writesize) data.length) = chunk
  have hlength : chunk.length = min (nld.writesize - off % nld.writesize) data.length := by
    rw [← hchunk, List.length_take]
    omega
  have hfront : ∀ c byte, rangeColumns nld off data 0 c = some byte →
      c < nld.writesize ∧ (List.replicate (off % nld.writesize) 0xff ++ chunk)[c]? = some byte := by
    intro c byte hbyte
    simp only [rangeColumns, Nat.zero_mul, Nat.zero_add] at hbyte
    split_ifs at hbyte with hout hlead
    · exact ⟨by omega, by rw [List.getElem?_append_left (by simpa using hlead)]; simp [hlead, hbyte]⟩
    · have hdata := (List.getElem?_eq_some_iff.mp hbyte).1
      refine ⟨by omega, ?_⟩
      rw [List.getElem?_append_right (by simpa using hlead), List.length_replicate, ← hchunk,
        List.getElem?_take_of_lt (by omega)]
      exact hbyte
  have hpage : ∀ page rest : List UInt8,
      page = (List.replicate (off % nld.writesize) 0xff ++ chunk ++ rest).take nld.writesize →
      ∀ c byte, rangeColumns nld off data 0 c = some byte →
        columnsOf nld (some page) none c = some byte := by
    rintro page rest rfl c byte hbyte
    obtain ⟨hc, hbyte⟩ := hfront c byte hbyte
    have hlt := (List.getElem?_eq_some_iff.mp hbyte).1
    rw [columnsOf, if_pos hc, Option.bind_some, List.getElem?_take_of_lt hc,
      List.getElem?_append_left hlt]
    exact hbyte
  simp only [fillPage, wp_bind, wp_ask, wp_ite, wp_pure, wp_setPageCache, wp_get, fillFront_eq]
  refine ⟨fun hfull => hpage _ [] ?_, fun _ => hpage _ _ rfl⟩
  have hzero : off % nld.writesize = 0 := by omega
  rw [hzero, List.replicate_zero, List.nil_append, List.append_nil,
    List.take_of_length_le (le_of_eq hfull)]

/-- The pages behind the first one are those of the rest of the range. -/
theorem rangeOutcomes_rest {off : Nat} {data : List UInt8} (ret : Int) (hws : 0 < nld.writesize)
    (hmore : nld.writesize - off % nld.writesize < data.length) :
    rangeOutcomes nld ret off data =
      pageOutcome nld ret (off - off % nld.writesize) (rangeColumns nld off data 0) ::
        rangeOutcomes nld ret (off + (nld.writesize - off % nld.writesize))
          (data.drop (nld.writesize - off % nld.writesize)) := by
  have hcol := Nat.mod_lt off hws
  have hnext := next_page_mod nld.writesize off
  have hoff := add_rest_of_page hws off
  rw [rangeOutcomes, pageSpan_step hcol (by omega), List.range_succ_eq_map, List.map_cons,
    List.map_map, rangeOutcomes, hoff, hnext, List.length_drop]
  congr 1
  · rw [rangePage, Nat.zero_mul, Nat.add_zero]
  · apply List.map_congr_left
    intro i _
    have hpage : rangePage nld off (i + 1) =
        rangePage nld (off - off % nld.writesize + nld.writesize) i := by
      rw [rangePage, rangePage, hnext, Nat.succ_mul]
      omega
    have hcolumns : rangeColumns nld off data (i + 1) =
        rangeColumns nld (off - off % nld.writesize + nld.writesize)
          (data.drop (nld.writesize - off % nld.writesize)) i := by
      funext c
      simp only [rangeColumns, hnext, Nat.succ_mul, List.getElem?_drop, Nat.not_lt_zero, if_false,
        Nat.sub_zero]
      have hslot : i * nld.writesize + nld.writesize + c - off % nld.writesize =
          nld.writesize - off % nld.writesize + (i * nld.writesize + c) := by omega
      rw [if_neg (show ¬ i * nld.writesize + nld.writesize + c < off % nld.writesize by omega), hslot]
    show pageOutcome nld ret (rangePage nld off (i + 1)) (rangeColumns nld off data (i + 1)) = _
    rw [hpage, hcolumns]

/-- A range that ends in its first page. -/
theorem rangeOutcomes_last {off : Nat} {data : List UInt8} (ret : Int) (hws : 0 < nld.writesize)
    (hdata : data ≠ [])
    (hlast : data.length ≤ nld.writesize - off % nld.writesize) :
    rangeOutcomes nld ret off data =
      [pageOutcome nld ret (off - off % nld.writesize) (rangeColumns nld off data 0)] := by
  have hlen : data.length ≠ 0 := fun h => hdata (List.eq_nil_of_length_eq_zero h)
  have hrest : data.length - (nld.writesize - off % nld.writesize) = 0 := by omega
  rw [rangeOutcomes, pageSpan_step (Nat.mod_lt off hws) hlen, hrest, pageSpan_zero]
  simp [rangePage]

/-- More columns than those of the page are programmed. -/
theorem step_pageOutcome_columns {ret : Int} {addr : Nat} {columns columns' : Nat → Option UInt8}
    (hcolumns : ∀ c byte, columns c = some byte → columns' c = some byte) {view view' : NandView}
    (h : (pageOutcome nld ret addr columns').Step view view') :
    (pageOutcome nld ret addr columns).Step view view' := by
  rw [pageOutcome] at h ⊢
  split_ifs at h ⊢
  · obtain ⟨content, content', hold, hnew, hpages, hbytes⟩ := h.changes
    exact ⟨h.other, content, content', hold, hnew, hpages,
      fun c byte hbyte => hbytes c byte (hcolumns c byte hbyte)⟩
  · exact h

/-- A page that was written may be lost for all that is said. -/
theorem step_pageOutcome_lost {ret ret' : Int} (hret' : ret' ≠ 0) {addr : Nat}
    {columns : Nat → Option UInt8} {view view' : NandView}
    (h : (pageOutcome nld ret addr columns).Step view view') :
    (pageOutcome nld ret' addr columns).Step view view' := by
  rw [pageOutcome, if_neg hret']
  rw [pageOutcome] at h
  split_ifs at h
  · exact h.lostPage
  · exact h

theorem step_pageOutcome_refl {ret : Int} (hret : ret ≠ 0) (addr : Nat)
    (columns : Nat → Option UInt8) (view : NandView) :
    (pageOutcome nld ret addr columns).Step view view := by
  rw [pageOutcome, if_neg hret]
  exact NandOutcome.step_lostPage_refl _ _ _

/-- The pages behind one that failed are not tried. -/
theorem rangeOutcomes_failed {ret : Int} (hne : ret ≠ 0) (hws : 0 < nld.writesize) {off : Nat}
    {data : List UInt8} (hdata : data ≠ []) {view view' : NandView}
    (hfirst : (pageOutcome nld ret (off - off % nld.writesize) (rangeColumns nld off data 0)).Step
      view view') :
    NandTrace (rangeOutcomes nld ret off data) view view' := by
  have hlen : data.length ≠ 0 := fun h => hdata (List.eq_nil_of_length_eq_zero h)
  have hrefl : ∀ o ∈ (List.range (pageSpan nld.writesize 0
      (data.length - (nld.writesize - off % nld.writesize)))).map (fun i =>
        pageOutcome nld ret (rangePage nld off (i + 1)) (rangeColumns nld off data (i + 1))),
      o.Step view' view' := by
    intro o ho
    obtain ⟨i, -, rfl⟩ := List.mem_map.mp ho
    exact step_pageOutcome_refl hne _ _ _
  have htrace := nandTrace_refl hrefl
  rw [rangeOutcomes, pageSpan_step (Nat.mod_lt off hws) hlen, List.range_succ_eq_map, List.map_cons,
    List.map_map]
  refine ⟨view', ?_, htrace⟩
  rw [rangePage, Nat.zero_mul, Nat.add_zero]
  exact hfirst

/-- The loop of {lit}`nmbm_write_range` as a run of page programs. -/
theorem writeRangeLoop_trace (hpow : ∃ k, nld.writesize = 2 ^ k) (hhonest : Honest nld.fates)
    (hwritable : nld.readOnly = false) :
    ∀ (fuel off : Nat) (data : List UInt8) (w : World), Pool nld w.ni →
      data ≠ [] →
      data.length ≤ fuel →
      wp (writeRangeLoop fuel off data) nld (fun ret w' => (ret = 0 ∨ ret = -eIo) ∧
        (TopGood w'.events → Owned w.ni →
          NandTrace (rangeOutcomes nld ret off data) (logicBlock w) (logicBlock w'))) w := by
  have hws : 0 < nld.writesize := Nat.pos_of_isPowerOfTwo hpow
  intro fuel
  induction fuel with
  | zero =>
      intro off data w _ hdata hlen
      exact absurd (List.eq_nil_of_length_eq_zero (by omega)) hdata
  | succ fuel ih =>
      intro off data w hp hdata hlen
      have hcol := Nat.mod_lt off hws
      simp only [writeRangeLoop, wp_bind, wp_ask, and_writesize_sub_one hpow]
      refine wp_mono (wp_and (fillPage_spec nld _ _ w) (fillPage_columns nld off data hws w)) ?_
      rintro page w₁ ⟨hfill, hcolumns⟩
      have hp₁ := hfill.pool hp
      have hview₁ : logicBlock w₁ = logicBlock w := hfill.logicBlock
      have howned₁ : Owned w.ni → Owned w₁.ni := by
        obtain ⟨pc, hni⟩ := hfill.ni
        rw [hni]
        exact fun ho => ⟨ho.place, ho.injective⟩
      refine wp_mono (wp_and (nmbmWriteLogicPage_outcome hws hhonest hwritable hp₁ _ (some page) none)
        (nmbmWriteLogicPage_spec (L := Set.univ) hws hp₁ (some page) none (Set.mem_univ _)
          subset_rfl)) ?_
      rintro ret w₂ ⟨⟨hret, hstep⟩, hcall⟩
      rw [hview₁] at hstep
      have hstep : TopGood w₂.events → Owned w.ni →
          (pageOutcome nld ret (off - off % nld.writesize) (rangeColumns nld off data 0)).Step
            (logicBlock w) (logicBlock w₂) :=
        fun hgood ho => step_pageOutcome_columns hcolumns (hstep hgood (howned₁ ho))
      simp only [wp_ite, wp_pure]
      refine ⟨fun hne => ⟨hret, fun hgood ho => ?_⟩, fun hzero => ?_⟩
      · exact rangeOutcomes_failed hne hws hdata (hstep hgood ho)
      · have hzero : ret = 0 := not_not.mp hzero
        refine ⟨fun hdone => ⟨.inl trivial, fun hgood ho => ?_⟩, fun hmore => ?_⟩
        · rw [rangeOutcomes_last 0 hws hdata (by omega), ← hzero]
          exact ⟨logicBlock w₂, hstep hgood ho, rfl⟩
        · have hmore : nld.writesize - off % nld.writesize < data.length := by omega
          have hrest : (data.drop (nld.writesize - off % nld.writesize)).length =
              data.length - (nld.writesize - off % nld.writesize) := List.length_drop
          have hnonempty : data.drop (nld.writesize - off % nld.writesize) ≠ [] := by
            intro hnil
            rw [hnil, List.length_nil] at hrest
            omega
          rw [Nat.min_eq_left hmore.le]
          refine wp_mono (wp_and (ih (off + (nld.writesize - off % nld.writesize))
            (data.drop (nld.writesize - off % nld.writesize)) w₂ hcall.pool hnonempty (by omega))
            (writeRangeLoop_spec (L := Set.univ) hws fuel _ _ w₂ hcall.pool hnonempty
              (fun _ _ => Set.mem_univ _) subset_rfl)) ?_
          rintro ret' w₃ ⟨⟨hret', htrace⟩, hcall'⟩
          refine ⟨hret', fun hgood ho => ?_⟩
          have hgood₂ := hcall'.toStep.topGood hgood
          have hfirst := hstep hgood₂ ho
          rw [rangeOutcomes_rest ret' hws hmore]
          refine ⟨logicBlock w₂, ?_, htrace hgood (hcall.toStep.owned hgood₂ (howned₁ ho))⟩
          by_cases hret'' : ret' = 0
          · rw [hret'', ← hzero]
            exact hfirst
          · exact step_pageOutcome_lost hret'' hfirst

/-! ## Public calls -/

/-- What becomes of the device of logic blocks, as told by a call and its return value.  A call that
is refused does nothing. -/
def Call.outcomes (nld : LowerDevice) (ret : Int) (call : Call) : List NandOutcome :=
  if ret = -eRofs ∨ ret = -eInval then []
  else
    match call with
    | .eraseBlockRange addr size =>
        if size = 0 then []
        else
          eraseOutcomes ret (nld.addr2ba addr)
            (nld.addr2ba (u64 (addr + size - 1)) + 1 - nld.addr2ba addr)
    | .writeSinglePage addr data oob => [pageOutcome nld ret addr (columnsOf nld data oob)]
    | .writeRange addr data => rangeOutcomes nld ret addr data
    | .markBadBlock addr => [.lostBlock (nld.addr2ba addr)]
    | .readSinglePage _ => []
    | .readRange _ _ => []

theorem Call.outcomes_refused {ret : Int} (h : ret = -eRofs ∨ ret = -eInval) (call : Call) :
    call.outcomes nld ret = [] :=
  if_pos h

theorem not_refused {ret : Int} (h : ret = 0 ∨ ret = -eIo) : ¬ (ret = -eRofs ∨ ret = -eInval) := by
  simp only [eIo, eRofs, eInval] at h ⊢
  omega

/-- A refused call to mark a block does nothing. -/
theorem nmbmMarkBadBlock_refused (addr : Nat) (w : World) :
    wp (nmbmMarkBadBlock addr) nld (fun ret w' => ret = -eRofs ∨ ret = -eInval → w' = w) w := by
  have hzero : ¬ ((0 : Int) = -eRofs ∨ (0 : Int) = -eInval) := not_refused (.inl rfl)
  simp only [nmbmMarkBadBlock, wp_bind, wp_ask, wp_get, wp_ite, wp_pure]
  refine ⟨fun _ _ => trivial, fun _ => ⟨fun _ _ => trivial, fun _ =>
    ⟨fun _ _ => trivial, fun _ => ?_⟩⟩⟩
  exact fun h => absurd h hzero

/-- Every public call has its outcomes. -/
theorem Call.exec_trace (hpow : ∃ k, nld.writesize = 2 ^ k) (hhonest : Honest nld.fates)
    (hwritable : nld.readOnly = false) (hp : Pool nld w.ni) (call : Call) :
    wp call.exec nld (fun ret w' => TopGood w'.events → Owned w.ni →
      NandTrace (call.outcomes nld ret) (logicBlock w) (logicBlock w')) w := by
  have hws : 0 < nld.writesize := Nat.pos_of_isPowerOfTwo hpow
  have hrofs : TopGood w.events → Owned w.ni →
      NandTrace (call.outcomes nld (-eRofs)) (logicBlock w) (logicBlock w) := by
    intro _ _
    rw [outcomes_refused (.inl rfl)]
    rfl
  have hinval : TopGood w.events → Owned w.ni →
      NandTrace (call.outcomes nld (-eInval)) (logicBlock w) (logicBlock w) := by
    intro _ _
    rw [outcomes_refused (.inr rfl)]
    rfl
  have hzero : ¬ ((0 : Int) = -eRofs ∨ (0 : Int) = -eInval) := not_refused (.inl rfl)
  cases call with
  | eraseBlockRange addr size =>
      simp only [Call.exec, nmbmEraseBlockRange, wp_bind, wp_ask, wp_get, wp_ite, wp_pure]
      refine ⟨fun _ => hrofs, fun _ => ⟨fun _ => hinval, fun _ => ⟨fun _ => hinval, fun _ =>
        ⟨fun hsize _ _ => ?_, fun hsize => ?_⟩⟩⟩⟩
      · rw [outcomes, if_neg hzero]
        simp only [hsize, if_true]
        rfl
      · refine wp_mono (eraseBlocksLoop_trace hws hhonest _ _ w hp) ?_
        rintro ret w' ⟨hret, htrace⟩ hgood ho
        rw [outcomes, if_neg (not_refused hret)]
        simp only [if_neg hsize]
        exact htrace hgood ho
  | writeSinglePage addr data oob =>
      simp only [Call.exec, nmbmWriteSinglePage, wp_bind, wp_ask, wp_get, wp_ite, wp_pure]
      refine ⟨fun _ => hrofs, fun _ => ⟨fun _ => hinval, fun _ => ?_⟩⟩
      refine wp_mono (nmbmWriteLogicPage_outcome hws hhonest hwritable hp addr data oob) ?_
      rintro ret w' ⟨hret, hstep⟩ hgood ho
      rw [outcomes, if_neg (not_refused hret)]
      exact ⟨logicBlock w', hstep hgood ho, rfl⟩
  | writeRange addr data =>
      simp only [Call.exec, nmbmWriteRange, wp_bind, wp_ask, wp_get, wp_ite, wp_pure]
      refine ⟨fun _ => hrofs, fun _ => ⟨fun _ => hinval, fun _ => ⟨fun _ => hinval, fun _ =>
        ⟨fun hlen _ _ => ?_, fun hlen => ?_⟩⟩⟩⟩
      · rw [outcomes, if_neg hzero]
        simp only [rangeOutcomes, hlen, pageSpan_zero, List.range_zero, List.map_nil]
        rfl
      · refine wp_mono (writeRangeLoop_trace hpow hhonest hwritable _ addr data w hp
          (fun hnil => hlen (by rw [hnil]; rfl)) le_rfl) ?_
        rintro ret w' ⟨hret, htrace⟩ hgood ho
        rw [outcomes, if_neg (not_refused hret)]
        exact htrace hgood ho
  | markBadBlock addr =>
      have hspec := Call.exec_spec hws hp (.markBadBlock addr)
      refine wp_mono (wp_and hspec (nmbmMarkBadBlock_refused addr w)) ?_
      rintro ret w' ⟨hcall, hsame⟩ _ ho
      rw [outcomes]
      split_ifs with hrefused
      · rw [hsame hrefused]
        rfl
      · exact ⟨logicBlock w', ⟨fun b hb => hcall.toStep.logicBlock ho hb, trivial⟩, rfl⟩
  | readSinglePage addr =>
      have hnone : ∀ ret, (Call.readSinglePage addr).outcomes nld ret = [] := fun ret => ite_self []
      simp only [hnone]
      simp only [Call.exec, nmbmReadSinglePage, wp_bind, wp_ask, wp_get, wp_ite, wp_pure]
      refine ⟨fun _ _ _ => rfl, fun _ => ⟨fun _ _ _ => rfl, fun _ => ?_⟩⟩
      exact wp_mono (nmbmReadLogicPage_quiet nld addr w) (fun _ _ h _ _ => (h.phys ∅).logicBlock)
  | readRange addr size =>
      have hnone : ∀ ret, (Call.readRange addr size).outcomes nld ret = [] := fun ret => ite_self []
      simp only [hnone, Call.exec, wp_bind, wp_pure]
      exact wp_mono (nmbmReadRange_phys nld addr size w) (fun _ _ h _ _ => h.logicBlock)

end Nmbm
end ZyxelRouter
