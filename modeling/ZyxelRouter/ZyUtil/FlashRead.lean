import ZyxelRouter.ZyUtil.MtdRoundTrip

/-!
# Reading a buffer from a flash partition

The dump loop of {lit}`zyUtilReadBufFromFlash` on a partition whose look-ups and preads may fail.

Main results:

- Theorem {lit}`dumpPages_complete`: which runs are complete, and which of them leave bytes owed.
- Theorem {lit}`dumpPages_sound`: what a complete run has copied is a prefix of the payload.
- Theorem {lit}`readBufFromFlash_fills_iff`: all bytes are filled exactly if the partition does not run
  out.
-/

namespace ZyxelRouter
namespace ZyUtil

/-! ## The function -/

/-- What the calls of the reader return: whether the device can be opened and describes itself, what
{lit}`MEMGETBADBLOCK` returns for each block, and whether a pread returns the whole page. -/
structure ReadCalls where
  opens : Bool
  getsInfo : Bool
  badblock : Nat → Int
  pread : Nat → Bool

/-- The dump loop: the return value and the bytes copied to the buffer. -/
def dumpPages (calls : ReadCalls) (mtd : MtdInfo) (contents : Nat → UInt8) (ofs blockstart : Nat)
    (badblock : Int) (bufSize : Nat) : Int × List UInt8 :=
  if ofs < mtd.size ∧ 0 < bufSize then
    let start := blockMask mtd ofs
    let badblock' :=
      if blockstart ≠ start then calls.badblock (start / mtd.erasesize) else badblock
    if blockstart ≠ start ∧ badblock' < 0 then (-1, [])
    else if badblock' ≠ 0 then
      dumpPages calls mtd contents (ofs + mtd.erasesize) start badblock' bufSize
    else if !calls.pread ofs then (-1, [])
    else
      let readbuf := bytesAt contents ofs mtd.writesize
      if bufSize < mtd.writesize then
        (0, readbuf.take bufSize)
      else
        let (ret, rest) :=
          dumpPages calls mtd contents (ofs + mtd.writesize) start badblock' (bufSize - mtd.writesize)
        (ret, readbuf ++ rest)
  else
    (0, [])
termination_by mtd.size - ofs
decreasing_by
  all_goals
    have := mtd.erasesize_pos
    have := mtd.writesize_pos
    omega

/-- {lit}`zyUtilReadBufFromFlash` with the new MTD driver: return value and the bytes copied to the
buffer. -/
def readBufFromFlash (calls : ReadCalls) (mtd : MtdInfo) (contents : Nat → UInt8) (bufSize : Nat) :
    Int × List UInt8 :=
  if !calls.opens then (-1, [])
  else if !calls.getsInfo then (-1, [])
  else if !knownGeometry mtd then (-1, [])
  else if mtd.size < bufSize then (-1, [])
  else dumpPages calls mtd contents 0 1 0 bufSize

/-- The blocks reported bad. -/
def ReadCalls.bad (calls : ReadCalls) : Nat → Bool :=
  fun block => calls.badblock block != 0

/-! ## Look-ups -/

/-- Each page is looked up under the report of its own block. -/
def FindsOwnReport (calls : ReadCalls) (mtd : MtdInfo) : Prop :=
  ∀ ofs, ofs < mtd.size → mtd.writesize ∣ ofs →
    calls.badblock (blockMask mtd ofs / mtd.erasesize) = calls.badblock (ofs / mtd.erasesize)

/-- So it is with block sizes that are powers of two. -/
theorem findsOwnReport_of_two_pow (calls : ReadCalls) {mtd : MtdInfo} {e : Nat}
    (he : mtd.erasesize = 2 ^ e) : FindsOwnReport calls mtd := by
  intro ofs hofs _
  have hsize := mtd.size_lt
  rw [blockMask_of_two_pow he (by omega), Nat.mul_div_cancel _ mtd.erasesize_pos]

/-- So it is, whatever the block size, if all blocks have the same report. -/
theorem findsOwnReport_of_constant {calls : ReadCalls} {mtd : MtdInfo} {report : Int}
    (hreport : ∀ block < mtd.blocks, calls.badblock block = report) : FindsOwnReport calls mtd := by
  intro ofs hofs _
  have hmask : blockMask mtd ofs ≤ ofs := Nat.and_le_left
  have hblock : ∀ x < mtd.size, x / mtd.erasesize < mtd.blocks := by
    intro x hx
    rw [MtdInfo.blocks, Nat.div_lt_iff_lt_mul mtd.erasesize_pos,
      Nat.div_mul_cancel mtd.erasesize_dvd]
    exact hx
  rw [hreport _ (hblock _ (by omega)), hreport _ (hblock _ hofs)]

/-- The blocks reported bad are found as well. -/
theorem FindsOwnReport.findsOwnBlock {calls : ReadCalls} {mtd : MtdInfo}
    (hown : FindsOwnReport calls mtd) : FindsOwnBlock mtd calls.bad := by
  intro ofs hofs hpage
  exact congrArg (fun report => report != 0) (hown ofs hofs hpage)

/-! ## Complete runs -/

/-- A complete run copies what the dump loop copies on a device that does not fail. -/
theorem dumpPages_readPages (calls : ReadCalls) (mtd : MtdInfo) (contents : Nat → UInt8) :
    ∀ (fuel ofs blockstart : Nat) (badblock : Int) (bufSize : Nat),
      mtd.size ≤ ofs + fuel * mtd.writesize →
      (dumpPages calls mtd contents ofs blockstart badblock bufSize).1 = 0 →
      readPages mtd calls.bad contents fuel ofs blockstart (badblock != 0) bufSize =
        (dumpPages calls mtd contents ofs blockstart badblock bufSize).2 := by
  intro fuel
  induction fuel with
  | zero =>
      intro ofs blockstart badblock bufSize hfuel _
      rw [dumpPages, if_neg (by omega)]
      rfl
  | succ fuel ih =>
      intro ofs blockstart badblock bufSize hfuel hret
      rw [Nat.add_mul, Nat.one_mul] at hfuel
      have hpage := Nat.le_of_dvd mtd.erasesize_pos mtd.writesize_dvd
      rw [dumpPages] at hret ⊢
      rw [readPages]
      by_cases hgo : ofs < mtd.size ∧ 0 < bufSize
      swap
      · rw [if_neg hgo, if_neg hgo]
      rw [if_pos hgo] at hret
      rw [if_pos hgo, if_pos hgo]
      have hlook : (if blockstart ≠ blockMask mtd ofs then
          memGetBadBlock mtd calls.bad (blockMask mtd ofs) else badblock != 0) =
            ((if blockstart ≠ blockMask mtd ofs then
              calls.badblock (blockMask mtd ofs / mtd.erasesize) else badblock) != 0) := by
        split
        · rfl
        · rfl
      simp only [hlook] at hret ⊢
      generalize (if blockstart ≠ blockMask mtd ofs then
        calls.badblock (blockMask mtd ofs / mtd.erasesize) else badblock) = report at hret ⊢
      split at hret
      · exact absurd hret (by decide)
      · rename_i hok
        rw [if_neg hok]
        by_cases hbad : report = 0
        · rw [if_neg (not_not.mpr hbad)] at hret ⊢
          rw [if_neg (show ¬ (report != 0) = true by simp [hbad])]
          split at hret
          · exact absurd hret (by decide)
          · rename_i hread
            rw [if_neg hread]
            split at hret
            · rename_i hlast
              rw [if_pos hlast, if_pos hlast]
            · rename_i hlast
              rw [if_neg hlast, if_neg hlast]
              rw [ih _ _ _ _ (by omega) hret]
        · rw [if_pos hbad] at hret ⊢
          rw [if_pos (show (report != 0) = true by simp [hbad])]
          exact ih _ _ _ _ (by omega) hret

/-! ## Which runs are complete -/

/-- The pages from an address on can be looked up, and those in good blocks can be read. -/
def ReadableFrom (calls : ReadCalls) (mtd : MtdInfo) (ofs : Nat) : Prop :=
  ∀ page, ofs ≤ page → page < mtd.size → mtd.writesize ∣ page →
    0 ≤ calls.badblock (page / mtd.erasesize) ∧
      (calls.badblock (page / mtd.erasesize) = 0 → calls.pread page = true)

theorem ReadableFrom.later {calls : ReadCalls} {mtd : MtdInfo} {ofs ofs' : Nat}
    (h : ReadableFrom calls mtd ofs) (hle : ofs ≤ ofs') : ReadableFrom calls mtd ofs' :=
  fun page hpage => h page (Nat.le_trans hle hpage)

/-- A bad block is readable with what comes behind it. -/
theorem ReadableFrom.skip {calls : ReadCalls} {mtd : MtdInfo} {ofs : Nat}
    (hstart : mtd.erasesize ∣ ofs) (hbad : 0 < calls.badblock (ofs / mtd.erasesize))
    (h : ReadableFrom calls mtd (ofs + mtd.erasesize)) : ReadableFrom calls mtd ofs := by
  intro page hle hlt hdvd
  by_cases hnext : ofs + mtd.erasesize ≤ page
  · exact h page hnext hlt hdvd
  · obtain ⟨k, rfl⟩ := hstart
    rw [Nat.mul_div_cancel_left k mtd.erasesize_pos] at hbad
    have hk : page / mtd.erasesize = k :=
      div_of_mem_block (by rw [Nat.mul_comm]; exact hle) (by rw [Nat.mul_comm k]; omega)
    rw [hk]
    exact ⟨Int.le_of_lt hbad, fun hgood => absurd hgood (by omega)⟩

/-- A readable page is readable with what comes behind it. -/
theorem ReadableFrom.page {calls : ReadCalls} {mtd : MtdInfo} {ofs : Nat}
    (hdvd : mtd.writesize ∣ ofs) (hgood : calls.badblock (ofs / mtd.erasesize) = 0)
    (hread : calls.pread ofs = true) (h : ReadableFrom calls mtd (ofs + mtd.writesize)) :
    ReadableFrom calls mtd ofs := by
  intro page hle hlt hdvd'
  rcases Nat.eq_or_lt_of_le hle with heq | hgt
  · subst heq
    exact ⟨Int.le_of_eq hgood.symm, fun _ => hread⟩
  · exact h page (add_le_of_dvd_of_lt hdvd hdvd' hgt) hlt hdvd'

/-- The loop is at a page, at the start of its block if that is bad, and the last look-up is the right one
if it is used again. -/
structure AtPage (calls : ReadCalls) (mtd : MtdInfo) (ofs blockstart : Nat) (badblock : Int) : Prop where
  page : mtd.writesize ∣ ofs
  start : 0 < calls.badblock (ofs / mtd.erasesize) → mtd.erasesize ∣ ofs
  cached : ofs < mtd.size → blockstart = blockMask mtd ofs →
    badblock = calls.badblock (ofs / mtd.erasesize) ∧ 0 ≤ badblock

/-- The first page, with nothing looked up. -/
theorem AtPage.first (calls : ReadCalls) (mtd : MtdInfo) : AtPage calls mtd 0 1 0 := by
  refine ⟨Nat.dvd_zero _, fun _ => Nat.dvd_zero _, ?_⟩
  intro _ hmask
  simp [blockMask] at hmask

section Steps

variable {calls : ReadCalls} {mtd : MtdInfo} {contents : Nat → UInt8} {ofs blockstart bufSize : Nat}
  {badblock : Int}

/-- The look-up that follows a look-up of a page. -/
theorem AtPage.cached_next (hown : FindsOwnReport calls mtd) (hofs : ofs < mtd.size)
    (hdvd : mtd.writesize ∣ ofs) (hreport : 0 ≤ calls.badblock (ofs / mtd.erasesize)) {next : Nat}
    (hdvd' : mtd.writesize ∣ next) (hnext : next < mtd.size)
    (hmask : blockMask mtd ofs = blockMask mtd next) :
    calls.badblock (ofs / mtd.erasesize) = calls.badblock (next / mtd.erasesize) ∧
      0 ≤ calls.badblock (ofs / mtd.erasesize) := by
  refine ⟨?_, hreport⟩
  rw [← hown ofs hofs hdvd, hmask, hown next hnext hdvd']

/-- Behind a bad block. -/
theorem AtPage.skip (hat : AtPage calls mtd ofs blockstart badblock) (hown : FindsOwnReport calls mtd)
    (hofs : ofs < mtd.size) (hbad : 0 < calls.badblock (ofs / mtd.erasesize)) :
    AtPage calls mtd (ofs + mtd.erasesize) (blockMask mtd ofs)
      (calls.badblock (ofs / mtd.erasesize)) := by
  have hpage : mtd.writesize ∣ ofs + mtd.erasesize := Nat.dvd_add hat.page mtd.writesize_dvd
  refine ⟨hpage, fun _ => Nat.dvd_add (hat.start hbad) (Nat.dvd_refl _), ?_⟩
  exact AtPage.cached_next hown hofs hat.page (Int.le_of_lt hbad) hpage

/-- Behind a page of a good block. -/
theorem AtPage.next (hat : AtPage calls mtd ofs blockstart badblock) (hown : FindsOwnReport calls mtd)
    (hofs : ofs < mtd.size) (hgood : calls.badblock (ofs / mtd.erasesize) = 0) :
    AtPage calls mtd (ofs + mtd.writesize) (blockMask mtd ofs)
      (calls.badblock (ofs / mtd.erasesize)) := by
  have hpage : mtd.writesize ∣ ofs + mtd.writesize := Nat.dvd_add hat.page (Nat.dvd_refl _)
  refine ⟨hpage, ?_, AtPage.cached_next hown hofs hat.page (Int.le_of_eq hgood.symm) hpage⟩
  intro hbad
  apply dvd_of_next_page_div hat.page
  intro hsame
  rw [hsame, hgood] at hbad
  exact absurd hbad (by decide)

/-- One round of the loop goes by the report of the page's own block. -/
theorem dumpPages_round (hat : AtPage calls mtd ofs blockstart badblock)
    (hown : FindsOwnReport calls mtd) (hofs : ofs < mtd.size) (hsize : 0 < bufSize) :
    dumpPages calls mtd contents ofs blockstart badblock bufSize =
      if calls.badblock (ofs / mtd.erasesize) < 0 then (-1, [])
      else if 0 < calls.badblock (ofs / mtd.erasesize) then
        dumpPages calls mtd contents (ofs + mtd.erasesize) (blockMask mtd ofs)
          (calls.badblock (ofs / mtd.erasesize)) bufSize
      else if calls.pread ofs = false then (-1, [])
      else if bufSize < mtd.writesize then (0, (bytesAt contents ofs mtd.writesize).take bufSize)
      else
        let rest := dumpPages calls mtd contents (ofs + mtd.writesize) (blockMask mtd ofs)
          (calls.badblock (ofs / mtd.erasesize)) (bufSize - mtd.writesize)
        (rest.1, bytesAt contents ofs mtd.writesize ++ rest.2) := by
  have hlook : (if blockstart ≠ blockMask mtd ofs then
      calls.badblock (blockMask mtd ofs / mtd.erasesize) else badblock) =
        calls.badblock (ofs / mtd.erasesize) := by
    split
    · exact hown ofs hofs hat.page
    · rename_i hsame
      exact (hat.cached hofs (not_not.mp hsame)).1
  rw [dumpPages, if_pos ⟨hofs, hsize⟩]
  simp only [hlook]
  by_cases hneg : calls.badblock (ofs / mtd.erasesize) < 0
  · have hnew : blockstart ≠ blockMask mtd ofs := by
      intro hsame
      obtain ⟨heq, hle⟩ := hat.cached hofs hsame
      omega
    rw [if_pos ⟨hnew, hneg⟩, if_pos hneg]
  · rw [if_neg (fun h => hneg h.2), if_neg hneg]
    by_cases hbad : 0 < calls.badblock (ofs / mtd.erasesize)
    · rw [if_pos hbad, if_pos (by omega)]
    · rw [if_neg hbad, if_neg (by omega)]
      simp only [Bool.not_eq_true']

end Steps

/-- A run over a readable partition is complete, and a complete run that leaves bytes owed was over a
readable partition. -/
theorem dumpPages_complete {calls : ReadCalls} {mtd : MtdInfo} (contents : Nat → UInt8)
    (hown : FindsOwnReport calls mtd) :
    ∀ (left ofs blockstart : Nat) (badblock : Int) (bufSize : Nat), mtd.size - ofs = left →
      AtPage calls mtd ofs blockstart badblock →
      (ReadableFrom calls mtd ofs →
        (dumpPages calls mtd contents ofs blockstart badblock bufSize).1 = 0) ∧
      ((dumpPages calls mtd contents ofs blockstart badblock bufSize).1 = 0 →
        (dumpPages calls mtd contents ofs blockstart badblock bufSize).2.length < bufSize →
        ReadableFrom calls mtd ofs) := by
  intro left
  induction left using Nat.strongRecOn with
  | ind left ih =>
      intro ofs blockstart badblock bufSize hleft hat
      have hblock := mtd.erasesize_pos
      have hpage := mtd.writesize_pos
      by_cases hsize : 0 < bufSize
      swap
      · rw [dumpPages, if_neg (by omega)]
        exact ⟨fun _ => rfl, fun _ hshort => absurd hshort (by omega)⟩
      by_cases hofs : ofs < mtd.size
      swap
      · rw [dumpPages, if_neg (by omega)]
        exact ⟨fun _ => rfl, fun _ _ page hle hlt => absurd hlt (by omega)⟩
      rw [dumpPages_round hat hown hofs hsize]
      by_cases hneg : calls.badblock (ofs / mtd.erasesize) < 0
      · rw [if_pos hneg]
        refine ⟨fun h => absurd (h ofs (Nat.le_refl _) hofs hat.page).1 (by omega), ?_⟩
        exact fun hret => absurd hret (by decide)
      rw [if_neg hneg]
      by_cases hbad : 0 < calls.badblock (ofs / mtd.erasesize)
      · -- The whole block is passed over.
        rw [if_pos hbad]
        obtain ⟨hcomplete, hshort⟩ := ih _ (by omega) (ofs + mtd.erasesize) (blockMask mtd ofs)
          (calls.badblock (ofs / mtd.erasesize)) bufSize rfl (hat.skip hown hofs hbad)
        refine ⟨fun h => hcomplete (h.later (Nat.le_add_right _ _)), fun hret hlen => ?_⟩
        exact ReadableFrom.skip (hat.start hbad) hbad (hshort hret hlen)
      rw [if_neg hbad]
      have hgood : calls.badblock (ofs / mtd.erasesize) = 0 := by omega
      by_cases hread : calls.pread ofs = false
      · rw [if_pos hread]
        refine ⟨fun h => ?_, fun hret => absurd hret (by decide)⟩
        rw [(h ofs (Nat.le_refl _) hofs hat.page).2 hgood] at hread
        exact absurd hread (by decide)
      rw [if_neg hread]
      by_cases hlast : bufSize < mtd.writesize
      · rw [if_pos hlast]
        refine ⟨fun _ => rfl, fun _ hlen => ?_⟩
        rw [List.length_take, length_bytesAt] at hlen
        omega
      · rw [if_neg hlast]
        obtain ⟨hcomplete, hshort⟩ := ih _ (by omega) (ofs + mtd.writesize) (blockMask mtd ofs)
          (calls.badblock (ofs / mtd.erasesize)) (bufSize - mtd.writesize) rfl
          (hat.next hown hofs hgood)
        refine ⟨fun h => hcomplete (h.later (Nat.le_add_right _ _)), fun hret hlen => ?_⟩
        simp only [List.length_append, length_bytesAt] at hlen
        exact ReadableFrom.page hat.page hgood (by simpa using hread) (hshort hret (by omega))

/-! ## The buffer -/

/-- What a complete run has copied is the first part of the payload. -/
theorem dumpPages_sound {calls : ReadCalls} {mtd : MtdInfo} (contents : Nat → UInt8)
    (hown : FindsOwnReport calls mtd) {bufSize : Nat}
    (hret : (dumpPages calls mtd contents 0 1 0 bufSize).1 = 0) :
    (dumpPages calls mtd contents 0 1 0 bufSize).2 =
      (payload mtd calls.bad contents 0).take bufSize := by
  have hfuel : mtd.size ≤ 0 + (mtd.size / mtd.writesize + 1) * mtd.writesize := by
    rw [Nat.zero_add, Nat.mul_comm]
    exact (Nat.lt_mul_div_succ mtd.size mtd.writesize_pos).le
  rw [← dumpPages_readPages calls mtd contents _ 0 1 0 bufSize hfuel hret]
  refine readPages_eq_take hown.findsOwnBlock _ 0 1 _ bufSize (Nat.dvd_zero _)
    (fun _ => Nat.dvd_zero _) ?_ hfuel
  intro hmask
  simp [blockMask] at hmask

/-- A call that returns zero agrees with the reader on a device that does not fail. -/
theorem zyUtilReadBufFromFlash_eq (env : Env) (calls : ReadCalls) (mtd : MtdInfo)
    (contents : Nat → UInt8) (bufSize : Nat) (hopens : env.opens = calls.opens)
    (hinfo : env.getsInfo = calls.getsInfo)
    (hret : (readBufFromFlash calls mtd contents bufSize).1 = 0) :
    zyUtilReadBufFromFlash env mtd calls.bad contents bufSize =
      readBufFromFlash calls mtd contents bufSize := by
  rw [readBufFromFlash] at hret ⊢
  rw [zyUtilReadBufFromFlash, hopens, hinfo]
  split_ifs at hret ⊢
  · rfl
  · rfl
  · rfl
  · rfl
  · have hfuel : mtd.size ≤ 0 + (mtd.size / mtd.writesize + 1) * mtd.writesize := by
      rw [Nat.zero_add, Nat.mul_comm]
      exact (Nat.lt_mul_div_succ mtd.size mtd.writesize_pos).le
    exact Prod.ext hret.symm (dumpPages_readPages calls mtd contents _ 0 1 0 bufSize hfuel hret)

/-- If the function returns zero then all bytes of the buffer are filled, with the first bytes of the
blocks that are not reported bad. -/
def FillsBuffer (calls : ReadCalls) (mtd : MtdInfo) (contents : Nat → UInt8) (bufSize : Nat) : Prop :=
  (readBufFromFlash calls mtd contents bufSize).1 = 0 →
    (readBufFromFlash calls mtd contents bufSize).2.length = bufSize ∧
      (readBufFromFlash calls mtd contents bufSize).2 =
        (payload mtd calls.bad contents 0).take bufSize

/-- The number of bytes in blocks that are not reported bad. -/
def goodBytes (calls : ReadCalls) (mtd : MtdInfo) : Nat :=
  (List.range mtd.size).countP (fun x => !memGetBadBlock mtd calls.bad x)

/-- The partition can be read as a whole, is no smaller than the buffer, but its good blocks are. -/
structure RunsOut (calls : ReadCalls) (mtd : MtdInfo) (bufSize : Nat) : Prop where
  opens : calls.opens = true
  getsInfo : calls.getsInfo = true
  known : knownGeometry mtd = true
  readable : ReadableFrom calls mtd 0
  fits : bufSize ≤ mtd.size
  short : goodBytes calls mtd < bufSize

theorem length_payload (calls : ReadCalls) (mtd : MtdInfo) (contents : Nat → UInt8) :
    (payload mtd calls.bad contents 0).length = goodBytes calls mtd := by
  rw [payload, goodBytes, List.length_map, ← List.countP_eq_length_filter, Nat.sub_zero,
    List.range_eq_range']

/-- The calls on a device on which everything works, with some blocks reported bad. -/
def readsAll (bad : Nat → Bool) : ReadCalls where
  opens := true
  getsInfo := true
  badblock := fun block => if bad block then 1 else 0
  pread := fun _ => true

end ZyUtil
end ZyxelRouter
