import ZyxelRouter.ZyUtil.MtdRoundTrip

/-!
# The file position of the MTD writer

{lit}`_zyUtilWriteBufToFlash_mtd` writes at the file position.  Writes, read-backs and three kinds of
{lit}`lseek` move it, and it has to be at the next block whenever one block is done with.

Main results:

- Theorem {lit}`writeUnit_pages`: the page loop, with and without a failing page.
- Theorem {lit}`writeBlock_outcome`: where one block leaves the position.
- Theorem {lit}`blockStarts_aligned`: a run that keeps its position.
- Theorem {lit}`blockStarts_lost`: a run that loses it.
- Theorem {lit}`flashWrite_despite_failures_iff`: the buffer is written despite failing blocks, at the start
  of each block, exactly if no block loses the position in front of a block not reported bad.
-/

namespace ZyxelRouter
namespace ZyUtil

/-! ## What a run writes -/

/-- The writes of a run to blocks not reported bad: the start of the block and the file position. -/
def blockStarts (env : Env) (mtd : MtdInfo) (bad : Nat → Bool) :
    Nat → Nat → Dev → List UInt8 → List (Nat × Nat)
  | 0, _, _, _ => []
  | n + 1, start, dev, rest =>
      if rest.length = 0 then []
      else
        let (dev', rest') := writeBlock env mtd bad start dev rest
        let later := blockStarts env mtd bad n (start + mtd.erasesize) dev' rest'
        if memGetBadBlock mtd bad start then later else (start, dev.fpos) :: later

/-- The same for a call of {lit}`_zyUtilWriteBufToFlash_mtd`. -/
def writeStarts (env : Env) (mtd : MtdInfo) (bad : Nat → Bool) (contents : Nat → UInt8)
    (buf : List UInt8) : List (Nat × Nat) :=
  if buf.length = 0 ∨ env.opens = false ∨ env.getsInfo = false ∨ mtd.size < buf.length then []
  else
    blockStarts env mtd bad mtd.blocks 0 (eraseBlocks env mtd mtd.blocks 0 (openDev contents)) buf

/-- A block that is not reported bad, accepts each write and reads back correctly. -/
structure Sound (env : Env) (mtd : MtdInfo) (bad : Nat → Bool) (k : Nat) : Prop where
  good : bad k = false
  writes : ∀ a t, k * mtd.erasesize ≤ a → a < k * mtd.erasesize + mtd.erasesize →
    env.write a t = .stored
  reads : ∀ t, env.read (k * mtd.erasesize) t = .truthful

open Classical in
/-- The number of sound blocks in front of a block. -/
noncomputable def soundBefore (env : Env) (mtd : MtdInfo) (bad : Nat → Bool) (k : Nat) : Nat :=
  (List.range k).countP (fun b => Sound env mtd bad b)

/-- Enough blocks are sound to hold the buffer. -/
def Enough (env : Env) (mtd : MtdInfo) (bad : Nat → Bool) (bufSize : Nat) : Prop :=
  bufSize ≤ soundBefore env mtd bad mtd.blocks * mtd.erasesize

/-- A call writes the buffer if enough blocks are sound, and writes to each block from its start. -/
structure WritesDespiteFailures (env : Env) (mtd : MtdInfo) (bad : Nat → Bool)
    (contents : Nat → UInt8) (buf : List UInt8) : Prop where
  stores : Enough env mtd bad buf.length →
    (zyUtilWriteBufToFlashMtd env mtd bad contents buf).1 = .success
  aligned : ∀ p ∈ writeStarts env mtd bad contents buf, p.2 = p.1

/-! ## What a block does with its part of the buffer -/

/-- The first attempt at a page returns the full count. -/
def takesPage (env : Env) (a : Nat) : Bool :=
  match env.write a 0 with
  | .failed _ => false
  | _ => true

/-- So do the first attempts at the pages of {lit}`n` bytes. -/
def TakesPages (env : Env) (mtd : MtdInfo) (start n : Nat) : Prop :=
  ∀ j, j * mtd.writesize < n → takesPage env (start + j * mtd.writesize) = true

/-- A byte that is stored for a byte of the unit. -/
def heldByte (env : Env) (mtd : MtdInfo) (start : Nat) (unit : List UInt8) (i : Nat) : UInt8 :=
  match env.write (start + i / mtd.writesize * mtd.writesize) 0 with
  | .wrong left => left (start + i)
  | _ => unit.getD i 0

/-- What the read-back returns. -/
def readBackResult (env : Env) (start n : Nat) : Int :=
  match env.read start 0 with
  | .truthful => n
  | .returns ret _ => max (-1) (min ret n)

/-- The bytes it delivers. -/
def readBackData (env : Env) (mtd : MtdInfo) (start : Nat) (unit : List UInt8) : List UInt8 :=
  match env.read start 0 with
  | .truthful => (List.range unit.length).map (heldByte env mtd start unit)
  | .returns _ data => data

/-- A unit that is written and read back. -/
structure Confirmed (env : Env) (mtd : MtdInfo) (start : Nat) (unit : List UInt8) : Prop where
  pages : TakesPages env mtd start unit.length
  result : readBackResult env start unit.length = unit.length
  data : readBackData env mtd start unit = unit

/-- The position behind a read-back that was not confirmed: {lit}`lseek(-result, SEEK_CUR)` for a short
one, and no {lit}`lseek` for other data. -/
def positionAfter (env : Env) (start n : Nat) : Nat :=
  if readBackResult env start n = n then start + n
  else if readBackResult env start n = -1 then start + 1
  else start

/-- A block that takes its pages, is not confirmed, and leaves the position at another place than the next
block. -/
structure LosesPosition (env : Env) (mtd : MtdInfo) (start : Nat) (unit : List UInt8) : Prop where
  pages : TakesPages env mtd start unit.length
  unconfirmed : ¬ Confirmed env mtd start unit
  misplaced : positionAfter env start unit.length ≠ start + mtd.erasesize

open Classical in
/-- What is left of the buffer in front of a block, if all blocks before are written from their starts. -/
noncomputable def restBefore (env : Env) (mtd : MtdInfo) (bad : Nat → Bool) (buf : List UInt8) :
    Nat → List UInt8
  | 0 => buf
  | k + 1 =>
      let rest := restBefore env mtd bad buf k
      if bad k = false ∧ Confirmed env mtd (k * mtd.erasesize) (rest.take mtd.erasesize) then
        rest.drop mtd.erasesize
      else rest

/-! ## One block -/

section Block

variable {env : Env} {mtd : MtdInfo} {bad : Nat → Bool} {dev : Dev} {k n pos : Nat}
  {rest data : List UInt8}

/-- The bytes of a range, one by one. -/
theorem bytesAt_eq_map (c : Nat → UInt8) (pos n : Nat) :
    bytesAt c pos n = (List.range n).map (fun i => c (pos + i)) := by
  rw [bytesAt, List.range'_eq_map_range, List.map_map]
  rfl

/-- A page whose first attempt returns the full count. -/
theorem writePage_takes (mtd : MtdInfo) (data : List UInt8) (hready : Ready dev pos)
    (htakes : takesPage env pos = true) (hsize : pos + data.length ≤ mtd.size)
    (hpos : 0 < data.length) :
    ∃ dev', writePage env mtd dev data = (true, dev') ∧ Ready dev' (pos + data.length) ∧
      dev'.reads = dev.reads ∧
      (∀ i, i < data.length → dev'.contents (pos + i) =
        match env.write pos 0 with
        | .wrong left => left (pos + i)
        | _ => data.getD i 0) ∧
      ∀ a, a < pos → dev'.contents a = dev.contents a := by
  have hfirst : dev.writes pos = 0 := hready.writes pos (Nat.le_refl pos)
  have hready' : ∀ contents, Ready { dev with
      writes := bump dev.writes pos
      contents := contents
      fpos := pos + data.length } (pos + data.length) := by
    intro contents
    refine ⟨rfl, ?_, fun a ha => hready.reads a (by omega)⟩
    intro a ha
    simp only [bump]
    rw [if_neg (by omega)]
    exact hready.writes a (by omega)
  rw [takesPage] at htakes
  simp only [writePage, hready.fpos, hfirst]
  rw [if_neg (by omega)]
  cases hfate : env.write pos 0 with
  | stored =>
      refine ⟨_, rfl, hready' _, rfl, ?_, ?_⟩
      · intro i hi
        simp only [put, fill]
        rw [if_pos ⟨Nat.le_add_right pos i, by omega⟩, Nat.add_sub_cancel_left]
      · intro a ha
        exact put_of_lt ha
  | wrong left =>
      refine ⟨_, rfl, hready' _, rfl, ?_, ?_⟩
      · intro i hi
        simp only [fill]
        rw [if_pos ⟨Nat.le_add_right pos i, by omega⟩]
      · intro a ha
        simp only [fill]
        rw [if_neg (by omega)]
  | failed left =>
      simp [hfate] at htakes

/-- A page whose first attempt fails. -/
theorem writePage_fails (mtd : MtdInfo) (data : List UInt8) (hready : Ready dev pos)
    (hfails : takesPage env pos = false) :
    ∃ dev', writePage env mtd dev data = (false, dev') ∧
      (∀ a, pos < a → dev'.writes a = 0) ∧ dev'.reads = dev.reads := by
  have hfirst : dev.writes pos = 0 := hready.writes pos (Nat.le_refl pos)
  have hwrites : ∀ a, pos < a → bump dev.writes pos a = 0 := by
    intro a ha
    simp only [bump]
    rw [if_neg (by omega)]
    exact hready.writes a (by omega)
  rw [takesPage] at hfails
  simp only [writePage, hready.fpos, hfirst]
  split
  · exact ⟨_, rfl, hwrites, rfl⟩
  · cases hfate : env.write pos 0 with
    | stored =>
        simp [hfate] at hfails
    | wrong left =>
        simp [hfate] at hfails
    | failed left => exact ⟨_, rfl, hwrites, rfl⟩

/-- The pages behind the first one. -/
theorem takesPages_iff {pos n : Nat} (hn : mtd.writesize < n) :
    TakesPages env mtd pos n ↔
      takesPage env pos = true ∧ TakesPages env mtd (pos + mtd.writesize) (n - mtd.writesize) := by
  constructor
  · intro h
    refine ⟨by simpa using h 0 (by omega), ?_⟩
    intro j hj
    have hnext := h (j + 1) (by rw [Nat.add_mul, Nat.one_mul]; omega)
    rw [Nat.add_mul, Nat.one_mul, Nat.add_comm (j * _), ← Nat.add_assoc] at hnext
    exact hnext
  · rintro ⟨hfirst, hrest⟩ j hj
    cases j with
    | zero => simpa using hfirst
    | succ j =>
        rw [Nat.add_mul, Nat.one_mul] at hj ⊢
        rw [Nat.add_comm (j * _), ← Nat.add_assoc]
        exact hrest j (by omega)

/-- Up to one page. -/
theorem takesPages_small {pos n : Nat} (hpos : 0 < n) (hn : n ≤ mtd.writesize) :
    TakesPages env mtd pos n ↔ takesPage env pos = true := by
  constructor
  · intro h
    simpa using h 0 (by omega)
  · intro h j hj
    cases j with
    | zero => simpa using h
    | succ j =>
        rw [Nat.add_mul, Nat.one_mul] at hj
        omega

/-- The bytes held behind the first page. -/
theorem heldByte_next (env : Env) (mtd : MtdInfo) (pos : Nat) (unit : List UInt8) (i : Nat) :
    heldByte env mtd (pos + mtd.writesize) (unit.drop mtd.writesize) i =
      heldByte env mtd pos unit (mtd.writesize + i) := by
  have hdiv : (mtd.writesize + i) / mtd.writesize = i / mtd.writesize + 1 := by
    rw [Nat.add_comm, Nat.add_div_right i mtd.writesize_pos]
  have haddr : pos + (i / mtd.writesize + 1) * mtd.writesize =
      pos + mtd.writesize + i / mtd.writesize * mtd.writesize := by
    rw [Nat.add_mul, Nat.one_mul]
    omega
  rw [heldByte, heldByte, hdiv, haddr, Nat.add_assoc pos mtd.writesize i]
  cases env.write (pos + mtd.writesize + i / mtd.writesize * mtd.writesize) 0 with
  | stored => simp [List.getD_eq_getElem?_getD]
  | wrong left => rfl
  | failed left => simp [List.getD_eq_getElem?_getD]

/-- The bytes held in the first page. -/
theorem heldByte_first (env : Env) (mtd : MtdInfo) (pos : Nat) (unit : List UInt8) {i : Nat}
    (hi : i < mtd.writesize) :
    heldByte env mtd pos unit i =
      match env.write pos 0 with
      | .wrong left => left (pos + i)
      | _ => unit.getD i 0 := by
  rw [heldByte, Nat.div_eq_of_lt hi, Nat.zero_mul, Nat.add_zero]

/-- The page loop over a unit whose pages are all taken. -/
theorem writeUnit_pages (offset : Nat) :
    ∀ (fuel : Nat) (dev : Dev) (unit : List UInt8) (pos : Nat),
      Ready dev pos → TakesPages env mtd pos unit.length → pos + unit.length ≤ mtd.size →
      unit.length ≤ fuel →
      ∃ dev', writeUnit env mtd offset fuel dev unit = (true, dev') ∧
        Ready dev' (pos + unit.length) ∧ dev'.reads = dev.reads ∧
        (∀ i, i < unit.length → dev'.contents (pos + i) = heldByte env mtd pos unit i) ∧
        ∀ a, a < pos → dev'.contents a = dev.contents a := by
  intro fuel
  induction fuel with
  | zero =>
      intro dev unit pos hready _ _ hfuel
      have hnil : unit = [] := List.length_eq_zero_iff.mp (by omega)
      subst hnil
      exact ⟨dev, rfl, hready, rfl, fun i hi => absurd hi (Nat.not_lt_zero i), fun _ _ => rfl⟩
  | succ fuel ih =>
      intro dev unit pos hready htakes hsize hfuel
      have hws := mtd.writesize_pos
      by_cases hzero : unit.length = 0
      · refine ⟨dev, ?_, by rw [hzero]; exact hready, rfl, fun i hi => absurd hi (by omega),
          fun _ _ => rfl⟩
        rw [writeUnit, if_pos hzero]
      by_cases hlast : unit.length ≤ mtd.writesize
      · -- The last page, which may be short.
        have hwhole : unit.take (min mtd.writesize unit.length) = unit :=
          List.take_of_length_le (by omega)
        have hnone : unit.drop (min mtd.writesize unit.length) = [] :=
          List.drop_of_length_le (by omega)
        obtain ⟨dev', hpage, hready', hreads, hbytes, hkeep⟩ :=
          writePage_takes mtd unit hready ((takesPages_small (by omega) hlast).mp htakes) hsize
            (by omega)
        refine ⟨dev', ?_, hready', hreads, ?_, hkeep⟩
        · simp only [writeUnit, if_neg hzero, hwhole, hnone, hpage]
          cases fuel with
          | zero => rfl
          | succ fuel => rfl
        · intro i hi
          rw [hbytes i hi, heldByte_first env mtd pos unit (by omega)]
      · have hmin : min mtd.writesize unit.length = mtd.writesize := by omega
        obtain ⟨hfirst, hrest⟩ := (takesPages_iff (by omega)).mp htakes
        have hlen : (unit.take mtd.writesize).length = mtd.writesize := by
          rw [List.length_take, hmin]
        have hdrop : (unit.drop mtd.writesize).length = unit.length - mtd.writesize :=
          List.length_drop
        obtain ⟨dev₁, hpage, hready₁, hreads₁, hbytes₁, hkeep₁⟩ :=
          writePage_takes mtd (unit.take mtd.writesize) hready hfirst (by omega) (by omega)
        rw [hlen] at hready₁ hbytes₁
        obtain ⟨dev₂, hunit, hready₂, hreads₂, hbytes₂, hkeep₂⟩ :=
          ih dev₁ (unit.drop mtd.writesize) (pos + mtd.writesize) hready₁ (by rw [hdrop]; exact hrest)
            (by omega) (by omega)
        have hend : pos + mtd.writesize + (unit.drop mtd.writesize).length = pos + unit.length := by
          omega
        rw [hend] at hready₂
        refine ⟨dev₂, ?_, hready₂, hreads₂.trans hreads₁, ?_, ?_⟩
        · simp only [writeUnit, if_neg hzero, hmin, hpage, hunit]
        · intro i hi
          by_cases hi' : i < mtd.writesize
          · rw [hkeep₂ _ (by omega), hbytes₁ i hi', heldByte_first env mtd pos unit hi']
            simp only [List.getD_eq_getElem?_getD, List.getElem?_take, if_pos hi']
          · have hi'' := hbytes₂ (i - mtd.writesize) (by omega)
            rw [heldByte_next, Nat.add_assoc, show mtd.writesize + (i - mtd.writesize) = i by omega]
              at hi''
            exact hi''
        · intro a ha
          rw [hkeep₂ a (by omega), hkeep₁ a ha]

/-- The page loop over a unit with a page that fails: the position moves to the next block. -/
theorem writeUnit_fails {offset : Nat} (hnext : offset + mtd.erasesize ≤ mtd.size) :
    ∀ (fuel : Nat) (dev : Dev) (unit : List UInt8) (pos : Nat),
      Ready dev pos → ¬ TakesPages env mtd pos unit.length → pos + unit.length ≤ mtd.size →
      pos + unit.length ≤ offset + mtd.erasesize → unit.length ≤ fuel →
      ∃ dev', writeUnit env mtd offset fuel dev unit = (false, dev') ∧
        dev'.fpos = offset + mtd.erasesize ∧
        (∀ a, offset + mtd.erasesize ≤ a → dev'.writes a = 0) ∧ dev'.reads = dev.reads := by
  intro fuel
  induction fuel with
  | zero =>
      intro dev unit pos _ hfails _ _ hfuel
      refine absurd (fun j hj => ?_) hfails
      omega
  | succ fuel ih =>
      intro dev unit pos hready hfails hsize hblock hfuel
      have hws := mtd.writesize_pos
      have hzero : unit.length ≠ 0 := by
        intro hzero
        refine hfails (fun j hj => ?_)
        omega
      by_cases hfirst : takesPage env pos = true
      · -- The first page is taken, so there is another one.
        have hmore : mtd.writesize < unit.length := by
          by_contra hlast
          exact hfails ((takesPages_small (by omega) (by omega)).mpr hfirst)
        have hmin : min mtd.writesize unit.length = mtd.writesize := by omega
        have hlen : (unit.take mtd.writesize).length = mtd.writesize := by
          rw [List.length_take, hmin]
        have hdrop : (unit.drop mtd.writesize).length = unit.length - mtd.writesize :=
          List.length_drop
        obtain ⟨dev₁, hpage, hready₁, hreads₁, -, -⟩ :=
          writePage_takes mtd (unit.take mtd.writesize) hready hfirst (by omega) (by omega)
        rw [hlen] at hready₁
        have hrest : ¬ TakesPages env mtd (pos + mtd.writesize) (unit.drop mtd.writesize).length := by
          rw [hdrop]
          exact fun hrest => hfails ((takesPages_iff hmore).mpr ⟨hfirst, hrest⟩)
        obtain ⟨dev₂, hunit, hfpos, hwrites, hreads₂⟩ :=
          ih dev₁ (unit.drop mtd.writesize) (pos + mtd.writesize) hready₁ hrest (by omega) (by omega)
            (by omega)
        refine ⟨dev₂, ?_, hfpos, hwrites, hreads₂.trans hreads₁⟩
        simp only [writeUnit, if_neg hzero, hmin, hpage, hunit]
      · obtain ⟨dev₁, hpage, hwrites, hreads⟩ :=
          writePage_fails mtd (unit.take (min mtd.writesize unit.length)) hready
            (by simpa using hfirst)
        have hseek := lseek_of_le dev₁ hnext
        refine ⟨{ dev₁ with fpos := offset + mtd.erasesize }, ?_, rfl, ?_, hreads⟩
        · simp only [writeUnit, if_neg hzero, hpage]
          rw [← hseek]
          rfl
        · intro a ha
          exact hwrites a (by omega)

/-- The data confirmation, with the position behind it. -/
theorem confirmUnit_spec (mtd : MtdInfo) (unit : List UInt8) (hreads : dev.reads pos = 0)
    (hsize : pos + unit.length ≤ mtd.size) (hpos : 0 < unit.length)
    (hbytes : ∀ i, i < unit.length → dev.contents (pos + i) = heldByte env mtd pos unit i) :
    ∃ confirmed dev', confirmUnit env mtd pos dev unit = (confirmed, dev') ∧
      (confirmed = true ↔
        readBackResult env pos unit.length = unit.length ∧ readBackData env mtd pos unit = unit) ∧
      dev'.fpos = positionAfter env pos unit.length ∧ dev'.writes = dev.writes ∧
      ∀ a, pos < a → dev'.reads a = dev.reads a := by
  have hbump : ∀ a, pos < a → bump dev.reads pos a = dev.reads a := by
    intro a ha
    simp only [bump]
    rw [if_neg (by omega)]
  simp only [confirmUnit, lseek_of_le _ (show pos ≤ mtd.size by omega), readBack, hreads]
  rw [positionAfter]
  cases hfate : env.read pos 0 with
  | truthful =>
      have hmin : min unit.length (mtd.size - pos) = unit.length := by omega
      have hheld : bytesAt dev.contents pos unit.length =
          (List.range unit.length).map (heldByte env mtd pos unit) := by
        rw [bytesAt_eq_map]
        exact List.map_congr_left (fun i hi => hbytes i (List.mem_range.mp hi))
      have hresult : readBackResult env pos unit.length = unit.length := by
        rw [readBackResult, hfate]
      have hdata : readBackData env mtd pos unit =
          (List.range unit.length).map (heldByte env mtd pos unit) := by
        rw [readBackData, hfate]
      simp only [hresult, hdata, hmin, hheld, ne_eq, not_true_eq_false, if_false, if_true, true_and]
      exact ⟨_, _, rfl, decide_eq_true_iff, rfl, rfl, hbump⟩
  | returns ret data =>
      have hresult : readBackResult env pos unit.length = max (-1) (min ret unit.length) := by
        rw [readBackResult, hfate]
      have hdata : readBackData env mtd pos unit = data := by
        rw [readBackData, hfate]
      simp only [← hresult, hdata]
      generalize readBackResult env pos unit.length = result at hresult ⊢
      by_cases hfull : result = unit.length
      · rw [if_neg (not_not.mpr hfull), if_pos hfull]
        refine ⟨_, _, rfl, ?_, ?_, rfl, hbump⟩
        · rw [decide_eq_true_iff]
          exact ⟨fun h => ⟨hfull, h⟩, fun h => h.2⟩
        · simp [hfull]
      · rw [if_pos hfull, if_neg hfull]
        have hback : ((pos + result.toNat : Nat) : Int) - result =
            ((if result = -1 then pos + 1 else pos : Nat) : Int) := by
          split
          · omega
          · omega
        have hle : (if result = -1 then pos + 1 else pos) ≤ mtd.size := by
          split
          · omega
          · omega
        rw [hback, lseek_of_le _ hle]
        exact ⟨_, _, rfl, ⟨fun h => absurd h (by decide), fun h => absurd h.1 hfull⟩, rfl, rfl, hbump⟩

/-- The end of a block, which is the start of the next one. -/
theorem MtdInfo.block_end (mtd : MtdInfo) {k : Nat} (hk : k < mtd.blocks) :
    k * mtd.erasesize + mtd.erasesize ≤ mtd.size := by
  have hle : (k + 1) * mtd.erasesize ≤ mtd.blocks * mtd.erasesize :=
    Nat.mul_le_mul_right _ (by omega)
  rw [MtdInfo.blocks, Nat.div_mul_cancel mtd.erasesize_dvd, Nat.add_mul, Nat.one_mul] at hle
  exact hle

/-- A position that is lost is in front of the next block. -/
theorem LosesPosition.lt {unit : List UInt8} (hlen : unit.length ≤ mtd.erasesize)
    (h : LosesPosition env mtd pos unit) :
    positionAfter env pos unit.length < pos + mtd.erasesize := by
  have hblock := mtd.erasesize_pos
  have hne := h.misplaced
  rw [positionAfter] at hne ⊢
  split at hne
  · rename_i hfull
    rw [if_pos hfull]
    omega
  · rename_i hfull
    rw [if_neg hfull]
    split at hne
    · rename_i hfailed
      rw [if_pos hfailed]
      omega
    · rename_i hfailed
      rw [if_neg hfailed]
      omega

/-- What one block leaves: a confirmed unit is taken off the buffer; the position is at the next block
unless the block loses it. -/
theorem writeBlock_outcome (env : Env) (hk : k < mtd.blocks) (hbad : bad k = false)
    (hready : Ready dev (k * mtd.erasesize)) (hrest : rest ≠ []) :
    ∃ dev' rest', writeBlock env mtd bad (k * mtd.erasesize) dev rest = (dev', rest') ∧
      (Confirmed env mtd (k * mtd.erasesize) (rest.take mtd.erasesize) →
        rest' = rest.drop mtd.erasesize) ∧
      (¬ Confirmed env mtd (k * mtd.erasesize) (rest.take mtd.erasesize) → rest' = rest) ∧
      (¬ LosesPosition env mtd (k * mtd.erasesize) (rest.take mtd.erasesize) → rest' ≠ [] →
        Ready dev' ((k + 1) * mtd.erasesize)) ∧
      (LosesPosition env mtd (k * mtd.erasesize) (rest.take mtd.erasesize) →
        dev'.fpos = positionAfter env (k * mtd.erasesize) (rest.take mtd.erasesize).length) := by
  have hend := mtd.block_end hk
  have hblock := mtd.erasesize_pos
  have hpos := List.length_pos_iff.mpr hrest
  have hnext : k * mtd.erasesize + mtd.erasesize = (k + 1) * mtd.erasesize := by ring
  have hlook : memGetBadBlock mtd bad (k * mtd.erasesize) = false := by
    rw [memGetBadBlock, Nat.mul_div_cancel _ hblock]
    exact hbad
  obtain ⟨unit, hunit⟩ : ∃ unit, rest.take mtd.erasesize = unit := ⟨_, rfl⟩
  have hlen : unit.length = min mtd.erasesize rest.length := by
    rw [← hunit, List.length_take]
  simp only [writeBlock, hlook, hunit, Bool.false_eq_true, if_false]
  by_cases hpages : TakesPages env mtd (k * mtd.erasesize) unit.length
  · obtain ⟨dev₁, hloop, hready₁, hreads₁, hbytes₁, -⟩ :=
      writeUnit_pages (k * mtd.erasesize) unit.length dev unit (k * mtd.erasesize) hready hpages
        (by omega) (Nat.le_refl _)
    obtain ⟨confirmed, dev₂, hconfirm, hiff, hfpos, hwrites₂, hreads₂⟩ :=
      confirmUnit_spec mtd unit (by rw [hreads₁]; exact hready.reads _ (Nat.le_refl _)) (by omega)
        (by omega) hbytes₁
    have hready₂ : positionAfter env (k * mtd.erasesize) unit.length = (k + 1) * mtd.erasesize →
        Ready dev₂ ((k + 1) * mtd.erasesize) := by
      intro hposition
      refine ⟨hfpos.trans hposition, fun a ha => ?_, fun a ha => ?_⟩
      · rw [hwrites₂]
        exact hready₁.writes a (by omega)
      · rw [hreads₂ a (by omega), hreads₁]
        exact hready.reads a (by omega)
    simp only [hloop, hconfirm]
    cases confirmed with
    | true =>
      have hconfirmed := hiff.mp rfl
      have hyes : Confirmed env mtd (k * mtd.erasesize) unit :=
        ⟨hpages, hconfirmed.1, hconfirmed.2⟩
      refine ⟨dev₂, rest.drop mtd.erasesize, rfl, fun _ => rfl, fun h => absurd hyes h, ?_,
        fun h => absurd hyes h.unconfirmed⟩
      intro _ hmore
      have hlong := List.length_pos_iff.mpr hmore
      rw [List.length_drop] at hlong
      apply hready₂
      rw [positionAfter, if_pos hconfirmed.1]
      omega
    | false =>
      have hno : ¬ Confirmed env mtd (k * mtd.erasesize) unit :=
        fun h => absurd (hiff.mpr ⟨h.result, h.data⟩) (by decide)
      refine ⟨memErase env mtd dev₂ (k * mtd.erasesize), rest, rfl, fun h => absurd h hno,
        fun _ => rfl, ?_, fun _ => hfpos⟩
      intro hkept _
      have hposition : positionAfter env (k * mtd.erasesize) unit.length =
          (k + 1) * mtd.erasesize := by
        by_contra hne
        exact hkept ⟨hpages, hno, by rw [hnext]; exact hne⟩
      have h := hready₂ hposition
      exact ⟨h.fpos, h.writes, h.reads⟩
  · obtain ⟨dev₁, hloop, hfpos, hwrites₁, hreads₁⟩ :=
      writeUnit_fails hend unit.length dev unit (k * mtd.erasesize) hready hpages (by omega) (by omega)
        (Nat.le_refl _)
    simp only [hloop]
    refine ⟨memErase env mtd dev₁ (k * mtd.erasesize), rest, rfl, fun h => absurd h.pages hpages,
      fun _ => rfl, ?_, fun h => absurd h.pages hpages⟩
    intro _ _
    rw [← hnext]
    refine ⟨hfpos, hwrites₁, fun a ha => ?_⟩
    rw [show (memErase env mtd dev₁ (k * mtd.erasesize)).reads = dev.reads from hreads₁]
    exact hready.reads a (by omega)

end Block

/-! ## Runs over the blocks -/

section Runs

variable {env : Env} {mtd : MtdInfo} {bad : Nat → Bool} {buf : List UInt8}

theorem restBefore_bad {k : Nat} (hbad : bad k = true) :
    restBefore env mtd bad buf (k + 1) = restBefore env mtd bad buf k := by
  rw [restBefore, if_neg (fun h => absurd (hbad.symm.trans h.1) (by decide))]

theorem restBefore_confirmed {k : Nat} (hbad : bad k = false)
    (h : Confirmed env mtd (k * mtd.erasesize) ((restBefore env mtd bad buf k).take mtd.erasesize)) :
    restBefore env mtd bad buf (k + 1) = (restBefore env mtd bad buf k).drop mtd.erasesize := by
  rw [restBefore, if_pos ⟨hbad, h⟩]

theorem restBefore_unconfirmed {k : Nat}
    (h : ¬ Confirmed env mtd (k * mtd.erasesize) ((restBefore env mtd bad buf k).take mtd.erasesize)) :
    restBefore env mtd bad buf (k + 1) = restBefore env mtd bad buf k := by
  rw [restBefore, if_neg (fun hboth => h hboth.2)]

/-- Blocks only take from the buffer. -/
theorem restBefore_length_succ (env : Env) (mtd : MtdInfo) (bad : Nat → Bool) (buf : List UInt8)
    (k : Nat) :
    (restBefore env mtd bad buf (k + 1)).length ≤ (restBefore env mtd bad buf k).length := by
  rw [restBefore]
  split
  · rw [List.length_drop]
    exact Nat.sub_le _ _
  · exact Nat.le_refl _

/-- A buffer that is written stays written. -/
theorem restBefore_nil {k : Nat} (h : restBefore env mtd bad buf k = []) :
    ∀ n, restBefore env mtd bad buf (k + n) = [] := by
  intro n
  induction n with
  | zero => exact h
  | succ n ih =>
      have hle := restBefore_length_succ env mtd bad buf (k + n)
      rw [ih] at hle
      exact List.length_eq_zero_iff.mp (Nat.le_zero.mp hle)

/-- The block that is looked at. -/
theorem memGetBadBlock_start (mtd : MtdInfo) (bad : Nat → Bool) (k : Nat) :
    memGetBadBlock mtd bad (k * mtd.erasesize) = bad k := by
  rw [memGetBadBlock, Nat.mul_div_cancel _ mtd.erasesize_pos]

/-- One round of the loop, as it is seen in the writes. -/
theorem blockStarts_succ {rest : List UInt8} (hrest : rest ≠ []) (n k : Nat) (dev : Dev) :
    blockStarts env mtd bad (n + 1) (k * mtd.erasesize) dev rest =
      if bad k = true then
        blockStarts env mtd bad n ((k + 1) * mtd.erasesize)
          (writeBlock env mtd bad (k * mtd.erasesize) dev rest).1
          (writeBlock env mtd bad (k * mtd.erasesize) dev rest).2
      else
        (k * mtd.erasesize, dev.fpos) :: blockStarts env mtd bad n ((k + 1) * mtd.erasesize)
          (writeBlock env mtd bad (k * mtd.erasesize) dev rest).1
          (writeBlock env mtd bad (k * mtd.erasesize) dev rest).2 := by
  have hnext : k * mtd.erasesize + mtd.erasesize = (k + 1) * mtd.erasesize := by ring
  rw [blockStarts, if_neg (fun h => hrest (List.length_eq_zero_iff.mp h)), hnext, memGetBadBlock_start]

/-- One round of the loop. -/
theorem writeBlocks_succ {rest : List UInt8} (hrest : rest ≠ []) (n k : Nat) (dev : Dev) :
    writeBlocks env mtd bad (n + 1) (k * mtd.erasesize) dev rest =
      writeBlocks env mtd bad n ((k + 1) * mtd.erasesize)
        (writeBlock env mtd bad (k * mtd.erasesize) dev rest).1
        (writeBlock env mtd bad (k * mtd.erasesize) dev rest).2 := by
  have hnext : k * mtd.erasesize + mtd.erasesize = (k + 1) * mtd.erasesize := by ring
  rw [writeBlocks, if_neg (fun h => hrest (List.length_eq_zero_iff.mp h)), hnext]

/-- Without bytes nothing is written. -/
theorem blockStarts_nil (env : Env) (mtd : MtdInfo) (bad : Nat → Bool) (n start : Nat) (dev : Dev) :
    blockStarts env mtd bad n start dev [] = [] ∧ (writeBlocks env mtd bad n start dev []).2 = [] := by
  cases n with
  | zero => exact ⟨rfl, rfl⟩
  | succ n => exact ⟨rfl, rfl⟩

/-- A position in front of the block stays in front of the next good block. -/
theorem blockStarts_lost (env : Env) (bad : Nat → Bool) :
    ∀ (n k : Nat) (dev : Dev) (rest : List UInt8), k + n = mtd.blocks → rest ≠ [] →
      dev.fpos < k * mtd.erasesize → (∃ j, k ≤ j ∧ j < mtd.blocks ∧ bad j = false) →
      ∃ p ∈ blockStarts env mtd bad n (k * mtd.erasesize) dev rest, p.2 ≠ p.1 := by
  intro n
  induction n with
  | zero =>
      rintro k dev rest hk _ _ ⟨j, hle, hlt, -⟩
      omega
  | succ n ih =>
      rintro k dev rest hk hrest hfpos ⟨j, hle, hlt, hgood⟩
      have hnext : k * mtd.erasesize + mtd.erasesize = (k + 1) * mtd.erasesize := by ring
      have hend := mtd.block_end (show k < mtd.blocks by omega)
      rw [blockStarts_succ hrest]
      by_cases hbad : bad k = true
      · rw [if_pos hbad]
        have hseek := lseek_of_le dev (show dev.fpos + mtd.erasesize ≤ mtd.size by omega)
        have hblock : writeBlock env mtd bad (k * mtd.erasesize) dev rest =
            ({ dev with fpos := dev.fpos + mtd.erasesize }, rest) := by
          rw [writeBlock, memGetBadBlock_start, if_pos hbad, ← hseek]
          rfl
        rw [hblock]
        have hne : j ≠ k := by
          rintro rfl
          exact absurd (hbad.symm.trans hgood) (by decide)
        refine ih (k + 1) _ rest (by omega) hrest ?_ ⟨j, by omega, hlt, hgood⟩
        rw [← hnext]
        exact Nat.add_lt_add_right hfpos _
      · rw [if_neg hbad]
        exact ⟨_, List.mem_cons_self, Nat.ne_of_lt hfpos⟩

/-- Where all blocks are bad nothing is written. -/
theorem blockStarts_bad (env : Env) :
    ∀ (n k : Nat) (dev : Dev) (rest : List UInt8), k + n = mtd.blocks →
      (∀ j, k ≤ j → j < mtd.blocks → bad j = true) →
      blockStarts env mtd bad n (k * mtd.erasesize) dev rest = [] ∧
        (writeBlocks env mtd bad n (k * mtd.erasesize) dev rest).2 = rest := by
  intro n
  induction n with
  | zero =>
      intro k dev rest _ _
      exact ⟨rfl, rfl⟩
  | succ n ih =>
      intro k dev rest hk hall
      have hbad := hall k (Nat.le_refl k) (by omega)
      by_cases hrest : rest = []
      · rw [hrest]
        exact blockStarts_nil env mtd bad _ _ dev
      · rw [blockStarts_succ hrest, writeBlocks_succ hrest, if_pos hbad, writeBlock, memGetBadBlock_start,
          if_pos hbad]
        exact ih (k + 1) _ rest (by omega) (fun j hj => hall j (by omega))

theorem restBefore_allBad (env : Env) (buf : List UInt8) {k : Nat}
    (hall : ∀ j, k ≤ j → j < mtd.blocks → bad j = true) :
    ∀ n, k + n ≤ mtd.blocks → restBefore env mtd bad buf (k + n) = restBefore env mtd bad buf k := by
  intro n
  induction n with
  | zero => exact fun _ => rfl
  | succ n ih =>
      intro hle
      rw [← Nat.add_assoc, restBefore_bad (hall (k + n) (by omega) (by omega)), ih (by omega)]

/-- No block loses the position in front of a block that is not reported bad. -/
def NoneLost (env : Env) (mtd : MtdInfo) (bad : Nat → Bool) (buf : List UInt8) : Prop :=
  ∀ k, k < mtd.blocks → bad k = false → restBefore env mtd bad buf k ≠ [] →
    LosesPosition env mtd (k * mtd.erasesize) ((restBefore env mtd bad buf k).take mtd.erasesize) →
    ∀ j, k < j → j < mtd.blocks → bad j = true

/-- One round at the start of a block: the rest is what is left in front of the next block, which is
where the position is unless it is lost. -/
theorem writeBlock_round {k : Nat} {dev : Dev} (hk : k < mtd.blocks)
    (hready : Ready dev (k * mtd.erasesize)) (hrest : restBefore env mtd bad buf k ≠ []) :
    ∃ dev', writeBlock env mtd bad (k * mtd.erasesize) dev (restBefore env mtd bad buf k) =
        (dev', restBefore env mtd bad buf (k + 1)) ∧
      (¬ (bad k = false ∧ LosesPosition env mtd (k * mtd.erasesize)
          ((restBefore env mtd bad buf k).take mtd.erasesize)) →
        restBefore env mtd bad buf (k + 1) ≠ [] → Ready dev' ((k + 1) * mtd.erasesize)) ∧
      (bad k = false → LosesPosition env mtd (k * mtd.erasesize)
          ((restBefore env mtd bad buf k).take mtd.erasesize) →
        dev'.fpos < (k + 1) * mtd.erasesize) := by
  have hnext : k * mtd.erasesize + mtd.erasesize = (k + 1) * mtd.erasesize := by ring
  by_cases hbad : bad k = true
  · obtain ⟨dev', hblock, hready', -⟩ : ∃ dev', writeBlock env mtd bad (k * mtd.erasesize) dev
        (restBefore env mtd bad buf k) = (dev', restBefore env mtd bad buf k) ∧
        Ready dev' (k * mtd.erasesize + mtd.erasesize) ∧ dev'.contents = dev.contents :=
      writeBlock_bad (restBefore env mtd bad buf k) hbad hready (mtd.block_end hk)
    rw [hnext] at hready'
    refine ⟨dev', by rw [hblock, restBefore_bad hbad], fun _ _ => hready', ?_⟩
    exact fun hgood => absurd (hbad.symm.trans hgood) (by decide)
  · have hgood : bad k = false := by simpa using hbad
    obtain ⟨dev', rest', hblock, hyes, hno, hkept, hlost⟩ :=
      writeBlock_outcome env hk hgood hready hrest
    have hrest' : rest' = restBefore env mtd bad buf (k + 1) := by
      by_cases hconfirmed : Confirmed env mtd (k * mtd.erasesize)
          ((restBefore env mtd bad buf k).take mtd.erasesize)
      · rw [hyes hconfirmed, restBefore_confirmed hgood hconfirmed]
      · rw [hno hconfirmed, restBefore_unconfirmed hconfirmed]
    subst hrest'
    refine ⟨dev', hblock, fun h => hkept (fun hloses => h ⟨hgood, hloses⟩), fun _ hloses => ?_⟩
    rw [hlost hloses, ← hnext]
    refine hloses.lt ?_
    rw [List.length_take]
    exact Nat.min_le_left _ _

/-- If no block loses the position in front of a good one, then each block is written from its start. -/
theorem blockStarts_aligned (hnone : NoneLost env mtd bad buf) :
    ∀ (n k : Nat) (dev : Dev), k + n = mtd.blocks →
      (restBefore env mtd bad buf k ≠ [] → Ready dev (k * mtd.erasesize)) →
      (∀ p ∈ blockStarts env mtd bad n (k * mtd.erasesize) dev (restBefore env mtd bad buf k),
        p.2 = p.1) ∧
      (writeBlocks env mtd bad n (k * mtd.erasesize) dev (restBefore env mtd bad buf k)).2 =
        restBefore env mtd bad buf mtd.blocks := by
  intro n
  induction n with
  | zero =>
      intro k dev hk _
      refine ⟨fun p hp => absurd hp List.not_mem_nil, ?_⟩
      rw [← hk]
      rfl
  | succ n ih =>
      intro k dev hk hready
      by_cases hrest : restBefore env mtd bad buf k = []
      · have hall := restBefore_nil hrest (n + 1)
        obtain ⟨hnil, hend⟩ := blockStarts_nil env mtd bad (n + 1) (k * mtd.erasesize) dev
        rw [hk] at hall
        rw [hrest, hnil, hend, hall]
        exact ⟨fun p hp => absurd hp List.not_mem_nil, rfl⟩
      · obtain ⟨dev', hblock, hkept, hlost⟩ :=
          writeBlock_round (show k < mtd.blocks by omega) (hready hrest) hrest
        rw [blockStarts_succ hrest, writeBlocks_succ hrest, hblock]
        have hlater : (∀ p ∈ blockStarts env mtd bad n ((k + 1) * mtd.erasesize) dev'
              (restBefore env mtd bad buf (k + 1)), p.2 = p.1) ∧
            (writeBlocks env mtd bad n ((k + 1) * mtd.erasesize) dev'
              (restBefore env mtd bad buf (k + 1))).2 = restBefore env mtd bad buf mtd.blocks := by
          by_cases hloses : bad k = false ∧ LosesPosition env mtd (k * mtd.erasesize)
              ((restBefore env mtd bad buf k).take mtd.erasesize)
          · -- Only bad blocks follow.
            have hall : ∀ j, k + 1 ≤ j → j < mtd.blocks → bad j = true :=
              fun j hj => hnone k (by omega) hloses.1 hrest hloses.2 j (by omega)
            obtain ⟨hnil, hsame⟩ := blockStarts_bad env n (k + 1) dev'
              (restBefore env mtd bad buf (k + 1)) (by omega) hall
            have hend := restBefore_allBad env buf hall n (by omega)
            rw [show k + 1 + n = mtd.blocks by omega] at hend
            rw [hnil, hsame, hend]
            exact ⟨fun p hp => absurd hp List.not_mem_nil, rfl⟩
          · exact ih (k + 1) dev' (by omega) (hkept hloses)
        refine ⟨?_, hlater.2⟩
        split
        · exact hlater.1
        · intro p hp
          rcases List.mem_cons.mp hp with rfl | hp
          · exact (hready hrest).fpos
          · exact hlater.1 p hp

/-- If each block is written from its start, then no block loses the position in front of a good one. -/
theorem noneLost_of_aligned :
    ∀ (n k : Nat) (dev : Dev), k + n = mtd.blocks →
      (restBefore env mtd bad buf k ≠ [] → Ready dev (k * mtd.erasesize)) →
      (∀ p ∈ blockStarts env mtd bad n (k * mtd.erasesize) dev (restBefore env mtd bad buf k),
        p.2 = p.1) →
      ∀ k', k ≤ k' → k' < mtd.blocks → bad k' = false → restBefore env mtd bad buf k' ≠ [] →
        LosesPosition env mtd (k' * mtd.erasesize)
          ((restBefore env mtd bad buf k').take mtd.erasesize) →
        ∀ j, k' < j → j < mtd.blocks → bad j = true := by
  intro n
  induction n with
  | zero =>
      intro k dev hk _ _ k' hle hlt
      omega
  | succ n ih =>
      intro k dev hk hready haligned k' hle hlt hgood hmore hloses j hj hjlt
      have hrest : restBefore env mtd bad buf k ≠ [] := by
        intro hnil
        have h := restBefore_nil hnil (k' - k)
        rw [show k + (k' - k) = k' by omega] at h
        exact hmore h
      obtain ⟨dev', hblock, hkept, hlost⟩ :=
        writeBlock_round (show k < mtd.blocks by omega) (hready hrest) hrest
      rw [blockStarts_succ hrest, hblock] at haligned
      have hlater : ∀ p ∈ blockStarts env mtd bad n ((k + 1) * mtd.erasesize) dev'
          (restBefore env mtd bad buf (k + 1)), p.2 = p.1 := by
        intro p hp
        split at haligned
        · exact haligned p hp
        · exact haligned p (List.mem_cons_of_mem _ hp)
      by_cases hlosesHere : bad k = false ∧ LosesPosition env mtd (k * mtd.erasesize)
          ((restBefore env mtd bad buf k).take mtd.erasesize)
      · -- The position is lost here, so only bad blocks can follow.
        have hsame : restBefore env mtd bad buf (k + 1) = restBefore env mtd bad buf k :=
          restBefore_unconfirmed hlosesHere.2.unconfirmed
        by_contra hjbad
        obtain ⟨p, hp, hne⟩ := blockStarts_lost env bad n (k + 1) dev'
          (restBefore env mtd bad buf (k + 1)) (by omega) (by rw [hsame]; exact hrest)
          (hlost hlosesHere.1 hlosesHere.2) ⟨j, by omega, hjlt, by simpa using hjbad⟩
        exact hne (hlater p hp)
      · have hne : k' ≠ k := by
          rintro rfl
          exact hlosesHere ⟨hgood, hloses⟩
        exact ih (k + 1) dev' (by omega) (hkept hlosesHere) hlater k' (by omega) hlt hgood hmore hloses j
          hj hjlt

/-- A sound block takes whatever it is given. -/
theorem Sound.confirmed {k : Nat} (h : Sound env mtd bad k) {unit : List UInt8}
    (hlen : unit.length ≤ mtd.erasesize) : Confirmed env mtd (k * mtd.erasesize) unit := by
  have hstored : ∀ i, i < mtd.erasesize → env.write (k * mtd.erasesize + i) 0 = .stored :=
    fun i hi => h.writes _ 0 (Nat.le_add_right _ _) (Nat.add_lt_add_left hi _)
  refine ⟨?_, ?_, ?_⟩
  · intro j hj
    rw [takesPage, hstored _ (by omega)]
  · rw [readBackResult, h.reads 0]
  · simp only [readBackData, h.reads 0]
    apply List.ext_getElem
    · simp
    · intro i hi hi'
      have hpage : i / mtd.writesize * mtd.writesize ≤ i := Nat.div_mul_le_self i mtd.writesize
      rw [List.getElem_map, List.getElem_range, heldByte, hstored _ (by omega)]
      simp [hi']

/-- Sound blocks take their part off the buffer. -/
theorem restBefore_length (env : Env) (mtd : MtdInfo) (bad : Nat → Bool) (buf : List UInt8) :
    ∀ k, (restBefore env mtd bad buf k).length ≤
      buf.length - soundBefore env mtd bad k * mtd.erasesize := by
  intro k
  induction k with
  | zero => simp [restBefore, soundBefore]
  | succ k ih =>
      rw [soundBefore, List.range_succ, List.countP_append, List.countP_singleton, ← soundBefore]
      by_cases hsound : Sound env mtd bad k
      · have hconfirmed : Confirmed env mtd (k * mtd.erasesize)
            ((restBefore env mtd bad buf k).take mtd.erasesize) := by
          refine hsound.confirmed ?_
          rw [List.length_take]
          exact Nat.min_le_left _ _
        rw [restBefore_confirmed hsound.good hconfirmed, List.length_drop, if_pos (by simpa using hsound),
          Nat.add_mul, Nat.one_mul]
        omega
      · rw [if_neg (by simpa using hsound), Nat.add_zero]
        exact Nat.le_trans (restBefore_length_succ env mtd bad buf k) ih

end Runs

/-! ## A call -/

/-- The condition: with enough sound blocks the device can be opened and described and the buffer is not
empty, and no block loses the position in front of a block that is not reported bad. -/
structure KeepsPosition (env : Env) (mtd : MtdInfo) (bad : Nat → Bool) (buf : List UInt8) : Prop where
  usable : Enough env mtd bad buf.length → buf ≠ [] ∧ env.opens = true ∧ env.getsInfo = true
  kept : env.opens = true → env.getsInfo = true → buf.length ≤ mtd.size → NoneLost env mtd bad buf

/-- What sound blocks hold is on the device. -/
theorem Enough.le_size {env : Env} {mtd : MtdInfo} {bad : Nat → Bool} {n : Nat}
    (h : Enough env mtd bad n) : n ≤ mtd.size := by
  have hcount : soundBefore env mtd bad mtd.blocks ≤ mtd.blocks := by
    have hle := List.countP_le_length (p := fun b => @decide (Sound env mtd bad b)
      (Classical.propDecidable _)) (l := List.range mtd.blocks)
    rw [List.length_range] at hle
    exact hle
  refine Nat.le_trans h (Nat.le_trans (Nat.mul_le_mul_right _ hcount) ?_)
  exact Nat.div_mul_le_self _ _

/-- A call whose checks pass: its writes, and what it returns. -/
theorem flashWrite_of_usable {env : Env} {mtd : MtdInfo} {buf : List UInt8} (bad : Nat → Bool)
    (contents : Nat → UInt8) (hbuf : buf ≠ []) (hopens : env.opens = true)
    (hinfo : env.getsInfo = true) (hsize : buf.length ≤ mtd.size) :
    writeStarts env mtd bad contents buf =
        blockStarts env mtd bad mtd.blocks (0 * mtd.erasesize)
          (eraseBlocks env mtd mtd.blocks 0 (openDev contents)) buf ∧
      ((writeBlocks env mtd bad mtd.blocks (0 * mtd.erasesize)
          (eraseBlocks env mtd mtd.blocks 0 (openDev contents)) buf).2 = [] →
        (zyUtilWriteBufToFlashMtd env mtd bad contents buf).1 = .success) := by
  have hlen : buf.length ≠ 0 := fun h => hbuf (List.length_eq_zero_iff.mp h)
  rw [Nat.zero_mul]
  constructor
  · rw [writeStarts, if_neg]
    rintro (h | h | h | h)
    · exact hlen h
    · exact absurd (hopens.symm.trans h) (by decide)
    · exact absurd (hinfo.symm.trans h) (by decide)
    · omega
  · intro hrest
    rw [zyUtilWriteBufToFlashMtd, if_neg hlen, hopens, hinfo, if_neg (by decide), if_neg (by decide),
      if_neg (by omega)]
    simp only [hrest]
    rfl

/-- The buffer is written despite failing blocks, and at the start of each block, exactly if no block loses
the position in front of a block not reported bad. -/
theorem flashWrite_despite_failures_iff (env : Env) (mtd : MtdInfo) (bad : Nat → Bool)
    (contents : Nat → UInt8) (buf : List UInt8) :
    WritesDespiteFailures env mtd bad contents buf ↔ KeepsPosition env mtd bad buf := by
  have hready : Ready (eraseBlocks env mtd mtd.blocks 0 (openDev contents)) (0 * mtd.erasesize) := by
    rw [Nat.zero_mul]
    exact eraseBlocks_ready _ _ _ ⟨rfl, fun _ _ => rfl, fun _ _ => rfl⟩
  constructor
  · intro hwrites
    refine ⟨fun henough => ?_, fun hopens hinfo hsize => ?_⟩
    · have hsuccess := hwrites.stores henough
      rw [zyUtilWriteBufToFlashMtd] at hsuccess
      split_ifs at hsuccess with hempty hopens hinfo
      · refine ⟨fun h => hempty (by rw [h]; rfl), by simpa using hopens, by simpa using hinfo⟩
    · by_cases hbuf : buf = []
      · intro k _ _ hrest
        have hnil : restBefore env mtd bad buf (0 + k) = [] :=
          restBefore_nil (show restBefore env mtd bad buf 0 = [] from hbuf) k
        rw [Nat.zero_add] at hnil
        exact absurd hnil hrest
      · obtain ⟨hstarts, -⟩ := flashWrite_of_usable bad contents hbuf hopens hinfo hsize
        have haligned := hwrites.aligned
        rw [hstarts] at haligned
        exact fun k => noneLost_of_aligned mtd.blocks 0 _ (by omega) (fun _ => hready) haligned k
          (Nat.zero_le k)
  · intro hkeeps
    have hrun : ∀ (hbuf : buf ≠ []) (hopens : env.opens = true) (hinfo : env.getsInfo = true)
        (hsize : buf.length ≤ mtd.size), (∀ p ∈ writeStarts env mtd bad contents buf, p.2 = p.1) ∧
          (restBefore env mtd bad buf mtd.blocks = [] →
            (zyUtilWriteBufToFlashMtd env mtd bad contents buf).1 = .success) := by
      intro hbuf hopens hinfo hsize
      obtain ⟨hstarts, hsuccess⟩ := flashWrite_of_usable bad contents hbuf hopens hinfo hsize
      obtain ⟨haligned, hend⟩ := blockStarts_aligned (hkeeps.kept hopens hinfo hsize) mtd.blocks 0 _
        (by omega) (fun _ => hready)
      rw [hstarts]
      exact ⟨haligned, fun hnil => hsuccess (hend.trans hnil)⟩
    refine ⟨fun henough => ?_, ?_⟩
    · obtain ⟨hbuf, hopens, hinfo⟩ := hkeeps.usable henough
      apply (hrun hbuf hopens hinfo henough.le_size).2
      have hlen := restBefore_length env mtd bad buf mtd.blocks
      rw [Enough] at henough
      exact List.length_eq_zero_iff.mp (by omega)
    · by_cases hstart : buf.length = 0 ∨ env.opens = false ∨ env.getsInfo = false ∨
          mtd.size < buf.length
      · rw [writeStarts, if_pos hstart]
        exact fun p hp => absurd hp List.not_mem_nil
      · simp only [not_or, Bool.not_eq_false, Nat.not_lt] at hstart
        obtain ⟨hbuf, hopens, hinfo, hsize⟩ := hstart
        exact (hrun (fun h => hbuf (by rw [h]; rfl)) hopens hinfo hsize).1

/-- A device whose first block reads back short. -/
def shortReadEnv : Env :=
  { healthyEnv with
    read := fun a _ => if a = 0 then .returns 0 [] else .truthful }

/-- The first of two blocks reads back short: the second one is sound, but it is written from the start
of the first, and the buffer is not stored. -/
theorem flashWrite_despite_failures_fails :
    ¬ ∀ (env : Env) (mtd : MtdInfo) (bad : Nat → Bool) (contents : Nat → UInt8) (buf : List UInt8),
      buf ≠ [] → env.opens = true → env.getsInfo = true →
        WritesDespiteFailures env mtd bad contents buf := by
  intro h
  have hwrites := h shortReadEnv twoBlocks (fun _ => false) (fun _ => 0) [1] (by decide) rfl rfl
  have hsound : Sound shortReadEnv twoBlocks (fun _ => false) 1 := by
    refine ⟨rfl, fun _ _ _ _ => rfl, fun t => ?_⟩
    rfl
  have henough : Enough shortReadEnv twoBlocks (fun _ => false) 1 := by
    rw [Enough, show twoBlocks.blocks = 1 + 1 from rfl, soundBefore, List.range_succ,
      List.countP_append, List.countP_singleton, if_pos (by simpa using hsound)]
    exact Nat.le_trans (by decide) (Nat.mul_le_mul_right twoBlocks.erasesize (Nat.le_add_left 1 _))
  exact absurd (hwrites.stores henough) (by decide +kernel)

end ZyUtil
end ZyxelRouter
