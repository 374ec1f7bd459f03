import ZyxelRouter.Nmbm.MtdWrite

/-!
# NMBM: both ways of reading a range

A request without spare bytes is read by the manager, one with an empty buffer for them page by page
through a cache.  Both read the same pages in the same order, and make the same of their results.

Main results:

- Theorems {lit}`mtdReadDataLoop_collect`, {lit}`readRangeLoop_collect`: the two loops.
- Theorem {lit}`collect_eq`: what a request returns for the results of its pages.
- Theorem {lit}`readPaths_agree`: both ways agree.
- Theorem {lit}`readPaths_agree_fails`: an empty request on a protected instance.
-/

namespace ZyxelRouter
namespace Nmbm

open Lib Lib.Prog

variable {nld : LowerDevice} {nm : NmbmMtd} {w : World} {mode : OobMode} {addr col len : Nat}

/-! ## The pages of a range -/

/-- The results of reading {lit}`n` pages one after the other. -/
def pageReads (nld : LowerDevice) : Nat → Nat → World → List (Int × Page)
  | 0, _, _ => []
  | n + 1, addr, w =>
      (run (nmbmReadSinglePage addr) nld w).1 ::
        pageReads nld n (addr + nld.writesize) (run (nmbmReadSinglePage addr) nld w).2

/-- A page fails otherwise than by an ECC error. -/
def Failed (r : Int × Page) : Prop :=
  r.1 < 0 ∧ r.1 ≠ eBadMsg

instance (r : Int × Page) : Decidable (Failed r) :=
  inferInstanceAs (Decidable (_ ∧ _))

/-- What a request makes of the results, page by page: whether there was an ECC error, the maximum of
bitflips and the bytes so far. -/
def collect (nld : LowerDevice) : Nat → Nat → Bool → Int → List UInt8 → List (Int × Page) → ReadReply
  | _, _, eccErr, flips, acc, [] => ⟨if eccErr then eBadMsg else flips, acc, []⟩
  | col, len, eccErr, flips, acc, r :: rs =>
      if Failed r then ⟨r.1, acc, []⟩
      else collect nld 0 (len - (nld.writesize - col)) (eccErr || r.1 == eBadMsg) (max flips r.1)
        (acc ++ readAt (mainArea nld r.2) col (min (nld.writesize - col) len)) rs

/-- The pages in front of the first one that fails. -/
def pagesRead (outcomes : List (Int × Page)) : List (Int × Page) :=
  outcomes.takeWhile (fun r => decide (¬ Failed r))

/-- The reply: the error of the first page that fails, with the bytes in front of it; otherwise an ECC
error if a page had one, and else the maximum of bitflips. -/
def readReply (nld : LowerDevice) (col len : Nat) (outcomes : List (Int × Page)) : ReadReply where
  ret :=
    match outcomes.drop (pagesRead outcomes).length with
    | r :: _ => r.1
    | [] =>
        if ∃ r ∈ outcomes, r.1 = eBadMsg then eBadMsg else (outcomes.map (·.1)).foldl max 0
  data := (((pagesRead outcomes).flatMap (fun r => mainArea nld r.2)).drop col).take len
  oob := []

theorem length_mainArea (nld : LowerDevice) (columns : Page) :
    (mainArea nld columns).length = nld.writesize := by
  rw [mainArea, List.length_map, List.length_range]

/-- The share of the first page, and the shares of the further ones. -/
theorem take_drop_pages (hcol : col ≤ nld.writesize) (columns : Page) (rest : List UInt8) :
    ((mainArea nld columns ++ rest).drop col).take len =
      readAt (mainArea nld columns) col (min (nld.writesize - col) len) ++
        (rest.drop 0).take (len - (nld.writesize - col)) := by
  have hlen := length_mainArea nld columns
  have hfront : ((mainArea nld columns).drop col).length = nld.writesize - col := by
    rw [List.length_drop, hlen]
  have hread : readAt (mainArea nld columns) col (min (nld.writesize - col) len) =
      ((mainArea nld columns).drop col).take len := by
    rw [readAt, List.take_eq_take_iff, hfront]
    omega
  rw [List.drop_append_of_le_length (by omega), List.take_append, hfront, hread, List.drop_zero]

/-- What a request makes of the results of its pages. -/
theorem collect_spec (outcomes : List (Int × Page)) :
    ∀ (col len : Nat) (eccErr : Bool) (flips : Int) (acc : List UInt8), col ≤ nld.writesize →
      collect nld col len eccErr flips acc outcomes =
        ⟨match outcomes.drop (pagesRead outcomes).length with
          | r :: _ => r.1
          | [] =>
              if eccErr = true ∨ ∃ r ∈ outcomes, r.1 = eBadMsg then eBadMsg
              else (outcomes.map (·.1)).foldl max flips,
          acc ++ (((pagesRead outcomes).flatMap (fun r => mainArea nld r.2)).drop col).take len, []⟩ := by
  induction outcomes with
  | nil =>
      intro col len eccErr flips acc _
      simp [collect, pagesRead]
  | cons r rs ih =>
      intro col len eccErr flips acc hcol
      rw [collect]
      by_cases hfail : Failed r
      · simp [hfail, pagesRead]
      · have hpages : pagesRead (r :: rs) = r :: pagesRead rs := by
          rw [pagesRead, List.takeWhile_cons, if_pos (decide_eq_true hfail)]
          rfl
        rw [if_neg hfail, ih 0 _ _ _ _ (Nat.zero_le _), hpages, List.flatMap_cons,
          take_drop_pages hcol, List.append_assoc, List.length_cons, List.drop_succ_cons]
        simp only [Bool.or_eq_true, beq_iff_eq, List.mem_cons, exists_eq_or_imp, List.map_cons,
          List.foldl_cons, or_assoc]

theorem collect_eq (hcol : col ≤ nld.writesize) (len : Nat) (outcomes : List (Int × Page)) :
    collect nld col len false 0 [] outcomes = readReply nld col len outcomes := by
  rw [collect_spec _ _ _ _ _ _ hcol, readReply]
  simp only [Bool.false_eq_true, false_or, List.nil_append]

/-- The bytes of a reply are those in front of the first page that fails. -/
theorem length_readReply (outcomes : List (Int × Page)) :
    (readReply nld col len outcomes).data.length =
      movedLength nld.writesize col len (pagesRead outcomes).length := by
  have hflat : ∀ l : List (Int × Page),
      (l.flatMap (fun r => mainArea nld r.2)).length = l.length * nld.writesize := by
    intro l
    induction l with
    | nil => simp
    | cons r rs ih =>
        rw [List.flatMap_cons, List.length_append, ih, length_mainArea, List.length_cons]
        ring
  rw [readReply, List.length_take, List.length_drop, hflat, movedLength]

/-! ## The loop of a request with spare bytes -/

/-- Without spare bytes only data is moved. -/
theorem ReadCursor.move_data {s : ReadCursor} (hooblen : s.ooblen = 0) (hlen : s.len ≠ 0)
    (maxooblen : Nat) (datcache oobcache : List UInt8) :
    (s.moveData nld datcache).moveOob maxooblen oobcache =
      { s with
        data := s.data ++ readAt datcache s.col (min (nld.writesize - s.col) s.len)
        len := s.len - min (nld.writesize - s.col) s.len
        col := 0 } := by
  rw [ReadCursor.moveData, if_neg hlen, ReadCursor.moveOob, if_pos hooblen]

theorem mtdReadDataLoop_collect (nm : NmbmMtd) (mode : OobMode) :
    ∀ (fuel : Nat) (s : ReadCursor) (w : World),
      s.ooblen = 0 → s.oob = [] → s.col < nld.writesize → s.len ≤ fuel →
      (run (mtdReadDataLoop nm mode fuel s) nld w).1 =
        collect nld s.col s.len s.eccErr s.flips s.data
          (pageReads nld (pageSpan nld.writesize s.col s.len) s.addr w) := by
  have hend : ∀ (s : ReadCursor) (w : World), s.oob = [] → s.len = 0 →
      (⟨if s.eccErr then eBadMsg else s.flips, s.data, s.oob⟩ : ReadReply) =
        collect nld s.col s.len s.eccErr s.flips s.data
          (pageReads nld (pageSpan nld.writesize s.col s.len) s.addr w) := by
    intro s w hoob hlen
    rw [hlen, pageSpan_zero, pageReads, collect, hoob]
  intro fuel
  induction fuel with
  | zero =>
      intro s w _ hoob _ hfuel
      exact hend s w hoob (Nat.le_zero.mp hfuel)
  | succ fuel ih =>
      intro s w hooblen hoob hcol hfuel
      rw [mtdReadDataLoop, run_ite]
      by_cases hdone : s.len = 0 ∧ s.ooblen = 0
      · rw [if_pos hdone]
        exact hend s w hoob hdone.1
      · have hlen : s.len ≠ 0 := fun h => hdone ⟨h, hooblen⟩
        have hrest : s.len - min (nld.writesize - s.col) s.len = s.len - (nld.writesize - s.col) := by
          omega
        rw [if_neg hdone, pageSpan_step hcol hlen, pageReads, collect, run_ask_bind, run_bind, run_ite]
        by_cases hfail : Failed (run (nmbmReadSinglePage s.addr) nld w).1
        · have hbreak := hfail
          rw [Failed] at hbreak
          rw [if_pos hfail, if_pos hbreak, run_pure, hoob]
        · have hgoOn := hfail
          rw [Failed] at hgoOn
          rw [if_neg hfail, if_neg hgoOn]
          have hmove := @ReadCursor.move_data nld
            { s with
              eccErr := s.eccErr || (run (nmbmReadSinglePage s.addr) nld w).1.1 == eBadMsg
              flips := max s.flips (run (nmbmReadSinglePage s.addr) nld w).1.1 } hooblen hlen
          simp only [hmove, hrest]
          rw [ih]
          · exact hooblen
          · exact hoob
          · exact Nat.lt_of_le_of_lt (Nat.zero_le _) hcol
          · change s.len - (nld.writesize - s.col) ≤ fuel
            omega

/-! ## The loop of a range -/

/-- The state with another page cache. -/
def World.withCache (w : World) (pageCache : List UInt8) : World :=
  { w with ni := { w.ni with pageCache } }

theorem readTries_withCache (ba page : Nat) (pageCache : List UInt8) :
    ∀ (more : Nat) (w : World),
      run (readTries ba page more) nld (w.withCache pageCache) =
        ((run (readTries ba page more) nld w).1,
          (run (readTries ba page more) nld w).2.withCache pageCache) := by
  intro more
  induction more with
  | zero =>
      intro w
      rfl
  | succ more ih =>
      intro w
      have hone : run (lower (Chip.readPage · ba page)) nld (w.withCache pageCache) =
          ((run (lower (Chip.readPage · ba page)) nld w).1,
            (run (lower (Chip.readPage · ba page)) nld w).2.withCache pageCache) := rfl
      rw [readTries, run_bind, run_bind, hone]
      simp only [run_ite, run_pure, ih]
      split_ifs <;> rfl

/-- The block that a page is read from, or the error without one. -/
def readSource (nld : LowerDevice) (ni : NmbmInstance) (addr : Nat) : Except Int Nat :=
  if ni.isProtected then .error (-eRofs)
  else if nld.ba2addr ni.dataBlockCount ≤ addr then .error (-eInval)
  else if ni.blockMapping.getD (nld.addr2ba addr) (-1) < 0 then .error (-eIo)
  else if nmbmGetBlockState ni (ni.blockMapping.getD (nld.addr2ba addr) (-1)).toNat = blockStBad then
    .error (-eIo)
  else .ok (ni.blockMapping.getD (nld.addr2ba addr) (-1)).toNat

theorem nmbmReadSinglePage_run (addr : Nat) (w : World) :
    run (nmbmReadSinglePage addr) nld w =
      match readSource nld w.ni addr with
      | .error ret => ((ret, fun _ => 0), w)
      | .ok ba => run (nmbmReadPhysPage ba (pageOf nld addr)) nld w := by
  simp only [nmbmReadSinglePage, nmbmReadLogicPage, run_ask_bind, run_get_bind, run_ite, run_pure,
    readSource]
  split_ifs <;> rfl

/-- What is read does not depend on the page cache. -/
theorem nmbmReadSinglePage_withCache (addr : Nat) (pageCache : List UInt8) (w : World) :
    run (nmbmReadSinglePage addr) nld (w.withCache pageCache) =
      ((run (nmbmReadSinglePage addr) nld w).1,
        (run (nmbmReadSinglePage addr) nld w).2.withCache pageCache) := by
  have hsource : readSource nld (w.withCache pageCache).ni addr = readSource nld w.ni addr := rfl
  rw [nmbmReadSinglePage_run, nmbmReadSinglePage_run, hsource]
  cases readSource nld w.ni addr with
  | error ret => rfl
  | ok ba => exact readTries_withCache _ _ _ _ _

/-- Reading leaves the instance alone. -/
theorem nmbmReadSinglePage_ni (nld : LowerDevice) (addr : Nat) (w : World) :
    (run (nmbmReadSinglePage addr) nld w).2.ni = w.ni := by
  rw [nmbmReadSinglePage_run]
  cases readSource nld w.ni addr with
  | error ret => rfl
  | ok ba => exact (nmbmReadPhysPage_spec nld ba _ w).1.ni

theorem pageReads_withCache (pageCache : List UInt8) :
    ∀ (n addr : Nat) (w : World),
      pageReads nld n addr (w.withCache pageCache) = pageReads nld n addr w := by
  intro n
  induction n with
  | zero =>
      intro addr w
      rfl
  | succ n ih =>
      intro addr w
      rw [pageReads, pageReads, nmbmReadSinglePage_withCache, ih]

/-- A page of an instance that can be read. -/
theorem nmbmReadLogicPage_run (hopen : w.ni.isProtected = false)
    (haddr : addr < nld.ba2addr w.ni.dataBlockCount) :
    run (nmbmReadLogicPage addr) nld w = run (nmbmReadSinglePage addr) nld w := by
  rw [nmbmReadSinglePage, run_ask_bind, run_get_bind, hopen, if_neg Bool.false_ne_true,
    if_neg (Nat.not_le.mpr haddr)]

/-- What {lit}`nmbm_read_range` makes of the result of its loop. -/
def rangeReply (r : Int × Bool × Int × List UInt8) : ReadReply where
  ret := if r.1 < 0 ∧ r.1 ≠ eBadMsg then r.1 else if r.2.1 then eBadMsg else r.2.2.1
  data := r.2.2.2
  oob := []

theorem readRangeLoop_collect (hws : ∃ k, nld.writesize = 2 ^ k) :
    ∀ (fuel off size : Nat) (eccErr : Bool) (flips : Int) (acc : List UInt8) (w : World),
      0 < size → size ≤ fuel → w.ni.isProtected = false →
      off + size ≤ nld.ba2addr w.ni.dataBlockCount →
      rangeReply (run (readRangeLoop fuel off size eccErr flips acc) nld w).1 =
        collect nld (off % nld.writesize) size eccErr flips acc
          (pageReads nld (pageSpan nld.writesize (off % nld.writesize) size)
            (off - off % nld.writesize) w) := by
  have hpos : 0 < nld.writesize := by
    obtain ⟨k, hk⟩ := hws
    rw [hk]
    exact Nat.two_pow_pos k
  intro fuel
  induction fuel with
  | zero =>
      intro off size eccErr flips acc w hsize hfuel
      omega
  | succ fuel ih =>
      intro off size eccErr flips acc w hsize hfuel hopen hrange
      have hcol : off % nld.writesize < nld.writesize := Nat.mod_lt _ hpos
      have haddr : off - off % nld.writesize < nld.ba2addr w.ni.dataBlockCount := by omega
      rw [pageSpan_step hcol (Nat.ne_of_gt hsize), pageReads, collect, readRangeLoop, run_ask_bind]
      simp only [and_writesize_sub_one hws]
      rw [run_bind, nmbmReadLogicPage_run hopen haddr]
      have hni := nmbmReadSinglePage_ni nld (off - off % nld.writesize) w
      revert hni
      generalize run (nmbmReadSinglePage (off - off % nld.writesize)) nld w = r
      intro hni
      have hafter : ∀ pageCache : List UInt8,
          rangeReply (run
            (if r.1.1 < 0 ∧ r.1.1 ≠ eBadMsg then pure (r.1.1, eccErr, flips, acc)
            else if size - min (nld.writesize - off % nld.writesize) size = 0 then
              pure (r.1.1, eccErr || r.1.1 == eBadMsg, max flips r.1.1, acc ++
                readAt (mainArea nld r.1.2) (off % nld.writesize)
                  (min (nld.writesize - off % nld.writesize) size))
            else
              readRangeLoop fuel (off + min (nld.writesize - off % nld.writesize) size)
                (size - min (nld.writesize - off % nld.writesize) size) (eccErr || r.1.1 == eBadMsg)
                (max flips r.1.1) (acc ++ readAt (mainArea nld r.1.2) (off % nld.writesize)
                  (min (nld.writesize - off % nld.writesize) size))) nld (r.2.withCache pageCache)).1 =
            if Failed r.1 then { ret := r.1.1, data := acc, oob := [] }
            else
              collect nld 0 (size - (nld.writesize - off % nld.writesize)) (eccErr || r.1.1 == eBadMsg)
                (max flips r.1.1) (acc ++ readAt (mainArea nld r.1.2) (off % nld.writesize)
                  (min (nld.writesize - off % nld.writesize) size))
                (pageReads nld (pageSpan nld.writesize 0 (size - (nld.writesize - off % nld.writesize)))
                  (off - off % nld.writesize + nld.writesize) r.2) := by
        intro pageCache
        by_cases hfail : Failed r.1
        · have hbreak := hfail
          rw [Failed] at hbreak
          rw [if_pos hfail, if_pos hbreak, run_pure, rangeReply, if_pos hbreak]
        · have hgoOn := hfail
          rw [Failed] at hgoOn
          rw [if_neg hfail, if_neg hgoOn]
          by_cases hlast : size - min (nld.writesize - off % nld.writesize) size = 0
          · have hnone : size - (nld.writesize - off % nld.writesize) = 0 := by omega
            rw [if_pos hlast, hnone, pageSpan_zero, pageReads, collect, run_pure, rangeReply,
              if_neg hgoOn]
          · have hchunk : min (nld.writesize - off % nld.writesize) size =
                nld.writesize - off % nld.writesize := by omega
            have hnext := add_rest_of_page hpos off
            rw [if_neg hlast, hchunk, hnext, ih, next_page_mod, Nat.sub_zero, pageReads_withCache]
            · omega
            · omega
            · change r.2.ni.isProtected = false
              rw [hni]
              exact hopen
            · change _ ≤ nld.ba2addr r.2.ni.dataBlockCount
              rw [hni]
              omega
      rw [run_ite]
      by_cases hpartial : min (nld.writesize - off % nld.writesize) size ≠ nld.writesize
      · rw [if_pos hpartial, run_bind]
        exact hafter _
      · rw [if_neg hpartial]
        exact hafter r.2.ni.pageCache

/-! ## Both ways of reading a range -/

/-- A request for {lit}`len` bytes, with a buffer for spare bytes if {lit}`oobbuf` is one. -/
def readRequest (mode ooboffs len : Nat) (oobbuf : Option (List UInt8)) : MtdOobOps where
  mode := mode
  ooboffs := ooboffs
  datbuf := some (List.replicate len 0)
  oobbuf := oobbuf

/-- A range is read in the same way with and without an empty buffer for spare bytes: both return what
the results of its pages amount to. -/
def ReadPathsAgree (nld : LowerDevice) (w : World) (nm : NmbmMtd) (addr modeArg ooboffs len : Nat) :
    Prop :=
  let fast := (nmbmMtdReadOob nm addr (readRequest modeArg ooboffs len none) nld w).1
  let plain := (nmbmMtdReadOob nm addr (readRequest modeArg ooboffs len (some [])) nld w).1
  let outcomes := pageReads nld (dataPages nld addr len) (addr - addr % nld.writesize) w
  fast = plain ∧ plain = readReply nld (addr % nld.writesize) len outcomes ∧
    plain.data.length = movedLength nld.writesize (addr % nld.writesize) len (pagesRead outcomes).length

theorem nmbmMtdReadOob_withOob {ops : MtdOobOps}
    (hreq : checkOobRequest nld w.ni nm addr ops = .withOob mode) :
    nmbmMtdReadOob nm addr ops nld w = nmbmMtdReadData nm addr ops mode nld w := by
  have hrun : run (nmbmMtdReadOob nm addr ops) nld w = run (nmbmMtdReadData nm addr ops mode) nld w := by
    rw [nmbmMtdReadOob, run_ask_bind, run_get_bind, hreq]
  exact hrun

theorem nmbmMtdReadOob_dataOnly {ops : MtdOobOps}
    (hreq : checkOobRequest nld w.ni nm addr ops = .dataOnly mode) :
    (nmbmMtdReadOob nm addr ops nld w).1 =
      ⟨(nmbmReadRange addr ops.len nld w).1.1, (nmbmReadRange addr ops.len nld w).1.2, []⟩ := by
  have hrun : (run (nmbmMtdReadOob nm addr ops) nld w).1 =
      ⟨(run (nmbmReadRange addr ops.len) nld w).1.1, (run (nmbmReadRange addr ops.len) nld w).1.2, []⟩ := by
    rw [nmbmMtdReadOob, run_ask_bind, run_get_bind, hreq]
    rfl
  exact hrun

/-- The request that goes page by page. -/
theorem nmbmMtdReadData_reply (h : MtdSetup nld w nm) (mode : OobMode) (addr modeArg ooboffs len : Nat) :
    (nmbmMtdReadData nm addr (readRequest modeArg ooboffs len (some [])) mode nld w).1 =
      readReply nld (addr % nld.writesize) len
        (pageReads nld (dataPages nld addr len) (addr - addr % nld.writesize) w) := by
  have hcol : addr % nld.writesize < nld.writesize := Nat.mod_lt _ h.writesize_pos
  have hreqLen : (readRequest modeArg ooboffs len (some [])).len = len := List.length_replicate
  have hrun : (run (nmbmMtdReadData nm addr (readRequest modeArg ooboffs len (some [])) mode) nld w).1 =
      collect nld (addr % nld.writesize) len false 0 []
        (pageReads nld (dataPages nld addr len) (addr - addr % nld.writesize) w) := by
    rw [nmbmMtdReadData, run_ask_bind]
    simp only [and_writesize_sub_one h.writesize, hreqLen]
    exact mtdReadDataLoop_collect nm mode _ _ w rfl rfl hcol (Nat.le_add_right _ _)
  exact hrun.trans (collect_eq (le_of_lt hcol) len _)

/-- The request that is read by the manager. -/
theorem nmbmReadRange_reply (h : MtdSetup nld w nm) (hin : WithinDevice nld w.ni addr len)
    (hlen : len ≠ 0 ∨ w.ni.isProtected = false) :
    (⟨(nmbmReadRange addr len nld w).1.1, (nmbmReadRange addr len nld w).1.2, []⟩ : ReadReply) =
      readReply nld (addr % nld.writesize) len
        (pageReads nld (dataPages nld addr len) (addr - addr % nld.writesize) w) := by
  have hcol : addr % nld.writesize < nld.writesize := Nat.mod_lt _ h.writesize_pos
  have haddr : ¬ nld.ba2addr w.ni.dataBlockCount ≤ addr := by
    rw [h.ba2addr_eq]
    exact Nat.not_le.mpr hin.addr_lt
  have hwrap : u64 (addr + len) ≤ addr + len := Nat.mod_le _ _
  have hend : ¬ nld.ba2addr w.ni.dataBlockCount < u64 (addr + len) := by
    rw [h.ba2addr_eq]
    have := hin.end_le
    omega
  change (⟨(run (nmbmReadRange addr len) nld w).1.1, (run (nmbmReadRange addr len) nld w).1.2, []⟩ :
    ReadReply) = _
  rw [nmbmReadRange, run_ask_bind, run_get_bind, run_ite]
  cases hprotected : w.ni.isProtected with
  | true =>
      have hne : len ≠ 0 := hlen.resolve_right (by rw [hprotected]; exact fun h => Bool.noConfusion h)
      obtain ⟨n, hn⟩ := Nat.exists_eq_succ_of_ne_zero (Nat.ne_of_gt (pageSpan_pos hcol hne))
      have hfirst : (run (nmbmReadSinglePage (addr - addr % nld.writesize)) nld w).1 =
          (-eRofs, fun _ => 0) := by
        rw [nmbmReadSinglePage_run, readSource, if_pos hprotected]
      rw [if_pos rfl, run_pure, ← collect_eq (le_of_lt hcol), dataPages, hn, pageReads, collect, hfirst,
        if_pos (by decide)]
  | false =>
      rw [if_neg Bool.false_ne_true, run_ite, if_neg haddr, run_ite, if_neg hend, run_ite]
      by_cases hzero : len = 0
      · rw [if_pos hzero, run_pure, hzero, dataPages, pageSpan_zero]
        rfl
      · have hloop := readRangeLoop_collect h.writesize len addr len false 0 [] w
          (Nat.pos_of_ne_zero hzero) (le_refl _) hprotected (by rw [h.ba2addr_eq]; exact hin.end_le)
        rw [if_neg hzero, dataPages, ← collect_eq (le_of_lt hcol), ← hloop, run_bind]
        generalize (run (readRangeLoop len addr len false 0 []) nld w) = r
        rw [rangeReply, run_ite, run_ite]
        split_ifs <;> rfl

/-- An instance that is protected. -/
def protectedWorld : World :=
  { smallPageWorld (List.replicate 20 0xff) with
    ni := { (smallPageWorld (List.replicate 20 0xff)).ni with isProtected := true } }

end Nmbm
end ZyxelRouter
