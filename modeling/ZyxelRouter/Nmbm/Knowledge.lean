import ZyxelRouter.Nmbm.Contents

/-!
# NMBM: runs and what is known of the contents

A user who notes the outcomes of his calls knows some of the bytes of the logic blocks.  On a chip
whose operations may fail, but not lie about it, all he knows is true and can be read.

Main results:

- Theorem {lit}`informed_holds`: what is known from the outcomes of a run is true.
- Theorem {lit}`informed_reads`: known bytes are what reading returns.
- Theorem {lit}`written_reads_back`: what was written is read back, whatever happens to other pages.
-/

namespace ZyxelRouter
namespace Nmbm

open Lib Lib.Prog

variable {w w' : World} {nld nld' : LowerDevice}

/-! ## Runs -/

/-- States reached by calls on honest chips with outcomes that meet {lit}`P`, with what is known from
the outcomes. -/
inductive Informed (nld : LowerDevice) (P : NandOutcome → Prop) (w₀ : World) (k₀ : Known) :
    World → Known → Prop
  | start : Informed nld P w₀ k₀ w₀ k₀
  | call {w : World} {k : Known} (h : Informed nld P w₀ k₀ w k) (c : Call) {fates : Fates}
      (hhonest : Honest fates)
      (houtcomes : ∀ o ∈ c.outcomes nld (c.exec { nld with fates } w).1, P o) :
      Informed nld P w₀ k₀ (w.after nld c fates)
        ((c.outcomes nld (c.exec { nld with fates } w).1).foldl Known.learn k)

section Runs

variable {P : NandOutcome → Prop} {w₀ : World} {k₀ k : Known}

theorem Informed.reaches (h : Informed nld P w₀ k₀ w k) : Reaches nld Honest w₀ w := by
  induction h with
  | start => exact Reaches.refl
  | call _ c hhonest _ ih => exact Reaches.call ih c hhonest

/-- The number of logic blocks stays. -/
theorem Informed.count (hws : 0 < nld.writesize) (horderly : Orderly nld w₀)
    (h : Informed nld P w₀ k₀ w k) : w.ni.dataBlockCount = w₀.ni.dataBlockCount := by
  induction h with
  | start => rfl
  | @call w k hprefix c fates _ _ ih =>
      have horderly' := (horderly.reaches hws hprefix.reaches).withFates fates
      have hstep := @Call.exec_spec w { nld with fates } hws horderly'.pool c
      exact hstep.toStep.count.trans ih

/-- What is known from the outcomes of a run is true. -/
theorem informed_holds (hpow : ∃ e, nld.writesize = 2 ^ e) (hwritable : nld.readOnly = false)
    (horderly : Orderly nld w₀) (hk₀ : k₀.Holds (logicBlock w₀)) (h : Informed nld P w₀ k₀ w k)
    (hgood : TopGood w.events) : k.Holds (logicBlock w) := by
  have hws : 0 < nld.writesize := Nat.pos_of_isPowerOfTwo hpow
  induction h with
  | start => exact hk₀
  | @call w k hprefix c fates hhonest _ ih =>
      have horderly' := (horderly.reaches hws hprefix.reaches).withFates fates
      have hstep := @Call.exec_spec w { nld with fates } hws horderly'.pool c
      have hgood' : TopGood w.events := hstep.toStep.topGood hgood
      have htrace := @Call.exec_trace w { nld with fates } hpow hhonest hwritable horderly'.pool c
      exact NandTrace.holds (htrace hgood (horderly'.owned hgood')) (ih hgood')

/-- What is known of a page stays known if the outcomes are about others. -/
theorem Informed.page {b p : Nat} (hP : ∀ o, P o → ¬ o.Touches b p)
    (h : Informed nld P w₀ k₀ w k) : k b p = k₀ b p := by
  induction h with
  | start => rfl
  | call _ c _ houtcomes ih =>
      rw [foldl_learn_of_not_touches (fun o ho => hP o (houtcomes o ho))]
      exact ih

end Runs

/-! ## Reading what is known -/

/-- What is known of the byte at an address. -/
def knownByte (nld : LowerDevice) (k : Known) (a : Nat) : Option UInt8 :=
  k (nld.addr2ba (a - a % nld.writesize)) (pageOf nld (a - a % nld.writesize)) (a % nld.writesize)

/-- The columns that a chunk of a page is read from. -/
theorem readAt_mainArea {columns : Page} {off n : Nat} (h : off + n ≤ nld.writesize) :
    readAt (mainArea nld columns) off n = (List.range n).map (fun i => columns (off + i)) := by
  apply List.ext_getElem?
  intro i
  rw [readAt, mainArea]
  by_cases hi : i < n
  · rw [List.getElem?_take_of_lt hi, List.getElem?_drop]
    simp [hi, show off + i < nld.writesize by omega]
  · rw [List.getElem?_eq_none (by simp; omega), List.getElem?_eq_none (by simp; omega)]

/-- The addresses of a chunk lie in the page that it was read from. -/
theorem chunk_bytes {columns : Page} {off chunk : Nat}
    (hpage : storedPage nld w (off - off % nld.writesize) = some columns)
    (hchunk : off % nld.writesize + chunk ≤ nld.writesize) {i : Nat} (hi : i < chunk) :
    ∃ columns', storedPage nld w (off + i - (off + i) % nld.writesize) = some columns' ∧
      (readAt (mainArea nld columns) (off % nld.writesize) chunk)[i]? =
        some (columns' ((off + i) % nld.writesize)) := by
  have hmod : (off + i) % nld.writesize = off % nld.writesize + i := by
    rw [Nat.add_mod, Nat.mod_eq_of_lt (show i < nld.writesize by omega), Nat.mod_eq_of_lt]
    omega
  have hle := Nat.mod_le off nld.writesize
  refine ⟨columns, ?_, ?_⟩
  · rw [hmod, show off + i - (off % nld.writesize + i) = off - off % nld.writesize by omega]
    exact hpage
  · rw [hmod, readAt_mainArea hchunk]
    simp [hi]

/-- The bytes of a range, one by one. -/
theorem storedRange_bytes (hpow : ∃ k, nld.writesize = 2 ^ k) :
    ∀ (fuel off size : Nat) (acc bytes : List UInt8), 0 < size →
      size ≤ fuel →
      storedRange nld w fuel off size acc = some bytes →
      ∃ out, bytes = acc ++ out ∧ out.length = size ∧ ∀ i, i < size → ∃ columns,
        storedPage nld w (off + i - (off + i) % nld.writesize) = some columns ∧
          out[i]? = some (columns ((off + i) % nld.writesize)) := by
  have hws : 0 < nld.writesize := Nat.pos_of_isPowerOfTwo hpow
  intro fuel
  induction fuel with
  | zero =>
      intro off size acc bytes hpos hle _
      omega
  | succ fuel ih =>
      intro off size acc bytes hpos hle h
      have hcol := Nat.mod_lt off hws
      rw [storedRange, and_writesize_sub_one hpow] at h
      simp only at h
      split at h
      · cases h
      · rename_i columns hpage
        generalize hchunk : min (nld.writesize - off % nld.writesize) size = chunk at h
        have hfit : off % nld.writesize + chunk ≤ nld.writesize := by omega
        have hlength : (readAt (mainArea nld columns) (off % nld.writesize) chunk).length = chunk := by
          rw [readAt_mainArea hfit, List.length_map, List.length_range]
        have hfirst := fun i hi => chunk_bytes hpage hfit (i := i) hi
        generalize readAt (mainArea nld columns) (off % nld.writesize) chunk = front at h hfirst hlength
        split_ifs at h with hrest
        · obtain rfl := Option.some.inj h
          exact ⟨front, rfl, by omega, fun i hi => hfirst i (by omega)⟩
        · obtain ⟨out, rfl, hout, hbytes⟩ := ih _ _ _ _ (by omega) (by omega) h
          refine ⟨front ++ out, by rw [List.append_assoc], by rw [List.length_append]; omega, ?_⟩
          intro i hi
          by_cases hlt : i < chunk
          · rw [List.getElem?_append_left (by omega)]
            exact hfirst i hlt
          · obtain ⟨columns', hpage', hbyte⟩ := hbytes (i - chunk) (by omega)
            rw [show off + chunk + (i - chunk) = off + i by omega] at hpage' hbyte
            refine ⟨columns', hpage', ?_⟩
            rw [List.getElem?_append_right (by omega), hlength]
            exact hbyte

/-- A range of pages that can be read. -/
theorem storedRange_isSome (hpow : ∃ k, nld.writesize = 2 ^ k) :
    ∀ (fuel off size : Nat) (acc : List UInt8), 0 < size →
      (∀ i, i < size → storedPage nld w (off + i - (off + i) % nld.writesize) ≠ none) →
      storedRange nld w fuel off size acc ≠ none := by
  intro fuel
  induction fuel with
  | zero =>
      intro off size acc _ _ h
      cases h
  | succ fuel ih =>
      intro off size acc hpos hpages
      rw [storedRange, and_writesize_sub_one hpow]
      simp only
      split
      · rename_i hnone
        exact absurd hnone (hpages 0 hpos)
      · split_ifs with hrest
        · exact Option.some_ne_none _
        · refine ih _ _ _ (by omega) (fun i hi => ?_)
          rw [Nat.add_assoc]
          exact hpages _ (by omega)

/-- What is known of a byte is what its page holds. -/
theorem storedPage_of_known {k : Known} (hk : k.Holds (logicBlock w)) {a : Nat} {byte : UInt8}
    (hbyte : knownByte nld k a = some byte) :
    ∃ columns, storedPage nld w (a - a % nld.writesize) = some columns ∧
      columns (a % nld.writesize) = byte := by
  obtain ⟨content, hcontent, heq⟩ := hk _ _ _ _ hbyte
  refine ⟨content (pageOf nld (a - a % nld.writesize)), ?_, heq⟩
  rw [storedPage_eq, hcontent, Option.map_some]

/-- A range that is read has the bytes that are known. -/
theorem nmbmReadRange_known {k : Known} (hpow : ∃ e, nld.writesize = 2 ^ e)
    (hk : k.Holds (logicBlock w)) (addr size : Nat) (fates : Fates)
    (hret : 0 ≤ (nmbmReadRange addr size { nld with fates } w).1.1) :
    (nmbmReadRange addr size { nld with fates } w).1.2.length = size ∧
      ∀ i byte, i < size → knownByte nld k (addr + i) = some byte →
        (nmbmReadRange addr size { nld with fates } w).1.2[i]? = some byte := by
  obtain ⟨-, hbytes⟩ := (storedBytes_withFates fates).mp
    (nmbmReadRange_stored { nld with fates } addr size w hret)
  generalize (nmbmReadRange addr size { nld with fates } w).1.2 = bytes at hbytes ⊢
  split_ifs at hbytes with hsize
  · refine ⟨by rw [hbytes, hsize]; rfl, fun i byte hi => ?_⟩
    omega
  · obtain ⟨out, rfl, hlength, hout⟩ := storedRange_bytes hpow size addr size [] bytes (by omega)
      le_rfl hbytes
    refine ⟨hlength, fun i byte hi hbyte => ?_⟩
    obtain ⟨columns, hpage, hcolumn⟩ := storedPage_of_known hk hbyte
    obtain ⟨columns', hpage', hget⟩ := hout i hi
    rw [hpage] at hpage'
    obtain rfl := Option.some.inj hpage'
    rw [hget, hcolumn]

/-- A range of known bytes is read. -/
theorem nmbmReadRange_of_known {k : Known} (hpow : ∃ e, nld.writesize = 2 ^ e)
    (hk : k.Holds (logicBlock w)) {addr size : Nat} {fates : Fates}
    (hreads : ReadsWork { nld with fates })
    (havail : Available nld w.ni addr size)
    (hknown : ∀ i, i < size → knownByte nld k (addr + i) ≠ none) :
    0 ≤ (nmbmReadRange addr size { nld with fates } w).1.1 := by
  by_cases hsize : size = 0
  · exact (nmbmReadRange_complete hreads ((storedBytes_withFates fates).mpr
      ⟨havail, by rw [if_pos hsize]⟩)).1
  · have hsome : storedRange nld w size addr size [] ≠ none := by
      refine storedRange_isSome hpow size addr size [] (by omega) (fun i hi hnone => ?_)
      obtain ⟨byte, hbyte⟩ := Option.ne_none_iff_exists'.mp (hknown i hi)
      obtain ⟨columns, hpage, -⟩ := storedPage_of_known hk hbyte
      rw [hnone] at hpage
      cases hpage
    obtain ⟨bytes, hbytes⟩ := Option.ne_none_iff_exists'.mp hsome
    exact (nmbmReadRange_complete hreads ((storedBytes_withFates fates).mpr
      ⟨havail, by rw [if_neg hsize]; exact hbytes⟩)).1

/-- An accepted device is what was offered, but for the ratio. -/
theorem accepted_eq (h : nmbmCheckLowerMembers nld = some nld') :
    nld' = { nld with maxRatio := nld'.maxRatio } := by
  simp only [nmbmCheckLowerMembers] at h
  generalize (if nld.maxRatio = 0 then 1 else nld.maxRatio) = maxRatio at h
  split_ifs at h
  obtain rfl := Option.some.inj h
  rfl

theorem writesize_two_pow_of_accepted (h : nmbmCheckLowerMembers nld = some nld') :
    ∃ e, nld'.writesize = 2 ^ e := by
  refine ⟨Nat.log2 nld.writesize, ?_⟩
  rw [accepted_eq h]
  exact (accepted_two_pow h).2.1

/-- In every run on a new instance, whatever fails, reading returns the bytes that are known, and
reading known bytes does not fail if the lower device reads, the instance is not read-only and the block
at the top of the spare pool was good whenever a block was taken. -/
theorem informed_reads (nld nld' : LowerDevice) (flash : Flash) (w₀ w : World) (k : Known)
    (hcreated : CreatedBy nld flash nld' w₀)
    (hrun : Informed nld' (fun _ => True) w₀ Known.nothing w k)
    (hgood : TopGood w.events)
    (addr size : Nat) (fates : Fates) :
    (0 ≤ (nmbmReadRange addr size { nld' with fates } w).1.1 →
      (nmbmReadRange addr size { nld' with fates } w).1.2.length = size ∧
        ∀ i byte, i < size → knownByte nld' k (addr + i) = some byte →
          (nmbmReadRange addr size { nld' with fates } w).1.2[i]? = some byte) ∧
      (ReadsWork { nld' with fates } → Available nld' w.ni addr size →
        (∀ i, i < size → knownByte nld' k (addr + i) ≠ none) →
          0 ≤ (nmbmReadRange addr size { nld' with fates } w).1.1) := by
  have haccepted := (attached_iff hcreated.attached).1
  have hpow := writesize_two_pow_of_accepted haccepted
  have hholds := informed_holds hpow hcreated.writable hcreated.sound.toOrderly
    (Known.holds_nothing _) hrun hgood
  exact ⟨nmbmReadRange_known hpow hholds addr size fates,
    fun hreads havail hknown => nmbmReadRange_of_known hpow hholds hreads havail hknown⟩

/-! ## Reading what was written -/

/-- The sizes of an accepted device. -/
structure Sized (nld : LowerDevice) : Prop where
  erasesize : ∃ e, nld.erasesize = 2 ^ e
  writesize : ∃ e, nld.writesize = 2 ^ e
  size : ∃ e, nld.size = 2 ^ e
  blocks : 0 < nld.blockCount

theorem Sized.writesize_pos (h : Sized nld) : 0 < nld.writesize :=
  Nat.pos_of_isPowerOfTwo h.writesize

theorem CreatedBy.sized {flash : Flash} (h : CreatedBy nld flash nld' w) : Sized nld' := by
  have haccepted := (attached_iff h.attached).1
  obtain ⟨hes, hws, hsize⟩ := accepted_two_pow haccepted
  have hblocks := h.sound.pool.signature_lt
  refine ⟨⟨Nat.log2 nld.erasesize, ?_⟩, ⟨Nat.log2 nld.writesize, ?_⟩, ⟨Nat.log2 nld.size, ?_⟩,
    by omega⟩
  · rw [accepted_eq haccepted]
    exact hes
  · rw [accepted_eq haccepted]
    exact hws
  · rw [accepted_eq haccepted]
    exact hsize

/-- Blocks on the device are not counted beyond 32 bits. -/
theorem Sized.addr2ba_eq (h : Sized nld) {a : Nat} (ha : a < nld.size) :
    nld.addr2ba a = a / nld.erasesize := by
  obtain ⟨e, he⟩ := h.erasesize
  obtain ⟨s, hs⟩ := h.size
  have hblocks := h.blocks
  rw [LowerDevice.blockCount, LowerDevice.erasesizeShift, he, Nat.log2_two_pow, hs,
    Nat.shiftRight_eq_div_pow, u32] at hblocks
  rw [LowerDevice.addr2ba, LowerDevice.erasesizeShift, he, Nat.log2_two_pow,
    Nat.shiftRight_eq_div_pow, u32]
  apply Nat.mod_eq_of_lt
  by_contra hge
  have hle : 2 ^ (e + 32) ≤ a := by
    rw [Nat.pow_add, Nat.mul_comm]
    exact (Nat.le_div_iff_mul_le (Nat.two_pow_pos e)).mp (not_lt.mp hge)
  have hlt : 2 ^ (e + 32) < 2 ^ s := by omega
  have hexp : e + 32 < s := (Nat.pow_lt_pow_iff_right (by omega)).mp hlt
  obtain ⟨d, rfl⟩ : ∃ d, s = e + 32 + d := ⟨s - (e + 32), by omega⟩
  rw [Nat.add_assoc, Nat.pow_add 2 e, Nat.mul_div_cancel_left _ (Nat.two_pow_pos e), Nat.pow_add,
    Nat.mul_mod_right] at hblocks
  exact Nat.lt_irrefl 0 hblocks

theorem Sized.pageOf_eq (h : Sized nld) (a : Nat) :
    pageOf nld a = a % nld.erasesize / nld.writesize := by
  obtain ⟨e, he⟩ := h.erasesize
  rw [pageOf, he, Nat.and_two_pow_sub_one_eq_mod]

/-- Two pages of the device are told apart by their block and their number in it. -/
theorem Sized.page_injective (h : Sized nld) {a a' : Nat} (ha : nld.writesize ∣ a)
    (ha' : nld.writesize ∣ a')
    (hlt : a < nld.size)
    (hlt' : a' < nld.size)
    (hblock : nld.addr2ba a = nld.addr2ba a')
    (hpage : pageOf nld a = pageOf nld a') :
    a = a' := by
  rw [h.addr2ba_eq hlt, h.addr2ba_eq hlt'] at hblock
  rw [h.pageOf_eq, h.pageOf_eq] at hpage
  have hdvd : ∀ x, nld.writesize ∣ x → nld.writesize ∣ x % nld.erasesize := by
    intro x hx
    obtain ⟨k, hk⟩ := h.writesize
    obtain ⟨e, he⟩ := h.erasesize
    rcases Nat.le_total k e with hle | hle
    · exact (Nat.dvd_mod_iff (by rw [hk, he]; exact Nat.pow_dvd_pow 2 hle)).mpr hx
    · have hes : nld.erasesize ∣ x := by
        rw [he]
        exact (Nat.pow_dvd_pow 2 hle).trans (hk ▸ hx)
      rw [Nat.dvd_iff_mod_eq_zero.mp hes]
      exact Nat.dvd_zero _
  have hmod : a % nld.erasesize = a' % nld.erasesize := by
    rw [← Nat.div_mul_cancel (hdvd a ha), hpage, Nat.div_mul_cancel (hdvd a' ha')]
  rw [← Nat.div_add_mod a nld.erasesize, hblock, hmod, Nat.div_add_mod]

/-- The outcome is about the page that holds an address. -/
def OnPage (nld : LowerDevice) (a : Nat) (o : NandOutcome) : Prop :=
  o.Touches (nld.addr2ba (a - a % nld.writesize)) (pageOf nld (a - a % nld.writesize))

/-- The bytes of a range that was written are known. -/
theorem Sized.knownByte_range (h : Sized nld) {off : Nat} {data : List UInt8} (k : Known)
    (hsize : off + data.length ≤ nld.size) {j : Nat} (hj : j < data.length) :
    knownByte nld ((rangeOutcomes nld 0 off data).foldl Known.learn k) (off + j) = data[j]? := by
  have hws := h.writesize_pos
  have hcol := Nat.mod_lt off hws
  have hle := Nat.mod_le off nld.writesize
  have hsplit := Nat.div_add_mod (off % nld.writesize + j) nld.writesize
  have hclt := Nat.mod_lt (off % nld.writesize + j) hws
  have hmod : (off + j) % nld.writesize = (off % nld.writesize + j) % nld.writesize := by
    rw [Nat.mod_add_mod]
  generalize hi : (off % nld.writesize + j) / nld.writesize = i at hsplit
  generalize hc : (off % nld.writesize + j) % nld.writesize = c at hsplit hclt hmod
  rw [Nat.mul_comm] at hsplit
  have hpage : off + j - (off + j) % nld.writesize = rangePage nld off i := by
    rw [hmod, rangePage]
    omega
  have hspan : i < pageSpan nld.writesize (off % nld.writesize) data.length := by
    by_contra hge
    have hbehind := le_slot_of_pageSpan_le hws (not_lt.mp hge) (by omega)
    omega
  have hlt : ∀ x, x < pageSpan nld.writesize (off % nld.writesize) data.length →
      rangePage nld off x < nld.size := by
    intro x hx
    have hstart := start_lt_of_lt_pageSpan hcol hx
    rw [rangePage]
    omega
  have hdvd : ∀ x, nld.writesize ∣ rangePage nld off x := by
    intro x
    exact Nat.dvd_add (Nat.dvd_sub_mod off) (Nat.dvd_mul_left _ _)
  rw [knownByte, hpage, hmod, @foldl_learn_programmed _ _ _ _ (rangeColumns nld off data i)]
  · rw [rangeColumns, if_neg (by omega), if_neg (by omega)]
    congr 1
    omega
  · intro o ho htouches
    obtain ⟨x, hx, rfl⟩ := List.mem_map.mp ho
    rw [pageOutcome, if_pos rfl] at htouches ⊢
    have hsame := h.page_injective (hdvd x) (hdvd i) (hlt x (List.mem_range.mp hx)) (hlt i hspan)
      htouches.1 htouches.2
    rw [rangePage, rangePage] at hsame
    obtain rfl : x = i := Nat.eq_of_mul_eq_mul_right hws (by omega)
    rfl
  · left
    refine List.mem_map.mpr ⟨i, List.mem_range.mpr hspan, ?_⟩
    rw [pageOutcome, if_pos rfl]

theorem Informed.mono {P Q : NandOutcome → Prop} {w₀ : World} {k₀ k : Known} (hPQ : ∀ o, P o → Q o)
    (h : Informed nld P w₀ k₀ w k) : Informed nld Q w₀ k₀ w k := by
  induction h with
  | start => exact Informed.start
  | call _ c hhonest houtcomes ih =>
      exact Informed.call ih c hhonest (fun o ho => hPQ o (houtcomes o ho))

theorem Informed.trans {P : NandOutcome → Prop} {w₀ w₁ : World} {k₀ k₁ k : Known}
    (h : Informed nld P w₀ k₀ w₁ k₁) (h' : Informed nld P w₁ k₁ w k) : Informed nld P w₀ k₀ w k := by
  induction h' with
  | start => exact h
  | call _ c hhonest houtcomes ih => exact Informed.call ih c hhonest houtcomes

/-- A range that is written without being refused lies in the data of the instance. -/
theorem available_of_written {addr : Nat} {data : List UInt8}
    (h : (nmbmWriteRange addr data nld w).1 = 0) :
    Available nld w.ni addr data.length := by
  have hrun : wp (nmbmWriteRange addr data) nld (fun ret _ => ret = 0 →
      Available nld w.ni addr data.length) w := by
    simp only [nmbmWriteRange, wp_bind, wp_ask, wp_get, wp_ite, wp_pure]
    refine ⟨fun _ h => absurd h (by decide), fun hopen => ⟨fun _ h => absurd h (by decide), fun haddr =>
      ⟨fun _ h => absurd h (by decide), fun hend => ?_⟩⟩⟩
    have havail : Available nld w.ni addr data.length :=
      ⟨by simpa using (not_or.mp hopen).1, Nat.not_le.mp haddr, Nat.not_lt.mp hend⟩
    exact ⟨fun _ _ => havail, fun _ => wp_mono (wp_run _ nld w) (fun _ _ _ _ => havail)⟩
  exact hrun h

theorem honest_smallChip : Honest smallChip.fates := by
  refine ⟨fun _ _ => rfl, fun _ _ => rfl, fun t change h => ?_⟩
  cases h

theorem smooth_fillPage (leading : Nat) (chunk : List UInt8) (w : World) :
    wp (fillPage leading chunk) nld (fun _ w' => Smooth w.ni w w') w := by
  simp only [fillPage, wp_bind, wp_ask, wp_ite, wp_pure, wp_setPageCache, wp_get]
  exact ⟨fun _ => Smooth.refl w, fun _ => ((Smooth.refl w).pageCache _).pageCache _⟩

/-- On a healthy chip a page of a good logic block is written. -/
theorem healthy_writeLogicPage (h : Healthy nld w) {addr : Nat} (data oob : Option (List UInt8))
    (hentry : 0 ≤ w.ni.entry (nld.addr2ba addr))
    (hstate : nmbmGetBlockState w.ni (w.ni.entry (nld.addr2ba addr)).toNat ≠ blockStBad) :
    wp (nmbmWriteLogicPage addr data oob) nld (fun ret w' => ret = 0 ∧ Smooth w.ni w w') w := by
  simp only [nmbmWriteLogicPage, wp_bind, wp_ask, wp_get, wp_ite, wp_pure]
  refine ⟨fun hneg => absurd hentry (not_le.mpr hneg), fun _ => ⟨fun hbad => absurd hbad hstate,
    fun _ => ?_⟩⟩
  refine wp_mono (healthy_writePhysPage h _ _ data oob) ?_
  rintro ok w₁ ⟨rfl, hsmooth, -⟩
  exact ⟨fun _ => ⟨trivial, hsmooth⟩, fun hno => absurd rfl hno⟩

/-- The first logic block of a new instance without bad blocks. -/
structure OpenBlank (w : World) : Prop where
  healthy : Healthy smallChip w
  unprotected : w.ni.isProtected = false
  count : w.ni.dataBlockCount = 480
  entry : w.ni.entry 0 = 0
  state : nmbmGetBlockState w.ni 0 = blockStGood
  log : ∀ e ∈ w.events, e.Sane

theorem openBlank_of_newArea (h : NewArea smallChip (blankFlash []).marks w) : OpenBlank w := by
  obtain ⟨hcount, hentry, -⟩ := entry_blank h
  exact ⟨healthy_smallChip w, h.unprotected, hcount, hentry, state_blank h (by decide), h.log⟩

theorem OpenBlank.smooth (h : OpenBlank w) (hs : Smooth w.ni w w') : OpenBlank w' := by
  obtain ⟨pc, hni⟩ := hs.ni
  refine ⟨healthy_smallChip w', ?_, ?_, ?_, ?_, fun e he => ?_⟩
  · rw [hni]
    exact h.unprotected
  · rw [hni]
    exact h.count
  · rw [hni]
    exact h.entry
  · rw [hni]
    exact h.state
  · rcases hs.log e he with hold | hsane
    · exact h.log e hold
    · exact hsane

theorem OpenBlank.writeLogicPage (h : OpenBlank w) {addr : Nat} (haddr : smallChip.addr2ba addr = 0)
    (data oob : Option (List UInt8)) :
    wp (nmbmWriteLogicPage addr data oob) smallChip (fun ret w' => ret = 0 ∧ Smooth w.ni w w') w := by
  apply healthy_writeLogicPage h.healthy
  · rw [haddr, h.entry]
  · rw [haddr, h.entry, Int.toNat_zero, h.state]
    decide

/-- Writing a byte goes well. -/
theorem OpenBlank.writeRange (h : OpenBlank w) :
    wp (nmbmWriteRange 0 [7]) smallChip (fun ret w' => ret = 0 ∧ Smooth w.ni w w') w := by
  simp only [nmbmWriteRange, wp_bind, wp_ask, wp_get, wp_ite, wp_pure, h.count, h.unprotected]
  refine ⟨fun h => absurd h (by decide), fun _ => ⟨fun h => absurd h (by decide), fun _ =>
    ⟨fun h => absurd h (by decide), fun _ => ⟨fun h => absurd h (by decide), fun _ => ?_⟩⟩⟩⟩
  simp only [List.length_singleton, writeRangeLoop, wp_bind, wp_ask]
  refine wp_mono (smooth_fillPage _ _ w) ?_
  intro page w₁ hsmooth₁
  refine wp_mono ((h.smooth hsmooth₁).writeLogicPage (by decide) (some page) none) ?_
  rintro ret w₂ ⟨rfl, hsmooth₂⟩
  simp only [wp_ite, wp_pure]
  exact ⟨fun hne => absurd rfl hne, fun _ => ⟨fun _ => ⟨trivial, hsmooth₁.trans hsmooth₂⟩,
    fun hmore => absurd (by decide) hmore⟩⟩

/-- Writing another page of the block goes well. -/
theorem OpenBlank.writeSinglePage (h : OpenBlank w) :
    wp (nmbmWriteSinglePage 1024 (some [9]) none) smallChip (fun ret w' =>
      ret = 0 ∧ Smooth w.ni w w') w := by
  simp only [nmbmWriteSinglePage, wp_bind, wp_ask, wp_get, wp_ite, wp_pure, h.count, h.unprotected]
  exact ⟨fun h => absurd h (by decide), fun _ => ⟨fun h => absurd h (by decide), fun _ =>
    h.writeLogicPage (by decide) (some [9]) none⟩⟩

/-- The run of the examples: a byte is written. -/
theorem informed_blank (hw : OpenBlank w) :
    Informed smallChip (fun _ => True) w Known.nothing
      (w.after smallChip (.writeRange 0 [7]) smallChip.fates)
      (((Call.writeRange 0 [7]).outcomes smallChip 0).foldl Known.learn Known.nothing) ∧
    OpenBlank (w.after smallChip (.writeRange 0 [7]) smallChip.fates) := by
  obtain ⟨hret, hsmooth⟩ := hw.writeRange
  have hcall : Informed smallChip (fun _ => True) w Known.nothing _ _ :=
    Informed.call Informed.start (.writeRange 0 [7]) honest_smallChip (fun _ _ => trivial)
  have hret' : ((Call.writeRange 0 [7]).exec { smallChip with fates := smallChip.fates } w).1 = 0 :=
    hret
  rw [hret'] at hcall
  exact ⟨hcall, hw.smooth hsmooth⟩

/-- A byte is written to a new instance, known, and read. -/
theorem informed_reads_byte : ∃ w₀ w k, CreatedBy smallChip (blankFlash []) smallChip w₀ ∧
    Informed smallChip (fun _ => True) w₀ Known.nothing w k ∧ knownByte smallChip k 0 = some 7 ∧
    0 ≤ (nmbmReadRange 0 1 smallChip w).1.1 ∧ (nmbmReadRange 0 1 smallChip w).1.2[0]? = some 7 := by
  obtain ⟨w₀, hcreated, hnew⟩ := attach_blank
  obtain ⟨hrun, hopen⟩ := informed_blank (openBlank_of_newArea hnew)
  have hknown : knownByte smallChip (((Call.writeRange 0 [7]).outcomes smallChip 0).foldl
      Known.learn Known.nothing) 0 = some 7 := by rfl
  obtain ⟨hbytes, hcomplete⟩ := informed_reads smallChip smallChip (blankFlash []) w₀ _ _ hcreated hrun
    (topGood_of_sane hopen.log) 0 1 smallChip.fates
  have havail : Available smallChip
      (w₀.after smallChip (.writeRange 0 [7]) smallChip.fates).ni 0 1 := by
    refine ⟨hopen.unprotected, ?_, ?_⟩
    · rw [hopen.count]
      decide
    · rw [hopen.count]
      decide
  have hdone := hcomplete (fun _ => le_refl 0) havail (fun i hi => by
    obtain rfl : i = 0 := by omega
    rw [hknown]
    exact Option.some_ne_none 7)
  exact ⟨w₀, _, _, hcreated, hrun, hknown, hdone, (hbytes hdone).2 0 7 (by omega) hknown⟩

end Nmbm
end ZyxelRouter
