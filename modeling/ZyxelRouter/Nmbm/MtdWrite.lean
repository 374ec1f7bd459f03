import ZyxelRouter.Nmbm.Frame
import ZyxelRouter.Nmbm.Mtd

/-!
# NMBM: the page programs of a write request

Both ways of writing hand one page after the other to the manager, until one fails.  Which pages are
written depends on the mapping, the block states and the chip, and not on the bytes.

Main results:

- Theorems {lit}`writeRangePages_spec`, {lit}`mtdWriteDataLoop_spec`: the two loops.
- Theorem {lit}`writePaths_agree_iff`: when a request without spare bytes is carried out in the same way by
  both.
- Theorem {lit}`writePaths_agree_fails`: a short write behind left-over bytes.
-/

namespace ZyxelRouter
namespace Nmbm

open Lib Lib.Prog

variable {nld : LowerDevice} {ni : NmbmInstance} {nm : NmbmMtd} {w : World} {mode : OobMode}
  {addr col n clock : Nat} {data : List UInt8}

/-! ## Pages that can be written -/

/-- The manager gets as far as programming a page. -/
def PageUsable (nld : LowerDevice) (ni : NmbmInstance) (addr : Nat) : Prop :=
  ¬ (ni.isProtected ∨ nld.readOnly) ∧ addr < nld.ba2addr ni.dataBlockCount ∧
    ¬ ni.blockMapping.getD (nld.addr2ba addr) (-1) < 0 ∧
    nmbmGetBlockState ni (ni.blockMapping.getD (nld.addr2ba addr) (-1)).toNat ≠ blockStBad

instance (nld : LowerDevice) (ni : NmbmInstance) (addr : Nat) : Decidable (PageUsable nld ni addr) :=
  inferInstanceAs (Decidable (_ ∧ _))

/-- The time after a page was programmed, if one of the tries works. -/
def programTime (fates : Fates) : Nat → Nat → Option Nat
  | 0, _ => none
  | tries + 1, clock =>
      if (fates clock .write).ret = 0 then some (clock + 1) else programTime fates tries (clock + 1)

/-- Of {lit}`n` pages from an address on, the number that is written before the first one fails. -/
def writtenPages (nld : LowerDevice) (ni : NmbmInstance) : Nat → Nat → Nat → Nat
  | 0, _, _ => 0
  | n + 1, addr, clock =>
      if PageUsable nld ni addr then
        match programTime nld.fates nmbmTryCount clock with
        | none => 0
        | some clock' => writtenPages nld ni n (addr + nld.writesize) clock' + 1
      else 0

/-- The program of a page, from its buffers. -/
def pageProgram (nld : LowerDevice) (ni : NmbmInstance) (mode : OobMode) (addr : Nat)
    (buffers : Option (List UInt8) × Option (List UInt8)) : PageProgram :=
  ⟨(ni.blockMapping.getD (nld.addr2ba addr) (-1)).toNat, pageOf nld addr, buffers.1, buffers.2, mode⟩

/-- The programs issued for {lit}`n` pages from an address on. -/
def issuedPrograms (nld : LowerDevice) (ni : NmbmInstance) (mode : OobMode) :
    Nat → Nat → Nat → (Nat → Option (List UInt8) × Option (List UInt8)) → List PageProgram
  | 0, _, _, _ => []
  | n + 1, addr, clock, buffers =>
      if PageUsable nld ni addr then
        match programTime nld.fates nmbmTryCount clock with
        | none => [pageProgram nld ni mode addr (buffers 0)]
        | some clock' => pageProgram nld ni mode addr (buffers 0) ::
            issuedPrograms nld ni mode n (addr + nld.writesize) clock' (fun i => buffers (i + 1))
      else []

theorem writtenPages_le : ∀ (n addr clock : Nat), writtenPages nld ni n addr clock ≤ n := by
  intro n
  induction n with
  | zero =>
      intro addr clock
      exact le_refl 0
  | succ n ih =>
      intro addr clock
      rw [writtenPages]
      split_ifs with husable
      · split
        · exact Nat.zero_le _
        · exact Nat.succ_le_succ (ih _ _)
      · exact Nat.zero_le _

/-- The page cache is no matter. -/
@[simp]
theorem writtenPages_pageCache (pageCache : List UInt8) :
    ∀ n addr clock : Nat, writtenPages nld { ni with pageCache } n addr clock =
      writtenPages nld ni n addr clock := by
  intro n
  induction n with
  | zero =>
      intro addr clock
      rfl
  | succ n ih =>
      intro addr clock
      simp only [writtenPages, ih]
      rfl

@[simp]
theorem issuedPrograms_pageCache (pageCache : List UInt8) :
    ∀ (n addr clock : Nat) (buffers : Nat → Option (List UInt8) × Option (List UInt8)),
      issuedPrograms nld { ni with pageCache } mode n addr clock buffers =
        issuedPrograms nld ni mode n addr clock buffers := by
  intro n
  induction n with
  | zero =>
      intro addr clock buffers
      rfl
  | succ n ih =>
      intro addr clock buffers
      simp only [issuedPrograms, ih]
      rfl

/-- A program at a position is that of the page at this position, which is at most the first one that
is not written. -/
theorem mem_issuedPrograms_iff {p : PageProgram} :
    ∀ (n addr clock : Nat) (buffers : Nat → Option (List UInt8) × Option (List UInt8)) (i : Nat),
      (issuedPrograms nld ni mode n addr clock buffers)[i]? = some p ↔
        i < n ∧ i ≤ writtenPages nld ni n addr clock ∧ PageUsable nld ni (addr + i * nld.writesize) ∧
          p = pageProgram nld ni mode (addr + i * nld.writesize) (buffers i) := by
  intro n
  induction n with
  | zero =>
      intro addr clock buffers i
      simp [issuedPrograms]
  | succ n ih =>
      intro addr clock buffers i
      rw [issuedPrograms, writtenPages]
      by_cases husable : PageUsable nld ni addr
      · rw [if_pos husable, if_pos husable]
        cases programTime nld.fates nmbmTryCount clock with
        | none =>
            cases i with
            | zero => simp [husable, eq_comm]
            | succ i => simp
        | some clock' =>
            cases i with
            | zero => simp [husable, eq_comm]
            | succ i =>
                have hshift : addr + (i + 1) * nld.writesize = addr + nld.writesize + i * nld.writesize := by
                  ring
                simp only [List.getElem?_cons_succ, ih, hshift, Nat.add_lt_add_iff_right,
                  Nat.add_le_add_iff_right]
      · rw [if_neg husable, if_neg husable]
        cases i with
        | zero => simp [husable]
        | succ i => simp

/-- Only the buffers of pages that are reached matter. -/
theorem issuedPrograms_congr {buffers buffers' : Nat → Option (List UInt8) × Option (List UInt8)}
    (h : ∀ i, i < n → buffers i = buffers' i) :
    issuedPrograms nld ni mode n addr clock buffers =
      issuedPrograms nld ni mode n addr clock buffers' := by
  apply List.ext_getElem?
  intro i
  apply Option.ext
  intro p
  rw [mem_issuedPrograms_iff, mem_issuedPrograms_iff]
  constructor
  · rintro ⟨hi, hle, husable, hp⟩
    exact ⟨hi, hle, husable, by rw [hp, h i hi]⟩
  · rintro ⟨hi, hle, husable, hp⟩
    exact ⟨hi, hle, husable, by rw [hp, h i hi]⟩

theorem pageUsable_of_lt_writtenPages :
    ∀ (n addr clock i : Nat), i < writtenPages nld ni n addr clock →
      PageUsable nld ni (addr + i * nld.writesize) := by
  intro n
  induction n with
  | zero =>
      intro addr clock i hi
      exact absurd hi (Nat.not_lt_zero i)
  | succ n ih =>
      intro addr clock i hi
      rw [writtenPages] at hi
      split_ifs at hi with husable
      · cases i with
        | zero =>
            rw [Nat.zero_mul, Nat.add_zero]
            exact husable
        | succ i =>
            split at hi
            · exact absurd hi (Nat.not_lt_zero _)
            · have hshift : addr + (i + 1) * nld.writesize = addr + nld.writesize + i * nld.writesize := by
                ring
              rw [hshift]
              exact ih _ _ i (Nat.lt_of_succ_lt_succ hi)
      · exact absurd hi (Nat.not_lt_zero i)

/-- If all pages are written, each of them has a program. -/
theorem length_issuedPrograms {buffers : Nat → Option (List UInt8) × Option (List UInt8)}
    (hall : writtenPages nld ni n addr clock = n) :
    (issuedPrograms nld ni mode n addr clock buffers).length = n := by
  apply Nat.le_antisymm
  · rw [← Nat.not_lt]
    intro hlt
    have hsome := List.getElem?_eq_getElem hlt
    exact absurd ((mem_issuedPrograms_iff _ _ _ _ _).mp hsome).1 (Nat.lt_irrefl n)
  · rw [← Nat.not_lt]
    intro hlt
    have hnone := List.getElem?_eq_none (le_refl (issuedPrograms nld ni mode n addr clock buffers).length)
    rw [(mem_issuedPrograms_iff n addr clock buffers _).mpr
      ⟨hlt, by omega, pageUsable_of_lt_writtenPages n addr clock _ (by rw [hall]; exact hlt), rfl⟩] at hnone
    exact Option.some_ne_none _ hnone

/-- If all pages are written, their buffers can be read off from the programs. -/
theorem buffers_eq_of_issuedPrograms_eq {buffers buffers' : Nat → Option (List UInt8) × Option (List UInt8)}
    (hall : writtenPages nld ni n addr clock = n)
    (h : issuedPrograms nld ni mode n addr clock buffers =
      issuedPrograms nld ni mode n addr clock buffers') {i : Nat} (hi : i < n) :
    buffers i = buffers' i := by
  have husable : PageUsable nld ni (addr + i * nld.writesize) :=
    pageUsable_of_lt_writtenPages n addr clock i (by rw [hall]; exact hi)
  have hmem : (issuedPrograms nld ni mode n addr clock buffers)[i]? =
      some (pageProgram nld ni mode (addr + i * nld.writesize) (buffers i)) :=
    (mem_issuedPrograms_iff n addr clock buffers i).mpr ⟨hi, by omega, husable, rfl⟩
  rw [h, mem_issuedPrograms_iff] at hmem
  have heq := hmem.2.2.2
  simp only [pageProgram, PageProgram.mk.injEq] at heq
  exact Prod.ext heq.2.2.1 heq.2.2.2.1

/-! ## One page -/

/-- What writing a page does: the program it issues, and the time after it if it works. -/
def PageOutcome (nld : LowerDevice) (w : World) (mode : OobMode) (addr : Nat)
    (buffers : Option (List UInt8) × Option (List UInt8)) (r : Int × List PageProgram) (w' : World) : Prop :=
  if PageUsable nld w.ni addr then
    r.2 = [pageProgram nld w.ni mode addr buffers] ∧
      (programTime nld.fates nmbmTryCount w.chip.clock = none → r.1 ≠ 0) ∧
      ∀ clock', programTime nld.fates nmbmTryCount w.chip.clock = some clock' →
        r.1 = 0 ∧ w'.ni = w.ni ∧ w'.chip.clock = clock'
  else r.1 ≠ 0 ∧ r.2 = []

theorem writeTries_time (ba page : Nat) (columns : Nat → Option UInt8) :
    ∀ (more : Nat) (w : World),
      wp (writeTries ba page columns more) nld (fun success w' =>
        (programTime nld.fates (more + 1) w.chip.clock = none → success = false) ∧
          ∀ clock', programTime nld.fates (more + 1) w.chip.clock = some clock' →
            success = true ∧ w'.ni = w.ni ∧ w'.chip.clock = clock') w := by
  intro more
  induction more with
  | zero =>
      intro w
      simp only [writeTries, wp_bind, wp_lower, wp_pure, programTime]
      split_ifs with hret
      · refine ⟨fun h => absurd h (by simp), fun clock' h => ⟨decide_eq_true hret, trivial, ?_⟩⟩
        exact Option.some.inj h
      · exact ⟨fun _ => decide_eq_false hret, fun clock' h => absurd h (by simp)⟩
  | succ more ih =>
      intro w
      rw [programTime]
      simp only [writeTries, wp_bind, wp_lower, wp_ite, wp_pure]
      split_ifs with hret
      · refine ⟨fun _ => ⟨fun h => absurd h (by simp), fun clock' h => ⟨trivial, trivial, ?_⟩⟩,
          fun hne => absurd hret hne⟩
        exact Option.some.inj h
      · refine ⟨fun heq => absurd heq hret, fun _ => ?_⟩
        exact ih { w with chip := (Chip.writePage nld.fates ba page columns w.chip).2 }

theorem writeLogicPage_spec (hopen : ¬ (w.ni.isProtected ∨ nld.readOnly))
    (haddr : addr < nld.ba2addr w.ni.dataBlockCount) (buffers : Option (List UInt8) × Option (List UInt8)) :
    wp (writeLogicPage mode addr buffers.1 buffers.2) nld (PageOutcome nld w mode addr buffers) w := by
  have hrw : nld.readOnly = false := by
    cases hro : nld.readOnly with
    | false => rfl
    | true => exact absurd (.inr hro) hopen
  simp only [writeLogicPage, nmbmWriteLogicPage, wp_bind, wp_ask, wp_get, wp_pure, wp_ite]
  refine ⟨fun hentry => ?_, fun hentry => ⟨fun hbad => ?_, fun hgood => ?_⟩⟩
  · rw [PageOutcome, if_neg (fun h => h.2.2.1 hentry), logicPrograms, if_pos hentry]
    exact ⟨by decide, rfl⟩
  · rw [PageOutcome, if_neg (fun h => h.2.2.2 hbad), logicPrograms, if_neg hentry, if_pos hbad]
    exact ⟨by decide, rfl⟩
  · have hprogram : logicPrograms nld w.ni mode addr buffers.1 buffers.2 =
        [pageProgram nld w.ni mode addr buffers] := by
      rw [logicPrograms, if_neg hentry, if_neg hgood, hrw, if_neg (by decide)]
      rfl
    simp only [PageOutcome, if_pos (show PageUsable nld w.ni addr from ⟨hopen, haddr, hentry, hgood⟩),
      hprogram, nmbmWritePhysPage, wp_bind, wp_ask, hrw, Bool.false_eq_true, if_false]
    refine wp_mono (writeTries_time _ _ _ _ w) ?_
    rintro success w' ⟨hfail, hdone⟩
    refine ⟨fun hsuccess => ?_, fun hsuccess => ?_⟩
    · refine ⟨trivial, fun hnone => ?_, fun clock' hsome => ⟨trivial, (hdone clock' hsome).2⟩⟩
      rw [hfail hnone] at hsuccess
      exact absurd hsuccess (by decide)
    · exact ⟨trivial, fun _ => by decide, fun clock' hsome => absurd (hdone clock' hsome).1 hsuccess⟩

theorem writeSinglePage_spec (buffers : Option (List UInt8) × Option (List UInt8)) :
    wp (writeSinglePage mode addr buffers.1 buffers.2) nld (PageOutcome nld w mode addr buffers) w := by
  simp only [writeSinglePage, wp_bind, wp_ask, wp_get, wp_pure, wp_ite]
  refine ⟨fun hclosed => ?_, fun hopen => ⟨fun hbehind => ?_, fun hin => ?_⟩⟩
  · rw [PageOutcome, if_neg (fun h => h.1 hclosed)]
    exact ⟨by decide, rfl⟩
  · rw [PageOutcome, if_neg (fun h => Nat.not_lt.mpr hbehind h.2.1)]
    exact ⟨by decide, rfl⟩
  · exact writeLogicPage_spec hopen (Nat.not_le.mp hin) buffers

/-- A page fails, and it is the last one reached. -/
structure PageFails (nld : LowerDevice) (w : World) (mode : OobMode) (addr : Nat)
    (buffers : Option (List UInt8) × Option (List UInt8)) (r : Int × List PageProgram) : Prop where
  ret : r.1 ≠ 0
  written : ∀ n, writtenPages nld w.ni (n + 1) addr w.chip.clock = 0
  programs : ∀ n rest, rest 0 = buffers →
    issuedPrograms nld w.ni mode (n + 1) addr w.chip.clock rest = r.2

/-- A page is written, and the next one follows. -/
structure PageDone (nld : LowerDevice) (w : World) (mode : OobMode) (addr : Nat)
    (buffers : Option (List UInt8) × Option (List UInt8)) (r : Int × List PageProgram) (w' : World) :
    Prop where
  ret : r.1 = 0
  ni : w'.ni = w.ni
  written : ∀ n, writtenPages nld w.ni (n + 1) addr w.chip.clock =
    writtenPages nld w.ni n (addr + nld.writesize) w'.chip.clock + 1
  programs : ∀ n rest, rest 0 = buffers →
    issuedPrograms nld w.ni mode (n + 1) addr w.chip.clock rest =
      r.2 ++ issuedPrograms nld w.ni mode n (addr + nld.writesize) w'.chip.clock (fun i => rest (i + 1))

theorem PageOutcome.fails_or_done {buffers : Option (List UInt8) × Option (List UInt8)}
    {r : Int × List PageProgram} {w' : World} (h : PageOutcome nld w mode addr buffers r w') :
    PageFails nld w mode addr buffers r ∨ PageDone nld w mode addr buffers r w' := by
  rw [PageOutcome] at h
  split_ifs at h with husable
  · obtain ⟨hprograms, hfail, hdone⟩ := h
    cases htime : programTime nld.fates nmbmTryCount w.chip.clock with
    | none =>
        refine .inl ⟨hfail htime, fun n => ?_, fun n rest hrest => ?_⟩
        · rw [writtenPages, if_pos husable, htime]
        · rw [issuedPrograms, if_pos husable, htime, hrest, hprograms]
    | some clock' =>
        obtain ⟨hret, hni, hclock⟩ := hdone clock' htime
        refine .inr ⟨hret, hni, fun n => ?_, fun n rest hrest => ?_⟩
        · rw [writtenPages, if_pos husable, htime, hclock]
        · rw [issuedPrograms, if_pos husable, htime, hrest, hprograms, hclock, List.singleton_append]
  · refine .inl ⟨h.1, fun n => ?_, fun n rest _ => ?_⟩
    · rw [writtenPages, if_neg husable]
    · rw [issuedPrograms, if_neg husable, h.2]

/-! ## The loop of a request with spare bytes -/

namespace WriteCursor

variable {maxooblen : Nat} {useData useOob : Bool} {s : WriteCursor}

/-- The data part. -/
def dataFeed (s : WriteCursor) : Feed UInt8 :=
  ⟨s.col, s.data, s.datcache, s.retlen⟩

/-- The spare part. -/
def oobFeed (s : WriteCursor) : Feed UInt8 :=
  ⟨s.ooboffs, s.oob, s.oobcache, s.oobretlen⟩

/-- Both parts fit their areas of a page. -/
structure Fits (nld : LowerDevice) (maxooblen : Nat) (s : WriteCursor) : Prop where
  data : s.dataFeed.Fits nld.writesize nld.writesize
  oob : s.oobFeed.Fits maxooblen nld.oobsize

/-- The pages that are left. -/
def pages (nld : LowerDevice) (maxooblen : Nat) (s : WriteCursor) : Nat :=
  max (s.dataFeed.pages nld.writesize) (s.oobFeed.pages maxooblen)

/-- The buffers of the pages that are left. -/
def buffers (nld : LowerDevice) (maxooblen : Nat) (useData useOob : Bool) (s : WriteCursor) (i : Nat) :
    Option (List UInt8) × Option (List UInt8) :=
  (if useData then some (s.dataFeed.image 0xff nld.writesize nld.writesize i) else none,
    if useOob then some (s.oobFeed.image 0xff maxooblen nld.oobsize i) else none)

/-- Both parts are moved for one page. -/
def move (nld : LowerDevice) (maxooblen : Nat) (s : WriteCursor) : WriteCursor :=
  { (s.moveData nld).moveOob nld maxooblen with addr := s.addr + nld.writesize }

theorem move_dataFeed :
    (s.move nld maxooblen).dataFeed = s.dataFeed.move 0xff nld.writesize nld.writesize := by
  by_cases hdata : s.data.length = 0 <;> by_cases hoob : s.oob.length = 0 <;>
    simp only [move, moveOob, moveData, dataFeed, Feed.move, hdata, hoob, if_true, if_false]

theorem move_oobFeed :
    (s.move nld maxooblen).oobFeed = s.oobFeed.move 0xff maxooblen nld.oobsize := by
  by_cases hdata : s.data.length = 0 <;> by_cases hoob : s.oob.length = 0 <;>
    simp only [move, moveOob, moveData, oobFeed, Feed.move, hdata, hoob, if_true, if_false]

theorem moved_addr : ((s.moveData nld).moveOob nld maxooblen).addr = s.addr := by
  by_cases hdata : s.data.length = 0 <;> by_cases hoob : s.oob.length = 0 <;>
    simp only [moveOob, moveData, hdata, hoob, if_true, if_false]

theorem Fits.move (h : s.Fits nld maxooblen) : (s.move nld maxooblen).Fits nld maxooblen where
  data := by
    rw [move_dataFeed]
    exact Feed.move_fits h.data
  oob := by
    rw [move_oobFeed]
    exact Feed.move_fits h.oob

theorem Fits.move_pages (h : s.Fits nld maxooblen) :
    (s.move nld maxooblen).pages nld maxooblen = s.pages nld maxooblen - 1 := by
  rw [pages, pages, move_dataFeed, move_oobFeed, Feed.move_pages h.data, Feed.move_pages h.oob]
  omega

theorem Fits.pages_eq_zero_iff (h : s.Fits nld maxooblen) :
    s.pages nld maxooblen = 0 ↔ s.data = [] ∧ s.oob = [] := by
  have hdata := Feed.pages_eq_zero_iff h.data
  have hoob := Feed.pages_eq_zero_iff h.oob
  rw [pages, Nat.max_eq_zero_iff, hdata, hoob]
  rfl

theorem Fits.move_buffers (h : s.Fits nld maxooblen) (i : Nat) :
    (s.move nld maxooblen).buffers nld maxooblen useData useOob i =
      s.buffers nld maxooblen useData useOob (i + 1) := by
  rw [buffers, buffers, move_dataFeed, move_oobFeed, Feed.move_image h.data, Feed.move_image h.oob]

end WriteCursor

/-- What a request does: the result is 0 if all pages are written, and the page that fails counts as
moved. -/
structure WriteCursor.Outcome (nld : LowerDevice) (mode : OobMode) (maxooblen : Nat)
    (useData useOob : Bool) (s : WriteCursor) (w : World) (r : WriteReply) : Prop where
  ret : r.ret = 0 ↔ writtenPages nld w.ni (s.pages nld maxooblen) s.addr w.chip.clock =
    s.pages nld maxooblen
  retlen : r.retlen = s.dataFeed.total nld.writesize
    (min (writtenPages nld w.ni (s.pages nld maxooblen) s.addr w.chip.clock + 1) (s.pages nld maxooblen))
  oobretlen : r.oobretlen = s.oobFeed.total maxooblen
    (min (writtenPages nld w.ni (s.pages nld maxooblen) s.addr w.chip.clock + 1) (s.pages nld maxooblen))
  programs : r.programs = issuedPrograms nld w.ni mode (s.pages nld maxooblen) s.addr w.chip.clock
    (s.buffers nld maxooblen useData useOob)

/-- Nothing is left to write. -/
theorem WriteCursor.Fits.outcome_of_nil {maxooblen : Nat} {s : WriteCursor} (h : s.Fits nld maxooblen)
    (useData useOob : Bool) (w : World) (hdata : s.data = []) (hoob : s.oob = []) :
    s.Outcome nld mode maxooblen useData useOob w ⟨0, s.retlen, s.oobretlen, []⟩ := by
  have hpages := h.pages_eq_zero_iff.mpr ⟨hdata, hoob⟩
  constructor
  · rw [hpages]
    exact ⟨fun _ => rfl, fun _ => rfl⟩
  · simp [hpages, Feed.total, movedLength, WriteCursor.dataFeed, hdata]
  · simp [hpages, Feed.total, movedLength, WriteCursor.oobFeed, hoob]
  · rw [hpages]
    rfl

namespace WriteCursor

variable {maxooblen : Nat} {useData useOob : Bool} {s : WriteCursor} {r : Int × List PageProgram}

theorem Fits.move_length (h : s.Fits nld maxooblen) :
    (s.move nld maxooblen).data.length + (s.move nld maxooblen).oob.length ≤
      s.data.length - 1 + (s.oob.length - 1) := by
  have hdata : (s.move nld maxooblen).dataFeed.rest.length ≤ s.dataFeed.rest.length - 1 := by
    rw [move_dataFeed]
    exact Feed.move_length h.data
  have hoob : (s.move nld maxooblen).oobFeed.rest.length ≤ s.oobFeed.rest.length - 1 := by
    rw [move_oobFeed]
    exact Feed.move_length h.oob
  exact Nat.add_le_add hdata hoob

/-- The buffers that are programmed hold the chunks just moved. -/
theorem Fits.moved_buffers (h : s.Fits nld maxooblen) :
    ((if useData then some ((s.moveData nld).moveOob nld maxooblen).datcache else none),
        (if useOob then some ((s.moveData nld).moveOob nld maxooblen).oobcache else none)) =
      s.buffers nld maxooblen useData useOob 0 := by
  have hdata : ((s.moveData nld).moveOob nld maxooblen).dataFeed =
      s.dataFeed.move 0xff nld.writesize nld.writesize := move_dataFeed
  have hoob : ((s.moveData nld).moveOob nld maxooblen).oobFeed =
      s.oobFeed.move 0xff maxooblen nld.oobsize := move_oobFeed
  rw [buffers, ← Feed.move_buf h.data, ← Feed.move_buf h.oob, ← hdata, ← hoob]
  rfl

theorem Fits.move_dataTotal (h : s.Fits nld maxooblen) (k : Nat) :
    (s.move nld maxooblen).dataFeed.total nld.writesize k = s.dataFeed.total nld.writesize (k + 1) := by
  rw [move_dataFeed, Feed.move_total h.data]

theorem Fits.move_oobTotal (h : s.Fits nld maxooblen) (k : Nat) :
    (s.move nld maxooblen).oobFeed.total maxooblen k = s.oobFeed.total maxooblen (k + 1) := by
  rw [move_oobFeed, Feed.move_total h.oob]

/-- A page fails, whose chunks have been moved. -/
theorem Fits.outcome_failed (h : s.Fits nld maxooblen) {n : Nat} (hn : s.pages nld maxooblen = n + 1)
    (hfails : PageFails nld w mode s.addr (s.buffers nld maxooblen useData useOob 0) r) :
    s.Outcome nld mode maxooblen useData useOob w
      ⟨r.1, (s.move nld maxooblen).retlen, (s.move nld maxooblen).oobretlen, r.2⟩ := by
  have hmin : min (0 + 1) (n + 1) = 0 + 1 := by omega
  constructor
  · rw [hn, hfails.written]
    exact ⟨fun hret => absurd hret hfails.ret, fun h => absurd h (Nat.succ_ne_zero n).symm⟩
  · rw [hn, hfails.written, hmin, ← h.move_dataTotal, Feed.total, movedLength, Nat.zero_mul,
      Nat.zero_sub, Nat.min_zero, Nat.add_zero]
    rfl
  · rw [hn, hfails.written, hmin, ← h.move_oobTotal, Feed.total, movedLength, Nat.zero_mul,
      Nat.zero_sub, Nat.min_zero, Nat.add_zero]
    rfl
  · rw [hn, hfails.programs _ _ rfl]

/-- A page is written, and the others follow. -/
theorem Fits.outcome_next (h : s.Fits nld maxooblen) {n : Nat} (hn : s.pages nld maxooblen = n + 1)
    {w' : World} {rest : WriteReply}
    (hdone : PageDone nld w mode s.addr (s.buffers nld maxooblen useData useOob 0) r w')
    (hrest : (s.move nld maxooblen).Outcome nld mode maxooblen useData useOob w' rest) :
    s.Outcome nld mode maxooblen useData useOob w (rest.after r.2) := by
  have hmoved := h.move_pages
  rw [hn, Nat.add_sub_cancel] at hmoved
  have haddr : (s.move nld maxooblen).addr = s.addr + nld.writesize := rfl
  have hbuffers : (s.move nld maxooblen).buffers nld maxooblen useData useOob =
      fun i => s.buffers nld maxooblen useData useOob (i + 1) := funext h.move_buffers
  obtain ⟨hret, hretlen, hoobretlen, hprograms⟩ := hrest
  rw [hmoved, hdone.ni, haddr] at hret hretlen hoobretlen hprograms
  constructor
  · rw [hn, hdone.written, Nat.add_right_cancel_iff]
    exact hret
  · rw [hn, hdone.written, Nat.add_min_add_right, ← h.move_dataTotal]
    exact hretlen
  · rw [hn, hdone.written, Nat.add_min_add_right, ← h.move_oobTotal]
    exact hoobretlen
  · rw [hn, hdone.programs _ _ rfl]
    rw [hbuffers] at hprograms
    rw [WriteReply.after, hprograms]

end WriteCursor

theorem mtdWriteDataLoop_spec {maxooblen : Nat} (useData useOob : Bool) :
    ∀ (fuel : Nat) (s : WriteCursor) (w : World),
      s.Fits nld maxooblen → s.data.length + s.oob.length ≤ fuel →
      wp (mtdWriteDataLoop mode maxooblen useData useOob fuel s) nld (fun r _ =>
        s.Outcome nld mode maxooblen useData useOob w r) w := by
  intro fuel
  induction fuel with
  | zero =>
      intro s w hfits hfuel
      exact hfits.outcome_of_nil _ _ w (List.eq_nil_of_length_eq_zero (by omega))
        (List.eq_nil_of_length_eq_zero (by omega))
  | succ fuel ih =>
      intro s w hfits hfuel
      simp only [mtdWriteDataLoop, wp_bind, wp_ask, wp_ite, wp_pure]
      refine ⟨fun hempty => hfits.outcome_of_nil _ _ w (List.eq_nil_of_length_eq_zero hempty.1)
        (List.eq_nil_of_length_eq_zero hempty.2), fun hleft => ?_⟩
      obtain ⟨n, hn⟩ : ∃ n, s.pages nld maxooblen = n + 1 := by
        refine Nat.exists_eq_succ_of_ne_zero fun h0 => hleft ?_
        obtain ⟨hdata, hoob⟩ := hfits.pages_eq_zero_iff.mp h0
        rw [hdata, hoob]
        exact ⟨rfl, rfl⟩
      obtain ⟨hdatcache, hoobcache⟩ := Prod.mk.inj
        (hfits.moved_buffers.trans (Prod.mk.eta (p := s.buffers nld maxooblen useData useOob 0)).symm)
      rw [hdatcache, hoobcache, WriteCursor.moved_addr]
      refine wp_mono (writeSinglePage_spec (s.buffers nld maxooblen useData useOob 0)) ?_
      intro r w' hr
      rcases hr.fails_or_done with hfails | hdone
      · exact ⟨fun _ => hfits.outcome_failed hn hfails, fun hret => absurd hfails.ret hret⟩
      · refine ⟨fun hret => absurd hdone.ret hret, fun _ => ?_⟩
        have hlength := hfits.move_length
        refine wp_mono (ih (s.move nld maxooblen) w' hfits.move (by omega)) (fun rest _ hrest => ?_)
        exact hfits.outcome_next hn hdone hrest

/-! ## The loop of a range -/

/-- What is in the page cache behind the last page of a range: the bytes of its first page, if this is a
partial one in front of others, and otherwise what the cache held before. -/
def leftover (ws col : Nat) (cache data : List UInt8) : List UInt8 :=
  if col ≠ 0 ∧ ws - col < data.length then List.replicate col 0xff ++ data.take (ws - col)
  else cache.take ws

theorem length_leftover (data : List UInt8) {ws : Nat} {cache : List UInt8} (hcol : col < ws)
    (hcache : ws ≤ cache.length) :
    (leftover ws col cache data).length = ws := by
  rw [leftover]
  split_ifs with h
  · rw [List.length_append, List.length_replicate, List.length_take]
    omega
  · rw [List.length_take]
    omega

/-- The page cache of the manager has the size of a page. -/
def CacheFits (nld : LowerDevice) (ni : NmbmInstance) : Prop :=
  nld.writesize ≤ ni.pageCache.length

/-- The page written for a chunk, and the cache for the pages behind it. -/
theorem fillPage_bytes (hcol : col < nld.writesize) (hcache : CacheFits nld w.ni) :
    wp (fillPage col (data.take (min (nld.writesize - col) data.length))) nld (fun page w' =>
      page = staleImage 0xff nld.writesize col data
          (leftover nld.writesize col w.ni.pageCache data) 0 ∧
        ∃ pageCache, w' = { w with ni := { w.ni with pageCache } } ∧
          nld.writesize ≤ pageCache.length ∧
          (nld.writesize - col < data.length →
            leftover nld.writesize 0 pageCache (data.drop (nld.writesize - col)) =
              leftover nld.writesize col w.ni.pageCache data)) w := by
  have hlen := length_leftover data hcol hcache
  rw [CacheFits] at hcache
  rw [staleImage_zero (le_of_lt hcol) hlen]
  have htake : data.take (min (nld.writesize - col) data.length) = data.take (nld.writesize - col) := by
    rw [List.take_eq_take_iff]
    omega
  have hchunk : (data.take (nld.writesize - col)).length = min (nld.writesize - col) data.length :=
    List.length_take
  simp only [fillPage, wp_bind, wp_ask, wp_ite, wp_pure, wp_setPageCache, wp_get, htake, hchunk]
  refine ⟨fun hfull => ?_, fun hpartial => ?_⟩
  · have hcol0 : col = 0 := by omega
    have hnone : (leftover nld.writesize col w.ni.pageCache data).drop (col + data.length) = [] :=
      List.drop_of_length_le (by omega)
    refine ⟨?_, w.ni.pageCache, rfl, hcache, fun _ => ?_⟩
    · rw [hnone, hcol0]
      simp
    · rw [leftover, leftover, if_neg (fun h => h.1 rfl), if_neg (fun h => h.1 hcol0)]
  · have hfront : (List.replicate col (0xff : UInt8) ++ data.take (nld.writesize - col)).length =
        col + min (nld.writesize - col) data.length := by
      rw [List.length_append, List.length_replicate, hchunk]
    simp only [fillFront_eq, hchunk]
    refine ⟨?_, _, rfl, ?_, fun hmore => ?_⟩
    · rw [List.take_append, hfront, List.take_of_length_le (by omega)]
      congr 1
      rw [leftover]
      split_ifs with h
      · have hzero : nld.writesize - (col + min (nld.writesize - col) data.length) = 0 := by omega
        have hbehind : (List.replicate col (0xff : UInt8) ++ data.take (nld.writesize - col)).drop
            (col + data.length) = [] := List.drop_of_length_le (by rw [hfront]; omega)
        rw [hzero, List.take_zero, hbehind]
      · have hend : data.length ≤ nld.writesize - col := by omega
        rw [Nat.min_eq_right hend, List.drop_take]
    · rw [List.length_append, hfront, List.length_drop]
      omega
    · have hcol0 : col ≠ 0 := by omega
      rw [leftover, if_neg (fun h => h.1 rfl), leftover, if_pos ⟨hcol0, hmore⟩,
        List.take_left' (by rw [hfront]; omega)]

/-- The column of an address in its page. -/
theorem and_writesize_sub_one (hws : ∃ k, nld.writesize = 2 ^ k) (addr : Nat) :
    addr &&& (nld.writesize - 1) = addr % nld.writesize := by
  obtain ⟨k, hk⟩ := hws
  rw [hk, Nat.and_two_pow_sub_one_eq_mod]

/-- What a range does, of which {lit}`written` bytes are done: a page that fails does not count. -/
structure RangeOutcome (nld : LowerDevice) (mode : OobMode) (off : Nat) (data : List UInt8)
    (written : Nat) (w : World) (r : WriteReply) : Prop where
  ret : r.ret = 0 ↔
    writtenPages nld w.ni (pageSpan nld.writesize (off % nld.writesize) data.length)
      (off - off % nld.writesize) w.chip.clock =
        pageSpan nld.writesize (off % nld.writesize) data.length
  retlen : r.retlen = written + movedLength nld.writesize (off % nld.writesize) data.length
    (writtenPages nld w.ni (pageSpan nld.writesize (off % nld.writesize) data.length)
      (off - off % nld.writesize) w.chip.clock)
  programs : r.programs =
    issuedPrograms nld w.ni mode (pageSpan nld.writesize (off % nld.writesize) data.length)
      (off - off % nld.writesize) w.chip.clock (fun i =>
        (some (staleImage 0xff nld.writesize (off % nld.writesize) data
          (leftover nld.writesize (off % nld.writesize) w.ni.pageCache data) i), none))

/-- The page buffers of a range. -/
def rangeBuffers (nld : LowerDevice) (off : Nat) (data cache : List UInt8) (i : Nat) :
    Option (List UInt8) × Option (List UInt8) :=
  (some (staleImage 0xff nld.writesize (off % nld.writesize) data
    (leftover nld.writesize (off % nld.writesize) cache data) i), none)

section Range

variable {off written : Nat} {data pageCache : List UInt8} {r : Int × List PageProgram}

/-- The first page of a range fails. -/
theorem RangeOutcome.failed (hpos : 0 < nld.writesize) (hlen : data.length ≠ 0)
    (h : PageFails nld { w with ni := { w.ni with pageCache } } mode (off - off % nld.writesize)
      (rangeBuffers nld off data w.ni.pageCache 0) r) :
    RangeOutcome nld mode off data written w ⟨r.1, written, 0, r.2⟩ := by
  have hspan := pageSpan_step (Nat.mod_lt off hpos) hlen
  have hwritten := h.written (pageSpan nld.writesize 0
    (data.length - (nld.writesize - off % nld.writesize)))
  have hprograms := h.programs (pageSpan nld.writesize 0
    (data.length - (nld.writesize - off % nld.writesize)))
    (rangeBuffers nld off data w.ni.pageCache) rfl
  simp only [writtenPages_pageCache, issuedPrograms_pageCache] at hwritten hprograms
  constructor
  · rw [hspan, hwritten]
    exact ⟨fun hret => absurd hret h.ret, fun h => absurd h (Nat.succ_ne_zero _).symm⟩
  · rw [hspan, hwritten, movedLength, Nat.zero_mul, Nat.zero_sub, Nat.min_zero, Nat.add_zero]
  · rw [hspan]
    exact hprograms.symm

/-- The only page of a range is written. -/
theorem RangeOutcome.last (hpos : 0 < nld.writesize) (hlen : data.length ≠ 0) {w' : World}
    (h : PageDone nld { w with ni := { w.ni with pageCache } } mode (off - off % nld.writesize)
      (rangeBuffers nld off data w.ni.pageCache 0) r w')
    (hlast : data.length ≤ nld.writesize - off % nld.writesize) :
    RangeOutcome nld mode off data written w
      ⟨0, written + min (nld.writesize - off % nld.writesize) data.length, 0, r.2⟩ := by
  have hcol := Nat.mod_lt off hpos
  have hspan := pageSpan_step hcol hlen
  have hrest : data.length - (nld.writesize - off % nld.writesize) = 0 := by omega
  rw [hrest, pageSpan_zero] at hspan
  have hwritten := h.written 0
  have hprograms := h.programs 0 (rangeBuffers nld off data w.ni.pageCache) rfl
  simp only [writtenPages_pageCache, issuedPrograms_pageCache] at hwritten hprograms
  constructor
  · rw [hspan, hwritten]
    exact ⟨fun _ => rfl, fun _ => rfl⟩
  · rw [hspan, hwritten, movedLength_succ (le_of_lt hcol), hrest, movedLength, Nat.zero_min,
      Nat.add_zero]
  · rw [hspan]
    refine Eq.trans ?_ hprograms.symm
    rw [issuedPrograms, List.append_nil]

/-- The first page of a range is written, and the others follow. -/
theorem RangeOutcome.next (hpos : 0 < nld.writesize) {w' : World} {rest : WriteReply}
    (h : PageDone nld { w with ni := { w.ni with pageCache } } mode (off - off % nld.writesize)
      (rangeBuffers nld off data w.ni.pageCache 0) r w')
    (hmore : nld.writesize - off % nld.writesize < data.length)
    (hleftover : leftover nld.writesize 0 pageCache
        (data.drop (nld.writesize - off % nld.writesize)) =
      leftover nld.writesize (off % nld.writesize) w.ni.pageCache data)
    (hrest : RangeOutcome nld mode (off - off % nld.writesize + nld.writesize)
      (data.drop (nld.writesize - off % nld.writesize))
      (written + (nld.writesize - off % nld.writesize)) w' rest) :
    RangeOutcome nld mode off data written w (rest.after r.2) := by
  have hcol := Nat.mod_lt off hpos
  have hspan := pageSpan_step hcol (Nat.ne_of_gt (Nat.zero_lt_of_lt hmore))
  have hchunk : min (nld.writesize - off % nld.writesize) data.length =
      nld.writesize - off % nld.writesize := by omega
  have hwritten := h.written (pageSpan nld.writesize 0
    (data.length - (nld.writesize - off % nld.writesize)))
  have hprograms := h.programs (pageSpan nld.writesize 0
    (data.length - (nld.writesize - off % nld.writesize)))
    (rangeBuffers nld off data w.ni.pageCache) rfl
  simp only [writtenPages_pageCache, issuedPrograms_pageCache] at hwritten hprograms
  obtain ⟨hret', hretlen, hprograms'⟩ := hrest
  rw [next_page_mod, Nat.sub_zero, h.ni, List.length_drop] at hret' hretlen hprograms'
  simp only [writtenPages_pageCache, issuedPrograms_pageCache] at hret' hretlen hprograms'
  constructor
  · rw [hspan, hwritten, Nat.add_right_cancel_iff]
    exact hret'
  · rw [hspan, hwritten, movedLength_succ (le_of_lt hcol), hchunk, ← Nat.add_assoc]
    exact hretlen
  · rw [hspan]
    refine Eq.trans ?_ hprograms.symm
    rw [WriteReply.after, hprograms', hleftover]
    simp only [rangeBuffers, staleImage_succ (le_of_lt hcol) (le_of_lt hmore)]

end Range

theorem writeRangePages_spec (hws : ∃ k, nld.writesize = 2 ^ k) :
    ∀ (fuel off : Nat) (data : List UInt8) (written : Nat) (w : World),
      data ≠ [] → data.length ≤ fuel → CacheFits nld w.ni → ¬ (w.ni.isProtected ∨ nld.readOnly) →
      off + data.length ≤ nld.ba2addr w.ni.dataBlockCount →
      wp (writeRangePages mode fuel off data written) nld (fun r _ =>
        RangeOutcome nld mode off data written w r) w := by
  have hpos : 0 < nld.writesize := by
    obtain ⟨k, hk⟩ := hws
    rw [hk]
    exact Nat.two_pow_pos k
  intro fuel
  induction fuel with
  | zero =>
      intro off data written w hdata hfuel
      exact absurd (List.eq_nil_of_length_eq_zero (Nat.le_zero.mp hfuel)) hdata
  | succ fuel ih =>
      intro off data written w hdata hfuel hcache hopen hrange
      have hcol : off % nld.writesize < nld.writesize := Nat.mod_lt _ hpos
      have hlen : data.length ≠ 0 := fun h => hdata (List.eq_nil_of_length_eq_zero h)
      simp only [writeRangePages, wp_bind, wp_ask, wp_ite, wp_pure, and_writesize_sub_one hws]
      refine wp_mono (fillPage_bytes hcol hcache) ?_
      rintro page w₁ ⟨rfl, pageCache, rfl, hcache', hleftover⟩
      have haddr : off - off % nld.writesize < nld.ba2addr w.ni.dataBlockCount := by omega
      refine wp_mono (writeLogicPage_spec (w := { w with ni := { w.ni with pageCache } }) hopen haddr
        (rangeBuffers nld off data w.ni.pageCache 0)) ?_
      intro r w' hr
      rcases hr.fails_or_done with hfails | hdone
      · exact ⟨fun _ => .failed hpos hlen hfails, fun hret => absurd hfails.ret hret⟩
      · refine ⟨fun hret => absurd hdone.ret hret, fun _ => ⟨fun hlast => ?_, fun hmore => ?_⟩⟩
        · exact .last hpos hlen hdone (by omega)
        · have hchunk : min (nld.writesize - off % nld.writesize) data.length =
              nld.writesize - off % nld.writesize := by omega
          have hnext := add_rest_of_page hpos off
          rw [hchunk, hnext]
          refine wp_mono (ih _ _ _ w' ?_ ?_ ?_ ?_ ?_) (fun rest _ hrest => ?_)
          · exact fun h => hmore (by rw [hchunk, ← List.length_drop, h]; rfl)
          · rw [List.length_drop]
            omega
          · rw [CacheFits, hdone.ni]
            exact hcache'
          · rw [hdone.ni]
            exact hopen
          · rw [hdone.ni, List.length_drop]
            change off - off % nld.writesize + nld.writesize + _ ≤ nld.ba2addr w.ni.dataBlockCount
            omega
          · exact .next hpos hdone (by omega) (hleftover (by omega)) hrest

theorem writeLogicPage_run (mode : OobMode) (addr : Nat) (data oob : Option (List UInt8)) (w : World) :
    (run (writeLogicPage mode addr data oob) nld w).1.1 =
        (run (nmbmWriteLogicPage addr data oob) nld w).1 ∧
      (run (writeLogicPage mode addr data oob) nld w).2 =
        (run (nmbmWriteLogicPage addr data oob) nld w).2 :=
  ⟨rfl, rfl⟩

/-- The page programs are only looked at. -/
theorem writeRangePages_run (mode : OobMode) :
    ∀ (fuel off : Nat) (data : List UInt8) (written : Nat) (w : World),
      run (writeRangeLoop fuel off data) nld w =
        ((run (writeRangePages mode fuel off data written) nld w).1.ret,
          (run (writeRangePages mode fuel off data written) nld w).2) := by
  intro fuel
  induction fuel with
  | zero =>
      intro off data written w
      rfl
  | succ fuel ih =>
      intro off data written w
      simp only [writeRangeLoop, writeRangePages, run_ask_bind]
      simp only [run_bind, run_ite, run_pure, writeLogicPage_run mode]
      split_ifs with hret hlast
      · rfl
      · rfl
      · exact ih _ _ _ _

/-- The return value and the state are those of {lit}`nmbm_write_range`. -/
theorem writeRange_run (mode : OobMode) (addr : Nat) (data : List UInt8) (w : World) :
    run (nmbmWriteRange addr data) nld w =
      ((run (writeRange mode addr data) nld w).1.ret, (run (writeRange mode addr data) nld w).2) := by
  simp only [nmbmWriteRange, writeRange, run_ask_bind, run_get_bind, run_ite, run_pure]
  split_ifs
  · rfl
  · rfl
  · rfl
  · rfl
  · exact writeRangePages_run mode _ _ _ _ w

/-! ## Both ways of writing a range -/

/-- The device on top of an attached instance. -/
structure MtdSetup (nld : LowerDevice) (w : World) (nm : NmbmMtd) : Prop where
  writesize : ∃ k, nld.writesize = 2 ^ k
  erasesize : ∃ k, nld.erasesize = 2 ^ k
  niCache : CacheFits nld w.ni
  nmCache : nm.pageCache.length = nld.rawpageSize
  freeOob : nm.freeOob.length ≤ nld.oobsize
  size_lt : mtdSize nld w.ni < 2 ^ 64

/-- A range of the device. -/
structure WithinDevice (nld : LowerDevice) (ni : NmbmInstance) (addr len : Nat) : Prop where
  addr_lt : addr < mtdSize nld ni
  end_le : addr + len ≤ mtdSize nld ni

/-- The pages of a request with a data part only. -/
def dataPages (nld : LowerDevice) (addr len : Nat) : Nat :=
  pageSpan nld.writesize (addr % nld.writesize) len

/-- The bytes of a page of the request: {lit}`0xff` around the data. -/
def dataImage (nld : LowerDevice) (addr : Nat) (data : List UInt8) (i : Nat) : List UInt8 :=
  pageImage 0xff nld.writesize nld.writesize (addr % nld.writesize) data i

theorem MtdSetup.writesize_pos (h : MtdSetup nld w nm) : 0 < nld.writesize := by
  obtain ⟨k, hk⟩ := h.writesize
  rw [hk]
  exact Nat.two_pow_pos k

theorem MtdSetup.ba2addr_eq (h : MtdSetup nld w nm) :
    nld.ba2addr w.ni.dataBlockCount = mtdSize nld w.ni := by
  obtain ⟨k, hk⟩ := h.erasesize
  rw [LowerDevice.ba2addr, LowerDevice.erasesizeShift, mtdSize, hk, Nat.log2_two_pow,
    Nat.shiftLeft_eq]

theorem MtdSetup.mtdOobavail_le (h : MtdSetup nld w nm) (mode : OobMode) :
    mtdOobavail nld nm mode ≤ nld.oobsize := by
  rw [mtdOobavail]
  split_ifs
  · exact h.freeOob
  · exact le_refl _

/-- Where {lit}`nmbm_mtd_write_data` starts. -/
def startCursor (nld : LowerDevice) (nm : NmbmMtd) (addr : Nat) (ops : MtdOobOps) : WriteCursor where
  addr := addr - addr % nld.writesize
  col := addr % nld.writesize
  ooboffs := ops.ooboffs
  data := ops.datbuf.getD []
  oob := ops.oobbuf.getD []
  datcache := nm.pageCache.take nld.writesize
  oobcache := readAt nm.pageCache nld.writesize nld.oobsize
  retlen := 0
  oobretlen := 0

theorem MtdSetup.startCursor_fits (h : MtdSetup nld w nm) {ops : MtdOobOps}
    (hoffs : ops.ooboffs < mtdOobavail nld nm mode) (addr : Nat) :
    (startCursor nld nm addr ops).Fits nld (mtdOobavail nld nm mode) := by
  have hcache := h.nmCache
  rw [LowerDevice.rawpageSize] at hcache
  refine ⟨⟨Nat.mod_lt _ h.writesize_pos, le_refl _, ?_⟩, ⟨hoffs, h.mtdOobavail_le mode, ?_⟩⟩
  · change (nm.pageCache.take nld.writesize).length = nld.writesize
    rw [List.length_take]
    omega
  · exact length_readAt (by omega)

theorem nmbmMtdWriteData_spec (h : MtdSetup nld w nm) (ops : MtdOobOps)
    (hoffs : ops.ooboffs < mtdOobavail nld nm mode) (addr : Nat) :
    wp (nmbmMtdWriteData nm addr ops mode) nld (fun r _ =>
      (startCursor nld nm addr ops).Outcome nld mode (mtdOobavail nld nm mode)
        (ops.len != 0) (ops.ooblen != 0) w r) w := by
  simp only [nmbmMtdWriteData, wp_bind, wp_ask, and_writesize_sub_one h.writesize]
  exact mtdWriteDataLoop_spec _ _ _ _ w (h.startCursor_fits hoffs addr) (le_refl _)

/-- A request with a data buffer, and a buffer for spare bytes if {lit}`oobbuf` is one. -/
def writeRequest (mode ooboffs : Nat) (data : List UInt8) (oobbuf : Option (List UInt8)) : MtdOobOps where
  mode := mode
  ooboffs := ooboffs
  datbuf := some data
  oobbuf := oobbuf

/-- The request without spare bytes that goes page by page. -/
theorem nmbmMtdWriteData_emptyOob (h : MtdSetup nld w nm) {modeArg ooboffs : Nat}
    (hoffs : ooboffs < mtdOobavail nld nm mode) (addr : Nat) (data : List UInt8) :
    wp (nmbmMtdWriteData nm addr (writeRequest modeArg ooboffs data (some [])) mode) nld (fun r _ =>
      let n := dataPages nld addr data.length
      let base := addr - addr % nld.writesize
      let k := writtenPages nld w.ni n base w.chip.clock
      (r.ret = 0 ↔ k = n) ∧
        r.retlen = movedLength nld.writesize (addr % nld.writesize) data.length (min (k + 1) n) ∧
        r.programs = issuedPrograms nld w.ni mode n base w.chip.clock
          (fun i => (some (dataImage nld addr data i), none))) w := by
  refine wp_mono (nmbmMtdWriteData_spec h (writeRequest modeArg ooboffs data (some [])) hoffs addr) ?_
  rintro r w' ⟨hret, hretlen, -, hprograms⟩
  have hpages : (startCursor nld nm addr (writeRequest modeArg ooboffs data (some []))).pages nld
      (mtdOobavail nld nm mode) = dataPages nld addr data.length := Nat.max_zero _
  have htotal : ∀ j, (startCursor nld nm addr (writeRequest modeArg ooboffs data (some []))).dataFeed.total
      nld.writesize j = movedLength nld.writesize (addr % nld.writesize) data.length j :=
    fun j => Nat.zero_add _
  rw [hpages] at hret hretlen hprograms
  rw [htotal] at hretlen
  refine ⟨hret, hretlen, hprograms.trans (issuedPrograms_congr fun i hi => ?_)⟩
  have hdata : data ≠ [] := by
    rintro rfl
    exact Nat.not_lt_zero i hi
  have hlen : (writeRequest modeArg ooboffs data (some [])).len ≠ 0 :=
    fun h0 => hdata (List.eq_nil_of_length_eq_zero h0)
  have hoob : ¬ ((writeRequest modeArg ooboffs data (some [])).ooblen != 0) = true :=
    fun h0 => bne_iff_ne.mp h0 rfl
  rw [WriteCursor.buffers, if_pos (bne_iff_ne.mpr hlen), if_neg hoob]
  have himage : (startCursor nld nm addr (writeRequest modeArg ooboffs data (some []))).dataFeed.image 0xff
      nld.writesize nld.writesize i = dataImage nld addr data i := by
    have hmin : min i (dataPages nld addr data.length - 1) = i := by omega
    have hpages' : (startCursor nld nm addr (writeRequest modeArg ooboffs data (some []))).dataFeed.pages
        nld.writesize = dataPages nld addr data.length := rfl
    rw [Feed.image, hpages', hmin]
    exact if_neg hdata
  rw [himage]

/-- A request that goes page by page. -/
theorem checkOobRequest_eq_withOob {ops : MtdOobOps}
    (hreq : checkOobRequest nld ni nm addr ops = .withOob mode) :
    oobModeOf ops.mode = some mode ∧ ¬ (ops.datbuf.isSome ∧ mtdSize nld ni < u64 (addr + ops.len)) ∧
      ops.ooboffs < mtdOobavail nld nm mode ∧ addr < mtdSize nld ni := by
  rw [checkOobRequest] at hreq
  cases hmode : oobModeOf ops.mode with
  | none =>
      rw [hmode] at hreq
      split_ifs at hreq
  | some m =>
      rw [hmode] at hreq
      dsimp only at hreq
      split_ifs at hreq with hnone hrange hoob hoffs hend
      cases hreq
      exact ⟨rfl, hrange, Nat.not_le.mp hoffs, Nat.not_le.mp fun h => hend (.inl h)⟩

/-- A request without a buffer for spare bytes. -/
theorem checkOobRequest_eq_dataOnly {ops : MtdOobOps} (hmode : oobModeOf ops.mode = some mode)
    (hdata : ops.datbuf.isSome) (hrange : ¬ mtdSize nld ni < u64 (addr + ops.len))
    (hoob : ops.oobbuf = none) : checkOobRequest nld ni nm addr ops = .dataOnly mode := by
  have hsome : ops.datbuf.isNone = false := by
    rw [Option.isNone_eq_false_iff, hdata]
  rw [checkOobRequest, if_neg (by rw [hsome]; exact fun h => absurd h.2 Bool.false_ne_true), hmode]
  simp only
  rw [if_neg (fun h => hrange h.2), if_pos (by rw [hoob]; rfl)]

theorem nmbmMtdWriteOob_withOob {ops : MtdOobOps}
    (hreq : checkOobRequest nld w.ni nm addr ops = .withOob mode) :
    nmbmMtdWriteOob nm addr ops nld w = nmbmMtdWriteData nm addr ops mode nld w := by
  have hrun : run (nmbmMtdWriteOob nm addr ops) nld w = run (nmbmMtdWriteData nm addr ops mode) nld w := by
    rw [nmbmMtdWriteOob, run_ask_bind, run_get_bind, hreq]
  exact hrun

theorem nmbmMtdWriteOob_dataOnly {ops : MtdOobOps}
    (hreq : checkOobRequest nld w.ni nm addr ops = .dataOnly mode) :
    nmbmMtdWriteOob nm addr ops nld w = writeRange mode addr (ops.datbuf.getD []) nld w := by
  have hrun : run (nmbmMtdWriteOob nm addr ops) nld w =
      run (writeRange mode addr (ops.datbuf.getD [])) nld w := by
    rw [nmbmMtdWriteOob, run_ask_bind, run_get_bind, hreq]
  exact hrun

/-- The bytes around the data are {lit}`0xff`. -/
def BlankOutside (nld : LowerDevice) (addr len : Nat) (programs : List PageProgram) : Prop :=
  ∀ i p, programs[i]? = some p →
    p.oob = none ∧ ∃ bytes, p.data = some bytes ∧ bytes.length = nld.writesize ∧
      ∀ j, j < nld.writesize →
        (i * nld.writesize + j < addr % nld.writesize ∨
          addr % nld.writesize + len ≤ i * nld.writesize + j) →
        bytes[j]? = some 0xff

/-- A range is written in the same way with and without an empty buffer for spare bytes. -/
def WritePathsAgree (nld : LowerDevice) (w : World) (nm : NmbmMtd) (addr modeArg ooboffs : Nat)
    (data : List UInt8) : Prop :=
  let fast := (nmbmMtdWriteOob nm addr (writeRequest modeArg ooboffs data none) nld w).1
  let plain := (nmbmMtdWriteOob nm addr (writeRequest modeArg ooboffs data (some [])) nld w).1
  fast.ret = plain.ret ∧ fast.retlen = plain.retlen ∧ fast.programs = plain.programs ∧
    BlankOutside nld addr data.length fast.programs

/-- All pages of the range can be written, and the bytes left over behind its end are {lit}`0xff`. -/
def RangeClear (nld : LowerDevice) (w : World) (addr : Nat) (data : List UInt8) : Prop :=
  writtenPages nld w.ni (dataPages nld addr data.length) (addr - addr % nld.writesize) w.chip.clock =
      dataPages nld addr data.length ∧
    ∀ b ∈ (leftover nld.writesize (addr % nld.writesize) w.ni.pageCache data).drop
      (addr % nld.writesize + data.length - (dataPages nld addr data.length - 1) * nld.writesize),
      b = 0xff

theorem dataImage_blank {i j : Nat} (hj : j < nld.writesize)
    (h : i * nld.writesize + j < addr % nld.writesize ∨
      addr % nld.writesize + data.length ≤ i * nld.writesize + j) :
    (dataImage nld addr data i)[j]? = some 0xff := by
  have himage : dataImage nld addr data i =
      (List.range nld.writesize).map (fun j =>
        streamSlot 0xff (addr % nld.writesize) data (i * nld.writesize + j)) := by
    rw [dataImage, pageImage, Nat.sub_self, List.replicate_zero, List.append_nil]
  rw [himage, List.getElem?_map, List.getElem?_range hj, Option.map_some, streamSlot]
  split_ifs with hlead
  · rfl
  · rw [List.getD_eq_default _ _ (by omega)]

/-- Bytes are moved on every page. -/
theorem movedLength_lt_succ {ws len k : Nat} (hcol : col < ws) (hk : k < pageSpan ws col len) :
    movedLength ws col len k < movedLength ws col len (k + 1) := by
  have hstart := start_lt_of_lt_pageSpan hcol hk
  have hlen : len ≠ 0 := by
    rintro rfl
    exact Nat.not_lt_zero k hk
  have hexp : (k + 1) * ws = k * ws + ws := by ring
  rw [movedLength, movedLength, hexp]
  omega

/-- A range is refused, empty or written page by page. -/
theorem writeRange_spec (mode : OobMode) (h : MtdSetup nld w nm)
    (hin : WithinDevice nld w.ni addr data.length) :
    wp (writeRange mode addr data) nld (fun r _ =>
      if w.ni.isProtected ∨ nld.readOnly then r = ⟨-eRofs, 0, 0, []⟩
      else if data = [] then r = ⟨0, 0, 0, []⟩
      else RangeOutcome nld mode addr data 0 w r) w := by
  have hsize := h.ba2addr_eq
  have haddr := hin.addr_lt
  have hend := hin.end_le
  have hwrap : u64 (addr + data.length) ≤ addr + data.length := Nat.mod_le _ _
  simp only [writeRange, wp_bind, wp_ask, wp_get, wp_ite, wp_pure, hsize]
  refine ⟨fun hclosed => ?_, fun hopen => ⟨fun hle => ?_, fun _ => ⟨fun hlt => ?_, fun _ =>
    ⟨fun hempty => ?_, fun hne => ?_⟩⟩⟩⟩
  · rw [if_pos hclosed]
    trivial
  · omega
  · omega
  · rw [if_neg hopen, if_pos (List.eq_nil_of_length_eq_zero hempty)]
    trivial
  · have hdata : data ≠ [] := fun h0 => hne (by rw [h0]; rfl)
    simp only [if_neg hopen, if_neg hdata]
    exact writeRangePages_spec h.writesize _ _ _ _ w hdata (le_refl _) h.niCache hopen (by omega)

/-- On an instance that is not writable no page is written. -/
theorem writtenPages_of_closed (hclosed : ni.isProtected ∨ nld.readOnly) (n addr clock : Nat) :
    writtenPages nld ni n addr clock = 0 := by
  cases n with
  | zero => rfl
  | succ n => rw [writtenPages, if_neg (fun husable => husable.1 hclosed)]

theorem blankOutside_issuedPrograms {n base clock : Nat} :
    BlankOutside nld addr data.length (issuedPrograms nld ni mode n base clock
      (fun i => (some (dataImage nld addr data i), none))) := by
  intro i p hp
  obtain ⟨-, -, -, rfl⟩ := (mem_issuedPrograms_iff _ _ _ _ i).mp hp
  exact ⟨rfl, _, rfl, length_pageImage (le_refl _), fun j hj h => dataImage_blank hj h⟩

/-- A chip with pages of 16 bytes. -/
def smallPageChip : LowerDevice where
  maxRatio := 1
  maxReservedBlocks := 0
  create := true
  emptyPageEccOk := false
  readOnly := false
  size := 2 ^ 16
  erasesize := 64
  writesize := 16
  oobsize := 4
  hasIsBadBlock := true
  hasMarkBadBlock := true
  fates := fun _ _ => ⟨0, .done⟩

/-- An instance with two logic blocks and the given page cache. -/
def smallPageWorld (pageCache : List UInt8) : World where
  ni :=
    { signature := ⟨⟨0, 0, 0, 0⟩, 0, 0, 0, 0, 0, 0⟩
      infoTableCache := []
      infoTable := ⟨⟨0, 0, 0, 0⟩, 0, 0, 0, 0⟩
      blockState := [0xffffffff]
      blockStateChanged := 0
      blockMapping := [0, 1]
      blockMappingChanged := 0
      pageCache
      isProtected := false
      dataBlockCount := 2
      mgmtStartBa := 2
      mainTableBa := 2
      backupTableBa := 3
      mappingBlocksBa := 3
      mappingBlocksTopBa := 6
      signatureBa := 7 }
  chip := ⟨⟨fun _ => blankBlock, fun _ => false⟩, 0, []⟩
  events := []

/-- The device on top of it. -/
def smallPageMtd : NmbmMtd where
  freeOob := [0, 1, 2, 3]
  pageCache := List.replicate 20 0

theorem setup_smallPage : MtdSetup smallPageChip (smallPageWorld (List.replicate 20 0xff)) smallPageMtd where
  writesize := ⟨4, rfl⟩
  erasesize := ⟨6, rfl⟩
  niCache := show 16 ≤ 20 by decide
  nmCache := by decide
  freeOob := by decide
  size_lt := by decide

end Nmbm
end ZyxelRouter
