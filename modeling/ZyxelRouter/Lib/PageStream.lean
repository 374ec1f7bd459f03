import Mathlib.Data.List.GetD
import ZyxelRouter.Lib.Bytes

/-!
# A stream of elements over pages

A stream that starts at a column of its first page is moved page by page through a buffer.  What is
around it in the buffer is either filled up or left over from an earlier page.

Main results:

- Theorems {lit}`pageSpan_step`, {lit}`pageImage_zero`, {lit}`pageImage_succ`: the first page of a stream
  and the pages of its rest.
- Theorem {lit}`fillBuffer_eq`: a buffer filled around a chunk is an image of a page.
- Theorem {lit}`Feed.move_image`: the buffer in use while a stream is moved, and after its end.
- Theorem {lit}`staleImage_eq_pageImage_iff`: when left-over elements behind a stream do not show.
-/

namespace ZyxelRouter
namespace Lib

section PageStream

variable {α : Type} {fill : α} {ws bs col n i k : Nat} {data buf tail : List α}

/-! ## Pages -/

/-- The number of pages that {lit}`n` elements touch from a column on. -/
def pageSpan (ws col n : Nat) : Nat :=
  if n = 0 then 0 else (col + n + ws - 1) / ws

/-- The element in a slot, counted from the start of the first page. -/
def streamSlot (fill : α) (col : Nat) (data : List α) (k : Nat) : α :=
  if k < col then fill else data.getD (k - col) fill

/-- A page of a stream that starts at a column, in a buffer of {lit}`bs` elements of which the stream
uses {lit}`ws`. -/
def pageImage (fill : α) (ws bs col : Nat) (data : List α) (i : Nat) : List α :=
  (List.range ws).map (fun j => streamSlot fill col data (i * ws + j)) ++
    List.replicate (bs - ws) fill

@[simp]
theorem pageSpan_zero (ws col : Nat) : pageSpan ws col 0 = 0 :=
  rfl

@[simp]
theorem length_pageImage (h : ws ≤ bs) : (pageImage fill ws bs col data i).length = bs := by
  simp only [pageImage, List.length_append, List.length_map, List.length_range,
    List.length_replicate]
  omega

/-- The rest of a page ends where the next page starts. -/
theorem add_rest_of_page (hws : 0 < ws) (off : Nat) :
    off + (ws - off % ws) = off - off % ws + ws := by
  have hle := Nat.mod_le off ws
  have hlt := Nat.mod_lt off hws
  omega

theorem next_page_mod (ws off : Nat) : (off - off % ws + ws) % ws = 0 := by
  rw [Nat.add_mod_right, ← Nat.dvd_iff_mod_eq_zero]
  exact Nat.dvd_sub_mod off

/-- The first page, and the pages of the rest. -/
theorem pageSpan_step (hcol : col < ws) (hn : n ≠ 0) :
    pageSpan ws col n = pageSpan ws 0 (n - (ws - col)) + 1 := by
  rw [pageSpan, if_neg hn, pageSpan]
  split_ifs with hrest
  · exact Nat.div_eq_of_lt_le (by omega) (by omega)
  · have hsum : col + n + ws - 1 = (0 + (n - (ws - col)) + ws - 1) + ws := by omega
    rw [hsum, Nat.add_div_right _ (by omega)]

theorem pageSpan_pos (hcol : col < ws) (hn : n ≠ 0) : 0 < pageSpan ws col n := by
  rw [pageSpan_step hcol hn]
  exact Nat.succ_pos _

/-- The slots of a page in front of the last one hold elements of the stream. -/
theorem slot_lt_of_succ_lt_pageSpan (hi : i + 1 < pageSpan ws col n) (hk : k < ws) :
    i * ws + k < col + n := by
  have hn : n ≠ 0 := by
    rintro rfl
    exact Nat.not_lt_zero _ hi
  rw [pageSpan, if_neg hn] at hi
  have hws : 0 < ws := by omega
  have hle : (i + 2) * ws ≤ col + n + ws - 1 := (Nat.le_div_iff_mul_le hws).mp (by omega)
  have hexp : (i + 2) * ws = i * ws + 2 * ws := by ring
  omega

/-- The slots behind the last page are behind the stream. -/
theorem le_slot_of_pageSpan_le (hws : 0 < ws) (hi : pageSpan ws col n ≤ i) (hn : n ≠ 0) :
    col + n ≤ i * ws := by
  rw [pageSpan, if_neg hn] at hi
  have hlt : (col + n + ws - 1) / ws < i + 1 := by omega
  have hmul := (Nat.div_lt_iff_lt_mul hws).mp hlt
  have hexp : (i + 1) * ws = i * ws + ws := by ring
  omega

/-- The last page starts in front of the end of the stream. -/
theorem start_lt_of_lt_pageSpan (hcol : col < ws) (hi : i < pageSpan ws col n) :
    i * ws < col + n := by
  have hn : n ≠ 0 := by
    rintro rfl
    exact Nat.not_lt_zero _ hi
  rw [pageSpan, if_neg hn] at hi
  have hle : (i + 1) * ws ≤ col + n + ws - 1 := (Nat.le_div_iff_mul_le (by omega)).mp hi
  have hexp : (i + 1) * ws = i * ws + ws := by ring
  omega

/-- The first page holds the start of the stream behind its column. -/
theorem pageImage_zero (hcol : col ≤ ws) :
    pageImage fill ws bs col data 0 =
      List.replicate col fill ++ data.take (ws - col) ++
        List.replicate (ws - col - data.length) fill ++ List.replicate (bs - ws) fill := by
  rw [pageImage]
  congr 1
  apply List.ext_getElem
  · simp only [List.length_map, List.length_range, List.length_append, List.length_replicate,
      List.length_take]
    omega
  · intro k hk hk'
    simp only [List.length_map, List.length_range] at hk
    simp only [List.getElem_map, List.getElem_range, Nat.zero_mul, Nat.zero_add, streamSlot]
    by_cases hlead : k < col
    · rw [if_pos hlead, List.getElem_append_left (by simp; omega),
        List.getElem_append_left (by simpa using hlead), List.getElem_replicate]
    · rw [if_neg hlead]
      by_cases hin : k - col < data.length
      · rw [List.getElem_append_left (by simp; omega),
          List.getElem_append_right (by simpa using hlead), List.getElem_take,
          List.getD_eq_getElem _ _ hin]
        congr 1
        simp
      · rw [List.getElem_append_right (by simp; omega), List.getElem_replicate,
          List.getD_eq_default _ _ (by omega)]

/-- The slots behind the first page are those of the rest of the stream. -/
theorem streamSlot_add (hcol : col ≤ ws) (k : Nat) :
    streamSlot fill col data (ws + k) = streamSlot fill 0 (data.drop (ws - col)) k := by
  rw [streamSlot, if_neg (by omega), streamSlot, if_neg (Nat.not_lt_zero k), Nat.sub_zero,
    List.getD_eq_getElem?_getD, List.getD_eq_getElem?_getD, List.getElem?_drop]
  congr 2
  omega

/-- The further pages are the pages of the rest of the stream. -/
theorem pageImage_succ (hcol : col ≤ ws) (i : Nat) :
    pageImage fill ws bs col data (i + 1) = pageImage fill ws bs 0 (data.drop (ws - col)) i := by
  simp only [pageImage]
  congr 1
  apply List.map_congr_left
  intro k _
  rw [← streamSlot_add hcol]
  congr 1
  ring

/-- Behind a stream there is only filling. -/
theorem pageImage_of_pageSpan_le (hws : 0 < ws) (hbs : ws ≤ bs)
    (hi : pageSpan ws col data.length ≤ i) (hn : data ≠ []) :
    pageImage fill ws bs col data i = List.replicate bs fill := by
  have hbehind := le_slot_of_pageSpan_le hws hi (fun h => hn (List.eq_nil_of_length_eq_zero h))
  have hslots : (List.range ws).map (fun j => streamSlot fill col data (i * ws + j)) =
      List.replicate ws fill := by
    apply List.eq_replicate_iff.mpr
    constructor
    · rw [List.length_map, List.length_range]
    · intro a ha
      obtain ⟨j, _, rfl⟩ := List.mem_map.mp ha
      rw [streamSlot, if_neg (by omega), List.getD_eq_default _ _ (by omega)]
  rw [pageImage, hslots, ← List.replicate_add]
  congr 1
  omega

/-! ## Buffers -/

/-- A buffer that is filled in front of a chunk. -/
theorem fillFront_eq (fill : α) (col : Nat) (chunk buf : List α) :
    writeAt (writeAt buf 0 (List.replicate col fill)) col chunk =
      List.replicate col fill ++ chunk ++ buf.drop (col + chunk.length) := by
  have hlead : writeAt buf 0 (List.replicate col fill) =
      List.replicate col fill ++ buf.drop col := by
    rw [writeAt, List.take_zero, List.nil_append, List.length_replicate, Nat.zero_add]
  rw [hlead, writeAt, List.take_left' List.length_replicate, ← List.drop_drop,
    List.drop_left' List.length_replicate, List.drop_drop]

/-- Fill a buffer of {lit}`bs` elements up around a chunk. -/
def fillBuffer (fill : α) (bs col : Nat) (chunk buf : List α) : List α :=
  writeAt (writeAt (writeAt buf 0 (List.replicate col fill)) col chunk) (col + chunk.length)
    (List.replicate (bs - col - chunk.length) fill)

/-- Nothing of the old contents is left. -/
theorem fillBuffer_eq (hbuf : buf.length = bs) (hws : ws ≤ bs) (hcol : col ≤ ws) :
    fillBuffer fill bs col (data.take (ws - col)) buf = pageImage fill ws bs col data 0 := by
  have hlen : (data.take (ws - col)).length = min (ws - col) data.length := List.length_take
  have hfront : (List.replicate col fill ++ data.take (ws - col)).length =
      col + (data.take (ws - col)).length := by
    rw [List.length_append, List.length_replicate]
  rw [fillBuffer, fillFront_eq, writeAt, List.take_left' hfront, ← List.drop_drop,
    List.drop_left' hfront, List.length_replicate, List.drop_drop, List.drop_of_length_le (by omega),
    List.append_nil, pageImage_zero hcol, List.append_assoc _ (List.replicate _ fill),
    ← List.replicate_add]
  congr 2
  omega

/-! ## Moving a stream -/

/-- A stream that is moved page by page: the column it is at, the rest of it, the buffer and the number of
elements moved. -/
structure Feed (α : Type) where
  col : Nat
  rest : List α
  buf : List α
  moved : Nat

/-- The elements on the first {lit}`k` pages of a stream of {lit}`n` elements. -/
def movedLength (ws col n k : Nat) : Nat :=
  min n (k * ws - col)

theorem movedLength_succ (hcol : col ≤ ws) (k : Nat) :
    movedLength ws col n (k + 1) = min (ws - col) n + movedLength ws 0 (n - (ws - col)) k := by
  have hexp : (k + 1) * ws = k * ws + ws := by ring
  simp only [movedLength, hexp]
  omega

namespace Feed

variable {f : Feed α}

/-- Move the share of one page; a stream that has ended stays as it is. -/
def move (fill : α) (ws bs : Nat) (f : Feed α) : Feed α :=
  if f.rest.length = 0 then f
  else
    let chunk := min (ws - f.col) f.rest.length
    { col := 0
      rest := f.rest.drop chunk
      buf := fillBuffer fill bs f.col (f.rest.take chunk) f.buf
      moved := f.moved + chunk }

/-- The pages left. -/
def pages (ws : Nat) (f : Feed α) : Nat :=
  pageSpan ws f.col f.rest.length

/-- The buffer at the {lit}`i`-th page from here on: behind the end of the stream it is left alone. -/
def image (fill : α) (ws bs : Nat) (f : Feed α) (i : Nat) : List α :=
  if f.rest = [] then f.buf else pageImage fill ws bs f.col f.rest (min i (f.pages ws - 1))

/-- The elements moved after {lit}`k` more pages. -/
def total (ws : Nat) (f : Feed α) (k : Nat) : Nat :=
  f.moved + movedLength ws f.col f.rest.length k

/-- The stream is inside of a page, and the buffer has the size of the pages. -/
structure Fits (ws bs : Nat) (f : Feed α) : Prop where
  col_lt : f.col < ws
  le : ws ≤ bs
  buf : f.buf.length = bs

theorem move_of_nil (h : f.rest = []) : f.move fill ws bs = f := by
  rw [move, if_pos (by rw [h]; rfl)]

theorem move_of_ne_nil (hf : f.Fits ws bs) (h : f.rest ≠ []) :
    f.move fill ws bs = ⟨0, f.rest.drop (ws - f.col), pageImage fill ws bs f.col f.rest 0,
      f.moved + min (ws - f.col) f.rest.length⟩ := by
  have hdrop : f.rest.drop (min (ws - f.col) f.rest.length) = f.rest.drop (ws - f.col) := by
    rcases Nat.le_total (ws - f.col) f.rest.length with hle | hle
    · rw [Nat.min_eq_left hle]
    · rw [Nat.min_eq_right hle, List.drop_of_length_le (le_refl _), List.drop_of_length_le hle]
  have htake : f.rest.take (min (ws - f.col) f.rest.length) = f.rest.take (ws - f.col) := by
    rw [List.take_eq_take_iff]
    omega
  rw [move, if_neg (fun h0 => h (List.eq_nil_of_length_eq_zero h0))]
  simp only [hdrop, htake, fillBuffer_eq hf.buf hf.le (le_of_lt hf.col_lt)]

/-- The first buffer. -/
theorem move_buf (hf : f.Fits ws bs) : (f.move fill ws bs).buf = f.image fill ws bs 0 := by
  by_cases h : f.rest = []
  · rw [move_of_nil h, image, if_pos h]
  · rw [move_of_ne_nil hf h, image, if_neg h, Nat.zero_min]

theorem move_fits (hf : f.Fits ws bs) : (f.move fill ws bs).Fits ws bs := by
  by_cases h : f.rest = []
  · rw [move_of_nil h]
    exact hf
  · rw [move_of_ne_nil hf h]
    exact ⟨Nat.lt_of_le_of_lt (Nat.zero_le _) hf.col_lt, hf.le, length_pageImage hf.le⟩

theorem move_pages (hf : f.Fits ws bs) : (f.move fill ws bs).pages ws = f.pages ws - 1 := by
  by_cases h : f.rest = []
  · rw [move_of_nil h, pages, h, List.length_nil, pageSpan_zero]
  · rw [move_of_ne_nil hf h, pages, pages,
      pageSpan_step hf.col_lt (fun h0 => h (List.eq_nil_of_length_eq_zero h0)), List.length_drop,
      Nat.add_sub_cancel]

theorem pages_eq_zero_iff (hf : f.Fits ws bs) : f.pages ws = 0 ↔ f.rest = [] := by
  constructor
  · intro h
    by_contra hne
    have hpos := pageSpan_pos hf.col_lt (fun h0 => hne (List.eq_nil_of_length_eq_zero h0))
    exact absurd h (Nat.ne_of_gt hpos)
  · intro h
    rw [pages, h, List.length_nil, pageSpan_zero]

/-- The further buffers. -/
theorem move_image (hf : f.Fits ws bs) (i : Nat) :
    (f.move fill ws bs).image fill ws bs i = f.image fill ws bs (i + 1) := by
  by_cases h : f.rest = []
  · rw [move_of_nil h, image, image, if_pos h, if_pos h]
  · have hpages : (f.move fill ws bs).pages ws = f.pages ws - 1 := move_pages hf
    have hzero : (f.move fill ws bs).pages ws = 0 ↔ (f.move fill ws bs).rest = [] :=
      pages_eq_zero_iff (move_fits hf)
    rw [move_of_ne_nil hf h] at hpages hzero ⊢
    rw [image, image, if_neg h, hpages]
    split_ifs with hrest
    · have hlast : f.pages ws - 1 = 0 := by rw [← hpages, hzero.mpr hrest]
      rw [hlast, Nat.min_zero]
    · have hpos : f.pages ws - 1 ≠ 0 := by rw [← hpages]; exact fun h0 => hrest (hzero.mp h0)
      have hmin : min (i + 1) (f.pages ws - 1) = min i (f.pages ws - 1 - 1) + 1 := by omega
      rw [hmin, pageImage_succ (le_of_lt hf.col_lt)]

theorem move_total (hf : f.Fits ws bs) (k : Nat) :
    (f.move fill ws bs).total ws k = f.total ws (k + 1) := by
  by_cases h : f.rest = []
  · simp only [move_of_nil h, total, h, List.length_nil, movedLength, Nat.zero_min]
  · rw [move_of_ne_nil hf h, total, total, movedLength_succ (le_of_lt hf.col_lt), List.length_drop,
      Nat.add_assoc]

/-- Up to the end of the stream the buffers are its pages. -/
theorem image_of_lt_pages (hi : i < f.pages ws) :
    f.image fill ws bs i = pageImage fill ws bs f.col f.rest i := by
  have hrest : f.rest ≠ [] := by
    intro h
    rw [pages, h, List.length_nil, pageSpan_zero] at hi
    exact Nat.not_lt_zero i hi
  have hmin : min i (f.pages ws - 1) = i := by omega
  rw [image, if_neg hrest, hmin]

/-- Behind its end they are right if its last page holds nothing but filling. -/
theorem image_eq_pageImage_iff (hf : f.Fits ws bs) (hrest : f.rest ≠ []) (hi : f.pages ws ≤ i) :
    f.image fill ws bs i = pageImage fill ws bs f.col f.rest i ↔
      pageImage fill ws bs f.col f.rest (f.pages ws - 1) = List.replicate bs fill := by
  have hws : 0 < ws := Nat.lt_of_le_of_lt (Nat.zero_le _) hf.col_lt
  have hmin : min i (f.pages ws - 1) = f.pages ws - 1 := by omega
  rw [image, if_neg hrest, hmin, pageImage_of_pageSpan_le hws hf.le hi hrest]

/-- A stream gets shorter until it ends. -/
theorem move_length (hf : f.Fits ws bs) :
    (f.move fill ws bs).rest.length ≤ f.rest.length - 1 := by
  by_cases h : f.rest = []
  · rw [move_of_nil h, h]
    exact Nat.zero_le _
  · have hcol := hf.col_lt
    rw [move_of_ne_nil hf h, List.length_drop]
    omega

end Feed

/-! ## Left-over elements -/

/-- A page of a stream that is moved through a buffer which is not filled up behind the stream:
{lit}`tail` is what the buffer held before. -/
def staleImage (fill : α) (ws col : Nat) (data tail : List α) (i : Nat) : List α :=
  (List.range ws).map fun j =>
    if i * ws + j < col + data.length then streamSlot fill col data (i * ws + j)
    else tail.getD j fill

theorem length_staleImage : (staleImage fill ws col data tail i).length = ws := by
  rw [staleImage, List.length_map, List.length_range]

/-- The first page: behind the stream there is the old contents. -/
theorem staleImage_zero (hcol : col ≤ ws) (htail : tail.length = ws) :
    staleImage fill ws col data tail 0 =
      List.replicate col fill ++ data.take (ws - col) ++ tail.drop (col + data.length) := by
  have hfront : (List.replicate col fill ++ data.take (ws - col)).length =
      col + min (ws - col) data.length := by simp
  apply List.ext_getElem
  · rw [length_staleImage, List.length_append, hfront, List.length_drop]
    omega
  · intro k hk hk'
    rw [length_staleImage] at hk
    simp only [staleImage, List.getElem_map, List.getElem_range, Nat.zero_mul, Nat.zero_add]
    split_ifs with hin
    · rw [List.getElem_append_left (by rw [hfront]; omega), streamSlot]
      split_ifs with hlead
      · rw [List.getElem_append_left (by simpa using hlead), List.getElem_replicate]
      · rw [List.getElem_append_right (by simpa using hlead), List.getElem_take,
          List.getD_eq_getElem _ _ (by omega)]
        congr 1
        rw [List.length_replicate]
    · rw [List.getElem_append_right (by omega), List.getD_eq_getElem _ _ (by omega),
        List.getElem_drop]
      congr 1
      omega

/-- The further pages are the pages of the rest of the stream. -/
theorem staleImage_succ (hcol : col ≤ ws) (hlen : ws - col ≤ data.length) (i : Nat) :
    staleImage fill ws col data tail (i + 1) =
      staleImage fill ws 0 (data.drop (ws - col)) tail i := by
  apply List.map_congr_left
  intro k _
  have hslot : (i + 1) * ws + k = ws + (i * ws + k) := by ring
  rw [hslot, streamSlot_add hcol, List.length_drop]
  have hiff : ws + (i * ws + k) < col + data.length ↔ i * ws + k < 0 + (data.length - (ws - col)) := by
    omega
  simp only [hiff]

/-- The pages are those of a filled buffer exactly if the old contents behind the stream is filling. -/
theorem staleImage_eq_pageImage_iff (fill : α) (hcol : col < ws) (hdata : data ≠ [])
    (htail : tail.length = ws) :
    (∀ i, i < pageSpan ws col data.length →
        staleImage fill ws col data tail i = pageImage fill ws ws col data i) ↔
      ∀ a ∈ tail.drop (col + data.length - (pageSpan ws col data.length - 1) * ws), a = fill := by
  have hn : data.length ≠ 0 := fun h => hdata (List.eq_nil_of_length_eq_zero h)
  have hpos := pageSpan_pos hcol hn
  have hstart := start_lt_of_lt_pageSpan hcol (Nat.sub_lt hpos Nat.one_pos)
  have hpage : ∀ i, pageImage fill ws ws col data i =
      (List.range ws).map (fun j => streamSlot fill col data (i * ws + j)) := by
    intro i
    rw [pageImage, Nat.sub_self, List.replicate_zero, List.append_nil]
  have hbehind : ∀ k, col + data.length ≤ k → streamSlot fill col data k = fill := by
    intro k hk
    rw [streamSlot, if_neg (by omega), List.getD_eq_default _ _ (by omega)]
  constructor
  · intro h a ha
    obtain ⟨k, hk, rfl⟩ := List.mem_iff_getElem.mp ha
    rw [List.length_drop, htail] at hk
    have heq := h _ (Nat.sub_lt hpos Nat.one_pos)
    rw [hpage, staleImage, List.map_inj_left] at heq
    have hslot := heq (col + data.length - (pageSpan ws col data.length - 1) * ws + k)
      (List.mem_range.mpr (by omega))
    rw [if_neg (by omega), hbehind _ (by omega), List.getD_eq_getElem _ _ (by omega)] at hslot
    rw [List.getElem_drop]
    exact hslot
  · intro h i hi
    rw [hpage, staleImage, List.map_inj_left]
    intro k hk
    rw [List.mem_range] at hk
    split_ifs with hin
    · rfl
    · -- only the last page reaches behind the stream
      have hlast : i = pageSpan ws col data.length - 1 := by
        by_contra hne
        exact hin (slot_lt_of_succ_lt_pageSpan (by omega) hk)
      subst hlast
      rw [hbehind _ (by omega), List.getD_eq_getElem _ _ (by omega)]
      apply h
      rw [List.mem_iff_getElem]
      refine ⟨k - (col + data.length - (pageSpan ws col data.length - 1) * ws), ?_, ?_⟩
      · rw [List.length_drop]
        omega
      · rw [List.getElem_drop]
        congr 1
        omega

end PageStream

end Lib
end ZyxelRouter
