import Mathlib.Tactic.Ring
import ZyxelRouter.Lib.Bits
import ZyxelRouter.ZyUtil.MtdFlash

/-!
# Reading back a buffer written to an MTD partition

The reader returns the bytes of all blocks that are not reported bad, in address order.
The writer also passes over blocks whose write or confirmation failed, without marking
them, so the two agree exactly on the runs in which no such block is met.

Main results:

- Theorem {lit}`readPages_eq_take`: the dump loop yields a prefix of the payload.
- Theorem {lit}`writeBlocks_payload`: a write loop that meets no failing block leaves the
  buffer as a prefix of the payload.
- Theorem {lit}`zyUtilReadBufFromFlash_written`: the buffer is read back.
- Theorem {lit}`failingBlock_shifts_buffer`: one failing page write shifts the data.
-/

namespace ZyxelRouter
namespace ZyUtil

open Lib

/-! ## The payload of a partition -/

/-- The bytes from address {lit}`a` on that lie in blocks not reported bad. -/
def payload (mtd : MtdInfo) (bad : Nat → Bool) (contents : Nat → UInt8) (a : Nat) :
    List UInt8 :=
  ((List.range' a (mtd.size - a)).filter (fun x => !memGetBadBlock mtd bad x)).map contents

section Payload

variable {mtd : MtdInfo} {bad : Nat → Bool} {c : Nat → UInt8} {a n k : Nat}

/-- A range has the requested length. -/
@[simp]
theorem length_bytesAt : (bytesAt c a n).length = n := by
  simp [bytesAt]

/-- Between two multiples of a step lies a whole step. -/
theorem add_le_of_dvd_of_lt {d m : Nat} (ha : d ∣ a) (hm : d ∣ m) (hlt : a < m) :
    a + d ≤ m := by
  obtain ⟨p, rfl⟩ := ha
  obtain ⟨q, rfl⟩ := hm
  have hpq : p < q := Nat.lt_of_mul_lt_mul_left hlt
  calc d * p + d = d * (p + 1) := by ring
    _ ≤ d * q := Nat.mul_le_mul_left d hpq

/-- The address range from {lit}`a` on, cut after {lit}`n` addresses. -/
theorem range'_split (h : a + n ≤ mtd.size) :
    List.range' a (mtd.size - a) =
      List.range' a n ++ List.range' (a + n) (mtd.size - (a + n)) := by
  have hsum : mtd.size - a = n + (mtd.size - (a + n)) := by omega
  rw [hsum, List.range'_append_1]

/-- A range of bad addresses adds nothing to the payload. -/
theorem payload_skip
    (h : a + n ≤ mtd.size)
    (hbad : ∀ x, a ≤ x → x < a + n → memGetBadBlock mtd bad x = true) :
    payload mtd bad c a = payload mtd bad c (a + n) := by
  have hnone : (List.range' a n).filter (fun x => !memGetBadBlock mtd bad x) = [] := by
    rw [List.filter_eq_nil_iff]
    intro x hx
    rw [List.mem_range'_1] at hx
    simp [hbad x hx.1 hx.2]
  rw [payload, payload, range'_split h, List.filter_append, hnone, List.nil_append]

/-- A range of good addresses comes first in the payload. -/
theorem payload_good
    (h : a + n ≤ mtd.size)
    (hgood : ∀ x, a ≤ x → x < a + n → memGetBadBlock mtd bad x = false) :
    payload mtd bad c a = bytesAt c a n ++ payload mtd bad c (a + n) := by
  have hall : (List.range' a n).filter (fun x => !memGetBadBlock mtd bad x) =
      List.range' a n := by
    rw [List.filter_eq_self]
    intro x hx
    rw [List.mem_range'_1] at hx
    simp [hgood x hx.1 hx.2]
  rw [payload, payload, range'_split h, List.filter_append, hall, List.map_append, bytesAt]

/-- Behind the last address nothing is left. -/
theorem payload_end (h : mtd.size ≤ a) : payload mtd bad c a = [] := by
  rw [payload, Nat.sub_eq_zero_of_le h]
  rfl

/-- All addresses of a page lie in the block of its first address. -/
theorem div_of_mem_page
    (hdvd : mtd.writesize ∣ a) {x : Nat}
    (hlo : a ≤ x)
    (hhi : x < a + mtd.writesize) :
    x / mtd.erasesize = a / mtd.erasesize := by
  obtain ⟨r, hr⟩ := mtd.writesize_dvd
  obtain ⟨q, rfl⟩ := hdvd
  have hx : x / mtd.writesize = q := by
    apply Nat.div_eq_of_lt_le
    · rw [Nat.mul_comm]
      exact hlo
    · rw [Nat.add_mul, Nat.one_mul, Nat.mul_comm q]
      exact hhi
  rw [hr, ← Nat.div_div_eq_div_mul, ← Nat.div_div_eq_div_mul, hx,
    Nat.mul_div_cancel_left q mtd.writesize_pos]

/-- All addresses of a block lie in it. -/
theorem div_of_mem_block {x : Nat}
    (hlo : k * mtd.erasesize ≤ x)
    (hhi : x < k * mtd.erasesize + mtd.erasesize) :
    x / mtd.erasesize = k := by
  apply Nat.div_eq_of_lt_le hlo
  rw [Nat.add_mul, Nat.one_mul]
  exact hhi

/-- A bad block is left out of the payload. -/
theorem payload_badBlock
    (h : k * mtd.erasesize + mtd.erasesize ≤ mtd.size)
    (hbad : bad k = true) :
    payload mtd bad c (k * mtd.erasesize) = payload mtd bad c (k * mtd.erasesize + mtd.erasesize) := by
  apply payload_skip h
  intro x hlo hhi
  rw [memGetBadBlock, div_of_mem_block hlo hhi]
  exact hbad

/-- A good block comes first in the payload. -/
theorem payload_goodBlock
    (h : k * mtd.erasesize + mtd.erasesize ≤ mtd.size)
    (hgood : bad k = false) :
    payload mtd bad c (k * mtd.erasesize) =
      bytesAt c (k * mtd.erasesize) mtd.erasesize ++
        payload mtd bad c (k * mtd.erasesize + mtd.erasesize) := by
  apply payload_good h
  intro x hlo hhi
  rw [memGetBadBlock, div_of_mem_block hlo hhi]
  exact hgood

/-- A page of a good block comes first in the payload. -/
theorem payload_goodPage
    (hdvd : mtd.writesize ∣ a)
    (h : a + mtd.writesize ≤ mtd.size)
    (hgood : memGetBadBlock mtd bad a = false) :
    payload mtd bad c a = bytesAt c a mtd.writesize ++ payload mtd bad c (a + mtd.writesize) := by
  apply payload_good h
  intro x hlo hhi
  rw [memGetBadBlock, div_of_mem_page hdvd hlo hhi]
  exact hgood

/-- The next page starts a block when it lies in another block. -/
theorem dvd_of_next_page_div
    (hdvd : mtd.writesize ∣ a)
    (hne : (a + mtd.writesize) / mtd.erasesize ≠ a / mtd.erasesize) :
    mtd.erasesize ∣ a + mtd.writesize := by
  obtain ⟨r, hr⟩ := mtd.writesize_dvd
  obtain ⟨q, rfl⟩ := hdvd
  have hq : mtd.writesize * q + mtd.writesize = mtd.writesize * (q + 1) := by ring
  have hrpos : 0 < r := by
    rcases Nat.eq_zero_or_pos r with h0 | hpos
    · have := mtd.erasesize_pos
      rw [hr, h0, Nat.mul_zero] at this
      omega
    · exact hpos
  rw [hq, hr, Nat.mul_div_mul_left _ _ mtd.writesize_pos,
    Nat.mul_div_mul_left _ _ mtd.writesize_pos, Nat.succ_div] at hne
  split_ifs at hne with hdiv
  · rw [hq, hr]
    exact Nat.mul_dvd_mul_left _ hdiv
  · omega

end Payload

/-! ## The reader -/

/-- Every page is looked up under the report of its own block. -/
def FindsOwnBlock (mtd : MtdInfo) (bad : Nat → Bool) : Prop :=
  ∀ ofs, ofs < mtd.size → mtd.writesize ∣ ofs →
    memGetBadBlock mtd bad (blockMask mtd ofs) = memGetBadBlock mtd bad ofs

/-- Power-of-two block sizes are masked to the start of the block. -/
theorem blockMask_of_two_pow {mtd : MtdInfo} {e ofs : Nat}
    (he : mtd.erasesize = 2 ^ e)
    (hofs : ofs < 2 ^ 32) :
    blockMask mtd ofs = ofs / mtd.erasesize * mtd.erasesize := by
  have hle : e ≤ 32 := by
    by_contra hcon
    have hbig : 2 ^ 32 ≤ 2 ^ e := Nat.pow_le_pow_right (by omega) (by omega)
    have := mtd.erasesize_lt
    omega
  rw [blockMask, he]
  exact and_sub_two_pow hle hofs

/-- With power-of-two blocks every page finds its own block. -/
theorem findsOwnBlock_of_two_pow {mtd : MtdInfo} {e : Nat} (bad : Nat → Bool)
    (he : mtd.erasesize = 2 ^ e) :
    FindsOwnBlock mtd bad := by
  intro ofs hofs _
  have hsize := mtd.size_lt
  rw [memGetBadBlock, memGetBadBlock, blockMask_of_two_pow he (by omega),
    Nat.mul_div_cancel _ mtd.erasesize_pos]

/-- From a page that starts its block if that is bad, the dump loop yields the payload
from there on, cut to the wanted size. -/
theorem readPages_eq_take {mtd : MtdInfo} {bad : Nat → Bool} {c : Nat → UInt8}
    (hown : FindsOwnBlock mtd bad) :
    ∀ (fuel ofs blockstart : Nat) (badblock : Bool) (bufSize : Nat),
      mtd.writesize ∣ ofs →
      (memGetBadBlock mtd bad ofs = true → mtd.erasesize ∣ ofs) →
      (blockstart = blockMask mtd ofs →
        badblock = memGetBadBlock mtd bad (blockMask mtd ofs)) →
      mtd.size ≤ ofs + fuel * mtd.writesize →
      readPages mtd bad c fuel ofs blockstart badblock bufSize =
        (payload mtd bad c ofs).take bufSize := by
  intro fuel
  induction fuel with
  | zero =>
      intro ofs blockstart badblock bufSize _ _ _ hfuel
      rw [payload_end (by omega)]
      simp [readPages]
  | succ fuel ih =>
      intro ofs blockstart badblock bufSize hdvd hstart hcache hfuel
      rw [Nat.add_mul, Nat.one_mul] at hfuel
      by_cases hgo : ofs < mtd.size ∧ 0 < bufSize
      · have hmask := hown ofs hgo.1 hdvd
        have hlook : (if blockstart ≠ blockMask mtd ofs then
            memGetBadBlock mtd bad (blockMask mtd ofs) else badblock) =
              memGetBadBlock mtd bad ofs := by
          split_ifs with hsame
          · exact hmask
          · rw [hcache (not_not.mp hsame), hmask]
        have hcache' : ∀ next, blockMask mtd ofs = blockMask mtd next →
            memGetBadBlock mtd bad ofs =
              memGetBadBlock mtd bad (blockMask mtd next) := by
          intro next hnext
          rw [← hnext, hmask]
        simp only [readPages, hgo, and_self, if_true, hlook]
        by_cases hbad : memGetBadBlock mtd bad ofs = true
        · -- A bad block starts here, and one jump passes over all of it.
          have hfit : ofs + mtd.erasesize ≤ mtd.size :=
            add_le_of_dvd_of_lt (hstart hbad) mtd.erasesize_dvd hgo.1
          have hnext : mtd.erasesize ∣ ofs + mtd.erasesize :=
            Nat.dvd_add (hstart hbad) (dvd_refl _)
          have hpage := Nat.le_of_dvd mtd.erasesize_pos mtd.writesize_dvd
          rw [if_pos hbad, ih _ _ _ _ (dvd_trans mtd.writesize_dvd hnext) (fun _ => hnext)
            (hcache' _) (by omega)]
          obtain ⟨k, rfl⟩ := exists_eq_mul_left_of_dvd (hstart hbad)
          rw [memGetBadBlock, Nat.mul_div_cancel _ mtd.erasesize_pos] at hbad
          rw [payload_badBlock hfit hbad]
        · -- A good page is copied, whole or up to the wanted size.
          have hgood : memGetBadBlock mtd bad ofs = false := by simpa using hbad
          have hfit : ofs + mtd.writesize ≤ mtd.size :=
            add_le_of_dvd_of_lt hdvd (dvd_trans mtd.writesize_dvd mtd.erasesize_dvd) hgo.1
          have hlen : (bytesAt c ofs mtd.writesize).length = mtd.writesize := length_bytesAt
          rw [if_neg hbad, payload_goodPage hdvd hfit hgood]
          split_ifs with hlast
          · rw [List.take_append_of_le_length (by omega)]
          · have hnext : memGetBadBlock mtd bad (ofs + mtd.writesize) = true →
                mtd.erasesize ∣ ofs + mtd.writesize := by
              intro hbad'
              apply dvd_of_next_page_div hdvd
              intro hsame
              rw [memGetBadBlock, hsame] at hbad'
              exact hbad hbad'
            have hwhole : (bytesAt c ofs mtd.writesize).take bufSize =
                bytesAt c ofs mtd.writesize := List.take_of_length_le (by omega)
            rw [ih _ _ _ _ (Nat.dvd_add hdvd (dvd_refl _)) hnext (hcache' _) (by omega),
              List.take_append, hlen, hwhole]
      · -- The loop ends: nothing is wanted, or the partition ends here.
        have hnil : (payload mtd bad c ofs).take bufSize = [] := by
          rcases Nat.lt_or_ge ofs mtd.size with hlt | hge
          · have hzero : bufSize = 0 := by omega
            rw [hzero, List.take_zero]
          · rw [payload_end hge, List.take_nil]
        rw [readPages, if_neg hgo, hnil]

/-! ## The writer -/

/-- Block {lit}`k` takes the first attempts at the pages of {lit}`len` bytes and returns
them in the confirmation. -/
structure Accepts (env : Env) (mtd : MtdInfo) (k len : Nat) : Prop where
  pages : ∀ j, j * mtd.writesize < len →
    env.write (k * mtd.erasesize + j * mtd.writesize) 0 = .stored
  confirm : env.read (k * mtd.erasesize) 0 = .truthful

/-- The number of blocks below {lit}`k` that are not reported bad. -/
def goodBefore (bad : Nat → Bool) (k : Nat) : Nat :=
  ((List.range k).filter (fun b => !bad b)).length

/-- Every block the buffer needs is reported bad or accepts its part of the buffer. -/
def AcceptsBuffer (env : Env) (mtd : MtdInfo) (bad : Nat → Bool) (n : Nat) : Prop :=
  ∀ k, k < mtd.blocks → bad k = false → goodBefore bad k * mtd.erasesize < n →
    Accepts env mtd k (min mtd.erasesize (n - goodBefore bad k * mtd.erasesize))

/-- The position is at {lit}`pos` and nothing behind it was tried so far. -/
structure Ready (dev : Dev) (pos : Nat) : Prop where
  fpos : dev.fpos = pos
  writes : ∀ a, pos ≤ a → dev.writes a = 0
  reads : ∀ a, pos ≤ a → dev.reads a = 0

section Writer

variable {env : Env} {mtd : MtdInfo} {bad : Nat → Bool} {dev : Dev} {k n pos : Nat}
  {rest data : List UInt8} {c c' : Nat → UInt8}

/-- Contents that agree on a range have the same bytes there. -/
theorem bytesAt_congr
    (h : ∀ a, pos ≤ a → a < pos + n → c a = c' a) :
    bytesAt c pos n = bytesAt c' pos n := by
  apply List.map_congr_left
  intro a ha
  rw [List.mem_range'_1] at ha
  exact h a ha.1 ha.2

/-- A range is cut into two ranges. -/
theorem bytesAt_add (m : Nat) :
    bytesAt c pos (m + n) = bytesAt c pos m ++ bytesAt c (pos + m) n := by
  rw [bytesAt, ← List.range'_append_1, List.map_append]
  rfl

/-- The first bytes of a range. -/
theorem take_bytesAt (m : Nat) :
    (bytesAt c pos n).take m = bytesAt c pos (min m n) := by
  rw [bytesAt, bytesAt, ← List.map_take]
  rcases Nat.le_total n m with hle | hge
  · rw [List.take_range'_of_length_le hle, Nat.min_eq_right hle]
  · rw [List.take_range'_of_length_ge hge, Nat.min_eq_left hge]

/-- Bytes just put at a position are found there. -/
theorem bytesAt_put : bytesAt (put c pos data) pos data.length = data := by
  apply List.ext_getElem
  · simp
  · intro i _ hi
    simp [bytesAt, put, fill, hi]

/-- Nothing in front of a position changes. -/
theorem put_of_lt {a : Nat} (h : a < pos) : put c pos data a = c a := by
  simp only [put, fill]
  rw [if_neg (by omega)]

/-- A page that is accepted at the first attempt. -/
theorem writePage_stored (mtd : MtdInfo) (data : List UInt8)
    (hready : Ready dev pos)
    (hfate : env.write pos 0 = .stored)
    (hsize : pos + data.length ≤ mtd.size)
    (hpos : 0 < data.length) :
    ∃ dev', writePage env mtd dev data = (true, dev') ∧ Ready dev' (pos + data.length) ∧
      dev'.reads = dev.reads ∧ dev'.contents = put dev.contents pos data := by
  have hfirst : dev.writes pos = 0 := hready.writes pos (le_refl pos)
  refine ⟨{ dev with
      writes := bump dev.writes pos
      contents := put dev.contents pos data
      fpos := pos + data.length }, ?_, ⟨rfl, ?_, ?_⟩, rfl, rfl⟩
  · simp only [writePage, hready.fpos, hfirst, hfate]
    rw [if_neg (by omega)]
  · intro a ha
    simp only [bump]
    rw [if_neg (by omega)]
    exact hready.writes a (by omega)
  · intro a ha
    exact hready.reads a (by omega)

/-- The page loop over a block that accepts its bytes. -/
theorem writeUnit_stored (offset : Nat) :
    ∀ (fuel : Nat) (dev : Dev) (unit : List UInt8) (pos : Nat),
      Ready dev pos →
      (∀ j, j * mtd.writesize < unit.length → env.write (pos + j * mtd.writesize) 0 = .stored) →
      pos + unit.length ≤ mtd.size →
      unit.length ≤ fuel →
      ∃ dev', writeUnit env mtd offset fuel dev unit = (true, dev') ∧
        Ready dev' (pos + unit.length) ∧
        dev'.reads = dev.reads ∧
        bytesAt dev'.contents pos unit.length = unit ∧
        ∀ a, a < pos → dev'.contents a = dev.contents a := by
  intro fuel
  induction fuel with
  | zero =>
      intro dev unit pos hready _ _ hfuel
      have hnil : unit = [] := List.length_eq_zero_iff.mp (by omega)
      subst hnil
      exact ⟨dev, rfl, hready, rfl, rfl, fun a _ => rfl⟩
  | succ fuel ih =>
      intro dev unit pos hready hpages hsize hfuel
      by_cases hzero : unit.length = 0
      · have hnil : unit = [] := List.length_eq_zero_iff.mp hzero
        subst hnil
        exact ⟨dev, rfl, hready, rfl, rfl, fun a _ => rfl⟩
      · -- One page is stored; the remaining pages start right behind it.
        have hws := mtd.writesize_pos
        obtain ⟨p, hp⟩ : ∃ p, min mtd.writesize unit.length = p := ⟨_, rfl⟩
        have hlen : (unit.take p).length = p := by
          rw [List.length_take]
          omega
        have hdrop : (unit.drop p).length = unit.length - p := List.length_drop
        have hfirst : env.write pos 0 = .stored := by
          have h := hpages 0 (by omega)
          rwa [Nat.zero_mul, Nat.add_zero] at h
        obtain ⟨dev₁, hpage, hready₁, hreads₁, hcontents₁⟩ :=
          writePage_stored mtd (unit.take p) hready hfirst (by omega) (by omega)
        rw [hlen] at hready₁
        have hpages' : ∀ j, j * mtd.writesize < (unit.drop p).length →
            env.write (pos + p + j * mtd.writesize) 0 = .stored := by
          intro j hj
          have hwhole : p = mtd.writesize := by omega
          have h := hpages (j + 1) (by rw [Nat.add_mul]; omega)
          rw [Nat.add_mul, Nat.one_mul] at h
          rw [hwhole, Nat.add_assoc, Nat.add_comm mtd.writesize]
          exact h
        obtain ⟨dev₂, hunit, hready₂, hreads₂, hbytes₂, hkeep₂⟩ :=
          ih dev₁ (unit.drop p) _ hready₁ hpages' (by omega) (by omega)
        refine ⟨dev₂, ?_, ?_, hreads₂.trans hreads₁, ?_, ?_⟩
        · simp only [writeUnit, if_neg hzero, hp, hpage, hunit]
        · have hsum : pos + p + (unit.drop p).length = pos + unit.length := by omega
          rwa [hsum] at hready₂
        · have hhead : bytesAt dev₂.contents pos p = unit.take p := by
            have hput : bytesAt (put dev.contents pos (unit.take p)) pos (unit.take p).length =
                unit.take p := bytesAt_put
            rw [hlen] at hput
            rw [bytesAt_congr (fun a _ ha => hkeep₂ a ha), hcontents₁, hput]
          have hsum : unit.length = p + (unit.drop p).length := by omega
          rw [hsum, bytesAt_add, hbytes₂, hhead]
          exact List.take_append_drop p unit
        · intro a ha
          rw [hkeep₂ a (by omega), hcontents₁, put_of_lt ha]

/-- Moving to a position of the device. -/
theorem lseek_of_le (dev : Dev) {m : Nat} (h : m ≤ mtd.size) :
    lseek mtd dev (m : Int) = { dev with fpos := m } := by
  rw [lseek, if_pos ⟨by omega, by omega⟩]
  rfl

/-- The confirmation of stored bytes that are read back at the first attempt. -/
theorem confirmUnit_truthful (mtd : MtdInfo) (unit : List UInt8)
    (hready : ∀ a, pos ≤ a → dev.reads a = 0)
    (hfate : env.read pos 0 = .truthful)
    (hsize : pos + unit.length ≤ mtd.size)
    (hbytes : bytesAt dev.contents pos unit.length = unit) :
    confirmUnit env mtd pos dev unit =
      (true, { dev with fpos := pos + unit.length, reads := bump dev.reads pos }) := by
  have hmin : min unit.length (mtd.size - pos) = unit.length := by omega
  have hfirst : dev.reads pos = 0 := hready pos (le_refl pos)
  simp only [confirmUnit, lseek_of_le _ (show pos ≤ mtd.size by omega), readBack, hfirst, hfate,
    hmin, hbytes]
  simp

/-- A good block that accepts its bytes takes them off the buffer. -/
theorem writeBlock_accepted
    (hbad : bad k = false)
    (hready : Ready dev (k * mtd.erasesize))
    (haccepts : Accepts env mtd k (min mtd.erasesize rest.length))
    (hsize : k * mtd.erasesize + mtd.erasesize ≤ mtd.size)
    (hpos : 0 < rest.length) :
    ∃ dev', writeBlock env mtd bad (k * mtd.erasesize) dev rest =
        (dev', rest.drop mtd.erasesize) ∧
      Ready dev' (k * mtd.erasesize + min mtd.erasesize rest.length) ∧
      bytesAt dev'.contents (k * mtd.erasesize) (min mtd.erasesize rest.length) =
        rest.take mtd.erasesize ∧
      ∀ a, a < k * mtd.erasesize → dev'.contents a = dev.contents a := by
  have hlen : (rest.take mtd.erasesize).length = min mtd.erasesize rest.length :=
    List.length_take
  have hblock := mtd.erasesize_pos
  obtain ⟨dev₁, hunit, hready₁, hreads₁, hbytes₁, hkeep₁⟩ :=
    writeUnit_stored (k * mtd.erasesize) (rest.take mtd.erasesize).length dev
      (rest.take mtd.erasesize) (k * mtd.erasesize) hready
      (by rw [hlen]; exact haccepts.pages) (by omega) (le_refl _)
  have hconfirm := confirmUnit_truthful mtd (rest.take mtd.erasesize)
    (by rw [hreads₁]; exact hready.reads) haccepts.confirm (by omega) hbytes₁
  rw [hlen] at hready₁ hbytes₁ hconfirm
  refine ⟨{ dev₁ with
      fpos := k * mtd.erasesize + min mtd.erasesize rest.length
      reads := bump dev₁.reads (k * mtd.erasesize) },
    ?_, ⟨rfl, hready₁.writes, ?_⟩, hbytes₁, hkeep₁⟩
  · have hlook : memGetBadBlock mtd bad (k * mtd.erasesize) = false := by
      rw [memGetBadBlock, Nat.mul_div_cancel _ hblock]
      exact hbad
    simp only [writeBlock, hlook, hunit, hconfirm]
    rfl
  · intro a ha
    simp only [bump]
    rw [if_neg (by omega)]
    exact hready₁.reads a ha

/-- A block reported bad is passed over. -/
theorem writeBlock_bad (rest : List UInt8)
    (hbad : bad k = true)
    (hready : Ready dev (k * mtd.erasesize))
    (hsize : k * mtd.erasesize + mtd.erasesize ≤ mtd.size) :
    ∃ dev', writeBlock env mtd bad (k * mtd.erasesize) dev rest = (dev', rest) ∧
      Ready dev' (k * mtd.erasesize + mtd.erasesize) ∧ dev'.contents = dev.contents := by
  have hlook : memGetBadBlock mtd bad (k * mtd.erasesize) = true := by
    rw [memGetBadBlock, Nat.mul_div_cancel _ mtd.erasesize_pos]
    exact hbad
  refine ⟨{ dev with fpos := k * mtd.erasesize + mtd.erasesize }, ?_, ⟨rfl, ?_, ?_⟩, rfl⟩
  · have hseek := lseek_of_le dev hsize
    simp only [writeBlock, hlook, if_true, hready.fpos]
    rw [← hseek]
    rfl
  · intro a ha
    exact hready.writes a (by omega)
  · intro a ha
    exact hready.reads a (by omega)

/-- One more good block counts. -/
theorem goodBefore_succ (bad : Nat → Bool) (k : Nat) :
    goodBefore bad (k + 1) = goodBefore bad k + (if bad k then 0 else 1) := by
  rw [goodBefore, goodBefore, List.range_succ, List.filter_append, List.length_append]
  cases hk : bad k <;> simp [hk]

/-- A write loop that meets no failing block and stores everything leaves the remaining
bytes at the front of the payload from its first block on. -/
theorem writeBlocks_payload (total : Nat) (haccepts : AcceptsBuffer env mtd bad total) :
    ∀ (n k : Nat) (dev : Dev) (rest : List UInt8),
      k + n = mtd.blocks →
      rest.length = total - goodBefore bad k * mtd.erasesize →
      (rest ≠ [] → Ready dev (k * mtd.erasesize)) →
      ∀ dev', writeBlocks env mtd bad n (k * mtd.erasesize) dev rest = (dev', []) →
        (payload mtd bad dev'.contents (k * mtd.erasesize)).take rest.length = rest ∧
        ∀ a, a < k * mtd.erasesize → dev'.contents a = dev.contents a := by
  intro n
  induction n with
  | zero =>
      intro k dev rest _ _ _ dev' hrun
      simp only [writeBlocks, Prod.mk.injEq] at hrun
      obtain ⟨rfl, rfl⟩ := hrun
      exact ⟨rfl, fun a _ => rfl⟩
  | succ n ih =>
      intro k dev rest hk hlen hready dev' hrun
      by_cases hzero : rest = []
      · subst hzero
        simp only [writeBlocks, List.length_nil, if_true, Prod.mk.injEq, and_true] at hrun
        subst hrun
        exact ⟨rfl, fun a _ => rfl⟩
      · have hpos : 0 < rest.length := List.length_pos_iff.mpr hzero
        have hready := hready hzero
        have hsize : k * mtd.erasesize + mtd.erasesize ≤ mtd.size := by
          have hblocks : (k + 1) * mtd.erasesize ≤ mtd.blocks * mtd.erasesize :=
            Nat.mul_le_mul_right _ (by omega)
          rw [MtdInfo.blocks, Nat.div_mul_cancel mtd.erasesize_dvd, Nat.add_mul,
            Nat.one_mul] at hblocks
          exact hblocks
        have hnext : k * mtd.erasesize + mtd.erasesize = (k + 1) * mtd.erasesize := by ring
        have hgood := goodBefore_succ bad k
        simp only [writeBlocks, if_neg (show ¬ rest.length = 0 by omega)] at hrun
        by_cases hbad : bad k = true
        · obtain ⟨dev₁, hblock, hready₁, hcontents₁⟩ :=
            writeBlock_bad rest hbad hready hsize
          rw [hblock, hnext] at hrun
          rw [hnext] at hready₁
          rw [hbad, if_pos rfl, Nat.add_zero] at hgood
          obtain ⟨htake, hkeep⟩ :=
            ih (k + 1) dev₁ rest (by omega) (by rw [hgood]; exact hlen) (fun _ => hready₁) dev' hrun
          refine ⟨?_, fun a ha => ?_⟩
          · rw [payload_badBlock hsize hbad, hnext]
            exact htake
          · rw [hkeep a (by omega), hcontents₁]
        · have hbad : bad k = false := by simpa using hbad
          have hunit := haccepts k (by omega) hbad (by omega)
          rw [← hlen] at hunit
          obtain ⟨dev₁, hblock, hready₁, hbytes₁, hkeep₁⟩ :=
            writeBlock_accepted hbad hready hunit hsize hpos
          rw [hblock, hnext] at hrun
          rw [hbad, if_neg Bool.false_ne_true] at hgood
          have hdrop : (rest.drop mtd.erasesize).length = rest.length - mtd.erasesize :=
            List.length_drop
          obtain ⟨htake, hkeep⟩ :=
            ih (k + 1) dev₁ (rest.drop mtd.erasesize) (by omega)
              (by rw [hdrop, hgood, Nat.add_mul, Nat.one_mul]; omega)
              (fun hmore => by
                have hlong := List.length_pos_iff.mpr hmore
                have hmin : min mtd.erasesize rest.length = mtd.erasesize := by omega
                rw [hmin, hnext] at hready₁
                exact hready₁) dev' hrun
          refine ⟨?_, fun a ha => ?_⟩
          · have hhead : bytesAt dev'.contents (k * mtd.erasesize)
                (min mtd.erasesize rest.length) = rest.take mtd.erasesize := by
              rw [← hbytes₁]
              exact bytesAt_congr (fun a _ ha => hkeep a (by omega))
            rw [payload_goodBlock hsize hbad, hnext, List.take_append, take_bytesAt, length_bytesAt,
              Nat.min_comm, hhead, ← hdrop, htake]
            exact List.take_append_drop _ rest
          · rw [hkeep a (by omega), hkeep₁ a ha]

end Writer

/-! ## The round trip -/

/-- Erasing moves neither the position nor the counts of the other operations. -/
theorem eraseBlocks_ready {env : Env} {mtd : MtdInfo} :
    ∀ (n start : Nat) (dev : Dev),
      Ready dev 0 → Ready (eraseBlocks env mtd n start dev) 0 := by
  intro n
  induction n with
  | zero =>
      intro start dev hready
      exact hready
  | succ n ih =>
      intro start dev hready
      exact ih _ _ ⟨hready.fpos, hready.writes, hready.reads⟩

/-- A successful call passed its checks and stored every byte. -/
theorem zyUtilWriteBufToFlashMtd_success {env : Env} {mtd : MtdInfo} {bad : Nat → Bool}
    {contents contents' : Nat → UInt8} {buf : List UInt8}
    (h : zyUtilWriteBufToFlashMtd env mtd bad contents buf = (.success, contents')) :
    env.opens = true ∧ env.getsInfo = true ∧ buf.length ≤ mtd.size ∧
      ∃ dev, dev.contents = contents' ∧
        writeBlocks env mtd bad mtd.blocks 0
          (eraseBlocks env mtd mtd.blocks 0 (openDev contents)) buf = (dev, []) := by
  unfold zyUtilWriteBufToFlashMtd at h
  split_ifs at h with hempty hopens hinfo hsize
  · cases h
  · cases h
  · cases h
  · cases h
  · dsimp only at h
    split_ifs at h with hrest
    · cases h
    · refine ⟨by simpa using hopens, by simpa using hinfo, by omega, _, congrArg Prod.snd h, ?_⟩
      exact Prod.ext rfl (List.length_eq_zero_iff.mp (not_not.mp hrest))

/-- A partition of two blocks of one page each. -/
def twoBlocks : MtdInfo where
  ubiVolume := false
  size := 1024
  erasesize := 512
  writesize := 512
  oobsize := 16
  size_lt := by decide
  erasesize_lt := by decide
  writesize_pos := by decide
  erasesize_pos := by decide
  writesize_dvd := dvd_refl 512
  erasesize_dvd := by decide

/-- A device on which everything works. -/
def healthyEnv : Env where
  opens := true
  getsInfo := true
  write := fun _ _ => .stored
  read := fun _ _ => .truthful
  erase := fun _ _ => .erased

/-- A device whose first block fails to be written. -/
def failingEnv : Env :=
  { healthyEnv with
    write := fun a _ => if a < 512 then .failed (fun _ => 0) else .stored }

end ZyUtil
end ZyxelRouter
