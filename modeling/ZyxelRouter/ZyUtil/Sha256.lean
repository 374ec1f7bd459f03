import Mathlib.Data.List.GetD
import Mathlib.Data.List.OfFn
import ZyxelRouter.Lib.Sha256

/-!
# The SHA-256 of the encryption helpers

{lit}`sha256_init`, {lit}`sha256_transform`, {lit}`sha256_update`, {lit}`sha256_final` and
{lit}`getExpectedContext_SHA256` of {lit}`libzyutil_encrypt_SHA256.c`, compared with the hash function of
the standard.  A {lit}`uint` has 32 bits and a {lit}`size_t` has 64.

Main results:

- Theorem {lit}`transform_state`: the transformation is the compression of the standard.
- Theorem {lit}`Streams.updateByte`: a context keeps the blocks, the buffer and the bit counter of the
  stream it was fed.
- Theorem {lit}`final_updates`: the digest of a message that is passed in parts.
- Theorem {lit}`getExpectedContext_take`: the digest that is written for a string.
- Theorem {lit}`hashesAsStandard_iff`: it is that of the whole string below four gigabytes.
-/

namespace ZyxelRouter
namespace ZyUtil

open Lib

/-! ## The functions -/

/-- {lit}`DBL_INT_ADD`: add {lit}`c` to the 64-bit number of the low word {lit}`a` and the high word
{lit}`b`. -/
def dblIntAdd (a b c : UInt32) : UInt32 × UInt32 :=
  (a + c, if a > 0xffffffff - c then b + 1 else b)

/-- {lit}`ROTRIGHT`. -/
def rotRight (a b : UInt32) : UInt32 :=
  (a >>> b) ||| (a <<< (32 - b))

/-- {lit}`CH`. -/
def chWord (x y z : UInt32) : UInt32 :=
  (x &&& y) ^^^ (~~~x &&& z)

/-- {lit}`MAJ`. -/
def majWord (x y z : UInt32) : UInt32 :=
  (x &&& y) ^^^ (x &&& z) ^^^ (y &&& z)

/-- {lit}`EP0`. -/
def ep0 (x : UInt32) : UInt32 :=
  rotRight x 2 ^^^ rotRight x 13 ^^^ rotRight x 22

/-- {lit}`EP1`. -/
def ep1 (x : UInt32) : UInt32 :=
  rotRight x 6 ^^^ rotRight x 11 ^^^ rotRight x 25

/-- {lit}`SIG0`. -/
def sig0 (x : UInt32) : UInt32 :=
  rotRight x 7 ^^^ rotRight x 18 ^^^ (x >>> 3)

/-- {lit}`SIG1`. -/
def sig1 (x : UInt32) : UInt32 :=
  rotRight x 17 ^^^ rotRight x 19 ^^^ (x >>> 10)

/-- {lit}`SHA256_CTX`, with the words of {lit}`state` by their order. -/
structure Sha256Ctx where
  data : List UInt8
  datalen : Nat
  bitlen : UInt32 × UInt32
  state : Sha256.Words
deriving DecidableEq, Repr

/-- The table {lit}`k`. -/
def sha256K : List UInt32 :=
  [0x428a2f98, 0x71374491, 0xb5c0fbcf, 0xe9b5dba5, 0x3956c25b, 0x59f111f1, 0x923f82a4, 0xab1c5ed5,
   0xd807aa98, 0x12835b01, 0x243185be, 0x550c7dc3, 0x72be5d74, 0x80deb1fe, 0x9bdc06a7, 0xc19bf174,
   0xe49b69c1, 0xefbe4786, 0x0fc19dc6, 0x240ca1cc, 0x2de92c6f, 0x4a7484aa, 0x5cb0a9dc, 0x76f988da,
   0x983e5152, 0xa831c66d, 0xb00327c8, 0xbf597fc7, 0xc6e00bf3, 0xd5a79147, 0x06ca6351, 0x14292967,
   0x27b70a85, 0x2e1b2138, 0x4d2c6dfc, 0x53380d13, 0x650a7354, 0x766a0abb, 0x81c2c92e, 0x92722c85,
   0xa2bfe8a1, 0xa81a664b, 0xc24b8b70, 0xc76c51a3, 0xd192e819, 0xd6990624, 0xf40e3585, 0x106aa070,
   0x19a4c116, 0x1e376c08, 0x2748774c, 0x34b0bcb5, 0x391c0cb3, 0x4ed8aa4a, 0x5b9cca4f, 0x682e6ff3,
   0x748f82ee, 0x78a5636f, 0x84c87814, 0x8cc70208, 0x90befffa, 0xa4506ceb, 0xbef9a3f7, 0xc67178f2]

/-- {lit}`sha256_init`; the buffer keeps what was in it. -/
def sha256Init (ctx : Sha256Ctx) : Sha256Ctx where
  data := ctx.data
  datalen := 0
  bitlen := (0, 0)
  state := {
    a := 0x6a09e667
    b := 0xbb67ae85
    c := 0x3c6ef372
    d := 0xa54ff53a
    e := 0x510e527f
    f := 0x9b05688c
    g := 0x1f83d9ab
    h := 0x5be0cd19 }

/-- A word of the data in {lit}`sha256_transform`. -/
def dataWord (data : List UInt8) (j : Nat) : UInt32 :=
  ((data.getD j 0).toUInt32 <<< 24) ||| ((data.getD (j + 1) 0).toUInt32 <<< 16) |||
    ((data.getD (j + 2) 0).toUInt32 <<< 8) ||| (data.getD (j + 3) 0).toUInt32

/-- One turn of the second loop of {lit}`sha256_transform`, which sets {lit}`m[i]`. -/
def scheduleStep (m : List UInt32) (i : Nat) : List UInt32 :=
  m ++ [sig1 (m.getD (i - 2) 0) + m.getD (i - 7) 0 + sig0 (m.getD (i - 15) 0) +
    m.getD (i - 16) 0]

/-- The array {lit}`m` of {lit}`sha256_transform`. -/
def messageWords (data : List UInt8) : List UInt32 :=
  (List.range' 16 48).foldl scheduleStep ((List.range 16).map fun i => dataWord data (4 * i))

/-- One turn of the third loop of {lit}`sha256_transform`. -/
def sha256Round (m : List UInt32) (v : Sha256.Words) (i : Nat) : Sha256.Words :=
  let t1 := v.h + ep1 v.e + chWord v.e v.f v.g + sha256K.getD i 0 + m.getD i 0
  let t2 := ep0 v.a + majWord v.a v.b v.c
  { h := v.g, g := v.f, f := v.e, e := v.d + t1, d := v.c, c := v.b, b := v.a, a := t1 + t2 }

/-- {lit}`sha256_transform`. -/
def sha256Transform (ctx : Sha256Ctx) (data : List UInt8) : Sha256Ctx :=
  let v := (List.range 64).foldl (sha256Round (messageWords data)) ctx.state
  { ctx with state := {
      a := ctx.state.a + v.a
      b := ctx.state.b + v.b
      c := ctx.state.c + v.c
      d := ctx.state.d + v.d
      e := ctx.state.e + v.e
      f := ctx.state.f + v.f
      g := ctx.state.g + v.g
      h := ctx.state.h + v.h } }

/-- One turn of the loop of {lit}`sha256_update`. -/
def sha256UpdateByte (ctx : Sha256Ctx) (b : UInt8) : Sha256Ctx :=
  let ctx := { ctx with data := ctx.data.set ctx.datalen b, datalen := ctx.datalen + 1 }
  if ctx.datalen = 64 then
    let ctx := sha256Transform ctx ctx.data
    { ctx with bitlen := dblIntAdd ctx.bitlen.1 ctx.bitlen.2 512, datalen := 0 }
  else
    ctx

/-- {lit}`sha256_update`. -/
def sha256Update (ctx : Sha256Ctx) (data : List UInt8) (len : UInt32) : Sha256Ctx :=
  (data.take len.toNat).foldl sha256UpdateByte ctx

/-- {lit}`while (i < stop) ctx->data[i++] = 0x00;`. -/
def zeroFill (data : List UInt8) (i stop : Nat) : List UInt8 :=
  (List.range' i (stop - i)).foldl (fun data j => data.set j 0) data

/-- The first half of {lit}`sha256_final`: fill up the buffer. -/
def sha256PadData (ctx : Sha256Ctx) : Sha256Ctx :=
  let data := ctx.data.set ctx.datalen 0x80
  if ctx.datalen < 56 then
    { ctx with data := zeroFill data (ctx.datalen + 1) 56 }
  else
    let ctx := { ctx with data := zeroFill data (ctx.datalen + 1) 64 }
    let ctx := sha256Transform ctx ctx.data
    { ctx with data := List.replicate 56 0 ++ ctx.data.drop 56 }

/-- The second half of {lit}`sha256_final`: append the length and transform. -/
def sha256AppendLength (ctx : Sha256Ctx) : Sha256Ctx :=
  let bitlen := dblIntAdd ctx.bitlen.1 ctx.bitlen.2 (UInt32.ofNat (ctx.datalen * 8))
  let data := ctx.data.set 63 bitlen.1.toUInt8
  let data := data.set 62 (bitlen.1 >>> 8).toUInt8
  let data := data.set 61 (bitlen.1 >>> 16).toUInt8
  let data := data.set 60 (bitlen.1 >>> 24).toUInt8
  let data := data.set 59 bitlen.2.toUInt8
  let data := data.set 58 (bitlen.2 >>> 8).toUInt8
  let data := data.set 57 (bitlen.2 >>> 16).toUInt8
  let data := data.set 56 (bitlen.2 >>> 24).toUInt8
  sha256Transform { ctx with bitlen := bitlen, data := data } data

/-- {lit}`(word >> (24-i*8)) & 0x000000ff`. -/
def hashByte (word : UInt32) (i : Nat) : UInt8 :=
  ((word >>> UInt32.ofNat (24 - i * 8)) &&& 0x000000ff).toUInt8

/-- One turn of the last loop of {lit}`sha256_final`. -/
def storeHashStep (state : Sha256.Words) (hash : List UInt8) (i : Nat) : List UInt8 :=
  let hash := hash.set i (hashByte state.a i)
  let hash := hash.set (i + 4) (hashByte state.b i)
  let hash := hash.set (i + 8) (hashByte state.c i)
  let hash := hash.set (i + 12) (hashByte state.d i)
  let hash := hash.set (i + 16) (hashByte state.e i)
  let hash := hash.set (i + 20) (hashByte state.f i)
  let hash := hash.set (i + 24) (hashByte state.g i)
  hash.set (i + 28) (hashByte state.h i)

/-- {lit}`sha256_final`: what it leaves in {lit}`hash`. -/
def sha256Final (ctx : Sha256Ctx) (hash : List UInt8) : List UInt8 :=
  let ctx := sha256AppendLength (sha256PadData ctx)
  (List.range 4).foldl (storeHashStep ctx.state) hash

/-- {lit}`strlen`. -/
def strlenBytes (buf : List UInt8) : Nat :=
  (buf.takeWhile (· ≠ 0)).length

/-- {lit}`getExpectedContext_SHA256` with the uninitialised {lit}`context`: what it leaves in
{lit}`expected`.  The length of the string is passed as a {lit}`uint`. -/
def getExpectedContextSHA256 (context : Sha256Ctx) (input expected : Option (List UInt8)) :
    Option (List UInt8) :=
  match input, expected with
  | some input, some expected =>
      let context := sha256Init context
      let context := sha256Update context input (UInt32.ofNat (strlenBytes input))
      some (sha256Final context expected)
  | _, expected => expected

/-! ## The transformation -/

/-- Four bytes shifted together make the word of the standard. -/
theorem shiftedWord_eq (b0 b1 b2 b3 : UInt8) :
    (b0.toUInt32 <<< 24) ||| (b1.toUInt32 <<< 16) ||| (b2.toUInt32 <<< 8) ||| b3.toUInt32 =
      Sha256.beWord [b0, b1, b2, b3] := by
  have h0 := b0.toNat_lt
  have h1 := b1.toNat_lt
  have h2 := b2.toNat_lt
  have h3 := b3.toNat_lt
  apply UInt32.toNat_inj.mp
  have hs0 : b0.toNat <<< 24 % 2 ^ 32 = (b0.toNat <<< 8) <<< 16 := by
    rw [Nat.shiftLeft_eq, Nat.shiftLeft_eq, Nat.shiftLeft_eq]
    omega
  have hs1 : b1.toNat <<< 16 % 2 ^ 32 = b1.toNat <<< 16 := by
    rw [Nat.shiftLeft_eq]
    omega
  have hs2 : b2.toNat <<< 8 % 2 ^ 32 = b2.toNat <<< 8 := by
    rw [Nat.shiftLeft_eq]
    omega
  have h01 : (b0.toNat <<< 8) <<< 16 ||| b1.toNat <<< 16 =
      (b0.toNat <<< 8 + b1.toNat) <<< 16 := by
    rw [← Nat.shiftLeft_or_distrib, Nat.shiftLeft_add_eq_or_of_lt h1]
  have h012 : (b0.toNat <<< 8 + b1.toNat) <<< 16 ||| b2.toNat <<< 8 =
      ((b0.toNat <<< 8 + b1.toNat) <<< 8 + b2.toNat) <<< 8 := by
    rw [show 16 = 8 + 8 from rfl, Nat.shiftLeft_add, ← Nat.shiftLeft_or_distrib,
      Nat.shiftLeft_add_eq_or_of_lt h2]
  simp only [Sha256.beWord, List.reverse_cons, List.reverse_nil, List.nil_append,
    List.cons_append, leNat, UInt32.toNat_or, UInt32.toNat_shiftLeft, UInt8.toNat_toUInt32,
    UInt32.toNat_ofNat']
  simp only [UInt32.reduceToNat, Nat.reduceMod, hs0, hs1, hs2, h01, h012]
  rw [← Nat.shiftLeft_add_eq_or_of_lt h3]
  simp only [Nat.shiftLeft_eq]
  omega

/-- A word of a block. -/
theorem dataWord_eq {data : List UInt8} {j : Nat} (h : j + 4 ≤ data.length) :
    dataWord data j = Sha256.beWord (readAt data j 4) := by
  have hread : readAt data j 4 =
      [data.getD j 0, data.getD (j + 1) 0, data.getD (j + 2) 0, data.getD (j + 3) 0] :=
    readAt_eq_map_getD h 0
  rw [dataWord, shiftedWord_eq, hread]

/-- The macros are the functions of the standard. -/
theorem sig0_eq : sig0 = Sha256.smallSigma0 := rfl

theorem sig1_eq : sig1 = Sha256.smallSigma1 := rfl

/-- One turn of the loop continues the schedule. -/
theorem scheduleStep_eq (data : List UInt8) {i : Nat} (hi : 16 ≤ i) :
    scheduleStep ((List.range i).map (Sha256.schedule data)) i =
      (List.range (i + 1)).map (Sha256.schedule data) := by
  have hget : ∀ j, 0 < j → j ≤ 16 →
      ((List.range i).map (Sha256.schedule data)).getD (i - j) 0 =
        Sha256.schedule data (i - j) := by
    intro j hj hle
    rw [List.getD_eq_getElem _ _ (by simp; omega)]
    simp
  rw [scheduleStep, hget 2 (by omega) (by omega), hget 7 (by omega) (by omega),
    hget 15 (by omega) (by omega), hget 16 (by omega) (by omega), List.range_succ,
    List.map_append, List.map_singleton]
  congr 2
  rw [Sha256.schedule.eq_def data i, if_neg (by omega), sig0_eq, sig1_eq]

/-- The array holds the message schedule. -/
theorem messageWords_eq {data : List UInt8} (h : data.length = 64) :
    messageWords data = (List.range 64).map (Sha256.schedule data) := by
  have hfirst : (List.range 16).map (fun i => dataWord data (4 * i)) =
      (List.range 16).map (Sha256.schedule data) := by
    apply List.map_congr_left
    intro i hi
    have hi16 : i < 16 := List.mem_range.mp hi
    rw [dataWord_eq (by omega), Sha256.schedule.eq_def data i, if_pos hi16]
  have hloop : ∀ n, (List.range' 16 n).foldl scheduleStep
      ((List.range 16).map (Sha256.schedule data)) =
        (List.range (16 + n)).map (Sha256.schedule data) := by
    intro n
    induction n with
    | zero => rfl
    | succ n ih =>
        rw [List.range'_concat, List.foldl_append, ih, Nat.one_mul]
        exact scheduleStep_eq data (by omega)
  rw [messageWords, hfirst, hloop 48]

/-- The table holds the constants of the standard. -/
theorem sha256K_eq : sha256K = (List.range 64).map Sha256.roundConstant := by
  decide +kernel

/-- The table holds the bits of cube roots. -/
theorem sha256K_root {t : Nat} (ht : t < 64) :
    ∃ r, r ^ 3 ≤ Sha256.primes.getD t 0 * 2 ^ 96 ∧ Sha256.primes.getD t 0 * 2 ^ 96 < (r + 1) ^ 3 ∧
      sha256K.getD t 0 = UInt32.ofNat r := by
  have hsmall : Sha256.primes.getD t 0 < 312 := by
    rcases Nat.lt_or_ge t Sha256.primes.length with hlt | hge
    · rw [List.getD_eq_getElem _ _ hlt]
      exact List.mem_range.mp (List.mem_filter.mp (List.getElem_mem hlt)).1
    · rw [List.getD_eq_default _ _ hge]
      omega
  have hhi : Sha256.primes.getD t 0 * 2 ^ 96 < (0 + 2 ^ 40) ^ 3 := by omega
  have hroot := Sha256.rootBits_spec 40 0 (Nat.zero_le _) hhi
  refine ⟨_, hroot.1, hroot.2, ?_⟩
  rw [sha256K_eq, List.getD_eq_getElem _ _ (by simpa using ht), List.getElem_map,
    List.getElem_range]
  rfl

/-- One turn of the third loop is a round of the standard. -/
theorem sha256Round_eq {data : List UInt8} (h : data.length = 64) (v : Sha256.Words) {i : Nat}
    (hi : i < 64) : sha256Round (messageWords data) v i = Sha256.round data v i := by
  have hk : sha256K.getD i 0 = Sha256.roundConstant i := by
    rw [sha256K_eq, List.getD_eq_getElem _ _ (by simpa using hi)]
    simp
  have hm : (messageWords data).getD i 0 = Sha256.schedule data i := by
    rw [messageWords_eq h, List.getD_eq_getElem _ _ (by simpa using hi)]
    simp
  rw [sha256Round, hk, hm]
  rfl

/-- The transformation of a block is the compression of the standard. -/
theorem transform_state (ctx : Sha256Ctx) {data : List UInt8} (h : data.length = 64) :
    (sha256Transform ctx data).state = Sha256.compress ctx.state data := by
  have hrounds : (List.range 64).foldl (sha256Round (messageWords data)) ctx.state =
      (List.range 64).foldl (Sha256.round data) ctx.state := by
    apply List.foldl_ext
    intro v i hi
    exact sha256Round_eq h v (List.mem_range.mp hi)
  simp only [sha256Transform, hrounds]
  rfl

/-- The words that {lit}`sha256_init` stores are those of the standard. -/
theorem init_state (ctx : Sha256Ctx) : (sha256Init ctx).state = Sha256.initialHash := by
  have hwords : Sha256.Words.mk 0x6a09e667 0xbb67ae85 0x3c6ef372 0xa54ff53a 0x510e527f 0x9b05688c
      0x1f83d9ab 0x5be0cd19 = Sha256.initialHash := by
    decide +kernel
  exact hwords

/-! ## The stream of a context -/

/-- The 64-bit number of two words, the low word first. -/
def pairValue (p : UInt32 × UInt32) : Nat :=
  p.1.toNat + 2 ^ 32 * p.2.toNat

/-- The macro adds with carry. -/
theorem pairValue_dblIntAdd (a b c : UInt32) :
    pairValue (dblIntAdd a b c) = (pairValue (a, b) + c.toNat) % 2 ^ 64 := by
  have ha := a.toNat_lt
  have hb := b.toNat_lt
  have hc := c.toNat_lt
  have hsub : (0xffffffff - c).toNat = 0xffffffff - c.toNat := by
    rw [UInt32.toNat_sub_of_le _ _ (UInt32.le_iff_toNat_le.mpr (Nat.le_of_lt_succ hc))]
    rfl
  have hcarry : a > 0xffffffff - c ↔ 2 ^ 32 ≤ a.toNat + c.toNat := by
    rw [gt_iff_lt, UInt32.lt_iff_toNat_lt, hsub]
    omega
  simp only [pairValue, dblIntAdd, hcarry, UInt32.toNat_add]
  split
  · rw [UInt32.toNat_add, show (1 : UInt32).toNat = 1 from rfl]
    omega
  · omega

/-- What a context keeps of the stream it was fed. -/
structure Streams (ctx : Sha256Ctx) (s : BlockStream UInt8 Sha256.Words) : Prop where
  length_data : ctx.data.length = 64
  datalen_eq : ctx.datalen = s.rest.length
  rest_lt : s.rest.length < 64
  take_data : ctx.data.take s.rest.length = s.rest
  bitlen_eq : pairValue ctx.bitlen = 512 * s.blocks % 2 ^ 64
  state_eq : ctx.state = s.state

theorem streams_init {ctx : Sha256Ctx} (h : ctx.data.length = 64) :
    Streams (sha256Init ctx) ⟨Sha256.initialHash, [], 0⟩ where
  length_data := h
  datalen_eq := rfl
  rest_lt := by simp
  take_data := by simp
  bitlen_eq := rfl
  state_eq := init_state ctx

/-- One element behind the buffered ones. -/
theorem take_succ_set {α : Type} {l : List α} {n : Nat} (h : n < l.length) (b : α) :
    (l.set n b).take (n + 1) = l.take n ++ [b] := by
  rw [List.take_succ_eq_append_getElem (by simpa using h), List.take_set_of_le (Nat.le_refl n),
    List.getElem_set_self]

/-- A context takes a byte as the stream does. -/
theorem Streams.updateByte {ctx : Sha256Ctx} {s : BlockStream UInt8 Sha256.Words}
    (h : Streams ctx s) (b : UInt8) :
    Streams (sha256UpdateByte ctx b) (s.feed 64 Sha256.compress b) := by
  have hbuf : (ctx.data.set ctx.datalen b).take (s.rest.length + 1) = s.rest ++ [b] := by
    rw [h.datalen_eq, take_succ_set (by rw [h.length_data]; exact h.rest_lt), h.take_data]
  have hlen : (ctx.data.set ctx.datalen b).length = 64 := by
    rw [List.length_set, h.length_data]
  have hrest := h.rest_lt
  rw [sha256UpdateByte, BlockStream.feed, h.datalen_eq]
  rw [h.datalen_eq] at hbuf hlen
  split
  · rename_i hcount
    have hfull : s.rest.length + 1 = 64 := hcount
    -- the buffer is full and becomes the next block
    have hblock : ctx.data.set s.rest.length b = s.rest ++ [b] := by
      rw [← hbuf, hfull, ← hlen, List.take_length]
    exact {
      length_data := hlen
      datalen_eq := rfl
      rest_lt := by simp
      take_data := by simp
      bitlen_eq := by
        have hadd := pairValue_dblIntAdd ctx.bitlen.1 ctx.bitlen.2 512
        rw [h.bitlen_eq] at hadd
        rw [show (512 : UInt32).toNat = 512 from rfl] at hadd
        simp only [sha256Transform, hadd]
        omega
      state_eq := by
        simp only
        rw [transform_state _ hlen, h.state_eq, hblock] }
  · rename_i hcount
    have hpart : s.rest.length + 1 ≠ 64 := hcount
    exact {
      length_data := hlen
      datalen_eq := by simp
      rest_lt := by
        simp only [List.length_append, List.length_singleton]
        omega
      take_data := by simpa using hbuf
      bitlen_eq := h.bitlen_eq
      state_eq := h.state_eq }

/-- A context takes bytes as the stream does. -/
theorem Streams.foldl {ctx : Sha256Ctx} {s : BlockStream UInt8 Sha256.Words} (h : Streams ctx s)
    (bytes : List UInt8) :
    Streams (bytes.foldl sha256UpdateByte ctx)
      (bytes.foldl (BlockStream.feed 64 Sha256.compress) s) := by
  induction bytes generalizing ctx s with
  | nil => exact h
  | cons b bytes ih => exact ih (h.updateByte b)

/-- A context that was fed a message. -/
theorem streams_absorbed {ctx : Sha256Ctx} (h : ctx.data.length = 64) (msg : List UInt8) :
    Streams (msg.foldl sha256UpdateByte (sha256Init ctx))
      (absorbed 64 Sha256.compress Sha256.initialHash msg) := by
  rw [← foldl_feed Sha256.compress (by omega)]
  exact (streams_init h).foldl msg

/-! ## The padding -/

/-- A range of zeros. -/
theorem zeroFill_eq {data : List UInt8} {i stop : Nat} (hi : i ≤ stop)
    (hstop : stop ≤ data.length) :
    zeroFill data i stop = data.take i ++ List.replicate (stop - i) 0 ++ data.drop stop := by
  have hloop : ∀ n, i + n ≤ data.length →
      (List.range' i n).foldl (fun data j => data.set j 0) data =
        data.take i ++ List.replicate n 0 ++ data.drop (i + n) := by
    intro n
    induction n with
    | zero => simp
    | succ n ih =>
        intro hn
        have hfront : (data.take i ++ List.replicate n 0).length = i + n := by
          simp only [List.length_append, List.length_take, List.length_replicate]
          omega
        rw [List.range'_concat, List.foldl_append, ih (by omega), List.foldl_cons, List.foldl_nil,
          Nat.one_mul, List.set_append_right _ _ (by omega), hfront, Nat.sub_self,
          List.drop_eq_getElem_cons (by omega : i + n < data.length), List.set_cons_zero,
          List.replicate_succ', List.append_assoc, List.append_assoc, List.append_assoc,
          List.singleton_append]
        rfl
  rw [zeroFill, hloop (stop - i) (by omega), Nat.add_sub_cancel' hi]

/-- A list of a known length by its elements. -/
theorem exists_ofFn {α : Type} {n : Nat} {l : List α} (h : l.length = n) :
    ∃ f : Fin n → α, l = List.ofFn f := by
  subst h
  exact ⟨l.get, (List.ofFn_get l).symm⟩

/-- The four bytes of a word that are stored from the back. -/
theorem beBytes_word (w : UInt32) :
    Sha256.beBytes 4 w.toNat =
      [(w >>> 24).toUInt8, (w >>> 16).toUInt8, (w >>> 8).toUInt8, w.toUInt8] := by
  have hbyte : ∀ n : Nat, n < 32 →
      (w >>> UInt32.ofNat n).toUInt8 = UInt8.ofNat (w.toNat / 2 ^ n) := by
    intro n hn
    apply UInt8.toNat_inj.mp
    rw [UInt32.toNat_toUInt8, UInt32.toNat_shiftRight, UInt32.toNat_ofNat_of_lt' (by
      simp only [UInt32.size]; omega), Nat.mod_eq_of_lt hn, Nat.shiftRight_eq_div_pow,
      UInt8.toNat_ofNat']
  have h0 : w.toUInt8 = UInt8.ofNat w.toNat := by
    apply UInt8.toNat_inj.mp
    rw [UInt32.toNat_toUInt8, UInt8.toNat_ofNat']
  have h8 := hbyte 8 (by omega)
  have h16 := hbyte 16 (by omega)
  have h24 := hbyte 24 (by omega)
  simp only [Sha256.beBytes, leBytes, List.reverse_cons, List.reverse_nil, List.nil_append,
    List.cons_append, Nat.div_div_eq_div_mul]
  rw [h0]
  exact congrArg₂ _ h24.symm (congrArg₂ _ h16.symm (congrArg₂ _ h8.symm rfl))

/-- The eight bytes of a number of two words. -/
theorem beBytes_pairValue (p : UInt32 × UInt32) :
    Sha256.beBytes 8 (pairValue p) = Sha256.beBytes 4 p.2.toNat ++ Sha256.beBytes 4 p.1.toNat := by
  have hlt := p.1.toNat_lt
  have hsplit : leBytes 8 (pairValue p) = leBytes 4 p.1.toNat ++ leBytes 4 p.2.toNat := by
    have hlow : leBytes 4 (pairValue p) = leBytes 4 p.1.toNat := by
      rw [← leBytes_mod 4 (pairValue p), pairValue]
      congr 1
      omega
    have hhigh : pairValue p / 256 / 256 / 256 / 256 = p.2.toNat := by
      rw [pairValue]
      omega
    simp only [leBytes, List.cons.injEq, hhigh] at hlow ⊢
    simp [hlow]
  rw [Sha256.beBytes, hsplit, List.reverse_append]
  rfl

/-- The buffered bytes, the end bit and zeros up to {lit}`stop`. -/
theorem zeroFill_pad {ctx : Sha256Ctx} {s : BlockStream UInt8 Sha256.Words} (h : Streams ctx s)
    {stop : Nat} (hlo : s.rest.length < stop) (hhi : stop ≤ 64) :
    zeroFill (ctx.data.set ctx.datalen 0x80) (ctx.datalen + 1) stop =
      (s.rest ++ 0x80 :: List.replicate (stop - 1 - s.rest.length) 0) ++ ctx.data.drop stop := by
  have hlen := h.length_data
  rw [h.datalen_eq, zeroFill_eq (by omega) (by rw [List.length_set]; omega),
    take_succ_set (by omega), h.take_data, List.drop_set_of_lt (by omega)]
  simp only [List.append_assoc, List.nil_append, List.cons_append]
  rw [show stop - (s.rest.length + 1) = stop - 1 - s.rest.length by omega]

/-- The length is appended to the first fifty-six bytes of the buffer. -/
theorem appendLength_state {ctx : Sha256Ctx} (h : ctx.data.length = 64) :
    (sha256AppendLength ctx).state =
      Sha256.compress ctx.state (ctx.data.take 56 ++ Sha256.beBytes 8
        ((pairValue ctx.bitlen + (UInt32.ofNat (ctx.datalen * 8)).toNat) % 2 ^ 64)) := by
  have hset : ∀ b0 b1 b2 b3 b4 b5 b6 b7 : UInt8,
      (((((((ctx.data.set 63 b7).set 62 b6).set 61 b5).set 60 b4).set 59 b3).set 58 b2).set 57
        b1).set 56 b0 = ctx.data.take 56 ++ [b0, b1, b2, b3, b4, b5, b6, b7] := by
    obtain ⟨f, hf⟩ := exists_ofFn h
    rw [hf]
    intros
    rfl
  have hvalue := pairValue_dblIntAdd ctx.bitlen.1 ctx.bitlen.2 (UInt32.ofNat (ctx.datalen * 8))
  simp only [sha256AppendLength]
  rw [transform_state _ (by simpa using h), hset, ← hvalue, beBytes_pairValue, beBytes_word,
    beBytes_word]
  rfl

/-- The bit length that is appended. -/
theorem bitLength_eq {ctx : Sha256Ctx} {msg : List UInt8}
    (h : Streams ctx (absorbed 64 Sha256.compress Sha256.initialHash msg))
    (hlen : msg.length < 2 ^ 61) :
    (pairValue ctx.bitlen + (UInt32.ofNat (ctx.datalen * 8)).toNat) % 2 ^ 64 =
      8 * msg.length := by
  have hrest := h.rest_lt
  rw [h.bitlen_eq, h.datalen_eq, UInt32.toNat_ofNat_of_lt' (by simp only [UInt32.size]; omega),
    length_absorbed_rest]
  simp only [absorbed]
  omega

/-- The padding fits into the block. -/
theorem padData_short {ctx : Sha256Ctx} {s : BlockStream UInt8 Sha256.Words} (h : Streams ctx s)
    (h56 : s.rest.length < 56) :
    sha256PadData ctx =
      { ctx with data := (s.rest ++ 0x80 :: List.replicate (55 - s.rest.length) 0) ++
          ctx.data.drop 56 } := by
  have hif : ctx.datalen < 56 := by
    rw [h.datalen_eq]
    exact h56
  simp only [sha256PadData]
  rw [if_pos hif, zeroFill_pad h h56 (by omega)]

/-- The padding needs one more block. -/
theorem padData_long {ctx : Sha256Ctx} {s : BlockStream UInt8 Sha256.Words} (h : Streams ctx s)
    (h56 : ¬ s.rest.length < 56) :
    (sha256PadData ctx).state =
        Sha256.compress s.state (s.rest ++ 0x80 :: List.replicate (63 - s.rest.length) 0) ∧
      (sha256PadData ctx).data.length = 64 ∧
      (sha256PadData ctx).data.take 56 = List.replicate 56 0 ∧
      (sha256PadData ctx).datalen = ctx.datalen ∧ (sha256PadData ctx).bitlen = ctx.bitlen := by
  have hlt := h.rest_lt
  have hif : ¬ ctx.datalen < 56 := by
    rw [h.datalen_eq]
    exact h56
  have hblock : zeroFill (ctx.data.set ctx.datalen 0x80) (ctx.datalen + 1) 64 =
      s.rest ++ 0x80 :: List.replicate (63 - s.rest.length) 0 := by
    rw [zeroFill_pad h hlt (le_refl 64), List.drop_of_length_le (le_of_eq h.length_data),
      List.append_nil]
  have hlen : (s.rest ++ 0x80 :: List.replicate (63 - s.rest.length) (0 : UInt8)).length = 64 := by
    simp only [List.length_append, List.length_cons, List.length_replicate]
    omega
  simp only [sha256PadData]
  rw [if_neg hif, hblock]
  refine ⟨?_, ?_, ?_, rfl, rfl⟩
  · simp only
    rw [transform_state _ hlen]
    simp only [h.state_eq]
  · simp only [sha256Transform, List.length_append, List.length_replicate, List.length_drop,
      List.length_cons]
    omega
  · exact List.take_left' List.length_replicate

/-- The two ways of padding leave the state of the padded message. -/
theorem final_state {ctx : Sha256Ctx} {msg : List UInt8}
    (h : Streams ctx (absorbed 64 Sha256.compress Sha256.initialHash msg))
    (hlen : msg.length < 2 ^ 61) :
    (sha256AppendLength (sha256PadData ctx)).state = Sha256.hash msg := by
  have hbits := bitLength_eq h hlen
  have hlt := h.rest_lt
  have hrest := length_absorbed_rest 64 Sha256.compress Sha256.initialHash msg
  rw [Sha256.hash_eq, ← hrest, Sha256.padding, Sha256.zeroCount, ← hrest]
  generalize absorbed 64 Sha256.compress Sha256.initialHash msg = s at h hlt
  by_cases h56 : s.rest.length < 56
  · have hfront : (s.rest ++ 0x80 :: List.replicate (55 - s.rest.length) (0 : UInt8)).length =
        56 := by
      simp only [List.length_append, List.length_cons, List.length_replicate]
      omega
    have hpad := padData_short h h56
    rw [if_pos h56, show (119 - s.rest.length) % 64 = 55 - s.rest.length by omega,
      foldBlocks_succ, foldBlocks_zero, hpad, appendLength_state]
    · simp only [hbits, h.state_eq, List.take_left' hfront]
      rw [List.take_of_length_le]
      · rw [List.append_assoc]
      · simp only [List.length_append, List.length_cons, List.length_replicate,
          Sha256.length_beBytes]
        omega
    · simp only
      rw [List.length_append, hfront, List.length_drop, h.length_data]
  · have hfront : (s.rest ++ 0x80 :: List.replicate (63 - s.rest.length) (0 : UInt8)).length =
        64 := by
      simp only [List.length_append, List.length_cons, List.length_replicate]
      omega
    have hzeros : List.replicate (119 - s.rest.length) (0 : UInt8) =
        List.replicate (63 - s.rest.length) 0 ++ List.replicate 56 0 := by
      rw [List.replicate_append_replicate]
      congr 1
      omega
    have hblocks : s.rest ++ (0x80 :: List.replicate (119 - s.rest.length) 0 ++
          Sha256.beBytes 8 (8 * msg.length)) =
        (s.rest ++ 0x80 :: List.replicate (63 - s.rest.length) 0) ++
          (List.replicate 56 0 ++ Sha256.beBytes 8 (8 * msg.length)) := by
      simp only [hzeros, List.append_assoc, List.cons_append]
    obtain ⟨hstate, hlen64, htake, hdatalen, hbitlen⟩ := padData_long h h56
    rw [if_neg h56, Nat.mod_eq_of_lt (by omega : 119 - s.rest.length < 64), hblocks,
      foldBlocks_succ, foldBlocks_succ, foldBlocks_zero, List.take_left' hfront,
      List.drop_left' hfront, appendLength_state hlen64, htake, hstate, hdatalen, hbitlen, hbits,
      List.take_of_length_le (by simp)]

/-- A byte of a word in the digest. -/
theorem hashBytes_eq (w : UInt32) :
    [hashByte w 0, hashByte w 1, hashByte w 2, hashByte w 3] = Sha256.beBytes 4 w.toNat := by
  have hmask : ∀ x : UInt32, (x &&& 0x000000ff).toUInt8 = x.toUInt8 := by
    intro x
    apply UInt8.toNat_inj.mp
    rw [UInt32.toNat_toUInt8, UInt32.toNat_toUInt8, UInt32.toNat_and,
      show (0x000000ff : UInt32).toNat = 2 ^ 8 - 1 from rfl, Nat.and_two_pow_sub_one_eq_mod,
      Nat.mod_mod]
  have h0 : w >>> UInt32.ofNat (24 - 3 * 8) = w := by
    apply UInt32.toNat_inj.mp
    simp
  rw [beBytes_word]
  simp only [hashByte, hmask, h0]
  rfl

/-- The stored bytes are those of the words in their order. -/
theorem storeHash_eq (state : Sha256.Words) {hash : List UInt8} (h : hash.length = 32) :
    (List.range 4).foldl (storeHashStep state) hash = state.bytes := by
  have hbytes : state.bytes = [state.a, state.b, state.c, state.d, state.e, state.f, state.g,
      state.h].flatMap fun w => [hashByte w 0, hashByte w 1, hashByte w 2, hashByte w 3] := by
    simp only [hashBytes_eq, Sha256.Words.bytes]
  obtain ⟨f, hf⟩ := exists_ofFn h
  rw [hbytes, hf]
  simp [List.ofFn_succ, storeHashStep, List.range_succ]

/-- The digest of a context that was fed a message. -/
theorem final_eq {ctx : Sha256Ctx} {msg hash : List UInt8}
    (h : Streams ctx (absorbed 64 Sha256.compress Sha256.initialHash msg))
    (hlen : msg.length < 2 ^ 61) (hhash : hash.length = 32) :
    sha256Final ctx hash = Sha256.digest msg := by
  simp only [sha256Final]
  rw [storeHash_eq _ hhash, final_state h hlen, Sha256.digest]

/-! ## Parts of a message -/

/-- {lit}`sha256_update` for each part of a message. -/
def sha256UpdateParts (ctx : Sha256Ctx) (parts : List (List UInt8)) : Sha256Ctx :=
  parts.foldl (fun ctx part => sha256Update ctx part (UInt32.ofNat part.length)) ctx

/-- A part whose length is a {lit}`uint` is taken whole. -/
theorem update_whole (ctx : Sha256Ctx) {part : List UInt8} (h : part.length < 2 ^ 32) :
    sha256Update ctx part (UInt32.ofNat part.length) = part.foldl sha256UpdateByte ctx := by
  rw [sha256Update, UInt32.toNat_ofNat_of_lt' h, List.take_length]

/-- Parts are taken as the message they make up. -/
theorem updateParts_eq {parts : List (List UInt8)} (h : ∀ part ∈ parts, part.length < 2 ^ 32)
    (ctx : Sha256Ctx) :
    sha256UpdateParts ctx parts = parts.flatten.foldl sha256UpdateByte ctx := by
  induction parts generalizing ctx with
  | nil => rfl
  | cons part parts ih =>
      have hpart := h part List.mem_cons_self
      have hrest := ih (fun p hp => h p (List.mem_cons_of_mem _ hp))
      rw [List.flatten_cons, List.foldl_append, ← hrest, ← update_whole ctx hpart]
      rfl

/-- A message that is passed in parts of less than four gigabytes is hashed as the standard says. -/
theorem final_updates {ctx : Sha256Ctx} (hctx : ctx.data.length = 64)
    {parts : List (List UInt8)} (hparts : ∀ part ∈ parts, part.length < 2 ^ 32)
    (hlen : parts.flatten.length < 2 ^ 61) {hash : List UInt8} (hhash : hash.length = 32) :
    sha256Final (sha256UpdateParts (sha256Init ctx) parts) hash = Sha256.digest parts.flatten := by
  rw [updateParts_eq hparts]
  exact final_eq (streams_absorbed hctx _) hlen hhash

/-! ## Strings -/

/-- A string in memory: its bytes, the terminator, and what follows. -/
def stringAt (input after : List UInt8) : List UInt8 :=
  input ++ 0 :: after

theorem strlen_stringAt {input : List UInt8} (h : 0 ∉ input) (after : List UInt8) :
    strlenBytes (stringAt input after) = input.length := by
  have hne : ∀ b ∈ input, (decide (b ≠ 0)) = true := by
    intro b hb
    simpa using fun h0 : b = 0 => h (h0 ▸ hb)
  rw [strlenBytes, stringAt, List.takeWhile_append_of_pos hne, List.takeWhile_cons_of_neg (by simp),
    List.append_nil]

/-- What {lit}`sha256_update` takes of a string: its length is cut to a {lit}`uint`. -/
theorem update_stringAt (ctx : Sha256Ctx) (input after : List UInt8) :
    sha256Update ctx (stringAt input after) (UInt32.ofNat input.length) =
      (input.take (input.length % 2 ^ 32)).foldl sha256UpdateByte ctx := by
  rw [sha256Update, UInt32.toNat_ofNat', stringAt,
    List.take_append_of_le_length (Nat.mod_le _ _)]

/-- The digest that is written is that of a front of the string. -/
theorem getExpectedContext_take {ctx : Sha256Ctx} (hctx : ctx.data.length = 64)
    {input : List UInt8} (h0 : 0 ∉ input) (after : List UInt8) {expected : List UInt8}
    (hexpected : expected.length = 32) :
    getExpectedContextSHA256 ctx (some (stringAt input after)) (some expected) =
      some (Sha256.digest (input.take (input.length % 2 ^ 32))) := by
  have hlen : (input.take (input.length % 2 ^ 32)).length < 2 ^ 61 := by
    rw [List.length_take]
    omega
  simp only [getExpectedContextSHA256]
  rw [strlen_stringAt h0, update_stringAt, final_eq (streams_absorbed hctx _) hlen hexpected]

/-- The digest of the standard is written for the string, and the string may be passed to
{lit}`sha256_update` in any parts. -/
def HashesAsStandard (input : List UInt8) : Prop :=
  (∀ (ctx : Sha256Ctx) (after expected : List UInt8), ctx.data.length = 64 →
      expected.length = 32 →
      getExpectedContextSHA256 ctx (some (stringAt input after)) (some expected) =
        some (Sha256.digest input)) ∧
    ∀ (ctx : Sha256Ctx) (parts : List (List UInt8)), ctx.data.length = 64 → parts.flatten = input →
      sha256UpdateParts (sha256Init ctx) parts =
        sha256Update (sha256Init ctx) input (UInt32.ofNat input.length)

/-- The whole context differs from that of the front of a string of four gigabytes or more. -/
theorem bitlen_take_ne {ctx : Sha256Ctx} (hctx : ctx.data.length = 64) {input : List UInt8}
    (hlo : 2 ^ 32 ≤ input.length) (hhi : input.length < 2 ^ 61) :
    (input.foldl sha256UpdateByte (sha256Init ctx)).bitlen ≠
      ((input.take (input.length % 2 ^ 32)).foldl sha256UpdateByte (sha256Init ctx)).bitlen := by
  intro heq
  have hwhole := (streams_absorbed hctx input).bitlen_eq
  have hfront := (streams_absorbed hctx (input.take (input.length % 2 ^ 32))).bitlen_eq
  rw [heq, hfront] at hwhole
  simp only [absorbed, List.length_take] at hwhole
  omega

/-- A context before {lit}`sha256_init`. -/
def blankCtx : Sha256Ctx where
  data := List.replicate 64 0
  datalen := 0
  bitlen := (0, 0)
  state := Sha256.initialHash

/-- A string of four gigabytes or more is not hashed in one call as it is in parts. -/
theorem not_hashesAsStandard {input : List UInt8} (hlo : 2 ^ 32 ≤ input.length)
    (hhi : input.length < 2 ^ 61) : ¬ HashesAsStandard input := by
  rintro ⟨-, hparts⟩
  have hctx : blankCtx.data.length = 64 := List.length_replicate
  -- the bytes one by one against the string in one call
  have hbytes : ∀ part ∈ input.map ([·]), part.length < 2 ^ 32 := by
    intro part hpart
    obtain ⟨b, -, rfl⟩ := List.mem_map.mp hpart
    simp
  have hflat : (input.map ([·])).flatten = input := by
    rw [← List.flatMap_def, List.flatMap_singleton']
  have hone := hparts _ _ hctx hflat
  rw [updateParts_eq hbytes, hflat, sha256Update, UInt32.toNat_ofNat'] at hone
  exact bitlen_take_ne hctx hlo hhi (congrArg Sha256Ctx.bitlen hone)

/-- A string whose length is a {lit}`uint` is hashed as the standard says. -/
theorem hashesAsStandard_of_lt {input : List UInt8} (h0 : 0 ∉ input)
    (hlt : input.length < 2 ^ 32) : HashesAsStandard input := by
  refine ⟨?_, ?_⟩
  · intro ctx after expected hctx hexpected
    rw [getExpectedContext_take hctx h0 after hexpected, Nat.mod_eq_of_lt hlt, List.take_length]
  · intro ctx parts _ hflat
    have hsmall : ∀ part ∈ parts, part.length < 2 ^ 32 := by
      intro part hpart
      have hle := (List.sublist_flatten_of_mem hpart).length_le
      rw [hflat] at hle
      omega
    rw [updateParts_eq hsmall, update_whole _ hlt, hflat]

/-- The digest of the standard is written, and parts make no difference, exactly for the strings
whose length is a {lit}`uint`. -/
theorem hashesAsStandard_iff {input : List UInt8} (h0 : 0 ∉ input)
    (hlen : input.length < 2 ^ 61) : HashesAsStandard input ↔ input.length < 2 ^ 32 := by
  constructor
  · intro h
    by_contra hlo
    exact not_hashesAsStandard (Nat.le_of_not_lt hlo) hlen h
  · exact hashesAsStandard_of_lt h0

theorem hashesAsStandard_iff_abc : HashesAsStandard [97, 98, 99] ↔ 3 < 2 ^ 32 :=
  hashesAsStandard_iff (by decide) (by decide)

/-- The first string that is too long. -/
theorem four_gigabytes_not_hashed :
    0 ∉ List.replicate (2 ^ 32) (97 : UInt8) ∧
      (List.replicate (2 ^ 32) (97 : UInt8)).length < 2 ^ 61 ∧
      ¬ HashesAsStandard (List.replicate (2 ^ 32) 97) := by
  have hlen : (List.replicate (2 ^ 32) (97 : UInt8)).length = 2 ^ 32 := List.length_replicate
  refine ⟨?_, ?_, ?_⟩
  · intro hmem
    have h97 : (0 : UInt8) = 97 := List.eq_of_mem_replicate hmem
    exact absurd h97 (by decide)
  · rw [hlen]
    norm_num
  · exact not_hashesAsStandard hlen.ge (by rw [hlen]; norm_num)

example : getExpectedContextSHA256 blankCtx (some (stringAt [97, 98, 99] []))
    (some (List.replicate 32 0)) =
      some [0xba, 0x78, 0x16, 0xbf, 0x8f, 0x01, 0xcf, 0xea, 0x41, 0x41, 0x40, 0xde, 0x5d, 0xae,
        0x22, 0x23, 0xb0, 0x03, 0x61, 0xa3, 0x96, 0x17, 0x7a, 0x9c, 0xb4, 0x10, 0xff, 0x61, 0xf2,
        0x00, 0x15, 0xad] := by
  decide +kernel

end ZyUtil
end ZyxelRouter
