import Mathlib.Data.List.Basic
import Mathlib.Data.Nat.Basic
import Mathlib.Tactic.Ring
import Mathlib.Tactic.Linarith

/-!
# Byte buffers and little-endian words

The C code of the firmware moves data through flat byte buffers with
{lit}`memcpy`.  This module gives the two buffer operations, their read-after-write
laws, and the little-endian codec of fixed-width unsigned and two's complement
integers.

Main results:

- Theorems {lit}`readAt_writeAt_self` and {lit}`take_writeAt`: a copied range reads
  back, and everything below it is untouched.
- Theorem {lit}`leNat_leBytes`: decoding an encoded word gives its value modulo the
  width.
- Theorem {lit}`signedOf_wordOf`: two's complement values in range round-trip.
-/

namespace ZyxelRouter
namespace Lib

/-! ## Buffer ranges -/

section Buffer

variable {α : Type} {buf buf' data : List α} {pos off n k : Nat}

/-- The {lit}`n` elements of a buffer starting at {lit}`pos`. -/
def readAt (buf : List α) (pos n : Nat) : List α :=
  (buf.drop pos).take n

/-- Copy {lit}`data` into a buffer at {lit}`pos`, keeping everything around it. -/
def writeAt (buf : List α) (pos : Nat) (data : List α) : List α :=
  buf.take pos ++ data ++ buf.drop (pos + data.length)

/-- Copying inside the buffer keeps its length. -/
theorem length_writeAt (h : pos + data.length ≤ buf.length) :
    (writeAt buf pos data).length = buf.length := by
  simp only [writeAt, List.length_append, List.length_take, List.length_drop]
  omega

/-- Copying into the unused rest of a buffer. -/
theorem writeAt_append_replicate (out data : List α) (m : Nat) (a : α) :
    writeAt (out ++ List.replicate m a) out.length data =
      (out ++ data) ++ List.replicate (m - data.length) a := by
  rw [writeAt, List.take_left, List.drop_append, List.drop_replicate,
    List.drop_of_length_le (Nat.le_add_right _ _), List.nil_append, Nat.add_sub_cancel_left]

/-- A range lying inside the buffer has the requested length. -/
theorem length_readAt (h : pos + n ≤ buf.length) : (readAt buf pos n).length = n := by
  simp only [readAt, List.length_take, List.length_drop]
  omega

/-- The elements of a range inside the buffer. -/
theorem readAt_eq_map_getD (h : pos + n ≤ buf.length) (d : α) :
    readAt buf pos n = (List.range n).map fun k => buf.getD (pos + k) d := by
  apply List.ext_getElem
  · rw [length_readAt h, List.length_map, List.length_range]
  · intro k hk _
    have hlt : k < n := by
      rw [length_readAt h] at hk
      exact hk
    have hpos : pos + k < buf.length := by omega
    simp only [readAt, List.getElem_take, List.getElem_drop, List.getElem_map, List.getElem_range,
      List.getD_eq_getElem?_getD, List.getElem?_eq_getElem hpos, Option.getD_some]

/-- A copied range reads back as the copied data. -/
theorem readAt_writeAt_self (h : pos ≤ buf.length) :
    readAt (writeAt buf pos data) pos data.length = data := by
  have hlen : (buf.take pos).length = pos := by
    simp only [List.length_take]
    omega
  have hdrop : (writeAt buf pos data).drop pos = data ++ buf.drop (pos + data.length) := by
    rw [writeAt, List.append_assoc]
    exact List.drop_left' hlen
  rw [readAt, hdrop, List.take_left]

/-- Copying at {lit}`pos` leaves every prefix below {lit}`pos` alone. -/
theorem take_writeAt (hk : k ≤ pos) (h : pos ≤ buf.length) :
    (writeAt buf pos data).take k = buf.take k := by
  have hlen : k ≤ (buf.take pos).length := by
    simp only [List.length_take]
    omega
  rw [writeAt, List.append_assoc, List.take_append_of_le_length hlen, List.take_take]
  congr 1
  omega

/-- Two buffers that agree below {lit}`k` give the same ranges below {lit}`k`. -/
theorem readAt_congr_of_take (h : buf.take k = buf'.take k) (hk : off + n ≤ k) :
    readAt buf off n = readAt buf' off n := by
  have hcut : ∀ b : List α, readAt b off n = ((b.take k).drop off).take n := by
    intro b
    rw [readAt, List.drop_take, List.take_take]
    congr 1
    omega
  rw [hcut buf, hcut buf', h]

/-- A range is cut into two ranges. -/
theorem readAt_add (buf : List α) (off m n : Nat) :
    readAt buf off (m + n) = readAt buf off m ++ readAt buf (off + m) n := by
  rw [readAt, readAt, readAt, List.take_add, List.drop_drop]

/-- Ranges in front of the copied data are as before. -/
theorem readAt_writeAt_of_le (hpos : pos ≤ buf.length) (h : off + n ≤ pos) :
    readAt (writeAt buf pos data) off n = readAt buf off n :=
  readAt_congr_of_take (take_writeAt (le_refl pos) hpos) h

/-- Ranges behind the copied data are as before. -/
theorem readAt_writeAt_of_ge (hpos : pos ≤ buf.length) (h : pos + data.length ≤ off) :
    readAt (writeAt buf pos data) off n = readAt buf off n := by
  have hlen : (buf.take pos ++ data).length = pos + data.length := by
    rw [List.length_append, List.length_take]
    omega
  have hdrop : (writeAt buf pos data).drop off = buf.drop off := by
    obtain ⟨k, rfl⟩ := Nat.exists_eq_add_of_le h
    rw [writeAt, ← List.drop_drop, List.drop_left' hlen, List.drop_drop]
  rw [readAt, readAt, hdrop]

/-- A range inside the copied data. -/
theorem readAt_writeAt_of_mem (hpos : pos ≤ buf.length) (h : off + n ≤ data.length) :
    readAt (writeAt buf pos data) (pos + off) n = readAt data off n := by
  have hself : readAt (writeAt buf pos data) pos data.length = data := readAt_writeAt_self hpos
  have hsub : ∀ b : List α, readAt b (pos + off) n =
      readAt (readAt b pos data.length) off n := by
    intro b
    rw [readAt, readAt, readAt, List.drop_take, List.take_take, List.drop_drop,
      Nat.min_eq_left (by omega)]
  rw [hsub, hself]

/-- Copying back what is there changes nothing. -/
theorem writeAt_readAt (h : pos + n ≤ buf.length) : writeAt buf pos (readAt buf pos n) = buf := by
  rw [writeAt, length_readAt h, readAt, List.append_assoc, ← List.drop_drop,
    List.take_append_drop, List.take_append_drop]

end Buffer

/-! ## Little-endian words -/

/-- The {lit}`n` low bytes of {lit}`x`, least significant first. -/
def leBytes : Nat → Nat → List UInt8
  | 0, _ => []
  | n + 1, x => UInt8.ofNat x :: leBytes n (x / 256)

/-- The value of a byte string read least significant byte first. -/
def leNat : List UInt8 → Nat
  | [] => 0
  | b :: bs => b.toNat + 256 * leNat bs

@[simp]
theorem length_leBytes (n x : Nat) : (leBytes n x).length = n := by
  induction n generalizing x with
  | zero => rfl
  | succ n ih => simp [leBytes, ih]

/-- Decoding an encoded word gives the encoded value reduced to its width. -/
theorem leNat_leBytes (n x : Nat) : leNat (leBytes n x) = x % 256 ^ n := by
  induction n generalizing x with
  | zero => simp [leBytes, leNat, Nat.mod_one]
  | succ n ih =>
      have hmod : x % 256 ^ (n + 1) = x % 256 + 256 * (x / 256 % 256 ^ n) := by
        rw [pow_succ, mul_comm, Nat.mod_mul]
      simp only [leBytes, leNat, ih, hmod, UInt8.toNat_ofNat']

/-- Encoding a decoded word gives its bytes. -/
theorem leBytes_leNat (bs : List UInt8) : leBytes bs.length (leNat bs) = bs := by
  induction bs with
  | nil => rfl
  | cons b bs ih =>
      have hb : b.toNat < 256 := b.toNat_lt
      have hdiv : (b.toNat + 256 * leNat bs) / 256 = leNat bs := by omega
      have hbyte : UInt8.ofNat (b.toNat + 256 * leNat bs) = b := by
        apply UInt8.toNat_inj.mp
        rw [UInt8.toNat_ofNat']
        omega
      simp only [List.length_cons, leNat, leBytes, hdiv, hbyte, ih]

/-- Encoding depends on the value reduced to the width only. -/
theorem leBytes_mod (n x : Nat) : leBytes n (x % 256 ^ n) = leBytes n x := by
  have h := leBytes_leNat (leBytes n x)
  rwa [length_leBytes, leNat_leBytes] at h

/-- A decoded word is below the bound of its width. -/
theorem leNat_lt (bs : List UInt8) : leNat bs < 256 ^ bs.length := by
  induction bs with
  | nil => simp [leNat]
  | cons b bs ih =>
      have hb : b.toNat < 256 := b.toNat_lt
      simp only [leNat, List.length_cons, pow_succ]
      omega

/-- {lit}`INT_MAX`. -/
def intMax : Int := 2147483647

/-- The two's complement reading of an unsigned {lit}`n`-byte value. -/
def signedOf (n x : Nat) : Int :=
  if 2 * x < 256 ^ n then x else (x : Int) - 256 ^ n

/-- The unsigned {lit}`n`-byte word a C conversion stores for an integer. -/
def wordOf (n : Nat) (i : Int) : Nat :=
  (i % 256 ^ n).toNat

theorem wordOf_lt (n : Nat) (i : Int) : wordOf n i < 256 ^ n := by
  have hpos : (0 : Int) < 256 ^ n := by positivity
  have hlt := Int.emod_lt_of_pos i hpos
  have hnn := Int.emod_nonneg i hpos.ne'
  have : ((i % 256 ^ n).toNat : Int) < ((256 ^ n : Nat) : Int) := by
    rw [Int.toNat_of_nonneg hnn]
    simpa using hlt
  exact_mod_cast this

/-- An unsigned value in range is stored as itself. -/
theorem wordOf_of_nonneg {n : Nat} {i : Int} (h0 : 0 ≤ i) (h : i < 256 ^ n) :
    (wordOf n i : Int) = i := by
  rw [wordOf, Int.emod_eq_of_lt h0 h, Int.toNat_of_nonneg h0]

/-- A signed value in range survives storing and two's complement reading. -/
theorem signedOf_wordOf {n : Nat} {i : Int}
    (hlo : -(256 ^ n) ≤ 2 * i) (hhi : 2 * i < 256 ^ n) :
    signedOf n (wordOf n i) = i := by
  have hpos : (0 : Int) < 256 ^ n := by positivity
  by_cases h0 : 0 ≤ i
  · have hw := wordOf_of_nonneg (n := n) h0 (by omega)
    have hlt : 2 * wordOf n i < 256 ^ n := by
      have : (2 * (wordOf n i : Int)) < 256 ^ n := by rw [hw]; exact hhi
      exact_mod_cast this
    rw [signedOf, if_pos hlt, hw]
  · have hmod : i % 256 ^ n = i + 256 ^ n := by
      rw [← Int.add_emod_right]
      exact Int.emod_eq_of_lt (by omega) (by omega)
    have hw : (wordOf n i : Int) = i + 256 ^ n := by
      rw [wordOf, hmod, Int.toNat_of_nonneg (by omega)]
    have hge : ¬ 2 * wordOf n i < 256 ^ n := by
      intro hlt
      have : (2 * (wordOf n i : Int)) < 256 ^ n := by exact_mod_cast hlt
      rw [hw] at this
      omega
    rw [signedOf, if_neg hge, hw]
    omega

end Lib
end ZyxelRouter
