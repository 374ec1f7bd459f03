import Mathlib.Algebra.Ring.Int.Defs
import Mathlib.Data.Int.Init

/-!
# The interval between two times

{lit}`zyUtilComputeMicroInterval` of {lit}`skconn.c`, with the 64-bit integers of the platform.
Between different seconds it adds what is left of the first second, which it counts from a value
of all ones: as the type is signed this is -1, and one microsecond is lost.

Main results:

- Theorem {lit}`computeMicroInterval_sameSecond`: within one second the interval is exact.
- Theorem {lit}`computeMicroInterval_differentSecond`: otherwise it is one microsecond short.
- Theorem {lit}`zyUtilComputeMicroInterval_exact_iff`: it is exact within one second only.
-/

namespace ZyxelRouter
namespace ZyUtil

/-! ## The function -/

/-- {lit}`struct timeval`. -/
structure Timeval where
  tvSec : Int64
  tvUsec : Int64
deriving DecidableEq, Repr

/-- A {lit}`suseconds_t` after {lit}`memset` to {lit}`0xff`. -/
def onesMs : Int64 := -1

/-- An {lit}`unsigned int` after {lit}`memset` to {lit}`0xff`, as a {lit}`long long`. -/
def onesMax : Int64 := 4294967295

/-- The interval in {lit}`msec` before it is compared with the largest result; no interval when
the first time is the later one. -/
def intervalMsec (sTm nTm : Timeval) : Option Int64 :=
  if sTm.tvSec > nTm.tvSec then none
  else
    let sec := nTm.tvSec - sTm.tvSec
    if sec = 0 then
      if sTm.tvUsec > nTm.tvUsec then none
      else some (nTm.tvUsec - sTm.tvUsec)
    else some (sec * 1000000 + (onesMs - sTm.tvUsec) + nTm.tvUsec)

/-- {lit}`zyUtilComputeMicroInterval`: the result, and both times behind the call. -/
def zyUtilComputeMicroInterval (sTm nTm : Option Timeval) :
    UInt32 × Option Timeval × Option Timeval :=
  match sTm, nTm with
  | some s, some n =>
      match intervalMsec s n with
      | none => (0, some s, some n)
      | some msec =>
          if msec > onesMax then ((msec - onesMax).toUInt64.toUInt32, some n, some n)
          else (msec.toUInt64.toUInt32, some s, some n)
  | _, _ => (0, sTm, nTm)

/-! ## Exact intervals -/

/-- The microseconds of a time. -/
def Timeval.micros (t : Timeval) : Int :=
  t.tvSec.toInt * 1000000 + t.tvUsec.toInt

/-- The microseconds are less than a second. -/
def Timeval.Normalised (t : Timeval) : Prop :=
  0 ≤ t.tvUsec.toInt ∧ t.tvUsec.toInt < 1000000

variable {s n : Timeval}

/-- Nothing wraps in a difference that fits. -/
theorem toInt_sub_of_fits {a b : Int64} (hlow : -2 ^ 63 ≤ a.toInt - b.toInt)
    (hhigh : a.toInt - b.toInt < 2 ^ 63) : (a - b).toInt = a.toInt - b.toInt := by
  rw [Int64.toInt_sub]
  exact Int.bmod_eq_of_le (by omega) (by omega)

theorem toInt_add_of_fits {a b : Int64} (hlow : -2 ^ 63 ≤ a.toInt + b.toInt)
    (hhigh : a.toInt + b.toInt < 2 ^ 63) : (a + b).toInt = a.toInt + b.toInt := by
  rw [Int64.toInt_add]
  exact Int.bmod_eq_of_le (by omega) (by omega)

theorem toInt_mul_of_fits {a b : Int64} (hlow : -2 ^ 63 ≤ a.toInt * b.toInt)
    (hhigh : a.toInt * b.toInt < 2 ^ 63) : (a * b).toInt = a.toInt * b.toInt := by
  rw [Int64.toInt_mul]
  exact Int.bmod_eq_of_le (by omega) (by omega)

/-- A count of less than 2^32 microseconds is returned as it is. -/
theorem toNat_result {msec : Int64} {d : Int} (hmsec : msec.toInt = d) (hd : 0 ≤ d)
    (hlt : d < 2 ^ 32) : (msec.toUInt64.toUInt32.toNat : Int) = d := by
  have hpos : 0 ≤ msec := by
    rw [Int64.le_iff_toInt_le, hmsec]
    exact hd
  rw [UInt64.toNat_toUInt32, Int64.toNat_toUInt64_of_le hpos, Int64.toNatClampNeg, hmsec]
  omega

/-- The seconds of two times in order. -/
theorem tvSec_le (hs : s.Normalised) (hn : n.Normalised) (hle : s.micros ≤ n.micros) :
    s.tvSec.toInt ≤ n.tvSec.toInt := by
  unfold Timeval.Normalised Timeval.micros at *
  omega

/-- What a call returns for a count that fits. -/
theorem zyUtilComputeMicroInterval_eq {msec : Int64} {d : Int}
    (hinterval : intervalMsec s n = some msec) (hmsec : msec.toInt = d) (hlt : d < 2 ^ 32) :
    zyUtilComputeMicroInterval (some s) (some n) =
      (msec.toUInt64.toUInt32, some s, some n) := by
  have hmax : ¬ msec > onesMax := by
    have hones : onesMax.toInt = 4294967295 := by decide
    rw [gt_iff_lt, Int64.lt_iff_toInt_lt, hmsec, hones]
    omega
  simp only [zyUtilComputeMicroInterval, hinterval]
  exact if_neg hmax

/-- Within one second the microseconds are subtracted. -/
theorem computeMicroInterval_sameSecond (hs : s.Normalised) (hn : n.Normalised)
    (hle : s.micros ≤ n.micros) (hsec : s.tvSec = n.tvSec) :
    ((zyUtilComputeMicroInterval (some s) (some n)).1.toNat : Int) = n.micros - s.micros ∧
      (zyUtilComputeMicroInterval (some s) (some n)).2 = (some s, some n) := by
  have husec : s.tvUsec.toInt ≤ n.tvUsec.toInt := by
    unfold Timeval.micros at hle
    rw [hsec] at hle
    omega
  have hdiff : n.micros - s.micros = n.tvUsec.toInt - s.tvUsec.toInt := by
    unfold Timeval.micros
    rw [hsec]
    omega
  have hinterval : intervalMsec s n = some (n.tvUsec - s.tvUsec) := by
    unfold intervalMsec
    rw [hsec, if_neg (by simp), Int64.sub_self]
    rw [if_pos rfl, if_neg]
    rw [gt_iff_lt, Int64.lt_iff_toInt_lt]
    omega
  rcases hs with ⟨hs0, hs1⟩
  rcases hn with ⟨hn0, hn1⟩
  have hmsec : (n.tvUsec - s.tvUsec).toInt = n.micros - s.micros := by
    rw [hdiff]
    exact toInt_sub_of_fits (by omega) (by omega)
  rw [zyUtilComputeMicroInterval_eq hinterval hmsec (by omega)]
  exact ⟨toNat_result hmsec (by omega) (by omega), rfl⟩

/-- Between different seconds one microsecond is missing. -/
theorem computeMicroInterval_differentSecond (hs : s.Normalised) (hn : n.Normalised)
    (hle : s.micros ≤ n.micros) (hlt : n.micros - s.micros < 2 ^ 32) (hsec : s.tvSec ≠ n.tvSec) :
    ((zyUtilComputeMicroInterval (some s) (some n)).1.toNat : Int) = n.micros - s.micros - 1 ∧
      (zyUtilComputeMicroInterval (some s) (some n)).2 = (some s, some n) := by
  have hseconds := tvSec_le hs hn hle
  have hne : s.tvSec.toInt ≠ n.tvSec.toInt := fun heq => hsec (Int64.toInt_inj.mp heq)
  rcases hs with ⟨hs0, hs1⟩
  rcases hn with ⟨hn0, hn1⟩
  unfold Timeval.micros at *
  have hdiff : (n.tvSec - s.tvSec).toInt = n.tvSec.toInt - s.tvSec.toInt :=
    toInt_sub_of_fits (by omega) (by omega)
  have hscaled : ((n.tvSec - s.tvSec) * 1000000).toInt =
      (n.tvSec.toInt - s.tvSec.toInt) * 1000000 := by
    have hmillion : (1000000 : Int64).toInt = 1000000 := by decide
    rw [toInt_mul_of_fits (by rw [hdiff, hmillion]; omega) (by rw [hdiff, hmillion]; omega), hdiff,
      hmillion]
  have hones : (onesMs - s.tvUsec).toInt = -1 - s.tvUsec.toInt := by
    have hms : onesMs.toInt = -1 := by decide
    rw [toInt_sub_of_fits (by rw [hms]; omega) (by rw [hms]; omega), hms]
  have hsum : ((n.tvSec - s.tvSec) * 1000000 + (onesMs - s.tvUsec)).toInt =
      (n.tvSec.toInt - s.tvSec.toInt) * 1000000 + (-1 - s.tvUsec.toInt) := by
    rw [toInt_add_of_fits (by rw [hscaled, hones]; omega) (by rw [hscaled, hones]; omega), hscaled,
      hones]
  have hmsec : ((n.tvSec - s.tvSec) * 1000000 + (onesMs - s.tvUsec) + n.tvUsec).toInt =
      n.tvSec.toInt * 1000000 + n.tvUsec.toInt - (s.tvSec.toInt * 1000000 + s.tvUsec.toInt) - 1 := by
    rw [toInt_add_of_fits (by rw [hsum]; omega) (by rw [hsum]; omega), hsum]
    omega
  have hinterval : intervalMsec s n =
      some ((n.tvSec - s.tvSec) * 1000000 + (onesMs - s.tvUsec) + n.tvUsec) := by
    have hzero : n.tvSec - s.tvSec ≠ 0 := by
      intro heq
      have htoInt := congrArg Int64.toInt heq
      rw [hdiff, Int64.toInt_zero] at htoInt
      omega
    unfold intervalMsec
    rw [if_neg (by rw [gt_iff_lt, Int64.lt_iff_toInt_lt]; omega)]
    exact if_neg hzero
  rw [zyUtilComputeMicroInterval_eq hinterval hmsec (by omega)]
  exact ⟨toNat_result hmsec (by omega) (by omega), rfl⟩

/-- The interval is exact, and both times stay, if and only if the seconds are the same. -/
theorem zyUtilComputeMicroInterval_exact_iff (hs : s.Normalised) (hn : n.Normalised)
    (hle : s.micros ≤ n.micros) (hlt : n.micros - s.micros < 2 ^ 32) :
    (((zyUtilComputeMicroInterval (some s) (some n)).1.toNat : Int) = n.micros - s.micros ∧
      (zyUtilComputeMicroInterval (some s) (some n)).2 = (some s, some n)) ↔
      s.tvSec = n.tvSec := by
  constructor
  · intro hexact
    by_cases hsec : s.tvSec = n.tvSec
    · exact hsec
    · have hshort := (computeMicroInterval_differentSecond hs hn hle hlt hsec).1
      have := hexact.1
      omega
  · exact computeMicroInterval_sameSecond hs hn hle

/-- Half a second within one second. -/
theorem zyUtilComputeMicroInterval_half :
    (((zyUtilComputeMicroInterval (some ⟨5, 100000⟩) (some ⟨5, 600000⟩)).1.toNat : Int) =
        Timeval.micros ⟨5, 600000⟩ - Timeval.micros ⟨5, 100000⟩ ∧
      (zyUtilComputeMicroInterval (some ⟨5, 100000⟩) (some ⟨5, 600000⟩)).2 =
        (some ⟨5, 100000⟩, some ⟨5, 600000⟩)) ↔ (5 : Int64) = 5 :=
  zyUtilComputeMicroInterval_exact_iff (s := ⟨5, 100000⟩) (n := ⟨5, 600000⟩)
    (by unfold Timeval.Normalised; decide) (by unfold Timeval.Normalised; decide) (by decide)
    (by decide)

/-- From 5.999999 to 6.000000 seconds no time passes. -/
theorem computeMicroInterval_loses_microsecond :
    zyUtilComputeMicroInterval (some ⟨5, 999999⟩) (some ⟨6, 0⟩) =
        (0, some ⟨5, 999999⟩, some ⟨6, 0⟩) ∧
      Timeval.micros ⟨6, 0⟩ - Timeval.micros ⟨5, 999999⟩ = 1 := by
  decide

end ZyUtil
end ZyxelRouter
