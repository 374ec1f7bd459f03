import Mathlib.Data.List.Basic
import Mathlib.Data.Nat.Basic

/-!
# Natural layout of C structs

A C compiler places the members of an unpacked struct in declaration order, each
at the first offset that is a multiple of its alignment.  This module states that
rule for an arbitrary list of members.

Main results:

- Theorem {lit}`alignUp_mono`: moving the running offset up never moves a member
  down.
-/

namespace ZyxelRouter
namespace Lib
namespace StructLayout

/-- One struct member: its alignment and its size in bytes. -/
structure Member where
  align : Nat
  size : Nat
deriving DecidableEq, Repr

/-- The first multiple of {lit}`a` that is not below {lit}`x`. -/
def alignUp (a x : Nat) : Nat :=
  (x + (a - 1)) / a * a

/-- The offsets of the members when the running offset is {lit}`pos`. -/
def offsets : Nat → List Member → List Nat
  | _, [] => []
  | pos, m :: ms => alignUp m.align pos :: offsets (alignUp m.align pos + m.size) ms

/-- The running offset after the last member (before any tail padding). -/
def endOffset : Nat → List Member → Nat
  | pos, [] => pos
  | pos, m :: ms => endOffset (alignUp m.align pos + m.size) ms

theorem alignUp_mono {a x y : Nat} (h : x ≤ y) : alignUp a x ≤ alignUp a y := by
  unfold alignUp
  exact Nat.mul_le_mul_right a (Nat.div_le_div_right (by omega))

end StructLayout
end Lib
end ZyxelRouter
