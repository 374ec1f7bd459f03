import Mathlib.Data.List.Nodup

/-!
# Numbered entries that may be dropped

A list is numbered once, and every entry is changed or dropped by its number.  Where an entry stands then depends
on what has been dropped in front of it.

Main results:

- Theorem {lit}`survivors_length_iff`: nothing is dropped.
- Theorem {lit}`getElem?_survivors_iff`: an entry stands where it was exactly if nothing in front of it is dropped.
-/

namespace ZyxelRouter
namespace Lib

variable {α β γ : Type} {f g : Nat → α → Option β} {n : Nat} {l : List α}

/-- The entries that are left of a list whose entries are numbered from {lit}`n` on. -/
def survivors (f : Nat → α → Option β) : Nat → List α → List β
  | _, [] => []
  | n, a :: l => (f n a).toList ++ survivors f (n + 1) l

theorem survivors_append (l m : List α) :
    survivors f n (l ++ m) = survivors f n l ++ survivors f (n + l.length) m := by
  induction l generalizing n with
  | nil => rfl
  | cons a l ih =>
      rw [List.cons_append, survivors, survivors, ih, List.append_assoc, List.length_cons,
        Nat.add_right_comm, Nat.add_assoc]

theorem survivors_congr (h : ∀ k a, l[k]? = some a → f (n + k) a = g (n + k) a) :
    survivors f n l = survivors g n l := by
  induction l generalizing n with
  | nil => rfl
  | cons a l ih =>
      have htail : ∀ k b, l[k]? = some b → f (n + 1 + k) b = g (n + 1 + k) b := by
        intro k b hb
        have hnext := h (k + 1) b hb
        rwa [← Nat.add_assoc, Nat.add_right_comm] at hnext
      have hhead : f n a = g n a := h 0 a rfl
      rw [survivors, survivors, hhead, ih htail]

/-- If every entry is left as it is, the list is. -/
theorem survivors_some (n : Nat) (l : List α) : survivors (fun _ a => some a) n l = l := by
  induction l generalizing n with
  | nil => rfl
  | cons a l ih =>
      rw [survivors, ih]
      rfl

/-- Changing or dropping the entries once more. -/
theorem filterMap_survivors (h : β → Option γ) :
    (survivors f n l).filterMap h = survivors (fun n a => (f n a).bind h) n l := by
  induction l generalizing n with
  | nil => rfl
  | cons a l ih =>
      rw [survivors, survivors, List.filterMap_append, ih]
      cases f n a with
      | none => rfl
      | some b =>
          rw [Option.toList_some, Option.bind_some, List.filterMap_cons, List.filterMap_nil]
          cases h b <;> rfl

theorem mem_survivors_iff {b : β} :
    b ∈ survivors f n l ↔ ∃ k a, l[k]? = some a ∧ f (n + k) a = some b := by
  induction l generalizing n with
  | nil => simp [survivors]
  | cons a l ih =>
      rw [survivors, List.mem_append, Option.mem_toList, ih]
      constructor
      · rintro (hb | ⟨k, a', hk, hb⟩)
        · exact ⟨0, a, rfl, hb⟩
        · refine ⟨k + 1, a', hk, ?_⟩
          rwa [← Nat.add_assoc, Nat.add_right_comm]
      · rintro ⟨k, a', hk, hb⟩
        cases k with
        | zero =>
            obtain rfl : a = a' := Option.some.inj hk
            exact Or.inl hb
        | succ k =>
            refine Or.inr ⟨k, a', hk, ?_⟩
            rwa [← Nat.add_assoc, Nat.add_right_comm] at hb

theorem survivors_length_le : (survivors f n l).length ≤ l.length := by
  induction l generalizing n with
  | nil => exact Nat.le_refl 0
  | cons a l ih =>
      have hle := @ih (n + 1)
      rw [survivors, List.length_append, List.length_cons]
      cases f n a with
      | none =>
          rw [Option.toList_none, List.length_nil]
          omega
      | some b =>
          rw [Option.toList_some, List.length_singleton]
          omega

/-- Nothing is dropped exactly if the length stays. -/
theorem survivors_length_iff :
    (survivors f n l).length = l.length ↔ ∀ k a, l[k]? = some a → (f (n + k) a).isSome = true := by
  induction l generalizing n with
  | nil => simp [survivors]
  | cons a l ih =>
      have hle := survivors_length_le (f := f) (n := n + 1) (l := l)
      have htail : (∀ k b, (a :: l)[k]? = some b → (f (n + k) b).isSome = true) ↔
          (f n a).isSome = true ∧ ∀ k b, l[k]? = some b → (f (n + 1 + k) b).isSome = true := by
        constructor
        · intro h
          refine ⟨h 0 a rfl, fun k b hb => ?_⟩
          rw [Nat.add_assoc, Nat.add_comm 1 k]
          exact h (k + 1) b hb
        · rintro ⟨hhead, hrest⟩ k b hb
          cases k with
          | zero => exact Option.some.inj hb ▸ hhead
          | succ k =>
              have hnext := hrest k b hb
              rwa [Nat.add_assoc, Nat.add_comm 1 k] at hnext
      rw [htail, ← ih, survivors, List.length_append, List.length_cons]
      cases f n a with
      | none =>
          rw [Option.toList_none, List.length_nil]
          refine iff_of_false (by omega) ?_
          exact fun h => absurd h.1 (by simp)
      | some b =>
          rw [Option.toList_some, List.length_singleton]
          constructor
          · intro h
            exact ⟨rfl, by omega⟩
          · rintro ⟨-, h⟩
            omega

/-- An entry stands where it was exactly if nothing in front of it is dropped. -/
theorem getElem?_survivors_iff {k : Nat} {a : α} {b : β} {back : List β} (hk : l[k]? = some a)
    (hb : f (n + k) a = some b) (hnodup : (survivors f n l ++ back).Nodup) :
    (survivors f n l ++ back)[k]? = some b ↔
      ∀ j, j < k → ∀ a', l[j]? = some a' → (f (n + j) a').isSome = true := by
  obtain ⟨hlt, rfl⟩ := List.getElem?_eq_some_iff.mp hk
  have htake : (l.take k).length = k := by
    rw [List.length_take]
    omega
  have hsplit : survivors f n l ++ back =
      survivors f n (l.take k) ++ b :: (survivors f (n + k + 1) (l.drop (k + 1)) ++ back) := by
    conv_lhs => rw [← List.take_append_drop k l, List.drop_eq_getElem_cons hlt]
    rw [survivors_append, htake, survivors, hb]
    simp
  have hfront : (∀ j, j < k → ∀ a', l[j]? = some a' → (f (n + j) a').isSome = true) ↔
      (survivors f n (l.take k)).length = k := by
    have hiff := survivors_length_iff (f := f) (n := n) (l := l.take k)
    rw [htake] at hiff
    rw [hiff]
    constructor
    · intro h j a' hj
      obtain ⟨hjk, -⟩ := List.getElem?_eq_some_iff.mp hj
      rw [htake] at hjk
      rw [List.getElem?_take_of_lt hjk] at hj
      exact h j hjk a' hj
    · intro h j hjk a' hj
      exact h j a' (by rw [List.getElem?_take_of_lt hjk]; exact hj)
  have hle := survivors_length_le (f := f) (n := n) (l := l.take k)
  rw [hfront, hsplit]
  constructor
  · intro hat
    by_contra hne
    have hlt' : (survivors f n (l.take k)).length < k := by omega
    rw [List.getElem?_append_right (by omega)] at hat
    obtain ⟨d, hd⟩ : ∃ d, k - (survivors f n (l.take k)).length = d + 1 :=
      ⟨k - (survivors f n (l.take k)).length - 1, by omega⟩
    rw [hd, List.getElem?_cons_succ] at hat
    rw [hsplit] at hnodup
    have htail := (List.nodup_append.mp hnodup).2.1
    exact (List.nodup_cons.mp htail).1 (List.mem_of_getElem? hat)
  · intro heq
    rw [List.getElem?_append_right (by omega), heq, Nat.sub_self]
    rfl

end Lib
end ZyxelRouter
