import Mathlib.Data.List.Induction
import Mathlib.Tactic.Ring

/-!
# Folding a stream block by block

A hash function with a compression step reads its message in blocks of {lit}`n` elements.  This
module compares the fold over the blocks of a whole message with a stream that takes the message
element by element and compresses each time its buffer is full.

Main results:

- Theorem {lit}`foldBlocks_append`: the blocks of a joined message are those of its front, then those
  of what the front leaves over with the rest.
- Theorem {lit}`foldl_feed`: a stream that was fed a message is in the state of its full blocks and
  buffers the rest.
-/

namespace ZyxelRouter
namespace Lib

section BlockStream

variable {α σ : Type} (n : Nat) (step : σ → List α → σ)

/-! ## Blocks of a whole message -/

/-- Fold {lit}`step` over the first {lit}`k` blocks of {lit}`n` elements. -/
def foldBlocks : Nat → σ → List α → σ
  | 0, s, _ => s
  | k + 1, s, l => foldBlocks k (step s (l.take n)) (l.drop n)

@[simp]
theorem foldBlocks_zero (s : σ) (l : List α) : foldBlocks n step 0 s l = s :=
  rfl

theorem foldBlocks_succ (k : Nat) (s : σ) (l : List α) :
    foldBlocks n step (k + 1) s l = foldBlocks n step k (step s (l.take n)) (l.drop n) :=
  rfl

/-- The blocks are folded in two parts. -/
theorem foldBlocks_add (j k : Nat) (s : σ) (l : List α) :
    foldBlocks n step (j + k) s l =
      foldBlocks n step k (foldBlocks n step j s l) (l.drop (n * j)) := by
  induction j generalizing s l with
  | zero => simp
  | succ j ih =>
      have hdrop : (l.drop n).drop (n * j) = l.drop (n * (j + 1)) := by
        rw [List.drop_drop]
        congr 1
        ring
      rw [Nat.add_right_comm, foldBlocks_succ, ih, hdrop, foldBlocks_succ]

/-- What follows the blocks does not count. -/
theorem foldBlocks_append_left {k : Nat} {l : List α} (h : n * k ≤ l.length) (s : σ)
    (r : List α) : foldBlocks n step k s (l ++ r) = foldBlocks n step k s l := by
  induction k generalizing s l with
  | zero => rfl
  | succ k ih =>
      have hsplit : n * (k + 1) = n + n * k := by ring
      have hn : n ≤ l.length := by omega
      have hrest : n * k ≤ (l.drop n).length := by
        rw [List.length_drop]
        omega
      rw [foldBlocks_succ, foldBlocks_succ, List.take_append_of_le_length hn,
        List.drop_append_of_le_length hn, ih hrest]

/-! ## A stream -/

/-- A stream in progress: the state of the blocks so far, the elements that do not yet make a block,
and the number of blocks. -/
structure BlockStream (α σ : Type) where
  state : σ
  rest : List α
  blocks : Nat

/-- Take one element; a full buffer is folded in. -/
def BlockStream.feed (s : BlockStream α σ) (b : α) : BlockStream α σ :=
  if s.rest.length + 1 = n then
    { state := step s.state (s.rest ++ [b]), rest := [], blocks := s.blocks + 1 }
  else
    { s with rest := s.rest ++ [b] }

/-- Where a stream stands after a whole message. -/
def absorbed (s : σ) (msg : List α) : BlockStream α σ where
  state := foldBlocks n step (msg.length / n) s msg
  rest := msg.drop (n * (msg.length / n))
  blocks := msg.length / n

theorem length_absorbed_rest (s : σ) (msg : List α) :
    (absorbed n step s msg).rest.length = msg.length % n := by
  have h := Nat.mod_add_div msg.length n
  simp only [absorbed, List.length_drop]
  omega

@[simp]
theorem absorbed_nil (s : σ) : absorbed n step s ([] : List α) = ⟨s, [], 0⟩ := by
  simp [absorbed]

/-- The blocks of a joined message. -/
theorem foldBlocks_append (s : σ) (msg tail : List α) (k : Nat) :
    foldBlocks n step (msg.length / n + k) s (msg ++ tail) =
      foldBlocks n step k (absorbed n step s msg).state
        ((absorbed n step s msg).rest ++ tail) := by
  have hle : n * (msg.length / n) ≤ msg.length := Nat.mul_div_le _ _
  rw [foldBlocks_add, foldBlocks_append_left n step hle, List.drop_append_of_le_length hle]
  rfl

variable {n}

/-- One more element of the message. -/
theorem feed_absorbed (hn : 0 < n) (s : σ) (msg : List α) (b : α) :
    (absorbed n step s msg).feed n step b = absorbed n step s (msg ++ [b]) := by
  have hmod := Nat.mod_add_div msg.length n
  have hlt := Nat.mod_lt msg.length hn
  have hle : n * (msg.length / n) ≤ msg.length := Nat.mul_div_le _ _
  rw [BlockStream.feed, length_absorbed_rest]
  split
  · rename_i hfull
    -- the element completes a block
    have hdiv : (msg ++ [b]).length / n = msg.length / n + 1 := by
      rw [List.length_append, List.length_singleton,
        show msg.length + 1 = n * (msg.length / n + 1) by rw [Nat.mul_add]; omega,
        Nat.mul_div_cancel_left _ hn]
    have hblock : (absorbed n step s msg).rest.length + 1 = n := by
      rwa [length_absorbed_rest]
    have hstate : foldBlocks n step (msg.length / n + 1) s (msg ++ [b]) =
        step (absorbed n step s msg).state ((absorbed n step s msg).rest ++ [b]) := by
      have htake : ((absorbed n step s msg).rest ++ [b]).take n =
          (absorbed n step s msg).rest ++ [b] :=
        List.take_of_length_le (by simp only [List.length_append, List.length_singleton]; omega)
      rw [foldBlocks_append, foldBlocks_succ n step 0, foldBlocks_zero, htake]
    have hdrop : (msg ++ [b]).drop (n * (msg.length / n + 1)) = [] := by
      apply List.drop_of_length_le
      rw [List.length_append, List.length_singleton, Nat.mul_add]
      omega
    simp only [absorbed, hdiv, hdrop] at hstate ⊢
    rw [hstate]
  · rename_i hpart
    -- the element stays in the buffer
    have hdiv : (msg ++ [b]).length / n = msg.length / n := by
      rw [List.length_append, List.length_singleton, ← hmod, Nat.add_right_comm,
        Nat.add_mul_div_left _ _ hn, Nat.add_mul_div_left _ _ hn, Nat.div_eq_of_lt hlt,
        Nat.div_eq_of_lt (by omega)]
    simp only [absorbed, hdiv]
    rw [foldBlocks_append_left n step hle, List.drop_append_of_le_length hle]

/-- A stream that is fed a message. -/
theorem foldl_feed (hn : 0 < n) (s : σ) (msg : List α) :
    msg.foldl (BlockStream.feed n step) ⟨s, [], 0⟩ = absorbed n step s msg := by
  induction msg using List.reverseRecOn with
  | nil => simp
  | append_singleton msg b ih =>
      rw [List.foldl_append, ih]
      exact feed_absorbed step hn s msg b

end BlockStream

end Lib
end ZyxelRouter
