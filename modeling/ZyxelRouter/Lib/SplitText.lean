import Mathlib.Data.List.Basic

/-!
# Texts in pieces

A text that is split at a separator, the pieces, and the text they are joined to.

Main results:

- Theorem {lit}`splitOn_eq_iff`: the pieces are the one way to write a text as joined pieces.
- Theorem {lit}`length_splitOn`: one piece more than separators.
- Theorem {lit}`strtok_eq_splitOn`: without empty pieces the tokens are the pieces.
- Theorem {lit}`strtok_cutToken`: a text of which one token was taken has only this one left.
- Theorem {lit}`exists_of_forall₂`: what a piece is read as, if the pieces are read one by one.
-/

namespace ZyxelRouter
namespace Lib

/-- Texts that are compared are equal, as a name of its own for the membership in a list of them. -/
theorem lawfulBEq_text : LawfulBEq (List Char) := inferInstance

variable {α : Type} [DecidableEq α]

/-- The pieces between the separators have no separator. -/
theorem notMem_of_mem_splitOn {sep : α} {xs piece : List α} (h : piece ∈ xs.splitOn sep) :
    sep ∉ piece := by
  induction xs generalizing piece with
  | nil =>
      rw [List.splitOn_nil, List.mem_singleton] at h
      simp [h]
  | cons x xs ih =>
      rw [List.splitOn_cons_eq_if_modifyHead] at h
      by_cases hx : x == sep
      · rw [if_pos hx] at h
        rcases List.mem_cons.mp h with rfl | h
        · simp
        · exact ih h
      · rw [if_neg hx] at h
        obtain ⟨first, rest, hsplit⟩ := List.exists_cons_of_ne_nil (List.splitOn_ne_nil sep xs)
        rw [hsplit, List.modifyHead_cons] at h
        rcases List.mem_cons.mp h with rfl | h
        · intro hmem
          rcases List.mem_cons.mp hmem with rfl | hmem
          · exact hx BEq.rfl
          · exact ih (hsplit ▸ List.mem_cons_self) hmem
        · exact ih (hsplit ▸ List.mem_cons_of_mem first h)

/-- A text is joined from pieces without separators in one way only. -/
theorem splitOn_eq_iff {sep : α} {xs : List α} {parts : List (List α)} :
    xs.splitOn sep = parts ↔
      parts ≠ [] ∧ xs = [sep].intercalate parts ∧ ∀ p ∈ parts, sep ∉ p := by
  constructor
  · rintro rfl
    exact ⟨List.splitOn_ne_nil sep xs, (List.intercalate_splitOn sep).symm,
      fun p hp => notMem_of_mem_splitOn hp⟩
  · rintro ⟨hne, rfl, hparts⟩
    exact List.splitOn_intercalate sep hparts hne

theorem intercalate_injective {sep : α} {parts parts' : List (List α)} (hne : parts ≠ [])
    (hne' : parts' ≠ []) (h : ∀ p ∈ parts, sep ∉ p) (h' : ∀ p ∈ parts', sep ∉ p)
    (heq : [sep].intercalate parts = [sep].intercalate parts') : parts = parts' := by
  have hsplit := splitOn_eq_iff.mpr ⟨hne, rfl, h⟩
  have hsplit' := splitOn_eq_iff.mpr ⟨hne', heq, h'⟩
  exact hsplit.symm.trans hsplit'

omit [DecidableEq α] in
/-- One piece of a joined text, with all that stands in front of it and behind it. -/
theorem intercalate_middle (sep : α) (before : List (List α)) (piece : List α)
    (behind : List (List α)) :
    [sep].intercalate (before ++ piece :: behind) =
      before.flatMap (· ++ [sep]) ++ piece ++ behind.flatMap (sep :: ·) := by
  induction before with
  | nil =>
      induction behind generalizing piece with
      | nil => simp
      | cons next behind ih =>
          rw [List.nil_append, List.intercalate_cons_cons]
          have htail := ih next
          rw [List.nil_append, List.flatMap_nil, List.nil_append] at htail
          rw [htail, List.flatMap_cons]
          simp
  | cons first before ih =>
      rw [List.cons_append, List.intercalate_cons_of_ne_nil (by simp), ih, List.flatMap_cons]
      simp

theorem length_splitOn (sep : α) (xs : List α) :
    (xs.splitOn sep).length = xs.count sep + 1 := by
  induction xs with
  | nil => simp
  | cons x xs ih =>
      rw [List.splitOn_cons_eq_if_modifyHead, List.count_cons]
      by_cases hx : x == sep
      · rw [if_pos hx, if_pos hx, List.length_cons, ih]
      · rw [if_neg hx, if_neg hx, List.length_modifyHead, ih, Nat.add_zero]

/-- An element of a text is the separator or in one of the pieces. -/
theorem mem_iff_splitOn {sep x : α} (hne : x ≠ sep) {xs : List α} :
    x ∈ xs ↔ ∃ p ∈ xs.splitOn sep, x ∈ p := by
  induction xs with
  | nil => simp
  | cons y xs ih =>
      rw [List.splitOn_cons_eq_if_modifyHead]
      by_cases hy : y == sep
      · have hxy : x ≠ y := fun heq => hne (heq.trans (by simpa using hy))
        rw [if_pos hy]
        simp [hxy, ih]
      · rw [if_neg hy, List.mem_cons, ih]
        obtain ⟨first, rest, hsplit⟩ := List.exists_cons_of_ne_nil (List.splitOn_ne_nil sep xs)
        rw [hsplit, List.modifyHead_cons]
        simp [or_assoc]

/-- The tokens that {lit}`strtok` finds: the pieces that are not empty. -/
def strtok (sep : α) (xs : List α) : List (List α) :=
  (xs.splitOn sep).filter (· ≠ [])

/-- Without empty pieces the tokens are the pieces. -/
theorem strtok_eq_splitOn {sep : α} {xs : List α} (h : [] ∉ xs.splitOn sep) :
    strtok sep xs = xs.splitOn sep := by
  rw [strtok, List.filter_eq_self]
  intro p hp
  have hne : p ≠ [] := fun heq => h (heq ▸ hp)
  simpa using hne

/-- A text without the separator is one token, or none if it is empty. -/
theorem strtok_of_notMem {sep : α} {xs : List α} (hne : xs ≠ []) (h : sep ∉ xs) :
    strtok sep xs = [xs] := by
  have hsplit : xs.splitOn sep = [xs] :=
    splitOn_eq_iff.mpr ⟨by simp, by simp, by simpa using h⟩
  rw [strtok_eq_splitOn (by simpa [hsplit] using hne.symm), hsplit]

/-- The tokens of a text with a separator in it are those of both sides. -/
theorem strtok_append_cons (sep : α) (xs ys : List α) :
    strtok sep (xs ++ sep :: ys) = strtok sep xs ++ strtok sep ys := by
  rw [strtok, List.splitOn_append_cons_self, List.filter_append]
  rfl

/-- What is left of a text when its first token has been terminated. -/
def cutToken (sep : α) (xs : List α) : List α :=
  xs.takeWhile (· = sep) ++ (xs.dropWhile (· = sep)).takeWhile (· ≠ sep)

/-- The first token ends at the first separator behind it. -/
theorem take_strtok_append {sep : α} {front rest : List α} (hne : front ≠ []) (h : sep ∉ front)
    (hrest : ∀ y ∈ rest.head?, y = sep) : (strtok sep (front ++ rest)).take 1 = [front] := by
  cases rest with
  | nil =>
      rw [List.append_nil, strtok_of_notMem hne h]
      rfl
  | cons y ys =>
      obtain rfl : y = sep := hrest y rfl
      rw [strtok_append_cons, strtok_of_notMem hne h]
      rfl

/-- Only the first token is found again. -/
theorem strtok_cutToken (sep : α) (xs : List α) :
    strtok sep (cutToken sep xs) = (strtok sep xs).take 1 := by
  have hempty : strtok sep ([] : List α) = [] := by simp [strtok]
  induction xs with
  | nil =>
      have hcut : cutToken sep ([] : List α) = [] := rfl
      rw [hcut, hempty, List.take_nil]
  | cons x xs ih =>
      by_cases hx : x = sep
      · subst hx
        have hcut : cutToken x (x :: xs) = [] ++ x :: cutToken x xs := by simp [cutToken]
        have hskip := strtok_append_cons x [] xs
        rw [List.nil_append, hempty, List.nil_append] at hskip
        rw [hcut, strtok_append_cons, hempty, List.nil_append, ih, hskip]
      · have hcut : cutToken sep (x :: xs) = (x :: xs).takeWhile (· ≠ sep) := by
          simp [cutToken, hx]
        have hne : (x :: xs).takeWhile (· ≠ sep) ≠ [] := by simp [hx]
        have hsep : sep ∉ (x :: xs).takeWhile (· ≠ sep) := by
          intro hmem
          have hall := List.all_takeWhile (p := fun y => decide (y ≠ sep)) (l := x :: xs)
          simpa using List.all_eq_true.mp hall sep hmem
        have hrest : ∀ y ∈ ((x :: xs).dropWhile (· ≠ sep)).head?, y = sep := by
          intro y hy
          have hhead := List.head?_dropWhile_not (p := fun y => decide (y ≠ sep)) (x :: xs)
          rw [Option.mem_def.mp hy] at hhead
          simpa using hhead
        have hfirst := take_strtok_append hne hsep hrest
        rw [List.takeWhile_append_dropWhile] at hfirst
        rw [hcut, strtok_of_notMem hne hsep, hfirst]

/-! ## Pieces that are read one by one -/

section Pointwise

variable {α β : Type} {R : α → β → Prop}

/-- The elements of related lists are related. -/
theorem exists_of_forall₂ {xs : List α} {ys : List β} (h : List.Forall₂ R xs ys) :
    ∀ x ∈ xs, ∃ y ∈ ys, R x y := by
  induction h with
  | nil =>
      intro x hx
      cases hx
  | cons hfirst _ ih =>
      intro x hx
      rcases List.mem_cons.mp hx with rfl | hx
      · exact ⟨_, List.mem_cons_self, hfirst⟩
      · obtain ⟨y, hy, hxy⟩ := ih x hx
        exact ⟨y, List.mem_cons_of_mem _ hy, hxy⟩

/-- If every element is related to something, then so is the list. -/
theorem exists_forall₂ {xs : List α} (h : ∀ x ∈ xs, ∃ y, R x y) : ∃ ys, List.Forall₂ R xs ys := by
  induction xs with
  | nil => exact ⟨[], .nil⟩
  | cons x xs ih =>
      obtain ⟨y, hxy⟩ := h x List.mem_cons_self
      obtain ⟨ys, hys⟩ := ih fun x' hx' => h x' (List.mem_cons_of_mem x hx')
      exact ⟨y :: ys, .cons hxy hys⟩

end Pointwise

end Lib
end ZyxelRouter
