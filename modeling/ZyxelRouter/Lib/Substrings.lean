import Mathlib.Data.List.Basic
import Mathlib.Data.List.Infix

/-!
# Words in a text

The search for the first occurrence of a word, and the text in which all occurrences are replaced
from left to right.

Main results:

- Theorems {lit}`strstr_eq_some_iff` and {lit}`strstr_eq_none_iff`: the search finds the first
  occurrence.
- Theorems {lit}`replaceAll_of_strstr` and {lit}`replaceAll_of_notInfix`: replacing goes on behind the
  first occurrence.
- Theorem {lit}`le_length_replaceAll`: a replacement that is no shorter than the word makes no text
  shorter.
-/

namespace ZyxelRouter
namespace Lib
namespace Substr

variable {α : Type} [DecidableEq α] {word s front behind p q : List α}

/-! ## The first occurrence -/

/-- {lit}`strstr`: what is in front of the first occurrence, and what is behind it. -/
def strstr (word : List α) : List α → Option (List α × List α)
  | [] => if word = [] then some ([], []) else none
  | c :: s =>
      if word.isPrefixOf (c :: s) then some ([], (c :: s).drop word.length)
      else (strstr word s).map (fun found => (c :: found.1, found.2))

/-- Every occurrence of the word begins there or later. -/
def First (word front s : List α) : Prop :=
  ∀ p q, s = p ++ word ++ q → front.length ≤ p.length

theorem drop_of_isPrefixOf (h : word.isPrefixOf s = true) : s = word ++ s.drop word.length :=
  (List.prefix_iff_eq_append.mp (List.isPrefixOf_iff_prefix.mp h)).symm

/-- What the result of the search says. -/
theorem strstr_spec (word s : List α) : match strstr word s with
    | none => ∀ p q, s ≠ p ++ word ++ q
    | some (front, behind) => s = front ++ word ++ behind ∧ First word front s := by
  induction s with
  | nil =>
      unfold strstr
      by_cases hword : word = []
      · rw [if_pos hword]
        exact ⟨by simp [hword], fun p q _ => Nat.zero_le _⟩
      · rw [if_neg hword]
        intro p q heq
        simp [hword] at heq
  | cons c s ih =>
      unfold strstr
      by_cases hstarts : word.isPrefixOf (c :: s) = true
      · rw [if_pos hstarts]
        exact ⟨drop_of_isPrefixOf hstarts, fun p q _ => Nat.zero_le _⟩
      · rw [if_neg hstarts]
        have hlater : ∀ p q, c :: s = p ++ word ++ q → ∃ p', p = c :: p' ∧ s = p' ++ word ++ q := by
          intro p q heq
          cases p with
          | nil =>
              rw [List.nil_append] at heq
              exact absurd (List.isPrefixOf_iff_prefix.mpr ⟨q, heq.symm⟩) hstarts
          | cons d p =>
              rw [List.cons_append, List.cons_append] at heq
              rcases List.cons.inj heq with ⟨rfl, htail⟩
              exact ⟨p, rfl, htail⟩
        cases hfound : strstr word s with
        | none =>
            rw [hfound] at ih
            intro p q heq
            rcases hlater p q heq with ⟨p', _, htail⟩
            exact ih p' q htail
        | some found =>
            rw [hfound] at ih
            constructor
            · rw [List.cons_append, List.cons_append, ← ih.1]
            · intro p q heq
              rcases hlater p q heq with ⟨p', rfl, htail⟩
              have := ih.2 p' q htail
              rw [List.length_cons, List.length_cons]
              omega

theorem eq_of_strstr (h : strstr word s = some (front, behind)) : s = front ++ word ++ behind := by
  have hspec := strstr_spec word s
  rw [h] at hspec
  exact hspec.1

theorem first_of_strstr (h : strstr word s = some (front, behind)) : First word front s := by
  have hspec := strstr_spec word s
  rw [h] at hspec
  exact hspec.2

/-- The search finds the first occurrence. -/
theorem strstr_eq_some_iff :
    strstr word s = some (front, behind) ↔ s = front ++ word ++ behind ∧ First word front s := by
  constructor
  · intro h
    exact ⟨eq_of_strstr h, first_of_strstr h⟩
  · rintro ⟨heq, hfirst⟩
    have hspec := strstr_spec word s
    cases hfound : strstr word s with
    | none =>
        rw [hfound] at hspec
        exact absurd heq (hspec front behind)
    | some found =>
        rw [hfound] at hspec
        rcases hspec with ⟨hsame, hearlier⟩
        have hlen : found.1.length = front.length :=
          Nat.le_antisymm (hearlier front behind heq) (hfirst found.1 found.2 hsame)
        have happend : found.1 ++ (word ++ found.2) = front ++ (word ++ behind) := by
          rw [← List.append_assoc, ← List.append_assoc, ← hsame, ← heq]
        rcases List.append_inj happend hlen with ⟨hfront, hrest⟩
        have hbehind := List.append_cancel_left hrest
        rw [← hfront, ← hbehind]

theorem strstr_eq_none_iff : strstr word s = none ↔ ¬ word <:+: s := by
  have hspec := strstr_spec word s
  cases hfound : strstr word s with
  | none =>
      rw [hfound] at hspec
      constructor
      · rintro _ ⟨p, q, heq⟩
        exact hspec p q heq.symm
      · intro _
        rfl
  | some found =>
      rw [hfound] at hspec
      constructor
      · intro h
        cases h
      · intro h
        exact absurd ⟨found.1, found.2, hspec.1.symm⟩ h

/-- A word is found behind a text without its first letter. -/
theorem strstr_of_notMem {c : α} (h : c ∉ front) (word behind : List α) :
    strstr (c :: word) (front ++ (c :: word) ++ behind) = some (front, behind) := by
  rw [strstr_eq_some_iff]
  constructor
  · rfl
  · intro p q heq
    by_contra hlt
    rw [List.append_assoc, List.append_assoc, List.append_eq_append_iff] at heq
    rcases heq with ⟨more, hp, _⟩ | ⟨more, hfront, hrest⟩
    · apply hlt
      rw [hp, List.length_append]
      exact Nat.le_add_right _ _
    · cases more with
      | nil =>
          rw [List.append_nil] at hfront
          exact hlt (Nat.le_of_eq (congrArg List.length hfront))
      | cons d more =>
          rw [List.cons_append, List.cons_append] at hrest
          apply h
          rw [hfront, (List.cons.inj hrest).1]
          simp

/-- A letter is found behind a text without it. -/
theorem strstr_letter_eq_some_iff {c : α} :
    strstr [c] s = some (front, behind) ↔ s = front ++ c :: behind ∧ c ∉ front := by
  constructor
  · intro h
    have heq := eq_of_strstr h
    rw [List.append_assoc] at heq
    constructor
    · exact heq
    · intro hmem
      rcases List.append_of_mem hmem with ⟨p, q, hsplit⟩
      have hle := first_of_strstr h p (q ++ c :: behind) (by rw [heq, hsplit]; simp)
      rw [hsplit, List.length_append, List.length_cons] at hle
      omega
  · rintro ⟨rfl, hfront⟩
    have hfound := strstr_of_notMem hfront [] behind
    rwa [List.append_assoc] at hfound

theorem strstr_letter_eq_none_iff {c : α} : strstr [c] s = none ↔ c ∉ s := by
  rw [strstr_eq_none_iff, List.singleton_infix_iff]

/-- The first occurrence stays the first when something is appended. -/
theorem strstr_append_right (h : strstr word s = some (front, behind)) (rest : List α) :
    strstr word (s ++ rest) = some (front, behind ++ rest) := by
  rw [strstr_eq_some_iff]
  constructor
  · rw [eq_of_strstr h, List.append_assoc]
  · intro p q heq
    by_contra hlt
    -- an occurrence further in front ends inside of the text
    have hlen : (p ++ word).length ≤ s.length := by
      rw [eq_of_strstr h]
      simp only [List.length_append]
      omega
    have hstarts : p ++ word <+: s :=
      List.prefix_of_prefix_length_le ⟨q, heq.symm⟩ (List.prefix_append s rest) hlen
    rcases hstarts with ⟨more, hmore⟩
    exact hlt (first_of_strstr h p more hmore.symm)

/-- A letter that the word does not have separates the texts on both sides. -/
theorem strstr_separated {c : α} (hword : word ≠ []) (hc : c ∉ word) (hno : ¬ word <:+: s)
    (rest : List α) :
    strstr word (s ++ c :: rest) =
      (strstr word rest).map (fun found => (s ++ c :: found.1, found.2)) := by
  induction s with
  | nil =>
      have hstarts : ¬ word.isPrefixOf (c :: rest) = true := by
        intro h
        rcases List.exists_cons_of_ne_nil hword with ⟨d, more, rfl⟩
        rcases List.isPrefixOf_iff_prefix.mp h with ⟨tail, htail⟩
        rw [List.cons_append] at htail
        apply hc
        rw [(List.cons.inj htail).1]
        exact List.mem_cons_self
      rw [List.nil_append, strstr, if_neg hstarts]
      rfl
  | cons d s ih =>
      have hstarts : ¬ word.isPrefixOf (d :: (s ++ c :: rest)) = true := by
        intro h
        rcases List.isPrefixOf_iff_prefix.mp h with ⟨tail, htail⟩
        rw [← List.cons_append, List.append_eq_append_iff] at htail
        rcases htail with ⟨more, heq, _⟩ | ⟨more, heq, hrest⟩
        · exact hno ⟨[], more, heq.symm⟩
        · cases more with
          | nil =>
              apply hno
              rw [heq, List.append_nil]
          | cons e more =>
              apply hc
              rw [heq, (List.cons.inj hrest).1]
              simp
      have htail : ¬ word <:+: s := fun h => hno (h.trans (List.suffix_cons d s).isInfix)
      rw [List.cons_append, strstr, if_neg hstarts, ih htail, Option.map_map]
      rfl

/-- The text behind the first occurrence of a word, or the whole text. -/
def skipPast (word s : List α) : List α :=
  match strstr word s with
  | none => s
  | some (_, behind) => behind

theorem skipPast_eq_iff :
    skipPast word s = behind ↔
      (¬ word <:+: s ∧ s = behind) ∨ ∃ front, s = front ++ word ++ behind ∧ First word front s := by
  unfold skipPast
  cases hfound : strstr word s with
  | none =>
      have hno := strstr_eq_none_iff.mp hfound
      constructor
      · intro h
        exact Or.inl ⟨hno, h⟩
      · rintro (⟨_, h⟩ | ⟨front, h, _⟩)
        · exact h
        · exact absurd ⟨front, behind, h.symm⟩ hno
  | some found =>
      have heq := eq_of_strstr hfound
      constructor
      · rintro rfl
        exact Or.inr ⟨found.1, heq, first_of_strstr hfound⟩
      · rintro (⟨hno, _⟩ | ⟨front, h, hfirst⟩)
        · exact absurd ⟨found.1, found.2, heq.symm⟩ hno
        · have hsame := strstr_eq_some_iff.mpr ⟨h, hfirst⟩
          rw [hfound] at hsame
          exact congrArg Prod.snd (Option.some.inj hsame)

/-- The text behind an occurrence of a word is shorter. -/
theorem length_behind_lt (hword : word ≠ []) (h : strstr word s = some (front, behind)) :
    behind.length < s.length := by
  have hpos := List.length_pos_of_ne_nil hword
  rw [eq_of_strstr h, List.length_append, List.length_append]
  omega

/-! ## Replacing -/

/-- All occurrences of {lit}`find`, from left to right and without overlap, replaced by
{lit}`rep`. -/
def replaceAll (find rep : List α) : List α → List α
  | [] => []
  | c :: s =>
      if find.isPrefixOf (c :: s) ∧ find ≠ [] then
        rep ++ replaceAll find rep ((c :: s).drop find.length)
      else c :: replaceAll find rep s
termination_by s => s.length
decreasing_by
  · rename_i h
    have hpos := List.length_pos_of_ne_nil h.2
    rw [List.length_drop, List.length_cons]
    omega
  · exact Nat.lt_succ_self _

variable {find rep : List α}

theorem replaceAll_of_notInfix (h : ¬ find <:+: s) : replaceAll find rep s = s := by
  induction s with
  | nil => rw [replaceAll]
  | cons c s ih =>
      have hstarts : ¬ find.isPrefixOf (c :: s) = true :=
        fun hpre => h (List.isPrefixOf_iff_prefix.mp hpre).isInfix
      have htail : ¬ find <:+: s := fun hword => h (hword.trans (List.suffix_cons c s).isInfix)
      rw [replaceAll, if_neg (fun hpre => hstarts hpre.1), ih htail]

theorem replaceAll_of_strstr (hfind : find ≠ []) (h : strstr find s = some (front, behind)) :
    replaceAll find rep s = front ++ rep ++ replaceAll find rep behind := by
  induction s generalizing front with
  | nil => simp [strstr, hfind] at h
  | cons c s ih =>
      unfold strstr at h
      by_cases hstarts : find.isPrefixOf (c :: s) = true
      · rw [if_pos hstarts] at h
        cases h
        rw [replaceAll, if_pos ⟨hstarts, hfind⟩, List.nil_append]
      · rw [if_neg hstarts] at h
        rcases Option.map_eq_some_iff.mp h with ⟨found, hfound, heq⟩
        cases heq
        rw [replaceAll, if_neg (fun hpre => hstarts hpre.1), ih hfound]
        rfl

/-- A replacement that is no shorter than the word makes no text shorter. -/
theorem le_length_replaceAll (hfind : find ≠ []) (hrep : find.length ≤ rep.length) (s : List α) :
    s.length ≤ (replaceAll find rep s).length := by
  cases h : strstr find s with
  | none => rw [replaceAll_of_notInfix (strstr_eq_none_iff.mp h)]
  | some found =>
      rcases found with ⟨front, behind⟩
      have hlt := length_behind_lt hfind h
      have ih := le_length_replaceAll hfind hrep behind
      rw [replaceAll_of_strstr hfind h, eq_of_strstr h]
      simp only [List.length_append]
      omega
termination_by s.length

end Substr
end Lib
end ZyxelRouter
