import Mathlib.Data.List.Basic

/-!
# Copying and appending texts

{lit}`ZOS_STRNCPY` and {lit}`zos_strcat` of {lit}`libzos`.  A text is what stands in a buffer in front
of its terminator.

Main results:

- Theorem {lit}`zosStrcat_of_fits`: a text that fits is appended.
- Theorem {lit}`zosStrcat_success`: it is reported as appended unless the buffer was full before.
- Theorem {lit}`zosStrcat_eq_take`: of one that does not fit the end is missing.
- Theorem {lit}`zosStrcat_success_iff`: when success is reported.
-/

namespace ZyxelRouter
namespace Zos

variable {α : Type}

/-- {lit}`ZOS_SUCCESS`. -/
def zosSuccess : Int := 0

/-- {lit}`ZOS_FAIL`. -/
def zosFail : Int := -1

/-- {lit}`ZOS_STRNCPY(d, s, l)` for {lit}`l` that is not zero: the text that {lit}`d` holds then. -/
def zosStrncpy (s : List α) (l : Nat) : List α :=
  s.take (l - 1)

/-- The second loop of {lit}`zos_strcat`: what is appended of {lit}`source` while {lit}`bufferSize`
bytes are left, one of them for the terminator. -/
def strcatCopy : List α → Nat → Int × List α
  | [], _ => (zosSuccess, [])
  | c :: source, bufferSize =>
      if bufferSize > 1 then
        let (ret, copied) := strcatCopy source (bufferSize - 1)
        (ret, c :: copied)
      else (zosFail, [])

/-- {lit}`zos_strcat` behind its first test: its first loop goes to the end of {lit}`destination`. -/
def strcatSkip : List α → List α → Nat → Int × List α
  | [], source, bufferSize => strcatCopy source bufferSize
  | d :: destination, source, bufferSize =>
      if bufferSize - 1 ≤ 1 then (zosFail, d :: destination)
      else
        let (ret, text) := strcatSkip destination source (bufferSize - 1)
        (ret, d :: text)

/-- {lit}`zos_strcat`: the result, and the text in {lit}`destination`. -/
def zosStrcat (destination source : List α) (bufferSize : Nat) : Int × List α :=
  if bufferSize = 0 then (zosFail, destination)
  else strcatSkip destination source bufferSize

variable {destination source : List α} {bufferSize : Nat}

theorem strcatCopy_of_fits (h : source.length < bufferSize) :
    strcatCopy source bufferSize = (zosSuccess, source) := by
  induction source generalizing bufferSize with
  | nil => rfl
  | cons c source ih =>
      rw [List.length_cons] at h
      rw [strcatCopy, if_pos (by omega), ih (by omega)]

/-- Into a buffer that is full nothing is appended. -/
theorem strcatSkip_full (hne : destination ≠ []) (h : bufferSize ≤ destination.length + 1) :
    strcatSkip destination source bufferSize = (zosFail, destination) := by
  induction destination generalizing bufferSize with
  | nil => exact absurd rfl hne
  | cons d destination ih =>
      rw [List.length_cons] at h
      unfold strcatSkip
      by_cases hsize : bufferSize - 1 ≤ 1
      · rw [if_pos hsize]
      · have hrest : destination ≠ [] := by
          intro hnil
          rw [hnil, List.length_nil] at h
          omega
        rw [if_neg hsize, ih hrest (by omega)]

/-- Behind a text that leaves room another one is appended. -/
theorem strcatSkip_of_room (hroom : destination = [] ∨ destination.length + 1 < bufferSize)
    (hfits : destination.length + source.length < bufferSize) :
    strcatSkip destination source bufferSize = (zosSuccess, destination ++ source) := by
  induction destination generalizing bufferSize with
  | nil =>
      rw [List.length_nil, Nat.zero_add] at hfits
      exact strcatCopy_of_fits hfits
  | cons d destination ih =>
      rw [List.length_cons] at hfits hroom
      have hsize : ¬ bufferSize - 1 ≤ 1 := by
        rcases hroom with hnil | hroom
        · cases hnil
        · omega
      have hrest : destination.length + 1 < bufferSize - 1 := by
        rcases hroom with hnil | hroom
        · cases hnil
        · omega
      rw [strcatSkip, if_neg hsize, ih (Or.inr hrest) (by omega)]
      rfl

/-- A text that fits is appended, and so reported unless the buffer was full before. -/
theorem zosStrcat_success (hroom : destination = [] ∨ destination.length + 1 < bufferSize)
    (hfits : destination.length + source.length < bufferSize) :
    zosStrcat destination source bufferSize = (zosSuccess, destination ++ source) := by
  rw [zosStrcat, if_neg (by omega)]
  exact strcatSkip_of_room hroom hfits

/-- A text that fits is appended. -/
theorem zosStrcat_of_fits (hfits : destination.length + source.length < bufferSize) :
    (zosStrcat destination source bufferSize).2 = destination ++ source := by
  by_cases hroom : destination = [] ∨ destination.length + 1 < bufferSize
  · rw [zosStrcat_success hroom hfits]
  · rw [not_or] at hroom
    -- the buffer is full, so nothing is left to append
    have hsource : source = [] := by
      apply List.eq_nil_of_length_eq_zero
      omega
    rw [zosStrcat, if_neg (by omega), strcatSkip_full hroom.1 (by omega), hsource, List.append_nil]

theorem strcatCopy_eq_take (hsize : 0 < bufferSize) :
    (strcatCopy source bufferSize).2 = source.take (bufferSize - 1) := by
  induction source generalizing bufferSize with
  | nil => simp [strcatCopy]
  | cons c source ih =>
      rw [strcatCopy]
      by_cases hroom : bufferSize > 1
      · obtain ⟨k, rfl⟩ : ∃ k, bufferSize = k + 2 := ⟨bufferSize - 2, by omega⟩
        have hrest := ih (by omega : 0 < k + 2 - 1)
        rw [if_pos hroom]
        simpa using hrest
      · obtain rfl : bufferSize = 1 := by omega
        rw [if_neg hroom]
        rfl

/-- Of a text that does not fit the end is missing. -/
theorem zosStrcat_eq_take (h : destination.length < bufferSize) :
    (zosStrcat destination source bufferSize).2 = (destination ++ source).take (bufferSize - 1) := by
  rw [zosStrcat, if_neg (by omega)]
  induction destination generalizing bufferSize with
  | nil => exact strcatCopy_eq_take h
  | cons d destination ih =>
      rw [List.length_cons] at h
      rw [strcatSkip]
      by_cases hsize : bufferSize - 1 ≤ 1
      · obtain rfl : destination = [] := List.eq_nil_of_length_eq_zero (by omega)
        obtain rfl : bufferSize = 2 := by
          rw [List.length_nil] at h
          omega
        rw [if_pos hsize]
        rfl
      · obtain ⟨k, rfl⟩ : ∃ k, bufferSize = k + 2 := ⟨bufferSize - 2, by omega⟩
        have hrest := ih (by omega : destination.length < k + 2 - 1)
        rw [if_neg hsize]
        simpa using hrest

theorem zosFail_ne_zosSuccess : zosFail ≠ zosSuccess := by
  decide

theorem strcatCopy_success_iff (hsize : 0 < bufferSize) :
    (strcatCopy source bufferSize).1 = zosSuccess ↔ source.length < bufferSize := by
  induction source generalizing bufferSize with
  | nil => exact iff_of_true rfl hsize
  | cons c source ih =>
      rw [strcatCopy, List.length_cons]
      by_cases hroom : bufferSize > 1
      · rw [if_pos hroom]
        simp only
        rw [ih (by omega)]
        omega
      · rw [if_neg hroom]
        exact iff_of_false zosFail_ne_zosSuccess (by omega)

theorem strcatCopy_reports (source : List α) (bufferSize : Nat) :
    (strcatCopy source bufferSize).1 = zosSuccess ∨ (strcatCopy source bufferSize).1 = zosFail := by
  induction source generalizing bufferSize with
  | nil => exact Or.inl rfl
  | cons c source ih =>
      rw [strcatCopy]
      split
      · exact ih (bufferSize - 1)
      · exact Or.inr rfl

/-- Success or a failure is reported. -/
theorem zosStrcat_reports (destination source : List α) (bufferSize : Nat) :
    (zosStrcat destination source bufferSize).1 = zosSuccess ∨
      (zosStrcat destination source bufferSize).1 = zosFail := by
  rw [zosStrcat]
  split
  · exact Or.inr rfl
  · induction destination generalizing bufferSize with
    | nil => exact strcatCopy_reports source bufferSize
    | cons d destination ih =>
        rw [strcatSkip]
        split
        · exact Or.inr rfl
        · exact ih (bufferSize - 1) (by omega)

/-- What does not fit is reported, and so is any text for a buffer that was full before. -/
theorem zosStrcat_success_iff (h : destination.length < bufferSize) :
    (zosStrcat destination source bufferSize).1 = zosSuccess ↔
      (destination = [] ∨ destination.length + 1 < bufferSize) ∧
        destination.length + source.length < bufferSize := by
  rw [zosStrcat, if_neg (by omega)]
  induction destination generalizing bufferSize with
  | nil =>
      rw [strcatSkip, strcatCopy_success_iff h, List.length_nil, Nat.zero_add]
      simp
  | cons d destination ih =>
      rw [List.length_cons] at h
      rw [strcatSkip]
      by_cases hsize : bufferSize - 1 ≤ 1
      · rw [if_pos hsize]
        refine iff_of_false zosFail_ne_zosSuccess ?_
        rintro ⟨hnil | hroom, -⟩
        · cases hnil
        · rw [List.length_cons] at hroom
          omega
      · have hsome : d :: destination ≠ [] := by simp
        rw [if_neg hsize]
        simp only
        rw [ih (by omega), List.length_cons, or_iff_right hsome]
        constructor
        · rintro ⟨rfl | hroom, hfits⟩
          · rw [List.length_nil] at hfits ⊢
            omega
          · omega
        · rintro ⟨hroom, hfits⟩
          exact ⟨.inr (by omega), by omega⟩

end Zos
end ZyxelRouter
