import ZyxelRouter.Lib.Substrings
import ZyxelRouter.Zos.StrCat

/-!
# Replacing a word in a text

{lit}`zyUtilStrReplace` of {lit}`common.c` and its copy {lit}`str_replace` build the new text in a
buffer of 65 bytes.  For each occurrence of the word the buffer is cut at {lit}`gap`, and the
replacement and all that stands behind the occurrence are appended.

Main results:

- Theorem {lit}`replaceLoop_eq`: what the loop does from any of its turns on.
- Theorem {lit}`strReplace_replaces`: both functions end and replace all occurrences, as long as the
  text and the result have at most 64 characters.
-/

namespace ZyxelRouter
namespace ZyUtil

open Lib Zos

variable {α : Type} [DecidableEq α]

/-! ## The functions -/

/-- {lit}`sizeof(result)`. -/
def resultSize : Nat := 65

/-- {lit}`result[gap] = '\0'`, unless this is outside of the buffer. -/
def cutResult (result : List α) (gap : Nat) : Option (List α) :=
  if gap < resultSize then some (result.take gap) else none

/-- The loop, in front of the search: {lit}`strTemp` is what is left of the source.  It has no result
when it runs out of fuel or leaves the buffer. -/
def replaceLoop (findStr repStr : List α) : Nat → List α → Nat → List α → Option (List α)
  | 0, _, _, _ => none
  | fuel + 1, result, gap, strTemp =>
      match Substr.strstr findStr strTemp with
      | none => some result
      | some (skipped, behind) => do
          let gap := gap + skipped.length
          let result ← cutResult result gap
          let result := (zosStrcat result repStr resultSize).2
          let gap := gap + repStr.length
          let result := (zosStrcat result behind resultSize).2
          replaceLoop findStr repStr fuel result gap behind

/-- What both functions leave in {lit}`source`. -/
def replaceIn (fuel : Nat) (source findStr repStr : List α) : Option (List α) := do
  let result ← replaceLoop findStr repStr fuel (zosStrncpy source resultSize) 0 source
  pure (zosStrncpy result (result.length + 1))

/-- {lit}`zyUtilStrReplace`. -/
def zyUtilStrReplace (fuel : Nat) (source findStr repStr : List α) : Option (List α) :=
  replaceIn fuel source findStr repStr

/-- {lit}`str_replace`. -/
def strReplace (fuel : Nat) (source findStr repStr : List α) : Option (List α) :=
  replaceIn fuel source findStr repStr

/-! ## The loop -/

variable {findStr repStr done rest skipped behind : List α}

/-- After one more replacement the text is no longer than before or than in the end. -/
theorem length_replaced_lt (hfind : findStr ≠ [])
    (hfound : Substr.strstr findStr rest = some (skipped, behind))
    (hnow : (done ++ rest).length < resultSize)
    (hend : (done ++ Substr.replaceAll findStr repStr rest).length < resultSize) :
    (done ++ skipped ++ repStr ++ behind).length < resultSize := by
  rw [Substr.replaceAll_of_strstr hfind hfound] at hend
  rw [Substr.eq_of_strstr hfound] at hnow
  simp only [List.length_append] at hnow hend ⊢
  by_cases hshort : repStr.length ≤ findStr.length
  · omega
  · have hgrow := Substr.le_length_replaceAll hfind (Nat.le_of_not_le hshort) behind
    omega

/-- One turn of the loop: {lit}`done` is finished, {lit}`rest` is left of the source. -/
theorem replaceLoop_turn (fuel : Nat) (hfind : findStr ≠ [])
    (hfound : Substr.strstr findStr rest = some (skipped, behind))
    (hnow : (done ++ rest).length < resultSize)
    (hend : (done ++ Substr.replaceAll findStr repStr rest).length < resultSize) :
    replaceLoop findStr repStr (fuel + 1) (done ++ rest) done.length rest =
      replaceLoop findStr repStr fuel ((done ++ skipped ++ repStr) ++ behind)
        (done ++ skipped ++ repStr).length behind := by
  have hlen := length_replaced_lt hfind hfound hnow hend
  have hcut : cutResult (done ++ rest) (done.length + skipped.length) = some (done ++ skipped) := by
    have hgap : done.length + skipped.length < resultSize := by
      simp only [List.length_append] at hlen
      omega
    rw [cutResult, if_pos hgap, Substr.eq_of_strstr hfound, ← List.length_append, List.append_assoc,
      ← List.append_assoc, List.take_left]
  have hrep : (zosStrcat (done ++ skipped) repStr resultSize).2 = done ++ skipped ++ repStr := by
    apply zosStrcat_of_fits
    simp only [List.length_append] at hlen ⊢
    omega
  have hbehind : (zosStrcat (done ++ skipped ++ repStr) behind resultSize).2 =
      done ++ skipped ++ repStr ++ behind := by
    apply zosStrcat_of_fits
    rwa [← List.length_append]
  simp only [replaceLoop, hfound, hcut, Option.bind_eq_bind, Option.bind_some, hrep, hbehind]
  rw [List.length_append, List.length_append]

/-- From each of its turns on the loop replaces all occurrences that are left. -/
theorem replaceLoop_eq {fuel : Nat} (hfind : findStr ≠ []) (hfuel : rest.length < fuel)
    (hnow : (done ++ rest).length < resultSize)
    (hend : (done ++ Substr.replaceAll findStr repStr rest).length < resultSize) :
    replaceLoop findStr repStr fuel (done ++ rest) done.length rest =
      some (done ++ Substr.replaceAll findStr repStr rest) := by
  induction fuel generalizing done rest with
  | zero => omega
  | succ fuel ih =>
      cases hfound : Substr.strstr findStr rest with
      | none =>
          rw [Substr.replaceAll_of_notInfix (Substr.strstr_eq_none_iff.mp hfound)]
          simp only [replaceLoop, hfound]
      | some found =>
          rcases found with ⟨skipped, behind⟩
          have hlt := Substr.length_behind_lt hfind hfound
          have hlen := length_replaced_lt hfind hfound hnow hend
          rw [replaceLoop_turn fuel hfind hfound hnow hend]
          rw [Substr.replaceAll_of_strstr hfind hfound, ← List.append_assoc,
            ← List.append_assoc] at hend ⊢
          exact ih (by omega) hlen hend

/-! ## The result -/

variable {source : List α}

theorem replaceIn_eq {fuel : Nat} (hsource : source.length ≤ 64) (hfind : findStr ≠ [])
    (hresult : (Substr.replaceAll findStr repStr source).length ≤ 64)
    (hfuel : source.length < fuel) :
    replaceIn fuel source findStr repStr = some (Substr.replaceAll findStr repStr source) := by
  have hcopy : zosStrncpy source resultSize = source := List.take_of_length_le hsource
  have hloop : replaceLoop findStr repStr fuel ([] ++ source) 0 source =
      some ([] ++ Substr.replaceAll findStr repStr source) :=
    replaceLoop_eq hfind hfuel (Nat.lt_succ_of_le hsource) (Nat.lt_succ_of_le hresult)
  rw [List.nil_append, List.nil_append] at hloop
  rw [replaceIn, hcopy, hloop]
  simp [zosStrncpy]

/-- Both functions end and replace all occurrences, from left to right and without overlap. -/
theorem strReplace_replaces {fuel : Nat} (hsource : source.length ≤ 64) (hfind : findStr ≠ [])
    (hresult : (Substr.replaceAll findStr repStr source).length ≤ 64)
    (hfuel : source.length < fuel) :
    zyUtilStrReplace fuel source findStr repStr =
        some (Substr.replaceAll findStr repStr source) ∧
      strReplace fuel source findStr repStr = some (Substr.replaceAll findStr repStr source) :=
  ⟨replaceIn_eq hsource hfind hresult hfuel, replaceIn_eq hsource hfind hresult hfuel⟩

/-- The dashes of an address become colons, and a replacement may have the word in it. -/
theorem strReplace_replaces_dashes :
    zyUtilStrReplace 9 "a-b--".toList ['-'] "-:-".toList =
        some (Substr.replaceAll ['-'] "-:-".toList "a-b--".toList) ∧
      strReplace 9 "a-b--".toList ['-'] "-:-".toList =
        some (Substr.replaceAll ['-'] "-:-".toList "a-b--".toList) := by
  have hresult : Substr.replaceAll ['-'] "-:-".toList "a-b--".toList = "a-:-b-:--:-".toList := by
    simp [Substr.replaceAll, List.isPrefixOf]
  exact strReplace_replaces (by decide) (by decide) (by rw [hresult]; decide) (by decide)

end ZyUtil
end ZyxelRouter
