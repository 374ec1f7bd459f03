import Mathlib.Algebra.Ring.Parity
import ZyxelRouter.Lib.SplitText
import ZyxelRouter.Lib.Substrings
import ZyxelRouter.Zos.StrCat

/-!
# Lists of terms with commas

{lit}`zyUtilStrCsvStripString`, {lit}`zyUtilCsvStringStripTerm` and {lit}`zyUtilStrCsvAppend` of
{lit}`common.c`; all allocations succeed.  The first takes the result of {lit}`zos_strcat`, which is
zero on success, for a pointer: it never appends a comma, and the flag that tells whether a term was
stripped changes with each term.  The second removes the first place where the term stands as a text.

Main results:

- Theorem {lit}`zyUtilStrCsvStripString_eq`: what is left are the other terms without commas and
  without the last character, if the number of terms is odd.
- Theorem {lit}`stripTerm_correct_iff`: a term is stripped correctly if no term in front of it has it as
  a part.
- Theorem {lit}`csvTerms_correct_iff`: when the three functions do what they are for.
-/

namespace ZyxelRouter
namespace ZyUtil

open Lib Zos

/-! ## The functions -/

/-- The loop over the tokens: {lit}`outputCsvStr` is a null pointer exactly if {lit}`zos_strcat` was not
called or returned zero. -/
def stripLoop (size : Nat) (string : List Char) : List (List Char) → List Char → Bool →
    List Char × Bool
  | [], stripCsvStr, strip => (stripCsvStr, strip)
  | p :: tokens, stripCsvStr, strip =>
      let (outputCsvStr, stripCsvStr) :=
        if p ≠ [] ∧ p ≠ string then
          let (ret, text) := zosStrcat stripCsvStr p size
          (ret ≠ 0, text)
        else (false, stripCsvStr)
      let (outputCsvStr, stripCsvStr) :=
        if outputCsvStr then
          let (ret, text) := zosStrcat stripCsvStr [','] size
          (decide (ret ≠ 0), text)
        else (false, stripCsvStr)
      stripLoop size string tokens stripCsvStr (!outputCsvStr && !strip)

/-- {lit}`zyUtilStrCsvStripString`. -/
def zyUtilStrCsvStripString (csvStr string : List Char) : Option (List Char) :=
  if csvStr = [] ∨ string = [] then none
  else
    let (stripCsvStr, strip) :=
      stripLoop (csvStr.length + 1) string (strtok ',' csvStr) [] false
    let stripCsvStr := if stripCsvStr ≠ [] then stripCsvStr.dropLast else stripCsvStr
    if strip then some stripCsvStr else none

/-- {lit}`zyUtilCsvStringStripTerm`; {lit}`new_Csv` is zeroed when it is allocated. -/
def zyUtilCsvStringStripTerm (csv term : List Char) : Option (List Char) :=
  if csv = [] then none
  else
    match Substr.strstr term csv with
    | none => none
    | some (front, str2) =>
        if front = [] then
          match str2 with
          | [] => some []
          | _ :: str2 => some (zosStrncpy str2 csv.length)
        else
          let newCsv := zosStrncpy csv front.length
          if str2 ≠ [] then some (zosStrcat newCsv str2 csv.length).2 else some newCsv

/-- {lit}`zyUtilStrCsvAppend`: the text that {lit}`*csv` points to then; it may be a null pointer
before. -/
def zyUtilStrCsvAppend (csv : Option (List Char)) (string : List Char) : Option (List Char) :=
  if string = [] then csv
  else
    match csv with
    | some (c :: cs) =>
        let csvLen := (c :: cs).length
        let n := string.length + 2
        -- {lit}`zos_snprintf` writes behind the copied text
        some (zosStrncpy (c :: cs) (csvLen + n) ++ zosStrncpy (',' :: string) n)
    | _ => some (zosStrncpy string (string.length + 1))

/-! ## What they are for -/

/-- A list of terms as a text. -/
def csvOf (terms : List (List Char)) : List Char :=
  [','].intercalate terms

/-- A term is not empty and has no comma. -/
structure IsTerm (t : List Char) : Prop where
  ne : t ≠ []
  comma : ',' ∉ t

attribute [local instance] lawfulBEq_text in
/-- All occurrences of a term are stripped, if there are any. -/
def stripAll (t : List Char) (terms : List (List Char)) : Option (List Char) :=
  if t ∈ terms then some (csvOf (terms.filter (· ≠ t))) else none

attribute [local instance] lawfulBEq_text in
/-- The first occurrence of a term is stripped, if there is one. -/
def stripFirst (t : List Char) (terms : List (List Char)) : Option (List Char) :=
  if t ∈ terms then some (csvOf (terms.erase t)) else none

variable {t u : List Char} {terms : List (List Char)}

theorem csvOf_ne_nil (hne : terms ≠ []) (hterms : ∀ u ∈ terms, IsTerm u) : csvOf terms ≠ [] := by
  rcases List.exists_cons_of_ne_nil hne with ⟨first, rest, rfl⟩
  have hfirst := (hterms first List.mem_cons_self).ne
  have hmiddle := intercalate_middle ',' [] first rest
  rw [csvOf, ← List.nil_append (first :: rest), hmiddle]
  simp [hfirst]

theorem csvOf_injective {terms' : List (List Char)} (hne : terms ≠ []) (hne' : terms' ≠ [])
    (h : ∀ u ∈ terms, ',' ∉ u) (h' : ∀ u ∈ terms', ',' ∉ u) (heq : csvOf terms = csvOf terms') :
    terms = terms' :=
  intercalate_injective hne hne' h h' heq

theorem length_flatten_le_csvOf (terms : List (List Char)) :
    terms.flatten.length ≤ (csvOf terms).length := by
  induction terms with
  | nil => simp
  | cons first rest ih =>
      rw [csvOf] at ih ⊢
      cases rest with
      | nil => simp
      | cons second rest =>
          rw [List.intercalate_cons_cons, List.flatten_cons]
          simp only [List.length_append] at ih ⊢
          omega

/-! ## Stripping by tokens -/

/-- One turn of the loop: no comma is appended, and the flag changes. -/
theorem stripLoop_cons {size : Nat} {p stripCsvStr : List Char} {tokens : List (List Char)}
    (hp : p ≠ []) (hfits : stripCsvStr.length + p.length < size) (strip : Bool) :
    stripLoop size t (p :: tokens) stripCsvStr strip =
      stripLoop size t tokens (if p ≠ t then stripCsvStr ++ p else stripCsvStr) (!strip) := by
  have hroom : stripCsvStr.length + 1 < size := by
    have := List.length_pos_of_ne_nil hp
    omega
  have hcat := zosStrcat_success (Or.inr hroom) hfits
  by_cases hpt : p = t
  · simp [stripLoop, hpt]
  · simp [stripLoop, hp, hpt, hcat, zosSuccess]

/-- The loop leaves the other terms without commas, and a flag that changed with each term. -/
theorem stripLoop_eq {size : Nat} {tokens : List (List Char)} (htokens : ∀ p ∈ tokens, p ≠ [])
    {stripCsvStr : List Char} (hfits : stripCsvStr.length + tokens.flatten.length < size)
    (strip : Bool) :
    stripLoop size t tokens stripCsvStr strip =
      (stripCsvStr ++ (tokens.filter (· ≠ t)).flatten,
        if Even tokens.length then strip else !strip) := by
  induction tokens generalizing stripCsvStr strip with
  | nil => simp [stripLoop]
  | cons p tokens ih =>
      rw [List.flatten_cons, List.length_append] at hfits
      rw [stripLoop_cons (htokens p List.mem_cons_self) (by omega)]
      have hrest : ∀ q ∈ tokens, q ≠ [] := fun q hq => htokens q (List.mem_cons_of_mem p hq)
      have hflag : (if Even tokens.length then !strip else !!strip) =
          if Even (p :: tokens).length then strip else !strip := by
        by_cases heven : Even tokens.length
        · simp [heven, Nat.even_add_one]
        · simp [heven, Nat.even_add_one]
      by_cases hpt : p = t
      · rw [if_neg (by simpa using hpt), ih hrest (by omega), hflag]
        simp [hpt]
      · rw [if_pos hpt, ih hrest (by rw [List.length_append]; omega), hflag]
        simp [hpt]

/-- The other terms without commas and without the last character, if the number of terms is odd. -/
theorem zyUtilStrCsvStripString_eq (hterms : ∀ u ∈ terms, IsTerm u) (ht : IsTerm t) :
    zyUtilStrCsvStripString (csvOf terms) t =
      if Even terms.length then none else some (terms.filter (· ≠ t)).flatten.dropLast := by
  by_cases hnil : terms = []
  · subst hnil
    simp [zyUtilStrCsvStripString, csvOf]
  · have hsplit : (csvOf terms).splitOn ',' = terms :=
      splitOn_eq_iff.mpr ⟨hnil, rfl, fun p hp => (hterms p hp).comma⟩
    have htokens : strtok ',' (csvOf terms) = terms := by
      rw [strtok_eq_splitOn, hsplit]
      rw [hsplit]
      intro hmem
      exact (hterms [] hmem).ne rfl
    have hfits : ([] : List Char).length + terms.flatten.length < (csvOf terms).length + 1 := by
      have := length_flatten_le_csvOf terms
      rw [List.length_nil]
      omega
    have hloop := stripLoop_eq (t := t) (fun p hp => (hterms p hp).ne) hfits false
    have hempty : ¬ (csvOf terms = [] ∨ t = []) := by
      rw [not_or]
      exact ⟨csvOf_ne_nil hnil hterms, ht.ne⟩
    rw [zyUtilStrCsvStripString, if_neg hempty, htokens, hloop, List.nil_append]
    have hlast : ∀ s : List Char, (if s ≠ [] then s.dropLast else s) = s.dropLast := by
      intro s
      cases s with
      | nil => rfl
      | cons c s => simp
    by_cases heven : Even terms.length
    · simp [heven]
    · simp only [heven, if_false, hlast]
      rfl

/-- All occurrences are stripped correctly only from an odd number of copies of the term, and nothing
is stripped only from an even number of terms. -/
theorem stripString_correct_iff (hterms : ∀ u ∈ terms, IsTerm u) (ht : IsTerm t) :
    zyUtilStrCsvStripString (csvOf terms) t = stripAll t terms ↔
      if t ∈ terms then Odd terms.length ∧ ∀ u ∈ terms, u = t else Even terms.length := by
  rw [zyUtilStrCsvStripString_eq hterms ht, stripAll]
  by_cases hmem : t ∈ terms
  · rw [if_pos hmem, if_pos hmem, ← Nat.not_even_iff_odd]
    have hfilter : (∀ u ∈ terms, u = t) ↔ terms.filter (· ≠ t) = [] := by
      rw [List.filter_eq_nil_iff]
      simp
    rw [hfilter]
    by_cases heven : Even terms.length
    · simp [heven]
    · simp only [heven, if_false, Option.some.injEq, not_false_eq_true, true_and]
      constructor
      · intro heq
        by_contra hne
        -- without its last character and commas the text is shorter
        rcases List.exists_mem_of_ne_nil _ hne with ⟨first, hfirst⟩
        have hpos : 0 < (terms.filter (· ≠ t)).flatten.length := by
          apply List.length_pos_of_ne_nil
          intro hflat
          have hnil := List.flatten_eq_nil_iff.mp hflat first hfirst
          exact (hterms first (List.mem_of_mem_filter hfirst)).ne hnil
        have hle := length_flatten_le_csvOf (terms.filter (· ≠ t))
        have hlen := congrArg List.length heq
        rw [List.length_dropLast] at hlen
        omega
      · intro hnil
        rw [hnil]
        rfl
  · rw [if_neg hmem, if_neg hmem]
    by_cases heven : Even terms.length
    · simp [heven]
    · simp [heven]

/-! ## Stripping by text -/

/-- The text in front of a term and the text behind it. -/
def csvBefore (before : List (List Char)) : List Char :=
  before.flatMap (· ++ [','])

def csvBehind (behind : List (List Char)) : List Char :=
  behind.flatMap (',' :: ·)

theorem csvOf_middle (before : List (List Char)) (u : List Char) (behind : List (List Char)) :
    csvOf (before ++ u :: behind) = csvBefore before ++ u ++ csvBehind behind :=
  intercalate_middle ',' before u behind

/-- Without its last comma the text in front of a term is a list of terms. -/
theorem csvBefore_concat (before : List (List Char)) (w : List Char) :
    csvBefore (before ++ [w]) = csvOf (before ++ [w]) ++ [','] := by
  rw [csvOf_middle]
  simp [csvBefore, csvBehind]

/-- A term is appended behind a comma. -/
theorem csvOf_concat (hne : terms ≠ []) (t : List Char) :
    csvOf (terms ++ [t]) = csvOf terms ++ ',' :: t := by
  rcases List.eq_nil_or_concat terms |>.resolve_left hne with ⟨init, last, hconcat⟩
  rw [List.concat_eq_append] at hconcat
  rw [csvOf_middle, hconcat, csvBefore_concat]
  simp [csvBehind]

/-- Behind the first term with {lit}`t` as a part, {lit}`t` is found in that term. -/
theorem strstr_csvOf (ht : IsTerm t) {before : List (List Char)} {x y : List Char}
    (hbefore : ∀ w ∈ before, ¬ t <:+: w) (hu : Substr.strstr t u = some (x, y))
    (behind : List (List Char)) :
    Substr.strstr t (csvOf (before ++ u :: behind)) =
      some (csvBefore before ++ x, y ++ csvBehind behind) := by
  rw [csvOf_middle]
  induction before with
  | nil =>
      rw [csvBefore, List.flatMap_nil, List.nil_append, List.nil_append]
      exact Substr.strstr_append_right hu _
  | cons w before ih =>
      have hrest := ih (fun w' hw' => hbefore w' (List.mem_cons_of_mem w hw'))
      have hsplit : csvBefore (w :: before) ++ u ++ csvBehind behind =
          w ++ ',' :: (csvBefore before ++ u ++ csvBehind behind) := by
        simp [csvBefore]
      rw [hsplit, Substr.strstr_separated ht.ne ht.comma (hbefore w List.mem_cons_self), hrest]
      simp [csvBefore]

/-- A term that is no part of any term is not found. -/
theorem strstr_csvOf_eq_none (ht : IsTerm t) (hno : ∀ w ∈ terms, ¬ t <:+: w) :
    Substr.strstr t (csvOf terms) = none := by
  induction terms with
  | nil =>
      rw [Substr.strstr_eq_none_iff]
      intro h
      exact ht.ne (List.eq_nil_of_infix_nil h)
  | cons w rest ih =>
      have hrest := ih (fun w' hw' => hno w' (List.mem_cons_of_mem w hw'))
      cases rest with
      | nil =>
          rw [csvOf, List.intercalate_singleton, Substr.strstr_eq_none_iff]
          exact hno w List.mem_cons_self
      | cons next rest =>
          have hsplit : csvOf (w :: next :: rest) = w ++ ',' :: csvOf (next :: rest) := by
            rw [csvOf, List.intercalate_cons_cons, csvOf]
            simp
          rw [hsplit, Substr.strstr_separated ht.ne ht.comma (hno w List.mem_cons_self), hrest]
          rfl

/-- The pieces that are left when {lit}`t` is taken out of the term {lit}`x ++ t ++ y`, together with
the character in front of it, or with the one behind it at the beginning of the text. -/
def leftPieces (before : List (List Char)) (x y : List Char) (behind : List (List Char)) :
    List (List Char) :=
  if x = [] then
    match before.getLast? with
    | none => if y = [] then behind else y.tail :: behind
    | some w => before.dropLast ++ (w ++ y) :: behind
  else before ++ (x.dropLast ++ y) :: behind

/-- A term that stands alone leaves the other terms. -/
theorem leftPieces_nil (before behind : List (List Char)) :
    leftPieces before [] [] behind = before ++ behind := by
  rcases List.eq_nil_or_concat before with rfl | ⟨init, w, rfl⟩
  · rfl
  · simp [leftPieces]

/-- Behind the beginning of the text the character in front of the place is dropped as well. -/
theorem stripTerm_behind (ht : IsTerm t) {csv front str2 : List Char} (hfront : front ≠ [])
    (hfound : Substr.strstr t csv = some (front, str2)) :
    zyUtilCsvStringStripTerm csv t = some (front.dropLast ++ str2) := by
  have hcsv := Substr.eq_of_strstr hfound
  have hpos := List.length_pos_of_ne_nil hfront
  have htpos := List.length_pos_of_ne_nil ht.ne
  have hne : csv ≠ [] := by
    rw [hcsv]
    simp [hfront]
  have hnew : zosStrncpy csv front.length = front.dropLast := by
    rw [zosStrncpy, hcsv, List.append_assoc, List.take_append_of_le_length (by omega),
      List.dropLast_eq_take]
  have hfits : front.dropLast.length + str2.length < csv.length := by
    rw [hcsv]
    simp only [List.length_append, List.length_dropLast]
    omega
  rw [zyUtilCsvStringStripTerm, if_neg hne]
  simp only [hfound, if_neg hfront, hnew, zosStrcat_of_fits hfits]
  cases str2 with
  | nil => simp
  | cons c str2 => simp

/-- At the beginning of the text the character behind the place is dropped as well. -/
theorem stripTerm_front (ht : IsTerm t) {csv str2 : List Char}
    (hfound : Substr.strstr t csv = some ([], str2)) :
    zyUtilCsvStringStripTerm csv t = some str2.tail := by
  have hcsv := Substr.eq_of_strstr hfound
  have htpos := List.length_pos_of_ne_nil ht.ne
  have hne : csv ≠ [] := by
    rw [hcsv]
    simp [ht.ne]
  rw [zyUtilCsvStringStripTerm, if_neg hne]
  simp only [hfound]
  cases str2 with
  | nil => rfl
  | cons c str2 =>
      have hfits : str2.length ≤ csv.length - 1 := by
        rw [hcsv]
        simp only [List.length_append, List.length_cons]
        omega
      simp [zosStrncpy, List.take_of_length_le hfits]

/-- What is left when the first term with {lit}`t` as a part is {lit}`u`. -/
theorem stripTerm_eq (ht : IsTerm t) {before behind : List (List Char)} {x y : List Char}
    (hbefore : ∀ w ∈ before, ¬ t <:+: w) (hu : Substr.strstr t u = some (x, y)) :
    zyUtilCsvStringStripTerm (csvOf (before ++ u :: behind)) t =
      some (csvOf (leftPieces before x y behind)) := by
  have hfound := strstr_csvOf ht hbefore hu behind
  by_cases hx : x = []
  · subst hx
    rcases List.eq_nil_or_concat before with rfl | ⟨init, w, hconcat⟩
    · rw [stripTerm_front ht hfound]
      cases y with
      | nil =>
          cases behind with
          | nil => rfl
          | cons next behind =>
              have hrest := csvOf_middle [] next behind
              rw [List.nil_append] at hrest
              simp [leftPieces, hrest, csvBehind, csvBefore]
      | cons d y =>
          have hrest := csvOf_middle [] y behind
          rw [List.nil_append] at hrest
          simp [leftPieces, hrest, csvBefore]
    · rw [List.concat_eq_append] at hconcat
      subst hconcat
      rw [List.append_nil] at hfound
      have hne : csvBefore (init ++ [w]) ≠ [] := by
        rw [csvBefore_concat]
        simp
      rw [stripTerm_behind ht hne hfound, csvBefore_concat, List.dropLast_concat, csvOf_middle]
      simp [leftPieces, csvOf_middle, csvBehind]
  · have hne : csvBefore before ++ x ≠ [] := by simp [hx]
    rw [stripTerm_behind ht hne hfound, List.dropLast_append_of_ne_nil hx, leftPieces, if_neg hx,
      csvOf_middle]
    simp

/-- The pieces that are left have no comma. -/
theorem comma_notMem_leftPieces {before behind : List (List Char)} {x y : List Char}
    (hbefore : ∀ w ∈ before, ',' ∉ w) (hbehind : ∀ w ∈ behind, ',' ∉ w) (hx : ',' ∉ x)
    (hy : ',' ∉ y) :
    ∀ w ∈ leftPieces before x y behind, ',' ∉ w := by
  have hpiece : ∀ {init : List (List Char)} {piece : List Char}, (∀ w ∈ init, ',' ∉ w) →
      ',' ∉ piece → ∀ w ∈ init ++ piece :: behind, ',' ∉ w := by
    intro init piece hinit hp w hw
    rcases List.mem_append.mp hw with hw | hw
    · exact hinit w hw
    · rcases List.mem_cons.mp hw with rfl | hw
      · exact hp
      · exact hbehind w hw
  rcases List.eq_nil_or_concat before with rfl | ⟨init, last, hconcat⟩
  · by_cases hxnil : x = []
    · by_cases hynil : y = []
      · simpa [leftPieces, hxnil, hynil] using hbehind
      · have htail : ',' ∉ y.tail := fun h => hy (List.mem_of_mem_tail h)
        simpa [leftPieces, hxnil, hynil] using hpiece hbefore htail
    · have hxy : ',' ∉ x.dropLast ++ y := by
        rw [List.mem_append, not_or]
        exact ⟨fun h => hx (List.dropLast_subset x h), hy⟩
      rw [leftPieces, if_neg hxnil]
      exact hpiece hbefore hxy
  · rw [List.concat_eq_append] at hconcat
    subst hconcat
    by_cases hxnil : x = []
    · have hlast : ',' ∉ last ++ y := by
        rw [List.mem_append, not_or]
        exact ⟨hbefore last (by simp), hy⟩
      have hinit : ∀ w ∈ init, ',' ∉ w := fun w hw => hbefore w (List.mem_append_left _ hw)
      simpa [leftPieces, hxnil] using hpiece hinit hlast
    · have hxy : ',' ∉ x.dropLast ++ y := by
        rw [List.mem_append, not_or]
        exact ⟨fun h => hx (List.dropLast_subset x h), hy⟩
      rw [leftPieces, if_neg hxnil]
      exact hpiece hbefore hxy

/-- Taken out of a longer term, {lit}`t` does not leave the terms without {lit}`t`. -/
theorem leftPieces_ne {before behind : List (List Char)} {x y : List Char}
    (hxy : x ≠ [] ∨ y ≠ []) (ht : t ∈ behind) (u : List Char) :
    leftPieces before x y behind ≠ before ++ u :: behind.erase t := by
  have hlen := List.length_erase_of_mem ht
  have hpos := List.length_pos_of_mem ht
  intro heq
  have hlength := congrArg List.length heq
  by_cases hx : x = []
  · have hy : y ≠ [] := by
      rcases hxy with h | h
      · exact absurd hx h
      · exact h
    rcases List.eq_nil_or_concat before with rfl | ⟨init, w, hconcat⟩
    · simp only [leftPieces, hx, hy, if_true, if_false, List.getLast?_nil, List.nil_append,
        List.length_cons] at hlength
      omega
    · rw [List.concat_eq_append] at hconcat
      subst hconcat
      simp [leftPieces, hx, hy] at heq
  · simp only [leftPieces, hx, if_false, List.length_append, List.length_cons] at hlength
    omega

/-- Either no term has {lit}`t` as a part, or there is a first one. -/
theorem first_part (t : List Char) (terms : List (List Char)) :
    (∀ w ∈ terms, ¬ t <:+: w) ∨ ∃ before u behind, terms = before ++ u :: behind ∧
      (∀ w ∈ before, ¬ t <:+: w) ∧ t <:+: u := by
  induction terms with
  | nil => exact Or.inl (by simp)
  | cons w rest ih =>
      by_cases hw : t <:+: w
      · exact Or.inr ⟨[], w, rest, rfl, by simp, hw⟩
      · rcases ih with hnone | ⟨before, u, behind, rfl, hbefore, hu⟩
        · exact Or.inl (by simpa [hw] using hnone)
        · exact Or.inr ⟨w :: before, u, behind, rfl, by simpa [hw] using hbefore, hu⟩

/-- If no term has {lit}`t` as a part, nothing is stripped. -/
theorem stripTerm_none (ht : IsTerm t) (hno : ∀ w ∈ terms, ¬ t <:+: w) :
    zyUtilCsvStringStripTerm (csvOf terms) t = none := by
  unfold zyUtilCsvStringStripTerm
  split
  · rfl
  · rw [strstr_csvOf_eq_none ht hno]

/-- If the first term with {lit}`t` as a part is {lit}`t`, it is stripped. -/
theorem stripTerm_self (ht : IsTerm t) {before behind : List (List Char)}
    (hbefore : ∀ w ∈ before, ¬ t <:+: w) :
    zyUtilCsvStringStripTerm (csvOf (before ++ t :: behind)) t =
      stripFirst t (before ++ t :: behind) := by
  have hfound : Substr.strstr t t = some ([], []) :=
    Substr.strstr_eq_some_iff.mpr ⟨by simp, fun _ _ _ => Nat.zero_le _⟩
  have hnot : t ∉ before := fun hmem => hbefore t hmem List.infix_rfl
  rw [stripTerm_eq ht hbefore hfound, leftPieces_nil, stripFirst, if_pos (by simp),
    List.erase_append_right _ hnot, List.erase_cons_head]

/-- If it is a longer term, the wrong text is stripped. -/
theorem stripTerm_part (hterms : ∀ u ∈ terms, IsTerm u) (ht : IsTerm t)
    {before behind : List (List Char)} (heq : terms = before ++ u :: behind)
    (hbefore : ∀ w ∈ before, ¬ t <:+: w) (hu : t <:+: u) (hne : u ≠ t) :
    zyUtilCsvStringStripTerm (csvOf terms) t ≠ stripFirst t terms := by
  obtain ⟨⟨x, y⟩, hfound⟩ : ∃ found, Substr.strstr t u = some found := by
    apply Option.ne_none_iff_exists'.mp
    intro hnone
    exact Substr.strstr_eq_none_iff.mp hnone hu
  have hsplit := Substr.eq_of_strstr hfound
  have hxy : x ≠ [] ∨ y ≠ [] := by
    rw [← not_and_or]
    rintro ⟨rfl, rfl⟩
    exact hne (by simpa using hsplit)
  rw [heq, stripTerm_eq ht hbefore hfound, ← heq, stripFirst]
  by_cases hmem : t ∈ terms
  · rw [if_pos hmem]
    have hnot : t ∉ before := fun h => hbefore t h List.infix_rfl
    have hbehind : t ∈ behind := by
      rw [heq, List.mem_append, List.mem_cons] at hmem
      rcases hmem with h | rfl | h
      · exact absurd h hnot
      · exact absurd rfl hne
      · exact h
    have herase : terms.erase t = before ++ u :: behind.erase t := by
      rw [heq, List.erase_append_right _ hnot, List.erase_cons_tail (by simpa using hne)]
    have hleft : ∀ w ∈ terms.erase t, IsTerm w := fun w hw => hterms w (List.mem_of_mem_erase hw)
    have hcomma : ∀ w ∈ terms, ',' ∉ w := fun w hw => (hterms w hw).comma
    have hucomma : ',' ∉ u := hcomma u (by rw [heq]; simp)
    rw [hsplit] at hucomma
    simp only [List.mem_append, not_or] at hucomma
    have hpieces := comma_notMem_leftPieces
      (fun w hw => hcomma w (by rw [heq]; exact List.mem_append_left _ hw))
      (fun w hw => hcomma w (by rw [heq]; exact List.mem_append_right _ (List.mem_cons_of_mem u hw)))
      hucomma.1.1 hucomma.2
    have herasene : terms.erase t ≠ [] := by
      rw [herase]
      simp
    intro hsame
    have hcsv := Option.some.inj hsame
    have hpiecesne : leftPieces before x y behind ≠ [] := by
      intro hnil
      rw [hnil] at hcsv
      exact csvOf_ne_nil herasene hleft hcsv.symm
    have hlists := csvOf_injective hpiecesne herasene hpieces (fun w hw => (hleft w hw).comma) hcsv
    rw [herase] at hlists
    exact leftPieces_ne hxy hbehind u hlists
  · rw [if_neg hmem]
    exact Option.some_ne_none _

/-- The first occurrence is stripped correctly if and only if no term in front of it has it as a
part. -/
theorem stripTerm_correct_iff (hterms : ∀ u ∈ terms, IsTerm u) (ht : IsTerm t) :
    zyUtilCsvStringStripTerm (csvOf terms) t = stripFirst t terms ↔
      ∀ u ∈ terms.takeWhile (· ≠ t), ¬ t <:+: u := by
  rcases first_part t terms with hno | ⟨before, u, behind, heq, hbefore, hu⟩
  · have hnot : t ∉ terms := fun hmem => hno t hmem List.infix_rfl
    apply iff_of_true
    · rw [stripTerm_none ht hno, stripFirst, if_neg hnot]
    · intro u hmem
      exact hno u ((List.takeWhile_subset _) hmem)
  · have hall : ∀ w ∈ before, decide (w ≠ t) = true := by
      intro w hw
      have hne : w ≠ t := fun h => hbefore w hw (h ▸ List.infix_rfl)
      simpa using hne
    by_cases hut : u = t
    · subst hut
      apply iff_of_true
      · rw [heq]
        exact stripTerm_self ht hbefore
      · rw [heq, List.takeWhile_append_of_pos hall, List.takeWhile_cons_of_neg (by simp),
          List.append_nil]
        exact hbefore
    · apply iff_of_false
      · exact stripTerm_part hterms ht heq hbefore hu hut
      · intro h
        apply h u _ hu
        rw [heq, List.takeWhile_append_of_pos hall, List.takeWhile_cons_of_pos (by simpa using hut)]
        simp

/-! ## Appending -/

/-- A term is appended to a list of terms. -/
theorem append_eq (hterms : ∀ u ∈ terms, IsTerm u) (ht : IsTerm t) :
    zyUtilStrCsvAppend (some (csvOf terms)) t = some (csvOf (terms ++ [t])) := by
  unfold zyUtilStrCsvAppend
  rw [if_neg ht.ne]
  by_cases hnil : terms = []
  · subst hnil
    simp [csvOf, zosStrncpy]
  · rcases List.exists_cons_of_ne_nil (csvOf_ne_nil hnil hterms) with ⟨c, cs, hcons⟩
    have hcopy : (c :: cs).take ((c :: cs).length + (t.length + 2) - 1) = c :: cs :=
      List.take_of_length_le (by omega)
    rw [csvOf_concat hnil, hcons]
    simp only [zosStrncpy, hcopy]
    simp

theorem isTerm_concat (hterms : ∀ u ∈ terms, IsTerm u) (ht : IsTerm t) :
    ∀ u ∈ terms ++ [t], IsTerm u := by
  intro u hu
  rcases List.mem_append.mp hu with hu | hu
  · exact hterms u hu
  · exact (List.mem_singleton.mp hu) ▸ ht

/-- What is stripped from a list to which a new term was appended. -/
theorem stripAll_concat (hmem : t ∉ terms) : stripAll t (terms ++ [t]) = some (csvOf terms) := by
  have hfilter : terms.filter (· ≠ t) = terms := by
    rw [List.filter_eq_self]
    intro u hu
    have hne : u ≠ t := fun h => hmem (h ▸ hu)
    simpa using hne
  rw [stripAll, if_pos (by simp), List.filter_append, hfilter]
  simp

theorem stripFirst_concat (hmem : t ∉ terms) :
    stripFirst t (terms ++ [t]) = some (csvOf terms) := by
  rw [stripFirst, if_pos (by simp), List.erase_append_right _ hmem]
  simp

/-- Behind an append {lit}`zyUtilStrCsvStripString` gives back the empty list only. -/
theorem append_stripString_iff (hterms : ∀ u ∈ terms, IsTerm u) (ht : IsTerm t) (hmem : t ∉ terms) :
    (zyUtilStrCsvAppend (some (csvOf terms)) t).bind (zyUtilStrCsvStripString · t) =
      some (csvOf terms) ↔ terms = [] := by
  rw [append_eq hterms ht, Option.bind_some, ← stripAll_concat hmem,
    stripString_correct_iff (isTerm_concat hterms ht) ht, if_pos (by simp)]
  constructor
  · rintro ⟨_, hall⟩
    apply List.eq_nil_iff_forall_not_mem.mpr
    intro u hu
    exact hmem (hall u (List.mem_append_left _ hu) ▸ hu)
  · rintro rfl
    simp

/-- Behind an append {lit}`zyUtilCsvStringStripTerm` gives back the lists of whose terms none has the
new one as a part. -/
theorem append_stripTerm_iff (hterms : ∀ u ∈ terms, IsTerm u) (ht : IsTerm t) (hmem : t ∉ terms) :
    (zyUtilStrCsvAppend (some (csvOf terms)) t).bind (zyUtilCsvStringStripTerm · t) =
      some (csvOf terms) ↔ ∀ u ∈ terms, ¬ t <:+: u := by
  have hall : ∀ u ∈ terms, decide (u ≠ t) = true := by
    intro u hu
    have hne : u ≠ t := fun h => hmem (h ▸ hu)
    simpa using hne
  rw [append_eq hterms ht, Option.bind_some, ← stripFirst_concat hmem,
    stripTerm_correct_iff (isTerm_concat hterms ht) ht, List.takeWhile_append_of_pos hall,
    List.takeWhile_cons_of_neg (by simp), List.append_nil]

/-- When the functions strip what they are for, and give back a list to which a term was appended. -/
theorem csvTerms_correct_iff (hterms : ∀ u ∈ terms, IsTerm u) (ht : IsTerm t) :
    (zyUtilStrCsvStripString (csvOf terms) t = stripAll t terms ↔
      if t ∈ terms then Odd terms.length ∧ ∀ u ∈ terms, u = t else Even terms.length) ∧
    (zyUtilCsvStringStripTerm (csvOf terms) t = stripFirst t terms ↔
      ∀ u ∈ terms.takeWhile (· ≠ t), ¬ t <:+: u) ∧
    (t ∉ terms →
      ((zyUtilStrCsvAppend (some (csvOf terms)) t).bind (zyUtilStrCsvStripString · t) =
          some (csvOf terms) ↔ terms = []) ∧
      ((zyUtilStrCsvAppend (some (csvOf terms)) t).bind (zyUtilCsvStringStripTerm · t) =
          some (csvOf terms) ↔ ∀ u ∈ terms, ¬ t <:+: u)) := by
  constructor
  · exact stripString_correct_iff hterms ht
  · constructor
    · exact stripTerm_correct_iff hterms ht
    · intro hmem
      exact ⟨append_stripString_iff hterms ht hmem, append_stripTerm_iff hterms ht hmem⟩

/-- The terms {lit}`br0` and {lit}`br1`. -/
def bridges : List (List Char) :=
  ["br0".toList, "br1".toList]

/-- The term {lit}`br2` and the two bridges. -/
theorem csvTerms_correct_bridges :
    (zyUtilStrCsvStripString (csvOf bridges) "br2".toList = stripAll "br2".toList bridges ↔
      if "br2".toList ∈ bridges then Odd bridges.length ∧ ∀ u ∈ bridges, u = "br2".toList
      else Even bridges.length) ∧
    (zyUtilCsvStringStripTerm (csvOf bridges) "br2".toList = stripFirst "br2".toList bridges ↔
      ∀ u ∈ bridges.takeWhile (· ≠ "br2".toList), ¬ "br2".toList <:+: u) ∧
    ("br2".toList ∉ bridges →
      ((zyUtilStrCsvAppend (some (csvOf bridges)) "br2".toList).bind
          (zyUtilStrCsvStripString · "br2".toList) = some (csvOf bridges) ↔ bridges = []) ∧
      ((zyUtilStrCsvAppend (some (csvOf bridges)) "br2".toList).bind
          (zyUtilCsvStringStripTerm · "br2".toList) = some (csvOf bridges) ↔
        ∀ u ∈ bridges, ¬ "br2".toList <:+: u)) := by
  apply csvTerms_correct_iff
  · intro u hu
    simp only [bridges, List.mem_cons, List.not_mem_nil, or_false] at hu
    rcases hu with rfl | rfl
    · exact ⟨by decide, by decide⟩
    · exact ⟨by decide, by decide⟩
  · exact ⟨by decide, by decide⟩

/-- From {lit}`br0,br1` neither function strips as it should: {lit}`br0` is not found among an even
number of terms, and {lit}`br` is taken for a term. -/
theorem strip_bridges :
    csvOf bridges = "br0,br1".toList ∧
      zyUtilStrCsvStripString (csvOf bridges) "br0".toList = none ∧
      stripAll "br0".toList bridges = some "br1".toList ∧
      zyUtilCsvStringStripTerm (csvOf bridges) "br".toList = some ",br1".toList ∧
      stripFirst "br".toList bridges = none := by
  decide

end ZyUtil
end ZyxelRouter
