import ZyxelRouter.FeString.ParamSet

/-!
# The formats of texts

{lit}`zcfgFeParamChk` looks at the characters of a base64 text, a time and a hex text.

Main results:

- Theorem {lit}`timeFormat_iff`, {lit}`hexFormat_iff`, {lit}`base64Format_iff`: the strings that each loop
  accepts.
- Theorem {lit}`paramChk_language_iff`: which strings are accepted and rejected as the format of their type
  says.
-/

namespace ZyxelRouter
namespace FeString

open Lib

/-! ## The formats -/

/-- A time, whose last character may be left out. -/
def IsTimeText (value : List Char) : Prop :=
  IsTime value ∨ IsTime (value ++ ['Z'])

/-- The strings of a type with a format. -/
def InLanguage (type : JsonType) (value : List Char) : Prop :=
  match type with
  | .base64 => IsBase64 value
  | .time => IsTimeText value
  | .hex => value.all isHexDigit = true
  | _ => True

/-- The types with a format. -/
def JsonType.hasFormat (type : JsonType) : Prop :=
  type = .base64 ∨ type = .time ∨ type = .hex

theorem bmod_of_ge {n : Nat} (h : ¬ n < 2 ^ 31) (hn : n < 2 ^ 32) :
    (n : Int).bmod (2 ^ 32) = (n : Int) - 2 ^ 32 := by
  have hmod : (n : Int) % ((2 ^ 32 : Nat) : Int) = n := Int.emod_eq_of_lt (by omega) (by omega)
  rw [Int.bmod_def, hmod, if_neg (by omega)]
  rfl

/-- The length of a string that is too long for an {lit}`int`. -/
theorem strLen_long {value : List Char} (hlong : ¬ value.length < 2 ^ 31)
    (hlen : value.length < 2 ^ 32) : strLen value = (value.length : Int) - 2 ^ 32 :=
  bmod_of_ge hlong hlen

/-- The loops do not look at such a string. -/
theorem take_strLen_long {value : List Char} (hlong : ¬ value.length < 2 ^ 31)
    (hlen : value.length < 2 ^ 32) : value.take (strLen value).toNat = [] := by
  rw [strLen_long hlong hlen, Int.toNat_of_nonpos (by omega), List.take_zero]

/-! ## Times -/

/-- Character by character, the loop compares with the layout. -/
theorem timeChar_iff (index : Nat) (h : index < timeLayout.length) (c : Char) :
    timeChar index c = true ↔
      if timeLayout[index].isDigit then c.isDigit = true else c = timeLayout[index] := by
  have hindex : index < 20 := h
  interval_cases index <;> simp [timeChar, timeLayout]

/-- A time by its characters. -/
theorem isTime_iff_chars {value : List Char} :
    IsTime value ↔ value.length = 20 ∧ ∀ i (h : i < value.length), timeChar i value[i] = true := by
  rw [IsTime, List.forall₂_iff_get]
  have hlayout : timeLayout.length = 20 := rfl
  constructor
  · rintro ⟨hlen, hchars⟩
    refine ⟨by omega, fun i hi => ?_⟩
    exact (timeChar_iff i (by omega) value[i]).mpr (hchars i (by omega) hi)
  · rintro ⟨hlen, hchars⟩
    refine ⟨by omega, fun i hi hi' => ?_⟩
    exact (timeChar_iff i hi value[i]).mp (hchars i hi')

/-- A time without its last character. -/
theorem isTime_append_iff {value : List Char} :
    IsTime (value ++ ['Z']) ↔
      value.length = 19 ∧ ∀ i (h : i < value.length), timeChar i value[i] = true := by
  rw [isTime_iff_chars]
  simp only [List.length_append, List.length_singleton]
  constructor
  · rintro ⟨hlen, hchars⟩
    refine ⟨by omega, fun i hi => ?_⟩
    have h := hchars i (by omega)
    rwa [List.getElem_append_left hi] at h
  · rintro ⟨hlen, hchars⟩
    refine ⟨by omega, fun i hi => ?_⟩
    by_cases hi' : i < value.length
    · rw [List.getElem_append_left hi']
      exact hchars i hi'
    · obtain rfl : i = 19 := by omega
      rw [List.getElem_append_right (by omega)]
      simp [timeChar]

/-- The loop over the characters of a time. -/
theorem zipIdx_all_timeChar (value : List Char) :
    value.zipIdx.all (fun (c, index) => timeChar index c) = true ↔
      ∀ i (h : i < value.length), timeChar i value[i] = true := by
  rw [List.all_eq_true]
  constructor
  · intro h i hi
    exact h (value[i], i) (List.mk_mem_zipIdx_iff_getElem?.mpr (List.getElem?_eq_getElem hi))
  · rintro h ⟨c, i⟩ hmem
    obtain ⟨hi, hc⟩ := List.getElem?_eq_some_iff.mp (List.mk_mem_zipIdx_iff_getElem?.mp hmem)
    simp only
    rw [← hc]
    exact h i hi

/-- The case {lit}`json_type_time` accepts times. -/
theorem timeFormat_iff {value : List Char} (hlen : value.length < 2 ^ 32) :
    timeFormat value = true ↔ IsTimeText value := by
  rw [IsTimeText, isTime_iff_chars, isTime_append_iff]
  by_cases hshort : value.length < 2 ^ 31
  · rw [timeFormat, take_strLen hshort, strLen_eq hshort, Bool.and_eq_true, zipIdx_all_timeChar,
      Bool.or_eq_true, decide_eq_true_eq, decide_eq_true_eq]
    constructor
    · rintro ⟨hlen | hlen, hchars⟩
      · exact Or.inr ⟨by omega, hchars⟩
      · exact Or.inl ⟨by omega, hchars⟩
    · rintro (⟨hlen, hchars⟩ | ⟨hlen, hchars⟩)
      · exact ⟨Or.inr (by omega), hchars⟩
      · exact ⟨Or.inl (by omega), hchars⟩
  · have hneg := strLen_long hshort hlen
    constructor
    · intro h
      rw [timeFormat, Bool.and_eq_true, Bool.or_eq_true, decide_eq_true_eq, decide_eq_true_eq] at h
      omega
    · rintro (⟨hlen, -⟩ | ⟨hlen, -⟩)
      · omega
      · omega

/-! ## Hexadecimal texts -/

/-- The case {lit}`json_type_hex` accepts the strings of digits, and those it does not look at. -/
theorem hexFormat_iff {value : List Char} (hlen : value.length < 2 ^ 32) :
    hexFormat value = true ↔ ¬ value.length < 2 ^ 31 ∨ value.all isHexDigit = true := by
  by_cases hshort : value.length < 2 ^ 31
  · rw [hexFormat, take_strLen hshort]
    exact ⟨Or.inr, fun h => h.resolve_left (not_not.mpr hshort)⟩
  · rw [hexFormat, take_strLen_long hshort hlen]
    exact iff_of_true rfl (Or.inl hshort)

/-! ## Base64 texts -/

/-- The first loop on base64 characters with padding behind them. -/
theorem base64Scan_padded (n : Int) (pad : Nat) :
    ∀ (body : List Char) (index : Nat), body.all isBase64Char = true →
      (pad = 0 ∨ n - 2 ≤ (index + body.length : Nat)) →
      base64Scan n index (body ++ List.replicate pad '=') = some (List.replicate pad '=') := by
  intro body
  induction body with
  | nil =>
      intro index _ hpad
      rw [List.nil_append]
      cases pad with
      | zero => rfl
      | succ pad =>
          have hindex : n - 2 ≤ index := hpad.resolve_left (by omega)
          rw [List.replicate_succ, base64Scan, if_neg (by decide), if_pos ⟨rfl, hindex⟩]
  | cons c body ih =>
      intro index hbody hpad
      rw [List.all_cons, Bool.and_eq_true] at hbody
      rw [List.cons_append, base64Scan, if_pos hbody.1]
      apply ih (index + 1) hbody.2
      rw [List.length_cons] at hpad
      rw [Nat.add_right_comm]
      exact hpad

/-- The case {lit}`json_type_base64` accepts base64 texts, and those it does not look at whose length is a
multiple of four. -/
theorem base64Format_iff {value : List Char} (hlen : value.length < 2 ^ 32) :
    base64Format value = true ↔
      (¬ value.length < 2 ^ 31 ∧ value.length % 4 = 0) ∨ IsBase64 value := by
  by_cases hshort : value.length < 2 ^ 31
  · constructor
    · exact fun h => Or.inr (isBase64_of_format hshort h)
    · rintro (⟨hlong, -⟩ | ⟨body, pad, hvalue, hbody, hpad, hfour⟩)
      · exact absurd hshort hlong
      · have hsum : value.length = body.length + pad := by
          rw [hvalue, List.length_append, List.length_replicate]
        have hmod : (value.length : Int).tmod 4 = 0 := by
          rw [show ((value.length : Int).tmod 4) = ((value.length % 4 : Nat) : Int) from rfl, hfour]
          rfl
        have hscan := base64Scan_padded value.length pad body 0 hbody (by omega)
        rw [← hvalue] at hscan
        rw [base64Format, take_strLen hshort, strLen_eq hshort, hmod, hscan]
        simp
  · have hfour : ((value.length : Int) - 2 ^ 32).tmod 4 = 0 ↔ value.length % 4 = 0 := by
      rw [← Int.dvd_iff_tmod_eq_zero]
      omega
    rw [base64Format, take_strLen_long hshort hlen, strLen_long hshort hlen]
    simp only [base64Scan, List.all_nil, Bool.and_true, decide_eq_true_eq, hfour]
    constructor
    · exact fun h => Or.inl ⟨hshort, h⟩
    · rintro (⟨-, h⟩ | ⟨-, -, -, -, -, h⟩)
      · exact h
      · exact h

/-! ## The check -/

/-- The loops look at the string, or do not need to. -/
def LooksAt (type : JsonType) (value : List Char) : Prop :=
  match type with
  | .base64 => value.length < 2 ^ 31 ∨ value.length % 4 ≠ 0 ∨ IsBase64 value
  | .hex => value.length < 2 ^ 31 ∨ value.all isHexDigit = true
  | _ => True

/-- The check of a parameter that is set with its own type goes by the format. -/
theorem zcfgFeParamChk_isOk {schema : ParamTable} {oid : Nat} {name value : List Char}
    {paramInfo : ParamInfo} (hfound : findParam schema oid name = some paramInfo)
    (hwritable : paramInfo.writable = true) (hlen : value.length < paramInfo.len.toNat) :
    (∃ value', zcfgFeParamChk schema oid name paramInfo.type value = .ok value') ↔
      ∃ value', validateFormat paramInfo.type value = some value' := by
  have hsmall : value.length < 2 ^ 32 := Nat.lt_trans hlen paramInfo.len.toNat_lt
  have haccepted : typeAccepted paramInfo.type paramInfo.type = true := by simp [typeAccepted]
  have hfits : (paramInfo.type.isText && decide (paramInfo.len.toNat ≤ value.length % 2 ^ 32)) =
      false := by
    rw [Nat.mod_eq_of_lt hsmall, decide_eq_false (by omega), Bool.and_false]
  simp only [zcfgFeParamChk, hfound, hwritable, haccepted, hfits, Bool.not_true, Bool.false_eq_true,
    if_false]
  cases validateFormat paramInfo.type value with
  | none => simp
  | some value' => simp

/-- A string for a base64, time or hex parameter is accepted exactly if it is in the language of the type,
provided that the loops look at it. -/
theorem paramChk_language_iff (schema : ParamTable) (oid : Nat) (name value : List Char)
    (paramInfo : ParamInfo) (hfound : findParam schema oid name = some paramInfo)
    (hwritable : paramInfo.writable = true) (htype : paramInfo.type.hasFormat)
    (hlen : value.length < paramInfo.len.toNat) :
    ((∃ value', zcfgFeParamChk schema oid name paramInfo.type value = .ok value') ↔
      InLanguage paramInfo.type value) ↔ LooksAt paramInfo.type value := by
  have hsmall : value.length < 2 ^ 32 := Nat.lt_trans hlen paramInfo.len.toNat_lt
  have hif : ∀ b : Bool, (∃ value', (if b then some value else none) = some value') ↔ b = true := by
    intro b
    cases b with
    | false => simp
    | true => simp
  rw [zcfgFeParamChk_isOk hfound hwritable hlen]
  rcases htype with htype | htype | htype
  · rw [htype]
    simp only [validateFormat, InLanguage, LooksAt, hif]
    rw [base64Format_iff hsmall]
    constructor
    · intro h
      by_cases hshort : value.length < 2 ^ 31
      · exact Or.inl hshort
      · by_cases hfour : value.length % 4 = 0
        · exact Or.inr (Or.inr (h.mp (Or.inl ⟨hshort, hfour⟩)))
        · exact Or.inr (Or.inl hfour)
    · intro h
      refine ⟨fun haccepted => ?_, Or.inr⟩
      rcases haccepted with ⟨hlong, hfour⟩ | hlanguage
      · exact (h.resolve_left hlong).resolve_left (not_not.mpr hfour)
      · exact hlanguage
  · rw [htype]
    simp only [validateFormat, InLanguage, LooksAt, hif, iff_true]
    exact timeFormat_iff hsmall
  · rw [htype]
    simp only [validateFormat, InLanguage, LooksAt, hif]
    rw [hexFormat_iff hsmall]
    constructor
    · intro h
      by_cases hshort : value.length < 2 ^ 31
      · exact Or.inl hshort
      · exact Or.inr (h.mp (Or.inl hshort))
    · intro h
      exact ⟨fun haccepted => haccepted.elim h.resolve_left id, Or.inr⟩

/-- A schema with one writable parameter {lit}`Key` of type {lit}`hex`, with the longest length there is. -/
def keySchema : ParamTable :=
  fun _ => [{ name := ['K', 'e', 'y'], type := .hex, len := 0xffffffff, attr := 0 }]

/-- The text {lit}`1f` is accepted. -/
theorem paramChk_language_1f :
    (∃ value', zcfgFeParamChk keySchema 0 ['K', 'e', 'y'] .hex ['1', 'f'] = .ok value') ↔
      InLanguage .hex ['1', 'f'] :=
  (paramChk_language_iff keySchema 0 ['K', 'e', 'y'] ['1', 'f']
    { name := ['K', 'e', 'y'], type := .hex, len := 0xffffffff, attr := 0 } rfl (by decide)
    (Or.inr (Or.inr rfl)) (by decide)).mpr (Or.inl (by decide))

/-- A text of {lit}`2^31` other characters is accepted as well. -/
theorem paramChk_language_fails :
    ¬ ∀ (schema : ParamTable) (oid : Nat) (name value : List Char) (paramInfo : ParamInfo),
      findParam schema oid name = some paramInfo → paramInfo.writable = true →
      paramInfo.type.hasFormat → value.length < paramInfo.len.toNat →
      ((∃ value', zcfgFeParamChk schema oid name paramInfo.type value = .ok value') ↔
        InLanguage paramInfo.type value) := by
  intro h
  have hmany : ∀ n, n = 2 ^ 31 → (List.replicate n 'z').length < 2 ^ 32 - 1 ∧
      ¬ LooksAt .hex (List.replicate n 'z') := by
    intro n hn
    have hlen : (List.replicate n 'z').length = n := List.length_replicate
    refine ⟨by omega, ?_⟩
    rintro (hshort | hall)
    · omega
    · exact absurd (List.all_eq_true.mp hall 'z' (List.mem_replicate.mpr ⟨by omega, rfl⟩)) (by decide)
  obtain ⟨n, hn⟩ : ∃ n, n = 2 ^ 31 := ⟨_, rfl⟩
  obtain ⟨hlen, hlooks⟩ := hmany n hn
  have hiff := h keySchema 0 ['K', 'e', 'y'] (List.replicate n 'z')
    { name := ['K', 'e', 'y'], type := .hex, len := 0xffffffff, attr := 0 } rfl (by decide)
    (Or.inr (Or.inr rfl)) hlen
  exact hlooks ((paramChk_language_iff keySchema 0 ['K', 'e', 'y'] (List.replicate n 'z')
    { name := ['K', 'e', 'y'], type := .hex, len := 0xffffffff, attr := 0 } rfl (by decide)
    (Or.inr (Or.inr rfl)) hlen).mp hiff)

end FeString
end ZyxelRouter
