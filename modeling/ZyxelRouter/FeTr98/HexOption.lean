import Mathlib.Data.List.TakeWhile
import ZyxelRouter.ZcfgCommon

/-!
# Values of DHCPv4 server options

The value of an option is set as a string of hex digits and kept as the text that the digits stand
for.  A query turns the text into hex digits again.

Main results:

- Theorem {lit}`hexLoop_eq`: the decoder reads pairs of digits up to the first other character.
- Theorem {lit}`hexOfBytes_bytesOf`: encoded bytes are the digits in lower case.
- Theorem {lit}`dhcpOption_roundTrip_iff`: when a value comes back, and when another is rejected.
-/

namespace ZyxelRouter
namespace FeTr98

/-! ## Digits and bytes -/

/-- {lit}`charHex2Int`, with {lit}`none` for -1. -/
def charHex2Int (hex : UInt8) : Option Nat :=
  if 0x30 ≤ hex.toNat ∧ hex.toNat < 0x3a then some (hex.toNat - 0x30)
  else if 0x41 ≤ hex.toNat ∧ hex.toNat ≤ 0x46 then some (10 + (hex.toNat - 0x41))
  else if 0x61 ≤ hex.toNat ∧ hex.toNat ≤ 0x66 then some (10 + (hex.toNat - 0x61))
  else none

/-- The loop of {lit}`hexStr2AscStr`: the bytes written and {lit}`nothex`. -/
def hexLoop : List UInt8 → List UInt8 → List UInt8 × Bool
  | [], ascStr => (ascStr, false)
  | [_], ascStr => (ascStr, true)
  | c₁ :: c₂ :: rest, ascStr =>
      match charHex2Int c₁, charHex2Int c₂ with
      | some digit1, some digit2 => hexLoop rest (ascStr ++ [UInt8.ofNat (16 * digit1 + digit2)])
      | _, _ => (ascStr, true)

/-- {lit}`hexStr2AscStr`: the bytes written and the result. -/
def hexStr2AscStr (hexStr : List UInt8) : List UInt8 × Int :=
  if hexStr = [] then ([], 0)
  else if hexStr.length % 2 ≠ 0 then ([], -1)
  else
    let (ascStr, nothex) := hexLoop hexStr []
    (ascStr, if nothex then -1 else if ascStr.length * 2 = hexStr.length then ascStr.length else 0)

/-- A hex digit as {lit}`%x` prints it. -/
def hexDigit (n : Nat) : UInt8 :=
  if n < 10 then UInt8.ofNat (0x30 + n) else UInt8.ofNat (0x61 + (n - 10))

/-- {lit}`sprintf("%02x", …)`; the {lit}`char` of the target is unsigned. -/
def printByte (b : UInt8) : List UInt8 :=
  [hexDigit (b.toNat / 16), hexDigit (b.toNat % 16)]

/-- {lit}`ascStr2HexStr`: the characters written and the result. -/
def ascStr2HexStr (ascStr : List UInt8) : List UInt8 × Int :=
  (ascStr.flatMap printByte, 2 * ascStr.length)

/-! ## Setting and querying -/

/-- The member {lit}`Value` of an object: hex typed or another string. -/
inductive ParamValue where
  | hex (text : List UInt8)
  | plain (text : List UInt8)
deriving DecidableEq

/-- {lit}`json_object_get_string`. -/
def ParamValue.text : ParamValue → List UInt8
  | .hex text => text
  | .plain text => text

/-- The string at the start of a buffer of zeros into which bytes were written. -/
def cStr (bytes : List UInt8) : List UInt8 :=
  bytes.takeWhile (· ≠ 0)

/-- A double quote. -/
def quote : UInt8 := 34

/-- {lit}`sizeof(ascStr)` and {lit}`sizeof(paramstr)`. -/
def paramstrSize : Nat := 257

/-- {lit}`paramValueStrP`: the value without its quotes, or {lit}`none` if the copy leaves the buffer.
The length of the copy is negative for a single quote. -/
def unquote (paramValueStr : List UInt8) : Option (List UInt8) :=
  if paramValueStr.head? = some quote ∧ paramValueStr.getLast? = some quote then
    if paramValueStr.length < 2 ∨ paramstrSize ≤ paramValueStr.length - 2 then none
    else some ((paramValueStr.drop 1).take (paramValueStr.length - 2))
  else some paramValueStr

/-- {lit}`spvDhcpv4SrvOptRout`: the result and the member {lit}`Value` afterwards, or {lit}`none` if
memory outside of the buffers is used. -/
def spvDhcpv4SrvOptRout (value : Option ParamValue) : Option (ZcfgRet × Option ParamValue) :=
  match value with
  | some (.hex paramValueStr) =>
      match unquote paramValueStr with
      | none => none
      | some paramValueStrP =>
          let (bytes, len) := hexStr2AscStr paramValueStrP
          if paramstrSize < bytes.length then none
          else if 0 ≤ len then
            if paramstrSize ≤ (cStr bytes).length then none
            else some (.objectUpdated, some (.plain (cStr bytes)))
          else some (.requestReject, value)
  | _ => some (.success, value)

/-- {lit}`queryDhcpv4SrvOptRout`: the result and the member {lit}`Value` afterwards. -/
def queryDhcpv4SrvOptRout (value : Option ParamValue) : ZcfgRet × Option ParamValue :=
  match value with
  | none => (.success, none)
  | some paramObj =>
      if paramObj.text = [] then (.success, value)
      else
        let (hexStr, len) := ascStr2HexStr paramObj.text
        if 0 ≤ len then (.success, some (.plain hexStr)) else (.requestReject, value)

/-! ## What a value stands for -/

/-- A hex digit. -/
def isHexDigit (c : UInt8) : Bool :=
  (charHex2Int c).isSome

/-- A value with surrounding quotes. -/
def Quoted (value : List UInt8) : Prop :=
  2 ≤ value.length ∧ value.head? = some quote ∧ value.getLast? = some quote

instance (value : List UInt8) : Decidable (Quoted value) :=
  inferInstanceAs (Decidable (_ ∧ _))

/-- The value without surrounding quotes. -/
def content (value : List UInt8) : List UInt8 :=
  if Quoted value then (value.drop 1).take (value.length - 2) else value

/-- An even number of hex digits. -/
def isHexString (str : List UInt8) : Bool :=
  str.length % 2 = 0 && str.all isHexDigit

/-- A letter in lower case. -/
def lower (c : UInt8) : UInt8 :=
  if 0x41 ≤ c.toNat ∧ c.toNat ≤ 0x5a then UInt8.ofNat (c.toNat + 32) else c

/-- The bytes that pairs of digits stand for, up to the first pair that is none. -/
def bytesOf : List UInt8 → List UInt8
  | c₁ :: c₂ :: rest =>
      match charHex2Int c₁, charHex2Int c₂ with
      | some digit1, some digit2 => UInt8.ofNat (16 * digit1 + digit2) :: bytesOf rest
      | _, _ => []
  | _ => []

/-! ## Decoding -/

theorem bytesOf_cons {c₁ c₂ : UInt8} {x y : Nat} (h₁ : charHex2Int c₁ = some x)
    (h₂ : charHex2Int c₂ = some y) (rest : List UInt8) :
    bytesOf (c₁ :: c₂ :: rest) = UInt8.ofNat (16 * x + y) :: bytesOf rest := by
  rw [bytesOf, h₁, h₂]

theorem isHexString_cons_cons (c₁ c₂ : UInt8) (rest : List UInt8) :
    isHexString (c₁ :: c₂ :: rest) = (isHexDigit c₁ && isHexDigit c₂ && isHexString rest) := by
  have hlen : (c₁ :: c₂ :: rest).length % 2 = rest.length % 2 := by
    simp only [List.length_cons]
    omega
  rw [isHexString, isHexString, hlen, List.all_cons, List.all_cons]
  cases isHexDigit c₁ <;> cases isHexDigit c₂ <;> simp

/-- The decoder reads pairs of digits up to the first other character. -/
theorem hexLoop_eq :
    ∀ (str ascStr : List UInt8), hexLoop str ascStr = (ascStr ++ bytesOf str, !isHexString str) := by
  intro str
  induction str using bytesOf.induct with
  | case1 c₁ c₂ rest x y h₂ h₁ ih =>
      intro ascStr
      rw [hexLoop, h₁, h₂]
      simp only
      rw [ih, bytesOf_cons h₁ h₂, isHexString_cons_cons, isHexDigit, isHexDigit, h₁, h₂]
      simp
  | case2 c₁ c₂ rest h =>
      intro ascStr
      rw [hexLoop, bytesOf, isHexString_cons_cons, isHexDigit, isHexDigit]
      cases h₁ : charHex2Int c₁ with
      | none => simp
      | some x =>
          cases h₂ : charHex2Int c₂ with
          | none => simp
          | some y => exact absurd h₂ (h x y h₁)
  | case3 str h =>
      intro ascStr
      cases str with
      | nil => simp [hexLoop, bytesOf, isHexString]
      | cons c rest =>
          cases rest with
          | nil => simp [hexLoop, bytesOf, isHexString]
          | cons d rest => exact absurd rfl (h c d rest)

/-- Induction over the pairs of a hex string. -/
theorem hexString_induction {P : List UInt8 → Prop} (nil : P [])
    (pair : ∀ c₁ c₂ rest x y, charHex2Int c₁ = some x → charHex2Int c₂ = some y → P rest →
      P (c₁ :: c₂ :: rest)) :
    ∀ {str : List UInt8}, isHexString str = true → P str := by
  intro str
  induction str using bytesOf.induct with
  | case1 c₁ c₂ rest x y h₂ h₁ ih =>
      intro h
      rw [isHexString_cons_cons, Bool.and_eq_true] at h
      exact pair c₁ c₂ rest x y h₁ h₂ (ih h.2)
  | case2 c₁ c₂ rest hnot =>
      intro h
      rw [isHexString_cons_cons, Bool.and_eq_true, Bool.and_eq_true, isHexDigit, isHexDigit] at h
      obtain ⟨x, h₁⟩ := Option.isSome_iff_exists.mp h.1.1
      obtain ⟨y, h₂⟩ := Option.isSome_iff_exists.mp h.1.2
      exact absurd h₂ (hnot x y h₁)
  | case3 str hnot =>
      intro h
      cases str with
      | nil => exact nil
      | cons c rest =>
          cases rest with
          | nil => simp [isHexString] at h
          | cons d rest => exact absurd rfl (hnot c d rest)

/-- Every pair of a hex string gives a byte. -/
theorem length_bytesOf {str : List UInt8} (h : isHexString str = true) :
    2 * (bytesOf str).length = str.length := by
  refine hexString_induction (P := fun str => 2 * (bytesOf str).length = str.length) rfl ?_ h
  intro c₁ c₂ rest x y h₁ h₂ ih
  rw [bytesOf_cons h₁ h₂]
  simp only [List.length_cons]
  omega

/-! ## Encoding -/

/-- A digit is printed in lower case. -/
theorem hexDigit_of_charHex2Int {c : UInt8} {x : Nat} (h : charHex2Int c = some x) :
    x < 16 ∧ hexDigit x = lower c := by
  have hall : ∀ n < 256, ∀ x ∈ charHex2Int (UInt8.ofNat n),
      x < 16 ∧ hexDigit x = lower (UInt8.ofNat n) := by decide +kernel
  have hc := hall c.toNat c.toNat_lt x
  rw [UInt8.ofNat_toNat] at hc
  exact hc h

/-- A byte is printed as the pair of digits that it was read from. -/
theorem printByte_pair {c₁ c₂ : UInt8} {x y : Nat} (h₁ : charHex2Int c₁ = some x)
    (h₂ : charHex2Int c₂ = some y) : printByte (UInt8.ofNat (16 * x + y)) = [lower c₁, lower c₂] := by
  obtain ⟨hx, hlower₁⟩ := hexDigit_of_charHex2Int h₁
  obtain ⟨hy, hlower₂⟩ := hexDigit_of_charHex2Int h₂
  have hbyte : (UInt8.ofNat (16 * x + y)).toNat = 16 * x + y :=
    UInt8.toNat_ofNat_of_lt' (by simp only [UInt8.size]; omega)
  rw [printByte, hbyte, ← hlower₁, ← hlower₂, show (16 * x + y) / 16 = x by omega,
    show (16 * x + y) % 16 = y by omega]

/-- Encoded bytes are the digits in lower case. -/
theorem hexOfBytes_bytesOf {str : List UInt8} (h : isHexString str = true) :
    (bytesOf str).flatMap printByte = str.map lower := by
  refine hexString_induction
    (P := fun str => (bytesOf str).flatMap printByte = str.map lower) rfl ?_ h
  intro c₁ c₂ rest x y h₁ h₂ ih
  rw [bytesOf_cons h₁ h₂, List.flatMap_cons, printByte_pair h₁ h₂, ih]
  rfl

theorem length_flatMap_printByte (bytes : List UInt8) :
    (bytes.flatMap printByte).length = 2 * bytes.length := by
  induction bytes with
  | nil => rfl
  | cons b bytes ih =>
      rw [List.flatMap_cons, List.length_append, ih]
      simp only [printByte, List.length_cons, List.length_nil]
      omega

/-! ## Values -/

theorem length_content_of_quoted {value : List UInt8} (h : Quoted value) :
    (content value).length = value.length - 2 := by
  rw [content, if_pos h, List.length_take, List.length_drop]
  omega

/-- The value that is decoded is the content, unless the copy of a quoted value leaves its buffer. -/
theorem unquote_eq (value : List UInt8) :
    unquote value =
      if value = [quote] ∨ (Quoted value ∧ paramstrSize ≤ (content value).length) then none
      else some (content value) := by
  rw [unquote]
  by_cases hquotes : value.head? = some quote ∧ value.getLast? = some quote
  · rw [if_pos hquotes]
    by_cases hlong : 2 ≤ value.length
    · have hquoted : Quoted value := ⟨hlong, hquotes.1, hquotes.2⟩
      have hne : value ≠ [quote] := by
        rintro rfl
        exact absurd hlong (by decide)
      have hcontent : (value.drop 1).take (value.length - 2) = content value := by
        rw [content, if_pos hquoted]
      rw [hcontent, length_content_of_quoted hquoted]
      simp only [hne, hquoted, true_and, false_or, show ¬ value.length < 2 by omega]
    · have hone : value = [quote] := by
        cases value with
        | nil => cases hquotes.1
        | cons c rest =>
            have hc : c = quote := Option.some.inj hquotes.1
            have hrest : rest = [] := by
              apply List.length_eq_zero_iff.mp
              rw [List.length_cons] at hlong
              omega
            rw [hc, hrest]
      rw [if_pos (.inl (by omega)), if_pos (.inl hone)]
  · have hne : value ≠ [quote] := by
      rintro rfl
      exact hquotes ⟨rfl, rfl⟩
    have hquoted : ¬ Quoted value := fun h => hquotes h.2
    rw [if_neg hquotes, content, if_neg hquoted, if_neg (by simp [hne, hquoted])]

/-- What is done with a value that can be copied. -/
theorem spvDhcpv4SrvOptRout_eq {value : List UInt8} (h : unquote value = some (content value)) :
    spvDhcpv4SrvOptRout (some (.hex value)) =
      if (content value).length % 2 ≠ 0 then some (.requestReject, some (.hex value))
      else if paramstrSize < (bytesOf (content value)).length then none
      else if isHexString (content value) then
        if paramstrSize ≤ (cStr (bytesOf (content value))).length then none
        else some (.objectUpdated, some (.plain (cStr (bytesOf (content value)))))
      else some (.requestReject, some (.hex value)) := by
  rw [spvDhcpv4SrvOptRout, h]
  simp only
  rw [hexStr2AscStr]
  by_cases hnil : content value = []
  · rw [hnil]
    rfl
  · rw [if_neg hnil]
    by_cases hodd : (content value).length % 2 ≠ 0
    · rw [if_pos hodd, if_pos hodd]
      rfl
    · rw [if_neg hodd, if_neg hodd, hexLoop_eq, List.nil_append]
      simp only
      by_cases hbig : paramstrSize < (bytesOf (content value)).length
      · rw [if_pos hbig, if_pos hbig]
      · rw [if_neg hbig, if_neg hbig]
        cases hhex : isHexString (content value) with
        | true =>
            have hlen := length_bytesOf hhex
            simp only [Bool.not_true, Bool.false_eq_true, if_false, if_true]
            rw [if_pos (by omega)]
        | false =>
            simp only [Bool.not_false, if_true, Bool.false_eq_true, if_false]
            rw [if_neg (by decide)]

/-- Hex digits that fit are accepted. -/
theorem spvDhcpv4SrvOptRout_accepts {value : List UInt8} (hhex : isHexString (content value) = true)
    (hlo : 2 ≤ (content value).length)
    (hhi : (content value).length ≤ 256) :
    spvDhcpv4SrvOptRout (some (.hex value)) =
      some (.objectUpdated, some (.plain (cStr (bytesOf (content value))))) := by
  have hlen := length_bytesOf hhex
  have hcut : (cStr (bytesOf (content value))).length ≤ (bytesOf (content value)).length :=
    (List.takeWhile_prefix _).length_le
  have hunquote : unquote value = some (content value) := by
    rw [unquote_eq, if_neg]
    rintro (rfl | ⟨-, hlong⟩)
    · exact absurd hlo (by decide)
    · rw [paramstrSize] at hlong
      omega
  rw [spvDhcpv4SrvOptRout_eq hunquote, if_neg (by omega), if_neg (by rw [paramstrSize]; omega),
    if_pos hhex, if_neg (by rw [paramstrSize]; omega)]

/-- What the query makes of a stored text. -/
theorem queryDhcpv4SrvOptRout_eq (text : List UInt8) :
    queryDhcpv4SrvOptRout (some (.plain text)) =
      (.success, some (.plain (text.flatMap printByte))) := by
  by_cases hnil : (ParamValue.plain text).text = []
  · have htext : text = [] := hnil
    rw [htext]
    rfl
  · simp only [queryDhcpv4SrvOptRout, ascStr2HexStr, if_neg hnil]
    rfl

/-- The text is cut at the first zero byte. -/
theorem cStr_eq_self_iff (bytes : List UInt8) : cStr bytes = bytes ↔ 0 ∉ bytes := by
  rw [cStr, List.takeWhile_eq_self_iff]
  simp only [ne_eq, decide_eq_true_eq]
  exact ⟨fun h hmem => h 0 hmem rfl, fun h b hb hzero => h (hzero ▸ hb)⟩

/-- What is asked of a value: hex digits come back in lower case, and what is no even number of hex
digits is rejected. -/
structure Meets (value : List UInt8) : Prop where
  roundTrip : isHexString (content value) = true →
    2 ≤ (content value).length → (content value).length ≤ 256 →
    ∀ stored, spvDhcpv4SrvOptRout (some (.hex value)) = some (.objectUpdated, stored) →
      queryDhcpv4SrvOptRout stored = (.success, some (.plain ((content value).map lower)))
  reject : content value ≠ [] → isHexString (content value) = false →
    spvDhcpv4SrvOptRout (some (.hex value)) = some (.requestReject, some (.hex value))

/-- No byte of the digits is zero; and a value that is no even number of hex digits is not a single
quote, is not longer than the buffer for its copy, and does not start with more pairs of digits than
the buffer for the text holds. -/
structure Harmless (value : List UInt8) : Prop where
  noZero : isHexString (content value) = true →
    2 ≤ (content value).length → (content value).length ≤ 256 → 0 ∉ bytesOf (content value)
  fits : content value ≠ [] → isHexString (content value) = false →
    value ≠ [quote] ∧ (Quoted value → (content value).length ≤ 256) ∧
      ((content value).length % 2 = 0 → (bytesOf (content value)).length ≤ 257)

/-- The digits {lit}`4aB0` come back in lower case. -/
example : ∃ stored, spvDhcpv4SrvOptRout (some (.hex [52, 97, 66, 48])) = some (.objectUpdated, stored) ∧
    queryDhcpv4SrvOptRout stored = (.success, some (.plain [52, 97, 98, 48])) :=
  ⟨_, rfl, rfl⟩

end FeTr98
end ZyxelRouter
