import Mathlib.Algebra.Ring.Int.Defs
import Mathlib.Algebra.Ring.Nat
import Mathlib.Data.List.GetD
import ZyxelRouter.Lib.SplitText
import ZyxelRouter.ZcfgCommon
import ZyxelRouter.ZyUtil.AccountFile

/-!
# MAC addresses and their texts

{lit}`zyUtilIGetNthMAC` and {lit}`zyUtilIGetNthMACwithColon` of the MTK wrapper, which add a number to the
base address, and {lit}`zyUtilMacNumToStr` and {lit}`zyUtilMacStrToNum` of {lit}`common.c`.  The
{lit}`char` of the target is unsigned, and all allocations succeed.

Main results:

- Theorem {lit}`nthMacValues_eq`: the values that both functions compute.
- Theorem {lit}`macStrToNum_colonText`: a text of six bytes in hex, in either letter case, is read back.
- Theorem {lit}`mac_agree`: the two functions give the same address, base plus number, and texts are
  read back.
-/

namespace ZyxelRouter
namespace ZyUtil

open Lib

/-! ## The functions -/

/-- {lit}`ZCFG_MAC_ADDRESS_LEN`. -/
def zcfgMacAddressLen : Nat := 13

/-- {lit}`MAC_ADDRESS_WITH_COLON`. -/
def macAddressWithColon : Nat := 18

/-- {lit}`MAC_STR_LEN`. -/
def macStrLen : Nat := 17

/-- {lit}`MAC_ADDR_LEN`. -/
def macAddrLen : Nat := 6

/-- What {lit}`ahex2int` makes of one of its characters. -/
def ahexDigit (a : UInt8) : UInt8 :=
  if a ≤ 0x39 then a - 0x30 else (a &&& 0x7) + 9

/-- {lit}`ahex2int`. -/
def ahex2int (a b : UInt8) : Nat :=
  ((ahexDigit a).toNat <<< 4) + (ahexDigit b).toNat

/-- {lit}`mac_tmp` after {lit}`zyUtilIGetBaseMAC` has copied the base address into it. -/
def macTmp (base : List UInt8) : List UInt8 :=
  (base ++ List.replicate zcfgMacAddressLen 0).take zcfgMacAddressLen

/-- {lit}`val` after the first loop of {lit}`zyUtilIGetNthMAC` and {lit}`zyUtilIGetNthMACwithColon`. -/
def baseMacValues (mac_tmp : List UInt8) : List Nat :=
  (List.range 6).map fun i => ahex2int (mac_tmp.getD (i * 2) 0) (mac_tmp.getD (i * 2 + 1) 0)

/-- {lit}`val` after {lit}`cal` has been stored; an {lit}`unsigned long` has 64 bits. -/
def nthMacValues (mac_tmp : List UInt8) (nth : Int) : List Nat :=
  let val := baseMacValues mac_tmp
  let cal := (val.getD 3 0 <<< 16) ||| (val.getD 4 0 <<< 8) ||| val.getD 5 0
  let cal := ((cal + nth) % 2 ^ 64).toNat &&& 0xffffff
  let val := val.set 3 ((cal >>> 16) &&& 0xff)
  let val := val.set 4 ((cal >>> 8) &&& 0xff)
  val.set 5 (cal &&& 0xff)

/-- {lit}`zyUtilIGetNthMAC`: the six bytes it stores. -/
def zyUtilIGetNthMAC (mac_tmp : List UInt8) (nth : Int) : ZcfgRet × List UInt8 :=
  (.success, (nthMacValues mac_tmp nth).map UInt8.ofNat)

/-- The conversions {lit}`%02X` and {lit}`%2.2x`. -/
def printHex (upper : Bool) (v : Nat) : List UInt8 :=
  let digits := (Nat.toDigits 16 v).map fun c => if upper then c.toUpper else c
  (digits.map fun c => UInt8.ofNat c.toNat).leftpad 2 0x30

/-- The format of six bytes with colons between them. -/
def colonText (upper : Bool) (val : List Nat) : List UInt8 :=
  [colon].intercalate (val.map (printHex upper))

/-- {lit}`zos_snprintf` of a text: the buffer of {lit}`size` bytes afterwards. -/
def zosSnprintf (size : Nat) (text : List UInt8) : List UInt8 :=
  let text := text.take (size - 1)
  text ++ List.replicate (size - text.length) 0

/-- {lit}`zyUtilIGetNthMACwithColon`: the buffer it prints to. -/
def zyUtilIGetNthMACwithColon (mac_tmp : List UInt8) (nth : Int) : ZcfgRet × List UInt8 :=
  (.success, zosSnprintf (zcfgMacAddressLen + 5) (colonText true (nthMacValues mac_tmp nth)))

/-- {lit}`zyUtilMacNumToStr`: the buffer it prints to. -/
def zyUtilMacNumToStr (macNum macStr : Option (List UInt8)) : ZcfgRet × Option (List UInt8) :=
  match macNum, macStr with
  | some macNum, some _ =>
      (.success, some (zosSnprintf macAddressWithColon
        (colonText false ((macNum.take macAddrLen).map UInt8.toNat))))
  | _, macStr => (.invalidArguments, macStr)

/-- {lit}`isspace`. -/
def isSpaceByte (c : UInt8) : Bool :=
  c == 0x20 || (0x09 ≤ c && c ≤ 0x0d)

/-- The value of a hex digit. -/
def hexValue (c : UInt8) : Option Nat :=
  if 0x30 ≤ c ∧ c ≤ 0x39 then some (c.toNat - 0x30)
  else if 0x41 ≤ c ∧ c ≤ 0x46 then some (c.toNat - 0x41 + 10)
  else if 0x61 ≤ c ∧ c ≤ 0x66 then some (c.toNat - 0x61 + 10)
  else none

/-- The value of the hex digits at the front of a text. -/
def leadingHex : Nat → List UInt8 → Nat
  | v, [] => v
  | v, c :: s =>
      match hexValue c with
      | some d => leadingHex (16 * v + d) s
      | none => v

/-- The digits behind an optional {lit}`0x`. -/
def skipHexMark : List UInt8 → List UInt8
  | c :: x :: d :: s =>
      if c == 0x30 && (x == 0x78 || x == 0x58) && (hexValue d).isSome then d :: s else c :: x :: d :: s
  | s => s

/-- {lit}`strtol` with base 16; a {lit}`long` has 64 bits. -/
def strtol16 (s : List UInt8) : Int :=
  let s := s.dropWhile isSpaceByte
  if s.head? = some 0x2d then
    max (-(leadingHex 0 (skipHexMark s.tail))) (-2 ^ 63)
  else
    let s := if s.head? = some 0x2b then s.tail else s
    min (leadingHex 0 (skipHexMark s)) (2 ^ 63 - 1)

/-- The conversion to {lit}`uint8_t`. -/
def toUint8 (v : Int) : UInt8 :=
  UInt8.ofNat (v % 256).toNat

/-- {lit}`zyUtilMacStrToNum`: the result and {lit}`macNum` afterwards, or {lit}`none` if {lit}`strtol`
gets no token. -/
def zyUtilMacStrToNum (macStr macNum : Option (List UInt8)) :
    Option (ZcfgRet × Option (List UInt8)) :=
  match macStr, macNum with
  | some macStr, some macNum =>
      let tokens := strtok colon ((cString macStr).take macStrLen)
      if tokens.length < macAddrLen then none
      else
        let bytes := (tokens.take macAddrLen).map fun pToken => toUint8 (strtol16 pToken)
        some (.success, some (bytes ++ macNum.drop macAddrLen))
  | _, macNum => some (.invalidArguments, macNum)

/-! ## Addresses -/

/-- The digits of a base address. -/
def upperHexDigits : List UInt8 :=
  "0123456789ABCDEF".toList.map fun c => UInt8.ofNat c.toNat

/-- A base address: twelve upper-case hex digits. -/
structure BaseMac where
  text : List UInt8
  length_text : text.length = 12
  digits : ∀ c ∈ text, c ∈ upperHexDigits

/-- The byte at a position of a base address. -/
def BaseMac.byte (base : BaseMac) (i : Nat) : Nat :=
  16 * upperHexDigits.idxOf (base.text.getD (2 * i) 0) +
    upperHexDigits.idxOf (base.text.getD (2 * i + 1) 0)

/-- The number of the last three bytes of a base address. -/
def BaseMac.low (base : BaseMac) : Nat :=
  base.byte 3 * 2 ^ 16 + base.byte 4 * 2 ^ 8 + base.byte 5

/-- Six bytes. -/
abbrev MacAddress := Vector UInt8 6

/-- The number of the last three bytes of an address. -/
def macLow (address : MacAddress) : Nat :=
  address[3].toNat * 2 ^ 16 + address[4].toNat * 2 ^ 8 + address[5].toNat

/-! ## The values of an address -/

/-- The hand-made formula gives the values of upper-case digits. -/
theorem ahexDigit_eq {c : UInt8} (h : c ∈ upperHexDigits) :
    (ahexDigit c).toNat = upperHexDigits.idxOf c := by
  have hall : ∀ d ∈ upperHexDigits, (ahexDigit d).toNat = upperHexDigits.idxOf d := by
    decide +kernel
  exact hall c h

theorem BaseMac.getD_mem (base : BaseMac) {i : Nat} (h : i < 12) :
    base.text.getD i 0 ∈ upperHexDigits := by
  rw [List.getD_eq_getElem _ _ (by rw [base.length_text]; exact h)]
  exact base.digits _ (List.getElem_mem _)

theorem BaseMac.byte_lt (base : BaseMac) {i : Nat} (h : i < 6) : base.byte i < 256 := by
  have hhigh := List.idxOf_lt_length_of_mem (base.getD_mem (show 2 * i < 12 by omega))
  have hlow := List.idxOf_lt_length_of_mem (base.getD_mem (show 2 * i + 1 < 12 by omega))
  rw [show upperHexDigits.length = 16 from rfl] at hhigh hlow
  rw [BaseMac.byte]
  omega

/-- The copied base address. -/
theorem getD_macTmp (base : BaseMac) {i : Nat} (h : i < 12) :
    (macTmp base.text).getD i 0 = base.text.getD i 0 := by
  have hlen := base.length_text
  simp only [macTmp, zcfgMacAddressLen, List.getD_eq_getElem?_getD]
  rw [List.getElem?_take_of_lt (by omega), List.getElem?_append_left (by omega)]

/-- The first loop decodes the base address. -/
theorem baseMacValues_eq (base : BaseMac) :
    baseMacValues (macTmp base.text) = (List.range 6).map base.byte := by
  apply List.map_congr_left
  intro i hi
  have hi6 : i < 6 := List.mem_range.mp hi
  rw [getD_macTmp base (by omega), getD_macTmp base (by omega), ahex2int, Nat.mul_comm i 2,
    ahexDigit_eq (base.getD_mem (by omega)), ahexDigit_eq (base.getD_mem (by omega)),
    Nat.shiftLeft_eq, BaseMac.byte]
  omega

/-- Three bytes that are shifted together. -/
theorem shiftedLow_eq {x y z : Nat} (hy : y < 256) (hz : z < 256) :
    (x <<< 16) ||| (y <<< 8) ||| z = x * 2 ^ 16 + y * 2 ^ 8 + z := by
  have hxy : (x <<< 16) ||| (y <<< 8) = (x <<< 8 + y) <<< 8 := by
    rw [show 16 = 8 + 8 from rfl, Nat.shiftLeft_add, ← Nat.shiftLeft_or_distrib,
      Nat.shiftLeft_add_eq_or_of_lt hy]
  rw [hxy, ← Nat.shiftLeft_add_eq_or_of_lt hz, Nat.shiftLeft_eq, Nat.shiftLeft_eq]
  omega

/-- The sum is cut to three bytes. -/
theorem maskedSum_eq (low : Nat) (n : Int) :
    (((low : Int) + n) % 2 ^ 64).toNat &&& 0xffffff = (((low : Int) + n) % 2 ^ 24).toNat := by
  rw [show 0xffffff = 2 ^ 24 - 1 from rfl, Nat.and_two_pow_sub_one_eq_mod]
  omega

/-- The address that is {lit}`n` behind a base address. -/
def nthAddress (base : BaseMac) (n : Int) : MacAddress :=
  let low := ((base.low + n) % 2 ^ 24).toNat
  #v[UInt8.ofNat (base.byte 0), UInt8.ofNat (base.byte 1), UInt8.ofNat (base.byte 2),
    UInt8.ofNat (low / 2 ^ 16), UInt8.ofNat (low / 2 ^ 8), UInt8.ofNat low]

/-- Both functions compute the values of this address. -/
theorem nthMacValues_eq (base : BaseMac) (n : Int) :
    nthMacValues (macTmp base.text) n = (nthAddress base n).toList.map UInt8.toNat := by
  have h0 := base.byte_lt (show 0 < 6 by omega)
  have h1 := base.byte_lt (show 1 < 6 by omega)
  have h2 := base.byte_lt (show 2 < 6 by omega)
  have hcal := shiftedLow_eq (x := base.byte 3) (base.byte_lt (show 4 < 6 by omega))
    (base.byte_lt (show 5 < 6 by omega))
  have hmask : ∀ m : Nat, m &&& 0xff = m % 256 := fun m =>
    Nat.and_two_pow_sub_one_eq_mod m 8
  have hvals : (List.range 6).map base.byte =
      [base.byte 0, base.byte 1, base.byte 2, base.byte 3, base.byte 4, base.byte 5] := rfl
  have hlow : base.byte 3 * 2 ^ 16 + base.byte 4 * 2 ^ 8 + base.byte 5 = base.low := rfl
  simp only [nthMacValues, baseMacValues_eq, hvals, List.getD_cons_succ, List.getD_cons_zero,
    hcal, hlow, maskedSum_eq, hmask, Nat.shiftRight_eq_div_pow]
  simp [nthAddress, Nat.mod_eq_of_lt, h0, h1, h2]

/-! ## Texts -/

/-- The text of a byte. -/
theorem printHex_facts : ∀ upper : Bool, ∀ v < 256,
    (printHex upper v).length = 2 ∧ colon ∉ printHex upper v ∧ 0 ∉ printHex upper v ∧
      strtol16 (printHex upper v) = v := by
  decide +kernel

/-- A byte is read back from its text. -/
theorem toUint8_strtol16 (upper : Bool) (b : UInt8) :
    toUint8 (strtol16 (printHex upper b.toNat)) = b := by
  have hb := b.toNat_lt
  rw [(printHex_facts upper b.toNat hb).2.2.2, toUint8]
  apply UInt8.toNat_inj.mp
  rw [UInt8.toNat_ofNat']
  omega

/-- The texts of the bytes of an address. -/
def bytePieces (upper : Bool) (address : MacAddress) : List (List UInt8) :=
  address.toList.map fun b => printHex upper b.toNat

theorem bytePieces_facts {upper : Bool} {address : MacAddress} {p : List UInt8}
    (h : p ∈ bytePieces upper address) : p.length = 2 ∧ colon ∉ p ∧ 0 ∉ p := by
  obtain ⟨b, -, rfl⟩ := List.mem_map.mp h
  have hfacts := printHex_facts upper b.toNat b.toNat_lt
  exact ⟨hfacts.1, hfacts.2.1, hfacts.2.2.1⟩

theorem colonText_eq (upper : Bool) (address : MacAddress) :
    colonText upper (address.toList.map UInt8.toNat) =
      [colon].intercalate (bytePieces upper address) := by
  rw [colonText, bytePieces, List.map_map]
  rfl

theorem splitOn_colonText (upper : Bool) (address : MacAddress) :
    (colonText upper (address.toList.map UInt8.toNat)).splitOn colon = bytePieces upper address := by
  apply splitOn_eq_iff.mpr
  refine ⟨?_, colonText_eq upper address, fun p hp => (bytePieces_facts hp).2.1⟩
  intro hnil
  have hlen := congrArg List.length hnil
  simp [bytePieces] at hlen

/-- Pieces of two characters with a separator between them. -/
theorem length_intercalate_pairs {α : Type} (sep : α) {parts : List (List α)} (hne : parts ≠ [])
    (h : ∀ p ∈ parts, p.length = 2) : ([sep].intercalate parts).length + 1 = 3 * parts.length := by
  induction parts with
  | nil => exact absurd rfl hne
  | cons p parts ih =>
      have hp := h p List.mem_cons_self
      by_cases hparts : parts = []
      · simp [hparts, hp]
      · have hrest := ih hparts fun q hq => h q (List.mem_cons_of_mem p hq)
        rw [List.intercalate_cons_of_ne_nil hparts, List.length_append, List.length_append, hp,
          List.length_singleton, List.length_cons]
        omega

theorem length_colonText (upper : Bool) (address : MacAddress) :
    (colonText upper (address.toList.map UInt8.toNat)).length = macStrLen := by
  have hne : bytePieces upper address ≠ [] := by
    intro hnil
    have hlen := congrArg List.length hnil
    simp [bytePieces] at hlen
  have hlen := length_intercalate_pairs colon hne fun p hp => (bytePieces_facts hp).1
  rw [← colonText_eq, bytePieces, List.length_map, Vector.length_toList] at hlen
  rw [macStrLen]
  omega

theorem zero_notMem_colonText (upper : Bool) (address : MacAddress) :
    0 ∉ colonText upper (address.toList.map UInt8.toNat) := by
  rw [mem_iff_splitOn (show (0 : UInt8) ≠ colon by decide), splitOn_colonText]
  rintro ⟨p, hp, hmem⟩
  exact (bytePieces_facts hp).2.2 hmem

/-- The text fits into its buffer. -/
theorem zosSnprintf_colonText (upper : Bool) (address : MacAddress) :
    zosSnprintf macAddressWithColon (colonText upper (address.toList.map UInt8.toNat)) =
      colonText upper (address.toList.map UInt8.toNat) ++ [0] := by
  have hlen := length_colonText upper address
  rw [macStrLen] at hlen
  simp only [zosSnprintf, macAddressWithColon]
  rw [List.take_of_length_le (by omega), hlen]
  rfl

/-- The text of an address, in either letter case, is read back. -/
theorem macStrToNum_colonText (upper : Bool) (address macNum : MacAddress) :
    zyUtilMacStrToNum
        (some (zosSnprintf macAddressWithColon (colonText upper (address.toList.map UInt8.toNat))))
        (some macNum.toList) = some (.success, some address.toList) := by
  have hcopy : (cString (zosSnprintf macAddressWithColon
      (colonText upper (address.toList.map UInt8.toNat)))).take macStrLen =
        colonText upper (address.toList.map UInt8.toNat) := by
    have hzero : cString [0] = [] := rfl
    rw [zosSnprintf_colonText, cString, List.takeWhile_append_of_pos, ← cString, hzero,
      List.append_nil, ← length_colonText upper address, List.take_length]
    intro c hc
    have hne : c ≠ 0 := fun h0 => zero_notMem_colonText upper address (h0 ▸ hc)
    simpa using hne
  have htokens : strtok colon (colonText upper (address.toList.map UInt8.toNat)) =
      bytePieces upper address := by
    rw [strtok_eq_splitOn, splitOn_colonText]
    rw [splitOn_colonText]
    intro hnil
    have hlen := (bytePieces_facts hnil).1
    simp at hlen
  have hcount : (bytePieces upper address).length = macAddrLen := by
    rw [bytePieces, List.length_map, Vector.length_toList, macAddrLen]
  have hbytes : (bytePieces upper address).map (fun pToken => toUint8 (strtol16 pToken)) =
      address.toList := by
    rw [bytePieces, List.map_map]
    conv_rhs => rw [← List.map_id address.toList]
    exact List.map_congr_left fun b _ => toUint8_strtol16 upper b
  have hdrop : macNum.toList.drop macAddrLen = [] :=
    List.drop_of_length_le (by rw [Vector.length_toList, macAddrLen])
  simp only [zyUtilMacStrToNum]
  rw [hcopy, htokens, if_neg (by omega), ← hcount, List.take_length, hbytes, hcount, hdrop,
    List.append_nil]

/-- The last three bytes are those of the sum. -/
theorem macLow_nthAddress (base : BaseMac) (n : Int) :
    (macLow (nthAddress base n) : Int) = (base.low + n) % 2 ^ 24 := by
  simp only [macLow, nthAddress, Vector.getElem_mk, List.getElem_toArray, List.getElem_cons_succ,
    List.getElem_cons_zero, UInt8.toNat_ofNat']
  omega

/-- The two functions give one address with the first bytes of the base and the sum in the others,
and addresses are read back from their texts. -/
theorem mac_agree :
    (∀ (base : BaseMac) (n : Int) (macNum : MacAddress), ∃ address : MacAddress,
      zyUtilIGetNthMAC (macTmp base.text) n = (.success, address.toList) ∧
      zyUtilIGetNthMACwithColon (macTmp base.text) n =
        (.success, colonText true (address.toList.map UInt8.toNat) ++ [0]) ∧
      address[0].toNat = base.byte 0 ∧ address[1].toNat = base.byte 1 ∧
      address[2].toNat = base.byte 2 ∧ (macLow address : Int) = (base.low + n) % 2 ^ 24 ∧
      zyUtilMacStrToNum (some (zyUtilIGetNthMACwithColon (macTmp base.text) n).2)
        (some macNum.toList) = some (.success, some address.toList)) ∧
    ∀ (address macNum : MacAddress) (macStr : List UInt8),
      zyUtilMacStrToNum (zyUtilMacNumToStr (some address.toList) (some macStr)).2
        (some macNum.toList) = some (.success, some address.toList) := by
  refine ⟨?_, ?_⟩
  · intro base n macNum
    have hbytes : (nthMacValues (macTmp base.text) n).map UInt8.ofNat =
        (nthAddress base n).toList := by
      rw [nthMacValues_eq, List.map_map]
      conv_rhs => rw [← List.map_id (nthAddress base n).toList]
      exact List.map_congr_left fun b _ => UInt8.ofNat_toNat
    have hbase : ∀ i, i < 3 → (UInt8.ofNat (base.byte i)).toNat = base.byte i := by
      intro i hi
      rw [UInt8.toNat_ofNat', Nat.mod_eq_of_lt (base.byte_lt (by omega))]
    have htext : zyUtilIGetNthMACwithColon (macTmp base.text) n =
        (.success, zosSnprintf macAddressWithColon
          (colonText true ((nthAddress base n).toList.map UInt8.toNat))) := by
      rw [zyUtilIGetNthMACwithColon, nthMacValues_eq]
      rfl
    refine ⟨nthAddress base n, ?_, ?_, hbase 0 (by omega), hbase 1 (by omega),
      hbase 2 (by omega), macLow_nthAddress base n, ?_⟩
    · rw [zyUtilIGetNthMAC, hbytes]
    · rw [htext, zosSnprintf_colonText]
    · rw [htext]
      exact macStrToNum_colonText true (nthAddress base n) macNum
  · intro address macNum macStr
    have htake : address.toList.take macAddrLen = address.toList :=
      List.take_of_length_le (by rw [Vector.length_toList, macAddrLen])
    simp only [zyUtilMacNumToStr]
    rw [htake]
    exact macStrToNum_colonText false address macNum

end ZyUtil
end ZyxelRouter
