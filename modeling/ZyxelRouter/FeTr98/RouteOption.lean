import Mathlib.Data.List.GetD
import ZyxelRouter.FeTr98.HexOption
import ZyxelRouter.Lib.Bytes

/-!
# Classless static routes of DHCPv4 clients

{lit}`queryDhcpv4ReqOptRout` decodes the value of the DHCP option 121, a list of routes, and shows it as
text in hex.  Each access to a buffer and each shift amount is checked, and a check that fails ends
the call with {lit}`none`.  The {lit}`char` of the target is unsigned, its byte order is little-endian,
and its C library is musl.

Main results:

- Theorem {lit}`decodeLoop_eq`: hex digits are decoded pair by pair.
- Theorem {lit}`routeTurn_route`: what one turn of the loop appends.
- Theorem {lit}`query_safe_iff`: when all accesses are within bounds.
- Theorem {lit}`query_routes`: the text of a well-formed list of routes.
-/

namespace ZyxelRouter
namespace FeTr98

open Lib

/-! ## The functions -/

/-- {lit}`ReqOptLen`. -/
def reqOptLen : Nat := 1536

/-- {lit}`isspace`. -/
def isSpaceByte (c : UInt8) : Bool :=
  c == 0x20 || (0x09 ≤ c && c ≤ 0x0d)

/-- {lit}`sscanf(ptr, "%02x%n", &value, &i)`: the low byte of {lit}`value` and what follows, or
{lit}`none` if nothing is converted.  The two characters may start with a sign, and {lit}`0x` alone
is no number. -/
def scanHexByte (ptr : List UInt8) : Option (UInt8 × List UInt8) :=
  match ptr.dropWhile isSpaceByte with
  | [] => none
  | [c] => (charHex2Int c).map fun d => (UInt8.ofNat d, [])
  | c :: c' :: rest =>
      if c = 0x2b then (charHex2Int c').map fun d => (UInt8.ofNat d, rest)
      else if c = 0x2d then (charHex2Int c').map fun d => (UInt8.ofNat (256 - d), rest)
      else
        match charHex2Int c, charHex2Int c' with
        | none, _ => none
        | some d, some d' => some (UInt8.ofNat (16 * d + d'), rest)
        | some d, none =>
            if c = 0x30 ∧ (c' = 0x78 ∨ c' = 0x58) then none else some (UInt8.ofNat d, c' :: rest)

/-- A conversion consumes characters. -/
theorem length_scanHexByte {ptr rest : List UInt8} {b : UInt8}
    (h : scanHexByte ptr = some (b, rest)) : rest.length < ptr.length := by
  have hle := (List.dropWhile_suffix isSpaceByte (l := ptr)).length_le
  rw [scanHexByte] at h
  split at h
  · cases h
  · rename_i c hdrop
    rw [hdrop, List.length_singleton] at hle
    obtain ⟨d, -, hd⟩ := Option.map_eq_some_iff.mp h
    cases hd
    exact hle
  · rename_i c c' rest' hdrop
    rw [hdrop, List.length_cons, List.length_cons] at hle
    have hcases : rest = rest' ∨ rest = c' :: rest' := by
      split at h
      · obtain ⟨d, -, hd⟩ := Option.map_eq_some_iff.mp h
        exact .inl (Prod.mk.inj hd).2.symm
      · split at h
        · obtain ⟨d, -, hd⟩ := Option.map_eq_some_iff.mp h
          exact .inl (Prod.mk.inj hd).2.symm
        · split at h
          · cases h
          · exact .inl (Prod.mk.inj (Option.some.inj h)).2.symm
          · split at h
            · cases h
            · exact .inr (Prod.mk.inj (Option.some.inj h)).2.symm
    rcases hcases with rfl | rfl
    · omega
    · rw [List.length_cons]
      omega

/-- The loop of {lit}`hexStrToOption`: the bytes that it writes. -/
def decodeLoop (ptr : List UInt8) : List UInt8 :=
  match _h : scanHexByte ptr with
  | none => []
  | some (b, rest) => b :: decodeLoop rest
termination_by ptr.length
decreasing_by exact length_scanHexByte _h

/-- {lit}`hexStrToOption`: the buffer of 512 bytes. -/
def hexStrToOption (hexStr : List UInt8) : Option (List UInt8) :=
  let hexOpt := decodeLoop hexStr
  if 512 < hexOpt.length then none
  else some (hexOpt ++ List.replicate (512 - hexOpt.length) 0)

/-- {lit}`sprintf` into a buffer of {lit}`size` bytes. -/
def sprintfInto (size : Nat) (text : List UInt8) : Option (List UInt8) :=
  if text.length < size then some text else none

/-- The conversion {lit}`%d` of a byte. -/
def printDec (b : UInt8) : List UInt8 :=
  (Nat.toDigits 10 b.toNat).map fun c => UInt8.ofNat c.toNat

/-- The format {lit}`%d.%d.%d.%d`. -/
def printDotted (b : List UInt8) : List UInt8 :=
  printDec (b.getD 0 0) ++ 0x2e :: printDec (b.getD 1 0) ++ 0x2e :: printDec (b.getD 2 0) ++
    0x2e :: printDec (b.getD 3 0)

/-- The loop of {lit}`maskBitsToStr`, which shifts by {lit}`32 - i`. -/
def maskLoop : Nat → Nat → Option Nat
  | 0, mask => some mask
  | i + 1, mask => if 32 < i + 1 then none else maskLoop i (mask ||| 1 <<< (32 - (i + 1)))

/-- {lit}`htonl`. -/
def htonl (x : Nat) : Nat :=
  leNat (leBytes 4 x).reverse

/-- {lit}`maskBitsToStr` into a buffer of 17 bytes. -/
def maskBitsToStr (maskBits : UInt8) : Option (List UInt8) := do
  let mask ← maskLoop maskBits.toNat 0
  let buf := leBytes 4 (htonl mask)
  sprintfInto 17 (printDotted buf)

/-- {lit}`memcpy` of {lit}`n` bytes at {lit}`i` to the front of {lit}`dst`. -/
def memcpyFrom (dst option : List UInt8) (i n : Nat) : Option (List UInt8) :=
  if dst.length < n ∨ option.length < i + n then none
  else some (writeAt dst 0 (readAt option i n))

/-- {lit}`strncat` into {lit}`valueStr` with the room that is left but one byte. -/
def strncatValue (valueStr cmd : List UInt8) : Option (List UInt8) :=
  let nCount := reqOptLen + 1 - valueStr.length
  sprintfInto (reqOptLen + 1) (valueStr ++ cmd.take (nCount - 1))

/-- The format {lit}`%s/%s-%s ` of {lit}`zos_snprintf`. -/
def routeCmd (dst_str mask gateway : List UInt8) : List UInt8 :=
  (dst_str ++ 0x2f :: mask ++ 0x2d :: gateway ++ [0x20]).take 255

/-- One turn of the loop of {lit}`queryDhcpv4ReqOptRout`: {lit}`i` and {lit}`valueStr` afterwards. -/
def routeTurn (option : List UInt8) (i : Nat) (valueStr : List UInt8) :
    Option (Nat × List UInt8) := do
  let width ← option[i]?
  if width = 0 then
    return (i + 5, valueStr)
  let mask ← maskBitsToStr width
  let dest_len_byte := width.toNat / 8 + if width.toNat % 8 ≠ 0 then 1 else 0
  let i := i + 1
  let dst ← memcpyFrom (List.replicate 4 0) option i dest_len_byte
  let dst_str ← sprintfInto 24 (printDotted dst)
  let i := i + dest_len_byte
  let g0 ← option[i]?
  let g1 ← option[i + 1]?
  let g2 ← option[i + 2]?
  let g3 ← option[i + 3]?
  let gateway ← sprintfInto 17 (printDotted [g0, g1, g2, g3])
  let i := i + 4
  let valueStr ← strncatValue valueStr (routeCmd dst_str mask gateway)
  return (i, valueStr)

/-- A turn goes on in the option. -/
theorem lt_of_routeTurn {option valueStr valueStr' : List UInt8} {i i' : Nat}
    (h : routeTurn option i valueStr = some (i', valueStr')) : i < i' := by
  rw [routeTurn] at h
  obtain ⟨width, -, h⟩ := Option.bind_eq_some_iff.mp h
  split at h
  · cases h
    omega
  · obtain ⟨mask, -, h⟩ := Option.bind_eq_some_iff.mp h
    obtain ⟨dst, -, h⟩ := Option.bind_eq_some_iff.mp h
    obtain ⟨dst_str, -, h⟩ := Option.bind_eq_some_iff.mp h
    obtain ⟨g0, -, h⟩ := Option.bind_eq_some_iff.mp h
    obtain ⟨g1, -, h⟩ := Option.bind_eq_some_iff.mp h
    obtain ⟨g2, -, h⟩ := Option.bind_eq_some_iff.mp h
    obtain ⟨g3, -, h⟩ := Option.bind_eq_some_iff.mp h
    obtain ⟨gateway, -, h⟩ := Option.bind_eq_some_iff.mp h
    obtain ⟨value, -, h⟩ := Option.bind_eq_some_iff.mp h
    cases h
    omega

/-- The loop of {lit}`queryDhcpv4ReqOptRout`. -/
def routeLoop (option : List UInt8) (i : Nat) (valueStr : List UInt8) : Option (List UInt8) :=
  if i < (option.getD 1 0).toNat + 2 then
    match _h : routeTurn option i valueStr with
    | none => none
    | some (i', valueStr') => routeLoop option i' valueStr'
  else
    some valueStr
termination_by (option.getD 1 0).toNat + 2 - i
decreasing_by
  have hlt := lt_of_routeTurn _h
  omega

/-- The members of a query object that are used: {lit}`Tag` as {lit}`json_object_get_int` reads it, and
the text of {lit}`Value`. -/
structure ReqOption where
  tag : Option Int
  value : Option (List UInt8)
deriving DecidableEq

/-- {lit}`queryDhcpv4ReqOptRout`: the result and the object afterwards, or {lit}`none` if an access is out
of bounds or a shift amount is negative. -/
def queryDhcpv4ReqOptRout (queryObj : Option ReqOption) : Option (ZcfgRet × Option ReqOption) :=
  match queryObj with
  | none => some (.success, none)
  | some obj =>
      match obj.value with
      | none => some (.success, queryObj)
      | some paramValueStr =>
          if paramValueStr ≠ [] ∧ obj.tag.getD 0 = 121 then do
            let option ← hexStrToOption paramValueStr
            let valueStr ← routeLoop option 2 []
            let hexStr ← sprintfInto (reqOptLen * 2 + 1) (ascStr2HexStr valueStr).1
            if 0 ≤ (ascStr2HexStr valueStr).2 then
              return (.success, some { obj with value := some hexStr })
            else
              return (.success, queryObj)
          else
            some (.success, queryObj)

/-! ## Decoding -/

/-- The bytes that hex digits stand for, two digits a byte and the last one alone if their number is
odd. -/
def octets : List UInt8 → List UInt8
  | [] => []
  | [c] => [UInt8.ofNat ((charHex2Int c).getD 0)]
  | c :: c' :: rest =>
      UInt8.ofNat (16 * (charHex2Int c).getD 0 + (charHex2Int c').getD 0) :: octets rest

theorem length_octets_le (digits : List UInt8) : 2 * (octets digits).length ≤ digits.length + 1 := by
  induction digits using octets.induct with
  | case1 => simp [octets]
  | case2 c => simp [octets]
  | case3 c c' rest ih =>
      simp only [octets, List.length_cons]
      omega

/-- A hex digit is neither a blank nor a sign. -/
theorem isHexDigit_facts {c : UInt8} (h : isHexDigit c = true) :
    isSpaceByte c = false ∧ c ≠ 0x2b ∧ c ≠ 0x2d := by
  have hall : ∀ n < 256, isHexDigit (UInt8.ofNat n) = true →
      isSpaceByte (UInt8.ofNat n) = false ∧ UInt8.ofNat n ≠ 0x2b ∧ UInt8.ofNat n ≠ 0x2d := by
    decide +kernel
  have hc := hall c.toNat c.toNat_lt
  rw [UInt8.ofNat_toNat] at hc
  exact hc h

/-- Hex digits are decoded pair by pair. -/
theorem decodeLoop_eq {digits : List UInt8} (h : ∀ c ∈ digits, isHexDigit c = true) :
    decodeLoop digits = octets digits := by
  induction digits using octets.induct with
  | case1 =>
      rw [decodeLoop]
      rfl
  | case2 c =>
      have hc := h c List.mem_cons_self
      obtain ⟨d, hd⟩ := Option.isSome_iff_exists.mp hc
      have hscan : scanHexByte [c] = some (UInt8.ofNat d, []) := by
        rw [scanHexByte, List.dropWhile_cons_of_neg (by simp [(isHexDigit_facts hc).1])]
        simp [hd]
      have hnil : decodeLoop [] = [] := by
        rw [decodeLoop]
        rfl
      rw [decodeLoop, hscan, octets, hd]
      simp only [hnil, Option.getD_some]
  | case3 c c' rest ih =>
      have hc := h c List.mem_cons_self
      have hc' := h c' (by simp)
      obtain ⟨d, hd⟩ := Option.isSome_iff_exists.mp hc
      obtain ⟨d', hd'⟩ := Option.isSome_iff_exists.mp hc'
      have hfacts := isHexDigit_facts hc
      have hscan : scanHexByte (c :: c' :: rest) = some (UInt8.ofNat (16 * d + d'), rest) := by
        rw [scanHexByte, List.dropWhile_cons_of_neg (by simp [hfacts.1])]
        simp only [hd, hd', if_neg hfacts.2.1, if_neg hfacts.2.2]
      rw [decodeLoop, hscan, octets, hd, hd']
      simp only [Option.getD_some]
      rw [ih fun x hx => h x (by simp [hx])]

/-- The buffer with the decoded option. -/
def optionBuffer (bytes : List UInt8) : List UInt8 :=
  bytes ++ List.replicate (512 - bytes.length) 0

theorem length_optionBuffer {bytes : List UInt8} (h : bytes.length ≤ 512) :
    (optionBuffer bytes).length = 512 := by
  rw [optionBuffer, List.length_append, List.length_replicate]
  omega

/-- Up to 1024 digits fit into the buffer. -/
theorem hexStrToOption_eq {digits : List UInt8} (h : ∀ c ∈ digits, isHexDigit c = true)
    (hlen : digits.length ≤ 1024) :
    hexStrToOption digits = some (optionBuffer (octets digits)) := by
  have hle := length_octets_le digits
  simp only [hexStrToOption, decodeLoop_eq h]
  rw [if_neg (by omega), optionBuffer]

/-! ## One turn of the loop -/

/-- A byte with {lit}`n` leading ones. -/
def leadingOnes (n : Nat) : UInt8 :=
  UInt8.ofNat (256 - 2 ^ (8 - n))

/-- The four bytes of the mask with {lit}`width` leading ones. -/
def maskOctets (width : Nat) : List UInt8 :=
  (List.range 4).map fun k => leadingOnes (min 8 (width - 8 * k))

/-- The text of a route: destination, mask and gateway. -/
def routeText (width : Nat) (dest gateway : List UInt8) : List UInt8 :=
  printDotted (dest ++ List.replicate (4 - dest.length) 0) ++ 0x2f :: printDotted (maskOctets width) ++
    0x2d :: printDotted gateway ++ [0x20]

theorem length_printDec (b : UInt8) : (printDec b).length ≤ 3 := by
  have hall : ∀ n < 256, (printDec (UInt8.ofNat n)).length ≤ 3 := by decide +kernel
  have hb := hall b.toNat b.toNat_lt
  rwa [UInt8.ofNat_toNat] at hb

theorem length_printDotted (b : List UInt8) : (printDotted b).length ≤ 15 := by
  have h0 := length_printDec (b.getD 0 0)
  have h1 := length_printDec (b.getD 1 0)
  have h2 := length_printDec (b.getD 2 0)
  have h3 := length_printDec (b.getD 3 0)
  simp only [printDotted, List.length_append, List.length_cons]
  omega

theorem sprintfInto_printDotted {size : Nat} (h : 15 < size) (b : List UInt8) :
    sprintfInto size (printDotted b) = some (printDotted b) := by
  have hlen := length_printDotted b
  rw [sprintfInto, if_pos (by omega)]

/-- The mask of a width of at most 32. -/
theorem maskBitsToStr_of_le {maskBits : UInt8} (h : maskBits.toNat ≤ 32) :
    maskBitsToStr maskBits = some (printDotted (maskOctets maskBits.toNat)) := by
  have hall : ∀ w < 33, maskLoop w 0 = some (leNat (maskOctets w).reverse) := by decide +kernel
  have hlen : (maskOctets maskBits.toNat).length = 4 := by simp [maskOctets]
  have hbytes : leBytes 4 (htonl (leNat (maskOctets maskBits.toNat).reverse)) =
      maskOctets maskBits.toNat := by
    have hinner := leBytes_leNat (maskOctets maskBits.toNat).reverse
    rw [List.length_reverse, hlen] at hinner
    have houter := leBytes_leNat (maskOctets maskBits.toNat)
    rw [hlen] at houter
    rw [htonl, hinner, List.reverse_reverse, houter]
  rw [maskBitsToStr, hall _ (by omega)]
  simp only [Option.bind_eq_bind, Option.bind_some]
  rw [hbytes, sprintfInto_printDotted (by omega)]

/-- The shift amount for a larger width is negative. -/
theorem maskBitsToStr_of_lt {maskBits : UInt8} (h : 32 < maskBits.toNat) :
    maskBitsToStr maskBits = none := by
  obtain ⟨w, hw⟩ := Nat.exists_eq_succ_of_ne_zero (by omega : maskBits.toNat ≠ 0)
  rw [maskBitsToStr, hw, maskLoop, if_pos (by omega)]
  rfl

/-- The octets of a destination, padded with zeros. -/
theorem memcpyFrom_eq {option : List UInt8} {i n : Nat} (hn : n ≤ 4)
    (hlen : i + n ≤ option.length) :
    memcpyFrom (List.replicate 4 0) option i n =
      some (readAt option i n ++ List.replicate (4 - (readAt option i n).length) 0) := by
  have hread : (readAt option i n).length = n := length_readAt hlen
  rw [memcpyFrom, if_neg (by rw [List.length_replicate]; omega), writeAt, hread,
    List.drop_replicate, List.take_zero, List.nil_append, Nat.zero_add]

/-- Text is appended as far as there is room. -/
theorem strncatValue_eq {valueStr cmd : List UInt8} (h : valueStr.length ≤ reqOptLen) :
    strncatValue valueStr cmd = some (valueStr ++ cmd.take (reqOptLen - valueStr.length)) := by
  simp only [strncatValue]
  rw [show reqOptLen + 1 - valueStr.length - 1 = reqOptLen - valueStr.length by omega, sprintfInto,
    if_pos]
  rw [List.length_append, List.length_take]
  omega

/-- The text of a route fits into its buffer. -/
theorem routeCmd_eq (width : Nat) (dest gateway : List UInt8) :
    routeCmd (printDotted (dest ++ List.replicate (4 - dest.length) 0))
      (printDotted (maskOctets width)) (printDotted gateway) = routeText width dest gateway := by
  have h0 := length_printDotted (dest ++ List.replicate (4 - dest.length) 0)
  have h1 := length_printDotted (maskOctets width)
  have h2 := length_printDotted gateway
  rw [routeCmd, List.take_of_length_le, routeText]
  simp only [List.length_append, List.length_cons, List.length_nil]
  omega

/-- The number of octets of a destination. -/
def destLen (width : Nat) : Nat :=
  (width + 7) / 8

theorem getElem?_eq_getD {option : List UInt8} {i : Nat} (h : i < option.length) :
    option[i]? = some (option.getD i 0) := by
  rw [List.getD_eq_getElem _ _ h, List.getElem?_eq_getElem h]

/-- A width of zero is skipped with its gateway. -/
theorem routeTurn_skip {option : List UInt8} {i : Nat} (h : option[i]? = some 0)
    (valueStr : List UInt8) : routeTurn option i valueStr = some (i + 5, valueStr) := by
  rw [routeTurn, h]
  rfl

/-- A width of more than 32 shifts by a negative amount. -/
theorem routeTurn_none {option : List UInt8} {i : Nat} {width : UInt8} (h : option[i]? = some width)
    (hwidth : 32 < width.toNat) (valueStr : List UInt8) : routeTurn option i valueStr = none := by
  have hne : width ≠ 0 := by
    rintro rfl
    exact absurd hwidth (by decide)
  rw [routeTurn, h, Option.bind_eq_bind, Option.bind_some, if_neg hne, maskBitsToStr_of_lt hwidth]
  rfl

/-- A route is appended to the text. -/
theorem routeTurn_route {option : List UInt8} {i : Nat} {width : UInt8}
    (h : option[i]? = some width) (hne : width ≠ 0) (hwidth : width.toNat ≤ 32)
    (hlen : i + 9 ≤ option.length) {valueStr : List UInt8} (hvalue : valueStr.length ≤ reqOptLen) :
    routeTurn option i valueStr =
      some (i + 5 + destLen width.toNat,
        valueStr ++ (routeText width.toNat (readAt option (i + 1) (destLen width.toNat))
          (readAt option (i + 1 + destLen width.toNat) 4)).take (reqOptLen - valueStr.length)) := by
  have hdest : (width.toNat / 8 + if width.toNat % 8 ≠ 0 then 1 else 0) = destLen width.toNat := by
    rw [destLen]
    split <;> omega
  have hle : destLen width.toNat ≤ 4 := by
    rw [destLen]
    omega
  have hgateway : readAt option (i + 1 + destLen width.toNat) 4 =
      [option.getD (i + 1 + destLen width.toNat) 0, option.getD (i + 1 + destLen width.toNat + 1) 0,
        option.getD (i + 1 + destLen width.toNat + 2) 0,
        option.getD (i + 1 + destLen width.toNat + 3) 0] :=
    readAt_eq_map_getD (by omega) 0
  simp only [routeTurn, h, Option.bind_eq_bind, Option.bind_some, if_neg hne,
    maskBitsToStr_of_le hwidth, hdest]
  rw [memcpyFrom_eq hle (by omega)]
  simp only [Option.bind_some]
  rw [sprintfInto_printDotted (by omega)]
  simp only [Option.bind_some]
  rw [getElem?_eq_getD (by omega), getElem?_eq_getD (by omega), getElem?_eq_getD (by omega),
    getElem?_eq_getD (by omega)]
  simp only [Option.bind_some]
  rw [sprintfInto_printDotted (by omega)]
  simp only [Option.bind_some]
  rw [routeCmd_eq, strncatValue_eq hvalue, ← hgateway]
  simp only [Option.bind_some, Option.pure_def]
  rw [show i + 1 + destLen width.toNat + 4 = i + 5 + destLen width.toNat by omega]

/-! ## Safety -/

/-- The widths that the loop reaches from {lit}`i` on are at most 32. -/
inductive WidthsFit (bytes : List UInt8) : Nat → Prop where
  | done {i : Nat} (h : (bytes.getD 1 0).toNat + 2 ≤ i) : WidthsFit bytes i
  | route {i : Nat} (h : i < (bytes.getD 1 0).toNat + 2) (width : (bytes.getD i 0).toNat ≤ 32)
      (rest : WidthsFit bytes (i + 5 + destLen (bytes.getD i 0).toNat)) : WidthsFit bytes i

/-- Behind the decoded bytes there are zeros. -/
theorem getD_optionBuffer (bytes : List UInt8) (i : Nat) :
    (optionBuffer bytes).getD i 0 = bytes.getD i 0 := by
  rcases Nat.lt_or_ge i bytes.length with hlt | hge
  · rw [optionBuffer, List.getD_append _ _ _ _ hlt]
  · rw [optionBuffer, List.getD_append_right _ _ _ _ hge, List.getD_eq_default _ _ hge]
    rcases Nat.lt_or_ge (i - bytes.length) (512 - bytes.length) with hlt | hge'
    · rw [List.getD_eq_getElem _ _ (by simpa using hlt), List.getElem_replicate]
    · rw [List.getD_eq_default _ _ (by rw [List.length_replicate]; exact hge')]

/-- A turn on a width of at most 32 is within bounds. -/
theorem routeTurn_of_le {option : List UInt8} {i : Nat} (hlen : i + 9 ≤ option.length)
    (hwidth : (option.getD i 0).toNat ≤ 32) {valueStr : List UInt8}
    (hvalue : valueStr.length ≤ reqOptLen) :
    ∃ valueStr', routeTurn option i valueStr =
        some (i + 5 + destLen (option.getD i 0).toNat, valueStr') ∧
      valueStr'.length ≤ reqOptLen := by
  have hget : option[i]? = some (option.getD i 0) := getElem?_eq_getD (by omega)
  by_cases hzero : option.getD i 0 = 0
  · refine ⟨valueStr, ?_, hvalue⟩
    rw [hzero] at hget
    rw [routeTurn_skip hget, hzero]
    rfl
  · refine ⟨_, routeTurn_route hget hzero hwidth hlen hvalue, ?_⟩
    rw [List.length_append, List.length_take]
    omega

/-- The text that the loop starts with. -/
theorem length_nil_le : ([] : List UInt8).length ≤ reqOptLen :=
  Nat.zero_le _

/-- The loop is within bounds as long as the widths are. -/
theorem routeLoop_isSome_iff {option : List UInt8} (hlen : option.length = 512) {i : Nat}
    {valueStr : List UInt8} (hvalue : valueStr.length ≤ reqOptLen) :
    (∃ result, routeLoop option i valueStr = some result ∧ result.length ≤ reqOptLen) ↔
      WidthsFit option i := by
  have hbyte := (option.getD 1 0).toNat_lt
  induction i, valueStr using routeLoop.induct option with
  | case1 i valueStr hi hturn =>
      rw [routeLoop, if_pos hi, hturn]
      refine iff_of_false (by simp) ?_
      intro hfit
      cases hfit with
      | done h => omega
      | route h width rest =>
          obtain ⟨_, hok, -⟩ := routeTurn_of_le (by omega) width hvalue
          rw [hturn] at hok
          cases hok
  | case2 i valueStr hi i' valueStr' hturn ih =>
      rw [routeLoop, if_pos hi, hturn]
      have hget : option[i]? = some (option.getD i 0) := getElem?_eq_getD (by omega)
      have hwidth : (option.getD i 0).toNat ≤ 32 := by
        by_contra hgt
        rw [routeTurn_none hget (Nat.lt_of_not_le hgt)] at hturn
        cases hturn
      obtain ⟨_, hok, hvalue'⟩ := routeTurn_of_le (by omega) hwidth hvalue
      rw [hturn] at hok
      cases hok
      refine (ih hvalue').trans ?_
      constructor
      · exact .route hi hwidth
      · intro hfit
        cases hfit with
        | done h => omega
        | route h width rest => exact rest
  | case3 i valueStr hi =>
      rw [routeLoop, if_neg hi]
      exact iff_of_true ⟨valueStr, rfl, hvalue⟩ (.done (Nat.le_of_not_lt hi))

/-- The condition reads the decoded bytes only. -/
theorem widthsFit_optionBuffer {bytes : List UInt8} {i : Nat} :
    WidthsFit (optionBuffer bytes) i ↔ WidthsFit bytes i := by
  constructor
  · intro h
    induction h with
    | done h =>
        rw [getD_optionBuffer] at h
        exact .done h
    | route h width rest ih =>
        rw [getD_optionBuffer] at h width ih
        exact .route h width ih
  · intro h
    induction h with
    | done h =>
        rw [← getD_optionBuffer] at h
        exact .done h
    | route h width rest ih =>
        rw [← getD_optionBuffer] at h width ih
        exact .route h width ih

/-- The result of a loop that stays within bounds is stored in hex. -/
theorem query_of_loop {value option valueStr : List UInt8} (hne : value ≠ [])
    (hoption : hexStrToOption value = some option)
    (hloop : routeLoop option 2 [] = some valueStr) (hlen : valueStr.length ≤ reqOptLen) :
    queryDhcpv4ReqOptRout (some ⟨some 121, some value⟩) =
      some (.success, some ⟨some 121, some (valueStr.flatMap printByte)⟩) := by
  have hhex : sprintfInto (reqOptLen * 2 + 1) (ascStr2HexStr valueStr).1 =
      some (valueStr.flatMap printByte) := by
    rw [sprintfInto, ascStr2HexStr, if_pos]
    rw [length_flatMap_printByte]
    omega
  simp only [queryDhcpv4ReqOptRout]
  rw [if_pos ⟨hne, rfl⟩, hoption]
  simp only [Option.bind_eq_bind, Option.bind_some]
  rw [hloop]
  simp only [Option.bind_some]
  rw [hhex]
  simp only [Option.bind_some]
  rw [if_pos (by simp only [ascStr2HexStr]; omega)]
  rfl

/-- A value of up to 1024 hex digits is decoded within bounds, without a negative shift amount,
exactly if no width that is reached is larger than 32. -/
theorem query_safe_iff {value : List UInt8} (hdigits : ∀ c ∈ value, isHexDigit c = true)
    (hlen : value.length ≤ 1024) :
    (queryDhcpv4ReqOptRout (some ⟨some 121, some value⟩)).isSome ↔ WidthsFit (octets value) 2 := by
  by_cases hne : value = []
  · subst hne
    exact iff_of_true rfl (.done (by decide))
  · have hoption := hexStrToOption_eq hdigits hlen
    have hbuffer : (optionBuffer (octets value)).length = 512 := by
      apply length_optionBuffer
      have hle := length_octets_le value
      omega
    have hloop := routeLoop_isSome_iff (i := 2) hbuffer
      length_nil_le
    rw [widthsFit_optionBuffer] at hloop
    rw [← hloop]
    constructor
    · intro hsome
      cases hresult : routeLoop (optionBuffer (octets value)) 2 [] with
      | none =>
          simp [queryDhcpv4ReqOptRout, hne, hoption, hresult] at hsome
      | some result =>
          refine ⟨result, rfl, ?_⟩
          by_contra hlong
          have hcut : sprintfInto (reqOptLen * 2 + 1) (ascStr2HexStr result).1 = none := by
            rw [sprintfInto, ascStr2HexStr, if_neg]
            rw [length_flatMap_printByte]
            omega
          simp [queryDhcpv4ReqOptRout, hne, hoption, hresult, hcut] at hsome
    · rintro ⟨result, hresult, hle⟩
      rw [query_of_loop hne hoption hresult hle]
      rfl

theorem query_safe_iff_default :
    (queryDhcpv4ReqOptRout (some ⟨some 121, some [0x37, 0x39, 0x30, 0x30]⟩)).isSome ↔
      WidthsFit (octets [0x37, 0x39, 0x30, 0x30]) 2 :=
  query_safe_iff (List.all_eq_true.mp (by decide)) (by decide)

/-- The value {lit}`790121`: a route of width 33 in an option of one byte. -/
theorem query_unsafe :
    (∀ c ∈ [(0x37 : UInt8), 0x39, 0x30, 0x31, 0x32, 0x31], isHexDigit c = true) ∧
      queryDhcpv4ReqOptRout (some ⟨some 121, some [0x37, 0x39, 0x30, 0x31, 0x32, 0x31]⟩) = none := by
  have hdigits : ∀ c ∈ [(0x37 : UInt8), 0x39, 0x30, 0x31, 0x32, 0x31], isHexDigit c = true :=
    List.all_eq_true.mp (by decide)
  have hoption := hexStrToOption_eq hdigits (by decide)
  have hwidth : (optionBuffer (octets [0x37, 0x39, 0x30, 0x31, 0x32, 0x31]))[2]? = some 33 := by
    decide
  have hturn := routeTurn_none hwidth (by decide) []
  have hloop : routeLoop (optionBuffer (octets [0x37, 0x39, 0x30, 0x31, 0x32, 0x31])) 2 [] =
      none := by
    rw [routeLoop, if_pos (by decide), hturn]
  refine ⟨hdigits, ?_⟩
  simp only [queryDhcpv4ReqOptRout]
  rw [if_pos ⟨by simp, rfl⟩, hoption]
  simp only [Option.bind_eq_bind, Option.bind_some]
  rw [hloop]
  rfl

/-! ## Lists of routes -/

/-- A route: a width, as many octets of the destination as it needs, and a gateway. -/
structure Route where
  width : Nat
  dest : List UInt8
  gateway : Vector UInt8 4
  width_le : width ≤ 32
  length_dest : dest.length = destLen width

/-- The descriptor of a route. -/
def Route.encode (r : Route) : List UInt8 :=
  UInt8.ofNat r.width :: (r.dest ++ r.gateway.toList)

/-- The text of a route; default routes are left out. -/
def Route.text (r : Route) : List UInt8 :=
  if r.width = 0 then [] else routeText r.width r.dest r.gateway.toList

/-- The bytes of an option with a list of routes. -/
def routesOption (code : UInt8) (routes : List Route) : List UInt8 :=
  code :: UInt8.ofNat (routes.flatMap Route.encode).length :: routes.flatMap Route.encode

theorem readAt_append {α : Type} (a b c : List α) : readAt (a ++ (b ++ c)) a.length b.length = b := by
  rw [readAt, List.drop_left, List.take_left]

/-- Pairs of digits are the bytes of a hex string. -/
theorem octets_eq_bytesOf {str : List UInt8} (h : isHexString str = true) :
    octets str = bytesOf str := by
  refine hexString_induction (P := fun str => octets str = bytesOf str) rfl ?_ h
  intro c₁ c₂ rest x y h₁ h₂ ih
  rw [octets, bytesOf_cons h₁ h₂, h₁, h₂, ih]
  rfl

/-- A turn on the descriptor of a route. -/
theorem routeTurn_encode (front : List UInt8) (r : Route) (rest : List UInt8)
    (hlen : front.length + 9 ≤ (front ++ (r.encode ++ rest)).length) {valueStr : List UInt8}
    (hvalue : valueStr.length ≤ reqOptLen) :
    routeTurn (front ++ (r.encode ++ rest)) front.length valueStr =
      some (front.length + r.encode.length,
        valueStr ++ r.text.take (reqOptLen - valueStr.length)) := by
  have hwidth : (UInt8.ofNat r.width).toNat = r.width := by
    have hle := r.width_le
    rw [UInt8.toNat_ofNat']
    omega
  have hencode : r.encode.length = 5 + destLen r.width := by
    rw [Route.encode, List.length_cons, List.length_append, r.length_dest, Vector.length_toList]
    omega
  have hget : (front ++ (r.encode ++ rest))[front.length]? = some (UInt8.ofNat r.width) := by
    rw [List.getElem?_append_right (le_refl _), Nat.sub_self]
    rfl
  by_cases hzero : r.width = 0
  · rw [hzero] at hget hencode
    rw [routeTurn_skip hget, hencode, Route.text, if_pos hzero, List.take_nil, List.append_nil]
    rfl
  · have hne : UInt8.ofNat r.width ≠ 0 := by
      intro h0
      rw [h0] at hwidth
      exact hzero hwidth.symm
    have hturn := routeTurn_route hget hne (by rw [hwidth]; exact r.width_le) hlen hvalue
    have hdest : readAt (front ++ (r.encode ++ rest)) (front.length + 1) (destLen r.width) =
        r.dest := by
      have hsplit : front ++ (r.encode ++ rest) =
          (front ++ [UInt8.ofNat r.width]) ++ (r.dest ++ (r.gateway.toList ++ rest)) := by
        simp [Route.encode]
      have hread := readAt_append (front ++ [UInt8.ofNat r.width]) r.dest
        (r.gateway.toList ++ rest)
      rw [← hsplit, List.length_append, List.length_singleton, r.length_dest] at hread
      exact hread
    have hgateway : readAt (front ++ (r.encode ++ rest)) (front.length + 1 + destLen r.width) 4 =
        r.gateway.toList := by
      have hsplit : front ++ (r.encode ++ rest) =
          (front ++ UInt8.ofNat r.width :: r.dest) ++ (r.gateway.toList ++ rest) := by
        simp [Route.encode]
      have hread := readAt_append (front ++ UInt8.ofNat r.width :: r.dest) r.gateway.toList rest
      rw [← hsplit, List.length_append, List.length_cons, r.length_dest, Vector.length_toList,
        ← Nat.add_assoc, Nat.add_right_comm] at hread
      exact hread
    rw [hturn, hwidth, hdest, hgateway, Route.text, if_neg hzero, hencode, Nat.add_assoc]

/-- The loop appends the texts of the routes as far as there is room. -/
theorem routeLoop_routes (front : List UInt8) (routes : List Route) (rest : List UInt8)
    (hstop : ((front ++ (routes.flatMap Route.encode ++ rest)).getD 1 0).toNat + 2 =
      front.length + (routes.flatMap Route.encode).length)
    (hlen : front.length + (routes.flatMap Route.encode).length + 9 ≤
      (front ++ (routes.flatMap Route.encode ++ rest)).length)
    {valueStr : List UInt8} (hvalue : valueStr.length ≤ reqOptLen) :
    routeLoop (front ++ (routes.flatMap Route.encode ++ rest)) front.length valueStr =
      some (valueStr ++ (routes.flatMap Route.text).take (reqOptLen - valueStr.length)) := by
  induction routes generalizing front valueStr with
  | nil =>
      rw [routeLoop, hstop]
      simp
  | cons r routes ih =>
      have hassoc : front ++ ((r :: routes).flatMap Route.encode ++ rest) =
          front ++ (r.encode ++ (routes.flatMap Route.encode ++ rest)) := by
        rw [List.flatMap_cons, List.append_assoc]
      have hpos : 0 < r.encode.length := by
        rw [Route.encode]
        exact Nat.succ_pos _
      have hsum : ((r :: routes).flatMap Route.encode).length =
          r.encode.length + (routes.flatMap Route.encode).length := by
        rw [List.flatMap_cons, List.length_append]
      rw [hassoc, hsum] at hstop hlen
      have hturn := routeTurn_encode front r (routes.flatMap Route.encode ++ rest) (by omega) hvalue
      have hfront : front ++ (r.encode ++ (routes.flatMap Route.encode ++ rest)) =
          (front ++ r.encode) ++ (routes.flatMap Route.encode ++ rest) := by
        rw [List.append_assoc]
      have hvalue' : (valueStr ++ r.text.take (reqOptLen - valueStr.length)).length ≤ reqOptLen := by
        rw [List.length_append, List.length_take]
        omega
      have hrest := ih (front ++ r.encode) (by rw [← hfront, List.length_append]; omega)
        (by rw [← hfront, List.length_append]; omega) hvalue'
      rw [← hfront, List.length_append] at hrest
      rw [hassoc, routeLoop, if_pos (by omega), hturn]
      have hroom : reqOptLen - (valueStr ++ r.text.take (reqOptLen - valueStr.length)).length =
          reqOptLen - valueStr.length - r.text.length := by
        rw [List.length_append, List.length_take]
        omega
      simp only
      rw [hrest, hroom, List.flatMap_cons, List.take_append, List.append_assoc]

/-- A well-formed list of routes in hex is replaced by the texts of its routes in hex, in order and cut
to the size of the buffer. -/
theorem query_routes (code : UInt8) (routes : List Route)
    (hlen : (routes.flatMap Route.encode).length ≤ 255) {value : List UInt8}
    (hhex : isHexString value = true) (hvalue : bytesOf value = routesOption code routes) :
    queryDhcpv4ReqOptRout (some ⟨some 121, some value⟩) =
      some (.success, some ⟨some 121,
        some (((routes.flatMap Route.text).take reqOptLen).flatMap printByte)⟩) := by
  have hoctets : octets value = routesOption code routes := by
    rw [octets_eq_bytesOf hhex, hvalue]
  have hsize := length_bytesOf hhex
  rw [hvalue, routesOption, List.length_cons, List.length_cons] at hsize
  have hne : value ≠ [] := by
    rintro rfl
    simp at hsize
  have hdigits : ∀ c ∈ value, isHexDigit c = true := by
    rw [isHexString, Bool.and_eq_true] at hhex
    exact List.all_eq_true.mp hhex.2
  have hoption := hexStrToOption_eq hdigits (by omega)
  rw [hoctets, optionBuffer] at hoption
  have hbyte : (UInt8.ofNat (routes.flatMap Route.encode).length).toNat =
      (routes.flatMap Route.encode).length := by
    rw [UInt8.toNat_ofNat']
    omega
  have hcount : (routesOption code routes).length = (routes.flatMap Route.encode).length + 2 := rfl
  have hloop := routeLoop_routes [code, UInt8.ofNat (routes.flatMap Route.encode).length]
    routes (List.replicate (512 - (routesOption code routes).length) 0)
    (by
      simp only [List.cons_append, List.nil_append, List.getD_cons_succ, List.getD_cons_zero, hbyte,
        List.length_cons, List.length_nil]
      omega)
    (by
      simp only [List.length_append, List.length_cons, List.length_nil, List.length_replicate,
        hcount]
      omega)
    length_nil_le
  refine query_of_loop hne hoption hloop ?_
  exact List.length_take_le _ _

/-- A route to a network behind a gateway. -/
def sampleRoute : Route where
  width := 24
  dest := [10, 0, 1]
  gateway := #v[192, 168, 1, 1]
  width_le := by decide
  length_dest := rfl

/-- The bytes of a text. -/
def asciiBytes (s : String) : List UInt8 :=
  s.toList.map fun c => UInt8.ofNat c.toNat

theorem query_routes_one :
    queryDhcpv4ReqOptRout (some ⟨some 121, some (asciiBytes "7908180a0001C0A80101")⟩) =
      some (.success, some ⟨some 121,
        some ((asciiBytes "10.0.1.0/255.255.255.0-192.168.1.1 ").flatMap printByte)⟩) := by
  have htext : ([sampleRoute].flatMap Route.text).take reqOptLen =
      asciiBytes "10.0.1.0/255.255.255.0-192.168.1.1 " := by
    decide +kernel
  have hhex : isHexString (asciiBytes "7908180a0001C0A80101") = true := by decide +kernel
  have h := query_routes 0x79 [sampleRoute] (by decide) hhex (by decide +kernel)
  rw [htext] at h
  exact h

end FeTr98
end ZyxelRouter
