import ZyxelRouter.FeString.ParamSet
import ZyxelRouter.FeDal.AddressText

/-!
# Types of parameters

{lit}`parseValidateParameter` checks the values of a request against the table of a handler.  Modelled are
the types of addresses and ports, for entries without {lit}`validate` and {lit}`enumeration`.  The functions of
the C library that read addresses are parameters.

Main results:

- Theorem {lit}`cutAt_eq_some_iff`: the text in front of the first separator and behind it.
- Theorem {lit}`maskLoop_iff`: the loop of {lit}`validateIPv4mask` accepts ones followed by zeros.
- Theorem {lit}`macLoop_iff`: the loop of {lit}`validateMacAddr1` accepts six pairs of hex digits.
- Theorem {lit}`parseValidate_accepts_iff`: a request is accepted if each of its values is.
-/

namespace ZyxelRouter
namespace FeDal

open Lib FeString

/-! ## Entries and requests -/

/-- The values of {lit}`dalType_t` that are modelled. -/
inductive DalType where
  | v4Addr
  | v4Mask
  | ipPrefix
  | portRange
  | macAddr
  | macAddrHyphen
  | macAddrList
deriving DecidableEq

/-- An entry of a table, without {lit}`validate` and {lit}`enumeration`. -/
structure DalParam where
  paraName : List Char
  type : DalType
  min : Int
  max : Int

/-- Functions of the C library: {lit}`ntohl(inet_addr(cp))`, and whether {lit}`inet_pton` takes a text as an
IPv6 address. -/
structure Inet where
  inetAddr : List Char → UInt32
  inetPton6 : List Char → Bool

/-- The members of a request with the texts of their values. -/
abbrev ParamRequest := List (List Char × List Char)

/-! ## Checks of single values -/

/-- {lit}`strchr`, and the terminator written over what it finds: the text in front and the text behind. -/
def cutAt (sep : Char) : List Char → Option (List Char × List Char)
  | [] => none
  | c :: rest =>
      if c = sep then some ([], rest)
      else (cutAt sep rest).map (fun parts => (c :: parts.1, parts.2))

/-- The loop of {lit}`validateIPv4mask` over the bits. -/
def maskLoop (netmask : Nat) : List Nat → Bool → Bool
  | [], _ => true
  | i :: rest, oneFound =>
      if netmask.testBit i then maskLoop netmask rest true
      else if oneFound then false
      else maskLoop netmask rest false

/-- {lit}`validateIPv4mask`. -/
def validateIPv4mask (inet : Inet) (submask : List Char) : Bool :=
  if submask = "255.255.255.255".toList then true
  else if inet.inetAddr submask = 0xffffffff then false
  else maskLoop (inet.inetAddr submask).toNat (List.range 32) false

/-- The size of {lit}`buff` in {lit}`validateMacAddr1`. -/
def macBuffSize : Nat := 32

/-- The loop of {lit}`validateMacAddr1`. -/
def macLoop : List (List Char) → Nat → Bool
  | [], count => count = 6
  | [x, y] :: rest, count =>
      if count + 1 > 6 then false
      else if isHexDigit x && isHexDigit y then macLoop rest (count + 1)
      else false
  | _ :: _, _ => false

/-- {lit}`validateMacAddr1`; {lit}`none` if the text is copied over the end of the buffer. -/
def validateMacAddr1 (macAddr : List Char) (delim : Char) : Option Bool :=
  if macAddr.length < macBuffSize then some (macLoop (strtok delim macAddr) 0) else none

/-- The size of {lit}`buf` in {lit}`validateIPv6`. -/
def ipv6BufSize : Nat := 128

/-- {lit}`validateIPv6`; {lit}`none` if the text is copied over the end of the buffer. -/
def validateIPv6 (inet : Inet) (ipStr : List Char) : Option Bool :=
  if ipStr.length < ipv6BufSize then
    some (if ',' ∈ ipStr then (strtok ',' ipStr).all inet.inetPton6 else inet.inetPton6 ipStr)
  else none

/-- {lit}`dalType_IPPrefix`. -/
def checkIpPrefix (inet : Inet) (text : List Char) : Option Bool :=
  match cutAt '/' text with
  | none => some false
  | some (address, number) =>
      if number = [] || !number.all Char.isDigit then some false
      else if ':' ∈ address then
        if atoiInt number < 0 || atoiInt number > 128 then some false else validateIPv6 inet address
      else if atoiInt number ≤ 0 || atoiInt number > 32 then some false
      else some (validateIPv4 address)

/-- The test of a port: {lit}`-1` or digits. -/
def portText (text : List Char) : Bool :=
  text ≠ [] && (text = "-1".toList || text.all Char.isDigit)

/-- The comparisons of {lit}`startPort` and {lit}`endPort`. -/
def portsPass (startPort endPort : Int) : Bool :=
  if startPort = -1 then true
  else if startPort < -1 || startPort > 65535 then false
  else if endPort < -1 || endPort > 65535 then false
  else if endPort ≠ -1 && startPort ≥ endPort then false
  else true

/-- {lit}`dalType_PortRange` for the command line. -/
def checkPortRange (text : List Char) : Bool :=
  match cutAt ':' text with
  | some (first, last) =>
      if !portText first || !portText last then false
      else
        let ports := scanInts ':' 2 text
        let startPort := ports.getD 0 0
        portsPass startPort (if startPort = -1 then -1 else ports.getD 1 0)
  | none => if !portText text then false else portsPass (atoiInt text) (-1)

/-- The loop of {lit}`dalType_MacAddrList`: {lit}`none` if a buffer is too small, and {lit}`some none` at an entry
that is not accepted. -/
def macListLoop : List (List Char) → Nat → Option (Option Nat)
  | [], count => some (some count)
  | ptr :: rest, count =>
      match validateMacAddr1 ptr ':' with
      | none => none
      | some false => some none
      | some true => macListLoop rest (count + 1)

/-- The number of entries is compared unless both bounds are 0. -/
def countFits (param : DalParam) (count : Nat) : Bool :=
  if param.min ≠ 0 || param.max ≠ 0 then !(count > param.max || count < param.min) else true

/-- {lit}`dalType_MacAddrList`. -/
def checkMacList (param : DalParam) (text : List Char) : Option Bool :=
  match macListLoop (strtok ',' text) 0 with
  | none => none
  | some none => some false
  | some (some count) => some (countFits param count)

/-- The cases of {lit}`parseValidateParameter` for one value. -/
def checkValue (inet : Inet) (gui : Bool) (param : DalParam) (text : List Char) : Option Bool :=
  match param.type with
  | .v4Addr => some (text = [] || validateIPv4 text)
  | .v4Mask => some (text = [] || validateIPv4mask inet text)
  | .ipPrefix => checkIpPrefix inet text
  | .portRange => some (gui || checkPortRange text)
  -- no break behind the first of the two, so that the second delimiter is used for both
  | .macAddr | .macAddrHyphen => if text = [] then some true else validateMacAddr1 text '-'
  | .macAddrList => if text = [] then some true else checkMacList param text

/-- {lit}`parseValidateParameter`; {lit}`none` if a buffer is too small. -/
def DalParam.parseValidateParameter (inet : Inet) (gui : Bool) :
    List DalParam → ParamRequest → Option Bool
  | [], _ => some true
  | param :: paramList, request =>
      match request.lookup param.paraName with
      | none => parseValidateParameter inet gui paramList request
      | some text =>
          match checkValue inet gui param text with
          | none => none
          | some false => some false
          | some true => parseValidateParameter inet gui paramList request

/-! ## The languages of the types -/

/-- Ones followed by zeros. -/
def MaskBits (value : Nat) : Prop :=
  ∃ zeros ≤ 32, ∀ i < 32, value.testBit i = decide (zeros ≤ i)

/-- A pair of hex digits. -/
def HexPair (group : List Char) : Prop :=
  ∃ x y, group = [x, y] ∧ isHexDigit x = true ∧ isHexDigit y = true

/-- Six pairs of hex digits. -/
structure SixPairs (groups : List (List Char)) : Prop where
  six : groups.length = 6
  pairs : ∀ group ∈ groups, HexPair group

/-- Six pairs of hex digits, joined by a separator. -/
def IsMac (sep : Char) (text : List Char) : Prop :=
  ∃ groups, SixPairs groups ∧ text = [sep].intercalate groups

/-- A prefix of either version: a quad with a number from 1 to 32, or an IPv6 address with a number from 0
to 128. -/
def IsIpPrefix (inet : Inet) (text : List Char) : Prop :=
  ∃ address number, text = address ++ '/' :: number ∧
    (IsQuad address ∧ DecimalUpTo 32 number ∧ 1 ≤ digitsValue number ∨
      inet.inetPton6 address = true ∧ DecimalUpTo 128 number)

/-- {lit}`-1`, a port, or one of the three kinds of ranges. -/
inductive IsPortRange : List Char → Prop where
  | any : IsPortRange "-1".toList
  | port {p : List Char} (h : DecimalUpTo 65535 p) : IsPortRange p
  | range {p q : List Char} (hp : DecimalUpTo 65535 p) (hq : DecimalUpTo 65535 q)
      (hlt : digitsValue p < digitsValue q) : IsPortRange (p ++ ':' :: q)
  | startOnly {p : List Char} (hp : DecimalUpTo 65535 p) : IsPortRange (p ++ ':' :: "-1".toList)
  | endOnly {q : List Char} (hq : DecimalUpTo 65535 q) : IsPortRange ("-1".toList ++ ':' :: q)

/-- Addresses joined by commas, as many as the entry allows. -/
def IsMacList (param : DalParam) (text : List Char) : Prop :=
  ∃ macs, macs ≠ [] ∧ text = [','].intercalate macs ∧ (∀ mac ∈ macs, IsMac ':' mac) ∧
    countFits param macs.length = true

/-- The language of an entry. -/
def Language (inet : Inet) (param : DalParam) (text : List Char) : Prop :=
  match param.type with
  | .v4Addr => IsQuad text
  | .v4Mask => IsQuad text ∧ MaskBits (quadValue text)
  | .ipPrefix => IsIpPrefix inet text
  | .portRange => IsPortRange text
  | .macAddr => IsMac ':' text
  | .macAddrHyphen => IsMac '-' text
  | .macAddrList => IsMacList param text

/-- A decimal number without leading zeros. -/
def PlainNumber (text : List Char) : Prop :=
  text.head? = some '0' → text = ['0']

/-- A quad whose numbers have no leading zeros. -/
def PlainQuad (text : List Char) : Prop :=
  IsQuad text ∧ ∀ p ∈ text.splitOn '.', PlainNumber p

/-- What POSIX says about the two functions: a number without leading zeros is decimal, and an IPv6 address
has colons but no comma and no slash. -/
structure PosixInet (inet : Inet) : Prop where
  inetAddr_quad : ∀ text, PlainQuad text → (inet.inetAddr text).toNat = quadValue text
  inetPton6_chars : ∀ text, inet.inetPton6 text = true →
    ':' ∈ text ∧ ',' ∉ text ∧ '/' ∉ text

/-! ## Cutting at a separator -/

theorem cutAt_eq_none_iff {sep : Char} {text : List Char} : cutAt sep text = none ↔ sep ∉ text := by
  induction text with
  | nil => simp [cutAt]
  | cons c rest ih =>
      rw [cutAt]
      by_cases hc : c = sep
      · simp [hc]
      · simp [hc, ih, Ne.symm hc]

/-- The text in front of the first separator, and the text behind it. -/
theorem cutAt_eq_some_iff {sep : Char} {text front back : List Char} :
    cutAt sep text = some (front, back) ↔ text = front ++ sep :: back ∧ sep ∉ front := by
  induction text generalizing front with
  | nil => simp [cutAt]
  | cons c rest ih =>
      rw [cutAt]
      by_cases hc : c = sep
      · rw [if_pos hc]
        constructor
        · intro h
          obtain ⟨rfl, rfl⟩ : [] = front ∧ rest = back := by simpa using h
          simp [hc]
        · rintro ⟨htext, hfront⟩
          cases front with
          | nil =>
              obtain ⟨-, rfl⟩ := List.cons.inj htext
              rfl
          | cons d front =>
              obtain ⟨rfl, -⟩ := List.cons.inj htext
              exact absurd (hc ▸ List.mem_cons_self) hfront
      · rw [if_neg hc, Option.map_eq_some_iff]
        constructor
        · rintro ⟨⟨front', back'⟩, hcut, heq⟩
          obtain ⟨rfl, rfl⟩ := Prod.mk.inj heq
          obtain ⟨rfl, hfront⟩ := ih.mp hcut
          exact ⟨rfl, by simp [hfront, Ne.symm hc]⟩
        · rintro ⟨htext, hfront⟩
          cases front with
          | nil =>
              obtain ⟨rfl, -⟩ := List.cons.inj htext
              exact absurd rfl hc
          | cons d front =>
              obtain ⟨rfl, rfl⟩ := List.cons.inj htext
              exact ⟨(front, back), ih.mpr ⟨rfl, fun h => hfront (List.mem_cons_of_mem c h)⟩, rfl⟩

/-! ## The loops -/

/-- Behind the first one, all bits have to be ones. -/
theorem maskLoop_true_iff {netmask : Nat} :
    ∀ {count first : Nat}, maskLoop netmask (List.range' first count) true = true ↔
      ∀ i, first ≤ i → i < first + count → netmask.testBit i = true := by
  intro count
  induction count with
  | zero =>
      intro first
      simp only [List.range'_zero, maskLoop, true_iff]
      omega
  | succ count ih =>
      intro first
      rw [List.range'_succ, maskLoop]
      by_cases hbit : netmask.testBit first = true
      · rw [if_pos hbit, ih]
        constructor
        · intro h i hlo hhi
          by_cases heq : i = first
          · exact heq ▸ hbit
          · exact h i (by omega) (by omega)
        · intro h i hlo hhi
          exact h i (by omega) (by omega)
      · rw [if_neg hbit, if_pos rfl]
        refine iff_of_false (by simp) ?_
        intro h
        exact hbit (h first (by omega) (by omega))

/-- In front of the first one there are zeros. -/
theorem maskLoop_false_iff {netmask : Nat} :
    ∀ {count first : Nat}, maskLoop netmask (List.range' first count) false = true ↔
      ∃ zeros, zeros ≤ first + count ∧
        ∀ i, first ≤ i → i < first + count → netmask.testBit i = decide (zeros ≤ i) := by
  intro count
  induction count with
  | zero =>
      intro first
      simp only [List.range'_zero, maskLoop, true_iff]
      exact ⟨0, by omega, by omega⟩
  | succ count ih =>
      intro first
      rw [List.range'_succ, maskLoop]
      by_cases hbit : netmask.testBit first = true
      · rw [if_pos hbit, maskLoop_true_iff]
        constructor
        · intro h
          refine ⟨first, by omega, ?_⟩
          intro i hlo hhi
          by_cases heq : i = first
          · simp [heq, hbit]
          · rw [h i (by omega) (by omega)]
            simp [hlo]
        · rintro ⟨zeros, -, h⟩ i hlo hhi
          have hzeros : zeros ≤ first := by simpa [hbit] using h first (by omega) (by omega)
          rw [h i (by omega) (by omega)]
          simp only [decide_eq_true_eq]
          omega
      · rw [if_neg hbit, if_neg (by simp), ih]
        constructor
        · rintro ⟨zeros, hle, h⟩
          refine ⟨max zeros (first + 1), by omega, ?_⟩
          intro i hlo hhi
          by_cases heq : i = first
          · have hlt : ¬ max zeros (first + 1) ≤ i := by omega
            simpa [heq, hlt] using hbit
          · rw [h i (by omega) (by omega)]
            exact decide_eq_decide.mpr (by omega)
        · rintro ⟨zeros, hle, h⟩
          exact ⟨zeros, by omega, fun i hlo hhi => h i (by omega) (by omega)⟩

/-- The loop of {lit}`validateIPv4mask` accepts ones followed by zeros. -/
theorem maskLoop_iff {netmask : Nat} :
    maskLoop netmask (List.range 32) false = true ↔ MaskBits netmask := by
  rw [List.range_eq_range', maskLoop_false_iff, MaskBits]
  simp

/-- The loop of {lit}`validateMacAddr1` accepts six pairs of hex digits. -/
theorem macLoop_iff :
    ∀ {tokens : List (List Char)} {count : Nat}, macLoop tokens count = true ↔
      tokens.length + count = 6 ∧ ∀ token ∈ tokens, HexPair token := by
  intro tokens
  induction tokens with
  | nil => simp [macLoop]
  | cons token rest ih =>
      intro count
      by_cases hpair : HexPair token
      · obtain ⟨x, y, rfl, hx, hy⟩ := hpair
        rw [macLoop]
        by_cases hcount : count + 1 > 6
        · rw [if_pos hcount]
          refine iff_of_false (by simp) ?_
          rintro ⟨hlen, -⟩
          rw [List.length_cons] at hlen
          omega
        · rw [if_neg hcount, if_pos (by simp [hx, hy]), ih]
          simp only [List.length_cons, List.forall_mem_cons]
          have hpair : HexPair [x, y] := ⟨x, y, rfl, hx, hy⟩
          constructor
          · rintro ⟨hlen, hrest⟩
            exact ⟨by omega, hpair, hrest⟩
          · rintro ⟨hlen, -, hrest⟩
            exact ⟨by omega, hrest⟩
      · refine iff_of_false ?_ (fun h => hpair (h.2 token List.mem_cons_self))
        intro hloop
        unfold macLoop at hloop
        split at hloop
        · rename_i heq
          exact absurd heq (by simp)
        · rename_i x y rest' heq
          obtain ⟨rfl, -⟩ := List.cons.inj heq
          split at hloop
          · exact absurd hloop (by simp)
          · split at hloop
            · rename_i hdigits
              exact hpair ⟨x, y, rfl, by simpa using hdigits⟩
            · exact absurd hloop (by simp)
        · exact absurd hloop (by simp)

/-! ## Requests -/

/-- A request is accepted if each value that is there is accepted. -/
theorem parseValidate_accepts_iff {inet : Inet} {gui : Bool} {request : ParamRequest} :
    ∀ {paramList : List DalParam},
      DalParam.parseValidateParameter inet gui paramList request = some true ↔
        ∀ param ∈ paramList, ∀ text, request.lookup param.paraName = some text →
          checkValue inet gui param text = some true := by
  intro paramList
  induction paramList with
  | nil => simp [DalParam.parseValidateParameter]
  | cons param paramList ih =>
      rw [DalParam.parseValidateParameter]
      cases hvalue : request.lookup param.paraName with
      | none => simp [ih, hvalue]
      | some text =>
          cases hcheck : checkValue inet gui param text with
          | none => simp [hvalue, hcheck]
          | some accepted =>
              cases accepted with
              | false => simp [hvalue, hcheck]
              | true => simp [ih, hvalue, hcheck]

/-- If the rest of the table accepts a request, the value of one entry decides. -/
theorem parseValidate_entry {inet : Inet} {gui : Bool} {param : DalParam} {after : List DalParam}
    {request : ParamRequest} {text : List Char}
    (hvalue : request.lookup param.paraName = some text) :
    ∀ {before : List DalParam},
      DalParam.parseValidateParameter inet gui (before ++ after) request = some true →
      DalParam.parseValidateParameter inet gui (before ++ param :: after) request =
        checkValue inet gui param text := by
  intro before
  induction before with
  | nil =>
      intro hrest
      rw [List.nil_append] at hrest ⊢
      rw [DalParam.parseValidateParameter]
      simp only [hvalue]
      cases hcheck : checkValue inet gui param text with
      | none => rfl
      | some accepted =>
          cases accepted with
          | false => rfl
          | true => exact hrest
  | cons other before ih =>
      intro hrest
      rw [List.cons_append, DalParam.parseValidateParameter] at hrest ⊢
      cases hother : request.lookup other.paraName with
      | none =>
          simp only [hother] at hrest ⊢
          exact ih hrest
      | some otherText =>
          simp only [hother] at hrest ⊢
          cases hcheck : checkValue inet gui other otherText with
          | none => simp [hcheck] at hrest
          | some accepted =>
              cases accepted with
              | false => simp [hcheck] at hrest
              | true =>
                  simp only [hcheck] at hrest ⊢
                  exact ih hrest

end FeDal
end ZyxelRouter
