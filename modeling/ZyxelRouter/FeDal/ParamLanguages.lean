import ZyxelRouter.FeDal.ParamTypes

/-!
# What the types of parameters accept

For each type of address and port, the texts for which {lit}`parseValidateParameter` decides the language of
the type.

Main results:

- Theorem {lit}`mask_exact_iff`, {lit}`ipPrefix_exact_iff`, {lit}`portRange_exact_iff`, {lit}`macHyphen_exact_iff`,
  {lit}`macList_exact_iff`: the types one by one.
- Theorem {lit}`paramValue_exact_iff`: all of them.
-/

namespace ZyxelRouter
namespace FeDal

open Lib FeString

/-- A check decides a language: it is defined, and accepts what is in the language. -/
def Decides (check : Option Bool) (language : Prop) : Prop :=
  ∃ accepted, check = some accepted ∧ (accepted = true ↔ language)

theorem decides_some_iff {accepted : Bool} {language : Prop} :
    Decides (some accepted) language ↔ (accepted = true ↔ language) := by
  simp [Decides]

theorem not_decides_none {language : Prop} : ¬ Decides none language := by
  simp [Decides]

/-- If the language is what is accepted without some slip, a check decides it where that slip is not
accepted. -/
theorem iff_iff_not_slip {accepted language slip : Prop} (h : language ↔ accepted ∧ ¬ slip) :
    (accepted ↔ language) ↔ ¬ (accepted ∧ slip) := by
  rw [h]
  constructor
  · rintro hiff ⟨ha, hs⟩
    exact (hiff.mp ha).2 hs
  · intro hnot
    exact ⟨fun ha => ⟨ha, fun hs => hnot ⟨ha, hs⟩⟩, fun hboth => hboth.1⟩

/-! ## Masks -/

/-- {lit}`inet_addr` reads ones followed by zeros, but not the value that stands for an error. -/
def ReadsMask (inet : Inet) (text : List Char) : Prop :=
  inet.inetAddr text ≠ 0xffffffff ∧ MaskBits (inet.inetAddr text).toNat

/-- A text that is no quad without leading zeros: {lit}`inet_addr` reads a mask only from a quad, and only if
it is one in decimal numbers. -/
def MaskFits (inet : Inet) (text : List Char) : Prop :=
  ¬ PlainQuad text →
    (IsQuad text → (ReadsMask inet text ↔ MaskBits (quadValue text))) ∧
    (¬ IsQuad text → ¬ ReadsMask inet text)

/-- The one quad without leading zeros whose bits are all ones. -/
theorem plainQuad_allOnes {text : List Char} (h : PlainQuad text)
    (hvalue : quadValue text = 2 ^ 32 - 1) : text = "255.255.255.255".toList := by
  obtain ⟨hquad, hplain⟩ := h
  have hreads := hquad.readsAsQuad
  obtain ⟨p₁, p₂, p₃, p₄, htext, hsplit⟩ := hreads.numbers
  have hparts := (isQuad_iff.mp hquad).2
  rw [hsplit] at hparts hplain
  have hle := fun p hp => (hparts p hp).le
  simp only [List.forall_mem_cons, List.not_mem_nil, false_implies, implies_true, and_true] at hle
  obtain ⟨hle₁, hle₂, hle₃, hle₄⟩ := hle
  rw [quadValue, quadNumbers, hsplit] at hvalue
  simp only [List.map_cons, List.map_nil, List.foldl_cons, List.foldl_nil] at hvalue
  have hall : ∀ p ∈ [p₁, p₂, p₃, p₄], digitsValue p = 255 := by
    simp only [List.forall_mem_cons, List.not_mem_nil, false_implies, implies_true, and_true]
    omega
  have hspelled : ∀ p ∈ [p₁, p₂, p₃, p₄], p = "255".toList := by
    intro p hp
    have hprint := decimal_digitsValue p (hparts p hp).nonempty (hparts p hp).digits (hplain p hp)
    rw [← hprint, hall p hp]
    decide
  simp only [List.forall_mem_cons, List.not_mem_nil, false_implies, implies_true, and_true]
    at hspelled
  obtain ⟨rfl, rfl, rfl, rfl⟩ := hspelled
  exact htext

theorem plainQuad_255 : PlainQuad "255.255.255.255".toList := by
  have hsplit : "255.255.255.255".toList.splitOn '.' =
      ["255".toList, "255".toList, "255".toList, "255".toList] := by decide +kernel
  have hnumber : DecimalUpTo 255 "255".toList := ⟨by decide, List.all_eq_true.mp (by decide), by decide⟩
  constructor
  · rw [isQuad_iff, hsplit]
    refine ⟨rfl, ?_⟩
    intro p hp
    have heq : p = "255".toList := by simpa using hp
    exact heq ▸ hnumber
  · rw [hsplit]
    simp [PlainNumber]

theorem maskBits_allOnes : MaskBits (2 ^ 32 - 1) := by
  refine ⟨0, by omega, ?_⟩
  decide

/-- What {lit}`validateIPv4mask` accepts. -/
theorem validateIPv4mask_iff {inet : Inet} {text : List Char} :
    validateIPv4mask inet text = true ↔
      text = "255.255.255.255".toList ∨ ReadsMask inet text := by
  rw [validateIPv4mask, ReadsMask]
  by_cases htext : text = "255.255.255.255".toList
  · rw [if_pos htext]
    exact iff_of_true rfl (Or.inl htext)
  rw [if_neg htext, or_iff_right htext]
  by_cases herror : inet.inetAddr text = 0xffffffff
  · simp [herror]
  · rw [if_neg herror, maskLoop_iff]
    simp [herror]

/-- Quads without leading zeros are decided. -/
theorem mask_plainQuad {inet : Inet} (hinet : PosixInet inet) {text : List Char}
    (h : PlainQuad text) :
    validateIPv4mask inet text = true ↔ IsQuad text ∧ MaskBits (quadValue text) := by
  rw [validateIPv4mask_iff, ReadsMask, hinet.inetAddr_quad text h]
  constructor
  · rintro (rfl | ⟨-, hbits⟩)
    · have hvalue : quadValue "255.255.255.255".toList = 2 ^ 32 - 1 := by decide +kernel
      exact ⟨h.1, hvalue ▸ maskBits_allOnes⟩
    · exact ⟨h.1, hbits⟩
  · rintro ⟨-, hbits⟩
    by_cases herror : inet.inetAddr text = 0xffffffff
    · left
      apply plainQuad_allOnes h
      rw [← hinet.inetAddr_quad text h, herror]
      rfl
    · exact Or.inr ⟨herror, hbits⟩

theorem mask_exact_iff {inet : Inet} (hinet : PosixInet inet) {text : List Char} :
    (validateIPv4mask inet text = true ↔ IsQuad text ∧ MaskBits (quadValue text)) ↔
      MaskFits inet text := by
  rw [MaskFits]
  by_cases hplain : PlainQuad text
  · exact iff_of_true (mask_plainQuad hinet hplain) (fun h => absurd hplain h)
  · have htext : text ≠ "255.255.255.255".toList := fun heq => hplain (heq ▸ plainQuad_255)
    rw [validateIPv4mask_iff, or_iff_right htext]
    simp only [hplain, not_false_eq_true, true_implies]
    by_cases hquad : IsQuad text
    · simp [hquad]
    · simp [hquad]

/-! ## Prefixes -/

/-- A text behind a slash: digits. -/
structure DigitText (text : List Char) : Prop where
  nonempty : text ≠ []
  digits : ∀ c ∈ text, c.isDigit = true

/-- The condition on an address and the number behind the slash. -/
structure PrefixFits (inet : Inet) (address number : List Char) : Prop where
  v4 : ':' ∉ address → 0 < atoiInt number → atoiInt number ≤ 32 → ReadsAsQuad address →
    ¬ CutNumber address ∧ digitsValue number ≤ 32
  buffer : ':' ∈ address → 0 ≤ atoiInt number → atoiInt number ≤ 128 →
    address.length < ipv6BufSize
  single : ',' ∈ address → 0 ≤ atoiInt number → atoiInt number ≤ 128 → ':' ∈ address →
    ∃ token ∈ strtok ',' address, inet.inetPton6 token = false
  v6 : inet.inetPton6 address = true → 0 ≤ atoiInt number → atoiInt number ≤ 128 →
    digitsValue number ≤ 128

/-- The condition on a text: if there are digits behind its first slash then they and the address fit. -/
def IpPrefixFits (inet : Inet) (text : List Char) : Prop :=
  ∀ address number, text = address ++ '/' :: number → '/' ∉ address → DigitText number →
    PrefixFits inet address number

theorem atoiInt_of_le {text : List Char} (h : DigitText text) (hle : digitsValue text ≤ 65535) :
    atoiInt text = digitsValue text := by
  rw [atoiInt_digits h.nonempty h.digits]
  exact Int.bmod_eq_of_le (by omega) (by omega)

theorem IsQuad.chars {text : List Char} (h : IsQuad text) {c : Char} (hc : c ∈ text) :
    c.isDigit = true ∨ c = '.' := by
  by_cases hdot : c = '.'
  · exact Or.inr hdot
  · obtain ⟨p, hp, hcp⟩ := (mem_iff_splitOn hdot).mp hc
    exact Or.inl (((isQuad_iff.mp h).2 p hp).digits c hcp)

/-- Of a text that is cut at its first slash, the parts are known. -/
theorem isIpPrefix_iff {inet : Inet} (hinet : PosixInet inet) {address number : List Char}
    (hslash : '/' ∉ address) :
    IsIpPrefix inet (address ++ '/' :: number) ↔
      (IsQuad address ∧ DecimalUpTo 32 number ∧ 1 ≤ digitsValue number ∨
        inet.inetPton6 address = true ∧ DecimalUpTo 128 number) := by
  constructor
  · rintro ⟨address', number', htext, hparts⟩
    have hslash' : '/' ∉ address' := by
      rcases hparts with ⟨hquad, -⟩ | ⟨hpton, -⟩
      · intro hmem
        rcases hquad.chars hmem with h | h
        · exact absurd h (by decide)
        · exact absurd h (by decide)
      · exact (hinet.inetPton6_chars address' hpton).2.2
    have hcut : cutAt '/' (address ++ '/' :: number) = some (address, number) :=
      cutAt_eq_some_iff.mpr ⟨rfl, hslash⟩
    rw [htext, cutAt_eq_some_iff.mpr ⟨rfl, hslash'⟩] at hcut
    obtain ⟨rfl, rfl⟩ := Prod.mk.inj (Option.some.inj hcut)
    exact hparts
  · intro hparts
    exact ⟨address, number, rfl, hparts⟩

theorem DecimalUpTo.digitText {bound : Nat} {text : List Char} (h : DecimalUpTo bound text) :
    DigitText text :=
  ⟨h.nonempty, h.digits⟩

theorem DigitText.upTo_iff {bound : Nat} {text : List Char} (h : DigitText text) :
    DecimalUpTo bound text ↔ digitsValue text ≤ bound :=
  ⟨fun hup => hup.le, fun hle => ⟨h.nonempty, h.digits, hle⟩⟩

theorem DigitText.all_digits {text : List Char} (h : DigitText text) :
    text.all Char.isDigit = true :=
  List.all_eq_true.mpr h.digits

theorem ipPrefixFits_iff {inet : Inet} {address number : List Char} (hslash : '/' ∉ address) :
    IpPrefixFits inet (address ++ '/' :: number) ↔
      (DigitText number → PrefixFits inet address number) := by
  constructor
  · intro h hdigits
    exact h address number rfl hslash hdigits
  · intro h address' number' htext hslash' hdigits
    have hcut : cutAt '/' (address ++ '/' :: number) = some (address, number) :=
      cutAt_eq_some_iff.mpr ⟨rfl, hslash⟩
    rw [htext, cutAt_eq_some_iff.mpr ⟨rfl, hslash'⟩] at hcut
    obtain ⟨rfl, rfl⟩ := Prod.mk.inj (Option.some.inj hcut)
    exact h hdigits

/-- An address with a colon, and digits behind the slash. -/
theorem prefix_colon {inet : Inet} (hinet : PosixInet inet) {address number : List Char}
    (hcolon : ':' ∈ address) (hdigits : DigitText number) :
    Decides (if atoiInt number < 0 || atoiInt number > 128 then some false
        else validateIPv6 inet address)
      (IsQuad address ∧ DecimalUpTo 32 number ∧ 1 ≤ digitsValue number ∨
        inet.inetPton6 address = true ∧ DecimalUpTo 128 number) ↔
      PrefixFits inet address number := by
  have hnotQuad : ¬ IsQuad address := by
    intro hquad
    rcases hquad.chars hcolon with h | h
    · exact absurd h (by decide)
    · exact absurd h (by decide)
  rw [hdigits.upTo_iff, hdigits.upTo_iff, or_iff_right (fun h => hnotQuad h.1)]
  by_cases hrange : 0 ≤ atoiInt number ∧ atoiInt number ≤ 128
  · obtain ⟨hlo, hhi⟩ := hrange
    rw [if_neg (by simp [hlo, hhi]), validateIPv6]
    by_cases hlen : address.length < ipv6BufSize
    · rw [if_pos hlen, decides_some_iff]
      by_cases hcomma : ',' ∈ address
      · have hpton : inet.inetPton6 address ≠ true :=
          fun h => (hinet.inetPton6_chars address h).2.1 hcomma
        rw [if_pos hcomma]
        constructor
        · intro hiff
          refine ⟨fun h => absurd hcolon h, fun _ _ _ => hlen, ?_, fun h => absurd h hpton⟩
          intro _ _ _ _
          have hall : (strtok ',' address).all inet.inetPton6 = false := by
            by_contra h
            exact hpton (hiff.mp (by simpa using h)).1
          simpa using hall
        · intro hfits
          obtain ⟨token, htoken, hfalse⟩ := hfits.single hcomma hlo hhi hcolon
          refine iff_of_false ?_ (fun h => hpton h.1)
          intro hall
          exact absurd (List.all_eq_true.mp hall token htoken) (by simp [hfalse])
      · rw [if_neg hcomma]
        constructor
        · intro hiff
          exact ⟨fun h => absurd hcolon h, fun _ _ _ => hlen, fun h => absurd h hcomma,
            fun hpton _ _ => (hiff.mp hpton).2⟩
        · intro hfits
          exact ⟨fun hpton => ⟨hpton, hfits.v6 hpton hlo hhi⟩, fun h => h.1⟩
    · rw [if_neg hlen]
      refine iff_of_false not_decides_none ?_
      intro hfits
      exact hlen (hfits.buffer hcolon hlo hhi)
  · have hout : (atoiInt number < 0 || atoiInt number > 128) = true := by
      simp only [Bool.or_eq_true, decide_eq_true_eq]
      omega
    rw [if_pos hout, decides_some_iff]
    refine iff_of_true ?_ ?_
    · refine iff_of_false (by simp) ?_
      rintro ⟨-, hle⟩
      have hvalue := atoiInt_of_le hdigits (by omega)
      omega
    · exact ⟨fun h => absurd hcolon h, fun _ hlo hhi => absurd ⟨hlo, hhi⟩ hrange,
        fun _ hlo hhi => absurd ⟨hlo, hhi⟩ hrange, fun _ hlo hhi => absurd ⟨hlo, hhi⟩ hrange⟩

/-- An address without a colon, and digits behind the slash. -/
theorem prefix_noColon {inet : Inet} (hinet : PosixInet inet) {address number : List Char}
    (hcolon : ':' ∉ address) (hdigits : DigitText number) :
    Decides (if atoiInt number ≤ 0 || atoiInt number > 32 then some false
        else some (validateIPv4 address))
      (IsQuad address ∧ DecimalUpTo 32 number ∧ 1 ≤ digitsValue number ∨
        inet.inetPton6 address = true ∧ DecimalUpTo 128 number) ↔
      PrefixFits inet address number := by
  have hpton : inet.inetPton6 address ≠ true :=
    fun h => hcolon (hinet.inetPton6_chars address h).1
  rw [hdigits.upTo_iff, hdigits.upTo_iff, or_iff_left (fun h => hpton h.1)]
  have hfits : PrefixFits inet address number ↔
      (0 < atoiInt number → atoiInt number ≤ 32 → ReadsAsQuad address →
        ¬ CutNumber address ∧ digitsValue number ≤ 32) :=
    ⟨fun h => h.v4 hcolon, fun h => ⟨fun _ => h, fun hc => absurd hc hcolon,
      fun _ _ _ hc => absurd hc hcolon, fun hp => absurd hp hpton⟩⟩
  rw [hfits]
  by_cases hrange : 0 < atoiInt number ∧ atoiInt number ≤ 32
  · obtain ⟨hlo, hhi⟩ := hrange
    rw [if_neg (by simp [hlo, hhi]), decides_some_iff, validateIPv4_iff]
    constructor
    · intro hiff _ _ hreads
      obtain ⟨hquad, hle, -⟩ := hiff.mp hreads
      exact ⟨hreads.isQuad_iff.mp hquad, hle⟩
    · intro h
      constructor
      · intro hreads
        obtain ⟨hcut, hle⟩ := h hlo hhi hreads
        have hvalue := atoiInt_of_le hdigits (by omega)
        exact ⟨hreads.isQuad_iff.mpr hcut, hle, by omega⟩
      · intro hlang
        exact hlang.1.readsAsQuad
  · have hout : (atoiInt number ≤ 0 || atoiInt number > 32) = true := by
      simp only [Bool.or_eq_true, decide_eq_true_eq]
      omega
    rw [if_pos hout, decides_some_iff]
    refine iff_of_true ?_ (fun hlo hhi => absurd ⟨hlo, hhi⟩ hrange)
    refine iff_of_false (by simp) ?_
    rintro ⟨-, hle, hpos⟩
    have hvalue := atoiInt_of_le hdigits (by omega)
    omega

theorem ipPrefix_exact_iff {inet : Inet} (hinet : PosixInet inet) {text : List Char} :
    Decides (checkIpPrefix inet text) (IsIpPrefix inet text) ↔ IpPrefixFits inet text := by
  rw [checkIpPrefix]
  cases hcut : cutAt '/' text with
  | none =>
      have hslash := cutAt_eq_none_iff.mp hcut
      refine iff_of_true (decides_some_iff.mpr (iff_of_false (by simp) ?_)) ?_
      · rintro ⟨address, number, rfl, -⟩
        exact hslash (by simp)
      · rintro address number rfl
        exact absurd (by simp) hslash
  | some parts =>
      obtain ⟨address, number⟩ := parts
      obtain ⟨rfl, hslash⟩ := cutAt_eq_some_iff.mp hcut
      rw [isIpPrefix_iff hinet hslash, ipPrefixFits_iff hslash]
      simp only
      by_cases hdigits : DigitText number
      · rw [if_neg (by simp [hdigits.nonempty, hdigits.all_digits])]
        by_cases hcolon : ':' ∈ address
        · rw [if_pos hcolon, prefix_colon hinet hcolon hdigits]
          simp [hdigits]
        · rw [if_neg hcolon, prefix_noColon hinet hcolon hdigits]
          simp [hdigits]
      · have hreject : (number = [] || !number.all Char.isDigit) = true := by
          by_contra h
          have hboth : number ≠ [] ∧ ∀ c ∈ number, c.isDigit = true := by simpa using h
          exact hdigits ⟨hboth.1, hboth.2⟩
        rw [if_pos hreject]
        refine iff_of_true (decides_some_iff.mpr (iff_of_false (by simp) ?_))
          (fun h => absurd h hdigits)
        rintro (⟨-, hup, -⟩ | ⟨-, hup⟩)
        · exact hdigits hup.digitText
        · exact hdigits hup.digitText

/-! ## Port ranges -/

/-- A text that is taken for a port. -/
def PortText (text : List Char) : Prop :=
  DigitText text ∨ text = "-1".toList

/-- A number that is too large for a port, but may be cut to one. -/
def TooLarge (text : List Char) : Prop :=
  DigitText text ∧ 65535 < digitsValue text

/-- The order of two numbers that {lit}`parseValidateParameter` asks for. -/
def PortsInOrder (startPort endPort : Int) : Prop :=
  startPort = -1 ∨
    0 ≤ startPort ∧ startPort ≤ 65535 ∧ (endPort = -1 ∨ startPort < endPort ∧ endPort ≤ 65535)

/-- A text that passes, although a number is too large, or although it has two numbers -1. -/
def PortSlip (text : List Char) : Prop :=
  match cutAt ':' text with
  | none => (PortText text ∧ PortsInOrder (atoiInt text) (-1)) ∧ TooLarge text
  | some (first, last) =>
      (PortText first ∧ PortText last ∧ PortsInOrder (atoiInt first) (atoiInt last)) ∧
        (TooLarge first ∨ TooLarge last ∨ first = "-1".toList ∧ last = "-1".toList)

theorem portText_iff {text : List Char} : portText text = true ↔ PortText text := by
  rw [portText, PortText]
  constructor
  · intro h
    obtain ⟨hne, hminus | hdigits⟩ : text ≠ [] ∧ (text = "-1".toList ∨ text.all Char.isDigit = true) := by
      simpa only [Bool.and_eq_true, Bool.or_eq_true, decide_eq_true_eq] using h
    · exact Or.inr hminus
    · exact Or.inl ⟨hne, List.all_eq_true.mp hdigits⟩
  · simp only [Bool.and_eq_true, Bool.or_eq_true, decide_eq_true_eq]
    rintro (hdigits | rfl)
    · exact ⟨hdigits.nonempty, Or.inr hdigits.all_digits⟩
    · exact ⟨by decide, Or.inl rfl⟩

theorem portsPass_iff {startPort endPort : Int} :
    portsPass startPort (if startPort = -1 then -1 else endPort) = true ↔
      PortsInOrder startPort endPort := by
  rw [portsPass, PortsInOrder]
  by_cases hstart : startPort = -1
  · simp [hstart]
  rw [if_neg hstart, if_neg hstart, or_iff_right hstart]
  simp only [Bool.or_eq_true, decide_eq_true_eq, Bool.and_eq_true]
  split
  · simp only [Bool.false_eq_true, false_iff]
    omega
  split
  · simp only [Bool.false_eq_true, false_iff]
    omega
  split
  · simp only [Bool.false_eq_true, false_iff]
    omega
  · simp only [true_iff]
    omega

/-- {lit}`sscanf` reads a port like {lit}`atoi`. -/
theorem scanInts_port {first last : List Char} (h : PortText first) (count : Nat) :
    scanInts ':' (count + 1) (first ++ ':' :: last) = atoiInt first :: scanInts ':' count last := by
  rcases h with hdigits | rfl
  · rw [scanInts_digits_cons (by decide) hdigits.nonempty hdigits.digits,
      atoiInt_digits hdigits.nonempty hdigits.digits]
  · rfl

theorem scanInts_port_end {last : List Char} (h : PortText last) (count : Nat) :
    scanInts ':' (count + 1) last = [atoiInt last] := by
  rcases h with hdigits | rfl
  · rw [scanInts_digits_end hdigits.nonempty hdigits.digits,
      atoiInt_digits hdigits.nonempty hdigits.digits]
  · rfl

/-- What is accepted with a colon. -/
theorem checkPortRange_colon {first last : List Char} (hcolon : ':' ∉ first) :
    checkPortRange (first ++ ':' :: last) = true ↔
      PortText first ∧ PortText last ∧ PortsInOrder (atoiInt first) (atoiInt last) := by
  rw [checkPortRange, cutAt_eq_some_iff.mpr ⟨rfl, hcolon⟩]
  simp only
  by_cases hports : PortText first ∧ PortText last
  · obtain ⟨hfirst, hlast⟩ := hports
    rw [if_neg (by simp [portText_iff.mpr hfirst, portText_iff.mpr hlast]), scanInts_port hfirst,
      scanInts_port_end hlast]
    simp only [List.getD_cons_zero, List.getD_cons_succ, portsPass_iff, hfirst, hlast, true_and]
  · have hreject : (!portText first || !portText last) = true := by
      by_contra h
      apply hports
      rw [← portText_iff, ← portText_iff]
      simpa using h
    rw [if_pos hreject]
    exact iff_of_false (by simp) (fun h => hports ⟨h.1, h.2.1⟩)

/-- What is accepted without a colon. -/
theorem checkPortRange_noColon {text : List Char} (hcolon : ':' ∉ text) :
    checkPortRange text = true ↔ PortText text ∧ PortsInOrder (atoiInt text) (-1) := by
  rw [checkPortRange, cutAt_eq_none_iff.mpr hcolon]
  simp only
  by_cases hport : PortText text
  · have hpass : portsPass (atoiInt text) (if atoiInt text = -1 then -1 else -1) = true ↔
        PortsInOrder (atoiInt text) (-1) := portsPass_iff
    rw [ite_self] at hpass
    rw [if_neg (by simp [portText_iff.mpr hport]), hpass]
    simp [hport]
  · rw [if_pos (by simpa using fun h => hport (portText_iff.mp h))]
    exact iff_of_false (by simp) (fun h => hport h.1)

theorem DecimalUpTo.portText {p : List Char} (h : DecimalUpTo 65535 p) : PortText p :=
  Or.inl h.digitText

theorem DecimalUpTo.not_tooLarge {p : List Char} (h : DecimalUpTo 65535 p) : ¬ TooLarge p := by
  rintro ⟨-, hgt⟩
  exact absurd h.le (by omega)

theorem DecimalUpTo.atoiInt {p : List Char} (h : DecimalUpTo 65535 p) :
    atoiInt p = digitsValue p :=
  atoiInt_of_le h.digitText h.le

theorem minusOne_not_digits : ¬ DigitText "-1".toList := by
  intro h
  exact absurd (h.digits '-' (by decide)) (by decide)

theorem atoiInt_minusOne : atoiInt "-1".toList = -1 := by decide

theorem DecimalUpTo.ne_minusOne {p : List Char} (h : DecimalUpTo 65535 p) : p ≠ "-1".toList := by
  rintro rfl
  exact minusOne_not_digits h.digitText

theorem PortText.cases {text : List Char} (h : PortText text) :
    text = "-1".toList ∨ DecimalUpTo 65535 text ∨ TooLarge text := by
  rcases h with hdigits | hminus
  · by_cases hle : digitsValue text ≤ 65535
    · exact Or.inr (Or.inl (hdigits.upTo_iff.mpr hle))
    · exact Or.inr (Or.inr ⟨hdigits, by omega⟩)
  · exact Or.inl hminus

theorem colon_notMem_of_digits {p : List Char} (h : ∀ c ∈ p, c.isDigit = true) : ':' ∉ p := by
  intro hmem
  exact absurd (h ':' hmem) (by decide)

/-- The two sides of a colon in a range. -/
theorem isPortRange_colon {first last : List Char} (hcolon : ':' ∉ first) :
    IsPortRange (first ++ ':' :: last) ↔
      DecimalUpTo 65535 first ∧ DecimalUpTo 65535 last ∧ digitsValue first < digitsValue last ∨
      DecimalUpTo 65535 first ∧ last = "-1".toList ∨
      first = "-1".toList ∧ DecimalUpTo 65535 last := by
  have hcut : cutAt ':' (first ++ ':' :: last) = some (first, last) :=
    cutAt_eq_some_iff.mpr ⟨rfl, hcolon⟩
  have hsides : ∀ {p q : List Char}, first ++ ':' :: last = p ++ ':' :: q → ':' ∉ p →
      first = p ∧ last = q := by
    intro p q htext hp
    rw [htext, cutAt_eq_some_iff.mpr ⟨rfl, hp⟩] at hcut
    obtain ⟨rfl, rfl⟩ := Prod.mk.inj (Option.some.inj hcut)
    exact ⟨rfl, rfl⟩
  constructor
  · intro h
    generalize htext : first ++ ':' :: last = text at h
    cases h with
    | any =>
        have hmem : ':' ∈ "-1".toList := htext ▸ by simp
        exact absurd hmem (by decide)
    | port hp =>
        exact absurd (htext ▸ by simp) (colon_notMem_of_digits hp.digits)
    | range hp hq hlt =>
        obtain ⟨rfl, rfl⟩ := hsides htext (colon_notMem_of_digits hp.digits)
        exact Or.inl ⟨hp, hq, hlt⟩
    | startOnly hp =>
        obtain ⟨rfl, rfl⟩ := hsides htext (colon_notMem_of_digits hp.digits)
        exact Or.inr (Or.inl ⟨hp, rfl⟩)
    | endOnly hq =>
        obtain ⟨rfl, rfl⟩ := hsides htext (by decide)
        exact Or.inr (Or.inr ⟨rfl, hq⟩)
  · rintro (⟨hp, hq, hlt⟩ | ⟨hp, rfl⟩ | ⟨rfl, hq⟩)
    · exact .range hp hq hlt
    · exact .startOnly hp
    · exact .endOnly hq

theorem isPortRange_noColon {text : List Char} (hcolon : ':' ∉ text) :
    IsPortRange text ↔ text = "-1".toList ∨ DecimalUpTo 65535 text := by
  constructor
  · intro h
    cases h with
    | any => exact Or.inl rfl
    | port hp => exact Or.inr hp
    | range hp hq hlt => exact absurd (by simp) hcolon
    | startOnly hp => exact absurd (by simp) hcolon
    | endOnly hq => exact absurd (by simp) hcolon
  · rintro (rfl | hp)
    · exact .any
    · exact .port hp

/-- Without the slips, what is accepted with a colon are the ranges. -/
theorem portRange_colon_language {first last : List Char} (hcolon : ':' ∉ first) :
    IsPortRange (first ++ ':' :: last) ↔
      (PortText first ∧ PortText last ∧ PortsInOrder (atoiInt first) (atoiInt last)) ∧
        ¬ (TooLarge first ∨ TooLarge last ∨ first = "-1".toList ∧ last = "-1".toList) := by
  have hminus : PortText "-1".toList := Or.inr rfl
  have hminusSmall : ¬ TooLarge "-1".toList := fun h => minusOne_not_digits h.1
  rw [isPortRange_colon hcolon]
  constructor
  · rintro (⟨hp, hq, hlt⟩ | ⟨hp, rfl⟩ | ⟨rfl, hq⟩)
    · have hple := hp.le
      have hqle := hq.le
      refine ⟨⟨hp.portText, hq.portText, ?_⟩, ?_⟩
      · rw [hp.atoiInt, hq.atoiInt, PortsInOrder]
        omega
      · simp only [hp.not_tooLarge, hq.not_tooLarge, hp.ne_minusOne, false_and, or_self,
          not_false_eq_true]
    · have hple := hp.le
      refine ⟨⟨hp.portText, hminus, ?_⟩, ?_⟩
      · rw [hp.atoiInt, atoiInt_minusOne, PortsInOrder]
        omega
      · simp only [hp.not_tooLarge, hminusSmall, hp.ne_minusOne, false_and, or_self,
          not_false_eq_true]
    · refine ⟨⟨hminus, hq.portText, ?_⟩, ?_⟩
      · rw [atoiInt_minusOne]
        exact Or.inl rfl
      · simp only [hq.not_tooLarge, hminusSmall, hq.ne_minusOne, and_false, or_self,
          not_false_eq_true]
  · rintro ⟨⟨hfirst, hlast, horder⟩, hslip⟩
    have hsmall := not_or.mp hslip
    obtain ⟨hlastSmall, hnotBoth⟩ := not_or.mp hsmall.2
    rcases hfirst.cases with rfl | hp | hlarge
    · rcases hlast.cases with rfl | hq | hlarge
      · exact absurd ⟨rfl, rfl⟩ hnotBoth
      · exact Or.inr (Or.inr ⟨rfl, hq⟩)
      · exact absurd hlarge hlastSmall
    · rcases hlast.cases with rfl | hq | hlarge
      · exact Or.inr (Or.inl ⟨hp, rfl⟩)
      · rw [hp.atoiInt, hq.atoiInt, PortsInOrder] at horder
        exact Or.inl ⟨hp, hq, by omega⟩
      · exact absurd hlarge hlastSmall
    · exact absurd hlarge hsmall.1

theorem portRange_noColon_language {text : List Char} (hcolon : ':' ∉ text) :
    IsPortRange text ↔
      (PortText text ∧ PortsInOrder (atoiInt text) (-1)) ∧ ¬ TooLarge text := by
  rw [isPortRange_noColon hcolon]
  constructor
  · rintro (rfl | hp)
    · exact ⟨⟨Or.inr rfl, Or.inl atoiInt_minusOne⟩, fun h => minusOne_not_digits h.1⟩
    · have hle := hp.le
      refine ⟨⟨hp.portText, ?_⟩, hp.not_tooLarge⟩
      rw [hp.atoiInt, PortsInOrder]
      omega
  · rintro ⟨⟨hport, -⟩, hsmall⟩
    rcases hport.cases with hminus | hp | hlarge
    · exact Or.inl hminus
    · exact Or.inr hp
    · exact absurd hlarge hsmall

theorem portRange_exact_iff {text : List Char} :
    (checkPortRange text = true ↔ IsPortRange text) ↔ ¬ PortSlip text := by
  rw [PortSlip]
  cases hcut : cutAt ':' text with
  | none =>
      have hcolon := cutAt_eq_none_iff.mp hcut
      rw [checkPortRange_noColon hcolon]
      exact iff_iff_not_slip (portRange_noColon_language hcolon)
  | some parts =>
      obtain ⟨first, last⟩ := parts
      obtain ⟨rfl, hcolon⟩ := cutAt_eq_some_iff.mp hcut
      rw [checkPortRange_colon hcolon]
      exact iff_iff_not_slip (portRange_colon_language hcolon)

/-! ## Hardware addresses -/

theorem HexPair.ne_nil {group : List Char} (h : HexPair group) : group ≠ [] := by
  obtain ⟨x, y, rfl, -, -⟩ := h
  simp

theorem HexPair.notMem {group : List Char} (h : HexPair group) {sep : Char}
    (hsep : isHexDigit sep = false) : sep ∉ group := by
  obtain ⟨x, y, rfl, hx, hy⟩ := h
  rw [List.mem_pair]
  rintro (rfl | rfl)
  · exact absurd hx (by simp [hsep])
  · exact absurd hy (by simp [hsep])

/-- An address has six pairs as its tokens, and no two separators next to each other. -/
theorem isMac_iff {sep : Char} (hsep : isHexDigit sep = false) {text : List Char} :
    IsMac sep text ↔ SixPairs (strtok sep text) ∧ [] ∉ text.splitOn sep := by
  constructor
  · rintro ⟨groups, hsix, htext⟩
    have hne : groups ≠ [] := by
      rintro rfl
      exact absurd hsix.six (by decide)
    have hsplit : text.splitOn sep = groups :=
      splitOn_eq_iff.mpr ⟨hne, htext, fun g hg => (hsix.pairs g hg).notMem hsep⟩
    have hempty : [] ∉ text.splitOn sep := by
      rw [hsplit]
      exact fun hmem => (hsix.pairs [] hmem).ne_nil rfl
    exact ⟨by rw [strtok_eq_splitOn hempty, hsplit]; exact hsix, hempty⟩
  · rintro ⟨hsix, hempty⟩
    rw [strtok_eq_splitOn hempty] at hsix
    exact ⟨text.splitOn sep, hsix, (List.intercalate_splitOn sep).symm⟩

theorem sixPairs_iff_macLoop {tokens : List (List Char)} :
    macLoop tokens 0 = true ↔ SixPairs tokens := by
  rw [macLoop_iff]
  exact ⟨fun h => ⟨h.1, h.2⟩, fun h => ⟨h.six, h.pairs⟩⟩

/-- The type with colons is checked with hyphens: it is decided for texts that are no address in either
notation. -/
structure MacFits (text : List Char) : Prop where
  buffer : text.length < macBuffSize
  hyphens : ¬ SixPairs (strtok '-' text)
  colons : ¬ IsMac ':' text

/-- Hyphens next to each other are taken for one. -/
structure MacHyphenFits (text : List Char) : Prop where
  buffer : text.length < macBuffSize
  merged : SixPairs (strtok '-' text) → [] ∉ text.splitOn '-'

/-- An address in one notation is not one in the other. -/
theorem not_sixPairs_of_isMac {text : List Char} (h : IsMac ':' text) :
    ¬ SixPairs (strtok '-' text) := by
  obtain ⟨groups, hsix, htext⟩ := h
  have hne : groups ≠ [] := by
    rintro rfl
    exact absurd hsix.six (by decide)
  have hsplit : text.splitOn ':' = groups :=
    splitOn_eq_iff.mpr ⟨hne, htext, fun g hg => (hsix.pairs g hg).notMem (by decide)⟩
  have hhyphen : '-' ∉ text := by
    intro hmem
    obtain ⟨g, hg, hin⟩ := (mem_iff_splitOn (show '-' ≠ ':' by decide)).mp hmem
    rw [hsplit] at hg
    exact (hsix.pairs g hg).notMem (by decide) hin
  have htextNe : text ≠ [] := by
    rintro rfl
    rw [List.splitOn_nil] at hsplit
    exact absurd hsix.six (by simp [← hsplit])
  rw [strtok_of_notMem htextNe hhyphen]
  exact fun hone => absurd hone.six (by simp)

theorem mac_exact_iff {text : List Char} :
    Decides (validateMacAddr1 text '-') (IsMac ':' text) ↔ MacFits text := by
  rw [validateMacAddr1]
  by_cases hlen : text.length < macBuffSize
  · rw [if_pos hlen, decides_some_iff, sixPairs_iff_macLoop]
    constructor
    · intro hiff
      have hnot : ¬ IsMac ':' text := fun h => not_sixPairs_of_isMac h (hiff.mpr h)
      exact ⟨hlen, fun h => hnot (hiff.mp h), hnot⟩
    · intro h
      exact iff_of_false h.hyphens h.colons
  · rw [if_neg hlen]
    exact iff_of_false not_decides_none (fun h => hlen h.buffer)

theorem macHyphen_exact_iff {text : List Char} :
    Decides (validateMacAddr1 text '-') (IsMac '-' text) ↔ MacHyphenFits text := by
  rw [validateMacAddr1]
  by_cases hlen : text.length < macBuffSize
  · rw [if_pos hlen, decides_some_iff, sixPairs_iff_macLoop, isMac_iff (by decide)]
    constructor
    · intro hiff
      exact ⟨hlen, fun h => (hiff.mp h).2⟩
    · intro h
      exact ⟨fun hsix => ⟨hsix, h.merged hsix⟩, fun hboth => hboth.1⟩
  · rw [if_neg hlen]
    exact iff_of_false not_decides_none (fun h => hlen h.buffer)

/-! ## Lists of hardware addresses -/

/-- The tokens that are reached fit into the buffer. -/
def TokensFit (tokens : List (List Char)) : Prop :=
  ∀ front mac rest, tokens = front ++ mac :: rest → (∀ m ∈ front, SixPairs (strtok ':' m)) →
    mac.length < macBuffSize

theorem tokensFit_cons {ptr : List Char} {rest : List (List Char)} :
    TokensFit (ptr :: rest) ↔
      ptr.length < macBuffSize ∧ (SixPairs (strtok ':' ptr) → TokensFit rest) := by
  constructor
  · intro h
    refine ⟨h [] ptr rest rfl (by simp), ?_⟩
    rintro hptr front mac back rfl hfront
    exact h (ptr :: front) mac back rfl (List.forall_mem_cons.mpr ⟨hptr, hfront⟩)
  · rintro ⟨hlen, hrest⟩ front mac back htokens hfront
    cases front with
    | nil =>
        obtain ⟨rfl, -⟩ := List.cons.inj htokens
        exact hlen
    | cons m front =>
        obtain ⟨rfl, rfl⟩ := List.cons.inj htokens
        obtain ⟨hptr, hfront⟩ := List.forall_mem_cons.mp hfront
        exact hrest hptr front mac back rfl hfront

/-- The loop counts the tokens if all of them are addresses. -/
theorem macListLoop_addresses :
    ∀ {tokens : List (List Char)} {count : Nat}, TokensFit tokens →
      (∀ m ∈ tokens, SixPairs (strtok ':' m)) →
      macListLoop tokens count = some (some (count + tokens.length)) := by
  intro tokens
  induction tokens with
  | nil => simp [macListLoop]
  | cons ptr rest ih =>
      intro count hfit hall
      obtain ⟨hptr, hall⟩ := List.forall_mem_cons.mp hall
      obtain ⟨hlen, hrest⟩ := tokensFit_cons.mp hfit
      rw [macListLoop, validateMacAddr1, if_pos hlen, sixPairs_iff_macLoop.mpr hptr]
      simp only [ih (hrest hptr) hall, List.length_cons, Option.some.injEq]
      omega

theorem macListLoop_rejects :
    ∀ {tokens : List (List Char)} {count : Nat}, TokensFit tokens →
      ¬ (∀ m ∈ tokens, SixPairs (strtok ':' m)) → macListLoop tokens count = some none := by
  intro tokens
  induction tokens with
  | nil => simp
  | cons ptr rest ih =>
      intro count hfit hsome
      obtain ⟨hlen, hrest⟩ := tokensFit_cons.mp hfit
      rw [macListLoop, validateMacAddr1, if_pos hlen]
      by_cases hptr : SixPairs (strtok ':' ptr)
      · rw [sixPairs_iff_macLoop.mpr hptr]
        exact ih (hrest hptr) (fun hall => hsome (List.forall_mem_cons.mpr ⟨hptr, hall⟩))
      · rw [Bool.eq_false_iff.mpr (fun h => hptr (sixPairs_iff_macLoop.mp h))]

theorem macListLoop_none :
    ∀ {tokens : List (List Char)} {count : Nat}, ¬ TokensFit tokens →
      macListLoop tokens count = none := by
  intro tokens
  induction tokens with
  | nil =>
      intro count hfit
      exact absurd (fun front mac rest htokens => absurd htokens (by simp)) hfit
  | cons ptr rest ih =>
      intro count hfit
      rw [tokensFit_cons] at hfit
      rw [macListLoop, validateMacAddr1]
      by_cases hlen : ptr.length < macBuffSize
      · have hrest : SixPairs (strtok ':' ptr) ∧ ¬ TokensFit rest := by tauto
        rw [if_pos hlen, sixPairs_iff_macLoop.mpr hrest.1]
        exact ih hrest.2
      · rw [if_neg hlen]

/-- What passes the check of a list. -/
def MacListPasses (param : DalParam) (text : List Char) : Prop :=
  (∀ m ∈ strtok ',' text, SixPairs (strtok ':' m)) ∧
    countFits param (strtok ',' text).length = true

/-- Commas next to each other are taken for one, and so are colons. -/
structure MacListFits (param : DalParam) (text : List Char) : Prop where
  buffers : TokensFit (strtok ',' text)
  merged : ¬ (MacListPasses param text ∧
    ([] ∈ text.splitOn ',' ∨ ∃ m ∈ strtok ',' text, [] ∈ m.splitOn ':'))

theorem isMacList_iff {param : DalParam} {text : List Char} :
    IsMacList param text ↔
      MacListPasses param text ∧
        ¬ ([] ∈ text.splitOn ',' ∨ ∃ m ∈ strtok ',' text, [] ∈ m.splitOn ':') := by
  have hcolon : isHexDigit ':' = false := by decide
  constructor
  · rintro ⟨macs, hne, htext, hmacs, hcount⟩
    have hcomma : ∀ m ∈ macs, m ≠ [] ∧ ',' ∉ m := by
      intro m hm
      obtain ⟨hsix, hempty⟩ := (isMac_iff hcolon).mp (hmacs m hm)
      rw [strtok_eq_splitOn hempty] at hsix
      refine ⟨?_, ?_⟩
      · rintro rfl
        exact hempty (by simp)
      · intro hmem
        obtain ⟨g, hg, hin⟩ := (mem_iff_splitOn (show ',' ≠ ':' by decide)).mp hmem
        exact (hsix.pairs g hg).notMem (by decide) hin
    have hsplit : text.splitOn ',' = macs :=
      splitOn_eq_iff.mpr ⟨hne, htext, fun m hm => (hcomma m hm).2⟩
    have hempty : [] ∉ text.splitOn ',' := by
      rw [hsplit]
      exact fun hmem => (hcomma [] hmem).1 rfl
    rw [MacListPasses, strtok_eq_splitOn hempty, hsplit]
    refine ⟨⟨fun m hm => ((isMac_iff hcolon).mp (hmacs m hm)).1, hcount⟩, ?_⟩
    rintro (hmem | ⟨m, hm, hmem⟩)
    · exact (hcomma [] hmem).1 rfl
    · exact ((isMac_iff hcolon).mp (hmacs m hm)).2 hmem
  · rintro ⟨⟨hsix, hcount⟩, hnot⟩
    obtain ⟨hempty, hpairs⟩ := not_or.mp hnot
    rw [strtok_eq_splitOn hempty] at hsix hcount hpairs
    refine ⟨text.splitOn ',', List.splitOn_ne_nil ',' text, (List.intercalate_splitOn ',').symm,
      ?_, hcount⟩
    intro m hm
    exact (isMac_iff hcolon).mpr ⟨hsix m hm, fun hmem => hpairs ⟨m, hm, hmem⟩⟩

theorem macList_exact_iff {param : DalParam} {text : List Char} :
    Decides (checkMacList param text) (IsMacList param text) ↔ MacListFits param text := by
  rw [checkMacList]
  by_cases hfit : TokensFit (strtok ',' text)
  · have hfits : MacListFits param text ↔ ¬ (MacListPasses param text ∧
        ([] ∈ text.splitOn ',' ∨ ∃ m ∈ strtok ',' text, [] ∈ m.splitOn ':')) :=
      ⟨fun h => h.merged, fun h => ⟨hfit, h⟩⟩
    rw [hfits]
    by_cases hall : ∀ m ∈ strtok ',' text, SixPairs (strtok ':' m)
    · rw [macListLoop_addresses hfit hall, Nat.zero_add]
      have hpasses : countFits param (strtok ',' text).length = true ↔ MacListPasses param text :=
        ⟨fun h => ⟨hall, h⟩, fun h => h.2⟩
      simp only [decides_some_iff, hpasses]
      exact iff_iff_not_slip isMacList_iff
    · rw [macListLoop_rejects hfit hall]
      simp only [decides_some_iff]
      refine iff_of_true (iff_of_false (by simp) ?_) (fun h => hall h.1.1)
      exact fun h => hall (isMacList_iff.mp h).1.1
  · rw [macListLoop_none hfit]
    exact iff_of_false not_decides_none (fun h => hfit h.buffers)

/-! ## All types -/

/-- The condition on the value of an entry. -/
def ParamFits (inet : Inet) (param : DalParam) (text : List Char) : Prop :=
  match param.type with
  | .v4Addr => ¬ (ReadsAsQuad text ∧ CutNumber text)
  | .v4Mask => MaskFits inet text
  | .ipPrefix => IpPrefixFits inet text
  | .portRange => ¬ PortSlip text
  | .macAddr => MacFits text
  | .macAddrHyphen => MacHyphenFits text
  | .macAddrList => MacListFits param text

/-- If the rest of the table accepts a request, {lit}`parseValidateParameter` decides the language of an entry
for a value that is not empty exactly if the value fits. -/
theorem paramValue_exact_iff (inet : Inet) (hinet : PosixInet inet) (before after : List DalParam)
    (param : DalParam) (request : ParamRequest) (text : List Char)
    (hvalue : request.lookup param.paraName = some text) (hne : text ≠ [])
    (hrest : DalParam.parseValidateParameter inet false (before ++ after) request = some true) :
    Decides (DalParam.parseValidateParameter inet false (before ++ param :: after) request)
        (Language inet param text) ↔
      ParamFits inet param text := by
  rw [parseValidate_entry hvalue hrest, checkValue, Language, ParamFits]
  cases param.type with
  | v4Addr => simpa [hne, decides_some_iff] using validateIPv4_iff_isQuad
  | v4Mask => simpa [hne, decides_some_iff] using mask_exact_iff hinet
  | ipPrefix => exact ipPrefix_exact_iff hinet
  | portRange => simpa [decides_some_iff] using portRange_exact_iff
  | macAddr => simpa [hne] using mac_exact_iff
  | macAddrHyphen => simpa [hne] using macHyphen_exact_iff
  | macAddrList => simpa [hne] using macList_exact_iff

/-- Functions that read the quads and the loopback address. -/
def quadInet : Inet where
  inetAddr text := if validateIPv4 text then UInt32.ofNat (quadValue text) else 0xffffffff
  inetPton6 text := text = "::1".toList

theorem quadValue_lt {text : List Char} (h : ReadsAsQuad text) : quadValue text < 2 ^ 32 := by
  obtain ⟨p₁, p₂, p₃, p₄, -, hsplit⟩ := h.numbers
  have hle := h.le
  rw [hsplit] at hle
  simp only [List.forall_mem_cons, List.not_mem_nil, false_implies, implies_true, and_true] at hle
  rw [quadValue, quadNumbers, hsplit]
  simp only [List.map_cons, List.map_nil, List.foldl_cons, List.foldl_nil]
  omega

theorem quadInet_posix : PosixInet quadInet where
  inetAddr_quad text h := by
    have hreads := h.1.readsAsQuad
    have hlt := quadValue_lt hreads
    rw [quadInet]
    simp only [validateIPv4_iff.mpr hreads, if_true, UInt32.toNat_ofNat']
    exact Nat.mod_eq_of_lt hlt
  inetPton6_chars text h := by
    obtain rfl : text = "::1".toList := of_decide_eq_true h
    decide

theorem paramValue_exact_quad :
    Decides
      (DalParam.parseValidateParameter quadInet false
        ([⟨"MACAddress".toList, .macAddrHyphen, 0, 0⟩] ++ ⟨"IPAddress".toList, .v4Addr, 0, 0⟩ :: [])
        [("MACAddress".toList, "00-1a-2B-3c-4D-5e".toList), ("IPAddress".toList, "192.168.1.1".toList)])
      (IsQuad "192.168.1.1".toList) := by
  refine (paramValue_exact_iff quadInet quadInet_posix [⟨"MACAddress".toList, .macAddrHyphen, 0, 0⟩] []
    ⟨"IPAddress".toList, .v4Addr, 0, 0⟩
    [("MACAddress".toList, "00-1a-2B-3c-4D-5e".toList), ("IPAddress".toList, "192.168.1.1".toList)]
    "192.168.1.1".toList (by decide) (by decide) (by decide +kernel)).mpr ?_
  rintro ⟨-, p, hp, hgt⟩
  have hsplit : "192.168.1.1".toList.splitOn '.' =
      ["192".toList, "168".toList, "1".toList, "1".toList] := by decide +kernel
  have hsmall : ∀ p ∈ ["192".toList, "168".toList, "1".toList, "1".toList],
      digitsValue p ≤ 255 := by decide
  exact absurd (hsmall p (hsplit ▸ hp)) (by omega)

/-- An address with colons is not accepted: without a break, the type with hyphens is checked. -/
theorem paramValue_exact_fails :
    ¬ ∀ (inet : Inet) (_ : PosixInet inet) (before after : List DalParam) (param : DalParam)
        (request : ParamRequest) (text : List Char),
        request.lookup param.paraName = some text → text ≠ [] →
        DalParam.parseValidateParameter inet false (before ++ after) request = some true →
        Decides (DalParam.parseValidateParameter inet false (before ++ param :: after) request)
          (Language inet param text) := by
  intro hall
  obtain ⟨accepted, hcheck, hiff⟩ := hall quadInet quadInet_posix [] []
    ⟨"MACAddress".toList, .macAddr, 0, 0⟩
    [("MACAddress".toList, "00:1a:2B:3c:4D:5e".toList)] "00:1a:2B:3c:4D:5e".toList
    (by decide) (by decide) rfl
  have hrejected : DalParam.parseValidateParameter quadInet false
      ([] ++ ⟨"MACAddress".toList, .macAddr, 0, 0⟩ :: [])
      [("MACAddress".toList, "00:1a:2B:3c:4D:5e".toList)] = some false := by decide +kernel
  rw [hrejected] at hcheck
  have hmac : IsMac ':' "00:1a:2B:3c:4D:5e".toList := by
    refine ⟨["00".toList, "1a".toList, "2B".toList, "3c".toList, "4D".toList, "5e".toList],
      ⟨rfl, ?_⟩, by decide +kernel⟩
    simp only [List.forall_mem_cons, List.not_mem_nil, false_implies, implies_true, and_true]
    exact ⟨⟨'0', '0', rfl, by decide⟩, ⟨'1', 'a', rfl, by decide⟩, ⟨'2', 'B', rfl, by decide⟩,
      ⟨'3', 'c', rfl, by decide⟩, ⟨'4', 'D', rfl, by decide⟩, ⟨'5', 'e', rfl, by decide⟩⟩
  have hfalse : accepted = false := (Option.some.inj hcheck).symm
  exact absurd (hiff.mpr hmac) (by simp [hfalse])

end FeDal
end ZyxelRouter
