import ZyxelRouter.Lib.Substrings
import ZyxelRouter.Zos.StrCat

/-!
# The domain name of a URL

{lit}`zyUtilGetDomainNameFromUrl` of {lit}`common.c`, as it is built by default.  The name begins
behind the first {lit}`://` of the URL, and ends in front of the next colon or, if none follows, in
front of the next slash; what stands in front of {lit}`*.` is dropped from it.  The name passes through
a buffer of 256 bytes, and the length of the buffer it goes to is not looked at.

Main results:

- Theorem {lit}`getDomainName_eq_written_iff`: which name is written, by the places it stands at.
- Theorem {lit}`Url.host_written_iff`: the host of a URL is written if the URL is a plain one, or if
  it names the host once more where the function looks for it.
-/

namespace ZyxelRouter
namespace ZyUtil

open Lib Zos

/-! ## The function -/

/-- {lit}`sizeof(tmpdomainName)`. -/
def tmpdomainNameSize : Nat := 256

def schemeEnd : List Char := "://".toList

def starDot : List Char := "*.".toList

/-- What a call does: it writes nothing, writes a name, or leaves a buffer. -/
inductive DomainName where
  | kept
  | written (domainName : List Char)
  | overflow
deriving DecidableEq, Repr

/-- {lit}`domainNameStartPtr`: the text behind the first {lit}`://`. -/
def domainNameStart (url : List Char) : List Char :=
  Substr.skipPast schemeEnd url

/-- The text from there to {lit}`domainNameEndPtr`. -/
def domainNameUpToEnd (start : List Char) : List Char :=
  match Substr.strstr [':'] start with
  | some (front, _) => front
  | none =>
      match Substr.strstr ['/'] start with
      | some (front, _) => front
      | none => start

/-- The name without what ends with {lit}`*.`. -/
def dropStarDot (tmpdomainName : List Char) : List Char :=
  Substr.skipPast starDot tmpdomainName

/-- The text begins with a bracket that is closed. -/
def bracketed (start : List Char) : Bool :=
  start.head? == some '[' && (Substr.strstr [']'] start).isSome

/-- {lit}`zyUtilGetDomainNameFromUrl`, which always reports success; {lit}`domainName` has room for
{lit}`domainNameLength` bytes. -/
def zyUtilGetDomainNameFromUrl (url : List Char) (domainNameLength : Nat) : DomainName :=
  if url = [] then .kept
  else
    let start := domainNameStart url
    if bracketed start then .kept
    else
      let name := domainNameUpToEnd start
      if tmpdomainNameSize ≤ name.length then .overflow
      else
        let tmpdomainName := zosStrncpy start (name.length + 1)
        let domainName := dropStarDot tmpdomainName
        if domainNameLength ≤ domainName.length then .overflow
        else .written (zosStrncpy domainName (domainName.length + 1))

/-! ## The places of the name -/

/-- The name begins in front of {lit}`start`. -/
def BeginsAt (url start : List Char) : Prop :=
  (¬ schemeEnd <:+: url ∧ url = start) ∨
    ∃ front, url = front ++ schemeEnd ++ start ∧ Substr.First schemeEnd front url

/-- The name ends behind {lit}`name`. -/
def EndsBehind (start name : List Char) : Prop :=
  (∃ rear, start = name ++ ':' :: rear ∧ ':' ∉ name) ∨
    (':' ∉ start ∧ ∃ rear, start = name ++ '/' :: rear ∧ '/' ∉ name) ∨
    (':' ∉ start ∧ '/' ∉ start ∧ start = name)

/-- The name is {lit}`host` behind the first {lit}`*.`. -/
def StarDot (name host : List Char) : Prop :=
  ∃ front, name = front ++ starDot ++ host ∧ Substr.First starDot front name

variable {url start name host : List Char}

theorem domainNameStart_eq_iff : domainNameStart url = start ↔ BeginsAt url start :=
  Substr.skipPast_eq_iff

theorem dropStarDot_eq_iff :
    dropStarDot name = host ↔ (¬ starDot <:+: name ∧ name = host) ∨ StarDot name host :=
  Substr.skipPast_eq_iff

theorem domainNameUpToEnd_eq_iff : domainNameUpToEnd start = name ↔ EndsBehind start name := by
  unfold domainNameUpToEnd EndsBehind
  cases hcolon : Substr.strstr [':'] start with
  | some found =>
      have hfound := Substr.strstr_letter_eq_some_iff.mp hcolon
      have hmem : ':' ∈ start := by
        rw [hfound.1]
        simp
      constructor
      · rintro rfl
        exact Or.inl ⟨found.2, hfound⟩
      · rintro (⟨rear, h⟩ | ⟨hno, _⟩ | ⟨hno, _⟩)
        · have hsame := Substr.strstr_letter_eq_some_iff.mpr h
          rw [hcolon] at hsame
          exact congrArg Prod.fst (Option.some.inj hsame)
        · exact absurd hmem hno
        · exact absurd hmem hno
  | none =>
      have hno := Substr.strstr_letter_eq_none_iff.mp hcolon
      have hnotColon : ∀ rear, start ≠ name ++ ':' :: rear := by
        intro rear h
        apply hno
        rw [h]
        simp
      cases hslash : Substr.strstr ['/'] start with
      | some found =>
          have hfound := Substr.strstr_letter_eq_some_iff.mp hslash
          constructor
          · rintro rfl
            exact Or.inr (Or.inl ⟨hno, found.2, hfound⟩)
          · rintro (⟨rear, h, _⟩ | ⟨_, rear, h⟩ | ⟨_, hnone, _⟩)
            · exact absurd h (hnotColon rear)
            · have hsame := Substr.strstr_letter_eq_some_iff.mpr h
              rw [hslash] at hsame
              exact congrArg Prod.fst (Option.some.inj hsame)
            · apply absurd _ hnone
              rw [hfound.1]
              simp
      | none =>
          have hnone := Substr.strstr_letter_eq_none_iff.mp hslash
          constructor
          · rintro rfl
            exact Or.inr (Or.inr ⟨hno, hnone, rfl⟩)
          · rintro (⟨rear, h, _⟩ | ⟨_, rear, h, _⟩ | ⟨_, _, h⟩)
            · exact absurd h (hnotColon rear)
            · apply absurd _ hnone
              rw [h]
              simp
            · exact h

/-- Which name is written. -/
theorem getDomainName_eq_written_iff {domainNameLength : Nat} (hurl : url ≠ []) :
    zyUtilGetDomainNameFromUrl url domainNameLength = .written host ↔
      ∃ start name, BeginsAt url start ∧ bracketed start = false ∧ EndsBehind start name ∧
        name.length < tmpdomainNameSize ∧
        ((¬ starDot <:+: name ∧ name = host) ∨ StarDot name host) ∧
        host.length < domainNameLength := by
  have htmp : zosStrncpy (domainNameStart url)
      ((domainNameUpToEnd (domainNameStart url)).length + 1) =
        domainNameUpToEnd (domainNameStart url) := by
    have hends := domainNameUpToEnd_eq_iff.mp (Eq.refl (domainNameUpToEnd (domainNameStart url)))
    have hprefix : domainNameUpToEnd (domainNameStart url) <+: domainNameStart url := by
      rcases hends with ⟨rear, h, _⟩ | ⟨_, rear, h, _⟩ | ⟨_, _, h⟩
      · exact ⟨_, h.symm⟩
      · exact ⟨_, h.symm⟩
      · exact ⟨[], by rw [List.append_nil]; exact h.symm⟩
    rw [zosStrncpy, Nat.add_sub_cancel]
    exact (List.prefix_iff_eq_take.mp hprefix).symm
  simp only [zyUtilGetDomainNameFromUrl, if_neg hurl, htmp]
  constructor
  · intro h
    refine ⟨domainNameStart url, domainNameUpToEnd (domainNameStart url),
      domainNameStart_eq_iff.mp rfl, ?_⟩
    cases hbracket : bracketed (domainNameStart url) with
    | true => simp [hbracket] at h
    | false =>
        simp only [hbracket, Bool.false_eq_true, if_false] at h
        split at h
        · cases h
        · rename_i hshort
          split at h
          · cases h
          · rename_i hroom
            have hhost : dropStarDot (domainNameUpToEnd (domainNameStart url)) = host := by
              simpa [zosStrncpy] using h
            rw [hhost] at hroom
            exact ⟨rfl, domainNameUpToEnd_eq_iff.mp rfl, by omega, dropStarDot_eq_iff.mp hhost,
              by omega⟩
  · rintro ⟨start, name, hbegins, hbracket, hends, hshort, hname, hroom⟩
    rw [domainNameStart_eq_iff.mpr hbegins, hbracket, domainNameUpToEnd_eq_iff.mpr hends,
      dropStarDot_eq_iff.mpr hname]
    rw [if_neg (by decide), if_neg (by omega), if_neg (by omega)]
    simp [zosStrncpy]

/-! ## URLs -/

/-- A URL {lit}`[scheme://]host[:port][/path]`. -/
structure Url where
  scheme : Option (List Char)
  host : List Char
  port : Option (List Char)
  path : Option (List Char)
  scheme_colon : ∀ s ∈ scheme, ':' ∉ s
  host_ne : host ≠ []
  host_colon : ':' ∉ host
  host_slash : '/' ∉ host
  host_bracket : '[' ∉ host
  host_star : ¬ starDot <+: host

namespace Url

/-- The host and what follows it. -/
def afterScheme (u : Url) : List Char :=
  u.host ++ (u.port.elim [] (':' :: ·) ++ u.path.elim [] ('/' :: ·))

/-- The text of a URL. -/
def text (u : Url) : List Char :=
  u.scheme.elim [] (· ++ schemeEnd) ++ u.afterScheme

/-- A plain URL: without a scheme it has no {lit}`://`, and without a port no colon in its path; no
{lit}`*.` is in its host, and the host fits into both buffers. -/
structure Plain (u : Url) (domainNameLength : Nat) : Prop where
  noScheme : u.scheme = none → ¬ schemeEnd <:+: u.text
  noPort : u.port = none → ∀ p ∈ u.path, ':' ∉ p
  noStar : ¬ starDot <:+: u.host
  short : u.host.length < tmpdomainNameSize
  room : u.host.length < domainNameLength

/-- The URL names its host once more: behind a {lit}`://` that belongs to no scheme, or directly
behind the first {lit}`*.` of the text that is taken for the name. -/
def NamesAgain (u : Url) (domainNameLength : Nat) : Prop :=
  ∃ start name, BeginsAt u.text start ∧ bracketed start = false ∧ EndsBehind start name ∧
    name.length < tmpdomainNameSize ∧
    ((u.scheme = none ∧ schemeEnd <:+: u.text ∧ ¬ starDot <:+: name ∧ name = u.host) ∨
      StarDot name u.host) ∧
    u.host.length < domainNameLength

variable (u : Url) {domainNameLength : Nat}

theorem text_ne_nil : u.text ≠ [] := by
  simp [text, afterScheme, u.host_ne]

/-- In a URL with a scheme, and in one without any {lit}`://`, the name begins with the host. -/
theorem beginsAt_afterScheme (h : u.scheme = none → ¬ schemeEnd <:+: u.text) :
    BeginsAt u.text u.afterScheme := by
  cases hscheme : u.scheme with
  | none =>
      refine Or.inl ⟨h hscheme, ?_⟩
      rw [text, hscheme]
      rfl
  | some s =>
      have htext : u.text = s ++ schemeEnd ++ u.afterScheme := by
        rw [text, hscheme]
        rfl
      have hfound := Substr.strstr_of_notMem (u.scheme_colon s hscheme) ['/', '/'] u.afterScheme
      rw [htext]
      exact Or.inr ⟨s, rfl, Substr.first_of_strstr hfound⟩

theorem beginsAt_unique {start : List Char} (h : u.scheme = none → ¬ schemeEnd <:+: u.text)
    (hbegins : BeginsAt u.text start) : start = u.afterScheme :=
  (domainNameStart_eq_iff.mpr hbegins).symm.trans
    (domainNameStart_eq_iff.mpr (u.beginsAt_afterScheme h))

theorem bracketed_afterScheme : bracketed u.afterScheme = false := by
  rcases List.exists_cons_of_ne_nil u.host_ne with ⟨c, cs, hcons⟩
  have hc : c ≠ '[' := by
    rintro rfl
    apply u.host_bracket
    rw [hcons]
    exact List.mem_cons_self
  simp [bracketed, afterScheme, hcons, hc]

/-- The name ends behind the host if and only if no colon of the path follows. -/
theorem endsBehind_host_iff :
    EndsBehind u.afterScheme u.host ↔ (u.port = none → ∀ p ∈ u.path, ':' ∉ p) := by
  unfold EndsBehind afterScheme
  cases hport : u.port with
  | some port =>
      apply iff_of_true
      · exact Or.inl ⟨_, rfl, u.host_colon⟩
      · intro h
        cases h
  | none =>
      cases hpath : u.path with
      | none =>
          apply iff_of_true
          · refine Or.inr (Or.inr ?_)
            simp [u.host_colon, u.host_slash]
          · intro _ p hp
            cases hp
      | some path =>
          simp [u.host_colon, u.host_slash]

/-- The host is written if and only if the URL is a plain one or names its host once more. -/
theorem host_written_iff :
    zyUtilGetDomainNameFromUrl u.text domainNameLength = .written u.host ↔
      u.Plain domainNameLength ∨ u.NamesAgain domainNameLength := by
  rw [getDomainName_eq_written_iff u.text_ne_nil]
  constructor
  · rintro ⟨start, name, hbegins, hbracket, hends, hshort, hname, hroom⟩
    rcases hname with ⟨hstar, hhost⟩ | hstarDot
    · by_cases hscheme : u.scheme = none → ¬ schemeEnd <:+: u.text
      · subst hhost
        rw [u.beginsAt_unique hscheme hbegins] at hends
        exact Or.inl ⟨hscheme, u.endsBehind_host_iff.mp hends, hstar, hshort, hroom⟩
      · rw [Classical.not_imp, not_not] at hscheme
        exact Or.inr ⟨start, name, hbegins, hbracket, hends, hshort,
          Or.inl ⟨hscheme.1, hscheme.2, hstar, hhost⟩, hroom⟩
    · exact Or.inr ⟨start, name, hbegins, hbracket, hends, hshort, Or.inr hstarDot, hroom⟩
  · rintro (hplain | ⟨start, name, hbegins, hbracket, hends, hshort, hname, hroom⟩)
    · exact ⟨u.afterScheme, u.host, u.beginsAt_afterScheme hplain.noScheme, u.bracketed_afterScheme,
        u.endsBehind_host_iff.mpr hplain.noPort, hplain.short, Or.inl ⟨hplain.noStar, rfl⟩,
        hplain.room⟩
    · refine ⟨start, name, hbegins, hbracket, hends, hshort, ?_, hroom⟩
      rcases hname with ⟨_, _, hhost⟩ | hstarDot
      · exact Or.inl hhost
      · exact Or.inr hstarDot

end Url

/-- The URL {lit}`http://h/at:9`. -/
def colonInPath : Url where
  scheme := some "http".toList
  host := "h".toList
  port := none
  path := some "at:9".toList
  scheme_colon := by
    intro s hs
    cases hs
    decide
  host_ne := by decide
  host_colon := by decide
  host_slash := by decide
  host_bracket := by decide
  host_star := by decide

/-- The name does not end in front of the path. -/
theorem colonInPath_misread :
    colonInPath.text = "http://h/at:9".toList ∧
      zyUtilGetDomainNameFromUrl colonInPath.text 64 = .written "h/at".toList := by
  decide

end ZyUtil
end ZyxelRouter
