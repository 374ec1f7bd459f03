import ZyxelRouter.FeDal.ParamLanguages
import ZyxelRouter.Zos.StrCat

/-!
# Services of a parental control profile

{lit}`parseParenService` turns {lit}`http@TCP:80,8000:8080` into {lit}`1[http@TCP#80:-1@TCP#8000:8080`.  Each range
is printed into a buffer of 16 bytes, and ports are read with {lit}`sscanf`.  For a list of services
{lit}`parseValidateParameter` calls it for one after the other, always with the same buffer.

Main results:

- Theorem {lit}`portLoop_eq_none_iff`: a range that does not fit.
- Theorem {lit}`portLoop_of_accepted`: what is written for ranges that fit.
- Theorem {lit}`parseRight_iff`: when a service is parsed as it should be.
- Theorem {lit}`listRight_iff`: when the text of every service of a list is kept.
-/

namespace ZyxelRouter
namespace FeDal

open Lib Zos

/-! ## The functions -/

/-- A port, or the first port of a range and its last one. -/
abbrev PortSpan := Nat × Option Nat

/-- The {lit}`sscanf`s of an entry of the list, and the tests of the ports. -/
def portEntry (ptr : List Char) : Option PortSpan :=
  match scanInts ':' 2 ptr with
  | [startPort, endPort] =>
      if startPort < 1 ∨ startPort > 65535 ∨ endPort < 1 ∨ endPort > 65535 then none
      else if startPort ≥ endPort then none
      else some (startPort.toNat, some endPort.toNat)
  | [startPort] =>
      if startPort < 1 ∨ startPort > 65535 then none else some (startPort.toNat, none)
  | _ => none

/-- {lit}`"@%s#%d:%d"` and {lit}`"@%s#%d:-1"`. -/
def partRange (protocol : List Char) : PortSpan → List Char
  | (startPort, some endPort) =>
      '@' :: (protocol ++ '#' :: (decimal startPort ++ ':' :: decimal endPort))
  | (startPort, none) => '@' :: (protocol ++ '#' :: (decimal startPort ++ ":-1".toList))

/-- The size of {lit}`partRange`. -/
def partRangeSize : Nat := 16

/-- The loop over the entries; {lit}`none` if {lit}`partRange` is written over its end. -/
def portLoop (protocol : List Char) (parenCtlServiceLen : Nat) :
    Nat → List (List Char) → List Char → Option (Bool × List Char)
  | _, [], parenCtlService => some (true, parenCtlService)
  | count, ptr :: rest, parenCtlService =>
      if count + 1 > 6 then some (false, parenCtlService)
      else
        match portEntry ptr with
        | none => some (false, parenCtlService)
        | some span =>
            if partRangeSize ≤ (partRange protocol span).length then none
            else
              portLoop protocol parenCtlServiceLen (count + 1) rest
                (zosStrcat parenCtlService (partRange protocol span) parenCtlServiceLen).2

/-- The protocols of a service. -/
def parenProtocols : List (List Char) :=
  ["TCP".toList, "UDP".toList, "BOTH".toList]

attribute [local instance] lawfulBEq_text in
/-- {lit}`serviceName`, {lit}`protocol` and {lit}`portList`, if the first two are accepted. -/
def serviceHeader (service : List Char) : Option (List Char × List Char × List Char) :=
  match cutAt '@' service with
  | none => none
  | some (serviceName, rest) =>
      match cutAt ':' rest with
      | none => none
      | some (protocol, portList) =>
          if serviceName.length > 17 then none
          else if protocol ∉ parenProtocols then none
          else some (serviceName, protocol, portList)

/-- Whether {lit}`strncmp(serviceName, "1[", 2)` is zero. -/
def isNumbered (serviceName : List Char) : Bool :=
  "1[".toList.isPrefixOf serviceName

/-- {lit}`parseParenService`: the result and the text in {lit}`parenCtlService`, or {lit}`none` if memory
outside of a buffer is written. -/
def parseParenService (service parenCtlService : List Char) (parenCtlServiceLen : Nat) :
    Option (Bool × List Char) :=
  match serviceHeader service with
  | none => some (false, parenCtlService)
  | some (serviceName, protocol, portList) =>
      portLoop protocol parenCtlServiceLen 0 (strtok ',' portList)
        (if !isNumbered serviceName then "1[".toList ++ serviceName
        else (zosStrcat parenCtlService serviceName parenCtlServiceLen).2)

/-- {lit}`sizeof(parenCtlService)` of {lit}`parseValidateParameter`. -/
def parenCtlServiceSize : Nat := 128

/-- The text in {lit}`parenCtlService`, which is not initialised. -/
abbrev ParenCtlText := { text : List Char // text.length < parenCtlServiceSize }

/-- {lit}`max` of the parameter; {lit}`min` is 1. -/
def serviceListMax : Nat := 12

/-- The loop over the services: nothing outside if a buffer is left, nothing inside if a service is not
accepted, and else {lit}`count` and the text of {lit}`NetworkServiceList`. -/
def serviceLoop : Nat → List (List Char) → List Char → List Char →
    Option (Option (Nat × List Char))
  | count, [], _, networkServiceList => some (some (count, networkServiceList))
  | count, ptr :: rest, parenCtlService, _ =>
      match parseParenService ptr parenCtlService parenCtlServiceSize with
      | none => none
      | some (false, _) => some none
      | some (true, parenCtlService) =>
          if count + 1 > serviceListMax then some (some (count + 1, parenCtlService))
          else serviceLoop (count + 1) rest parenCtlService parenCtlService

/-- {lit}`parseValidateParameter` for a value of type {lit}`dalType_ParenCtlServiceList` that does not come from
the GUI: what {lit}`NetworkServiceList` is then if the value is accepted. -/
def parseServiceList (parenCtlService : ParenCtlText) (value : List Char) :
    Option (Option (List Char)) :=
  if value = [] ∨ value = "Empty".toList then some (some value)
  else
    match serviceLoop 0 (strtok '/' value) parenCtlService.val value with
    | none => none
    | some none => some none
    | some (some (count, networkServiceList)) =>
        if count > serviceListMax ∨ count < 1 then some none else some (some networkServiceList)

/-! ## Services -/

/-- The text of a port. -/
structure IsPort (text : List Char) (port : Nat) : Prop where
  digits : DigitText text
  value : digitsValue text = port
  pos : 1 ≤ port
  le : port ≤ 65535

/-- The text of an entry. -/
def Spells (entry : List Char) : PortSpan → Prop
  | (startPort, some endPort) =>
      ∃ first last, entry = first ++ ':' :: last ∧ IsPort first startPort ∧ IsPort last endPort ∧
        startPort < endPort
  | (startPort, none) => IsPort entry startPort

/-- A service. -/
structure ParenService where
  serviceName : List Char
  protocol : List Char
  spans : List PortSpan

/-- The text of a service, {lit}`name@P:ports`. -/
structure IsService (service : List Char) (s : ParenService) : Prop where
  text : ∃ entries, service =
      s.serviceName ++ '@' :: (s.protocol ++ ':' :: [','].intercalate entries) ∧
    List.Forall₂ Spells entries s.spans
  name : '@' ∉ s.serviceName
  nameLength : s.serviceName.length ≤ 17
  protocol : s.protocol ∈ parenProtocols
  some : s.spans ≠ []
  atMostSix : s.spans.length ≤ 6

/-- What a service is turned into. -/
def ParenService.converted (s : ParenService) : List Char :=
  (if isNumbered s.serviceName then s.serviceName else "1[".toList ++ s.serviceName) ++
    s.spans.flatMap (partRange s.protocol)

/-- Every range of a service fits into its buffer. -/
def ParenService.Fits (s : ParenService) : Prop :=
  ∀ span ∈ s.spans, (partRange s.protocol span).length < partRangeSize

/-! ## Entries -/

variable {protocol ptr entry text : List Char} {span : PortSpan} {tokens : List (List Char)}
  {count len : Nat}

/-- A port is read as it is. -/
theorem IsPort.bmod {port : Nat} (h : IsPort text port) :
    (digitsValue text : Int).bmod (2 ^ 32) = port := by
  have hle := h.le
  rw [h.value, Int.bmod_def]
  split <;> omega

theorem Spells.portEntry (h : Spells entry span) : portEntry entry = some span := by
  obtain ⟨startPort, endPort⟩ := span
  cases endPort with
  | none =>
      have hport : IsPort entry startPort := h
      have hpos := hport.pos
      have hle := hport.le
      have hscan := @scanInts_digits_end ':' _ hport.digits.nonempty hport.digits.digits 1
      rw [hport.bmod] at hscan
      rw [FeDal.portEntry, hscan]
      simp only
      rw [if_neg (by omega), Int.toNat_natCast]
  | some endPort =>
      obtain ⟨first, last, rfl, hfirst, hlast, hlt⟩ := h
      have hpos := hfirst.pos
      have hle := hlast.le
      have hscan := @scanInts_digits_cons ':' (by decide) first last
        hfirst.digits.nonempty hfirst.digits.digits 1
      rw [scanInts_digits_end hlast.digits.nonempty hlast.digits.digits, hfirst.bmod,
        hlast.bmod] at hscan
      rw [FeDal.portEntry, hscan]
      simp only
      rw [if_neg (by omega), if_neg (by omega), Int.toNat_natCast, Int.toNat_natCast]

theorem Spells.ne_nil (h : Spells entry span) : entry ≠ [] := by
  obtain ⟨startPort, endPort⟩ := span
  cases endPort with
  | none =>
      have hport : IsPort entry startPort := h
      exact hport.digits.nonempty
  | some endPort =>
      obtain ⟨first, last, rfl, -⟩ := h
      simp

theorem DigitText.notMem (h : DigitText text) {c : Char} (hc : c.isDigit = false) : c ∉ text := by
  intro hmem
  rw [h.digits c hmem] at hc
  cases hc

theorem Spells.comma (h : Spells entry span) : ',' ∉ entry := by
  obtain ⟨startPort, endPort⟩ := span
  cases endPort with
  | none =>
      have hport : IsPort entry startPort := h
      exact hport.digits.notMem (by decide)
  | some endPort =>
      obtain ⟨first, last, rfl, hfirst, hlast, -⟩ := h
      rw [List.mem_append, List.mem_cons, not_or, not_or]
      exact ⟨hfirst.digits.notMem (by decide), by decide, hlast.digits.notMem (by decide)⟩

/-- The spans of entries are what the scan makes of them. -/
theorem filterMap_portEntry {entries : List (List Char)} {spans : List PortSpan}
    (h : List.Forall₂ Spells entries spans) : entries.filterMap portEntry = spans := by
  induction h with
  | nil => rfl
  | cons hentry _ ih => rw [List.filterMap_cons_some hentry.portEntry, ih]

/-! ## The loop over the entries -/

/-- What is cut off before something is appended would be cut off behind it. -/
theorem take_take_append {α : Type} (n : Nat) (xs ys : List α) :
    (xs.take n ++ ys).take n = (xs ++ ys).take n := by
  rw [List.take_append, List.take_append, List.take_take, Nat.min_self, List.length_take]
  congr 2
  omega

/-- A buffer is left where a range does not fit, among the first six entries and in front of the first one that
is not accepted. -/
theorem portLoop_eq_none_iff (hcount : count ≤ 6) :
    portLoop protocol len count tokens text = none ↔
      ∃ ptr ∈ (tokens.take (6 - count)).takeWhile (fun ptr => (portEntry ptr).isSome),
        ∃ span, portEntry ptr = some span ∧ partRangeSize ≤ (partRange protocol span).length := by
  induction tokens generalizing count text with
  | nil => simp [portLoop]
  | cons ptr rest ih =>
      rw [portLoop]
      by_cases hsix : count = 6
      · subst hsix
        simp
      · obtain ⟨k, hk⟩ : ∃ k, 6 - count = k + 1 := Nat.exists_eq_succ_of_ne_zero (by omega)
        have hk' : 6 - (count + 1) = k := by omega
        rw [if_neg (by omega), hk, List.take_succ_cons]
        cases hentry : portEntry ptr with
        | none => simp [hentry]
        | some span =>
            simp only
            rw [List.takeWhile_cons_of_pos (by simp [hentry]), List.exists_mem_cons_iff, hentry]
            by_cases hlong : partRangeSize ≤ (partRange protocol span).length
            · rw [if_pos hlong]
              exact iff_of_true rfl (Or.inl ⟨span, rfl, hlong⟩)
            · have hno : ¬ ∃ span', some span = some span' ∧
                  partRangeSize ≤ (partRange protocol span').length := by
                rintro ⟨span', heq, hlong'⟩
                rw [← Option.some.inj heq] at hlong'
                exact hlong hlong'
              rw [if_neg hlong, ih (by omega), hk', or_iff_right hno]

/-- Where the loop accepts, it accepts every entry, and there are at most six. -/
theorem accepted_of_portLoop {out : List Char}
    (h : portLoop protocol len count tokens text = some (true, out)) (hcount : count ≤ 6) :
    count + tokens.length ≤ 6 ∧ ∀ ptr ∈ tokens, portEntry ptr ≠ none := by
  induction tokens generalizing count text with
  | nil => exact ⟨by simpa using hcount, fun ptr hptr => absurd hptr List.not_mem_nil⟩
  | cons ptr rest ih =>
      rw [portLoop] at h
      split at h
      · simp at h
      · rename_i hsix
        cases hentry : portEntry ptr with
        | none =>
            rw [hentry] at h
            simp at h
        | some span =>
            rw [hentry] at h
            simp only at h
            split at h
            · cases h
            · obtain ⟨hlen, hrest⟩ := ih h (by omega)
              constructor
              · rw [List.length_cons]
                omega
              · rw [List.forall_mem_cons, hentry]
                exact ⟨Option.some_ne_none span, hrest⟩

/-- The ranges of accepted entries are appended as far as there is room. -/
theorem portLoop_of_accepted (htext : text.length < len) (hcount : count + tokens.length ≤ 6)
    (hall : ∀ ptr ∈ tokens, ∃ span, portEntry ptr = some span ∧
      (partRange protocol span).length < partRangeSize) :
    portLoop protocol len count tokens text =
      some (true, (text ++ (tokens.filterMap portEntry).flatMap (partRange protocol)).take (len - 1)) := by
  induction tokens generalizing count text with
  | nil =>
      have htake : text.take (len - 1) = text := List.take_of_length_le (by omega)
      simp [portLoop, htake]
  | cons ptr rest ih =>
      obtain ⟨span, hentry, hfits⟩ := hall ptr List.mem_cons_self
      rw [List.length_cons] at hcount
      have hcat : (zosStrcat text (partRange protocol span) len).2 =
          (text ++ partRange protocol span).take (len - 1) := zosStrcat_eq_take htext
      have hroom : (zosStrcat text (partRange protocol span) len).2.length < len := by
        rw [hcat, List.length_take]
        omega
      have hrest := ih hroom (by omega : count + 1 + rest.length ≤ 6)
        (fun ptr' hptr' => hall ptr' (List.mem_cons_of_mem ptr hptr'))
      rw [portLoop, if_neg (by omega), hentry]
      simp only
      rw [if_neg (by omega), hrest, hcat, List.filterMap_cons_some hentry, List.flatMap_cons,
        take_take_append, List.append_assoc]

/-! ## Headers -/

theorem serviceHeader_eq_some_iff {service serviceName portList : List Char} :
    serviceHeader service = some (serviceName, protocol, portList) ↔
      service = serviceName ++ '@' :: (protocol ++ ':' :: portList) ∧ '@' ∉ serviceName ∧
        serviceName.length ≤ 17 ∧ protocol ∈ parenProtocols := by
  have hcolon : ∀ p ∈ parenProtocols, ':' ∉ p := by decide
  constructor
  · intro h
    rw [serviceHeader] at h
    cases hcut : cutAt '@' service with
    | none => simp [hcut] at h
    | some parts =>
        obtain ⟨name, rest⟩ := parts
        rw [hcut] at h
        simp only at h
        cases hcut' : cutAt ':' rest with
        | none => simp [hcut'] at h
        | some parts' =>
            obtain ⟨prot, ports⟩ := parts'
            rw [hcut'] at h
            simp only at h
            split at h
            · cases h
            · split at h
              · cases h
              · rename_i hlen hprot
                cases h
                obtain ⟨rfl, hname⟩ := cutAt_eq_some_iff.mp hcut
                obtain ⟨rfl, -⟩ := cutAt_eq_some_iff.mp hcut'
                exact ⟨rfl, hname, by omega, not_not.mp hprot⟩
  · rintro ⟨rfl, hname, hlen, hprot⟩
    rw [serviceHeader, cutAt_eq_some_iff.mpr ⟨rfl, hname⟩]
    simp only
    rw [cutAt_eq_some_iff.mpr ⟨rfl, hcolon protocol hprot⟩]
    simp only
    rw [if_neg (by omega), if_neg (not_not.mpr hprot)]

/-- A text with a header is a service if its pieces are entries, at most six. -/
theorem isService_iff {service serviceName portList : List Char} {s : ParenService}
    (hheader : serviceHeader service = some (serviceName, protocol, portList)) :
    IsService service s ↔ s.serviceName = serviceName ∧ s.protocol = protocol ∧
      List.Forall₂ Spells (portList.splitOn ',') s.spans ∧ s.spans.length ≤ 6 := by
  have hparts := serviceHeader_eq_some_iff.mp hheader
  constructor
  · intro h
    obtain ⟨entries, htext, hspells⟩ := h.text
    have hsame := serviceHeader_eq_some_iff.mpr ⟨htext, h.name, h.nameLength, h.protocol⟩
    rw [hheader, Option.some.injEq, Prod.mk.injEq, Prod.mk.injEq] at hsame
    have hne : entries ≠ [] := by
      rintro rfl
      exact h.some (List.forall₂_nil_left_iff.mp hspells)
    have hcomma : ∀ e ∈ entries, ',' ∉ e := by
      intro e he
      obtain ⟨span, -, hspan⟩ := exists_of_forall₂ hspells e he
      exact hspan.comma
    rw [hsame.2.2, List.splitOn_intercalate ',' hcomma hne]
    exact ⟨hsame.1.symm, hsame.2.1.symm, hspells, h.atMostSix⟩
  · rintro ⟨rfl, rfl, hspells, hsix⟩
    refine ⟨⟨portList.splitOn ',', ?_, hspells⟩, hparts.2.1, hparts.2.2.1, hparts.2.2.2, ?_, hsix⟩
    · rw [List.intercalate_splitOn]
      exact hparts.1
    · intro hnil
      rw [hnil, List.forall₂_nil_right_iff] at hspells
      exact List.splitOn_ne_nil ',' portList hspells

/-- The pieces of a service are its tokens. -/
theorem strtok_of_spells {portList : List Char} {spans : List PortSpan}
    (h : List.Forall₂ Spells (portList.splitOn ',') spans) :
    strtok ',' portList = portList.splitOn ',' := by
  apply strtok_eq_splitOn
  intro hmem
  obtain ⟨span, -, hspan⟩ := exists_of_forall₂ h [] hmem
  exact hspan.ne_nil rfl

/-- A converted service whose ranges fit has room in the buffer. -/
theorem ParenService.length_converted_lt {service : List Char} {s : ParenService}
    (h : IsService service s) (hfits : s.Fits) : s.converted.length < parenCtlServiceSize := by
  have hparts : ∀ spans : List PortSpan, (∀ span ∈ spans,
      (partRange s.protocol span).length < partRangeSize) →
      (spans.flatMap (partRange s.protocol)).length ≤ 15 * spans.length := by
    intro spans hspans
    induction spans with
    | nil => simp
    | cons span spans ih =>
        have hspan := hspans span List.mem_cons_self
        have hrest := ih fun span' hspan' => hspans span' (List.mem_cons_of_mem span hspan')
        rw [partRangeSize] at hspan
        rw [List.flatMap_cons, List.length_append, List.length_cons]
        omega
  have hsix := h.atMostSix
  have hname := h.nameLength
  have hspans := hparts s.spans hfits
  have hfront : (if isNumbered s.serviceName then s.serviceName
      else "1[".toList ++ s.serviceName).length ≤ 19 := by
    have htwo : "1[".toList.length = 2 := rfl
    split
    · omega
    · rw [List.length_append]
      omega
  rw [ParenService.converted, List.length_append, parenCtlServiceSize]
  omega

/-- A service whose ranges fit is appended to what stands in the buffer, or overwrites it. -/
theorem parse_of_fits {service : List Char} {s : ParenService} (h : IsService service s)
    (hfits : s.Fits) (htext : text.length < parenCtlServiceSize) :
    parseParenService service text parenCtlServiceSize =
      some (true, ((if isNumbered s.serviceName then text else []) ++ s.converted).take
        (parenCtlServiceSize - 1)) := by
  obtain ⟨entries, hservice, -⟩ := h.text
  have hheader := serviceHeader_eq_some_iff.mpr ⟨hservice, h.name, h.nameLength, h.protocol⟩
  obtain ⟨-, -, hspells, hsix⟩ := (isService_iff hheader).mp h
  have htokens := strtok_of_spells hspells
  have hname := h.nameLength
  rw [parseParenService, hheader]
  simp only
  rw [htokens, ParenService.converted]
  have hall : ∀ ptr ∈ ([','].intercalate entries).splitOn ',', ∃ span, portEntry ptr = some span ∧
      (partRange s.protocol span).length < partRangeSize := by
    intro ptr hptr
    obtain ⟨span, hspan, hptr⟩ := exists_of_forall₂ hspells ptr hptr
    exact ⟨span, hptr.portEntry, hfits span hspan⟩
  have hlen := hspells.length_eq
  cases hnumbered : isNumbered s.serviceName with
  | true =>
      have hcat : (zosStrcat text s.serviceName parenCtlServiceSize).2 =
          (text ++ s.serviceName).take (parenCtlServiceSize - 1) := zosStrcat_eq_take htext
      have hroom : (zosStrcat text s.serviceName parenCtlServiceSize).2.length <
          parenCtlServiceSize := by
        rw [hcat, List.length_take, parenCtlServiceSize]
        omega
      simp only [Bool.not_true, Bool.false_eq_true, if_false, if_true]
      rw [portLoop_of_accepted hroom (by omega) hall, filterMap_portEntry hspells, hcat,
        take_take_append, List.append_assoc]
  | false =>
      have hroom : ("1[".toList ++ s.serviceName).length < parenCtlServiceSize := by
        have htwo : "1[".toList.length = 2 := rfl
        rw [List.length_append, parenCtlServiceSize]
        omega
      simp only [Bool.not_false, Bool.false_eq_true, if_false, if_true, List.nil_append]
      rw [portLoop_of_accepted hroom (by omega) hall, filterMap_portEntry hspells]

/-! ## One service -/

/-- A service is parsed as it should be into a buffer of zeros: it is accepted exactly if it is a service, and
then it is converted. -/
def ParseRight (service : List Char) : Prop :=
  ∃ ok text, parseParenService service [] parenCtlServiceSize = some (ok, text) ∧
    (ok = true ↔ ∃ s, IsService service s) ∧ ∀ s, IsService service s → text = s.converted

/-- The entries of a list of ports are scanned as they should be: the ranges of the first six fit, up to one that
is not accepted, and if there are at most six and all are accepted, then none is empty and all are spelled as
ports. -/
structure EntriesRight (protocol portList : List Char) : Prop where
  fit : ∀ ptr ∈ ((strtok ',' portList).take 6).takeWhile (fun ptr => (portEntry ptr).isSome),
    ∀ span, portEntry ptr = some span → (partRange protocol span).length < partRangeSize
  spelled : (strtok ',' portList).length ≤ 6 →
    (∀ ptr ∈ strtok ',' portList, portEntry ptr ≠ none) →
    [] ∉ portList.splitOn ',' ∧ ∀ ptr ∈ strtok ',' portList, ∃ span, Spells ptr span

/-- Behind a name and a protocol that are accepted the entries are scanned as they should be. -/
def ScansRight (service : List Char) : Prop :=
  ∀ serviceName protocol portList,
    serviceHeader service = some (serviceName, protocol, portList) → EntriesRight protocol portList

section Header

variable {service serviceName portList : List Char} {s : ParenService}

/-- The loop of a service with an accepted header. -/
theorem parse_eq (hheader : serviceHeader service = some (serviceName, protocol, portList)) :
    ∃ start, parseParenService service [] parenCtlServiceSize =
        portLoop protocol parenCtlServiceSize 0 (strtok ',' portList) start ∧
      start.length < parenCtlServiceSize := by
  have hlen := (serviceHeader_eq_some_iff.mp hheader).2.2.1
  have htwo : "1[".toList.length = 2 := rfl
  rw [parseParenService, hheader]
  refine ⟨_, rfl, ?_⟩
  split
  · rw [List.length_append, parenCtlServiceSize]
    omega
  · rw [zosStrcat_eq_take (by decide), List.length_take, parenCtlServiceSize]
    omega

/-- Of at most six entries that are all accepted every range fits. -/
theorem fit_all {tokens : List (List Char)}
    (hfit : ∀ ptr ∈ (tokens.take 6).takeWhile (fun ptr => (portEntry ptr).isSome),
      ∀ span, portEntry ptr = some span → (partRange protocol span).length < partRangeSize)
    (hsix : tokens.length ≤ 6) (hall : ∀ ptr ∈ tokens, portEntry ptr ≠ none) :
    ∀ ptr ∈ tokens, ∃ span, portEntry ptr = some span ∧
      (partRange protocol span).length < partRangeSize := by
  have hself : tokens.takeWhile (fun ptr => (portEntry ptr).isSome) = tokens := by
    rw [List.takeWhile_eq_self_iff]
    intro ptr hptr
    exact Option.isSome_iff_ne_none.mpr (hall ptr hptr)
  rw [List.take_of_length_le hsix, hself] at hfit
  intro ptr hptr
  obtain ⟨span, hspan⟩ := Option.ne_none_iff_exists'.mp (hall ptr hptr)
  exact ⟨span, hspan, hfit ptr hptr span hspan⟩

/-- The tokens of a service are accepted. -/
theorem accepted_of_isService
    (hheader : serviceHeader service = some (serviceName, protocol, portList))
    (h : IsService service s) : strtok ',' portList = portList.splitOn ',' ∧
      (strtok ',' portList).length ≤ 6 ∧ ∀ ptr ∈ strtok ',' portList, ∃ span, Spells ptr span := by
  obtain ⟨-, -, hspells, hsix⟩ := (isService_iff hheader).mp h
  have htokens := strtok_of_spells hspells
  refine ⟨htokens, ?_, ?_⟩
  · rw [htokens, hspells.length_eq]
    exact hsix
  · rw [htokens]
    intro ptr hptr
    obtain ⟨span, -, hspan⟩ := exists_of_forall₂ hspells ptr hptr
    exact ⟨span, hspan⟩

/-- If the service is parsed as it should be, its entries are scanned as they should be. -/
theorem entriesRight_of_parseRight
    (hheader : serviceHeader service = some (serviceName, protocol, portList))
    (h : ParseRight service) : EntriesRight protocol portList := by
  obtain ⟨ok, text, hparse, hok, -⟩ := h
  obtain ⟨start, heq, hroom⟩ := parse_eq hheader
  rw [heq] at hparse
  have hfit : ∀ ptr ∈ ((strtok ',' portList).take 6).takeWhile (fun ptr => (portEntry ptr).isSome),
      ∀ span, portEntry ptr = some span → (partRange protocol span).length < partRangeSize := by
    intro ptr hptr span hspan
    by_contra hlong
    have hnone : portLoop protocol parenCtlServiceSize 0 (strtok ',' portList) start = none :=
      (portLoop_eq_none_iff (by omega)).mpr ⟨ptr, hptr, span, hspan, by omega⟩
    rw [hnone] at hparse
    cases hparse
  refine ⟨hfit, fun hsix hall => ?_⟩
  have hfits := fit_all hfit hsix hall
  rw [portLoop_of_accepted hroom (by omega) hfits, Option.some.injEq, Prod.mk.injEq] at hparse
  obtain ⟨s, hs⟩ := hok.mp hparse.1.symm
  obtain ⟨htokens, -, hspells⟩ := accepted_of_isService hheader hs
  refine ⟨?_, hspells⟩
  rw [← htokens]
  intro hnil
  obtain ⟨span, hspan⟩ := hspells [] hnil
  exact hspan.ne_nil rfl

/-- A text is that of one service at most. -/
theorem isService_unique {s' : ParenService}
    (hheader : serviceHeader service = some (serviceName, protocol, portList))
    (h : IsService service s) (h' : IsService service s') : s' = s := by
  obtain ⟨hname, hprot, hspells, -⟩ := (isService_iff hheader).mp h
  obtain ⟨hname', hprot', hspells', -⟩ := (isService_iff hheader).mp h'
  cases s
  cases s'
  simp only [ParenService.mk.injEq]
  exact ⟨hname'.trans hname.symm, hprot'.trans hprot.symm,
    (filterMap_portEntry hspells').symm.trans (filterMap_portEntry hspells)⟩

/-- A service whose ranges fit is parsed as it should be. -/
theorem parseRight_of_isService
    (hheader : serviceHeader service = some (serviceName, protocol, portList))
    (h : IsService service s) (hfits : s.Fits) : ParseRight service := by
  have hlt := ParenService.length_converted_lt h hfits
  refine ⟨true, _, parse_of_fits h hfits (by decide), iff_of_true rfl ⟨s, h⟩, ?_⟩
  intro s' hs'
  rw [ite_self, List.nil_append, isService_unique hheader h hs', List.take_of_length_le (by omega)]

/-- Of entries that are too many, or of which one is not accepted, no service is made. -/
theorem parseRight_of_rejected
    (hheader : serviceHeader service = some (serviceName, protocol, portList))
    (h : EntriesRight protocol portList)
    (hbad : ¬ ((strtok ',' portList).length ≤ 6 ∧
      ∀ ptr ∈ strtok ',' portList, portEntry ptr ≠ none)) : ParseRight service := by
  have hno : ∀ s, ¬ IsService service s := by
    intro s hs
    obtain ⟨-, hsix, hspells⟩ := accepted_of_isService hheader hs
    apply hbad
    refine ⟨hsix, fun ptr hptr => ?_⟩
    obtain ⟨span, hspan⟩ := hspells ptr hptr
    rw [hspan.portEntry]
    exact Option.some_ne_none span
  obtain ⟨start, heq, -⟩ := parse_eq hheader
  have hsome : portLoop protocol parenCtlServiceSize 0 (strtok ',' portList) start ≠ none := by
    intro hnone
    obtain ⟨ptr, hptr, span, hspan, hlong⟩ := (portLoop_eq_none_iff (by omega)).mp hnone
    have hlen := h.fit ptr hptr span hspan
    omega
  obtain ⟨⟨ok, text⟩, hloop⟩ := Option.ne_none_iff_exists'.mp hsome
  have hok : ok ≠ true := by
    rintro rfl
    obtain ⟨hsix, hall⟩ := accepted_of_portLoop hloop (by omega)
    exact hbad ⟨by omega, hall⟩
  refine ⟨ok, text, heq.trans hloop, ?_, fun s hs => absurd hs (hno s)⟩
  exact iff_of_false hok (fun ⟨s, hs⟩ => hno s hs)

/-- Entries that are scanned as they should be make a service that is parsed as it should be, or none. -/
theorem parseRight_of_entriesRight
    (hheader : serviceHeader service = some (serviceName, protocol, portList))
    (h : EntriesRight protocol portList) : ParseRight service := by
  by_cases hgood : (strtok ',' portList).length ≤ 6 ∧
      ∀ ptr ∈ strtok ',' portList, portEntry ptr ≠ none
  · obtain ⟨hsix, hall⟩ := hgood
    obtain ⟨hnil, hspelled⟩ := h.spelled hsix hall
    have hall_fit := fit_all h.fit hsix hall
    have htokens := strtok_eq_splitOn hnil
    rw [htokens] at hspelled hsix hall_fit
    obtain ⟨spans, hspans⟩ := exists_forall₂ hspelled
    have hs : IsService service ⟨serviceName, protocol, spans⟩ :=
      (isService_iff hheader).mpr ⟨rfl, rfl, hspans, hspans.length_eq.ge.trans hsix⟩
    refine parseRight_of_isService hheader hs fun span hspan => ?_
    obtain ⟨entry, hentry, hread⟩ := exists_of_forall₂ hspans.flip span hspan
    obtain ⟨span', hspan', hlen⟩ := hall_fit entry hentry
    obtain rfl : span = span' := Option.some.inj ((Spells.portEntry hread).symm.trans hspan')
    exact hlen
  · exact parseRight_of_rejected hheader h hgood

end Header

/-- A service is parsed as it should be exactly if its entries are scanned as they should be. -/
theorem parseRight_iff (service : List Char) : ParseRight service ↔ ScansRight service := by
  constructor
  · exact fun h _ _ _ hheader => entriesRight_of_parseRight hheader h
  · intro h
    cases hheader : serviceHeader service with
    | some header => exact parseRight_of_entriesRight hheader (h _ _ _ hheader)
    | none =>
        have hno : ∀ s, ¬ IsService service s := by
          intro s hs
          obtain ⟨entries, htext, -⟩ := hs.text
          rw [serviceHeader_eq_some_iff.mpr ⟨htext, hs.name, hs.nameLength, hs.protocol⟩] at hheader
          cases hheader
        refine ⟨false, [], ?_, ?_, fun s hs => absurd hs (hno s)⟩
        · rw [parseParenService, hheader]
        · exact iff_of_false (by simp) (fun ⟨s, hs⟩ => hno s hs)

/-! ## Lists of services -/

/-- What stands in the buffer behind services that all fit: the texts from the last service on whose name is
not numbered, or what was there before and the texts of all. -/
def keptText : List Char → List ParenService → List Char
  | before, [] => before
  | before, s :: rest =>
      keptText ((if isNumbered s.serviceName then before else []) ++ s.converted) rest

/-- A list of services is parsed without leaving a buffer, and if it is accepted, {lit}`NetworkServiceList` has
the converted text of every one of them. -/
def ListRight (parenCtlService : ParenCtlText) (texts : List (List Char))
    (services : List ParenService) : Prop :=
  ∃ out, parseServiceList parenCtlService (['/'].intercalate texts) = some out ∧
    ∀ networkServiceList, out = some networkServiceList →
      ∀ s ∈ services, s.converted <:+: networkServiceList

variable {texts : List (List Char)} {services : List ParenService}

/-- Cutting off what stands in the buffer before changes nothing but the end. -/
theorem keptText_take (n : Nat) (before : List Char) (services : List ParenService) :
    (keptText (before.take n) services).take n = (keptText before services).take n := by
  induction services generalizing before with
  | nil => rw [keptText, keptText, List.take_take, Nat.min_self]
  | cons s rest ih =>
      rw [keptText, keptText, ← ih, ← ih ((if isNumbered s.serviceName then before else []) ++ _)]
      split
      · rw [take_take_append]
      · rfl

/-- A service that is not numbered is all that is kept of those in front of it. -/
theorem keptText_concat (before : List Char) (front : List ParenService) {last : ParenService}
    (hlast : isNumbered last.serviceName = false) :
    keptText before (front ++ [last]) = last.converted := by
  induction front generalizing before with
  | nil => simp [keptText, hlast]
  | cons s front ih =>
      rw [List.cons_append, keptText]
      exact ih _

/-- A range that does not fit leaves its buffer. -/
theorem parse_of_not_fits {service : List Char} {s : ParenService} (h : IsService service s)
    (hlong : ¬ s.Fits) : parseParenService service text parenCtlServiceSize = none := by
  obtain ⟨entries, hservice, -⟩ := h.text
  have hheader := serviceHeader_eq_some_iff.mpr ⟨hservice, h.name, h.nameLength, h.protocol⟩
  obtain ⟨-, -, hspells, -⟩ := (isService_iff hheader).mp h
  obtain ⟨htokens, hsix, hall⟩ := accepted_of_isService hheader h
  rw [ParenService.Fits] at hlong
  push Not at hlong
  obtain ⟨span, hspan, hlen⟩ := hlong
  obtain ⟨entry, hentry, hread⟩ := exists_of_forall₂ hspells.flip span hspan
  have haccepted : (strtok ',' ([','].intercalate entries)).takeWhile
      (fun ptr => (portEntry ptr).isSome) = strtok ',' ([','].intercalate entries) := by
    rw [List.takeWhile_eq_self_iff]
    intro ptr hptr
    obtain ⟨span, hspan⟩ := hall ptr hptr
    rw [hspan.portEntry]
    rfl
  rw [parseParenService, hheader]
  simp only
  rw [portLoop_eq_none_iff (by omega), Nat.sub_zero, List.take_of_length_le hsix, haccepted, htokens]
  exact ⟨entry, hentry, span, Spells.portEntry hread, hlen⟩

/-- What is kept of a text leaves room for its terminator. -/
theorem length_take_lt (text : List Char) :
    (text.take (parenCtlServiceSize - 1)).length < parenCtlServiceSize := by
  rw [List.length_take, parenCtlServiceSize]
  omega

/-- At most twelve services that fit are all parsed. -/
theorem serviceLoop_of_fits (h : List.Forall₂ IsService texts services)
    (hfits : ∀ s ∈ services, s.Fits) (htext : text.length < parenCtlServiceSize)
    (hcount : count + services.length ≤ serviceListMax) :
    serviceLoop count texts text text =
      some (some (count + services.length, (keptText text services).take (parenCtlServiceSize - 1))) := by
  induction h generalizing text count with
  | nil =>
      have htake : text.take (parenCtlServiceSize - 1) = text := List.take_of_length_le (by omega)
      simp [serviceLoop, keptText, htake]
  | @cons service s texts services hservice _ ih =>
      rw [List.length_cons] at hcount
      have hparse := parse_of_fits hservice (hfits s List.mem_cons_self) htext
      rw [serviceLoop, hparse]
      simp only
      rw [if_neg (by omega), ih (fun s' hs' => hfits s' (List.mem_cons_of_mem s hs')) (length_take_lt _) (by omega),
        keptText_take, keptText, List.length_cons]
      congr 3
      omega

/-- Of more services the thirteenth is the last one. -/
theorem serviceLoop_tooMany (h : List.Forall₂ IsService texts services)
    (hfits : ∀ s ∈ services.take (serviceListMax + 1 - count), s.Fits)
    (htext : text.length < parenCtlServiceSize) (hcount : count ≤ serviceListMax)
    (hmany : serviceListMax < count + services.length) :
    ∃ networkServiceList, serviceLoop count texts text text =
      some (some (serviceListMax + 1, networkServiceList)) := by
  induction h generalizing text count with
  | nil =>
      rw [List.length_nil] at hmany
      omega
  | @cons service s texts services hservice _ ih =>
      obtain ⟨k, hk⟩ : ∃ k, serviceListMax + 1 - count = k + 1 := ⟨serviceListMax - count, by omega⟩
      rw [List.length_cons] at hmany
      rw [hk, List.take_succ_cons] at hfits
      have hparse := parse_of_fits hservice (hfits s List.mem_cons_self) htext
      rw [serviceLoop, hparse]
      simp only
      by_cases hlast : count = serviceListMax
      · subst hlast
        rw [if_pos (by omega)]
        exact ⟨_, rfl⟩
      · rw [if_neg (by omega)]
        have hk' : serviceListMax + 1 - (count + 1) = k := by omega
        exact ih (fun s' hs' => hfits s' (List.mem_cons_of_mem s (hk' ▸ hs'))) (length_take_lt _) (by omega)
          (by omega)

/-- One of the first thirteen services that does not fit leaves its buffer. -/
theorem serviceLoop_not_fits (h : List.Forall₂ IsService texts services)
    (hlong : ∃ s ∈ services.take (serviceListMax + 1 - count), ¬ s.Fits)
    (htext : text.length < parenCtlServiceSize) (hcount : count ≤ serviceListMax) :
    serviceLoop count texts text text = none := by
  induction h generalizing text count with
  | nil => simp at hlong
  | @cons service s texts services hservice _ ih =>
      obtain ⟨k, hk⟩ : ∃ k, serviceListMax + 1 - count = k + 1 := ⟨serviceListMax - count, by omega⟩
      rw [hk, List.take_succ_cons] at hlong
      rw [serviceLoop]
      by_cases hs : s.Fits
      · have hrest : ∃ s' ∈ services.take k, ¬ s'.Fits := by
          obtain ⟨s', hs', hlong'⟩ := hlong
          rcases List.mem_cons.mp hs' with rfl | hs'
          · exact absurd hs hlong'
          · exact ⟨s', hs', hlong'⟩
        have hne : count ≠ serviceListMax := by
          rintro rfl
          obtain rfl : k = 0 := by omega
          obtain ⟨s', hs', -⟩ := hrest
          simp at hs'
        have hk' : serviceListMax + 1 - (count + 1) = k := by omega
        rw [parse_of_fits hservice hs htext]
        simp only
        rw [if_neg (by omega)]
        exact ih (hk'.symm ▸ hrest) (length_take_lt _) (by omega)
      · rw [parse_of_not_fits hservice hs]

theorem IsService.at_mem {service : List Char} {s : ParenService} (h : IsService service s) :
    '@' ∈ service := by
  obtain ⟨entries, rfl, -⟩ := h.text
  simp

/-- The texts of a joined list are its tokens. -/
theorem strtok_services (hne : texts ≠ []) (h : List.Forall₂ IsService texts services)
    (hslash : ∀ t ∈ texts, '/' ∉ t) : strtok '/' (['/'].intercalate texts) = texts := by
  have hsplit := List.splitOn_intercalate '/' hslash hne
  rw [strtok_eq_splitOn, hsplit]
  rw [hsplit]
  intro hmem
  obtain ⟨s, -, hs⟩ := exists_of_forall₂ h [] hmem
  exact absurd hs.at_mem List.not_mem_nil

/-- What becomes of a list of services is decided by the loop. -/
theorem parseServiceList_eq (parenCtlService : ParenCtlText) (hne : texts ≠ [])
    (h : List.Forall₂ IsService texts services) (hslash : ∀ t ∈ texts, '/' ∉ t) :
    parseServiceList parenCtlService (['/'].intercalate texts) =
      match serviceLoop 0 texts parenCtlService.val parenCtlService.val with
      | none => none
      | some none => some none
      | some (some (count, networkServiceList)) =>
          if count > serviceListMax ∨ count < 1 then some none else some (some networkServiceList) := by
  obtain ⟨first, rest, rfl⟩ := List.exists_cons_of_ne_nil hne
  obtain ⟨s, services, hfirst, -, rfl⟩ := List.forall₂_cons_left_iff.mp h
  have hat : '@' ∈ ['/'].intercalate (first :: rest) := by
    have hmiddle := intercalate_middle '/' [] first rest
    rw [List.nil_append] at hmiddle
    rw [hmiddle]
    simp [hfirst.at_mem]
  have hparsed : ¬ (['/'].intercalate (first :: rest) = [] ∨
      ['/'].intercalate (first :: rest) = "Empty".toList) := by
    rintro (heq | heq)
    · rw [heq] at hat
      exact absurd hat List.not_mem_nil
    · rw [heq] at hat
      exact absurd hat (by decide)
  rw [parseServiceList, if_neg hparsed, strtok_services hne h hslash]
  rfl

/-- The text of every service of a list is kept exactly if the ranges of the first thirteen fit, and, of at most
twelve, the converted texts are all parts of what is kept in the buffer. -/
theorem listRight_iff (parenCtlService : ParenCtlText) (hne : texts ≠ [])
    (h : List.Forall₂ IsService texts services) (hslash : ∀ t ∈ texts, '/' ∉ t) :
    ListRight parenCtlService texts services ↔
      (∀ s ∈ services.take (serviceListMax + 1), s.Fits) ∧
        (services.length ≤ serviceListMax → ∀ s ∈ services, s.converted <:+:
          (keptText parenCtlService.val services).take (parenCtlServiceSize - 1)) := by
  rw [ListRight, parseServiceList_eq parenCtlService hne h hslash]
  have htext := parenCtlService.property
  by_cases hfits : ∀ s ∈ services.take (serviceListMax + 1), s.Fits
  · by_cases hmany : services.length ≤ serviceListMax
    · have hall : ∀ s ∈ services, s.Fits := by
        rwa [List.take_of_length_le (by omega)] at hfits
      have hlen : 0 < services.length := by
        rw [← h.length_eq]
        exact List.length_pos_of_ne_nil hne
      rw [serviceLoop_of_fits h hall htext (by omega)]
      simp only
      rw [if_neg (by omega)]
      constructor
      · rintro ⟨out, hout, hlist⟩
        exact ⟨hfits, fun _ => hlist _ (Option.some.inj hout).symm⟩
      · rintro ⟨-, hlist⟩
        refine ⟨_, rfl, fun networkServiceList hout => ?_⟩
        rw [← Option.some.inj hout]
        exact hlist hmany
    · obtain ⟨networkServiceList, hloop⟩ := serviceLoop_tooMany h (by simpa using hfits) htext
        (Nat.zero_le _) (by omega)
      rw [hloop]
      simp only
      rw [if_pos (Or.inl (by omega))]
      apply iff_of_true
      · refine ⟨none, rfl, fun networkServiceList hout => ?_⟩
        cases hout
      · exact ⟨hfits, fun hle => absurd hle hmany⟩
  · have hlong : ∃ s ∈ services.take (serviceListMax + 1 - 0), ¬ s.Fits := by
      push Not at hfits
      exact hfits
    rw [serviceLoop_not_fits h hlong htext (Nat.zero_le _)]
    apply iff_of_false
    · rintro ⟨out, hout, -⟩
      cases hout
    · exact fun hright => hfits hright.1

/-- If the name of the last service is not numbered, the texts of all have to be parts of its own. -/
theorem listRight_last (parenCtlService : ParenCtlText) {front : List ParenService}
    {last : ParenService} (h : List.Forall₂ IsService texts (front ++ [last]))
    (hslash : ∀ t ∈ texts, '/' ∉ t) (hfits : ∀ s ∈ front ++ [last], s.Fits)
    (hmax : (front ++ [last]).length ≤ serviceListMax)
    (hlast : isNumbered last.serviceName = false) :
    ListRight parenCtlService texts (front ++ [last]) ↔
      ∀ s ∈ front, s.converted <:+: last.converted := by
  have hne : texts ≠ [] := by
    rintro rfl
    exact absurd (List.forall₂_nil_left_iff.mp h) (by simp)
  obtain ⟨text, -, htext⟩ := exists_of_forall₂ h.flip last List.mem_concat_self
  have hlt := ParenService.length_converted_lt htext (hfits last (by simp))
  rw [listRight_iff parenCtlService hne h hslash, keptText_concat _ _ hlast,
    List.take_of_length_le (by omega : last.converted.length ≤ parenCtlServiceSize - 1)]
  constructor
  · exact fun hright s hs => hright.2 hmax s (List.mem_append_left _ hs)
  · intro hfront
    refine ⟨fun s hs => hfits s (List.mem_of_mem_take hs), fun _ s hs => ?_⟩
    rcases List.mem_append.mp hs with hs | hs
    · exact hfront s hs
    · obtain rfl := List.mem_singleton.mp hs
      exact List.infix_rfl

/-! ## Both functions -/

/-- Services are parsed as they should be exactly if their entries are scanned as they should be, and of a list
of services the texts are all kept exactly if their ranges fit and each text is part of what is kept. -/
theorem parenService_iff (service : List Char) (parenCtlService : ParenCtlText) (hne : texts ≠ [])
    (h : List.Forall₂ IsService texts services) (hslash : ∀ t ∈ texts, '/' ∉ t) :
    (ParseRight service ↔ ScansRight service) ∧
    (ListRight parenCtlService texts services ↔
      (∀ s ∈ services.take (serviceListMax + 1), s.Fits) ∧
        (services.length ≤ serviceListMax → ∀ s ∈ services, s.converted <:+:
          (keptText parenCtlService.val services).take (parenCtlServiceSize - 1))) :=
  ⟨parseRight_iff service, listRight_iff parenCtlService hne h hslash⟩

/-- The service {lit}`http@TCP:80`. -/
def httpService : ParenService where
  serviceName := "http".toList
  protocol := "TCP".toList
  spans := [(80, none)]

theorem isService_http : IsService "http@TCP:80".toList httpService where
  text := ⟨["80".toList], by decide +kernel,
    .cons ⟨⟨by decide, List.all_eq_true.mp (by decide)⟩, by decide, by decide, by decide⟩ .nil⟩
  name := by decide
  nameLength := by decide
  protocol := by decide
  some := by decide
  atMostSix := by decide

/-- The buffer when it happens to be empty. -/
def emptyText : ParenCtlText :=
  ⟨[], by decide⟩

/-- A list with one service. -/
theorem parenService_http :
    (ParseRight "http@TCP:80".toList ↔ ScansRight "http@TCP:80".toList) ∧
    (ListRight emptyText ["http@TCP:80".toList] [httpService] ↔
      (∀ s ∈ [httpService].take (serviceListMax + 1), s.Fits) ∧
        ([httpService].length ≤ serviceListMax → ∀ s ∈ [httpService], s.converted <:+:
          (keptText emptyText.val [httpService]).take (parenCtlServiceSize - 1))) := by
  apply parenService_iff
  · simp
  · exact .cons isService_http .nil
  · decide

/-- A range with ten digits leaves its buffer; a text behind a port is ignored, and no port at all is accepted;
and of two services only the second one is kept. -/
theorem first_service_lost :
    parseParenService "a@TCP:10000:20000".toList [] parenCtlServiceSize = none ∧
      parseParenService "a@TCP:80x".toList [] parenCtlServiceSize =
        some (true, "1[a@TCP#80:-1".toList) ∧
      parseParenService "a@TCP:".toList [] parenCtlServiceSize = some (true, "1[a".toList) ∧
      parseServiceList emptyText "http@TCP:80/ssh@TCP:22".toList =
        some (some "1[ssh@TCP#22:-1".toList) := by
  decide +kernel

end FeDal
end ZyxelRouter
