import ZyxelRouter.Lib.Decimal
import ZyxelRouter.ZyUtil.CsvTerms

/-!
# The list of the active default gateways

{lit}`activeDefaultGt_Add` and {lit}`activeDefaultGt_Strip` of {lit}`wanDev_api.c`, and
{lit}`csvStringStripTerm` of {lit}`zcfg_fe_tr98.c`.  All three look for the name of an interface as a text, and
the names of other interfaces may begin with it.

Main results:

- Theorem {lit}`infix_ipIface_iff`: the name of an interface is found only at the beginning of another one.
- Theorem {lit}`strip_add`: what was appended is stripped again.
- Theorem {lit}`gatewaysRight_iff`: the functions are right if no name in front of the one that is asked for
  begins with it.
-/

namespace ZyxelRouter
namespace FeTr98

open Lib Zos ZyUtil

/-! ## The functions -/

/-- {lit}`activeDefaultGt_Strip`; the allocation succeeds. -/
def activeDefaultGtStrip (activeDefaultGt ipIface : List Char) : Option (List Char) :=
  if activeDefaultGt = [] then none
  else
    match Substr.strstr ipIface activeDefaultGt with
    | none => none
    | some (front, str2) =>
        if front = [] then
          match str2 with
          | [] => some []
          | _ :: str2 => some str2
        else
          let newActiveDefaultGt := zosStrncpy activeDefaultGt front.length
          if str2 ≠ [] then some (newActiveDefaultGt ++ str2) else some newActiveDefaultGt

/-- {lit}`csvStringStripTerm`, the same code. -/
def csvStringStripTerm (csv term : List Char) : Option (List Char) :=
  activeDefaultGtStrip csv term

/-- {lit}`activeDefaultGt_Add`. -/
def activeDefaultGtAdd (activeDefaultGt ipIface : List Char) : Option (List Char) :=
  if activeDefaultGt = [] then none
  else
    match Substr.strstr ipIface activeDefaultGt with
    | some _ => none
    | none => some (activeDefaultGt ++ ',' :: ipIface)

/-! ## Names of interfaces -/

/-- {lit}`IP.Interface.n`. -/
def ipIface (n : Nat) : List Char :=
  "IP.Interface.".toList ++ decimal n

/-- The name of an interface. -/
def IsIpIface (name : List Char) : Prop :=
  ∃ n, name = ipIface n

variable {t u csv csv' : List Char} {names : List (List Char)}

theorem ipIface_eq (n : Nat) : ipIface n = 'I' :: 'P' :: (".Interface.".toList ++ decimal n) :=
  rfl

/-- A letter stands nowhere in a name but in its fixed part. -/
theorem notMem_ipIface_tail {c : Char} (hfixed : c ∉ ".Interface.".toList)
    (hdigit : c.isDigit = false) (n : Nat) : c ∉ ".Interface.".toList ++ decimal n := by
  rw [List.mem_append, not_or]
  constructor
  · exact hfixed
  · intro hmem
    rw [isDigit_of_mem_decimal hmem] at hdigit
    cases hdigit

theorem IsIpIface.isTerm (h : IsIpIface t) : IsTerm t := by
  obtain ⟨n, rfl⟩ := h
  rw [ipIface_eq]
  have hcomma : ',' ∉ 'I' :: 'P' :: (".Interface.".toList ++ decimal n) := by
    have htail := notMem_ipIface_tail (c := ',') (by decide) (by decide) n
    rw [List.mem_cons, List.mem_cons, not_or, not_or]
    exact ⟨by decide, by decide, htail⟩
  exact ⟨List.cons_ne_nil _ _, hcomma⟩

/-- If the second letter of a word stands in a text only as its second letter, the word stands only at the
beginning. -/
theorem prefix_of_infix {c d : Char} {s s' : List Char} (hd : d ∉ s')
    (h : c :: d :: s <:+: c :: d :: s') : c :: d :: s <+: c :: d :: s' := by
  obtain ⟨p, q, heq⟩ := h
  have hsplit : (p ++ [c]) ++ d :: (s ++ q) = [c] ++ d :: s' := by
    rw [List.singleton_append, ← heq]
    simp
  have hp : p = [] := by
    rcases List.append_eq_append_iff.mp hsplit with ⟨more, hmore, -⟩ | ⟨more, hmore, hrest⟩
    · have hlen := congrArg List.length hmore
      simp only [List.length_append, List.length_singleton] at hlen
      exact List.eq_nil_of_length_eq_zero (by omega)
    · cases more with
      | nil => simpa using hmore
      | cons e more =>
          rw [List.cons_append] at hrest
          have hmem : d ∈ s' := by
            rw [(List.cons.inj hrest).2]
            simp
          exact absurd hmem hd
  subst hp
  exact ⟨q, heq⟩

/-- The name of an interface is found only at the beginning of another one. -/
theorem infix_ipIface_iff (ht : IsIpIface t) (hu : IsIpIface u) : t <:+: u ↔ t <+: u := by
  obtain ⟨m, rfl⟩ := ht
  obtain ⟨n, rfl⟩ := hu
  constructor
  · intro h
    rw [ipIface_eq, ipIface_eq] at h ⊢
    exact prefix_of_infix (notMem_ipIface_tail (by decide) (by decide) n) h
  · exact List.IsPrefix.isInfix

/-! ## Stripping -/

/-- The buffers are large enough, so nothing is cut off. -/
theorem activeDefaultGtStrip_eq (ht : IsTerm t) (csv : List Char) :
    activeDefaultGtStrip csv t = zyUtilCsvStringStripTerm csv t := by
  cases hfound : Substr.strstr t csv with
  | none => simp [activeDefaultGtStrip, zyUtilCsvStringStripTerm, hfound]
  | some found =>
      obtain ⟨front, str2⟩ := found
      have hcsv := Substr.eq_of_strstr hfound
      have hne : csv ≠ [] := by
        rw [hcsv]
        simp [ht.ne]
      by_cases hfront : front = []
      · subst hfront
        rw [stripTerm_front ht hfound, activeDefaultGtStrip, if_neg hne, hfound]
        cases str2 with
        | nil => rfl
        | cons c str2 => rfl
      · have hpos := List.length_pos_of_ne_nil hfront
        have hnew : zosStrncpy csv front.length = front.dropLast := by
          rw [zosStrncpy, hcsv, List.append_assoc, List.take_append_of_le_length (by omega),
            List.dropLast_eq_take]
        rw [stripTerm_behind ht hfront hfound, activeDefaultGtStrip, if_neg hne, hfound]
        simp only [if_neg hfront, hnew]
        cases str2 with
        | nil => simp
        | cons c str2 => simp

/-- What is stripped is shorter than the list, so that it fits into the buffer. -/
theorem length_activeDefaultGtStrip_lt (ht : IsTerm t)
    (h : activeDefaultGtStrip csv t = some csv') : csv'.length < csv.length := by
  have htpos := List.length_pos_of_ne_nil ht.ne
  rw [activeDefaultGtStrip_eq ht] at h
  cases hfound : Substr.strstr t csv with
  | none => simp [zyUtilCsvStringStripTerm, hfound] at h
  | some found =>
      obtain ⟨front, str2⟩ := found
      have hlen := congrArg List.length (Substr.eq_of_strstr hfound)
      simp only [List.length_append] at hlen
      by_cases hfront : front = []
      · subst hfront
        rw [stripTerm_front ht hfound] at h
        rw [← Option.some.inj h, List.length_tail]
        omega
      · rw [stripTerm_behind ht hfront hfound] at h
        rw [← Option.some.inj h, List.length_append, List.length_dropLast]
        omega

/-- A name is stripped from a list of different names exactly if no name in front of it begins with it. -/
theorem strip_iff (hnames : ∀ u ∈ names, IsIpIface u) (hnodup : names.Nodup) (ht : IsIpIface t) :
    activeDefaultGtStrip (csvOf names) t = stripAll t names ↔
      ∀ u ∈ names.takeWhile (· ≠ t), ¬ t <+: u := by
  have hfirst : stripAll t names = stripFirst t names := by
    have herase : names.erase t = names.filter (· ≠ t) := by
      rw [hnodup.erase_eq_filter]
      apply List.filter_congr
      intro u _
      by_cases hut : u = t
      · simp [hut]
      · simp [hut]
    rw [stripAll, stripFirst, herase]
  rw [activeDefaultGtStrip_eq ht.isTerm, hfirst,
    stripTerm_correct_iff (fun u hu => (hnames u hu).isTerm) ht.isTerm]
  apply forall₂_congr
  intro u hu
  rw [infix_ipIface_iff ht (hnames u (List.takeWhile_subset _ hu))]

/-! ## Appending -/

attribute [local instance] lawfulBEq_text in
/-- A name is appended to a list that does not have it. -/
def appendNew (t : List Char) (names : List (List Char)) : Option (List Char) :=
  if t ∈ names then none else some (csvOf (names ++ [t]))

/-- A name is appended or refused as it should exactly if the list has it, or none that begins with it. -/
theorem add_iff (hne : names ≠ []) (hnames : ∀ u ∈ names, IsIpIface u) (ht : IsIpIface t) :
    activeDefaultGtAdd (csvOf names) t = appendNew t names ↔
      t ∈ names ∨ ∀ u ∈ names, ¬ t <+: u := by
  have hcsv : csvOf names ≠ [] := csvOf_ne_nil hne fun u hu => (hnames u hu).isTerm
  rw [activeDefaultGtAdd, if_neg hcsv, appendNew]
  have hpart : ∀ u ∈ names, (t <:+: u ↔ t <+: u) := fun u hu => infix_ipIface_iff ht (hnames u hu)
  rcases first_part t names with hno | ⟨before, u, behind, heq, hbefore, hu⟩
  · have hnot : t ∉ names := fun hmem => hno t hmem List.infix_rfl
    rw [strstr_csvOf_eq_none ht.isTerm hno, if_neg hnot, csvOf_concat hne]
    apply iff_of_true rfl
    right
    intro u hu hfront
    exact hno u hu ((hpart u hu).mpr hfront)
  · obtain ⟨⟨x, y⟩, hfound⟩ : ∃ found, Substr.strstr t u = some found := by
      apply Option.ne_none_iff_exists'.mp
      intro hnone
      exact Substr.strstr_eq_none_iff.mp hnone hu
    rw [heq, strstr_csvOf ht.isTerm hbefore hfound, ← heq]
    by_cases hmem : t ∈ names
    · rw [if_pos hmem]
      exact iff_of_true rfl (Or.inl hmem)
    · rw [if_neg hmem]
      apply iff_of_false
      · simp
      · rintro (h | h)
        · exact hmem h
        · have hin : u ∈ names := by simp [heq]
          exact h u hin ((hpart u hin).mp hu)

/-- What was appended is stripped again. -/
theorem strip_add (ht : IsTerm t) (h : activeDefaultGtAdd csv t = some csv') :
    activeDefaultGtStrip csv' t = some csv := by
  rw [activeDefaultGtAdd] at h
  split at h
  · cases h
  · split at h
    · cases h
    · rename_i hnone
      have hself : Substr.strstr t t = some ([], []) :=
        Substr.strstr_eq_some_iff.mpr ⟨by simp, fun _ _ _ => Nat.zero_le _⟩
      have hfound : Substr.strstr t (csv ++ ',' :: t) = some (csv ++ [','], []) := by
        rw [Substr.strstr_separated ht.ne ht.comma (Substr.strstr_eq_none_iff.mp hnone), hself]
        rfl
      rw [← Option.some.inj h, activeDefaultGtStrip_eq ht, stripTerm_behind ht (by simp) hfound]
      simp

/-! ## All three -/

/-- The functions do for a list and a name what they are for. -/
structure GatewaysRight (names : List (List Char)) (t : List Char) : Prop where
  add : activeDefaultGtAdd (csvOf names) t = appendNew t names
  strip : activeDefaultGtStrip (csvOf names) t = stripAll t names
  copy : csvStringStripTerm (csvOf names) t = stripAll t names
  undo : ∀ csv, activeDefaultGtAdd (csvOf names) t = some csv →
    activeDefaultGtStrip csv t = some (csvOf names)

/-- The functions are right exactly if no name in front of the one that is asked for begins with it, or no
name at all if the list does not have it. -/
theorem gatewaysRight_iff (hne : names ≠ []) (hnames : ∀ u ∈ names, IsIpIface u)
    (hnodup : names.Nodup) (ht : IsIpIface t) :
    GatewaysRight names t ↔ ∀ u ∈ names.takeWhile (· ≠ t), ¬ t <+: u := by
  have hstrip := strip_iff hnames hnodup ht
  constructor
  · intro h
    exact hstrip.mp h.strip
  · intro h
    have hadd : t ∈ names ∨ ∀ u ∈ names, ¬ t <+: u := by
      by_cases hmem : t ∈ names
      · exact Or.inl hmem
      · right
        have hall : names.takeWhile (· ≠ t) = names := by
          rw [List.takeWhile_eq_self_iff]
          intro u hu
          have hut : u ≠ t := fun heq => hmem (heq ▸ hu)
          simpa using hut
        rwa [hall] at h
    exact {
      add := (add_iff hne hnames ht).mpr hadd
      strip := hstrip.mpr h
      copy := hstrip.mpr h
      undo := fun _ => strip_add ht.isTerm }

/-- The interfaces 1 and 12. -/
theorem gatewaysRight_one :
    GatewaysRight [ipIface 1, ipIface 12] (ipIface 1) ↔
      ∀ u ∈ [ipIface 1, ipIface 12].takeWhile (· ≠ ipIface 1), ¬ ipIface 1 <+: u := by
  apply gatewaysRight_iff
  · simp
  · intro u hu
    simp only [List.mem_cons, List.not_mem_nil, or_false] at hu
    rcases hu with rfl | rfl
    · exact ⟨1, rfl⟩
    · exact ⟨12, rfl⟩
  · decide +kernel
  · exact ⟨1, rfl⟩

/-- Interface 1 is taken for an element of a list that has interface 12: it is not appended, and stripping
it leaves nothing, or interface 22 of the interfaces 2 and 12. -/
theorem interface_one_found :
    activeDefaultGtAdd (csvOf [ipIface 12]) (ipIface 1) = none ∧
      appendNew (ipIface 1) [ipIface 12] = some "IP.Interface.12,IP.Interface.1".toList ∧
      activeDefaultGtStrip (csvOf [ipIface 12]) (ipIface 1) = some [] ∧
      activeDefaultGtStrip (csvOf [ipIface 2, ipIface 12]) (ipIface 1) =
        some "IP.Interface.22".toList ∧
      stripAll (ipIface 1) [ipIface 12] = none ∧
      stripAll (ipIface 1) [ipIface 2, ipIface 12] = none := by
  decide +kernel

end FeTr98
end ZyxelRouter
