import ZyxelRouter.Lib.SplitText
import ZyxelRouter.FeDal.PortMapping

/-!
# Addresses as texts

What {lit}`validateIPv4` accepts, and how {lit}`ip4Compare` orders it.  Both read the numbers of a text, one with
{lit}`atoi` and one with {lit}`sscanf`; a number that is too large for an {lit}`int` is cut.

Main results:

- Theorem {lit}`validateIPv4_iff`: four numbers, each in range after it has been cut.
- Theorem {lit}`validateIPv4_iff_isQuad`: when these are the numbers of a quad.
- Theorem {lit}`ip4Compare_accepted`: accepted texts that fit into the buffers are compared by their values,
  and others are written behind a buffer.
-/

namespace ZyxelRouter
namespace FeDal

open Lib

/-! ## Numbers and quads -/

/-- A decimal number up to a bound; leading zeros are allowed. -/
structure DecimalUpTo (bound : Nat) (text : List Char) : Prop where
  nonempty : text ≠ []
  digits : ∀ c ∈ text, c.isDigit = true
  le : digitsValue text ≤ bound

/-- Four decimal numbers up to 255, joined by dots. -/
def IsQuad (text : List Char) : Prop :=
  ∃ parts : List (List Char), parts.length = 4 ∧ text = ['.'].intercalate parts ∧
    ∀ p ∈ parts, DecimalUpTo 255 p

/-- Four numbers that are between 0 and 255 as {lit}`int`s. -/
structure ReadsAsQuad (text : List Char) : Prop where
  four : (text.splitOn '.').length = 4
  nonempty : ∀ p ∈ text.splitOn '.', p ≠ []
  digits : ∀ p ∈ text.splitOn '.', ∀ c ∈ p, c.isDigit = true
  le : ∀ p ∈ text.splitOn '.', digitsValue p % 2 ^ 32 ≤ 255

/-- A number of the text is too large, but in range after it has been cut to an {lit}`int`. -/
def CutNumber (text : List Char) : Prop :=
  ∃ p ∈ text.splitOn '.', 255 < digitsValue p

theorem dot_notMem_of_digits {p : List Char} (h : ∀ c ∈ p, c.isDigit = true) : '.' ∉ p := by
  intro hmem
  exact absurd (h '.' hmem) (by decide)

theorem atoiInt_digits {p : List Char} (hne : p ≠ []) (h : ∀ c ∈ p, c.isDigit = true) :
    atoiInt p = (digitsValue p : Int).bmod (2 ^ 32) := by
  rw [atoiInt, atoi_digits hne h]

/-- A number is in range as an {lit}`int` if it is so without its higher bits. -/
theorem bmod_inRange_iff {n : Nat} :
    (0 ≤ (n : Int).bmod (2 ^ 32) ∧ (n : Int).bmod (2 ^ 32) ≤ 255) ↔ n % 2 ^ 32 ≤ 255 := by
  rw [Int.bmod_def]
  split <;> omega

theorem bmod_of_inRange {n : Nat} (h : n % 2 ^ 32 ≤ 255) :
    (n : Int).bmod (2 ^ 32) = (n % 2 ^ 32 : Nat) := by
  rw [Int.bmod_def]
  split <;> omega

/-- What {lit}`validateIPv4` accepts. -/
theorem validateIPv4_iff {text : List Char} : validateIPv4 text = true ↔ ReadsAsQuad text := by
  have hcount := length_splitOn '.' text
  rw [validateIPv4]
  simp only [Bool.and_eq_true, List.all_eq_true, decide_eq_true_eq, Bool.or_eq_true]
  constructor
  · rintro ⟨⟨hchars, hdots⟩, hparts⟩
    have hdigits : ∀ p ∈ text.splitOn '.', ∀ c ∈ p, c.isDigit = true := by
      intro p hp c hc
      have hdot : c ≠ '.' := fun heq => notMem_of_mem_splitOn hp (heq ▸ hc)
      rcases hchars c ((mem_iff_splitOn hdot).mpr ⟨p, hp, hc⟩) with hdigit | heq
      · exact hdigit
      · exact absurd heq hdot
    refine ⟨by omega, fun p hp => (hparts p hp).1.1, hdigits, ?_⟩
    intro p hp
    obtain ⟨⟨hne, hlo⟩, hhi⟩ := hparts p hp
    rw [atoiInt_digits hne (hdigits p hp)] at hlo hhi
    exact bmod_inRange_iff.mp ⟨hlo, hhi⟩
  · intro h
    have hfour := h.four
    refine ⟨⟨?_, by omega⟩, ?_⟩
    · intro c hc
      by_cases hdot : c = '.'
      · exact Or.inr hdot
      · obtain ⟨p, hp, hcp⟩ := (mem_iff_splitOn hdot).mp hc
        exact Or.inl (h.digits p hp c hcp)
    · intro p hp
      have hrange := bmod_inRange_iff.mpr (h.le p hp)
      rw [atoiInt_digits (h.nonempty p hp) (h.digits p hp)]
      exact ⟨⟨h.nonempty p hp, hrange.1⟩, hrange.2⟩

theorem isQuad_iff {text : List Char} :
    IsQuad text ↔ (text.splitOn '.').length = 4 ∧ ∀ p ∈ text.splitOn '.', DecimalUpTo 255 p := by
  constructor
  · rintro ⟨parts, hlen, htext, hparts⟩
    have hsplit : text.splitOn '.' = parts :=
      splitOn_eq_iff.mpr ⟨by rintro rfl; exact absurd hlen (by decide), htext,
        fun p hp => dot_notMem_of_digits (hparts p hp).digits⟩
    rw [hsplit]
    exact ⟨hlen, hparts⟩
  · rintro ⟨hlen, hparts⟩
    exact ⟨text.splitOn '.', hlen, (List.intercalate_splitOn '.').symm, hparts⟩

theorem IsQuad.readsAsQuad {text : List Char} (h : IsQuad text) : ReadsAsQuad text := by
  obtain ⟨hlen, hparts⟩ := isQuad_iff.mp h
  refine ⟨hlen, fun p hp => (hparts p hp).nonempty, fun p hp => (hparts p hp).digits, ?_⟩
  intro p hp
  have hle := (hparts p hp).le
  omega

theorem ReadsAsQuad.isQuad_iff {text : List Char} (h : ReadsAsQuad text) :
    IsQuad text ↔ ¬ CutNumber text := by
  rw [FeDal.isQuad_iff]
  constructor
  · rintro ⟨-, hparts⟩ ⟨p, hp, hgt⟩
    have hle := (hparts p hp).le
    omega
  · intro hcut
    refine ⟨h.four, fun p hp => ⟨h.nonempty p hp, h.digits p hp, ?_⟩⟩
    by_contra hgt
    exact hcut ⟨p, hp, by omega⟩

/-- The validation accepts the quads exactly if no number has been cut into range. -/
theorem validateIPv4_iff_isQuad {text : List Char} :
    (validateIPv4 text = true ↔ IsQuad text) ↔ ¬ (ReadsAsQuad text ∧ CutNumber text) := by
  rw [validateIPv4_iff]
  constructor
  · rintro hiff ⟨hreads, hcut⟩
    exact hreads.isQuad_iff.mp (hiff.mp hreads) hcut
  · intro hnot
    constructor
    · intro hreads
      exact hreads.isQuad_iff.mpr (fun hcut => hnot ⟨hreads, hcut⟩)
    · exact IsQuad.readsAsQuad

/-! ## The value of an address -/

/-- The numbers of a text, cut to {lit}`int`s. -/
def quadNumbers (text : List Char) : List Nat :=
  (text.splitOn '.').map (fun p => digitsValue p % 2 ^ 32)

/-- The 32 bits of an address. -/
def quadValue (text : List Char) : Nat :=
  (quadNumbers text).foldl (fun value n => value * 256 + n) 0

/-- The four numbers of an accepted text. -/
theorem ReadsAsQuad.numbers {text : List Char} (h : ReadsAsQuad text) :
    ∃ p₁ p₂ p₃ p₄, text = p₁ ++ '.' :: (p₂ ++ '.' :: (p₃ ++ '.' :: p₄)) ∧
      text.splitOn '.' = [p₁, p₂, p₃, p₄] := by
  have hfour := h.four
  match hsplit : text.splitOn '.', hfour with
  | [p₁, p₂, p₃, p₄], _ =>
      refine ⟨p₁, p₂, p₃, p₄, ?_, rfl⟩
      have htext := (List.intercalate_splitOn '.' : ['.'].intercalate (text.splitOn '.') = text)
      rw [hsplit] at htext
      rw [← htext]
      simp [List.intercalate]

/-! ## Comparing addresses -/

/-- One {lit}`%d` of {lit}`sscanf`: the number, and what is behind it. -/
def scanInt (text : List Char) : Option (Int × List Char) :=
  let body := text.dropWhile isSpace
  let sign : Int := if body.head? = some '-' then -1 else 1
  let digits := if body.head? = some '-' ∨ body.head? = some '+' then body.tail else body
  if digits.takeWhile Char.isDigit = [] then none
  else some ((sign * digitsValue (digits.takeWhile Char.isDigit)).bmod (2 ^ 32),
    digits.dropWhile Char.isDigit)

/-- {lit}`sscanf` with {lit}`%d` several times and a character between them: the numbers that are stored. -/
def scanInts (sep : Char) : Nat → List Char → List Int
  | 0, _ => []
  | count + 1, text =>
      match scanInt text with
      | none => []
      | some (value, []) => [value]
      | some (value, c :: rest) => value :: (if c = sep then scanInts sep count rest else [])

/-- The comparisons of {lit}`ip4Compare`, number by number. -/
def compareNumbers : List (Int × Int) → Int
  | [] => 0
  | (a, b) :: rest => if a < b then 1 else if a > b then 2 else compareNumbers rest

/-- The variables {lit}`ip11` to {lit}`ip14` behind {lit}`sscanf`. -/
def scanAddress (text : List Char) : List Int :=
  (List.range 4).map ((scanInts '.' 4 text).getD · 0)

/-- The size of {lit}`ipaddr1` and {lit}`ipaddr2`. -/
def ipaddrSize : Nat := 20

/-- {lit}`ip4Compare`; {lit}`none` if a text is copied over the end of its buffer. -/
def ip4Compare (ip1 ip2 : List Char) : Option Int :=
  if ip1.length < ipaddrSize ∧ ip2.length < ipaddrSize then
    some (compareNumbers ((scanAddress ip1).zip (scanAddress ip2)))
  else none

theorem scanInt_digits {p rest : List Char} (hne : p ≠ []) (h : ∀ c ∈ p, c.isDigit = true)
    (hrest : ∀ c ∈ rest.head?, c.isDigit = false) :
    scanInt (p ++ rest) = some ((digitsValue p : Int).bmod (2 ^ 32), rest) := by
  obtain ⟨c, cs, rfl⟩ := List.exists_cons_of_ne_nil hne
  obtain ⟨hspace, hminus, hplus⟩ := not_isSpace_of_isDigit (h c List.mem_cons_self)
  have hdrop : ((c :: cs) ++ rest).dropWhile isSpace = (c :: cs) ++ rest :=
    List.dropWhile_cons_of_neg (by simp [hspace])
  have hstop : rest.takeWhile Char.isDigit = [] ∧ rest.dropWhile Char.isDigit = rest := by
    cases rest with
    | nil => exact ⟨rfl, rfl⟩
    | cons d rest =>
        have hd : d.isDigit = false := hrest d rfl
        simp [hd]
  have htake : ((c :: cs) ++ rest).takeWhile Char.isDigit = c :: cs := by
    rw [List.takeWhile_append_of_pos h, hstop.1, List.append_nil]
  have hend : ((c :: cs) ++ rest).dropWhile Char.isDigit = rest := by
    rw [List.dropWhile_append_of_pos h, hstop.2]
  have hhead : ((c :: cs) ++ rest).head? = some c := rfl
  rw [scanInt, hdrop]
  simp only [hhead, Option.some.injEq, hminus, hplus, or_self, if_false, htake, hend,
    reduceCtorEq, one_mul]

/-- {lit}`sscanf` of digits in front of a separator. -/
theorem scanInts_digits_cons {sep : Char} (hsep : sep.isDigit = false) {p rest : List Char}
    (hne : p ≠ []) (h : ∀ c ∈ p, c.isDigit = true) (count : Nat) :
    scanInts sep (count + 1) (p ++ sep :: rest) =
      (digitsValue p : Int).bmod (2 ^ 32) :: scanInts sep count rest := by
  have hscan : scanInt (p ++ sep :: rest) =
      some ((digitsValue p : Int).bmod (2 ^ 32), sep :: rest) :=
    scanInt_digits hne h (by simpa using hsep)
  rw [scanInts, hscan]
  simp

theorem scanInts_digits_end {sep : Char} {p : List Char} (hne : p ≠ [])
    (h : ∀ c ∈ p, c.isDigit = true) (count : Nat) :
    scanInts sep (count + 1) p = [(digitsValue p : Int).bmod (2 ^ 32)] := by
  have hscan : scanInt (p ++ []) = some ((digitsValue p : Int).bmod (2 ^ 32), []) :=
    scanInt_digits hne h (by simp)
  rw [List.append_nil] at hscan
  rw [scanInts, hscan]

/-- {lit}`sscanf` finds the numbers of an accepted text. -/
theorem scanAddress_accepted {text : List Char} (h : ReadsAsQuad text) :
    scanAddress text = (quadNumbers text).map Int.ofNat := by
  obtain ⟨p₁, p₂, p₃, p₄, htext, hsplit⟩ := h.numbers
  have hmem : ∀ p ∈ [p₁, p₂, p₃, p₄], p ≠ [] ∧ (∀ c ∈ p, c.isDigit = true) ∧
      (digitsValue p : Int).bmod (2 ^ 32) = (digitsValue p % 2 ^ 32 : Nat) := by
    intro p hp
    rw [← hsplit] at hp
    exact ⟨h.nonempty p hp, h.digits p hp, bmod_of_inRange (h.le p hp)⟩
  obtain ⟨hne₁, hd₁, hv₁⟩ := hmem p₁ (by simp)
  obtain ⟨hne₂, hd₂, hv₂⟩ := hmem p₂ (by simp)
  obtain ⟨hne₃, hd₃, hv₃⟩ := hmem p₃ (by simp)
  obtain ⟨hne₄, hd₄, hv₄⟩ := hmem p₄ (by simp)
  have hscan : scanInts '.' 4 text =
      [p₁, p₂, p₃, p₄].map (fun p => ((digitsValue p % 2 ^ 32 : Nat) : Int)) := by
    rw [htext, scanInts_digits_cons (by decide) hne₁ hd₁, scanInts_digits_cons (by decide) hne₂ hd₂,
      scanInts_digits_cons (by decide) hne₃ hd₃, scanInts_digits_end hne₄ hd₄, hv₁, hv₂, hv₃, hv₄]
    rfl
  rw [scanAddress, hscan, quadNumbers, hsplit]
  rfl

/-- The order of two numbers as {lit}`ip4Compare` gives it. -/
def orderCode (a b : Nat) : Int :=
  if a < b then 1 else if b < a then 2 else 0

/-- What follows a smaller value cannot make it larger. -/
theorem foldl_lt :
    ∀ {a b : List Nat} {va vb : Nat}, (∀ n ∈ a, n ≤ 255) → a.length = b.length → va < vb →
      a.foldl (fun value n => value * 256 + n) va < b.foldl (fun value n => value * 256 + n) vb := by
  intro a
  induction a with
  | nil =>
      intro b va vb _ hlen hlt
      obtain rfl : b = [] := List.length_eq_zero_iff.mp hlen.symm
      exact hlt
  | cons x a ih =>
      intro b va vb ha hlen hlt
      obtain ⟨y, b, rfl⟩ := List.exists_cons_of_length_eq_add_one hlen.symm
      have hx := ha x List.mem_cons_self
      rw [List.foldl_cons, List.foldl_cons]
      exact ih (fun n hn => ha n (List.mem_cons_of_mem x hn)) (by simpa using hlen) (by omega)

/-- Numbers that are less than 256 are compared like the values they make up. -/
theorem compareNumbers_eq :
    ∀ {a b : List Nat} (value : Nat), (∀ n ∈ a, n ≤ 255) → (∀ n ∈ b, n ≤ 255) →
      a.length = b.length →
      compareNumbers ((a.map Int.ofNat).zip (b.map Int.ofNat)) =
        orderCode (a.foldl (fun value n => value * 256 + n) value)
          (b.foldl (fun value n => value * 256 + n) value) := by
  intro a
  induction a with
  | nil =>
      intro b value _ _ hlen
      obtain rfl : b = [] := List.length_eq_zero_iff.mp hlen.symm
      simp [compareNumbers, orderCode]
  | cons x a ih =>
      intro b value ha hb hlen
      obtain ⟨y, b, rfl⟩ := List.exists_cons_of_length_eq_add_one hlen.symm
      have ha' := fun n hn => ha n (List.mem_cons_of_mem x hn)
      have hb' := fun n hn => hb n (List.mem_cons_of_mem y hn)
      have hlen' : a.length = b.length := by simpa using hlen
      rw [List.map_cons, List.map_cons, List.zip_cons_cons, compareNumbers, List.foldl_cons,
        List.foldl_cons]
      simp only [Int.ofNat_eq_natCast, Int.ofNat_lt, gt_iff_lt]
      rcases Nat.lt_trichotomy x y with hlt | rfl | hgt
      · have hvalues := foldl_lt ha' hlen' (show value * 256 + x < value * 256 + y by omega)
        rw [if_pos hlt, orderCode, if_pos hvalues]
      · rw [if_neg (Nat.lt_irrefl x), if_neg (Nat.lt_irrefl x)]
        exact ih (value * 256 + x) ha' hb' hlen'
      · have hvalues := foldl_lt hb' hlen'.symm (show value * 256 + y < value * 256 + x by omega)
        rw [if_neg (by omega), if_pos hgt, orderCode, if_neg (by omega), if_pos hvalues]

/-- Accepted texts that fit into the buffers are compared by their values; the others are written over
the end of a buffer. -/
theorem ip4Compare_accepted {ip1 ip2 : List Char} (h1 : validateIPv4 ip1 = true)
    (h2 : validateIPv4 ip2 = true) :
    ip4Compare ip1 ip2 =
      if ip1.length < ipaddrSize ∧ ip2.length < ipaddrSize then
        some (orderCode (quadValue ip1) (quadValue ip2))
      else none := by
  have hreads1 := validateIPv4_iff.mp h1
  have hreads2 := validateIPv4_iff.mp h2
  have hbound : ∀ {text : List Char}, ReadsAsQuad text → ∀ n ∈ quadNumbers text, n ≤ 255 := by
    intro text hreads n hn
    obtain ⟨p, hp, rfl⟩ := List.mem_map.mp hn
    exact hreads.le p hp
  have hlen : (quadNumbers ip1).length = (quadNumbers ip2).length := by
    rw [quadNumbers, quadNumbers, List.length_map, List.length_map, hreads1.four, hreads2.four]
  rw [ip4Compare, scanAddress_accepted hreads1, scanAddress_accepted hreads2,
    compareNumbers_eq 0 (hbound hreads1) (hbound hreads2) hlen]
  rfl

end FeDal
end ZyxelRouter
