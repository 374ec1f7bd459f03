import ZyxelRouter.Lib.ShellWords

/-!
# Backslashes for the shell

{lit}`zyUtilBackslashInsert` and {lit}`zyUtilBackslashInForEcho` of {lit}`common.c` put a backslash
in front of some characters of a text, for a shell that reads the text unquoted or inside double
quotes.  Both build the new text in a buffer of 513 bytes.

Main results:

- Theorem {lit}`insertBackslashes_eq`: up to 256 bytes always fit.
- Theorem {lit}`backslashes_read_back_iff`: the shell reads the text back unless it is empty or has a
  newline, which a backslash in front of it removes.
-/

namespace ZyxelRouter
namespace ZyUtil

open Lib

/-! ## The functions -/

/-- {lit}`sizeof(tmpStr)`. -/
def tmpStrSize : Nat := 513

/-- Store the next character in {lit}`tmpStr`, unless this is outside of it. -/
def putTmp (tmpStr : List UInt8) (c : UInt8) : Option (List UInt8) :=
  if tmpStr.length < tmpStrSize then some (tmpStr ++ [c]) else none

/-- The loop of both functions, and the terminator that has to follow: {lit}`sym` tells which
characters get a backslash. -/
def insertBackslashes (sym : UInt8 → Bool) : List UInt8 → List UInt8 → Option (List UInt8)
  | tmpStr, [] => if tmpStr.length < tmpStrSize then some tmpStr else none
  | tmpStr, c :: str => do
      let tmpStr ← if sym c then putTmp tmpStr 0x5c else some tmpStr
      let tmpStr ← putTmp tmpStr c
      insertBackslashes sym tmpStr str

/-- A character other than a digit or a letter. -/
def isSymbol (c : UInt8) : Bool :=
  !((48 ≤ c && c ≤ 57) || (65 ≤ c && c ≤ 90) || (97 ≤ c && c ≤ 122))

/-- A double quote, a dollar sign, a backslash or a backquote. -/
def isEchoSymbol (c : UInt8) : Bool :=
  c == 34 || c == 36 || c == 92 || c == 96

/-- {lit}`zyUtilBackslashInsert`: the new text, unless {lit}`tmpStr` overflows. -/
def zyUtilBackslashInsert (str : List UInt8) : Option (List UInt8) :=
  insertBackslashes isSymbol [] str

/-- {lit}`zyUtilBackslashInForEcho`. -/
def zyUtilBackslashInForEcho (str : List UInt8) : Option (List UInt8) :=
  insertBackslashes isEchoSymbol [] str

/-! ## The texts they build -/

/-- What stands for a character in the new text. -/
def escaped (sym : UInt8 → Bool) (c : UInt8) : List UInt8 :=
  if sym c then [Shell.backslash, c] else [c]

theorem length_escaped_le (sym : UInt8 → Bool) (c : UInt8) : (escaped sym c).length ≤ 2 := by
  unfold escaped
  split
  · exact Nat.le_refl 2
  · exact Nat.le_succ 1

theorem length_flatMap_escaped_le (sym : UInt8 → Bool) (str : List UInt8) :
    (str.flatMap (escaped sym)).length ≤ 2 * str.length := by
  induction str with
  | nil => simp
  | cons c str ih =>
      have hc := length_escaped_le sym c
      rw [List.flatMap_cons, List.length_append, List.length_cons]
      omega

theorem putTmp_of_lt {tmpStr : List UInt8} (c : UInt8) (h : tmpStr.length < tmpStrSize) :
    putTmp tmpStr c = some (tmpStr ++ [c]) :=
  if_pos h

/-- As long as the new text fits, the loop appends it. -/
theorem insertBackslashes_append (sym : UInt8 → Bool) {tmpStr str : List UInt8}
    (hfits : (tmpStr ++ str.flatMap (escaped sym)).length < tmpStrSize) :
    insertBackslashes sym tmpStr str = some (tmpStr ++ str.flatMap (escaped sym)) := by
  induction str generalizing tmpStr with
  | nil =>
      rw [List.flatMap_nil, List.append_nil] at hfits ⊢
      exact if_pos hfits
  | cons c str ih =>
      rw [List.flatMap_cons, ← List.append_assoc] at hfits ⊢
      have hcons : (tmpStr ++ escaped sym c).length < tmpStrSize := by
        rw [List.length_append] at hfits
        omega
      rw [← ih hfits, insertBackslashes]
      unfold escaped at hcons ⊢
      cases hsym : sym c with
      | true =>
          rw [hsym, if_pos rfl, List.length_append] at hcons
          have hslash : tmpStr.length < tmpStrSize := by omega
          have hchar : (tmpStr ++ [0x5c]).length < tmpStrSize := by
            simp only [List.length_append, List.length_cons, List.length_nil] at hcons ⊢
            omega
          simp [putTmp_of_lt _ hslash, putTmp_of_lt _ hchar, Shell.backslash]
      | false =>
          rw [hsym, if_neg (by decide), List.length_append] at hcons
          have hchar : tmpStr.length < tmpStrSize := by omega
          simp [putTmp_of_lt _ hchar]

/-- Up to 256 bytes always fit. -/
theorem insertBackslashes_eq (sym : UInt8 → Bool) {str : List UInt8} (hlen : str.length ≤ 256) :
    insertBackslashes sym [] str = some (str.flatMap (escaped sym)) := by
  have hflat := length_flatMap_escaped_le sym str
  apply insertBackslashes_append sym
  rw [List.nil_append, tmpStrSize]
  omega

/-! ## What the shell reads -/

/-- Digits and letters have no meaning of their own. -/
theorem plain_of_not_isSymbol {c : UInt8} (hsym : isSymbol c = false) :
    c ≠ Shell.backslash ∧ Shell.isBlank c = false ∧ c ∉ Shell.needsQuoting := by
  have hne : ∀ d, isSymbol d = true → c ≠ d := by
    intro d hd heq
    rw [heq, hd] at hsym
    cases hsym
  have hquoted : ∀ d ∈ Shell.needsQuoting, isSymbol d = true := List.all_eq_true.mp (by decide)
  constructor
  · exact hne Shell.backslash (by decide)
  · constructor
    · simp [Shell.isBlank, hne 32 (by decide), hne 9 (by decide)]
    · intro hc
      exact hne c (hquoted c hc) rfl

/-- A backslash keeps any character but a newline, which it removes. -/
theorem denotes_escaped_symbol (c : UInt8) :
    Shell.Denotes (escaped isSymbol c) (if c = Shell.newline then [] else [c]) := by
  intro word rest
  unfold escaped
  cases hsym : isSymbol c with
  | true =>
      by_cases hc : c = Shell.newline
      · rw [if_pos hc, hc]
        exact Shell.readWords_continuation
      · rw [if_neg hc]
        exact Shell.readWords_escaped hc
  | false =>
      rcases plain_of_not_isSymbol hsym with ⟨hslash, hblank, hquote⟩
      have hnewline : c ≠ Shell.newline := fun heq => hquote (heq ▸ List.mem_cons_self)
      rw [if_neg hnewline]
      exact Shell.readWords_plain hslash hblank hquote

/-- Inside double quotes the text of a character stands for it. -/
theorem readDouble_escaped_echo (c : UInt8) (rest : List UInt8) :
    Shell.readDouble (escaped isEchoSymbol c ++ rest) = (Shell.readDouble rest).map (c :: ·) := by
  have hactive : isEchoSymbol c = decide (c ∈ Shell.backslash :: Shell.activeInDouble) := by
    rw [Bool.eq_iff_iff, decide_eq_true_iff]
    simp only [isEchoSymbol, Shell.activeInDouble, Shell.backslash, Shell.doubleQuote, Shell.dollar,
      Shell.backquote, Bool.or_eq_true, beq_iff_eq, List.mem_cons, List.not_mem_nil]
    tauto
  unfold escaped
  rw [hactive]
  by_cases hc : c ∈ Shell.backslash :: Shell.activeInDouble
  · rw [decide_eq_true hc]
    exact Shell.readDouble_escaped hc
  · rw [decide_eq_false hc]
    exact Shell.readDouble_plain hc

/-- Without its newlines a text is the same only if it has none. -/
theorem flatMap_newline_eq_iff (str : List UInt8) :
    (str.flatMap fun c => if c = Shell.newline then [] else [c]) = str ↔
      Shell.newline ∉ str := by
  have hfilter : (str.flatMap fun c => if c = Shell.newline then [] else [c]) =
      str.filter (· ≠ Shell.newline) := by
    induction str with
    | nil => rfl
    | cons c str ih =>
        rw [List.flatMap_cons, ih]
        by_cases hc : c = Shell.newline
        · simp [hc]
        · simp [hc]
  rw [hfilter, List.filter_eq_self]
  constructor
  · intro h hmem
    simpa using h Shell.newline hmem
  · intro h c hc
    have hne : c ≠ Shell.newline := fun heq => h (heq ▸ hc)
    simpa using hne

/-- Read unquoted, the text of {lit}`zyUtilBackslashInsert` is one word, the text itself, if and
only if it is not empty and has no newline. -/
theorem readUnquoted_backslashInsert_iff {str : List UInt8} (hlen : str.length ≤ 256) :
    (zyUtilBackslashInsert str).bind Shell.readUnquoted = some [str] ↔
      str ≠ [] ∧ Shell.newline ∉ str := by
  rw [zyUtilBackslashInsert, insertBackslashes_eq isSymbol hlen, Option.bind_some,
    Shell.readUnquoted_flatMap (fun c _ => denotes_escaped_symbol c), Option.some.injEq]
  constructor
  · intro h
    split at h
    · cases h
    · rename_i hne
      have heq := (List.cons.inj h).1
      exact ⟨heq ▸ hne, (flatMap_newline_eq_iff str).mp heq⟩
  · rintro ⟨hne, hnewline⟩
    have heq := (flatMap_newline_eq_iff str).mpr hnewline
    rw [heq, if_neg hne]

/-- Inside double quotes the text of {lit}`zyUtilBackslashInForEcho` denotes the text itself. -/
theorem readDouble_backslashInForEcho {str : List UInt8} (hlen : str.length ≤ 256) :
    (zyUtilBackslashInForEcho str).bind Shell.readDouble = some str := by
  rw [zyUtilBackslashInForEcho, insertBackslashes_eq isEchoSymbol hlen, Option.bind_some]
  exact Shell.readDouble_flatMap (fun c _ rest => readDouble_escaped_echo c rest)

/-- The shell reads both texts back if and only if the text is not empty and has no newline. -/
theorem backslashes_read_back_iff {str : List UInt8} (hlen : str.length ≤ 256) :
    ((zyUtilBackslashInsert str).bind Shell.readUnquoted = some [str] ∧
      (zyUtilBackslashInForEcho str).bind Shell.readDouble = some str) ↔
      str ≠ [] ∧ Shell.newline ∉ str := by
  rw [readUnquoted_backslashInsert_iff hlen]
  exact and_iff_left (readDouble_backslashInForEcho hlen)

/-- The text {lit}`a;$b`. -/
theorem backslashes_read_back_command :
    ((zyUtilBackslashInsert [97, 59, 36, 98]).bind Shell.readUnquoted = some [[97, 59, 36, 98]] ∧
      (zyUtilBackslashInForEcho [97, 59, 36, 98]).bind Shell.readDouble = some [97, 59, 36, 98]) ↔
      ([97, 59, 36, 98] : List UInt8) ≠ [] ∧ Shell.newline ∉ ([97, 59, 36, 98] : List UInt8) :=
  backslashes_read_back_iff (by decide)

/-- A newline between two letters is lost. -/
theorem backslashInsert_loses_newline :
    zyUtilBackslashInsert [97, 10, 98] = some [97, 92, 10, 98] ∧
      (zyUtilBackslashInsert [97, 10, 98]).bind Shell.readUnquoted = some [[97, 98]] := by
  decide

end ZyUtil
end ZyxelRouter
