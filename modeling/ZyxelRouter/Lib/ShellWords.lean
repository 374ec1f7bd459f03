import Mathlib.Data.List.Basic

/-!
# Quoting in the shell

What a POSIX shell makes of unquoted text and of text inside double quotes, as far as the text
stands for itself: a reader gives up at an operator, an expansion, a pattern or a comment, at a
quotation mark, and at a backslash that nothing follows.

Main results:

- Theorem {lit}`readUnquoted_flatMap`: unquoted text put together from pieces that stand for one
  byte each, or for none.
- Theorem {lit}`readDouble_flatMap`: the same inside double quotes.
-/

namespace ZyxelRouter
namespace Lib
namespace Shell

/-! ## The bytes with a meaning -/

def newline : UInt8 := 10

def doubleQuote : UInt8 := 34

def dollar : UInt8 := 36

def backslash : UInt8 := 92

def backquote : UInt8 := 96

/-- Blanks end a word. -/
def isBlank (c : UInt8) : Bool :=
  c == 32 || c == 9

/-- The bytes that an application has to quote, or may have to, other than blanks and the
backslash. -/
def needsQuoting : List UInt8 :=
  newline :: "|&;<>()$`\"'*?[]#~=%!\x7b\x7d".toList.map Char.toUInt8

/-- Inside double quotes these end the text or begin an expansion. -/
def activeInDouble : List UInt8 :=
  [doubleQuote, dollar, backquote]

/-! ## The readers -/

/-- The words of unquoted text; {lit}`word` is what was read of a word so far.  A backslash keeps
the meaning of the next byte, and is removed together with a newline. -/
def readWords : Option (List UInt8) → List UInt8 → Option (List (List UInt8))
  | word, [] => some word.toList
  | word, c :: rest =>
      if c = backslash then
        match rest with
        | [] => none
        | d :: rest =>
            if d = newline then readWords word rest
            else readWords (some (word.getD [] ++ [d])) rest
      else if isBlank c then (readWords none rest).map (word.toList ++ ·)
      else if c ∈ needsQuoting then none
      else readWords (some (word.getD [] ++ [c])) rest

/-- The words of unquoted text. -/
def readUnquoted (text : List UInt8) : Option (List (List UInt8)) :=
  readWords none text

/-- What text inside double quotes denotes.  A backslash counts only in front of a byte that has a
meaning there, itself, or a newline. -/
def readDouble : List UInt8 → Option (List UInt8)
  | [] => some []
  | c :: rest =>
      if c = backslash then
        match rest with
        | [] => none
        | d :: rest =>
            if d = newline then readDouble rest
            else if d ∈ backslash :: activeInDouble then (readDouble rest).map (d :: ·)
            else (readDouble rest).map (fun text => c :: d :: text)
      else if c ∈ activeInDouble then none
      else (readDouble rest).map (c :: ·)

variable {word : Option (List UInt8)} {c : UInt8} {rest : List UInt8}

theorem readWords_escaped (hc : c ≠ newline) :
    readWords word (backslash :: c :: rest) = readWords (some (word.getD [] ++ [c])) rest := by
  rw [readWords, if_pos rfl]
  exact if_neg hc

theorem readWords_continuation :
    readWords word (backslash :: newline :: rest) = readWords word rest := by
  rw [readWords, if_pos rfl]
  exact if_pos rfl

theorem readWords_plain (hslash : c ≠ backslash) (hblank : isBlank c = false)
    (hquote : c ∉ needsQuoting) :
    readWords word (c :: rest) = readWords (some (word.getD [] ++ [c])) rest := by
  rw [readWords.eq_def]
  simp only [if_neg hslash, hblank, Bool.false_eq_true, if_false, if_neg hquote]

theorem readDouble_escaped (hc : c ∈ backslash :: activeInDouble) :
    readDouble (backslash :: c :: rest) = (readDouble rest).map (c :: ·) := by
  have hnewline : c ≠ newline := by
    rintro rfl
    revert hc
    decide
  rw [readDouble, if_pos rfl]
  simp only [if_neg hnewline, if_pos hc]

theorem readDouble_plain (hc : c ∉ backslash :: activeInDouble) :
    readDouble (c :: rest) = (readDouble rest).map (c :: ·) := by
  rw [List.mem_cons, not_or] at hc
  rw [readDouble.eq_def]
  simp only [if_neg hc.1, if_neg hc.2]

/-! ## Texts put together from pieces -/

/-- A word that gets some more bytes; no bytes begin no word. -/
def extend (word : Option (List UInt8)) (bytes : List UInt8) : Option (List UInt8) :=
  if bytes = [] then word else some (word.getD [] ++ bytes)

@[simp]
theorem extend_nil : extend word [] = word :=
  if_pos rfl

theorem extend_append (bytes more : List UInt8) :
    extend (extend word bytes) more = extend word (bytes ++ more) := by
  unfold extend
  by_cases hbytes : bytes = []
  · rw [if_pos hbytes, hbytes, List.nil_append]
  · rw [if_neg hbytes, if_neg (c := bytes ++ more = []) (by simp [hbytes])]
    by_cases hmore : more = []
    · rw [if_pos hmore, hmore, List.append_nil]
    · rw [if_neg hmore, Option.getD_some, List.append_assoc]

/-- Wherever it stands, the text adds the bytes to the word. -/
def Denotes (text bytes : List UInt8) : Prop :=
  ∀ word rest, readWords word (text ++ rest) = readWords (extend word bytes) rest

/-- Pieces that denote bytes denote them together. -/
theorem denotes_flatMap {piece bytes : UInt8 → List UInt8} (s : List UInt8)
    (hpiece : ∀ c ∈ s, Denotes (piece c) (bytes c)) :
    Denotes (s.flatMap piece) (s.flatMap bytes) := by
  induction s with
  | nil =>
      intro word rest
      simp
  | cons c s ih =>
      intro word rest
      have hrest := ih (fun d hd => hpiece d (List.mem_cons_of_mem c hd))
      rw [List.flatMap_cons, List.flatMap_cons, List.append_assoc,
        hpiece c List.mem_cons_self, hrest, extend_append]

/-- Unquoted text put together from pieces is one word, or none without bytes. -/
theorem readUnquoted_flatMap {piece bytes : UInt8 → List UInt8} {s : List UInt8}
    (hpiece : ∀ c ∈ s, Denotes (piece c) (bytes c)) :
    readUnquoted (s.flatMap piece) =
      some (if s.flatMap bytes = [] then [] else [s.flatMap bytes]) := by
  have hread := denotes_flatMap s hpiece none []
  rw [List.append_nil] at hread
  rw [readUnquoted, hread, extend]
  split
  · rfl
  · rfl

/-- Text inside double quotes put together from pieces that stand for one byte each. -/
theorem readDouble_flatMap {piece : UInt8 → List UInt8} {s : List UInt8}
    (hpiece : ∀ c ∈ s, ∀ rest, readDouble (piece c ++ rest) = (readDouble rest).map (c :: ·)) :
    readDouble (s.flatMap piece) = some s := by
  induction s with
  | nil => rfl
  | cons c s ih =>
      rw [List.flatMap_cons, hpiece c List.mem_cons_self,
        ih (fun d hd => hpiece d (List.mem_cons_of_mem c hd))]
      rfl

end Shell
end Lib
end ZyxelRouter
