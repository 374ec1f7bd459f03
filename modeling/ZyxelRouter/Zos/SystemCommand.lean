import Mathlib.Data.List.Basic
import Mathlib.Data.List.Forall2

/-!
# Commands without a shell

{lit}`_zcfg_system` of {lit}`zos_api.c` without the {lit}`ABUU_CUSTOMIZATION`: it splits a command at
spaces, in a copy of the command in which each word is terminated in place, and collects pointers to
the words in an array of 128 entries that it does not guard.  Text in double quotes is one word.  If
the last word begins with {lit}`&`, the word is dropped and the command runs in the background.

Main results:

- Theorem {lit}`splitLoop_spec`: what the loop leaves in the buffer and in the array, from any of its
  turns on.
- Theorem {lit}`zcfgSystem_eq`: what a call does, by the words of the command.
- Theorem {lit}`zcfgSystem_runs_words_iff`: when it runs the words of the command.
-/

namespace ZyxelRouter
namespace Zos

/-! ## The function -/

/-- {lit}`ZOS_CMD_MAX_LEN`. -/
def zosCmdMaxLen : Nat := 1024

/-- The number of entries of {lit}`argv`. -/
def argvSize : Nat := 128

def space : UInt8 := 32

def quote : UInt8 := 34

def ampersand : UInt8 := 38

/-- The text that a pointer into a buffer points to. -/
def textAt (buf : List UInt8) (p : Nat) : List UInt8 :=
  (buf.drop p).takeWhile (· ≠ 0)

/-- {lit}`strchr(&buf[i], c)`. -/
def strchrAt (buf : List UInt8) (i : Nat) (c : UInt8) : Option Nat :=
  if c ∈ textAt buf i then some (i + (textAt buf i).idxOf c) else none

/-- How the loop ends: {lit}`argv` holds pointers into the buffer. -/
inductive Split where
  | rejected
  | outOfBounds
  | words (buf : List UInt8) (argv : List Nat)
deriving DecidableEq, Repr

/-- The loop.  It has at most {lit}`ZOS_CMD_MAX_LEN` turns, as {lit}`i` grows with each. -/
def splitLoop (cmd : List UInt8) : Nat → List UInt8 → List Nat → Nat → Split
  | 0, buf, argv, _ => .words buf argv
  | turns + 1, buf, argv, i =>
      if i < zosCmdMaxLen ∧ i < cmd.length then
        if buf.getD i 0 = space then splitLoop cmd turns buf argv (i + 1)
        else if argvSize ≤ argv.length then .outOfBounds
        else if buf.getD i 0 = quote then
          match strchrAt buf (i + 1) quote with
          | some p => splitLoop cmd turns (buf.set p 0) (argv ++ [i + 1]) (p + 1)
          | none => .rejected
        else
          match strchrAt buf i space with
          | some p => splitLoop cmd turns (buf.set p 0) (argv ++ [i]) (p + 1)
          | none => .words buf (argv ++ [i])
      else .words buf argv

/-- What a call does: it runs a vector of arguments, unless the command is rejected or a place outside
of {lit}`argv` is read or written. -/
inductive Command where
  | rejected
  | outOfBounds
  | run (background : Bool) (argv : List (List UInt8))
deriving DecidableEq, Repr

/-- The end of the vector: {lit}`execvp` needs a null pointer in one of the entries. -/
def terminated (background : Bool) (argv : List (List UInt8)) : Command :=
  if argv.length < argvSize then .run background argv else .outOfBounds

/-- {lit}`_zcfg_system` up to {lit}`fork`. -/
def zcfgSystem (cmd : List UInt8) : Command :=
  let buf := (cmd ++ List.replicate (zosCmdMaxLen + 1) 0).take zosCmdMaxLen ++ [0]
  match splitLoop cmd zosCmdMaxLen buf [] 0 with
  | .rejected => .rejected
  | .outOfBounds => .outOfBounds
  | .words buf argv =>
      match argv.getLast? with
      | none => .outOfBounds
      | some last =>
          if buf.getD last 0 = ampersand then terminated true (argv.dropLast.map (textAt buf))
          else terminated false (argv.map (textAt buf))

/-! ## The words of a command -/

/-- A word, and whether it stands in quotes. -/
structure Word where
  quoted : Bool
  text : List UInt8
deriving DecidableEq, Repr

/-- Where a reader of a command stands: between words, or in a word of which it has read a part. -/
inductive Reading where
  | between
  | plain (text : List UInt8)
  | quotes (text : List UInt8)

/-- The words of a command, and whether a quotation mark is left open behind them.  A word that
begins with a quotation mark ends with the next one, any other word with the next space. -/
def wordsFrom : Reading → List UInt8 → List Word × Bool
  | .between, [] => ([], false)
  | .plain text, [] => ([⟨false, text⟩], false)
  | .quotes _, [] => ([], true)
  | .between, c :: rest =>
      if c = space then wordsFrom .between rest
      else if c = quote then wordsFrom (.quotes []) rest
      else wordsFrom (.plain [c]) rest
  | .plain text, c :: rest =>
      if c = space then
        (⟨false, text⟩ :: (wordsFrom .between rest).1, (wordsFrom .between rest).2)
      else wordsFrom (.plain (text ++ [c])) rest
  | .quotes text, c :: rest =>
      if c = quote then
        (⟨true, text⟩ :: (wordsFrom .between rest).1, (wordsFrom .between rest).2)
      else wordsFrom (.quotes (text ++ [c])) rest

/-- The words of a command. -/
def wordsOf (cmd : List UInt8) : List Word :=
  (wordsFrom .between cmd).1

/-- A quotation mark is left open. -/
def leftOpen (cmd : List UInt8) : Bool :=
  (wordsFrom .between cmd).2

/-- The lone {lit}`&`. -/
def loneAmpersand : Word where
  quoted := false
  text := [ampersand]

variable {c : UInt8} {text rest : List UInt8}

theorem wordsFrom_plain (hc : space ∉ text) (start : List UInt8) :
    wordsFrom (.plain start) (text ++ space :: rest) =
      (⟨false, start ++ text⟩ :: wordsOf rest, leftOpen rest) := by
  induction text generalizing start with
  | nil =>
      rw [List.nil_append, wordsFrom, if_pos rfl, List.append_nil]
      rfl
  | cons d text ih =>
      rw [List.mem_cons, not_or] at hc
      rw [List.cons_append, wordsFrom, if_neg (Ne.symm hc.1), ih hc.2]
      simp

theorem wordsFrom_plain_end (hc : space ∉ text) (start : List UInt8) :
    wordsFrom (.plain start) text = ([⟨false, start ++ text⟩], false) := by
  induction text generalizing start with
  | nil =>
      rw [wordsFrom, List.append_nil]
  | cons d text ih =>
      rw [List.mem_cons, not_or] at hc
      rw [wordsFrom, if_neg (Ne.symm hc.1), ih hc.2]
      simp

theorem wordsFrom_quotes (hc : quote ∉ text) (start : List UInt8) :
    wordsFrom (.quotes start) (text ++ quote :: rest) =
      (⟨true, start ++ text⟩ :: wordsOf rest, leftOpen rest) := by
  induction text generalizing start with
  | nil =>
      rw [List.nil_append, wordsFrom, if_pos rfl, List.append_nil]
      rfl
  | cons d text ih =>
      rw [List.mem_cons, not_or] at hc
      rw [List.cons_append, wordsFrom, if_neg (Ne.symm hc.1), ih hc.2]
      simp

theorem wordsFrom_quotes_end (hc : quote ∉ text) (start : List UInt8) :
    wordsFrom (.quotes start) text = ([], true) := by
  induction text generalizing start with
  | nil => rfl
  | cons d text ih =>
      rw [List.mem_cons, not_or] at hc
      rw [wordsFrom, if_neg (Ne.symm hc.1), ih hc.2]

/-! ## The buffer -/

/-- The pointers point to texts that end within the first part of the buffer. -/
def PointTo (front : List UInt8) (argv : List Nat) (texts : List (List UInt8)) : Prop :=
  List.Forall₂ (fun p text => 0 ∉ text ∧ ∃ behind, front.drop p = text ++ 0 :: behind) argv texts

theorem textAt_eq {buf behind : List UInt8} {p : Nat} (h : buf.drop p = text ++ 0 :: behind)
    (htext : 0 ∉ text) : textAt buf p = text := by
  have hall : ∀ d ∈ text, decide (d ≠ 0) = true := by
    intro d hd
    have hne : d ≠ 0 := fun heq => htext (heq ▸ hd)
    simpa using hne
  rw [textAt, h, List.takeWhile_append_of_pos hall, List.takeWhile_cons_of_neg (by simp),
    List.append_nil]

/-- What a pointer points to within the first part of the buffer does not change behind it. -/
theorem drop_append_of_ends {front behind : List UInt8} {p : Nat}
    (h : front.drop p = text ++ 0 :: behind) (more : List UInt8) :
    (front ++ more).drop p = text ++ 0 :: (behind ++ more) := by
  have hp : p ≤ front.length := by
    by_contra hlt
    rw [List.drop_eq_nil_of_le (by omega)] at h
    simp at h
  rw [List.drop_append_of_le_length hp, h]
  simp

theorem PointTo.map_textAt {front : List UInt8} {argv : List Nat} {texts : List (List UInt8)}
    (h : PointTo front argv texts) (more : List UInt8) :
    argv.map (textAt (front ++ more)) = texts := by
  induction h with
  | nil => rfl
  | cons hfirst _ ih =>
      rcases hfirst with ⟨htext, behind, hdrop⟩
      rw [List.map_cons, ih, textAt_eq (drop_append_of_ends hdrop more) htext]

theorem PointTo.append {front : List UInt8} {argv : List Nat} {texts : List (List UInt8)}
    (h : PointTo front argv texts) (more : List UInt8) : PointTo (front ++ more) argv texts := by
  induction h with
  | nil => exact List.Forall₂.nil
  | cons hfirst _ ih =>
      rcases hfirst with ⟨htext, behind, hdrop⟩
      exact List.Forall₂.cons ⟨htext, behind ++ more, drop_append_of_ends hdrop more⟩ ih

/-- One more pointer, to a text at the end of the first part. -/
theorem PointTo.concat {front : List UInt8} {argv : List Nat} {texts : List (List UInt8)}
    (h : PointTo front argv texts) (htext : 0 ∉ text) :
    PointTo (front ++ text ++ [0]) (argv ++ [front.length]) (texts ++ [text]) := by
  have hlast : PointTo (front ++ text ++ [0]) [front.length] [text] := by
    refine List.Forall₂.cons ⟨htext, [], ?_⟩ List.Forall₂.nil
    rw [List.append_assoc, List.drop_left]
  rw [List.append_assoc] at hlast ⊢
  exact List.rel_append (h.append (text ++ [0])) hlast

theorem strchrAt_some {buf behind : List UInt8} {i : Nat}
    (hdrop : buf.drop i = text ++ c :: behind) (htext : 0 ∉ text) (hc : c ∉ text) (hne : c ≠ 0) :
    strchrAt buf i c = some (i + text.length) := by
  have hall : ∀ d ∈ text, decide (d ≠ 0) = true := by
    intro d hd
    have hd0 : d ≠ 0 := fun heq => htext (heq ▸ hd)
    simpa using hd0
  have hat : textAt buf i = text ++ c :: behind.takeWhile (· ≠ 0) := by
    rw [textAt, hdrop, List.takeWhile_append_of_pos hall,
      List.takeWhile_cons_of_pos (by simpa using hne)]
  rw [strchrAt, hat, if_pos (by simp), List.idxOf_append_of_notMem hc, List.idxOf_cons_self,
    Nat.add_zero]

theorem strchrAt_none {buf behind : List UInt8} {i : Nat}
    (hdrop : buf.drop i = text ++ 0 :: behind) (htext : 0 ∉ text) (hc : c ∉ text) :
    strchrAt buf i c = none := by
  rw [strchrAt, textAt_eq hdrop htext, if_neg hc]

/-! ## The loop -/

/-- The words and an open quotation mark take entries of {lit}`argv`. -/
def entriesOf (cmd : List UInt8) : Nat :=
  (wordsOf cmd).length + (if leftOpen cmd then 1 else 0)

/-- How the loop ends when {lit}`rest` is left of the command, {lit}`used` entries are in use and point
to {lit}`texts`. -/
def EndsAs (used : Nat) (texts : List (List UInt8)) (rest : List UInt8) (result : Split) : Prop :=
  if argvSize < used + entriesOf rest then result = .outOfBounds
  else if leftOpen rest then result = .rejected
  else ∃ buf argv, result = .words buf argv ∧
    argv.map (textAt buf) = texts ++ (wordsOf rest).map Word.text

theorem wordsFrom_space (rest : List UInt8) :
    wordsFrom .between (space :: rest) = wordsFrom .between rest := by
  rw [wordsFrom, if_pos rfl]

theorem wordsFrom_quote (rest : List UInt8) :
    wordsFrom .between (quote :: rest) = wordsFrom (.quotes []) rest := by
  rw [wordsFrom, if_neg (by decide), if_pos rfl]

theorem wordsFrom_other (hspace : c ≠ space) (hquote : c ≠ quote) (rest : List UInt8) :
    wordsFrom .between (c :: rest) = wordsFrom (.plain [c]) rest := by
  rw [wordsFrom, if_neg hspace, if_neg hquote]

/-- Everything but a space takes an entry. -/
theorem entriesOf_pos (hspace : c ≠ space) (rest : List UInt8) : 0 < entriesOf (c :: rest) := by
  unfold entriesOf wordsOf leftOpen
  by_cases hquote : c = quote
  · subst hquote
    rw [wordsFrom_quote]
    by_cases hmem : quote ∈ rest
    · rcases List.eq_append_cons_of_mem hmem with ⟨text, more, rfl, htext⟩
      rw [wordsFrom_quotes htext, List.length_cons]
      omega
    · rw [wordsFrom_quotes_end hmem]
      simp
  · rw [wordsFrom_other hspace hquote]
    by_cases hmem : space ∈ rest
    · rcases List.eq_append_cons_of_mem hmem with ⟨text, more, rfl, htext⟩
      rw [wordsFrom_plain htext, List.length_cons]
      omega
    · rw [wordsFrom_plain_end hmem]
      simp

/-- A word in front takes one entry. -/
theorem EndsAs.word {used : Nat} {texts : List (List UInt8)} {cmd more : List UInt8} {w : Word}
    {result : Split} (hwords : wordsFrom .between cmd = (w :: wordsOf more, leftOpen more))
    (h : EndsAs (used + 1) (texts ++ [w.text]) more result) : EndsAs used texts cmd result := by
  have hall : wordsOf cmd = w :: wordsOf more := by rw [wordsOf, hwords]
  have hopen : leftOpen cmd = leftOpen more := by rw [leftOpen, hwords]
  have hentries : entriesOf cmd = entriesOf more + 1 := by
    rw [entriesOf, hall, hopen, List.length_cons, entriesOf]
    omega
  unfold EndsAs at h ⊢
  rw [hentries, hopen, hall, List.map_cons]
  rw [Nat.add_assoc, Nat.add_comm 1] at h
  simpa using h

/-- A terminator in place of what ends a word. -/
theorem set_terminator (start text : List UInt8) (c : UInt8) (behind : List UInt8) :
    (start ++ (text ++ c :: behind)).set (start.length + text.length) 0 =
      start ++ text ++ [0] ++ behind := by
  rw [← List.append_assoc, ← List.length_append, List.set_append_right _ _ (Nat.le_refl _),
    Nat.sub_self, List.set_cons_zero, List.append_assoc _ [0]]
  rfl

/-- In front of a turn of the loop {lit}`front` is behind {lit}`i`, {lit}`rest` is left of the command,
and the pointers point to {lit}`texts`. -/
structure AtTurn (cmd front rest : List UInt8) (argv : List Nat) (texts : List (List UInt8)) :
    Prop where
  fits : cmd.length ≤ zosCmdMaxLen
  length : cmd.length = front.length + rest.length
  noNul : 0 ∉ rest
  pointers : PointTo front argv texts
  used : argv.length ≤ argvSize

/-- From each turn on, with enough turns left, the loop ends as it should. -/
def LoopSpec (cmd : List UInt8) (turns : Nat) : Prop :=
  ∀ {front rest : List UInt8} {argv : List Nat} {texts : List (List UInt8)},
    AtTurn cmd front rest argv texts → rest.length ≤ turns → ∀ pad : List UInt8,
      EndsAs argv.length texts rest
        (splitLoop cmd turns (front ++ (rest ++ 0 :: pad)) argv front.length)

section Turns

variable {cmd front : List UInt8} {argv : List Nat} {texts : List (List UInt8)} {turns : Nat}

/-- One character further. -/
theorem AtTurn.skip (h : AtTurn cmd front (c :: rest) argv texts) :
    AtTurn cmd (front ++ [c]) rest argv texts where
  fits := h.fits
  length := by
    rw [h.length, List.length_append, List.length_cons, List.length_singleton]
    omega
  noNul := fun hmem => h.noNul (List.mem_cons_of_mem c hmem)
  pointers := h.pointers.append [c]
  used := h.used

/-- Behind a word and what ends it. -/
theorem AtTurn.word (h : AtTurn cmd front (text ++ c :: rest) argv texts)
    (hfree : argv.length < argvSize) :
    AtTurn cmd (front ++ text ++ [0]) rest (argv ++ [front.length]) (texts ++ [text]) where
  fits := h.fits
  length := by
    rw [h.length]
    simp only [List.length_append, List.length_cons, List.length_nil]
    omega
  noNul := fun hmem => h.noNul (List.mem_append_right text (List.mem_cons_of_mem c hmem))
  pointers := h.pointers.concat (fun hmem => h.noNul (List.mem_append_left _ hmem))
  used := by
    rw [List.length_append, List.length_singleton]
    omega

/-- The character at {lit}`i`. -/
theorem AtTurn.getD (front : List UInt8) (c : UInt8) (behind : List UInt8) :
    (front ++ c :: behind).getD front.length 0 = c := by
  rw [List.getD_eq_getElem?_getD, List.getElem?_append_right (Nat.le_refl _), Nat.sub_self]
  rfl

/-- Behind the last word the loop stops. -/
theorem splitLoop_end (h : AtTurn cmd front [] argv texts) (turns : Nat) (pad : List UInt8) :
    EndsAs argv.length texts [] (splitLoop cmd turns (front ++ pad) argv front.length) := by
  have hlen : cmd.length = front.length := h.length
  have hused := h.used
  have hstop : splitLoop cmd turns (front ++ pad) argv front.length = .words (front ++ pad) argv := by
    cases turns with
    | zero => rfl
    | succ turns => rw [splitLoop, if_neg (by omega)]
  rw [hstop]
  unfold EndsAs
  rw [if_neg (by simp [entriesOf, wordsOf, leftOpen, wordsFrom]; omega),
    if_neg (by simp [leftOpen, wordsFrom])]
  refine ⟨front ++ pad, argv, rfl, ?_⟩
  rw [h.pointers.map_textAt]
  simp [wordsOf, wordsFrom]

/-- A word is terminated, and the loop goes on behind it. -/
theorem splitLoop_word (ih : LoopSpec cmd turns) {whole : List UInt8} {quoted : Bool}
    (hwords : wordsFrom .between whole = (⟨quoted, text⟩ :: wordsOf rest, leftOpen rest))
    (h : AtTurn cmd front (text ++ c :: rest) argv texts) (hfree : argv.length < argvSize)
    (hturns : rest.length ≤ turns) (pad : List UInt8) :
    EndsAs argv.length texts whole
      (splitLoop cmd turns
        ((front ++ (text ++ c :: (rest ++ 0 :: pad))).set (front.length + text.length) 0)
        (argv ++ [front.length]) (front.length + text.length + 1)) := by
  have hnext := ih (h.word hfree) hturns pad
  rw [List.length_append, List.length_append, List.length_append, List.length_singleton,
    List.length_singleton] at hnext
  rw [set_terminator]
  exact EndsAs.word hwords hnext

/-- A turn of the loop at a quotation mark. -/
theorem splitLoop_quoted (ih : LoopSpec cmd turns) (h : AtTurn cmd front (quote :: rest) argv texts)
    (hfree : argv.length < argvSize) (hturns : rest.length ≤ turns) (pad : List UInt8) :
    EndsAs argv.length texts (quote :: rest)
      (match strchrAt (front ++ (quote :: rest ++ 0 :: pad)) (front.length + 1) quote with
      | some p => splitLoop cmd turns ((front ++ (quote :: rest ++ 0 :: pad)).set p 0)
          (argv ++ [front.length + 1]) (p + 1)
      | none => .rejected) := by
  have hskip := h.skip
  have hsplit : front ++ (quote :: rest ++ 0 :: pad) = front ++ [quote] ++ (rest ++ 0 :: pad) := by
    simp
  have hstart : front.length + 1 = (front ++ [quote]).length := by simp
  rw [hsplit, hstart]
  by_cases hmem : quote ∈ rest
  · rcases List.eq_append_cons_of_mem hmem with ⟨text, more, rfl, htext⟩
    have hdrop : (front ++ [quote] ++ (text ++ quote :: more ++ 0 :: pad)).drop
        (front ++ [quote]).length = text ++ quote :: (more ++ 0 :: pad) := by
      rw [List.drop_left, List.append_assoc]
      rfl
    have hzero : 0 ∉ text := fun hmem => hskip.noNul (List.mem_append_left _ hmem)
    have hwords : wordsFrom .between (quote :: (text ++ quote :: more)) =
        (⟨true, text⟩ :: wordsOf more, leftOpen more) := by
      rw [wordsFrom_quote, wordsFrom_quotes htext, List.nil_append]
    rw [List.length_append, List.length_cons] at hturns
    have hnext := splitLoop_word ih hwords hskip hfree (by omega) pad
    rw [strchrAt_some hdrop hzero htext (by decide), List.append_assoc text]
    exact hnext
  · have hdrop : (front ++ [quote] ++ (rest ++ 0 :: pad)).drop (front ++ [quote]).length =
        rest ++ 0 :: pad := List.drop_left
    have hwords : wordsFrom .between (quote :: rest) = ([], true) := by
      rw [wordsFrom_quote, wordsFrom_quotes_end hmem]
    rw [strchrAt_none hdrop hskip.noNul hmem]
    unfold EndsAs entriesOf wordsOf leftOpen
    rw [hwords, if_neg (by simp; omega), if_pos rfl]

/-- A turn of the loop at the beginning of any other word. -/
theorem splitLoop_plain (ih : LoopSpec cmd turns) (h : AtTurn cmd front (c :: rest) argv texts)
    (hspace : c ≠ space) (hquote : c ≠ quote) (hfree : argv.length < argvSize)
    (hturns : rest.length ≤ turns) (pad : List UInt8) :
    EndsAs argv.length texts (c :: rest)
      (match strchrAt (front ++ (c :: rest ++ 0 :: pad)) front.length space with
      | some p => splitLoop cmd turns ((front ++ (c :: rest ++ 0 :: pad)).set p 0)
          (argv ++ [front.length]) (p + 1)
      | none => .words (front ++ (c :: rest ++ 0 :: pad)) (argv ++ [front.length])) := by
  by_cases hmem : space ∈ rest
  · rcases List.eq_append_cons_of_mem hmem with ⟨text, more, rfl, htext⟩
    have hdrop : (front ++ (c :: (text ++ space :: more) ++ 0 :: pad)).drop front.length =
        c :: text ++ space :: (more ++ 0 :: pad) := by
      rw [List.drop_left]
      simp
    have hzero : 0 ∉ c :: text := by
      intro hmem
      apply h.noNul
      rw [← List.cons_append]
      exact List.mem_append_left _ hmem
    have hctext : space ∉ c :: text := by
      rw [List.mem_cons, not_or]
      exact ⟨Ne.symm hspace, htext⟩
    have hwords : wordsFrom .between (c :: (text ++ space :: more)) =
        (⟨false, c :: text⟩ :: wordsOf more, leftOpen more) := by
      rw [wordsFrom_other hspace hquote, wordsFrom_plain htext]
      rfl
    rw [List.length_append, List.length_cons] at hturns
    rw [← List.cons_append] at h
    have hnext := splitLoop_word ih hwords h hfree (by omega) pad
    rw [strchrAt_some hdrop hzero hctext (by decide), ← List.cons_append, List.append_assoc (c :: text)]
    exact hnext
  · have hdrop : (front ++ (c :: rest ++ 0 :: pad)).drop front.length = c :: rest ++ 0 :: pad :=
      List.drop_left
    have hcrest : space ∉ c :: rest := by
      rw [List.mem_cons, not_or]
      exact ⟨Ne.symm hspace, hmem⟩
    have hwords : wordsFrom .between (c :: rest) = ([⟨false, c :: rest⟩], false) := by
      rw [wordsFrom_other hspace hquote, wordsFrom_plain_end hmem]
      rfl
    rw [strchrAt_none hdrop h.noNul hcrest]
    unfold EndsAs entriesOf wordsOf leftOpen
    rw [hwords, if_neg (by simp; omega), if_neg (by simp)]
    refine ⟨_, _, rfl, ?_⟩
    rw [List.map_append, h.pointers.map_textAt, List.map_singleton, textAt_eq hdrop h.noNul]
    rfl

/-- What the loop does from any of its turns on. -/
theorem splitLoop_spec (cmd : List UInt8) (turns : Nat) : LoopSpec cmd turns := by
  induction turns with
  | zero =>
      intro front rest argv texts h hturns pad
      have hnil := List.eq_nil_of_length_eq_zero (Nat.le_zero.mp hturns)
      subst hnil
      exact splitLoop_end h 0 _
  | succ turns ih =>
      intro front rest argv texts h hturns pad
      cases rest with
      | nil => exact splitLoop_end h _ _
      | cons c rest =>
          rw [List.length_cons] at hturns
          have hlen := h.length
          rw [List.length_cons] at hlen
          have hfits := h.fits
          rw [splitLoop, if_pos (by omega), List.cons_append, AtTurn.getD, ← List.cons_append]
          by_cases hspace : c = space
          · subst hspace
            have hnext := ih h.skip (by omega) pad
            rw [List.append_assoc, List.length_append] at hnext
            unfold EndsAs entriesOf wordsOf leftOpen at hnext ⊢
            rw [if_pos rfl, wordsFrom_space]
            exact hnext
          · rw [if_neg hspace]
            by_cases hfull : argvSize ≤ argv.length
            · have hpos := entriesOf_pos hspace rest
              rw [if_pos hfull, EndsAs, if_pos (by omega)]
            · rw [if_neg hfull]
              by_cases hquote : c = quote
              · subst hquote
                rw [if_pos rfl]
                exact splitLoop_quoted ih h (by omega) (by omega) pad
              · rw [if_neg hquote]
                exact splitLoop_plain ih h hspace hquote (by omega) (by omega) pad

end Turns

/-! ## The command that is run -/

variable {cmd : List UInt8}

/-- The first character of a text. -/
theorem head_textAt (buf : List UInt8) (p : Nat) (hc : c ≠ 0) :
    (textAt buf p).head? = some c ↔ buf.getD p 0 = c := by
  have hget : buf.getD p 0 = (buf.drop p).headD 0 := by
    rw [List.headD_eq_head?_getD, List.head?_drop, List.getD_eq_getElem?_getD]
  rw [textAt, hget]
  cases buf.drop p with
  | nil => simpa using fun heq => hc heq.symm
  | cons d rest =>
      by_cases hd : d = 0
      · subst hd
        simpa using fun heq => hc heq.symm
      · simp [hd]

/-- What a call does, by the words of the command. -/
theorem zcfgSystem_eq (hlen : cmd.length ≤ zosCmdMaxLen) (hcmd : 0 ∉ cmd) :
    zcfgSystem cmd =
      if argvSize < entriesOf cmd then .outOfBounds
      else if leftOpen cmd then .rejected
      else
        match (wordsOf cmd).getLast? with
        | none => .outOfBounds
        | some w =>
            if w.text.head? = some ampersand then
              terminated true ((wordsOf cmd).dropLast.map Word.text)
            else terminated false ((wordsOf cmd).map Word.text) := by
  have hbuf : (cmd ++ List.replicate (zosCmdMaxLen + 1) 0).take zosCmdMaxLen ++ [0] =
      [] ++ (cmd ++ 0 :: List.replicate (zosCmdMaxLen - cmd.length) (0 : UInt8)) := by
    rw [List.take_append, List.take_of_length_le hlen, List.take_replicate, List.append_assoc,
      Nat.min_eq_left (by omega), ← List.replicate_succ', List.replicate_succ, List.nil_append]
  have hturn : AtTurn cmd [] cmd [] [] :=
    ⟨hlen, by simp, hcmd, List.Forall₂.nil, by decide⟩
  have hspec := splitLoop_spec cmd zosCmdMaxLen hturn hlen
    (List.replicate (zosCmdMaxLen - cmd.length) 0)
  rw [← hbuf, List.length_nil, List.length_nil, EndsAs, Nat.zero_add] at hspec
  rw [zcfgSystem]
  by_cases hmany : argvSize < entriesOf cmd
  · rw [if_pos hmany] at hspec ⊢
    rw [hspec]
  · rw [if_neg hmany] at hspec ⊢
    by_cases hopen : leftOpen cmd = true
    · rw [if_pos hopen] at hspec ⊢
      rw [hspec]
    · rw [if_neg hopen] at hspec ⊢
      rcases hspec with ⟨buf, argv, hsplit, htexts⟩
      rw [List.nil_append] at htexts
      have hlast := congrArg List.getLast? htexts
      rw [List.getLast?_map, List.getLast?_map] at hlast
      rw [hsplit]
      dsimp only
      cases hargv : argv.getLast? with
      | none =>
          rw [hargv] at hlast
          rw [Option.map_eq_none_iff.mp hlast.symm]
      | some last =>
          rw [hargv] at hlast
          rcases Option.map_eq_some_iff.mp hlast.symm with ⟨w, hw, htext⟩
          have hhead := head_textAt buf last (c := ampersand) (by decide)
          rw [← htext] at hhead
          rw [hw]
          dsimp only
          rw [List.map_dropLast, List.map_dropLast, htexts]
          by_cases hamp : w.text.head? = some ampersand
          · rw [if_pos hamp, if_pos (hhead.mp hamp)]
          · rw [if_neg hamp, if_neg (fun h => hamp (hhead.mpr h))]

/-- A command is rejected for an open quotation mark; any other command runs the words in it, in the
background and without the last word if this is a lone {lit}`&`. -/
def RunsWords (cmd : List UInt8) : Prop :=
  if leftOpen cmd then zcfgSystem cmd = .rejected
  else ∃ background argv, zcfgSystem cmd = .run background argv ∧ argv.length < argvSize ∧
    (background = true ↔ (wordsOf cmd).getLast? = some loneAmpersand) ∧
    argv = (if background then (wordsOf cmd).dropLast else wordsOf cmd).map Word.text

/-- The words fit into {lit}`argv`, there is one, and the last one begins with {lit}`&` only if it is the
lone {lit}`&`. -/
def WellSplit (cmd : List UInt8) : Prop :=
  if leftOpen cmd then (wordsOf cmd).length < argvSize
  else ∃ last ∈ (wordsOf cmd).getLast?,
    if last = loneAmpersand then (wordsOf cmd).length ≤ argvSize
    else last.text.head? ≠ some ampersand ∧ (wordsOf cmd).length < argvSize

/-- A command with an open quotation mark is rejected if the words fit into {lit}`argv` with one more
entry. -/
theorem runsWords_open_iff (hlen : cmd.length ≤ zosCmdMaxLen) (hcmd : 0 ∉ cmd)
    (hopen : leftOpen cmd = true) : RunsWords cmd ↔ (wordsOf cmd).length < argvSize := by
  have hentries : entriesOf cmd = (wordsOf cmd).length + 1 := by
    rw [entriesOf, if_pos hopen]
  rw [RunsWords, if_pos hopen, zcfgSystem_eq hlen hcmd, if_pos hopen, hentries]
  by_cases hmany : argvSize < (wordsOf cmd).length + 1
  · rw [if_pos hmany]
    apply iff_of_false
    · intro h
      cases h
    · omega
  · rw [if_neg hmany]
    apply iff_of_true rfl
    omega

/-- A command without words reads in front of {lit}`argv`. -/
theorem not_runsWords_of_none (hlen : cmd.length ≤ zosCmdMaxLen) (hcmd : 0 ∉ cmd)
    (hopen : ¬ leftOpen cmd = true) (hlast : (wordsOf cmd).getLast? = none) : ¬ RunsWords cmd := by
  have hentries : entriesOf cmd = (wordsOf cmd).length := by
    rw [entriesOf, if_neg hopen, Nat.add_zero]
  rw [RunsWords, if_neg hopen, zcfgSystem_eq hlen hcmd, if_neg hopen, hentries, hlast]
  rintro ⟨background, argv, hrun, -⟩
  split at hrun
  · cases hrun
  · cases hrun

/-- A vector that is handed on needs an entry for the null pointer. -/
theorem terminated_runs_iff (background : Bool) (argv : List (List UInt8))
    (P : Bool → List (List UInt8) → Prop) :
    (∃ b v, terminated background argv = .run b v ∧ v.length < argvSize ∧ P b v) ↔
      argv.length < argvSize ∧ P background argv := by
  rw [terminated]
  by_cases hfits : argv.length < argvSize
  · rw [if_pos hfits]
    constructor
    · rintro ⟨b, v, hrun, hright⟩
      cases hrun
      exact hright
    · intro hright
      exact ⟨background, argv, rfl, hright⟩
  · rw [if_neg hfits]
    apply iff_of_false
    · rintro ⟨b, v, hrun, -⟩
      cases hrun
    · exact fun hright => hfits hright.1

/-- The last word decides whether a command runs in the background. -/
theorem runsWords_last_iff (hlen : cmd.length ≤ zosCmdMaxLen) (hcmd : 0 ∉ cmd)
    (hopen : ¬ leftOpen cmd = true) {w : Word} (hlast : (wordsOf cmd).getLast? = some w) :
    RunsWords cmd ↔
      if w = loneAmpersand then (wordsOf cmd).length ≤ argvSize
      else w.text.head? ≠ some ampersand ∧ (wordsOf cmd).length < argvSize := by
  have hentries : entriesOf cmd = (wordsOf cmd).length := by
    rw [entriesOf, if_neg hopen, Nat.add_zero]
  rw [RunsWords, if_neg hopen, zcfgSystem_eq hlen hcmd, if_neg hopen, hentries, hlast]
  dsimp only
  by_cases hmany : argvSize < (wordsOf cmd).length
  · rw [if_pos hmany]
    apply iff_of_false
    · rintro ⟨background, argv, hrun, -⟩
      cases hrun
    · split
      · omega
      · omega
  · rw [if_neg hmany]
    by_cases hamp : w.text.head? = some ampersand
    · have hfits : ((wordsOf cmd).dropLast.map Word.text).length < argvSize := by
        rw [List.length_map, List.length_dropLast]
        unfold argvSize at hmany ⊢
        omega
      rw [if_pos hamp, terminated_runs_iff]
      by_cases hlone : w = loneAmpersand
      · rw [if_pos hlone]
        exact iff_of_true ⟨hfits, by simp [hlone], rfl⟩ (Nat.le_of_not_lt hmany)
      · rw [if_neg hlone]
        apply iff_of_false
        · rintro ⟨-, hback, -⟩
          exact hlone (Option.some.inj (hback.mp rfl))
        · exact fun h => h.1 hamp
    · have hlone : w ≠ loneAmpersand := by
        rintro rfl
        exact hamp rfl
      rw [if_neg hamp, if_neg hlone, terminated_runs_iff, List.length_map]
      constructor
      · intro h
        exact ⟨hamp, h.1⟩
      · intro h
        exact ⟨h.2, by simp [hlone], rfl⟩

/-- When a call does with the words of a command what it is for. -/
theorem zcfgSystem_runs_words_iff (hlen : cmd.length ≤ zosCmdMaxLen) (hcmd : 0 ∉ cmd) :
    RunsWords cmd ↔ WellSplit cmd := by
  unfold WellSplit
  by_cases hopen : leftOpen cmd = true
  · rw [if_pos hopen]
    exact runsWords_open_iff hlen hcmd hopen
  · rw [if_neg hopen]
    cases hlast : (wordsOf cmd).getLast? with
    | none =>
        apply iff_of_false (not_runsWords_of_none hlen hcmd hopen hlast)
        rintro ⟨last, hmem, -⟩
        cases hmem
    | some w =>
        rw [runsWords_last_iff hlen hcmd hopen hlast]
        simp only [Option.mem_def, Option.some.injEq, exists_eq_left']

/-- The command {lit}`a "b c" &`. -/
def quotedInBackground : List UInt8 :=
  [97, 32, 34, 98, 32, 99, 34, 32, 38]

theorem zcfgSystem_runs_words_quoted :
    RunsWords quotedInBackground ↔ WellSplit quotedInBackground :=
  zcfgSystem_runs_words_iff (by decide) (by decide)

example : zcfgSystem quotedInBackground = .run true [[97], [98, 32, 99]] := by
  decide +kernel

/-- The command {lit}`a &b` loses its last word and runs in the background. -/
theorem zcfgSystem_drops_argument :
    zcfgSystem [97, 32, 38, 98] = .run true [[97]] ∧
      wordsOf [97, 32, 38, 98] = [⟨false, [97]⟩, ⟨false, [38, 98]⟩] := by
  decide +kernel

end Zos
end ZyxelRouter
