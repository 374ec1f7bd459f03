import ZyxelRouter.FeTr98.Notify

/-!
# The lines of the map files

The map files hold for each object the references to the objects of the other data model, one member
on a line.  The migration to a new firmware rewrites the numbers in the references line by line, as
text: it looks for the key with {lit}`strstr`, takes the value apart with {lit}`sscanf` and prints a new
line.

Main results:

- Theorem {lit}`strstr_append_sep`: a word is searched on both sides of a character it does not hold.
- Theorem {lit}`convertLine_text`: the text of a line is rewritten to the text of the line with the new
  number, if the parameter name fits into its buffer.
-/

namespace ZyxelRouter
namespace FeTr98

open Lib FeString

/-! ## Searching a line -/

/-- A word without a character is a prefix in front of that character only. -/
theorem isPrefixOf_append_sep {sep : Char} (b : List Char) :
    ∀ {word : List Char} (a : List Char),
      sep ∉ word → word.isPrefixOf (a ++ sep :: b) = word.isPrefixOf a := by
  intro word
  induction word with
  | nil =>
      intro a _
      simp
  | cons w word ih =>
      intro a hsep
      cases a with
      | nil =>
          have hne : w ≠ sep := by
            rintro rfl
            exact hsep List.mem_cons_self
          simp [List.isPrefixOf, hne]
      | cons c a =>
          have hrest : sep ∉ word := fun h => hsep (List.mem_cons_of_mem _ h)
          simp only [List.cons_append, List.isPrefixOf]
          rw [ih a hrest]

/-- A word is found in front of a character it does not hold, or else behind it. -/
theorem strstr_append_sep {word : List Char} {sep : Char} (hne : word ≠ []) (hsep : sep ∉ word)
    (a b : List Char) :
    strstr word (a ++ sep :: b) =
      (strstr word a).or ((strstr word b).map (· + (a.length + 1))) := by
  induction a with
  | nil =>
      have hfront : word.isPrefixOf (sep :: b) = false := by
        have h := isPrefixOf_append_sep b [] hsep
        rw [List.nil_append] at h
        rw [h]
        cases word with
        | nil => exact absurd rfl hne
        | cons w word => rfl
      simp [strstr, hfront, hne]
  | cons c a ih =>
      have hfront := isPrefixOf_append_sep b (c :: a) hsep
      rw [List.cons_append] at hfront
      simp only [List.cons_append, strstr, hfront]
      split
      · rfl
      · rw [ih]
        cases strstr word a with
        | some pos => rfl
        | none =>
            cases strstr word b with
            | none => rfl
            | some pos =>
                simp only [Option.map_some, Option.none_or, Option.map_none, List.length_cons]
                congr 1

/-- A text without one of the characters of a word does not hold the word. -/
theorem strstr_eq_none_of_not_mem {word : List Char} {c : Char} (hc : c ∈ word) :
    ∀ s : List Char, c ∉ s → strstr word s = none := by
  intro s
  induction s with
  | nil =>
      intro _
      simp [strstr, List.ne_nil_of_mem hc]
  | cons x s ih =>
      intro hs
      have hfront : word.isPrefixOf (x :: s) = false := by
        rw [Bool.eq_false_iff]
        intro h
        exact hs ((List.isPrefixOf_iff_prefix.mp h).subset hc)
      simp [strstr, hfront, ih (fun h => hs (List.mem_cons_of_mem _ h))]

/-- A word at the front is found there. -/
theorem strstr_append_self (word rest : List Char) : strstr word (word ++ rest) = some 0 := by
  have hfront : word.isPrefixOf (word ++ rest) = true :=
    List.isPrefixOf_iff_prefix.mpr (List.prefix_append _ _)
  cases hline : word ++ rest with
  | nil => simp [strstr, (List.append_eq_nil_iff.mp hline).1]
  | cons c line =>
      rw [hline] at hfront
      simp [strstr, hfront]

/-- Blanks in front only shift the place of a word that does not start with one. -/
theorem strstr_blanks {w : Char} {word : List Char} (hw : w ≠ ' ') (n : Nat) (s : List Char) :
    strstr (w :: word) (List.replicate n ' ' ++ s) = (strstr (w :: word) s).map (· + n) := by
  induction n with
  | zero => simp
  | succ n ih =>
      rw [List.replicate_succ, List.cons_append]
      simp only [strstr, List.isPrefixOf, ih]
      have hfalse : (w == ' ') = false := by simpa using hw
      rw [hfalse]
      cases strstr (w :: word) s <;> simp
      omega

/-! ## Members -/

/-- The map file of TR-098 holds references to TR-181 objects, and the other way round. -/
inductive MapFile where
  | tr98
  | tr181
deriving DecidableEq, Repr

/-- The key of a reference from an object to an object. -/
def MapFile.tag : MapFile → List Char
  | .tr98 => "181mapping".toList
  | .tr181 => "98mapping".toList

/-- How far the value is behind the place of the key. -/
def MapFile.tagOffset : MapFile → Nat
  | .tr98 => 13
  | .tr181 => 12

/-- The key of a reference from a parameter to a parameter, with its quotes. -/
def mappingTag : List Char := "\"mapping\"".toList

/-- The indices behind the first one, each with a dot. -/
def dottedIdx : List UInt8 → List Char
  | [] => []
  | i :: rest => '.' :: (decimal i.toNat ++ dottedIdx rest)

/-- The instance in {lit}`zcfgObjIidToMappingName`: the indices up to the first zero. -/
def mappingIdx (objIid : ObjIndex) : List Char :=
  match objIid.idx.takeWhile (· ≠ 0) with
  | [] => ['-']
  | i :: rest => decimal i.toNat ++ dottedIdx rest

/-- A reference: the number of an object and an instance of it. -/
structure ObjRef where
  num : UInt32
  objIid : ObjIndex
deriving DecidableEq

/-- {lit}`zcfgObjIidToMappingName`. -/
def ObjRef.mappingName (ref : ObjRef) : List Char :=
  decimal ref.num.toNat ++ '_' :: mappingIdx ref.objIid

/-- A reference to a parameter.  The name of a parameter is one word and holds none of the keys. -/
structure ParmRef extends ObjRef where
  parm : List Char
  word : ∀ c ∈ parm, isSpace c = false
  tag_free : ∀ file : MapFile, strstr file.tag parm = none

/-- How a line stands to the nesting of the members. -/
inductive Nesting where
  | inside
  | opening
  | closing
deriving DecidableEq, Repr

/-- Any other line: it holds none of the keys. -/
structure PlainText where
  text : List Char
  nesting : Nesting
  tag_free : ∀ file : MapFile, strstr file.tag text = none
  mapping_free : strstr mappingTag text = none
  one_line : '\n' ∉ text

/-- What stands on a line. -/
inductive Member where
  | plain (text : PlainText)
  | objMapping (ref : ObjRef)
  | mapping (ref : ParmRef)

/-- How a member stands to the nesting. -/
def Member.nesting : Member → Nesting
  | .plain text => text.nesting
  | .objMapping _ => .inside
  | .mapping _ => .inside

/-- The text of a member in one of the files. -/
def Member.text (file : MapFile) : Member → List Char
  | .plain text => text.text
  | .objMapping ref => '"' :: file.tag ++ "\":\"".toList ++ ref.mappingName ++ ['"']
  | .mapping ref =>
      mappingTag ++ ":\"".toList ++ ref.mappingName ++ '_' :: ref.parm ++ ['"']

/-- A line of the file. -/
structure TextLine where
  indent : Nat
  member : Member
  comma : Bool
  newline : Bool

/-- The text of a line. -/
def TextLine.text (file : MapFile) (line : TextLine) : List Char :=
  List.replicate line.indent ' ' ++ line.member.text file ++ (if line.comma then [','] else []) ++
    (if line.newline then ['\n'] else [])

/-! ## Rewriting a line -/

/-- The size of {lit}`objStr` and {lit}`idxstr`. -/
def objStrSize : Nat := 30

/-- {lit}`(uint32_t)atol(objStr)`. -/
def atolU32 (objStr : List Char) : UInt32 :=
  UInt32.ofNat (atoi objStr % 2 ^ 32).toNat

/-- A line with the key of the file at a position: {lit}`sscanf` with {lit}`"%[^_]_%[^_]"` and the line
with the new number.  Without a new number the line stays; {lit}`none` is a write behind a buffer. -/
def convertObjLine (file : MapFile) (queryNew : UInt32 → UInt32) (line : List Char) (pos : Nat) :
    Option (List Char) :=
  let str := line.drop (pos + file.tagOffset)
  let objStr := str.takeWhile (· ≠ '_')
  let idxstr := (str.drop (objStr.length + 1)).takeWhile (· ≠ '_')
  if objStr = [] then some line
  else if objStrSize ≤ objStr.length then none
  else if idxstr = [] then some line
  else if objStrSize ≤ idxstr.length then none
  else
    let newnum := queryNew (atolU32 objStr)
    if newnum = 0 then some line
    else
      some ("      \"".toList ++ file.tag ++ "\":\"".toList ++ decimal newnum.toNat ++
        '_' :: idxstr)

/-- A line with {lit}`"mapping"` at a position: {lit}`sscanf` with {lit}`"%[^_]_%[^_]_%s"`. -/
def convertParmLine (queryNew : UInt32 → UInt32) (line : List Char) (pos : Nat) :
    Option (List Char) :=
  let str := line.drop (pos + 11)
  let objStr := str.takeWhile (· ≠ '_')
  let str := str.drop (objStr.length + 1)
  let idxstr := str.takeWhile (· ≠ '_')
  let str := str.drop (idxstr.length + 1)
  let parmName := (str.dropWhile isSpace).takeWhile (fun c => !isSpace c)
  if objStr = [] then some line
  else if objStrSize ≤ objStr.length then none
  else if idxstr = [] then some line
  else if objStrSize ≤ idxstr.length then none
  else if parmName = [] then some line
  else if maxParmnameLen ≤ parmName.length then none
  else
    let newnum := queryNew (atolU32 objStr)
    if newnum = 0 then some line
    else
      some ("      \"mapping\":\"".toList ++ decimal newnum.toNat ++ '_' :: idxstr ++
        '_' :: parmName)

/-- One round of the loop over the lines. -/
def convertLine (file : MapFile) (queryNew : UInt32 → UInt32) (line : List Char) :
    Option (List Char) :=
  match strstr file.tag line with
  | some pos => convertObjLine file queryNew line pos
  | none =>
      match strstr mappingTag line with
      | some pos => convertParmLine queryNew line pos
      | none => some line

/-! ## Lines with new numbers -/

/-- The number a reference has afterwards. -/
def renumber (queryNew : UInt32 → UInt32) (num : UInt32) : UInt32 :=
  if queryNew num = 0 then num else queryNew num

/-- The same member with the new number. -/
def Member.renumber (queryNew : UInt32 → UInt32) : Member → Member
  | .plain text => .plain text
  | .objMapping ref => .objMapping { ref with num := FeTr98.renumber queryNew ref.num }
  | .mapping ref => .mapping { ref with num := FeTr98.renumber queryNew ref.num }

/-- The length of the parameter name of a member. -/
def Member.parmLength : Member → Nat
  | .mapping ref => ref.parm.length
  | _ => 0

/-- The parameter name and what stands behind it up to the end of the line is shorter than its
buffer. -/
def TextLine.Fits (line : TextLine) : Prop :=
  line.member.parmLength + 1 + line.comma.toNat < maxParmnameLen

instance (line : TextLine) : Decidable line.Fits :=
  inferInstanceAs (Decidable (_ < _))

/-- The line that is printed: with a new number it is indented as the source has it, and behind a
parameter the newline is lost. -/
def TextLine.convert (queryNew : UInt32 → UInt32) (line : TextLine) : TextLine :=
  match line.member with
  | .plain _ => line
  | .objMapping ref =>
      if queryNew ref.num = 0 then line
      else { line with indent := 6, member := line.member.renumber queryNew }
  | .mapping ref =>
      if queryNew ref.num = 0 then line
      else { line with indent := 6, member := line.member.renumber queryNew, newline := false }

/-! ## What {lit}`sscanf` reads -/

theorem not_mem_decimal {c : Char} (hc : c.isDigit = false) (n : Nat) : c ∉ decimal n := by
  intro h
  rw [isDigit_of_mem_decimal h] at hc
  exact absurd hc (by decide)

theorem not_mem_dottedIdx {c : Char} (hc : c.isDigit = false) (hdot : c ≠ '.') :
    ∀ idx : List UInt8, c ∉ dottedIdx idx := by
  intro idx
  induction idx with
  | nil => simp [dottedIdx]
  | cons i idx ih =>
      simp only [dottedIdx, List.mem_cons, List.mem_append, not_or]
      exact ⟨hdot, not_mem_decimal hc _, ih⟩

/-- An instance is written with digits, dots and a minus. -/
theorem not_mem_mappingIdx {c : Char} (hc : c.isDigit = false) (hdot : c ≠ '.') (hminus : c ≠ '-')
    (objIid : ObjIndex) : c ∉ mappingIdx objIid := by
  unfold mappingIdx
  split
  · simpa using hminus
  · rw [List.mem_append, not_or]
    exact ⟨not_mem_decimal hc _, not_mem_dottedIdx hc hdot _⟩

theorem mappingIdx_ne_nil (objIid : ObjIndex) : mappingIdx objIid ≠ [] := by
  unfold mappingIdx
  split
  · simp
  · simp [decimal_ne_nil]

theorem length_dottedIdx_le : ∀ idx : List UInt8, (dottedIdx idx).length ≤ 4 * idx.length := by
  intro idx
  induction idx with
  | nil => simp [dottedIdx]
  | cons i idx ih =>
      have hdigits := length_decimal_le i
      simp only [dottedIdx, List.length_cons, List.length_append]
      omega

/-- Six numbers of three digits with the dots between them. -/
theorem length_mappingIdx_le (objIid : ObjIndex) : (mappingIdx objIid).length ≤ 23 := by
  unfold mappingIdx
  split
  · simp
  · rename_i i rest hidx
    have hprefix := (List.takeWhile_prefix (p := fun i => decide (i ≠ 0)) (l := objIid.idx)).length_le
    rw [hidx, objIid.idx_length] at hprefix
    have hshort : rest.length ≤ 5 := Nat.le_of_succ_le_succ hprefix
    have hrest := length_dottedIdx_le rest
    have hdigits := length_decimal_le i
    rw [List.length_append]
    omega

theorem length_decimal_uint32_le (n : UInt32) : (decimal n.toNat).length ≤ 10 := by
  have hlt : n.toNat < 10 ^ 10 := Nat.lt_of_lt_of_le n.toNat_lt (by decide)
  exact (Nat.length_toDigits_le_iff (by decide) (by decide)).mpr hlt

theorem atolU32_decimal (n : UInt32) : atolU32 (decimal n.toNat) = n := by
  have hlt : n.toNat < 2 ^ 32 := n.toNat_lt
  rw [atolU32, atoi_digits (decimal_ne_nil _) (fun c hc => isDigit_of_mem_decimal hc),
    digitsValue_decimal]
  have hmod : ((n.toNat : Int) % 2 ^ 32).toNat = n.toNat := by omega
  rw [hmod, UInt32.ofNat_toNat]

/-- {lit}`%[^_]` stops in front of the first underscore. -/
theorem takeWhile_underscore {a : List Char} (ha : '_' ∉ a) (b : List Char) :
    (a ++ '_' :: b).takeWhile (· ≠ '_') = a := by
  have hall : ∀ c ∈ a, decide (c ≠ '_') = true := by
    intro c hc
    rw [decide_eq_true_eq]
    rintro rfl
    exact ha hc
  rw [List.takeWhile_append_of_pos hall]
  simp

theorem drop_underscore (a b : List Char) : (a ++ '_' :: b).drop (a.length + 1) = b := by
  rw [← List.drop_drop, List.drop_left, List.drop_succ_cons, List.drop_zero]

/-- Without an underscore {lit}`%[^_]` takes everything. -/
theorem takeWhile_no_underscore {a : List Char} (ha : '_' ∉ a) :
    a.takeWhile (· ≠ '_') = a := by
  rw [List.takeWhile_eq_self_iff]
  intro c hc
  rw [decide_eq_true_eq]
  rintro rfl
  exact ha hc

/-- A line with a reference to an object: the number is replaced, if there is a new one. -/
theorem convertObjLine_eq (file : MapFile) (queryNew : UInt32 → UInt32) {line idxstr : List Char}
    {pos : Nat} {num : UInt32}
    (hdrop : line.drop (pos + file.tagOffset) = decimal num.toNat ++ '_' :: idxstr)
    (hne : idxstr ≠ []) (hidx : '_' ∉ idxstr) (hlen : idxstr.length < objStrSize) :
    convertObjLine file queryNew line pos =
      some (if queryNew num = 0 then line
        else "      \"".toList ++ file.tag ++ "\":\"".toList ++ decimal (queryNew num).toNat ++
          '_' :: idxstr) := by
  have hnum : '_' ∉ decimal num.toNat := not_mem_decimal (by decide) _
  have hshort : ¬ objStrSize ≤ (decimal num.toNat).length := by
    have := length_decimal_uint32_le num
    unfold objStrSize
    omega
  unfold convertObjLine
  simp only [hdrop, takeWhile_underscore hnum, drop_underscore, takeWhile_no_underscore hidx,
    atolU32_decimal]
  rw [if_neg (decimal_ne_nil _), if_neg hshort, if_neg hne, if_neg (by omega)]
  split <;> rfl

/-- A line with a reference to a parameter. -/
theorem convertParmLine_eq (queryNew : UInt32 → UInt32) {line word : List Char} {pos : Nat}
    (ref : ObjRef)
    (hdrop : line.drop (pos + 11) = ref.mappingName ++ '_' :: (word ++ ['\n']))
    (hne : word ≠ []) (hword : ∀ c ∈ word, isSpace c = false) :
    convertParmLine queryNew line pos =
      if maxParmnameLen ≤ word.length then none
      else some (if queryNew ref.num = 0 then line
        else "      \"mapping\":\"".toList ++ decimal (queryNew ref.num).toNat ++
          '_' :: mappingIdx ref.objIid ++ '_' :: word) := by
  have hnum : '_' ∉ decimal ref.num.toNat := not_mem_decimal (by decide) _
  have hidx : '_' ∉ mappingIdx ref.objIid :=
    not_mem_mappingIdx (by decide) (by decide) (by decide) _
  have hshort : ¬ objStrSize ≤ (decimal ref.num.toNat).length := by
    have := length_decimal_uint32_le ref.num
    unfold objStrSize
    omega
  have hkey : ¬ objStrSize ≤ (mappingIdx ref.objIid).length := by
    have := length_mappingIdx_le ref.objIid
    unfold objStrSize
    omega
  have hskip : (word ++ ['\n']).dropWhile isSpace = word ++ ['\n'] := by
    obtain ⟨c, cs, rfl⟩ := List.exists_cons_of_ne_nil hne
    rw [List.cons_append, List.dropWhile_cons_of_neg]
    simp [hword c List.mem_cons_self]
  have hscan : (word ++ ['\n']).takeWhile (fun c => !isSpace c) = word := by
    have hall : ∀ c ∈ word, (!isSpace c) = true := by
      intro c hc
      rw [hword c hc]
      rfl
    rw [List.takeWhile_append_of_pos hall]
    simp [isSpace]
  have hstr : ref.mappingName ++ '_' :: (word ++ ['\n']) =
      decimal ref.num.toNat ++ '_' :: (mappingIdx ref.objIid ++ '_' :: (word ++ ['\n'])) := by
    simp [ObjRef.mappingName]
  unfold convertParmLine
  simp only [hdrop, hstr, takeWhile_underscore hnum, drop_underscore, takeWhile_underscore hidx,
    hskip, hscan, atolU32_decimal]
  rw [if_neg (decimal_ne_nil _), if_neg hshort, if_neg (mappingIdx_ne_nil _), if_neg hkey,
    if_neg hne]
  split
  · rfl
  · split <;> rfl

/-! ## The place of the keys -/

/-- What stands behind a member on its line. -/
def TextLine.ending (line : TextLine) : List Char :=
  (if line.comma then [','] else []) ++ (if line.newline then ['\n'] else [])

theorem TextLine.text_eq (file : MapFile) (line : TextLine) :
    line.text file =
      List.replicate line.indent ' ' ++ (line.member.text file ++ line.ending) := by
  simp [TextLine.text, TextLine.ending]

/-- Indentation, comma and newline add no occurrence of a word. -/
theorem strstr_line_eq_none {w : Char} {word : List Char} (hblank : w ≠ ' ')
    (hcomma : ',' ∉ w :: word) (hnewline : '\n' ∉ w :: word) {file : MapFile} {line : TextLine}
    (h : strstr (w :: word) (line.member.text file) = none) :
    strstr (w :: word) (line.text file) = none := by
  have hnil : strstr (w :: word) [] = none := rfl
  have hne : w :: word ≠ [] := List.cons_ne_nil _ _
  rw [TextLine.text_eq, strstr_blanks hblank, TextLine.ending, Option.map_eq_none_iff]
  cases line.comma <;> cases line.newline
  · simpa using h
  · simp [strstr_append_sep hne hnewline, h, hnil]
  · simp [strstr_append_sep hne hcomma, h, hnil]
  · have hbehind : strstr (w :: word) ['\n'] = none := by
      have h := strstr_append_sep hne hnewline [] []
      simpa [hnil] using h
    simp [strstr_append_sep hne hcomma, h, hbehind]

theorem strstr_tag_eq_none {file : MapFile} {line : TextLine}
    (h : strstr file.tag (line.member.text file) = none) :
    strstr file.tag (line.text file) = none := by
  cases file with
  | tr98 => exact strstr_line_eq_none (by decide) (by decide) (by decide) h
  | tr181 => exact strstr_line_eq_none (by decide) (by decide) (by decide) h

theorem mappingTag_eq : mappingTag = '"' :: ("mapping".toList ++ ['"']) := by
  decide

/-- A line with a reference to a parameter does not hold the other key. -/
theorem strstr_tag_mapping (file : MapFile) (ref : ParmRef) :
    strstr file.tag ((Member.mapping ref).text file) = none := by
  have hne : file.tag ≠ [] := by cases file <;> decide
  have hquote : '"' ∉ file.tag := by cases file <;> decide
  have hunder : '_' ∉ file.tag := by cases file <;> decide
  have hm : 'm' ∈ file.tag := by cases file <;> decide
  have hkey : strstr file.tag "mapping".toList = none := by cases file <;> decide
  have hnil : strstr file.tag [] = none := by cases file <;> rfl
  have hcolon : strstr file.tag [':'] = none := strstr_eq_none_of_not_mem hm _ (by decide)
  have hnum : strstr file.tag (decimal ref.num.toNat) = none :=
    strstr_eq_none_of_not_mem hm _ (not_mem_decimal (by decide) _)
  have hidx : strstr file.tag (mappingIdx ref.objIid) = none :=
    strstr_eq_none_of_not_mem hm _
      (not_mem_mappingIdx (by decide) (by decide) (by decide) _)
  have hvalue : ":\"".toList = [':', '"'] := by decide
  have htext : (Member.mapping ref).text file =
      [] ++ '"' :: ("mapping".toList ++ '"' :: ([':'] ++ '"' :: (decimal ref.num.toNat ++
        '_' :: (mappingIdx ref.objIid ++ '_' :: (ref.parm ++ '"' :: []))))) := by
    simp only [Member.text, mappingTag_eq, hvalue, ObjRef.mappingName, List.cons_append, List.append_assoc,
      List.nil_append]
  rw [htext]
  simp only [strstr_append_sep hne hquote, strstr_append_sep hne hunder, hnil, hkey, hcolon, hnum,
    hidx, ref.tag_free file, Option.map_none, Option.or_none]

theorem strstr_tag_blanks (file : MapFile) (n : Nat) (s : List Char) :
    strstr file.tag (List.replicate n ' ' ++ s) = (strstr file.tag s).map (· + n) := by
  cases file with
  | tr98 => exact strstr_blanks (by decide) n s
  | tr181 => exact strstr_blanks (by decide) n s

/-- Where the key of a reference to an object stands. -/
theorem strstr_tag_objMapping {file : MapFile} {line : TextLine} {ref : ObjRef}
    (h : line.member = .objMapping ref) :
    strstr file.tag (line.text file) = some (line.indent + 1) := by
  have hne : file.tag ≠ [] := by cases file <;> decide
  have hquote : '"' ∉ file.tag := by cases file <;> decide
  have hnil : strstr file.tag [] = none := by cases file <;> rfl
  have htext : (Member.objMapping ref).text file ++ line.ending =
      [] ++ '"' :: (file.tag ++ ("\":\"".toList ++ ref.mappingName ++ ['"'] ++ line.ending)) := by
    simp only [Member.text, List.cons_append, List.append_assoc, List.nil_append]
  rw [TextLine.text_eq, h, strstr_tag_blanks, htext, strstr_append_sep hne hquote, hnil,
    strstr_append_self]
  simp [Nat.add_comm]

/-- Where the key of a reference to a parameter stands. -/
theorem strstr_mapping {file : MapFile} {line : TextLine} {ref : ParmRef}
    (h : line.member = .mapping ref) :
    strstr mappingTag (line.text file) = some line.indent := by
  have hblanks : ∀ s, strstr mappingTag (List.replicate line.indent ' ' ++ s) =
      (strstr mappingTag s).map (· + line.indent) := strstr_blanks (by decide) _
  rw [TextLine.text_eq, h, hblanks]
  simp only [Member.text, List.append_assoc]
  rw [strstr_append_self]
  simp

/-! ## The text of a rewritten line -/

/-- A new number only changes the number. -/
theorem TextLine.convert_member (queryNew : UInt32 → UInt32) (line : TextLine) :
    (line.convert queryNew).member = line.member.renumber queryNew := by
  unfold TextLine.convert
  cases hmember : line.member with
  | plain text => exact hmember
  | objMapping ref =>
      by_cases hnew : queryNew ref.num = 0
      · simp [hnew, Member.renumber, FeTr98.renumber, hmember]
      · simp [hnew]
  | mapping ref =>
      by_cases hnew : queryNew ref.num = 0
      · simp [hnew, Member.renumber, FeTr98.renumber, hmember]
      · simp [hnew]

theorem TextLine.convert_comma (queryNew : UInt32 → UInt32) (line : TextLine) :
    (line.convert queryNew).comma = line.comma := by
  unfold TextLine.convert
  split
  · rfl
  · split <;> rfl
  · split <;> rfl

/-- The number of a reference to an object is rewritten. -/
theorem convertLine_objMapping (file : MapFile) (queryNew : UInt32 → UInt32) {line : TextLine}
    {ref : ObjRef} (hmember : line.member = .objMapping ref) :
    convertLine file queryNew (line.text file) = some ((line.convert queryNew).text file) := by
  have hoffset : ('"' :: file.tag ++ "\":\"".toList).length = file.tagOffset + 1 := by
    cases file <;> rfl
  have hunder : '_' ∉ mappingIdx ref.objIid ++ '"' :: line.ending := by
    have hidx : '_' ∉ mappingIdx ref.objIid :=
      not_mem_mappingIdx (by decide) (by decide) (by decide) _
    unfold TextLine.ending
    cases line.comma <;> cases line.newline <;> simp [hidx]
  have hlength : (mappingIdx ref.objIid ++ '"' :: line.ending).length < objStrSize := by
    have hidx := length_mappingIdx_le ref.objIid
    have hending : line.ending.length ≤ 2 := by
      unfold TextLine.ending
      cases line.comma <;> cases line.newline <;> simp
    simp only [List.length_append, List.length_cons, objStrSize]
    omega
  have htext : line.text file = (List.replicate line.indent ' ' ++
      ('"' :: file.tag ++ "\":\"".toList)) ++
        (decimal ref.num.toNat ++ '_' :: (mappingIdx ref.objIid ++ '"' :: line.ending)) := by
    rw [TextLine.text_eq, hmember]
    simp only [Member.text, ObjRef.mappingName, List.cons_append, List.append_assoc,
      List.nil_append]
  have hdrop : (line.text file).drop (line.indent + 1 + file.tagOffset) =
      decimal ref.num.toNat ++ '_' :: (mappingIdx ref.objIid ++ '"' :: line.ending) := by
    rw [htext]
    apply List.drop_left'
    rw [List.length_append, List.length_replicate, hoffset]
    omega
  have hconvert := convertObjLine_eq file queryNew hdrop (by simp) hunder hlength
  unfold convertLine TextLine.convert
  rw [strstr_tag_objMapping hmember]
  simp only [hconvert, hmember]
  split
  · rfl
  · rename_i hnew
    have hindent : "      \"".toList = List.replicate 6 ' ' ++ ['"'] := by decide
    rw [TextLine.text_eq, hindent]
    simp only [Member.renumber, FeTr98.renumber, if_neg hnew, Member.text, ObjRef.mappingName,
      TextLine.ending, List.cons_append, List.append_assoc, List.nil_append]

/-- The number of a reference to a parameter is rewritten, if the parameter name fits. -/
theorem convertLine_mapping (file : MapFile) (queryNew : UInt32 → UInt32) {line : TextLine}
    (hnewline : line.newline = true) {ref : ParmRef} (hmember : line.member = .mapping ref) :
    convertLine file queryNew (line.text file) =
      if line.Fits then some ((line.convert queryNew).text file) else none := by
  have htag : strstr file.tag (line.text file) = none := by
    apply strstr_tag_eq_none
    rw [hmember]
    exact strstr_tag_mapping file ref
  have hoffset : (mappingTag ++ ":\"".toList).length = 11 := rfl
  let word := ref.parm ++ '"' :: (if line.comma then [','] else [])
  have hword : ∀ c ∈ word, isSpace c = false := by
    intro c hc
    rcases List.mem_append.mp hc with hparm | hbehind
    · exact ref.word c hparm
    · cases hcomma : line.comma <;> simp [hcomma] at hbehind
      · rw [hbehind]
        decide
      · rcases hbehind with rfl | rfl <;> decide
  have hfits : line.Fits ↔ ¬ maxParmnameLen ≤ word.length := by
    simp only [TextLine.Fits, hmember, Member.parmLength, word, List.length_append,
      List.length_cons, Nat.not_le]
    cases line.comma <;> simp [Nat.add_assoc]
  have htext : line.text file = (List.replicate line.indent ' ' ++ (mappingTag ++ ":\"".toList)) ++
      (ref.mappingName ++ '_' :: (word ++ ['\n'])) := by
    rw [TextLine.text_eq, hmember]
    simp only [Member.text, TextLine.ending, hnewline, word, if_true, List.cons_append,
      List.append_assoc, List.nil_append]
  have hdrop : (line.text file).drop (line.indent + 11) =
      ref.mappingName ++ '_' :: (word ++ ['\n']) := by
    rw [htext]
    apply List.drop_left'
    rw [List.length_append, List.length_replicate, hoffset]
  have hconvert := convertParmLine_eq queryNew ref.toObjRef hdrop (by simp [word]) hword
  unfold convertLine TextLine.convert
  rw [htag]
  simp only [strstr_mapping hmember, hconvert, hmember, hfits]
  by_cases hlong : maxParmnameLen ≤ word.length
  · simp [hlong]
  · rw [if_neg hlong, if_pos hlong]
    congr 1
    split
    · rfl
    · rename_i hnew
      have hindent : "      \"mapping\":\"".toList =
          List.replicate 6 ' ' ++ (mappingTag ++ ":\"".toList) := by decide
      rw [TextLine.text_eq, hindent]
      simp only [Member.renumber, FeTr98.renumber, if_neg hnew, Member.text, ObjRef.mappingName,
        TextLine.ending, word, List.cons_append, List.append_assoc, List.nil_append,
        Bool.false_eq_true, if_false, List.append_nil]

/-- The text of a line is rewritten to the text of the line with the new number. -/
theorem convertLine_text (file : MapFile) (queryNew : UInt32 → UInt32) (line : TextLine)
    (hnewline : line.newline = true) :
    convertLine file queryNew (line.text file) =
      if line.Fits then some ((line.convert queryNew).text file) else none := by
  cases hmember : line.member with
  | plain text =>
      have htag : strstr file.tag (line.text file) = none := by
        apply strstr_tag_eq_none
        rw [hmember]
        exact text.tag_free file
      have hmapping : strstr mappingTag (line.text file) = none := by
        have hfree := text.mapping_free
        rw [mappingTag_eq] at hfree ⊢
        apply strstr_line_eq_none (by decide) (by decide) (by decide)
        rw [hmember]
        exact hfree
      have hfits : line.Fits := by
        simp only [TextLine.Fits, hmember, Member.parmLength, maxParmnameLen]
        cases line.comma <;> decide
      unfold convertLine TextLine.convert
      simp only [htag, hmapping, hmember, if_pos hfits]
  | objMapping ref =>
      have hfits : line.Fits := by
        simp only [TextLine.Fits, hmember, Member.parmLength, maxParmnameLen]
        cases line.comma <;> decide
      rw [if_pos hfits]
      exact convertLine_objMapping file queryNew hmember
  | mapping ref => exact convertLine_mapping file queryNew hnewline hmember

end FeTr98
end ZyxelRouter
