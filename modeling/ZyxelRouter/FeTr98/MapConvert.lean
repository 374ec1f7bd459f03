import Mathlib.Data.PEquiv
import ZyxelRouter.Lib.KeyedTable
import ZyxelRouter.Lib.TextLines
import ZyxelRouter.FeTr98.MapLines

/-!
# Migration of the map files

A new firmware numbers the TR-098 and the TR-181 objects anew.  The map files have been saved with the
name of each object; the migration makes tables from the old to the new numbers out of the names,
rewrites the references in the text, reads the text and moves each entry to its new number.

A reference to an object that is not in its table keeps its old number.

Main results:

- Theorem {lit}`convertText_saved`: the text is rewritten to a text of the file with new numbers.
- Theorem {lit}`queryNewSeqnum98_eq`, {lit}`queryNewSeqnum181_eq`: which numbers the tables hold.
-/

namespace ZyxelRouter
namespace FeTr98

open Lib FeString

/-! ## The files -/

/-- The line that holds the name of an object. -/
def nameText (name : List Char) : List Char :=
  "\"name\":\"".toList ++ name ++ ['"']

/-- The name of an object in a file. -/
structure ObjName where
  text : List Char
  tag_free : ∀ file : MapFile, strstr file.tag (nameText text) = none
  mapping_free : strstr mappingTag (nameText text) = none
  one_line : '\n' ∉ nameText text

/-- The member with a name. -/
def ObjName.member (name : ObjName) : Member :=
  .plain
    { text := nameText name.text
      nesting := .inside
      tag_free := name.tag_free
      mapping_free := name.mapping_free
      one_line := name.one_line }

/-- The entry of an object: the members in the order of their lines.  A nested object is an opening
and a closing line. -/
structure Entry where
  name : Option ObjName
  body : List Member

/-- The lines of an entry; the name has been added last. -/
def Entry.lines (e : Entry) : List Member :=
  e.body ++ (e.name.map ObjName.member).toList

/-- A line of the frame around the entries. -/
def frame (text : List Char) (nesting : Nesting)
    (tag_free : ∀ file : MapFile, strstr file.tag text = none)
    (mapping_free : strstr mappingTag text = none) (one_line : '\n' ∉ text) : Member :=
  .plain { text, nesting, tag_free, mapping_free, one_line }

def openArray : Member :=
  frame ['['] .opening (by intro file; cases file <;> decide) (by decide) (by decide)

def closeArray : Member :=
  frame [']'] .closing (by intro file; cases file <;> decide) (by decide) (by decide)

def openObject : Member :=
  frame ['{'] .opening (by intro file; cases file <;> decide) (by decide) (by decide)

def closeObject : Member :=
  frame ['}'] .closing (by intro file; cases file <;> decide) (by decide) (by decide)

def nullElement : Member :=
  frame "null".toList .inside (by intro file; cases file <;> decide) (by decide) (by decide)

/-- The text in front of an entry with a number. -/
def numberText (num : UInt32) : List Char :=
  '"' :: (decimal num.toNat ++ ['"', ':', '{'])

theorem not_mem_numberText {c : Char} (hc : c.isDigit = false) (hother : c ∉ ['"', ':', '{'])
    (num : UInt32) : c ∉ numberText num := by
  unfold numberText
  simp only [List.mem_cons, List.mem_append, List.not_mem_nil, or_false, not_or] at hother ⊢
  exact ⟨hother.1, not_mem_decimal hc _, hother⟩

/-- The line in front of an entry with a number. -/
def openNumber (num : UInt32) : Member :=
  frame (numberText num) .opening
    (by
      intro file
      have hm : 'm' ∈ file.tag := by cases file <;> decide
      exact strstr_eq_none_of_not_mem hm _ (not_mem_numberText (by decide) (by decide) _))
    (strstr_eq_none_of_not_mem (c := 'm') (by decide) _
      (not_mem_numberText (by decide) (by decide) _))
    (not_mem_numberText (by decide) (by decide) _)

/-- The lines of the TR-098 file: an array with the entries in the order of the sequence numbers. -/
def lines98 (saved : List (Option Entry)) : List Member :=
  openArray :: (saved.flatMap (fun
    | none => [nullElement]
    | some e => openObject :: (e.lines ++ [closeObject])) ++ [closeArray])

/-- The lines of the TR-181 file: an object with the object numbers as keys. -/
def lines181 (saved : KeyedTable UInt32 Entry) : List Member :=
  openObject :: (saved.rows.flatMap (fun row =>
    openNumber row.1 :: (row.2.lines ++ [closeObject])) ++ [closeObject])

/-- Whether a comma stands between a line and the next one. -/
def needsComma (m : Member) (next : Option Member) : Bool :=
  m.nesting ≠ .opening && next.any (fun n => n.nesting ≠ .closing)

/-- The lines with their commas. -/
def withCommas : List Member → List (Member × Bool)
  | [] => []
  | m :: rest => (m, needsComma m rest.head?) :: withCommas rest

/-- The lines are a text of the members; indentation and newlines are free. -/
def IsRendering (lines : List TextLine) (members : List Member) : Prop :=
  lines.map (fun l => (l.member, l.comma)) = withCommas members

/-- The text of the lines. -/
def textOf (file : MapFile) (lines : List TextLine) : List Char :=
  (lines.map (TextLine.text file)).flatten

/-- A file as it was saved: one member on a line, and the lines are short. -/
structure SavedText (file : MapFile) (members : List Member) where
  lines : List TextLine
  renders : IsRendering lines members
  newline : ∀ l ∈ lines, l.newline = true
  short : ∀ l ∈ lines, (l.text file).length < 256

/-! ## Adding the names -/

/-- {lit}`zcfgTr98MapAddObjName`: each entry gets the name of its sequence number. -/
def zcfgTr98MapAddObjName (names : List ObjName) (map : List (Option Entry)) :
    List (Option Entry) :=
  map.mapIdx (fun arrayIdx entry =>
    entry.map (fun e =>
      match names[arrayIdx]? with
      | none => e
      | some name => if name.text = [] then e else { e with name := some name }))

/-- {lit}`zcfgTr181MapAddObjName`: each entry gets the name of its object number. -/
def zcfgTr181MapAddObjName (oidToName : UInt32 → Option ObjName) (map : KeyedTable UInt32 Entry) :
    KeyedTable UInt32 Entry where
  rows := map.rows.map (fun row =>
    match oidToName row.1 with
    | none => row
    | some name => (row.1, { row.2 with name := some name }))
  nodup := by
    have hkeys : ∀ row : UInt32 × Entry, (match oidToName row.1 with
        | none => row
        | some name => (row.1, { row.2 with name := some name })).1 = row.1 := by
      intro row
      split <;> rfl
    rw [List.map_map]
    simpa only [Function.comp_def, hkeys] using map.nodup

/-- Every entry of an object of the table carries its name. -/
theorem mapAddObjName98_named {names : List ObjName} {map : List (Option Entry)}
    (hnamed : ∀ name ∈ names, name.text ≠ []) (hlength : map.length ≤ names.length) {i : Nat}
    {e : Entry} (h : (zcfgTr98MapAddObjName names map)[i]? = some (some e)) :
    ∃ name, e.name = some name ∧ names[i]? = some name := by
  rw [zcfgTr98MapAddObjName, List.getElem?_mapIdx, Option.map_eq_some_iff] at h
  obtain ⟨entry, hentry, hadd⟩ := h
  obtain ⟨e', rfl, rfl⟩ := Option.map_eq_some_iff.mp hadd
  have hlt : i < names.length := by
    have := (List.getElem?_eq_some_iff.mp hentry).1
    omega
  have hne : names[i].text ≠ [] := hnamed _ (List.getElem_mem hlt)
  refine ⟨names[i], ?_, List.getElem?_eq_getElem hlt⟩
  rw [List.getElem?_eq_getElem hlt]
  simp only [if_neg hne]

/-- Every entry of an object of the schema carries its name. -/
theorem mapAddObjName181_named {oidToName : UInt32 → Option ObjName} {map : KeyedTable UInt32 Entry}
    (hoids : ∀ row ∈ map.rows, (oidToName row.1).isSome) {row : UInt32 × Entry}
    (h : row ∈ (zcfgTr181MapAddObjName oidToName map).rows) :
    ∃ name, row.2.name = some name ∧ oidToName row.1 = some name := by
  obtain ⟨row', hrow', rfl⟩ := List.mem_map.mp h
  obtain ⟨name, hname⟩ := Option.isSome_iff_exists.mp (hoids row' hrow')
  rw [hname]
  exact ⟨name, rfl, hname⟩

/-! ## The tables from old to new numbers -/

/-- The number of rounds of the loops over the sequence numbers, up to {lit}`e_TR98_LAST+100`. -/
def seqnumRounds (table : NameTable) : Nat :=
  eTr98Last table + 100 - eTr98Start

/-- {lit}`json_object_array_get_idx`: an element that is there and not null. -/
def arrayGetIdx {α : Type} (array : List (Option α)) (arrayIdx : Nat) : Option α :=
  (array[arrayIdx]?).join

/-- The new sequence number of a saved entry. -/
def newSeqnum (table : NameTable) (e : Entry) : Option UInt32 :=
  match e.name with
  | none => none
  | some name =>
      if name.text = [] then none
      else
        match table.findIdx? (· = name.text) with
        | none => none
        | some n =>
            if isSeqnumRight table (eTr98Start + n) = false then none
            else some (UInt32.ofNat (eTr98Start + n))

/-- {lit}`zcfgTr98CreatePvsNewMapping`. -/
def zcfgTr98CreatePvsNewMapping (table : NameTable) (saved : List (Option Entry)) :
    List (Option UInt32) :=
  (List.range (seqnumRounds table)).map (fun arrayIdx =>
    (arrayGetIdx saved arrayIdx).bind (newSeqnum table))

/-- {lit}`zcfgTr181CreatePvsNewMapping`, with {lit}`zcfgTr181ObjNameOid`. -/
def zcfgTr181CreatePvsNewMapping (objNameOid : List Char → UInt32)
    (saved : KeyedTable UInt32 Entry) : List (UInt32 × UInt32) :=
  saved.rows.filterMap (fun row => row.2.name.map (fun name => (row.1, objNameOid name.text)))

/-- {lit}`zcfgTr98QueryNewSeqnum`; a number below {lit}`e_TR98_START` wraps around. -/
def zcfgTr98QueryNewSeqnum (pvsNew : List (Option UInt32)) (seqnum : UInt32) : UInt32 :=
  (arrayGetIdx pvsNew (seqnum - UInt32.ofNat eTr98Start).toNat).getD 0

/-- {lit}`zcfgTr181QueryNewSeqnum`. -/
def zcfgTr181QueryNewSeqnum (pvsNew : List (UInt32 × UInt32)) (objnum : UInt32) : UInt32 :=
  ((pvsNew.find? (fun row => row.1 = objnum)).map Prod.snd).getD 0

/-! ## The conversion -/

/-- The loop over the lines of a file, read with {lit}`fgets`. -/
def convertText (file : MapFile) (queryNew : UInt32 → UInt32) (text : List Char) :
    Option (List Char) :=
  ((pieces '\n' (tr98MaxObjNameLength - 1) text).mapM (convertLine file queryNew)).map List.flatten

/-- Where the element of an array goes. -/
def newArrayIdx (table : NameTable) (pvsNew : List (Option UInt32)) (arrayIdx : Nat) : Option Nat :=
  let newnum := zcfgTr98QueryNewSeqnum pvsNew (UInt32.ofNat (eTr98Start + arrayIdx))
  if isSeqnumRight table newnum.toNat = false then none else some (arraySeqnum newnum.toNat)

/-- The elements of an array that the loop over the sequence numbers meets. -/
def arrayRows {α : Type} (table : NameTable) (array : List (Option α)) : List (Nat × α) :=
  (List.range (seqnumRounds table)).filterMap (fun arrayIdx =>
    (arrayGetIdx array arrayIdx).map (fun a => (arrayIdx, a)))

/-- {lit}`zcfgTr98MappingConvert`: the result, the converted file and the converted attribute list.
The arrays are tables with the array index as the key.  The file is read back by {lit}`read`, and
{lit}`none` is a write behind a buffer. -/
def zcfgTr98MappingConvert {A : Type} (read : List Char → Option (List (Option Entry)))
    (table : NameTable) (tr98PvsNew : List (Option UInt32)) (tr181PvsNew : List (UInt32 × UInt32))
    (text : List Char) (attrList : Option (List (Option A))) :
    Option (ZcfgRet × KeyedTable Nat (List Member) × Option (KeyedTable Nat A)) :=
  (convertText .tr98 (zcfgTr181QueryNewSeqnum tr181PvsNew) text).map (fun converted =>
    match read converted with
    | none => (.internalError, .empty, none)
    | some file =>
        let rows := (arrayRows table file).map (fun row => (row.1, row.2.body))
        let dest := newArrayIdx table tr98PvsNew
        (.success, .relocate dest rows .empty,
          attrList.map (fun attrs =>
            .relocate dest
              (rows.filterMap (fun row => (arrayGetIdx attrs row.1).map (fun a => (row.1, a))))
              .empty)))

/-- Where the entry of an object number goes. -/
def newObjnum (pvsNew : List (UInt32 × UInt32)) (objnum : UInt32) : Option UInt32 :=
  let newnum := zcfgTr181QueryNewSeqnum pvsNew objnum
  if newnum = 0 then none else some newnum

/-- {lit}`zcfgTr181MappingConvert`: the result and the converted file. -/
def zcfgTr181MappingConvert (read : List Char → Option (KeyedTable UInt32 Entry))
    (tr98PvsNew : List (Option UInt32)) (tr181PvsNew : List (UInt32 × UInt32))
    (text : List Char) : Option (ZcfgRet × KeyedTable UInt32 (List Member)) :=
  (convertText .tr181 (zcfgTr98QueryNewSeqnum tr98PvsNew) text).map (fun converted =>
    match read converted with
    | none => (.internalError, .empty)
    | some file =>
        let rows := file.rows.map (fun row => (row.1, row.2.body))
        let dest := newObjnum tr181PvsNew
        (if rows.all (fun row => (dest row.1).isSome) then .success else .noSuchObject,
          .relocate dest rows .empty))

/-! ## Files with new numbers -/

section Renumber

variable (queryNew : UInt32 → UInt32)

/-- An entry with new numbers in its references. -/
def Entry.renumber (e : Entry) : Entry :=
  { e with body := e.body.map (Member.renumber queryNew) }

/-- The TR-098 file with new numbers in its references. -/
def renumber98 (saved : List (Option Entry)) : List (Option Entry) :=
  saved.map (Option.map (Entry.renumber queryNew))

/-- The TR-181 file with new numbers in its references. -/
def renumber181 (saved : KeyedTable UInt32 Entry) : KeyedTable UInt32 Entry :=
  saved.map (Entry.renumber queryNew)

theorem Member.nesting_renumber (m : Member) : (m.renumber queryNew).nesting = m.nesting := by
  cases m <;> rfl

theorem withCommas_renumber (members : List Member) :
    withCommas (members.map (Member.renumber queryNew)) =
      (withCommas members).map (fun p => (p.1.renumber queryNew, p.2)) := by
  induction members with
  | nil => rfl
  | cons m rest ih =>
      have hcomma : needsComma (m.renumber queryNew)
          (rest.map (Member.renumber queryNew)).head? = needsComma m rest.head? := by
        cases rest <;> simp [needsComma, Member.nesting_renumber]
      simp only [List.map_cons, withCommas, ih, hcomma]

/-- The rewritten lines are a text of the file with new numbers. -/
theorem IsRendering.convert {lines : List TextLine} {members : List Member}
    (h : IsRendering lines members) :
    IsRendering (lines.map (TextLine.convert queryNew))
      (members.map (Member.renumber queryNew)) := by
  unfold IsRendering at h ⊢
  rw [withCommas_renumber, ← h, List.map_map, List.map_map]
  apply List.map_congr_left
  intro l _
  simp only [Function.comp, TextLine.convert_member, TextLine.convert_comma]

theorem Entry.lines_renumber (e : Entry) :
    (e.renumber queryNew).lines = e.lines.map (Member.renumber queryNew) := by
  unfold Entry.lines Entry.renumber
  rw [List.map_append]
  congr 1
  cases e.name <;> rfl

theorem lines98_renumber (saved : List (Option Entry)) :
    lines98 (renumber98 queryNew saved) = (lines98 saved).map (Member.renumber queryNew) := by
  have hentry : ∀ entry : Option Entry,
      (match entry.map (Entry.renumber queryNew) with
        | none => [nullElement]
        | some e => openObject :: (e.lines ++ [closeObject])) =
      (match entry with
        | none => [nullElement]
        | some e => openObject :: (e.lines ++ [closeObject])).map (Member.renumber queryNew) := by
    intro entry
    cases entry with
    | none => rfl
    | some e =>
        simp only [Option.map_some, Entry.lines_renumber, List.map_cons, List.map_append]
        rfl
  simp only [lines98, renumber98, List.map_cons, List.map_append, List.flatMap_map, List.map_flatMap,
    hentry]
  rfl

theorem lines181_renumber (saved : KeyedTable UInt32 Entry) :
    lines181 (renumber181 queryNew saved) = (lines181 saved).map (Member.renumber queryNew) := by
  have hentry : ∀ row : UInt32 × Entry,
      openNumber row.1 :: ((row.2.renumber queryNew).lines ++ [closeObject]) =
      (openNumber row.1 :: (row.2.lines ++ [closeObject])).map (Member.renumber queryNew) := by
    intro row
    simp only [Entry.lines_renumber, List.map_cons, List.map_append]
    rfl
  simp only [lines181, renumber181, KeyedTable.map, List.map_cons, List.map_append, List.flatMap_map,
    List.map_flatMap, hentry]
  rfl

end Renumber

/-! ## Rewriting a whole text -/

theorem newline_not_mem_text (file : MapFile) (m : Member) : '\n' ∉ m.text file := by
  have htag : '\n' ∉ file.tag := by cases file <;> decide
  have hname : ∀ ref : ObjRef, '\n' ∉ ref.mappingName := by
    intro ref
    unfold ObjRef.mappingName
    simp only [List.mem_append, List.mem_cons, not_or]
    exact ⟨not_mem_decimal (by decide) _, by decide,
      not_mem_mappingIdx (by decide) (by decide) (by decide) _⟩
  cases m with
  | plain text => exact text.one_line
  | objMapping ref =>
      simp only [Member.text, List.mem_append, List.mem_cons, not_or]
      exact ⟨⟨⟨⟨by decide, htag⟩, by decide⟩, hname ref⟩, by decide, by simp⟩
  | mapping ref =>
      have hparm : '\n' ∉ ref.parm := by
        intro h
        exact absurd (ref.word _ h) (by decide)
      simp only [Member.text, List.mem_append, List.mem_cons, not_or]
      exact ⟨⟨⟨⟨by decide, by decide⟩, hname _⟩, by decide, hparm⟩, by decide, by simp⟩

/-- A saved line is read as one piece. -/
theorem complete_line (file : MapFile) {l : TextLine} (hnewline : l.newline = true)
    (hshort : (l.text file).length < 256) :
    Complete '\n' (tr98MaxObjNameLength - 1) (l.text file) := by
  have htext : l.text file =
      (List.replicate l.indent ' ' ++ l.member.text file ++ if l.comma then [','] else []) ++ ['\n'] := by
    rw [TextLine.text, hnewline]
    rfl
  refine ⟨by simp [htext], ?_, ?_, Or.inl (by simp [htext])⟩
  · rw [tr98MaxObjNameLength]
    omega
  · rw [htext, List.dropLast_concat]
    simp only [List.mem_append, not_or]
    refine ⟨⟨by simp [List.mem_replicate], newline_not_mem_text file l.member⟩, ?_⟩
    split <;> decide

/-- Rewriting the lines of a text one by one. -/
theorem mapM_convertLine (file : MapFile) (queryNew : UInt32 → UInt32) :
    ∀ lines : List TextLine,
      (∀ l ∈ lines, l.newline = true) →
      (lines.map (TextLine.text file)).mapM (convertLine file queryNew) =
        if ∀ l ∈ lines, l.Fits then
          some (lines.map (fun l => (l.convert queryNew).text file))
        else none := by
  intro lines
  induction lines with
  | nil =>
      intro _
      simp
  | cons l lines ih =>
      intro hnewline
      have hl := convertLine_text file queryNew l (hnewline l List.mem_cons_self)
      have hrest := ih (fun l' hl' => hnewline l' (List.mem_cons_of_mem _ hl'))
      rw [List.map_cons, List.mapM_cons, hl, hrest]
      by_cases hfits : l.Fits
      · by_cases hall : ∀ l' ∈ lines, l'.Fits
        · have hboth : ∀ l' ∈ l :: lines, l'.Fits := by
            intro l' hl'
            rcases List.mem_cons.mp hl' with rfl | hl'
            · exact hfits
            · exact hall l' hl'
          rw [if_pos hfits, if_pos hall, if_pos hboth]
          rfl
        · have hnot : ¬ ∀ l' ∈ l :: lines, l'.Fits :=
            fun h => hall (fun l' hl' => h l' (List.mem_cons_of_mem _ hl'))
          rw [if_pos hfits, if_neg hall, if_neg hnot]
          rfl
      · have hnot : ¬ ∀ l' ∈ l :: lines, l'.Fits := fun h => hfits (h l List.mem_cons_self)
        rw [if_neg hfits, if_neg hnot]
        rfl

/-- The text of a saved file is rewritten to the text of its rewritten lines. -/
theorem convertText_saved {file : MapFile} {members : List Member} (queryNew : UInt32 → UInt32)
    (saved : SavedText file members) :
    convertText file queryNew (textOf file saved.lines) =
      if ∀ l ∈ saved.lines, l.Fits then
        some (textOf file (saved.lines.map (TextLine.convert queryNew)))
      else none := by
  have hcomplete : ∀ l ∈ saved.lines, Complete '\n' (tr98MaxObjNameLength - 1) (l.text file) :=
    fun l hl => complete_line file (saved.newline l hl) (saved.short l hl)
  have hreadable :
      Readable '\n' (tr98MaxObjNameLength - 1) (saved.lines.map (TextLine.text file)) := by
    constructor
    · intro p hp
      obtain ⟨l, hl, rfl⟩ := List.mem_map.mp hp
      exact (hcomplete l hl).piece
    · rw [List.pairwise_map]
      exact List.pairwise_of_forall_mem_list (fun l hl _ _ => hcomplete l hl)
  rw [convertText, textOf, pieces_flatten hreadable, mapM_convertLine file queryNew _ saved.newline]
  split
  · simp [textOf, Function.comp_def]
  · rfl

/-! ## Numberings -/

/-- A static name table of a firmware.  The numbers up to {lit}`e_TR98_LAST+100` are in the range of
{lit}`uint32_t`. -/
structure StaticTable where
  names : NameTable
  distinct : names.Nodup
  named : [] ∉ names
  small : eTr98Last names + 100 < 2 ^ 32

theorem StaticTable.findIdx?_iff (t : StaticTable) {i : Nat} {name : List Char} :
    t.names.findIdx? (· = name) = some i ↔ t.names[i]? = some name := by
  constructor
  · intro h
    obtain ⟨hlt, hname, -⟩ := List.findIdx?_eq_some_iff_getElem.mp h
    rw [List.getElem?_eq_getElem hlt]
    simpa using hname
  · exact findIdx?_eq t.distinct

theorem StaticTable.toNat_seqnum (t : StaticTable) {i : Nat} (hi : i < seqnumRounds t.names) :
    (UInt32.ofNat (eTr98Start + i)).toNat = eTr98Start + i := by
  have hsmall := t.small
  unfold seqnumRounds at hi
  rw [UInt32.toNat_ofNat']
  apply Nat.mod_eq_of_lt
  omega

theorem StaticTable.lt_seqnumRounds (t : StaticTable) {i : Nat} {name : List Char}
    (h : t.names[i]? = some name) : i < seqnumRounds t.names := by
  have hlt : i < t.names.length := (List.getElem?_eq_some_iff.mp h).1
  unfold seqnumRounds eTr98Last
  omega

/-- The numbers of the objects of a table, both ways. -/
def StaticTable.numbering (t : StaticTable) : UInt32 ≃. List Char where
  toFun num := if eTr98Start ≤ num.toNat then t.names[arraySeqnum num.toNat]? else none
  invFun name := (t.names.findIdx? (· = name)).map (fun i => UInt32.ofNat (eTr98Start + i))
  inv := by
    intro num name
    rw [Option.map_eq_some_iff]
    constructor
    · rintro ⟨i, hi, rfl⟩
      have hname := t.findIdx?_iff.mp hi
      rw [t.toNat_seqnum (t.lt_seqnumRounds hname), if_pos (Nat.le_add_right _ _), arraySeqnum,
        Nat.add_sub_cancel_left]
      exact hname
    · intro h
      by_cases hstart : eTr98Start ≤ num.toNat
      · rw [if_pos hstart] at h
        refine ⟨arraySeqnum num.toNat, t.findIdx?_iff.mpr h, ?_⟩
        rw [arraySeqnum, Nat.add_sub_of_le hstart, UInt32.ofNat_toNat]
      · rw [if_neg hstart] at h
        exact absurd h (by simp)

theorem StaticTable.numbering_apply (t : StaticTable) (num : UInt32) :
    t.numbering num = if eTr98Start ≤ num.toNat then t.names[arraySeqnum num.toNat]? else none :=
  rfl

theorem StaticTable.numbering_symm_apply (t : StaticTable) (name : List Char) :
    t.numbering.symm name =
      (t.names.findIdx? (· = name)).map (fun i => UInt32.ofNat (eTr98Start + i)) :=
  rfl

/-- The number an entry has in a numbering, by its name. -/
def Entry.newNum (new : UInt32 ≃. List Char) (e : Entry) : Option UInt32 :=
  e.name.bind (fun name => new.symm name.text)

/-- In a static table all tests of the source are met. -/
theorem newSeqnum_eq (t : StaticTable) (e : Entry) :
    newSeqnum t.names e = e.newNum t.numbering := by
  unfold newSeqnum Entry.newNum
  cases e.name with
  | none => rfl
  | some name =>
      rw [Option.bind_some, t.numbering_symm_apply]
      simp only
      cases hfind : t.names.findIdx? (· = name.text) with
      | none => simp
      | some i =>
          have hname := t.findIdx?_iff.mp hfind
          have hne : name.text ≠ [] := by
            intro hnil
            exact t.named (hnil ▸ List.mem_of_getElem? hname)
          have hright : isSeqnumRight t.names (eTr98Start + i) = true :=
            isSeqnumRight_of_lt (List.getElem?_eq_some_iff.mp hname).1
          simp [hne, hright]

/-- A new sequence number is in the range of the table. -/
theorem StaticTable.isSeqnumRight_of_symm (t : StaticTable) {name : List Char} {num : UInt32}
    (h : t.numbering.symm name = some num) : isSeqnumRight t.names num.toNat = true := by
  have happly := (PEquiv.eq_some_iff t.numbering).mp h
  rw [t.numbering_apply] at happly
  by_cases hstart : eTr98Start ≤ num.toNat
  · rw [if_pos hstart] at happly
    rw [← Nat.add_sub_of_le hstart]
    exact isSeqnumRight_of_lt (List.getElem?_eq_some_iff.mp happly).1
  · rw [if_neg hstart] at happly
    exact absurd happly (by simp)

theorem isSeqnumRight_zero (table : NameTable) : isSeqnumRight table 0 = false := by
  simp [isSeqnumRight, eTr98Start]

/-- A sequence number is not zero. -/
theorem StaticTable.symm_ne_zero (t : StaticTable) {name : List Char} :
    t.numbering.symm name ≠ some 0 := by
  intro h
  have hright := t.isSeqnumRight_of_symm h
  rw [UInt32.toNat_zero, isSeqnumRight_zero] at hright
  exact absurd hright (by decide)

/-! ## The tables of the new numbers -/

/-- The saved entry of a sequence number, as far as the loops over the sequence numbers go. -/
def savedAt (t : StaticTable) (saved : List (Option Entry)) (seqnum : UInt32) : Option Entry :=
  if eTr98Start ≤ seqnum.toNat ∧ arraySeqnum seqnum.toNat < seqnumRounds t.names then
    arrayGetIdx saved (arraySeqnum seqnum.toNat)
  else none

theorem arrayGetIdx_pvsNew (table : NameTable) (saved : List (Option Entry)) (arrayIdx : Nat) :
    arrayGetIdx (zcfgTr98CreatePvsNewMapping table saved) arrayIdx =
      if arrayIdx < seqnumRounds table then (arrayGetIdx saved arrayIdx).bind (newSeqnum table)
      else none := by
  unfold zcfgTr98CreatePvsNewMapping
  rw [arrayGetIdx, List.getElem?_map]
  by_cases hlt : arrayIdx < seqnumRounds table
  · rw [if_pos hlt, List.getElem?_range hlt]
    rfl
  · rw [if_neg hlt, List.getElem?_eq_none (by simpa using hlt)]
    rfl

/-- The table holds the new numbers of the saved entries that the loop meets. -/
theorem queryNewSeqnum98_eq (t : StaticTable) (saved : List (Option Entry)) (seqnum : UInt32) :
    zcfgTr98QueryNewSeqnum (zcfgTr98CreatePvsNewMapping t.names saved) seqnum =
      ((savedAt t saved seqnum).bind (Entry.newNum t.numbering)).getD 0 := by
  have hsmall := t.small
  have hnew : newSeqnum t.names = Entry.newNum t.numbering := funext (newSeqnum_eq t)
  have hlt := seqnum.toNat_lt
  have hstart : (UInt32.ofNat eTr98Start).toNat = eTr98Start := rfl
  unfold zcfgTr98QueryNewSeqnum
  rw [arrayGetIdx_pvsNew, hnew, savedAt]
  by_cases hle : eTr98Start ≤ seqnum.toNat
  · have hsub : (seqnum - UInt32.ofNat eTr98Start).toNat = arraySeqnum seqnum.toNat := by
      rw [UInt32.toNat_sub_of_le _ _ (by rw [UInt32.le_iff_toNat_le, hstart]; exact hle), hstart,
        arraySeqnum]
    rw [hsub]
    by_cases hround : arraySeqnum seqnum.toNat < seqnumRounds t.names
    · rw [if_pos hround, if_pos ⟨hle, hround⟩]
    · rw [if_neg hround, if_neg (fun h => hround h.2)]
      rfl
  · have hwrap : ¬ (seqnum - UInt32.ofNat eTr98Start).toNat < seqnumRounds t.names := by
      rw [UInt32.toNat_sub, hstart]
      unfold seqnumRounds eTr98Start at *
      omega
    rw [if_neg hwrap, if_neg (fun h => hle h.1)]
    rfl

/-- The table holds the new numbers of all saved entries. -/
theorem queryNewSeqnum181_eq (new : UInt32 ≃. List Char) (saved : KeyedTable UInt32 Entry)
    (hnamed : ∀ row ∈ saved.rows, row.2.name.isSome) (objnum : UInt32) :
    zcfgTr181QueryNewSeqnum
        (zcfgTr181CreatePvsNewMapping (fun name => (new.symm name).getD 0) saved) objnum =
      ((saved.get objnum).bind (Entry.newNum new)).getD 0 := by
  unfold zcfgTr181QueryNewSeqnum zcfgTr181CreatePvsNewMapping KeyedTable.get
  generalize hrows : saved.rows = rows at hnamed
  clear hrows
  induction rows with
  | nil => rfl
  | cons row rows ih =>
      have hrest := ih (fun r hr => hnamed r (List.mem_cons_of_mem _ hr))
      obtain ⟨name, hname⟩ := Option.isSome_iff_exists.mp (hnamed row List.mem_cons_self)
      rw [List.filterMap_cons]
      simp only [hname, Option.map_some]
      by_cases hkey : row.1 = objnum
      · simp [hkey, Entry.newNum, hname]
      · rw [List.find?_cons_of_neg (by simpa using hkey),
          List.find?_cons_of_neg (by simpa using hkey)]
        exact hrest

end FeTr98
end ZyxelRouter
