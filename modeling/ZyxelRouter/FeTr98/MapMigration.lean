import ZyxelRouter.FeTr98.MapConvert

/-!
# What the migration of the map files keeps

The two files are converted together, each with the new numbers of the other one.  A reference whose
number is not in the table of new numbers stays as it was and names whatever has that number now; the
loops over the sequence numbers go up to one hundred behind the new table; and a parameter name may be
too long for its buffer.

Main results:

- Theorem {lit}`SavedMaps.query98_names`, {lit}`SavedMaps.query181_names`: a new number from a table is
  the number of the same object.
- Theorem {lit}`Migration.right98_iff`, {lit}`Migration.right181_iff`: when a converted file is right.
- Theorem {lit}`migration_preserves_iff`: when both files keep their meaning.
-/

namespace ZyxelRouter
namespace FeTr98

open Lib FeString

/-! ## A migration -/

/-- The saved files and the numberings of the old and the new firmware.  Each entry carries the name of
its old number. -/
structure SavedMaps where
  old98 : StaticTable
  new98 : StaticTable
  old181 : UInt32 ≃. List Char
  new181 : UInt32 ≃. List Char
  oid_ne_zero : new181 0 = none
  saved98 : List (Option Entry)
  saved181 : KeyedTable UInt32 Entry
  named98 : ∀ (i : Nat) (e : Entry), saved98[i]? = some (some e) →
    ∃ name : ObjName, e.name = some name ∧ old98.names[i]? = some name.text
  named181 : ∀ row ∈ saved181.rows,
    ∃ name : ObjName, row.2.name = some name ∧ old181 row.1 = some name.text
  text98 : SavedText .tr98 (lines98 saved98)
  text181 : SavedText .tr181 (lines181 saved181)

namespace SavedMaps

variable (m : SavedMaps)

/-- {lit}`zcfgTr181ObjNameOid`: the current number of a name, or zero. -/
def objNameOid (name : List Char) : UInt32 :=
  (m.new181.symm name).getD 0

/-- The table of the new TR-098 numbers. -/
def tr98PvsNew : List (Option UInt32) :=
  zcfgTr98CreatePvsNewMapping m.new98.names m.saved98

/-- The table of the new TR-181 numbers. -/
def tr181PvsNew : List (UInt32 × UInt32) :=
  zcfgTr181CreatePvsNewMapping m.objNameOid m.saved181

/-- The new number of a TR-098 object, or zero. -/
def query98 (seqnum : UInt32) : UInt32 :=
  zcfgTr98QueryNewSeqnum m.tr98PvsNew seqnum

/-- The new number of a TR-181 object, or zero. -/
def query181 (objnum : UInt32) : UInt32 :=
  zcfgTr181QueryNewSeqnum m.tr181PvsNew objnum

end SavedMaps

/-- A migration: the saved files, the attribute list and the reader of the converted files, which reads
a text of a file as that file. -/
structure Migration (A : Type) extends SavedMaps where
  attrList : Option (List (Option A))
  read98 : List Char → Option (List (Option Entry))
  read181 : List Char → Option (KeyedTable UInt32 Entry)
  reads98 : ∀ lines, IsRendering lines (lines98 (renumber98 toSavedMaps.query181 saved98)) →
    read98 (textOf .tr98 lines) = some (renumber98 toSavedMaps.query181 saved98)
  reads181 : ∀ lines, IsRendering lines (lines181 (renumber181 toSavedMaps.query98 saved181)) →
    read181 (textOf .tr181 lines) = some (renumber181 toSavedMaps.query98 saved181)

namespace Migration

variable {A : Type} (m : Migration A)

/-- {lit}`zcfgTr98MappingConvert` on the saved file. -/
def convert98 : Option (ZcfgRet × KeyedTable Nat (List Member) × Option (KeyedTable Nat A)) :=
  zcfgTr98MappingConvert m.read98 m.new98.names m.tr98PvsNew m.tr181PvsNew
    (textOf .tr98 m.text98.lines) m.attrList

/-- {lit}`zcfgTr181MappingConvert` on the saved file. -/
def convert181 : Option (ZcfgRet × KeyedTable UInt32 (List Member)) :=
  zcfgTr181MappingConvert m.read181 m.tr98PvsNew m.tr181PvsNew (textOf .tr181 m.text181.lines)

end Migration

/-! ## What a migration has to keep -/

/-- A member that names the same object in the new numbering, with all else unchanged. -/
inductive SameMember (old new : UInt32 ≃. List Char) : Member → Member → Prop where
  | plain (text : PlainText) : SameMember old new (.plain text) (.plain text)
  | objMapping (ref : ObjRef) (num : UInt32) :
      new num = old ref.num →
      SameMember old new (.objMapping ref) (.objMapping { ref with num })
  | mapping (ref : ParmRef) (num : UInt32) :
      new num = old ref.num →
      SameMember old new (.mapping ref) (.mapping { ref with num })

/-- The members name the same objects one by one. -/
def SameBody (old new : UInt32 ≃. List Char) (body converted : List Member) : Prop :=
  List.Forall₂ (SameMember old new) body converted

/-- The converted TR-098 file has exactly the saved entries whose names still exist, each under its
new number, and their references name the same TR-181 objects. -/
def SavedMaps.Right98 (m : SavedMaps) (converted : KeyedTable Nat (List Member)) : Prop :=
  (∀ (i : Nat) (e : Entry) (num : UInt32), m.saved98[i]? = some (some e) → e.newNum m.new98.numbering = some num →
    ∃ body, converted.get (arraySeqnum num.toNat) = some body ∧
      SameBody m.old181 m.new181 e.body body) ∧
  (∀ k body, converted.get k = some body →
    ∃ (i : Nat) (e : Entry) (num : UInt32), m.saved98[i]? = some (some e) ∧ e.newNum m.new98.numbering = some num ∧
      k = arraySeqnum num.toNat)

/-- The converted TR-181 file has exactly the saved entries whose names still exist, each under its
new number, and their references name the same TR-098 objects. -/
def SavedMaps.Right181 (m : SavedMaps) (converted : KeyedTable UInt32 (List Member)) : Prop :=
  (∀ row ∈ m.saved181.rows, ∀ num, row.2.newNum m.new181 = some num →
    ∃ body, converted.get num = some body ∧
      SameBody m.old98.numbering m.new98.numbering row.2.body body) ∧
  (∀ num body, converted.get num = some body →
    ∃ row ∈ m.saved181.rows, row.2.newNum m.new181 = some num)

/-- Both conversions come to their end, and if both succeed, both files keep their meaning. -/
def Migration.Preserves {A : Type} (m : Migration A) : Prop :=
  ∃ ret98 map98 attr98 ret181 map181,
    m.convert98 = some (ret98, map98, attr98) ∧ m.convert181 = some (ret181, map181) ∧
      (ret98 = .success → ret181 = .success → m.Right98 map98 ∧ m.Right181 map181)

/-- The number in a reference. -/
def Member.num : Member → Option UInt32
  | .plain _ => none
  | .objMapping ref => some ref.num
  | .mapping ref => some ref.num

/-- Every reference of an entry is to an object with a saved entry, or its number names the same object
in both numberings. -/
def Entry.RefsKept (old new : UInt32 ≃. List Char) (known : UInt32 → Prop) (e : Entry) : Prop :=
  ∀ mem ∈ e.body, ∀ num, mem.num = some num → known num ∨ new num = old num

/-- Nothing is written behind a buffer; and if every saved TR-181 object still exists, then the saved
TR-098 entries with a name that still exists are in the reach of the loops, and the references are
kept. -/
structure SavedMaps.Sound (m : SavedMaps) : Prop where
  fits98 : ∀ l ∈ m.text98.lines, l.Fits
  fits181 : ∀ l ∈ m.text181.lines, l.Fits
  reach : (∀ row ∈ m.saved181.rows, (row.2.newNum m.new181).isSome) →
    ∀ (i : Nat) (e : Entry), m.saved98[i]? = some (some e) → (e.newNum m.new98.numbering).isSome →
      i < m.new98.names.length + 100
  refs98 : (∀ row ∈ m.saved181.rows, (row.2.newNum m.new181).isSome) →
    ∀ (i : Nat) (e : Entry), m.saved98[i]? = some (some e) → (e.newNum m.new98.numbering).isSome →
      e.RefsKept m.old181 m.new181 (fun num => ∃ row ∈ m.saved181.rows, row.1 = num)
  refs181 : (∀ row ∈ m.saved181.rows, (row.2.newNum m.new181).isSome) →
    ∀ row ∈ m.saved181.rows,
      row.2.RefsKept m.old98.numbering m.new98.numbering (fun num =>
        ∃ (i : Nat) (e : Entry), num.toNat = eTr98Start + i ∧ i < m.new98.names.length + 100 ∧
          m.saved98[i]? = some (some e) ∧ (e.newNum m.new98.numbering).isSome)

/-! ## References with new numbers -/

section References

variable {old new : UInt32 ≃. List Char} {queryNew : UInt32 → UInt32}

/-- If the new numbers are right, a reference is right if it has one or does not need one. -/
theorem renumber_names_iff (hquery : ∀ num, queryNew num ≠ 0 → new (queryNew num) = old num)
    (num : UInt32) :
    new (renumber queryNew num) = old num ↔ queryNew num ≠ 0 ∨ new num = old num := by
  unfold renumber
  by_cases hzero : queryNew num = 0
  · simp [hzero]
  · simp [hzero, hquery num hzero]

theorem sameMember_renumber_iff (mem : Member) :
    SameMember old new mem (mem.renumber queryNew) ↔
      ∀ num, mem.num = some num → new (renumber queryNew num) = old num := by
  cases mem with
  | plain text => simp [Member.renumber, Member.num, SameMember.plain]
  | objMapping ref =>
      constructor
      · intro h num hnum
        obtain rfl : ref.num = num := Option.some.inj hnum
        cases h
        assumption
      · intro h
        exact .objMapping ref _ (h ref.num rfl)
  | mapping ref =>
      constructor
      · intro h num hnum
        obtain rfl : ref.num = num := Option.some.inj hnum
        cases h
        assumption
      · intro h
        exact .mapping ref _ (h ref.num rfl)

/-- When the references of an entry are right after the conversion. -/
theorem sameBody_renumber_iff (hquery : ∀ num, queryNew num ≠ 0 → new (queryNew num) = old num)
    (e : Entry) :
    SameBody old new e.body (e.body.map (Member.renumber queryNew)) ↔
      e.RefsKept old new (fun num => queryNew num ≠ 0) := by
  unfold SameBody Entry.RefsKept
  rw [List.forall₂_map_right_iff, List.forall₂_same]
  simp only [sameMember_renumber_iff, renumber_names_iff hquery]

theorem refsKept_congr {known known' : UInt32 → Prop} (h : ∀ num, known num ↔ known' num) (e : Entry) :
    e.RefsKept old new known ↔ e.RefsKept old new known' := by
  unfold Entry.RefsKept
  simp only [h]

end References

theorem arrayGetIdx_eq_some_iff {α : Type} {array : List (Option α)} {arrayIdx : Nat} {a : α} :
    arrayGetIdx array arrayIdx = some a ↔ array[arrayIdx]? = some (some a) := by
  rw [arrayGetIdx, Option.join_eq_some_iff]

theorem seqnumRounds_eq (table : NameTable) : seqnumRounds table = table.length + 100 := by
  unfold seqnumRounds eTr98Last
  omega

theorem savedAt_eq_some_iff {t : StaticTable} {saved : List (Option Entry)} {seqnum : UInt32}
    {e : Entry} :
    savedAt t saved seqnum = some e ↔
      ∃ i, seqnum.toNat = eTr98Start + i ∧ i < t.names.length + 100 ∧ saved[i]? = some (some e) := by
  unfold savedAt
  rw [Option.ite_none_right_eq_some, arrayGetIdx_eq_some_iff, seqnumRounds_eq, arraySeqnum]
  constructor
  · rintro ⟨⟨hstart, hlt⟩, hsaved⟩
    exact ⟨_, (Nat.add_sub_of_le hstart).symm, hlt, hsaved⟩
  · rintro ⟨i, hnum, hlt, hsaved⟩
    rw [hnum, Nat.add_sub_cancel_left]
    exact ⟨⟨Nat.le_add_right _ _, hlt⟩, hsaved⟩

/-- The number of a name is a number of that name. -/
theorem apply_of_newNum {new : UInt32 ≃. List Char} {e : Entry} {name : ObjName} {num : UInt32}
    (hname : e.name = some name) (h : e.newNum new = some num) : new num = some name.text := by
  rw [Entry.newNum, hname, Option.bind_some] at h
  exact (PEquiv.eq_some_iff new).mp h

namespace SavedMaps

variable {m : SavedMaps}

theorem query98_eq (seqnum : UInt32) :
    m.query98 seqnum =
      ((savedAt m.new98 m.saved98 seqnum).bind (Entry.newNum m.new98.numbering)).getD 0 :=
  queryNewSeqnum98_eq m.new98 m.saved98 seqnum

theorem query181_eq (objnum : UInt32) :
    m.query181 objnum = ((m.saved181.get objnum).bind (Entry.newNum m.new181)).getD 0 := by
  apply queryNewSeqnum181_eq
  intro row hrow
  obtain ⟨name, hname, -⟩ := m.named181 row hrow
  rw [hname]
  rfl

theorem newNum98_ne_zero (e : Entry) : e.newNum m.new98.numbering ≠ some 0 := by
  intro h
  obtain ⟨name, -, hname⟩ := Option.bind_eq_some_iff.mp h
  exact m.new98.symm_ne_zero hname

theorem newNum181_ne_zero (e : Entry) : e.newNum m.new181 ≠ some 0 := by
  intro h
  obtain ⟨name, -, hname⟩ := Option.bind_eq_some_iff.mp h
  have hzero := (PEquiv.eq_some_iff m.new181).mp hname
  rw [m.oid_ne_zero] at hzero
  exact absurd hzero (by simp)

/-- A number that is not zero comes from an entry. -/
theorem getD_ne_zero_iff {entry : Option Entry} {new : UInt32 ≃. List Char}
    (hne : ∀ e : Entry, e.newNum new ≠ some 0) :
    (entry.bind (Entry.newNum new)).getD 0 ≠ 0 ↔
      ∃ e num, entry = some e ∧ e.newNum new = some num := by
  cases entry with
  | none => simp
  | some e =>
      cases hnum : e.newNum new with
      | none => simp [hnum]
      | some num =>
          have hnz : num ≠ 0 := by
            rintro rfl
            exact hne e hnum
          simp [hnum, hnz]

theorem query98_ne_zero_iff (seqnum : UInt32) :
    m.query98 seqnum ≠ 0 ↔
      ∃ (i : Nat) (e : Entry), seqnum.toNat = eTr98Start + i ∧ i < m.new98.names.length + 100 ∧
        m.saved98[i]? = some (some e) ∧ (e.newNum m.new98.numbering).isSome := by
  rw [query98_eq, getD_ne_zero_iff newNum98_ne_zero]
  constructor
  · rintro ⟨e, num, hsaved, hnum⟩
    obtain ⟨i, hi, hlt, hentry⟩ := savedAt_eq_some_iff.mp hsaved
    exact ⟨i, e, hi, hlt, hentry, by rw [hnum]; rfl⟩
  · rintro ⟨i, e, hi, hlt, hentry, hsome⟩
    obtain ⟨num, hnum⟩ := Option.isSome_iff_exists.mp hsome
    exact ⟨e, num, savedAt_eq_some_iff.mpr ⟨i, hi, hlt, hentry⟩, hnum⟩

theorem query181_ne_zero_iff (objnum : UInt32) :
    m.query181 objnum ≠ 0 ↔
      ∃ e : Entry, (objnum, e) ∈ m.saved181.rows ∧ (e.newNum m.new181).isSome := by
  rw [query181_eq, getD_ne_zero_iff newNum181_ne_zero]
  simp only [KeyedTable.get_eq_some_iff, Option.isSome_iff_exists, exists_and_left]

/-- A new sequence number is the number of the same object. -/
theorem query98_names (seqnum : UInt32) (h : m.query98 seqnum ≠ 0) :
    m.new98.numbering (m.query98 seqnum) = m.old98.numbering seqnum := by
  rw [query98_eq] at h ⊢
  obtain ⟨e, num, hsaved, hnum⟩ := (getD_ne_zero_iff newNum98_ne_zero).mp h
  obtain ⟨i, hi, -, hentry⟩ := savedAt_eq_some_iff.mp hsaved
  obtain ⟨name, hname, hold⟩ := m.named98 i e hentry
  rw [hsaved, Option.bind_some, hnum, Option.getD_some, apply_of_newNum hname hnum,
    m.old98.numbering_apply, hi, if_pos (Nat.le_add_right _ _), arraySeqnum,
    Nat.add_sub_cancel_left, hold]

/-- A new object number is the number of the same object. -/
theorem query181_names (objnum : UInt32) (h : m.query181 objnum ≠ 0) :
    m.new181 (m.query181 objnum) = m.old181 objnum := by
  rw [query181_eq] at h ⊢
  obtain ⟨e, num, hsaved, hnum⟩ := (getD_ne_zero_iff newNum181_ne_zero).mp h
  obtain ⟨name, hname, hold⟩ := m.named181 _ (KeyedTable.get_eq_some_iff.mp hsaved)
  rw [hsaved, Option.bind_some, hnum, Option.getD_some, apply_of_newNum hname hnum, hold]

/-! ## Where the entries go -/

/-- Two saved entries with one new sequence number are one entry. -/
theorem index_unique {i j : Nat} {e f : Entry} {num num' : UInt32}
    (hi : m.saved98[i]? = some (some e)) (hj : m.saved98[j]? = some (some f))
    (he : e.newNum m.new98.numbering = some num) (hf : f.newNum m.new98.numbering = some num')
    (hsame : arraySeqnum num.toNat = arraySeqnum num'.toNat) : i = j := by
  obtain ⟨name, hname, hold⟩ := m.named98 i e hi
  obtain ⟨name', hname', hold'⟩ := m.named98 j f hj
  have hnum := apply_of_newNum hname he
  have hnum' := apply_of_newNum hname' hf
  have htext : name.text = name'.text := by
    rw [m.new98.numbering_apply, Option.ite_none_right_eq_some] at hnum hnum'
    rw [hsame, hnum'.2] at hnum
    exact (Option.some.inj hnum.2).symm
  rw [htext] at hold
  have hfind := findIdx?_eq m.old98.distinct hold
  rw [findIdx?_eq m.old98.distinct hold'] at hfind
  exact (Option.some.inj hfind).symm

/-- Two saved entries with one new object number are one entry. -/
theorem objnum_unique {row row' : UInt32 × Entry} {num : UInt32} (hrow : row ∈ m.saved181.rows)
    (hrow' : row' ∈ m.saved181.rows) (h : row.2.newNum m.new181 = some num)
    (h' : row'.2.newNum m.new181 = some num) : row.1 = row'.1 := by
  obtain ⟨name, hname, hold⟩ := m.named181 row hrow
  obtain ⟨name', hname', hold'⟩ := m.named181 row' hrow'
  have hnum := apply_of_newNum hname h
  have hnum' := apply_of_newNum hname' h'
  have htext : name.text = name'.text := by
    rw [hnum] at hnum'
    exact Option.some.inj hnum'
  rw [htext] at hold
  exact m.old181.inj hold hold'

theorem newArrayIdx_eq_some_iff {i k : Nat} (hi : i < m.new98.names.length + 100) :
    newArrayIdx m.new98.names m.tr98PvsNew i = some k ↔
      ∃ (e : Entry) (num : UInt32), m.saved98[i]? = some (some e) ∧
        e.newNum m.new98.numbering = some num ∧ k = arraySeqnum num.toNat := by
  have htoNat := m.new98.toNat_seqnum (by rw [seqnumRounds_eq]; exact hi)
  have hat : savedAt m.new98 m.saved98 (UInt32.ofNat (eTr98Start + i)) = arrayGetIdx m.saved98 i := by
    rw [savedAt, htoNat, arraySeqnum, Nat.add_sub_cancel_left, seqnumRounds_eq,
      if_pos ⟨Nat.le_add_right _ _, hi⟩]
  have hquery : zcfgTr98QueryNewSeqnum m.tr98PvsNew (UInt32.ofNat (eTr98Start + i)) =
      ((arrayGetIdx m.saved98 i).bind (Entry.newNum m.new98.numbering)).getD 0 := by
    rw [← hat]
    exact query98_eq _
  unfold newArrayIdx
  simp only [hquery, ← arrayGetIdx_eq_some_iff]
  cases hentry : arrayGetIdx m.saved98 i with
  | none => simp [isSeqnumRight_zero]
  | some e =>
      cases hnum : e.newNum m.new98.numbering with
      | none => simp [hnum, isSeqnumRight_zero]
      | some num =>
          obtain ⟨name, -, hsymm⟩ := Option.bind_eq_some_iff.mp hnum
          have hright := m.new98.isSeqnumRight_of_symm hsymm
          simp [hnum, hright, eq_comm]

theorem newObjnum_eq (objnum : UInt32) :
    newObjnum m.tr181PvsNew objnum = (m.saved181.get objnum).bind (Entry.newNum m.new181) := by
  have hquery : zcfgTr181QueryNewSeqnum m.tr181PvsNew objnum =
      ((m.saved181.get objnum).bind (Entry.newNum m.new181)).getD 0 := query181_eq objnum
  unfold newObjnum
  simp only [hquery]
  cases hnum : (m.saved181.get objnum).bind (Entry.newNum m.new181) with
  | none => rfl
  | some num =>
      have hnz : num ≠ 0 := by
        rintro rfl
        obtain ⟨e, -, he⟩ := Option.bind_eq_some_iff.mp hnum
        exact newNum181_ne_zero e he
      rw [Option.getD_some, if_neg hnz]

end SavedMaps

/-! ## The converted files -/

namespace Migration

variable {A : Type} {m : Migration A}

/-- The rows of the TR-098 file that are moved. -/
def rows98 (m : Migration A) : List (Nat × List Member) :=
  (arrayRows m.new98.names (renumber98 m.query181 m.saved98)).map (fun row => (row.1, row.2.body))

/-- The converted TR-098 file. -/
def map98 (m : Migration A) : KeyedTable Nat (List Member) :=
  .relocate (newArrayIdx m.new98.names m.tr98PvsNew) m.rows98 .empty

/-- The rows of the TR-181 file that are moved. -/
def rows181 (m : Migration A) : List (UInt32 × List Member) :=
  (renumber181 m.query98 m.saved181).rows.map (fun row => (row.1, row.2.body))

/-- The converted TR-181 file. -/
def map181 (m : Migration A) : KeyedTable UInt32 (List Member) :=
  .relocate (newObjnum m.tr181PvsNew) m.rows181 .empty

/-- The converted attribute list. -/
def attr98 (m : Migration A) : Option (KeyedTable Nat A) :=
  m.attrList.map (fun attrs =>
    .relocate (newArrayIdx m.new98.names m.tr98PvsNew)
      (m.rows98.filterMap (fun row => (arrayGetIdx attrs row.1).map (fun a => (row.1, a)))) .empty)

theorem convert98_eq :
    m.convert98 =
      if ∀ l ∈ m.text98.lines, l.Fits then some (.success, m.map98, m.attr98) else none := by
  have hread : m.read98 (textOf .tr98 (m.text98.lines.map (TextLine.convert m.query181))) =
      some (renumber98 m.query181 m.saved98) := by
    apply m.reads98
    rw [lines98_renumber]
    exact m.text98.renders.convert _
  unfold convert98 zcfgTr98MappingConvert
  change (convertText .tr98 m.query181 _).map _ = _
  rw [convertText_saved m.query181 m.text98]
  split
  · simp only [Option.map_some, hread]
    rfl
  · rfl

theorem convert181_eq :
    m.convert181 =
      if ∀ l ∈ m.text181.lines, l.Fits then
        some (if ∀ row ∈ m.saved181.rows, (row.2.newNum m.new181).isSome then .success
          else .noSuchObject, m.map181)
      else none := by
  have hread : m.read181 (textOf .tr181 (m.text181.lines.map (TextLine.convert m.query98))) =
      some (renumber181 m.query98 m.saved181) := by
    apply m.reads181
    rw [lines181_renumber]
    exact m.text181.renders.convert _
  have hall : (m.rows181.all (fun row => (newObjnum m.tr181PvsNew row.1).isSome)) = true ↔
      ∀ row ∈ m.saved181.rows, (row.2.newNum m.new181).isSome := by
    simp only [rows181, renumber181, KeyedTable.map, List.map_map, List.all_map, List.all_eq_true,
      Function.comp_apply]
    constructor
    · intro h row hrow
      have hdest := h row hrow
      rw [SavedMaps.newObjnum_eq, KeyedTable.get_eq_some_iff.mpr hrow] at hdest
      exact hdest
    · intro h row hrow
      rw [SavedMaps.newObjnum_eq, KeyedTable.get_eq_some_iff.mpr hrow]
      exact h row hrow
  unfold convert181 zcfgTr181MappingConvert
  change (convertText .tr181 m.query98 _).map _ = _
  rw [convertText_saved m.query98 m.text181]
  split
  · simp only [Option.map_some, hread, ← hall]
    rfl
  · rfl

theorem mem_rows98_iff {i : Nat} {body : List Member} :
    (i, body) ∈ m.rows98 ↔
      i < m.new98.names.length + 100 ∧ ∃ e : Entry, m.saved98[i]? = some (some e) ∧
        body = e.body.map (Member.renumber m.query181) := by
  unfold rows98 arrayRows
  simp only [List.mem_map, List.mem_filterMap, List.mem_range, seqnumRounds_eq, Option.map_eq_some_iff,
    Prod.mk.injEq, Prod.exists, arrayGetIdx_eq_some_iff, renumber98, List.getElem?_map]
  constructor
  · rintro ⟨j, e, ⟨i', hlt, f, ⟨entry, hentry, hf⟩, rfl, rfl⟩, rfl, rfl⟩
    obtain ⟨g, rfl, rfl⟩ := hf
    exact ⟨hlt, g, hentry, rfl⟩
  · rintro ⟨hlt, e, hentry, rfl⟩
    exact ⟨i, e.renumber m.query181, ⟨i, hlt, e.renumber m.query181,
      ⟨some e, hentry, e, rfl, rfl⟩, rfl, rfl⟩, rfl, rfl⟩

theorem mem_rows181_iff {objnum : UInt32} {body : List Member} :
    (objnum, body) ∈ m.rows181 ↔
      ∃ e : Entry, (objnum, e) ∈ m.saved181.rows ∧
        body = e.body.map (Member.renumber m.query98) := by
  unfold rows181 renumber181 KeyedTable.map
  simp only [List.mem_map, Prod.exists, Prod.mk.injEq]
  constructor
  · rintro ⟨num, f, ⟨num', e, he, rfl, rfl⟩, rfl, rfl⟩
    exact ⟨e, he, rfl⟩
  · rintro ⟨e, he, rfl⟩
    exact ⟨objnum, e.renumber m.query98, ⟨objnum, e, he, rfl, rfl⟩, rfl, rfl⟩

/-- No two rows of the TR-098 file go to one index. -/
theorem pairwise_rows98 :
    m.rows98.Pairwise (fun r s => ∀ k, newArrayIdx m.new98.names m.tr98PvsNew r.1 = some k →
      newArrayIdx m.new98.names m.tr98PvsNew s.1 ≠ some k) := by
  have hsorted : m.rows98.Pairwise (fun r s => r.1 < s.1) := by
    unfold rows98 arrayRows
    rw [List.pairwise_map, List.pairwise_filterMap]
    apply List.pairwise_lt_range.imp
    intro i j hlt r hr s hs
    obtain ⟨e, -, rfl⟩ := Option.map_eq_some_iff.mp hr
    obtain ⟨f, -, rfl⟩ := Option.map_eq_some_iff.mp hs
    exact hlt
  apply hsorted.imp_of_mem
  intro r s hr hs hlt k hk hk'
  obtain ⟨hr, -⟩ := mem_rows98_iff.mp hr
  obtain ⟨hs, -⟩ := mem_rows98_iff.mp hs
  obtain ⟨e, num, hentry, hnum, rfl⟩ := (SavedMaps.newArrayIdx_eq_some_iff hr).mp hk
  obtain ⟨f, num', hentry', hnum', hsame⟩ := (SavedMaps.newArrayIdx_eq_some_iff hs).mp hk'
  have heq := SavedMaps.index_unique hentry hentry' hnum hnum' hsame
  omega

/-- No two rows of the TR-181 file go to one number. -/
theorem pairwise_rows181 :
    m.rows181.Pairwise (fun r s => ∀ k, newObjnum m.tr181PvsNew r.1 = some k →
      newObjnum m.tr181PvsNew s.1 ≠ some k) := by
  have hdistinct : m.rows181.Pairwise (fun r s => r.1 ≠ s.1) := by
    unfold rows181 renumber181 KeyedTable.map
    rw [List.pairwise_map, List.pairwise_map]
    exact List.pairwise_map.mp m.saved181.nodup
  apply hdistinct.imp
  intro r s hne k hk hk'
  rw [SavedMaps.newObjnum_eq, Option.bind_eq_some_iff] at hk hk'
  obtain ⟨e, he, hnum⟩ := hk
  obtain ⟨f, hf, hnum'⟩ := hk'
  exact hne (SavedMaps.objnum_unique (KeyedTable.get_eq_some_iff.mp he)
    (KeyedTable.get_eq_some_iff.mp hf) hnum hnum')

/-- What the converted TR-098 file holds. -/
theorem get_map98_iff {k : Nat} {body : List Member} :
    m.map98.get k = some body ↔
      ∃ (i : Nat) (e : Entry) (num : UInt32), i < m.new98.names.length + 100 ∧
        m.saved98[i]? = some (some e) ∧ e.newNum m.new98.numbering = some num ∧
        k = arraySeqnum num.toNat ∧ body = e.body.map (Member.renumber m.query181) := by
  rw [KeyedTable.get_eq_some_iff, map98, KeyedTable.mem_relocate_iff pairwise_rows98
    (fun _ _ s hs => absurd hs (List.not_mem_nil (a := s)))]
  constructor
  · rintro (hmem | ⟨i, hrow, hdest⟩)
    · exact absurd hmem List.not_mem_nil
    · obtain ⟨hlt, e, hentry, hbody⟩ := mem_rows98_iff.mp hrow
      obtain ⟨f, num, hentry', hnum, hk⟩ := (SavedMaps.newArrayIdx_eq_some_iff hlt).mp hdest
      rw [hentry] at hentry'
      obtain rfl : e = f := by simpa using hentry'
      exact ⟨i, e, num, hlt, hentry, hnum, hk, hbody⟩
  · rintro ⟨i, e, num, hlt, hentry, hnum, hk, hbody⟩
    exact Or.inr ⟨i, mem_rows98_iff.mpr ⟨hlt, e, hentry, hbody⟩,
      (SavedMaps.newArrayIdx_eq_some_iff hlt).mpr ⟨e, num, hentry, hnum, hk⟩⟩

/-- What the converted TR-181 file holds. -/
theorem get_map181_iff {num : UInt32} {body : List Member} :
    m.map181.get num = some body ↔
      ∃ row ∈ m.saved181.rows, row.2.newNum m.new181 = some num ∧
        body = row.2.body.map (Member.renumber m.query98) := by
  rw [KeyedTable.get_eq_some_iff, map181, KeyedTable.mem_relocate_iff pairwise_rows181
    (fun _ _ s hs => absurd hs (List.not_mem_nil (a := s)))]
  constructor
  · rintro (hmem | ⟨objnum, hrow, hdest⟩)
    · exact absurd hmem List.not_mem_nil
    · obtain ⟨e, he, hbody⟩ := mem_rows181_iff.mp hrow
      rw [SavedMaps.newObjnum_eq, KeyedTable.get_eq_some_iff.mpr he] at hdest
      exact ⟨(objnum, e), he, hdest, hbody⟩
  · rintro ⟨row, hrow, hnum, hbody⟩
    refine Or.inr ⟨row.1, mem_rows181_iff.mpr ⟨row.2, hrow, hbody⟩, ?_⟩
    rw [SavedMaps.newObjnum_eq, KeyedTable.get_eq_some_iff.mpr hrow]
    exact hnum

/-- The converted TR-098 file is right if all entries are in the reach of the loops and the references
have new numbers or do not need them. -/
theorem right98_iff :
    m.Right98 m.map98 ↔
      ∀ (i : Nat) (e : Entry), m.saved98[i]? = some (some e) →
        (e.newNum m.new98.numbering).isSome →
        i < m.new98.names.length + 100 ∧
          e.RefsKept m.old181 m.new181 (fun num => m.query181 num ≠ 0) := by
  constructor
  · intro h i e hentry hsome
    obtain ⟨num, hnum⟩ := Option.isSome_iff_exists.mp hsome
    obtain ⟨body, hget, hsame⟩ := h.1 i e num hentry hnum
    obtain ⟨j, f, num', hlt, hentry', hnum', hk, rfl⟩ := get_map98_iff.mp hget
    obtain rfl := SavedMaps.index_unique hentry hentry' hnum hnum' hk
    rw [hentry] at hentry'
    obtain rfl : e = f := by simpa using hentry'
    exact ⟨hlt, (sameBody_renumber_iff SavedMaps.query181_names e).mp hsame⟩
  · intro h
    constructor
    · intro i e num hentry hnum
      obtain ⟨hlt, hrefs⟩ := h i e hentry (by rw [hnum]; rfl)
      exact ⟨_, get_map98_iff.mpr ⟨i, e, num, hlt, hentry, hnum, rfl, rfl⟩,
        (sameBody_renumber_iff SavedMaps.query181_names e).mpr hrefs⟩
    · intro k body hget
      obtain ⟨i, e, num, -, hentry, hnum, hk, -⟩ := get_map98_iff.mp hget
      exact ⟨i, e, num, hentry, hnum, hk⟩

/-- The converted TR-181 file is right if the references have new numbers or do not need them. -/
theorem right181_iff :
    m.Right181 m.map181 ↔
      ∀ row ∈ m.saved181.rows, (row.2.newNum m.new181).isSome →
        row.2.RefsKept m.old98.numbering m.new98.numbering (fun num => m.query98 num ≠ 0) := by
  constructor
  · intro h row hrow hsome
    obtain ⟨num, hnum⟩ := Option.isSome_iff_exists.mp hsome
    obtain ⟨body, hget, hsame⟩ := h.1 row hrow num hnum
    obtain ⟨row', hrow', hnum', rfl⟩ := get_map181_iff.mp hget
    have hkey := SavedMaps.objnum_unique hrow hrow' hnum hnum'
    have hvalue : row.2 = row'.2 :=
      KeyedTable.eq_of_mem (k := row.1) (by simpa using hrow) (by rw [hkey]; simpa using hrow')
    rw [← hvalue] at hsame
    exact (sameBody_renumber_iff SavedMaps.query98_names row.2).mp hsame
  · intro h
    constructor
    · intro row hrow num hnum
      exact ⟨_, get_map181_iff.mpr ⟨row, hrow, hnum, rfl⟩,
        (sameBody_renumber_iff SavedMaps.query98_names row.2).mpr
          (h row hrow (by rw [hnum]; rfl))⟩
    · intro num body hget
      obtain ⟨row, hrow, hnum, -⟩ := get_map181_iff.mp hget
      exact ⟨row, hrow, hnum⟩

end Migration

/-- The conversions keep the meaning of both files exactly if nothing is written behind a buffer and, as
long as all saved TR-181 objects still exist, all TR-098 entries are in reach and all references are to
objects with an entry of their own or keep their number. -/
theorem migration_preserves_iff {A : Type} (m : Migration A) : m.Preserves ↔ m.Sound := by
  have hknown181 : (∀ row ∈ m.saved181.rows, (row.2.newNum m.new181).isSome) →
      ∀ num, m.query181 num ≠ 0 ↔ ∃ row ∈ m.saved181.rows, row.1 = num := by
    intro hall num
    rw [SavedMaps.query181_ne_zero_iff]
    constructor
    · rintro ⟨e, he, -⟩
      exact ⟨(num, e), he, rfl⟩
    · rintro ⟨row, hrow, rfl⟩
      exact ⟨row.2, hrow, hall row hrow⟩
  constructor
  · rintro ⟨ret98, map98, attr98, ret181, map181, h98, h181, hright⟩
    rw [Migration.convert98_eq, Option.ite_none_right_eq_some] at h98
    rw [Migration.convert181_eq, Option.ite_none_right_eq_some] at h181
    obtain ⟨hfits98, heq98⟩ := h98
    obtain ⟨hfits181, heq181⟩ := h181
    simp only [Option.some.injEq, Prod.mk.injEq] at heq98 heq181
    obtain ⟨rfl, rfl, rfl⟩ := heq98
    obtain ⟨rfl, rfl⟩ := heq181
    have hboth : (∀ row ∈ m.saved181.rows, (row.2.newNum m.new181).isSome) →
        m.Right98 m.map98 ∧ m.Right181 m.map181 := fun hall => hright rfl (if_pos hall)
    constructor
    · exact hfits98
    · exact hfits181
    · intro hall i e hentry hsome
      exact (Migration.right98_iff.mp (hboth hall).1 i e hentry hsome).1
    · intro hall i e hentry hsome
      rw [← refsKept_congr (hknown181 hall)]
      exact (Migration.right98_iff.mp (hboth hall).1 i e hentry hsome).2
    · intro hall row hrow
      rw [← refsKept_congr SavedMaps.query98_ne_zero_iff]
      exact Migration.right181_iff.mp (hboth hall).2 row hrow (hall row hrow)
  · intro hsound
    refine ⟨_, _, _, _, _, Migration.convert98_eq.trans (if_pos hsound.fits98),
      Migration.convert181_eq.trans (if_pos hsound.fits181), fun _ hret => ?_⟩
    have hall : ∀ row ∈ m.saved181.rows, (row.2.newNum m.new181).isSome := by
      by_contra hnot
      rw [if_neg hnot] at hret
      exact absurd hret (by decide)
    constructor
    · rw [Migration.right98_iff]
      intro i e hentry hsome
      rw [refsKept_congr (hknown181 hall)]
      exact ⟨hsound.reach hall i e hentry hsome, hsound.refs98 hall i e hentry hsome⟩
    · rw [Migration.right181_iff]
      intro row hrow _
      rw [refsKept_congr SavedMaps.query98_ne_zero_iff]
      exact hsound.refs181 hall row hrow

/-! ## An object that is gone -/

/-- A text of some members, without indentation. -/
def layOut (members : List Member) : List TextLine :=
  (withCommas members).map (fun p => ⟨0, p.1, p.2, true⟩)

/-- A text of some members, if its lines are short. -/
def SavedText.layOut (file : MapFile) (members : List Member)
    (hshort : ∀ l ∈ FeTr98.layOut members, (l.text file).length < 256) :
    SavedText file members where
  lines := FeTr98.layOut members
  renders := by
    unfold IsRendering FeTr98.layOut
    rw [List.map_map]
    exact List.map_id _
  newline := by
    intro l hl
    obtain ⟨p, -, rfl⟩ := List.mem_map.mp hl
    rfl
  short := hshort

/-- The object with the time in TR-098. -/
def igdTime : ObjName where
  text := "InternetGatewayDevice.Time".toList
  tag_free := by
    intro file
    cases file <;> decide +kernel
  mapping_free := by decide +kernel
  one_line := by decide +kernel

/-- The object with the time in TR-181. -/
def deviceTime : ObjName where
  text := "Device.Time".toList
  tag_free := by
    intro file
    cases file <;> decide +kernel
  mapping_free := by decide +kernel
  one_line := by decide +kernel

/-- The new firmware has no time in TR-098 any more; its number is now that of the user interface. -/
def timeDropped : SavedMaps where
  old98 :=
    { names := ["InternetGatewayDevice.Time".toList, "InternetGatewayDevice.UserInterface".toList]
      distinct := by decide
      named := by decide
      small := by decide }
  new98 :=
    { names := ["InternetGatewayDevice.UserInterface".toList]
      distinct := by decide
      named := by decide
      small := by decide }
  old181 := PEquiv.single 7 "Device.Time".toList
  new181 := PEquiv.single 7 "Device.Time".toList
  oid_ne_zero := by decide
  saved98 := [some { name := some igdTime, body := [.objMapping ⟨7, .zero⟩] }]
  saved181 :=
    { rows := [(7, { name := some deviceTime, body := [.objMapping ⟨100, .zero⟩] })]
      nodup := by decide }
  named98 := by
    intro i e hentry
    cases i with
    | zero =>
        obtain rfl := Option.some.inj (Option.some.inj hentry)
        exact ⟨igdTime, rfl, rfl⟩
    | succ i => exact absurd hentry (by simp)
  named181 := by
    intro row hrow
    obtain rfl := List.mem_singleton.mp hrow
    exact ⟨deviceTime, rfl, by decide⟩
  text98 := .layOut .tr98 _ (by decide +kernel)
  text181 := .layOut .tr181 _ (by decide +kernel)

/-- The migration with a reader of these two files. -/
def timeDroppedMigration : Migration Unit where
  toSavedMaps := timeDropped
  attrList := none
  read98 := fun _ => some (renumber98 timeDropped.query181 timeDropped.saved98)
  read181 := fun _ => some (renumber181 timeDropped.query98 timeDropped.saved181)
  reads98 := fun _ _ => rfl
  reads181 := fun _ _ => rfl

/-- The reference to the time names the user interface afterwards. -/
theorem migration_preserves_fails : ¬ timeDroppedMigration.Preserves := by
  rintro ⟨ret98, map98, attr98, ret181, map181, h98, h181, hright⟩
  have hfits98 : ∀ l ∈ timeDroppedMigration.text98.lines, l.Fits := by decide +kernel
  have hfits181 : ∀ l ∈ timeDroppedMigration.text181.lines, l.Fits := by decide +kernel
  have hall : ∀ row ∈ timeDroppedMigration.saved181.rows,
      (row.2.newNum timeDroppedMigration.new181).isSome := by decide +kernel
  rw [Migration.convert98_eq, if_pos hfits98] at h98
  rw [Migration.convert181_eq, if_pos hfits181, if_pos hall] at h181
  simp only [Option.some.injEq, Prod.mk.injEq] at h98 h181
  obtain ⟨rfl, rfl, rfl⟩ := h98
  obtain ⟨rfl, rfl⟩ := h181
  have hrefs := Migration.right181_iff.mp (hright rfl rfl).2 _ List.mem_cons_self (hall _ List.mem_cons_self)
  rcases hrefs _ List.mem_cons_self 100 rfl with hnew | hkept
  · exact hnew (by decide +kernel)
  · exact absurd hkept (by decide +kernel)

end FeTr98
end ZyxelRouter
