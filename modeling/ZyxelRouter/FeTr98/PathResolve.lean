import ZyxelRouter.Lib.SplitText
import ZyxelRouter.FeTr98.PathName

/-!
# Resolved TR-098 paths

A path from the management server is accepted if the name found in it is in the table.  Indices are
bytes, and a number above 255 is stored as 255.

Main results:

- Theorem {lit}`scan_classOf`: an accepted path has a placeholder of the name for each of its numbers.
- Theorem {lit}`zcfgFe98NameToSeqnum_accepted`: the object, the indices and the two names of an
  accepted path.
- Theorem {lit}`tr98Path_resolved`: writing the result gives the path back up to the cut numbers.
-/

namespace ZyxelRouter
namespace FeTr98

open Lib FeString

/-! ## Paths -/

/-- The components of a path behind the first. -/
def components (path : List Char) : List (List Char) :=
  (path.splitOn '.').tail

/-- The component of the name for a component of the path. -/
def classOf (c : List Char) : List Char :=
  if isNumber c then placeholder else c

/-- A number above 255 is cut to 255. -/
def clampComponent (c : List Char) : List Char :=
  if isNumber c then decimal (min (digitsValue c) 255) else c

/-- The path with the numbers cut. -/
def clampedPath (path : List Char) : List Char :=
  match path.splitOn '.' with
  | [] => []
  | first :: cs => join (first :: cs.map clampComponent)

/-- A path of at most 256 characters whose components behind the first are numbers without leading
zeros or start with another character, and none of them is the placeholder itself. -/
structure TidyPath (path : List Char) : Prop where
  nulless : nul ∉ path
  short : path.length ≤ 256
  number_or : ∀ c ∈ components path, isNumber c = true ∨ startsWithDigit c = false
  noLeadingZero : ∀ c ∈ components path, isNumber c = true → c.head? = some '0' → c = ['0']
  noPlaceholder : placeholder ∉ components path

/-- The numbers of a path fit into bytes. -/
def FitsBytes (path : List Char) : Prop :=
  ∀ c ∈ components path, isNumber c = true → digitsValue c ≤ 255

/-- Every path is joined from its components. -/
theorem exists_components (path : List Char) :
    ∃ first, path.splitOn '.' = first :: components path ∧ path = join (first :: components path) ∧
      ∀ c ∈ first :: components path, '.' ∉ c := by
  obtain ⟨first, cs, hsplit⟩ := List.exists_cons_of_ne_nil (List.splitOn_ne_nil '.' path)
  have htail : components path = cs := by
    rw [components, hsplit]
    rfl
  rw [htail]
  refine ⟨first, hsplit, ?_, ?_⟩
  · rw [← hsplit]
    exact (List.intercalate_splitOn '.').symm
  · rw [← hsplit]
    exact fun c hc => notMem_of_mem_splitOn hc

/-- Joined components without dots are the same if the joined lists are. -/
theorem join_inj {comps comps' : List (List Char)} (hne : comps ≠ []) (hne' : comps' ≠ [])
    (hdot : ∀ c ∈ comps, '.' ∉ c)
    (hdot' : ∀ c ∈ comps', '.' ∉ c)
    (h : join comps = join comps') : comps = comps' := by
  have hsplit := congrArg (List.splitOn '.') h
  rw [join, join] at hsplit
  rwa [List.splitOn_intercalate '.' hdot hne, List.splitOn_intercalate '.' hdot' hne'] at hsplit

/-! ## Numbers and placeholders -/

/-- In an accepted path every number is taken for a placeholder: the second of two numbers in a row
would be left in the name, and no name has a component that starts with a digit. -/
theorem scan_classOf :
    ∀ (cs : List (List Char)) (afterNumber : Bool) (out ns : List (List Char)),
      scan afterNumber cs = some (out, ns) →
      (∀ c ∈ out, startsWithDigit c = false) →
      out = cs.map classOf ∧ ns = cs.filter isNumber := by
  intro cs
  induction cs with
  | nil =>
      intro afterNumber out ns h _
      cases h
      exact ⟨rfl, rfl⟩
  | cons c cs ih =>
      intro afterNumber out ns h hdigit
      rw [scan] at h
      split at h
      · rename_i hnum
        have hnum' : isNumber c = true := (Bool.and_eq_true_iff.mp hnum).1
        split at h
        · cases h
        · obtain ⟨⟨out', ns'⟩, hscan, heq⟩ := Option.map_eq_some_iff.mp h
          cases heq
          obtain ⟨hout, hns⟩ := ih true out' ns' hscan
            (fun d hd => hdigit d (List.mem_cons_of_mem _ hd))
          rw [List.map_cons, List.filter_cons, classOf, if_pos hnum', if_pos hnum', hout, hns]
          exact ⟨rfl, rfl⟩
      · obtain ⟨⟨out', ns'⟩, hscan, heq⟩ := Option.map_eq_some_iff.mp h
        cases heq
        obtain ⟨hout, hns⟩ := ih false out' ns' hscan
          (fun d hd => hdigit d (List.mem_cons_of_mem _ hd))
        have hnum' := isNumber_of_startsWithDigit (hdigit c List.mem_cons_self)
        rw [List.map_cons, List.filter_cons, classOf, hnum', if_neg (by decide), if_neg (by decide),
          hout, hns]
        exact ⟨rfl, rfl⟩

theorem dotless_of_mem_scan :
    ∀ {cs : List (List Char)} {afterNumber : Bool} {out ns : List (List Char)},
      scan afterNumber cs = some (out, ns) →
      (∀ c ∈ cs, '.' ∉ c) →
      ∀ c ∈ out, '.' ∉ c := by
  intro cs
  induction cs with
  | nil =>
      intro afterNumber out ns h _ c hc
      cases h
      cases hc
  | cons d cs ih =>
      intro afterNumber out ns h hdot c hc
      have hdot' : ∀ c ∈ cs, '.' ∉ c := fun c hc => hdot c (List.mem_cons_of_mem d hc)
      rw [scan] at h
      split at h
      · split at h
        · cases h
        · obtain ⟨⟨out', ns'⟩, hscan, heq⟩ := Option.map_eq_some_iff.mp h
          cases heq
          rcases List.mem_cons.mp hc with rfl | hc
          · decide
          · exact ih hscan hdot' c hc
      · obtain ⟨⟨out', ns'⟩, hscan, heq⟩ := Option.map_eq_some_iff.mp h
        cases heq
        rcases List.mem_cons.mp hc with rfl | hc
        · exact hdot c List.mem_cons_self
        · exact ih hscan hdot' c hc

/-- There is a placeholder in the name for every number. -/
theorem placeholders_classOf :
    ∀ {cs : List (List Char)}, placeholder ∉ cs →
      placeholders (cs.map classOf) = (cs.filter isNumber).length := by
  intro cs
  induction cs with
  | nil =>
      intro _
      rfl
  | cons c cs ih =>
      intro hnot
      rw [List.mem_cons, not_or] at hnot
      rw [placeholders, List.map_cons, List.count_cons, List.filter_cons, classOf]
      have ih' := ih hnot.2
      rw [placeholders] at ih'
      cases hnum : isNumber c with
      | true => simp [ih']
      | false => simp [ih', Ne.symm hnot.1]

/-- The value that is stored for a number, printed again. -/
theorem decimal_clampIdx {c : List Char} (hnum : isNumber c = true) :
    decimal (clampIdx c).toNat = clampComponent c := by
  obtain ⟨hne, hds⟩ := isNumber_iff.mp hnum
  rw [clampComponent, if_pos hnum, clampIdx, atoi_digits hne hds]
  split
  · rename_i hbig
    rw [Nat.min_eq_right (by omega)]
    rfl
  · rename_i hsmall
    rw [Nat.min_eq_left (by omega), Int.toNat_natCast, UInt8.toNat_ofNat_of_lt' (by
      simp only [UInt8.size]
      omega)]

/-- The stored numbers in the places of the placeholders. -/
theorem instantiate_classOf (objIid : ObjIndex) :
    ∀ (cs : List (List Char)) (level : Nat) (tail : List UInt8),
      placeholder ∉ cs →
      objIid.idx.drop level = (cs.filter isNumber).map clampIdx ++ tail →
      instantiate objIid level (cs.map classOf) = cs.map clampComponent := by
  intro cs
  induction cs with
  | nil =>
      intro level tail _ _
      rfl
  | cons c cs ih =>
      intro level tail hnot hidx
      rw [List.mem_cons, not_or] at hnot
      rw [List.map_cons, List.map_cons]
      cases hnum : isNumber c with
      | true =>
          rw [List.filter_cons, if_pos hnum, List.map_cons, List.cons_append] at hidx
          have hhead : objIid.idx.getD level 0 = clampIdx c := by
            rw [List.getD_eq_getElem?_getD, ← List.head?_drop, hidx]
            rfl
          have htail : objIid.idx.drop (level + 1) = (cs.filter isNumber).map clampIdx ++ tail := by
            rw [← List.tail_drop, hidx, List.tail_cons]
          rw [classOf, if_pos hnum, instantiate_placeholder, hhead, decimal_clampIdx hnum,
            ih (level + 1) tail hnot.2 htail]
      | false =>
          rw [List.filter_cons, hnum, if_neg (by decide)] at hidx
          have hclass : classOf c = c := by rw [classOf, hnum, if_neg (by decide)]
          have hclamp : clampComponent c = c := by rw [clampComponent, hnum, if_neg (by decide)]
          rw [hclass, hclamp, instantiate_other objIid level (Ne.symm hnot.1),
            ih level tail hnot.2 hidx]

/-! ## Accepted paths -/

theorem sublist_join {c first : List Char} {cs : List (List Char)} (hc : c ∈ first :: cs) :
    c.Sublist (join (first :: cs)) := by
  rw [join_eq_dotted, dotted]
  rcases List.mem_cons.mp hc with rfl | hc
  · exact List.sublist_append_left _ _
  · apply List.Sublist.trans _ (List.sublist_append_right _ _)
    rw [List.flatMap]
    apply List.Sublist.trans (List.sublist_cons_self '.' c)
    exact List.sublist_flatten_of_mem (List.mem_map_of_mem hc)

/-- The name and the indices that an accepted path resolves to. -/
theorem zcfgFe98NameToSeqnum_accepted {table : NameTable} {path : List Char} {seqnum : Nat}
    {objIid : ObjIndex}
    (htable : WellNamedTable table)
    (hpath : TidyPath path)
    (hfound : zcfgFe98NameToSeqnum table path = (.success, seqnum, objIid)) :
    ∃ first n,
      path.splitOn '.' = first :: components path ∧
      path = join (first :: components path) ∧
      seqnum = eTr98Start + n ∧
      table[n]? = some (join (first :: (components path).map classOf)) ∧
      NameComponents first ((components path).map classOf) ∧
      placeholders ((components path).map classOf) < supportedIndexLevel ∧
      objIid.level.toNat = placeholders ((components path).map classOf) ∧
      instantiate objIid 0 ((components path).map classOf) =
        (components path).map clampComponent := by
  obtain ⟨first, hsplit, hjoin, hdot⟩ := exists_components path
  have hne : path ≠ [] := by
    intro hnil
    rw [zcfgFe98NameToSeqnum, if_pos hnil] at hfound
    cases hfound
  have hnul : ∀ c ∈ first :: components path, nul ∉ c := by
    intro c hc hx
    apply hpath.nulless
    rw [hjoin]
    exact (sublist_join hc).mem hx
  have hplain : ∀ c ∈ components path, Plain c := fun c hc =>
    ⟨hdot c (List.mem_cons_of_mem first hc), hnul c (List.mem_cons_of_mem first hc),
      hpath.number_or c hc⟩
  rw [hjoin, zcfgFe98NameToSeqnum_eq table (by rwa [← hjoin]) (hdot first List.mem_cons_self)
    (hnul first List.mem_cons_self) hplain] at hfound
  split at hfound
  · cases hfound
  · rename_i out ns hscan
    split at hfound
    · cases hfound
    · rename_i hlevel
      split at hfound
      · cases hfound
      · rename_i n hfind
        cases hfound
        obtain ⟨hlt, hname, -⟩ := List.findIdx?_eq_some_iff_getElem.mp hfind
        have hname' : table[n]? = some (join (first :: out)) :=
          List.getElem?_eq_some_iff.mpr ⟨hlt, by simpa using hname⟩
        -- The name in the table has the same components, since neither list has a dot in it.
        obtain ⟨first', cs', hcomps, heq⟩ :=
          htable.components _ (List.mem_of_getElem? hname')
        have hdotOut : ∀ c ∈ first :: out, '.' ∉ c := by
          intro c hc
          rcases List.mem_cons.mp hc with rfl | hc
          · exact hdot c List.mem_cons_self
          · exact dotless_of_mem_scan hscan (fun d hd => hdot d (List.mem_cons_of_mem first hd)) c hc
        have hsame := join_inj (by simp) (by simp) hdotOut hcomps.dotless heq
        obtain ⟨rfl, rfl⟩ := List.cons.inj hsame
        obtain ⟨rfl, rfl⟩ := scan_classOf _ _ _ _ hscan
          (fun c hc => hcomps.noDigit c (List.mem_cons_of_mem first hc))
        have hcount := placeholders_classOf hpath.noPlaceholder
        have hidx := idx_storeAll ((components path).filter isNumber) 0 ObjIndex.zero (by omega)
        refine ⟨first, n, hsplit, hjoin, rfl, hname', hcomps, by omega, ?_, ?_⟩
        · rw [hcount]
          apply UInt8.toNat_ofNat_of_lt'
          rw [supportedIndexLevel] at hlevel
          simp only [UInt8.size]
          omega
        · apply instantiate_classOf _ _ 0 _ hpath.noPlaceholder
          simp only [List.drop_zero]
          rw [hidx, List.take_zero, List.nil_append]

theorem getLast?_join :
    ∀ {comps : List (List Char)},
      (∀ c ∈ comps, c ≠ []) →
      (∀ c ∈ comps, '.' ∉ c) →
      (join comps).getLast? ≠ some '.' := by
  intro comps
  induction comps with
  | nil =>
      intro _ _
      simp [join]
  | cons c comps ih =>
      intro hne hdot
      cases comps with
      | nil =>
          intro hlast
          have hjoin : join [c] = c := by simp [join]
          rw [hjoin] at hlast
          exact hdot c List.mem_cons_self (List.mem_of_getLast? hlast)
      | cons d ds =>
          have ih' := ih (fun x hx => hne x (List.mem_cons_of_mem c hx))
            (fun x hx => hdot x (List.mem_cons_of_mem c hx))
          obtain ⟨x, xs, hjoin⟩ : ∃ x xs, join (d :: ds) = x :: xs := by
            obtain ⟨y, ys, rfl⟩ :=
              List.exists_cons_of_ne_nil (hne d (List.mem_cons_of_mem c List.mem_cons_self))
            exact ⟨y, _, join_eq_dotted _ _⟩
          rw [join_cons_cons, List.getLast?_append, hjoin, List.getLast?_cons_cons, ← hjoin]
          rw [Option.or_of_isSome (by simp [hjoin])]
          exact ih'

/-- The class name of a path is the name with the placeholders. -/
theorem zcfgFeTr98ClassNameGet_eq {first : List Char} {cs : List (List Char)}
    (hdot : ∀ c ∈ first :: cs, '.' ∉ c)
    (hcomps : NameComponents first (cs.map classOf))
    (hshort : (join (first :: cs)).length ≤ 256) :
    zcfgFeTr98ClassNameGet (join (first :: cs)) = some (join (first :: cs.map classOf)) := by
  have hne : ∀ c ∈ first :: cs, c ≠ [] := by
    intro c hc
    rcases List.mem_cons.mp hc with rfl | hc
    · exact hcomps.nonempty c List.mem_cons_self
    · have hclass := hcomps.nonempty (classOf c) (List.mem_cons_of_mem first (List.mem_map_of_mem hc))
      rintro rfl
      exact hclass rfl
  have hdigits : ∀ c ∈ cs, (if allDigits c then placeholder else c) = classOf c := by
    intro c hc
    have hlen : c.length ≤ (join (first :: cs)).length :=
      (sublist_join (List.mem_cons_of_mem first hc)).length_le
    have hc' := hne c (List.mem_cons_of_mem first hc)
    have hnum : isNumber c = c.all Char.isDigit := by simp [isNumber, hc']
    rw [allDigits_of_short (by omega), classOf, hnum]
  rw [zcfgFeTr98ClassNameGet, if_neg (getLast?_join hne hdot), tokens_join (by simp) hne hdot]
  simp only
  rw [List.map_congr_left hdigits, join_eq_dotted, dotted]

/-! ## Writing the result -/

theorem length_dotted_map_le {f : List Char → List Char} :
    ∀ {cs : List (List Char)}, (∀ c ∈ cs, (f c).length ≤ c.length) →
      (dotted (cs.map f)).length ≤ (dotted cs).length := by
  intro cs
  induction cs with
  | nil =>
      intro _
      exact le_refl _
  | cons c cs ih =>
      intro h
      have hc := h c List.mem_cons_self
      have ih' := ih (fun d hd => h d (List.mem_cons_of_mem c hd))
      rw [List.map_cons, dotted_cons, dotted_cons]
      simp only [List.length_cons, List.length_append]
      omega

theorem length_classOf_le {c : List Char} : (classOf c).length ≤ c.length := by
  rw [classOf]
  split
  · rename_i hnum
    exact List.length_pos_of_ne_nil (isNumber_iff.mp hnum).1
  · exact le_refl _

/-- A number without leading zeros is printed as it is if it fits into a byte. -/
theorem clampComponent_eq {c : List Char}
    (hzero : isNumber c = true → c.head? = some '0' → c = ['0'])
    (hfits : isNumber c = true → digitsValue c ≤ 255) : clampComponent c = c := by
  rw [clampComponent]
  split
  · rename_i hnum
    obtain ⟨hne, hds⟩ := isNumber_iff.mp hnum
    rw [Nat.min_eq_left (hfits hnum), decimal_digitsValue c hne hds (hzero hnum)]
  · rfl

theorem length_clampComponent_le {c : List Char}
    (hzero : isNumber c = true → c.head? = some '0' → c = ['0']) :
    (clampComponent c).length ≤ c.length := by
  by_cases hfits : isNumber c = true → digitsValue c ≤ 255
  · rw [clampComponent_eq hzero hfits]
  · obtain ⟨hnum, hbig⟩ := Classical.not_imp.mp hfits
    obtain ⟨hne, hds⟩ := isNumber_iff.mp hnum
    have hprint := decimal_digitsValue c hne hds (hzero hnum)
    have hthree : (decimal 255).length = 3 := rfl
    have hlong : ¬ (decimal (digitsValue c)).length ≤ 2 := by
      rw [decimal, Nat.length_toDigits_le_iff (by decide) (by decide)]
      omega
    rw [hprint] at hlong
    rw [clampComponent, if_pos hnum, Nat.min_eq_right (by omega), hthree]
    omega

theorem clampedPath_of_fits {path : List Char} (hpath : TidyPath path) (hfits : FitsBytes path) :
    clampedPath path = path := by
  obtain ⟨first, hsplit, hjoin, -⟩ := exists_components path
  have hmap : (components path).map clampComponent = components path := by
    have hall : ∀ c ∈ components path, clampComponent c = id c := fun c hc =>
      clampComponent_eq (hpath.noLeadingZero c hc) (hfits c hc)
    rw [List.map_congr_left hall, List.map_id]
  rw [clampedPath, hsplit]
  simp only
  rw [hmap, ← hjoin]

/-- What {lit}`zcfgFe98SeqnumToName` writes for an accepted path. -/
theorem zcfgFe98SeqnumToName_accepted {table : NameTable} {path : List Char} {seqnum : Nat}
    {objIid : ObjIndex} {bufSize : Nat}
    (htable : WellNamedTable table)
    (hpath : TidyPath path)
    (hfound : zcfgFe98NameToSeqnum table path = (.success, seqnum, objIid))
    (hbuf : path.length < bufSize) :
    ∃ buf, zcfgFe98SeqnumToName table seqnum objIid (List.replicate bufSize nul) =
        (.success, buf) ∧
      stringOf buf = clampedPath path := by
  obtain ⟨first, n, hsplit, hjoin, rfl, hname, hcomps, hlevels, -, hinst⟩ :=
    zcfgFe98NameToSeqnum_accepted htable hpath hfound
  have hshort := hpath.short
  have hlen : path.length = first.length + (dotted (components path)).length := by
    conv_lhs => rw [hjoin]
    rw [join_eq_dotted, List.length_append]
  have hclass : (join (first :: (components path).map classOf)).length < tr98MaxObjNameLength := by
    have hle := length_dotted_map_le (fun c (_ : c ∈ components path) => length_classOf_le (c := c))
    rw [join_eq_dotted, List.length_append, tr98MaxObjNameLength]
    omega
  have hclamp : (join (first :: (components path).map clampComponent)).length < bufSize := by
    have hle : (dotted ((components path).map clampComponent)).length ≤
        (dotted (components path)).length :=
      length_dotted_map_le (fun c hc => length_clampComponent_le (hpath.noLeadingZero c hc))
    rw [join_eq_dotted, List.length_append]
    omega
  obtain ⟨buf, hwrite, hstring⟩ := zcfgFe98SeqnumToName_eq hname hcomps hlevels hclass objIid
    (by rw [hinst]; exact hclamp)
  refine ⟨buf, hwrite, ?_⟩
  rw [hstring, hinst, clampedPath, hsplit]

/-- What a tidy path resolves to: an object with as many placeholders as the level says, named by the
class name of the path; writing the result gives the path with its numbers cut to 255, and so two
such paths with one result differ in numbers above 255 only. -/
theorem tr98Path_resolved (table : NameTable) (htable : WellNamedTable table) :
    (∀ path seqnum objIid bufSize,
      TidyPath path →
      path.length < bufSize →
      zcfgFe98NameToSeqnum table path = (.success, seqnum, objIid) →
      ∃ name buf,
        table[arraySeqnum seqnum]? = some name ∧
        objIid.level.toNat = levels name ∧
        zcfgFeTr98ClassNameGet path = some name ∧
        zcfgFe98SeqnumToName table seqnum objIid (List.replicate bufSize nul) = (.success, buf) ∧
        stringOf buf = clampedPath path ∧
        (FitsBytes path → stringOf buf = path)) ∧
    (∀ path path' seqnum objIid,
      TidyPath path →
      TidyPath path' →
      zcfgFe98NameToSeqnum table path = (.success, seqnum, objIid) →
      zcfgFe98NameToSeqnum table path' = (.success, seqnum, objIid) →
      clampedPath path = clampedPath path' ∧ (FitsBytes path → FitsBytes path' → path = path')) := by
  constructor
  · intro path seqnum objIid bufSize hpath hbuf hfound
    obtain ⟨buf, hwrite, hstring⟩ := zcfgFe98SeqnumToName_accepted htable hpath hfound hbuf
    obtain ⟨first, n, hsplit, hjoin, rfl, hname, hcomps, -, hlevel, -⟩ :=
      zcfgFe98NameToSeqnum_accepted htable hpath hfound
    have hdot : ∀ c ∈ first :: components path, '.' ∉ c := by
      intro c hc
      rw [← hsplit] at hc
      exact notMem_of_mem_splitOn hc
    have hshort := hpath.short
    have hclass := zcfgFeTr98ClassNameGet_eq hdot hcomps (by rwa [← hjoin])
    rw [← hjoin] at hclass
    have harray : arraySeqnum (eTr98Start + n) = n := Nat.add_sub_cancel_left _ _
    refine ⟨_, buf, by rw [harray]; exact hname, by rw [hcomps.levels]; exact hlevel, hclass, hwrite,
      hstring, fun hfits => ?_⟩
    rw [hstring, clampedPath_of_fits hpath hfits]
  · intro path path' seqnum objIid hpath hpath' hfound hfound'
    have hlt : path.length < 257 := Nat.lt_succ_of_le hpath.short
    have hlt' : path'.length < 257 := Nat.lt_succ_of_le hpath'.short
    obtain ⟨buf, hwrite, hstring⟩ := zcfgFe98SeqnumToName_accepted htable hpath hfound hlt
    obtain ⟨buf', hwrite', hstring'⟩ := zcfgFe98SeqnumToName_accepted htable hpath' hfound' hlt'
    rw [hwrite] at hwrite'
    cases hwrite'
    have hclamped : clampedPath path = clampedPath path' := hstring.symm.trans hstring'
    refine ⟨hclamped, fun hfits hfits' => ?_⟩
    rwa [clampedPath_of_fits hpath hfits, clampedPath_of_fits hpath' hfits'] at hclamped

/-- The path {lit}`X.7` is resolved and written again. -/
theorem tr98Path_resolved_small :
    ∃ name buf,
      smallTable[0]? = some name ∧ levels name = 1 ∧
      zcfgFe98SeqnumToName smallTable 100
        { level := 1, idx := [7, 0, 0, 0, 0, 0], idx_length := rfl } (List.replicate 257 nul) =
          (.success, buf) ∧
      stringOf buf = ['X', '.', '7'] := by
  have hpath : TidyPath ['X', '.', '7'] := by
    constructor <;> simp [components] <;> decide
  have hfits : FitsBytes ['X', '.', '7'] := by
    simp [FitsBytes, components]
    decide
  obtain ⟨name, buf, hname, hlevel, -, hwrite, -, hsame⟩ :=
    (tr98Path_resolved smallTable smallTable_wellNamed).1 ['X', '.', '7'] 100
      { level := 1, idx := [7, 0, 0, 0, 0, 0], idx_length := rfl } 257 hpath (by decide)
      (by decide +kernel)
  exact ⟨name, buf, hname, hlevel.symm, hwrite, hsame hfits⟩

/-- The path {lit}`X.300` comes back as {lit}`X.255`, the same instance as that of {lit}`X.255`.
{lit}`X.i` resolves with level 0 to the object with one placeholder, and {lit}`X.1abc` to an object
{lit}`X.ibc` although its class name is {lit}`X.1abc`. -/
theorem tr98Path_resolved_fails :
    WellNamedTable smallTable ∧
    (∃ objIid buf,
      zcfgFe98NameToSeqnum smallTable ['X', '.', '3', '0', '0'] = (.success, 100, objIid) ∧
      zcfgFe98NameToSeqnum smallTable ['X', '.', '2', '5', '5'] = (.success, 100, objIid) ∧
      zcfgFe98SeqnumToName smallTable 100 objIid (List.replicate 257 nul) = (.success, buf) ∧
      stringOf buf = ['X', '.', '2', '5', '5']) ∧
    zcfgFe98NameToSeqnum smallTable ['X', '.', 'i'] = (.success, 100, ObjIndex.zero) ∧
    levels ['X', '.', 'i'] = 1 ∧
    zcfgFe98NameToSeqnum [['X', '.', 'i', 'b', 'c']] ['X', '.', '1', 'a', 'b', 'c'] =
      (.success, 100, ObjIndex.zero) ∧
    zcfgFeTr98ClassNameGet ['X', '.', '1', 'a', 'b', 'c'] =
      some ['X', '.', '1', 'a', 'b', 'c'] := by
  refine ⟨smallTable_wellNamed, ?_, by decide +kernel, by decide +kernel, by decide +kernel,
    by decide +kernel⟩
  exact ⟨{ level := 1, idx := [255, 0, 0, 0, 0, 0], idx_length := rfl }, _, by decide +kernel,
    by decide +kernel, rfl, by decide +kernel⟩

end FeTr98
end ZyxelRouter
