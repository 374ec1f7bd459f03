import ZyxelRouter.FeTr98.Notify
import ZyxelRouter.FeSchema.SubObjects
import ZyxelRouter.FeTr98.PathResolve

/-!
# The sub-objects of a TR-098 object

{lit}`zcfgFeTr98SubObjNameListGet` goes through the table of names and takes those that begin with the class
name of an object; the character behind it is skipped, whatever it is.

Main results:

- Theorem {lit}`takesName_iff`: the names that are taken are those of sub-objects and those that look alike.
- Theorem {lit}`subObjNames_eq_iff`: the sub-objects are listed exactly if no name looks alike.
-/

namespace ZyxelRouter
namespace FeTr98

open FeString

/-! ## The function -/

/-- {lit}`HIDE_VOIP` hides this object. -/
def services : List Char := "Services".toList

/-- The tests on a name: it begins with the class name and is longer, and the first dot behind the skipped
character, if there is one, begins {lit}`".i"`. -/
def takesName (tr98ClassName name : List Char) : Bool :=
  tr98ClassName.isPrefixOf name && decide (tr98ClassName.length < name.length) &&
    match (name.drop (tr98ClassName.length + 1)).dropWhile (· ≠ '.') with
    | [] => true
    | ptr => ptr = ['.', 'i']

/-- The loop over the table. -/
def subObjNames (hiddenVoIP : Bool) (tr98ClassName : List Char) : NameTable → List (List Char)
  | [] => []
  | name :: rest =>
      if takesName tr98ClassName name then
        let subName := name.drop (tr98ClassName.length + 1)
        if hiddenVoIP ∧ subName = services then subObjNames hiddenVoIP tr98ClassName rest
        else subName :: subObjNames hiddenVoIP tr98ClassName rest
      else subObjNames hiddenVoIP tr98ClassName rest

/-- {lit}`zcfgFeTr98SubObjNameListGet`; {lit}`none` if the class name leaves its buffer. -/
def zcfgFeTr98SubObjNameListGet (hiddenVoIP : Bool) (table : NameTable) (tr98ObjName : List Char) :
    Option (List (List Char)) :=
  match zcfgFeTr98ClassNameGet tr98ObjName with
  | none => some []
  | some tr98ClassName =>
      if tr98ClassName.length < tr98ClassNameSize then
        some (subObjNames hiddenVoIP tr98ClassName table)
      else none

/-! ## Sub-objects -/

/-- A single component, or one and the placeholder. -/
def IsSubName (subName : List Char) : Prop :=
  ∃ component, component ≠ [] ∧ '.' ∉ component ∧
    (subName = component ∨ subName = component ++ ['.', 'i'])

/-- The name of a sub-object. -/
def IsSubObject (tr98ClassName name : List Char) : Prop :=
  ∃ subName, name = tr98ClassName ++ '.' :: subName ∧ IsSubName subName

open Classical in
/-- The sub-objects of an object in the order of the table, without the name of the object. -/
noncomputable def subObjectsOf (table : NameTable) (tr98ClassName : List Char) : List (List Char) :=
  (table.filter (fun name => IsSubObject tr98ClassName name)).map
    (fun name => name.drop (tr98ClassName.length + 1))

/-- A name that goes on behind the class name without a dot, and has a single component or one and the
placeholder behind the next character. -/
def LooksAlike (tr98ClassName name : List Char) : Prop :=
  ∃ c rest, c ≠ '.' ∧ name = tr98ClassName ++ c :: rest ∧
    ('.' ∉ rest ∨ ∃ component, '.' ∉ component ∧ rest = component ++ ['.', 'i'])

/-- The names of a table have no empty components. -/
def TidyTable (table : NameTable) : Prop :=
  ∀ name ∈ table, [] ∉ name.splitOn '.'

/-! ## The tests on a name -/

variable {tr98ClassName : List Char}

/-- The text behind the skipped character. -/
theorem dropWhile_dot_iff (rest : List Char) :
    (match rest.dropWhile (· ≠ '.') with
      | [] => true
      | ptr => ptr = ['.', 'i']) = true ↔
      '.' ∉ rest ∨ ∃ component, '.' ∉ component ∧ rest = component ++ ['.', 'i'] := by
  by_cases hrest : '.' ∈ rest
  · obtain ⟨component, text, hdot, rfl⟩ := FeSchema.exists_first_dot hrest
    rw [FeSchema.dropWhile_dot hdot]
    simp only [decide_eq_true_eq]
    constructor
    · intro htext
      rw [htext]
      exact .inr ⟨component, hdot, rfl⟩
    · rintro (hnot | ⟨component', hdot', heq⟩)
      · exact absurd hrest hnot
      · rw [(FeSchema.first_dot hdot hdot' heq).2]
  · have hnil : rest.dropWhile (· ≠ '.') = [] := by
      rw [List.dropWhile_eq_nil_iff]
      intro c hc
      have hne : c ≠ '.' := by
        rintro rfl
        exact hrest hc
      simpa using hne
    rw [hnil]
    exact iff_of_true rfl (.inl hrest)

/-- The names that are taken. -/
theorem takesName_iff (name : List Char) :
    takesName tr98ClassName name = true ↔
      ∃ c rest, name = tr98ClassName ++ c :: rest ∧
        ('.' ∉ rest ∨ ∃ component, '.' ∉ component ∧ rest = component ++ ['.', 'i']) := by
  rw [takesName, Bool.and_eq_true, Bool.and_eq_true, List.isPrefixOf_iff_prefix, decide_eq_true_eq,
    dropWhile_dot_iff]
  constructor
  · rintro ⟨⟨⟨behind, rfl⟩, hlen⟩, hrest⟩
    cases behind with
    | nil => simp at hlen
    | cons c rest =>
        have hdrop : (tr98ClassName ++ c :: rest).drop (tr98ClassName.length + 1) = rest := by simp
        rw [hdrop] at hrest
        exact ⟨c, rest, rfl, hrest⟩
  · rintro ⟨c, rest, rfl, hrest⟩
    have hdrop : (tr98ClassName ++ c :: rest).drop (tr98ClassName.length + 1) = rest := by simp
    rw [hdrop]
    exact ⟨⟨List.prefix_append _ _, by simp⟩, hrest⟩

/-- In a table without empty components the names that are taken are those of sub-objects, and those that
look alike. -/
theorem takesName_tidy_iff {name : List Char} (htidy : [] ∉ name.splitOn '.') :
    takesName tr98ClassName name = true ↔
      IsSubObject tr98ClassName name ∨ LooksAlike tr98ClassName name := by
  rw [takesName_iff]
  constructor
  · rintro ⟨c, rest, rfl, hrest⟩
    by_cases hc : c = '.'
    · subst hc
      refine .inl ⟨rest, rfl, ?_⟩
      have hne : ∀ component, (rest = component ∨ rest = component ++ ['.', 'i']) →
          component ≠ [] := by
        rintro component hrest' rfl
        apply htidy
        rw [List.splitOn_append_cons_self]
        apply List.mem_append_right
        rcases hrest' with rfl | rfl <;> decide
      rcases hrest with hdot | ⟨component, hdot, heq⟩
      · exact ⟨rest, hne rest (.inl rfl), hdot, .inl rfl⟩
      · exact ⟨component, hne component (.inr heq), hdot, .inr heq⟩
    · exact .inr ⟨c, rest, hc, rfl, hrest⟩
  · rintro (⟨subName, rfl, component, -, hdot, hsub⟩ | ⟨c, rest, -, rfl, hrest⟩)
    · refine ⟨'.', subName, rfl, ?_⟩
      rcases hsub with rfl | rfl
      · exact .inl hdot
      · exact .inr ⟨component, hdot, rfl⟩
    · exact ⟨c, rest, rfl, hrest⟩

/-! ## The list -/

/-- What the loop lists if nothing is hidden. -/
theorem subObjNames_eq (tr98ClassName : List Char) (table : NameTable) :
    subObjNames false tr98ClassName table =
      (table.filter (takesName tr98ClassName)).map
        (fun name => name.drop (tr98ClassName.length + 1)) := by
  induction table with
  | nil => rfl
  | cons name table ih =>
      rw [subObjNames]
      by_cases htakes : takesName tr98ClassName name = true
      · rw [if_pos htakes, List.filter_cons_of_pos htakes, List.map_cons, ← ih]
        simp
      · rw [if_neg htakes, List.filter_cons_of_neg htakes, ih]

/-- A name that looks alike is none of a sub-object. -/
theorem LooksAlike.not_isSubObject {name : List Char} (h : LooksAlike tr98ClassName name) :
    ¬ IsSubObject tr98ClassName name := by
  obtain ⟨c, rest, hc, rfl, -⟩ := h
  rintro ⟨subName, heq, -⟩
  exact hc (List.cons.inj (List.append_cancel_left heq)).1

/-- The sub-objects of an object are listed in the order of the table, exactly if its class name fits into
the buffer and no name of the table looks like that of a sub-object. -/
theorem subObjNames_eq_iff (table : NameTable) (tr98ObjName tr98ClassName : List Char)
    (htidy : TidyTable table) (hclass : zcfgFeTr98ClassNameGet tr98ObjName = some tr98ClassName) :
    zcfgFeTr98SubObjNameListGet false table tr98ObjName = some (subObjectsOf table tr98ClassName) ↔
      tr98ClassName.length < tr98ClassNameSize ∧
        ∀ name ∈ table, ¬ LooksAlike tr98ClassName name := by
  classical
  rw [zcfgFeTr98SubObjNameListGet, hclass]
  simp only
  by_cases hfits : tr98ClassName.length < tr98ClassNameSize
  · rw [if_pos hfits, subObjNames_eq, subObjectsOf]
    have htakes : ∀ name ∈ table, (takesName tr98ClassName name = true ↔
        IsSubObject tr98ClassName name ∨ LooksAlike tr98ClassName name) :=
      fun name hname => takesName_tidy_iff (htidy name hname)
    constructor
    · intro hlist
      refine ⟨hfits, fun name hname halike => ?_⟩
      -- The list has one name more for each name that looks alike.
      have hcount := congrArg List.length (Option.some.inj hlist)
      rw [List.length_map, List.length_map, ← List.countP_eq_length_filter,
        ← List.countP_eq_length_filter,
        FeSchema.countP_of_imp (p := fun name => decide (IsSubObject tr98ClassName name))
          fun name hname hsub => (htakes name hname).mpr (.inl (of_decide_eq_true hsub))] at hcount
      have hzero := List.countP_eq_zero.mp (Nat.left_eq_add.mp hcount.symm) name hname
      rw [(htakes name hname).mpr (.inr halike), decide_eq_false halike.not_isSubObject] at hzero
      exact hzero rfl
    · rintro ⟨-, hnone⟩
      congr 2
      apply List.filter_congr
      intro name hname
      rw [Bool.eq_iff_iff, htakes name hname, or_iff_left (hnone name hname), decide_eq_true_eq]
  · rw [if_neg hfits]
    exact iff_of_false (by simp) (fun h => hfits h.1)

/-- The name of a sub-object with a component more. -/
def wanNames : NameTable :=
  ["InternetGatewayDevice".toList, "InternetGatewayDevice.LANDevice.i".toList,
    "InternetGatewayDevice.LANDevice.i.Hosts".toList]

/-- The objects {lit}`DNS` and {lit}`DNSEntry` of the vendor. -/
def dnsNames : NameTable :=
  ["InternetGatewayDevice.X_ZYXEL_EXT.DNS".toList,
    "InternetGatewayDevice.X_ZYXEL_EXT.DNSEntry.i".toList]

/-- A LAN device has its hosts. -/
theorem subObjNames_lan :
    zcfgFeTr98SubObjNameListGet false wanNames "InternetGatewayDevice.LANDevice.1".toList =
      some (subObjectsOf wanNames "InternetGatewayDevice.LANDevice.i".toList) := by
  have htidy : TidyTable wanNames := by
    intro name hname
    rw [wanNames, List.mem_cons, List.mem_cons, List.mem_singleton] at hname
    rcases hname with rfl | rfl | rfl
    · decide +kernel
    · decide +kernel
    · decide +kernel
  apply (subObjNames_eq_iff wanNames _ _ htidy (by decide +kernel)).mpr
  refine ⟨by decide +kernel, fun name hname halike => ?_⟩
  have htakes := (takesName_tidy_iff (htidy name hname)).mpr (.inr halike)
  rw [wanNames, List.mem_cons, List.mem_cons, List.mem_singleton] at hname
  rcases hname with rfl | rfl | rfl
  · exact absurd htakes (by decide +kernel)
  · exact absurd htakes (by decide +kernel)
  · exact halike.not_isSubObject ⟨"Hosts".toList, by decide +kernel, "Hosts".toList,
      by decide +kernel, by decide +kernel, .inl rfl⟩

/-- An entry of another object is listed for {lit}`DNS`. -/
theorem dnsEntry_listed :
    "InternetGatewayDevice.X_ZYXEL_EXT.DNS".toList ∈ dnsNames ∧
      zcfgFeTr98ClassNameGet "InternetGatewayDevice.X_ZYXEL_EXT.DNS".toList =
        some "InternetGatewayDevice.X_ZYXEL_EXT.DNS".toList ∧
      zcfgFeTr98SubObjNameListGet false dnsNames "InternetGatewayDevice.X_ZYXEL_EXT.DNS".toList =
        some ["ntry.i".toList] ∧
      subObjectsOf dnsNames "InternetGatewayDevice.X_ZYXEL_EXT.DNS".toList = [] := by
  refine ⟨by decide +kernel, by decide +kernel, by decide +kernel, ?_⟩
  rw [subObjectsOf, List.map_eq_nil_iff, List.filter_eq_nil_iff]
  intro name hname hsub
  simp only [decide_eq_true_eq] at hsub
  obtain ⟨subName, heq, -⟩ := hsub
  rw [dnsNames, List.mem_cons, List.mem_singleton] at hname
  have hfront : ("InternetGatewayDevice.X_ZYXEL_EXT.DNS".toList ++ ['.']).isPrefixOf name = true := by
    rw [heq, List.isPrefixOf_iff_prefix]
    exact ⟨subName, by simp⟩
  rcases hname with rfl | rfl
  · exact absurd hfront (by decide +kernel)
  · exact absurd hfront (by decide +kernel)

end FeTr98
end ZyxelRouter
