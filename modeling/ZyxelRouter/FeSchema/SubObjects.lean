import Mathlib.Algebra.Ring.Nat
import Mathlib.Data.List.Infix
import Mathlib.Data.List.Nodup

/-!
# The sub-objects of an object

{lit}`zcfgFeSubObjNameListGet` goes through the objects behind an object of the schema and takes those
that look like its immediate sub-objects by their names.

Main results:

- Theorem {lit}`objectsFrom_sizes`: the object at an offset, and those behind it.
- Theorem {lit}`visit_below`, {lit}`visit_outside`: what the loop makes of a name.
- Theorem {lit}`subNames_below`: the loop over the descendants of the object.
- Theorem {lit}`subObjNameList_iff`: the immediate sub-objects are listed exactly if no other name is taken
  for one.
-/

namespace ZyxelRouter
namespace FeSchema

/-! ## The function -/

/-- The fields of {lit}`objInfo_t` used here: the name and the number of parameters behind it. -/
structure ObjEntry where
  name : List Char
  count : Nat

/-- The sizes of {lit}`objInfo_t` and {lit}`parameterInfo_t`. -/
structure InfoSizes where
  objInfo : Nat
  parameterInfo : Nat
  objInfo_pos : 0 < objInfo

/-- The distance to the next object. -/
def InfoSizes.step (sizes : InfoSizes) (obj : ObjEntry) : Nat :=
  sizes.objInfo + obj.count * sizes.parameterInfo

/-- The objects from an offset on, where the first one given is at {lit}`oid`. -/
def objectsFrom (sizes : InfoSizes) (rdmObjId : Nat) : Nat → List ObjEntry → List ObjEntry
  | _, [] => []
  | oid, obj :: rest =>
      if oid = rdmObjId then obj :: rest else objectsFrom sizes rdmObjId (oid + sizes.step obj) rest

/-- {lit}`strstr`: the string from the first occurrence on. -/
def strstr (name word : List Char) : Option (List Char) :=
  if word <+: name then some name
  else
    match name with
    | [] => none
    | _ :: rest => strstr rest word

/-- What the loop does with a name. -/
inductive Visit where
  | stop
  | skip
  | found
deriving DecidableEq

/-- The tests of one round. -/
def visit (parentObjName name : List Char) : Visit :=
  match strstr name parentObjName with
  | none => .skip
  | some subName =>
      match subName.drop parentObjName.length with
      | '.' :: subName =>
          if '.' ∉ subName then .found
          else
            match subName.dropWhile (· ≠ '.') with
            | '.' :: 'i' :: rest => if rest.head? = some '.' then .skip else .found
            | _ => .skip
      | _ => .stop

/-- The loop over the objects behind. -/
def subNames (parentObjName : List Char) : List ObjEntry → List (List Char)
  | [] => []
  | obj :: rest =>
      match visit parentObjName obj.name with
      | .stop => []
      | .skip => subNames parentObjName rest
      | .found => obj.name.drop (parentObjName.length + 1) :: subNames parentObjName rest

/-- {lit}`zcfgFeSubObjNameListGet` of the object at an offset. -/
def zcfgFeSubObjNameListGet (sizes : InfoSizes) (schema : List ObjEntry) (rdmObjId : Nat) :
    List (List Char) :=
  match objectsFrom sizes rdmObjId 0 schema with
  | [] => []
  | objInfo :: rest => subNames objInfo.name rest

/-! ## Sub-objects -/

/-- The names of the immediate sub-objects: one component more, or one component and the placeholder. -/
def Immediate (parent name : List Char) : Prop :=
  ∃ component, '.' ∉ component ∧
    (name = parent ++ '.' :: component ∨ name = parent ++ '.' :: component ++ ['.', 'i'])

/-- The names below an object. -/
def Below (parent name : List Char) : Prop :=
  parent ++ ['.'] <+: name

/-- The schema around an object whose descendants follow it. -/
structure Surrounds (schema front : List ObjEntry) (parent : ObjEntry) (below behind : List ObjEntry) :
    Prop where
  split : schema = front ++ parent :: (below ++ behind)
  front_out : ∀ obj ∈ front, ¬ Below parent.name obj.name
  below_in : ∀ obj ∈ below, Below parent.name obj.name
  behind_out : ∀ obj ∈ behind, ¬ Below parent.name obj.name

open Classical in
/-- The names of the immediate sub-objects in the order of the schema, without the name of the object. -/
noncomputable def subObjects (schema : List ObjEntry) (parent : List Char) : List (List Char) :=
  ((schema.map ObjEntry.name).filter (fun name => Immediate parent name)).map
    (fun name => name.drop (parent.length + 1))

/-- A name with a third component that begins with an {lit}`i` and goes on. -/
def LooksIndexed (parent name : List Char) : Prop :=
  ∃ component c rest, '.' ∉ component ∧ c ≠ '.' ∧
    name = parent ++ '.' :: component ++ '.' :: 'i' :: c :: rest

/-! ## Offsets -/

/-- The offset of the object behind some others. -/
def offsetOf (sizes : InfoSizes) (front : List ObjEntry) : Nat :=
  (front.map sizes.step).sum

/-- The object at its offset, and those behind it. -/
theorem objectsFrom_sizes (sizes : InfoSizes) (obj : ObjEntry) (rest : List ObjEntry) :
    ∀ (front : List ObjEntry) (oid : Nat),
      objectsFrom sizes (oid + offsetOf sizes front) oid (front ++ obj :: rest) = obj :: rest := by
  intro front
  induction front with
  | nil =>
      intro oid
      rw [List.nil_append, objectsFrom, if_pos (by simp [offsetOf])]
  | cons first front ih =>
      intro oid
      have hsum : oid + offsetOf sizes (first :: front) =
          oid + sizes.step first + offsetOf sizes front := by
        rw [offsetOf, offsetOf, List.map_cons, List.sum_cons, Nat.add_assoc]
      have hpos : 0 < sizes.step first := Nat.add_pos_left sizes.objInfo_pos _
      rw [List.cons_append, objectsFrom, if_neg (by omega), hsum]
      exact ih (oid + sizes.step first)

/-! ## One name -/

section Names

variable {parent : List Char}

/-- The part of a text behind its first dot. -/
theorem dropWhile_dot {component : List Char} (h : '.' ∉ component) (rest : List Char) :
    (component ++ '.' :: rest).dropWhile (· ≠ '.') = '.' :: rest := by
  rw [List.dropWhile_append_of_pos, List.dropWhile_cons_of_neg (by simp)]
  intro c hc
  have hne : c ≠ '.' := by
    rintro rfl
    exact h hc
  simpa using hne

/-- A text has one first dot. -/
theorem first_dot {component component' rest rest' : List Char} (h : '.' ∉ component)
    (h' : '.' ∉ component') (heq : component ++ '.' :: rest = component' ++ '.' :: rest') :
    component = component' ∧ rest = rest' := by
  have hrest := congrArg (List.dropWhile (· ≠ '.')) heq
  rw [dropWhile_dot h, dropWhile_dot h'] at hrest
  obtain rfl := (List.cons.inj hrest).2
  exact ⟨List.append_cancel_right heq, rfl⟩

/-- A text with a dot has a first one. -/
theorem exists_first_dot {text : List Char} (h : '.' ∈ text) :
    ∃ component rest, '.' ∉ component ∧ text = component ++ '.' :: rest := by
  obtain ⟨component, rest, htext, hnot⟩ := List.eq_append_cons_of_mem h
  exact ⟨component, rest, hnot, htext⟩

/-- An object whose name is found at its start. -/
theorem strstr_below (parent rest : List Char) :
    strstr (parent ++ '.' :: rest) parent = some (parent ++ '.' :: rest) := by
  cases hname : parent ++ '.' :: rest with
  | nil => simp at hname
  | cons c name =>
      rw [strstr, if_pos]
      rw [← hname]
      exact List.prefix_append _ _

/-- The tests on a name below the object. -/
theorem visit_below (parent rest : List Char) :
    visit parent (parent ++ '.' :: rest) =
      if '.' ∉ rest then .found
      else
        match rest.dropWhile (· ≠ '.') with
        | '.' :: 'i' :: rest => if rest.head? = some '.' then .skip else .found
        | _ => .skip := by
  rw [visit, strstr_below]
  simp only [List.drop_left']

/-- A name below the object is written with a dot behind that of the object. -/
theorem below_iff {name : List Char} : Below parent name ↔ ∃ rest, name = parent ++ '.' :: rest := by
  constructor
  · rintro ⟨rest, rfl⟩
    exact ⟨rest, by simp⟩
  · rintro ⟨rest, rfl⟩
    exact ⟨rest, by simp⟩

/-- A name of one component more. -/
theorem immediate_single {rest : List Char} (hrest : '.' ∉ rest) :
    Immediate parent (parent ++ '.' :: rest) :=
  ⟨rest, hrest, Or.inl rfl⟩

/-- A name of more components. -/
theorem immediate_iff_of_dot {component rest : List Char} (hdot : '.' ∉ component) :
    Immediate parent (parent ++ '.' :: (component ++ '.' :: rest)) ↔ rest = ['i'] := by
  constructor
  · rintro ⟨component', hdot', heq | heq⟩
    · have hsame := (List.cons.inj (List.append_cancel_left heq)).2
      exact absurd (hsame ▸ List.mem_append_right component List.mem_cons_self) hdot'
    · rw [List.append_assoc, List.cons_append] at heq
      have hsame := (List.cons.inj (List.append_cancel_left heq)).2
      exact (first_dot hdot hdot' hsame).2
  · rintro rfl
    exact ⟨component, hdot, Or.inr (by simp)⟩

theorem looksIndexed_iff_of_dot {component rest : List Char} (hdot : '.' ∉ component) :
    LooksIndexed parent (parent ++ '.' :: (component ++ '.' :: rest)) ↔
      ∃ c text, c ≠ '.' ∧ rest = 'i' :: c :: text := by
  constructor
  · rintro ⟨component', c, text, hdot', hc, heq⟩
    rw [List.append_assoc, List.cons_append] at heq
    have hsame := (List.cons.inj (List.append_cancel_left heq)).2
    exact ⟨c, text, hc, (first_dot hdot hdot' hsame).2⟩
  · rintro ⟨c, text, hc, rfl⟩
    exact ⟨component, c, text, hdot, hc, by simp⟩

theorem not_looksIndexed_single (parent : List Char) {rest : List Char} (hrest : '.' ∉ rest) :
    ¬ LooksIndexed parent (parent ++ '.' :: rest) := by
  rintro ⟨component, c, text, -, -, heq⟩
  rw [List.append_assoc, List.cons_append] at heq
  have hsame := (List.cons.inj (List.append_cancel_left heq)).2
  exact hrest (hsame ▸ List.mem_append_right component List.mem_cons_self)

/-- What the loop makes of a name below the object. -/
theorem visit_below_found_iff {name : List Char} (hbelow : Below parent name) :
    visit parent name = .found ↔ Immediate parent name ∨ LooksIndexed parent name := by
  obtain ⟨rest, rfl⟩ := below_iff.mp hbelow
  rw [visit_below]
  by_cases hrest : '.' ∈ rest
  · obtain ⟨component, text, hdot, rfl⟩ := exists_first_dot hrest
    rw [if_neg (not_not.mpr hrest), dropWhile_dot hdot, immediate_iff_of_dot hdot,
      looksIndexed_iff_of_dot hdot]
    cases text with
    | nil => simp
    | cons c text =>
        by_cases hc : c = 'i'
        · subst hc
          cases text with
          | nil => simp
          | cons d text =>
              simp only [List.head?_cons, Option.some.injEq]
              by_cases hd : d = '.'
              · simp [hd]
              · rw [if_neg hd]
                exact iff_of_true rfl (Or.inr ⟨d, text, hd, rfl⟩)
        · refine iff_of_false ?_ ?_
          · split
            · rename_i heq
              exact absurd (List.cons.inj (List.cons.inj heq).2).1 hc
            · simp
          · rintro (heq | ⟨d, rest, -, heq⟩)
            · exact hc (List.cons.inj heq).1
            · exact hc (List.cons.inj heq).1
  · rw [if_pos hrest]
    exact iff_of_true rfl (Or.inl (immediate_single hrest))

/-- A name below the object does not end the loop. -/
theorem visit_below_ne_stop {name : List Char} (hbelow : Below parent name) :
    visit parent name ≠ .stop := by
  obtain ⟨rest, rfl⟩ := below_iff.mp hbelow
  rw [visit_below]
  split
  · decide
  · split
    · split
      · decide
      · decide
    · decide

theorem Immediate.below {name : List Char} (h : Immediate parent name) : Below parent name := by
  obtain ⟨component, -, rfl | rfl⟩ := h
  · exact below_iff.mpr ⟨component, rfl⟩
  · exact below_iff.mpr ⟨component ++ ['.', 'i'], by simp⟩

/-- A name that goes on behind the {lit}`i` is none of an immediate sub-object. -/
theorem LooksIndexed.not_immediate {name : List Char} (h : LooksIndexed parent name) :
    ¬ Immediate parent name := by
  obtain ⟨component, c, rest, hdot, -, rfl⟩ := h
  rw [List.append_assoc, List.cons_append, immediate_iff_of_dot hdot]
  simp

end Names

/-! ## The list -/

/-- What the loop lists: the names that it takes, up to the first one that ends it. -/
theorem subNames_eq (parent : List Char) (objs : List ObjEntry) :
    subNames parent objs =
      ((objs.takeWhile (fun obj => visit parent obj.name ≠ .stop)).filter
        (fun obj => visit parent obj.name = .found)).map
          (fun obj => obj.name.drop (parent.length + 1)) := by
  induction objs with
  | nil => rfl
  | cons obj objs ih =>
      rw [subNames]
      cases hvisit : visit parent obj.name with
      | stop => simp [hvisit]
      | skip => simp [hvisit, ih]
      | found => simp [hvisit, ih]

/-- The objects behind the descendants that the loop comes to. -/
def reached (parent : List Char) (behind : List ObjEntry) : List ObjEntry :=
  behind.takeWhile (fun obj => visit parent obj.name ≠ .stop)

section Lists

variable {schema front below behind : List ObjEntry} {parent : ObjEntry}

/-- The loop lists names of the descendants and of the objects it comes to behind them. -/
theorem subNames_below (h : ∀ obj ∈ below, Below parent.name obj.name) :
    subNames parent.name (below ++ behind) =
      (below.filter (fun obj => visit parent.name obj.name = .found) ++
        (reached parent.name behind).filter (fun obj => visit parent.name obj.name = .found)).map
          (fun obj => obj.name.drop (parent.name.length + 1)) := by
  rw [subNames_eq, List.takeWhile_append_of_pos, List.filter_append, reached]
  intro obj hobj
  simpa using visit_below_ne_stop (h obj hobj)

open Classical in
/-- The immediate sub-objects are among the descendants. -/
theorem subObjects_eq (h : Surrounds schema front parent below behind) :
    subObjects schema parent.name =
      (below.filter (fun obj => Immediate parent.name obj.name)).map
        (fun obj => obj.name.drop (parent.name.length + 1)) := by
  have hnone : ∀ objs : List ObjEntry, (∀ obj ∈ objs, ¬ Below parent.name obj.name) →
      objs.filter (fun obj => Immediate parent.name obj.name) = [] := by
    intro objs hobjs
    rw [List.filter_eq_nil_iff]
    intro obj hobj himmediate
    exact hobjs obj hobj (Immediate.below (by simpa using himmediate))
  have hself : ¬ Below parent.name parent.name := by
    rintro ⟨rest, hrest⟩
    have hlen := congrArg List.length hrest
    rw [List.length_append, List.length_append, List.length_singleton] at hlen
    omega
  rw [subObjects, h.split, List.filter_map, List.map_map, List.filter_append, List.filter_cons,
    List.filter_append]
  have hfront := hnone front h.front_out
  have hbehind := hnone behind h.behind_out
  have hparent : ¬ Immediate parent.name parent.name := fun himmediate => hself himmediate.below
  simp only [Function.comp_def, hfront, hbehind, hparent, decide_false, Bool.false_eq_true, if_false,
    List.append_nil, List.nil_append]

/-- No name is taken for that of an immediate sub-object. -/
structure NoneMistaken (parent : List Char) (below behind : List ObjEntry) : Prop where
  inside : ∀ obj ∈ below, ¬ LooksIndexed parent obj.name
  outside : ∀ obj ∈ reached parent behind, visit parent obj.name ≠ .found

/-- Names below the object are apart without the name of the object. -/
theorem nodup_relative (h : Surrounds schema front parent below behind)
    (hnodup : (schema.map ObjEntry.name).Nodup) : (subObjects schema parent.name).Nodup := by
  classical
  have hnames : (below.map ObjEntry.name).Nodup := by
    rw [h.split, List.map_append, List.map_cons, List.map_append] at hnodup
    have hrest := (List.nodup_cons.mp (List.nodup_append.mp hnodup).2.1).2
    exact (List.nodup_append.mp hrest).1
  rw [subObjects_eq h]
  have hfilter := (hnames.of_map).filter (fun obj => decide (Immediate parent.name obj.name))
  refine hfilter.map_on ?_
  intro obj hobj obj' hobj' hsame
  have hbelow := h.below_in obj (List.mem_of_mem_filter hobj)
  have hbelow' := h.below_in obj' (List.mem_of_mem_filter hobj')
  obtain ⟨rest, hrest⟩ := hbelow
  obtain ⟨rest', hrest'⟩ := hbelow'
  have hlen : (parent.name ++ ['.']).length = parent.name.length + 1 := by simp
  have hname : obj.name = obj'.name := by
    rw [← hrest, ← hrest', ← hlen, List.drop_left, List.drop_left] at hsame
    rw [← hrest, ← hrest', hsame]
  exact List.inj_on_of_nodup_map hnames (List.mem_of_mem_filter hobj) (List.mem_of_mem_filter hobj')
    hname

/-- The members that have only one of two properties are those that make the counts differ. -/
theorem countP_of_imp {α : Type} {p q : α → Bool} {xs : List α}
    (h : ∀ x ∈ xs, p x = true → q x = true) :
    xs.countP q = xs.countP p + xs.countP (fun x => q x && !p x) := by
  induction xs with
  | nil => rfl
  | cons x xs ih =>
      rw [List.countP_cons, List.countP_cons, List.countP_cons,
        ih (fun y hy => h y (List.mem_cons_of_mem x hy))]
      have hx := h x List.mem_cons_self
      cases hp : p x with
      | true =>
          rw [hx hp]
          simp
          omega
      | false =>
          cases hq : q x with
          | true =>
              simp
              omega
          | false => simp

/-- The immediate sub-objects of an object are listed, in the order of the schema and without
duplicates if the schema has none, exactly if no other name is taken for one of them. -/
theorem subObjNameList_iff (sizes : InfoSizes) (schema front below behind : List ObjEntry)
    (parent : ObjEntry) (h : Surrounds schema front parent below behind) :
    (zcfgFeSubObjNameListGet sizes schema (offsetOf sizes front) = subObjects schema parent.name ∧
      ((schema.map ObjEntry.name).Nodup →
        (zcfgFeSubObjNameListGet sizes schema (offsetOf sizes front)).Nodup)) ↔
      NoneMistaken parent.name below behind := by
  classical
  have hcall : zcfgFeSubObjNameListGet sizes schema (offsetOf sizes front) =
      subNames parent.name (below ++ behind) := by
    have hfrom := objectsFrom_sizes sizes parent (below ++ behind) front 0
    rw [Nat.zero_add, ← h.split] at hfrom
    rw [zcfgFeSubObjNameListGet, hfrom]
  have hfound : ∀ obj ∈ below, (visit parent.name obj.name = .found ↔
      Immediate parent.name obj.name ∨ LooksIndexed parent.name obj.name) :=
    fun obj hobj => visit_below_found_iff (h.below_in obj hobj)
  rw [hcall, subNames_below h.below_in, subObjects_eq h]
  constructor
  · rintro ⟨hlist, -⟩
    -- The list has one name more for each name that is mistaken.
    have hcount := congrArg List.length hlist
    rw [List.length_map, List.length_map, List.length_append, ← List.countP_eq_length_filter,
      ← List.countP_eq_length_filter, ← List.countP_eq_length_filter,
      countP_of_imp (p := fun obj => decide (Immediate parent.name obj.name))] at hcount
    · refine ⟨fun obj hobj hlooks => ?_, fun obj hobj hvisit => ?_⟩
      · have hzero := List.countP_eq_zero.mp (show below.countP (fun obj =>
          decide (visit parent.name obj.name = .found) &&
            !decide (Immediate parent.name obj.name)) = 0 by omega) obj hobj
        have hfound' := (hfound obj hobj).mpr (Or.inr hlooks)
        simp [hfound', hlooks.not_immediate] at hzero
      · have hzero := List.countP_eq_zero.mp (show (reached parent.name behind).countP (fun obj =>
          decide (visit parent.name obj.name = .found)) = 0 by omega) obj hobj
        simp [hvisit] at hzero
    · intro obj hobj himmediate
      simpa using (hfound obj hobj).mpr (Or.inl (by simpa using himmediate))
  · rintro ⟨hinside, houtside⟩
    have hnone : (reached parent.name behind).filter
        (fun obj => decide (visit parent.name obj.name = .found)) = [] := by
      rw [List.filter_eq_nil_iff]
      intro obj hobj
      simpa using houtside obj hobj
    have hsame : below.filter (fun obj => decide (visit parent.name obj.name = .found)) =
        below.filter (fun obj => decide (Immediate parent.name obj.name)) := by
      apply List.filter_congr
      intro obj hobj
      rw [decide_eq_decide, hfound obj hobj, or_iff_left (hinside obj hobj)]
    rw [hnone, hsame, List.append_nil]
    refine ⟨rfl, fun hnodup => ?_⟩
    rw [← subObjects_eq h]
    exact nodup_relative h hnodup

end Lists

/-- Sizes of the two structures. -/
def someSizes : InfoSizes where
  objInfo := 16
  parameterInfo := 40
  objInfo_pos := by decide

/-- A schema of an object with one sub-object. -/
def smallSchema (deeper : List Char) : List ObjEntry :=
  [⟨['A'], 2⟩, ⟨['A', '.', 'B'], 1⟩, ⟨['A', '.', 'B', '.'] ++ deeper, 0⟩]

theorem smallSchema_surrounds (deeper : List Char) :
    Surrounds (smallSchema deeper) [] ⟨['A'], 2⟩
      [⟨['A', '.', 'B'], 1⟩, ⟨['A', '.', 'B', '.'] ++ deeper, 0⟩] [] := by
  refine ⟨rfl, by simp, ?_, by simp⟩
  intro obj hobj
  rcases List.mem_cons.mp hobj with rfl | hobj
  · exact ⟨['B'], rfl⟩
  · rw [List.mem_singleton.mp hobj]
    exact ⟨['B', '.'] ++ deeper, rfl⟩

/-- An instance placeholder of a deeper object is not listed. -/
theorem subObjNameList_small :
    zcfgFeSubObjNameListGet someSizes (smallSchema ['C', '.', 'i']) 0 =
      subObjects (smallSchema ['C', '.', 'i']) ['A'] := by
  refine ((subObjNameList_iff someSizes _ [] _ [] ⟨['A'], 2⟩
    (smallSchema_surrounds ['C', '.', 'i'])).mpr ⟨?_, by simp [reached]⟩).1
  intro obj hobj
  have hbelow := (smallSchema_surrounds ['C', '.', 'i']).below_in obj hobj
  intro hlooks
  have hfound := (visit_below_found_iff hbelow).mpr (Or.inr hlooks)
  rcases List.mem_cons.mp hobj with rfl | hobj
  · have hsingle : '.' ∉ ['B'] := by decide
    exact not_looksIndexed_single ['A'] hsingle hlooks
  · rw [List.mem_singleton.mp hobj] at hfound
    exact absurd hfound (by decide)

/-- A deeper object {lit}`A.B.info` is listed. -/
theorem subObjNameList_fails :
    ¬ ∀ (sizes : InfoSizes) (schema front below behind : List ObjEntry) (parent : ObjEntry),
      Surrounds schema front parent below behind →
      zcfgFeSubObjNameListGet sizes schema (offsetOf sizes front) = subObjects schema parent.name := by
  intro h
  have hlist := h someSizes _ _ _ _ _ (smallSchema_surrounds ['i', 'n', 'f', 'o'])
  have hlisted : ['B', '.', 'i', 'n', 'f', 'o'] ∈
      zcfgFeSubObjNameListGet someSizes (smallSchema ['i', 'n', 'f', 'o']) 0 := by decide
  rw [show (0 : Nat) = offsetOf someSizes [] from rfl, hlist, subObjects, List.mem_map] at hlisted
  obtain ⟨name, hname, hdrop⟩ := hlisted
  have himmediate : Immediate ['A'] name := by simpa using (List.mem_filter.mp hname).2
  obtain ⟨component, hdot, rfl | rfl⟩ := himmediate
  · -- The name without that of the object is the component, which has no dot.
    have hsame : component = ['B', '.', 'i', 'n', 'f', 'o'] := by simpa using hdrop
    rw [hsame] at hdot
    exact absurd hdot (by decide)
  · have hsame : component ++ ['.', 'i'] = ['B'] ++ '.' :: ['i', 'n', 'f', 'o'] := by simpa using hdrop
    have hlast := (first_dot hdot (by decide) hsame).2
    exact absurd hlast (by decide)

end FeSchema
end ZyxelRouter
