import ZyxelRouter.Lib.SplitText
import ZyxelRouter.ZcfgCommon

/-!
# Walking to an object

{lit}`zcfgObjGetByNameFromInputObj` follows the components of an object name through a JSON tree, and takes
an instance of each array it meets.

Main results:

- Theorem {lit}`walkNodes_step`, {lit}`walkNodes_blocked`: what the loop does at one component.
- Theorem {lit}`walkNodes_cases`: steps, errors and faults.
- Theorem {lit}`objGetByName_gets`: the node that is reached, and the errors.
-/

namespace ZyxelRouter
namespace FeString

open Lib

/-! ## The function -/

/-- A JSON value; {lit}`null` is the null pointer. -/
inductive Json where
  | null
  | scalar (text : List Char)
  | array (elems : List Json)
  | object (members : List (List Char × Json))

/-- {lit}`OBJ_NAME_BUFF_SIZE`. -/
def objNameBuffSize : Nat := 256

/-- The outcome of a call: a fault of the process, or the return code and {lit}`*getObj`. -/
inductive Walk where
  | fault
  | returned (ret : ZcfgRet) (getObj : Json)

/-- {lit}`json_object_array_get_idx` of an index minus one. -/
def arrayGetIdx (elems : List Json) (idx : UInt8) : Json :=
  if idx = 0 then .null else elems.getD (idx.toNat - 1) .null

/-- The object that is taken of an array: an entry, or the index node. -/
def entryObj (elems : List Json) (idx : UInt8) : Json :=
  match arrayGetIdx elems idx with
  | .null => .array elems
  | tmpObj => tmpObj

/-- The loop over the components, with {lit}`currObj` and {lit}`i`.  The loop over the members of anything
but an object faults, and so does an index behind the last one. -/
def walkNodes (objIid : ObjIndex) (getObj : Json) : List (List Char) → Nat → Json → Walk
  | [], _, currObj => .returned .success currObj
  | node :: rest, i, currObj =>
      if node = ['i'] then walkNodes objIid getObj rest i currObj
      else
        match currObj with
        | .object members =>
            match members.lookup node with
            | none => .returned .noSuchObject .null
            | some (.array elems) =>
                if (objIid.level.toNat : Int) - 1 < i then .returned .internalError .null
                else
                  match objIid.idx[i]? with
                  | none => .fault
                  | some idx =>
                      if elems.length < idx.toNat then .returned .noMoreInstance getObj
                      else walkNodes objIid getObj rest (i + 1) (entryObj elems idx)
            | some val => walkNodes objIid getObj rest i val
        | _ => .fault

/-- {lit}`zcfgObjGetByNameFromInputObj` with the old value of {lit}`*getObj`. -/
def zcfgObjGetByNameFromInputObj (rdmObjName : List Char) (objIid : ObjIndex) (getObj rdm : Json) :
    Walk :=
  if objNameBuffSize ≤ rdmObjName.length then .fault
  else walkNodes objIid getObj ((strtok '.' rdmObjName).drop 1) 0 rdm

/-! ## Paths -/

/-- A value that is no array. -/
def Json.isArray : Json → Bool
  | .array _ => true
  | _ => false

/-- One component from one place to the next, where a place is the number of indices used and a node, and
{lit}`take` says which node an index takes of an array. -/
inductive Step (take : List Json → UInt8 → Option Json) (objIid : ObjIndex) :
    Nat × Json → List Char → Nat × Json → Prop
  | placeholder (i : Nat) (currObj : Json) : Step take objIid (i, currObj) ['i'] (i, currObj)
  | member {i : Nat} {members : List (List Char × Json)} {name : List Char} {val : Json}
      (hname : name ≠ ['i']) (hval : members.lookup name = some val) (hsingle : val.isArray = false) :
      Step take objIid (i, .object members) name (i, val)
  | entry {i : Nat} {members : List (List Char × Json)} {name : List Char} {elems : List Json}
      {idx : UInt8} {n : Json} (hname : name ≠ ['i'])
      (hval : members.lookup name = some (.array elems)) (hlevel : i < objIid.level.toNat)
      (hidx : objIid.idx[i]? = some idx) (hnode : take elems idx = some n) :
      Step take objIid (i, .object members) name (i + 1, n)

/-- The components of a name lead from one place to another. -/
def Path (take : List Json → UInt8 → Option Json) (objIid : ObjIndex) :
    Nat × Json → List (List Char) → Nat × Json → Prop
  | s, [], t => s = t
  | s, name :: names, t => ∃ m, Step take objIid s name m ∧ Path take objIid m names t

/-- Element {lit}`idx - 1` of an array. -/
def element (elems : List Json) (idx : UInt8) : Option Json :=
  if idx = 0 then none else elems[idx.toNat - 1]?

/-- Element {lit}`idx - 1` of an array, or the array itself for the index zero and for a null element. -/
def elementOrNode (elems : List Json) (idx : UInt8) : Option Json :=
  if elems.length < idx.toNat then none
  else
    match element elems idx with
    | none => some (.array elems)
    | some .null => some (.array elems)
    | some node => some node

/-- A component that cannot be followed, and the error for it. -/
inductive Blocked (objIid : ObjIndex) : Nat × Json → List Char → ZcfgRet → Prop
  | missing {i : Nat} {members : List (List Char × Json)} {name : List Char} (hname : name ≠ ['i'])
      (hval : members.lookup name = none) : Blocked objIid (i, .object members) name .noSuchObject
  | short {i : Nat} {members : List (List Char × Json)} {name : List Char} {elems : List Json}
      (hname : name ≠ ['i']) (hval : members.lookup name = some (.array elems))
      (hlevel : objIid.level.toNat ≤ i) : Blocked objIid (i, .object members) name .internalError
  | beyond {i : Nat} {members : List (List Char × Json)} {name : List Char} {elems : List Json}
      {idx : UInt8} (hname : name ≠ ['i']) (hval : members.lookup name = some (.array elems))
      (hlevel : i < objIid.level.toNat) (hidx : objIid.idx[i]? = some idx)
      (hbeyond : elems.length < idx.toNat) : Blocked objIid (i, .object members) name .noMoreInstance

/-! ## The loop -/

/-- What the loop takes of an array. -/
theorem elementOrNode_eq (elems : List Json) (idx : UInt8) :
    elementOrNode elems idx =
      if elems.length < idx.toNat then none else some (entryObj elems idx) := by
  rw [elementOrNode, entryObj, arrayGetIdx, element]
  by_cases hzero : idx = 0
  · rw [if_pos hzero, if_pos hzero]
  · rw [if_neg hzero, if_neg hzero, List.getD_eq_getElem?_getD]
    cases elems[idx.toNat - 1]? with
    | none => rfl
    | some node =>
        cases node with
        | null => rfl
        | scalar text => rfl
        | array elems => rfl
        | object members => rfl

section Loop

variable {objIid : ObjIndex} {getObj : Json} {s t : Nat × Json} {name : List Char}

/-- A component that can be followed. -/
theorem walkNodes_step (h : Step elementOrNode objIid s name t) (rest : List (List Char)) :
    walkNodes objIid getObj (name :: rest) s.1 s.2 = walkNodes objIid getObj rest t.1 t.2 := by
  cases h with
  | placeholder i currObj => simp [walkNodes]
  | member hname hval hsingle =>
      rename_i i members val
      rw [walkNodes, if_neg hname]
      simp only [hval]
      cases val with
      | null => rfl
      | scalar text => rfl
      | array elems => exact absurd hsingle (by simp [Json.isArray])
      | object members => rfl
  | entry hname hval hlevel hidx hnode =>
      rename_i i members elems idx node
      rw [elementOrNode_eq] at hnode
      rw [walkNodes, if_neg hname]
      simp only [hval, hidx]
      rw [if_neg (by omega)]
      by_cases hlen : elems.length < idx.toNat
      · rw [if_pos hlen] at hnode
        cases hnode
      · rw [if_neg hlen] at hnode ⊢
        rw [Option.some.inj hnode]

/-- A component that cannot be followed: only the errors for a missing component and for a short index
clear the result. -/
theorem walkNodes_blocked (getObj : Json) {ret : ZcfgRet} (h : Blocked objIid s name ret)
    (rest : List (List Char)) :
    ∃ left, walkNodes objIid getObj (name :: rest) s.1 s.2 = .returned ret left ∧
      (ret ≠ .noMoreInstance → left = .null) ∧ ret ≠ .success := by
  cases h with
  | missing hname hval =>
      rw [walkNodes, if_neg hname]
      simp only [hval]
      exact ⟨.null, rfl, fun _ => rfl, by decide⟩
  | short hname hval hlevel =>
      rw [walkNodes, if_neg hname]
      simp only [hval]
      rw [if_pos (by omega)]
      exact ⟨.null, rfl, fun _ => rfl, by decide⟩
  | beyond hname hval hlevel hidx hbeyond =>
      rw [walkNodes, if_neg hname]
      simp only [hval, hidx]
      rw [if_neg (by omega), if_pos hbeyond]
      exact ⟨getObj, rfl, fun h => absurd rfl h, by decide⟩

/-- A component is followed, or it cannot be, or the process faults. -/
theorem walkNodes_cases (objIid : ObjIndex) (getObj : Json) (s : Nat × Json) (name : List Char)
    (rest : List (List Char)) :
    (∃ t, Step elementOrNode objIid s name t) ∨ (∃ ret, Blocked objIid s name ret) ∨
      walkNodes objIid getObj (name :: rest) s.1 s.2 = .fault := by
  obtain ⟨i, currObj⟩ := s
  by_cases hname : name = ['i']
  · subst hname
    exact Or.inl ⟨_, .placeholder i currObj⟩
  cases currObj with
  | null => exact Or.inr (Or.inr (by simp [walkNodes, hname]))
  | scalar text => exact Or.inr (Or.inr (by simp [walkNodes, hname]))
  | array elems => exact Or.inr (Or.inr (by simp [walkNodes, hname]))
  | object members =>
      cases hval : members.lookup name with
      | none => exact Or.inr (Or.inl ⟨_, .missing hname hval⟩)
      | some val =>
          cases val with
          | null => exact Or.inl ⟨_, .member hname hval rfl⟩
          | scalar text => exact Or.inl ⟨_, .member hname hval rfl⟩
          | object members => exact Or.inl ⟨_, .member hname hval rfl⟩
          | array elems =>
              by_cases hlevel : i < objIid.level.toNat
              swap
              · exact Or.inr (Or.inl ⟨_, .short hname hval (by omega)⟩)
              cases hidx : objIid.idx[i]? with
              | none =>
                  rw [walkNodes, if_neg hname]
                  simp only [hval, hidx]
                  rw [if_neg (by omega)]
                  exact Or.inr (Or.inr rfl)
              | some idx =>
                  by_cases hlen : elems.length < idx.toNat
                  · exact Or.inr (Or.inl ⟨_, .beyond hname hval hlevel hidx hlen⟩)
                  · refine Or.inl ⟨_, .entry (n := entryObj elems idx) hname hval hlevel hidx ?_⟩
                    rw [elementOrNode_eq, if_neg hlen]

/-- The loop follows a path. -/
theorem walkNodes_path (front rest : List (List Char)) :
    ∀ s : Nat × Json, Path elementOrNode objIid s front t →
      walkNodes objIid getObj (front ++ rest) s.1 s.2 = walkNodes objIid getObj rest t.1 t.2 := by
  induction front with
  | nil =>
      rintro s rfl
      rfl
  | cons name front ih =>
      rintro s ⟨m, hstep, hpath⟩
      rw [List.cons_append, walkNodes_step hstep]
      exact ih m hpath

/-- The loop returns success with the node that a path leads to. -/
theorem walkNodes_success (names : List (List Char)) :
    ∀ (s : Nat × Json) (node : Json),
      walkNodes objIid getObj names s.1 s.2 = .returned .success node ↔
        ∃ i, Path elementOrNode objIid s names (i, node) := by
  induction names with
  | nil =>
      intro s node
      rw [walkNodes]
      constructor
      · intro h
        obtain ⟨-, rfl⟩ := Walk.returned.inj h
        exact ⟨s.1, rfl⟩
      · rintro ⟨i, rfl⟩
        rfl
  | cons name names ih =>
      intro s node
      constructor
      · intro h
        rcases walkNodes_cases objIid getObj s name names with ⟨t, hstep⟩ | ⟨ret, hblocked⟩ | hfault
        · rw [walkNodes_step hstep, ih] at h
          obtain ⟨i, hpath⟩ := h
          exact ⟨i, t, hstep, hpath⟩
        · obtain ⟨left, hleft, -, hne⟩ := walkNodes_blocked getObj hblocked names
          rw [hleft] at h
          exact absurd (Walk.returned.inj h).1 hne
        · rw [hfault] at h
          cases h
      · rintro ⟨i, t, hstep, hpath⟩
        rw [walkNodes_step hstep]
        exact (ih t node).mpr ⟨i, hpath⟩

/-- The loop returns an error if a path leads to a component that cannot be followed. -/
theorem walkNodes_error (names : List (List Char)) {ret : ZcfgRet} (hret : ret ≠ .success) :
    ∀ s : Nat × Json,
      (∃ left, walkNodes objIid getObj names s.1 s.2 = .returned ret left) ↔
        ∃ front name rest t, names = front ++ name :: rest ∧ Path elementOrNode objIid s front t ∧
          Blocked objIid t name ret := by
  induction names with
  | nil =>
      intro s
      rw [walkNodes]
      constructor
      · rintro ⟨left, h⟩
        exact absurd (Walk.returned.inj h).1.symm hret
      · rintro ⟨front, name, rest, t, h, -⟩
        simp at h
  | cons name names ih =>
      intro s
      constructor
      · rintro ⟨left, h⟩
        rcases walkNodes_cases objIid getObj s name names with
          ⟨t, hstep⟩ | ⟨ret', hblocked⟩ | hfault
        · rw [walkNodes_step hstep] at h
          obtain ⟨front, last, rest, m, hnames, hpath, hblocked⟩ := (ih t).mp ⟨left, h⟩
          exact ⟨name :: front, last, rest, m, by rw [hnames]; rfl, ⟨t, hstep, hpath⟩, hblocked⟩
        · obtain ⟨left', hleft, -, -⟩ := walkNodes_blocked getObj hblocked names
          rw [hleft] at h
          obtain ⟨rfl, -⟩ := Walk.returned.inj h
          exact ⟨[], name, names, s, rfl, rfl, hblocked⟩
        · rw [hfault] at h
          cases h
      · rintro ⟨front, last, rest, m, hnames, hpath, hblocked⟩
        obtain ⟨left, hleft, -, -⟩ := walkNodes_blocked getObj hblocked rest
        rw [hnames, walkNodes_path front (last :: rest) s hpath]
        exact ⟨left, hleft⟩

end Loop

/-! ## The call -/

/-- The components behind the root. -/
def nodesBehindRoot (rdmObjName : List Char) : List (List Char) :=
  (strtok '.' rdmObjName).drop 1

/-- What a call gets: the node that the components lead to, taking an element of each array or, for the
index zero and a null element, the array itself; an error if a component is missing, the index is too
short or an index is behind the end of its array; and the result is cleared in the first two cases. -/
structure GetsNode (rdmObjName : List Char) (objIid : ObjIndex) (rdm : Json) (outcome : Walk) : Prop where
  node : ∀ node, outcome = .returned .success node ↔
    ∃ i, Path elementOrNode objIid (0, rdm) (nodesBehindRoot rdmObjName) (i, node)
  error : ∀ ret, ret ≠ .success → ((∃ left, outcome = .returned ret left) ↔
    ∃ front name rest s, nodesBehindRoot rdmObjName = front ++ name :: rest ∧
      Path elementOrNode objIid (0, rdm) front s ∧ Blocked objIid s name ret)
  cleared : ∀ ret left, outcome = .returned ret left → ret ≠ .success → ret ≠ .noMoreInstance →
    left = .null

/-- A name that fits the buffer gets its node, or an error. -/
theorem objGetByName_gets (rdmObjName : List Char) (objIid : ObjIndex) (getObj rdm : Json)
    (hname : rdmObjName.length < objNameBuffSize) :
    GetsNode rdmObjName objIid rdm (zcfgObjGetByNameFromInputObj rdmObjName objIid getObj rdm) := by
  rw [zcfgObjGetByNameFromInputObj, if_neg (Nat.not_le.mpr hname), ← nodesBehindRoot]
  refine ⟨fun node => walkNodes_success _ (0, rdm) node,
    fun ret hret => walkNodes_error _ hret (0, rdm), ?_⟩
  intro ret left hleft hret hmore
  obtain ⟨front, name, rest, s, hnames, hpath, hblocked⟩ :=
    (walkNodes_error (nodesBehindRoot rdmObjName) hret (0, rdm)).mp ⟨left, hleft⟩
  obtain ⟨left', hleft', hnull, -⟩ := walkNodes_blocked getObj hblocked rest
  rw [hnames, walkNodes_path front (name :: rest) (0, rdm) hpath, hleft'] at hleft
  obtain ⟨-, rfl⟩ := Walk.returned.inj hleft
  exact hnull hmore

/-- A tree with one rule. -/
def oneRule : Json :=
  .object [(['R', 'u', 'l', 'e'], .array [.object []])]

/-- {lit}`Device.Rule.i`. -/
def ruleName : List Char :=
  ['D', 'e', 'v', 'i', 'c', 'e', '.', 'R', 'u', 'l', 'e', '.', 'i']

/-- An index of one level. -/
def oneLevel (idx : UInt8) : ObjIndex where
  level := 1
  idx := [idx, 0, 0, 0, 0, 0]
  idx_length := rfl

/-- The first rule is found. -/
theorem objGetByName_gets_rule :
    GetsNode ruleName (oneLevel 1) oneRule
      (zcfgObjGetByNameFromInputObj ruleName (oneLevel 1) .null oneRule) :=
  objGetByName_gets ruleName (oneLevel 1) .null oneRule (by decide)

/-- With the index zero the call returns success and the array, where the claimed path takes no element. -/
theorem objGetByName_gets_index_node :
    ¬ ∀ (rdmObjName : List Char) (objIid : ObjIndex) (getObj rdm node : Json),
      zcfgObjGetByNameFromInputObj rdmObjName objIid getObj rdm = .returned .success node ↔
        ∃ i, Path element objIid (0, rdm) (nodesBehindRoot rdmObjName) (i, node) := by
  intro h
  have hcall : zcfgObjGetByNameFromInputObj ruleName (oneLevel 0) .null oneRule =
      .returned .success (.array [.object []]) := rfl
  obtain ⟨i, m, hstep, -⟩ := (h ruleName (oneLevel 0) .null oneRule _).mp hcall
  cases hstep with
  | member hname hval hsingle =>
      obtain rfl := Option.some.inj hval
      exact absurd hsingle (by simp [Json.isArray])
  | entry hname hval hlevel hidx hnode =>
      obtain rfl := Option.some.inj hidx
      cases hnode

end FeString
end ZyxelRouter
