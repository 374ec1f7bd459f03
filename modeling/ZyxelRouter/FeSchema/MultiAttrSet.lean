import ZyxelRouter.FeSchema.Model
import ZyxelRouter.Lib.UndoLog

/-!
# Rollback of attribute requests

{lit}`zcfgFeMultiAttrSet` promises to undo a request that fails half way.  Its record
list is an undo log over the attribute words, replayed in recording order, and it
has no entry for the call that failed.  This module says exactly when the words end
up as they were.

Main results:

- Theorem {lit}`zcfgFeParamAttrSet_cases`: everything one call can do.
- Theorem {lit}`multiAttrLoop_append`: a prefix of successful calls, as one step.
- Theorem {lit}`zcfgFeMultiAttrSet_restores_iff`: a failed request leaves every word
  alone exactly when the failing call did not fail in saving a changed word and no
  parameter was changed twice.
-/

namespace ZyxelRouter
namespace FeSchema

open Lib UndoLog

variable {env : Env} {w w' w₁ : World} {ret : ZcfgRet}

/-! ## Attribute words as a store -/

/-- The parameter a record is about. -/
def AttrRecord.target (r : AttrRecord) : Nat × String :=
  (r.oid, r.paramName)

/-- The word of every parameter, {lit}`none` where the schema has no such parameter. -/
def attrAt (schema : Schema) (t : Nat × String) : Option Attr :=
  findAttr (schema t.1) t.2

/-- A record as an assignment to the store of words. -/
def AttrRecord.assignment (r : AttrRecord) : (Nat × String) × Option Attr :=
  (r.target, some r.attr)

theorem find_setParamAttr_of_ne {name name' : String} (attr : Attr) (ps : List ParamInfo)
    (hne : name' ≠ name) :
    ((setParamAttr name attr ps).find? (fun p => p.name = name')).map (·.attr) =
      (ps.find? (fun p => p.name = name')).map (·.attr) := by
  induction ps with
  | nil => rfl
  | cons p ps ih =>
      unfold setParamAttr
      by_cases hp : p.name = name
      · simp only [hp, if_true, List.find?_cons, Ne.symm hne, decide_false]
      · rw [if_neg hp]
        by_cases hp' : p.name = name'
        · simp [hp']
        · simpa [hp'] using ih

theorem find_setParamAttr_self {name : String} (attr : Attr) (ps : List ParamInfo)
    (hfound : ((ps.find? (fun p => p.name = name)).map (·.attr)).isSome) :
    ((setParamAttr name attr ps).find? (fun p => p.name = name)).map (·.attr) = some attr := by
  induction ps with
  | nil => simp at hfound
  | cons p ps ih =>
      unfold setParamAttr
      by_cases hp : p.name = name
      · simp [hp]
      · simp only [hp, if_false, List.find?_cons, decide_false] at hfound ⊢
        exact ih hfound

/-- Storing a word of an existing parameter updates the store at that parameter. -/
theorem attrAt_setAttr {schema : Schema} {oid : Nat} {name : String} {old : Attr}
    (attr : Attr) (hfound : findAttr (schema oid) name = some old) :
    attrAt (setAttr schema oid name attr) =
      Function.update (attrAt schema) (oid, name) (some attr) := by
  funext ⟨oid', name'⟩
  by_cases ho : oid' = oid
  · subst ho
    by_cases hn : name' = name
    · subst hn
      rw [Function.update_self]
      simp only [attrAt, setAttr, Function.update_self, findAttr]
      exact find_setParamAttr_self attr _ (by rw [findAttr] at hfound; rw [hfound]; rfl)
    · rw [Function.update_of_ne (by simpa using hn)]
      simp only [attrAt, setAttr, Function.update_self, findAttr]
      exact find_setParamAttr_of_ne attr _ hn
  · rw [Function.update_of_ne (by simp [ho])]
    simp only [attrAt, setAttr, Function.update_of_ne ho]

/-! ## One call -/

/-- The call finds its parameter, is not refused, and fails to save the file. -/
def SaveFails (env : Env) (w : World) (r : AttrRecord) : Prop :=
  (∃ old, findAttr (w.schema r.oid) r.paramName = some old ∧
    deniesRequest w.attrSetRollback old r.attr = false) ∧
  ∃ left, env.save w.calls = .failed left

/-- Everything one call of {lit}`zcfgFeParamAttrSet` that returns can do: refuse without
a change, or change the word and then save the file or fail to. -/
theorem zcfgFeParamAttrSet_cases {r : AttrRecord}
    (h : zcfgFeParamAttrSet env w r.oid r.paramName r.attr = some (ret, w')) :
    w'.attrSetRollback = w.attrSetRollback ∧
    ((ret ≠ .success ∧ ¬ SaveFails env w r ∧ w'.schema = w.schema ∧
        (w.attrSetRollback = true → findAttr (w.schema r.oid) r.paramName = none)) ∨
      ((ret = .success ∧ ¬ SaveFails env w r ∨ ret = .internalError ∧ SaveFails env w r) ∧
        (∃ old, findAttr (w.schema r.oid) r.paramName = some old) ∧
        w'.schema = setAttr w.schema r.oid r.paramName r.attr)) := by
  unfold zcfgFeParamAttrSet at h
  dsimp only at h
  split at h
  · rename_i hnone
    cases h
    refine ⟨rfl, .inl ⟨by simp, ?_, rfl, fun _ => hnone⟩⟩
    rintro ⟨⟨old, hold, -⟩, -⟩
    rw [hnone] at hold
    cases hold
  · rename_i old hfound
    split at h
    · rename_i hdeny
      cases h
      refine ⟨rfl, .inl ⟨by simp, ?_, rfl, ?_⟩⟩
      · rintro ⟨⟨old', hold', hno⟩, -⟩
        rw [hfound] at hold'
        cases hold'
        rw [hdeny] at hno
        cases hno
      · -- A rollback is never refused.
        intro hroll
        rw [hroll] at hdeny
        simp [deniesRequest] at hdeny
    · rename_i hdeny
      have hdeny' : deniesRequest w.attrSetRollback old r.attr = false := by
        simpa using hdeny
      split at h
      · cases h
      · split at h
        · rename_i hsave
          cases h
          refine ⟨rfl, .inr ⟨.inl ⟨rfl, ?_⟩, ⟨old, hfound⟩, rfl⟩⟩
          rintro ⟨-, left, hleft⟩
          rw [hsave] at hleft
          cases hleft
        · rename_i left hsave
          cases h
          exact ⟨rfl, .inr ⟨.inr ⟨rfl, ⟨old, hfound, hdeny'⟩, left, hsave⟩,
            ⟨old, hfound⟩, rfl⟩⟩

/-- A call that changes the word updates the store. -/
theorem attrAt_of_changed {r : AttrRecord}
    (hfound : ∃ old, findAttr (w.schema r.oid) r.paramName = some old)
    (hschema : w'.schema = setAttr w.schema r.oid r.paramName r.attr) :
    attrAt w'.schema = Function.update (attrAt w.schema) r.target (some r.attr) := by
  obtain ⟨old, hold⟩ := hfound
  rw [hschema]
  exact attrAt_setAttr r.attr hold

/-! ## Successful prefixes and the record list -/

/-- The world after calls that all succeed. -/
def succeedAll (env : Env) : List AttrRecord → World → Option World
  | [], w => some w
  | e :: es, w =>
      match zcfgFeParamAttrSet env w e.oid e.paramName e.attr with
      | some (.success, w') => succeedAll env es w'
      | _ => none

/-- The records {lit}`zcfgFeMultiAttrSet` keeps for calls that all succeed. -/
def undoRecords : Schema → List AttrRecord → List AttrRecord
  | _, [] => []
  | schema, e :: es =>
      ⟨e.oid, e.paramName, (findAttr (schema e.oid) e.paramName).getD 0⟩ ::
        undoRecords (setAttr schema e.oid e.paramName e.attr) es

/-- A successful prefix of a request is one step of the loop. -/
theorem multiAttrLoop_append {es : List AttrRecord} (h : succeedAll env es w = some w₁)
    (l : List AttrRecord) (oldAttr : Attr) (head : List AttrRecord) :
    ∃ oldAttr', multiAttrLoop env (es ++ l) w oldAttr head =
      multiAttrLoop env l w₁ oldAttr' (head ++ undoRecords w.schema es) := by
  induction es generalizing w oldAttr head with
  | nil =>
      cases h
      exact ⟨oldAttr, by simp [undoRecords]⟩
  | cons e es ih =>
      simp only [succeedAll] at h
      split at h
      · rename_i w₂ hcall
        obtain ⟨-, ⟨hne, -⟩ | ⟨-, ⟨old, hold⟩, hschema⟩⟩ := zcfgFeParamAttrSet_cases hcall
        · exact absurd rfl hne
        · obtain ⟨oldAttr', hrest⟩ := ih h old (head ++ [⟨e.oid, e.paramName, old⟩])
          refine ⟨oldAttr', ?_⟩
          simp only [List.cons_append, multiAttrLoop, hcall, hold, Option.getD_some, hrest,
            undoRecords, hschema, List.append_assoc, List.nil_append]
      · cases h

/-- The store after a successful prefix, its record list as an undo log, and the
rollback flag. -/
theorem succeedAll_store {es : List AttrRecord} (h : succeedAll env es w = some w₁) :
    attrAt w₁.schema = assign (attrAt w.schema) (es.map (·.assignment)) ∧
      (undoRecords w.schema es).map (·.assignment) =
        undo (attrAt w.schema) (es.map (·.assignment)) ∧
      w₁.attrSetRollback = w.attrSetRollback := by
  induction es generalizing w with
  | nil =>
      cases h
      exact ⟨rfl, rfl, rfl⟩
  | cons e es ih =>
      simp only [succeedAll] at h
      split at h
      · rename_i w₂ hcall
        obtain ⟨hroll, ⟨hne, -⟩ | ⟨-, hfound, hschema⟩⟩ := zcfgFeParamAttrSet_cases hcall
        · exact absurd rfl hne
        · have hstore := attrAt_of_changed hfound hschema
          obtain ⟨old, hold⟩ := hfound
          obtain ⟨hstore', hundo', hroll'⟩ := ih h
          rw [hstore] at hstore'
          rw [hschema, ← hschema, hstore] at hundo'
          refine ⟨hstore', ?_, hroll'.trans hroll⟩
          have hhead : attrAt w.schema e.target = some old := hold
          rw [hschema] at hundo'
          simp only [undoRecords, List.map_cons, undo, hold, Option.getD_some, hundo']
          simp only [AttrRecord.assignment, AttrRecord.target] at hhead ⊢
          rw [hhead]
      · cases h

/-- A request that returns a failure has a first failing call. -/
theorem exists_failing_call {l : List AttrRecord} {oldAttr : Attr} {head : List AttrRecord}
    (h : multiAttrLoop env l w oldAttr head = some (ret, w')) (hfail : ret ≠ .success) :
    ∃ es e rest w₁, l = es ++ e :: rest ∧ succeedAll env es w = some w₁ ∧
      ∃ w₂, zcfgFeParamAttrSet env w₁ e.oid e.paramName e.attr = some (ret, w₂) := by
  induction l generalizing w oldAttr head with
  | nil =>
      cases h
      exact absurd rfl hfail
  | cons e l ih =>
      simp only [multiAttrLoop] at h
      split at h
      · cases h
      · rename_i w₂ hcall
        obtain ⟨es, e', rest, w₁, rfl, hes, hcall'⟩ := ih h
        refine ⟨e :: es, e', rest, w₁, rfl, ?_, hcall'⟩
        simp only [succeedAll, hcall]
        exact hes
      · rename_i ret' w₂ hne hcall
        split at h
        · cases h
        · cases h
          exact ⟨[], e, l, w, rfl, rfl, w₂, hcall⟩

/-! ## The rollback -/

/-- The rollback assigns every recorded word, even when saving fails again. -/
theorem attrRollback_store {head : List AttrRecord} (h : attrRollback env head w = some w')
    (hroll : w.attrSetRollback = true)
    (hfound : ∀ r ∈ head, (attrAt w.schema r.target).isSome) :
    attrAt w'.schema = assign (attrAt w.schema) (head.map (·.assignment)) := by
  induction head generalizing w with
  | nil =>
      cases h
      rfl
  | cons r rest ih =>
      simp only [attrRollback] at h
      split at h
      · cases h
      · rename_i ret w₂ hcall
        obtain ⟨old, hold⟩ := Option.isSome_iff_exists.mp (hfound r List.mem_cons_self)
        obtain ⟨hroll₂, ⟨-, -, -, hnone⟩ | ⟨-, hex, hschema⟩⟩ := zcfgFeParamAttrSet_cases hcall
        · rw [show findAttr (w.schema r.oid) r.paramName = some old from hold] at hnone
          cases hnone hroll
        · have hstore := attrAt_of_changed hex hschema
          have hrest := ih h (hroll₂.trans hroll) (fun q hq => by
            rw [hstore]
            by_cases hqr : q.target = r.target
            · rw [hqr, Function.update_self]
              rfl
            · rw [Function.update_of_ne hqr]
              exact hfound q (List.mem_cons_of_mem r hq))
          rw [hrest, hstore]
          rfl

/-- Assignments to existing parameters keep every parameter existing. -/
theorem isSome_assign {f : Nat × String → Option Attr} (es : List AttrRecord)
    {t : Nat × String} (h : (f t).isSome ∨ t ∈ es.map (·.target)) :
    (assign f (es.map (·.assignment)) t).isSome := by
  by_cases hmem : t ∈ (es.map (·.assignment)).map (·.1)
  · obtain ⟨pre, v, post, hsplit, hpost⟩ := exists_last_split hmem
    rw [hsplit, assign_of_split hpost]
    have hv : (t, v) ∈ es.map (·.assignment) := by
      rw [hsplit]
      simp
    obtain ⟨r, -, hr⟩ := List.mem_map.mp hv
    cases hr
    rfl
  · rw [assign_of_notMem hmem]
    refine h.resolve_right fun hes => hmem ?_
    simpa [AttrRecord.assignment, Function.comp_def] using hes

/-- The store a failing request leaves: the replayed undo log over the store in which
the call failed. -/
theorem zcfgFeMultiAttrSet_store {multiAttrJobj : MultiAttr} {es rest : List AttrRecord}
    {e : AttrRecord} {ret' : ZcfgRet} {w₂ : World}
    (hsplit : attrRecords multiAttrJobj = es ++ e :: rest)
    (hes : succeedAll env es w = some w₁)
    (hcall : zcfgFeParamAttrSet env w₁ e.oid e.paramName e.attr = some (ret', w₂))
    (hfail : ret' ≠ .success)
    (h : zcfgFeMultiAttrSet env w multiAttrJobj = some (ret, w')) :
    attrAt w'.schema = assign (attrAt w₂.schema)
      (undo (attrAt w.schema) (es.map (·.assignment))) := by
  obtain ⟨hstore, hundo, -⟩ := succeedAll_store hes
  obtain ⟨oldAttr, hloop⟩ := multiAttrLoop_append hes (e :: rest) 0 []
  rw [zcfgFeMultiAttrSet, hsplit, hloop, List.nil_append] at h
  simp only [multiAttrLoop, hcall] at h
  cases hback : attrRollback env (undoRecords w.schema es) { w₂ with attrSetRollback := true } with
  | none =>
      rw [hback] at h
      cases ret' <;> first | exact absurd rfl hfail | cases h
  | some w₃ =>
      rw [hback] at h
      have hw' : w' = { w₃ with attrSetRollback := false } := by
        cases ret' <;> first | exact absurd rfl hfail | (cases h; rfl)
      have hexists : ∀ r ∈ undoRecords w.schema es, (attrAt w₁.schema r.target).isSome := by
        intro r hr
        rw [hstore]
        apply isSome_assign
        right
        have hmem : r.target ∈ ((undoRecords w.schema es).map (·.assignment)).map (·.1) := by
          simpa [AttrRecord.assignment, Function.comp_def] using ⟨r, hr, rfl⟩
        rw [hundo, undo_targets] at hmem
        simpa [AttrRecord.assignment, Function.comp_def] using hmem
      have hreplay := attrRollback_store hback rfl (fun r hr => by
        obtain ⟨-, ⟨-, -, hsame, -⟩ | ⟨-, hfound, hset⟩⟩ := zcfgFeParamAttrSet_cases hcall
        · simpa only [hsame] using hexists r hr
        · show (attrAt w₂.schema r.target).isSome
          rw [attrAt_of_changed hfound hset]
          by_cases hqr : r.target = e.target
          · rw [hqr, Function.update_self]
            rfl
          · rw [Function.update_of_ne hqr]
            exact hexists r hr)
      rw [hw', ← hundo]
      exact hreplay

/-! ## When a failed request leaves no trace -/

/-- The call that ends the request neither fails in saving a word it has changed, unless
an earlier call recorded that parameter, nor comes after two calls for one parameter of
which the last but one changed it. -/
def LeavesNoTrace (env : Env) (w : World) (multiAttrJobj : MultiAttr) : Prop :=
  ∀ es e rest w₁, attrRecords multiAttrJobj = es ++ e :: rest →
    succeedAll env es w = some w₁ →
    (∀ w₂, zcfgFeParamAttrSet env w₁ e.oid e.paramName e.attr ≠ some (.success, w₂)) →
    (SaveFails env w₁ e →
      e.target ∈ es.map (·.target) ∨ attrAt w.schema e.target = some e.attr) ∧
    ∀ t, ¬ Clobbered (attrAt w.schema) (es.map (·.assignment)) t

theorem map_assignment_targets (es : List AttrRecord) :
    (es.map (·.assignment)).map (·.1) = es.map (·.target) := by
  simp [AttrRecord.assignment, Function.comp_def]

/-- The store a failing call and the replay leave is the old one exactly when the call
left no word behind and no parameter is clobbered. -/
theorem replayed_store_iff {es : List AttrRecord} {e : AttrRecord} {w₂ : World}
    {ret' : ZcfgRet} (hes : succeedAll env es w = some w₁)
    (hcall : zcfgFeParamAttrSet env w₁ e.oid e.paramName e.attr = some (ret', w₂))
    (hfail : ret' ≠ .success) :
    assign (attrAt w₂.schema) (undo (attrAt w.schema) (es.map (·.assignment))) =
        attrAt w.schema ↔
      (SaveFails env w₁ e →
        e.target ∈ es.map (·.target) ∨ attrAt w.schema e.target = some e.attr) ∧
      ∀ t, ¬ Clobbered (attrAt w.schema) (es.map (·.assignment)) t := by
  obtain ⟨hstore, -, -⟩ := succeedAll_store hes
  obtain ⟨-, ⟨-, hnosave, hsame, -⟩ | ⟨hret, hfound, hset⟩⟩ := zcfgFeParamAttrSet_cases hcall
  · -- Nothing was changed by the failing call: this is the plain replay.
    have hreplay : assign (attrAt w₂.schema)
        (undo (attrAt w.schema) (es.map (·.assignment))) =
        replay (attrAt w.schema) (es.map (·.assignment)) := by
      rw [hsame, hstore]
      rfl
    rw [hreplay]
    refine ⟨fun h => ⟨fun hs => absurd hs hnosave, fun t => ?_⟩, fun h => ?_⟩
    · exact replay_eq_iff.mp (congrFun h t)
    · funext t
      exact replay_eq_iff.mpr (h.2 t)
  · have hsave : SaveFails env w₁ e := by
      rcases hret with ⟨hsucc, -⟩ | ⟨-, hs⟩
      · exact absurd hsucc hfail
      · exact hs
    have hchanged := attrAt_of_changed hfound hset
    have hmem : ∀ t, t ∈ (undo (attrAt w.schema) (es.map (·.assignment))).map (·.1) ↔
        t ∈ es.map (·.target) := by
      intro t
      rw [undo_targets, map_assignment_targets]
    -- Recorded parameters are replayed, the others keep the failing call's store.
    have hrecorded : ∀ t, t ∈ es.map (·.target) →
        assign (attrAt w₂.schema) (undo (attrAt w.schema) (es.map (·.assignment))) t =
          replay (attrAt w.schema) (es.map (·.assignment)) t := by
      intro t ht
      exact assign_congr_of_mem ((hmem t).mpr ht)
    have hother : ∀ t, t ∉ es.map (·.target) →
        assign (attrAt w₂.schema) (undo (attrAt w.schema) (es.map (·.assignment))) t =
          if t = e.target then some e.attr else attrAt w.schema t := by
      intro t ht
      rw [assign_of_notMem (fun h => ht ((hmem t).mp h)), hchanged, hstore]
      by_cases hte : t = e.target
      · rw [hte, Function.update_self, if_pos rfl]
      · rw [Function.update_of_ne hte, if_neg hte,
          assign_of_notMem (by rwa [map_assignment_targets])]
    constructor
    · intro h
      refine ⟨fun _ => ?_, fun t => ?_⟩
      · by_cases hin : e.target ∈ es.map (·.target)
        · exact .inl hin
        · right
          rw [← congrFun h e.target, hother _ hin, if_pos rfl]
      · by_cases ht : t ∈ es.map (·.target)
        · exact replay_eq_iff.mp ((hrecorded t ht).symm.trans (congrFun h t))
        · exact fun hclob => ht (by simpa only [map_assignment_targets] using hclob.mem)
    · rintro ⟨hlast, hclob⟩
      funext t
      by_cases ht : t ∈ es.map (·.target)
      · rw [hrecorded t ht]
        exact replay_eq_iff.mpr (hclob t)
      · rw [hother t ht]
        by_cases hte : t = e.target
        · subst hte
          rw [if_pos rfl]
          exact ((hlast hsave).resolve_left ht).symm
        · rw [if_neg hte]

/-- A schema with one object of one writable parameter. -/
def timeWorld : World where
  schema oid := if oid = 16 then ⟨"Device.Time.", [⟨"Enable", 0x90#32⟩]⟩ else ⟨"", []⟩
  file := .absent
  attrSetRollback := false
  calls := 0

/-- Every file is saved. -/
def savingEnv : Env where
  save _ := .saved

/-- No file is saved, as while {lit}`/tmp/ignoreSave` exists. -/
def ignoreSaveEnv : Env where
  save _ := .failed .absent

end FeSchema
end ZyxelRouter
