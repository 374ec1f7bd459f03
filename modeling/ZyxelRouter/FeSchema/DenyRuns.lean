import ZyxelRouter.FeSchema.MultiAttrSet

/-!
# Parameters that deny active notification

A parameter with {lit}`PARAMETER_ATTR_DENY_ACTIVENOTIFY_REQUEST` refuses requests for active notification.
The guard compares the notification field with one value, so that a word with both bits of the field
passes.

Main results:

- Theorem {lit}`zcfgFeParamAttrSet_kept`: one call with a word of at most one bit.
- Theorem {lit}`multiAttrLoop_kept`: a request, with its rollback.
- Theorem {lit}`denied_never_active`: runs of words with at most one bit.
-/

namespace ZyxelRouter
namespace FeSchema

open Lib UndoLog

/-! ## Runs of calls -/

/-- A call of one of the two setters. -/
inductive AttrCall where
  | paramAttrSet (r : AttrRecord)
  | multiAttrSet (multiAttrJobj : MultiAttr)

/-- The words that are passed in a call. -/
def AttrCall.records : AttrCall → List AttrRecord
  | .paramAttrSet r => [r]
  | .multiAttrSet multiAttrJobj => attrRecords multiAttrJobj

/-- The world behind a call. -/
def AttrCall.run (env : Env) (w : World) : AttrCall → Option World
  | .paramAttrSet r => (zcfgFeParamAttrSet env w r.oid r.paramName r.attr).map Prod.snd
  | .multiAttrSet multiAttrJobj => (zcfgFeMultiAttrSet env w multiAttrJobj).map Prod.snd

/-- The world behind calls that all return. -/
def attrRun (env : Env) : List AttrCall → World → Option World
  | [], w => some w
  | call :: calls, w =>
      match call.run env w with
      | none => none
      | some w' => attrRun env calls w'

/-! ## Attribute words -/

/-- A word that denies active notification and does not have it. -/
structure Denied (attr : Attr) : Prop where
  denies : attr &&& parameterAttrDenyActiveNotifyRequest ≠ 0
  inactive : attr &&& parameterAttrActiveNotify = 0

/-- The active bit is one of the notification field. -/
theorem and_active (attr : Attr) :
    attr &&& parameterAttrActiveNotify =
      (attr &&& parameterAttrNotifyMask) &&& parameterAttrActiveNotify := by
  rw [BitVec.and_assoc]
  rfl

/-- The values of the notification field. -/
theorem notify_cases (attr : Attr) :
    attr &&& parameterAttrNotifyMask = 0#32 ∨ attr &&& parameterAttrNotifyMask = 1#32 ∨
      attr &&& parameterAttrNotifyMask = 2#32 ∨ attr &&& parameterAttrNotifyMask = 3#32 := by
  have hfield : (attr &&& parameterAttrNotifyMask).toNat = attr.toNat % 4 := by
    rw [BitVec.toNat_and, show parameterAttrNotifyMask.toNat = 2 ^ 2 - 1 from rfl,
      Nat.and_two_pow_sub_one_eq_mod]
  have hcases : attr.toNat % 4 = 0 ∨ attr.toNat % 4 = 1 ∨ attr.toNat % 4 = 2 ∨ attr.toNat % 4 = 3 := by
    omega
  rw [← hfield] at hcases
  rcases hcases with h | h | h | h
  · exact Or.inl (BitVec.eq_of_toNat_eq h)
  · exact Or.inr (Or.inl (BitVec.eq_of_toNat_eq h))
  · exact Or.inr (Or.inr (Or.inl (BitVec.eq_of_toNat_eq h)))
  · exact Or.inr (Or.inr (Or.inr (BitVec.eq_of_toNat_eq h)))

/-- A word that the guard lets pass, keeps the bit that denies and has at most one bit of the field. -/
theorem Denied.of_passed {old attr : Attr} (hold : Denied old)
    (hpassed : deniesRequest false old attr = false)
    (hkeeps : attr &&& parameterAttrDenyActiveNotifyRequest =
      old &&& parameterAttrDenyActiveNotifyRequest)
    (hone : attr &&& parameterAttrNotifyMask ≠ parameterAttrNotifyMask) : Denied attr := by
  refine ⟨by rw [hkeeps]; exact hold.denies, ?_⟩
  have hinactive := hold.inactive
  rw [and_active] at hinactive ⊢
  rcases notify_cases attr with h | h | h | h
  · rw [h]
    rfl
  · rw [h]
    rfl
  · -- The guard lets active notification pass only where it was on.
    have hdenies := hold.denies
    have hsame : old &&& parameterAttrNotifyMask = attr &&& parameterAttrNotifyMask := by
      by_contra hne
      have hdeny : deniesRequest false old attr = true := by
        rw [deniesRequest, bne_iff_ne.mpr hne, bne_iff_ne.mpr hdenies, h]
        rfl
      rw [hdeny] at hpassed
      exact absurd hpassed (by decide)
    rw [← hsame]
    exact hinactive
  · exact absurd h hone

/-! ## What the words of a run have to keep -/

variable {env : Env} {start : Schema} {w w' : World}

/-- The words keep the bit that denies of the parameters they are for. -/
def KeepsDeny (start : Schema) (records : List AttrRecord) : Prop :=
  ∀ r ∈ records, ∀ old, attrAt start r.target = some old →
    r.attr &&& parameterAttrDenyActiveNotifyRequest = old &&& parameterAttrDenyActiveNotifyRequest

/-- No word for a parameter that denies active notification has both bits of the field. -/
def OneNotifyBit (start : Schema) (records : List AttrRecord) : Prop :=
  ∀ r ∈ records, ∀ old, attrAt start r.target = some old → Denied old →
    r.attr &&& parameterAttrNotifyMask ≠ parameterAttrNotifyMask

/-- A word for a parameter that denies active notification, with the bit that the parameter had at the
start. -/
structure StaysDenied (old attr : Attr) : Prop where
  denied : Denied attr
  bit : attr &&& parameterAttrDenyActiveNotifyRequest = old &&& parameterAttrDenyActiveNotifyRequest

/-- A word that does not turn on active notification where it is denied. -/
def KeptBy (start : Schema) (r : AttrRecord) : Prop :=
  ∀ old, attrAt start r.target = some old → Denied old → StaysDenied old r.attr

/-- The parameters that deny active notification at the start still do so. -/
def Kept (start schema : Schema) : Prop :=
  ∀ t old, attrAt start t = some old → Denied old →
    ∃ attr, attrAt schema t = some attr ∧ StaysDenied old attr

theorem Kept.refl (start : Schema) : Kept start start :=
  fun _ old hold hdenied => ⟨old, hold, hdenied, rfl⟩

/-- A word that is found is kept. -/
theorem Kept.found (hkept : Kept start w.schema) {r : AttrRecord} {attr : Attr}
    (hfound : findAttr (w.schema r.oid) r.paramName = some attr) :
    KeptBy start ⟨r.oid, r.paramName, attr⟩ := by
  intro old hold hdenied
  obtain ⟨attr', hattr', hstays⟩ := hkept _ old hold hdenied
  obtain rfl := Option.some.inj (hattr'.symm.trans hfound)
  exact hstays

/-- Storing such a word. -/
theorem Kept.set (hkept : Kept start w.schema) {r : AttrRecord} {attr : Attr}
    (hfound : findAttr (w.schema r.oid) r.paramName = some attr) (hr : KeptBy start r) :
    Kept start (setAttr w.schema r.oid r.paramName r.attr) := by
  intro t old hold hdenied
  rw [attrAt_setAttr r.attr hfound]
  by_cases ht : t = (r.oid, r.paramName)
  · subst ht
    rw [Function.update_self]
    exact ⟨r.attr, rfl, hr old hold hdenied⟩
  · rw [Function.update_of_ne ht]
    exact hkept t old hold hdenied

/-! ## Calls -/

/-- One call: the schema is left alone, or the word is stored because the guard lets it pass. -/
theorem zcfgFeParamAttrSet_passed {r : AttrRecord} {ret : ZcfgRet}
    (h : zcfgFeParamAttrSet env w r.oid r.paramName r.attr = some (ret, w')) :
    w'.attrSetRollback = w.attrSetRollback ∧
      ((ret ≠ .success ∧ w'.schema = w.schema) ∨
        ∃ attr, findAttr (w.schema r.oid) r.paramName = some attr ∧
          deniesRequest w.attrSetRollback attr r.attr = false ∧
          w'.schema = setAttr w.schema r.oid r.paramName r.attr) := by
  unfold zcfgFeParamAttrSet at h
  dsimp only at h
  split at h
  · cases h
    exact ⟨rfl, Or.inl ⟨by decide, rfl⟩⟩
  · rename_i attr hfound
    split at h
    · cases h
      exact ⟨rfl, Or.inl ⟨by decide, rfl⟩⟩
    · rename_i hpassed
      have hpassed : deniesRequest w.attrSetRollback attr r.attr = false := by simpa using hpassed
      split at h
      · cases h
      · split at h
        · cases h
          exact ⟨rfl, Or.inr ⟨attr, hfound, hpassed, rfl⟩⟩
        · cases h
          exact ⟨rfl, Or.inr ⟨attr, hfound, hpassed, rfl⟩⟩

/-- A call outside a rollback whose word keeps the bit that denies and has at most one notification
bit. -/
theorem zcfgFeParamAttrSet_kept {r : AttrRecord} {ret : ZcfgRet} (hroll : w.attrSetRollback = false)
    (hkeeps : KeepsDeny start [r]) (hone : OneNotifyBit start [r]) (hkept : Kept start w.schema)
    (h : zcfgFeParamAttrSet env w r.oid r.paramName r.attr = some (ret, w')) :
    w'.attrSetRollback = false ∧ Kept start w'.schema := by
  obtain ⟨hsame, ⟨-, hschema⟩ | ⟨attr, hfound, hpassed, hschema⟩⟩ := zcfgFeParamAttrSet_passed h
  · rw [hsame, hschema]
    exact ⟨hroll, hkept⟩
  · rw [hsame, hschema]
    refine ⟨hroll, hkept.set hfound ?_⟩
    intro old hold hdenied
    have hstays := hkept.found hfound old hold hdenied
    have hbit := hkeeps r (List.mem_singleton_self r) old hold
    rw [hroll] at hpassed
    refine ⟨hstays.denied.of_passed hpassed (hbit.trans hstays.bit.symm) ?_, hbit⟩
    exact hone r (List.mem_singleton_self r) old hold hdenied

/-- A rollback to words that are kept. -/
theorem attrRollback_kept :
    ∀ (head : List AttrRecord) (w : World), (∀ r ∈ head, KeptBy start r) → Kept start w.schema →
      ∀ w', attrRollback env head w = some w' → Kept start w'.schema := by
  intro head
  induction head with
  | nil =>
      intro w _ hkept w' h
      obtain rfl := Option.some.inj h
      exact hkept
  | cons now rest ih =>
      intro w hhead hkept w' h
      rw [attrRollback] at h
      split at h
      · cases h
      · rename_i ret w₁ hcall
        refine ih w₁ (fun r hr => hhead r (List.mem_cons_of_mem _ hr)) ?_ w' h
        obtain ⟨-, ⟨-, hschema⟩ | ⟨attr, hfound, -, hschema⟩⟩ := zcfgFeParamAttrSet_passed hcall
        · rw [hschema]
          exact hkept
        · rw [hschema]
          exact hkept.set hfound (hhead now List.mem_cons_self)

/-- A request, whose records hold the words that were there. -/
theorem multiAttrLoop_kept :
    ∀ (records : List AttrRecord) (w : World) (oldAttr : Attr) (head : List AttrRecord),
      w.attrSetRollback = false → KeepsDeny start records → OneNotifyBit start records →
      (∀ r ∈ head, KeptBy start r) → Kept start w.schema →
      ∀ ret w', multiAttrLoop env records w oldAttr head = some (ret, w') →
        w'.attrSetRollback = false ∧ Kept start w'.schema := by
  intro records
  induction records with
  | nil =>
      intro w oldAttr head hroll _ _ _ hkept ret w' h
      obtain ⟨-, rfl⟩ := Prod.mk.inj (Option.some.inj h)
      exact ⟨hroll, hkept⟩
  | cons e rest ih =>
      intro w oldAttr head hroll hkeeps hone hhead hkept ret w' h
      rw [multiAttrLoop] at h
      cases hcall : zcfgFeParamAttrSet env w e.oid e.paramName e.attr with
      | none =>
          rw [hcall] at h
          cases h
      | some result =>
          obtain ⟨ret₁, w₁⟩ := result
          have hfirst : ∀ r ∈ [e], r ∈ e :: rest := by
            intro r hr
            rw [List.mem_singleton.mp hr]
            exact List.mem_cons_self
          obtain ⟨hroll₁, hkept₁⟩ := zcfgFeParamAttrSet_kept hroll
            (fun r hr => hkeeps r (hfirst r hr)) (fun r hr => hone r (hfirst r hr)) hkept hcall
          rw [hcall] at h
          split at h
          · cases h
          · -- The word that was there goes to the records.
            rename_i w₂ heq
            obtain ⟨rfl, rfl⟩ := Prod.mk.inj (Option.some.inj heq)
            refine ih w₁ _ _ hroll₁ (fun r hr => hkeeps r (List.mem_cons_of_mem _ hr))
              (fun r hr => hone r (List.mem_cons_of_mem _ hr)) ?_ hkept₁ ret w' h
            intro r hr
            rcases List.mem_append.mp hr with hr | hr
            · exact hhead r hr
            · obtain ⟨-, ⟨hne, -⟩ | ⟨attr, hfound, -, -⟩⟩ := zcfgFeParamAttrSet_passed hcall
              · exact absurd rfl hne
              · rw [List.mem_singleton.mp hr, hfound]
                exact hkept.found hfound
          · rename_i ret₂ w₂ _ heq
            obtain ⟨rfl, rfl⟩ := Prod.mk.inj (Option.some.inj heq)
            split at h
            · cases h
            · rename_i w₃ hback
              obtain ⟨-, rfl⟩ := Prod.mk.inj (Option.some.inj h)
              exact ⟨rfl, attrRollback_kept head { w₁ with attrSetRollback := true } hhead hkept₁ w₃
                hback⟩

/-! ## Runs -/

/-- One call of a run. -/
theorem AttrCall.run_kept (call : AttrCall) (hroll : w.attrSetRollback = false)
    (hkeeps : KeepsDeny start call.records) (hone : OneNotifyBit start call.records)
    (hkept : Kept start w.schema) (h : call.run env w = some w') :
    w'.attrSetRollback = false ∧ Kept start w'.schema := by
  cases call with
  | paramAttrSet r =>
      obtain ⟨⟨ret, w₁⟩, hcall, rfl⟩ := Option.map_eq_some_iff.mp h
      exact zcfgFeParamAttrSet_kept hroll hkeeps hone hkept hcall
  | multiAttrSet multiAttrJobj =>
      obtain ⟨⟨ret, w₁⟩, hcall, rfl⟩ := Option.map_eq_some_iff.mp h
      exact multiAttrLoop_kept _ w 0 [] hroll hkeeps hone (by simp) hkept ret w₁ hcall

/-- A run of calls. -/
theorem attrRun_kept :
    ∀ (calls : List AttrCall) (w : World), w.attrSetRollback = false →
      (∀ call ∈ calls, KeepsDeny start call.records) →
      (∀ call ∈ calls, OneNotifyBit start call.records) → Kept start w.schema →
      ∀ w', attrRun env calls w = some w' → Kept start w'.schema := by
  intro calls
  induction calls with
  | nil =>
      intro w _ _ _ hkept w' h
      obtain rfl := Option.some.inj h
      exact hkept
  | cons call calls ih =>
      intro w hroll hkeeps hone hkept w' h
      rw [attrRun] at h
      split at h
      · cases h
      · rename_i w₁ hcall
        obtain ⟨hroll₁, hkept₁⟩ := call.run_kept hroll (hkeeps call List.mem_cons_self)
          (hone call List.mem_cons_self) hkept hcall
        exact ih w₁ hroll₁ (fun c hc => hkeeps c (List.mem_cons_of_mem _ hc))
          (fun c hc => hone c (List.mem_cons_of_mem _ hc)) hkept₁ w' h

/-- A schema with one parameter, which denies active notification. -/
def denyWorld : World where
  schema oid := if oid = 16 then ⟨"Device.Time.", [⟨"Enable", 4#32⟩]⟩ else ⟨"", []⟩
  file := .absent
  attrSetRollback := false
  calls := 0

theorem denyWorld_denied : Denied 4#32 :=
  ⟨by decide, by decide⟩

/-- The word is 4 for the only parameter there is. -/
theorem attrAt_denyWorld {t : Nat × String} {old : Attr}
    (h : attrAt denyWorld.schema t = some old) : old = 4#32 := by
  rw [attrAt, denyWorld] at h
  simp only at h
  split at h
  · rw [findAttr, List.find?_singleton] at h
    split at h
    · exact (Option.some.inj h).symm
    · cases h
  · cases h

/-- Passive notification is turned on, and then a word with active notification is refused. -/
def passiveRun : List AttrCall :=
  [.paramAttrSet ⟨16, "Enable", 5#32⟩, .multiAttrSet [("16", [("Enable", 6)])]]

end FeSchema
end ZyxelRouter
