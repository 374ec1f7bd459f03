import ZyxelRouter.Lib.StepRuns
import ZyxelRouter.FeDal.Common

/-!
# Port triggering

{lit}`zcfgFeDalNatPortTriggering` adds, edits and deletes rules with two ranges of ports.  A new instance is
there before the ranges are compared, and an edit compares only what is in the request.

Main results:

- Theorem {lit}`triggerAdd_cases`, {lit}`triggerEdit_cases`, {lit}`triggerDelete_cases`: what a request does.
- Theorem {lit}`triggerStep_ok_iff`: when a request keeps the table in order, is accepted as it should be
  and leaves no trace if it is rejected.
- Theorem {lit}`portTriggering_run_iff`: the same for every request of a run.
-/

namespace ZyxelRouter
namespace FeDal

open Lib

/-! ## The table -/

/-- The parameters of {lit}`RDM_OID_NAT_PORT_TRIGGERING`. -/
structure PortTriggering where
  enable : Bool
  interface : List Char
  autoDetectWanStatus : Bool
  triggerPort : Int
  triggerPortEndRange : Int
  openPort : Int
  openPortEndRange : Int
  protocol : List Char
  triggerProtocol : List Char
  description : List Char
deriving DecidableEq

/-- The rules in the order in which {lit}`zcfgFeObjJsonGetNext` goes through them. -/
abbrev TriggerTable := KeyedTable InstNum PortTriggering

/-! ## Requests -/

/-- The object of a {lit}`POST` request; the fields marked {lit}`dal_Add` are there. -/
structure TriggerPost where
  enable : Bool
  description : List Char
  interface : List Char
  triggerPortStart : Int
  triggerPortEnd : Int
  openPortStart : Int
  openPortEnd : Int
  openProtocol : List Char
  triggerProtocol : List Char

/-- How a request names its rule: by {lit}`idx`, or else by {lit}`Index`. -/
inductive RuleName where
  | idx (number : Int)
  | index (index : Int)

/-- The object of a {lit}`PUT` request. -/
structure TriggerPut where
  rule : RuleName
  enable : Option Bool
  description : Option (List Char)
  interface : Option (List Char)
  triggerPortStart : Option Int
  triggerPortEnd : Option Int
  openPortStart : Option Int
  openPortEnd : Option Int
  openProtocol : Option (List Char)
  triggerProtocol : Option (List Char)

/-! ## The operations -/

/-- The comparison of the ports: a range is empty. -/
def rangeEmpty (triggerport triggerportendrange openport openportendrange : Int) : Bool :=
  triggerport > triggerportendrange || openport > openportendrange

/-- The reply about an empty range. -/
def DalReply.rangeError (reply : DalReply) : DalReply :=
  reply.cat "start port can not great than end port."

/-- Another rule has the description. -/
def triggerDescriptionTaken (table : TriggerTable) (objIid : Option InstNum)
    (description : List Char) : Bool :=
  table.rows.any (fun row => some row.1 ≠ objIid && description = row.2.description)

/-- The new rule of a {lit}`POST` request. -/
def addedTrigger (req : TriggerPost) : PortTriggering where
  enable := req.enable
  interface := req.interface
  autoDetectWanStatus := req.interface = []
  triggerPort := req.triggerPortStart
  triggerPortEndRange := req.triggerPortEnd
  openPort := req.openPortStart
  openPortEndRange := req.openPortEnd
  protocol := req.openProtocol
  triggerProtocol := req.triggerProtocol
  description := req.description

/-- {lit}`zcfgFeDalNatPortTriggeringAdd`.  The ranges are compared behind the addition. -/
def zcfgFeDalNatPortTriggeringAdd (store : InstanceStore PortTriggering) (results : StoreResults)
    (table : TriggerTable) (req : TriggerPost) (reply : DalReply) :
    TableResult TriggerTable :=
  if triggerDescriptionTaken table none req.description then
    (.invalidParamValue, reply.cat "Description is duplicated", table)
  else
    match h : store.newInstance table with
    | .error ret => (ret, reply, table)
    | .ok objIid =>
        let added := table.add objIid store.initial (store.fresh table objIid h)
        if results.get ≠ .success then (results.get, reply, added)
        else if rangeEmpty req.triggerPortStart req.triggerPortEnd req.openPortStart
            req.openPortEnd then
          (.invalidParamValue, reply.rangeError, added)
        else
          let (ret, stored) := results.zcfgFeObjJsonSet added objIid (addedTrigger req)
          (ret, reply, stored)

/-- The instance that a {lit}`PUT` request names. -/
def triggerIid (table : TriggerTable) (rule : RuleName) (reply : DalReply) :
    Except (ZcfgRet × DalReply) (Option InstNum) :=
  match rule with
  | .idx number => .ok (InstNum.ofIndex number)
  | .index index =>
      match convertIndextoIid table index reply with
      | .error failed => .error failed
      | .ok objIid => .ok (some objIid)

/-- The instance, if it is there, and its rule. -/
def readTrigger (table : TriggerTable) (objIid : Option InstNum) :
    Option (InstNum × PortTriggering) :=
  match objIid with
  | none => none
  | some n => (table.get n).map (fun old => (n, old))

/-- The stored rule of a {lit}`PUT` request: the fields of the request over those of the old rule. -/
def mergedTrigger (old : PortTriggering) (req : TriggerPut) : PortTriggering where
  enable := req.enable.getD old.enable
  interface := req.interface.getD old.interface
  autoDetectWanStatus :=
    match req.interface with
    | none => old.autoDetectWanStatus
    | some interface => interface = []
  triggerPort := req.triggerPortStart.getD old.triggerPort
  triggerPortEndRange := req.triggerPortEnd.getD old.triggerPortEndRange
  openPort := req.openPortStart.getD old.openPort
  openPortEndRange := req.openPortEnd.getD old.openPortEndRange
  protocol := req.openProtocol.getD old.protocol
  triggerProtocol := req.triggerProtocol.getD old.triggerProtocol
  description := req.description.getD old.description

/-- The comparison of a {lit}`PUT` request; a port that is not given is 0. -/
def requestRangeEmpty (req : TriggerPut) : Bool :=
  rangeEmpty (req.triggerPortStart.getD 0) (req.triggerPortEnd.getD 0) (req.openPortStart.getD 0)
    (req.openPortEnd.getD 0)

/-- {lit}`zcfgFeDalNatPortTriggeringEdit`. -/
def zcfgFeDalNatPortTriggeringEdit (results : StoreResults) (table : TriggerTable)
    (req : TriggerPut) (reply : DalReply) : TableResult TriggerTable :=
  match triggerIid table req.rule reply with
  | .error (ret, reply) => (ret, reply, table)
  | .ok objIid =>
      if req.description.any (triggerDescriptionTaken table objIid) then
        (.invalidParamValue, reply.cat "Description is duplicated", table)
      else if results.get ≠ .success then (.internalError, reply, table)
      else
        match readTrigger table objIid with
        | none => (.internalError, reply, table)
        | some (objIid, old) =>
            if requestRangeEmpty req then (.invalidParamValue, reply.rangeError, table)
            else
              let (ret, stored) := results.zcfgFeObjJsonSet table objIid (mergedTrigger old req)
              (ret, reply, stored)

/-- {lit}`zcfgFeDalNatPortTriggeringDelete`.  An index without a rule is no failure. -/
def zcfgFeDalNatPortTriggeringDelete (results : StoreResults) (table : TriggerTable)
    (rule : RuleName) (reply : DalReply) : TableResult TriggerTable :=
  match rule with
  | .idx number =>
      match readTrigger table (InstNum.ofIndex number) with
      | none => (.noSuchObject, reply, table)
      | some (objIid, _) =>
          let (ret, stored) := results.zcfgFeObjJsonDel table objIid
          (ret, reply, stored)
  | .index index =>
      match nthInstance index table.rows 1 with
      | none => (.success, reply, table)
      | some objIid =>
          let (ret, stored) := results.zcfgFeObjJsonDel table objIid
          (ret, reply, stored)

/-- The requests that change the table. -/
inductive TriggerRequest where
  | post (req : TriggerPost)
  | put (req : TriggerPut)
  | delete (rule : RuleName)

/-- {lit}`zcfgFeDalNatPortTriggering` for objects. -/
def zcfgFeDalNatPortTriggering (store : InstanceStore PortTriggering) (results : StoreResults)
    (table : TriggerTable) (request : TriggerRequest) (reply : DalReply) :
    TableResult TriggerTable :=
  match request with
  | .post req => zcfgFeDalNatPortTriggeringAdd store results table req reply
  | .put req => zcfgFeDalNatPortTriggeringEdit results table req reply
  | .delete rule => zcfgFeDalNatPortTriggeringDelete results table rule reply

/-- What a request does when no call to the store fails but the addition of an instance. -/
def triggerStep (store : InstanceStore PortTriggering) (table : TriggerTable)
    (request : TriggerRequest) : TableResult TriggerTable :=
  zcfgFeDalNatPortTriggering store .succeed table request .empty

/-- The table after a request. -/
def triggerNext (store : InstanceStore PortTriggering) (table : TriggerTable)
    (request : TriggerRequest) : TriggerTable :=
  (triggerStep store table request).2.2

/-- The ports of {lit}`NAT_PORT_TRIGGERING_param`. -/
def acceptedTriggerPorts : TriggerRequest → Bool
  | .post req =>
      acceptedInt 1 65535 req.triggerPortStart && acceptedInt 1 65535 req.triggerPortEnd &&
        acceptedInt 1 65535 req.openPortStart && acceptedInt 1 65535 req.openPortEnd
  | .put req =>
      req.triggerPortStart.all (acceptedInt 1 65535) &&
        req.triggerPortEnd.all (acceptedInt 1 65535) &&
        req.openPortStart.all (acceptedInt 1 65535) && req.openPortEnd.all (acceptedInt 1 65535)
  | .delete _ => true

/-! ## Tables in order -/

/-- No range of a rule is empty. -/
structure RangesInOrder (rule : PortTriggering) : Prop where
  trigger : rule.triggerPort ≤ rule.triggerPortEndRange
  open_ : rule.openPort ≤ rule.openPortEndRange

/-- No range is empty and no two descriptions are equal. -/
structure TriggerInOrder (table : TriggerTable) : Prop where
  ranges : ∀ row ∈ table.rows, RangesInOrder row.2
  descriptions : table.AllPairs (fun a b => a.description ≠ b.description)

theorem rangeEmpty_eq_false_iff {t t' o o' : Int} :
    rangeEmpty t t' o o' = false ↔ t ≤ t' ∧ o ≤ o' := by
  simp [rangeEmpty]

theorem triggerDescriptionTaken_eq_false_iff {table : TriggerTable} {objIid : Option InstNum}
    {description : List Char} :
    triggerDescriptionTaken table objIid description = false ↔
      ∀ row ∈ table.rows, some row.1 ≠ objIid → description ≠ row.2.description := by
  rw [triggerDescriptionTaken, List.any_eq_false]
  constructor
  · intro h row hrow hiid heq
    exact h row hrow (by simpa [heq] using hiid)
  · intro h row hrow htaken
    obtain ⟨hiid, heq⟩ : some row.1 ≠ objIid ∧ description = row.2.description := by
      simpa using htaken
    exact h row hrow hiid heq

/-- The rule that a request names. -/
def namedTrigger (table : TriggerTable) (rule : RuleName) : Option (InstNum × PortTriggering) :=
  match triggerIid table rule .empty with
  | .error _ => none
  | .ok objIid => readTrigger table objIid

theorem readTrigger_eq_some {table : TriggerTable} {objIid : Option InstNum} {n : InstNum}
    {old : PortTriggering} (h : readTrigger table objIid = some (n, old)) :
    objIid = some n ∧ (n, old) ∈ table.rows := by
  cases objIid with
  | none => exact absurd h (by simp [readTrigger])
  | some m =>
      obtain ⟨rule, hrule, heq⟩ := Option.map_eq_some_iff.mp h
      obtain ⟨rfl, rfl⟩ := Prod.mk.inj heq
      exact ⟨rfl, KeyedTable.get_eq_some_iff.mp hrule⟩

theorem namedTrigger_mem {table : TriggerTable} {rule : RuleName} {objIid : InstNum}
    {old : PortTriggering} (h : namedTrigger table rule = some (objIid, old)) :
    (objIid, old) ∈ table.rows := by
  unfold namedTrigger at h
  split at h
  · exact absurd h (by simp)
  · exact (readTrigger_eq_some h).2

/-! ## What a request does -/

/-- New rules: a description that is taken or a failed addition leaves the table, an empty range leaves
the new instance behind. -/
theorem triggerAdd_cases (store : InstanceStore PortTriggering) (table : TriggerTable)
    (req : TriggerPost) (reply : DalReply) :
    (triggerDescriptionTaken table none req.description = true ∨
        ∃ ret, store.newInstance table = .error ret) ∧
      (zcfgFeDalNatPortTriggeringAdd store .succeed table req reply).2.2 = table ∨
    triggerDescriptionTaken table none req.description = false ∧
      ∃ objIid, store.newInstance table = .ok objIid ∧
        ∃ hfresh : objIid ∉ table.rows.map Prod.fst,
          zcfgFeDalNatPortTriggeringAdd store .succeed table req reply =
            if rangeEmpty req.triggerPortStart req.triggerPortEnd req.openPortStart
                req.openPortEnd then
              (.invalidParamValue, reply.rangeError, table.add objIid store.initial hfresh)
            else (.success, reply, table.add objIid (addedTrigger req) hfresh) := by
  unfold zcfgFeDalNatPortTriggeringAdd
  by_cases htaken : triggerDescriptionTaken table none req.description = true
  · rw [if_pos htaken]
    exact Or.inl ⟨Or.inl htaken, rfl⟩
  rw [if_neg htaken]
  split
  · rename_i ret hnew
    exact Or.inl ⟨Or.inr ⟨ret, hnew⟩, rfl⟩
  · rename_i objIid hnew
    refine Or.inr ⟨by simpa using htaken, objIid, hnew, store.fresh table objIid hnew, ?_⟩
    rw [if_neg (by simp [StoreResults.succeed]), StoreResults.set_of_success rfl]
    simp only [KeyedTable.put_add]

/-- An edit of a rule that is there. -/
theorem triggerEdit_found {table : TriggerTable} {req : TriggerPut} {objIid : InstNum}
    {old : PortTriggering} (reply : DalReply)
    (hnamed : namedTrigger table req.rule = some (objIid, old)) :
    zcfgFeDalNatPortTriggeringEdit .succeed table req reply =
      if req.description.any (triggerDescriptionTaken table (some objIid)) then
        (.invalidParamValue, reply.cat "Description is duplicated", table)
      else if requestRangeEmpty req then (.invalidParamValue, reply.rangeError, table)
      else (.success, reply, table.put objIid (mergedTrigger old req)) := by
  have hiid : triggerIid table req.rule reply = .ok (some objIid) ∧
      readTrigger table (some objIid) = some (objIid, old) := by
    unfold namedTrigger at hnamed
    split at hnamed
    · exact absurd hnamed (by simp)
    · rename_i found hfound
      obtain ⟨rfl, -⟩ := readTrigger_eq_some hnamed
      refine ⟨?_, hnamed⟩
      cases hrule : req.rule with
      | idx number =>
          rw [hrule] at hfound
          exact hfound
      | index index =>
          rw [hrule] at hfound
          unfold triggerIid convertIndextoIid at hfound ⊢
          by_cases hpos : index ≤ 0
          · simp [hpos] at hfound
          · cases hnth : nthInstance index table.rows 1 with
            | none => simp [hpos, hnth] at hfound
            | some n => simpa [hpos, hnth] using hfound
  rw [zcfgFeDalNatPortTriggeringEdit, hiid.1]
  simp only [hiid.2, StoreResults.succeed, ne_eq, not_true, if_false,
    StoreResults.zcfgFeObjJsonSet, if_true]

/-- An edit of a rule that is not there fails. -/
theorem triggerEdit_missing {table : TriggerTable} {req : TriggerPut} (results : StoreResults)
    (hnamed : namedTrigger table req.rule = none) :
    (zcfgFeDalNatPortTriggeringEdit results table req .empty).1 ≠ .success ∧
      (zcfgFeDalNatPortTriggeringEdit results table req .empty).2.2 = table := by
  unfold zcfgFeDalNatPortTriggeringEdit
  unfold namedTrigger at hnamed
  cases hiid : triggerIid table req.rule .empty with
  | error failed =>
      refine ⟨?_, rfl⟩
      unfold triggerIid at hiid
      split at hiid
      · exact absurd hiid (by simp)
      · split at hiid
        · rename_i failed' hfailed
          obtain rfl : failed' = failed := by simpa using hiid
          rw [convertIndextoIid_error hfailed]
          simp
        · exact absurd hiid (by simp)
  | ok objIid =>
      rw [hiid] at hnamed
      simp only at hnamed ⊢
      by_cases htaken : req.description.any (triggerDescriptionTaken table objIid) = true
      · rw [if_pos htaken]
        exact ⟨by simp, rfl⟩
      rw [if_neg htaken]
      by_cases hget : results.get ≠ .success
      · rw [if_pos hget]
        exact ⟨by simp, rfl⟩
      rw [if_neg hget, hnamed]
      exact ⟨by simp, rfl⟩

/-- A deletion removes a rule or leaves the table. -/
theorem triggerDelete_cases (table : TriggerTable) (rule : RuleName) (reply : DalReply) :
    (zcfgFeDalNatPortTriggeringDelete .succeed table rule reply).2.2 = table ∨
    ∃ objIid, zcfgFeDalNatPortTriggeringDelete .succeed table rule reply =
      (.success, reply, table.del objIid) := by
  cases rule with
  | idx number =>
      rw [zcfgFeDalNatPortTriggeringDelete]
      cases hread : readTrigger table (InstNum.ofIndex number) with
      | none => exact Or.inl rfl
      | some found => exact Or.inr ⟨found.1, rfl⟩
  | index index =>
      rw [zcfgFeDalNatPortTriggeringDelete]
      cases hnth : nthInstance index table.rows 1 with
      | none => exact Or.inl rfl
      | some objIid => exact Or.inr ⟨objIid, rfl⟩

/-! ## Requests and the order of the table -/

/-- A new rule with ranges in order and a description of its own. -/
theorem add_triggerInOrder {table : TriggerTable} {req : TriggerPost} {objIid : InstNum}
    {hfresh : objIid ∉ table.rows.map Prod.fst} (h : TriggerInOrder table)
    (hfree : triggerDescriptionTaken table none req.description = false)
    (hranges : rangeEmpty req.triggerPortStart req.triggerPortEnd req.openPortStart
      req.openPortEnd = false) :
    TriggerInOrder (table.add objIid (addedTrigger req) hfresh) := by
  obtain ⟨htrigger, hopen⟩ := rangeEmpty_eq_false_iff.mp hranges
  constructor
  · intro row hrow
    rcases KeyedTable.mem_add_iff.mp hrow with hrow | rfl
    · exact h.ranges row hrow
    · exact ⟨htrigger, hopen⟩
  · apply h.descriptions.add (fun a b hab => hab.symm) hfresh
    intro row hrow
    exact triggerDescriptionTaken_eq_false_iff.mp hfree row hrow (by simp)

/-- The merged rule is in order with the table exactly if its ranges are, and the description of the
request is not taken. -/
theorem put_triggerInOrder_iff {table : TriggerTable} {req : TriggerPut} {objIid : InstNum}
    {old : PortTriggering} (h : TriggerInOrder table) (hold : (objIid, old) ∈ table.rows) :
    TriggerInOrder (table.put objIid (mergedTrigger old req)) ↔
      RangesInOrder (mergedTrigger old req) ∧
        req.description.any (triggerDescriptionTaken table (some objIid)) = false := by
  have hfree : (∀ row ∈ table.rows, row.1 ≠ objIid →
      (mergedTrigger old req).description ≠ row.2.description) ↔
      req.description.any (triggerDescriptionTaken table (some objIid)) = false := by
    rw [mergedTrigger]
    cases req.description with
    | none =>
        refine iff_of_true ?_ rfl
        intro row hrow hne
        exact h.descriptions (objIid, old) hold row hrow hne.symm
    | some description =>
        rw [Option.any_some, triggerDescriptionTaken_eq_false_iff]
        simp
  rw [← hfree]
  constructor
  · intro hin
    refine ⟨hin.ranges (objIid, mergedTrigger old req)
      (KeyedTable.mem_put_iff.mpr (Or.inr ⟨rfl, old, hold⟩)), ?_⟩
    exact (KeyedTable.allPairs_put_iff h.descriptions (fun a b hab => hab.symm) hold).mp
      hin.descriptions
  · rintro ⟨hranges, hothers⟩
    refine ⟨?_, (KeyedTable.allPairs_put_iff h.descriptions (fun a b hab => hab.symm) hold).mpr
      hothers⟩
    intro row hrow
    rcases KeyedTable.mem_put_iff.mp hrow with ⟨hrow, -⟩ | ⟨rfl, -⟩
    · exact h.ranges row hrow
    · exact hranges

/-- What is expected of a request: the table is in order afterwards, it is as it was if the request is
rejected, and an edit that leads to a table in order is accepted. -/
structure TriggerStepOk (store : InstanceStore PortTriggering) (table : TriggerTable)
    (request : TriggerRequest) : Prop where
  inOrder : TriggerInOrder (triggerNext store table request)
  unchanged : (triggerStep store table request).1 ≠ .success →
    triggerNext store table request = table
  accepted : ∀ req, request = .put req → ∀ objIid old,
    namedTrigger table req.rule = some (objIid, old) →
    TriggerInOrder (table.put objIid (mergedTrigger old req)) →
    (triggerStep store table request).1 = .success

/-- The condition: a {lit}`POST` that comes to its addition has ranges in order, and for a {lit}`PUT` that
comes to its comparison of ports that of the request says what the ports of the merged rule say. -/
def TriggerFits (store : InstanceStore PortTriggering) (table : TriggerTable) :
    TriggerRequest → Prop
  | .post req =>
      triggerDescriptionTaken table none req.description = false →
      (∀ ret, store.newInstance table ≠ .error ret) →
      req.triggerPortStart ≤ req.triggerPortEnd ∧ req.openPortStart ≤ req.openPortEnd
  | .put req =>
      ∀ objIid old, namedTrigger table req.rule = some (objIid, old) →
        req.description.any (triggerDescriptionTaken table (some objIid)) = false →
        (requestRangeEmpty req = false ↔ RangesInOrder (mergedTrigger old req))
  | .delete _ => True

/-- Nothing is expected of the table of a request that changes nothing. -/
theorem triggerStepOk_of_same {store : InstanceStore PortTriggering} {table : TriggerTable}
    {request : TriggerRequest} (h : TriggerInOrder table)
    (hsame : triggerNext store table request = table)
    (haccepted : ∀ req, request = .put req → namedTrigger table req.rule = none) :
    TriggerStepOk store table request := by
  refine ⟨by rw [hsame]; exact h, fun _ => hsame, ?_⟩
  intro req heq objIid old hnamed
  exact absurd ((haccepted req heq).symm.trans hnamed) (by simp)

theorem postStep_ok_iff {store : InstanceStore PortTriggering} {table : TriggerTable}
    {req : TriggerPost} (h : TriggerInOrder table) :
    TriggerStepOk store table (.post req) ↔ TriggerFits store table (.post req) := by
  rcases triggerAdd_cases store table req .empty with
    ⟨hearly, hsame⟩ | ⟨hfree, objIid, hnew, hfresh, hadd⟩
  · refine iff_of_true (triggerStepOk_of_same h hsame (by simp)) ?_
    intro hfree hadds
    rcases hearly with htaken | ⟨ret, hret⟩
    · exact absurd htaken (by simp [hfree])
    · exact absurd hret (hadds ret)
  · have hadds : ∀ ret, store.newInstance table ≠ .error ret := by simp [hnew]
    rw [TriggerFits]
    simp only [hfree, hadds, ne_eq, not_false_eq_true, implies_true, forall_const,
      ← rangeEmpty_eq_false_iff]
    by_cases hempty : rangeEmpty req.triggerPortStart req.triggerPortEnd req.openPortStart
        req.openPortEnd = true
    · rw [if_pos hempty] at hadd
      refine iff_of_false ?_ (by simp [hempty])
      intro hok
      have hsame : table.add objIid store.initial hfresh = table := by
        simpa [triggerNext, triggerStep, zcfgFeDalNatPortTriggering, hadd] using hok.unchanged
          (by simp [triggerStep, zcfgFeDalNatPortTriggering, hadd])
      have hrow : (objIid, store.initial) ∈ table.rows :=
        hsame ▸ KeyedTable.mem_add_iff.mpr (Or.inr rfl)
      exact hfresh (List.mem_map_of_mem hrow)
    · rw [if_neg hempty] at hadd
      refine iff_of_true ⟨?_, ?_, by simp⟩ (by simpa using hempty)
      · simpa [triggerNext, triggerStep, zcfgFeDalNatPortTriggering, hadd] using
          add_triggerInOrder h hfree (by simpa using hempty)
      · simp [triggerStep, zcfgFeDalNatPortTriggering, hadd]

theorem putStep_ok_iff {store : InstanceStore PortTriggering} {table : TriggerTable}
    {req : TriggerPut} (h : TriggerInOrder table) :
    TriggerStepOk store table (.put req) ↔ TriggerFits store table (.put req) := by
  rw [TriggerFits]
  cases hnamed : namedTrigger table req.rule with
  | none =>
      obtain ⟨-, hsame⟩ := triggerEdit_missing .succeed hnamed
      refine iff_of_true (triggerStepOk_of_same h hsame ?_) (by simp)
      intro req' heq
      exact TriggerRequest.put.inj heq ▸ hnamed
  | some found =>
      obtain ⟨objIid, old⟩ := found
      have hput : TriggerInOrder (table.put objIid (mergedTrigger old req)) ↔ _ :=
        put_triggerInOrder_iff h (namedTrigger_mem hnamed)
      have hedit := triggerEdit_found .empty hnamed
      have hstep : triggerStep store table (.put req) =
          zcfgFeDalNatPortTriggeringEdit .succeed table req .empty := rfl
      have hok : TriggerStepOk store table (.put req) ↔
          TriggerInOrder (triggerNext store table (.put req)) ∧
          ((triggerStep store table (.put req)).1 ≠ .success →
            triggerNext store table (.put req) = table) ∧
          (TriggerInOrder (table.put objIid (mergedTrigger old req)) →
            (triggerStep store table (.put req)).1 = .success) := by
        constructor
        · intro hok
          exact ⟨hok.inOrder, hok.unchanged, hok.accepted req rfl objIid old hnamed⟩
        · rintro ⟨hin, hsame, haccept⟩
          refine ⟨hin, hsame, ?_⟩
          intro req' heq objIid' old' hnamed'
          obtain rfl := TriggerRequest.put.inj heq
          obtain ⟨rfl, rfl⟩ : objIid = objIid' ∧ old = old' := by
            simpa [hnamed] using hnamed'
          exact haccept
      rw [hok, triggerNext, hstep, hedit, hput]
      by_cases htaken : req.description.any (triggerDescriptionTaken table (some objIid)) = true
      · simp [htaken, h]
      · have hfree : req.description.any (triggerDescriptionTaken table (some objIid)) = false := by
          simpa using htaken
        simp only [Option.some.injEq, Prod.mk.injEq, and_imp, forall_eq', forall_apply_eq_imp_iff,
          hfree, Bool.false_eq_true, if_false, true_implies, and_true]
        by_cases hempty : requestRangeEmpty req = true
        · simp [hempty, h]
        · simp [hempty, hput, hfree]

/-- A request is as expected exactly under the condition. -/
theorem triggerStep_ok_iff {store : InstanceStore PortTriggering} {table : TriggerTable}
    {request : TriggerRequest} (h : TriggerInOrder table) :
    TriggerStepOk store table request ↔ TriggerFits store table request := by
  cases request with
  | post req => exact postStep_ok_iff h
  | put req => exact putStep_ok_iff h
  | delete rule =>
      refine iff_of_true ?_ trivial
      rcases triggerDelete_cases table rule .empty with hsame | ⟨objIid, hdel⟩
      · exact triggerStepOk_of_same h hsame (by simp)
      · have hstep : triggerStep store table (.delete rule) = (.success, .empty, table.del objIid) :=
          hdel
        refine ⟨?_, by simp [hstep], by simp⟩
        rw [triggerNext, hstep]
        exact ⟨fun row hrow => h.ranges row (KeyedTable.mem_del_iff.mp hrow).1,
          h.descriptions.del objIid⟩

/-! ## Runs -/

/-- From a table in order, every request of a run is as expected exactly if every request meets the
condition in the table it comes to. -/
theorem portTriggering_run_iff (store : InstanceStore PortTriggering) (table : TriggerTable)
    (requests : List TriggerRequest) (hstart : TriggerInOrder table) :
    EveryStep (triggerNext store) (TriggerStepOk store) table requests ↔
      EveryStep (triggerNext store) (TriggerFits store) table requests := by
  apply everyStep_congr (I := TriggerInOrder) _ _ hstart
  · intro before request _ hok
    exact hok.inOrder
  · intro before request h
    exact triggerStep_ok_iff h

/-- In a run whose requests meet the condition the last table is in order too. -/
theorem triggerRun_inOrder {store : InstanceStore PortTriggering} {table : TriggerTable}
    {requests : List TriggerRequest} (hstart : TriggerInOrder table)
    (hfits : EveryStep (triggerNext store) (TriggerFits store) table requests) :
    TriggerInOrder (requests.foldl (triggerNext store) table) := by
  apply EveryStep.invariant (I := TriggerInOrder) _ hstart hfits
  intro before request h hrequest
  exact ((triggerStep_ok_iff h).mpr hrequest).inOrder

/-- For an edit whose ranges are given as a whole or not at all the two comparisons agree. -/
theorem wholeRanges_fit {req : TriggerPut} {old : PortTriggering} (hold : RangesInOrder old)
    (htrigger : req.triggerPortStart.isSome = req.triggerPortEnd.isSome)
    (hopen : req.openPortStart.isSome = req.openPortEnd.isSome) :
    requestRangeEmpty req = false ↔ RangesInOrder (mergedTrigger old req) := by
  have hpair : ∀ {first last : Option Int} {a b : Int}, first.isSome = last.isSome → a ≤ b →
      (first.getD 0 ≤ last.getD 0 ↔ first.getD a ≤ last.getD b) := by
    intro first last a b hsome hab
    cases first with
    | none =>
        obtain rfl : last = none := by simpa using hsome.symm
        simpa using hab
    | some x =>
        obtain ⟨y, rfl⟩ := Option.isSome_iff_exists.mp (hsome.symm.trans rfl)
        simp
  rw [requestRangeEmpty, rangeEmpty_eq_false_iff, hpair htrigger hold.trigger,
    hpair hopen hold.open_]
  exact ⟨fun h => ⟨h.1, h.2⟩, fun h => ⟨h.trigger, h.open_⟩⟩

/-- An edit with a start port and without its end port is rejected. -/
theorem startAlone_rejected {req : TriggerPut} {port : Int} (hport : 1 ≤ port)
    (h : req.triggerPortStart = some port ∧ req.triggerPortEnd = none ∨
      req.openPortStart = some port ∧ req.openPortEnd = none) :
    requestRangeEmpty req = true := by
  have hlt : 0 < port := by omega
  rcases h with ⟨hstart, hend⟩ | ⟨hstart, hend⟩
  · simp [requestRangeEmpty, rangeEmpty, hstart, hend, hlt]
  · simp [requestRangeEmpty, rangeEmpty, hstart, hend, hlt]

/-- A store with rules that are empty at first. -/
def triggerStore : InstanceStore PortTriggering :=
  .firstFree ⟨false, [], false, 0, 0, 0, 0, [], [], []⟩

/-- A request for a rule. -/
def triggerPost (description : String) (first last : Int) : TriggerPost where
  enable := true
  description := description.toList
  interface := []
  triggerPortStart := first
  triggerPortEnd := last
  openPortStart := 80
  openPortEnd := 81
  openProtocol := "TCP".toList
  triggerProtocol := "TCP".toList

theorem emptyTable_triggerInOrder : TriggerInOrder .empty where
  ranges := fun row hrow => absurd hrow (by simp [KeyedTable.empty])
  descriptions := fun r hr => absurd hr (by simp [KeyedTable.empty])

/-- A rule from 100 to 200. -/
theorem portTriggering_run_small :
    EveryStep (triggerNext triggerStore) (TriggerStepOk triggerStore) .empty
      [.post (triggerPost "game" 100 200)] :=
  (portTriggering_run_iff triggerStore .empty [.post (triggerPost "game" 100 200)]
    emptyTable_triggerInOrder).mpr
    (everyStep_cons.mpr ⟨fun _ _ => by decide, everyStep_nil⟩)

/-- A rule from 200 to 100 is rejected, and leaves an empty rule. -/
theorem portTriggering_run_fails :
    ¬ ∀ (store : InstanceStore PortTriggering) (table : TriggerTable)
        (requests : List TriggerRequest), TriggerInOrder table →
      (∀ request ∈ requests, acceptedTriggerPorts request = true) →
      EveryStep (triggerNext store) (TriggerStepOk store) table requests := by
  intro h
  have hall := h triggerStore .empty [.post (triggerPost "game" 200 100)]
    emptyTable_triggerInOrder (by decide)
  have hok := (everyStep_cons.mp hall).1
  have hrows := congrArg (fun t : TriggerTable => t.rows.length) (hok.unchanged (by decide +kernel))
  exact absurd hrows (by decide +kernel)

end FeDal
end ZyxelRouter
