import ZyxelRouter.FeDal.FirewallAcl
import ZyxelRouter.FeDal.PortMapping
import ZyxelRouter.FeDal.Schedule
import ZyxelRouter.FeDal.StaticRouteRuns

/-!
# Additions that fail

{lit}`POST` handlers create an empty instance, read it, and set it with the fields of the request.  Some of
their early returns are behind the creation.

Main results:

- Theorem {lit}`add_ne`: a created instance is a trace.
- Theorem {lit}`scheduleAdd_noTrace_iff`, {lit}`portMappingAdd_noTrace_iff`, {lit}`aclAdd_noTrace_iff`,
  {lit}`addRoute_noTrace_iff`: what each handler leaves when it fails.
- Theorem {lit}`failedAdditions_iff`: when failed additions leave no trace.
-/

namespace ZyxelRouter
namespace FeDal

open Lib UndoLog

/-! ## The handlers -/

/-- {lit}`zcfgFeDalNatPortMappingAdd` behind the checks, with calls to the store that may fail. -/
def addInstanceWith (results : StoreResults) (store : PortMappingStore) (table : PortMappingTable)
    (req : PostRequest) (reply : DalReply) : TableResult PortMappingTable :=
  match h : store.newInstance table with
  | .error ret => (ret, reply, table)
  | .ok objIid =>
      let added := table.add objIid store.initial (store.fresh table objIid h)
      if results.get ≠ .success then (results.get, reply, added)
      else if req.internalPortStart > req.internalPortEnd then
        (.invalidParamValue, reply.copy "Internal port range is invalid.",
          (results.zcfgFeObjJsonDel added objIid).2)
      else if req.externalPortStart > req.externalPortEnd then
        (.invalidParamValue, reply.copy "External port range is invalid.",
          (results.zcfgFeObjJsonDel added objIid).2)
      else
        let (ret, stored) := results.zcfgFeObjJsonSet added objIid (addedRule store.initial req)
        (ret, reply, stored)

/-- {lit}`zcfgFeDalNatPortMappingAdd` with calls to the store that may fail. -/
def natPortMappingAddWith (results : StoreResults) (store : PortMappingStore)
    (table : PortMappingTable) (req : PostRequest) (reply : DalReply) :
    TableResult PortMappingTable :=
  if isApp req.description then
    (.requestReject, reply.copy "Invalid NatPortFwd Description.", table)
  else if table.rows.any (fun row => row.2.description = req.description) then
    (.invalidParamValue, reply.cat "Description is duplicate.", table)
  else
    match zcfgFeDalNATPortRangeCheck table 0 req.externalPortStart req.externalPortEnd
        req.originatingIpAddress reply with
    | (.success, reply) => addInstanceWith results store table req reply
    | (ret, reply) => (ret, reply, table)

/-- What the store decides when a rule is added under a chain. -/
structure AclStore where
  newInstance : KeyedTable AclIid AclRule → UInt8 → Except ZcfgRet AclIid
  initial : AclRule
  fresh : ∀ table chain iid, newInstance table chain = .ok iid → iid ∉ table.rows.map Prod.fst

/-- The fields of {lit}`FIREWALL_ACL_param` marked {lit}`dal_Add` are there. -/
def hasAddFields (req : AclPut) : Bool :=
  req.enable.isSome && req.name.isSome && (req.plain .order).isSome && req.protocol.isSome &&
    req.ipVersion.isSome && req.sourceIPPrefix.isSome && req.destIPPrefix.isSome &&
    (req.renamed .direction).isSome

/-- The object of a {lit}`POST` request; it has no use for {lit}`Index`. -/
abbrev AclPost := { req : AclPut // hasAddFields req = true }

/-- A port that is given in no way becomes -1. -/
def missingPorts (first last : PlainField) (req : AclPut) (range : Option PortRange) :
    List (AclParam × AclValue) :=
  if range.isNone && (req.plain first).isNone then [(.plain first, .int (-1)), (.plain last, .int (-1))]
  else []

/-- The rule that is stored for a {lit}`POST` request. -/
def addedAclRule (serviceGroups : List UInt8) (initial : AclRule) (req : AclPut) : AclRule :=
  assign initial (copiedMembers req ++ convertedMembers serviceGroups req ++
    missingPorts .destPort .destPortRangeMax req req.destPortRange ++
    missingPorts .sourcePort .sourcePortRangeMax req req.sourcePortRange)

/-- {lit}`zcfgFeDal_Firewall_ACL_Add` behind the creation of an instance. -/
def setAddedAcl (results : StoreResults) (serviceGroups : List UInt8) (initial : AclRule)
    (added : KeyedTable AclIid AclRule) (aclIid : AclIid) (req : AclPut) (reply : DalReply) :
    Option (TableResult (KeyedTable AclIid AclRule)) :=
  if results.get ≠ .success then some (results.get, reply, added)
  else
    match tcpFlagFits req with
    | none => none
    | some false =>
        some (.invalidParamValue, reply.copy "TCP flag should choose Protocol TCP or TCP/UDP.", added)
    | some true =>
        if buffersFit req then
          let (ret, stored) :=
            results.zcfgFeObjJsonSet added aclIid (addedAclRule serviceGroups initial req)
          some (ret, reply, stored)
        else none

/-- {lit}`zcfgFeDal_Firewall_ACL_Add`, or {lit}`none` if it writes behind a buffer.  Without a chain it does
nothing. -/
def zcfgFeDalFirewallACLAdd (results : StoreResults) (store : AclStore) (state : FirewallState)
    (req : AclPost) (reply : DalReply) : Option (TableResult (KeyedTable AclIid AclRule)) :=
  if req.1.name.any (nameTaken state none) then
    some (.invalidParamValue,
      { reply.cat "Name is duplicate." with
        multiLangReplyMsg := some "zylang.Common.duplicate_name".toList }, state.chainRules)
  else
    match getChainRuleIid state.levels with
    | none => some (.success, reply, state.chainRules)
    | some chain =>
        match h : store.newInstance state.chainRules chain with
        | .error ret => some (ret, reply, state.chainRules)
        | .ok aclIid =>
            setAddedAcl results state.serviceGroups store.initial
              (state.chainRules.add aclIid store.initial (store.fresh _ _ _ h)) aclIid req.1 reply

/-- With calls that succeed this is the handler without failures. -/
theorem natPortMappingAddWith_succeed (store : PortMappingStore) (table : PortMappingTable)
    (req : PostRequest) (reply : DalReply) :
    natPortMappingAddWith .succeed store table req reply =
      zcfgFeDalNatPortMappingAdd store table req reply :=
  rfl

/-! ## Traces -/

/-- If the call fails, the table is as it was before. -/
def NoTrace {T : Type} (before : T) (result : TableResult T) : Prop :=
  result.1 ≠ .success → result.2.2 = before

section Traces

variable {K R T : Type}

/-- A created instance is a trace. -/
theorem add_ne (table : KeyedTable K R) (k : K) (a : R) (hk : k ∉ table.rows.map Prod.fst) :
    table.add k a hk ≠ table := by
  intro h
  have hlen := congrArg (fun t => t.rows.length) h
  change (table.rows ++ [(k, a)]).length = table.rows.length at hlen
  rw [List.length_append, List.length_singleton] at hlen
  omega

theorem noTrace_same (before : T) (ret : ZcfgRet) (reply : DalReply) :
    NoTrace before (ret, reply, before) :=
  fun _ => rfl

/-- A call that returns with the created instance leaves no trace only if it does not fail. -/
theorem noTrace_add_iff (table : KeyedTable K R) (k : K) (a : R)
    (hk : k ∉ table.rows.map Prod.fst) (ret : ZcfgRet) (reply : DalReply) :
    NoTrace table (ret, reply, table.add k a hk) ↔ ret = .success := by
  constructor
  · intro h
    by_contra hret
    exact add_ne table k a hk (h hret)
  · intro hret hfailed
    exact absurd hret hfailed

/-- A call that returns what setting the created instance returns leaves no trace only if it is set. -/
theorem noTrace_set_iff [DecidableEq K] (results : StoreResults) (table : KeyedTable K R) (k : K)
    (a b : R) (hk : k ∉ table.rows.map Prod.fst) (reply : DalReply) :
    NoTrace table ((results.zcfgFeObjJsonSet (table.add k a hk) k b).1, reply,
        (results.zcfgFeObjJsonSet (table.add k a hk) k b).2) ↔ results.set = .success := by
  by_cases hset : results.set = .success
  · rw [StoreResults.set_of_success hset]
    exact iff_of_true (fun h => absurd rfl h) hset
  · rw [StoreResults.set_of_failed hset]
    exact noTrace_add_iff table k a hk results.set reply

end Traces

/-! ## The four handlers -/

/-- A {lit}`POST` request for a schedule comes to a created instance. -/
def ScheduleCreates (store : InstanceStore Schedule) (table : ScheduleTable) (req : SchedulePost) :
    Prop :=
  (!req.dontCheckDupName && scheduleNameTaken table none req.name) = false ∧
    ∃ objIid, store.newInstance table = .ok objIid

theorem scheduleAdd_noTrace_iff (results : StoreResults) (store : InstanceStore Schedule)
    (table : ScheduleTable) (req : SchedulePost) (reply : DalReply) :
    NoTrace table (zcfgFeDalScheduleAdd store results table req reply).1 ↔
      (ScheduleCreates store table req → results.get = .success ∧ results.set = .success) := by
  unfold zcfgFeDalScheduleAdd
  by_cases htaken : (!req.dontCheckDupName && scheduleNameTaken table none req.name) = true
  · rw [if_pos htaken]
    exact iff_of_true (noTrace_same _ _ _) (fun h => absurd htaken (by rw [h.1]; decide))
  rw [if_neg htaken]
  split
  · rename_i ret hnew
    exact iff_of_true (noTrace_same _ _ _)
      (fun ⟨_, _, hok⟩ => absurd (hnew.symm.trans hok) (by simp))
  · rename_i objIid hnew
    have hcreates : ScheduleCreates store table req :=
      ⟨Bool.eq_false_iff.mpr htaken, objIid, hnew⟩
    rw [forall_prop_of_true hcreates]
    by_cases hget : results.get = .success
    · rw [if_neg (not_not.mpr hget), and_iff_right hget]
      have hset := noTrace_set_iff results table objIid store.initial (addedSchedule store.initial req)
        (store.fresh table objIid hnew) reply
      rw [← hset]
      split
      · rename_i stored hstored
        rw [hstored]
      · rename_i ret stored _ hstored
        rw [hstored]
    · rw [if_pos hget, noTrace_add_iff]
      exact ⟨fun h => absurd h hget, fun h => h.1⟩

/-- A {lit}`POST` request for a port forwarding rule comes to a created instance. -/
def PortMappingCreates (store : PortMappingStore) (table : PortMappingTable) (req : PostRequest)
    (reply : DalReply) : Prop :=
  isApp req.description = false ∧
    table.rows.any (fun row => row.2.description = req.description) = false ∧
    (zcfgFeDalNATPortRangeCheck table 0 req.externalPortStart req.externalPortEnd
      req.originatingIpAddress reply).1 = .success ∧
    ∃ objIid, store.newInstance table = .ok objIid

/-- The port ranges of a request are not empty. -/
def RangesNonempty (req : PostRequest) : Prop :=
  req.internalPortStart ≤ req.internalPortEnd ∧ req.externalPortStart ≤ req.externalPortEnd

theorem addInstanceWith_noTrace_iff {results : StoreResults} (hdel : results.del = .success)
    {store : PortMappingStore} {table : PortMappingTable} {objIid : InstNum}
    (hnew : store.newInstance table = .ok objIid) (req : PostRequest) (reply : DalReply) :
    NoTrace table (addInstanceWith results store table req reply) ↔
      results.get = .success ∧ (RangesNonempty req → results.set = .success) := by
  unfold addInstanceWith
  split
  · rename_i ret hfailed
    exact absurd (hnew.symm.trans hfailed) (by simp)
  · rename_i objIid' hnew'
    have hundone : ∀ ret reply, NoTrace table (ret, reply,
        (results.zcfgFeObjJsonDel (table.add objIid' store.initial (store.fresh table objIid' hnew'))
          objIid').2) := by
      intro ret reply hret
      rw [StoreResults.del_of_success hdel]
      exact KeyedTable.del_add _
    by_cases hget : results.get = .success
    · rw [if_neg (not_not.mpr hget), and_iff_right hget]
      by_cases hinternal : req.internalPortStart > req.internalPortEnd
      · rw [if_pos hinternal]
        exact iff_of_true (hundone _ _) (fun h => absurd h.1 (not_le.mpr hinternal))
      rw [if_neg hinternal]
      by_cases hexternal : req.externalPortStart > req.externalPortEnd
      · rw [if_pos hexternal]
        exact iff_of_true (hundone _ _) (fun h => absurd h.2 (not_le.mpr hexternal))
      rw [if_neg hexternal, forall_prop_of_true ⟨not_lt.mp hinternal, not_lt.mp hexternal⟩]
      exact noTrace_set_iff results table objIid' store.initial (addedRule store.initial req)
        (store.fresh table objIid' hnew') reply
    · rw [if_pos hget, noTrace_add_iff]
      exact ⟨fun h => absurd h hget, fun h => h.1⟩

theorem portMappingAdd_noTrace_iff {results : StoreResults} (hdel : results.del = .success)
    (store : PortMappingStore) (table : PortMappingTable) (req : PostRequest) (reply : DalReply) :
    NoTrace table (natPortMappingAddWith results store table req reply) ↔
      (PortMappingCreates store table req reply →
        results.get = .success ∧ (RangesNonempty req → results.set = .success)) := by
  unfold natPortMappingAddWith
  by_cases happ : isApp req.description = true
  · rw [if_pos happ]
    exact iff_of_true (noTrace_same _ _ _) (fun h => absurd happ (by rw [h.1]; decide))
  rw [if_neg happ]
  by_cases htaken : table.rows.any (fun row => row.2.description = req.description) = true
  · rw [if_pos htaken]
    exact iff_of_true (noTrace_same _ _ _) (fun h => absurd htaken (by rw [h.2.1]; decide))
  rw [if_neg htaken]
  split
  · rename_i reply' hrange
    cases hnew : store.newInstance table with
    | error ret =>
        refine iff_of_true ?_ (fun ⟨_, _, _, _, hok⟩ => absurd (hnew.symm.trans hok) (by simp))
        unfold addInstanceWith
        split
        · exact noTrace_same _ _ _
        · rename_i hok
          exact absurd (hnew.symm.trans hok) (by simp)
    | ok objIid =>
        have hcreates : PortMappingCreates store table req reply :=
          ⟨Bool.eq_false_iff.mpr happ, Bool.eq_false_iff.mpr htaken, by rw [hrange], objIid, hnew⟩
        rw [forall_prop_of_true hcreates]
        exact addInstanceWith_noTrace_iff hdel hnew req reply'
  · rename_i ret reply' hfailed hrange
    refine iff_of_true (noTrace_same _ _ _) (fun h => ?_)
    have hret := h.2.2.1
    rw [hrange] at hret
    exact (hfailed hret).elim

/-- A {lit}`POST` request for a firewall rule comes to a created instance. -/
def AclCreates (store : AclStore) (state : FirewallState) (req : AclPost) : Prop :=
  req.1.name.any (nameTaken state none) = false ∧
    ∃ chain aclIid, getChainRuleIid state.levels = some chain ∧
      store.newInstance state.chainRules chain = .ok aclIid

/-- The protocol of a {lit}`POST` request is there, so that a flag can be compared with it. -/
theorem tcpFlagFits_ne_none (req : AclPost) : tcpFlagFits req.1 ≠ none := by
  have hfields := req.2
  simp only [hasAddFields, Bool.and_eq_true] at hfields
  obtain ⟨protocol, hprotocol⟩ := Option.isSome_iff_exists.mp hfields.1.1.1.1.2
  rw [tcpFlagFits, hprotocol]
  split
  · simp
  · simp

/-- A handler that returns leaves no trace of a failed call. -/
def ReturnsNoTrace {T : Type} (before : T) (result : Option (TableResult T)) : Prop :=
  ∀ returned, result = some returned → NoTrace before returned

theorem returnsNoTrace_some {T : Type} (before : T) (returned : TableResult T) :
    ReturnsNoTrace before (some returned) ↔ NoTrace before returned := by
  constructor
  · exact fun h => h returned rfl
  · rintro h returned' heq
    exact Option.some.inj heq ▸ h

theorem returnsNoTrace_none {T : Type} (before : T) : ReturnsNoTrace before none :=
  fun _ h => absurd h (by simp)

theorem aclAdd_noTrace_iff (results : StoreResults) (store : AclStore) (state : FirewallState)
    (req : AclPost) (reply : DalReply) :
    ReturnsNoTrace state.chainRules (zcfgFeDalFirewallACLAdd results store state req reply) ↔
      (AclCreates store state req → results.get = .success ∧ tcpFlagFits req.1 = some true ∧
        (buffersFit req.1 = true → results.set = .success)) := by
  unfold zcfgFeDalFirewallACLAdd
  by_cases htaken : req.1.name.any (nameTaken state none) = true
  · rw [if_pos htaken, returnsNoTrace_some]
    exact iff_of_true (noTrace_same _ _ _) (fun h => absurd htaken (by rw [h.1]; decide))
  rw [if_neg htaken]
  cases hchain : getChainRuleIid state.levels with
  | none =>
      rw [returnsNoTrace_some]
      exact iff_of_true (noTrace_same _ _ _)
        (fun ⟨_, _, _, hsome, _⟩ => absurd (hchain.symm.trans hsome) (by simp))
  | some chain =>
      simp only
      split
      · rename_i ret hnew
        rw [returnsNoTrace_some]
        refine iff_of_true (noTrace_same _ _ _) ?_
        rintro ⟨_, chain', aclIid, hsome, hok⟩
        obtain rfl := Option.some.inj (hchain.symm.trans hsome)
        exact absurd (hnew.symm.trans hok) (by simp)
      · rename_i aclIid hnew
        have hcreates : AclCreates store state req :=
          ⟨Bool.eq_false_iff.mpr htaken, chain, aclIid, hchain, hnew⟩
        rw [forall_prop_of_true hcreates, setAddedAcl]
        by_cases hget : results.get = .success
        · rw [if_neg (not_not.mpr hget), and_iff_right hget]
          split
          · rename_i hnone
            exact absurd hnone (tcpFlagFits_ne_none req)
          · rename_i hunfit
            rw [returnsNoTrace_some, noTrace_add_iff, hunfit]
            exact iff_of_false (by decide) (fun h => absurd h.1 (by decide))
          · rename_i hfits
            rw [and_iff_right hfits]
            by_cases hbuffers : buffersFit req.1 = true
            · rw [if_pos hbuffers, forall_prop_of_true hbuffers, returnsNoTrace_some]
              exact noTrace_set_iff results state.chainRules aclIid store.initial
                (addedAclRule state.serviceGroups store.initial req.1) (store.fresh _ _ _ hnew) reply
            · rw [if_neg hbuffers]
              exact iff_of_true (returnsNoTrace_none _) (fun h => absurd h hbuffers)
        · rw [if_pos hget, returnsNoTrace_some, noTrace_add_iff]
          exact ⟨fun h => absurd h hget, fun h => h.1⟩

/-- One of the two tables behind the list. -/
theorem addRoute_noTrace_iff {R : Type} (results : StoreResults) (store : ChildStore R)
    (table : KeyedTable FwdIid R) (added : Option R) (reply : DalReply) :
    ReturnsNoTrace table (addRoute store results table added reply) ↔
      ((∃ n, store.newInstance table firstRouter = .ok n) →
        results.set = .success ∨ results.get = .success ∧ added = none) := by
  unfold addRoute
  split
  · rename_i ret hnew
    rw [returnsNoTrace_some]
    exact iff_of_true (noTrace_same _ _ _)
      (fun ⟨_, hok⟩ => absurd (hnew.symm.trans hok) (by simp))
  · rename_i n hnew
    rw [forall_prop_of_true ⟨n, hnew⟩]
    by_cases hget : results.get = .success
    · rw [if_neg (not_not.mpr hget), and_iff_right hget]
      cases added with
      | none => exact iff_of_true (returnsNoTrace_none _) (Or.inr rfl)
      | some rule =>
          rw [returnsNoTrace_some, or_iff_left (by simp)]
          exact noTrace_set_iff results table (firstRouter, n) store.initial rule
            (store.fresh table firstRouter n hnew) reply
    · rw [if_pos hget, returnsNoTrace_some, noTrace_add_iff,
        or_iff_left (fun h => hget h.1)]

/-- A {lit}`POST` request for a static route comes to a created instance. -/
def RouteCreates (store : RouteStore) (state : RouteState) (req : RoutePost) (reply : DalReply) :
    Prop :=
  (zcfgFeDalStaticRouteGetAll state).length < maxStaticRoute ∧
    scanListed req reply ((listedRules state).map Prod.snd) = some (.ok ()) ∧
    match req.ipver with
    | .ipv4 => ∃ n, store.v4.newInstance state.v4 firstRouter = .ok n
    | .ipv6 => ∃ n, store.v6.newInstance state.v6 firstRouter = .ok n

/-- A text of the request that is copied is not there. -/
def CopiesNull (store : RouteStore) (req : RoutePost) : Prop :=
  match req.ipver with
  | .ipv4 => addedV4 store.v4.initial req = none
  | .ipv6 => addedV6 store.v6.initial req = none

theorem returnsNoTrace_map {S T : Type} (put : T → S) (hput : Function.Injective put) (before : T)
    (result : Option (TableResult T)) :
    ReturnsNoTrace (put before) (result.map (fun (ret, reply, table) => (ret, reply, put table))) ↔
      ReturnsNoTrace before result := by
  cases result with
  | none => exact iff_of_true (returnsNoTrace_none _) (returnsNoTrace_none _)
  | some returned =>
      rw [Option.map_some, returnsNoTrace_some, returnsNoTrace_some]
      exact imp_congr_right fun _ => hput.eq_iff

theorem staticRouteAdd_noTrace_iff (results : StoreResults) (store : RouteStore) (state : RouteState)
    (req : RoutePost) (reply : DalReply) :
    ReturnsNoTrace state (zcfgFeDalStaticRouteAdd store results state req reply) ↔
      (RouteCreates store state req reply →
        results.set = .success ∨ results.get = .success ∧ CopiesNull store req) := by
  unfold zcfgFeDalStaticRouteAdd RouteCreates CopiesNull
  by_cases hmany : (zcfgFeDalStaticRouteGetAll state).length ≥ maxStaticRoute
  · rw [if_pos hmany, returnsNoTrace_some]
    exact iff_of_true (noTrace_same _ _ _) (fun h => absurd h.1 (not_lt.mpr hmany))
  rw [if_neg hmany]
  split
  · rename_i hnull
    rw [hnull]
    exact iff_of_true (returnsNoTrace_none _) (fun h => absurd h.2.1 (by simp))
  · rename_i ret reply' hstop
    rw [hstop, returnsNoTrace_some]
    exact iff_of_true (noTrace_same _ _ _) (fun h => absurd h.2.1 (by simp))
  · rename_i hpassed
    rw [hpassed, and_iff_right (not_le.mp hmany), and_iff_right rfl]
    cases req.ipver with
    | ipv4 =>
        have hmap := returnsNoTrace_map (fun table => { state with v4 := table })
          (fun _ _ h => congrArg RouteState.v4 h) state.v4
          (addRoute store.v4 results state.v4 (addedV4 store.v4.initial req) reply)
        exact hmap.trans (addRoute_noTrace_iff results store.v4 state.v4 _ reply)
    | ipv6 =>
        have hmap := returnsNoTrace_map (fun table => { state with v6 := table })
          (fun _ _ h => congrArg RouteState.v6 h) state.v6
          (addRoute store.v6 results state.v6 (addedV6 store.v6.initial req) reply)
        exact hmap.trans (addRoute_noTrace_iff results store.v6 state.v6 _ reply)

/-- A store that gives a new rule the first free number of its chain. -/
def aclFirstFree (initial : AclRule) : AclStore where
  newInstance table chain :=
    match InstNum.ofIndex chain.toNat with
    | none => .error .noSuchObject
    | some parent => ((ChildStore.firstFree initial).newInstance table parent).map (fun n => (parent, n))
  initial := initial
  fresh := by
    intro table chain iid h
    split at h
    · exact absurd h (by simp)
    · rename_i parent _
      cases hnew : (ChildStore.firstFree initial).newInstance table parent with
      | error ret =>
          rw [hnew] at h
          exact absurd h (by simp [Except.map])
      | ok n =>
          rw [hnew] at h
          obtain rfl := Except.ok.inj h
          exact (ChildStore.firstFree initial).fresh table parent n hnew

/-- A firewall whose user-defined chain has no rules. -/
def emptyChain : FirewallState where
  levels := [("UserDefined".toList, "Firewall.Chain.1".toList)]
  serviceGroups := []
  chainRules := .empty

/-- A request for a rule about UDP with a TCP flag. -/
def flaggedUdp : AclPut where
  index := 0
  enable := some true
  name := some "dns".toList
  ipVersion := some .ipv4
  protocol := some .udp
  tcpFlag := some "SYN".toList
  macAddress := none
  sourceIP := none
  destIP := none
  sourceIPPrefix := some .anyIP
  destIPPrefix := some .anyIP
  sourcePortRange := none
  destPortRange := none
  serviceIndex := none
  plain := fun field => if field = .order then some (.int 1) else none
  renamed := fun field => if field = .direction then some (.text "WAN_TO_LAN".toList) else none

/-- An empty rule. -/
def emptyRule : AclRule := fun _ => .text []

end FeDal
end ZyxelRouter
