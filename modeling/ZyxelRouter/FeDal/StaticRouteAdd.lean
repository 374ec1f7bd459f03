import ZyxelRouter.FeDal.StaticRoute
import ZyxelRouter.Lib.StepRuns

/-!
# Adding static routes

{lit}`POST` compares a new route with the routes that are listed, and {lit}`PUT` compares only its name.

Main results:

- Theorem {lit}`listedRoutes_eq`: the list is what is listed of both tables.
- Theorem {lit}`scanListed_passed_iff`: what passes the comparison with the list.
- Theorem {lit}`inOrder_put_iff`, {lit}`inOrder_add_iff`: when routes in order stay in order.
-/

namespace ZyxelRouter
namespace FeDal

open Lib

/-! ## The handler -/

/-- {lit}`MAX_STATIC_ROUTE`. -/
def maxStaticRoute : Nat := 128

/-- The object of a {lit}`POST` request; the fields marked {lit}`dal_Add` are there. -/
structure RoutePost where
  name : List Char
  enable : Bool
  ipver : IpVersion
  destIPAddress : Option (List Char)
  destSubnetMask : Option (List Char)
  useGateIpAddr : Bool
  gatewayIPAddress : Option (List Char)
  destIPPrefix : Option (List Char)
  nextHop : Option (List Char)
  interface : List Char

/-- What the store decides when a route is added. -/
structure RouteStore where
  v4 : ChildStore V4Fwd
  v6 : ChildStore V6Fwd

/-- {lit}`Alias` of a route. -/
def FwdRule.name : FwdRule → List Char
  | .v4 rule => rule.aliasName
  | .v6 rule => rule.aliasName

/-- Whether a route is listed. -/
def FwdRule.listed : FwdRule → Bool
  | .v4 rule => rule.staticRoute && rule.aliasName ≠ [] && rule.destIPAddress ≠ []
  | .v6 rule => rule.origin = "Static".toList && rule.aliasName ≠ [] && rule.destIPPrefix ≠ []

/-- The routes of both tables. -/
def RouteState.rows (state : RouteState) : List (RouteIid × FwdRule) :=
  state.v4.rows.map (fun row => ((.ipv4, row.1), .v4 row.2)) ++
    state.v6.rows.map (fun row => ((.ipv6, row.1), .v6 row.2))

/-- The routes that are listed. -/
def listedRules (state : RouteState) : List (RouteIid × FwdRule) :=
  state.rows.filter (fun row => row.2.listed)

/-- {lit}`!strcmp` several times, as far as the texts are equal; {lit}`none` if a null pointer is compared. -/
def allEqual : List (Option (List Char) × List Char) → Option Bool
  | [] => some true
  | (none, _) :: _ => none
  | (some text, old) :: rest => if text = old then allEqual rest else some false

/-- Whether a listed route has the destination of a request. -/
def sameDestination (req : RoutePost) (rule : FwdRule) : Option Bool :=
  match req.ipver, rule with
  | .ipv4, .v4 old =>
      allEqual [(some req.interface, old.interface), (req.destIPAddress, old.destIPAddress),
        (req.destSubnetMask, old.destSubnetMask)]
  | .ipv6, .v6 old =>
      allEqual [(some req.interface, old.interface), (req.destIPPrefix, old.destIPPrefix),
        (req.nextHop, old.nextHop)]
  | _, _ => some false

/-- The reply about a destination that is there. -/
def ruleExisted : IpVersion → String
  | .ipv4 => "The rule existed, please enter another destination ip address or subnet mask."
  | .ipv6 => "The rule existed, please enter another destination ip address or prefix length."

/-- The loop of {lit}`zcfgFeDalStaticRouteAdd` over the list. -/
def scanListed (req : RoutePost) (reply : DalReply) :
    List FwdRule → Option (Except (ZcfgRet × DalReply) Unit)
  | [] => some (.ok ())
  | rule :: rest =>
      if req.name = rule.name then some (.error (.invalidParamValue, reply.cat "Name is duplicate."))
      else
        match sameDestination req rule with
        | none => none
        | some true => some (.error (.invalidParamValue, reply.cat (ruleExisted req.ipver)))
        | some false => scanListed req reply rest

/-- The address that is stored, or {lit}`none` for the null pointer. -/
def usedAddress (req : RoutePost) (address : Option (List Char)) : Option (List Char) :=
  if req.useGateIpAddr then address else some []

/-- A new IPv4 route, or {lit}`none` if a null pointer is copied. -/
def addedV4 (initial : V4Fwd) (req : RoutePost) : Option V4Fwd :=
  match req.destIPAddress, req.destSubnetMask, usedAddress req req.gatewayIPAddress with
  | some destIPAddress, some destSubnetMask, some gatewayIPAddress =>
      some { initial with
        aliasName := req.name
        enable := req.enable
        destIPAddress := destIPAddress
        destSubnetMask := destSubnetMask
        gatewayIPAddress := gatewayIPAddress
        interface := req.interface }
  | _, _, _ => none

/-- A new IPv6 route, or {lit}`none` if a null pointer is copied. -/
def addedV6 (initial : V6Fwd) (req : RoutePost) : Option V6Fwd :=
  match req.destIPPrefix, usedAddress req req.nextHop with
  | some destIPPrefix, some nextHop =>
      some { initial with
        aliasName := req.name
        enable := req.enable
        destIPPrefix := destIPPrefix
        nextHop := nextHop
        interface := req.interface }
  | _, _ => none

section Add

variable {R : Type}

/-- {lit}`zcfgFeDalStaticRouteAdd` behind the list, for one of the two tables: an instance is added under
the first router and set.  An object that is not there cannot be set, and a null object has no
parameters to set. -/
def addRoute (store : ChildStore R) (results : StoreResults) (table : KeyedTable FwdIid R)
    (added : Option R) (reply : DalReply) : Option (TableResult (KeyedTable FwdIid R)) :=
  match h : store.newInstance table firstRouter with
  | .error _ => some (.noSuchObject, reply, table)
  | .ok n =>
      let created := table.add (firstRouter, n) store.initial (store.fresh table firstRouter n h)
      if results.get ≠ .success then some (results.set, reply, created)
      else
        match added with
        | none => none
        | some rule =>
            let (ret, stored) := results.zcfgFeObjJsonSet created (firstRouter, n) rule
            some (ret, reply, stored)

end Add

/-- {lit}`zcfgFeDalStaticRouteAdd`, or {lit}`none` if it reads a null pointer. -/
def zcfgFeDalStaticRouteAdd (store : RouteStore) (results : StoreResults) (state : RouteState)
    (req : RoutePost) (reply : DalReply) : Option (TableResult RouteState) :=
  if (zcfgFeDalStaticRouteGetAll state).length ≥ maxStaticRoute then
    some (.invalidParamValue, { reply with
      multiLangReplyMsg := some "zylang.Routing.StaticRoute.error.max_rule".toList }, state)
  else
    match scanListed req reply ((listedRules state).map Prod.snd) with
    | none => none
    | some (.error (ret, reply)) => some (ret, reply, state)
    | some (.ok ()) =>
        match req.ipver with
        | .ipv4 =>
            (addRoute store.v4 results state.v4 (addedV4 store.v4.initial req) reply).map
              (fun (ret, reply, table) => (ret, reply, { state with v4 := table }))
        | .ipv6 =>
            (addRoute store.v6 results state.v6 (addedV6 store.v6.initial req) reply).map
              (fun (ret, reply, table) => (ret, reply, { state with v6 := table }))

/-- The routes behind a call of {lit}`zcfgFeDalStaticRouteEdit` or {lit}`zcfgFeDalStaticRouteDelete`. -/
def RouteState.call (state : RouteState) : StoreCall RouteIid FwdRule → RouteState
  | .set (.ipv4, iid) (.v4 rule) => { state with v4 := state.v4.put iid rule }
  | .set (.ipv6, iid) (.v6 rule) => { state with v6 := state.v6.put iid rule }
  | .del (.ipv4, iid) => { state with v4 := state.v4.del iid }
  | .del (.ipv6, iid) => { state with v6 := state.v6.del iid }
  | _ => state

/-- The requests that change the routes. -/
inductive RouteRequest where
  | post (req : RoutePost)
  | put (req : RoutePut)
  | delete (index : Int)

/-- The routes behind a request of {lit}`zcfgFeDalStaticRoute` when no call to the store fails but the
addition of an instance.  A {lit}`PUT` or {lit}`DELETE` that reads a null pointer has called nothing. -/
def routeNext (store : RouteStore) (state : RouteState) : RouteRequest → RouteState
  | .post req =>
      match zcfgFeDalStaticRouteAdd store .succeed state req .empty with
      | none => state
      | some (_, _, state') => state'
  | .put req =>
      match zcfgFeDalStaticRouteEdit state req .empty with
      | none => state
      | some (_, _, call) => state.call call
  | .delete index =>
      match zcfgFeDalStaticRouteDelete state index .empty with
      | none => state
      | some (_, _, call) => state.call call

/-! ## One table of routes -/

theorem routeRows_nodup (state : RouteState) : (state.rows.map Prod.fst).Nodup := by
  have hkeys : state.rows.map Prod.fst =
      (state.v4.rows.map Prod.fst).map (fun iid => (IpVersion.ipv4, iid)) ++
        (state.v6.rows.map Prod.fst).map (fun iid => (IpVersion.ipv6, iid)) := by
    simp [RouteState.rows, List.map_map, Function.comp_def]
  rw [hkeys, List.nodup_append]
  refine ⟨state.v4.nodup.map (fun a b h => (Prod.mk.inj h).2),
    state.v6.nodup.map (fun a b h => (Prod.mk.inj h).2), ?_⟩
  intro a ha b hb heq
  obtain ⟨i, -, rfl⟩ := List.mem_map.mp ha
  obtain ⟨j, -, rfl⟩ := List.mem_map.mp hb
  exact absurd heq (by simp)

/-- The routes of both tables as one table. -/
def RouteState.table (state : RouteState) : KeyedTable RouteIid FwdRule where
  rows := state.rows
  nodup := routeRows_nodup state

/-- The list is what is listed of both tables. -/
theorem listedRoutes_eq (state : RouteState) :
    listedRoutes state = (listedRules state).map (fun row => (row.1, row.2.name)) := by
  rw [listedRoutes, listedRules, RouteState.rows, List.filter_append, List.map_append,
    List.filter_map, List.filter_map, List.map_map, List.map_map]
  rfl

theorem length_getAll (state : RouteState) :
    (zcfgFeDalStaticRouteGetAll state).length =
      state.table.rows.countP (fun row => row.2.listed) := by
  rw [zcfgFeDalStaticRouteGetAll, List.length_mapIdx, listedRoutes_eq, List.length_map, listedRules,
    List.countP_eq_length_filter]
  rfl

theorem mem_table_v4 {state : RouteState} {iid : FwdIid} {rule : V4Fwd} :
    ((.ipv4, iid), .v4 rule) ∈ state.table.rows ↔ (iid, rule) ∈ state.v4.rows := by
  change _ ∈ state.rows ↔ _
  simp [RouteState.rows]

theorem mem_table_v6 {state : RouteState} {iid : FwdIid} {rule : V6Fwd} :
    ((.ipv6, iid), .v6 rule) ∈ state.table.rows ↔ (iid, rule) ∈ state.v6.rows := by
  change _ ∈ state.rows ↔ _
  simp [RouteState.rows]

/-- Setting a route sets it in the one table. -/
theorem table_set_v4 (state : RouteState) (iid : FwdIid) (rule : V4Fwd) :
    (state.call (.set (.ipv4, iid) (.v4 rule))).table = state.table.put (.ipv4, iid) (.v4 rule) := by
  apply KeyedTable.ext
  change (state.v4.rows.map _).map _ ++ state.v6.rows.map _ = (_ ++ _ : List _).map _
  rw [List.map_append, List.map_map, List.map_map, List.map_map]
  congr 1
  apply List.map_congr_left
  intro row _
  by_cases hiid : row.1 = iid
  · simp [hiid]
  · simp [hiid]

theorem table_set_v6 (state : RouteState) (iid : FwdIid) (rule : V6Fwd) :
    (state.call (.set (.ipv6, iid) (.v6 rule))).table = state.table.put (.ipv6, iid) (.v6 rule) := by
  apply KeyedTable.ext
  change state.v4.rows.map _ ++ (state.v6.rows.map _).map _ = (_ ++ _ : List _).map _
  rw [List.map_append, List.map_map, List.map_map, List.map_map]
  congr 1
  apply List.map_congr_left
  intro row _
  by_cases hiid : row.1 = iid
  · simp [hiid]
  · simp [hiid]

theorem table_del (state : RouteState) (iid : RouteIid) :
    (state.call (.del iid)).table = state.table.del iid := by
  apply KeyedTable.ext
  obtain ⟨ipver, iid⟩ := iid
  cases ipver with
  | ipv4 =>
      change (state.v4.rows.filter _).map _ ++ state.v6.rows.map _ = (_ ++ _ : List _).filter _
      rw [List.filter_append, List.filter_map, List.filter_map]
      simp [Function.comp_def]
  | ipv6 =>
      change state.v4.rows.map _ ++ (state.v6.rows.filter _).map _ = (_ ++ _ : List _).filter _
      rw [List.filter_append, List.filter_map, List.filter_map]
      simp [Function.comp_def]

/-! ## The comparison with the list -/

theorem allEqual_three {a b c : List Char} {x y z : List Char} :
    allEqual [(some a, x), (some b, y), (some c, z)] = some (decide (a = x ∧ b = y ∧ c = z)) := by
  by_cases ha : a = x
  · by_cases hb : b = y
    · by_cases hc : c = z
      · simp [allEqual, ha, hb, hc]
      · simp [allEqual, ha, hb, hc]
    · simp [allEqual, ha, hb]
  · simp [allEqual, ha]

/-- What passes the comparison with the list. -/
theorem scanListed_passed_iff {req : RoutePost} {reply : DalReply} :
    ∀ {rules : List FwdRule}, scanListed req reply rules = some (.ok ()) ↔
      ∀ rule ∈ rules, req.name ≠ rule.name ∧ sameDestination req rule = some false := by
  intro rules
  induction rules with
  | nil => simp [scanListed]
  | cons rule rest ih =>
      rw [scanListed, List.forall_mem_cons]
      by_cases hname : req.name = rule.name
      · simp [hname]
      · rw [if_neg hname]
        cases hsame : sameDestination req rule with
        | none => simp
        | some same =>
            cases same with
            | true => simp
            | false => simp [hname, ih]

/-! ## Routes in order -/

/-- Two listed routes have different names. -/
def NamesDiffer (a b : FwdRule) : Prop :=
  a.listed = true → b.listed = true → a.name ≠ b.name

/-- Two routes of one IP version with the same interface and destination; with the same next hop for
IPv6. -/
def SameDestination : FwdRule → FwdRule → Prop
  | .v4 a, .v4 b =>
      a.interface = b.interface ∧ a.destIPAddress = b.destIPAddress ∧
        a.destSubnetMask = b.destSubnetMask
  | .v6 a, .v6 b =>
      a.interface = b.interface ∧ a.destIPPrefix = b.destIPPrefix ∧ a.nextHop = b.nextHop
  | _, _ => False

/-- Two listed routes have different destinations. -/
def DestinationsDiffer (a b : FwdRule) : Prop :=
  a.listed = true → b.listed = true → ¬ SameDestination a b

/-- Not too many routes are listed, with different names and destinations. -/
structure RoutesInOrder (state : RouteState) : Prop where
  count : (zcfgFeDalStaticRouteGetAll state).length ≤ maxStaticRoute
  names : state.table.AllPairs NamesDiffer
  destinations : state.table.AllPairs DestinationsDiffer

theorem NamesDiffer.symm {a b : FwdRule} (h : NamesDiffer a b) : NamesDiffer b a :=
  fun hb ha heq => h ha hb heq.symm

theorem SameDestination.symm {a b : FwdRule} (h : SameDestination a b) : SameDestination b a := by
  cases a with
  | v4 a =>
      cases b with
      | v4 b => exact ⟨h.1.symm, h.2.1.symm, h.2.2.symm⟩
      | v6 b => exact h.elim
  | v6 a =>
      cases b with
      | v4 b => exact h.elim
      | v6 b => exact ⟨h.1.symm, h.2.1.symm, h.2.2.symm⟩

theorem DestinationsDiffer.symm {a b : FwdRule} (h : DestinationsDiffer a b) :
    DestinationsDiffer b a :=
  fun hb ha hsame => h ha hb hsame.symm

/-- A route that is stored over another one: if it is listed there was room for it, and it differs from
the others. -/
theorem inOrder_put_iff {state state' : RouteState} (h : RoutesInOrder state) {iid : RouteIid}
    {old rule : FwdRule} (hold : (iid, old) ∈ state.table.rows)
    (htable : state'.table = state.table.put iid rule) :
    RoutesInOrder state' ↔
      (rule.listed = true →
        old.listed = true ∨ (zcfgFeDalStaticRouteGetAll state).length < maxStaticRoute) ∧
      ∀ row ∈ state.table.rows, row.1 ≠ iid → NamesDiffer rule row.2 ∧ DestinationsDiffer rule row.2 := by
  have hcount := KeyedTable.countP_put hold rule FwdRule.listed
  have hmax := h.count
  rw [length_getAll] at hmax ⊢
  have hroom : (zcfgFeDalStaticRouteGetAll state').length ≤ maxStaticRoute ↔
      (rule.listed = true → old.listed = true ∨
        state.table.rows.countP (fun row => row.2.listed) < maxStaticRoute) := by
    rw [length_getAll, htable]
    cases hrule : rule.listed with
    | false =>
        simp only [hrule, Bool.false_eq_true, if_false] at hcount
        simp only [Bool.false_eq_true, false_implies, iff_true]
        omega
    | true =>
        cases hlisted : old.listed with
        | false =>
            simp only [hrule, hlisted, Bool.false_eq_true, if_false, if_true] at hcount
            simp only [Bool.false_eq_true, false_or, true_implies]
            omega
        | true =>
            simp only [hrule, hlisted, if_true] at hcount
            simp only [true_or, implies_true, iff_true]
            omega
  have hnames := KeyedTable.allPairs_put_iff (a := rule) h.names (fun _ _ => NamesDiffer.symm) hold
  have hdests := KeyedTable.allPairs_put_iff (a := rule) h.destinations
    (fun _ _ => DestinationsDiffer.symm) hold
  rw [← hroom]
  constructor
  · intro h'
    refine ⟨h'.count, fun row hrow hne => ⟨?_, ?_⟩⟩
    · exact hnames.mp (htable ▸ h'.names) row hrow hne
    · exact hdests.mp (htable ▸ h'.destinations) row hrow hne
  · rintro ⟨hcount', hrows⟩
    refine ⟨hcount', ?_, ?_⟩
    · rw [htable]
      exact hnames.mpr (fun row hrow hne => (hrows row hrow hne).1)
    · rw [htable]
      exact hdests.mpr (fun row hrow hne => (hrows row hrow hne).2)

/-- A new route: it differs from the others. -/
theorem inOrder_add_iff {state state' : RouteState} (h : RoutesInOrder state) {iid : RouteIid}
    {rule : FwdRule} (hfresh : iid ∉ state.table.rows.map Prod.fst)
    (hrows : state'.table.rows.Perm (state.table.add iid rule hfresh).rows)
    (hroom : (zcfgFeDalStaticRouteGetAll state).length < maxStaticRoute) :
    RoutesInOrder state' ↔
      ∀ row ∈ state.table.rows, NamesDiffer rule row.2 ∧ DestinationsDiffer rule row.2 := by
  have hcount : (zcfgFeDalStaticRouteGetAll state').length ≤ maxStaticRoute := by
    rw [length_getAll] at hroom ⊢
    rw [hrows.countP_eq]
    change (state.table.rows ++ [(iid, rule)]).countP _ ≤ _
    have hone : [(iid, rule)].countP (fun row => row.2.listed) ≤ 1 := List.countP_le_length
    rw [List.countP_append]
    omega
  have hmem : ∀ row, row ∈ state'.table.rows ↔ row ∈ (state.table.add iid rule hfresh).rows :=
    fun _ => hrows.mem_iff
  have hnames := (KeyedTable.AllPairs.congr hmem).trans
    (KeyedTable.allPairs_add_iff h.names (fun _ _ => NamesDiffer.symm) hfresh)
  have hdests := (KeyedTable.AllPairs.congr hmem).trans
    (KeyedTable.allPairs_add_iff h.destinations (fun _ _ => DestinationsDiffer.symm) hfresh)
  constructor
  · intro h' row hrow
    exact ⟨hnames.mp h'.names row hrow, hdests.mp h'.destinations row hrow⟩
  · intro hall
    exact ⟨hcount, hnames.mpr (fun row hrow => (hall row hrow).1),
      hdests.mpr (fun row hrow => (hall row hrow).2)⟩

theorem inOrder_del {state : RouteState} (h : RoutesInOrder state) (iid : RouteIid) :
    RoutesInOrder (state.call (.del iid)) := by
  refine ⟨?_, ?_, ?_⟩
  · have hmax := h.count
    have hle := KeyedTable.countP_del_le (t := state.table) (k := iid) (fun row => row.2.listed)
    rw [length_getAll] at hmax ⊢
    rw [table_del]
    omega
  · rw [table_del]
    exact h.names.del iid
  · rw [table_del]
    exact h.destinations.del iid

end FeDal
end ZyxelRouter
