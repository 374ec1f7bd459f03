import ZyxelRouter.FeDal.StaticRouteAdd

/-!
# Runs of requests for static routes

Which requests keep the listed routes in order.

Main results:

- Theorem {lit}`post_inOrder_iff`, {lit}`put_inOrder_iff`: when one request does.
- Theorem {lit}`staticRoute_run_iff`: when all requests of a run do.
-/

namespace ZyxelRouter
namespace FeDal

open Lib

/-! ## New routes -/

/-- All fields of the IP version are there. -/
def RoutePost.Complete (req : RoutePost) : Prop :=
  match req.ipver with
  | .ipv4 =>
      req.destIPAddress.isSome = true ∧ req.destSubnetMask.isSome = true ∧
        req.gatewayIPAddress.isSome = true
  | .ipv6 => req.destIPPrefix.isSome = true ∧ req.nextHop.isSome = true

/-- The checks of {lit}`zcfgFeDalStaticRouteAdd` in front of the addition. -/
structure PassesList (state : RouteState) (req : RoutePost) : Prop where
  room : (zcfgFeDalStaticRouteGetAll state).length < maxStaticRoute
  scan : scanListed req .empty ((listedRules state).map Prod.snd) = some (.ok ())

/-- The condition on a {lit}`POST` request: if it adds an IPv6 route whose next hop is not used, then no
listed route with an empty next hop has its interface and prefix. -/
def PostFits (store : RouteStore) (state : RouteState) (req : RoutePost) : Prop :=
  req.ipver = .ipv6 → req.useGateIpAddr = false → PassesList state req →
    (∃ n, store.v6.newInstance state.v6 firstRouter = .ok n) →
    store.v6.initial.origin = "Static".toList → req.name ≠ [] → req.destIPPrefix ≠ some [] →
    ∀ iid old, (iid, .v6 old) ∈ listedRules state →
      ¬ (old.interface = req.interface ∧ some old.destIPPrefix = req.destIPPrefix ∧ old.nextHop = [])

theorem mem_listedRules {state : RouteState} {row : RouteIid × FwdRule} :
    row ∈ listedRules state ↔ row ∈ state.table.rows ∧ row.2.listed = true :=
  List.mem_filter

theorem passesList_iff {state : RouteState} {req : RoutePost} :
    PassesList state req ↔
      (zcfgFeDalStaticRouteGetAll state).length < maxStaticRoute ∧
      ∀ row ∈ state.table.rows, row.2.listed = true →
        req.name ≠ row.2.name ∧ sameDestination req row.2 = some false := by
  have hscan : scanListed req .empty ((listedRules state).map Prod.snd) = some (.ok ()) ↔
      ∀ rule ∈ (listedRules state).map Prod.snd,
        req.name ≠ rule.name ∧ sameDestination req rule = some false := scanListed_passed_iff
  constructor
  · rintro ⟨hroom, hpass⟩
    refine ⟨hroom, fun row hrow hlisted => ?_⟩
    exact hscan.mp hpass row.2 (List.mem_map_of_mem (mem_listedRules.mpr ⟨hrow, hlisted⟩))
  · rintro ⟨hroom, hall⟩
    refine ⟨hroom, hscan.mpr ?_⟩
    intro rule hrule
    obtain ⟨row, hrow, rfl⟩ := List.mem_map.mp hrule
    exact hall row (mem_listedRules.mp hrow).1 (mem_listedRules.mp hrow).2

/-- An addition under the first router, if no call fails but the addition of the instance. -/
theorem addRoute_succeed {R : Type} (store : ChildStore R) (table : KeyedTable FwdIid R) (rule : R)
    (reply : DalReply) :
    (∃ failed, store.newInstance table firstRouter = .error failed ∧
      addRoute store .succeed table (some rule) reply = some (.noSuchObject, reply, table)) ∨
    ∃ n, ∃ h : store.newInstance table firstRouter = .ok n,
      addRoute store .succeed table (some rule) reply =
        some (.success, reply,
          table.add (firstRouter, n) rule (store.fresh table firstRouter n h)) := by
  unfold addRoute
  split
  · rename_i failed hnew
    exact Or.inl ⟨failed, hnew, rfl⟩
  · rename_i n hnew
    refine Or.inr ⟨n, hnew, ?_⟩
    rw [if_neg (by simp [StoreResults.succeed])]
    simp only [StoreResults.set_of_success (show StoreResults.succeed.set = .success from rfl),
      KeyedTable.put_add]

theorem addedV4_complete (initial : V4Fwd) {req : RoutePost} (hver : req.ipver = .ipv4)
    (hcomplete : req.Complete) :
    ∃ rule, addedV4 initial req = some rule ∧ rule.aliasName = req.name ∧
      rule.interface = req.interface ∧ some rule.destIPAddress = req.destIPAddress ∧
      some rule.destSubnetMask = req.destSubnetMask := by
  rw [RoutePost.Complete, hver] at hcomplete
  obtain ⟨haddress, hmask, hgateway⟩ := hcomplete
  obtain ⟨address, haddress⟩ := Option.isSome_iff_exists.mp haddress
  obtain ⟨mask, hmask⟩ := Option.isSome_iff_exists.mp hmask
  obtain ⟨gateway, hgateway⟩ := Option.isSome_iff_exists.mp hgateway
  cases huse : req.useGateIpAddr with
  | true => simp [addedV4, usedAddress, haddress, hmask, hgateway, huse]
  | false => simp [addedV4, usedAddress, haddress, hmask, huse]

theorem addedV6_complete (initial : V6Fwd) {req : RoutePost} (hver : req.ipver = .ipv6)
    (hcomplete : req.Complete) :
    ∃ rule, addedV6 initial req = some rule ∧ rule.aliasName = req.name ∧
      rule.interface = req.interface ∧ some rule.destIPPrefix = req.destIPPrefix ∧
      some rule.nextHop = (if req.useGateIpAddr then req.nextHop else some []) ∧
      rule.origin = initial.origin := by
  rw [RoutePost.Complete, hver] at hcomplete
  obtain ⟨hdest, hhop⟩ := hcomplete
  obtain ⟨destPrefix, hdest⟩ := Option.isSome_iff_exists.mp hdest
  obtain ⟨hop, hhop⟩ := Option.isSome_iff_exists.mp hhop
  cases huse : req.useGateIpAddr with
  | true => simp [addedV6, usedAddress, hdest, hhop, huse]
  | false => simp [addedV6, usedAddress, hdest, huse]

/-- The rows of the one table behind an addition. -/
theorem addedV4_rows {state : RouteState} {iid : FwdIid} {rule : V4Fwd}
    (hfresh : iid ∉ state.v4.rows.map Prod.fst)
    (hfresh' : (IpVersion.ipv4, iid) ∉ state.table.rows.map Prod.fst) :
    ({ state with v4 := state.v4.add iid rule hfresh } : RouteState).table.rows.Perm
      (state.table.add (.ipv4, iid) (.v4 rule) hfresh').rows := by
  change ((state.v4.rows ++ [(iid, rule)]).map _ ++ state.v6.rows.map _).Perm ((_ ++ _) ++ [_])
  rw [List.map_append, List.append_assoc, List.append_assoc]
  exact List.Perm.append_left _ List.perm_append_comm

theorem addedV6_rows {state : RouteState} {iid : FwdIid} {rule : V6Fwd}
    (hfresh : iid ∉ state.v6.rows.map Prod.fst)
    (hfresh' : (IpVersion.ipv6, iid) ∉ state.table.rows.map Prod.fst) :
    ({ state with v6 := state.v6.add iid rule hfresh } : RouteState).table.rows.Perm
      (state.table.add (.ipv6, iid) (.v6 rule) hfresh').rows := by
  change (state.v4.rows.map _ ++ (state.v6.rows ++ [(iid, rule)]).map _).Perm ((_ ++ _) ++ [_])
  rw [List.map_append, List.append_assoc]
  exact List.Perm.refl _

theorem fresh_v4 {state : RouteState} {iid : FwdIid} (hfresh : iid ∉ state.v4.rows.map Prod.fst) :
    (IpVersion.ipv4, iid) ∉ state.table.rows.map Prod.fst := by
  change _ ∉ state.rows.map Prod.fst
  simpa [RouteState.rows] using hfresh

theorem fresh_v6 {state : RouteState} {iid : FwdIid} (hfresh : iid ∉ state.v6.rows.map Prod.fst) :
    (IpVersion.ipv6, iid) ∉ state.table.rows.map Prod.fst := by
  change _ ∉ state.rows.map Prod.fst
  simpa [RouteState.rows] using hfresh

/-- A request that does not pass the checks changes nothing. -/
theorem post_rejected {store : RouteStore} {state : RouteState} {req : RoutePost}
    (h : ¬ PassesList state req) : routeNext store state (.post req) = state := by
  rw [routeNext, zcfgFeDalStaticRouteAdd]
  by_cases hroom : (zcfgFeDalStaticRouteGetAll state).length < maxStaticRoute
  · rw [if_neg (by omega)]
    cases hscan : scanListed req .empty ((listedRules state).map Prod.snd) with
    | none => rfl
    | some result =>
        cases result with
        | error failed => rfl
        | ok passed => exact absurd ⟨hroom, hscan⟩ h
  · rw [if_pos (by omega)]

/-- A new IPv4 route has been compared as it is stored. -/
theorem passed_v4_apart {state : RouteState} {req : RoutePost} {rule : V4Fwd}
    (hpass : PassesList state req) (hver : req.ipver = .ipv4) (hname : rule.aliasName = req.name)
    (hinterface : rule.interface = req.interface)
    (haddress : some rule.destIPAddress = req.destIPAddress)
    (hmask : some rule.destSubnetMask = req.destSubnetMask) :
    ∀ row ∈ state.table.rows, NamesDiffer (.v4 rule) row.2 ∧ DestinationsDiffer (.v4 rule) row.2 := by
  rintro ⟨iid, other⟩ hrow
  have hcheck := (passesList_iff.mp hpass).2 (iid, other) hrow
  constructor
  · intro _ hlisted
    change rule.aliasName ≠ other.name
    rw [hname]
    exact (hcheck hlisted).1
  · intro _ hlisted
    have hsame := (hcheck hlisted).2
    cases other with
    | v6 old => exact id
    | v4 old =>
        simp only [sameDestination, hver, ← hinterface, ← haddress, ← hmask] at hsame
        simp only [allEqual_three, Option.some.injEq, decide_eq_false_iff_not] at hsame
        exact hsame

/-- A new IPv6 route has been compared with the next hop of the request. -/
theorem passed_v6_apart_iff {state : RouteState} {req : RoutePost} {rule : V6Fwd}
    (hpass : PassesList state req) (hver : req.ipver = .ipv6)
    (hname : rule.aliasName = req.name) (hinterface : rule.interface = req.interface)
    (hdest : some rule.destIPPrefix = req.destIPPrefix)
    (hhop : some rule.nextHop = if req.useGateIpAddr then req.nextHop else some []) :
    (∀ row ∈ state.table.rows, NamesDiffer (.v6 rule) row.2 ∧ DestinationsDiffer (.v6 rule) row.2) ↔
      (req.useGateIpAddr = false → FwdRule.listed (.v6 rule) = true →
        ∀ iid old, (iid, .v6 old) ∈ listedRules state →
          ¬ (old.interface = req.interface ∧ some old.destIPPrefix = req.destIPPrefix ∧
            old.nextHop = [])) := by
  have hcheck := (passesList_iff.mp hpass).2
  constructor
  · rintro hall huse hlisted iid old hold ⟨hsame₁, hsame₂, hsame₃⟩
    obtain ⟨hrow, hother⟩ := mem_listedRules.mp hold
    have hempty : rule.nextHop = [] := by simpa [huse] using hhop
    refine (hall _ hrow).2 hlisted hother ⟨hinterface.trans hsame₁.symm, ?_, ?_⟩
    · exact Option.some.inj (hdest.trans hsame₂.symm)
    · exact hempty.trans hsame₃.symm
  · rintro hfits ⟨iid, other⟩ hrow
    constructor
    · intro _ hother
      change rule.aliasName ≠ other.name
      rw [hname]
      exact (hcheck _ hrow hother).1
    · intro hlisted hother
      cases other with
      | v4 old => exact id
      | v6 old =>
          rintro ⟨hsame₁, hsame₂, hsame₃⟩
          cases huse : req.useGateIpAddr with
          | false =>
              have hempty : rule.nextHop = [] := by simpa [huse] using hhop
              refine hfits huse hlisted iid old (mem_listedRules.mpr ⟨hrow, hother⟩) ⟨?_, ?_, ?_⟩
              · exact hsame₁.symm.trans hinterface
              · rw [← hsame₂]
                exact hdest
              · exact hsame₃.symm.trans hempty
          | true =>
              have hused : some rule.nextHop = req.nextHop := by simpa [huse] using hhop
              have hsame := (hcheck _ hrow hother).2
              simp only [sameDestination, hver, ← hinterface, ← hdest, ← hused] at hsame
              simp only [allEqual_three, Option.some.injEq, decide_eq_false_iff_not] at hsame
              exact hsame ⟨hsame₁, hsame₂, hsame₃⟩

/-- A complete {lit}`POST` request keeps the routes in order exactly under the condition. -/
theorem post_inOrder_iff {store : RouteStore} {state : RouteState} {req : RoutePost}
    (h : RoutesInOrder state) (hcomplete : req.Complete) :
    RoutesInOrder (routeNext store state (.post req)) ↔ PostFits store state req := by
  by_cases hpass : PassesList state req
  swap
  · rw [post_rejected hpass]
    exact iff_of_true h (fun _ _ hpassed => absurd hpassed hpass)
  have hroom := hpass.room
  rw [routeNext, zcfgFeDalStaticRouteAdd, if_neg (by omega), hpass.scan]
  cases hver : req.ipver with
  | ipv4 =>
      have hfits : PostFits store state req := fun hv6 => absurd (hver.symm.trans hv6) (by simp)
      obtain ⟨rule, hrule, hname, hinterface, haddress, hmask⟩ :=
        addedV4_complete store.v4.initial hver hcomplete
      rcases addRoute_succeed store.v4 state.v4 rule .empty with ⟨failed, -, hadd⟩ | ⟨n, hnew, hadd⟩
      · simp only [hrule, hadd, Option.map_some]
        exact iff_of_true h hfits
      · have hfresh := store.v4.fresh state.v4 firstRouter n hnew
        simp only [hrule, hadd, Option.map_some]
        refine iff_of_true ?_ hfits
        rw [inOrder_add_iff h (fresh_v4 hfresh) (addedV4_rows hfresh (fresh_v4 hfresh)) hroom]
        exact passed_v4_apart hpass hver hname hinterface haddress hmask
  | ipv6 =>
      obtain ⟨rule, hrule, hname, hinterface, hdest, hhop, horigin⟩ :=
        addedV6_complete store.v6.initial hver hcomplete
      rcases addRoute_succeed store.v6 state.v6 rule .empty with ⟨failed, hnew, hadd⟩ | ⟨n, hnew, hadd⟩
      · simp only [hrule, hadd, Option.map_some]
        refine iff_of_true h ?_
        rintro - - - ⟨n, hn⟩
        exact absurd (hnew.symm.trans hn) (by simp)
      · have hfresh := store.v6.fresh state.v6 firstRouter n hnew
        simp only [hrule, hadd, Option.map_some]
        rw [inOrder_add_iff h (fresh_v6 hfresh) (addedV6_rows hfresh (fresh_v6 hfresh)) hroom,
          passed_v6_apart_iff hpass hver hname hinterface hdest hhop]
        have hlisted : FwdRule.listed (.v6 rule) = true ↔
            store.v6.initial.origin = "Static".toList ∧ req.name ≠ [] ∧ req.destIPPrefix ≠ some [] := by
          rw [← hdest, ← horigin, ← hname]
          simp only [FwdRule.listed, Bool.and_eq_true, decide_eq_true_eq, ne_eq, Option.some.injEq,
            and_assoc]
        rw [hlisted]
        constructor
        · intro hall _ huse _ _ horig hne hpre
          exact hall huse ⟨horig, hne, hpre⟩
        · rintro hfits huse ⟨horig, hne, hpre⟩
          exact hfits hver huse hpass ⟨n, hnew⟩ horig hne hpre

/-! ## Edited routes -/

/-- The route that a {lit}`PUT` request for a listed route meets in the first router, and what is stored
there: the fields of the request over those of the route. -/
def storedRoute (state : RouteState) (req : RoutePut) : RouteIid → Option (FwdRule × FwdRule)
  | (.ipv4, iid) =>
      (state.v4.get (firstRouter, iid.2)).map (fun old => (.v4 old, .v4 (storedV4 req old)))
  | (.ipv6, iid) =>
      (state.v6.get (firstRouter, iid.2)).bind
        (fun old => (storedV6 req old).map (fun rule => (.v6 old, .v6 rule)))

/-- The number of an instance in the first router. -/
def inFirstRouter (iid : RouteIid) : RouteIid := (iid.1, firstRouter, iid.2.2)

/-- The condition on a route that is stored: no other listed route has its destination; and if the listed
route is one of another router, so that its namesake in the first router is stored over, then that one
was listed or there is room, and no other listed route has the name. -/
structure StoredFits (state : RouteState) (iid : RouteIid) (old rule : FwdRule) : Prop where
  destination : ∀ row ∈ listedRules state, row.1 ≠ inFirstRouter iid → ¬ SameDestination rule row.2
  room : iid ≠ inFirstRouter iid →
    old.listed = true ∨ (zcfgFeDalStaticRouteGetAll state).length < maxStaticRoute
  name : iid ≠ inFirstRouter iid →
    ∀ row ∈ listedRules state, row.1 ≠ inFirstRouter iid → rule.name ≠ row.2.name

/-- The condition on a {lit}`PUT` request: an entry of the list rejects it, or the route that is stored is not
listed, or it fits. -/
def PutFits (state : RouteState) (req : RoutePut) : Prop :=
  (∃ entry ∈ zcfgFeDalStaticRouteGetAll state, Rejects req entry) ∨
    ∀ iid, listedRoute state req.index = some iid →
      ∀ old rule, storedRoute state req iid = some (old, rule) → rule.listed = true →
        StoredFits state iid old rule

/-- A request that an entry rejects, or without a listed route, changes nothing. -/
theorem put_rejected {store : RouteStore} {state : RouteState} {req : RoutePut}
    (h : (∃ entry ∈ zcfgFeDalStaticRouteGetAll state, Rejects req entry) ∨
      listedRoute state req.index = none) :
    routeNext store state (.put req) = state := by
  by_cases hreject : ∃ entry ∈ zcfgFeDalStaticRouteGetAll state, Rejects req entry
  · obtain ⟨reply, hscan⟩ : ∃ reply, scanEntries req .empty (zcfgFeDalStaticRouteGetAll state) none =
        .error (.invalidParamValue, reply) := scanEntries_rejected _ none hreject
    rw [routeNext, zcfgFeDalStaticRouteEdit, hscan]
    rfl
  · have hpass : ∀ entry ∈ zcfgFeDalStaticRouteGetAll state, ¬ Rejects req entry :=
      fun entry hentry hrejects => hreject ⟨entry, hentry, hrejects⟩
    rw [routeNext, routeEdit_unlisted hpass (h.resolve_left hreject)]

/-- A request for a listed route sets the stored route. -/
theorem put_listed (store : RouteStore) {state : RouteState} {req : RoutePut} {iid : RouteIid}
    (hpass : ∀ entry ∈ zcfgFeDalStaticRouteGetAll state, ¬ Rejects req entry)
    (hlisted : listedRoute state req.index = some iid) :
    (storedRoute state req iid = none ∧ routeNext store state (.put req) = state) ∨
    ∃ old rule, storedRoute state req iid = some (old, rule) ∧
      (inFirstRouter iid, old) ∈ state.table.rows ∧
      (routeNext store state (.put req)).table = state.table.put (inFirstRouter iid) rule := by
  obtain ⟨ipver, iid⟩ := iid
  rw [routeNext, routeEdit_listed hpass hlisted]
  cases ipver with
  | ipv4 =>
      rw [storeRoute, storedRoute]
      cases hget : state.v4.get (firstRouter, iid.2) with
      | none => exact Or.inl ⟨rfl, rfl⟩
      | some old =>
          refine Or.inr ⟨.v4 old, .v4 (storedV4 req old), rfl, ?_, ?_⟩
          · exact mem_table_v4.mpr (KeyedTable.get_eq_some_iff.mp hget)
          · exact table_set_v4 state (firstRouter, iid.2) (storedV4 req old)
  | ipv6 =>
      rw [storeRoute, storedRoute]
      cases hget : state.v6.get (firstRouter, iid.2) with
      | none => exact Or.inl ⟨rfl, rfl⟩
      | some old =>
          cases hrule : storedV6 req old with
          | none => exact Or.inl ⟨by simp [hrule], by simp [hrule]⟩
          | some rule =>
              refine Or.inr ⟨.v6 old, .v6 rule, by simp [hrule], ?_, ?_⟩
              · exact mem_table_v6.mpr (KeyedTable.get_eq_some_iff.mp hget)
              · simp only [hrule, Option.map_some]
                exact table_set_v6 state (firstRouter, iid.2) rule

/-- The listed route is the one of the list. -/
theorem listedRoute_mem {state : RouteState} {index : Int} {iid : RouteIid}
    (h : listedRoute state index = some iid) : ∃ rule, (iid, rule) ∈ listedRules state := by
  obtain ⟨route, hroute, rfl⟩ := Option.map_eq_some_iff.mp h
  unfold atIndex at hroute
  split at hroute
  · exact absurd hroute (by simp)
  · have hmem := List.mem_of_getElem? hroute
    rw [listedRoutes_eq] at hmem
    obtain ⟨row, hrow, rfl⟩ := List.mem_map.mp hmem
    exact ⟨row.2, hrow⟩

/-- Another listed route has an entry with another number. -/
theorem entry_of_other {state : RouteState} {index : Int} {iid : RouteIid}
    (h : listedRoute state index = some iid) {row : RouteIid × FwdRule}
    (hrow : row ∈ listedRules state) (hne : row.1 ≠ iid) :
    ∃ entry ∈ zcfgFeDalStaticRouteGetAll state, entry.name = row.2.name ∧ index ≠ entry.index := by
  have hmem : (row.1, row.2.name) ∈ listedRoutes state := by
    rw [listedRoutes_eq]
    exact List.mem_map_of_mem hrow
  obtain ⟨n, hn, hget⟩ := List.getElem_of_mem hmem
  refine ⟨_, List.mem_mapIdx.mpr ⟨n, hn, rfl⟩, by rw [hget], ?_⟩
  rintro rfl
  have hlist : listedRoute state ((n : Int) + 1) = some row.1 := by
    rw [listedRoute, atIndex, if_neg (by omega)]
    have hindex : ((n : Int) + 1 - 1).toNat = n := by omega
    rw [hindex, List.getElem?_eq_getElem hn, hget]
    rfl
  exact hne (Option.some.inj (hlist.symm.trans h))

theorem storedRoute_name {state : RouteState} {req : RoutePut} {iid : RouteIid} {old rule : FwdRule}
    (h : storedRoute state req iid = some (old, rule)) : rule.name = req.name.getD old.name := by
  obtain ⟨ipver, iid⟩ := iid
  cases ipver with
  | ipv4 =>
      obtain ⟨v4, -, heq⟩ := Option.map_eq_some_iff.mp h
      obtain ⟨rfl, rfl⟩ := Prod.mk.inj heq
      rw [storedV4]
      split
      · rfl
      · rfl
  | ipv6 =>
      obtain ⟨v6, -, heq⟩ := Option.bind_eq_some_iff.mp h
      obtain ⟨v6', hstored, heq⟩ := Option.map_eq_some_iff.mp heq
      obtain ⟨rfl, rfl⟩ := Prod.mk.inj heq
      unfold storedV6 at hstored
      split at hstored
      · obtain ⟨hop, -, rfl⟩ := Option.map_eq_some_iff.mp hstored
        rfl
      · obtain rfl := Option.some.inj hstored
        rfl

/-- For a route of the first router the check of the names is enough for the names. -/
theorem name_of_passed {state : RouteState} {req : RoutePut} {iid : RouteIid} {old rule : FwdRule}
    (h : RoutesInOrder state)
    (hpass : ∀ entry ∈ zcfgFeDalStaticRouteGetAll state, ¬ Rejects req entry)
    (hlisted : listedRoute state req.index = some iid)
    (hold : (iid, old) ∈ state.table.rows) (holdListed : old.listed = true)
    (hname : rule.name = req.name.getD old.name) {row : RouteIid × FwdRule}
    (hrow : row ∈ listedRules state) (hne : row.1 ≠ iid) : rule.name ≠ row.2.name := by
  obtain ⟨hmem, hrowListed⟩ := mem_listedRules.mp hrow
  rw [hname]
  cases hreq : req.name with
  | none => exact h.names (iid, old) hold row hmem hne.symm holdListed hrowListed
  | some name =>
      obtain ⟨entry, hentry, hentryName, hindex⟩ := entry_of_other hlisted hrow hne
      intro heq
      apply hpass entry hentry
      rw [Rejects, if_neg hindex, hreq, hentryName, ← heq]
      rfl

/-- A {lit}`PUT` request keeps the routes in order exactly under the condition. -/
theorem put_inOrder_iff {store : RouteStore} {state : RouteState} {req : RoutePut}
    (h : RoutesInOrder state) :
    RoutesInOrder (routeNext store state (.put req)) ↔ PutFits state req := by
  by_cases hreject : ∃ entry ∈ zcfgFeDalStaticRouteGetAll state, Rejects req entry
  · rw [put_rejected (Or.inl hreject)]
    exact iff_of_true h (Or.inl hreject)
  have hpass : ∀ entry ∈ zcfgFeDalStaticRouteGetAll state, ¬ Rejects req entry :=
    fun entry hentry hrejects => hreject ⟨entry, hentry, hrejects⟩
  rw [PutFits, or_iff_right hreject]
  cases hlisted : listedRoute state req.index with
  | none =>
      rw [put_rejected (Or.inr hlisted)]
      exact iff_of_true h (by simp)
  | some iid =>
      simp only [Option.some.injEq, forall_eq']
      rcases put_listed store hpass hlisted with
        ⟨hnone, hsame⟩ | ⟨old, rule, hstored, hold, htable⟩
      · rw [hsame]
        exact iff_of_true h (by simp [hnone])
      · have hone : (∀ old' rule', storedRoute state req iid = some (old', rule') →
            rule'.listed = true → StoredFits state iid old' rule') ↔
            (rule.listed = true → StoredFits state iid old rule) := by
          constructor
          · intro hall
            exact hall old rule hstored
          · intro hfits old' rule' hstored'
            obtain ⟨rfl, rfl⟩ := Prod.mk.inj (Option.some.inj (hstored.symm.trans hstored'))
            exact hfits
        rw [inOrder_put_iff h hold htable, hone]
        constructor
        · rintro ⟨hroom, hapart⟩ hrule
          refine ⟨?_, fun _ => hroom hrule, ?_⟩
          · intro row hrow hne
            obtain ⟨hmem, hrowListed⟩ := mem_listedRules.mp hrow
            exact (hapart row hmem hne).2 hrule hrowListed
          · intro _ row hrow hne
            obtain ⟨hmem, hrowListed⟩ := mem_listedRules.mp hrow
            exact (hapart row hmem hne).1 hrule hrowListed
        · intro hfits
          have hown : iid = inFirstRouter iid → old.listed = true := by
            intro heq
            obtain ⟨old', hold'⟩ := listedRoute_mem hlisted
            obtain ⟨hmem', holdListed⟩ := mem_listedRules.mp hold'
            rw [← heq] at hold
            rw [KeyedTable.eq_of_mem hold hmem']
            exact holdListed
          refine ⟨?_, fun row hmem hne => ⟨?_, ?_⟩⟩
          · intro hrule
            by_cases heq : iid = inFirstRouter iid
            · exact Or.inl (hown heq)
            · exact (hfits hrule).room heq
          · intro hrule hrowListed
            have hrow := mem_listedRules.mpr ⟨hmem, hrowListed⟩
            by_cases heq : iid = inFirstRouter iid
            · have hold' := hold
              rw [← heq] at hold' hne
              exact name_of_passed h hpass hlisted hold' (hown heq) (storedRoute_name hstored) hrow hne
            · exact (hfits hrule).name heq row hrow hne
          · intro hrule hrowListed
            exact (hfits hrule).destination row (mem_listedRules.mpr ⟨hmem, hrowListed⟩) hne

/-! ## Runs -/

/-- The condition on a request. -/
def RouteFits (store : RouteStore) (state : RouteState) : RouteRequest → Prop
  | .post req => PostFits store state req
  | .put req => PutFits state req
  | .delete _ => True

/-- In a {lit}`POST` request all fields of the IP version are there. -/
def RouteRequest.Complete : RouteRequest → Prop
  | .post req => req.Complete
  | .put _ => True
  | .delete _ => True

/-- A {lit}`DELETE` request keeps the routes in order. -/
theorem staticRoute_delete_inOrder {store : RouteStore} {state : RouteState} (h : RoutesInOrder state)
    (index : Int) : RoutesInOrder (routeNext store state (.delete index)) := by
  rw [routeNext, zcfgFeDalStaticRouteDelete]
  cases hfind : (zcfgFeDalStaticRouteGetAll state).find? (fun entry => entry.index = index) with
  | none => exact h
  | some entry =>
      by_cases hhas : state.has (entry.ipver, firstRouter, entry.idx) = true
      · simp only [hhas, if_true]
        exact inOrder_del h (entry.ipver, firstRouter, entry.idx)
      · simp only [hhas]
        exact h

theorem routeStep_inOrder_iff {store : RouteStore} {state : RouteState} {request : RouteRequest}
    (h : RoutesInOrder state) (hcomplete : request.Complete) :
    RoutesInOrder (routeNext store state request) ↔ RouteFits store state request := by
  cases request with
  | post req => exact post_inOrder_iff h hcomplete
  | put req => exact put_inOrder_iff h
  | delete index => exact iff_of_true (staticRoute_delete_inOrder h index) trivial

/-- Requests whose fields are there. -/
abbrev CompleteRequest := { request : RouteRequest // request.Complete }

/-- The routes behind a request whose fields are there. -/
def completeNext (store : RouteStore) (state : RouteState) (request : CompleteRequest) : RouteState :=
  routeNext store state request.val

/-- From routes in order, all requests of a run keep the routes in order exactly if each of them meets the
condition in the state it comes to. -/
theorem staticRoute_run_iff (store : RouteStore) (state : RouteState)
    (requests : List CompleteRequest) (hstart : RoutesInOrder state) :
    EveryStep (completeNext store)
        (fun before request => RoutesInOrder (completeNext store before request)) state requests ↔
      EveryStep (completeNext store) (fun before request => RouteFits store before request.val)
        state requests := by
  apply everyStep_congr (I := RoutesInOrder) _ _ hstart
  · intro before request _ hnext
    exact hnext
  · intro before request h
    exact routeStep_inOrder_iff h request.property

/-- A store whose new routes are static. -/
def staticStore : RouteStore where
  v4 := .firstFree ⟨false, [], true, [], [], [], []⟩
  v6 := .firstFree ⟨false, [], [], [], [], "Static".toList⟩

/-- A request for an IPv4 route to a network behind the interface {lit}`lan`. -/
def postToNetwork (name network : String) : CompleteRequest :=
  ⟨.post
    { name := name.toList
      enable := true
      ipver := .ipv4
      destIPAddress := some network.toList
      destSubnetMask := some "255.255.255.0".toList
      useGateIpAddr := false
      gatewayIPAddress := some []
      destIPPrefix := none
      nextHop := none
      interface := "lan".toList }, ⟨rfl, rfl, rfl⟩⟩

/-- A request that gives a route the network. -/
def putNetwork (index : Int) (name network : String) : CompleteRequest :=
  ⟨.put
    { index := index
      name := some name.toList
      enable := some true
      ipver := some .ipv4
      destIPAddress := some network.toList
      destSubnetMask := some "255.255.255.0".toList
      useGateIpAddr := some false
      gatewayIPAddress := some []
      destIPPrefix := none
      nextHop := none
      interface := some "lan".toList }, trivial⟩

theorem noRoutes_inOrder : RoutesInOrder noRoutes where
  count := by decide
  names := fun row hrow => absurd hrow List.not_mem_nil
  destinations := fun row hrow => absurd hrow List.not_mem_nil

/-- A route is added and deleted. -/
theorem staticRoute_run_small :
    EveryStep (completeNext staticStore)
      (fun before request => RoutesInOrder (completeNext staticStore before request)) noRoutes
      [postToNetwork "a" "10.0.1.0", ⟨.delete 1, trivial⟩] :=
  (staticRoute_run_iff staticStore noRoutes [postToNetwork "a" "10.0.1.0", ⟨.delete 1, trivial⟩]
    noRoutes_inOrder).mpr
    (everyStep_cons.mpr ⟨fun hver => absurd hver (by decide), everyStep_cons.mpr
      ⟨trivial, everyStep_nil⟩⟩)

/-- Two routes to different networks, and the second is edited to have the network of the first. -/
theorem staticRoute_run_fails :
    ¬ ∀ (store : RouteStore) (state : RouteState) (requests : List CompleteRequest),
      RoutesInOrder state →
      EveryStep (completeNext store)
        (fun before request => RoutesInOrder (completeNext store before request)) state requests := by
  intro h
  have hall := h staticStore noRoutes
    [postToNetwork "a" "10.0.1.0", postToNetwork "b" "10.0.2.0", putNetwork 2 "b" "10.0.1.0"]
    noRoutes_inOrder
  have hlast := (everyStep_cons.mp (everyStep_cons.mp (everyStep_cons.mp hall).2).2).1
  have hrows : ∃ a b : V4Fwd, ∃ i j : InstNum, i ≠ j ∧
      (completeNext staticStore (completeNext staticStore (completeNext staticStore noRoutes
        (postToNetwork "a" "10.0.1.0")) (postToNetwork "b" "10.0.2.0"))
        (putNetwork 2 "b" "10.0.1.0")).v4.rows = [((firstRouter, i), a), ((firstRouter, j), b)] ∧
      FwdRule.listed (.v4 a) = true ∧ FwdRule.listed (.v4 b) = true ∧
      a.interface = b.interface ∧ a.destIPAddress = b.destIPAddress ∧
      a.destSubnetMask = b.destSubnetMask := by
    have hne : firstRouter ≠ ⟨2, by decide⟩ :=
      fun heq => absurd (congrArg InstNum.toInt heq) (by decide)
    refine ⟨_, _, firstRouter, ⟨2, by decide⟩, hne, rfl, ?_⟩
    decide +kernel
  obtain ⟨a, b, i, j, hne, hrows, ha, hb, hsame⟩ := hrows
  refine hlast.destinations ((.ipv4, firstRouter, i), .v4 a) ?_ ((.ipv4, firstRouter, j), .v4 b) ?_ ?_
    ha hb hsame
  · exact mem_table_v4.mpr (by rw [hrows]; simp)
  · exact mem_table_v4.mpr (by rw [hrows]; simp)
  · simpa using hne

end FeDal
end ZyxelRouter
