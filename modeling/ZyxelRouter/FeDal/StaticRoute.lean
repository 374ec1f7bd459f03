import ZyxelRouter.FeDal.FirewallAcl

/-!
# Static routes by index

{lit}`zcfgFeDalStaticRoute` lists the static routes of both IP versions with numbers that count up from
1 over the two tables.  {lit}`PUT` and {lit}`DELETE` look the number of a request up in the list.

Main results:

- Theorem {lit}`v4Fields_set_iff`, {lit}`v6Fields_set_iff`: when an edited route has the fields of the request.
- Theorem {lit}`routePut_agrees_iff`, {lit}`routeDelete_agrees_iff`: when a request meets the listed route.
- Theorem {lit}`index_agreement_iff`: the same for firewall rules and routes together.
-/

namespace ZyxelRouter
namespace FeDal

open Lib

/-! ## Routes -/

/-- The parameters of {lit}`RDM_OID_ROUTING_ROUTER_V4_FWD` that are read or written here. -/
structure V4Fwd where
  enable : Bool
  aliasName : List Char
  staticRoute : Bool
  destIPAddress : List Char
  destSubnetMask : List Char
  gatewayIPAddress : List Char
  interface : List Char
deriving DecidableEq

/-- The parameters of {lit}`RDM_OID_ROUTING_ROUTER_V6_FWD` that are read or written here. -/
structure V6Fwd where
  enable : Bool
  aliasName : List Char
  destIPPrefix : List Char
  nextHop : List Char
  interface : List Char
  origin : List Char
deriving DecidableEq

/-- A route of either table. -/
inductive FwdRule where
  | v4 (rule : V4Fwd)
  | v6 (rule : V6Fwd)

/-- The instance of a route in its table: router and number. -/
abbrev FwdIid := InstNum × InstNum

/-- The table and the instance. -/
abbrev RouteIid := IpVersion × FwdIid

/-- The tables in the order of {lit}`zcfgFeObjJsonGetNextWithoutUpdate`. -/
structure RouteState where
  v4 : KeyedTable FwdIid V4Fwd
  v6 : KeyedTable FwdIid V6Fwd

/-- The object of a {lit}`PUT` request. -/
structure RoutePut where
  index : Int
  name : Option (List Char)
  enable : Option Bool
  ipver : Option IpVersion
  destIPAddress : Option (List Char)
  destSubnetMask : Option (List Char)
  useGateIpAddr : Option Bool
  gatewayIPAddress : Option (List Char)
  destIPPrefix : Option (List Char)
  nextHop : Option (List Char)
  interface : Option (List Char)

/-! ## The handler -/

/-- Routes that are listed, without their numbers. -/
def listedRoutes (state : RouteState) : List (RouteIid × List Char) :=
  (state.v4.rows.filter
      (fun row => row.2.staticRoute && row.2.aliasName ≠ [] && row.2.destIPAddress ≠ [])).map
    (fun row => ((.ipv4, row.1), row.2.aliasName)) ++
  (state.v6.rows.filter
      (fun row => row.2.origin = "Static".toList && row.2.aliasName ≠ [] && row.2.destIPPrefix ≠ [])).map
    (fun row => ((.ipv6, row.1), row.2.aliasName))

/-- An entry of the list: {lit}`Index`, {lit}`Name`, {lit}`ipver` and {lit}`idx`; the members that repeat parameters
of the route stand for the route. -/
structure RouteEntry where
  index : Int
  name : List Char
  ipver : IpVersion
  idx : InstNum

/-- {lit}`zcfgFeDalStaticRouteGetAll`. -/
def zcfgFeDalStaticRouteGetAll (state : RouteState) : List RouteEntry :=
  (listedRoutes state).mapIdx
    (fun n route => { index := n + 1, name := route.2, ipver := route.1.1, idx := route.1.2.2 })

/-- The loop of {lit}`zcfgFeDalStaticRouteEdit` over the list. -/
def scanEntries (req : RoutePut) (reply : DalReply) :
    List RouteEntry → Option RouteEntry → Except (ZcfgRet × DalReply) (Option RouteEntry)
  | [], found => .ok found
  | entry :: rest, found =>
      if req.index = entry.index then
        if req.ipver.any (fun iptype => iptype ≠ entry.ipver) then
          .error (.invalidParamValue, reply.cat "The iptype of rule cannot change.")
        else scanEntries req reply rest (some entry)
      else if req.name = some entry.name then
        .error (.invalidParamValue, reply.cat "Name is duplicate.")
      else scanEntries req reply rest found

/-- An IPv4 route for a request with {lit}`ipver`. -/
def editedV4 (req : RoutePut) (old : V4Fwd) : V4Fwd where
  enable := req.enable.getD old.enable
  aliasName := req.name.getD old.aliasName
  staticRoute := old.staticRoute
  destIPAddress := req.destIPAddress.getD old.destIPAddress
  destSubnetMask := req.destSubnetMask.getD old.destSubnetMask
  gatewayIPAddress :=
    match req.useGateIpAddr with
    | some true => req.gatewayIPAddress.getD []
    | some false => []
    | none => req.gatewayIPAddress.getD old.gatewayIPAddress
  interface := req.interface.getD old.interface

/-- {lit}`NextHop` of an IPv6 route for a request with {lit}`ipver`, or {lit}`none` if the null pointer is
copied; without {lit}`UseGateIpAddr` the field {lit}`GatewayIPAddress` decides. -/
def editedNextHop (req : RoutePut) (old : V6Fwd) : Option (List Char) :=
  match req.useGateIpAddr with
  | some true => req.nextHop
  | some false => some []
  | none => if req.gatewayIPAddress.isSome then req.nextHop else some old.nextHop

/-- An IPv6 route for a request with {lit}`ipver`. -/
def editedV6 (req : RoutePut) (old : V6Fwd) (nextHop : List Char) : V6Fwd where
  enable := req.enable.getD old.enable
  aliasName := req.name.getD old.aliasName
  destIPPrefix := req.destIPPrefix.getD old.destIPPrefix
  nextHop := nextHop
  interface := req.interface.getD old.interface
  origin := old.origin

/-- An IPv4 route for a request without {lit}`ipver`. -/
def renamedV4 (req : RoutePut) (old : V4Fwd) : V4Fwd :=
  { old with
    enable := req.enable.getD old.enable
    aliasName := req.name.getD old.aliasName
    interface := req.interface.getD old.interface }

/-- An IPv6 route for a request without {lit}`ipver`. -/
def renamedV6 (req : RoutePut) (old : V6Fwd) : V6Fwd :=
  { old with
    enable := req.enable.getD old.enable
    aliasName := req.name.getD old.aliasName
    interface := req.interface.getD old.interface }

/-- The route that is stored over an IPv4 route. -/
def storedV4 (req : RoutePut) (old : V4Fwd) : V4Fwd :=
  if req.ipver.isSome then editedV4 req old else renamedV4 req old

/-- The route that is stored over an IPv6 route, if no null pointer is copied. -/
def storedV6 (req : RoutePut) (old : V6Fwd) : Option V6Fwd :=
  if req.ipver.isSome then (editedNextHop req old).map (editedV6 req old)
  else some (renamedV6 req old)

/-- The first router. -/
def firstRouter : InstNum := ⟨1, InstNum.one_ne⟩

/-- {lit}`zcfgFeDalStaticRouteEdit` behind the list: the route with a number in the first router is
stored.  An object that is not there cannot be set. -/
def storeRoute (state : RouteState) (req : RoutePut) (reply : DalReply) (ipver : IpVersion)
    (idx : InstNum) : Option (HandlerResult RouteIid FwdRule) :=
  match ipver with
  | .ipv4 =>
      match state.v4.get (firstRouter, idx) with
      | none => some (.noSuchObject, reply, .none)
      | some old => some (.success, reply, .set (.ipv4, firstRouter, idx) (.v4 (storedV4 req old)))
  | .ipv6 =>
      match state.v6.get (firstRouter, idx) with
      | none => some (.noSuchObject, reply, .none)
      | some old =>
          (storedV6 req old).map
            (fun rule => (.success, reply, .set (.ipv6, firstRouter, idx) (.v6 rule)))

/-- {lit}`zcfgFeDalStaticRouteEdit`, or {lit}`none` if it reads a null pointer. -/
def zcfgFeDalStaticRouteEdit (state : RouteState) (req : RoutePut) (reply : DalReply) :
    Option (HandlerResult RouteIid FwdRule) :=
  match scanEntries req reply (zcfgFeDalStaticRouteGetAll state) none with
  | .error (ret, reply) => some (ret, reply, .none)
  | .ok none => none
  | .ok (some entry) => storeRoute state req reply (req.ipver.getD entry.ipver) entry.idx

/-- Whether the store has an instance. -/
def RouteState.has (state : RouteState) : RouteIid → Bool
  | (.ipv4, iid) => (state.v4.get iid).isSome
  | (.ipv6, iid) => (state.v6.get iid).isSome

/-- {lit}`zcfgFeDalStaticRouteDelete`, or {lit}`none` if it reads a null pointer. -/
def zcfgFeDalStaticRouteDelete (state : RouteState) (index : Int) (reply : DalReply) :
    Option (HandlerResult RouteIid FwdRule) :=
  match (zcfgFeDalStaticRouteGetAll state).find? (fun entry => entry.index = index) with
  | none => none
  | some entry =>
      if state.has (entry.ipver, firstRouter, entry.idx) then
        some (.success, reply, .del (entry.ipver, firstRouter, entry.idx))
      else some (.noSuchObject, reply, .none)

/-! ## What a request stands for -/

/-- An IPv4 route has the fields of a request.  A gateway that is not to be used is empty. -/
structure V4FieldsSet (req : RoutePut) (rule : V4Fwd) : Prop where
  name : ∀ t, req.name = some t → rule.aliasName = t
  enable : ∀ b, req.enable = some b → rule.enable = b
  interface : ∀ t, req.interface = some t → rule.interface = t
  destIPAddress : ∀ t, req.destIPAddress = some t → rule.destIPAddress = t
  destSubnetMask : ∀ t, req.destSubnetMask = some t → rule.destSubnetMask = t
  unused : req.useGateIpAddr = some false → rule.gatewayIPAddress = []
  gateway : ∀ t, req.gatewayIPAddress = some t → req.useGateIpAddr ≠ some false →
    rule.gatewayIPAddress = t
  noPrefix : req.destIPPrefix = none
  noNextHop : req.nextHop = none

/-- An IPv6 route has the fields of a request. -/
structure V6FieldsSet (req : RoutePut) (rule : V6Fwd) : Prop where
  name : ∀ t, req.name = some t → rule.aliasName = t
  enable : ∀ b, req.enable = some b → rule.enable = b
  interface : ∀ t, req.interface = some t → rule.interface = t
  destIPPrefix : ∀ t, req.destIPPrefix = some t → rule.destIPPrefix = t
  unused : req.useGateIpAddr = some false → rule.nextHop = []
  nextHop : ∀ t, req.nextHop = some t → req.useGateIpAddr ≠ some false → rule.nextHop = t
  noAddress : req.destIPAddress = none
  noMask : req.destSubnetMask = none
  noGateway : req.gatewayIPAddress = none

/-- A route has the fields of a request; it has no parameters for those of the other IP version. -/
def RouteFieldsSet (req : RoutePut) : FwdRule → Prop
  | .v4 rule => V4FieldsSet req rule
  | .v6 rule => V6FieldsSet req rule

/-- The condition on a request for an IPv4 route: no field of the other version, and without
{lit}`ipver` only the values that the route has already, apart from name, interface and
{lit}`Enable`. -/
structure V4Fits (req : RoutePut) (old : V4Fwd) : Prop where
  noPrefix : req.destIPPrefix = none
  noNextHop : req.nextHop = none
  destIPAddress : req.ipver = none → ∀ t, req.destIPAddress = some t → old.destIPAddress = t
  destSubnetMask : req.ipver = none → ∀ t, req.destSubnetMask = some t → old.destSubnetMask = t
  unused : req.ipver = none → req.useGateIpAddr = some false → old.gatewayIPAddress = []
  gateway : req.ipver = none → ∀ t, req.gatewayIPAddress = some t → req.useGateIpAddr ≠ some false →
    old.gatewayIPAddress = t

/-- The condition on a request for an IPv6 route: as for IPv4, and {lit}`NextHop` comes with
{lit}`UseGateIpAddr`. -/
structure V6Fits (req : RoutePut) (old : V6Fwd) : Prop where
  noAddress : req.destIPAddress = none
  noMask : req.destSubnetMask = none
  noGateway : req.gatewayIPAddress = none
  hop : req.ipver ≠ none → req.useGateIpAddr = some true → req.nextHop ≠ none
  destIPPrefix : req.ipver = none → ∀ t, req.destIPPrefix = some t → old.destIPPrefix = t
  unused : req.ipver = none → req.useGateIpAddr = some false → old.nextHop = []
  nextHop : req.ipver = none ∨ req.useGateIpAddr = none → ∀ t, req.nextHop = some t →
    req.useGateIpAddr ≠ some false → old.nextHop = t

/-- A field that is copied if it is in the request. -/
theorem copied_eq {α : Type} {field : Option α} (old : α) :
    ∀ value, field = some value → field.getD old = value := by
  rintro value rfl
  rfl

/-- The route stored for an IPv4 route has the fields of the request exactly under the condition. -/
theorem v4Fields_set_iff (req : RoutePut) (old : V4Fwd) :
    V4FieldsSet req (storedV4 req old) ↔ V4Fits req old := by
  cases hver : req.ipver with
  | none =>
      have hstored : storedV4 req old = renamedV4 req old := by simp [storedV4, hver]
      rw [hstored]
      constructor
      · intro h
        exact ⟨h.noPrefix, h.noNextHop, fun _ => h.destIPAddress, fun _ => h.destSubnetMask,
          fun _ => h.unused, fun _ => h.gateway⟩
      · intro h
        exact ⟨copied_eq _, copied_eq _, copied_eq _, h.destIPAddress hver, h.destSubnetMask hver,
          h.unused hver, h.gateway hver, h.noPrefix, h.noNextHop⟩
  | some iptype =>
      have hstored : storedV4 req old = editedV4 req old := by simp [storedV4, hver]
      rw [hstored]
      constructor
      · intro h
        exact ⟨h.noPrefix, h.noNextHop, by simp [hver], by simp [hver], by simp [hver],
          by simp [hver]⟩
      · intro h
        refine ⟨copied_eq _, copied_eq _, copied_eq _, copied_eq _, copied_eq _, ?_, ?_, h.noPrefix,
          h.noNextHop⟩
        · intro hunused
          simp [editedV4, hunused]
        · intro t ht hused
          cases huse : req.useGateIpAddr with
          | none => simp [editedV4, huse, ht]
          | some use =>
              cases use with
              | true => simp [editedV4, huse, ht]
              | false => exact absurd huse hused

/-- The route stored for an IPv6 route is there and has the fields of the request exactly under the
condition. -/
theorem v6Fields_set_iff (req : RoutePut) (old : V6Fwd) :
    (∃ rule, storedV6 req old = some rule ∧ V6FieldsSet req rule) ↔ V6Fits req old := by
  cases hver : req.ipver with
  | none =>
      have hstored : storedV6 req old = some (renamedV6 req old) := by simp [storedV6, hver]
      rw [hstored]
      constructor
      · rintro ⟨rule, hrule, h⟩
        obtain rfl := Option.some.inj hrule
        exact ⟨h.noAddress, h.noMask, h.noGateway, fun hne => absurd hver hne,
          fun _ => h.destIPPrefix, fun _ => h.unused, fun _ => h.nextHop⟩
      · intro h
        exact ⟨_, rfl, copied_eq _, copied_eq _, copied_eq _, h.destIPPrefix hver, h.unused hver,
          h.nextHop (Or.inl hver), h.noAddress, h.noMask, h.noGateway⟩
  | some iptype =>
      have hstored : storedV6 req old = (editedNextHop req old).map (editedV6 req old) := by
        simp [storedV6, hver]
      rw [hstored]
      constructor
      · rintro ⟨rule, hrule, h⟩
        obtain ⟨nextHop, hhop, rfl⟩ := Option.map_eq_some_iff.mp hrule
        refine ⟨h.noAddress, h.noMask, h.noGateway, ?_, by simp [hver], by simp [hver], ?_⟩
        · intro _ huse hnone
          simp [editedNextHop, huse, hnone] at hhop
        · rintro (hnone | huse) t ht hused
          · exact absurd hnone (by simp [hver])
          · have hsame := h.nextHop t ht hused
            have hold : old.nextHop = nextHop := by
              simpa [editedNextHop, huse, h.noGateway] using hhop
            rw [hold]
            exact hsame
      · intro h
        have hhop : ∃ nextHop, editedNextHop req old = some nextHop ∧
            (req.useGateIpAddr = some false → nextHop = []) ∧
            ∀ t, req.nextHop = some t → req.useGateIpAddr ≠ some false → nextHop = t := by
          cases huse : req.useGateIpAddr with
          | none =>
              refine ⟨old.nextHop, by simp [editedNextHop, huse, h.noGateway], by simp, ?_⟩
              intro t ht hused
              exact h.nextHop (Or.inr huse) t ht (by simp [huse])
          | some use =>
              cases use with
              | true =>
                  obtain ⟨t, ht⟩ := Option.ne_none_iff_exists'.mp (h.hop (by simp [hver]) huse)
                  refine ⟨t, by simp [editedNextHop, huse, ht], by simp, ?_⟩
                  intro t' ht' _
                  exact Option.some.inj (ht.symm.trans ht')
              | false => exact ⟨[], by simp [editedNextHop, huse], by simp, by simp⟩
        obtain ⟨nextHop, hedited, hunused, hnext⟩ := hhop
        exact ⟨_, by rw [hedited, Option.map_some], copied_eq _, copied_eq _, copied_eq _, copied_eq _,
          hunused, hnext, h.noAddress, h.noMask, h.noGateway⟩

/-! ## The list -/

/-- An entry at which {lit}`zcfgFeDalStaticRouteEdit` rejects the request: the listed route has another IP
version, or another route has the name. -/
def Rejects (req : RoutePut) (entry : RouteEntry) : Prop :=
  if req.index = entry.index then ∃ iptype, req.ipver = some iptype ∧ iptype ≠ entry.ipver
  else req.name = some entry.name

theorem scanEntries_rejected {req : RoutePut} {reply : DalReply} :
    ∀ (entries : List RouteEntry) (found : Option RouteEntry),
      (∃ entry ∈ entries, Rejects req entry) →
      ∃ reply', scanEntries req reply entries found = .error (.invalidParamValue, reply') := by
  intro entries
  induction entries with
  | nil =>
      rintro found ⟨entry, hentry, -⟩
      exact absurd hentry List.not_mem_nil
  | cons entry rest ih =>
      intro found hreject
      rw [scanEntries]
      by_cases hindex : req.index = entry.index
      · rw [if_pos hindex]
        by_cases hver : req.ipver.any (fun iptype => iptype ≠ entry.ipver) = true
        · rw [if_pos hver]
          exact ⟨_, rfl⟩
        · rw [if_neg hver]
          apply ih
          obtain ⟨entry', hmem, hrejects⟩ := hreject
          rcases List.mem_cons.mp hmem with rfl | hmem
          · rw [Rejects, if_pos hindex] at hrejects
            obtain ⟨iptype, hsome, hne⟩ := hrejects
            exact absurd (by simpa [hsome] using hne) hver
          · exact ⟨entry', hmem, hrejects⟩
      · rw [if_neg hindex]
        by_cases hname : req.name = some entry.name
        · rw [if_pos hname]
          exact ⟨_, rfl⟩
        · rw [if_neg hname]
          apply ih
          obtain ⟨entry', hmem, hrejects⟩ := hreject
          rcases List.mem_cons.mp hmem with rfl | hmem
          · rw [Rejects, if_neg hindex] at hrejects
            exact absurd hrejects hname
          · exact ⟨entry', hmem, hrejects⟩

theorem scanEntries_passed {req : RoutePut} {reply : DalReply} :
    ∀ (entries : List RouteEntry) (found : Option RouteEntry),
      (∀ entry ∈ entries, ¬ Rejects req entry) →
      scanEntries req reply entries found =
        .ok ((entries.filter (fun entry => req.index = entry.index)).getLast?.or found) := by
  intro entries
  induction entries with
  | nil =>
      intro found _
      simp [scanEntries]
  | cons entry rest ih =>
      intro found hpass
      have hhead := hpass entry List.mem_cons_self
      have hrest := fun found' => ih found' (fun e he => hpass e (List.mem_cons_of_mem entry he))
      rw [scanEntries]
      by_cases hindex : req.index = entry.index
      · rw [Rejects, if_pos hindex] at hhead
        have hver : ¬ req.ipver.any (fun iptype => iptype ≠ entry.ipver) = true := by
          intro hany
          obtain ⟨iptype, hsome, hne⟩ := (Option.any_eq_true _ _).mp hany
          exact hhead ⟨iptype, hsome, by simpa using hne⟩
        rw [if_pos hindex, if_neg hver, hrest, List.filter_cons_of_pos (by simpa using hindex),
          List.getLast?_cons]
        cases (rest.filter (fun entry => req.index = entry.index)).getLast? with
        | none => rfl
        | some last => rfl
      · rw [Rejects, if_neg hindex] at hhead
        rw [if_neg hindex, if_neg hhead, hrest, List.filter_cons_of_neg (by simpa using hindex)]

/-- The entry with a number is the only one, so that the last one is the first. -/
theorem getLast?_filter_entries (state : RouteState) (index : Int) :
    ((zcfgFeDalStaticRouteGetAll state).filter (fun entry => index = entry.index)).getLast? =
      (zcfgFeDalStaticRouteGetAll state).find? (fun entry => entry.index = index) := by
  have hunique : ∀ e ∈ (zcfgFeDalStaticRouteGetAll state).filter (fun entry => index = entry.index),
      ∀ e' ∈ (zcfgFeDalStaticRouteGetAll state).filter (fun entry => index = entry.index),
        e = e' := by
    intro e he e' he'
    obtain ⟨hmem, hindex⟩ := List.mem_filter.mp he
    obtain ⟨hmem', hindex'⟩ := List.mem_filter.mp he'
    have hsame : e.index = e'.index := by
      rw [← of_decide_eq_true hindex, ← of_decide_eq_true hindex']
    exact @numbered_unique _ _ RouteEntry.index _ _ 1 (fun n a => by simp) e e' hmem hmem' hsame
  have hflip : (fun entry : RouteEntry => decide (index = entry.index)) =
      fun entry => decide (entry.index = index) := by
    funext entry
    exact decide_eq_decide.mpr eq_comm
  rw [← List.head?_filter, ← hflip]
  cases hlist : (zcfgFeDalStaticRouteGetAll state).filter (fun entry => index = entry.index) with
  | nil => rfl
  | cons e rest =>
      rw [hlist] at hunique
      rw [List.head?_cons, List.getLast?_eq_some_getLast (List.cons_ne_nil e rest)]
      rw [hunique _ (List.getLast_mem (List.cons_ne_nil e rest)) e List.mem_cons_self]

/-- The route that is listed with a number. -/
def listedRoute (state : RouteState) (index : Int) : Option RouteIid :=
  (atIndex (listedRoutes state) index).map Prod.fst

theorem routeGetAll_find? (state : RouteState) (index : Int) :
    (zcfgFeDalStaticRouteGetAll state).find? (fun entry => entry.index = index) =
      (atIndex (listedRoutes state) index).map (fun route =>
        { index := (index - 1).toNat + 1, name := route.2, ipver := route.1.1,
          idx := route.1.2.2 }) := by
  rw [zcfgFeDalStaticRouteGetAll, find?_numbered RouteEntry.index index _ _ 1 (by simp), atIndex]
  by_cases hpos : index ≤ 0
  · rw [if_pos (by omega), if_pos hpos]
    rfl
  · rw [if_neg (by omega), if_neg hpos]
    rfl

/-! ## Agreement with the list -/

/-- A deletion meets the listed route. -/
def RouteDeleteAgrees (state : RouteState) (index : Int) : Prop :=
  ∃ ret reply call, zcfgFeDalStaticRouteDelete state index { replyMsg := [], multiLangReplyMsg := none } =
      some (ret, reply, call) ∧
    DeleteAgrees (listedRoute state index) ret call

/-- The condition for a deletion: a route is listed, and if it is one of another router then the first
router has no route with the same number. -/
def RouteDeleteFits (state : RouteState) (index : Int) : Prop :=
  ∃ ipver iid, listedRoute state index = some (ipver, iid) ∧
    (state.has (ipver, firstRouter, iid.2) = true → iid.1 = firstRouter)

/-- Deletions meet the listed route exactly under the condition. -/
theorem routeDelete_agrees_iff (state : RouteState) (index : Int) :
    RouteDeleteAgrees state index ↔ RouteDeleteFits state index := by
  unfold RouteDeleteAgrees RouteDeleteFits zcfgFeDalStaticRouteDelete
  rw [routeGetAll_find?, listedRoute]
  cases hrow : atIndex (listedRoutes state) index with
  | none => simp
  | some route =>
      obtain ⟨⟨ipver, iid⟩, name⟩ := route
      simp only [Option.map_some]
      by_cases hhas : state.has (ipver, firstRouter, iid.2) = true
      · rw [if_pos hhas]
        constructor
        · rintro ⟨ret, reply, call, heq, hagrees⟩
          obtain ⟨rfl, rfl, rfl⟩ : _ ∧ _ ∧ _ := by simpa using heq
          have hsame := deleteAgrees_success_iff.mp hagrees
          refine ⟨ipver, iid, rfl, fun _ => ?_⟩
          exact congrArg (fun i : RouteIid => i.2.1) (Option.some.inj hsame)
        · rintro ⟨ipver', iid', heq, hfirst⟩
          obtain ⟨rfl, rfl⟩ : ipver = ipver' ∧ iid = iid' := by simpa using heq
          refine ⟨_, _, _, rfl, deleteAgrees_success_iff.mpr ?_⟩
          rw [← hfirst hhas]
      · rw [if_neg hhas]
        refine iff_of_true ⟨_, _, _, rfl, deleteAgrees_of_failed (by decide)⟩ ?_
        exact ⟨ipver, iid, rfl, fun htrue => absurd htrue hhas⟩

/-- An edit meets the listed route. -/
def RoutePutAgrees (state : RouteState) (req : RoutePut) : Prop :=
  ∃ ret reply call, zcfgFeDalStaticRouteEdit state req { replyMsg := [], multiLangReplyMsg := none } =
      some (ret, reply, call) ∧
    PutAgrees (listedRoute state req.index) (RouteFieldsSet req) ret call

/-- The request fits the route that is stored over: with the same number in the first router. -/
def StoreFits (state : RouteState) (req : RoutePut) : RouteIid → Prop
  | (.ipv4, iid) =>
      ∀ old, state.v4.get (firstRouter, iid.2) = some old → iid.1 = firstRouter ∧ V4Fits req old
  | (.ipv6, iid) =>
      ∀ old, state.v6.get (firstRouter, iid.2) = some old → iid.1 = firstRouter ∧ V6Fits req old

/-- The condition for an edit: an entry of the list rejects the request, or a route is listed and the
request fits it. -/
def RoutePutFits (state : RouteState) (req : RoutePut) : Prop :=
  (∃ entry ∈ zcfgFeDalStaticRouteGetAll state, Rejects req entry) ∨
    ∃ iid, listedRoute state req.index = some iid ∧ StoreFits state req iid

/-- What an edit does to a listed route that no entry rejects. -/
theorem routeEdit_listed {state : RouteState} {req : RoutePut} {reply : DalReply} {ipver : IpVersion}
    {iid : FwdIid}
    (hpass : ∀ entry ∈ zcfgFeDalStaticRouteGetAll state, ¬ Rejects req entry)
    (hlisted : listedRoute state req.index = some (ipver, iid)) :
    zcfgFeDalStaticRouteEdit state req reply = storeRoute state req reply ipver iid.2 := by
  obtain ⟨route, hroute, hiid⟩ := Option.map_eq_some_iff.mp hlisted
  have hfind := routeGetAll_find? state req.index
  rw [hroute, Option.map_some, hiid] at hfind
  have hentry := List.mem_of_find?_eq_some hfind
  have hindex := List.find?_some hfind
  have hver : req.ipver.getD ipver = ipver := by
    have hnot := hpass _ hentry
    rw [Rejects, if_pos (by simpa using (of_decide_eq_true hindex).symm)] at hnot
    cases hsome : req.ipver with
    | none => rfl
    | some iptype =>
        by_contra hne
        exact hnot ⟨iptype, hsome, hne⟩
  rw [zcfgFeDalStaticRouteEdit, scanEntries_passed _ _ hpass, getLast?_filter_entries, hfind]
  simp only [Option.some_or, hver]

theorem routeEdit_unlisted {state : RouteState} {req : RoutePut} {reply : DalReply}
    (hpass : ∀ entry ∈ zcfgFeDalStaticRouteGetAll state, ¬ Rejects req entry)
    (hlisted : listedRoute state req.index = none) :
    zcfgFeDalStaticRouteEdit state req reply = none := by
  have hfind := routeGetAll_find? state req.index
  rw [Option.map_eq_none_iff.mp hlisted, Option.map_none] at hfind
  rw [zcfgFeDalStaticRouteEdit, scanEntries_passed _ _ hpass, getLast?_filter_entries, hfind]
  rfl

/-- An edit of a listed route agrees if it fits. -/
theorem storeFits_iff {state : RouteState} {req : RoutePut} {iid : RouteIid}
    (hpass : ∀ entry ∈ zcfgFeDalStaticRouteGetAll state, ¬ Rejects req entry)
    (hlisted : listedRoute state req.index = some iid) :
    RoutePutAgrees state req ↔ StoreFits state req iid := by
  obtain ⟨ipver, iid⟩ := iid
  rw [RoutePutAgrees, routeEdit_listed hpass hlisted, hlisted]
  cases ipver with
  | ipv4 =>
      simp only [StoreFits, storeRoute]
      cases hget : state.v4.get (firstRouter, iid.2) with
      | none =>
          refine iff_of_true ⟨_, _, _, rfl, putAgrees_of_failed (by decide)⟩ ?_
          intro old hold
          exact absurd hold (by simp)
      | some old =>
          simp only [Option.some.injEq, Prod.mk.injEq, forall_eq']
          constructor
          · rintro ⟨ret, reply, call, ⟨rfl, -, rfl⟩, hagrees⟩
            obtain ⟨hsame, hset⟩ := putAgrees_success_iff.mp hagrees
            refine ⟨congrArg (fun i : RouteIid => i.2.1) (Option.some.inj hsame), ?_⟩
            exact (v4Fields_set_iff req old).mp hset
          · rintro ⟨hfirst, hfits⟩
            refine ⟨_, _, _, ⟨rfl, rfl, rfl⟩, putAgrees_success_iff.mpr ⟨by rw [← hfirst], ?_⟩⟩
            exact (v4Fields_set_iff req old).mpr hfits
  | ipv6 =>
      simp only [StoreFits, storeRoute]
      cases hget : state.v6.get (firstRouter, iid.2) with
      | none =>
          refine iff_of_true ⟨_, _, _, rfl, putAgrees_of_failed (by decide)⟩ ?_
          intro old hold
          exact absurd hold (by simp)
      | some old =>
          simp only [Option.some.injEq, forall_eq', ← v6Fields_set_iff]
          constructor
          · rintro ⟨ret, reply, call, hmap, hagrees⟩
            obtain ⟨rule, hrule, heq⟩ := Option.map_eq_some_iff.mp hmap
            rw [Prod.mk.injEq, Prod.mk.injEq] at heq
            obtain ⟨rfl, -, rfl⟩ := heq
            obtain ⟨hsame, hset⟩ := putAgrees_success_iff.mp hagrees
            exact ⟨congrArg (fun i : RouteIid => i.2.1) (Option.some.inj hsame), rule, hrule, hset⟩
          · rintro ⟨hfirst, rule, hrule, hset⟩
            refine ⟨_, _, _, by rw [hrule, Option.map_some], ?_⟩
            exact putAgrees_success_iff.mpr ⟨by rw [← hfirst], hset⟩

/-- Edits meet the listed route exactly under the condition. -/
theorem routePut_agrees_iff (state : RouteState) (req : RoutePut) :
    RoutePutAgrees state req ↔ RoutePutFits state req := by
  by_cases hreject : ∃ entry ∈ zcfgFeDalStaticRouteGetAll state, Rejects req entry
  · obtain ⟨reply', hscan⟩ := scanEntries_rejected _ none hreject
    refine iff_of_true ⟨.invalidParamValue, reply', .none, ?_, putAgrees_of_failed (by decide)⟩
      (Or.inl hreject)
    rw [zcfgFeDalStaticRouteEdit, hscan]
  · have hpass : ∀ entry ∈ zcfgFeDalStaticRouteGetAll state, ¬ Rejects req entry :=
      fun entry hentry hrejects => hreject ⟨entry, hentry, hrejects⟩
    rw [RoutePutFits, or_iff_right hreject]
    cases hlisted : listedRoute state req.index with
    | none =>
        rw [RoutePutAgrees, routeEdit_unlisted hpass hlisted]
        simp
    | some iid =>
        rw [storeFits_iff hpass hlisted]
        simp

/-! ## Firewall rules and routes -/

/-- A request with an index to one of the two handlers. -/
inductive IndexRequest where
  | aclPut (req : AclPut)
  | aclDelete (index : Int)
  | routePut (req : RoutePut)
  | routeDelete (index : Int)

/-- A request meets the rule that is listed with its index. -/
def IndexAgrees (firewall : FirewallState) (routes : RouteState) : IndexRequest → Prop
  | .aclPut req => AclPutAgrees firewall req
  | .aclDelete index => AclDeleteAgrees firewall index
  | .routePut req => RoutePutAgrees routes req
  | .routeDelete index => RouteDeleteAgrees routes index

/-- The conditions under which it does. -/
def IndexFits (firewall : FirewallState) (routes : RouteState) : IndexRequest → Prop
  | .aclPut req => AclPutFits firewall req
  | .aclDelete index => AclDeleteFits firewall index
  | .routePut req => RoutePutFits routes req
  | .routeDelete index => RouteDeleteFits routes index

/-- A rule of the firewall. -/
def anyRule : AclRule := fun _ => .int 0

/-- A firewall whose first rule has been deleted. -/
def gapFirewall : FirewallState where
  levels := [("UserDefined".toList, "Firewall.Chain.1".toList)]
  serviceGroups := []
  chainRules :=
    { rows :=
        [((firstChain, ⟨2, InstNum.two_ne⟩), anyRule), ((firstChain, ⟨3, InstNum.three_ne⟩), anyRule)]
      nodup := by decide }

/-- A request that enables a rule. -/
def enableRule (index : Int) : AclPut where
  index := index
  enable := some true
  name := none
  ipVersion := none
  protocol := none
  tcpFlag := none
  macAddress := none
  sourceIP := none
  destIP := none
  sourceIPPrefix := none
  destIPPrefix := none
  sourcePortRange := none
  destPortRange := none
  serviceIndex := none
  plain := fun _ => none
  renamed := fun _ => none

/-- No routes. -/
def noRoutes : RouteState := ⟨⟨[], List.nodup_nil⟩, ⟨[], List.nodup_nil⟩⟩

end FeDal
end ZyxelRouter
