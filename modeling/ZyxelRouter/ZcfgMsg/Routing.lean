import Mathlib.Data.List.Basic
import Mathlib.Data.List.TakeWhile
import Mathlib.Data.Nat.Bitwise
import ZyxelRouter.Lib.Decimal

/-!
# Where replies go

A request is sent from a datagram socket of its own.  The path of the socket has the EID of the
sender and a sequence id made of the thread id and a counter of the process.  The server takes
the sequence id out of the path with {lit}`sscanf`, keeps it in {lit}`clientPid`, and prints the
path again when it replies, however late that is.

The state has the sockets that are bound, the requests on their way to a server and those held by
one.  Requests carry which thread sent them and their number in the process; no function of the
source reads that.

Main results:

- Theorem {lit}`msgClientPid_bindPath`: the server finds the sequence id in the path.
- Theorem {lit}`bindPath_injective`: paths of different EIDs or sequence ids differ.
- Theorem {lit}`reaches_routed`: every reply goes to the path of the request it answers, and no
  other bound request has that path.
-/

namespace ZyxelRouter
namespace ZcfgMsg

open Lib

/-! ## Paths -/

/-- {lit}`ZCFG_ADDRESS_PREFIX`. -/
def zcfgAddressPrefix : List Char :=
  "/var/lib/.sock/zcfg_sockaddr".toList

/-- The path {lit}`"%s%u-%u"` of an EID and a number. -/
def bindPath (eid : UInt8) (seqid : Nat) : List Char :=
  zcfgAddressPrefix ++ decimal eid.toNat ++ '-' :: decimal seqid

/-- What {lit}`%u` stores of the characters in front of it, if there is a number. -/
def scanUnsigned (cs : List Char) : Option Nat :=
  let cs := cs.dropWhile isSpace
  let (negative, cs) := match cs with
    | '-' :: rest => (true, rest)
    | '+' :: rest => (false, rest)
    | _ => (false, cs)
  let ds := cs.takeWhile Char.isDigit
  if ds = [] then none
  else
    let value := min (digitsValue ds) (2 ^ 64 - 1)
    some ((if negative then 2 ^ 64 - value else value) % 2 ^ 32)

/-- {lit}`sscanf(sun_path, "%*[^-]-%u", &clientPid)` with {lit}`clientPid` zero before. -/
def msgClientPid (sunPath : List Char) : Nat :=
  if sunPath.takeWhile (· ≠ '-') = [] then 0
  else
    match sunPath.dropWhile (· ≠ '-') with
    | [] => 0
    | _ :: rest => (scanUnsigned rest).getD 0

theorem dash_notMem_decimal (n : Nat) : '-' ∉ decimal n := by
  intro h
  have := isDigit_of_mem_decimal h
  simp at this

theorem dash_notMem_front (eid : UInt8) : '-' ∉ zcfgAddressPrefix ++ decimal eid.toNat := by
  rw [List.mem_append, not_or]
  exact ⟨by decide, dash_notMem_decimal _⟩

theorem scanUnsigned_decimal {n : Nat} (hn : n < 2 ^ 32) : scanUnsigned (decimal n) = some n := by
  obtain ⟨c, cs, hcons⟩ := List.exists_cons_of_ne_nil (decimal_ne_nil n)
  have hc : c.isDigit = true := by
    apply isDigit_of_mem_decimal (n := n)
    rw [hcons]
    exact List.mem_cons_self
  obtain ⟨hblank, hminus, hplus⟩ := not_isSpace_of_isDigit hc
  have hdrop : (decimal n).dropWhile isSpace = decimal n := by
    rw [hcons, List.dropWhile_cons_of_neg (by simp [hblank])]
  have hdigits : (decimal n).takeWhile Char.isDigit = decimal n := by
    have h := @takeWhile_decimal_append n [] (by simp)
    rwa [List.append_nil] at h
  have hsign : (match decimal n with
      | '-' :: rest => (true, rest)
      | '+' :: rest => (false, rest)
      | _ => (false, decimal n)) = (false, decimal n) := by
    rw [hcons]
    split
    · rename_i heq
      exact absurd (List.cons.inj heq).1 hminus
    · rename_i heq
      exact absurd (List.cons.inj heq).1 hplus
    · rfl
  have hvalue : min n (2 ^ 64 - 1) % 2 ^ 32 = n := by omega
  simp only [scanUnsigned, hdrop, hsign, hdigits, if_neg (decimal_ne_nil n), digitsValue_decimal]
  rw [if_neg (by simp), hvalue]

/-- The server finds the sequence id in the path. -/
theorem msgClientPid_bindPath (eid : UInt8) {seqid : Nat} (hseqid : seqid < 2 ^ 32) :
    msgClientPid (bindPath eid seqid) = seqid := by
  have hall : ∀ c ∈ zcfgAddressPrefix ++ decimal eid.toNat, (decide (c ≠ '-')) = true := by
    intro c hc
    have hne : c ≠ '-' := fun heq => dash_notMem_front eid (heq ▸ hc)
    simpa using hne
  have htake : (bindPath eid seqid).takeWhile (· ≠ '-') =
      zcfgAddressPrefix ++ decimal eid.toNat := by
    rw [bindPath, List.takeWhile_append_of_pos hall]
    simp
  have hdrop : (bindPath eid seqid).dropWhile (· ≠ '-') = '-' :: decimal seqid := by
    rw [bindPath, List.dropWhile_append_of_pos hall]
    simp
  have hne : zcfgAddressPrefix ++ decimal eid.toNat ≠ [] := by
    intro hnil
    exact decimal_ne_nil _ (List.append_eq_nil_iff.mp hnil).2
  rw [msgClientPid, htake, if_neg hne, hdrop]
  simp only [scanUnsigned_decimal hseqid, Option.getD_some]

/-- Paths of different EIDs or sequence ids differ. -/
theorem bindPath_injective {eid eid' : UInt8} {seqid seqid' : Nat}
    (h : bindPath eid seqid = bindPath eid' seqid') : eid = eid' ∧ seqid = seqid' := by
  have hfront : ∀ (e : UInt8) (q : Nat), (bindPath e q).takeWhile (· ≠ '-') =
      zcfgAddressPrefix ++ decimal e.toNat := by
    intro e q
    rw [bindPath, List.takeWhile_append_of_pos]
    · simp
    · intro c hc
      have hne : c ≠ '-' := fun heq => dash_notMem_front e (heq ▸ hc)
      simpa using hne
  have hprefix : zcfgAddressPrefix ++ decimal eid.toNat = zcfgAddressPrefix ++ decimal eid'.toNat := by
    rw [← hfront eid seqid, h, hfront]
  have heid := UInt8.toNat_inj.mp (decimal_injective (List.append_cancel_left hprefix))
  subst heid
  refine ⟨rfl, ?_⟩
  have htail := List.append_cancel_left h
  exact decimal_injective (List.cons.inj htail).2

/-! ## Sequence ids -/

/-- The next value of {lit}`_zcfg_msg_req_idx`. -/
def nextReqIdx (reqIdx : Nat) : Nat :=
  reqIdx % 0xFFFF + 1

/-- {lit}`seqid`: the thread id and, sixteen bits up, the counter. -/
def seqidOf (tid reqIdx : Nat) : Nat :=
  tid ||| (reqIdx <<< 16) % 2 ^ 32

/-- The counter after a number of requests. -/
def reqIdxAfter : Nat → Nat
  | 0 => 0
  | n + 1 => n % 0xFFFF + 1

theorem nextReqIdx_reqIdxAfter (n : Nat) : nextReqIdx (reqIdxAfter n) = reqIdxAfter (n + 1) := by
  cases n with
  | zero => rfl
  | succ n =>
      simp only [nextReqIdx, reqIdxAfter]
      omega

theorem reqIdxAfter_lt (n : Nat) : reqIdxAfter n < 2 ^ 16 := by
  cases n with
  | zero => decide
  | succ n =>
      simp only [reqIdxAfter]
      omega

/-- Two requests less than 65535 apart have different counters. -/
theorem reqIdxAfter_ne {m n : Nat} (hm : 0 < m) (hmn : m < n) (hnear : n - m < 65535) :
    reqIdxAfter m ≠ reqIdxAfter n := by
  obtain ⟨i, rfl⟩ : ∃ i, m = i + 1 := ⟨m - 1, by omega⟩
  obtain ⟨j, rfl⟩ : ∃ j, n = j + 1 := ⟨n - 1, by omega⟩
  simp only [reqIdxAfter]
  omega

theorem seqidOf_eq {tid reqIdx : Nat} (htid : tid < 2 ^ 16) (hidx : reqIdx < 2 ^ 16) :
    seqidOf tid reqIdx = reqIdx * 2 ^ 16 + tid := by
  have hsmall : (reqIdx <<< 16) % 2 ^ 32 = reqIdx <<< 16 := by
    rw [Nat.shiftLeft_eq]
    omega
  rw [seqidOf, hsmall, Nat.or_comm, ← Nat.shiftLeft_add_eq_or_of_lt htid, Nat.shiftLeft_eq]

/-! ## Parties and messages -/

/-- A thread: its process, its id in the system, and a serial number that tells it from other
threads that have had the same id. -/
structure Thread where
  process : Nat
  tid : Nat
  serial : Nat
deriving DecidableEq, Repr

/-- A call of {lit}`zcfg_msg_sendAndGetReply`: its thread, the EID of the thread, the number of the
request in the process, and {lit}`seqid`. -/
structure Request where
  thread : Thread
  eid : UInt8
  number : Nat
  seqid : Nat
deriving DecidableEq

/-- The path that a request binds. -/
def Request.sunPath (r : Request) : List Char :=
  bindPath r.eid r.seqid

/-- The socket of a request; it is reached through its path until the path is unlinked. -/
structure Socket where
  request : Request
  linked : Bool
deriving DecidableEq

/-- A request on its way: {lit}`srcEid` of the message and the address it comes from. -/
structure Datagram where
  request : Request
  srcEid : UInt8
  sunPath : List Char
deriving DecidableEq

/-- What a server keeps of a request to answer it: the reply has the {lit}`srcEid` of the request
as {lit}`dstEid`. -/
structure Held where
  request : Request
  dstEid : UInt8
  clientPid : Nat
deriving DecidableEq

/-- The state of all processes and servers.  {lit}`received` lists the replies that were received,
with the request each one answers and the request that received it. -/
structure State where
  reqIdx : Nat → Nat
  started : Nat → Nat
  sockets : List Socket
  queue : List Datagram
  held : List Held
  received : List (Request × Request)

/-- No request was ever made. -/
def State.init : State where
  reqIdx := fun _ => 0
  started := fun _ => 0
  sockets := []
  queue := []
  held := []
  received := []

/-! ## Steps -/

/-- The request that a thread makes next. -/
def State.nextRequest (s : State) (thread : Thread) (eid : UInt8) : Request where
  thread := thread
  eid := eid
  number := s.started thread.process + 1
  seqid := seqidOf thread.tid (nextReqIdx (s.reqIdx thread.process))

/-- The state with the counter of a process moved on. -/
def State.count (s : State) (process : Nat) : State :=
  { s with
    reqIdx := fun p => if p = process then nextReqIdx (s.reqIdx p) else s.reqIdx p
    started := fun p => if p = process then s.started p + 1 else s.started p }

/-- {lit}`zcfg_msg_sendAndGetReply` up to the wait for the reply.  A path that is in use makes
{lit}`bind` fail, and then the path is unlinked; a message that cannot be sent closes the socket
again.  {lit}`_msg_send` has set {lit}`srcEid`. -/
def zcfgMsgSendAndGetReply (thread : Thread) (eid : UInt8) (sent : Bool) (s : State) : State :=
  if eid = 0 then s
  else
    let request := s.nextRequest thread eid
    let s := s.count thread.process
    if s.sockets.any (fun k => k.linked && k.request.sunPath == request.sunPath) then
      { s with sockets := s.sockets.map (fun k =>
          if k.request.sunPath = request.sunPath then { k with linked := false } else k) }
    else if !sent then s
    else
      { s with
        sockets := { request := request, linked := true } :: s.sockets
        queue := { request := request, srcEid := eid, sunPath := request.sunPath } :: s.queue }

/-- The end of a call: the socket is closed and its path unlinked. -/
def close (request : Request) (s : State) : State :=
  { s with sockets := s.sockets.filter (fun k => k.request ≠ request) }

/-- {lit}`_msg_recv` of a server, and the reply the server prepares. -/
def msgRecv (d : Datagram) (s : State) : State :=
  { s with
    queue := s.queue.erase d
    held := { request := d.request, dstEid := d.srcEid, clientPid := msgClientPid d.sunPath } :: s.held }

/-- The address that {lit}`_msg_send` of a server builds. -/
def Held.address (h : Held) : List Char :=
  bindPath h.dstEid h.clientPid

/-- The sockets that a datagram to an address reaches. -/
def State.reached (s : State) (address : List Char) : List Request :=
  (s.sockets.filter (fun k => k.linked && k.request.sunPath == address)).map Socket.request

/-- {lit}`_msg_send` of a server: the reply is received at its address, if that is bound. -/
def msgSend (h : Held) (s : State) : State :=
  { s with
    held := s.held.erase h
    received := (s.reached h.address).map (fun r => (h.request, r)) ++ s.received }

/-- The steps, in any order. -/
inductive Op where
  | call (thread : Thread) (eid : UInt8) (sent : Bool)
  | close (request : Request)
  | serve (d : Datagram)
  | reply (h : Held)
  | discard (h : Held)

/-- What a step does. -/
def Op.apply : Op → State → State
  | .call thread eid sent, s => zcfgMsgSendAndGetReply thread eid sent s
  | .close request, s => ZcfgMsg.close request s
  | .serve d, s => msgRecv d s
  | .reply h, s => msgSend h s
  | .discard h, s => { s with held := s.held.erase h }

/-- The requests that are bound, on their way, or held by a server. -/
def State.Known (s : State) (r : Request) : Prop :=
  (∃ k ∈ s.sockets, k.request = r) ∨ (∃ d ∈ s.queue, d.request = r) ∨ ∃ h ∈ s.held, h.request = r

/-- Fewer than 65535 requests of the process were started after this one. -/
def State.Recent (s : State) (r : Request) : Prop :=
  s.started r.thread.process - r.number < 65535

/-- When a step can happen: a thread makes one call at a time, its id is below 2^16 and not that of
another thread with a request that is bound or to be answered, servers handle what they have
received, and answer it while the request is recent. -/
def Enabled (op : Op) (s : State) : Prop :=
  match op with
  | .call thread _ _ =>
      thread.tid < 2 ^ 16 ∧ (∀ k ∈ s.sockets, k.request.thread ≠ thread) ∧
        ∀ r, s.Known r → r.thread.tid = thread.tid → r.thread = thread
  | .close _ => True
  | .serve d => d ∈ s.queue
  | .reply h => h ∈ s.held ∧ s.Recent h.request
  | .discard _ => True

/-- The states of the runs. -/
inductive Reaches : State → Prop where
  | init : Reaches State.init
  | step {s : State} {op : Op} (h : Reaches s) (hop : Enabled op s) : Reaches (op.apply s)

/-! ## The invariant -/

/-- Requests are numbered by the counters of their processes, thread ids tell threads apart, a bound
request is the last one of its thread, and messages carry what leads back to the request. -/
structure Orderly (s : State) : Prop where
  counter : ∀ p, s.reqIdx p = reqIdxAfter (s.started p)
  tid_lt : ∀ r, s.Known r → r.thread.tid < 2 ^ 16
  number_pos : ∀ r, s.Known r → 0 < r.number
  number_le : ∀ r, s.Known r → r.number ≤ s.started r.thread.process
  seqid_eq : ∀ r, s.Known r → r.seqid = seqidOf r.thread.tid (reqIdxAfter r.number)
  unique : ∀ r r', s.Known r → s.Known r' → r.thread.process = r'.thread.process →
    r.number = r'.number → r = r'
  owner : ∀ r r', s.Known r → s.Known r' → r.thread.tid = r'.thread.tid → r.thread = r'.thread
  latest : ∀ k ∈ s.sockets, ∀ r, s.Known r → r.thread = k.request.thread →
    r.number ≤ k.request.number
  queued : ∀ d ∈ s.queue, d.srcEid = d.request.eid ∧ d.sunPath = d.request.sunPath
  held_eq : ∀ h ∈ s.held, h.dstEid = h.request.eid ∧ h.clientPid = h.request.seqid
  received_eq : ∀ p ∈ s.received, p.1 = p.2

variable {s s' : State}

theorem Orderly.init : Orderly State.init := by
  constructor <;> simp [State.init, State.Known, reqIdxAfter]

/-- The server addresses its reply to the path of the request. -/
theorem Orderly.address_eq (h : Orderly s) {held : Held} (hheld : held ∈ s.held) :
    held.address = held.request.sunPath := by
  obtain ⟨heid, hpid⟩ := h.held_eq held hheld
  rw [Held.address, Request.sunPath, heid, hpid]

/-- Two known requests with the same path are the same, if one is bound and the other recent. -/
theorem Orderly.path_unique (h : Orderly s) {k : Socket} (hk : k ∈ s.sockets) {r : Request}
    (hr : s.Known r) (hrecent : s.Recent r) (hpath : k.request.sunPath = r.sunPath) :
    k.request = r := by
  have hknown : s.Known k.request := .inl ⟨k, hk, rfl⟩
  have hseqid := (bindPath_injective hpath).2
  rw [h.seqid_eq _ hknown, h.seqid_eq _ hr, seqidOf_eq (h.tid_lt _ hknown) (reqIdxAfter_lt _),
    seqidOf_eq (h.tid_lt _ hr) (reqIdxAfter_lt _)] at hseqid
  have htid := h.tid_lt _ hknown
  have htid' := h.tid_lt _ hr
  have hsame : k.request.thread.tid = r.thread.tid := by omega
  have hidx : reqIdxAfter k.request.number = reqIdxAfter r.number := by omega
  have hthread := h.owner _ _ hknown hr hsame
  have hle := h.latest k hk r hr hthread.symm
  have hproc : k.request.thread.process = r.thread.process := by rw [hthread]
  apply h.unique _ _ hknown hr hproc
  -- a later request of the thread would be 65535 requests of the process ahead
  by_contra hne
  have hlast := h.number_le _ hknown
  rw [hproc] at hlast
  have hnear : k.request.number - r.number < 65535 := by
    simp only [State.Recent] at hrecent
    omega
  exact reqIdxAfter_ne (h.number_pos _ hr) (by omega) hnear hidx.symm

/-- A step that starts no request. -/
theorem Orderly.shrink (h : Orderly s) (hidx : s'.reqIdx = s.reqIdx) (hstarted : s'.started = s.started)
    (hknown : ∀ r, s'.Known r → s.Known r)
    (hsockets : ∀ k ∈ s'.sockets, ∃ k' ∈ s.sockets, k'.request = k.request)
    (hqueue : ∀ d ∈ s'.queue, d ∈ s.queue)
    (hheld : ∀ q ∈ s'.held, q.dstEid = q.request.eid ∧ q.clientPid = q.request.seqid)
    (hreceived : ∀ p ∈ s'.received, p.1 = p.2) : Orderly s' := by
  constructor
  · intro p
    rw [hidx, hstarted]
    exact h.counter p
  · exact fun r hr => h.tid_lt r (hknown r hr)
  · exact fun r hr => h.number_pos r (hknown r hr)
  · intro r hr
    rw [hstarted]
    exact h.number_le r (hknown r hr)
  · exact fun r hr => h.seqid_eq r (hknown r hr)
  · exact fun r r' hr hr' => h.unique r r' (hknown r hr) (hknown r' hr')
  · exact fun r r' hr hr' => h.owner r r' (hknown r hr) (hknown r' hr')
  · intro k hk r hr hthread
    obtain ⟨k', hk', hsame⟩ := hsockets k hk
    rw [← hsame] at hthread ⊢
    exact h.latest k' hk' r (hknown r hr) hthread
  · exact fun d hd => h.queued d (hqueue d hd)
  · exact hheld
  · exact hreceived

/-! ## The steps keep the invariant -/

theorem Orderly.close (h : Orderly s) (request : Request) : Orderly (close request s) := by
  have hsub : ∀ k ∈ (ZcfgMsg.close request s).sockets, k ∈ s.sockets :=
    fun k hk => List.mem_of_mem_filter hk
  refine h.shrink rfl rfl ?_ (fun k hk => ⟨k, hsub k hk, rfl⟩) (fun d hd => hd) h.held_eq h.received_eq
  rintro r (⟨k, hk, hr⟩ | hr)
  · exact .inl ⟨k, hsub k hk, hr⟩
  · exact .inr hr

theorem Orderly.dropHeld (h : Orderly s) (q : Held) : Orderly { s with held := s.held.erase q } := by
  have hsub : ∀ q' ∈ s.held.erase q, q' ∈ s.held := fun q' hq' => List.mem_of_mem_erase hq'
  refine h.shrink rfl rfl ?_ (fun k hk => ⟨k, hk, rfl⟩) (fun d hd => hd)
    (fun q' hq' => h.held_eq q' (hsub q' hq')) h.received_eq
  rintro r (hr | hr | ⟨q', hq', hr⟩)
  · exact .inl hr
  · exact .inr (.inl hr)
  · exact .inr (.inr ⟨q', hsub q' hq', hr⟩)

theorem seqidOf_lt {tid reqIdx : Nat} (htid : tid < 2 ^ 16) (hidx : reqIdx < 2 ^ 16) :
    seqidOf tid reqIdx < 2 ^ 32 := by
  rw [seqidOf_eq htid hidx]
  omega

theorem Orderly.msgRecv (h : Orderly s) {d : Datagram} (hd : d ∈ s.queue) : Orderly (msgRecv d s) := by
  have hknown : s.Known d.request := .inr (.inl ⟨d, hd, rfl⟩)
  have hsub : ∀ d' ∈ s.queue.erase d, d' ∈ s.queue := fun d' hd' => List.mem_of_mem_erase hd'
  refine h.shrink rfl rfl ?_ (fun k hk => ⟨k, hk, rfl⟩) hsub ?_ h.received_eq
  · rintro r (hr | ⟨d', hd', hr⟩ | ⟨q, hq, hr⟩)
    · exact .inl hr
    · exact .inr (.inl ⟨d', hsub d' hd', hr⟩)
    · rcases List.mem_cons.mp hq with rfl | hq
      · exact hr ▸ hknown
      · exact .inr (.inr ⟨q, hq, hr⟩)
  · intro q hq
    rcases List.mem_cons.mp hq with rfl | hq
    · obtain ⟨heid, hpath⟩ := h.queued d hd
      refine ⟨heid, ?_⟩
      have hlt : d.request.seqid < 2 ^ 32 := by
        rw [h.seqid_eq _ hknown]
        exact seqidOf_lt (h.tid_lt _ hknown) (reqIdxAfter_lt _)
      rw [hpath]
      exact msgClientPid_bindPath d.request.eid hlt
    · exact h.held_eq q hq

theorem Orderly.msgSend (h : Orderly s) {q : Held} (hq : q ∈ s.held) (hrecent : s.Recent q.request) :
    Orderly (msgSend q s) := by
  have hdrop := h.dropHeld q
  refine { hdrop with received_eq := ?_ }
  intro p hp
  rcases List.mem_append.mp hp with hp | hp
  · obtain ⟨r, hr, rfl⟩ := List.mem_map.mp hp
    obtain ⟨k, hk, rfl⟩ := List.mem_map.mp hr
    obtain ⟨hmem, htest⟩ := List.mem_filter.mp hk
    have hpath : k.request.sunPath = q.address := by
      simp only [Bool.and_eq_true, beq_iff_eq] at htest
      exact htest.2
    rw [h.address_eq hq] at hpath
    exact (h.path_unique hmem (.inr (.inr ⟨q, hq, rfl⟩)) hrecent hpath).symm
  · exact h.received_eq p hp

theorem started_le_count (s : State) (process p : Nat) : s.started p ≤ (s.count process).started p := by
  simp only [State.count]
  split <;> omega

theorem Orderly.count (h : Orderly s) (process : Nat) : Orderly (s.count process) := by
  refine { h with counter := ?_, number_le := ?_ }
  · intro p
    simp only [State.count]
    split
    · rw [h.counter p]
      exact nextReqIdx_reqIdxAfter _
    · exact h.counter p
  · exact fun r hr => Nat.le_trans (h.number_le r hr) (started_le_count s process _)

/-- A path that is in use is unlinked. -/
theorem Orderly.unlink (h : Orderly s) (sunPath : List Char) :
    Orderly { s with sockets := s.sockets.map (fun k =>
      if k.request.sunPath = sunPath then { k with linked := false } else k) } := by
  have hsockets : ∀ k ∈ s.sockets.map (fun k =>
      if k.request.sunPath = sunPath then { k with linked := false } else k),
      ∃ k' ∈ s.sockets, k'.request = k.request := by
    intro k hk
    obtain ⟨k', hk', rfl⟩ := List.mem_map.mp hk
    refine ⟨k', hk', ?_⟩
    split <;> rfl
  refine h.shrink rfl rfl ?_ hsockets (fun d hd => hd) h.held_eq h.received_eq
  rintro r (⟨k, hk, hr⟩ | hr)
  · obtain ⟨k', hk', hsame⟩ := hsockets k hk
    exact .inl ⟨k', hk', hsame.trans hr⟩
  · exact .inr hr

/-- A new request is bound and on its way. -/
theorem Orderly.add (h : Orderly s) (request : Request) (htid : request.thread.tid < 2 ^ 16)
    (hidle : ∀ k ∈ s.sockets, k.request.thread ≠ request.thread)
    (howner : ∀ r, s.Known r → r.thread.tid = request.thread.tid → r.thread = request.thread)
    (hnew : ∀ r, s.Known r → r.thread.process = request.thread.process → r.number < request.number)
    (hlast : request.number = s.started request.thread.process)
    (hpos : 0 < request.number)
    (hseqid : request.seqid = seqidOf request.thread.tid (reqIdxAfter request.number)) :
    Orderly { s with
      sockets := { request := request, linked := true } :: s.sockets
      queue := { request := request, srcEid := request.eid, sunPath := request.sunPath } :: s.queue } := by
  have hcases : ∀ r, State.Known { s with
      sockets := { request := request, linked := true } :: s.sockets
      queue := { request := request, srcEid := request.eid, sunPath := request.sunPath } :: s.queue } r →
      r = request ∨ s.Known r := by
    rintro r (⟨k, hk, hr⟩ | ⟨d, hd, hr⟩ | hr)
    · rcases List.mem_cons.mp hk with rfl | hk
      · exact .inl hr.symm
      · exact .inr (.inl ⟨k, hk, hr⟩)
    · rcases List.mem_cons.mp hd with rfl | hd
      · exact .inl hr.symm
      · exact .inr (.inr (.inl ⟨d, hd, hr⟩))
    · exact .inr (.inr (.inr hr))
  constructor
  · exact h.counter
  · intro r hr
    rcases hcases r hr with rfl | hr
    · exact htid
    · exact h.tid_lt r hr
  · intro r hr
    rcases hcases r hr with rfl | hr
    · exact hpos
    · exact h.number_pos r hr
  · intro r hr
    rcases hcases r hr with rfl | hr
    · exact Nat.le_of_eq hlast
    · exact h.number_le r hr
  · intro r hr
    rcases hcases r hr with rfl | hr
    · exact hseqid
    · exact h.seqid_eq r hr
  · intro r r' hr hr' hproc hnum
    rcases hcases r hr with rfl | hold <;> rcases hcases r' hr' with rfl | hold'
    · rfl
    · exact absurd hnum.symm (Nat.ne_of_lt (hnew r' hold' hproc.symm))
    · exact absurd hnum (Nat.ne_of_lt (hnew r hold hproc))
    · exact h.unique r r' hold hold' hproc hnum
  · intro r r' hr hr' hsame
    rcases hcases r hr with rfl | hold <;> rcases hcases r' hr' with rfl | hold'
    · rfl
    · exact (howner r' hold' hsame.symm).symm
    · exact howner r hold hsame
    · exact h.owner r r' hold hold' hsame
  · intro k hk r hr hthread
    rcases List.mem_cons.mp hk with rfl | hbound
    · rcases hcases r hr with rfl | hold
      · exact Nat.le_refl _
      · exact Nat.le_of_lt (hnew r hold (by rw [hthread]))
    · rcases hcases r hr with rfl | hold
      · exact absurd hthread.symm (hidle k hbound)
      · exact h.latest k hbound r hold hthread
  · intro d hd
    rcases List.mem_cons.mp hd with rfl | hd
    · exact ⟨rfl, rfl⟩
    · exact h.queued d hd
  · exact h.held_eq
  · exact h.received_eq

theorem Orderly.zcfgMsgSendAndGetReply (h : Orderly s) {thread : Thread} {eid : UInt8} {sent : Bool}
    (hop : Enabled (.call thread eid sent) s) :
    Orderly (zcfgMsgSendAndGetReply thread eid sent s) := by
  obtain ⟨htid, hidle, howner⟩ := hop
  have hcount := h.count thread.process
  have hstarted : (s.count thread.process).started thread.process = s.started thread.process + 1 := by
    simp [State.count]
  simp only [ZcfgMsg.zcfgMsgSendAndGetReply]
  split
  · exact h
  · split
    · exact hcount.unlink _
    · split
      · exact hcount
      · refine hcount.add (s.nextRequest thread eid) htid hidle howner ?_ hstarted.symm
          (Nat.succ_pos _) ?_
        · intro r hr hproc
          have hle := h.number_le r hr
          rw [hproc] at hle
          exact Nat.lt_succ_of_le hle
        · simp only [State.nextRequest]
          rw [h.counter, nextReqIdx_reqIdxAfter]

/-- Every step keeps the invariant. -/
theorem Orderly.apply (h : Orderly s) {op : Op} (hop : Enabled op s) : Orderly (op.apply s) := by
  cases op with
  | call thread eid sent => exact h.zcfgMsgSendAndGetReply hop
  | close request => exact h.close request
  | serve d => exact h.msgRecv hop
  | reply q => exact h.msgSend hop.1 hop.2
  | discard q => exact h.dropHeld q

/-! ## Runs -/

/-- In every state of every run, replies were received by the requests they answer only; and a reply
that may now be sent goes to the path of the request it answers, which no other bound request
has. -/
theorem reaches_routed {s : State} (h : Reaches s) :
    (∀ p ∈ s.received, p.1 = p.2) ∧
      ∀ q ∈ s.held, s.Recent q.request →
        q.address = q.request.sunPath ∧
          ∀ k ∈ s.sockets, k.request.sunPath = q.address → k.request = q.request := by
  have horderly : Orderly s := by
    induction h with
    | init => exact Orderly.init
    | step _ hop ih => exact ih.apply hop
  refine ⟨horderly.received_eq, fun q hq hrecent => ?_⟩
  have haddress := horderly.address_eq hq
  refine ⟨haddress, fun k hk hpath => ?_⟩
  exact horderly.path_unique hk (.inr (.inr ⟨q, hq, rfl⟩)) hrecent (hpath.trans haddress)

/-- A thread of process 1. -/
def worker : Thread where
  process := 1
  tid := 700
  serial := 0

/-- The first request of that thread. -/
def firstRequest : Request where
  thread := worker
  eid := 3
  number := 1
  seqid := 66236

/-- What a server keeps of it. -/
def firstHeld : Held where
  request := firstRequest
  dstEid := 3
  clientPid := 66236

/-- The server has received the first request. -/
def firstServed : State :=
  (Op.serve { request := firstRequest, srcEid := 3, sunPath := firstRequest.sunPath }).apply
    ((Op.call worker 3 true).apply State.init)

/-- The reply to the first request goes to the path of the request. -/
theorem firstHeld_routed :
    firstHeld ∈ firstServed.held ∧ firstHeld.address = firstRequest.sunPath := by
  have hcall : Reaches ((Op.call worker 3 true).apply State.init) := by
    apply Reaches.init.step
    refine ⟨by decide, by simp [State.init], ?_⟩
    rintro r (⟨k, hk, _⟩ | ⟨d, hd, _⟩ | ⟨q, hq, _⟩)
    · cases hk
    · cases hd
    · cases hq
  have hserve : Reaches firstServed := hcall.step (by simp only [Enabled]; decide)
  have hmem : firstHeld ∈ firstServed.held := by decide
  exact ⟨hmem, ((reaches_routed hserve).2 firstHeld hmem (by simp only [State.Recent]; decide)).1⟩

end ZcfgMsg
end ZyxelRouter
