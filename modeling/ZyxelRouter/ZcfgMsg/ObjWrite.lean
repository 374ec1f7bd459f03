import ZyxelRouter.Lib.Bytes
import ZyxelRouter.ZcfgCommon
import ZyxelRouter.ZcfgMsg.Routing

/-!
# Requests to write an object

{lit}`zcfgFeObjWrite` sends a header and a string in one datagram.  The length of the string
travels in a field of 16 bits, from which both sides compute how many bytes the datagram has.

Main results:

- Theorem {lit}`ofBytes_toBytes`: a header is read back from its bytes.
- Theorem {lit}`zcfgFeObjWrite_delivered_iff`: when the receiver gets the whole string.
-/

namespace ZyxelRouter
namespace ZcfgMsg

open Lib

/-! ## Headers -/

/-- {lit}`zcfgMsg_t`, with the byte of padding behind {lit}`objIid`. -/
structure Header where
  type : UInt32
  oid : UInt32
  srcEid : UInt8
  dstEid : UInt8
  length : UInt16
  clientPid : UInt32
  statCode : UInt32
  reserve : List UInt8
  objIid : ObjIndex
  pad : UInt8
  reserve_length : reserve.length = 28
deriving DecidableEq

theorem length_blankReserve : (List.replicate 28 (0 : UInt8)).length = 28 := List.length_replicate

/-- {lit}`sizeof(zcfgMsg_t)`. -/
def headerSize : Nat := 56

/-- The bytes of a header in memory. -/
def Header.toBytes (m : Header) : List UInt8 :=
  leBytes 4 m.type.toNat ++ leBytes 4 m.oid.toNat ++ [m.srcEid, m.dstEid] ++
    leBytes 2 m.length.toNat ++ leBytes 4 m.clientPid.toNat ++ leBytes 4 m.statCode.toNat ++
    m.reserve ++ m.objIid.bytes ++ [m.pad]

/-- The header that bytes in memory are. -/
def Header.ofBytes (bytes : List UInt8) (h : bytes.length = headerSize) : Header where
  type := UInt32.ofNat (leNat (readAt bytes 0 4))
  oid := UInt32.ofNat (leNat (readAt bytes 4 4))
  srcEid := bytes.getD 8 0
  dstEid := bytes.getD 9 0
  length := UInt16.ofNat (leNat (readAt bytes 10 2))
  clientPid := UInt32.ofNat (leNat (readAt bytes 12 4))
  statCode := UInt32.ofNat (leNat (readAt bytes 16 4))
  reserve := readAt bytes 20 28
  objIid :=
    { level := bytes.getD 48 0
      idx := readAt bytes 49 6
      idx_length := length_readAt (by rw [h]; decide) }
  pad := bytes.getD 55 0
  reserve_length := length_readAt (by rw [h]; decide)

theorem length_toBytes (m : Header) : m.toBytes.length = headerSize := by
  simp [Header.toBytes, ObjIndex.bytes, m.reserve_length, m.objIid.idx_length, headerSize,
    supportedIndexLevel]

theorem ofNat_leNat_leBytes (x : UInt32) : UInt32.ofNat (leNat (leBytes 4 x.toNat)) = x := by
  have hlt : x.toNat < 256 ^ 4 := x.toNat_lt
  rw [leNat_leBytes, Nat.mod_eq_of_lt hlt, UInt32.ofNat_toNat]

theorem ofNat16_leNat_leBytes (x : UInt16) : UInt16.ofNat (leNat (leBytes 2 x.toNat)) = x := by
  have hlt : x.toNat < 256 ^ 2 := x.toNat_lt
  rw [leNat_leBytes, Nat.mod_eq_of_lt hlt, UInt16.ofNat_toNat]

/-- The bytes of a header behind its first twenty. -/
theorem toBytes_eq (m : Header) :
    ∃ front : List UInt8, front.length = 20 ∧
      m.toBytes = front ++ (m.reserve ++ (m.objIid.level :: (m.objIid.idx ++ [m.pad]))) := by
  refine ⟨leBytes 4 m.type.toNat ++ leBytes 4 m.oid.toNat ++ [m.srcEid, m.dstEid] ++
    leBytes 2 m.length.toNat ++ leBytes 4 m.clientPid.toNat ++ leBytes 4 m.statCode.toNat, ?_, ?_⟩
  · simp
  · simp [Header.toBytes, ObjIndex.bytes]

/-- A header is read back from its bytes. -/
theorem ofBytes_toBytes (m : Header) : Header.ofBytes m.toBytes (length_toBytes m) = m := by
  obtain ⟨front, hfront, heq⟩ := toBytes_eq m
  have hreserve : readAt m.toBytes 20 28 = m.reserve := by
    rw [heq, readAt, ← hfront, List.drop_left, ← m.reserve_length, List.take_left]
  have htail : m.toBytes.drop 48 = m.objIid.level :: (m.objIid.idx ++ [m.pad]) := by
    have h48 : 48 = front.length + m.reserve.length := by rw [hfront, m.reserve_length]
    rw [heq, h48, ← List.drop_drop, List.drop_left, List.drop_left]
  have hlevel : m.toBytes.getD 48 0 = m.objIid.level := by
    rw [List.getD_eq_getElem?_getD, ← List.head?_drop, htail]
    rfl
  have hidx : readAt m.toBytes 49 6 = m.objIid.idx := by
    have h49 : m.toBytes.drop 49 = (m.toBytes.drop 48).drop 1 := by rw [List.drop_drop]
    rw [readAt, h49, htail, List.drop_one, List.tail_cons]
    exact List.take_left' m.objIid.idx_length
  have hpad : m.toBytes.getD 55 0 = m.pad := by
    have h55 : m.toBytes.drop 55 = ((m.toBytes.drop 48).drop 1).drop 6 := by
      rw [List.drop_drop, List.drop_drop]
    have hsix : m.objIid.idx.length = 6 := m.objIid.idx_length
    rw [List.getD_eq_getElem?_getD, ← List.head?_drop, h55, htail, List.drop_one, List.tail_cons,
      List.drop_left' hsix]
    rfl
  have htype : readAt m.toBytes 0 4 = leBytes 4 m.type.toNat := rfl
  have hoid : readAt m.toBytes 4 4 = leBytes 4 m.oid.toNat := rfl
  have hlength : readAt m.toBytes 10 2 = leBytes 2 m.length.toNat := rfl
  have hpid : readAt m.toBytes 12 4 = leBytes 4 m.clientPid.toNat := rfl
  have hstat : readAt m.toBytes 16 4 = leBytes 4 m.statCode.toNat := rfl
  simp only [Header.ofBytes, htype, hoid, hlength, hpid, hstat, hreserve, hlevel, hidx, hpad,
    ofNat_leNat_leBytes, ofNat16_leNat_leBytes]
  rfl

/-! ## Sending and receiving -/

/-- What {lit}`sendto` does with a datagram: it is sent whole, {lit}`EAGAIN`, or another error. -/
inductive SendOutcome where
  | sent
  | again
  | error
deriving DecidableEq, Repr

/-- The loop of {lit}`_msg_send` over the outcomes of {lit}`sendto`; tries are counted for messages
without reply only, and {lit}`none` means that the loop still waits. -/
def sendLoop (withReply : Bool) : Nat → List SendOutcome → Option ZcfgRet
  | _, [] => none
  | _, .sent :: _ => some .success
  | tryCnt, .again :: rest =>
      if tryCnt < 3 then sendLoop withReply (if withReply then tryCnt else tryCnt + 1) rest
      else some .internalError
  | _, .error :: _ => some .internalError

/-- {lit}`ZCFG_NO_WAIT_REPLY`. -/
def zcfgNoWaitReply : UInt32 := 0x80000000

/-- {lit}`ZCFG_MSG_WITH_REPLY`. -/
def zcfgMsgWithReply (type : UInt32) : Bool :=
  type &&& zcfgNoWaitReply == 0

/-- The datagram that {lit}`_msg_send` sends: the header with {lit}`srcEid` set and as many bytes
behind it as its length says. -/
def Header.datagram (m : Header) (eid : UInt8) (payload : List UInt8) : List UInt8 :=
  (Header.toBytes { m with srcEid := eid } ++ payload).take (headerSize + m.length.toNat)

/-- {lit}`_msg_recv` on a datagram: the header is peeked at for the length, then that many bytes are
read; a server sets {lit}`clientPid` from the address of the sender. -/
def recvDatagram (bServer : Bool) (sunPath : List Char) (datagram : List UInt8) :
    Option (Header × List UInt8) :=
  if h : (datagram.take headerSize).length = headerSize then
    let rcvMsg := Header.ofBytes (datagram.take headerSize) h
    let recvLen := headerSize + rcvMsg.length.toNat
    if (datagram.take recvLen).length ≠ recvLen then none
    else
      let hdr := if bServer then { rcvMsg with clientPid := UInt32.ofNat (msgClientPid sunPath) }
        else rcvMsg
      some (hdr, (datagram.take recvLen).drop headerSize)
  else none

/-! ## Writing an object -/

/-- {lit}`RESPONSE_WRITE_OBJ_SUCCESS`. -/
def responseWriteObjSuccess : UInt32 := 105 ||| zcfgNoWaitReply

/-- What {lit}`zcfgFeObjWrite` finds outside: its EID, what is in the memory it allocates for the
header, whether the socket can be made and bound, how {lit}`sendto` goes, and the reply or the error
of waiting for it. -/
structure WriteEnv where
  eid : UInt8
  memory : Header
  bound : Bool
  outcomes : List SendOutcome
  reply : Except ZcfgRet (Header × List UInt8)

/-- The result of {lit}`zcfgFeObjWrite`: an own error or the {lit}`statCode` of the reply, the
datagram that was sent, and what is left in {lit}`objIid` and written to {lit}`feedbackMsg`. -/
structure WriteResult where
  ret : ZcfgRet ⊕ UInt32
  sent : Option (List UInt8)
  objIid : ObjIndex
  feedbackMsg : Option (List UInt8)

/-- The header that {lit}`zcfgFeObjWrite` fills in. -/
def writeHeader (env : WriteEnv) (oid : UInt32) (objIid : ObjIndex) (len : Nat) (type : UInt32) :
    Header :=
  { env.memory with
    type := type, length := UInt16.ofNat len, objIid := objIid, oid := oid, srcEid := env.eid,
    dstEid := 1 }

/-- {lit}`zcfgFeObjWrite`; {lit}`setValue` is a string without its terminator, or a null pointer. -/
def zcfgFeObjWrite (env : WriteEnv) (oid : UInt32) (objIid : ObjIndex)
    (setValue : Option (List UInt8)) (type : UInt32) : Option WriteResult :=
  if env.eid = 0 then some ⟨.inl .invalidEid, none, objIid, none⟩
  else
    let len := match setValue with
      | some str => str.length + 1
      | none => 0
    let payload := match setValue with
      | some str => str ++ [0]
      | none => []
    let sendMsgHdr := writeHeader env oid objIid len type
    if !env.bound then some ⟨.inl .internalError, none, objIid, none⟩
    else
      match sendLoop (zcfgMsgWithReply type) 0 env.outcomes with
      | none => none
      | some .success =>
          let datagram := sendMsgHdr.datagram env.eid payload
          if !zcfgMsgWithReply type then some ⟨.inl .successAndNoReply, datagram, objIid, none⟩
          else
            match env.reply with
            | .error ret => some ⟨.inl ret, datagram, objIid, none⟩
            | .ok (hdr, str) =>
                if hdr.type = responseWriteObjSuccess then
                  some ⟨.inr hdr.statCode, datagram, hdr.objIid, none⟩
                else
                  some ⟨.inr hdr.statCode, datagram, objIid,
                    if 0 < hdr.length.toNat then some str else none⟩
      | some ret => some ⟨.inl ret, none, objIid, none⟩

/-! ## What arrives -/

/-- A received message has the header fields of the request and the whole string with its
terminator. -/
structure Carries (received : Header × List UInt8) (oid : UInt32) (objIid : ObjIndex)
    (setValue : List UInt8) (type : UInt32) : Prop where
  type_eq : received.1.type = type
  oid_eq : received.1.oid = oid
  objIid_eq : received.1.objIid = objIid
  payload_eq : received.2 = setValue ++ [0]

/-- A datagram is received with the header that was sent and the payload up to its length. -/
theorem recvDatagram_datagram (bServer : Bool) (sunPath : List Char) (m : Header) (eid : UInt8)
    (payload : List UInt8) (hlen : m.length.toNat ≤ payload.length) :
    ∃ hdr, recvDatagram bServer sunPath (m.datagram eid payload) =
        some (hdr, payload.take m.length.toNat) ∧
      hdr.type = m.type ∧ hdr.oid = m.oid ∧ hdr.objIid = m.objIid := by
  have hbytes : (Header.toBytes { m with srcEid := eid }).length = headerSize := length_toBytes _
  have hdatagram : m.datagram eid payload =
      Header.toBytes { m with srcEid := eid } ++ payload.take m.length.toNat := by
    rw [Header.datagram, List.take_append, hbytes, Nat.add_sub_cancel_left,
      List.take_of_length_le (by rw [hbytes]; exact Nat.le_add_right _ _)]
  have hpeek : (m.datagram eid payload).take headerSize = Header.toBytes { m with srcEid := eid } := by
    rw [hdatagram]
    exact List.take_left' hbytes
  have hall : (m.datagram eid payload).take (headerSize + m.length.toNat) = m.datagram eid payload := by
    rw [Header.datagram, List.take_take, Nat.min_self]
  have htotal : (m.datagram eid payload).length = headerSize + m.length.toNat := by
    rw [hdatagram, List.length_append, hbytes, List.length_take, Nat.min_eq_left hlen]
  have hdrop : (m.datagram eid payload).drop headerSize = payload.take m.length.toNat := by
    rw [hdatagram]
    exact List.drop_left' hbytes
  have hhdr : ∀ h, Header.ofBytes ((m.datagram eid payload).take headerSize) h = { m with srcEid := eid } := by
    rw [hpeek]
    exact fun _ => ofBytes_toBytes _
  rw [recvDatagram, dif_pos (by rw [hpeek, hbytes])]
  simp only [hhdr, hall, htotal, ne_eq, not_true_eq_false, if_false, hdrop]
  cases bServer with
  | true => exact ⟨_, rfl, rfl, rfl, rfl⟩
  | false => exact ⟨_, rfl, rfl, rfl, rfl⟩

/-- What {lit}`zcfgFeObjWrite` has sent. -/
theorem zcfgFeObjWrite_sent {env : WriteEnv} {oid : UInt32} {objIid : ObjIndex} {setValue : List UInt8}
    {type : UInt32} {result : WriteResult} {datagram : List UInt8}
    (hrun : zcfgFeObjWrite env oid objIid (some setValue) type = some result)
    (hsent : result.sent = some datagram) :
    datagram =
      (writeHeader env oid objIid (setValue.length + 1) type).datagram env.eid (setValue ++ [0]) := by
  simp only [zcfgFeObjWrite] at hrun
  split at hrun
  · cases hrun
    cases hsent
  · split at hrun
    · cases hrun
      cases hsent
    · split at hrun
      · cases hrun
      · split at hrun
        · cases hrun
          exact (Option.some.inj hsent).symm
        · split at hrun
          · cases hrun
            exact (Option.some.inj hsent).symm
          · split at hrun
            · cases hrun
              exact (Option.some.inj hsent).symm
            · cases hrun
              exact (Option.some.inj hsent).symm
      · cases hrun
        cases hsent

/-- A request that {lit}`zcfgFeObjWrite` has sent is received, with the header fields of the call; it
has the whole string if and only if string and terminator are shorter than 65536 bytes. -/
theorem zcfgFeObjWrite_delivered_iff (env : WriteEnv) (oid : UInt32) (objIid : ObjIndex)
    (setValue : List UInt8) (type : UInt32) (result : WriteResult) (datagram : List UInt8)
    (hrun : zcfgFeObjWrite env oid objIid (some setValue) type = some result)
    (hsent : result.sent = some datagram) (sunPath : List Char) :
    ∃ received, recvDatagram true sunPath datagram = some received ∧
      (Carries received oid objIid setValue type ↔ setValue.length + 1 < 65536) := by
  have hdatagram := zcfgFeObjWrite_sent hrun hsent
  have hlength : (writeHeader env oid objIid (setValue.length + 1) type).length.toNat =
      (setValue.length + 1) % 65536 := by
    simp [writeHeader]
  have hpayload : (setValue ++ [0]).length = setValue.length + 1 := by simp
  have hle : (writeHeader env oid objIid (setValue.length + 1) type).length.toNat ≤
      (setValue ++ [0]).length := by
    rw [hlength, hpayload]
    exact Nat.mod_le _ _
  obtain ⟨hdr, hrecv, htype, hoid, hiid⟩ := recvDatagram_datagram true sunPath _ env.eid _ hle
  refine ⟨_, by rw [hdatagram]; exact hrecv, ?_⟩
  constructor
  · intro hcarries
    have heq := congrArg List.length hcarries.payload_eq
    rw [List.length_take, hlength, hpayload] at heq
    omega
  · intro hlt
    refine ⟨htype, hoid, hiid, ?_⟩
    rw [hlength, Nat.mod_eq_of_lt hlt]
    exact List.take_of_length_le (Nat.le_of_eq hpayload)

/-- A sender with EID 2 whose request is sent at once; the reply does not matter. -/
def plainEnv : WriteEnv where
  eid := 2
  memory :=
    { type := 0, oid := 0, srcEid := 0, dstEid := 0, length := 0, clientPid := 0, statCode := 0,
      reserve := List.replicate 28 0, objIid := ObjIndex.zero, pad := 0,
      reserve_length := length_blankReserve }
  bound := true
  outcomes := [.sent]
  reply := .error .timeout

/-- A short string arrives whole. -/
theorem zcfgFeObjWrite_delivers_short :
    ∃ received, recvDatagram true (bindPath 2 65537)
        ((writeHeader plainEnv 9 ObjIndex.zero 2 3).datagram 2 [0x61, 0]) = some received ∧
      Carries received 9 ObjIndex.zero [0x61] 3 := by
  obtain ⟨received, hrecv, hiff⟩ := zcfgFeObjWrite_delivered_iff plainEnv 9 ObjIndex.zero [0x61] 3
    ⟨.inl .timeout, some ((writeHeader plainEnv 9 ObjIndex.zero 2 3).datagram 2 [0x61, 0]),
      ObjIndex.zero, none⟩ _ rfl rfl (bindPath 2 65537)
  exact ⟨received, hrecv, hiff.mpr (by decide)⟩

/-- A string of 65535 bytes. -/
def longValue : List UInt8 :=
  List.replicate 65535 0x61

theorem length_longValue : longValue.length = 65535 :=
  List.length_replicate

/-- What is sent with an immediate success. -/
theorem zcfgFeObjWrite_plainEnv (setValue : List UInt8) :
    zcfgFeObjWrite plainEnv 9 ObjIndex.zero (some setValue) 3 =
      some ⟨.inl .timeout,
        some ((writeHeader plainEnv 9 ObjIndex.zero (setValue.length + 1) 3).datagram 2 (setValue ++ [0])),
        ObjIndex.zero, none⟩ :=
  rfl

/-- That string is sent with a length of zero, and nothing of it arrives. -/
theorem zcfgFeObjWrite_drops_long :
    ∃ result datagram,
      zcfgFeObjWrite plainEnv 9 ObjIndex.zero (some longValue) 3 = some result ∧
        result.sent = some datagram ∧
        ∃ received, recvDatagram true (bindPath 2 65537) datagram = some received ∧
          ¬ Carries received 9 ObjIndex.zero longValue 3 := by
  refine ⟨_, _, zcfgFeObjWrite_plainEnv longValue, rfl, ?_⟩
  have hlength : (writeHeader plainEnv 9 ObjIndex.zero (longValue.length + 1) 3).length.toNat = 0 := by
    rw [length_longValue]
    rfl
  obtain ⟨hdr, hrecv, _⟩ := recvDatagram_datagram true (bindPath 2 65537)
    (writeHeader plainEnv 9 ObjIndex.zero (longValue.length + 1) 3) 2
    (longValue ++ [0]) (by rw [hlength]; exact Nat.zero_le _)
  rw [hlength] at hrecv
  refine ⟨_, hrecv, fun hcarries => ?_⟩
  have hnil := congrArg List.length hcarries.payload_eq
  rw [List.length_append, length_longValue] at hnil
  cases hnil

end ZcfgMsg
end ZyxelRouter
