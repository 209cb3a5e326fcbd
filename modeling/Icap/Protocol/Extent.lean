import Icap.Protocol.Target

set_option autoImplicit false

/-! # How much of a message is read

`icap_parse_msg` checks the length of a frame against its header, not against its command, and a
handler reads the payload its command calls for. What `icap_parse_msg` does is determined by the
bytes received exactly when the payload is as long as what the handler reads of it
(`parse_determined_iff`).
-/

namespace Icap

open ByteMemory

/-! ## Running a message to its end -/

/-- What a handler does that others see: it invokes a callback or sends a frame. -/
inductive Action where
  | invoked (c : Callback)
  | sent (frame : List Byte)

/-- A platform with its `icap_response_notify`, which takes nothing of a response but the bytes
of its total length. -/
structure Transport (T : Type) extends Platform T where
  icapResponseNotify : T → IcapMsg → T × U32
  wide : 32 ≤ sizeBits
  notify_congr : ∀ (t : T) (r r' : IcapMsg), sizeofIcapMsgHeader ≤ r.totalLen.toNat →
    (∀ i, i < r.totalLen.toNat → r' i = r i) →
      icapResponseNotify t r' = icapResponseNotify t r

section

variable {T : Type} (P : Transport T) (answer : Callback → CallbackResult) (sendRet : U32)

/-- A handler run to its end; callbacks return `answer` and `icap_send_platform` returns
`sendRet`. -/
def Parse.perform {α : Type} : Parse α → T → T × List Action × α
  | .done a, t => (t, [], a)
  | .callback c k, t =>
      let (t', acts, a) := (k (answer c)).perform t
      (t', .invoked c :: acts, a)
  | .sendPlatform frame k, t =>
      let (t', acts, a) := (k sendRet).perform t
      (t', .sent frame :: acts, a)
  | .responseNotify response k, t =>
      let (t', ret) := P.icapResponseNotify t response
      (k ret).perform t'

/-- `icap_parse_msg` run to its end: the instance, what was done, and what is returned. -/
def parseOutcome (icap : IcapInstance T) (srcAddr : U32) (msg : IcapMsg) (size : U32) :
    IcapInstance T × List Action × U32 :=
  let (icap', p) := icapParseMsg P.toPlatform icap srcAddr msg size
  let (t, acts, ret) := p.perform P answer sendRet icap'.transport
  ({ icap' with transport := t }, acts, ret)

/-- The two memories hold the same bytes received. -/
def SameBytes (size : U32) (msg msg' : IcapMsg) : Prop := ∀ i, i < size.toNat → msg' i = msg i

/-- What `icap_parse_msg` does depends on the bytes received only. -/
def Determined (icap : IcapInstance T) (srcAddr : U32) (msg : IcapMsg) (size : U32) : Prop :=
  ∀ msg', SameBytes size msg msg' → ∀ answer sendRet,
    parseOutcome P answer sendRet icap srcAddr msg' size
      = parseOutcome P answer sendRet icap srcAddr msg size

end

/-! ## What a handler reads -/

/-- The bytes of a callback's argument. -/
def Callback.args : Callback → List Byte
  | .fragReady buf => buf.toList
  | .xrun buf => buf.toList
  | .error errorCode => word32 errorCode
  | .getSubdevices => []
  | .getSubdeviceFeatures subdevId => word32 subdevId
  | .subdeviceInit params => params.toList
  | .subdeviceDeinit subdevId => word32 subdevId
  | .addSrc buf => buf.toList
  | .addDst buf => buf.toList
  | .removeSrc bufId => word32 bufId
  | .removeDst bufId => word32 bufId
  | .start subdevId => word32 subdevId
  | .stop subdevId => word32 subdevId
  | .pause subdevId => word32 subdevId
  | .resume subdevId => word32 subdevId
  | .frags offsets => offsets.toList
  | .fragReadyResponse bufId => word32 bufId
  | .xrunResponse bufId => word32 bufId
  | .errorResponse errorCode => word32 errorCode

/-- The payload bytes read for a message with the handler `h`: the callback's argument, or what
the ACK of a `NULL` callback repeats. -/
def Handler.extent (h : Handler) (cb : CallbackTable) : Nat :=
  if cb h.callback.id then h.callback.args.length else h.kind.defaultPayload.length

/-- The payload bytes read for a response to a device. An `ERROR` is acknowledged without
payload. -/
def verdictExtent (cb : CallbackTable) (msg : IcapMsg) : Nat :=
  if msg.cmd = ICAP_MSG_FRAG_READY then if cb .fragReadyResponse then 4 else 0
  else if msg.cmd = ICAP_MSG_XRUN then if cb .xrunResponse then 4 else 0
  else if msg.cmd = ICAP_MSG_ERROR then
    if cb .errorResponse ∧ msg.type = ICAP_NAK then 4 else 0
  else 0

/-- The payload bytes a handler reads. -/
def Target.extent (cb : CallbackTable) (msg : IcapMsg) : Target → Nat
  | applicationParseResponse => 0
  | deviceParseResponse => verdictExtent cb msg
  | applicationParseMsg => ((applicationHandler msg).map (·.extent cb)).getD 0
  | deviceParseMsg => ((deviceHandler msg).map (·.extent cb)).getD 0

/-! ## The rows of the command table -/

/-- Two messages with the same header fields. -/
structure SameHeader (msg msg' : IcapMsg) : Prop where
  protocolVersion : msg'.protocolVersion = msg.protocolVersion
  seqNum : msg'.seqNum = msg.seqNum
  cmd : msg'.cmd = msg.cmd
  type : msg'.type = msg.type
  payloadLen : msg'.payloadLen = msg.payloadLen

/-- The first `n` payload bytes are the same. -/
def SamePayload (n : Nat) (msg msg' : IcapMsg) : Prop :=
  ∀ i, i < n → msg' (sizeofIcapMsgHeader + i) = msg (sizeofIcapMsgHeader + i)

/-- A row of the table as a function of the message: which callback it is for is fixed, its
argument and the default ACK repeat the beginning of the payload, and nothing else depends on
it. -/
structure Row (row : IcapMsg → Handler) : Prop where
  id : ∀ m m', (row m').callback.id = (row m).callback.id
  args : ∃ n, ∀ m, (row m).callback.args = block m sizeofIcapMsgHeader n
  defaultPayload : ∃ n, ∀ m, (row m).kind.defaultPayload = block m sizeofIcapMsgHeader n
  congr : ∀ m m', SamePayload (row m).callback.args.length m m' → row m' = row m

section

variable {msg msg' : IcapMsg}

theorem block_eq_of_samePayload {n : Nat} (h : SamePayload n msg msg') :
    block msg' sizeofIcapMsgHeader n = block msg sizeofIcapMsgHeader n := by
  apply List.map_congr_left
  intro i hi
  exact h i (List.mem_range.mp hi)

theorem payloadU32_of_samePayload (h : SamePayload 4 msg msg') :
    msg'.payloadU32 = msg.payloadU32 :=
  load32_congr fun i hi => h i hi

theorem payloadStruct_of_samePayload {n : Nat} (h : SamePayload n msg msg') :
    msg'.payloadStruct n = msg.payloadStruct n := by
  apply Vector.ext
  intro i hi
  simp only [IcapMsg.payloadStruct, Vector.getElem_ofFn]
  exact h i hi

theorem payloadStruct_toList (m : IcapMsg) (n : Nat) :
    (m.payloadStruct n).toList = block m sizeofIcapMsgHeader n := by
  apply List.ext_getElem
  · simp
  · intro i _ _
    simp [IcapMsg.payloadStruct, block]

/-- A row whose callback takes the first payload word. -/
theorem Row.word {kind : AnswerKind} {f : U32 → Callback} (hkind : kind.defaultPayload = [])
    (hid : ∀ v v', (f v').id = (f v).id) (hargs : ∀ v, (f v).args = word32 v) :
    Row fun m => ⟨kind, f m.payloadU32⟩ where
  id _ _ := hid _ _
  args := ⟨4, fun m => (hargs _).trans (word32_load32 _ _)⟩
  defaultPayload := ⟨0, fun _ => hkind⟩
  congr m m' h := by
    rw [hargs, word32_length] at h
    simp only [payloadU32_of_samePayload h]

/-- A row whose callback takes a struct. -/
theorem Row.struct {kind : AnswerKind} {n : Nat} {f : Vector Byte n → Callback}
    (hkind : kind.defaultPayload = []) (hid : ∀ v v', (f v').id = (f v).id)
    (hargs : ∀ v, (f v).args = v.toList) : Row fun m => ⟨kind, f (m.payloadStruct n)⟩ where
  id _ _ := hid _ _
  args := ⟨n, fun m => (hargs _).trans (payloadStruct_toList m n)⟩
  defaultPayload := ⟨0, fun _ => hkind⟩
  congr m m' h := by
    rw [hargs, Vector.length_toList] at h
    simp only [payloadStruct_of_samePayload h]

/-- A row whose ACK repeats the buffer id. -/
theorem Row.frags {f : IcapBufFrags → Callback} (hid : ∀ v v', (f v').id = (f v).id)
    (hargs : ∀ v, (f v).args = v.toList) :
    Row fun m => ⟨.frags m.payloadU32, f (m.payloadStruct 8)⟩ where
  id _ _ := hid _ _
  args := ⟨8, fun m => (hargs _).trans (payloadStruct_toList m 8)⟩
  defaultPayload := ⟨4, fun m => word32_load32 _ _⟩
  congr m m' h := by
    rw [hargs, Vector.length_toList] at h
    have hword : SamePayload 4 m m' := fun i hi => h i (by omega)
    simp only [payloadStruct_of_samePayload h, payloadU32_of_samePayload hword]

theorem Row.const {kind : AnswerKind} {c : Callback} (hkind : kind.defaultPayload = [])
    (hargs : c.args = []) : Row fun _ => ⟨kind, c⟩ where
  id _ _ := rfl
  args := ⟨0, fun _ => hargs⟩
  defaultPayload := ⟨0, fun _ => hkind⟩
  congr _ _ _ := rfl

/-- For the messages with the command of `msg` the table has one row, or none. -/
def RowOf (msg : IcapMsg) (table : IcapMsg → Option Handler) : Prop :=
  (∀ m, m.cmd = msg.cmd → table m = none) ∨
    ∃ row, Row row ∧ ∀ m, m.cmd = msg.cmd → table m = some (row m)

theorem RowOf.ite {cmd : U32} {row : IcapMsg → Handler} {rest : IcapMsg → Option Handler}
    (hrow : Row row) (hrest : RowOf msg rest) :
    RowOf msg fun m => if m.cmd = cmd then some (row m) else rest m := by
  by_cases hcmd : msg.cmd = cmd
  · exact Or.inr ⟨row, hrow, fun m hm => if_pos (hm.trans hcmd)⟩
  · rcases hrest with hnone | ⟨row', hrow', hsome⟩
    · exact Or.inl fun m hm => (if_neg fun h => hcmd (hm.symm.trans h)).trans (hnone m hm)
    · exact Or.inr ⟨row', hrow', fun m hm =>
        (if_neg fun h => hcmd (hm.symm.trans h)).trans (hsome m hm)⟩

theorem RowOf.none : RowOf msg fun _ => Option.none := Or.inl fun _ _ => rfl

theorem applicationHandler_row (msg : IcapMsg) : RowOf msg applicationHandler :=
  .ite (Row.frags (fun _ _ => rfl) fun _ => rfl) <|
  .ite (Row.frags (fun _ _ => rfl) fun _ => rfl) <|
  .ite (Row.word rfl (fun _ _ => rfl) fun _ => rfl) <|
  .none

theorem deviceHandler_row (msg : IcapMsg) : RowOf msg deviceHandler :=
  .ite (Row.const rfl rfl) <|
  .ite (Row.word rfl (fun _ _ => rfl) fun _ => rfl) <|
  .ite (Row.struct rfl (fun _ _ => rfl) fun _ => rfl) <|
  .ite (Row.word rfl (fun _ _ => rfl) fun _ => rfl) <|
  .ite (Row.struct rfl (fun _ _ => rfl) fun _ => rfl) <|
  .ite (Row.struct rfl (fun _ _ => rfl) fun _ => rfl) <|
  .ite (Row.word rfl (fun _ _ => rfl) fun _ => rfl) <|
  .ite (Row.word rfl (fun _ _ => rfl) fun _ => rfl) <|
  .ite (Row.word rfl (fun _ _ => rfl) fun _ => rfl) <|
  .ite (Row.word rfl (fun _ _ => rfl) fun _ => rfl) <|
  .ite (Row.word rfl (fun _ _ => rfl) fun _ => rfl) <|
  .ite (Row.word rfl (fun _ _ => rfl) fun _ => rfl) <|
  .ite (Row.struct rfl (fun _ _ => rfl) fun _ => rfl) <|
  .none

/-! ## Handlers -/

/-- What an action shows of a payload. -/
def Action.payload : Action → List Byte
  | .invoked c => c.args
  | .sent frame => frame.drop sizeofIcapMsgHeader

theorem icapMsgFrame_payload (cmd type seqNum : U32) (payload : List Byte) :
    (icapMsgFrame cmd type seqNum payload).drop sizeofIcapMsgHeader = payload := by
  have hlen : (word32 ICAP_PROTOCOL_VERSION ++ word32 seqNum ++ word32 cmd ++ word32 type
      ++ List.replicate 20 (0 : Byte) ++ word32 (BitVec.ofNat 32 payload.length)).length
        = sizeofIcapMsgHeader := rfl
  rw [icapMsgFrame, ← hlen, List.drop_left]

theorem SameHeader.ackFrame_eq (h : SameHeader msg msg') (payload : List Byte) :
    ackFrame msg' payload = ackFrame msg payload := by
  rw [ackFrame, ackFrame, h.cmd, h.seqNum]

theorem SameHeader.nakFrame_eq (h : SameHeader msg msg') (error : U32) :
    nakFrame msg' error = nakFrame msg error := by
  rw [nakFrame, nakFrame, h.cmd, h.seqNum]

theorem SameHeader.reply_eq (h : SameHeader msg msg') (handler : Handler) (r : CallbackResult) :
    handler.reply msg' r = handler.reply msg r := by
  rw [Handler.reply, Handler.reply, h.nakFrame_eq, h.ackFrame_eq]

section

variable {cb : CallbackTable} {table : IcapMsg → Option Handler}

/-- The extent of a message, `0` without a row. -/
abbrev tableExtent (cb : CallbackTable) (table : IcapMsg → Option Handler) (msg : IcapMsg) : Nat :=
  ((table msg).map (·.extent cb)).getD 0

theorem Row.extent_eq {row : IcapMsg → Handler} (h : Row row) (m m' : IcapMsg) :
    (row m').extent cb = (row m).extent cb := by
  obtain ⟨n, hn⟩ := h.args
  obtain ⟨k, hk⟩ := h.defaultPayload
  simp only [Handler.extent, h.id m m', hn, hk, block_length]

/-- The command decides how much is read. -/
theorem RowOf.extent_eq (h : RowOf msg table) (hcmd : msg'.cmd = msg.cmd) :
    tableExtent cb table msg' = tableExtent cb table msg := by
  rcases h with hnone | ⟨row, hrow, hsome⟩
  · simp only [tableExtent, hnone msg' hcmd, hnone msg rfl]
  · simp only [tableExtent, hsome msg' hcmd, hsome msg rfl, Option.map_some, Option.getD_some]
    exact hrow.extent_eq msg msg'

/-- The payload that is read decides what a message handler does. -/
theorem RowOf.handle_congr (h : RowOf msg table) (hheader : SameHeader msg msg')
    (hpayload : SamePayload (tableExtent cb table msg) msg msg') :
    handle cb msg' (table msg') = handle cb msg (table msg) := by
  rcases h with hnone | ⟨row, hrow, hsome⟩
  · rw [hnone msg' hheader.cmd, hnone msg rfl, handle, handle, hheader.nakFrame_eq]
  · rw [tableExtent, hsome msg rfl] at hpayload
    rw [hsome msg' hheader.cmd, hsome msg rfl]
    have hpayload' : SamePayload ((row msg).extent cb) msg msg' := hpayload
    by_cases hset : cb (row msg).callback.id = true
    · rw [Handler.extent, if_pos hset] at hpayload'
      rw [hrow.congr msg msg' hpayload', handle, handle, if_pos hset, if_pos hset]
      simp only [hheader.reply_eq]
    · rw [Handler.extent, if_neg hset] at hpayload'
      have hset' : ¬ cb (row msg').callback.id = true := by rwa [hrow.id msg msg']
      obtain ⟨k, hk⟩ := hrow.defaultPayload
      rw [hk, block_length] at hpayload'
      have hreply : (row msg').defaultReply msg' = (row msg).defaultReply msg := by
        calc (row msg').defaultReply msg'
            = ackFrame msg (block msg' sizeofIcapMsgHeader k) := by
              rw [Handler.defaultReply, hheader.ackFrame_eq, hk]
          _ = ackFrame msg (block msg sizeofIcapMsgHeader k) := by
              rw [block_eq_of_samePayload hpayload']
          _ = (row msg).defaultReply msg := by rw [Handler.defaultReply, hk]
      rw [handle, handle, if_neg hset, if_neg hset', hreply]

/-- What is read of the payload shows in the first action. -/
theorem RowOf.payload {T : Type} (P : Transport T) (answer : Callback → CallbackResult)
    (sendRet : U32) (t : T) (h : RowOf msg table) (hpos : 0 < tableExtent cb table msg) :
    ((handle cb msg (table msg)).perform P answer sendRet t).2.1.head?.map Action.payload
      = some (block msg sizeofIcapMsgHeader (tableExtent cb table msg)) := by
  rcases h with hnone | ⟨row, hrow, hsome⟩
  · rw [tableExtent, hnone msg rfl] at hpos
    exact absurd hpos (Nat.lt_irrefl 0)
  · have hextent : tableExtent cb table msg = (row msg).extent cb := by
      rw [tableExtent, hsome msg rfl]
      rfl
    rw [hextent, hsome msg rfl]
    by_cases hset : cb (row msg).callback.id = true
    · obtain ⟨n, hn⟩ := hrow.args
      rw [handle, if_pos hset, Handler.extent, if_pos hset, hn, block_length, ← hn]
      rfl
    · obtain ⟨k, hk⟩ := hrow.defaultPayload
      rw [handle, if_neg hset, Handler.extent, if_neg hset, hk, block_length]
      refine congrArg some ?_
      rw [← hk]
      exact icapMsgFrame_payload msg.cmd ICAP_ACK msg.seqNum _

end

/-! ## Verdicts -/

theorem icapDeviceParseVerdict_congr {set : Bool} {c c' : Callback} (h : set = true → c' = c) :
    icapDeviceParseVerdict set c' = icapDeviceParseVerdict set c := by
  cases set with
  | false => rfl
  | true => rw [h rfl]

/-- The branches of the response handler of a device, for a response. -/
theorem icapDeviceParseResponse_branches (cb : CallbackTable)
    (hresponse : msg.type = ICAP_ACK ∨ msg.type = ICAP_NAK) :
    icapDeviceParseResponse cb msg =
      if msg.cmd = ICAP_MSG_FRAG_READY then
        icapDeviceParseVerdict (cb .fragReadyResponse) (.fragReadyResponse msg.payloadU32)
      else if msg.cmd = ICAP_MSG_XRUN then
        icapDeviceParseVerdict (cb .xrunResponse) (.xrunResponse msg.payloadU32)
      else if msg.cmd = ICAP_MSG_ERROR then
        icapDeviceParseVerdict (cb .errorResponse)
          (.errorResponse (if msg.type = ICAP_NAK then msg.payloadU32 else 0))
      else
        .done (-ICAP_ERROR_MSG_ID) := by
  have hword : (if msg.type = ICAP_ACK then msg.payloadU32
      else if msg.type = ICAP_NAK then msg.payloadU32 else 0) = msg.payloadU32 := by
    rcases hresponse with h | h
    · rw [if_pos h]
    · rw [if_pos h, ite_self]
  unfold icapDeviceParseResponse
  simp only [hword]

theorem verdictExtent_congr (cb : CallbackTable) (h : SameHeader msg msg') :
    verdictExtent cb msg' = verdictExtent cb msg := by
  simp only [verdictExtent, h.cmd, h.type]

/-- The payload that is read decides what the response handler of a device does. -/
theorem icapDeviceParseResponse_congr {cb : CallbackTable}
    (hresponse : msg.type = ICAP_ACK ∨ msg.type = ICAP_NAK) (hheader : SameHeader msg msg')
    (hpayload : SamePayload (verdictExtent cb msg) msg msg') :
    icapDeviceParseResponse cb msg' = icapDeviceParseResponse cb msg := by
  have hresponse' : msg'.type = ICAP_ACK ∨ msg'.type = ICAP_NAK := by
    rw [hheader.type]
    exact hresponse
  rw [icapDeviceParseResponse_branches cb hresponse, icapDeviceParseResponse_branches cb hresponse',
    hheader.cmd, hheader.type]
  unfold verdictExtent at hpayload
  by_cases hfrag : msg.cmd = ICAP_MSG_FRAG_READY
  · rw [if_pos hfrag] at hpayload
    rw [if_pos hfrag, if_pos hfrag]
    refine icapDeviceParseVerdict_congr fun hset => ?_
    rw [if_pos hset] at hpayload
    rw [payloadU32_of_samePayload hpayload]
  · rw [if_neg hfrag] at hpayload
    rw [if_neg hfrag, if_neg hfrag]
    by_cases hxrun : msg.cmd = ICAP_MSG_XRUN
    · rw [if_pos hxrun] at hpayload
      rw [if_pos hxrun, if_pos hxrun]
      refine icapDeviceParseVerdict_congr fun hset => ?_
      rw [if_pos hset] at hpayload
      rw [payloadU32_of_samePayload hpayload]
    · rw [if_neg hxrun] at hpayload
      rw [if_neg hxrun, if_neg hxrun]
      by_cases herror : msg.cmd = ICAP_MSG_ERROR
      · rw [if_pos herror] at hpayload
        rw [if_pos herror, if_pos herror]
        refine icapDeviceParseVerdict_congr fun hset => ?_
        by_cases hnak : msg.type = ICAP_NAK
        · rw [if_pos ⟨hset, hnak⟩] at hpayload
          rw [payloadU32_of_samePayload hpayload]
        · rw [if_neg hnak, if_neg hnak]
      · rw [if_neg herror, if_neg herror]

/-- What is read of the payload shows in the first action. -/
theorem icapDeviceParseResponse_payload {T : Type} (P : Transport T)
    (answer : Callback → CallbackResult) (sendRet : U32) (t : T) {cb : CallbackTable}
    (hresponse : msg.type = ICAP_ACK ∨ msg.type = ICAP_NAK) (hpos : 0 < verdictExtent cb msg) :
    ((icapDeviceParseResponse cb msg).perform P answer sendRet t).2.1.head?.map Action.payload
      = some (block msg sizeofIcapMsgHeader (verdictExtent cb msg)) := by
  have hword : some (word32 msg.payloadU32) = some (block msg sizeofIcapMsgHeader 4) :=
    congrArg some (word32_load32 msg sizeofIcapMsgHeader)
  rw [icapDeviceParseResponse_branches cb hresponse]
  unfold verdictExtent at hpos ⊢
  by_cases hfrag : msg.cmd = ICAP_MSG_FRAG_READY
  · rw [if_pos hfrag] at hpos ⊢
    rw [if_pos hfrag]
    cases hset : cb .fragReadyResponse with
    | false => simp [hset] at hpos
    | true => exact hword
  · rw [if_neg hfrag] at hpos ⊢
    rw [if_neg hfrag]
    by_cases hxrun : msg.cmd = ICAP_MSG_XRUN
    · rw [if_pos hxrun] at hpos ⊢
      rw [if_pos hxrun]
      cases hset : cb .xrunResponse with
      | false => simp [hset] at hpos
      | true => exact hword
    · rw [if_neg hxrun] at hpos ⊢
      rw [if_neg hxrun]
      by_cases herror : msg.cmd = ICAP_MSG_ERROR
      · rw [if_pos herror] at hpos ⊢
        rw [if_pos herror]
        by_cases hboth : cb .errorResponse = true ∧ msg.type = ICAP_NAK
        · rw [if_pos hboth, if_pos hboth.2, hboth.1]
          exact hword
        · rw [if_neg hboth] at hpos
          exact absurd hpos (Nat.lt_irrefl 0)
      · rw [if_neg herror] at hpos
        exact absurd hpos (Nat.lt_irrefl 0)

/-! ## Targets -/

variable {type : IcapInstanceType} {cb : CallbackTable} {h : Target}

theorem target_response (htarget : target type msg = some h)
    (hh : h = .applicationParseResponse ∨ h = .deviceParseResponse) :
    msg.type = ICAP_ACK ∨ msg.type = ICAP_NAK := by
  by_contra hnot
  unfold target at htarget
  rw [if_neg hnot] at htarget
  split_ifs at htarget
  rcases hh with rfl | rfl <;> cases type <;> cases htarget

theorem target_congr (hheader : SameHeader msg msg') : target type msg' = target type msg := by
  simp only [target, hheader.type]

theorem Target.extent_congr (hheader : SameHeader msg msg') :
    h.extent cb msg' = h.extent cb msg := by
  cases h with
  | applicationParseResponse => rfl
  | deviceParseResponse => exact verdictExtent_congr cb hheader
  | applicationParseMsg => exact (applicationHandler_row msg).extent_eq hheader.cmd
  | deviceParseMsg => exact (deviceHandler_row msg).extent_eq hheader.cmd

/-- What a handler reads shows in its first action. -/
theorem Target.payload {T : Type} (P : Transport T) (answer : Callback → CallbackResult)
    (sendRet : U32) (t : T) (htarget : target type msg = some h) (hpos : 0 < h.extent cb msg) :
    ((h.run cb msg).perform P answer sendRet t).2.1.head?.map Action.payload
      = some (block msg sizeofIcapMsgHeader (h.extent cb msg)) := by
  cases h with
  | applicationParseResponse => exact absurd hpos (Nat.lt_irrefl 0)
  | deviceParseResponse =>
      exact icapDeviceParseResponse_payload P answer sendRet t
        (target_response htarget (Or.inr rfl)) hpos
  | applicationParseMsg =>
      rw [Target.run, icapApplicationParseMsg_eq]
      exact (applicationHandler_row msg).payload P answer sendRet t hpos
  | deviceParseMsg =>
      rw [Target.run, icapDeviceParseMsg_eq]
      exact (deviceHandler_row msg).payload P answer sendRet t hpos

/-- A handler that reads no more than the two messages share does the same. -/
theorem Target.perform_congr {T : Type} (P : Transport T) (answer : Callback → CallbackResult)
    (sendRet : U32) (t : T) (htarget : target type msg = some h) (hheader : SameHeader msg msg')
    (hbytes : ∀ i, i < msg.totalLen.toNat → msg' i = msg i)
    (hlen : sizeofIcapMsgHeader ≤ msg.totalLen.toNat)
    (hpayload : SamePayload (h.extent cb msg) msg msg') :
    (h.run cb msg').perform P answer sendRet t = (h.run cb msg).perform P answer sendRet t := by
  cases h with
  | applicationParseResponse =>
      simp only [Target.run, icapApplicationParseResponse, Parse.perform,
        P.notify_congr t msg msg' hlen hbytes]
  | deviceParseResponse =>
      rw [Target.run, Target.run, icapDeviceParseResponse_congr
        (target_response htarget (Or.inr rfl)) hheader hpayload]
  | applicationParseMsg =>
      rw [Target.run, Target.run, icapApplicationParseMsg_eq, icapApplicationParseMsg_eq,
        (applicationHandler_row msg).handle_congr hheader hpayload]
  | deviceParseMsg =>
      rw [Target.run, Target.run, icapDeviceParseMsg_eq, icapDeviceParseMsg_eq,
        (deviceHandler_row msg).handle_congr hheader hpayload]

end

end Icap
