import Icap.Basic.Serial
import Icap.Protocol.Notification
import Icap.Protocol.RemoteCall

set_option autoImplicit false

/-! # Requests and their replies

A request as a device reads it (`Request`), and the reply it sends when the callback has returned or
is `NULL`. `requestOf` and `replyOf` read requests and replies off received memory: what an
application function sends is read as the function's request, the reply as that very reply, and
nothing else that is sent is read as either.
-/

namespace Icap

open ByteMemory

/-! ## Requests -/

/-- A message for a device callback. -/
structure Request where
  handler : Handler
  cmd : U32
  seqNum : U32

namespace Request

abbrev callback (q : Request) : Callback := q.handler.callback

/-- Whether the callback is set, so that the reply waits for it. -/
def isSet (cb : CallbackTable) (q : Request) : Bool := cb q.callback.id

/-- The reply when the callback returns `r`, and when it is `NULL`. -/
def reply (q : Request) : Option CallbackResult → List Byte
  | some r =>
      if q.handler.kind.fails r.ret then icapMsgFrame q.cmd ICAP_NAK q.seqNum (word32 r.ret)
      else icapMsgFrame q.cmd ICAP_ACK q.seqNum (q.handler.kind.ackPayload r)
  | none => icapMsgFrame q.cmd ICAP_ACK q.seqNum q.handler.kind.defaultPayload

end Request

namespace ApiCall

/-- The request an application function makes, for each seq_num. -/
def ask (c : ApiCall) : Option (U32 → Request) :=
  c.remote.map fun callback n => ⟨⟨c.answerKind, callback⟩, c.cmd, n⟩

/-- What the function returns when the callback has returned, and when it is `NULL`. -/
def outcome (c : ApiCall) : Option CallbackResult → CallResult
  | some r => c.expected true r
  | none => c.expected false ⟨0, Vector.replicate 28 0⟩

theorem ask_eq_some {c : ApiCall} {q : U32 → Request} (h : c.ask = some q) :
    ∃ callback, c.remote = some callback ∧ q = fun n => ⟨⟨c.answerKind, callback⟩, c.cmd, n⟩ := by
  obtain ⟨callback, hc, rfl⟩ := Option.map_eq_some_iff.mp h
  exact ⟨callback, hc, rfl⟩

theorem ask_seqNum {c : ApiCall} {q : U32 → Request} (h : c.ask = some q) (n : U32) :
    (q n).seqNum = n := by
  obtain ⟨callback, -, rfl⟩ := ask_eq_some h
  rfl

/-- The reply a device sends to the function is that to its request. -/
theorem reply_ask {c : ApiCall} {q : U32 → Request} (h : c.ask = some q) (n : U32)
    (o : Option CallbackResult) :
    (q n).reply o = c.reply n o.isSome (o.getD ⟨0, Vector.replicate 28 0⟩) := by
  obtain ⟨callback, -, rfl⟩ := ask_eq_some h
  cases o with
  | none => simp [Request.reply, reply]
  | some r => simp [Request.reply, reply]

theorem outcome_eq (c : ApiCall) (o : Option CallbackResult) :
    c.outcome o = c.expected o.isSome (o.getD ⟨0, Vector.replicate 28 0⟩) := by
  cases o <;> rfl

/-- An application function that sends makes a request. -/
theorem ask_of_request {c : ApiCall} (hsync : c.sync = true) {n : U32} {frame : List Byte}
    (h : c.request n = some frame) : ∃ q, c.ask = some q := by
  cases c with
  | getSubdeviceFeatures v features =>
      cases features with
      | false => cases h
      | true => exact ⟨_, rfl⟩
  | subdeviceInit arg | addSrc arg | addDst arg | frags arg =>
      cases arg with
      | none => cases h
      | some v => exact ⟨_, rfl⟩
  | getSubdevices | subdeviceDeinit _ | removeSrc _ | removeDst _ | start _ | stop _ | pause _
  | resume _ => exact ⟨_, rfl⟩
  | fragReady _ | xrun _ | error _ => cases hsync

theorem ask_eq_none {c : ApiCall} {n : U32} (h : c.request n = none) : c.ask = none := by
  cases hask : c.ask with
  | none => rfl
  | some q =>
      obtain ⟨callback, hc, -⟩ := ask_eq_some hask
      exact absurd h (remote_sends hc n).1

end ApiCall

/-- A call that times out returns the error. -/
theorem ApiCall.finish_timeout {c : ApiCall} {q : U32 → Request} (h : c.ask = some q)
    (response : IcapMsg) :
    c.finish (-ICAP_ERROR_TIMEOUT) response = ⟨-ICAP_ERROR_TIMEOUT, none⟩ := by
  cases c with
  | getSubdeviceFeatures v features =>
      cases features with
      | false => cases h
      | true => rfl
  | subdeviceInit arg | addSrc arg | addDst arg | frags arg =>
      cases arg with
      | none => cases h
      | some v => rfl
  | getSubdevices | subdeviceDeinit _ | removeSrc _ | removeDst _ | start _ | stop _ | pause _
  | resume _ => rfl
  | fragReady _ | xrun _ | error _ => cases h

/-! ## Reading requests and replies -/

/-- The request a device finds in a message. -/
def requestOf (msg : IcapMsg) : Option Request :=
  if msg.type ≠ ICAP_MSG then none
  else (deviceHandler msg).map fun h => ⟨h, msg.cmd, msg.seqNum⟩

/-- The bytes of the response in a message, if it holds one. -/
def replyOf (msg : IcapMsg) : Option (List Byte) :=
  if IsResponse msg then some (block msg 0 msg.totalLen.toNat) else none

/-- A frame that `icap_send_ack` or `icap_send_nak` builds. -/
def ResponseFrame (frame : List Byte) : Prop :=
  ∃ cmd type seqNum payload, (type = ICAP_ACK ∨ type = ICAP_NAK) ∧
    payload.length ≤ sizeofIcapMsgPayload ∧ (type = ICAP_NAK → payload.length = 4) ∧
    frame = icapMsgFrame cmd type seqNum payload

theorem requestOf_response {msg : IcapMsg} (h : IsResponse msg) : requestOf msg = none := by
  refine if_pos fun hm => ?_
  exact not_isResponse hm h

theorem requestOf_type {msg : IcapMsg} {q : Request} (h : requestOf msg = some q) :
    msg.type = ICAP_MSG := by
  by_contra hne
  rw [requestOf, if_pos hne] at h
  cases h

theorem requestOf_message {msg : IcapMsg} (h : msg.type = ICAP_MSG) :
    requestOf msg = (deviceHandler msg).map fun h => ⟨h, msg.cmd, msg.seqNum⟩ :=
  if_neg (not_not_intro h)

theorem deviceHandler_of_requestOf {msg : IcapMsg} {q : Request} (h : requestOf msg = some q) :
    deviceHandler msg = some q.handler ∧ q.cmd = msg.cmd ∧ q.seqNum = msg.seqNum := by
  rw [requestOf_message (requestOf_type h)] at h
  obtain ⟨handler, hhandler, rfl⟩ := Option.map_eq_some_iff.mp h
  exact ⟨hhandler, rfl, rfl⟩

theorem Request.callback_of_requestOf {msg : IcapMsg} {q : Request} (h : requestOf msg = some q) :
    q.callback.isVerdict = false :=
  deviceHandler_callback msg _ (deviceHandler_of_requestOf h).1

/-- The request of a function, in memory. -/
theorem requestOf_frame {c : ApiCall} {q : U32 → Request} (hask : c.ask = some q) {n : U32}
    {frame : List Byte} (hreq : c.request n = some frame) {msg : IcapMsg} (hmsg : Holds msg frame) :
    requestOf msg = some (q n) := by
  obtain ⟨callback, hc, rfl⟩ := ApiCall.ask_eq_some hask
  obtain ⟨data, sync, wants, k, hcall, -, -, hm⟩ := frameAt_request hreq hmsg
  rw [requestOf_message hm.type, deviceHandler_of_call hc hcall hm, hm.cmd, hm.seqNum]
  rfl

namespace ResponseFrame

variable {frame : List Byte}

theorem isResponse (h : ResponseFrame frame) {msg : IcapMsg} (hm : Holds msg frame) :
    IsResponse msg := by
  obtain ⟨cmd, type, seqNum, payload, htype, -, -, rfl⟩ := h
  rw [IsResponse, (frameAt_of_holds hm).type]
  exact htype

theorem carries_request (h : ResponseFrame frame) :
    Carries requestOf frame ∧ requestOf (ofList frame) = none := by
  have hresponse := h
  obtain ⟨cmd, type, seqNum, payload, htype, hlen, -, rfl⟩ := h
  exact carries_of hlen (Or.inr htype) fun msg hm => requestOf_response (hresponse.isResponse hm)

theorem wellFormed (h : ResponseFrame frame) {msg : IcapMsg} (hm : Holds msg frame) :
    WellFormed msg (BitVec.ofNat 32 frame.length) := by
  obtain ⟨cmd, type, seqNum, payload, -, hlen, hnak, rfl⟩ := h
  have hf := frameAt_of_holds hm
  have hsize : (BitVec.ofNat 32 (icapMsgFrame cmd type seqNum payload).length).toNat
      = sizeofIcapMsgHeader + payload.length := by
    rw [icapMsgFrame_length, BitVec.toNat_ofNat]
    simp only [sizeofIcapMsgHeader, sizeofIcapMsgPayload] at hlen ⊢
    exact Nat.mod_eq_of_lt (by omega)
  refine ⟨?_, ?_, fun ht => ?_⟩
  · rw [hsize]
    exact Nat.le_add_right _ _
  · rw [hsize, sizeofIcapMsg]
    exact Nat.add_le_add_left hlen _
  · rw [hf.payloadLen, hnak (hf.type.symm.trans ht)]
    rfl

end ResponseFrame

/-- A response is read as the bytes of its frame. -/
theorem carries_reply_of_built {cmd type seqNum : U32} {payload : List Byte}
    (hlen : payload.length ≤ sizeofIcapMsgPayload)
    (htype : type = ICAP_MSG ∨ type = ICAP_ACK ∨ type = ICAP_NAK) :
    Carries replyOf (icapMsgFrame cmd type seqNum payload) ∧
      replyOf (ofList (icapMsgFrame cmd type seqNum payload))
        = if type = ICAP_MSG then none else some (icapMsgFrame cmd type seqNum payload) := by
  refine carries_of hlen htype fun (msg : IcapMsg) hm => ?_
  have hf := frameAt_of_holds hm
  have hbytes : block msg 0 msg.totalLen.toNat = icapMsgFrame cmd type seqNum payload := by
    rw [hf.totalLen hlen, ← icapMsgFrame_length cmd type seqNum payload]
    exact holds_iff_block.mp hm
  have hresponse : IsResponse msg ↔ type ≠ ICAP_MSG := by
    rw [IsResponse, hf.type]
    rcases htype with rfl | rfl | rfl <;> decide
  rw [replyOf, hbytes]
  by_cases hmsg : type = ICAP_MSG
  · rw [if_neg (fun hr => hresponse.mp hr hmsg), if_pos hmsg]
  · rw [if_pos (hresponse.mpr hmsg), if_neg hmsg]

theorem ResponseFrame.carries_reply {frame : List Byte} (h : ResponseFrame frame) :
    Carries replyOf frame ∧ replyOf (ofList frame) = some frame := by
  obtain ⟨cmd, type, seqNum, payload, htype, hlen, -, rfl⟩ := h
  obtain ⟨hcarries, hread⟩ :=
    @carries_reply_of_built cmd type seqNum payload hlen (Or.inr htype)
  refine ⟨hcarries, hread.trans (if_neg ?_)⟩
  rcases htype with rfl | rfl <;> decide

theorem carries_reply_note (n : Note) (seqNum : U32) :
    Carries replyOf (icapMsgFrame n.cmd ICAP_MSG seqNum n.payload) ∧
      replyOf (ofList (icapMsgFrame n.cmd ICAP_MSG seqNum n.payload)) = none := by
  obtain ⟨hcarries, hread⟩ :=
    @carries_reply_of_built n.cmd ICAP_MSG seqNum n.payload n.payload_length_le (Or.inl rfl)
  exact ⟨hcarries, hread⟩

/-! ## What an application sends -/

/-- The requests of calls that take the seq_nums from 1 on. -/
def numbered (qs : List (U32 → Request)) : List Request :=
  qs.mapIdx fun k q => q (BitVec.ofNat 32 (k + 1))

theorem numbered_snoc (qs : List (U32 → Request)) (q : U32 → Request) :
    numbered (qs ++ [q]) = numbered qs ++ [q (BitVec.ofNat 32 (qs.length + 1))] := by
  simp [numbered, List.mapIdx_append]

theorem mem_numbered {qs : List (U32 → Request)} {p : Request} (h : p ∈ numbered qs) :
    ∃ (k : Nat) (q : U32 → Request), qs[k]? = some q ∧ p = q (BitVec.ofNat 32 (k + 1)) := by
  obtain ⟨k, hk, hp⟩ := List.mem_iff_getElem.mp h
  rw [numbered, List.length_mapIdx] at hk
  refine ⟨k, qs[k], List.getElem?_eq_getElem hk, ?_⟩
  rw [← hp]
  simp [numbered]

/-- A frame that an application sends: a response, or the request of a call. -/
def Asks (frame : List Byte) : Prop :=
  ResponseFrame frame ∨ ∃ (c : ApiCall) (q : U32 → Request) (n : U32), c.ask = some q ∧
    c.request n = some frame

/-- The request of a call, as a frame. -/
theorem carries_ask {c : ApiCall} {q : U32 → Request} (hask : c.ask = some q) {n : U32}
    {frame : List Byte} (hreq : c.request n = some frame) :
    Carries requestOf frame ∧ requestOf (ofList frame) = some (q n) := by
  obtain ⟨data, sync, wants, k, hcall, hlen, rfl, -⟩ := frameAt_request hreq (holds_ofList frame)
  exact carries_of hlen (Or.inl rfl) fun msg hm => requestOf_frame hask hreq hm

theorem Asks.carries {frame : List Byte} (h : Asks frame) : Carries requestOf frame := by
  rcases h with h | ⟨c, q, n, hask, hreq⟩
  · exact h.carries_request.1
  · exact (carries_ask hask hreq).1

/-- A device finds a response or a request in it. -/
theorem Asks.read {frame : List Byte} (h : Asks frame) {msg : IcapMsg} (hm : Holds msg frame) :
    IsResponse msg ∨ ∃ q, requestOf msg = some q := by
  rcases h with h | ⟨c, q, n, hask, hreq⟩
  · exact Or.inl (h.isResponse hm)
  · exact Or.inr ⟨q n, requestOf_frame hask hreq hm⟩

/-! ## Replies are responses -/

namespace Request

variable (q : Request) (o : Option CallbackResult)

theorem reply_built : ∃ type payload, (type = ICAP_ACK ∨ type = ICAP_NAK) ∧
    payload.length ≤ sizeofIcapMsgPayload ∧ (type = ICAP_NAK → payload.length = 4) ∧
    q.reply o = icapMsgFrame q.cmd type q.seqNum payload := by
  cases o with
  | none => exact ⟨_, _, Or.inl rfl, AnswerKind.defaultPayload_length_le _, nofun, rfl⟩
  | some r =>
      unfold reply
      by_cases hf : q.handler.kind.fails r.ret = true
      · simp only [if_pos hf]
        exact ⟨_, _, Or.inr rfl, word32_length_le _, fun _ => rfl, rfl⟩
      · simp only [if_neg hf]
        exact ⟨_, _, Or.inl rfl, AnswerKind.ackPayload_length_le _ _, nofun, rfl⟩

theorem reply_responseFrame : ResponseFrame (q.reply o) := by
  obtain ⟨type, payload, htype, hlen, hnak, heq⟩ := q.reply_built o
  exact ⟨_, _, _, _, htype, hlen, hnak, heq⟩

theorem reply_seqNum {q : Request} {o : Option CallbackResult} {msg : IcapMsg}
    (h : Holds msg (q.reply o)) : msg.seqNum = q.seqNum := by
  obtain ⟨type, payload, -, -, -, heq⟩ := q.reply_built o
  rw [heq] at h
  exact (frameAt_of_holds h).seqNum

end Request

/-! ## The command table -/

theorem responseFrame_nak (msg : IcapMsg) (error : U32) : ResponseFrame (nakFrame msg error) :=
  ⟨_, _, _, _, Or.inr rfl, word32_length_le _, fun _ => rfl, rfl⟩

theorem responseFrame_ack (msg : IcapMsg) {payload : List Byte}
    (h : payload.length ≤ sizeofIcapMsgPayload) : ResponseFrame (ackFrame msg payload) :=
  ⟨_, _, _, _, Or.inl rfl, h, nofun, rfl⟩

theorem responseFrame_reply (h : Handler) (msg : IcapMsg) (r : CallbackResult) :
    ResponseFrame (h.reply msg r) := by
  unfold Handler.reply
  split_ifs
  · exact responseFrame_nak msg r.ret
  · exact responseFrame_ack msg (AnswerKind.ackPayload_length_le _ _)

/-- The replies of the command table, request by request. -/
theorem handler_reply_eq {msg : IcapMsg} {q : Request} (h : requestOf msg = some q)
    (r : CallbackResult) : q.handler.reply msg r = q.reply (some r) := by
  obtain ⟨-, hcmd, hseq⟩ := deviceHandler_of_requestOf h
  simp only [Handler.reply, Request.reply, nakFrame, ackFrame, hcmd, hseq]

theorem handler_defaultReply_eq {msg : IcapMsg} {q : Request} (h : requestOf msg = some q) :
    q.handler.defaultReply msg = q.reply none := by
  obtain ⟨-, hcmd, hseq⟩ := deviceHandler_of_requestOf h
  simp only [Handler.defaultReply, Request.reply, ackFrame, hcmd, hseq]

/-! ## What handlers send -/

/-- Whatever the handler's callbacks return, it sends nothing but responses. -/
def Parse.SendsResponses {α : Type} : Parse α → Prop
  | done _ => True
  | callback _ k => ∀ r, (k r).SendsResponses
  | sendPlatform frame k => ResponseFrame frame ∧ ∀ ret, (k ret).SendsResponses
  | responseNotify _ k => ∀ ret, (k ret).SendsResponses

theorem answer_sendsResponses {frame : List Byte} (h : ResponseFrame frame) :
    (Parse.answer frame).SendsResponses :=
  ⟨h, fun _ => trivial⟩

theorem handle_sendsResponses (cb : CallbackTable) (msg : IcapMsg) (h : Option Handler) :
    (handle cb msg h).SendsResponses := by
  cases h with
  | none => exact answer_sendsResponses (responseFrame_nak msg _)
  | some h =>
      cases hset : cb h.callback.id with
      | true =>
          rw [handle, if_pos hset]
          exact fun r => answer_sendsResponses (responseFrame_reply h msg r)
      | false =>
          rw [handle_of_null hset]
          exact answer_sendsResponses
            (responseFrame_ack msg (AnswerKind.defaultPayload_length_le _))

theorem icapDeviceParseVerdict_sendsResponses (set : Bool) (c : Callback) :
    (icapDeviceParseVerdict set c).SendsResponses := by
  cases set with
  | false => trivial
  | true => exact fun _ => trivial

theorem icapDeviceParseResponse_sendsResponses (cb : CallbackTable) (msg : IcapMsg) :
    (icapDeviceParseResponse cb msg).SendsResponses := by
  unfold icapDeviceParseResponse
  simp only
  split_ifs <;> first | exact icapDeviceParseVerdict_sendsResponses _ _ | trivial

/-- `icap_parse_msg` sends responses only, on any platform and for any message. -/
theorem icapParseMsg_sendsResponses {T : Type} (P : Platform T) (icap : IcapInstance T)
    (srcAddr : U32) (msg : IcapMsg) (size : U32) :
    (icapParseMsg P icap srcAddr msg size).2.SendsResponses := by
  unfold icapParseMsg
  cases icap.callbacks with
  | none => trivial
  | some cb =>
      simp only
      split_ifs
      · trivial
      · trivial
      · trivial
      · cases icap.type with
        | application => exact fun _ => trivial
        | device => exact icapDeviceParseResponse_sendsResponses _ _
      · cases icap.type with
        | application =>
            rw [show _ = handle cb msg _ from icapApplicationParseMsg_eq cb msg]
            exact handle_sendsResponses _ _ _
        | device =>
            rw [show _ = handle cb msg _ from icapDeviceParseMsg_eq cb msg]
            exact handle_sendsResponses _ _ _
      · trivial

end Icap
