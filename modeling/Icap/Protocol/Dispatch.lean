import Icap.Protocol.Parse

set_option autoImplicit false

/-! # The command table

What the message handlers do, command by command: which callback a message is for, which
callback results count as failures, and what an ACK carries. The handlers of `icap.c` compute
exactly `handle` of this table (`icapApplicationParseMsg_eq`, `icapDeviceParseMsg_eq`), so
everything else about them is read off the table.
-/

namespace Icap

open ByteMemory

/-- How a command is answered: by the callback's status, by a non-negative number it returns,
by the features it writes, or by the buffer id of the message. -/
inductive AnswerKind where
  | status
  | ident
  | features
  | frags (bufId : U32)

namespace AnswerKind

/-- Whether a callback result is reported as a failure. -/
def fails : AnswerKind → U32 → Bool
  | status, ret => ret ≠ 0
  | ident, ret => ret.toInt < 0
  | features, ret => ret.toInt < 0
  | frags _, ret => ret ≠ 0

/-- The payload of the ACK after a callback that did not fail. -/
def ackPayload : AnswerKind → CallbackResult → List Byte
  | status, _ => []
  | ident, r => word32 r.ret
  | features, r => r.features.toList
  | frags bufId, _ => word32 bufId

/-- The payload of the ACK when the callback is `NULL`. -/
def defaultPayload : AnswerKind → List Byte
  | frags bufId => word32 bufId
  | _ => []

theorem ackPayload_length_le (kind : AnswerKind) (r : CallbackResult) :
    (kind.ackPayload r).length ≤ sizeofIcapMsgPayload := by
  cases kind <;> simp [ackPayload, sizeofIcapMsgPayload]

theorem defaultPayload_length_le (kind : AnswerKind) :
    kind.defaultPayload.length ≤ sizeofIcapMsgPayload := by
  cases kind <;> simp [defaultPayload, sizeofIcapMsgPayload]

end AnswerKind

/-- The callback a message is for and how its command is answered. -/
structure Handler where
  kind : AnswerKind
  callback : Callback

/-- The handler of a message received by an application. -/
def applicationHandler (msg : IcapMsg) : Option Handler :=
  if msg.cmd = ICAP_MSG_FRAG_READY then
    some ⟨.frags msg.payloadU32, .fragReady (msg.payloadStruct 8)⟩
  else if msg.cmd = ICAP_MSG_XRUN then
    some ⟨.frags msg.payloadU32, .xrun (msg.payloadStruct 8)⟩
  else if msg.cmd = ICAP_MSG_ERROR then
    some ⟨.status, .error msg.payloadU32⟩
  else
    none

/-- The handler of a message received by a device. -/
def deviceHandler (msg : IcapMsg) : Option Handler :=
  if msg.cmd = ICAP_MSG_GET_DEV_NUM then
    some ⟨.ident, .getSubdevices⟩
  else if msg.cmd = ICAP_MSG_GET_DEV_FEATURES then
    some ⟨.features, .getSubdeviceFeatures msg.payloadU32⟩
  else if msg.cmd = ICAP_MSG_DEV_INIT then
    some ⟨.status, .subdeviceInit (msg.payloadStruct 16)⟩
  else if msg.cmd = ICAP_MSG_DEV_DEINIT then
    some ⟨.status, .subdeviceDeinit msg.payloadU32⟩
  else if msg.cmd = ICAP_MSG_ADD_SRC then
    some ⟨.ident, .addSrc (msg.payloadStruct 108)⟩
  else if msg.cmd = ICAP_MSG_ADD_DST then
    some ⟨.ident, .addDst (msg.payloadStruct 108)⟩
  else if msg.cmd = ICAP_MSG_REMOVE_SRC then
    some ⟨.status, .removeSrc msg.payloadU32⟩
  else if msg.cmd = ICAP_MSG_REMOVE_DST then
    some ⟨.status, .removeDst msg.payloadU32⟩
  else if msg.cmd = ICAP_MSG_START then
    some ⟨.status, .start msg.payloadU32⟩
  else if msg.cmd = ICAP_MSG_STOP then
    some ⟨.status, .stop msg.payloadU32⟩
  else if msg.cmd = ICAP_MSG_PAUSE then
    some ⟨.status, .pause msg.payloadU32⟩
  else if msg.cmd = ICAP_MSG_RESUME then
    some ⟨.status, .resume msg.payloadU32⟩
  else if msg.cmd = ICAP_MSG_BUF_OFFSETS then
    some ⟨.status, .frags (msg.payloadStruct 264)⟩
  else
    none

/-! ## Replies -/

def ackFrame (msg : IcapMsg) (payload : List Byte) : List Byte :=
  icapMsgFrame msg.cmd ICAP_ACK msg.seqNum payload

def nakFrame (msg : IcapMsg) (error : U32) : List Byte :=
  icapMsgFrame msg.cmd ICAP_NAK msg.seqNum (word32 error)

/-- The answer to a message whose callback has returned. -/
def Handler.reply (h : Handler) (msg : IcapMsg) (r : CallbackResult) : List Byte :=
  if h.kind.fails r.ret then nakFrame msg r.ret else ackFrame msg (h.kind.ackPayload r)

/-- The answer to a message whose callback is `NULL`. -/
def Handler.defaultReply (h : Handler) (msg : IcapMsg) : List Byte :=
  ackFrame msg h.kind.defaultPayload

/-- Hand one frame to the transport, ignore what that returns, and return 0. -/
def Parse.answer (frame : List Byte) : Parse U32 := .sendPlatform frame fun _ => .done 0

/-- What a message handler does: at most one callback, then exactly one answer. -/
def handle (cb : CallbackTable) (msg : IcapMsg) : Option Handler → Parse U32
  | none => .answer (nakFrame msg (-ICAP_ERROR_MSG_ID))
  | some h =>
      if cb h.callback.id then
        .callback h.callback fun r => .answer (h.reply msg r)
      else
        .answer (h.defaultReply msg)

/-! ## The branches compute the table -/

theorem icapSendNak_eq (cmd seqNum error : U32) :
    icapSendNak cmd seqNum error
      = .sendPlatform (icapMsgFrame cmd ICAP_NAK seqNum (word32 error)) .done := by
  simp [icapSendNak, icapSendResponse, sizeofIcapMsgPayload]

theorem icapSendAck_some {cmd seqNum : U32} {bytes : List Byte}
    (h : bytes.length ≤ sizeofIcapMsgPayload) :
    icapSendAck cmd seqNum (some bytes)
      = .sendPlatform (icapMsgFrame cmd ICAP_ACK seqNum bytes) .done := by
  have h' : ¬ bytes.length > sizeofIcapMsgPayload := by omega
  simp only [icapSendAck, icapSendResponse, h', if_false]

theorem icapSendGenericAck_nak {msg : IcapMsg} {ret : U32} (h : ret ≠ 0) :
    icapSendGenericAck msg (.done (true, ret)) = .answer (nakFrame msg ret) := by
  simp only [icapSendGenericAck, Parse.done_bind, if_true, if_pos h, icapSendNak_eq]
  rfl

/-- A branch that has sent its own ACK. -/
theorem icapSendGenericAck_sent {msg : IcapMsg} {bytes : List Byte} (ret : U32)
    (h : bytes.length ≤ sizeofIcapMsgPayload) :
    icapSendGenericAck msg (do
      let _ ← icapSendAck msg.cmd msg.seqNum (some bytes)
      return (false, ret)) = .answer (ackFrame msg bytes) := by
  rw [icapSendAck_some h]
  rfl

theorem Handler.reply_of_fails {h : Handler} {msg : IcapMsg} {r : CallbackResult}
    (hf : h.kind.fails r.ret = true) : h.reply msg r = nakFrame msg r.ret := by
  rw [Handler.reply, if_pos hf]

theorem Handler.reply_of_not_fails {h : Handler} {msg : IcapMsg} {r : CallbackResult}
    (hf : ¬ h.kind.fails r.ret = true) : h.reply msg r = ackFrame msg (h.kind.ackPayload r) := by
  rw [Handler.reply, if_neg hf]

/-- A branch whose callback is set computes the table when what follows the callback does. -/
theorem handle_of_set {cb : CallbackTable} {msg : IcapMsg} {h : Handler}
    {k : CallbackResult → Parse (Bool × U32)} (hset : cb h.callback.id = true)
    (hk : ∀ r, icapSendGenericAck msg (k r) = .answer (h.reply msg r)) :
    icapSendGenericAck msg (.callback h.callback k) = handle cb msg (some h) := by
  rw [handle, if_pos hset, ← funext hk]
  rfl

theorem handle_of_null {cb : CallbackTable} {msg : IcapMsg} {h : Handler}
    (hset : cb h.callback.id = false) :
    handle cb msg (some h) = .answer (h.defaultReply msg) := by
  rw [handle, if_neg (by rw [hset]; decide)]

/-- A negative word is not zero. -/
theorem ne_zero_of_toInt_neg {v : U32} (h : ¬ 0 ≤ v.toInt) : v ≠ 0 := by
  rintro rfl
  simp at h

theorem word32_length_le (v : U32) : (word32 v).length ≤ sizeofIcapMsgPayload := by
  simp [sizeofIcapMsgPayload]

theorem frags_handle (cb : CallbackTable) (msg : IcapMsg) (c : Callback) :
    icapSendGenericAck msg (icapApplicationParseFrags msg (cb c.id) c)
      = handle cb msg (some ⟨.frags msg.payloadU32, c⟩) := by
  cases hset : cb c.id with
  | false =>
      rw [handle_of_null (h := ⟨.frags _, c⟩) hset]
      exact icapSendGenericAck_sent 0 (word32_length_le _)
  | true =>
      simp only [icapApplicationParseFrags, if_true, Parse.callback_bind, Parse.done_bind]
      refine handle_of_set (h := ⟨_, c⟩) hset (fun r => ?_)
      by_cases hr : r.ret = 0
      · rw [if_pos hr, Handler.reply_of_not_fails (by simp [AnswerKind.fails, hr])]
        exact icapSendGenericAck_sent _ (word32_length_le _)
      · rw [if_neg hr, Handler.reply_of_fails (by simpa [AnswerKind.fails] using hr)]
        exact icapSendGenericAck_nak hr

theorem status_handle (cb : CallbackTable) (msg : IcapMsg) (c : Callback) :
    icapSendGenericAck msg (icapParseStatus (cb c.id) c) = handle cb msg (some ⟨.status, c⟩) := by
  cases hset : cb c.id with
  | false =>
      rw [handle_of_null (h := ⟨.status, c⟩) hset]
      rfl
  | true =>
      refine handle_of_set (h := ⟨_, c⟩) hset (fun r => ?_)
      by_cases hr : r.ret = 0
      · rw [Handler.reply_of_not_fails (by simp [AnswerKind.fails, hr])]
        change icapSendGenericAck msg (.done (true, r.ret)) = _
        rw [hr]
        rfl
      · rw [Handler.reply_of_fails (by simpa [AnswerKind.fails] using hr)]
        exact icapSendGenericAck_nak hr

theorem ident_handle (cb : CallbackTable) (msg : IcapMsg) (c : Callback) :
    icapSendGenericAck msg (icapDeviceParseIdent msg (cb c.id) c)
      = handle cb msg (some ⟨.ident, c⟩) := by
  cases hset : cb c.id with
  | false =>
      rw [handle_of_null (h := ⟨.ident, c⟩) hset]
      rfl
  | true =>
      simp only [icapDeviceParseIdent, if_true, Parse.callback_bind, Parse.done_bind]
      refine handle_of_set (h := ⟨_, c⟩) hset (fun r => ?_)
      by_cases hr : 0 ≤ r.ret.toInt
      · rw [if_pos hr, Handler.reply_of_not_fails (by simpa [AnswerKind.fails] using hr)]
        exact icapSendGenericAck_sent _ (word32_length_le _)
      · rw [if_neg hr, Handler.reply_of_fails (by simpa [AnswerKind.fails] using hr)]
        exact icapSendGenericAck_nak (ne_zero_of_toInt_neg hr)

theorem features_handle (cb : CallbackTable) (msg : IcapMsg) (c : Callback) :
    icapSendGenericAck msg (icapDeviceParseFeatures msg (cb c.id) c)
      = handle cb msg (some ⟨.features, c⟩) := by
  cases hset : cb c.id with
  | false =>
      rw [handle_of_null (h := ⟨.features, c⟩) hset]
      rfl
  | true =>
      simp only [icapDeviceParseFeatures, if_true, Parse.callback_bind, Parse.done_bind]
      refine handle_of_set (h := ⟨_, c⟩) hset (fun r => ?_)
      by_cases hr : 0 ≤ r.ret.toInt
      · rw [if_pos hr, Handler.reply_of_not_fails (by simpa [AnswerKind.fails] using hr)]
        exact icapSendGenericAck_sent _ (by simp [sizeofIcapMsgPayload])
      · rw [if_neg hr, Handler.reply_of_fails (by simpa [AnswerKind.fails] using hr)]
        exact icapSendGenericAck_nak (ne_zero_of_toInt_neg hr)

theorem unhandled_handle (cb : CallbackTable) (msg : IcapMsg) :
    icapSendGenericAck msg (.done (true, -ICAP_ERROR_MSG_ID)) = handle cb msg none :=
  icapSendGenericAck_nak (by decide)

/-- One case of a `switch`, and the rest of it. -/
theorem handle_ite {cb : CallbackTable} {msg : IcapMsg} {p : Prop} [Decidable p]
    {branch branch' : Parse (Bool × U32)} {h h' : Option Handler}
    (hp : icapSendGenericAck msg branch = handle cb msg h)
    (hn : icapSendGenericAck msg branch' = handle cb msg h') :
    icapSendGenericAck msg (if p then branch else branch')
      = handle cb msg (if p then h else h') := by
  by_cases hc : p
  · rw [if_pos hc, if_pos hc]
    exact hp
  · rw [if_neg hc, if_neg hc]
    exact hn

theorem icapApplicationParseMsg_eq (cb : CallbackTable) (msg : IcapMsg) :
    icapApplicationParseMsg cb msg = handle cb msg (applicationHandler msg) :=
  handle_ite (frags_handle cb msg (.fragReady _)) <|
  handle_ite (frags_handle cb msg (.xrun _)) <|
  handle_ite (status_handle cb msg (.error _)) <|
  unhandled_handle cb msg

theorem icapDeviceParseMsg_eq (cb : CallbackTable) (msg : IcapMsg) :
    icapDeviceParseMsg cb msg = handle cb msg (deviceHandler msg) :=
  handle_ite (ident_handle cb msg .getSubdevices) <|
  handle_ite (features_handle cb msg (.getSubdeviceFeatures _)) <|
  handle_ite (status_handle cb msg (.subdeviceInit _)) <|
  handle_ite (status_handle cb msg (.subdeviceDeinit _)) <|
  handle_ite (ident_handle cb msg (.addSrc _)) <|
  handle_ite (ident_handle cb msg (.addDst _)) <|
  handle_ite (status_handle cb msg (.removeSrc _)) <|
  handle_ite (status_handle cb msg (.removeDst _)) <|
  handle_ite (status_handle cb msg (.start _)) <|
  handle_ite (status_handle cb msg (.stop _)) <|
  handle_ite (status_handle cb msg (.pause _)) <|
  handle_ite (status_handle cb msg (.resume _)) <|
  handle_ite (status_handle cb msg (.frags _)) <|
  unhandled_handle cb msg

/-! ## What is handed to `icap_response_notify` -/

/-- The handler calls `icap_response_notify` at no point. -/
def Parse.Silent {α : Type} : Parse α → Prop
  | done _ => True
  | callback _ k => ∀ r, (k r).Silent
  | sendPlatform _ k => ∀ r, (k r).Silent
  | responseNotify _ _ => False

theorem handle_silent (cb : CallbackTable) (msg : IcapMsg) (h : Option Handler) :
    (handle cb msg h).Silent := by
  cases h with
  | none => exact fun _ => trivial
  | some h =>
      cases hset : cb h.callback.id with
      | true =>
          rw [handle, if_pos hset]
          exact fun _ _ => trivial
      | false =>
          rw [handle_of_null hset]
          exact fun _ => trivial

theorem icapDeviceParseVerdict_silent (set : Bool) (c : Callback) :
    (icapDeviceParseVerdict set c).Silent := by
  cases set
  · trivial
  · exact fun _ => trivial

theorem icapDeviceParseResponse_silent (cb : CallbackTable) (msg : IcapMsg) :
    (icapDeviceParseResponse cb msg).Silent := by
  unfold icapDeviceParseResponse
  simp only
  split_ifs <;> first | exact icapDeviceParseVerdict_silent _ _ | trivial

/-- The checks of `icap_parse_msg` passed and the message is a response. -/
structure AcceptedResponse {T : Type} (P : Platform T) (msg : IcapMsg) (size : U32) : Prop where
  version : msg.protocolVersion = ICAP_PROTOCOL_VERSION
  length : sizeMatches P msg size = true
  type : msg.type = ICAP_ACK ∨ msg.type = ICAP_NAK

/-- `icap_parse_msg` hands a response on at once and does nothing else, or hands on none. -/
theorem icapParseMsg_notify {T : Type} (P : Platform T) (icap : IcapInstance T) (srcAddr : U32)
    (msg : IcapMsg) (size : U32) :
    (icapParseMsg P icap srcAddr msg size).2.Silent ∨
      (icapParseMsg P icap srcAddr msg size).2 = .responseNotify msg .done ∧
        AcceptedResponse P msg size := by
  unfold icapParseMsg
  cases icap.callbacks with
  | none => exact Or.inl trivial
  | some cb =>
      simp only
      split_ifs with hv hl hr ht hm
      · exact Or.inl trivial
      · exact Or.inl trivial
      · exact Or.inl trivial
      · cases icap.type with
        | application =>
            exact Or.inr ⟨rfl, by simpa using hv, by simpa using hl, ht⟩
        | device => exact Or.inl (icapDeviceParseResponse_silent _ _)
      · cases icap.type with
        | application =>
            left
            rw [show _ = handle cb msg _ from icapApplicationParseMsg_eq cb msg]
            exact handle_silent _ _ _
        | device =>
            left
            rw [show _ = handle cb msg _ from icapDeviceParseMsg_eq cb msg]
            exact handle_silent _ _ _
      · exact Or.inl trivial

end Icap
