import Icap.Protocol.Call
import Icap.Protocol.Dispatch
import Icap.Protocol.Response

set_option autoImplicit false

/-! # Notifications and their verdicts

What a device notifies with `icap_frag_ready`, `icap_xrun` and `icap_error`, as a value
(`Note`): the frame it travels in, the callback of the application it is for, and the callback of
the device that its answer is for. `noteOf` and `verdictOf` read notes and verdicts off received
memory; what is sent for a note is read as that note, and its answer as its verdict.
-/

namespace Icap

open ByteMemory

/-! ## Notes -/

inductive Note where
  | fragReady (frags : IcapBufFrags)
  | xrun (frags : IcapBufFrags)
  | error (errorCode : U32)
  deriving DecidableEq

/-- The notification a call of the device API sends. -/
def ApiCall.note : ApiCall → Option Note
  | .fragReady (some buf) => some (.fragReady buf)
  | .xrun (some buf) => some (.xrun buf)
  | .error errorCode => some (.error errorCode)
  | _ => none

namespace Note

def cmd : Note → U32
  | fragReady _ => ICAP_MSG_FRAG_READY
  | xrun _ => ICAP_MSG_XRUN
  | error _ => ICAP_MSG_ERROR

def payload : Note → List Byte
  | fragReady frags => frags.toList
  | xrun frags => frags.toList
  | error errorCode => word32 errorCode

/-- The application's callback, with its arguments. -/
def callback : Note → Callback
  | fragReady frags => .fragReady frags
  | xrun frags => .xrun frags
  | error errorCode => .error errorCode

def handler : Note → Handler
  | fragReady frags => ⟨.frags frags.bufId, .fragReady frags⟩
  | xrun frags => ⟨.frags frags.bufId, .xrun frags⟩
  | error errorCode => ⟨.status, .error errorCode⟩

/-- What the device is told when the application accepts. -/
def id : Note → U32
  | fragReady frags => frags.bufId
  | xrun frags => frags.bufId
  | error _ => 0

/-- What the device is told when the application's callback returns `ret`. -/
def verdict (n : Note) (ret : U32) : U32 := if ret = 0 then n.id else ret

/-- The device's callback for the answer. -/
def response (n : Note) (ret : U32) : Callback :=
  match n with
  | fragReady _ => .fragReadyResponse (n.verdict ret)
  | xrun _ => .xrunResponse (n.verdict ret)
  | error _ => .errorResponse (n.verdict ret)

theorem handler_callback (n : Note) : n.handler.callback = n.callback := by
  cases n <;> rfl

theorem payload_length_le (n : Note) : n.payload.length ≤ sizeofIcapMsgPayload := by
  cases n <;> simp [payload, sizeofIcapMsgPayload]

/-- A verdict is negative when the callback failed, if buffer ids are not. -/
theorem verdict_neg_iff {n : Note} {ret : U32} (hid : 0 ≤ n.id.toInt) (hret : ret.toInt ≤ 0) :
    (n.verdict ret).toInt < 0 ↔ ret ≠ 0 := by
  unfold verdict
  by_cases h0 : ret = 0
  · rw [if_pos h0]
    constructor
    · intro hneg
      omega
    · intro hne
      exact absurd h0 hne
  · rw [if_neg h0]
    constructor
    · intro _
      exact h0
    · intro _
      have hne : ret.toInt ≠ 0 := by
        intro hz
        exact h0 (BitVec.eq_of_toInt_eq (hz.trans (by decide)))
      omega

end Note

/-! ## Reading notes and verdicts -/

/-- The note an application finds in a message. -/
def noteOf (msg : IcapMsg) : Option Note :=
  if msg.type ≠ ICAP_MSG then none
  else if msg.cmd = ICAP_MSG_FRAG_READY then some (.fragReady (msg.payloadStruct 8))
  else if msg.cmd = ICAP_MSG_XRUN then some (.xrun (msg.payloadStruct 8))
  else if msg.cmd = ICAP_MSG_ERROR then some (.error msg.payloadU32)
  else none

/-- The callback a device finds a response to be for. -/
def verdictOf (msg : IcapMsg) : Option Callback :=
  if ¬ IsResponse msg then none
  else
    let error := if msg.type = ICAP_NAK then msg.payloadU32 else 0
    let errorOrId := if msg.type = ICAP_ACK then msg.payloadU32 else error
    if msg.cmd = ICAP_MSG_FRAG_READY then some (.fragReadyResponse errorOrId)
    else if msg.cmd = ICAP_MSG_XRUN then some (.xrunResponse errorOrId)
    else if msg.cmd = ICAP_MSG_ERROR then some (.errorResponse error)
    else none

def Callback.isVerdict : Callback → Bool
  | .fragReadyResponse _ => true
  | .xrunResponse _ => true
  | .errorResponse _ => true
  | _ => false

theorem payloadStruct_bufId (msg : IcapMsg) :
    IcapBufFrags.bufId (msg.payloadStruct 8) = msg.payloadU32 := by
  refine load32_congr fun i hi => ?_
  have hi' : i < 8 := by omega
  simp [ofList, IcapMsg.payloadStruct, hi']

theorem applicationHandler_eq {msg : IcapMsg} (hm : msg.type = ICAP_MSG) :
    applicationHandler msg = (noteOf msg).map Note.handler := by
  unfold applicationHandler noteOf
  rw [if_neg (not_not_intro hm), ← payloadStruct_bufId]
  split_ifs <;> rfl

/-- One case of a table of handlers, and the rest of it. -/
theorem not_verdict_ite {p : Prop} [Decidable p] {h : Handler} {rest : Option Handler}
    (hh : h.callback.isVerdict = false)
    (hrest : ∀ h' ∈ rest, h'.callback.isVerdict = false) :
    ∀ h' ∈ (if p then some h else rest), h'.callback.isVerdict = false := by
  by_cases hp : p
  · rw [if_pos hp]
    rintro h' ⟨⟩
    exact hh
  · rw [if_neg hp]
    exact hrest

theorem deviceHandler_callback (msg : IcapMsg) :
    ∀ h ∈ deviceHandler msg, h.callback.isVerdict = false :=
  not_verdict_ite rfl <| not_verdict_ite rfl <| not_verdict_ite rfl <| not_verdict_ite rfl <|
  not_verdict_ite rfl <| not_verdict_ite rfl <| not_verdict_ite rfl <| not_verdict_ite rfl <|
  not_verdict_ite rfl <| not_verdict_ite rfl <| not_verdict_ite rfl <| not_verdict_ite rfl <|
  not_verdict_ite rfl nofun

theorem icapDeviceParseResponse_eq (cb : CallbackTable) {msg : IcapMsg} (hm : IsResponse msg) :
    icapDeviceParseResponse cb msg = match verdictOf msg with
      | some c => icapDeviceParseVerdict (cb c.id) c
      | none => .done (-ICAP_ERROR_MSG_ID) := by
  unfold icapDeviceParseResponse verdictOf
  rw [if_neg (not_not_intro hm)]
  simp only
  split_ifs <;> rfl

theorem verdictOf_isVerdict {msg : IcapMsg} {c : Callback} (h : verdictOf msg = some c) :
    c.isVerdict = true := by
  unfold verdictOf at h
  simp only at h
  split_ifs at h <;> cases h <;> rfl

/-! ## What is sent is read back -/

theorem noteOf_response {msg : IcapMsg} (hm : msg.type ≠ ICAP_MSG) : noteOf msg = none :=
  if_pos hm

theorem noteOf_type {msg : IcapMsg} {n : Note} (h : noteOf msg = some n) :
    msg.type = ICAP_MSG := by
  by_contra hne
  rw [noteOf_response hne] at h
  cases h

theorem not_isResponse {msg : IcapMsg} (h : msg.type = ICAP_MSG) : ¬ IsResponse msg := by
  rintro (hr | hr)
  · rw [h] at hr
    cases hr
  · rw [h] at hr
    cases hr

theorem verdictOf_message {msg : IcapMsg} (hm : msg.type = ICAP_MSG) : verdictOf msg = none :=
  if_pos (not_isResponse hm)

theorem noteOf_frame {n : Note} {seqNum : U32} {msg : IcapMsg}
    (h : Holds msg (icapMsgFrame n.cmd ICAP_MSG seqNum n.payload)) : noteOf msg = some n := by
  have hf := frameAt_of_holds h
  unfold noteOf
  rw [if_neg (not_not_intro hf.type), hf.cmd]
  cases n with
  | fragReady frags => rw [show msg.payloadStruct 8 = frags from FrameAt.payloadStruct hf]; rfl
  | xrun frags => rw [show msg.payloadStruct 8 = frags from FrameAt.payloadStruct hf]; rfl
  | error errorCode => rw [show msg.payloadU32 = errorCode from FrameAt.payloadU32 hf]; rfl

theorem verdictOf_ack {n : Note} {payload : List Byte} {seqNum : U32} {msg : IcapMsg}
    (h : Holds msg (icapMsgFrame n.cmd ICAP_ACK seqNum payload))
    (hpayload : payload = n.handler.kind.defaultPayload) :
    verdictOf msg = some (n.response 0) := by
  have hf := frameAt_of_holds h
  have hm : IsResponse msg := Or.inl hf.type
  unfold verdictOf
  rw [if_neg (not_not_intro hm), hf.cmd, hf.type]
  subst hpayload
  cases n with
  | fragReady frags =>
      rw [show msg.payloadU32 = frags.bufId from FrameAt.payloadU32 hf]
      rfl
  | xrun frags =>
      rw [show msg.payloadU32 = frags.bufId from FrameAt.payloadU32 hf]
      rfl
  | error errorCode => rfl

theorem verdictOf_nak {n : Note} {ret seqNum : U32} (hret : ret ≠ 0) {msg : IcapMsg}
    (h : Holds msg (icapMsgFrame n.cmd ICAP_NAK seqNum (word32 ret))) :
    verdictOf msg = some (n.response ret) := by
  have hf := frameAt_of_holds h
  have hm : IsResponse msg := Or.inr hf.type
  unfold verdictOf
  rw [if_neg (not_not_intro hm), hf.cmd, hf.type, hf.payloadU32]
  have hverdict : n.verdict ret = ret := if_neg hret
  cases n <;> rw [Note.response, hverdict] <;> rfl

/-! ## Frames -/

/-- A frame that `icap_send_msg` or `icap_send_response` builds, of which `decode` reads nothing
past its end. -/
structure Carries {β : Type} (decode : IcapMsg → Option β) (frame : List Byte) : Prop where
  built : ∃ cmd type seqNum payload, frame = icapMsgFrame cmd type seqNum payload ∧
    payload.length ≤ sizeofIcapMsgPayload ∧
    (type = ICAP_MSG ∨ type = ICAP_ACK ∨ type = ICAP_NAK)
  reads : ∀ msg, Holds msg frame → decode msg = decode (ofList frame)

theorem Carries.type {β : Type} {decode : IcapMsg → Option β} {frame : List Byte} {msg : IcapMsg}
    (h : Carries decode frame) (hm : Holds msg frame) : msg.type = ICAP_MSG ∨ IsResponse msg := by
  obtain ⟨cmd, msgType, seqNum, payload, rfl, -, htype⟩ := h.built
  have hf := frameAt_of_holds hm
  rw [IsResponse, hf.type]
  exact htype

theorem carries_of {β : Type} {decode : IcapMsg → Option β} {o : Option β}
    {cmd type seqNum : U32} {payload : List Byte} (hlen : payload.length ≤ sizeofIcapMsgPayload)
    (htype : type = ICAP_MSG ∨ type = ICAP_ACK ∨ type = ICAP_NAK)
    (hreads : ∀ msg, Holds msg (icapMsgFrame cmd type seqNum payload) → decode msg = o) :
    Carries decode (icapMsgFrame cmd type seqNum payload) ∧
      decode (ofList (icapMsgFrame cmd type seqNum payload)) = o := by
  have hself := hreads _ (holds_ofList _)
  exact ⟨⟨⟨cmd, type, seqNum, payload, rfl, hlen, htype⟩,
    fun msg h => (hreads msg h).trans hself.symm⟩, hself⟩

theorem carries_note (n : Note) (seqNum : U32) :
    Carries noteOf (icapMsgFrame n.cmd ICAP_MSG seqNum n.payload) ∧
      noteOf (ofList (icapMsgFrame n.cmd ICAP_MSG seqNum n.payload)) = some n :=
  carries_of n.payload_length_le (Or.inl rfl) fun _ h => noteOf_frame h

/-- Answers are no notes. -/
theorem carries_answer {cmd type seqNum : U32} {payload : List Byte}
    (hlen : payload.length ≤ sizeofIcapMsgPayload) (htype : type = ICAP_ACK ∨ type = ICAP_NAK) :
    Carries noteOf (icapMsgFrame cmd type seqNum payload) ∧
      noteOf (ofList (icapMsgFrame cmd type seqNum payload)) = none := by
  refine carries_of hlen (Or.inr htype) fun msg h => noteOf_response ?_
  rw [(frameAt_of_holds h).type]
  rcases htype with rfl | rfl <;> decide

theorem carries_handler_reply (h : Handler) (msg : IcapMsg) (r : CallbackResult) :
    Carries noteOf (h.reply msg r) ∧ noteOf (ofList (h.reply msg r)) = none := by
  unfold Handler.reply
  by_cases hf : h.kind.fails r.ret = true
  · rw [if_pos hf]
    exact carries_answer (word32_length_le _) (Or.inr rfl)
  · rw [if_neg hf]
    exact carries_answer (AnswerKind.ackPayload_length_le _ _) (Or.inl rfl)

/-- Requests are no verdicts. -/
theorem carries_request (cmd seqNum : U32) {payload : List Byte}
    (hlen : payload.length ≤ sizeofIcapMsgPayload) :
    Carries verdictOf (icapMsgFrame cmd ICAP_MSG seqNum payload) ∧
      verdictOf (ofList (icapMsgFrame cmd ICAP_MSG seqNum payload)) = none :=
  carries_of hlen (Or.inl rfl) fun _ h => verdictOf_message (frameAt_of_holds h).type

/-- A message that `noteOf` reads as a note has its command. -/
theorem cmd_of_noteOf {msg : IcapMsg} {n : Note} (h : noteOf msg = some n) : msg.cmd = n.cmd := by
  unfold noteOf at h
  split_ifs at h with hm hf hx he <;> cases h
  · exact hf
  · exact hx
  · exact he

theorem handler_fails (n : Note) (ret : U32) : n.handler.kind.fails ret = (ret ≠ 0 : Bool) := by
  cases n <;> rfl

/-- The answer the application sends for a note whose callback returned `ret`. -/
theorem carries_reply {msg : IcapMsg} {n : Note} (h : noteOf msg = some n) (r : CallbackResult) :
    Carries verdictOf (n.handler.reply msg r) ∧
      verdictOf (ofList (n.handler.reply msg r)) = some (n.response r.ret) := by
  unfold Handler.reply
  rw [handler_fails]
  by_cases hret : r.ret = 0
  · rw [if_neg (by simp [hret]), ackFrame, cmd_of_noteOf h]
    have hpayload : n.handler.kind.ackPayload r = n.handler.kind.defaultPayload := by
      cases n <;> rfl
    rw [hpayload, hret]
    exact carries_of (AnswerKind.defaultPayload_length_le _) (Or.inr (Or.inl rfl))
      fun _ hm => verdictOf_ack hm rfl
  · rw [if_pos (by simpa using hret), nakFrame, cmd_of_noteOf h]
    exact carries_of (word32_length_le _) (Or.inr (Or.inr rfl)) fun _ hm => verdictOf_nak hret hm

/-- The answer to a message that is no note is no verdict. -/
theorem carries_refusal {msg : IcapMsg} (hm : msg.type = ICAP_MSG) (h : noteOf msg = none)
    (error : U32) :
    Carries verdictOf (nakFrame msg error) ∧ verdictOf (ofList (nakFrame msg error)) = none := by
  refine carries_of (word32_length_le _) (Or.inr (Or.inr rfl)) fun msg' hm' => ?_
  unfold noteOf at h
  unfold verdictOf
  simp only [(frameAt_of_holds hm').cmd]
  split_ifs at h ⊢ <;> first | rfl | contradiction

/-- The answer for a note whose callback is `NULL`. -/
theorem carries_defaultReply {msg : IcapMsg} {n : Note} (h : noteOf msg = some n) :
    Carries verdictOf (n.handler.defaultReply msg) ∧
      verdictOf (ofList (n.handler.defaultReply msg)) = some (n.response 0) := by
  rw [Handler.defaultReply, ackFrame, cmd_of_noteOf h]
  exact carries_of (AnswerKind.defaultPayload_length_le _) (Or.inr (Or.inl rfl))
    fun _ hm => verdictOf_ack hm rfl

end Icap
