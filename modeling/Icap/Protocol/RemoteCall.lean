import Icap.Protocol.Call
import Icap.Protocol.Dispatch

set_option autoImplicit false

/-! # Remote calls, frame by frame

An application function is a remote call of one device callback (`ApiCall.remote`). The file
follows one call through both encoders and both parsers: a device that parses the request
invokes that callback with the caller's arguments and sends one reply (`device_request`), and
the function computes from the reply what the callback returned (`finish_reply`).
-/

namespace Icap

open ByteMemory

namespace ApiCall

/-- The device callback an application function calls, with the arguments it passes; `none`
for a `NULL` argument and for the device functions. -/
def remote : ApiCall → Option Callback
  | getSubdevices => some .getSubdevices
  | getSubdeviceFeatures subdevId features =>
      if features then some (.getSubdeviceFeatures subdevId) else none
  | subdeviceInit params => params.map .subdeviceInit
  | subdeviceDeinit subdevId => some (.subdeviceDeinit subdevId)
  | addSrc buf => buf.map .addSrc
  | addDst buf => buf.map .addDst
  | removeSrc bufId => some (.removeSrc bufId)
  | removeDst bufId => some (.removeDst bufId)
  | start subdevId => some (.start subdevId)
  | stop subdevId => some (.stop subdevId)
  | pause subdevId => some (.pause subdevId)
  | resume subdevId => some (.resume subdevId)
  | frags offsets => offsets.map .frags
  | fragReady _ => none
  | xrun _ => none
  | error _ => none

/-- What the function returns when the callback is set and returns `r`, and when it is
`NULL`. -/
def expected (c : ApiCall) (set : Bool) (r : CallbackResult) : CallResult :=
  match c, set with
  | getSubdevices, false => ⟨-ICAP_ERROR_MSG_LEN, none⟩
  | getSubdeviceFeatures _ _, false => ⟨-ICAP_ERROR_MSG_LEN, none⟩
  | addSrc _, false => ⟨-ICAP_ERROR_MSG_LEN, none⟩
  | addDst _, false => ⟨-ICAP_ERROR_MSG_LEN, none⟩
  | _, false => ⟨0, none⟩
  | getSubdeviceFeatures _ _, true =>
      if 0 ≤ r.ret.toInt then ⟨0, some r.features⟩ else ⟨r.ret, none⟩
  | _, true => ⟨r.ret, none⟩

/-- How the command of the function is answered. -/
def answerKind : ApiCall → AnswerKind
  | getSubdevices => .ident
  | getSubdeviceFeatures _ _ => .features
  | addSrc _ => .ident
  | addDst _ => .ident
  | _ => .status

/-- The command of the request. -/
def cmd (c : ApiCall) : U32 :=
  match c.call with
  | .done _ => 0
  | .sendMsg cmd _ _ _ _ => cmd

/-- The frame a device sends in reply to the request with seq_num `n`. -/
def reply (c : ApiCall) (n : U32) (set : Bool) (r : CallbackResult) : List Byte :=
  if set = true ∧ c.answerKind.fails r.ret = true then
    icapMsgFrame c.cmd ICAP_NAK n (word32 r.ret)
  else
    icapMsgFrame c.cmd ICAP_ACK n
      (if set then c.answerKind.ackPayload r else c.answerKind.defaultPayload)

end ApiCall

/-! ## The device -/

/-- The request of a function reads as its entry in the command table. -/
theorem deviceHandler_of_call {c : ApiCall} {callback : Callback} {cmd n : U32}
    {data : Option (List Byte)} {sync wants : Bool} {k : U32 → IcapMsg → CallResult}
    {msg : IcapMsg} (hc : c.remote = some callback)
    (hcall : c.call = .sendMsg cmd data sync wants k)
    (hm : FrameAt msg cmd ICAP_MSG n (data.getD [])) :
    deviceHandler msg = some ⟨c.answerKind, callback⟩ := by
  have hcmd := hm.cmd
  cases c with
  | getSubdevices =>
      obtain rfl := Option.some.inj hc
      obtain ⟨rfl, rfl, -⟩ := Call.sendMsg.inj hcall
      rw [deviceHandler, hcmd]
      rfl
  | getSubdeviceFeatures v features =>
      cases features with
      | false => cases hc
      | true =>
          obtain rfl := Option.some.inj hc
          obtain ⟨rfl, rfl, -⟩ := Call.sendMsg.inj hcall
          have hv : msg.payloadU32 = v := FrameAt.payloadU32 hm
          rw [← hv, deviceHandler, hcmd]
          rfl
  | subdeviceDeinit v | removeSrc v | removeDst v | start v | stop v | pause v | resume v =>
      obtain rfl := Option.some.inj hc
      obtain ⟨rfl, rfl, -⟩ := Call.sendMsg.inj hcall
      have hv : msg.payloadU32 = v := FrameAt.payloadU32 hm
      rw [← hv, deviceHandler, hcmd]
      rfl
  | subdeviceInit arg | addSrc arg | addDst arg | frags arg =>
      cases arg with
      | none => cases hc
      | some v =>
          obtain rfl := Option.some.inj hc
          obtain ⟨rfl, rfl, -⟩ := Call.sendMsg.inj hcall
          have hv : msg.payloadStruct _ = v := FrameAt.payloadStruct hm
          rw [← hv, deviceHandler, hcmd]
          rfl
  | fragReady _ | xrun _ | error _ => cases hc

/-- A remote call sends a request and waits for the reply. -/
theorem remote_sends {c : ApiCall} {callback : Callback} (hc : c.remote = some callback) (n : U32) :
    c.request n ≠ none ∧ c.sync = true := by
  cases c with
  | getSubdeviceFeatures v features =>
      cases features with
      | false => cases hc
      | true => exact ⟨nofun, rfl⟩
  | subdeviceInit arg | addSrc arg | addDst arg | frags arg =>
      cases arg with
      | none => cases hc
      | some v => exact ⟨nofun, rfl⟩
  | getSubdevices | subdeviceDeinit _ | removeSrc _ | removeDst _ | start _ | stop _ | pause _
  | resume _ => exact ⟨nofun, rfl⟩
  | fragReady _ | xrun _ | error _ => cases hc

/-- What memory holding a request reads as. -/
theorem frameAt_request {c : ApiCall} {n : U32} {frame : List Byte} {msg : IcapMsg}
    (hreq : c.request n = some frame) (hmsg : Holds msg frame) :
    ∃ data sync wants k, c.call = .sendMsg c.cmd data sync wants k ∧
      (data.getD []).length ≤ sizeofIcapMsgPayload ∧
      frame = icapMsgFrame c.cmd ICAP_MSG n (data.getD []) ∧
      FrameAt msg c.cmd ICAP_MSG n (data.getD []) := by
  have hsends := c.call_sends
  unfold ApiCall.request at hreq
  unfold ApiCall.cmd
  cases hcall : c.call with
  | done r => simp [hcall] at hreq
  | sendMsg cmd data sync wants k =>
      rw [hcall] at hsends
      simp only [hcall, Option.some.injEq] at hreq
      subst hreq
      exact ⟨data, sync, wants, k, rfl, hsends.2, rfl, frameAt_of_holds hmsg⟩

/-- **The device side.** A device of any platform that parses the request invokes the callback
of the function, with the arguments the function was called with, once if it is set and not at
all if it is `NULL`, and sends the reply. -/
theorem device_request {T : Type} {P : Platform T} (hP : 32 ≤ P.sizeBits) {icap : IcapInstance T}
    {cb : CallbackTable} (htype : icap.type = .device) (hcb : icap.callbacks = some cb)
    {srcAddr : U32} (hremote : (P.icapVerifyRemote icap.transport srcAddr).2 = 0) {c : ApiCall}
    {callback : Callback} (hc : c.remote = some callback) {n : U32} {frame : List Byte}
    (hreq : c.request n = some frame) {msg : IcapMsg} (hmsg : Holds msg frame)
    (default : CallbackResult) :
    (icapParseMsg P icap srcAddr msg (BitVec.ofNat 32 frame.length)).2
      = if cb callback.id then .callback callback fun r => .answer (c.reply n true r)
        else .answer (c.reply n false default) := by
  obtain ⟨data, sync, wants, k, hcall, hlen, rfl, hm⟩ := frameAt_request hreq hmsg
  have hsize : sizeMatches P msg (BitVec.ofNat 32
      (icapMsgFrame c.cmd ICAP_MSG n (data.getD [])).length) = true := by
    rw [icapMsgFrame_length]
    exact decide_eq_true (hm.size_eq hlen hP)
  have hresponse : ¬ (msg.type = ICAP_ACK ∨ msg.type = ICAP_NAK) := by
    rw [hm.type]
    decide
  have hparse : (icapParseMsg P icap srcAddr msg (BitVec.ofNat 32
      (icapMsgFrame c.cmd ICAP_MSG n (data.getD [])).length)).2
        = handle cb msg (some ⟨c.answerKind, callback⟩) := by
    simp only [icapParseMsg, hcb, hm.protocolVersion, ne_eq, not_true_eq_false, if_false, hsize,
      Bool.not_true, Bool.false_eq_true, hremote, if_neg hresponse, if_pos hm.type, htype]
    rw [icapDeviceParseMsg_eq, deviceHandler_of_call hc hcall hm]
  rw [hparse]
  cases hset : cb callback.id with
  | true =>
      rw [handle, if_pos hset, if_pos rfl]
      congr 1
      funext r
      simp only [Handler.reply, nakFrame, ackFrame, hm.cmd, hm.seqNum, ApiCall.reply, true_and,
        if_true]
  | false =>
      rw [handle_of_null (h := ⟨c.answerKind, callback⟩) hset, if_neg (by decide)]
      simp only [Handler.defaultReply, ackFrame, hm.cmd, hm.seqNum, ApiCall.reply,
        Bool.false_eq_true, false_and, if_false]

/-! ## The application -/

/-- The failures of a command are not zero, so the application function returns them. -/
theorem AnswerKind.ne_zero_of_fails {kind : AnswerKind} {ret : U32} (h : kind.fails ret = true) :
    ret ≠ 0 := by
  rintro rfl
  cases kind <;> simp [AnswerKind.fails] at h

theorem identCall_finish {cmd : U32} {data : Option (List Byte)} {c : ApiCall}
    (hcall : c.call = identCall cmd data) {ret : U32} {response : IcapMsg} :
    c.finish ret response
      = if ret ≠ 0 then ⟨ret, none⟩
        else if response.payloadLen ≠ 4 then ⟨-ICAP_ERROR_MSG_LEN, none⟩
        else ⟨response.payloadU32, none⟩ := by
  rw [ApiCall.finish, hcall]
  rfl

/-- The three functions that return a number. -/
theorem ident_finish {cmd n : U32} {data : Option (List Byte)} {c : ApiCall}
    (hcall : c.call = identCall cmd data) (hkind : c.answerKind = .ident) {set : Bool}
    {r : CallbackResult} {ret : U32} {response : IcapMsg}
    (hnak : set = true ∧ c.answerKind.fails r.ret = true → ret = r.ret)
    (hack : ¬ (set = true ∧ c.answerKind.fails r.ret = true) →
      ret = 0 ∧ Holds response (c.reply n set r)) :
    c.finish ret response = if set then ⟨r.ret, none⟩ else ⟨-ICAP_ERROR_MSG_LEN, none⟩ := by
  rw [identCall_finish hcall]
  by_cases hf : set = true ∧ c.answerKind.fails r.ret = true
  · rw [hnak hf, if_pos (AnswerKind.ne_zero_of_fails hf.2), if_pos hf.1]
  · obtain ⟨rfl, hresp⟩ := hack hf
    rw [ApiCall.reply, if_neg hf] at hresp
    have hm := frameAt_of_holds hresp
    rw [if_neg (by simp), hm.payloadLen]
    cases set with
    | false => rw [hkind]; rfl
    | true =>
        have hword : FrameAt response c.cmd ICAP_ACK n (word32 r.ret) := by
          rw [hkind] at hm
          exact hm
        rw [hword.payloadU32, hkind]
        rfl

theorem getSubdeviceFeatures_finish {n subdevId : U32} {set : Bool} {r : CallbackResult}
    {ret : U32} {response : IcapMsg}
    (hnak : set = true ∧ AnswerKind.features.fails r.ret = true → ret = r.ret)
    (hack : ¬ (set = true ∧ AnswerKind.features.fails r.ret = true) →
      ret = 0 ∧ Holds response ((ApiCall.getSubdeviceFeatures subdevId true).reply n set r)) :
    (ApiCall.getSubdeviceFeatures subdevId true).finish ret response
      = (ApiCall.getSubdeviceFeatures subdevId true).expected set r := by
  have hfin : (ApiCall.getSubdeviceFeatures subdevId true).finish ret response
      = if ret ≠ 0 then ⟨ret, none⟩
        else if response.payloadLen ≠ 28 then ⟨-ICAP_ERROR_MSG_LEN, none⟩
        else ⟨0, some (response.payloadStruct 28)⟩ := rfl
  rw [hfin]
  by_cases hf : set = true ∧ AnswerKind.features.fails r.ret = true
  · obtain ⟨rfl, hneg⟩ := hf
    have hnot : ¬ 0 ≤ r.ret.toInt := by simpa [AnswerKind.fails] using hneg
    rw [hnak ⟨rfl, hneg⟩, if_pos (AnswerKind.ne_zero_of_fails hneg), ApiCall.expected,
      if_neg hnot]
  · obtain ⟨rfl, hresp⟩ := hack hf
    have hkind : (ApiCall.getSubdeviceFeatures subdevId true).answerKind = .features := rfl
    rw [ApiCall.reply, hkind, if_neg hf] at hresp
    have hm := frameAt_of_holds hresp
    rw [if_neg (by simp), hm.payloadLen]
    cases set with
    | false => rfl
    | true =>
        have hpos : 0 ≤ r.ret.toInt := by simpa [AnswerKind.fails] using hf
        have hv : response.payloadStruct 28 = r.features := FrameAt.payloadStruct hm
        rw [ApiCall.expected, if_pos hpos, hv, if_neg]
        simp [AnswerKind.ackPayload]

/-- The functions that return what `icap_send_msg` returns. -/
theorem status_finish {c : ApiCall} {ret : U32} {response : IcapMsg}
    (hfin : c.finish ret response = ⟨ret, none⟩) (hkind : c.answerKind = .status) {set : Bool}
    {r : CallbackResult} (hnak : set = true ∧ c.answerKind.fails r.ret = true → ret = r.ret)
    (hack : ¬ (set = true ∧ c.answerKind.fails r.ret = true) → ret = 0) :
    c.finish ret response = if set then ⟨r.ret, none⟩ else ⟨0, none⟩ := by
  rw [hfin]
  by_cases hf : set = true ∧ c.answerKind.fails r.ret = true
  · rw [hnak hf, if_pos hf.1]
  · rw [hack hf]
    cases set with
    | false => rfl
    | true =>
        have hr : r.ret = 0 := by simpa [hkind, AnswerKind.fails] using hf
        rw [hr]
        rfl

/-- **The application side.** The function computes from the reply what the callback
returned. -/
theorem finish_reply {c : ApiCall} {callback : Callback} (hc : c.remote = some callback)
    {n : U32} {set : Bool} {r : CallbackResult} {ret : U32} {response : IcapMsg}
    (hnak : set = true ∧ c.answerKind.fails r.ret = true → ret = r.ret)
    (hack : ¬ (set = true ∧ c.answerKind.fails r.ret = true) →
      ret = 0 ∧ (c.wantsResponse = true → Holds response (c.reply n set r))) :
    c.finish ret response = c.expected set r := by
  cases c with
  | getSubdevices =>
      rw [ident_finish (n := n) rfl rfl hnak
        fun h => ⟨(hack h).1, (hack h).2 rfl⟩]
      cases set <;> rfl
  | addSrc arg | addDst arg =>
      cases arg with
      | none => cases hc
      | some v =>
          rw [ident_finish (n := n) rfl rfl hnak fun h => ⟨(hack h).1, (hack h).2 rfl⟩]
          cases set <;> rfl
  | getSubdeviceFeatures v features =>
      cases features with
      | false => cases hc
      | true => exact getSubdeviceFeatures_finish hnak fun h => ⟨(hack h).1, (hack h).2 rfl⟩
  | subdeviceDeinit v | removeSrc v | removeDst v | start v | stop v | pause v | resume v =>
      rw [status_finish rfl rfl hnak fun h => (hack h).1]
      cases set <;> rfl
  | subdeviceInit arg | frags arg =>
      cases arg with
      | none => cases hc
      | some v =>
          rw [status_finish rfl rfl hnak fun h => (hack h).1]
          cases set <;> rfl
  | fragReady _ | xrun _ | error _ => cases hc

end Icap
