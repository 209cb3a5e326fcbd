import Icap.Protocol.Parse

set_option autoImplicit false

/-! # Calling the other side

The application functions of `icap_application.h` and the device functions of
`icap_device.h`. Each either returns at once or calls `icap_send_msg` exactly once and
computes its result from what that returns and leaves in `*response` (`Call`); the sending and
the waiting are the transport's.
-/

namespace Icap

open ByteMemory

/-- What an API function returns, and the features it wrote to `*features`, if any. -/
structure CallResult where
  ret : U32
  features : Option IcapSubdeviceFeatures
  deriving DecidableEq

/-- An API function: it returns, or it calls
`icap_send_msg(icap, cmd, data, size, sync, response)`; `wantsResponse` says that `response`
is not `NULL`. -/
inductive Call where
  | done (r : CallResult)
  | sendMsg (cmd : U32) (data : Option (List Byte)) (sync wantsResponse : Bool)
      (k : U32 → IcapMsg → CallResult)

/-! ## `icap_send_msg` -/

/-- The payload `icap_send_msg` copies into its message; `none` when it does not fit. -/
def icapSendMsgPayload : Option (List Byte) → Option (List Byte)
  | some bytes => if bytes.length > sizeofIcapMsgPayload then none else some bytes
  | none => some []

/-- `icap->seq_num++`, read back under the platform lock. -/
def icapSendMsgSeqNum {T : Type} (icap : IcapInstance T) : IcapInstance T × U32 :=
  ({ icap with seqNum := icap.seqNum + 1 }, icap.seqNum + 1)

/-! ## Application functions -/

/-- A function that sends its data and returns what `icap_send_msg` returns. -/
def statusCall (cmd : U32) (data : List Byte) (sync : Bool) : Call :=
  .sendMsg cmd (some data) sync false fun ret _ => ⟨ret, none⟩

/-- A function that refuses a `NULL` argument. -/
def pointerCall {n : Nat} (arg : Option (Vector Byte n)) (f : List Byte → Call) : Call :=
  match arg with
  | none => .done ⟨-ICAP_ERROR_INVALID, none⟩
  | some v => f v.toList

/-- A function that returns the word in the response. -/
def identCall (cmd : U32) (data : Option (List Byte)) : Call :=
  .sendMsg cmd data true true fun ret response =>
    if ret ≠ 0 then ⟨ret, none⟩
    else if response.payloadLen ≠ 4 then ⟨-ICAP_ERROR_MSG_LEN, none⟩
    else ⟨response.payloadU32, none⟩

def icapGetSubdevices : Call := identCall ICAP_MSG_GET_DEV_NUM none

/-- `features` says that the pointer is not `NULL`. -/
def icapGetSubdeviceFeatures (subdevId : U32) (features : Bool) : Call :=
  if !features then
    .done ⟨-ICAP_ERROR_INVALID, none⟩
  else
    .sendMsg ICAP_MSG_GET_DEV_FEATURES (some (word32 subdevId)) true true fun ret response =>
      if ret ≠ 0 then ⟨ret, none⟩
      else if response.payloadLen ≠ 28 then ⟨-ICAP_ERROR_MSG_LEN, none⟩
      else ⟨0, some (response.payloadStruct 28)⟩

def icapSubdeviceInit (params : Option IcapSubdeviceParams) : Call :=
  pointerCall params fun data => statusCall ICAP_MSG_DEV_INIT data true

def icapSubdeviceDeinit (subdevId : U32) : Call :=
  statusCall ICAP_MSG_DEV_DEINIT (word32 subdevId) true

def icapAddSrc (buf : Option IcapBufDescriptor) : Call :=
  pointerCall buf fun data => identCall ICAP_MSG_ADD_SRC (some data)

def icapAddDst (buf : Option IcapBufDescriptor) : Call :=
  pointerCall buf fun data => identCall ICAP_MSG_ADD_DST (some data)

def icapRemoveSrc (bufId : U32) : Call := statusCall ICAP_MSG_REMOVE_SRC (word32 bufId) true

def icapRemoveDst (bufId : U32) : Call := statusCall ICAP_MSG_REMOVE_DST (word32 bufId) true

def icapStart (subdevId : U32) : Call := statusCall ICAP_MSG_START (word32 subdevId) true

def icapStop (subdevId : U32) : Call := statusCall ICAP_MSG_STOP (word32 subdevId) true

def icapPause (subdevId : U32) : Call := statusCall ICAP_MSG_PAUSE (word32 subdevId) true

def icapResume (subdevId : U32) : Call := statusCall ICAP_MSG_RESUME (word32 subdevId) true

def icapFrags (offsets : Option IcapBufOffsets) : Call :=
  pointerCall offsets fun data => statusCall ICAP_MSG_BUF_OFFSETS data true

/-! ## Device functions -/

def icapFragReady (frags : Option IcapBufFrags) : Call :=
  pointerCall frags fun data => statusCall ICAP_MSG_FRAG_READY data false

def icapXrun (frags : Option IcapBufFrags) : Call :=
  pointerCall frags fun data => statusCall ICAP_MSG_XRUN data false

def icapError (error : U32) : Call := statusCall ICAP_MSG_ERROR (word32 error) false

/-! ## The API as one type -/

/-- A call of an API function with its arguments. -/
inductive ApiCall where
  | getSubdevices
  | getSubdeviceFeatures (subdevId : U32) (features : Bool)
  | subdeviceInit (params : Option IcapSubdeviceParams)
  | subdeviceDeinit (subdevId : U32)
  | addSrc (buf : Option IcapBufDescriptor)
  | addDst (buf : Option IcapBufDescriptor)
  | removeSrc (bufId : U32)
  | removeDst (bufId : U32)
  | start (subdevId : U32)
  | stop (subdevId : U32)
  | pause (subdevId : U32)
  | resume (subdevId : U32)
  | frags (offsets : Option IcapBufOffsets)
  | fragReady (frags : Option IcapBufFrags)
  | xrun (frags : Option IcapBufFrags)
  | error (error : U32)
  deriving DecidableEq

namespace ApiCall

def call : ApiCall → Call
  | .getSubdevices => icapGetSubdevices
  | .getSubdeviceFeatures subdevId features => icapGetSubdeviceFeatures subdevId features
  | .subdeviceInit params => icapSubdeviceInit params
  | .subdeviceDeinit subdevId => icapSubdeviceDeinit subdevId
  | .addSrc buf => icapAddSrc buf
  | .addDst buf => icapAddDst buf
  | .removeSrc bufId => icapRemoveSrc bufId
  | .removeDst bufId => icapRemoveDst bufId
  | .start subdevId => icapStart subdevId
  | .stop subdevId => icapStop subdevId
  | .pause subdevId => icapPause subdevId
  | .resume subdevId => icapResume subdevId
  | .frags offsets => icapFrags offsets
  | .fragReady buf => icapFragReady buf
  | .xrun buf => icapXrun buf
  | .error e => icapError e

/-- The application functions, which wait for their response. -/
def sync : ApiCall → Bool
  | .fragReady _ => false
  | .xrun _ => false
  | .error _ => false
  | _ => true

/-- Whether the function passes a `response` to `icap_send_msg`. -/
def wantsResponse (c : ApiCall) : Bool :=
  match c.call with
  | .done _ => false
  | .sendMsg _ _ _ wantsResponse _ => wantsResponse

/-- What the function returns once `icap_send_msg` has returned `ret` and left `response`. -/
def finish (c : ApiCall) (ret : U32) (response : IcapMsg) : CallResult :=
  match c.call with
  | .done r => r
  | .sendMsg _ _ _ _ k => k ret response

/-- The frame `icap_send_msg` sends for the call; `none` when the function returns first. -/
def request (c : ApiCall) (seqNum : U32) : Option (List Byte) :=
  match c.call with
  | .done _ => none
  | .sendMsg cmd data _ _ _ => some (icapMsgFrame cmd ICAP_MSG seqNum (data.getD []))

/-- Whether a function sends does not depend on the seq_num. -/
theorem request_isSome_eq (c : ApiCall) (n n' : U32) :
    (c.request n).isSome = (c.request n').isSome := by
  unfold request
  cases c.call <;> rfl

end ApiCall

/-- The call, if it sends, waits exactly when `sync` and sends data that fits a message. -/
def Call.Sends (sync : Bool) : Call → Prop
  | .done _ => True
  | .sendMsg _ data sync' _ _ => sync' = sync ∧ (data.getD []).length ≤ sizeofIcapMsgPayload

theorem statusCall_sends {cmd : U32} {data : List Byte} {sync : Bool}
    (h : data.length ≤ sizeofIcapMsgPayload) : (statusCall cmd data sync).Sends sync :=
  ⟨rfl, h⟩

theorem identCall_sends {cmd : U32} {data : Option (List Byte)}
    (h : (data.getD []).length ≤ sizeofIcapMsgPayload) : (identCall cmd data).Sends true :=
  ⟨rfl, h⟩

theorem pointerCall_sends {n : Nat} {arg : Option (Vector Byte n)} {f : List Byte → Call}
    {sync : Bool} (hn : n ≤ sizeofIcapMsgPayload)
    (h : ∀ data : List Byte, data.length ≤ sizeofIcapMsgPayload → (f data).Sends sync) :
    (pointerCall arg f).Sends sync := by
  cases arg with
  | none => trivial
  | some v => exact h _ (by rw [Vector.length_toList]; exact hn)

theorem icapGetSubdeviceFeatures_sends (subdevId : U32) (features : Bool) :
    (icapGetSubdeviceFeatures subdevId features).Sends true := by
  cases features with
  | false => trivial
  | true =>
      simp only [icapGetSubdeviceFeatures, Bool.not_true, Bool.false_eq_true, if_false,
        Call.Sends, true_and]
      exact Nat.le_of_ble_eq_true rfl

theorem ApiCall.call_sends (c : ApiCall) : c.call.Sends c.sync := by
  have hword (v : U32) : (word32 v).length ≤ sizeofIcapMsgPayload := by
    simp [sizeofIcapMsgPayload]
  cases c with
  | getSubdevices => exact identCall_sends (Nat.zero_le _)
  | getSubdeviceFeatures _ _ => exact icapGetSubdeviceFeatures_sends _ _
  | subdeviceInit _ => exact pointerCall_sends (by decide) fun _ h => statusCall_sends h
  | addSrc _ => exact pointerCall_sends (by decide) fun data h => @identCall_sends _ (some data) h
  | addDst _ => exact pointerCall_sends (by decide) fun data h => @identCall_sends _ (some data) h
  | frags _ => exact pointerCall_sends (by decide) fun _ h => statusCall_sends h
  | fragReady _ => exact pointerCall_sends (by decide) fun _ h => statusCall_sends h
  | xrun _ => exact pointerCall_sends (by decide) fun _ h => statusCall_sends h
  | subdeviceDeinit _ | removeSrc _ | removeDst _ | start _ | stop _ | pause _ | resume _
  | error _ => exact statusCall_sends (hword _)

theorem icapSendMsgPayload_of_sends {cmd : U32} {data : Option (List Byte)}
    {sync sync' wants : Bool} {k : U32 → IcapMsg → CallResult}
    (h : (Call.sendMsg cmd data sync' wants k).Sends sync) :
    icapSendMsgPayload data = some (data.getD []) := by
  cases data with
  | none => rfl
  | some bytes =>
      have hlen : bytes.length ≤ sizeofIcapMsgPayload := h.2
      rw [icapSendMsgPayload, if_neg (by omega)]
      rfl

end Icap
