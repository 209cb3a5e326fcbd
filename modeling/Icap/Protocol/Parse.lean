import Icap.Protocol.Message

set_option autoImplicit false

/-! # Parsing received messages

`icap_parse_msg` and the four handlers it dispatches to (`icap.c`), over any transport. A
handler is a `Parse` program: it stops where it invokes a callback, hands a frame to
`icap_send_platform` or a response to `icap_response_notify`, and goes on with the result. The
transport supplies the operations of `icap_transport.h` that the code around the handlers
calls (`Platform`).
-/

namespace Icap

open ByteMemory

/-! ## Callbacks -/

/-- The entries of `struct icap_application_callbacks` and `struct icap_device_callbacks`. -/
inductive CallbackId where
  | fragReady | xrun | error
  | getSubdevices | getSubdeviceFeatures | subdeviceInit | subdeviceDeinit
  | addSrc | addDst | removeSrc | removeDst | start | stop | pause | resume | frags
  | fragReadyResponse | xrunResponse | errorResponse
  deriving DecidableEq

/-- Which entries of a callback struct are not `NULL`. -/
abbrev CallbackTable := CallbackId → Bool

/-- A callback invocation with its arguments. -/
inductive Callback where
  | fragReady (frags : IcapBufFrags)
  | xrun (frags : IcapBufFrags)
  | error (errorCode : U32)
  | getSubdevices
  | getSubdeviceFeatures (subdevId : U32)
  | subdeviceInit (params : IcapSubdeviceParams)
  | subdeviceDeinit (subdevId : U32)
  | addSrc (buf : IcapBufDescriptor)
  | addDst (buf : IcapBufDescriptor)
  | removeSrc (bufId : U32)
  | removeDst (bufId : U32)
  | start (subdevId : U32)
  | stop (subdevId : U32)
  | pause (subdevId : U32)
  | resume (subdevId : U32)
  | frags (offsets : IcapBufOffsets)
  | fragReadyResponse (bufId : U32)
  | xrunResponse (bufId : U32)
  | errorResponse (error : U32)
  deriving DecidableEq

/-- The entry a callback is called through. -/
def Callback.id : Callback → CallbackId
  | .fragReady _ => .fragReady
  | .xrun _ => .xrun
  | .error _ => .error
  | .getSubdevices => .getSubdevices
  | .getSubdeviceFeatures _ => .getSubdeviceFeatures
  | .subdeviceInit _ => .subdeviceInit
  | .subdeviceDeinit _ => .subdeviceDeinit
  | .addSrc _ => .addSrc
  | .addDst _ => .addDst
  | .removeSrc _ => .removeSrc
  | .removeDst _ => .removeDst
  | .start _ => .start
  | .stop _ => .stop
  | .pause _ => .pause
  | .resume _ => .resume
  | .frags _ => .frags
  | .fragReadyResponse _ => .fragReadyResponse
  | .xrunResponse _ => .xrunResponse
  | .errorResponse _ => .errorResponse

/-- What a callback returns, and what it leaves in `*features`
(`get_subdevice_features` only). -/
structure CallbackResult where
  ret : U32
  features : IcapSubdeviceFeatures

/-! ## Handlers as programs -/

/-- The rest of a handler: it is done, or it invokes a callback, or it calls
`icap_send_platform` or `icap_response_notify`. -/
inductive Parse (α : Type) where
  | done (a : α)
  | callback (c : Callback) (k : CallbackResult → Parse α)
  | sendPlatform (frame : List Byte) (k : U32 → Parse α)
  | responseNotify (response : IcapMsg) (k : U32 → Parse α)

namespace Parse

def bind {α β : Type} : Parse α → (α → Parse β) → Parse β
  | done a, f => f a
  | callback c k, f => callback c fun r => (k r).bind f
  | sendPlatform frame k, f => sendPlatform frame fun r => (k r).bind f
  | responseNotify response k, f => responseNotify response fun r => (k r).bind f

instance : Monad Parse where
  pure := done
  bind := bind

variable {α β : Type}

@[simp] theorem pure_eq (a : α) : (pure a : Parse α) = done a := rfl

@[simp] theorem done_bind (a : α) (f : α → Parse β) : (done a >>= f) = f a := rfl

@[simp] theorem callback_bind (c : Callback) (k : CallbackResult → Parse α) (f : α → Parse β) :
    (callback c k >>= f) = callback c fun r => k r >>= f := rfl

@[simp] theorem sendPlatform_bind (frame : List Byte) (k : U32 → Parse α) (f : α → Parse β) :
    (sendPlatform frame k >>= f) = sendPlatform frame fun r => k r >>= f := rfl

end Parse

/-! ## Responses -/

/-- `icap_send_response`; `data` is `NULL` or the `size` bytes it points to. -/
def icapSendResponse (cmd type seqNum : U32) (data : Option (List Byte)) : Parse U32 :=
  match data with
  | some bytes =>
      if bytes.length > sizeofIcapMsgPayload then
        .done (-ICAP_ERROR_MSG_LEN)
      else
        .sendPlatform (icapMsgFrame cmd type seqNum bytes) .done
  | none => .sendPlatform (icapMsgFrame cmd type seqNum []) .done

def icapSendAck (cmd seqNum : U32) (data : Option (List Byte)) : Parse U32 :=
  icapSendResponse cmd ICAP_ACK seqNum data

def icapSendNak (cmd seqNum error : U32) : Parse U32 :=
  icapSendResponse cmd ICAP_NAK seqNum (some (word32 error))

/-! ## Message handlers

Each branch of the two `switch` statements leaves the pair (`send_generic_ack`, `ret`). -/

/-- The code after both `switch` statements, run on what the branch left. -/
def icapSendGenericAck (msg : IcapMsg) (branch : Parse (Bool × U32)) : Parse U32 := do
  let (sendGenericAck, ret) ← branch
  if sendGenericAck then
    if ret ≠ 0 then
      let _ ← icapSendNak msg.cmd msg.seqNum ret
    else
      let _ ← icapSendAck msg.cmd msg.seqNum none
  return 0

/-- The branches `ICAP_MSG_FRAG_READY` and `ICAP_MSG_XRUN` of the application. -/
def icapApplicationParseFrags (msg : IcapMsg) (set : Bool) (c : Callback) :
    Parse (Bool × U32) := do
  let bufId := msg.payloadU32
  if set then
    let r ← Parse.callback c .done
    if r.ret = 0 then
      let _ ← icapSendAck msg.cmd msg.seqNum (some (word32 bufId))
      return (false, r.ret)
    return (true, r.ret)
  else
    -- without a callback the buffer is acknowledged at once
    let _ ← icapSendAck msg.cmd msg.seqNum (some (word32 bufId))
    return (false, 0)

/-- A branch that calls its callback and leaves the answer to the generic ACK or NAK. -/
def icapParseStatus (set : Bool) (c : Callback) : Parse (Bool × U32) := do
  if set then
    let r ← Parse.callback c .done
    return (true, r.ret)
  return (true, 0)

/-- The branches `ICAP_MSG_GET_DEV_NUM`, `ICAP_MSG_ADD_SRC` and `ICAP_MSG_ADD_DST` of the
device: a result that is not negative is the ACK's payload. -/
def icapDeviceParseIdent (msg : IcapMsg) (set : Bool) (c : Callback) : Parse (Bool × U32) := do
  if set then
    let r ← Parse.callback c .done
    -- a negative result is the error of the generic NAK
    if 0 ≤ r.ret.toInt then
      let _ ← icapSendAck msg.cmd msg.seqNum (some (word32 r.ret))
      return (false, r.ret)
    return (true, r.ret)
  return (true, 0)

/-- The branch `ICAP_MSG_GET_DEV_FEATURES` of the device. -/
def icapDeviceParseFeatures (msg : IcapMsg) (set : Bool) (c : Callback) :
    Parse (Bool × U32) := do
  if set then
    let r ← Parse.callback c .done
    if 0 ≤ r.ret.toInt then
      let _ ← icapSendAck msg.cmd msg.seqNum (some r.features.toList)
      return (false, r.ret)
    return (true, r.ret)
  return (true, 0)

def icapApplicationParseMsg (cb : CallbackTable) (msg : IcapMsg) : Parse U32 :=
  icapSendGenericAck msg <|
    if msg.cmd = ICAP_MSG_FRAG_READY then
      icapApplicationParseFrags msg (cb .fragReady) (.fragReady (msg.payloadStruct 8))
    else if msg.cmd = ICAP_MSG_XRUN then
      icapApplicationParseFrags msg (cb .xrun) (.xrun (msg.payloadStruct 8))
    else if msg.cmd = ICAP_MSG_ERROR then
      icapParseStatus (cb .error) (.error msg.payloadU32)
    else
      .done (true, -ICAP_ERROR_MSG_ID)

def icapDeviceParseMsg (cb : CallbackTable) (msg : IcapMsg) : Parse U32 :=
  icapSendGenericAck msg <|
    if msg.cmd = ICAP_MSG_GET_DEV_NUM then
      icapDeviceParseIdent msg (cb .getSubdevices) .getSubdevices
    else if msg.cmd = ICAP_MSG_GET_DEV_FEATURES then
      icapDeviceParseFeatures msg (cb .getSubdeviceFeatures)
        (.getSubdeviceFeatures msg.payloadU32)
    else if msg.cmd = ICAP_MSG_DEV_INIT then
      icapParseStatus (cb .subdeviceInit) (.subdeviceInit (msg.payloadStruct 16))
    else if msg.cmd = ICAP_MSG_DEV_DEINIT then
      icapParseStatus (cb .subdeviceDeinit) (.subdeviceDeinit msg.payloadU32)
    else if msg.cmd = ICAP_MSG_ADD_SRC then
      icapDeviceParseIdent msg (cb .addSrc) (.addSrc (msg.payloadStruct 108))
    else if msg.cmd = ICAP_MSG_ADD_DST then
      icapDeviceParseIdent msg (cb .addDst) (.addDst (msg.payloadStruct 108))
    else if msg.cmd = ICAP_MSG_REMOVE_SRC then
      icapParseStatus (cb .removeSrc) (.removeSrc msg.payloadU32)
    else if msg.cmd = ICAP_MSG_REMOVE_DST then
      icapParseStatus (cb .removeDst) (.removeDst msg.payloadU32)
    else if msg.cmd = ICAP_MSG_START then
      icapParseStatus (cb .start) (.start msg.payloadU32)
    else if msg.cmd = ICAP_MSG_STOP then
      icapParseStatus (cb .stop) (.stop msg.payloadU32)
    else if msg.cmd = ICAP_MSG_PAUSE then
      icapParseStatus (cb .pause) (.pause msg.payloadU32)
    else if msg.cmd = ICAP_MSG_RESUME then
      icapParseStatus (cb .resume) (.resume msg.payloadU32)
    else if msg.cmd = ICAP_MSG_BUF_OFFSETS then
      icapParseStatus (cb .frags) (.frags (msg.payloadStruct 264))
    else
      .done (true, -ICAP_ERROR_MSG_ID)

/-! ## Response handlers -/

/-- All responses to an application are for synchronous messages. -/
def icapApplicationParseResponse (msg : IcapMsg) : Parse U32 := .responseNotify msg .done

/-- A branch of `icap_device_parse_response`: the callback's result is returned. -/
def icapDeviceParseVerdict (set : Bool) (c : Callback) : Parse U32 := do
  if set then
    let r ← Parse.callback c .done
    return r.ret
  return 0

def icapDeviceParseResponse (cb : CallbackTable) (msg : IcapMsg) : Parse U32 :=
  let error := if msg.type = ICAP_NAK then msg.payloadU32 else 0
  -- FRAG_READY and XRUN carry the buffer id in an ACK, ERROR carries nothing
  let errorOrId := if msg.type = ICAP_ACK then msg.payloadU32 else error
  if msg.cmd = ICAP_MSG_FRAG_READY then
    icapDeviceParseVerdict (cb .fragReadyResponse) (.fragReadyResponse errorOrId)
  else if msg.cmd = ICAP_MSG_XRUN then
    icapDeviceParseVerdict (cb .xrunResponse) (.xrunResponse errorOrId)
  else if msg.cmd = ICAP_MSG_ERROR then
    icapDeviceParseVerdict (cb .errorResponse) (.errorResponse error)
  else
    .done (-ICAP_ERROR_MSG_ID)

/-! ## Instances -/

/-- `enum icap_instance_type` -/
inductive IcapInstanceType where
  | application
  | device
  deriving DecidableEq

/-- `struct icap_instance`; the pointers `name` and `priv` are addresses, `callbacks` is
`NULL` or the struct it points to. -/
structure IcapInstance (T : Type) where
  transport : T
  name : Nat
  type : IcapInstanceType
  priv : Nat
  callbacks : Option CallbackTable
  seqNum : U32

/-- Opening and closing the transport, the remote check, and the width of `size_t` on the
platform. -/
structure Platform (T : Type) where
  sizeBits : Nat
  icapInitTransport : T → T
  icapDeinitTransport : T → T
  icapVerifyRemote : T → U32 → T × U32

section

variable {T : Type} (P : Platform T)

def icapApplicationInit (icap : IcapInstance T) (name : Nat) (cb : Option CallbackTable)
    (priv : Nat) : IcapInstance T × U32 :=
  match cb with
  | none => (icap, -ICAP_ERROR_INVALID)
  | some cb =>
      if icap.callbacks.isSome then
        (icap, -ICAP_ERROR_BUSY)
      else
        ({ icap with
            name := name, type := .application, priv := priv, callbacks := some cb, seqNum := 0,
            transport := P.icapInitTransport icap.transport }, 0)

def icapApplicationDeinit (icap : IcapInstance T) : IcapInstance T × U32 :=
  if icap.callbacks.isNone then
    (icap, 0)
  else
    ({ icap with callbacks := none, transport := P.icapDeinitTransport icap.transport }, 0)

/-- Unlike `icap_application_init`, this does not refuse an instance that is in use. -/
def icapDeviceInit (icap : IcapInstance T) (name : Nat) (cb : Option CallbackTable)
    (priv : Nat) : IcapInstance T × U32 :=
  match cb with
  | none => (icap, -ICAP_ERROR_INVALID)
  | some cb =>
      ({ icap with
          name := name, type := .device, priv := priv, callbacks := some cb, seqNum := 0,
          transport := P.icapInitTransport icap.transport }, 0)

def icapDeviceDeinit (icap : IcapInstance T) : IcapInstance T × U32 :=
  if icap.callbacks.isNone then
    (icap, 0)
  else
    ({ icap with callbacks := none, transport := P.icapDeinitTransport icap.transport }, 0)

/-- The length check of `icap_parse_msg`, in the platform's `size_t`. -/
def sizeMatches (msg : IcapMsg) (size : U32) : Bool :=
  size.toNat = (sizeofIcapMsgHeader + msg.payloadLen.toNat) % 2 ^ P.sizeBits

/-- `icap_parse_msg`: the instance after the checks, which may have written the remote
address, and the rest of the call. -/
def icapParseMsg (icap : IcapInstance T) (srcAddr : U32) (msg : IcapMsg) (size : U32) :
    IcapInstance T × Parse U32 :=
  match icap.callbacks with
  | none => (icap, .done (-ICAP_ERROR_INIT))
  | some cb =>
      if msg.protocolVersion ≠ ICAP_PROTOCOL_VERSION then
        (icap, .done (-ICAP_ERROR_PROTOCOL_NOT_SUP))
      else if !sizeMatches P msg size then
        (icap, .done (-ICAP_ERROR_MSG_LEN))
      else
        let (transport, ret) := P.icapVerifyRemote icap.transport srcAddr
        -- the remote check may have set the remote address, whatever comes after it
        let icap := { icap with transport := transport }
        if ret ≠ 0 then
          (icap, .done ret)
        else if msg.type = ICAP_ACK ∨ msg.type = ICAP_NAK then
          match icap.type with
          | .application => (icap, icapApplicationParseResponse msg)
          | .device => (icap, icapDeviceParseResponse cb msg)
        else if msg.type = ICAP_MSG then
          match icap.type with
          | .application => (icap, icapApplicationParseMsg cb msg)
          | .device => (icap, icapDeviceParseMsg cb msg)
        else
          (icap, .done (-ICAP_ERROR_MSG_TYPE))

variable {P}

/-- `icap_parse_msg` changes nothing of the instance but what the remote check changes. -/
theorem icapParseMsg_instance (icap : IcapInstance T) (srcAddr : U32) (msg : IcapMsg)
    (size : U32) :
    (icapParseMsg P icap srcAddr msg size).1 = icap ∨
      (icapParseMsg P icap srcAddr msg size).1
        = { icap with transport := (P.icapVerifyRemote icap.transport srcAddr).1 } := by
  cases hcb : icap.callbacks with
  | none => exact Or.inl (by simp only [icapParseMsg, hcb])
  | some cb =>
      simp only [icapParseMsg, hcb]
      split_ifs
      · exact Or.inl rfl
      · exact Or.inl rfl
      · exact Or.inr rfl
      · cases icap.type <;> exact Or.inr rfl
      · cases icap.type <;> exact Or.inr rfl
      · exact Or.inr rfl

/-- A part of the transport that the remote check does not touch does not touch
`icap_parse_msg`. -/
theorem icapParseMsg_map {f : T → T}
    (hf : ∀ t srcAddr, P.icapVerifyRemote (f t) srcAddr
      = (f (P.icapVerifyRemote t srcAddr).1, (P.icapVerifyRemote t srcAddr).2))
    (icap : IcapInstance T) (srcAddr : U32) (msg : IcapMsg) (size : U32) :
    icapParseMsg P { icap with transport := f icap.transport } srcAddr msg size
      = ({ (icapParseMsg P icap srcAddr msg size).1 with
            transport := f (icapParseMsg P icap srcAddr msg size).1.transport },
        (icapParseMsg P icap srcAddr msg size).2) := by
  obtain ⟨transport, name, type, priv, callbacks, seqNum⟩ := icap
  unfold icapParseMsg
  cases callbacks with
  | none => rfl
  | some cb =>
      simp only [hf]
      split_ifs
      · rfl
      · rfl
      · rfl
      · cases type <;> rfl
      · cases type <;> rfl
      · rfl

end

end Icap
