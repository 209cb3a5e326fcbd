import Icap.Basic.Transition
import Icap.Linux.Transport
import Icap.Protocol.Call

set_option autoImplicit false

/-! # The Linux instance and its threads

Any number of threads call the functions of one instance, and any of them may be the receiver
that runs `icap_parse_msg`. A step is one section of the code under a lock, or the code between
two of them. What the kernel decides is in the inputs: which thread goes on, what `alloc_skb`
and `rpmsg_send` return, how a wait ends. A callback runs at one step of its receiver; what it
calls on the instance is another thread.
-/

namespace Icap.Linux

open ByteMemory Transition

/-! ## Threads -/

/-- The variables of `icap_send_msg`; `call` is the API function it runs for and `response` the
memory `response` points to. -/
structure Message where
  call : ApiCall
  cmd : U32
  seqNum : U32
  payload : List Byte
  response : Mem

/-- The bytes of `msg`. -/
def Message.frame (m : Message) : List Byte := icapMsgFrame m.cmd ICAP_MSG m.seqNum m.payload

/-- The end of `wait_event_interruptible_timeout`: a positive result, zero or a negative
result. -/
inductive WakeUp where
  | response
  | elapsed
  | signal
  deriving DecidableEq

/-- The section a thread runs next, with its variables. -/
inductive Thread where
  | idle
  | prepareWait (m : Message)
  | sendPlatform (m : Message) (sync : Bool)
  /-- `icap_wait_for_response` looks for its hint. -/
  | findHint (m : Message)
  | waitEvent (m : Message) (skb : Nat)
  | unlink (m : Message) (skb : Nat) (timeout : WakeUp)
  /-- `icap_wait_for_response` computes its result. -/
  | result (m : Message) (skb : Nat) (timeout : WakeUp)
  | free (m : Message) (skb : Nat) (timeout : WakeUp) (ret : U32) (response : Mem)
  | deinitTransport
  /-- A receiver, with the rest of `icap_parse_msg`. -/
  | parse (p : Parse U32)

structure State where
  icap : Instance
  threads : Nat → Thread

/-! ## Inputs and events -/

inductive Action where
  /-- The thread calls an API function; `uninit` is the memory of an uninitialised
  `response`. -/
  | call (c : ApiCall) (uninit : Mem)
  | prepareWait (mem : Option Mem)
  /-- `icap_send_platform`, of a message or of a receiver's answer. -/
  | sendPlatform (sendRet : U32)
  | findHint
  | waitEvent (timeout : WakeUp)
  | unlink
  | result
  | free
  | applicationInit (name : Nat) (cb : Option CallbackTable) (priv : Nat)
  | deviceInit (name : Nat) (cb : Option CallbackTable) (priv : Nat)
  /-- `icap_application_deinit` up to its call of `icap_deinit_transport`. -/
  | applicationDeinit
  | deviceDeinit
  | deinitTransport
  /-- The rpmsg endpoint's callback calls `icap_parse_msg`. -/
  | receive (srcAddr : U32) (msg : IcapMsg) (size : U32)
  /-- The receiver's callback returns. -/
  | callbackRet (r : CallbackResult)
  | responseNotify
  | parseRet

structure Input where
  thread : Nat
  action : Action

inductive Event where
  /-- `icap_send_msg` has taken its seq_num. -/
  | started (m : Message)
  | allocated (skb : Nat)
  /-- `rpmsg_send` is called with the frame of a message. -/
  | sentMsg (m : Message)
  | sentResponse (frame : List Byte)
  /-- `icap_wait_for_response` finds no hint ("this should never happen"). -/
  | notFound (m : Message)
  /-- The uevent of a timeout. -/
  | uevent (icapId : Nat) (msgCmd : U32)
  /-- An skb that is freed is used, or an skb that is not in the queue is unlinked. -/
  | fault (skb : Nat)
  | freed (skb : Nat)
  | invoked (c : Callback)
  /-- The function returns without a seq_num. -/
  | refused (c : ApiCall) (r : CallResult)
  /-- The function returns; `timeout` is the end of its wait, if it waited. -/
  | returned (m : Message) (timeout : Option WakeUp) (r : CallResult)
  | parsed (ret : U32)
  | lifecycle (ret : U32)

/-! ## The sections -/

/-- Using an skb is a fault when it is freed. -/
def useSkbs (t : IcapTransport) (ks : List Nat) : List Event :=
  (ks.filter fun k => (t.skbs k).freed).map .fault

theorem mem_useSkbs {t : IcapTransport} {ks : List Nat} {e : Event} (h : e ∈ useSkbs t ks) :
    ∃ k, e = .fault k := by
  obtain ⟨k, -, rfl⟩ := List.mem_map.mp h
  exact ⟨k, rfl⟩

/-- The API function returns what it makes of the return of `icap_send_msg`. -/
def Message.returns (m : Message) (timeout : Option WakeUp) (ret : U32) (response : Mem) :
    Event :=
  .returned m timeout (m.call.finish ret response)

/-- An API function up to its first section; the code takes the seq_num under
`platform_lock`. -/
def startCall (icap : Instance) (c : ApiCall) (uninit : Mem) :
    Instance × Thread × List Event :=
  match c.call with
  | .done r => (icap, .idle, [.refused c r])
  | .sendMsg cmd data sync _ k =>
      match icapSendMsgPayload data with
      | none => (icap, .idle, [.refused c (k (-ICAP_ERROR_MSG_LEN) uninit)])
      | some payload =>
          let (icap', seqNum) := icapSendMsgSeqNum icap
          let m : Message := ⟨c, cmd, seqNum, payload, uninit⟩
          (icap', if sync then .prepareWait m else .sendPlatform m false, [.started m])

def prepareWait (icap : Instance) (thread : Nat) (m : Message) (mem : Option Mem) :
    Instance × Thread × List Event :=
  let (t, ret) := icapPrepareWait icap.transport thread m.cmd m.seqNum mem
  if ret ≠ 0 then
    ({ icap with transport := t }, .idle, [m.returns none ret m.response])
  else
    ({ icap with transport := t }, .sendPlatform m true, [.allocated icap.transport.allocated])

/-- A synchronous call goes on to wait, whatever `icap_send_platform` returns. -/
def sendMsg (icap : Instance) (m : Message) (sync : Bool) (sendRet : U32) :
    Instance × Thread × List Event :=
  -- a synchronous call does not look at `ret`
  let ret := icapSendPlatform icap.transport sendRet
  let sent := if icap.transport.rpdev.isSome then [Event.sentMsg m] else []
  if sync then
    (icap, .findHint m, sent)
  else
    (icap, .idle, sent ++ [m.returns none ret m.response])

def findHint (icap : Instance) (m : Message) : Instance × Thread × List Event :=
  let read := useSkbs icap.transport (walkSeqNum icap.transport m.seqNum)
  match findSeqNum icap.transport m.seqNum with
  | none => (icap, .idle, read ++ [.notFound m, m.returns none (-ICAP_ERROR_PROTOCOL) m.response])
  | some skb => (icap, .waitEvent m skb, read)

/-- The condition is tested first: a wait ends by the timeout or by a signal only while no
response has come. -/
def waitEvent (icap : Instance) (m : Message) (skb : Nat) (timeout : WakeUp) :
    Option (Instance × Thread × List Event) :=
  if timeout = .response ↔ (icap.transport.skbs skb).hint.received ≠ 0 then
    some (icap, .unlink m skb timeout, useSkbs icap.transport [skb])
  else
    none

def unlink (icap : Instance) (m : Message) (skb : Nat) (timeout : WakeUp) :
    Instance × Thread × List Event :=
  -- after `icap_deinit_transport` the skb is in no queue
  let used := if skb ∈ icap.transport.responseQueue then useSkbs icap.transport [skb]
    else [.fault skb]
  ({ icap with transport := icap.transport.skbUnlink skb }, .result m skb timeout, used)

/-- What `icap_wait_for_response` returns for the `len` bytes at `data`, and what it leaves in
`*response`. -/
def Message.answer (m : Message) (data : Mem) (len : Nat) : U32 × Mem :=
  if IcapMsg.type data = ICAP_NAK then (IcapMsg.payloadU32 data, m.response)
  else (0, if m.call.wantsResponse then copy m.response data len else m.response)

def waitResult (icap : Instance) (m : Message) (skb : Nat) :
    WakeUp → Instance × Thread × List Event
  | .response =>
      let (ret, response) :=
        m.answer (icap.transport.skbs skb).data (icap.transport.skbs skb).len
      (icap, .free m skb .response ret response, useSkbs icap.transport [skb])
  -- the wait was interrupted: the caller gets its error
  | .signal => (icap, .free m skb .signal (-ERESTARTSYS) m.response, [])
  | .elapsed =>
      match icap.transport.rpdev with
      -- `rpdev` was cleared while the call waited
      | none => (icap, .free m skb .elapsed (-ICAP_ERROR_BROKEN_CON) m.response, [])
      | some dst =>
          (icap, .free m skb .elapsed (-ETIMEDOUT) m.response,
            useSkbs icap.transport [skb] ++
              [.uevent (dst.toNat % 256) (icap.transport.skbs skb).hint.msgCmd])

def freeHint (icap : Instance) (m : Message) (skb : Nat) (timeout : WakeUp) (ret : U32)
    (response : Mem) : Instance × Thread × List Event :=
  ({ icap with transport := icap.transport.kfreeSkb skb }, .idle,
    useSkbs icap.transport [skb] ++ [.freed skb, m.returns (some timeout) ret response])

/-- `icap_application_deinit` and `icap_device_deinit` before `icap_deinit_transport`. -/
def deinit (icap : Instance) : Instance × Thread × List Event :=
  if icap.callbacks.isNone then (icap, .idle, [.lifecycle 0])
  else ({ icap with callbacks := none }, .deinitTransport, [])

def deinitTransport (icap : Instance) : Instance × Thread × List Event :=
  ({ icap with transport := icapDeinitTransport icap.transport }, .idle,
    useSkbs icap.transport icap.transport.responseQueue ++
      icap.transport.responseQueue.map .freed ++ [.lifecycle 0])

def responseNotify (icap : Instance) (response : IcapMsg) (k : U32 → Parse U32) :
    Instance × Thread × List Event :=
  let (t, ret) := icapResponseNotify icap.transport response
  ({ icap with transport := t }, .parse (k ret),
    useSkbs icap.transport (walkSeqNum icap.transport response.seqNum))

def sendResponse (icap : Instance) (frame : List Byte) (k : U32 → Parse U32) (sendRet : U32) :
    Instance × Thread × List Event :=
  (icap, .parse (k (icapSendPlatform icap.transport sendRet)),
    if icap.transport.rpdev.isSome then [.sentResponse frame] else [])

def lifecycle (r : Instance × U32) : Instance × Thread × List Event :=
  (r.1, .idle, [.lifecycle r.2])

/-! ## Steps -/

/-- The next section of the thread `i`, and what comes after it. -/
def stepThread (bits : Nat) (icap : Instance) (i : Nat) :
    Thread → Action → Option (Instance × Thread × List Event)
  | .idle, .call c uninit => some (startCall icap c uninit)
  | .prepareWait m, .prepareWait mem => some (prepareWait icap i m mem)
  | .sendPlatform m sync, .sendPlatform sendRet => some (sendMsg icap m sync sendRet)
  | .findHint m, .findHint => some (findHint icap m)
  | .waitEvent m skb, .waitEvent timeout => waitEvent icap m skb timeout
  | .unlink m skb timeout, .unlink => some (unlink icap m skb timeout)
  | .result m skb timeout, .result => some (waitResult icap m skb timeout)
  | .free m skb timeout ret response, .free => some (freeHint icap m skb timeout ret response)
  | .idle, .applicationInit name cb priv =>
      some (lifecycle (icapApplicationInit (linux bits) icap name cb priv))
  | .idle, .deviceInit name cb priv =>
      some (lifecycle (icapDeviceInit (linux bits) icap name cb priv))
  | .idle, .applicationDeinit => some (deinit icap)
  | .idle, .deviceDeinit => some (deinit icap)
  | .deinitTransport, .deinitTransport => some (deinitTransport icap)
  | .idle, .receive srcAddr msg size =>
      let (icap', p) := icapParseMsg (linux bits) icap srcAddr msg size
      some (icap', .parse p, [])
  | .parse (.callback c k), .callbackRet r => some (icap, .parse (k r), [.invoked c])
  | .parse (.sendPlatform frame k), .sendPlatform sendRet =>
      some (sendResponse icap frame k sendRet)
  | .parse (.responseNotify response k), .responseNotify =>
      some (responseNotify icap response k)
  | .parse (.done ret), .parseRet => some (icap, .idle, [.parsed ret])
  -- a thread does nothing but its next section
  | _, _ => none

def step (bits : Nat) (s : State) (i : Input) : Option (State × List Event) :=
  (stepThread bits s.icap i.thread (s.threads i.thread) i.action).map fun (icap, thread, ev) =>
    (⟨icap, Function.update s.threads i.thread thread⟩, ev)

def machine (bits : Nat) : Machine State Input Event := ⟨step bits⟩

/-- A zeroed instance whose `rpdev` has been set. -/
def zeroedInstance (rpdev : Option U32) : Instance where
  transport := ⟨rpdev, [], fun _ => ⟨0, ⟨0, 0, 0⟩, fun _ => 0, 0, false⟩, 0⟩
  name := 0
  type := .application
  priv := 0
  callbacks := none
  seqNum := 0

/-- After `icap_application_init`, with no thread in the instance. -/
def State.opened (bits : Nat) (rpdev : Option U32) (name : Nat) (cb : CallbackTable)
    (priv : Nat) : State :=
  ⟨(icapApplicationInit (linux bits) (zeroedInstance rpdev) name (some cb) priv).1,
    fun _ => .idle⟩

/-! ## What a step can do -/

/-- The actions that initialise the instance. -/
def Action.opens : Action → Bool
  | .applicationInit _ _ _ => true
  | .deviceInit _ _ _ => true
  | _ => false

/-- The actions that close it. -/
def Action.closes : Action → Bool
  | .applicationDeinit => true
  | .deviceDeinit => true
  | _ => false

/-- The steps of thread `i`, one constructor for each way through a section. -/
inductive Move (bits : Nat) (icap : Instance) (i : Nat) :
    Thread → Action → Instance → Thread → List Event → Prop
  | refused {c : ApiCall} {uninit : Mem} {r : CallResult} :
      Move bits icap i .idle (.call c uninit) icap .idle [.refused c r]
  | started {c : ApiCall} {uninit : Mem} {m : Message} {sync : Bool}
      (hc : (c.request 0).isSome) (hm : m.seqNum = icap.seqNum + 1) :
      Move bits icap i .idle (.call c uninit) { icap with seqNum := icap.seqNum + 1 }
        (if sync then .prepareWait m else .sendPlatform m false) [.started m]
  | prepareFailed {m : Message} {mem : Option Mem} {ret : U32} :
      Move bits icap i (.prepareWait m) (.prepareWait mem) icap .idle
        [m.returns none ret m.response]
  | prepared {m : Message} {mem : Mem} :
      Move bits icap i (.prepareWait m) (.prepareWait (some mem))
        { icap with transport := icap.transport.pushHint i m.cmd m.seqNum mem }
        (.sendPlatform m true) [.allocated icap.transport.allocated]
  | sent {m : Message} {sendRet : U32} {ev : List Event} (hev : ev = [] ∨ ev = [.sentMsg m]) :
      Move bits icap i (.sendPlatform m true) (.sendPlatform sendRet) icap (.findHint m) ev
  | sentAsync {m : Message} {sendRet ret : U32} {ev : List Event}
      (hev : ev = [] ∨ ev = [.sentMsg m]) :
      Move bits icap i (.sendPlatform m false) (.sendPlatform sendRet) icap .idle
        (ev ++ [m.returns none ret m.response])
  | notFound {m : Message} (hfind : findSeqNum icap.transport m.seqNum = none) :
      Move bits icap i (.findHint m) .findHint icap .idle
        (useSkbs icap.transport (walkSeqNum icap.transport m.seqNum) ++
          [.notFound m, m.returns none (-ICAP_ERROR_PROTOCOL) m.response])
  | found {m : Message} {skb : Nat} (hfind : findSeqNum icap.transport m.seqNum = some skb) :
      Move bits icap i (.findHint m) .findHint icap (.waitEvent m skb)
        (useSkbs icap.transport (walkSeqNum icap.transport m.seqNum))
  | woken {m : Message} {skb : Nat} {timeout : WakeUp}
      (htimeout : timeout = .response ↔ (icap.transport.skbs skb).hint.received ≠ 0) :
      Move bits icap i (.waitEvent m skb) (.waitEvent timeout) icap (.unlink m skb timeout)
        (useSkbs icap.transport [skb])
  | unlinked {m : Message} {skb : Nat} {timeout : WakeUp} :
      Move bits icap i (.unlink m skb timeout) .unlink
        { icap with transport := icap.transport.skbUnlink skb } (.result m skb timeout)
        (if skb ∈ icap.transport.responseQueue then useSkbs icap.transport [skb]
          else [.fault skb])
  | result {m : Message} {skb : Nat} {timeout : WakeUp} {ret : U32} {response : Mem}
      {used ev : List Event} (hused : used = [] ∨ used = useSkbs icap.transport [skb])
      (hev : ev = [] ∨ ∃ icapId msgCmd, ev = [.uevent icapId msgCmd])
      (hret : timeout = .response → m.answer (icap.transport.skbs skb).data
        (icap.transport.skbs skb).len = (ret, response)) :
      Move bits icap i (.result m skb timeout) .result icap (.free m skb timeout ret response)
        (used ++ ev)
  | freed {m : Message} {skb : Nat} {timeout : WakeUp} {ret : U32} {response : Mem} :
      Move bits icap i (.free m skb timeout ret response) .free
        { icap with transport := icap.transport.kfreeSkb skb } .idle
        (useSkbs icap.transport [skb] ++ [.freed skb, m.returns (some timeout) ret response])
  | opened {a : Action} {icap' : Instance} {ret : U32} (ha : a.opens = true) :
      Move bits icap i .idle a icap' .idle [.lifecycle ret]
  | closed {a : Action} (ha : a.closes = true) :
      Move bits icap i .idle a icap .idle [.lifecycle 0]
  | closing {a : Action} (ha : a.closes = true) :
      Move bits icap i .idle a { icap with callbacks := none } .deinitTransport []
  | deinitTransport :
      Move bits icap i .deinitTransport .deinitTransport
        { icap with transport := icapDeinitTransport icap.transport } .idle
        (useSkbs icap.transport icap.transport.responseQueue ++
          icap.transport.responseQueue.map .freed ++ [.lifecycle 0])
  | received {srcAddr : U32} {msg : IcapMsg} {size : U32} :
      Move bits icap i .idle (.receive srcAddr msg size) icap
        (.parse (icapParseMsg (linux bits) icap srcAddr msg size).2) []
  | invoked {c : Callback} {k : CallbackResult → Parse U32} {r : CallbackResult} :
      Move bits icap i (.parse (.callback c k)) (.callbackRet r) icap (.parse (k r))
        [.invoked c]
  | sentResponse {frame : List Byte} {k : U32 → Parse U32} {sendRet ret : U32}
      {ev : List Event} (hev : ev = [] ∨ ev = [.sentResponse frame]) :
      Move bits icap i (.parse (.sendPlatform frame k)) (.sendPlatform sendRet) icap
        (.parse (k ret)) ev
  | dropped {response : IcapMsg} {k : U32 → Parse U32}
      (hfind : findSeqNum icap.transport response.seqNum = none) :
      Move bits icap i (.parse (.responseNotify response k)) .responseNotify icap
        (.parse (k (-ICAP_ERROR_TIMEOUT)))
        (useSkbs icap.transport (walkSeqNum icap.transport response.seqNum))
  | notified {response : IcapMsg} {k : U32 → Parse U32} {skb : Nat}
      (hfind : findSeqNum icap.transport response.seqNum = some skb) :
      Move bits icap i (.parse (.responseNotify response k)) .responseNotify
        { icap with transport := icap.transport.modify skb fun b => b.notify response }
        (.parse (k 0)) (useSkbs icap.transport (walkSeqNum icap.transport response.seqNum))
  | parsed {ret : U32} :
      Move bits icap i (.parse (.done ret)) .parseRet icap .idle [.parsed ret]

variable {bits : Nat} {icap icap' : Instance} {i : Nat} {th th' : Thread} {a : Action}
  {ev : List Event}

theorem startCall_move {c : ApiCall} {uninit : Mem}
    (h : startCall icap c uninit = (icap', th', ev)) :
    Move bits icap i .idle (.call c uninit) icap' th' ev := by
  unfold startCall at h
  split at h
  · obtain ⟨rfl, rfl, rfl⟩ := h
    exact .refused
  · rename_i hcall
    split at h
    · obtain ⟨rfl, rfl, rfl⟩ := h
      exact .refused
    · obtain ⟨rfl, rfl, rfl⟩ := h
      exact .started (by simp only [ApiCall.request, hcall, Option.isSome_some]) rfl

theorem prepareWait_move {m : Message} {mem : Option Mem}
    (h : prepareWait icap i m mem = (icap', th', ev)) :
    Move bits icap i (.prepareWait m) (.prepareWait mem) icap' th' ev := by
  unfold prepareWait icapPrepareWait at h
  split_ifs at h
  · obtain ⟨rfl, rfl, rfl⟩ := h
    exact .prepareFailed
  · cases mem with
    | none =>
        obtain ⟨rfl, rfl, rfl⟩ := h
        exact .prepareFailed
    | some mem =>
        obtain ⟨rfl, rfl, rfl⟩ := h
        exact .prepared

theorem sendMsg_move {m : Message} {sync : Bool} {sendRet : U32}
    (h : sendMsg icap m sync sendRet = (icap', th', ev)) :
    Move bits icap i (.sendPlatform m sync) (.sendPlatform sendRet) icap' th' ev := by
  have hev : (if icap.transport.rpdev.isSome then [Event.sentMsg m] else []) = [] ∨
      (if icap.transport.rpdev.isSome then [Event.sentMsg m] else []) = [.sentMsg m] := by
    split_ifs
    · exact Or.inr rfl
    · exact Or.inl rfl
  cases sync with
  | true =>
      obtain ⟨rfl, rfl, rfl⟩ := h
      exact .sent hev
  | false =>
      obtain ⟨rfl, rfl, rfl⟩ := h
      exact .sentAsync hev

theorem findHint_move {m : Message} (h : findHint icap m = (icap', th', ev)) :
    Move bits icap i (.findHint m) .findHint icap' th' ev := by
  unfold findHint at h
  split at h
  · obtain ⟨rfl, rfl, rfl⟩ := h
    exact .notFound (by assumption)
  · obtain ⟨rfl, rfl, rfl⟩ := h
    exact .found (by assumption)

theorem waitResult_move {m : Message} {skb : Nat} {timeout : WakeUp}
    (h : waitResult icap m skb timeout = (icap', th', ev)) :
    Move bits icap i (.result m skb timeout) .result icap' th' ev := by
  cases timeout with
  | response =>
      obtain ⟨rfl, rfl, rfl⟩ := h
      rw [← List.append_nil (useSkbs _ _)]
      exact .result (Or.inr rfl) (Or.inl rfl) fun _ => rfl
  | signal =>
      obtain ⟨rfl, rfl, rfl⟩ := h
      exact @Move.result _ _ _ _ _ _ _ _ [] [] (Or.inl rfl) (Or.inl rfl) nofun
  | elapsed =>
      cases hrpdev : icap.transport.rpdev with
      | none =>
          simp only [waitResult, hrpdev] at h
          obtain ⟨rfl, rfl, rfl⟩ := h
          exact @Move.result _ _ _ _ _ _ _ _ [] [] (Or.inl rfl) (Or.inl rfl) nofun
      | some dst =>
          simp only [waitResult, hrpdev] at h
          obtain ⟨rfl, rfl, rfl⟩ := h
          exact .result (Or.inr rfl) (Or.inr ⟨_, _, rfl⟩) nofun

theorem deinit_move (ha : a.closes = true) (h : deinit icap = (icap', th', ev)) :
    Move bits icap i .idle a icap' th' ev := by
  unfold deinit at h
  split_ifs at h
  · obtain ⟨rfl, rfl, rfl⟩ := h
    exact .closed ha
  · obtain ⟨rfl, rfl, rfl⟩ := h
    exact .closing ha

theorem responseNotify_move {response : IcapMsg} {k : U32 → Parse U32}
    (h : responseNotify icap response k = (icap', th', ev)) :
    Move bits icap i (.parse (.responseNotify response k)) .responseNotify icap' th' ev := by
  unfold responseNotify icapResponseNotify at h
  cases hfind : findSeqNum icap.transport response.seqNum with
  | none =>
      rw [hfind] at h
      obtain ⟨rfl, rfl, rfl⟩ := h
      exact .dropped hfind
  | some skb =>
      rw [hfind] at h
      obtain ⟨rfl, rfl, rfl⟩ := h
      exact .notified hfind

theorem stepThread_move (h : stepThread bits icap i th a = some (icap', th', ev)) :
    Move bits icap i th a icap' th' ev := by
  unfold stepThread at h
  split at h
  · exact startCall_move (Option.some.inj h)
  · exact prepareWait_move (Option.some.inj h)
  · exact sendMsg_move (Option.some.inj h)
  · exact findHint_move (Option.some.inj h)
  · unfold waitEvent at h
    split_ifs at h with htimeout
    obtain ⟨rfl, rfl, rfl⟩ := Option.some.inj h
    exact .woken htimeout
  · obtain ⟨rfl, rfl, rfl⟩ := Option.some.inj h
    exact .unlinked
  · exact waitResult_move (Option.some.inj h)
  · obtain ⟨rfl, rfl, rfl⟩ := Option.some.inj h
    exact .freed
  · obtain ⟨rfl, rfl, rfl⟩ := Option.some.inj h
    exact .opened rfl
  · obtain ⟨rfl, rfl, rfl⟩ := Option.some.inj h
    exact .opened rfl
  · exact deinit_move rfl (Option.some.inj h)
  · exact deinit_move rfl (Option.some.inj h)
  · obtain ⟨rfl, rfl, rfl⟩ := Option.some.inj h
    exact .deinitTransport
  · rename_i srcAddr msg size
    have hsame := icapParseMsg_eq bits icap srcAddr msg size
    have hmove : Move bits icap i .idle (.receive srcAddr msg size) icap
        (.parse (icapParseMsg (linux bits) icap srcAddr msg size).2) [] := .received
    rcases hp : icapParseMsg (linux bits) icap srcAddr msg size with ⟨icap₁, p⟩
    rw [hp] at h hsame hmove
    obtain ⟨rfl, rfl, rfl⟩ := Option.some.inj h
    rw [show icap' = icap from hsame]
    exact hmove
  · obtain ⟨rfl, rfl, rfl⟩ := Option.some.inj h
    exact .invoked
  · obtain ⟨rfl, rfl, rfl⟩ := Option.some.inj h
    refine .sentResponse ?_
    split_ifs
    · exact Or.inr rfl
    · exact Or.inl rfl
  · exact responseNotify_move (Option.some.inj h)
  · obtain ⟨rfl, rfl, rfl⟩ := Option.some.inj h
    exact .parsed
  · cases h

theorem step_move {s s' : State} {inp : Input} (h : step bits s inp = some (s', ev)) :
    ∃ icap' th', Move bits s.icap inp.thread (s.threads inp.thread) inp.action icap' th' ev ∧
      s' = ⟨icap', Function.update s.threads inp.thread th'⟩ := by
  obtain ⟨⟨icap', th', ev'⟩, hs, heq⟩ := Option.map_eq_some_iff.mp h
  obtain ⟨rfl, rfl⟩ := Prod.mk.inj heq
  exact ⟨icap', th', stepThread_move hs, rfl⟩

/-- An init leaves the transport or initialises it. -/
theorem stepThread_opens (ha : a.opens = true)
    (h : stepThread bits icap i th a = some (icap', th', ev)) :
    icap'.transport = icap.transport ∨ icap'.transport = icapInitTransport icap.transport := by
  obtain rfl : th = .idle := by
    cases a with
    | applicationInit | deviceInit => cases stepThread_move h <;> rfl
    | _ => cases ha
  cases a with
  | applicationInit name cb priv =>
      obtain ⟨rfl, -⟩ := Prod.mk.inj (Option.some.inj h)
      cases cb with
      | none => exact Or.inl rfl
      | some cb =>
          unfold icapApplicationInit
          simp only
          split_ifs
          · exact Or.inl rfl
          · exact Or.inr rfl
  | deviceInit name cb priv =>
      obtain ⟨rfl, -⟩ := Prod.mk.inj (Option.some.inj h)
      cases cb with
      | none => exact Or.inl rfl
      | some cb => exact Or.inr rfl
  | _ => cases ha

/-! ## The threads that do not step -/

/-- The thread `i` is at `th`. -/
def State.put (s : State) (i : Nat) (th : Thread) : State :=
  ⟨s.icap, Function.update s.threads i th⟩

section

variable {s s' : State} {inp : Input}

@[simp] theorem State.put_icap (s : State) (i : Nat) (th : Thread) : (s.put i th).icap = s.icap :=
  rfl

@[simp] theorem State.put_self (s : State) (i : Nat) (th : Thread) :
    (s.put i th).threads i = th :=
  Function.update_self _ _ _

theorem State.put_of_ne (s : State) (th : Thread) {i j : Nat} (hj : j ≠ i) :
    (s.put i th).threads j = s.threads j :=
  Function.update_of_ne hj _ _

theorem State.put_put (s : State) (i : Nat) (th th' : Thread) :
    (s.put i th).put i th' = s.put i th' := by
  simp only [State.put, Function.update_idem]

theorem State.put_threads (s : State) (i : Nat) : s.put i (s.threads i) = s := by
  simp only [State.put, Function.update_eq_self]

section

variable {β : Type} {g : Thread → Option β} {threads : Nat → Thread} {j : Nat} {th' : Thread}
  {b : β}

/-- What a thread has when the thread `i` has gone on to `th'`. -/
theorem update_some (h : g (Function.update threads i th' j) = some b) :
    j = i ∧ g th' = some b ∨ j ≠ i ∧ g (threads j) = some b := by
  by_cases hj : j = i
  · rw [hj, Function.update_self] at h
    exact Or.inl ⟨hj, h⟩
  · rw [Function.update_of_ne hj] at h
    exact Or.inr ⟨hj, h⟩

/-- A thread that keeps what it has or drops it gives no thread anything new. -/
theorem update_keeps (hth' : g th' = g (threads i) ∨ g th' = none)
    (h : g (Function.update threads i th' j) = some b) : g (threads j) = some b := by
  rcases update_some h with ⟨rfl, hnew⟩ | ⟨-, hold⟩
  · rcases hth' with hsame | hnone
    · exact hsame.symm.trans hnew
    · rw [hnone] at hnew
      cases hnew
  · exact hold

end

/-- A step leaves the other threads. -/
theorem step_threads {j : Nat} (h : step bits s inp = some (s', ev)) (hj : j ≠ inp.thread) :
    s'.threads j = s.threads j := by
  obtain ⟨icap', th', -, rfl⟩ := step_move h
  exact Function.update_of_ne hj _ _

/-- A step does not depend on the other threads. -/
theorem step_put (h : step bits s inp = some (s', ev)) (hi : inp.thread ≠ i) (th : Thread) :
    step bits (s.put i th) inp = some (s'.put i th, ev) := by
  obtain ⟨⟨icap', th', ev'⟩, hs, heq⟩ := Option.map_eq_some_iff.mp h
  obtain ⟨rfl, rfl⟩ := Prod.mk.inj heq
  unfold step
  rw [State.put_icap, State.put_of_ne _ _ hi, hs, Option.map_some]
  simp only [State.put, Function.update_comm hi]

end

end Icap.Linux
