import Icap.Basic.Transition
import Icap.BareMetal.Transport
import Icap.Protocol.Call

set_option autoImplicit false

/-! # The bare-metal instance as a machine

One instance on the rpmsg-lite platform, with everything its environment decides as inputs:
the receive interrupt, the calls the program makes, the results of callbacks and of
`rpmsg_lite_send`, and the clock. A step runs the code from one such point to the next, so
an interrupt can come wherever a callback or the clock is waited for (the single loads and
stores of the fifo are interleaved in `BareMetal/Interrupts.lean`). The stack holds the
functions that have not returned: `icap_wait_for_response` at one of two places in its loop,
and `icap_loop` inside a callback. Callbacks may call any function again, also `icap_loop`.
-/

namespace Icap.BareMetal

open ByteMemory RingBuffer Transition

/-! ## States, inputs and events -/

/-- A synchronous call in `icap_wait_for_response`: the function called, its seq_num, the
clock at its start and the memory of its `response` variable. -/
structure Wait where
  call : ApiCall
  seqNum : U32
  start : U32
  response : Mem

inductive Activation where
  /-- `icap_wait_for_response` about to call, or in, its `icap_loop`. -/
  | poll (w : Wait)
  /-- `icap_wait_for_response` about to read the clock. -/
  | clock (w : Wait)
  /-- `icap_loop` with its `tail_next`, in a callback; `k` is the rest of `icap_parse_msg`. -/
  | loop (tailNext : Nat) (k : CallbackResult → Parse U32)

structure State where
  icap : Instance
  stack : List Activation

inductive Input where
  /-- The receive interrupt calls `icap_put_msg`. -/
  | putMsg (msg : IcapRemoteMsg)
  | applicationInit (name : Nat) (cb : Option CallbackTable) (priv : Nat)
  | applicationDeinit
  | deviceInit (name : Nat) (cb : Option CallbackTable) (priv : Nat)
  | deviceDeinit
  /-- The program calls an API function. The clock and `rpmsg_lite_send` return `now` and
  `sendRet`; `uninit` is the memory of an uninitialised `response`. -/
  | call (c : ApiCall) (now sendRet : U32) (uninit : Mem)
  /-- The program calls `icap_loop`. -/
  | loop (sendRet : U32)
  /-- `icap_wait_for_response` calls `icap_loop`. -/
  | pass (sendRet : U32)
  /-- `icap_wait_for_response` reads the clock. -/
  | clock (now : U32)
  /-- The running callback returns. -/
  | callbackRet (r : CallbackResult) (sendRet : U32)

inductive Event where
  | put (msg : IcapRemoteMsg) (ret : PutResult)
  /-- `icap_loop` hands a message to `icap_parse_msg`. -/
  | parsed (msg : IcapRemoteMsg)
  | released (addr : Nat)
  /-- `icap_response_notify` stores a response. -/
  | stored (response : IcapMsg)
  | invoked (c : Callback)
  | sent (rpmsgInstance rpmsgEpt : Nat) (remoteAddr : U32) (frame : List Byte)
  /-- `icap_wait_for_response` returns `ret` and has copied the bytes to `*response`. -/
  | answered (seqNum ret : U32) (copied : Option (List Byte))
  | timedOut (seqNum : U32)
  | returned (c : ApiCall) (r : CallResult)
  | loopReturned (ret : U32)
  | lifecycle (ret : U32)

/-! ## Parsing -/

def icapSendPlatform (t : IcapTransport) (frame : List Byte) : Event :=
  .sent t.rpmsgInstance t.rpmsgEpt t.remoteAddr frame

/-- How far a handler got: it returned, or it is in a callback. -/
inductive Progress where
  | done (ret : U32)
  | callback (k : CallbackResult → Parse U32)

/-- Run a handler up to its next callback; `rpmsg_lite_send` returns `sendRet`. -/
def runParse (sendRet : U32) (t : IcapTransport) :
    Parse U32 → IcapTransport × List Event × Progress
  | .done ret => (t, [], .done ret)
  | .callback c k => (t, [.invoked c], .callback k)
  | .sendPlatform frame k =>
      let (t', ev, p) := runParse sendRet t (k sendRet)
      (t', icapSendPlatform t frame :: ev, p)
  | .responseNotify response k =>
      let (t', ret) := icapResponseNotify t response
      let (t'', ev, p) := runParse sendRet t' (k ret)
      (t'', .stored response :: ev, p)

/-! ## `icap_wait_for_response` and `icap_loop` -/

/-- The bytes `icap_wait_for_response` copies to `*response`, if any. -/
def Wait.copied (w : Wait) (last : IcapMsg) : Option (List Byte) :=
  if last.type = ICAP_NAK ∨ w.call.wantsResponse = false then none
  else some (block last 0 last.totalLen.toNat)

/-- What the API function returns once the wait is answered by `last`. -/
def Wait.result (w : Wait) (last : IcapMsg) : CallResult :=
  w.call.finish (responseRet last) (responseCopy last w.response)

/-- `icap_loop` returns to its caller: the test of `icap_wait_for_response`, or the
program. -/
def loopReturn (icap : Instance) (ret : U32) : List Activation → State × List Event
  | .poll w :: rest =>
      let last := icap.transport.lastResponse
      if last.seqNum = w.seqNum then
        (⟨icap, rest⟩,
          [.answered w.seqNum (responseRet last) (w.copied last),
            .returned w.call (w.result last)])
      else
        (⟨icap, .clock w :: rest⟩, [])
  | stack => (⟨icap, stack⟩, [.loopReturned ret])

/-- `fifo->tail = tail` -/
def setTail (icap : Instance) (tail : Nat) : Instance :=
  { icap with transport :=
      { icap.transport with msgFifo := { icap.transport.msgFifo with tail := tail } } }

/-- The end of `icap_loop`: the slot is read again for the buffer to release. -/
def loopEnd (icap : Instance) (tailNext : Nat) (ret : U32) (stack : List Activation) :
    State × List Event :=
  let (s, ev) := loopReturn (setTail icap tailNext) ret stack
  (s, .released (icap.transport.msgFifo.slot tailNext).data.addr :: ev)

/-- Go on with a handler, and with `icap_loop` when the handler returns. -/
def loopParse (icap : Instance) (tailNext : Nat) (sendRet : U32) (stack : List Activation)
    (p : Parse U32) : State × List Event :=
  let (t, ev, progress) := runParse sendRet icap.transport p
  let icap' := { icap with transport := t }
  match progress with
  | .callback k => (⟨icap', .loop tailNext k :: stack⟩, ev)
  | .done ret =>
      let (s, ev') := loopEnd icap' tailNext ret stack
      (s, ev ++ ev')

/-- `icap_loop`, called by the top of the stack. -/
def icapLoop (Q : Nat) (icap : Instance) (sendRet : U32) (stack : List Activation) :
    State × List Event :=
  let fifo := icap.transport.msgFifo
  if fifo.tail = fifo.head then
    loopReturn icap 0 stack
  else
    let tailNext := indexNext Q fifo.tail
    let msg := fifo.slot tailNext
    let (icap', p) := icapParseMsg bareMetal icap msg.srcAddr msg.data.mem msg.size
    let (s, ev) := loopParse icap' tailNext sendRet stack p
    (s, .parsed msg :: ev)

/-- An API function up to its return or its wait; `icap_prepare_wait` does nothing here. -/
def startCall (icap : Instance) (c : ApiCall) (now sendRet : U32) (uninit : Mem)
    (stack : List Activation) : State × List Event :=
  match c.call with
  | .done r => (⟨icap, stack⟩, [.returned c r])
  | .sendMsg cmd data sync _ k =>
      match icapSendMsgPayload data with
      | none => (⟨icap, stack⟩, [.returned c (k (-ICAP_ERROR_MSG_LEN) uninit)])
      | some payload =>
          let (icap', seqNum) := icapSendMsgSeqNum icap
          let sent := icapSendPlatform icap'.transport (icapMsgFrame cmd ICAP_MSG seqNum payload)
          if sync then
            (⟨icap', .poll ⟨c, seqNum, now, uninit⟩ :: stack⟩, [sent])
          else
            (⟨icap', stack⟩, [sent, .returned c (k sendRet uninit)])

/-! ## Steps -/

/-- The program runs at the top level and in callbacks. -/
def programRuns : List Activation → Bool
  | [] => true
  | .loop _ _ :: _ => true
  | _ => false

def lifecycleStep (s : State) (r : Instance × U32) : Option (State × List Event) :=
  if programRuns s.stack then some (⟨r.1, s.stack⟩, [.lifecycle r.2]) else none

def step (Q : Nat) (s : State) : Input → Option (State × List Event)
  | .putMsg msg =>
      let (icap, ret) := icapPutMsg Q s.icap msg
      some (⟨icap, s.stack⟩, [.put msg ret])
  | .applicationInit name cb priv =>
      lifecycleStep s (icapApplicationInit bareMetal s.icap name cb priv)
  | .applicationDeinit => lifecycleStep s (icapApplicationDeinit bareMetal s.icap)
  | .deviceInit name cb priv => lifecycleStep s (icapDeviceInit bareMetal s.icap name cb priv)
  | .deviceDeinit => lifecycleStep s (icapDeviceDeinit bareMetal s.icap)
  | .call c now sendRet uninit =>
      if programRuns s.stack then some (startCall s.icap c now sendRet uninit s.stack) else none
  | .loop sendRet =>
      if programRuns s.stack then some (icapLoop Q s.icap sendRet s.stack) else none
  | .pass sendRet =>
      match s.stack with
      | .poll _ :: _ => some (icapLoop Q s.icap sendRet s.stack)
      | _ => none
  | .clock now =>
      match s.stack with
      | .clock w :: rest =>
          if now - w.start < ICAP_MSG_TIMEOUT_US then
            some (⟨s.icap, .poll w :: rest⟩, [])
          else
            some (⟨s.icap, rest⟩, [.timedOut w.seqNum,
              .returned w.call (w.call.finish (-ICAP_ERROR_TIMEOUT) w.response)])
      | _ => none
  | .callbackRet r sendRet =>
      match s.stack with
      | .loop tailNext k :: rest => some (loopParse s.icap tailNext sendRet rest (k r))
      | _ => none

def machine (Q : Nat) : Machine State Input Event := ⟨step Q⟩

/-- The instance before its first init, with nothing running. -/
def State.zeroed (rpmsgInstance rpmsgEpt : Nat) : State :=
  ⟨zeroedInstance rpmsgInstance rpmsgEpt, []⟩

/-! ## The start of a call -/

/-- A call returns at once, or takes the next seq_num, sends its message and either waits or
returns. -/
theorem startCall_cases (icap : Instance) (c : ApiCall) (now sendRet : U32) (uninit : Mem)
    (stack : List Activation) :
    (c.request (icap.seqNum + 1) = none ∧
      startCall icap c now sendRet uninit stack
        = (⟨icap, stack⟩, [.returned c (c.finish sendRet uninit)]))
    ∨ ∃ frame, c.request (icap.seqNum + 1) = some frame ∧
      ((c.sync = true ∧ startCall icap c now sendRet uninit stack
          = (⟨{ icap with seqNum := icap.seqNum + 1 },
              .poll ⟨c, icap.seqNum + 1, now, uninit⟩ :: stack⟩,
            [icapSendPlatform icap.transport frame]))
      ∨ (c.sync = false ∧ startCall icap c now sendRet uninit stack
          = (⟨{ icap with seqNum := icap.seqNum + 1 }, stack⟩,
            [icapSendPlatform icap.transport frame, .returned c (c.finish sendRet uninit)]))) := by
  have hsends := c.call_sends
  cases hc : c.call with
  | done r =>
      refine Or.inl ⟨by simp only [ApiCall.request, hc], ?_⟩
      simp only [startCall, hc, ApiCall.finish]
  | sendMsg cmd data sync wants k =>
      rw [hc] at hsends
      have hpayload := icapSendMsgPayload_of_sends hsends
      refine Or.inr ⟨icapMsgFrame cmd ICAP_MSG (icap.seqNum + 1) (data.getD []),
        by simp only [ApiCall.request, hc], ?_⟩
      cases hsync : c.sync with
      | true =>
          have hs : sync = true := hsends.1.trans hsync
          refine Or.inl ⟨rfl, ?_⟩
          simp only [startCall, hc, hpayload, icapSendMsgSeqNum, hs, if_true]
      | false =>
          have hs : sync = false := hsends.1.trans hsync
          refine Or.inr ⟨rfl, ?_⟩
          simp only [startCall, hc, hpayload, icapSendMsgSeqNum, hs, Bool.false_eq_true,
            if_false, ApiCall.finish]

/-! ## The run of `icap_loop` -/

theorem icapLoop_empty {Q : Nat} {icap : Instance} {sendRet : U32} {stack : List Activation}
    (h : icap.transport.msgFifo.tail = icap.transport.msgFifo.head) :
    icapLoop Q icap sendRet stack = loopReturn icap 0 stack :=
  if_pos h

theorem icapLoop_parse {Q : Nat} {icap icap' : Instance} {sendRet : U32}
    {stack : List Activation} {p : Parse U32} {msg : IcapRemoteMsg}
    (h : icap.transport.msgFifo.tail ≠ icap.transport.msgFifo.head)
    (hmsg : msg = icap.transport.msgFifo.slot (indexNext Q icap.transport.msgFifo.tail))
    (hp : icapParseMsg bareMetal icap msg.srcAddr msg.data.mem msg.size = (icap', p)) :
    icapLoop Q icap sendRet stack
      = ((loopParse icap' (indexNext Q icap.transport.msgFifo.tail) sendRet stack p).1,
        .parsed msg ::
          (loopParse icap' (indexNext Q icap.transport.msgFifo.tail) sendRet stack p).2) := by
  subst hmsg
  unfold icapLoop
  rw [if_neg h]
  simp only [hp]

/-! ## The return of `icap_loop` -/

theorem loopReturn_answered {icap : Instance} {ret : U32} {w : Wait} {rest : List Activation}
    (h : icap.transport.lastResponse.seqNum = w.seqNum) :
    loopReturn icap ret (.poll w :: rest) = (⟨icap, rest⟩,
      [.answered w.seqNum (responseRet icap.transport.lastResponse)
        (w.copied icap.transport.lastResponse),
        .returned w.call (w.result icap.transport.lastResponse)]) :=
  if_pos h

theorem loopReturn_waiting {icap : Instance} {ret : U32} {w : Wait} {rest : List Activation}
    (h : icap.transport.lastResponse.seqNum ≠ w.seqNum) :
    loopReturn icap ret (.poll w :: rest) = (⟨icap, .clock w :: rest⟩, []) :=
  if_neg h

/-- The end of an `icap_loop` that leaves the awaited response. -/
theorem loopEnd_answered (icap : Instance) (tailNext : Nat) (ret : U32) {w : Wait}
    (rest : List Activation) (h : icap.transport.lastResponse.seqNum = w.seqNum) :
    loopEnd icap tailNext ret (.poll w :: rest) = (⟨setTail icap tailNext, rest⟩,
      [.released (icap.transport.msgFifo.slot tailNext).data.addr,
        .answered w.seqNum (responseRet icap.transport.lastResponse)
          (w.copied icap.transport.lastResponse),
        .returned w.call (w.result icap.transport.lastResponse)]) := by
  have h' : (setTail icap tailNext).transport.lastResponse.seqNum = w.seqNum := h
  rw [loopEnd, loopReturn_answered h']
  rfl

/-- `icap_loop` returns to a wait that is answered, to a wait that is not, or to the
program. -/
theorem loopReturn_cases (icap : Instance) (ret : U32) (stack : List Activation) :
    (∃ w rest, stack = .poll w :: rest ∧ icap.transport.lastResponse.seqNum = w.seqNum ∧
      loopReturn icap ret stack = (⟨icap, rest⟩,
        [.answered w.seqNum (responseRet icap.transport.lastResponse)
          (w.copied icap.transport.lastResponse),
          .returned w.call (w.result icap.transport.lastResponse)]))
    ∨ (∃ w rest, stack = .poll w :: rest ∧ icap.transport.lastResponse.seqNum ≠ w.seqNum ∧
      loopReturn icap ret stack = (⟨icap, .clock w :: rest⟩, []))
    ∨ ((∀ w rest, stack ≠ .poll w :: rest) ∧
      loopReturn icap ret stack = (⟨icap, stack⟩, [.loopReturned ret])) := by
  cases stack with
  | nil => exact Or.inr (Or.inr ⟨by simp, rfl⟩)
  | cons a rest =>
      cases a with
      | poll w =>
          by_cases h : icap.transport.lastResponse.seqNum = w.seqNum
          · exact Or.inl ⟨w, rest, rfl, h, loopReturn_answered h⟩
          · exact Or.inr (Or.inl ⟨w, rest, rfl, h, loopReturn_waiting h⟩)
      | clock w => exact Or.inr (Or.inr ⟨by simp, rfl⟩)
      | loop tailNext k => exact Or.inr (Or.inr ⟨by simp, rfl⟩)

/-! ## The cases of a step -/

/-- What an init or deinit leaves and returns. -/
def lifecycleResult (icap : Instance) : Input → Option (Instance × U32)
  | .applicationInit name cb priv => some (icapApplicationInit bareMetal icap name cb priv)
  | .applicationDeinit => some (icapApplicationDeinit bareMetal icap)
  | .deviceInit name cb priv => some (icapDeviceInit bareMetal icap name cb priv)
  | .deviceDeinit => some (icapDeviceDeinit bareMetal icap)
  | _ => none

/-- The input opens the transport: an init that is not refused. -/
def opensTransport (s : State) : Input → Bool
  | .applicationInit _ cb _ => cb.isSome && s.icap.callbacks.isNone
  | .deviceInit _ cb _ => cb.isSome
  | _ => false

/-- An init that opens the transport also resets the counter; every other init or deinit
leaves both. -/
theorem lifecycleResult_cases {s : State} {i : Input} {r : Instance × U32}
    (hr : lifecycleResult s.icap i = some r) :
    (opensTransport s i = true ∧ r.1.transport = icapInitTransport s.icap.transport ∧
      r.1.seqNum = 0 ∧ r.1.callbacks ≠ none)
    ∨ (opensTransport s i = false ∧ r.1.transport = s.icap.transport ∧
      r.1.seqNum = s.icap.seqNum) := by
  cases i with
  | applicationInit name cb priv =>
      obtain rfl := Option.some.inj hr
      cases cb with
      | none => exact Or.inr ⟨rfl, rfl, rfl⟩
      | some cb =>
          cases hcb : s.icap.callbacks with
          | none =>
              refine Or.inl ⟨by simp [opensTransport, hcb], ?_⟩
              simp only [icapApplicationInit, hcb]
              exact ⟨rfl, rfl, nofun⟩
          | some cb' =>
              refine Or.inr ⟨by simp [opensTransport, hcb], ?_⟩
              simp only [icapApplicationInit, hcb]
              exact ⟨rfl, rfl⟩
  | applicationDeinit =>
      obtain rfl := Option.some.inj hr
      refine Or.inr ⟨rfl, ?_⟩
      unfold icapApplicationDeinit
      split_ifs <;> exact ⟨rfl, rfl⟩
  | deviceInit name cb priv =>
      obtain rfl := Option.some.inj hr
      cases cb with
      | none => exact Or.inr ⟨rfl, rfl, rfl⟩
      | some cb => exact Or.inl ⟨rfl, rfl, rfl, nofun⟩
  | deviceDeinit =>
      obtain rfl := Option.some.inj hr
      refine Or.inr ⟨rfl, ?_⟩
      unfold icapDeviceDeinit
      split_ifs <;> exact ⟨rfl, rfl⟩
  | _ => cases hr

/-- Every step is one of these; the proofs about steps go through them. -/
inductive StepCase (Q : Nat) (s : State) : Input → State → List Event → Prop
  | putMsg (msg : IcapRemoteMsg) :
      StepCase Q s (.putMsg msg) ⟨(icapPutMsg Q s.icap msg).1, s.stack⟩
        [.put msg (icapPutMsg Q s.icap msg).2]
  | lifecycle {i : Input} (r : Instance × U32) (hr : lifecycleResult s.icap i = some r)
      (hruns : programRuns s.stack = true) :
      StepCase Q s i ⟨r.1, s.stack⟩ [.lifecycle r.2]
  /-- The call returns without sending. -/
  | refused (c : ApiCall) (now sendRet : U32) (uninit : Mem)
      (hruns : programRuns s.stack = true) (hreq : c.request (s.icap.seqNum + 1) = none) :
      StepCase Q s (.call c now sendRet uninit) s [.returned c (c.finish sendRet uninit)]
  /-- The call sends and waits. -/
  | waits (c : ApiCall) (now sendRet : U32) (uninit : Mem) (frame : List Byte)
      (hruns : programRuns s.stack = true) (hreq : c.request (s.icap.seqNum + 1) = some frame)
      (hsync : c.sync = true) :
      StepCase Q s (.call c now sendRet uninit)
        ⟨{ s.icap with seqNum := s.icap.seqNum + 1 },
          .poll ⟨c, s.icap.seqNum + 1, now, uninit⟩ :: s.stack⟩
        [icapSendPlatform s.icap.transport frame]
  /-- The call sends and returns. -/
  | notifies (c : ApiCall) (now sendRet : U32) (uninit : Mem) (frame : List Byte)
      (hruns : programRuns s.stack = true) (hreq : c.request (s.icap.seqNum + 1) = some frame)
      (hsync : c.sync = false) :
      StepCase Q s (.call c now sendRet uninit)
        ⟨{ s.icap with seqNum := s.icap.seqNum + 1 }, s.stack⟩
        [icapSendPlatform s.icap.transport frame, .returned c (c.finish sendRet uninit)]
  /-- The program calls `icap_loop`. -/
  | loop (sendRet : U32) (hruns : programRuns s.stack = true) :
      StepCase Q s (.loop sendRet) (icapLoop Q s.icap sendRet s.stack).1
        (icapLoop Q s.icap sendRet s.stack).2
  /-- The innermost function is a wait and calls `icap_loop`. -/
  | pass (sendRet : U32) (w : Wait) (rest : List Activation) (hstack : s.stack = .poll w :: rest) :
      StepCase Q s (.pass sendRet) (icapLoop Q s.icap sendRet s.stack).1
        (icapLoop Q s.icap sendRet s.stack).2
  | polls (now : U32) (w : Wait) (rest : List Activation) (hstack : s.stack = .clock w :: rest)
      (htime : now - w.start < ICAP_MSG_TIMEOUT_US) :
      StepCase Q s (.clock now) ⟨s.icap, .poll w :: rest⟩ []
  | timesOut (now : U32) (w : Wait) (rest : List Activation) (hstack : s.stack = .clock w :: rest)
      (htime : ¬ now - w.start < ICAP_MSG_TIMEOUT_US) :
      StepCase Q s (.clock now) ⟨s.icap, rest⟩ [.timedOut w.seqNum,
        .returned w.call (w.call.finish (-ICAP_ERROR_TIMEOUT) w.response)]
  /-- The innermost `icap_loop` goes on after its callback. -/
  | resumes (r : CallbackResult) (sendRet : U32) (tailNext : Nat)
      (k : CallbackResult → Parse U32) (rest : List Activation)
      (hstack : s.stack = .loop tailNext k :: rest) :
      StepCase Q s (.callbackRet r sendRet) (loopParse s.icap tailNext sendRet rest (k r)).1
        (loopParse s.icap tailNext sendRet rest (k r)).2

section

variable {Q : Nat} {s s' : State} {i : Input} {ev : List Event}

theorem lifecycleStep_case {r : Instance × U32} (hr : lifecycleResult s.icap i = some r)
    (h : lifecycleStep s r = some (s', ev)) : StepCase Q s i s' ev := by
  unfold lifecycleStep at h
  split_ifs at h with hruns
  obtain ⟨rfl, rfl⟩ := Prod.mk.inj (Option.some.inj h)
  exact .lifecycle r hr hruns

theorem startCall_case {c : ApiCall} {now sendRet : U32} {uninit : Mem}
    (hruns : programRuns s.stack = true)
    (h : startCall s.icap c now sendRet uninit s.stack = (s', ev)) :
    StepCase Q s (.call c now sendRet uninit) s' ev := by
  rcases startCall_cases s.icap c now sendRet uninit s.stack with
    ⟨hreq, hs⟩ | ⟨frame, hreq, ⟨hsync, hs⟩ | ⟨hsync, hs⟩⟩
  all_goals
    rw [hs] at h
    obtain ⟨rfl, rfl⟩ := Prod.mk.inj h
  · exact .refused c now sendRet uninit hruns hreq
  · exact .waits c now sendRet uninit frame hruns hreq hsync
  · exact .notifies c now sendRet uninit frame hruns hreq hsync

theorem step_cases (h : step Q s i = some (s', ev)) : StepCase Q s i s' ev := by
  cases i with
  | putMsg msg =>
      obtain ⟨rfl, rfl⟩ := Prod.mk.inj (Option.some.inj h)
      exact .putMsg msg
  | applicationInit _ _ _ | applicationDeinit | deviceInit _ _ _ | deviceDeinit =>
      exact lifecycleStep_case rfl h
  | call c now sendRet uninit =>
      simp only [step] at h
      split_ifs at h with hruns
      exact startCall_case hruns (Option.some.inj h)
  | loop sendRet =>
      simp only [step] at h
      split_ifs at h with hruns
      obtain ⟨rfl, rfl⟩ := Prod.mk.inj (Option.some.inj h)
      exact .loop sendRet hruns
  | pass sendRet =>
      simp only [step] at h
      split at h
      · rename_i w rest hstack
        obtain ⟨rfl, rfl⟩ := Prod.mk.inj (Option.some.inj h)
        exact .pass sendRet w rest hstack
      · cases h
  | clock now =>
      simp only [step] at h
      split at h
      · rename_i w rest hstack
        split_ifs at h with htime
        · obtain ⟨rfl, rfl⟩ := Prod.mk.inj (Option.some.inj h)
          exact .polls now w rest hstack htime
        · obtain ⟨rfl, rfl⟩ := Prod.mk.inj (Option.some.inj h)
          exact .timesOut now w rest hstack htime
      · cases h
  | callbackRet r sendRet =>
      simp only [step] at h
      split at h
      · rename_i tailNext k rest hstack
        obtain ⟨rfl, rfl⟩ := Prod.mk.inj (Option.some.inj h)
        exact .resumes r sendRet tailNext k rest hstack
      · cases h

end

end Icap.BareMetal
