import Icap.BareMetal.Session
import Icap.Protocol.Notification

set_option autoImplicit false

/-! # What a step does with handlers

The steps of the machine, seen from the handlers of messages: which message is parsed, which
callbacks are invoked, which frames are sent, and which handlers are left in a callback
(`step_handling`).
-/

namespace Icap.BareMetal

open ByteMemory RingBuffer Transition

/-- The events of handlers and calls. -/
inductive HandlerEvent where
  | parsed (msg : IcapRemoteMsg)
  | invoked (c : Callback)
  | sent (frame : List Byte)

def Event.handler : Event → Option HandlerEvent
  | .parsed msg => some (.parsed msg)
  | .invoked c => some (.invoked c)
  | .sent _ _ _ frame => some (.sent frame)
  | _ => none

def handlerEvents (ev : List Event) : List HandlerEvent := ev.filterMap Event.handler

@[simp] theorem handlerEvents_append (ev ev' : List Event) :
    handlerEvents (ev ++ ev') = handlerEvents ev ++ handlerEvents ev' := by
  simp [handlerEvents]

/-- The rest of the handler of each `icap_loop` that is in a callback, innermost first. -/
def pendingHandlers : List Activation → List (CallbackResult → Parse U32)
  | [] => []
  | .loop _ k :: rest => k :: pendingHandlers rest
  | .poll _ :: rest => pendingHandlers rest
  | .clock _ :: rest => pendingHandlers rest

theorem pendingHandlers_length (stack : List Activation) :
    (pendingHandlers stack).length = (loopTails stack).length := by
  induction stack with
  | nil => rfl
  | cons a rest ih =>
      cases a with
      | poll w => exact ih
      | clock w => exact ih
      | loop tailNext k => exact congrArg (· + 1) ih

/-- No handler is in a callback when no `icap_loop` is. -/
theorem pendingHandlers_eq_nil {stack : List Activation} (h : loopTails stack = []) :
    pendingHandlers stack = [] := by
  apply List.eq_nil_of_length_eq_zero
  rw [pendingHandlers_length, h]
  rfl

/-! ## One handler -/

/-- What a handler does up to its next callback, and its rest if it stops in one. -/
def outcome (sendRet : U32) : Parse U32 →
    List HandlerEvent × Option (CallbackResult → Parse U32)
  | .done _ => ([], none)
  | .callback c k => ([.invoked c], some k)
  | .sendPlatform frame k =>
      (.sent frame :: (outcome sendRet (k sendRet)).1, (outcome sendRet (k sendRet)).2)
  | .responseNotify _ k => outcome sendRet (k 0)

def Progress.pending : Progress → Option (CallbackResult → Parse U32)
  | .done _ => none
  | .callback k => some k

theorem runParse_outcome (sendRet : U32) (t : IcapTransport) (p : Parse U32) :
    handlerEvents (runParse sendRet t p).2.1 = (outcome sendRet p).1 ∧
      (runParse sendRet t p).2.2.pending = (outcome sendRet p).2 := by
  -- `icap_response_notify` returns 0 on bare metal, so the transport decides nothing
  induction p generalizing t with
  | done ret => exact ⟨rfl, rfl⟩
  | callback c k _ => exact ⟨rfl, rfl⟩
  | sendPlatform frame k ih =>
      obtain ⟨h1, h2⟩ := ih sendRet t
      exact ⟨congrArg (HandlerEvent.sent frame :: ·) h1, h2⟩
  | responseNotify response k ih => exact ih _ _

theorem runParse_remoteAddr (sendRet : U32) (t : IcapTransport) (p : Parse U32) :
    (runParse sendRet t p).1.remoteAddr = t.remoteAddr := by
  induction p generalizing t with
  | done ret => rfl
  | callback c k _ => rfl
  | sendPlatform frame k ih => exact ih _ _
  | responseNotify response k ih => exact ih _ _

theorem loopReturn_handlers (icap : Instance) (ret : U32) (stack : List Activation) :
    handlerEvents (loopReturn icap ret stack).2 = [] ∧
      pendingHandlers (loopReturn icap ret stack).1.stack = pendingHandlers stack := by
  rcases loopReturn_cases icap ret stack with
    ⟨w, rest, rfl, -, h⟩ | ⟨w, rest, rfl, -, h⟩ | ⟨-, h⟩ <;> rw [h] <;> exact ⟨rfl, rfl⟩

theorem loopParse_handlers (icap : Instance) (tailNext : Nat) (sendRet : U32)
    (stack : List Activation) (p : Parse U32) :
    handlerEvents (loopParse icap tailNext sendRet stack p).2 = (outcome sendRet p).1 ∧
      pendingHandlers (loopParse icap tailNext sendRet stack p).1.stack
        = (outcome sendRet p).2.toList ++ pendingHandlers stack := by
  obtain ⟨hev, hpending⟩ := runParse_outcome sendRet icap.transport p
  unfold loopParse
  rcases hrun : runParse sendRet icap.transport p with ⟨t, ev, progress⟩
  rw [hrun] at hev hpending
  simp only at hev hpending
  rw [← hev, ← hpending]
  cases progress with
  | callback k => exact ⟨rfl, rfl⟩
  | done ret =>
      obtain ⟨h1, h2⟩ := loopReturn_handlers (setTail { icap with transport := t } tailNext) ret
        stack
      refine ⟨?_, h2⟩
      rw [handlerEvents_append]
      exact (congrArg _ h1).trans (List.append_nil _)

/-! ## The identity of an instance -/

/-- The callbacks, the type and the remote address, which decide how a message is parsed. -/
def identity (icap : Instance) : Option CallbackTable × IcapInstanceType × U32 :=
  (icap.callbacks, icap.type, icap.transport.remoteAddr)

theorem loopParse_identity (icap : Instance) (tailNext : Nat) (sendRet : U32)
    (stack : List Activation) (p : Parse U32) :
    identity (loopParse icap tailNext sendRet stack p).1.icap = identity icap := by
  have haddr := runParse_remoteAddr sendRet icap.transport p
  unfold loopParse
  rcases hrun : runParse sendRet icap.transport p with ⟨t, ev, progress⟩
  rw [hrun] at haddr
  have hid : identity { icap with transport := t } = identity icap := by
    rw [identity, identity, show t.remoteAddr = _ from haddr]
  cases progress with
  | callback k => exact hid
  | done ret =>
      simp only [loopEnd, loopReturn_icap]
      exact hid

theorem icapPutMsg_identity (Q : Nat) (icap : Instance) (msg : IcapRemoteMsg) :
    identity (icapPutMsg Q icap msg).1 = identity icap := by
  rcases icapPutMsg_cases Q icap msg with ⟨-, h⟩ | ⟨-, h⟩ | ⟨-, -, h⟩
  · rw [h]
  · rw [h]
  · rw [h]
    rfl

/-! ## Steps -/

def Input.lifecycle : Input → Bool
  | .applicationInit _ _ _ => true
  | .applicationDeinit => true
  | .deviceInit _ _ _ => true
  | .deviceDeinit => true
  | _ => false

theorem lifecycle_of_result {icap : Instance} {i : Input} {r : Instance × U32}
    (hr : lifecycleResult icap i = some r) : i.lifecycle = true := by
  cases i <;> first | rfl | cases hr

/-- The notification the program sends. -/
def Input.note : Input → Option Note
  | .call c _ _ _ => c.note
  | _ => none

/-- What the running callback returns. -/
def Input.result : Input → Option U32
  | .callbackRet r _ => some r.ret
  | _ => none

/-- What a step that is no init and no deinit does with handlers. -/
inductive Handling (Q : Nat) (s : State) (i : Input) (s' : State) (ev : List Event) : Prop
  | quiet (hnote : i.note = none) (hresult : i.result = none) (hev : handlerEvents ev = [])
      (hpending : pendingHandlers s'.stack = pendingHandlers s.stack)
      (hid : identity s'.icap = identity s.icap)
  /-- A call sends its request. -/
  | call (c : ApiCall) (now sendRet : U32) (uninit : Mem) (frame : List Byte)
      (hi : i = .call c now sendRet uninit) (hreq : c.request (s.icap.seqNum + 1) = some frame)
      (hev : handlerEvents ev = [.sent frame])
      (hpending : pendingHandlers s'.stack = pendingHandlers s.stack)
      (hid : identity s'.icap = identity s.icap)
  /-- `icap_loop` runs the handler of the message after the tail. -/
  | parse (sendRet : U32) (msg : IcapRemoteMsg) (icap : Instance) (p : Parse U32)
      (henter : entersLoop i = true) (hne : s.fifo.tail ≠ s.fifo.head)
      (hmsg : msg = s.fifo.slot (indexNext Q s.fifo.tail))
      (hp : icapParseMsg bareMetal s.icap msg.srcAddr msg.data.mem msg.size = (icap, p))
      (hev : handlerEvents ev = .parsed msg :: (outcome sendRet p).1)
      (hpending : pendingHandlers s'.stack
        = (outcome sendRet p).2.toList ++ pendingHandlers s.stack)
      (hid : identity s'.icap = identity icap)
  /-- The handler whose callback returns goes on. -/
  | resume (r : CallbackResult) (sendRet : U32) (k : CallbackResult → Parse U32)
      (rest : List (CallbackResult → Parse U32)) (hi : i = .callbackRet r sendRet)
      (hk : pendingHandlers s.stack = k :: rest)
      (hev : handlerEvents ev = (outcome sendRet (k r)).1)
      (hpending : pendingHandlers s'.stack = (outcome sendRet (k r)).2.toList ++ rest)
      (hid : identity s'.icap = identity s.icap)

/-- A call that sends nothing notifies nothing. -/
theorem note_of_request {c : ApiCall} {n : U32} (h : c.request n = none) : c.note = none := by
  cases c with
  | fragReady buf => cases buf <;> first | rfl | cases h
  | xrun buf => cases buf <;> first | rfl | cases h
  | error e => cases h
  | _ => rfl

section

variable {Q : Nat} {s s' : State} {i : Input} {ev : List Event}

theorem icapLoop_handling {sendRet : U32} (henter : entersLoop i = true)
    (h : icapLoop Q s.icap sendRet s.stack = (s', ev)) : Handling Q s i s' ev := by
  have hnote : i.note = none ∧ i.result = none := by
    cases i <;> first | exact ⟨rfl, rfl⟩ | cases henter
  by_cases hne : s.fifo.tail = s.fifo.head
  · rw [icapLoop_empty hne] at h
    obtain ⟨hev, hpending⟩ := loopReturn_handlers s.icap 0 s.stack
    have hicap := loopReturn_icap s.icap 0 s.stack
    rw [h] at hev hpending hicap
    exact .quiet hnote.1 hnote.2 hev hpending (by rw [show s'.icap = _ from hicap])
  · obtain ⟨msg, hmsg⟩ : ∃ msg, msg = s.fifo.slot (indexNext Q s.fifo.tail) := ⟨_, rfl⟩
    rcases hp : icapParseMsg bareMetal s.icap msg.srcAddr msg.data.mem msg.size with ⟨icap, p⟩
    rw [icapLoop_parse hne hmsg hp] at h
    obtain ⟨rfl, rfl⟩ := Prod.mk.inj h
    obtain ⟨hev, hpending⟩ := loopParse_handlers icap (indexNext Q s.fifo.tail) sendRet s.stack p
    exact .parse sendRet msg icap p henter hne hmsg hp (congrArg (HandlerEvent.parsed msg :: ·) hev)
      hpending (loopParse_identity _ _ _ _ _)

/-- Every step is one of the cases. -/
theorem step_handling (hlife : i.lifecycle = false) (h : step Q s i = some (s', ev)) :
    Handling Q s i s' ev := by
  cases step_cases h with
  | putMsg msg => exact .quiet rfl rfl rfl rfl (icapPutMsg_identity _ _ _)
  | lifecycle r hr => simp [lifecycle_of_result hr] at hlife
  | refused c now sendRet uninit _ hreq => exact .quiet (note_of_request hreq) rfl rfl rfl rfl
  | waits c now sendRet uninit frame _ hreq =>
      exact .call c now sendRet uninit frame rfl hreq rfl rfl rfl
  | notifies c now sendRet uninit frame _ hreq =>
      exact .call c now sendRet uninit frame rfl hreq rfl rfl rfl
  | loop sendRet => exact icapLoop_handling rfl rfl
  | pass sendRet => exact icapLoop_handling rfl rfl
  | polls now w rest hstack => exact .quiet rfl rfl rfl (by rw [hstack]; rfl) rfl
  | timesOut now w rest hstack => exact .quiet rfl rfl rfl (by rw [hstack]; rfl) rfl
  | resumes r sendRet tailNext k rest hstack =>
      obtain ⟨hev, hpending⟩ := loopParse_handlers s.icap tailNext sendRet rest (k r)
      exact .resume r sendRet k (pendingHandlers rest) rfl (by rw [hstack]; rfl) hev hpending
        (loopParse_identity _ _ _ _ _)

/-! ## Waits outside the callbacks -/

/-- Every wait is outside the callbacks. -/
def WaitsOutside (s : State) : Prop := loopTails s.stack.tail = []

theorem loopTails_tail {stack : List Activation} (h : loopTails stack = []) :
    loopTails stack.tail = [] := by
  cases stack with
  | nil => rfl
  | cons a rest =>
      cases a with
      | poll w => exact h
      | clock w => exact h
      | loop tailNext k => cases h

theorem loopReturn_outside (icap : Instance) (ret : U32) {stack : List Activation}
    (h : loopTails stack = []) : loopTails (loopReturn icap ret stack).1.stack.tail = [] := by
  have htails := loopReturn_tails icap ret stack
  rw [h] at htails
  exact loopTails_tail htails

theorem loopParse_outside (icap : Instance) (tailNext : Nat) (sendRet : U32)
    {stack : List Activation} (p : Parse U32) (h : loopTails stack = []) :
    loopTails (loopParse icap tailNext sendRet stack p).1.stack.tail = [] := by
  unfold loopParse
  rcases runParse sendRet icap.transport p with ⟨t, ev, progress⟩
  cases progress with
  | callback k => exact h
  | done ret => exact loopReturn_outside _ ret h

theorem icapLoop_outside {sendRet : U32} (hidle : loopTails s.stack = []) :
    WaitsOutside (icapLoop Q s.icap sendRet s.stack).1 := by
  by_cases hne : s.fifo.tail = s.fifo.head
  · rw [icapLoop_empty hne]
    exact loopReturn_outside _ 0 hidle
  · obtain ⟨msg, hmsg⟩ : ∃ msg, msg = s.fifo.slot (indexNext Q s.fifo.tail) := ⟨_, rfl⟩
    rcases hp : icapParseMsg bareMetal s.icap msg.srcAddr msg.data.mem msg.size with ⟨icap, p⟩
    rw [icapLoop_parse hne hmsg hp]
    exact loopParse_outside icap _ sendRet p hidle

/-- `icap_wait_for_response` enters `icap_loop` outside the callbacks. -/
theorem WaitsOutside.pass (h : WaitsOutside s) {sendRet : U32}
    (hstep : step Q s (.pass sendRet) = some (s', ev)) : loopTails s.stack = [] := by
  cases step_cases hstep with
  | lifecycle r hr => cases hr
  | pass _ w rest hstack =>
      rw [WaitsOutside, hstack] at h
      rw [hstack]
      exact h

/-- Waits stay outside the callbacks when no callback makes a synchronous call or enters
`icap_loop`. -/
theorem WaitsOutside.of_step (h : WaitsOutside s) (hlife : i.lifecycle = false)
    (hcall : ∀ c now sendRet uninit, i = .call c now sendRet uninit → c.sync = true →
      loopTails s.stack = [])
    (hloop : entersLoop i = true → loopTails s.stack = []) (hstep : step Q s i = some (s', ev)) :
    WaitsOutside s' := by
  cases step_cases hstep with
  | putMsg msg => exact h
  | lifecycle r hr => simp [lifecycle_of_result hr] at hlife
  | refused => exact h
  | waits c now sendRet uninit _ _ _ hsync => exact hcall c now sendRet uninit rfl hsync
  | notifies => exact h
  | loop sendRet => exact icapLoop_outside (hloop rfl)
  | pass sendRet => exact icapLoop_outside (hloop rfl)
  | polls now w rest hstack =>
      rw [WaitsOutside, hstack] at h
      exact h
  | timesOut now w rest hstack =>
      rw [WaitsOutside, hstack] at h
      exact loopTails_tail h
  | resumes r sendRet tailNext k rest hstack =>
      rw [WaitsOutside, hstack] at h
      exact loopParse_outside _ _ _ _ h

end

end Icap.BareMetal
