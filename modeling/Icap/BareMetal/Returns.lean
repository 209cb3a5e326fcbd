import Icap.BareMetal.Asking
import Icap.BareMetal.RemoteCall

set_option autoImplicit false

/-! # What the functions of an application return

The steps of the machine, seen from the calls that made a request: which call a step begins, which
call returns and what (`step_returns`), and from which message the response comes that is returned
(`step_stored`).
-/

namespace Icap.BareMetal

open ByteMemory RingBuffer Transition

/-- The return of a function that made a request. -/
def Event.callResult : Event → Option (ApiCall × CallResult)
  | .returned c r => if c.ask.isSome then some (c, r) else none
  | _ => none

def returnedResults (ev : List Event) : List (ApiCall × CallResult) := ev.filterMap Event.callResult

@[simp] theorem returnedResults_append (ev ev' : List Event) :
    returnedResults (ev ++ ev') = returnedResults ev ++ returnedResults ev' := by
  simp [returnedResults]

theorem returnedResults_of_concludes {ev : List Event} (h : ∀ e ∈ ev, e.concludes = false) :
    returnedResults ev = [] := by
  refine List.filterMap_eq_nil_iff.mpr fun e he => ?_
  have hno := h e he
  cases e <;> first | rfl | cases hno

theorem ask_of_async {c : ApiCall} (h : c.sync = false) : c.ask = none := by
  cases c <;> first | rfl | cases h

/-- What a step does to the calls that made a request. -/
inductive ReturnStep (s : State) (i : Input) (s' : State) (ev : List Event) : Prop
  | quiet (hasked : i.asked = none) (hwaits : waits s'.stack = waits s.stack)
      (hev : returnedResults ev = [])
  | call (c : ApiCall) (now sendRet : U32) (uninit : Mem) (q : U32 → Request)
      (hi : i = .call c now sendRet uninit) (hask : c.ask = some q)
      (hruns : programRuns s.stack = true)
      (hwaits : waits s'.stack = ⟨c, s.icap.seqNum + 1, now, uninit⟩ :: waits s.stack)
      (hev : returnedResults ev = [])
  | timeout (w : Wait) (hasked : i.asked = none) (hwaits : waits s.stack = w :: waits s'.stack)
      (hev : returnedResults ev
        = returnedResults [.returned w.call (w.call.finish (-ICAP_ERROR_TIMEOUT) w.response)])
  | answer (w : Wait) (hasked : i.asked = none) (hwaits : waits s.stack = w :: waits s'.stack)
      (hseq : s'.lastResponse.seqNum = w.seqNum)
      (hev : returnedResults ev = returnedResults [.returned w.call (w.result s'.lastResponse)])

section

variable {Q : Nat} {s s' : State} {i : Input} {ev : List Event}

/-- `icap_loop` returns to a wait that is answered, or ends no call. -/
theorem LoopOutcome.returns {stack : List Activation} {stored : Option IcapRemoteMsg}
    (h : LoopOutcome s stack s' ev stored) (hasked : i.asked = none)
    (hwaits : waits stack = waits s.stack) : ReturnStep s i s' ev := by
  cases h with
  | callback tailNext k _ hstack _ _ hno =>
      exact .quiet hasked (by rw [hstack]; exact hwaits) (returnedResults_of_concludes hno)
  | ended icap ret ev₁ _ hno hs' hev =>
      subst hs' hev
      have hnone := returnedResults_of_concludes hno
      rcases loopReturn_cases icap ret stack with
        ⟨w, rest, rfl, hseq, heq⟩ | ⟨w, rest, rfl, -, heq⟩ | ⟨-, heq⟩
      · rw [heq]
        refine .answer w hasked hwaits.symm hseq ?_
        rw [returnedResults_append, hnone]
        rfl
      · rw [heq]
        refine .quiet hasked hwaits ?_
        rw [returnedResults_append, hnone]
        rfl
      · rw [heq]
        refine .quiet hasked hwaits ?_
        rw [returnedResults_append, hnone]
        rfl

/-- Every step is one of the cases. -/
theorem step_returns (hq : Quiescent s) (h : step Q s i = some (s', ev)) :
    ReturnStep s i s' ev := by
  cases step_cases h with
  | putMsg msg => exact .quiet rfl rfl rfl
  | lifecycle r hr =>
      refine .quiet ?_ rfl rfl
      cases i <;> first | rfl | cases hr
  | refused c now sendRet uninit _ hreq =>
      have hask := ApiCall.ask_eq_none hreq
      refine .quiet hask rfl ?_
      simp [returnedResults, Event.callResult, hask]
  | waits c now sendRet uninit frame hruns hreq hsync =>
      obtain ⟨q, hask⟩ := ApiCall.ask_of_request hsync hreq
      exact .call c now sendRet uninit q rfl hask hruns rfl rfl
  | notifies c now sendRet uninit frame _ hreq hasync =>
      have hask := ask_of_async hasync
      refine .quiet hask rfl ?_
      simp [returnedResults, Event.callResult, hask, icapSendPlatform]
  | loop sendRet | pass sendRet =>
      obtain ⟨stored, hout⟩ := icapLoop_outcome (Q := Q) (s := s) sendRet s.stack
      exact hout.returns rfl rfl
  | polls now w rest hstack => exact .quiet rfl (by rw [hstack]; rfl) rfl
  | timesOut now w rest hstack => exact .timeout w rfl (by rw [hstack]; rfl) rfl
  | resumes r sendRet tailNext k rest hstack =>
      have hk : (k r).Silent := hq tailNext k (by rw [hstack]; exact List.mem_cons_self) r
      have hout := loopParse_outcome (s := s) tailNext sendRet rest hk rfl .nil
      rw [List.nil_append] at hout
      exact hout.returns rfl (by rw [hstack]; rfl)

/-! ## Where a response comes from -/

/-- A stored response is a message that was parsed. -/
def StoresParsed (ev : List Event) : Prop :=
  ∀ r ∈ storedMsgs ev, IsResponse r ∧ ∃ m ∈ parsedMsgs (handlerEvents ev), m.data.mem = r

theorem storesParsed_of_nil (h : storedMsgs ev = []) : StoresParsed ev := by
  intro r hr
  rw [h] at hr
  cases hr

theorem loopParse_silent_stored (icap : Instance) (tailNext : Nat) (sendRet : U32)
    (stack : List Activation) {p : Parse U32} (h : p.Silent) :
    storedMsgs (loopParse icap tailNext sendRet stack p).2 = [] := by
  obtain ⟨ev, hidle, ⟨k, -, heq⟩ | ⟨ret, heq⟩⟩ := loopParse_silent icap tailNext sendRet stack h
  · rw [heq]
    exact hidle.storedMsgs
  · rw [heq, storedMsgs_append, hidle.storedMsgs]
    exact loopReturn_stored _ _ _

theorem icapLoop_stored (sendRet : U32) (stack : List Activation) :
    StoresParsed (icapLoop Q s.icap sendRet stack).2 := by
  by_cases hne : s.icap.transport.msgFifo.tail = s.icap.transport.msgFifo.head
  · rw [icapLoop_empty hne]
    exact storesParsed_of_nil (loopReturn_stored _ _ _)
  · obtain ⟨msg, hmsg⟩ : ∃ msg, msg
        = s.icap.transport.msgFifo.slot (indexNext Q s.icap.transport.msgFifo.tail) := ⟨_, rfl⟩
    have hnotify := icapParseMsg_notify bareMetal s.icap msg.srcAddr msg.data.mem msg.size
    rcases hp : icapParseMsg bareMetal s.icap msg.srcAddr msg.data.mem msg.size with ⟨icap', p⟩
    rw [hp] at hnotify
    simp only at hnotify
    rw [icapLoop_parse hne hmsg hp]
    rcases hnotify with hsilent | ⟨rfl, haccepted⟩
    · exact storesParsed_of_nil (loopParse_silent_stored _ _ _ _ hsilent)
    · intro r hr
      rw [loopParse_notify] at hr ⊢
      have hstored : storedMsgs (loopEnd { icap' with transport := { icap'.transport with
          lastResponse := copy icap'.transport.lastResponse msg.data.mem
            (IcapMsg.totalLen msg.data.mem).toNat } }
          (indexNext Q s.icap.transport.msgFifo.tail) 0 stack).2 = [] := loopReturn_stored _ _ _
      change r ∈ msg.data.mem :: storedMsgs _ at hr
      rw [hstored, List.mem_singleton] at hr
      subst hr
      exact ⟨haccepted.type, msg, List.mem_cons_self, rfl⟩

theorem step_stored (hq : Quiescent s) (h : step Q s i = some (s', ev)) : StoresParsed ev := by
  cases step_cases h with
  | loop sendRet | pass sendRet => exact icapLoop_stored sendRet s.stack
  | resumes r sendRet tailNext k rest hstack =>
      have hk : (k r).Silent := hq tailNext k (by rw [hstack]; exact List.mem_cons_self) r
      exact storesParsed_of_nil (loopParse_silent_stored _ _ _ _ hk)
  | _ => exact storesParsed_of_nil rfl

/-- In a session every stored response is a message that was parsed. -/
theorem run_stored {rpmsgInstance rpmsgEpt name priv : Nat} {cb : CallbackTable}
    {tr : Trace Input Event}
    (hrun : (machine Q).Run InSession (sessionStart rpmsgInstance rpmsgEpt name priv cb) tr s) :
    StoresParsed tr.events := by
  refine hrun.invariant (I := fun tr _ => StoresParsed tr.events) nofun ?_
  intro tr s s' i ev hr ih _ hstep r hmem
  rw [Trace.events_append, Trace.events_singleton] at hmem ⊢
  rw [handlerEvents_append, parsedMsgs_append]
  rcases List.mem_append.mp (storedMsgs_append _ _ ▸ hmem) with hold | hnew
  · obtain ⟨hresponse, m, hm, heq⟩ := ih r hold
    exact ⟨hresponse, m, List.mem_append_left _ hm, heq⟩
  · obtain ⟨hresponse, m, hm, heq⟩ := step_stored (run_matched hr).quiescent hstep r hnew
    exact ⟨hresponse, m, List.mem_append_right _ hm, heq⟩

/-- A wait that finds its seq_num in the last response returns what a message says that was parsed
in the session. -/
theorem answered_parsed {rpmsgInstance rpmsgEpt name priv : Nat} {cb : CallbackTable}
    {tr : Trace Input Event} {w : Wait}
    (hrun : (machine Q).Run InSession (sessionStart rpmsgInstance rpmsgEpt name priv cb) tr s)
    (hok : InSession tr s i) (hstep : step Q s i = some (s', ev)) (hw : w ∈ waits s.stack)
    (hseq : s'.lastResponse.seqNum = w.seqNum) :
    ∃ m ∈ parsedMsgs (handlerEvents (Trace.events (tr ++ [(i, ev)]))),
      IsResponse m.data.mem ∧ m.data.mem.seqNum = w.seqNum ∧
      w.result s'.lastResponse = w.result m.data.mem := by
  have hm := run_matched hrun
  obtain ⟨stored, -, hst, -⟩ := step_waits hm.quiescent hstep
  -- the response was stored during the call, so it was parsed then
  obtain ⟨tr₁, tr₂, sendRet, frame, inst, ept, addr, htr, -, -, hlast⟩ :=
    (hm.waiting w hw).of_step (i := i) hst hm.slots
  obtain ⟨r, hr, hagree⟩ := hlast hseq
  have hmem : r ∈ storedMsgs (Trace.events (tr ++ [(i, ev)])) := by
    rw [htr, Trace.events_append, storedMsgs_append]
    refine List.mem_append_right _ ?_
    rw [show (_ :: tr₂) = [_] ++ tr₂ from rfl, Trace.events_append, storedMsgs_append]
    exact List.mem_append_right _ (List.mem_of_getLast? hr)
  obtain ⟨hresponse, m, hparsed, rfl⟩ := run_stored (hrun.step hok hstep) r hmem
  exact ⟨m, hparsed, hresponse, hagree.seqNum.symm.trans hseq, result_agrees hagree w⟩

end

end Icap.BareMetal
