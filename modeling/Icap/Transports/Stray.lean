import Icap.BareMetal.Destination
import Icap.Linux.Stray

set_option autoImplicit false

/-! # Stray responses on both transports

`icap_response_notify` is to return `-ICAP_ERROR_TIMEOUT` when nobody waits for the response. On
Linux it does, and the response has no effect; on bare metal it returns 0 for every response and
keeps it, and the call whose seq_num it has takes it for its answer (`stale_answers`).
-/

namespace Icap

open ByteMemory Transition

namespace BareMetal

/-- The call that takes the seq_num of the response stored last returns that response, without
a frame having arrived since the call began. -/
theorem stale_answers {Q : Nat} {s : State} {c : ApiCall} {frame : List Byte}
    (hruns : programRuns s.stack = true) (hsync : c.sync = true)
    (hsends : c.request (s.icap.seqNum + 1) = some frame)
    (hempty : s.icap.transport.msgFifo.tail = s.icap.transport.msgFifo.head)
    (hstale : s.icap.transport.lastResponse.seqNum = s.icap.seqNum + 1)
    (now sendRet sendRet' : U32) (uninit : Mem) :
    ∃ s₁ s₂ ev₁ ev₂, step Q s (.call c now sendRet uninit) = some (s₁, ev₁) ∧
      step Q s₁ (.pass sendRet') = some (s₂, ev₂) ∧ s₂.stack = s.stack ∧
      .returned c (c.finish (responseRet s.icap.transport.lastResponse)
        (responseCopy s.icap.transport.lastResponse uninit)) ∈ ev₂ := by
  obtain ⟨icap₁, hicap₁⟩ : ∃ icap₁ : Instance,
      icap₁ = { s.icap with seqNum := s.icap.seqNum + 1 } := ⟨_, rfl⟩
  obtain ⟨w, hw⟩ : ∃ w : Wait, w = ⟨c, s.icap.seqNum + 1, now, uninit⟩ := ⟨_, rfl⟩
  have hcall : step Q s (.call c now sendRet uninit)
      = some (⟨icap₁, .poll w :: s.stack⟩, [icapSendPlatform s.icap.transport frame]) := by
    simp only [step, hruns, if_true]
    rcases startCall_cases s.icap c now sendRet uninit s.stack with
      ⟨hnone, -⟩ | ⟨frame', hsome, ⟨-, hs⟩ | ⟨hasync, -⟩⟩
    · rw [hnone] at hsends
      cases hsends
    · rw [hsends] at hsome
      obtain rfl := Option.some.inj hsome
      rw [hs, hicap₁, hw]
    · rw [hsync] at hasync
      cases hasync
  have hempty₁ : icap₁.transport.msgFifo.tail = icap₁.transport.msgFifo.head := by
    rw [hicap₁]
    exact hempty
  have hseq : icap₁.transport.lastResponse.seqNum = w.seqNum := by
    rw [hicap₁, hw]
    exact hstale
  have hpass : step Q ⟨icap₁, .poll w :: s.stack⟩ (.pass sendRet')
      = some (loopReturn icap₁ 0 (.poll w :: s.stack)) := by
    simp only [step]
    rw [icapLoop_empty hempty₁]
  rw [loopReturn_answered hseq] at hpass
  refine ⟨_, _, _, _, hcall, hpass, rfl, ?_⟩
  rw [hw, hicap₁]
  exact List.mem_cons_of_mem _ (List.mem_singleton_self _)

end BareMetal

/-- **The contract of `icap_response_notify`.** The bare-metal one returns `-ICAP_ERROR_TIMEOUT`
for no response. The Linux one, called by the thread `i` for a response received in `s` after any
steps of the other threads, does and leaves no trace in anything that comes later, exactly when
no hint has the seq_num of the response; and over every run in which the look-ups find the hints
of their own calls, none has when no call waits for it. -/
theorem stray_refused_iff {bits i : Nat} {s s₀ s₁ s' : Linux.State} {r : IcapMsg}
    {during : Trace Linux.Input Linux.Event} {ev : List Linux.Event}
    (hreceive : Linux.Receives bits s i r s₀)
    (hduring : (Linux.machine bits).Run (Linux.Others i) s₀ during s₁)
    (hnotify : Linux.step bits s₁ ⟨i, .responseNotify⟩ = some (s', ev)) :
    (∀ (t : BareMetal.IcapTransport) (r' : IcapMsg),
      (BareMetal.icapResponseNotify t r').2 ≠ -ICAP_ERROR_TIMEOUT) ∧
    (Linux.Refused bits s i during s' ↔ Linux.Unhinted s₁.icap.transport r.seqNum) ∧
    (∀ rpdev name cb priv tr,
      (Linux.machine bits).Run (fun _ s inp => Linux.FindsOwn s inp)
        (Linux.State.opened bits rpdev name cb priv) tr s₁ →
      ¬ Linux.AwaitedSeqNum s₁ r.seqNum → Linux.Unhinted s₁.icap.transport r.seqNum) := by
  refine ⟨?_, Linux.refused_iff hreceive hduring hnotify, ?_⟩
  · intro t r'
    exact (by decide : (0 : U32) ≠ -ICAP_ERROR_TIMEOUT)
  · intro rpdev name cb priv tr hrun hn
    exact (Linux.run_awaited hrun).unhinted hn

/-! ## One stray response -/

/-- An ACK for the first message, which has not been sent, with the word 5. -/
def strayAck : List Byte := icapMsgFrame ICAP_MSG_GET_DEV_NUM ICAP_ACK 1 (word32 5)

/-- Thread 2 of an open instance receives it. -/
def strayReceived : Linux.State :=
  (Linux.State.opened 64 (some 0) 0 (fun _ => false) 0).put 2
    (.parse (icapApplicationParseResponse (ofList strayAck)))

theorem stray_refused_iff_linux : ∃ s' ev,
    Linux.step 64 strayReceived ⟨2, .responseNotify⟩ = some (s', ev) ∧
    Linux.Refused 64 (Linux.State.opened 64 (some 0) 0 (fun _ => false) 0) 2 [] s' := by
  refine ⟨_, _, rfl, ?_⟩
  have hreceive : Linux.Receives 64 (Linux.State.opened 64 (some 0) 0 (fun _ => false) 0) 2
      (ofList strayAck) strayReceived := ⟨0, 44, rfl, rfl⟩
  refine (stray_refused_iff hreceive .start rfl).2.1.mpr ?_
  exact nofun

namespace BareMetal

/-- What the calls of a run returned, in order. -/
def callResults (tr : Trace Input Event) : List CallResult :=
  tr.events.filterMap fun
    | .returned _ r => some r
    | _ => none

/-- Nobody waits, and `icap_loop` handles the frame. -/
def strayLooped : Trace Input Event × State :=
  (machine 10).exec [] silentApplication [.putMsg ⟨⟨4096, ofList strayAck⟩, 44, 7⟩, .loop 0]

/-- A call that no response answers. -/
def unansweredCall : List Input :=
  [.call .getSubdevices 0 0 (fun _ => 0), .pass 0, .clock 600000]

/-- The stray response is accepted with nobody waiting; the next call returns its word at once
instead of a timeout. -/
theorem stray_answers_next_call :
    AcceptedResponse bareMetal (ofList strayAck) 44 ∧ waits silentApplication.stack = [] ∧
    storedMsgs strayLooped.1.events = [ofList strayAck] ∧
    (icapResponseNotify silentApplication.icap.transport (ofList strayAck)).2 = 0 ∧
    callResults ((machine 10).exec [] silentApplication unansweredCall).1
      = [⟨-ICAP_ERROR_TIMEOUT, none⟩] ∧
    callResults ((machine 10).exec [] strayLooped.2 unansweredCall).1 = [⟨5, none⟩] := by
  refine ⟨⟨by decide, by decide, by decide⟩, rfl, rfl, rfl, by decide +kernel, ?_⟩
  decide +kernel

end BareMetal

end Icap
