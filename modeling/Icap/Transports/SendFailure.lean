import Icap.Transports.Negative

set_option autoImplicit false

/-! # Failed sends of synchronous calls

`icap_send_msg` returns what `icap_prepare_wait` fails with, and what `icap_send_platform` returns
when it does not wait. When it does, it goes on to `icap_wait_for_response` whatever
`icap_send_platform` has returned, with the hint still queued: a call whose message could not be
sent goes the way of a call whose message was (`send_failure_ignored`).
-/

namespace Icap

open ByteMemory Transition

namespace BareMetal

/-- The call returned the error of its send, no wait began, and what is kept of and for responses
is as before. -/
structure SendReported (c : ApiCall) (e : U32) (s s' : State) (ev : List Event) : Prop where
  returned : ∃ r, Event.returned c r ∈ ev ∧ r.ret = e
  noWait : waits s'.stack = waits s.stack
  lastResponse : s'.lastResponse = s.lastResponse
  fifo : s'.icap.transport.msgFifo = s.icap.transport.msgFifo

section

variable {Q : Nat} {s s' : State} {c : ApiCall} {now e : U32} {uninit : Mem} {ev : List Event}

/-- A synchronous call that sends waits, whatever `icap_send_platform` returns. -/
theorem startCall_sync (hsync : c.sync = true) (hsends : (c.request 0).isSome) (icap : Instance)
    (now : U32) (uninit : Mem) (stack : List Activation) : ∃ frame, ∀ e,
    startCall icap c now e uninit stack
      = (⟨{ icap with seqNum := icap.seqNum + 1 },
          .poll ⟨c, icap.seqNum + 1, now, uninit⟩ :: stack⟩,
        [icapSendPlatform icap.transport frame]) := by
  obtain ⟨frame, hframe⟩ : ∃ frame, c.request (icap.seqNum + 1) = some frame :=
    Option.isSome_iff_exists.mp (by rw [c.request_isSome_eq _ 0]; exact hsends)
  refine ⟨frame, fun e => ?_⟩
  rcases startCall_cases icap c now e uninit stack with
    ⟨hnone, -⟩ | ⟨frame', hsome, ⟨-, hs⟩ | ⟨hasync, -⟩⟩
  · rw [hnone] at hframe
    cases hframe
  · rw [hframe] at hsome
    obtain rfl := Option.some.inj hsome
    exact hs
  · rw [hsync] at hasync
    cases hasync

/-- A call whose send fails does what it does when the send succeeds: it waits. -/
theorem send_failure_waits (hsync : c.sync = true) (hsends : (c.request 0).isSome)
    (hstep : step Q s (.call c now e uninit) = some (s', ev)) :
    ¬ SendReported c e s s' ev ∧ step Q s (.call c now 0 uninit) = some (s', ev) ∧
      ∃ w, s'.stack = .poll w :: s.stack ∧ w.call = c := by
  obtain ⟨frame, hstart⟩ := startCall_sync hsync hsends s.icap now uninit s.stack
  simp only [step] at hstep ⊢
  split_ifs at hstep ⊢ with hruns
  rw [hstart] at hstep ⊢
  obtain ⟨rfl, rfl⟩ := Prod.mk.inj (Option.some.inj hstep)
  refine ⟨fun h => ?_, rfl, _, rfl, rfl⟩
  obtain ⟨r, hmem, -⟩ := h.returned
  simp [icapSendPlatform] at hmem

end

end BareMetal

namespace Linux

/-- The call of thread `i` returned the error of its send without a wait, and the hint `k` that it
has queued is not left in the queue. -/
structure SendReported (c : ApiCall) (e : U32) (i k : Nat) (s' : State) (ev : List Event) :
    Prop where
  returned : ∃ m r, Event.returned m none r ∈ ev ∧ m.call = c ∧ r.ret = e
  noWait : s'.threads i = .idle
  queue : k ∉ s'.icap.transport.responseQueue

section

variable {bits i k : Nat} {s s₁ s₂ s₃ s₄ s' : State} {c : ApiCall} {uninit : Mem}
  {mem : Option Mem} {sendRet : U32} {ev₁ ev : List Event} {tr₁ tr₂ : Trace Input Event}

/-- A synchronous call that sends goes on to prepare its wait. -/
theorem step_call_sync (hsync : c.sync = true) (hsends : (c.request 0).isSome)
    (h : step bits s ⟨i, .call c uninit⟩ = some (s₁, ev₁)) :
    ∃ m, s₁.threads i = .prepareWait m ∧ m.call = c := by
  have hcall := c.call_sends
  obtain ⟨⟨icap', th', ev'⟩, hs, heq⟩ := Option.map_eq_some_iff.mp h
  obtain ⟨rfl, rfl⟩ := Prod.mk.inj heq
  simp only [Function.update_self] at hs ⊢
  generalize s.threads i = th at hs
  obtain rfl : th = .idle := by
    cases stepThread_move hs <;> rfl
  cases hc : c.call with
  | done r => simp [ApiCall.request, hc] at hsends
  | sendMsg cmd data sync wants cont =>
      rw [hc] at hcall
      have hpayload := icapSendMsgPayload_of_sends hcall
      have hs' : sync = true := hcall.1.trans hsync
      simp only [stepThread, startCall, hc, hpayload, hs', if_true, Option.some.injEq,
        Prod.mk.injEq] at hs
      obtain ⟨-, rfl, -⟩ := hs
      exact ⟨_, rfl, rfl⟩

/-- A call that has queued its hint goes on to send its message. -/
theorem step_prepared {m : Message} (hth : s₂.threads i = .prepareWait m)
    (h : step bits s₂ ⟨i, .prepareWait mem⟩ = some (s₃, [.allocated k])) :
    s₃.threads i = .sendPlatform m true := by
  obtain ⟨icap', th', hmove, rfl⟩ := step_move h
  simp only [hth] at hmove
  cases hmove with
  | prepared => exact Function.update_self _ _ _

/-- A call whose send fails goes on to look for its hint, and the instance is as before. -/
theorem step_sent {m : Message} (hth : s₄.threads i = .sendPlatform m true)
    (h : step bits s₄ ⟨i, .sendPlatform sendRet⟩ = some (s', ev)) :
    s'.threads i = .findHint m ∧ s'.icap = s₄.icap ∧ (ev = [] ∨ ev = [.sentMsg m]) := by
  obtain ⟨icap', th', hmove, rfl⟩ := step_move h
  simp only [hth] at hmove
  cases hmove with
  | sent hev => exact ⟨Function.update_self _ _ _, rfl, hev⟩

/-- A call whose send fails waits, with its hint in the queue. -/
theorem send_failure_waits (hsync : c.sync = true) (hsends : (c.request 0).isSome)
    (hcall : step bits s ⟨i, .call c uninit⟩ = some (s₁, ev₁))
    (h₁ : (machine bits).Run (Others i) s₁ tr₁ s₂)
    (hprepare : step bits s₂ ⟨i, .prepareWait mem⟩ = some (s₃, [.allocated k]))
    (h₂ : (machine bits).Run (Others i) s₃ tr₂ s₄)
    (hsend : step bits s₄ ⟨i, .sendPlatform sendRet⟩ = some (s', ev)) :
    ¬ SendReported c (icapSendPlatform s₄.icap.transport sendRet) i k s' ev ∧
      s'.icap = s₄.icap ∧ ∃ m, s'.threads i = .findHint m ∧ m.call = c := by
  obtain ⟨m, hm, hc⟩ := step_call_sync hsync hsends hcall
  have hsendPlatform := step_prepared ((run_threads h₁).trans hm) hprepare
  obtain ⟨hfind, hicap, hev⟩ := step_sent ((run_threads h₂).trans hsendPlatform) hsend
  refine ⟨fun h => ?_, hicap, m, hfind, hc⟩
  have hidle := h.noWait
  rw [hfind] at hidle
  cases hidle

end

end Linux

/-- **No send failure of a synchronous call is reported.** On bare metal a call whose send fails
with any error does exactly what it does when the send succeeds; on Linux, in whatever order the
other threads go on, it looks for the hint that it has queued. -/
theorem send_failure_ignored {c : ApiCall} (hsync : c.sync = true)
    (hsends : (c.request 0).isSome) :
    (∀ (Q : Nat) (s s' : BareMetal.State) (now e : U32) (uninit : Mem)
        (ev : List BareMetal.Event), e ≠ 0 →
      BareMetal.step Q s (.call c now e uninit) = some (s', ev) →
      ¬ BareMetal.SendReported c e s s' ev ∧
        BareMetal.step Q s (.call c now 0 uninit) = some (s', ev) ∧
        ∃ w, s'.stack = .poll w :: s.stack ∧ w.call = c) ∧
    ∀ (bits i k : Nat) (s s₁ s₂ s₃ s₄ s' : Linux.State) (uninit : Mem) (mem : Option Mem)
        (sendRet : U32) (ev₁ ev : List Linux.Event) (tr₁ tr₂ : Trace Linux.Input Linux.Event),
      Linux.step bits s ⟨i, .call c uninit⟩ = some (s₁, ev₁) →
      (Linux.machine bits).Run (Linux.Others i) s₁ tr₁ s₂ →
      Linux.step bits s₂ ⟨i, .prepareWait mem⟩ = some (s₃, [.allocated k]) →
      (Linux.machine bits).Run (Linux.Others i) s₃ tr₂ s₄ →
      Linux.icapSendPlatform s₄.icap.transport sendRet ≠ 0 →
      Linux.step bits s₄ ⟨i, .sendPlatform sendRet⟩ = some (s', ev) →
      ¬ Linux.SendReported c (Linux.icapSendPlatform s₄.icap.transport sendRet) i k s' ev ∧
        s'.icap = s₄.icap ∧ ∃ m, s'.threads i = .findHint m ∧ m.call = c := by
  refine ⟨?_, ?_⟩
  · intro Q s s' now e uninit ev _ hstep
    exact BareMetal.send_failure_waits hsync hsends hstep
  · intro bits i k s s₁ s₂ s₃ s₄ s' uninit mem sendRet ev₁ ev tr₁ tr₂ hcall h₁ hprepare h₂ _ hsend
    exact Linux.send_failure_waits hsync hsends hcall h₁ hprepare h₂ hsend

/-! ## A send that fails -/

namespace BareMetal

/-- `rpmsg_lite_send` fails with -5 and nothing arrives. -/
def unsentCall : List Input :=
  [.call (.pause 1) 0 (-5) (fun _ => 0), .pass 0, .clock ICAP_MSG_TIMEOUT_US]

theorem send_failure_ignored_pause : ∃ s' ev,
    step 10 silentApplication (.call (.pause 1) 0 (-5) fun _ => 0) = some (s', ev) ∧
      ¬ SendReported (.pause 1) (-5) silentApplication s' ev := by
  refine ⟨_, _, rfl, ?_⟩
  exact ((send_failure_ignored rfl rfl).1 10 silentApplication _ 0 (-5) (fun _ => 0) _ (by decide)
    rfl).1

end BareMetal

namespace Linux

/-- `rpmsg_send` fails with -12. -/
def unsentCall : List Input :=
  [⟨1, .call (.pause 1) fun _ => 0⟩, ⟨1, .prepareWait (some fun _ => 0)⟩,
    ⟨1, .sendPlatform (-12)⟩]

/-- Nothing arrives. -/
def unansweredWait : List Input :=
  [⟨1, .findHint⟩, ⟨1, .waitEvent .elapsed⟩, ⟨1, .unlink⟩, ⟨1, .result⟩, ⟨1, .free⟩]

end Linux

/-- After a failed send `icap_pause` waits and returns a timeout; on Linux its hint is queued all
the while. -/
theorem failed_send_times_out :
    BareMetal.callResults ((BareMetal.machine 10).exec [] BareMetal.silentApplication
      BareMetal.unsentCall).1 = [⟨-ICAP_ERROR_TIMEOUT, none⟩] ∧
    ((Linux.machine 64).exec [] (Linux.State.opened 64 (some 0) 0 (fun _ => false) 0)
      Linux.unsentCall).2.icap.transport.responseQueue = [0] ∧
    Linux.callResults ((Linux.machine 64).exec []
      (Linux.State.opened 64 (some 0) 0 (fun _ => false) 0)
      (Linux.unsentCall ++ Linux.unansweredWait)).1 = [⟨-Linux.ETIMEDOUT, none⟩] := by
  refine ⟨?_, rfl, ?_⟩ <;> decide +kernel

end Icap
