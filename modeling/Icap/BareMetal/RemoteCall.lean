import Icap.BareMetal.Session
import Icap.Protocol.RemoteCall

set_option autoImplicit false

/-! # Remote calls of a bare-metal application

The application functions over the rpmsg-lite transport, against a device on any platform: the
request a call sends, what the device does with it, and what the call returns when the reply
comes back (`remote_call`).
-/

namespace Icap.BareMetal

open ByteMemory RingBuffer Transition

/-- A reply is a response frame for the request. -/
theorem reply_frame (c : ApiCall) (n : U32) (set : Bool) (r : CallbackResult) :
    ∃ t payload, (t = ICAP_ACK ∨ t = ICAP_NAK) ∧ payload.length ≤ sizeofIcapMsgPayload ∧
      c.reply n set r = icapMsgFrame c.cmd t n payload := by
  unfold ApiCall.reply
  by_cases hf : set = true ∧ c.answerKind.fails r.ret = true
  · rw [if_pos hf]
    exact ⟨_, _, Or.inr rfl, word32_length_le _, rfl⟩
  · rw [if_neg hf]
    refine ⟨_, _, Or.inl rfl, ?_, rfl⟩
    cases set
    · exact AnswerKind.defaultPayload_length_le _
    · exact AnswerKind.ackPayload_length_le _ _

/-- A wait that finds the reply in the last response returns what is expected. -/
theorem finish_last {c : ApiCall} {callback : Callback} (hc : c.remote = some callback) {n : U32}
    {set : Bool} {r : CallbackResult} {last : IcapMsg} (hlast : Holds last (c.reply n set r))
    (response : Mem) :
    c.finish (responseRet last) (responseCopy last response) = c.expected set r := by
  refine finish_reply hc (n := n) (fun hf => ?_) fun hf => ?_
  · rw [ApiCall.reply, if_pos hf] at hlast
    have hm := frameAt_of_holds hlast
    rw [responseRet, if_pos hm.type, hm.payloadU32]
  · have hreply : c.reply n set r = icapMsgFrame c.cmd ICAP_ACK n
        (if set then c.answerKind.ackPayload r else c.answerKind.defaultPayload) := by
      rw [ApiCall.reply, if_neg hf]
    have hlen : (if set then c.answerKind.ackPayload r else c.answerKind.defaultPayload).length
        ≤ sizeofIcapMsgPayload := by
      cases set
      · exact AnswerKind.defaultPayload_length_le _
      · exact AnswerKind.ackPayload_length_le _ _
    rw [hreply] at hlast ⊢
    have hm := frameAt_of_holds hlast
    have hack : ¬ last.type = ICAP_NAK := by
      rw [hm.type]
      decide
    rw [responseRet, if_neg hack, responseCopy, if_neg hack]
    refine ⟨rfl, fun _ => hlast.copy ?_⟩
    rw [icapMsgFrame_length, hm.totalLen hlen]

/-- An application accepts a reply and hands it to `icap_response_notify`. -/
theorem icapParseMsg_reply {icap : Instance} {cb : CallbackTable} (hcb : icap.callbacks = some cb)
    (htype : icap.type = .application) {c : ApiCall} {n : U32} {set : Bool} {r : CallbackResult}
    {m : IcapRemoteMsg} (hmem : Holds m.data.mem (c.reply n set r))
    (hsize : m.size = BitVec.ofNat 32 (c.reply n set r).length)
    (hremote : (icapVerifyRemote icap.transport m.srcAddr).2 = 0) :
    (icapParseMsg bareMetal icap m.srcAddr m.data.mem m.size).2
      = .responseNotify m.data.mem .done := by
  obtain ⟨t, payload, ht, hlen, hreply⟩ := reply_frame c n set r
  rw [hreply] at hmem hsize
  have hm := frameAt_of_holds hmem
  have hmatches : sizeMatches bareMetal m.data.mem m.size = true := by
    rw [hsize, icapMsgFrame_length]
    exact decide_eq_true (hm.size_eq hlen le_rfl)
  have hresponse : m.data.mem.type = ICAP_ACK ∨ m.data.mem.type = ICAP_NAK := by
    rw [hm.type]
    exact ht
  have hremote' : (bareMetal.icapVerifyRemote icap.transport m.srcAddr).2 = 0 := hremote
  simp only [icapParseMsg, hcb, hm.protocolVersion, ne_eq, not_true_eq_false, if_false, hmatches,
    Bool.not_true, Bool.false_eq_true, hremote', if_pos hresponse, htype]
  rfl

/-- A remote call takes the next seq_num, sends its request and waits. -/
theorem step_remoteCall {c : ApiCall} {callback : Callback} (hc : c.remote = some callback)
    {Q : Nat} {s : State} {now sendRet : U32} {uninit : Mem} (hruns : programRuns s.stack = true) :
    ∃ frame, c.request (s.icap.seqNum + 1) = some frame ∧
      step Q s (.call c now sendRet uninit)
        = some (⟨{ s.icap with seqNum := s.icap.seqNum + 1 },
            .poll ⟨c, s.icap.seqNum + 1, now, uninit⟩ :: s.stack⟩,
          [icapSendPlatform s.icap.transport frame]) := by
  obtain ⟨hsends, hsync⟩ := remote_sends hc (s.icap.seqNum + 1)
  have hstep : step Q s (.call c now sendRet uninit)
      = some (startCall s.icap c now sendRet uninit s.stack) := if_pos hruns
  rw [hstep]
  rcases startCall_cases s.icap c now sendRet uninit s.stack with
    ⟨hreq, -⟩ | ⟨frame, hreq, ⟨-, h⟩ | ⟨hasync, -⟩⟩
  · exact absurd hreq hsends
  · exact ⟨frame, hreq, congrArg some h⟩
  · rw [hsync] at hasync
    cases hasync

theorem loopParse_notify (icap : Instance) (tailNext : Nat) (sendRet : U32)
    (stack : List Activation) (msg : IcapMsg) :
    loopParse icap tailNext sendRet stack (.responseNotify msg .done)
      = ((loopEnd { icap with transport := { icap.transport with
            lastResponse := copy icap.transport.lastResponse msg msg.totalLen.toNat } }
            tailNext 0 stack).1,
        .stored msg :: (loopEnd { icap with transport := { icap.transport with
            lastResponse := copy icap.transport.lastResponse msg msg.totalLen.toNat } }
            tailNext 0 stack).2) := rfl

/-- A wait whose `icap_loop` finds the reply returns. -/
theorem step_reply {c : ApiCall} {callback : Callback} (hc : c.remote = some callback) {Q : Nat}
    {s : State} {rest : List Activation} {w : Wait} {sendRet : U32} {m : IcapRemoteMsg}
    {cb : CallbackTable} {set : Bool} {r : CallbackResult} (hstack : s.stack = .poll w :: rest)
    (hw : w.call = c) (htype : s.icap.type = .application) (hcb : s.icap.callbacks = some cb)
    (hne : s.fifo.tail ≠ s.fifo.head) (hm : m = s.fifo.slot (indexNext Q s.fifo.tail))
    (hremote : (icapVerifyRemote s.icap.transport m.srcAddr).2 = 0)
    (hmem : Holds m.data.mem (c.reply w.seqNum set r))
    (hsize : m.size = BitVec.ofNat 32 (c.reply w.seqNum set r).length) :
    ∃ s' ev, step Q s (.pass sendRet) = some (s', ev) ∧ s'.stack = rest ∧
      Event.returned c (c.expected set r) ∈ ev := by
  have hparse := icapParseMsg_reply hcb htype hmem hsize hremote
  obtain ⟨a, ha⟩ := icapParseMsg_eq s.icap m.srcAddr m.data.mem m.size
  rcases hp : icapParseMsg bareMetal s.icap m.srcAddr m.data.mem m.size with ⟨icap', p⟩
  rw [hp] at ha hparse
  simp only at ha hparse
  subst ha hparse
  -- the slot now holds the reply
  have hlast : Holds (copy s.lastResponse m.data.mem m.data.mem.totalLen.toNat)
      (c.reply w.seqNum set r) := by
    obtain ⟨t, payload, -, hlen, hreply⟩ := reply_frame c w.seqNum set r
    rw [hreply] at hmem ⊢
    refine hmem.copy ?_
    rw [icapMsgFrame_length, (frameAt_of_holds hmem).totalLen hlen]
  have hseq : IcapMsg.seqNum (copy s.lastResponse m.data.mem m.data.mem.totalLen.toNat)
      = w.seqNum := by
    obtain ⟨t, payload, -, -, hreply⟩ := reply_frame c w.seqNum set r
    rw [hreply] at hlast
    exact (frameAt_of_holds hlast).seqNum
  have hstep : step Q s (.pass sendRet) = some (icapLoop Q s.icap sendRet s.stack) := by
    simp only [step, hstack]
  have hend := loopEnd_answered { s.icap with transport := { s.icap.transport with
      remoteAddr := a
      lastResponse := copy s.lastResponse m.data.mem m.data.mem.totalLen.toNat } }
    (indexNext Q s.fifo.tail) 0 rest hseq
  rw [hstep, icapLoop_parse hne hm hp, hstack, loopParse_notify, hend]
  refine ⟨_, _, rfl, rfl, ?_⟩
  have hret := finish_last hc hlast w.response
  rw [← hw] at hret ⊢
  rw [← hret]
  simp [Wait.result]

/-- In a session whose responses to the call are the reply, the call returns what is
expected. -/
theorem answered_reply {c : ApiCall} {callback : Callback} (hc : c.remote = some callback)
    {Q : Nat} {tr : Trace Input Event} {s s' : State} {i : Input} {ev : List Event}
    (hm : Matched tr s) (hstep : step Q s i = some (s', ev)) {n ret : U32}
    {copied : Option (List Byte)} {res : CallResult} {set : Bool} {r : CallbackResult}
    (hans : Event.answered n ret copied ∈ ev) (hres : Event.returned c res ∈ ev)
    (hreply : ∀ response ∈ storedMsgs (Trace.events (tr ++ [(i, ev)])), response.seqNum = n →
      Holds response (c.reply n set r)) : res = c.expected set r := by
  obtain ⟨stored, -, hst, hwait⟩ := step_waits hm.quiescent hstep
  cases hwait with
  | stay _ hno => exact absurd hans (hno _ _ _)
  | timeout _ _ _ hno => exact absurd hans (hno _ _ _)
  | begin _ _ _ _ _ _ _ _ _ _ hev => simp [hev, icapSendPlatform] at hans
  | answer w pre hwaits hseq hno hev =>
      -- the answer and the return are the last two events of the step
      have hpre (e : Event) (he : e.concludes = true) : e ∉ pre := by
        intro hmem
        rw [hno _ hmem] at he
        cases he
      rw [hev] at hans hres
      simp only [List.mem_append, hpre _ (rfl : (Event.answered _ _ _).concludes = true),
        hpre _ (rfl : (Event.returned _ _).concludes = true), List.mem_cons,
        Event.answered.injEq, Event.returned.injEq, reduceCtorEq, List.not_mem_nil, or_false,
        false_or] at hans hres
      obtain ⟨rfl, rfl, rfl⟩ := hans
      obtain ⟨rfl, rfl⟩ := hres
      have hw := (hm.waiting w (by rw [hwaits]; exact List.mem_cons_self)).of_step
        (i := i) hst hm.slots
      obtain ⟨tr₁, tr₂, sendRet, frame, inst, ept, addr, htr, -, -, hlast⟩ := hw
      obtain ⟨response, hresponse, hagree⟩ := hlast hseq
      -- the response was stored after the call, so within the session
      have hmem : response ∈ storedMsgs (Trace.events (tr ++ [(i, ev)])) := by
        rw [htr, Trace.events_append, storedMsgs_append]
        refine List.mem_append_right _ ?_
        rw [show (_ :: tr₂) = [_] ++ tr₂ from rfl, Trace.events_append, storedMsgs_append]
        exact List.mem_append_right _ (List.mem_of_getLast? hresponse)
      have hholds := hreply response hmem (hagree.seqNum.symm.trans hseq)
      rw [result_agrees hagree, Wait.result]
      exact finish_last hc hholds w.response

/-- **Remote calls are correct.** For an application function called without a `NULL`
argument:
the call takes the next seq_num, sends its request and waits;
a device of any platform that receives the request invokes the function's callback and no
other, with the arguments passed, exactly once if it is set, and sends the reply;
when the wait loop finds the reply at the tail of the fifo, the call returns what is expected;
and in a session in which the responses with the call's seq_num are that reply, the call
returns nothing else unless it times out. -/
theorem remote_call {c : ApiCall} {callback : Callback} (hc : c.remote = some callback) :
    (∀ Q s now sendRet uninit, programRuns s.stack = true →
      ∃ frame, c.request (s.icap.seqNum + 1) = some frame ∧
        step Q s (.call c now sendRet uninit)
          = some (⟨{ s.icap with seqNum := s.icap.seqNum + 1 },
              .poll ⟨c, s.icap.seqNum + 1, now, uninit⟩ :: s.stack⟩,
            [icapSendPlatform s.icap.transport frame]))
    ∧ (∀ (T : Type) (P : Platform T) (device : IcapInstance T) (cb : CallbackTable)
      (srcAddr n : U32) (frame : List Byte) (msg : IcapMsg) (default : CallbackResult),
      32 ≤ P.sizeBits → device.type = .device → device.callbacks = some cb →
      (P.icapVerifyRemote device.transport srcAddr).2 = 0 → c.request n = some frame →
      Holds msg frame →
        (icapParseMsg P device srcAddr msg (BitVec.ofNat 32 frame.length)).2
          = if cb callback.id then .callback callback fun r => .answer (c.reply n true r)
            else .answer (c.reply n false default))
    ∧ (∀ Q s rest w sendRet m set r, s.stack = .poll w :: rest → w.call = c →
      s.icap.type = .application → s.icap.callbacks ≠ none → s.fifo.tail ≠ s.fifo.head →
      s.fifo.slot (indexNext Q s.fifo.tail) = m →
      (icapVerifyRemote s.icap.transport m.srcAddr).2 = 0 →
      Holds m.data.mem (c.reply w.seqNum set r) →
      m.size = BitVec.ofNat 32 (c.reply w.seqNum set r).length →
        ∃ s' ev, step Q s (.pass sendRet) = some (s', ev) ∧ s'.stack = rest ∧
          Event.returned c (c.expected set r) ∈ ev)
    ∧ (∀ Q rpmsgInstance rpmsgEpt name priv cb tr s i ev s' n ret copied res set r,
      (machine Q).Run InSession (sessionStart rpmsgInstance rpmsgEpt name priv cb) tr s →
      InSession tr s i → step Q s i = some (s', ev) →
      Event.answered n ret copied ∈ ev → Event.returned c res ∈ ev →
      (∀ response ∈ storedMsgs (Trace.events (tr ++ [(i, ev)])), response.seqNum = n →
        Holds response (c.reply n set r)) →
        res = c.expected set r) := by
  refine ⟨?_, ?_, ?_, ?_⟩
  · intro Q s now sendRet uninit hruns
    exact step_remoteCall hc hruns
  · intro T P device cb srcAddr n frame msg default hP htype hcb hremote hreq hmsg
    exact device_request hP htype hcb hremote hc hreq hmsg default
  · intro Q s rest w sendRet m set r hstack hw htype hcb hne hm hremote hmem hsize
    obtain ⟨cb, hcb⟩ := Option.ne_none_iff_exists'.mp hcb
    exact step_reply hc hstack hw htype hcb hne hm.symm hremote hmem hsize
  · intro Q rpmsgInstance rpmsgEpt name priv cb tr s i ev s' n ret copied res set r hrun hok hstep
      hans hres hreply
    exact answered_reply hc (run_matched hrun) hstep hans hres hreply

/-- The device refuses `icap_pause(icap, 5)`. -/
def refusedPause : CallbackResult := ⟨-ICAP_ERROR_INVALID, Vector.replicate 28 0⟩

/-- An application calls `icap_pause(icap, 5)`, and the refusal arrives. -/
def pausedRun : Trace Input Event × State :=
  (machine 10).exec [] (sessionStart 0 0 0 0 fun _ => false) [.call (.pause 5) 0 0 (fun _ => 0),
    .putMsg ⟨⟨4096, ofList ((ApiCall.pause 5).reply 1 true refusedPause)⟩, 44, 7⟩]

/-- A device with a `pause` callback receives the request, and the pass that finds the refusal
makes the call return it and nothing else. -/
theorem remote_call_pause :
    (icapParseMsg bareMetal
      (icapDeviceInit bareMetal (zeroedInstance 0 0) 0 (some (· = .pause)) 0).1 30
      (ofList (icapMsgFrame ICAP_MSG_PAUSE ICAP_MSG 1 (word32 5))) 44).2
      = .callback (.pause 5) (fun r => .answer ((ApiCall.pause 5).reply 1 true r)) ∧
    ∃ s' ev, step 10 pausedRun.2 (.pass 0) = some (s', ev) ∧ s'.stack = [] ∧
      Event.returned (.pause 5) ⟨-ICAP_ERROR_INVALID, none⟩ ∈ ev ∧
      ∀ res, Event.returned (.pause 5) res ∈ ev → res = ⟨-ICAP_ERROR_INVALID, none⟩ := by
  obtain ⟨-, hdevice, hpass, hsession⟩ := remote_call (c := .pause 5) rfl
  have hparse := hdevice _ bareMetal
    (icapDeviceInit bareMetal (zeroedInstance 0 0) 0 (some (· = .pause)) 0).1 (· = .pause) 30 1 _ _
    ⟨0, Vector.replicate 28 0⟩ le_rfl rfl rfl rfl rfl (holds_ofList _)
  obtain ⟨s', ev, hstep, hstack, hreturned⟩ := hpass 10 pausedRun.2 []
    ⟨.pause 5, 1, 0, fun _ => 0⟩ 0 _ true refusedPause rfl rfl rfl (Option.some_ne_none _)
    (by decide) rfl rfl (holds_ofList _) rfl
  refine ⟨hparse.trans (if_pos rfl), s', ev, hstep, hstack, hreturned, fun res hres => ?_⟩
  have hrun : (machine 10).Run InSession (sessionStart 0 0 0 0 fun _ => false) pausedRun.1
      pausedRun.2 :=
    Machine.Run.start.exec _
      ⟨fun _ => by decide, fun _ => ⟨⟨by decide, by decide, by decide⟩, by decide⟩, trivial⟩
  have hev : (icapLoop 10 pausedRun.2.icap 0 pausedRun.2.stack).2 = ev :=
    congrArg Prod.snd (Option.some.inj hstep)
  have hanswered : Event.answered 1 (-ICAP_ERROR_INVALID) none ∈ ev := by
    rw [← hev]
    exact List.mem_of_getElem? (i := 3) rfl
  have hstored : storedMsgs (Trace.events (pausedRun.1 ++ [(.pass 0, ev)]))
      = [ofList ((ApiCall.pause 5).reply 1 true refusedPause)] := by
    rw [← hev]
    rfl
  refine hsession 10 0 0 0 0 _ _ _ (.pass 0) ev s' 1 _ _ res true refusedPause hrun trivial hstep
    hanswered hres fun response hmem _ => ?_
  rw [hstored] at hmem
  rw [List.mem_singleton.mp hmem]
  exact holds_ofList _

end Icap.BareMetal
