import Icap.BareMetal.RemoteCall

set_option autoImplicit false

/-! # The lengths of copies

A response is copied twice: `icap_response_notify` copies the frame to `last_response`, which has
`RL_BUFFER_PAYLOAD_SIZE` bytes, and `icap_wait_for_response` copies `last_response` to a
`struct icap_msg`. Both lengths are computed from `payload_len`. In every run the first copies
stay in their buffer, and the second do exactly when no step tests a response that is
`Oversized` (`copies_fit_iff`).
-/

namespace Icap.BareMetal

open ByteMemory RingBuffer Transition

/-- The copies to `last_response`, of `bufferSize` bytes, stay inside. -/
def StoresFit (bufferSize : Nat) (ev : List Event) : Prop :=
  ∀ r, Event.stored r ∈ ev → r.totalLen.toNat ≤ bufferSize

/-- The copies to the callers' `struct icap_msg` stay inside. -/
def AnswersFit (ev : List Event) : Prop :=
  ∀ n ret bytes, Event.answered n ret (some bytes) ∈ ev → bytes.length ≤ sizeofIcapMsg

def CopiesFit (bufferSize : Nat) (ev : List Event) : Prop :=
  StoresFit bufferSize ev ∧ AnswersFit ev

/-- `rpmsg_lite` delivers no frame of more than `bufferSize` bytes. -/
def FramesWithin (bufferSize : Nat) (_ : Trace Input Event) (_ : State) (i : Input) : Prop :=
  ∀ msg, i = .putMsg msg → msg.size.toNat ≤ bufferSize

/-! ## The response that a step tests -/

/-- The response in `last` answers the wait, is to be copied to its `response`, and is longer
than that. -/
structure Oversized (w : Wait) (last : IcapMsg) : Prop where
  seqNum : last.seqNum = w.seqNum
  type : last.type ≠ ICAP_NAK
  wanted : w.call.wantsResponse = true
  length : sizeofIcapMsg < last.totalLen.toNat

/-- The last response when the handler returns, if it returns before its next callback. -/
def lastLeft (sendRet : U32) (last : IcapMsg) : Parse U32 → Option IcapMsg
  | .done _ => some last
  | .callback _ _ => none
  | .sendPlatform _ k => lastLeft sendRet last (k sendRet)
  | .responseNotify response k => lastLeft sendRet (storeResponse last response) (k 0)

/-- The last response when `icap_loop` returns, if it returns before its next callback. -/
def loopLeft (Q : Nat) (icap : Instance) (sendRet : U32) : Option IcapMsg :=
  let fifo := icap.transport.msgFifo
  if fifo.tail = fifo.head then
    some icap.transport.lastResponse
  else
    let msg := fifo.slot (indexNext Q fifo.tail)
    lastLeft sendRet icap.transport.lastResponse
      (icapParseMsg bareMetal icap msg.srcAddr msg.data.mem msg.size).2

/-- The wait that the top of the stack is in. -/
def polling : List Activation → Option Wait
  | .poll w :: _ => some w
  | _ => none

/-- The wait whose test comes next in a step, and the last response that the test reads. The wait
has called `icap_loop` itself, or the `icap_loop` whose callback returns. -/
def tested (Q : Nat) (s : State) : Input → Option (Wait × IcapMsg)
  | .pass sendRet =>
      (polling s.stack).bind fun w => (loopLeft Q s.icap sendRet).map fun last => (w, last)
  | .callbackRet r sendRet =>
      match s.stack with
      | .loop _ k :: rest =>
          (polling rest).bind fun w => (lastLeft sendRet s.lastResponse (k r)).map
            fun last => (w, last)
      | _ => none
  | _ => none

/-- No step tests a response that is too long. -/
def NotOversized (Q : Nat) (_ : Trace Input Event) (s : State) (i : Input) : Prop :=
  ∀ w last, tested Q s i = some (w, last) → ¬ Oversized w last

section

variable {w : Wait} {last msg : IcapMsg} {size : U32}

/-- Of a frame with a whole header the wait reads nothing but the frame. -/
theorem oversized_storeResponse (ha : AcceptedResponse bareMetal msg size)
    (hheader : sizeofIcapMsgHeader ≤ size.toNat) :
    Oversized w (storeResponse last msg) ↔
      msg.seqNum = w.seqNum ∧ msg.type = ICAP_ACK ∧ w.call.wantsResponse = true ∧
        sizeofIcapMsgPayload < msg.payloadLen.toNat := by
  have htotal : msg.totalLen.toNat = size.toNat := ha.totalLen_toNat le_rfl
  have hcopied : 40 ≤ msg.totalLen.toNat := by
    rw [htotal]
    exact hheader
  have hlen : msg.totalLen.toNat = (40 + msg.payloadLen.toNat) % 2 ^ 32 := msg.totalLen_toNat
  have hpayload := msg.payloadLen.isLt
  -- the header of the frame is copied whole, so the wait reads it back
  have hseq : (storeResponse last msg).seqNum = msg.seqNum := load32_copy (by omega)
  have htype : (storeResponse last msg).type = msg.type := load32_copy (by omega)
  have hplen : (storeResponse last msg).payloadLen = msg.payloadLen := load32_copy (by omega)
  have htotal' : (storeResponse last msg).totalLen = msg.totalLen := by
    rw [IcapMsg.totalLen, IcapMsg.totalLen, hplen]
  have hack : msg.type ≠ ICAP_NAK ↔ msg.type = ICAP_ACK := by
    constructor
    · exact fun hnak => ha.type.resolve_right hnak
    · intro hack
      rw [hack]
      decide
  have hlong : sizeofIcapMsg < msg.totalLen.toNat ↔
      sizeofIcapMsgPayload < msg.payloadLen.toNat := by
    simp only [sizeofIcapMsg, sizeofIcapMsgHeader, sizeofIcapMsgPayload]
    omega
  constructor
  · rintro ⟨h1, h2, h3, h4⟩
    rw [hseq] at h1
    rw [htype, hack] at h2
    rw [htotal', hlong] at h4
    exact ⟨h1, h2, h3, h4⟩
  · rintro ⟨h1, h2, h3, h4⟩
    refine ⟨hseq.trans h1, ?_, h3, ?_⟩
    · rw [htype, hack]
      exact h2
    · rw [htotal', hlong]
      exact h4

/-- An accepted response is no longer than the frame it came in. -/
theorem stored_le {bufferSize : Nat} (ha : AcceptedResponse bareMetal msg size)
    (hsize : size.toNat ≤ bufferSize) : msg.totalLen.toNat ≤ bufferSize := by
  rw [ha.totalLen_toNat le_rfl]
  exact hsize

theorem Wait.copied_length {bytes : List Byte} (h : w.copied last = some bytes) :
    bytes.length = last.totalLen.toNat ∧ last.type ≠ ICAP_NAK ∧ w.call.wantsResponse = true := by
  unfold Wait.copied at h
  split_ifs at h with hnot
  rw [not_or] at hnot
  refine ⟨?_, hnot.1, by simpa using hnot.2⟩
  rw [← Option.some.inj h, block_length]

theorem Wait.copied_of_wanted (htype : last.type ≠ ICAP_NAK)
    (hwanted : w.call.wantsResponse = true) :
    w.copied last = some (block last 0 last.totalLen.toNat) := by
  unfold Wait.copied
  rw [if_neg]
  simp [htype, hwanted]

end

/-! ## Steps -/

theorem AnswersFit.of_concludes {ev : List Event} (h : ∀ e ∈ ev, e.concludes = false) :
    AnswersFit ev :=
  fun n ret bytes hmem => absurd hmem (not_answered h n ret (some bytes))

theorem answersFit_append {ev₁ ev₂ : List Event} (h : ∀ e ∈ ev₁, e.concludes = false) :
    AnswersFit (ev₁ ++ ev₂) ↔ AnswersFit ev₂ := by
  constructor
  · exact fun hfit n ret bytes hmem => hfit n ret bytes (List.mem_append_right _ hmem)
  · intro hfit n ret bytes hmem
    rcases List.mem_append.mp hmem with hmem | hmem
    · exact absurd hmem (not_answered h n ret (some bytes))
    · exact hfit n ret bytes hmem

/-- The copy of the test in `icap_wait_for_response`. -/
theorem loopReturn_answersFit (icap : Instance) (ret : U32) (stack : List Activation) :
    AnswersFit (loopReturn icap ret stack).2 ↔
      ∀ w, polling stack = some w → ¬ Oversized w icap.transport.lastResponse := by
  rcases loopReturn_cases icap ret stack with
    ⟨w, rest, rfl, hseq, h⟩ | ⟨w, rest, rfl, hseq, h⟩ | ⟨hnot, h⟩ <;> rw [h]
  · constructor
    -- an oversized response that answers is copied to `*response`
    · rintro hfit w' hw hover
      cases hw
      have hlen := hfit w.seqNum (responseRet icap.transport.lastResponse) _ (by
        rw [Wait.copied_of_wanted hover.type hover.wanted]
        exact List.mem_cons_self)
      rw [block_length] at hlen
      have hlong := hover.length
      omega
    · intro hnot n v bytes hmem
      simp only [List.mem_cons, Event.answered.injEq, reduceCtorEq, List.not_mem_nil,
        or_false] at hmem
      obtain ⟨hlen, htype, hwanted⟩ := Wait.copied_length hmem.2.2.symm
      by_contra hlong
      exact hnot w rfl ⟨hseq, htype, hwanted, by omega⟩
  · constructor
    · rintro - w' hw hover
      cases hw
      exact hseq hover.seqNum
    · exact fun _ => .of_concludes (List.forall_mem_nil _)
  · constructor
    · intro _ w hw
      cases stack with
      | nil => cases hw
      | cons a rest =>
          cases a with
          | poll w' => exact absurd rfl (hnot w' rest)
          | clock w' => cases hw
          | loop tailNext k => cases hw
    · exact fun _ => .of_concludes (List.forall_mem_singleton.mpr rfl)

/-- Where a handler stops, and with which last response. -/
theorem runParse_left (sendRet : U32) (t : IcapTransport) (p : Parse U32) :
    lastLeft sendRet t.lastResponse p = match (runParse sendRet t p).2.2 with
      | .done _ => some (runParse sendRet t p).1.lastResponse
      | .callback _ => none := by
  induction p generalizing t with
  | done ret => rfl
  | callback c k _ => rfl
  | sendPlatform frame k ih => exact ih sendRet t
  | responseNotify response k ih => exact ih 0 (icapResponseNotify t response).1

theorem loopParse_answersFit (icap : Instance) (tailNext : Nat) (sendRet : U32)
    (stack : List Activation) (p : Parse U32) :
    AnswersFit (loopParse icap tailNext sendRet stack p).2 ↔
      ∀ w, polling stack = some w → ∀ last,
        lastLeft sendRet icap.transport.lastResponse p = some last → ¬ Oversized w last := by
  have hno := runParse_concludes sendRet icap.transport p
  rw [runParse_left]
  unfold loopParse
  generalize runParse sendRet icap.transport p = r at hno ⊢
  obtain ⟨t, ev₁, progress⟩ := r
  cases progress with
  -- no test before the callback returns
  | callback k => exact ⟨nofun, fun _ => .of_concludes hno⟩
  | done ret =>
      have hreturn :=
        loopReturn_answersFit (setTail { icap with transport := t } tailNext) ret stack
      have hno' : ∀ e ∈ ev₁ ++ [.released (t.msgFifo.slot tailNext).data.addr],
          e.concludes = false :=
        List.forall_mem_append.mpr ⟨hno, List.forall_mem_singleton.mpr rfl⟩
      rw [← answersFit_append hno', List.append_assoc] at hreturn
      refine hreturn.trans (forall₂_congr fun w _ => ?_)
      constructor
      · rintro hnot last ⟨⟩
        exact hnot
      · exact fun h => h _ rfl

theorem icapLoop_answersFit (Q : Nat) (icap : Instance) (sendRet : U32)
    (stack : List Activation) :
    AnswersFit (icapLoop Q icap sendRet stack).2 ↔
      ∀ w, polling stack = some w → ∀ last,
        loopLeft Q icap sendRet = some last → ¬ Oversized w last := by
  by_cases hne : icap.transport.msgFifo.tail = icap.transport.msgFifo.head
  · rw [icapLoop_empty hne, loopLeft, if_pos hne, loopReturn_answersFit]
    refine forall₂_congr fun w _ => ?_
    constructor
    · rintro hnot last ⟨⟩
      exact hnot
    · exact fun h => h _ rfl
  · obtain ⟨msg, hmsg⟩ : ∃ msg, msg
        = icap.transport.msgFifo.slot (indexNext Q icap.transport.msgFifo.tail) := ⟨_, rfl⟩
    obtain ⟨a, ha⟩ := icapParseMsg_eq icap msg.srcAddr msg.data.mem msg.size
    rcases hp : icapParseMsg bareMetal icap msg.srcAddr msg.data.mem msg.size with ⟨icap', p⟩
    rw [hp] at ha
    have hlast : icap'.transport.lastResponse = icap.transport.lastResponse := by
      rw [show icap' = _ from ha]
    have hleft : loopLeft Q icap sendRet = lastLeft sendRet icap'.transport.lastResponse p := by
      simp only [loopLeft, if_neg hne, ← hmsg, hp, hlast]
    have hparsed : ∀ e ∈ [Event.parsed msg], e.concludes = false :=
      List.forall_mem_singleton.mpr rfl
    rw [icapLoop_parse hne hmsg hp, hleft]
    exact (answersFit_append hparsed).trans (loopParse_answersFit icap' _ sendRet stack p)

theorem polling_of_programRuns {stack : List Activation} (h : programRuns stack = true) :
    polling stack = none := by
  cases stack with
  | nil => rfl
  | cons a rest => cases a <;> first | rfl | cases h

section

variable {Q bufferSize : Nat} {s s' : State} {i : Input} {ev : List Event}
  {tr : Trace Input Event}

/-- A step that returns to a wait with a last response tests the one against the other. -/
theorem forall_tested {waiting : Option Wait} {left : Option IcapMsg} :
    (∀ w last, (waiting.bind fun w => left.map fun last => (w, last)) = some (w, last) →
      ¬ Oversized w last) ↔
    ∀ w, waiting = some w → ∀ last, left = some last → ¬ Oversized w last := by
  simp only [Option.bind_eq_some_iff, Option.map_eq_some_iff, Prod.mk.injEq]
  constructor
  · exact fun hnot w hw last hlast => hnot w last ⟨w, hw, last, hlast, rfl, rfl⟩
  · rintro hnot w last ⟨w₀, hw, last₀, hlast, rfl, rfl⟩
    exact hnot w₀ hw last₀ hlast

/-- **The step lemma**: the copy to the caller's response, if the step makes one, fits unless the
response that is tested is too long. -/
theorem step_answersFit (tr : Trace Input Event) (h : step Q s i = some (s', ev)) :
    AnswersFit ev ↔ NotOversized Q tr s i := by
  have hnone (hi : tested Q s i = none) (hfit : AnswersFit ev) :
      AnswersFit ev ↔ NotOversized Q tr s i := by
    refine ⟨fun _ w last hw => ?_, fun _ => hfit⟩
    rw [hi] at hw
    cases hw
  cases step_cases h with
  | putMsg | refused | waits | notifies | polls | timesOut =>
      exact hnone rfl (by simp [AnswersFit, icapSendPlatform])
  | lifecycle r hr =>
      refine hnone ?_ (by simp [AnswersFit])
      cases i <;> first | rfl | cases hr
  | loop sendRet hruns =>
      refine hnone rfl ((icapLoop_answersFit Q s.icap sendRet s.stack).mpr fun w hw => ?_)
      rw [polling_of_programRuns hruns] at hw
      cases hw
  | pass sendRet w rest hstack =>
      rw [icapLoop_answersFit]
      exact forall_tested.symm
  | resumes r sendRet tailNext k rest hstack =>
      rw [loopParse_answersFit, NotOversized]
      simp only [tested, hstack]
      exact forall_tested.symm

/-! ## Runs -/

/-- The handlers that wait for a callback have no response to store, and every frame in the fifo
is one that `rpmsg_lite` can deliver. -/
structure Bounded (bufferSize : Nat) (s : State) : Prop where
  quiescent : Quiescent s
  slots : ∀ j, (s.fifo.slot j).size.toNat ≤ bufferSize

theorem Bounded.of_step (hb : Bounded bufferSize s) (hok : FramesWithin bufferSize tr s i)
    (h : step Q s i = some (s', ev)) : Bounded bufferSize s' ∧ StoresFit bufferSize ev := by
  obtain ⟨stored, hq, hstores, -⟩ := step_waits hb.quiescent h
  refine ⟨⟨hq, fun j => ?_⟩, fun r hr => ?_⟩
  · rcases step_slots_cases h j with hsame | ⟨m, hi, hput⟩ | ⟨-, hzero⟩
    · rw [hsame]
      exact hb.slots j
    · rw [hput]
      exact hok m hi
    · rw [hzero]
      exact Nat.zero_le _
  -- the response comes from a slot
  · have hmem : r ∈ storedMsgs ev := List.mem_filterMap.mpr ⟨_, hr, rfl⟩
    cases stored with
    | none =>
        rw [hstores.2] at hmem
        exact absurd hmem List.not_mem_nil
    | some m =>
        obtain ⟨⟨j, hj⟩, ha, hstored, -⟩ := hstores
        rw [hstored] at hmem
        rw [List.mem_singleton.mp hmem]
        exact stored_le ha (by rw [hj]; exact hb.slots j)

theorem run_bounded {s₀ : State} (h0 : Bounded bufferSize s₀)
    (hrun : (machine Q).Run (FramesWithin bufferSize) s₀ tr s) :
    Bounded bufferSize s ∧ StoresFit bufferSize tr.events := by
  refine hrun.invariant
    (I := fun tr s => Bounded bufferSize s ∧ StoresFit bufferSize (Trace.events tr))
    ⟨h0, fun r hr => absurd hr List.not_mem_nil⟩ ?_
  rintro tr s s' i ev - ⟨hb, hfit⟩ hok hstep
  obtain ⟨hb', hfit'⟩ := hb.of_step hok hstep
  refine ⟨hb', fun r hr => ?_⟩
  exact (Trace.mem_events_snoc.mp hr).elim (hfit r) (hfit' r)

/-- The run lemma: the copies to the callers' responses fit up to every state of the run. -/
theorem run_answersFit_iff {ok : Trace Input Event → State → Input → Prop} {s₀ : State}
    (hrun : (machine Q).Run ok s₀ tr s) :
    (∀ tr' s', tr' <+: tr → (machine Q).Run ok s₀ tr' s' → AnswersFit (Trace.events tr')) ↔
      (machine Q).Run (fun tr s i => ok tr s i ∧ NotOversized Q tr s i) s₀ tr s := by
  refine hrun.forall_prefix_iff (P := fun tr _ => AnswersFit (Trace.events tr)) (fun tr s hr => ?_)
    ?_
  · refine hr.invariant (I := fun tr _ => AnswersFit (Trace.events tr))
      (.of_concludes (List.forall_mem_nil _)) ?_
    rintro tr s s' i ev - hfit ⟨-, hnot⟩ hstep n ret bytes hmem
    exact (Trace.mem_events_snoc.mp hmem).elim (hfit n ret bytes)
      ((step_answersFit tr hstep).mpr hnot n ret bytes)
  · intro tr s s' i ev _ _ hover hstep hfit
    refine hover ((step_answersFit tr hstep).mp fun n ret bytes hmem => ?_)
    exact hfit n ret bytes (Trace.mem_events_snoc.mpr (Or.inr hmem))

theorem zeroed_bounded (rpmsgInstance rpmsgEpt : Nat) :
    Bounded bufferSize (State.zeroed rpmsgInstance rpmsgEpt) :=
  ⟨fun _ _ hk => absurd hk List.not_mem_nil, fun _ => Nat.zero_le _⟩

end

/-- **The copies of a run stay inside their buffers** exactly when no step tests a response that
answers its wait, is wanted and is longer than a `struct icap_msg`. When a response is one frame
with a whole header this is said by the fields of the frame. -/
theorem copies_fit_iff {Q bufferSize rpmsgInstance rpmsgEpt : Nat} {tr : Trace Input Event}
    {s : State}
    (hrun : (machine Q).Run (FramesWithin bufferSize) (State.zeroed rpmsgInstance rpmsgEpt) tr s) :
    (CopiesFit bufferSize tr.events ↔
      (machine Q).Run (fun tr s i => FramesWithin bufferSize tr s i ∧ NotOversized Q tr s i)
        (State.zeroed rpmsgInstance rpmsgEpt) tr s) ∧
    ∀ (w : Wait) (last : IcapMsg) (m : IcapRemoteMsg),
      AcceptedResponse bareMetal m.data.mem m.size → sizeofIcapMsgHeader ≤ m.size.toNat →
        (Oversized w (storeResponse last m.data.mem) ↔
          m.data.mem.seqNum = w.seqNum ∧ m.data.mem.type = ICAP_ACK ∧
            w.call.wantsResponse = true ∧ sizeofIcapMsgPayload < m.data.mem.payloadLen.toNat) := by
  refine ⟨?_, fun w last m => oversized_storeResponse⟩
  rw [← run_answersFit_iff hrun]
  constructor
  · rintro ⟨-, hfit⟩ tr' s' ⟨rest, rfl⟩ - n ret bytes hmem
    refine hfit n ret bytes ?_
    rw [Trace.events_append]
    exact List.mem_append_left _ hmem
  · intro hall
    exact ⟨(run_bounded (zeroed_bounded _ _) hrun).2, hall tr s (List.prefix_refl _) hrun⟩

/-! ## A response that is too long -/

/-- An acknowledgement of the first message with the given `payload_len`, zero after its
header. -/
def ackOfLength (cmd payloadLen : U32) : IcapRemoteMsg :=
  ⟨⟨4096, ofList (word32 ICAP_PROTOCOL_VERSION ++ word32 1 ++ word32 cmd ++ word32 ICAP_ACK
    ++ List.replicate 20 0 ++ word32 payloadLen)⟩, 40 + payloadLen, 7⟩

/-- An application waits in `icap_get_subdevices` when a response arrives. -/
def answeredInputs (m : IcapRemoteMsg) : List Input :=
  [.applicationInit 0 (some fun _ => false) 0, .call .getSubdevices 0 0 (fun _ => 0), .putMsg m,
    .pass 0]

/-- A frame of 496 bytes, the most a buffer of rpmsg-lite holds, is copied whole to the
`response` of `icap_get_subdevices`. -/
theorem response_overflows : ∃ tr s bytes,
    (machine 10).Run (FramesWithin 496) (State.zeroed 0 0) tr s ∧
      Event.answered 1 0 (some bytes) ∈ tr.events ∧ bytes.length = 496 ∧
      ¬ CopiesFit 496 tr.events := by
  obtain ⟨last, hlast⟩ : ∃ last, last
      = storeResponse (fun _ => 0) (ackOfLength ICAP_MSG_GET_DEV_NUM 456).data.mem := ⟨_, rfl⟩
  have htotal : last.totalLen.toNat = 496 := by rw [hlast]; rfl
  have hlen : (block last 0 last.totalLen.toNat).length = 496 := by rw [block_length, htotal]
  have hrun : (machine 10).Run (FramesWithin 496) (State.zeroed 0 0) _ _ :=
    Machine.Run.start.exec_of_inputs (answeredInputs (ackOfLength ICAP_MSG_GET_DEV_NUM 456)) (by
      intro i hi msg heq
      subst heq
      simp only [answeredInputs, List.mem_cons, reduceCtorEq, Input.putMsg.injEq, List.not_mem_nil,
        or_false, false_or] at hi
      rw [hi]
      decide)
  have hmem : Event.answered 1 0 (some (block last 0 last.totalLen.toNat)) ∈ Trace.events
      ((machine 10).exec [] (State.zeroed 0 0)
        (answeredInputs (ackOfLength ICAP_MSG_GET_DEV_NUM 456))).1 := by
    rw [hlast]
    exact List.mem_of_getElem? (i := 6) rfl
  refine ⟨_, _, _, hrun, hmem, hlen, fun hfit => ?_⟩
  have hle := hfit.2 _ _ _ hmem
  rw [hlen] at hle
  exact absurd hle (by decide)

/-- The same wait answered by the number of subdevices, one word, after a `FRAG_READY` whose
callback it waited for. -/
def fragReadyInputs : List Input :=
  [.applicationInit 0 (some (· = .fragReady)) 0, .call .getSubdevices 0 0 (fun _ => 0),
    .putMsg ⟨⟨4096, ofList (icapMsgFrame ICAP_MSG_FRAG_READY ICAP_MSG 1
      (List.replicate 8 0))⟩, 48, 7⟩, .pass 0,
    .putMsg (ackOfLength ICAP_MSG_GET_DEV_NUM 4), .callbackRet ⟨0, Vector.replicate 28 0⟩ 0,
    .clock 0, .pass 0]

theorem copies_fit_iff_number : ∃ tr s,
    (machine 10).Run (FramesWithin 496) (State.zeroed 0 0) tr s ∧ s.stack = [] ∧
      CopiesFit 496 tr.events := by
  have hshort (m : IcapRemoteMsg) (hm : m.size.toNat ≤ 496) (tr : Trace Input Event) (s : State) :
      FramesWithin 496 tr s (.putMsg m) := by
    rintro msg ⟨⟩
    exact hm
  have hother (i : Input) (hi : ∀ m, i ≠ .putMsg m) (tr : Trace Input Event) (s : State) :
      FramesWithin 496 tr s i := fun msg h => absurd h (hi msg)
  have hnone (i : Input) (s : State) (h : tested 10 s i = none) (tr : Trace Input Event) :
      NotOversized 10 tr s i := by
    intro w last hw
    rw [h] at hw
    cases hw
  have hgood : (machine 10).Run (fun tr s i => FramesWithin 496 tr s i ∧ NotOversized 10 tr s i)
      (State.zeroed 0 0) _ _ :=
    Machine.Run.start.exec fragReadyInputs
      ⟨⟨hother _ (by simp) _ _, hnone _ _ rfl _⟩, ⟨hother _ (by simp) _ _, hnone _ _ rfl _⟩,
        ⟨hshort _ (by decide) _ _, hnone _ _ rfl _⟩, ⟨hother _ (by simp) _ _, hnone _ _ rfl _⟩,
        ⟨hshort _ (by decide) _ _, hnone _ _ rfl _⟩,
        ⟨hother _ (by simp) _ _, fun w last hw hover => by
          cases hw
          exact absurd hover.seqNum (by decide)⟩,
        ⟨hother _ (by simp) _ _, hnone _ _ rfl _⟩,
        ⟨hother _ (by simp) _ _, fun w last hw hover => by
          cases hw
          exact absurd hover.length (by decide)⟩, trivial⟩
  have hrun := hgood.mono fun _ _ _ h => h.1
  exact ⟨_, _, hrun, rfl, (copies_fit_iff hrun).1.mpr hgood⟩

end Icap.BareMetal
