import Icap.Linux.Matching
import Icap.Protocol.Request

set_option autoImplicit false

/-! # What a Linux application sends

The threads of an application instance that call application functions only (`AppCalls`). Every
message handed to `rpmsg_send` is the request of a call, with its seq_num and once; everything else
that is sent is a response of a receiver to a message of the device (`run_asked`).
-/

namespace Icap.Linux

open ByteMemory Transition

/-! ## What is sent and what comes -/

/-- The frame that `rpmsg_send` is called with. -/
def Event.sentFrame : Event → Option (List Byte)
  | .sentMsg m => some m.frame
  | .sentResponse frame => some frame
  | _ => none

/-- The frame that comes to the rpmsg endpoint. -/
def Input.frame (inp : Input) : Option (List Byte) :=
  match inp.action with
  | .receive _ msg size => some (block msg 0 size.toNat)
  | _ => none

/-- The frame that comes, if it is a response. -/
def Input.responseFrame (inp : Input) : Option (List Byte) :=
  match inp.action with
  | .receive _ msg size => if IsResponse msg then some (block msg 0 size.toNat) else none
  | _ => none

/-- The response frames that have come. -/
def responseFrames (tr : Trace Input Event) : List (List Byte) :=
  tr.inputs.filterMap Input.responseFrame

/-- The request of a call, as a device reads it. -/
def Message.request (m : Message) : Option Request := m.call.ask.map fun q => q m.seqNum

/-- The requests handed to `rpmsg_send`. -/
def sentRequests (tr : Trace Input Event) : List Request :=
  (tr.events.filterMap Event.sentMessage).filterMap Message.request

/-- The threads call application functions, fewer than `2 ^ 32` messages are sent, and the instance
is neither closed nor initialised again. -/
def AppCalls (tr : Trace Input Event) (_ : State) (inp : Input) : Prop :=
  match inp.action with
  | .call c _ => c.sync = true ∧
      ((c.request 0).isSome → (startedSeqNums tr).length + 1 < 2 ^ 32)
  | a => a.opens = false ∧ a.closes = false

theorem AppCalls.keeps {tr : Trace Input Event} {s : State} {inp : Input}
    (h : AppCalls tr s inp) : inp.action.opens = false ∧ inp.action.closes = false := by
  unfold AppCalls at h
  split at h
  · rename_i heq
    rw [heq]
    exact ⟨rfl, rfl⟩
  · exact h

/-- The message is the request of its call. -/
structure Message.Asks (m : Message) : Prop where
  sync : m.call.sync = true
  request : m.call.request m.seqNum = some m.frame

theorem Message.Asks.carries {m : Message} (h : m.Asks) :
    ∃ q, m.call.ask = some q ∧ m.request = some (q m.seqNum) ∧
      requestOf (ofList m.frame) = some (q m.seqNum) := by
  obtain ⟨q, hq⟩ := ApiCall.ask_of_request h.sync h.request
  exact ⟨q, hq, by rw [Message.request, hq]; rfl, (carries_ask hq h.request).2⟩

/-! ## Steps -/

/-- What a receiver will send are responses. -/
def Thread.SendsResponses : Thread → Prop
  | .parse p => p.SendsResponses
  | _ => True

section

variable {bits : Nat} {icap icap' : Instance} {i : Nat} {th th' : Thread} {a : Action}
  {ev : List Event} {s s' : State} {inp : Input} {tr : Trace Input Event}

/-- A call that starts makes its message. -/
theorem startCall_asks {c : ApiCall} {uninit : Mem} {m : Message}
    (h : startCall icap c uninit = (icap', th', ev)) (hm : .started m ∈ ev) :
    m.call = c ∧ c.request m.seqNum = some m.frame := by
  have hsends := c.call_sends
  unfold startCall at h
  split at h
  · obtain ⟨rfl, rfl, rfl⟩ := h
    cases List.mem_singleton.mp hm
  · rename_i cmd data sync wants k hcall
    rw [hcall] at hsends
    rw [icapSendMsgPayload_of_sends hsends] at h
    obtain ⟨rfl, rfl, rfl⟩ := h
    obtain rfl := Event.started.inj (List.mem_singleton.mp hm)
    exact ⟨rfl, by simp only [ApiCall.request, hcall]; rfl⟩

/-- A receiver sends responses. -/
theorem Move.sendsResponses (h : Move bits icap i th a icap' th' ev) (hth : th.SendsResponses) :
    th'.SendsResponses ∧ ∀ frame, .sentResponse frame ∈ ev → ResponseFrame frame := by
  cases h with
  | received => exact ⟨icapParseMsg_sendsResponses _ _ _ _ _, fun _ hmem => by cases hmem⟩
  | invoked => exact ⟨hth _, by simp⟩
  | sentResponse hev =>
      refine ⟨hth.2 _, fun frame hmem => ?_⟩
      rcases hev with rfl | rfl
      · cases hmem
      · obtain rfl := Event.sentResponse.inj (List.mem_singleton.mp hmem)
        exact hth.1
  | dropped | notified => exact ⟨hth _, by simp [useSkbs]⟩
  | started =>
      rename_i sync _ _
      cases sync <;> exact ⟨trivial, by simp⟩
  | sent hev | sentAsync hev =>
      rcases hev with rfl | rfl <;> exact ⟨trivial, by simp [Message.returns]⟩
  | result hused hev _ =>
      rcases hused with rfl | rfl <;> rcases hev with rfl | ⟨icapId, msgCmd, rfl⟩ <;>
        exact ⟨trivial, by simp [useSkbs]⟩
  | unlinked => split_ifs <;> exact ⟨trivial, by simp [useSkbs]⟩
  | _ => exact ⟨trivial, by simp [useSkbs, Message.returns]⟩

theorem step_asks (h : step bits s inp = some (s', ev)) (hok : AppCalls tr s inp) {m : Message}
    (hm : .started m ∈ ev) : m.Asks := by
  obtain ⟨⟨icap', th', ev'⟩, hs, heq⟩ := Option.map_eq_some_iff.mp h
  obtain ⟨-, rfl⟩ := Prod.mk.inj heq
  cases (stepThread_move hs).call with
  | start m' c uninit hth ha _ _ =>
      rw [hth, ha] at hs
      obtain ⟨rfl, hreq⟩ := startCall_asks (Option.some.inj hs) hm
      unfold AppCalls at hok
      rw [ha] at hok
      exact ⟨hok.1, hreq⟩
  | go _ hstarted _ _ => exact absurd hm (hstarted m)

/-! ## Runs -/

structure Asked (tr : Trace Input Event) (s : State) : Prop where
  calls : Calls tr s.icap.seqNum s.threads
  once : (sentSeqNums tr).Nodup
  asks : ∀ m, .started m ∈ tr.events → m.Asks
  known : ∀ i m, (s.threads i).message = some m → .started m ∈ tr.events
  sent : ∀ m, .sentMsg m ∈ tr.events → .started m ∈ tr.events
  returned : ∀ m timeout r, .returned m timeout r ∈ tr.events → .started m ∈ tr.events
  receivers : ∀ i, (s.threads i).SendsResponses
  responses : ∀ frame, .sentResponse frame ∈ tr.events → ResponseFrame frame

/-- A thread starts a call. -/
theorem Asked.start (h : Asked tr s) {tr' : Trace Input Event} {m : Message}
    (hcalls : Calls tr' s'.icap.seqNum s'.threads) (hstarted : Started tr' s'.threads)
    (hm : m.Asks) (htr' : tr' = tr ++ [(inp, [.started m])])
    (hreceivers : ∀ j, (s'.threads j).SendsResponses) : Asked tr' s' := by
  subst htr'
  refine ⟨hcalls, ?_, ?_, hstarted.known, hstarted.sent, ?_, hreceivers, ?_⟩
  · rw [sentSeqNums_snoc]
    exact (List.append_nil _).symm ▸ h.once
  · intro m' hm'
    rcases Trace.mem_events_snoc.mp hm' with hm' | hm'
    · exact h.asks m' hm'
    · obtain rfl := Event.started.inj (List.mem_singleton.mp hm')
      exact hm
  · intro m' timeout r hm'
    rcases Trace.mem_events_snoc.mp hm' with hm' | hm'
    · exact Trace.mem_events_snoc.mpr (Or.inl (h.returned m' timeout r hm'))
    · cases List.mem_singleton.mp hm'
  · intro frame hframe
    rcases Trace.mem_events_snoc.mp hframe with hframe | hframe
    · exact h.responses frame hframe
    · cases List.mem_singleton.mp hframe

theorem Asked.of_step (h : Asked tr s) (hok : AppCalls tr s inp)
    (hstep : step bits s inp = some (s', ev)) : Asked (tr ++ [(inp, ev)]) s' := by
  have hasks := fun m => @step_asks _ _ _ _ _ _ hstep hok m
  have hstarted : Started (tr ++ [(inp, ev)]) s'.threads := .of_step ⟨h.known, h.sent⟩ hstep
  obtain ⟨icap', th', hmove, rfl⟩ := step_move hstep
  have hopen := hok.keeps.1
  have hcalls : Calls (tr ++ [(inp, ev)]) icap'.seqNum
      (Function.update s.threads inp.thread th') := by
    refine h.calls.of_move hmove hopen ?_
    intro c uninit ha
    unfold AppCalls at hok
    rw [ha] at hok
    exact hok.2
  obtain ⟨hth', hresponses⟩ := hmove.sendsResponses (h.receivers inp.thread)
  have hreceivers : ∀ j, (Function.update s.threads inp.thread th' j).SendsResponses :=
    (Function.forall_update_iff s.threads fun _ th => th.SendsResponses).mpr
      ⟨hth', fun j _ => h.receivers j⟩
  cases hmove.call with
  | start m c uninit _ _ _ hev =>
      subst hev
      exact h.start hcalls hstarted (hasks m (List.mem_singleton_self _)) rfl hreceivers
  | go _ hnone hsent hreturned =>
      refine ⟨hcalls, ?_, ?_, hstarted.known, hstarted.sent, ?_, hreceivers, ?_⟩
      · -- the seq_num of a message that is sent has not been sent
        rw [sentSeqNums_snoc]
        cases hnew : ev.filterMap Event.sentMessage with
        | nil => exact (List.append_nil _).symm ▸ h.once
        | cons m ms =>
            have hmem : m ∈ ev.filterMap Event.sentMessage := by
              rw [hnew]
              exact List.mem_cons_self
            obtain ⟨e, he, hem⟩ := List.mem_filterMap.mp hmem
            cases e with
            | sentMsg m' =>
                obtain rfl : m' = m := Option.some.inj hem
                obtain ⟨hunsent, hone⟩ := hsent m' he
                rw [hone] at hnew
                rw [← (List.cons.inj hnew).2]
                exact List.nodup_append.mpr ⟨h.once, List.nodup_singleton _, fun n hn n' hn' heq =>
                  h.calls.unsent _ m' hunsent (List.mem_singleton.mp hn' ▸ heq ▸ hn)⟩
            | _ => cases hem
      · intro m hm'
        rcases Trace.mem_events_snoc.mp hm' with hm' | hm'
        · exact h.asks m hm'
        · exact absurd hm' (hnone m)
      · intro m timeout r hm'
        refine Trace.mem_events_snoc.mpr (Or.inl ?_)
        rcases Trace.mem_events_snoc.mp hm' with hm' | hm'
        · exact h.returned m timeout r hm'
        · exact h.known _ m (hreturned m timeout r hm').symm
      · intro frame hframe
        rcases Trace.mem_events_snoc.mp hframe with hframe | hframe
        · exact h.responses frame hframe
        · exact hresponses frame hframe

variable {rpdev : Option U32} {name priv : Nat} {cb : CallbackTable}

theorem opened_asked : Asked [] (State.opened bits rpdev name cb priv) where
  calls := opened_calls
  once := List.nodup_nil
  asks := fun _ h => absurd h List.not_mem_nil
  known := by
    intro i m hm
    cases hm
  sent := fun _ h => absurd h List.not_mem_nil
  returned := fun _ _ _ h => absurd h List.not_mem_nil
  receivers := fun _ => trivial
  responses := fun _ h => absurd h List.not_mem_nil

theorem run_asked (hrun : (machine bits).Run AppCalls (State.opened bits rpdev name cb priv) tr s) :
    Asked tr s := by
  refine hrun.invariant opened_asked ?_
  rintro tr s s' inp ev - h hok hstep
  exact h.of_step hok hstep

/-- What holds in a run in which the device answers each message at most once. -/
theorem run_answered (hbits : 32 ≤ bits)
    (hrun : (machine bits).Run AnswersOnce (State.opened bits rpdev name cb priv) tr s) :
    Answered tr s.icap.transport s.threads := by
  have hinv := hrun.invariant (I := fun tr s => Owned s.icap.transport s.threads ∧
      Ledger tr s.icap.transport ∧ Calls tr s.icap.seqNum s.threads ∧
      Answered tr s.icap.transport s.threads)
    ⟨opened_owned, opened_ledger, opened_calls, opened_answered⟩ ?_
  · exact hinv.2.2.2
  · rintro tr s s' ⟨i, a⟩ ev - ⟨howned, hledger, hcalls, h⟩ hok hstep
    have hopen := hok.keeps.1
    have hhands : HandsOff s ⟨i, a⟩ := handsOff_of_answersOnce howned hcalls h
    obtain ⟨howned', hledger'⟩ := owned_step howned hledger hopen hhands hstep
    obtain ⟨icap', th', hmove, rfl⟩ := step_move hstep
    refine ⟨howned', hledger', hcalls.of_move hmove hopen ?_, h.of_move hbits howned hmove hok⟩
    rintro c uninit rfl
    exact hok

/-! ## Frames -/

/-- Every frame is a response or the request of a call. -/
theorem Asked.frame (h : Asked tr s) {frame : List Byte}
    (hframe : frame ∈ tr.events.filterMap Event.sentFrame) : Icap.Asks frame := by
  obtain ⟨e, he, heq⟩ := List.mem_filterMap.mp hframe
  cases e with
  | sentMsg m =>
      obtain rfl := Option.some.inj heq
      have hasks := h.asks m (h.sent m he)
      obtain ⟨q, hq, -⟩ := hasks.carries
      exact Or.inr ⟨m.call, q, m.seqNum, hq, hasks.request⟩
  | sentResponse frame' =>
      obtain rfl := Option.some.inj heq
      exact Or.inl (h.responses _ he)
  | _ => cases heq

/-- A device reads the requests in the frames. -/
theorem Asked.requests (h : Asked tr s) :
    (tr.events.filterMap Event.sentFrame).filterMap (fun frame => requestOf (ofList frame))
      = sentRequests tr := by
  rw [sentRequests, List.filterMap_filterMap, List.filterMap_filterMap]
  refine List.filterMap_congr fun e he => ?_
  cases e with
  | sentMsg m =>
      obtain ⟨q, -, hm, hread⟩ := (h.asks m (h.sent m he)).carries
      simp only [Event.sentFrame, Event.sentMessage, Option.bind_some, hread, hm]
  | sentResponse frame =>
      have hread := (h.responses frame he).carries_request.2
      simp only [Event.sentFrame, Event.sentMessage, Option.bind_some, Option.bind_none, hread]
  | _ => rfl

/-- Requests have the seq_nums of their messages. -/
theorem Asked.seqNums (h : Asked tr s) :
    (sentRequests tr).map Request.seqNum = sentSeqNums tr := by
  rw [sentRequests, sentSeqNums, List.map_filterMap]
  have hall : ∀ m ∈ tr.events.filterMap Event.sentMessage,
      (m.request.map Request.seqNum) = some m.seqNum := by
    intro m hm
    obtain ⟨e, he, hem⟩ := List.mem_filterMap.mp hm
    cases e with
    | sentMsg m' =>
        obtain rfl : m' = m := Option.some.inj hem
        obtain ⟨q, hq, hreq, -⟩ := (h.asks m' (h.sent m' he)).carries
        rw [hreq, Option.map_some, ApiCall.ask_seqNum hq]
    | _ => cases hem
  rw [List.filterMap_congr hall, List.filterMap_eq_map']

/-- A request that was sent is that of one call. -/
theorem Asked.of_sentRequest (h : Asked tr s) {q : Request} (hq : q ∈ sentRequests tr) :
    ∃ m, .started m ∈ tr.events ∧ m.request = some q ∧ q.seqNum = m.seqNum := by
  obtain ⟨m, hm, hreq⟩ := List.mem_filterMap.mp hq
  obtain ⟨e, he, hem⟩ := List.mem_filterMap.mp hm
  cases e with
  | sentMsg m' =>
      obtain rfl : m' = m := Option.some.inj hem
      obtain ⟨q', hq', hreq', -⟩ := (h.asks m' (h.sent m' he)).carries
      obtain rfl := Option.some.inj (hreq.symm.trans hreq')
      exact ⟨m', h.sent m' he, hreq, ApiCall.ask_seqNum hq' _⟩
  | _ => cases hem

/-- No two calls have one seq_num. -/
theorem Asked.unique (h : Asked tr s) {m m' : Message} (hm : .started m ∈ tr.events)
    (hm' : .started m' ∈ tr.events) (heq : m.seqNum = m'.seqNum) : m = m' :=
  List.inj_on_of_nodup_map h.calls.nodup (List.mem_filterMap.mpr ⟨_, hm, rfl⟩)
    (List.mem_filterMap.mpr ⟨_, hm', rfl⟩) heq

/-! ## Replies -/

/-- A call that gets the reply to its request returns what the callback returned. -/
theorem Message.resultFor_reply {m : Message} {q : U32 → Request} (hq : m.call.ask = some q)
    {n : U32} {o : Option CallbackResult} {r : IcapMsg} (hr : Holds r ((q n).reply o)) :
    m.resultFor r = m.call.outcome o := by
  obtain ⟨callback, hremote, -⟩ := ApiCall.ask_eq_some hq
  rw [ApiCall.outcome_eq, Message.resultFor]
  refine finish_reply (n := n) hremote (fun hf => ?_) fun hf => ?_
  · rw [ApiCall.reply_ask hq, ApiCall.reply, if_pos hf] at hr
    have hm := frameAt_of_holds hr
    rw [Message.answer, if_pos hm.type, hm.payloadU32]
  · rw [ApiCall.reply_ask hq] at hr
    have hack := hr
    rw [ApiCall.reply, if_neg hf] at hack
    have hm := frameAt_of_holds hack
    have hlen : (if o.isSome then m.call.answerKind.ackPayload (o.getD ⟨0, Vector.replicate 28 0⟩)
        else m.call.answerKind.defaultPayload).length ≤ sizeofIcapMsgPayload := by
      split_ifs
      · exact AnswerKind.ackPayload_length_le _ _
      · exact AnswerKind.defaultPayload_length_le _
    have hnak : ¬ r.type = ICAP_NAK := by
      rw [hm.type]
      decide
    rw [Message.answer, if_neg hnak]
    refine ⟨rfl, fun hwants => ?_⟩
    rw [if_pos hwants]
    refine hr.copy ?_
    rw [ApiCall.reply, if_neg hf, icapMsgFrame_length, hm.totalLen hlen]

end

end Icap.Linux
