import Icap.BareMetal.Machine
import Icap.Protocol.Dispatch

set_option autoImplicit false

/-! # What a step does to waits and responses

The steps of the machine, seen from `icap_wait_for_response`: which response a step stores
(`step_stored`), which waits begin and end, and how (`step_waits`), and which message
`icap_send_msg` sends (`step_counter`).
-/

namespace Icap.BareMetal

open ByteMemory RingBuffer Transition

/-- The synchronous calls that have not returned, innermost first. -/
def waits : List Activation → List Wait
  | [] => []
  | .poll w :: rest => w :: waits rest
  | .clock w :: rest => w :: waits rest
  | .loop _ _ :: rest => waits rest

def Event.response : Event → Option IcapMsg
  | .stored r => some r
  | _ => none

/-- The responses stored, in order. -/
def storedMsgs (ev : List Event) : List IcapMsg := ev.filterMap Event.response

/-- The event ends a wait or a call. -/
def Event.concludes : Event → Bool
  | .answered _ _ _ => true
  | .returned _ _ => true
  | _ => false

abbrev State.lastResponse (s : State) : IcapMsg := s.icap.transport.lastResponse

@[simp] theorem storedMsgs_append (ev ev' : List Event) :
    storedMsgs (ev ++ ev') = storedMsgs ev ++ storedMsgs ev' := by
  simp [storedMsgs]

/-- Events that neither store a response nor end a call. -/
def Idle (ev : List Event) : Prop := ∀ e ∈ ev, e.response = none ∧ e.concludes = false

theorem Idle.nil : Idle [] := by simp [Idle]

theorem Idle.cons {e : Event} {ev : List Event} (he : e.response = none ∧ e.concludes = false)
    (h : Idle ev) : Idle (e :: ev) := by
  intro e' he'
  rcases List.mem_cons.mp he' with rfl | he'
  · exact he
  · exact h _ he'

theorem Idle.append {ev ev' : List Event} (h : Idle ev) (h' : Idle ev') : Idle (ev ++ ev') := by
  intro e he
  exact (List.mem_append.mp he).elim (h e) (h' e)

theorem Idle.storedMsgs {ev : List Event} (h : Idle ev) : storedMsgs ev = [] :=
  List.filterMap_eq_nil_iff.mpr fun e he => (h e he).1

theorem Idle.concludes {ev : List Event} (h : Idle ev) : ∀ e ∈ ev, e.concludes = false :=
  fun e he => (h e he).2

/-! ## Handlers -/

/-- Every handler that waits for its callback is silent. -/
def Quiescent (s : State) : Prop :=
  ∀ tailNext k, Activation.loop tailNext k ∈ s.stack → ∀ r, (k r).Silent

/-- A silent handler leaves the transport as it is. -/
theorem runParse_silent (sendRet : U32) (t : IcapTransport) {p : Parse U32} (h : p.Silent) :
    (runParse sendRet t p).1 = t ∧ Idle (runParse sendRet t p).2.1 ∧
      ∀ k, (runParse sendRet t p).2.2 = .callback k → ∀ r, (k r).Silent := by
  induction p generalizing t with
  | done ret => exact ⟨rfl, .nil, nofun⟩
  | callback c k _ =>
      refine ⟨rfl, .cons ⟨rfl, rfl⟩ .nil, fun k' hk => ?_⟩
      cases hk
      exact h
  | sendPlatform frame k ih =>
      obtain ⟨h1, h2, h3⟩ := ih sendRet t (h sendRet)
      exact ⟨h1, .cons ⟨rfl, rfl⟩ h2, h3⟩
  | responseNotify response k _ => exact h.elim

/-- Going on with a silent handler: it stops in a callback, or `icap_loop` ends. -/
theorem loopParse_silent (icap : Instance) (tailNext : Nat) (sendRet : U32)
    (stack : List Activation) {p : Parse U32} (h : p.Silent) :
    ∃ ev, Idle ev ∧
      ((∃ k, (∀ r, (k r).Silent) ∧ loopParse icap tailNext sendRet stack p
          = (⟨icap, .loop tailNext k :: stack⟩, ev))
      ∨ ∃ ret, loopParse icap tailNext sendRet stack p
          = ((loopEnd icap tailNext ret stack).1, ev ++ (loopEnd icap tailNext ret stack).2)) := by
  obtain ⟨ht, hidle, hk⟩ := runParse_silent sendRet icap.transport h
  unfold loopParse
  rcases hrun : runParse sendRet icap.transport p with ⟨t, ev, progress⟩
  rw [hrun] at ht hidle hk
  simp only at ht hidle hk
  subst ht
  refine ⟨ev, hidle, ?_⟩
  cases progress with
  | callback k => exact Or.inl ⟨k, hk k rfl, rfl⟩
  | done ret => exact Or.inr ⟨ret, rfl⟩

/-! ## How `icap_loop` ends -/

/-- What `icap_response_notify` leaves in `last_response`. -/
def storeResponse (last r : IcapMsg) : IcapMsg := copy last r r.totalLen.toNat

theorem runParse_concludes (sendRet : U32) (t : IcapTransport) (p : Parse U32) :
    ∀ e ∈ (runParse sendRet t p).2.1, e.concludes = false := by
  induction p generalizing t with
  | done ret => exact nofun
  | callback c k _ => exact List.forall_mem_singleton.mpr rfl
  | sendPlatform frame k ih => exact List.forall_mem_cons.mpr ⟨rfl, ih sendRet t⟩
  | responseNotify response k ih => exact List.forall_mem_cons.mpr ⟨rfl, ih _ _⟩

/-- The responses that a handler stores are all that changes the last response. -/
theorem runParse_lastResponse (sendRet : U32) (t : IcapTransport) (p : Parse U32) :
    (runParse sendRet t p).1.lastResponse
      = (storedMsgs (runParse sendRet t p).2.1).foldl storeResponse t.lastResponse := by
  induction p generalizing t with
  | done ret => rfl
  | callback c k _ => rfl
  | sendPlatform frame k ih => exact ih sendRet t
  | responseNotify response k ih => exact ih _ _

theorem loopReturn_stored (icap : Instance) (ret : U32) (stack : List Activation) :
    storedMsgs (loopReturn icap ret stack).2 = [] := by
  rcases loopReturn_cases icap ret stack with
    ⟨w, rest, rfl, -, h⟩ | ⟨w, rest, rfl, -, h⟩ | ⟨-, h⟩ <;> rw [h] <;> rfl

/-- How a run of `icap_loop` ends does not depend on its caller: it stops in a callback, or
returns. -/
theorem loopParse_stack (icap : Instance) (tailNext : Nat) (sendRet : U32) (p : Parse U32) :
    ∃ (icap₁ : Instance) (ev₁ : List Event), (∀ e ∈ ev₁, e.concludes = false) ∧
      icap₁.transport.lastResponse
        = (storedMsgs ev₁).foldl storeResponse icap.transport.lastResponse ∧
      ((∃ k, ∀ stack, loopParse icap tailNext sendRet stack p
          = (⟨icap₁, .loop tailNext k :: stack⟩, ev₁)) ∨
        ∃ ret, ∀ stack, loopParse icap tailNext sendRet stack p
          = ((loopReturn icap₁ ret stack).1, ev₁ ++ (loopReturn icap₁ ret stack).2)) := by
  have hnot := runParse_concludes sendRet icap.transport p
  have hlast := runParse_lastResponse sendRet icap.transport p
  unfold loopParse
  generalize runParse sendRet icap.transport p = r at hnot hlast ⊢
  obtain ⟨t, ev₁, progress⟩ := r
  cases progress with
  | callback k => exact ⟨_, ev₁, hnot, hlast, Or.inl ⟨k, fun _ => rfl⟩⟩
  | done ret =>
      refine ⟨setTail { icap with transport := t } tailNext,
        ev₁ ++ [.released (t.msgFifo.slot tailNext).data.addr], ?_, ?_,
        Or.inr ⟨ret, fun stack => ?_⟩⟩
      · exact List.forall_mem_append.mpr ⟨hnot, List.forall_mem_singleton.mpr rfl⟩
      · have hreleased : storedMsgs [Event.released (t.msgFifo.slot tailNext).data.addr] = [] := rfl
        rw [storedMsgs_append, hreleased, List.append_nil]
        exact hlast
      · simp only [loopEnd, List.append_assoc, List.cons_append, List.nil_append]

theorem icapLoop_stack {Q : Nat} (icap : Instance) (sendRet : U32) :
    ∃ (icap₁ : Instance) (ev₁ : List Event), (∀ e ∈ ev₁, e.concludes = false) ∧
      icap₁.transport.lastResponse
        = (storedMsgs ev₁).foldl storeResponse icap.transport.lastResponse ∧
      ((∃ tailNext k, ∀ stack, icapLoop Q icap sendRet stack
          = (⟨icap₁, .loop tailNext k :: stack⟩, ev₁)) ∨
        ∃ ret, ∀ stack, icapLoop Q icap sendRet stack
          = ((loopReturn icap₁ ret stack).1, ev₁ ++ (loopReturn icap₁ ret stack).2)) := by
  by_cases hne : icap.transport.msgFifo.tail = icap.transport.msgFifo.head
  · exact ⟨icap, [], nofun, rfl, Or.inr ⟨0, fun stack => icapLoop_empty hne⟩⟩
  · obtain ⟨msg, hmsg⟩ : ∃ msg, msg
        = icap.transport.msgFifo.slot (indexNext Q icap.transport.msgFifo.tail) := ⟨_, rfl⟩
    obtain ⟨a, ha⟩ := icapParseMsg_eq icap msg.srcAddr msg.data.mem msg.size
    rcases hp : icapParseMsg bareMetal icap msg.srcAddr msg.data.mem msg.size with ⟨icap', p⟩
    rw [hp] at ha
    simp only at ha
    obtain ⟨icap₁, ev₁, hnot, hlast, hend⟩ :=
      loopParse_stack icap' (indexNext Q icap.transport.msgFifo.tail) sendRet p
    refine ⟨icap₁, .parsed msg :: ev₁, ?_, by rw [hlast, ha]; rfl, ?_⟩
    · exact List.forall_mem_cons.mpr ⟨rfl, hnot⟩
    · rcases hend with ⟨k, hk⟩ | ⟨ret, hret⟩
      · exact Or.inl ⟨_, k, fun stack => by rw [icapLoop_parse hne hmsg hp, hk]⟩
      · refine Or.inr ⟨ret, fun stack => ?_⟩
        rw [icapLoop_parse hne hmsg hp, hret]
        rfl

/-! ## One run of `icap_loop` -/

/-- The last response after a step, and the message of the fifo it comes from, if it is new. -/
def Stores (s : State) (icap : Instance) (ev : List Event) : Option IcapRemoteMsg → Prop
  | none => icap.transport.lastResponse = s.lastResponse ∧ storedMsgs ev = []
  | some m => (∃ j, m = s.icap.transport.msgFifo.slot j) ∧
      AcceptedResponse bareMetal m.data.mem m.size ∧ storedMsgs ev = [m.data.mem] ∧
      icap.transport.lastResponse
        = copy s.lastResponse m.data.mem m.data.mem.totalLen.toNat

/-- How a run of `icap_loop` called by the top of `stack` ends: in a callback, or returning to
its caller. -/
inductive LoopOutcome (s : State) (stack : List Activation) (s' : State) (ev : List Event)
    (stored : Option IcapRemoteMsg) : Prop
  | callback (tailNext : Nat) (k : CallbackResult → Parse U32) (hk : ∀ r, (k r).Silent)
      (hstack : s'.stack = .loop tailNext k :: stack) (hstored : stored = none)
      (hst : Stores s s'.icap ev stored) (hno : ∀ e ∈ ev, e.concludes = false)
  | ended (icap : Instance) (ret : U32) (ev₁ : List Event) (hst : Stores s icap ev₁ stored)
      (hno : ∀ e ∈ ev₁, e.concludes = false) (hs' : s' = (loopReturn icap ret stack).1)
      (hev : ev = ev₁ ++ (loopReturn icap ret stack).2)

section

variable {Q : Nat} {s s' : State} {i : Input} {ev : List Event}

/-- A silent handler leads to an outcome without a stored response. -/
theorem loopParse_outcome {icap : Instance} (tailNext : Nat) (sendRet : U32)
    (stack : List Activation) {p : Parse U32} (h : p.Silent) {ev₀ : List Event}
    (hlast : icap.transport.lastResponse = s.lastResponse) (hidle : Idle ev₀) :
    LoopOutcome s stack (loopParse icap tailNext sendRet stack p).1
      (ev₀ ++ (loopParse icap tailNext sendRet stack p).2) none := by
  obtain ⟨ev₁, hidle₁, ⟨k, hk, heq⟩ | ⟨ret, heq⟩⟩ :=
    loopParse_silent icap tailNext sendRet stack h
  · rw [heq]
    have hall := hidle.append hidle₁
    exact .callback tailNext k hk rfl rfl ⟨hlast, hall.storedMsgs⟩ hall.concludes
  · rw [heq]
    have hall := (hidle.append hidle₁).append (.cons (e := .released
      (icap.transport.msgFifo.slot tailNext).data.addr) ⟨rfl, rfl⟩ .nil)
    refine .ended (setTail icap tailNext) ret _ ⟨hlast, hall.storedMsgs⟩ hall.concludes rfl ?_
    simp only [loopEnd, List.append_assoc, List.cons_append, List.nil_append]

theorem icapLoop_outcome (sendRet : U32) (stack : List Activation) :
    ∃ stored, LoopOutcome s stack (icapLoop Q s.icap sendRet stack).1
      (icapLoop Q s.icap sendRet stack).2 stored := by
  by_cases hne : s.icap.transport.msgFifo.tail = s.icap.transport.msgFifo.head
  · rw [icapLoop_empty hne]
    exact ⟨none, .ended s.icap 0 [] ⟨rfl, rfl⟩ (by simp) rfl rfl⟩
  · obtain ⟨msg, hmsg⟩ : ∃ msg, msg
        = s.icap.transport.msgFifo.slot (indexNext Q s.icap.transport.msgFifo.tail) := ⟨_, rfl⟩
    obtain ⟨a, ha⟩ := icapParseMsg_eq s.icap msg.srcAddr msg.data.mem msg.size
    have hnotify := icapParseMsg_notify bareMetal s.icap msg.srcAddr msg.data.mem msg.size
    rcases hp : icapParseMsg bareMetal s.icap msg.srcAddr msg.data.mem msg.size with ⟨icap', p⟩
    rw [hp] at ha hnotify
    simp only at ha hnotify
    rw [icapLoop_parse hne hmsg hp]
    subst ha
    -- a handler that does not store a response stores none
    rcases hnotify with hsilent | ⟨rfl, haccepted⟩
    · have hidle : Idle [.parsed msg] := .cons ⟨rfl, rfl⟩ .nil
      have hlast : ({ s.icap with transport := { s.icap.transport with remoteAddr := a } } :
        Instance).transport.lastResponse = s.lastResponse := rfl
      exact ⟨none, loopParse_outcome _ _ _ hsilent hlast hidle⟩
    · -- a response: it is stored and `icap_loop` ends
      refine ⟨some msg, .ended _ 0 [.parsed msg, .stored msg.data.mem, .released msg.data.addr]
        ⟨⟨_, hmsg⟩, haccepted, rfl, ?_⟩ (by simp [Event.concludes]) rfl ?_⟩
      · rfl
      · rw [hmsg]
        rfl

/-! ## Steps -/

/-- What a step does to the waits; `stored` is the response it stores. -/
inductive WaitStep (s : State) (i : Input) (s' : State) (ev : List Event)
    (stored : Option IcapRemoteMsg) : Prop
  /-- No wait begins or ends; a wait that goes on has just not seen its response. -/
  | stay (hwaits : waits s'.stack = waits s.stack)
      (hno : ∀ n ret copied, Event.answered n ret copied ∉ ev)
      (hmiss : ∀ sendRet w rest, i = .pass sendRet → s.stack = .poll w :: rest →
        stored.isSome → s'.lastResponse.seqNum ≠ w.seqNum)
  | begin (c : ApiCall) (now sendRet : U32) (uninit : Mem) (frame : List Byte)
      (hi : i = .call c now sendRet uninit) (hsync : c.sync = true)
      (hreq : c.request (s.icap.seqNum + 1) = some frame) (hstored : stored = none)
      (hwaits : waits s'.stack = ⟨c, s.icap.seqNum + 1, now, uninit⟩ :: waits s.stack)
      (hev : ev = [icapSendPlatform s.icap.transport frame])
  | timeout (w : Wait) (hwaits : waits s.stack = w :: waits s'.stack) (hstored : stored = none)
      (hno : ∀ n ret copied, Event.answered n ret copied ∉ ev)
  | answer (w : Wait) (pre : List Event) (hwaits : waits s.stack = w :: waits s'.stack)
      (hseq : s'.lastResponse.seqNum = w.seqNum) (hno : ∀ e ∈ pre, e.concludes = false)
      (hev : ev = pre ++ [.answered w.seqNum (responseRet s'.lastResponse)
        (w.copied s'.lastResponse), .returned w.call (w.result s'.lastResponse)])

theorem not_answered {ev : List Event} (h : ∀ e ∈ ev, e.concludes = false) (n ret : U32)
    (copied : Option (List Byte)) : Event.answered n ret copied ∉ ev := by
  intro hmem
  cases h _ hmem

theorem Stores.append {icap : Instance} {ev' : List Event} {stored : Option IcapRemoteMsg}
    (h : Stores s icap ev stored) (h' : storedMsgs ev' = []) :
    Stores s icap (ev ++ ev') stored := by
  cases stored with
  | none => exact ⟨h.1, by rw [storedMsgs_append, h.2, h']; rfl⟩
  | some m => exact ⟨h.1, h.2.1, by rw [storedMsgs_append, h.2.2.1, h']; rfl, h.2.2.2⟩

theorem Quiescent.of_sub {s s' : State} (h : Quiescent s)
    (hsub : ∀ a ∈ s'.stack, a ∈ s.stack ∨ ∃ w, a = .poll w ∨ a = .clock w) : Quiescent s' := by
  intro tailNext k hk
  rcases hsub _ hk with hk | ⟨w, hk | hk⟩
  · exact h tailNext k hk
  · cases hk
  · cases hk

/-- The outcome of an `icap_loop` that the rest `stack` of the stack called. -/
theorem LoopOutcome.waitStep {stack : List Activation} {stored : Option IcapRemoteMsg}
    (h : LoopOutcome s stack s' ev stored) (hq : Quiescent s)
    (hwaits : waits stack = waits s.stack) (hsub : ∀ a ∈ stack, a ∈ s.stack)
    (hpass : ∀ sendRet, i = .pass sendRet → stack = s.stack) :
    Quiescent s' ∧ Stores s s'.icap ev stored ∧ WaitStep s i s' ev stored := by
  cases h with
  | callback tailNext k hk hstack hstored hst hno =>
      refine ⟨?_, hst, .stay (by rw [hstack]; exact hwaits) (not_answered hno) (by simp [hstored])⟩
      intro t k' hk'
      rw [hstack] at hk'
      rcases List.mem_cons.mp hk' with heq | hmem
      · obtain ⟨rfl, rfl⟩ := Activation.loop.inj heq
        exact hk
      · exact hq t k' (hsub _ hmem)
  | ended icap ret ev₁ hst hno hs' hev =>
      rcases loopReturn_cases icap ret stack with
        ⟨w, rest, rfl, hseq, hret⟩ | ⟨w, rest, rfl, hseq, hret⟩ | ⟨hnot, hret⟩ <;>
        rw [hret] at hs' hev <;> subst hs' hev
      -- the three ways `icap_loop` returns: to a wait it answers, to one it does not, or to the
      -- program
      · refine ⟨hq.of_sub fun a ha => Or.inl (hsub _ (List.mem_cons_of_mem _ ha)),
          hst.append rfl, .answer w ev₁ hwaits.symm hseq hno rfl⟩
      · refine ⟨hq.of_sub fun a ha => ?_, hst.append rfl,
          .stay hwaits (not_answered (by simpa using hno)) ?_⟩
        · rcases List.mem_cons.mp ha with rfl | ha
          · exact Or.inr ⟨w, Or.inr rfl⟩
          · exact Or.inl (hsub _ (List.mem_cons_of_mem _ ha))
        · intro sendRet w' rest' hi hstack _
          have heq := (hpass sendRet hi).trans hstack
          obtain ⟨hw, -⟩ := List.cons.inj heq
          rw [← Activation.poll.inj hw]
          exact hseq
      · refine ⟨hq.of_sub fun a ha => Or.inl (hsub _ ha), hst.append rfl,
          .stay hwaits (not_answered ?_) ?_⟩
        · intro e he
          rcases List.mem_append.mp he with he | he
          · exact hno e he
          · rw [List.mem_singleton.mp he]
            rfl
        · intro sendRet w rest hi hstack _
          exact absurd ((hpass sendRet hi).trans hstack) (hnot w rest)

/-- A step that touches neither the stack nor the last response. -/
theorem waitStep_of_same {e : Event} (hq : Quiescent s) (hstack : s'.stack = s.stack)
    (hlast : s'.lastResponse = s.lastResponse) (he : e.response = none ∧ e.concludes = false)
    (hev : ev = [e]) : Quiescent s' ∧ Stores s s'.icap ev none ∧ WaitStep s i s' ev none := by
  have hidle : Idle ev := by rw [hev]; exact .cons he .nil
  exact ⟨hq.of_sub fun a ha => Or.inl (by rwa [hstack] at ha), ⟨hlast, hidle.storedMsgs⟩,
    .stay (by rw [hstack]) (not_answered hidle.concludes) (by simp)⟩

theorem icapPutMsg_last (Q : Nat) (icap : Instance) (msg : IcapRemoteMsg) :
    (icapPutMsg Q icap msg).1.transport.lastResponse = icap.transport.lastResponse := by
  rcases icapPutMsg_cases Q icap msg with ⟨-, h⟩ | ⟨-, h⟩ | ⟨-, -, h⟩ <;> rw [h]

theorem lifecycleResult_last {r : Instance × U32} (hr : lifecycleResult s.icap i = some r) :
    r.1.transport.lastResponse = s.lastResponse := by
  rcases lifecycleResult_cases hr with ⟨-, ht, -⟩ | ⟨-, ht, -⟩
  · rw [ht]
    rfl
  · rw [ht]

/-- The responses that a step stores are all that changes the last response. -/
theorem step_lastResponse (h : step Q s i = some (s', ev)) :
    s'.lastResponse = (storedMsgs ev).foldl storeResponse s.lastResponse := by
  have hloop (icap : Instance) (ret : U32) (stack : List Activation) (ev₁ : List Event)
      (hlast : icap.transport.lastResponse
        = (storedMsgs ev₁).foldl storeResponse s.lastResponse) :
      (loopReturn icap ret stack).1.lastResponse
        = (storedMsgs (ev₁ ++ (loopReturn icap ret stack).2)).foldl storeResponse
          s.lastResponse := by
    rw [storedMsgs_append, loopReturn_stored, List.append_nil, ← hlast]
    rcases loopReturn_cases icap ret stack with
      ⟨w, rest, rfl, -, h⟩ | ⟨w, rest, rfl, -, h⟩ | ⟨-, h⟩ <;> rw [h]
  cases step_cases h with
  | putMsg msg => exact icapPutMsg_last _ _ _
  | lifecycle r hr => exact lifecycleResult_last hr
  | refused | waits | notifies | polls | timesOut => rfl
  | loop sendRet | pass sendRet =>
      obtain ⟨icap₁, ev₁, -, hlast, ⟨tailNext, k, heq⟩ | ⟨ret, heq⟩⟩ :=
        icapLoop_stack (Q := Q) s.icap sendRet
      · rw [heq]
        exact hlast
      · rw [heq]
        exact hloop icap₁ ret s.stack ev₁ hlast
  | resumes r sendRet tailNext k rest =>
      obtain ⟨icap₁, ev₁, -, hlast, ⟨k', heq⟩ | ⟨ret, heq⟩⟩ :=
        loopParse_stack s.icap tailNext sendRet (k r)
      · rw [heq]
        exact hlast
      · rw [heq]
        exact hloop icap₁ ret rest ev₁ hlast

theorem run_lastResponse {ok : Trace Input Event → State → Input → Prop} {s₀ : State}
    {tr : Trace Input Event} (hrun : (machine Q).Run ok s₀ tr s) :
    s.lastResponse = (storedMsgs tr.events).foldl storeResponse s₀.lastResponse := by
  induction hrun with
  | start => rfl
  | @step tr s s' i ev _ _ hstep ih =>
      calc s'.lastResponse
          = (storedMsgs ev).foldl storeResponse s.lastResponse := step_lastResponse hstep
        _ = (storedMsgs tr.events ++ storedMsgs ev).foldl storeResponse s₀.lastResponse := by
            rw [List.foldl_append, ih]
        _ = (storedMsgs (Trace.events (tr ++ [(i, ev)]))).foldl storeResponse s₀.lastResponse := by
            rw [Trace.events_append, Trace.events_singleton, storedMsgs_append]

theorem step_waits (hq : Quiescent s) (h : step Q s i = some (s', ev)) :
    ∃ stored, Quiescent s' ∧ Stores s s'.icap ev stored ∧ WaitStep s i s' ev stored := by
  cases step_cases h with
  | putMsg msg => exact ⟨none, waitStep_of_same hq rfl (icapPutMsg_last _ _ _) ⟨rfl, rfl⟩ rfl⟩
  | lifecycle r hr => exact ⟨none, waitStep_of_same hq rfl (lifecycleResult_last hr) ⟨rfl, rfl⟩ rfl⟩
  | refused => exact ⟨none, hq, ⟨rfl, rfl⟩, .stay rfl (by simp) nofun⟩
  | waits c now sendRet uninit frame _ hreq hsync =>
      refine ⟨none, hq.of_sub fun a ha => ?_, ⟨rfl, rfl⟩,
        .begin c now sendRet uninit frame rfl hsync hreq rfl rfl rfl⟩
      rcases List.mem_cons.mp ha with rfl | ha
      · exact Or.inr ⟨_, Or.inl rfl⟩
      · exact Or.inl ha
  | notifies => exact ⟨none, hq, ⟨rfl, rfl⟩, .stay rfl (by simp [icapSendPlatform]) nofun⟩
  | loop sendRet =>
      obtain ⟨stored, hout⟩ := icapLoop_outcome (Q := Q) (s := s) sendRet s.stack
      exact ⟨stored, hout.waitStep hq rfl (fun _ ha => ha) nofun⟩
  | pass sendRet =>
      obtain ⟨stored, hout⟩ := icapLoop_outcome (Q := Q) (s := s) sendRet s.stack
      exact ⟨stored, hout.waitStep hq rfl (fun _ ha => ha) fun _ _ => rfl⟩
  | polls now w rest hstack =>
      refine ⟨none, hq.of_sub fun a ha => ?_, ⟨rfl, rfl⟩,
        .stay (by rw [hstack]; rfl) nofun nofun⟩
      rcases List.mem_cons.mp ha with rfl | ha
      · exact Or.inr ⟨w, Or.inl rfl⟩
      · exact Or.inl (by rw [hstack]; exact List.mem_cons_of_mem _ ha)
  | timesOut now w rest hstack =>
      refine ⟨none, hq.of_sub fun a ha => Or.inl ?_, ⟨rfl, rfl⟩,
        .timeout w (by rw [hstack]; rfl) rfl (by simp)⟩
      rw [hstack]
      exact List.mem_cons_of_mem _ ha
  -- the rest of a handler that has been in a callback stores no response
  | resumes r sendRet tailNext k rest hstack =>
      have hk : (k r).Silent := hq tailNext k (by rw [hstack]; exact List.mem_cons_self) r
      have hout := loopParse_outcome (s := s) tailNext sendRet rest hk rfl .nil
      rw [List.nil_append] at hout
      refine ⟨none, hout.waitStep hq (by rw [hstack]; rfl) (fun a ha => ?_) nofun⟩
      rw [hstack]
      exact List.mem_cons_of_mem _ ha

end

end Icap.BareMetal
