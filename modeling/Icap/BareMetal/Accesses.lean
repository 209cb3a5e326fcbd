import Icap.BareMetal.Buffers
import Icap.BareMetal.Inbox
import Icap.BareMetal.Interrupts

set_option autoImplicit false

/-! # The instance under interrupts

The machine of `BareMetal/Machine.lean` takes `icap_put_msg` and `icap_loop` up to a callback as one
step each. Here the receive interrupt comes between any two accesses to the fifo: `icap_put_msg`
makes the accesses of `Interrupts.Producer` and `icap_loop` those of `Interrupts.Consumer`, before
and after its call of `icap_parse_msg`, which reads no index and no slot. As long as `icap_loop` is
not re-entered, the interrupts make no difference: every run of accesses has a run of the machine
in which the program sees the same and each interrupt returns the same (`accesses_refine`), and
every run of the machine is a run of accesses (`machine_plays`).
-/

namespace Icap.BareMetal

open ByteMemory RingBuffer Transition

/-! ## The machine of accesses -/

/-- The program between two steps, or in `icap_loop`, before `icap_parse_msg` returns or a callback
runs, or after it has returned `ret`. -/
inductive Program where
  | stopped
  | entering (sendRet : U32) (c : Interrupts.Consumer)
  | leaving (ret : U32) (c : Interrupts.Consumer)

structure AccessState where
  icap : Instance
  stack : List Activation
  program : Program
  isr : Interrupts.Producer

inductive AccessInput where
  /-- The receive interrupt calls `icap_put_msg`. -/
  | interrupt (msg : IcapRemoteMsg)
  /-- The next access of `icap_put_msg`. -/
  | isr
  /-- The program goes on to its next access or its next step. -/
  | program (i : Input)
  /-- The next access of `icap_loop`. -/
  | access

abbrev AccessState.fifo (s : AccessState) : IcapMsgFifo := s.icap.transport.msgFifo

/-- What the accesses show. -/
def fifoEvent : Interrupts.Event → Option Event
  | .held msg => some (.put msg .hold)
  | .refused msg => some (.put msg .noBuff)
  | .parsed msg => some (.parsed msg)
  | .released addr => some (.released addr)
  | .empty => none
  | .consumed => none

/-- `icap_parse_msg` up to a callback or its return. -/
def goOn (s : AccessState) (tailNext : Nat) (sendRet : U32) (p : Parse U32) :
    AccessState × List Event :=
  let (t, ev, progress) := runParse sendRet s.icap.transport p
  let icap := { s.icap with transport := t }
  match progress with
  | .callback k =>
      ({ s with icap := icap, stack := .loop tailNext k :: s.stack, program := .stopped }, ev)
  | .done ret => ({ s with icap := icap, program := .leaving ret (.loadRelease tailNext) }, ev)

/-- `icap_loop` returns. -/
def leave (s : AccessState) (ret : U32) : AccessState × List Event :=
  let (s', ev) := loopReturn s.icap ret s.stack
  ({ s with icap := s'.icap, stack := s'.stack, program := .stopped }, ev)

/-- The program goes on from where it stopped; an init is not among its steps. -/
def programStep (Q : Nat) (s : AccessState) : Input → Option (AccessState × List Event)
  | .loop sendRet =>
      if programRuns s.stack then some ({ s with program := .entering sendRet .loadTail }, [])
      else none
  | .pass sendRet =>
      match s.stack with
      | .poll _ :: _ => some ({ s with program := .entering sendRet .loadTail }, [])
      | _ => none
  | .callbackRet r sendRet =>
      match s.stack with
      | .loop tailNext k :: rest => some (goOn { s with stack := rest } tailNext sendRet (k r))
      | _ => none
  | .call c now sendRet uninit =>
      (step Q ⟨s.icap, s.stack⟩ (.call c now sendRet uninit)).map fun (s', ev) =>
        ({ s with icap := s'.icap, stack := s'.stack }, ev)
  | .clock now =>
      (step Q ⟨s.icap, s.stack⟩ (.clock now)).map fun (s', ev) =>
        ({ s with icap := s'.icap, stack := s'.stack }, ev)
  | _ => none

def enteringStep (Q : Nat) (s : AccessState) (sendRet : U32) :
    Interrupts.Consumer → Option (AccessState × List Event)
  | .parsing tailNext msg =>
      let (icap, p) := icapParseMsg bareMetal s.icap msg.srcAddr msg.data.mem msg.size
      some (goOn { s with icap := icap } tailNext sendRet p)
  | .idle | .loadRelease _ | .storeTail _ => none
  | c =>
      (Interrupts.stepConsumer Q s.fifo c).map fun (_, c', ev) =>
        match c' with
        -- the fifo is empty
        | .idle => leave s 0
        | c' => ({ s with program := .entering sendRet c' }, ev.filterMap fifoEvent)

def leavingStep (Q : Nat) (s : AccessState) (ret : U32) (c : Interrupts.Consumer) :
    Option (AccessState × List Event) :=
  (Interrupts.stepConsumer Q s.fifo c).map fun (fifo, c', ev) =>
    match c' with
    | .idle => leave { s with icap := withFifo s.icap fifo } ret
    | c' => ({ s with program := .leaving ret c' }, ev.filterMap fifoEvent)

def accessStep (Q : Nat) (s : AccessState) : AccessInput → Option (AccessState × List Event)
  | .interrupt msg =>
      match s.isr with
      | .idle =>
          if s.icap.callbacks.isNone then
            some (s, [.put msg (.error (-ICAP_ERROR_INIT))])
          else
            some ({ s with isr := .loadHead msg }, [])
      | _ => none
  | .isr =>
      (Interrupts.stepProducer Q s.fifo s.isr).map fun (fifo, isr, ev) =>
        ({ s with icap := withFifo s.icap fifo, isr := isr }, ev.filterMap fifoEvent)
  | .program i =>
      match s.program with
      | .stopped => programStep Q s i
      | _ => none
  | .access =>
      match s.program with
      | .stopped => none
      | .entering sendRet c => enteringStep Q s sendRet c
      | .leaving ret c => leavingStep Q s ret c

def accessMachine (Q : Nat) : Machine AccessState AccessInput Event := ⟨accessStep Q⟩

/-- No `icap_loop` is entered while another one is in a callback. -/
def EntersOnce (_ : Trace AccessInput Event) (s : AccessState) : AccessInput → Prop
  | .program i => entersLoop i = true → loopTails s.stack = []
  | _ => True

/-! ## What does not depend on the fifo -/

section

variable {Q : Nat} (icap : Instance) (fifo : IcapMsgFifo)

@[simp] theorem withFifo_fifo : (withFifo icap fifo).transport.msgFifo = fifo := rfl

@[simp] theorem withFifo_withFifo (fifo' : IcapMsgFifo) :
    withFifo (withFifo icap fifo) fifo' = withFifo icap fifo' := rfl

@[simp] theorem withFifo_self : withFifo icap icap.transport.msgFifo = icap := rfl

theorem startCall_withFifo (c : ApiCall) (now sendRet : U32) (uninit : Mem)
    (stack : List Activation) :
    startCall (withFifo icap fifo) c now sendRet uninit stack
      = (⟨withFifo (startCall icap c now sendRet uninit stack).1.icap fifo,
          (startCall icap c now sendRet uninit stack).1.stack⟩,
        (startCall icap c now sendRet uninit stack).2) := by
  unfold startCall
  cases c.call with
  | done r => rfl
  | sendMsg cmd data sync wants k =>
      cases hpayload : icapSendMsgPayload data with
      | none => simp only [hpayload]
      | some payload =>
          simp only [hpayload]
          cases sync <;> rfl

theorem loopReturn_withFifo (ret : U32) (stack : List Activation) :
    loopReturn (withFifo icap fifo) ret stack
      = (⟨withFifo icap fifo, (loopReturn icap ret stack).1.stack⟩,
        (loopReturn icap ret stack).2) := by
  cases stack with
  | nil => rfl
  | cons a rest =>
      cases a with
      | poll w =>
          by_cases h : icap.transport.lastResponse.seqNum = w.seqNum
          · have h' : (withFifo icap fifo).transport.lastResponse.seqNum = w.seqNum := h
            rw [loopReturn_answered h, loopReturn_answered h']
            rfl
          · have h' : (withFifo icap fifo).transport.lastResponse.seqNum ≠ w.seqNum := h
            rw [loopReturn_waiting h, loopReturn_waiting h']
      | clock w => rfl
      | loop tailNext k => rfl

/-- Going on with a handler is the same whatever the fifo, up to the end of `icap_loop`. -/
theorem goOn_cases {s : AccessState} (h : s.icap = withFifo icap s.fifo) (tailNext : Nat)
    (sendRet : U32) (p : Parse U32) :
    ∃ t ev,
      (∃ k, goOn s tailNext sendRet p
          = ({ s with
              icap := withFifo { icap with transport := t } s.fifo
              stack := .loop tailNext k :: s.stack
              program := .stopped }, ev) ∧
        ∀ fifo stack, loopParse (withFifo icap fifo) tailNext sendRet stack p
          = (⟨withFifo { icap with transport := t } fifo, .loop tailNext k :: stack⟩, ev)) ∨
      ∃ ret, goOn s tailNext sendRet p
          = ({ s with
              icap := withFifo { icap with transport := t } s.fifo
              program := .leaving ret (.loadRelease tailNext) }, ev) ∧
        ∀ fifo stack, loopParse (withFifo icap fifo) tailNext sendRet stack p
          = ((loopEnd (withFifo { icap with transport := t } fifo) tailNext ret stack).1,
            ev ++ (loopEnd (withFifo { icap with transport := t } fifo) tailNext ret stack).2) := by
  rcases hrun : runParse sendRet icap.transport p with ⟨t, ev, progress⟩
  have hloop (fifo : IcapMsgFifo) : runParse sendRet (withFifo icap fifo).transport p
      = ({ t with msgFifo := fifo }, ev, progress) := by
    have h := runParse_withFifo sendRet icap.transport fifo p
    rw [hrun] at h
    exact h
  unfold goOn loopParse
  simp only [h, hloop]
  refine ⟨t, ev, ?_⟩
  cases progress with
  | callback k => exact Or.inl ⟨k, rfl, fun _ _ => rfl⟩
  | done ret => exact Or.inr ⟨ret, rfl, fun _ _ => rfl⟩

end

/-! ## The machine behind the accesses -/

/-- A slot is being written. -/
def Interrupts.Producer.writing : Interrupts.Producer → Bool
  | .storeSrcAddr _ _ => true
  | .storeSize _ _ => true
  | .storeHead _ _ => true
  | _ => false

/-- The message that has been read. -/
def Interrupts.Consumer.message : Interrupts.Consumer → List IcapRemoteMsg
  | .parsing _ msg => [msg]
  | _ => []

/-- The program goes on, other than with an init or deinit. -/
def Input.goesOn : Input → Bool
  | .call _ _ _ _ => true
  | .loop _ => true
  | .pass _ => true
  | .clock _ => true
  | .callbackRet _ _ => true
  | _ => false

theorem Input.goesOn_of_enters {i : Input} (h : entersLoop i = true) : i.goesOn = true := by
  cases i <;> first | rfl | cases h

theorem Input.goesOn_not_opens {i : Input} (h : i.goesOn = true) (s : State) :
    opensTransport s i = false := by
  cases i <;> first | rfl | cases h

/-- How far the machine is behind the program: it is where the program is, or the program is in an
`icap_loop` that the machine has not run. Then `early` is what the program has shown since and
`late` the input of the machine's next step. -/
inductive Behind (Q : Nat) (f : AccessState) (c : State) :
    Program → List Event → List Input → Prop
  | stopped (hicap : f.icap = withFifo c.icap f.fifo) (hstack : f.stack = c.stack) :
      Behind Q f c .stopped [] []
  | entering {sendRet : U32} {k : Interrupts.Consumer} {i : Input}
      (hicap : f.icap = withFifo c.icap f.fifo) (hstack : f.stack = c.stack)
      (hloops : loopTails c.stack = []) (hconsumer : Interrupts.ConsumerOk Q f.fifo k)
      (hi : entersLoop i = true)
      (hstep : ∀ fifo, step Q ⟨withFifo c.icap fifo, c.stack⟩ i
        = some (icapLoop Q (withFifo c.icap fifo) sendRet c.stack)) :
      Behind Q f c (.entering sendRet k) (k.message.map .parsed) [i]
  | leaving {ret : U32} {k : Interrupts.Consumer} {i : Input} {ev early : List Event}
      (hne : c.fifo.tail ≠ c.fifo.head)
      (hk : k = .loadRelease (next Q c.fifo.tail) ∧ early = ev ∨
        k = .storeTail (next Q c.fifo.tail) ∧
          early = ev ++ [.released (c.fifo.slot (next Q c.fifo.tail)).data.addr])
      (hi : entersLoop i = true → loopTails c.stack = []) (hgoes : i.goesOn = true)
      (hstep : ∀ fifo : IcapMsgFifo, fifo.tail = c.fifo.tail → fifo.tail ≠ fifo.head →
        fifo.slot (next Q c.fifo.tail) = c.fifo.slot (next Q c.fifo.tail) →
        step Q ⟨withFifo c.icap fifo, c.stack⟩ i
          = some ((loopEnd (withFifo f.icap fifo) (next Q c.fifo.tail) ret f.stack).1,
            ev ++ (loopEnd (withFifo f.icap fifo) (next Q c.fifo.tail) ret f.stack).2)) :
      Behind Q f c (.leaving ret k) early [i]

/-- The fifo is that of the machine but for a slot that is being written, and the program is ahead
of the machine by `early`. -/
structure Follows (Q : Nat) (f : AccessState) (c : State) (early : List Event)
    (late : List Input) : Prop where
  sound : Sound Q c
  opened : f.icap.callbacks ≠ none ∧ c.icap.callbacks ≠ none
  head : f.fifo.head = c.fifo.head
  tail : f.fifo.tail = c.fifo.tail
  slots : ∀ j, (f.isr.writing = true → j ≠ next Q c.fifo.head) → f.fifo.slot j = c.fifo.slot j
  producer : Interrupts.ProducerOk Q f.fifo f.isr
  behind : Behind Q f c f.program early late

section

variable {Q : Nat} {f f' : AccessState} {c : State} {early : List Event} {late : List Input}
  {fifo fifo' : IcapMsgFifo} {isr : Interrupts.Producer}

/-- An access of the interrupt leaves the oldest message. -/
theorem Behind.of_interrupt (h : Behind Q f c f.program early late)
    (htail : fifo.tail = f.fifo.tail) (hhead : f.fifo.tail ≠ f.fifo.head → fifo.tail ≠ fifo.head)
    (hslot : f.fifo.tail ≠ f.fifo.head →
      fifo.slot (next Q f.fifo.tail) = f.fifo.slot (next Q f.fifo.tail))
    (htail' : fifo'.tail = c.fifo.tail)
    (hhead' : c.fifo.tail ≠ c.fifo.head → fifo'.tail ≠ fifo'.head)
    (hslot' : c.fifo.tail ≠ c.fifo.head →
      fifo'.slot (next Q c.fifo.tail) = c.fifo.slot (next Q c.fifo.tail)) :
    Behind Q { f with icap := withFifo f.icap fifo, isr := isr } ⟨withFifo c.icap fifo', c.stack⟩
      f.program early late := by
  generalize hp : f.program = p at h
  cases h with
  | stopped hicap hstack =>
      refine .stopped ?_ hstack
      rw [hicap]
      rfl
  | entering hicap hstack hloops hconsumer hi hstep =>
      refine .entering ?_ hstack hloops (hconsumer.congr fifo htail hhead hslot).1 hi ?_
      · rw [hicap]
        rfl
      · simpa using hstep
  | @leaving ret k i ev _ hne hk hi hgoes hstep =>
      refine @Behind.leaving _ _ _ _ _ _ ev _ (hhead' hne) ?_ hi hgoes ?_
      · simp only [State.fifo, withFifo_fifo, htail', hslot' hne]
        exact hk
      · simp only [State.fifo, withFifo_fifo, withFifo_withFifo, htail', hslot' hne]
        exact hstep

/-- An access of the interrupt that the machine does not notice. -/
theorem Follows.interrupt_quiet (h : Follows Q f c early late)
    (hhead : fifo.head = f.fifo.head) (htail : fifo.tail = f.fifo.tail)
    (hslots : ∀ j, (isr.writing = true → j ≠ next Q c.fifo.head) →
      fifo.slot j = f.fifo.slot j ∧ (f.isr.writing = true → j ≠ next Q c.fifo.head))
    (hproducer : Interrupts.ProducerOk Q fifo isr) :
    Follows Q { f with icap := withFifo f.icap fifo, isr := isr } c early late where
  sound := h.sound
  opened := h.opened
  head := hhead.trans h.head
  tail := htail.trans h.tail
  slots := fun j hj => (hslots j hj).1.trans (h.slots j (hslots j hj).2)
  producer := hproducer
  behind := by
    have hne : f.fifo.tail ≠ f.fifo.head → next Q c.fifo.tail ≠ next Q c.fifo.head := by
      intro hne heq
      rw [h.tail, h.head] at hne
      exact hne (Ring.next_inj h.sound.valid.tail_lt h.sound.valid.head_lt heq)
    have hbehind := @Behind.of_interrupt _ _ _ _ _ fifo c.fifo isr h.behind htail
      (fun hf => by rwa [htail, hhead])
      (fun hf => (hslots _ fun _ => by rw [h.tail]; exact hne hf).1) rfl id fun _ => rfl
    simpa using hbehind

/-- The head is stored: the message is put. -/
theorem Follows.interrupt_hold (h : Follows Q f c early late) {msg : IcapRemoteMsg}
    (hisr : f.isr = .storeHead msg (next Q c.fifo.head)) :
    Follows Q
      { f with
        icap := withFifo f.icap { f.fifo with head := next Q c.fifo.head }
        isr := .idle }
      ⟨withFifo c.icap (c.fifo.push Q msg), c.stack⟩ early late := by
  have hproducer := h.producer
  rw [hisr] at hproducer
  obtain ⟨-, hroom, hslot⟩ := hproducer
  rw [h.tail] at hroom
  have hv := h.sound.valid
  have hwrite : ∀ j, f.fifo.slot j = (c.fifo.push Q msg).slot j := by
    intro j
    by_cases hj : j = next Q c.fifo.head
    · rw [hj, hslot]
      exact (Function.update_self (next Q c.fifo.head) msg c.fifo.slot).symm
    · rw [h.slots j fun _ => hj]
      exact (Function.update_of_ne hj msg c.fifo.slot).symm
  refine ⟨⟨hv.push msg, ?_⟩, h.opened, rfl, h.tail, fun j _ => hwrite j, trivial, ?_⟩
  · rcases h.sound.loops with hidle | ⟨hloops, -⟩
    · exact Or.inl hidle
    · exact Or.inr ⟨hloops, Ne.symm hroom⟩
  · refine h.behind.of_interrupt rfl (fun _ => ?_) (fun _ => rfl) rfl (fun _ => Ne.symm hroom) ?_
    · rw [h.tail]
      exact Ne.symm hroom
    · exact fun hne => hv.slot_write hne msg

/-- An access of `icap_put_msg`: the machine does not notice it, or puts or refuses the message. -/
theorem Follows.interrupt (hQ : Q < 2 ^ 16) (h : Follows Q f c early late) {ev : List Event}
    (hs : accessStep Q f .isr = some (f', ev)) :
    (ev = [] ∧ Follows Q f' c early late) ∨
      ∃ msg c', step Q c (.putMsg msg) = some (c', ev) ∧ Follows Q f' c' early late := by
  have hv := h.sound.valid
  have hnext : indexNext Q c.fifo.head = next Q c.fifo.head := indexNext_eq hQ hv.head_lt
  obtain ⟨⟨fifo, isr, evs⟩, hstep, heq⟩ := Option.map_eq_some_iff.mp hs
  obtain ⟨rfl, rfl⟩ := Prod.mk.inj heq
  have hproducer := h.producer
  -- before the first store the machine's fifo is the same, and then but for the slot written
  have hquiet : f.isr.writing = false → ∀ {p : Interrupts.Producer},
      Interrupts.ProducerOk Q f.fifo p →
      Follows Q { f with icap := withFifo f.icap f.fifo, isr := p } c early late := by
    intro hw p hok
    refine h.interrupt_quiet rfl rfl (fun j hj => ⟨rfl, fun hw' => ?_⟩) hok
    rw [hw] at hw'
    cases hw'
  have hwrite : ∀ {p : Interrupts.Producer} {hn : Nat}, hn = next Q f.fifo.head →
      ∀ m, p.writing = true → Interrupts.ProducerOk Q (f.fifo.write hn m) p →
      Follows Q { f with icap := withFifo f.icap (f.fifo.write hn m), isr := p } c early late := by
    intro p hn hhn m hw hok
    rw [h.head] at hhn
    refine h.interrupt_quiet rfl rfl (fun j hj => ⟨?_, fun _ => hj hw⟩) hok
    rw [hhn]
    exact Function.update_of_ne (hj hw) _ _
  cases hisr : f.isr with
  | idle =>
      rw [hisr] at hstep
      cases hstep
  | loadHead msg =>
      rw [hisr] at hstep
      obtain ⟨rfl, rfl, rfl⟩ : f.fifo = fifo ∧ _ = isr ∧ [] = evs := by
        simpa [Interrupts.stepProducer] using hstep
      refine Or.inl ⟨rfl, hquiet (by rw [hisr]; rfl) ?_⟩
      rw [← h.head] at hnext
      exact hnext
  | loadTail msg hn =>
      rw [hisr] at hstep hproducer
      by_cases hfull : hn = f.fifo.tail
      · obtain ⟨rfl, rfl, rfl⟩ : f.fifo = fifo ∧ _ = isr ∧ _ = evs := by
          simpa [Interrupts.stepProducer, hfull] using hstep
        refine Or.inr ⟨msg, c, ?_, hquiet (by rw [hisr]; rfl) trivial⟩
        have hfull' : indexNext Q c.fifo.head = c.fifo.tail := by
          rw [hnext, ← h.head, ← h.tail, ← hfull]
          exact hproducer.symm
        rcases icapPutMsg_cases Q c.icap msg with ⟨hcb, -⟩ | ⟨-, hput⟩ | ⟨-, hroom, -⟩
        · exact absurd hcb h.opened.2
        · simp only [step, hput]
          rfl
        · exact absurd hfull' hroom
      · obtain ⟨rfl, rfl, rfl⟩ : f.fifo = fifo ∧ _ = isr ∧ [] = evs := by
          simpa [Interrupts.stepProducer, hfull] using hstep
        exact Or.inl ⟨rfl, hquiet (by rw [hisr]; rfl) ⟨hproducer, hfull⟩⟩
  | storeData msg hn =>
      rw [hisr] at hstep hproducer
      obtain ⟨rfl, rfl, rfl⟩ : _ = fifo ∧ _ = isr ∧ [] = evs := by
        simpa [Interrupts.stepProducer] using hstep
      obtain ⟨hhn, hroom⟩ := hproducer
      refine Or.inl ⟨rfl, hwrite hhn _ rfl ⟨hhn, hroom, ?_⟩⟩
      simp only [Ring.write, Function.update_self]
  | storeSrcAddr msg hn =>
      rw [hisr] at hstep hproducer
      obtain ⟨rfl, rfl, rfl⟩ : _ = fifo ∧ _ = isr ∧ [] = evs := by
        simpa [Interrupts.stepProducer] using hstep
      obtain ⟨hhn, hroom, hdata⟩ := hproducer
      refine Or.inl ⟨rfl, hwrite hhn _ rfl ⟨hhn, hroom, ?_, ?_⟩⟩
      · simpa only [Ring.write, Function.update_self] using hdata
      · simp only [Ring.write, Function.update_self]
  | storeSize msg hn =>
      rw [hisr] at hstep hproducer
      obtain ⟨rfl, rfl, rfl⟩ : _ = fifo ∧ _ = isr ∧ [] = evs := by
        simpa [Interrupts.stepProducer] using hstep
      obtain ⟨hhn, hroom, hdata, hsrc⟩ := hproducer
      refine Or.inl ⟨rfl, hwrite hhn _ rfl ⟨hhn, hroom, ?_⟩⟩
      simp only [Ring.write, Function.update_self, hdata, hsrc]
  | storeHead msg hn =>
      rw [hisr] at hstep hproducer
      obtain ⟨rfl, rfl, rfl⟩ : _ = fifo ∧ _ = isr ∧ [Interrupts.Event.held msg] = evs := by
        simpa [Interrupts.stepProducer] using hstep
      obtain ⟨hhn, hroom, -⟩ := hproducer
      rw [h.head] at hhn
      refine Or.inr ⟨msg, _, ?_, by rw [hhn] at hisr ⊢; exact h.interrupt_hold hisr⟩
      have hroom' : indexNext Q c.fifo.head ≠ c.fifo.tail := by
        rw [hnext, ← hhn, ← h.tail]
        exact hroom
      rcases icapPutMsg_cases Q c.icap msg with ⟨hcb, -⟩ | ⟨hfull, -⟩ | ⟨-, -, hput⟩
      · exact absurd hcb h.opened.2
      · exact absurd hfull hroom'
      · simp only [step, hput, hnext]
        rfl

/-! ## The program -/

/-- What the program takes of an input. -/
def AccessInput.own : AccessInput → List Input
  | .program i => [i]
  | _ => []

def AccessInput.byInterrupt : AccessInput → Bool
  | .interrupt _ => true
  | .isr => true
  | _ => false

/-- What a step of the accesses is for the machine: nothing, the step the program is ahead by, or a
message put. -/
inductive Advances (Q : Nat) (f' : AccessState) (c : State) (early : List Event)
    (late : List Input) (i : AccessInput) (ev : List Event) : Prop
  | quiet (hi : i.byInterrupt = true → ev = []) (h : Follows Q f' c (early ++ ev) (late ++ i.own))
  | commit {c' : State} {j : Input} (hi : i.byInterrupt = false) (hj : late ++ i.own = [j])
      (hgoes : j.goesOn = true) (hloops : entersLoop j = true → loopTails c.stack = [])
      (hstep : step Q c j = some (c', early ++ ev)) (h : Follows Q f' c' [] [])
  | put {msg : IcapRemoteMsg} {c' : State} (hi : i.byInterrupt = true)
      (hstep : step Q c (.putMsg msg) = some (c', ev)) (h : Follows Q f' c' early late)

theorem Follows.stopped (h : Follows Q f c early late) (hp : f.program = .stopped) :
    early = [] ∧ late = [] ∧ f.icap = withFifo c.icap f.fifo ∧ f.stack = c.stack := by
  have hb := h.behind
  rw [hp] at hb
  cases hb with
  | stopped hicap hstack => exact ⟨rfl, rfl, hicap, hstack⟩

/-- The oldest message is not being written. -/
theorem Follows.oldest (h : Follows Q f c early late) (hne : c.fifo.tail ≠ c.fifo.head) :
    f.fifo.slot (next Q c.fifo.tail) = c.fifo.slot (next Q c.fifo.tail) := by
  refine h.slots _ fun _ heq => ?_
  exact hne (Ring.next_inj h.sound.valid.tail_lt h.sound.valid.head_lt heq)

/-- The program goes on, and the machine does not notice it. -/
theorem Follows.ahead (h : Follows Q f c early late) {early' : List Event} {late' : List Input}
    (hfifo : f'.fifo = f.fifo) (hisr : f'.isr = f.isr) (hcb : f'.icap.callbacks ≠ none)
    (hb : Behind Q f' c f'.program early' late') : Follows Q f' c early' late' where
  sound := h.sound
  opened := ⟨hcb, h.opened.2⟩
  head := by rw [hfifo]; exact h.head
  tail := by rw [hfifo]; exact h.tail
  slots := by rw [hfifo, hisr]; exact h.slots
  producer := by rw [hfifo, hisr]; exact h.producer
  behind := hb

/-- The program stops, and the machine makes its step; `n` is the tail of both. -/
theorem Follows.commit (hQ : Q < 2 ^ 16) (h : Follows Q f c early late) {i : Input}
    {icap : Instance} {stack : List Activation} {n : Nat} {ev : List Event}
    (hcb : icap.callbacks ≠ none)
    (hstep : step Q c i = some (⟨withFifo icap { c.fifo with tail := n }, stack⟩, ev))
    (hi : entersLoop i = true → loopTails c.stack = []) (hgoes : i.goesOn = true)
    (hproducer : Interrupts.ProducerOk Q { f.fifo with tail := n } f.isr) :
    Follows Q
      { f with
        icap := withFifo icap { f.fifo with tail := n }
        stack := stack
        program := .stopped }
      ⟨withFifo icap { c.fifo with tail := n }, stack⟩ [] [] where
  sound := (h.sound.of_step hQ hi (by rw [i.goesOn_not_opens hgoes]; exact nofun) hstep).1
  opened := ⟨hcb, hcb⟩
  head := h.head
  tail := rfl
  slots := h.slots
  producer := hproducer
  behind := .stopped rfl rfl

/-- The same where the tail stays. -/
theorem Follows.commit_same (hQ : Q < 2 ^ 16) (h : Follows Q f c early late) {i : Input}
    {icap : Instance} {stack : List Activation} {ev : List Event} (hcb : icap.callbacks ≠ none)
    (hstep : step Q c i = some (⟨withFifo icap c.fifo, stack⟩, ev))
    (hi : entersLoop i = true → loopTails c.stack = []) (hgoes : i.goesOn = true) :
    Follows Q { f with icap := withFifo icap f.fifo, stack := stack, program := .stopped }
      ⟨withFifo icap c.fifo, stack⟩ [] [] := by
  have hfifo : ({ f.fifo with tail := c.fifo.tail } : IcapMsgFifo) = f.fifo := by rw [← h.tail]
  have hp : Interrupts.ProducerOk Q { f.fifo with tail := c.fifo.tail } f.isr := by
    rw [hfifo]
    exact h.producer
  have hcommit := h.commit hQ hcb hstep hi hgoes hp
  rw [hfifo] at hcommit
  exact hcommit

/-- The program goes on with `icap_parse_msg`. -/
theorem Follows.parse (hQ : Q < 2 ^ 16) (h : Follows Q f c early late) {i : Input}
    {icap : Instance} {stack : List Activation} {sendRet : U32} {p : Parse U32} {ev : List Event}
    (hcb : icap.callbacks ≠ none) (hne : c.fifo.tail ≠ c.fifo.head)
    (hi : entersLoop i = true → loopTails c.stack = []) (hgoes : i.goesOn = true)
    (hstep : ∀ fifo : IcapMsgFifo, fifo.tail = c.fifo.tail → fifo.tail ≠ fifo.head →
      fifo.slot (next Q c.fifo.tail) = c.fifo.slot (next Q c.fifo.tail) →
      step Q ⟨withFifo c.icap fifo, c.stack⟩ i
        = some ((loopParse (withFifo icap fifo) (next Q c.fifo.tail) sendRet stack p).1,
          early ++ (loopParse (withFifo icap fifo) (next Q c.fifo.tail) sendRet stack p).2))
    (hs : goOn { f with icap := withFifo icap f.fifo, stack := stack } (next Q c.fifo.tail)
      sendRet p = (f', ev)) :
    Follows Q f' c (early ++ ev) [i] ∨
      ∃ c', step Q c i = some (c', early ++ ev) ∧ Follows Q f' c' [] [] := by
  obtain ⟨t, ev', ⟨k, hgo, hloop⟩ | ⟨ret, hgo, hloop⟩⟩ :=
    goOn_cases icap (s := { f with icap := withFifo icap f.fifo, stack := stack }) rfl
      (next Q c.fifo.tail) sendRet p
  all_goals
    rw [hgo] at hs
    obtain ⟨rfl, rfl⟩ := Prod.mk.inj hs
  -- in a callback the machine stops as well
  · have hc := hstep c.fifo rfl hne rfl
    rw [hloop] at hc
    exact Or.inr ⟨_, hc, h.commit_same hQ hcb hc hi hgoes⟩
  · refine Or.inl (h.ahead rfl rfl hcb ?_)
    refine @Behind.leaving _ _ _ _ _ _ (early ++ ev') _ hne (Or.inl ⟨rfl, rfl⟩) hi hgoes ?_
    intro fifo htail hne' hslot
    rw [hstep fifo htail hne' hslot, hloop, List.append_assoc]
    rfl

/-- The program enters `icap_loop`. -/
theorem Follows.enter (h : Follows Q f c early late) {i : Input} {sendRet : U32}
    (hp : f.program = .stopped) (hok : entersLoop i = true → loopTails f.stack = [])
    (hi : entersLoop i = true)
    (hstep : ∀ fifo, step Q ⟨withFifo c.icap fifo, c.stack⟩ i
      = some (icapLoop Q (withFifo c.icap fifo) sendRet c.stack)) :
    Advances Q { f with program := .entering sendRet .loadTail } c early late (.program i) [] := by
  obtain ⟨rfl, rfl, hicap, hstack⟩ := h.stopped hp
  have hloops := hok hi
  rw [hstack] at hloops
  exact .quiet nofun (h.ahead rfl rfl h.opened.1 (.entering hicap hstack hloops trivial hi hstep))

/-- A step that does not look at the fifo. -/
theorem Follows.apart (hQ : Q < 2 ^ 16) (h : Follows Q f c early late) {i : Input}
    {ev : List Event} (hp : f.program = .stopped)
    (hs : ((step Q ⟨f.icap, f.stack⟩ i).map fun (s', ev) =>
      ({ f with icap := s'.icap, stack := s'.stack }, ev)) = some (f', ev))
    (hi : entersLoop i = false) (hgoes : i.goesOn = true)
    (hcb : ∀ {s' ev}, step Q c i = some (s', ev) → s'.icap.callbacks = c.icap.callbacks)
    (hfifo : ∀ fifo, step Q ⟨withFifo c.icap fifo, c.stack⟩ i
      = (step Q c i).map fun (s', ev) => (⟨withFifo s'.icap fifo, s'.stack⟩, ev)) :
    Advances Q f' c early late (.program i) ev := by
  obtain ⟨rfl, rfl, hicap, hstack⟩ := h.stopped hp
  rw [hicap, hstack, hfifo] at hs
  cases hc : step Q c i with
  | none =>
      rw [hc] at hs
      cases hs
  | some r =>
      obtain ⟨s', ev'⟩ := r
      rw [hc] at hs
      obtain ⟨rfl, rfl⟩ := Prod.mk.inj (Option.some.inj hs)
      have hnot : entersLoop i = true → loopTails c.stack = [] := by
        rw [hi]
        exact nofun
      -- the fifo of the machine is not touched either
      have hc' : step Q c i = some (⟨withFifo s'.icap c.fifo, s'.stack⟩, ev') := by
        have hsame := hfifo c.fifo
        rwa [hc] at hsame
      have hcommit := h.commit_same hQ (hcb hc ▸ h.opened.2) hc' hnot hgoes
      rw [← hp] at hcommit
      exact .commit rfl rfl hgoes hnot hc' hcommit

theorem startCall_callbacks (icap : Instance) (cl : ApiCall) (now sendRet : U32) (uninit : Mem)
    (stack : List Activation) :
    (startCall icap cl now sendRet uninit stack).1.icap.callbacks = icap.callbacks := by
  rcases startCall_cases icap cl now sendRet uninit stack with
    ⟨-, hs⟩ | ⟨frame, -, ⟨-, hs⟩ | ⟨-, hs⟩⟩ <;> rw [hs]

theorem Follows.program (hQ : Q < 2 ^ 16) (h : Follows Q f c early late) {i : Input}
    {ev : List Event} (hp : f.program = .stopped)
    (hok : entersLoop i = true → loopTails f.stack = []) (hs : programStep Q f i = some (f', ev)) :
    Advances Q f' c early late (.program i) ev := by
  obtain ⟨he, hl, hicap, hstack⟩ := h.stopped hp
  cases i with
  | loop sendRet =>
      simp only [programStep] at hs
      split_ifs at hs with hruns
      obtain ⟨rfl, rfl⟩ := Prod.mk.inj (Option.some.inj hs)
      rw [hstack] at hruns
      exact h.enter hp hok rfl fun fifo => if_pos hruns
  | pass sendRet =>
      simp only [programStep] at hs
      split at hs
      · rename_i w rest htop
        obtain ⟨rfl, rfl⟩ := Prod.mk.inj (Option.some.inj hs)
        rw [hstack] at htop
        refine h.enter hp hok rfl fun fifo => ?_
        simp only [step, htop]
      · cases hs
  | callbackRet r sendRet =>
      simp only [programStep] at hs
      split at hs
      · rename_i tailNext k rest htop
        rw [hstack] at htop
        -- the `icap_loop` that goes on handles the oldest message
        obtain ⟨htn, hne⟩ : tailNext = next Q c.fifo.tail ∧ c.fifo.tail ≠ c.fifo.head := by
          rcases h.sound.loops with hidle | ⟨htails, hne⟩
          · rw [htop] at hidle
            cases hidle
          · rw [htop] at htails
            exact ⟨(List.cons.inj htails).1, hne⟩
        subst htn he hl
        have hnot {p : Prop} (h : false = true) : p := absurd h Bool.false_ne_true
        rw [hicap] at hs
        have hparse := h.parse (i := .callbackRet r sendRet) hQ h.opened.2 hne hnot rfl
          (fun fifo _ _ _ => by simp only [step, htop, List.nil_append]) (Option.some.inj hs)
        rcases hparse with hf | ⟨c', hc, hf⟩
        · exact .quiet hnot hf
        · exact .commit rfl rfl rfl hnot hc hf
      · cases hs
  | call cl now sendRet uninit =>
      refine h.apart hQ hp hs rfl rfl (fun {s' ev'} hc => ?_) fun fifo => ?_
      · simp only [step] at hc
        split_ifs at hc with hruns
        have hcb := startCall_callbacks c.icap cl now sendRet uninit c.stack
        rwa [Option.some.inj hc] at hcb
      · simp only [step]
        split_ifs with hruns
        · rw [startCall_withFifo]
          rfl
        · rfl
  | clock now =>
      refine h.apart hQ hp hs rfl rfl (fun {s' ev'} hc => ?_) fun fifo => ?_
      · cases step_cases hc with
        | lifecycle r hr => cases hr
        | polls | timesOut => rfl
      · simp only [step]
        split
        · split_ifs with htime <;> rfl
        · rfl
  | _ => cases hs

/-! ## The accesses of `icap_loop` -/

/-- An access before `icap_parse_msg` is called, where `icap_loop` goes on. -/
theorem Follows.reads (h : Follows Q f c early late) {sendRet : U32} {k k' : Interrupts.Consumer}
    {ev : List Event} (hp : f.program = .entering sendRet k)
    (hk : Interrupts.ConsumerOk Q f.fifo k')
    (hmessage : k.message.map Event.parsed ++ ev = k'.message.map .parsed) :
    Advances Q { f with program := .entering sendRet k' } c early late .access ev := by
  have hb := h.behind
  rw [hp] at hb
  cases hb with
  | entering hicap hstack hloops _ hi hstep =>
      refine .quiet nofun (h.ahead rfl rfl h.opened.1 ?_)
      rw [hmessage]
      exact .entering hicap hstack hloops hk hi hstep

/-- `icap_loop` finds the fifo empty, and returns. -/
theorem Follows.finds_empty (hQ : Q < 2 ^ 16) (h : Follows Q f c early late) {sendRet : U32}
    (hp : f.program = .entering sendRet (.loadHead f.fifo.head)) :
    Advances Q (leave f 0).1 c early late .access (leave f 0).2 := by
  have hb := h.behind
  rw [hp] at hb
  cases hb with
  | @entering _ _ i hicap hstack hloops hconsumer hi hstep =>
      have hempty : c.fifo.tail = c.fifo.head := by
        rw [← h.head, ← h.tail]
        exact (show f.fifo.head = f.fifo.tail from hconsumer).symm
      have hc : step Q c i = some (⟨withFifo c.icap c.fifo, (loopReturn c.icap 0 c.stack).1.stack⟩,
          (loopReturn c.icap 0 c.stack).2) := by
        have hloop : icapLoop Q c.icap sendRet c.stack = loopReturn c.icap 0 c.stack :=
          icapLoop_empty hempty
        rw [← loopReturn_withFifo]
        exact (hstep c.fifo).trans (congrArg some hloop)
      have hcommit := h.commit_same hQ h.opened.2 hc (fun _ => hloops) (i.goesOn_of_enters hi)
      have hleave : leave f 0 = ({ f with
          icap := withFifo c.icap f.fifo
          stack := (loopReturn c.icap 0 c.stack).1.stack
          program := .stopped }, (loopReturn c.icap 0 c.stack).2) := by
        simp only [leave]
        rw [hicap, hstack, loopReturn_withFifo]
      rw [hleave]
      exact .commit rfl rfl (i.goesOn_of_enters hi) (fun _ => hloops) hc hcommit

theorem enteringStep_parsing (Q : Nat) (s : AccessState) (sendRet : U32) (tailNext : Nat)
    (msg : IcapRemoteMsg) :
    enteringStep Q s sendRet (.parsing tailNext msg)
      = some (goOn
          { s with icap := (icapParseMsg bareMetal s.icap msg.srcAddr msg.data.mem msg.size).1 }
          tailNext sendRet (icapParseMsg bareMetal s.icap msg.srcAddr msg.data.mem msg.size).2) :=
  rfl

/-- `icap_loop` calls `icap_parse_msg` with the message it has read. -/
theorem Follows.parses (hQ : Q < 2 ^ 16) (h : Follows Q f c early late) {sendRet : U32}
    {tn : Nat} {msg : IcapRemoteMsg} {ev : List Event}
    (hp : f.program = .entering sendRet (.parsing tn msg))
    (hs : enteringStep Q f sendRet (.parsing tn msg) = some (f', ev)) :
    Advances Q f' c early late .access ev := by
  have hb := h.behind
  rw [hp] at hb
  cases hb with
  | @entering _ _ i hicap hstack hloops hok hi hstep =>
      obtain ⟨hne, htn, hmsg⟩ := hok
      rw [h.tail] at hne htn
      rw [h.head] at hne
      rw [htn, h.oldest hne] at hmsg
      subst htn
      have hnext : indexNext Q c.fifo.tail = next Q c.fifo.tail :=
        indexNext_eq hQ h.sound.valid.tail_lt
      rcases hparse : icapParseMsg bareMetal c.icap msg.srcAddr msg.data.mem msg.size with ⟨icap, p⟩
      have hwith (fifo : IcapMsgFifo) :
          icapParseMsg bareMetal (withFifo c.icap fifo) msg.srcAddr msg.data.mem msg.size
            = (withFifo icap fifo, p) := by
        rw [icapParseMsg_withFifo, hparse]
      have hcb : icap.callbacks ≠ none := by
        obtain ⟨a, ha⟩ := icapParseMsg_eq c.icap msg.srcAddr msg.data.mem msg.size
        rw [hparse] at ha
        rw [show icap = _ from ha]
        exact h.opened.2
      rw [enteringStep_parsing, hicap, hwith] at hs
      have hpar := h.parse hQ hcb hne (fun _ => hloops) (i.goesOn_of_enters hi)
        (fun fifo htail hne' hslot => ?_) (Option.some.inj hs)
      · rcases hpar with hf | ⟨c', hc, hf⟩
        · exact .quiet nofun hf
        · exact .commit rfl rfl (i.goesOn_of_enters hi) (fun _ => hloops) hc hf
      · have hmsg' : msg = fifo.slot (indexNext Q fifo.tail) := by rw [htail, hnext, hslot, hmsg]
        rw [hstep, hstack, icapLoop_parse hne' hmsg' (hwith fifo), withFifo_fifo, htail, hnext]
        rfl

theorem Follows.entering (hQ : Q < 2 ^ 16) (h : Follows Q f c early late) {sendRet : U32}
    {k : Interrupts.Consumer} {ev : List Event} (hp : f.program = .entering sendRet k)
    (hs : enteringStep Q f sendRet k = some (f', ev)) : Advances Q f' c early late .access ev := by
  have hb := h.behind
  rw [hp] at hb
  have hv : Ring.Valid Q f.fifo := ⟨by rw [h.head]; exact h.sound.valid.head_lt,
    by rw [h.tail]; exact h.sound.valid.tail_lt⟩
  cases hb with
  | @entering _ _ i hicap hstack hloops hok hi hstep =>
      cases k with
      | idle => cases hs
      | loadTail =>
          obtain ⟨rfl, rfl⟩ := Prod.mk.inj (Option.some.inj hs)
          exact h.reads hp rfl rfl
      | loadHead tail =>
          by_cases hempty : tail = f.fifo.head
          · have hl : leave f 0 = (f', ev) := by
              simpa [enteringStep, Interrupts.stepConsumer, hempty] using hs
            rw [hempty] at hp
            have hfinds := h.finds_empty hQ hp
            rw [hl] at hfinds
            exact hfinds
          · obtain ⟨rfl, rfl⟩ : _ = f' ∧ [] = ev := by
              simpa [enteringStep, Interrupts.stepConsumer, hempty] using hs
            have htail : tail = f.fifo.tail := hok
            exact h.reads hp (by rwa [htail] at hempty) rfl
      | loadTailNext =>
          obtain ⟨rfl, rfl⟩ := Prod.mk.inj (Option.some.inj hs)
          exact h.reads hp ⟨hok, indexNext_eq hQ hv.tail_lt⟩ rfl
      | loadSrcAddr tn =>
          obtain ⟨rfl, rfl⟩ := Prod.mk.inj (Option.some.inj hs)
          exact h.reads hp ⟨hok.1, hok.2, rfl⟩ rfl
      | loadData tn srcAddr =>
          obtain ⟨rfl, rfl⟩ := Prod.mk.inj (Option.some.inj hs)
          exact h.reads hp ⟨hok.1, hok.2.1, hok.2.2, rfl⟩ rfl
      | loadSize tn srcAddr data =>
          obtain ⟨rfl, rfl⟩ := Prod.mk.inj (Option.some.inj hs)
          obtain ⟨hne, htn, rfl, rfl⟩ := hok
          exact h.reads hp ⟨hne, htn, rfl⟩ rfl
      | parsing tn msg => exact h.parses hQ hp hs
      | loadRelease tn | storeTail tn => cases hs

/-- The store of the tail gives back a slot that is not being written. -/
theorem Follows.producer_tail (h : Follows Q f c early late) (hne : c.fifo.tail ≠ c.fifo.head) :
    Interrupts.ProducerOk Q { f.fifo with tail := next Q c.fifo.tail } f.isr := by
  have hother : next Q f.fifo.head ≠ next Q c.fifo.tail := by
    rw [h.head]
    intro heq
    exact hne (Ring.next_inj h.sound.valid.head_lt h.sound.valid.tail_lt heq).symm
  have hp := h.producer
  revert hp
  cases f.isr with
  | idle => exact id
  | loadHead msg => exact id
  | loadTail msg hn => exact id
  | storeData msg hn =>
      rintro ⟨rfl, -⟩
      exact ⟨rfl, hother⟩
  | storeSrcAddr msg hn | storeSize msg hn | storeHead msg hn =>
      rintro ⟨rfl, -, hrest⟩
      exact ⟨rfl, hother, hrest⟩

theorem Follows.leaving (hQ : Q < 2 ^ 16) (h : Follows Q f c early late) {ret : U32}
    {k : Interrupts.Consumer} {ev : List Event} (hp : f.program = .leaving ret k)
    (hs : leavingStep Q f ret k = some (f', ev)) : Advances Q f' c early late .access ev := by
  have hb := h.behind
  rw [hp] at hb
  cases hb with
  | @leaving _ _ i ev' _ hne hk hi hgoes hstep =>
      rcases hk with ⟨rfl, rfl⟩ | ⟨rfl, rfl⟩
      · obtain ⟨rfl, rfl⟩ := Prod.mk.inj (Option.some.inj hs)
        refine .quiet nofun (h.ahead rfl rfl h.opened.1 ?_)
        refine .leaving hne (Or.inr ⟨rfl, ?_⟩) hi hgoes hstep
        rw [← h.oldest hne]
        rfl
      -- the tail is stored, and both return to the caller of `icap_loop`
      · have hreturn (fifo : IcapMsgFifo) := loopReturn_withFifo f.icap fifo ret f.stack
        have hf := Option.some.inj hs
        simp only [leave, hreturn] at hf
        obtain ⟨rfl, rfl⟩ := Prod.mk.inj hf
        have hc : step Q c i = some (⟨withFifo f.icap { c.fifo with tail := next Q c.fifo.tail },
            (loopReturn f.icap ret f.stack).1.stack⟩,
            ev' ++ [.released (c.fifo.slot (next Q c.fifo.tail)).data.addr]
              ++ (loopReturn f.icap ret f.stack).2) := by
          have hs' := hstep c.fifo rfl hne rfl
          have hend : loopReturn (setTail (withFifo f.icap c.fifo) (next Q c.fifo.tail)) ret f.stack
              = _ := hreturn { c.fifo with tail := next Q c.fifo.tail }
          simp only [loopEnd, hend] at hs'
          rw [List.append_assoc]
          exact hs'
        exact .commit rfl rfl hgoes hi hc
          (h.commit hQ h.opened.1 hc hi hgoes (h.producer_tail hne))

/-! ## Runs -/

theorem Follows.of_step (hQ : Q < 2 ^ 16) (h : Follows Q f c early late) {i : AccessInput}
    {tr : Trace AccessInput Event} {ev : List Event} (hok : EntersOnce tr f i)
    (hs : accessStep Q f i = some (f', ev)) : Advances Q f' c early late i ev := by
  cases i with
  | interrupt msg =>
      simp only [accessStep] at hs
      split at hs
      · rename_i hidle
        rw [if_neg (by simpa using h.opened.1)] at hs
        obtain ⟨rfl, rfl⟩ := Prod.mk.inj (Option.some.inj hs)
        refine .quiet (fun _ => rfl) ?_
        have hf := @Follows.interrupt_quiet _ _ _ _ _ f.fifo (.loadHead msg) h rfl rfl
          (fun j _ => ⟨rfl, fun hw => ?_⟩) trivial
        · simpa [AccessInput.own] using hf
        · rw [hidle] at hw
          cases hw
      · cases hs
  | isr =>
      rcases h.interrupt hQ hs with ⟨rfl, hf⟩ | ⟨msg, c', hc, hf⟩
      · refine .quiet (fun _ => rfl) ?_
        simpa [AccessInput.own] using hf
      · exact .put rfl hc hf
  | program i =>
      simp only [accessStep] at hs
      split at hs
      · rename_i hp
        exact h.program hQ hp hok hs
      · cases hs
  | access =>
      simp only [accessStep] at hs
      split at hs
      · cases hs
      · rename_i sendRet k hp
        exact h.entering hQ hp hs
      · rename_i ret k hp
        exact h.leaving hQ hp hs

/-- The queue is that of the machine. -/
theorem Follows.contents (h : Follows Q f c early late) :
    f.fifo.contents Q = c.fifo.contents Q := by
  have hcount : f.fifo.count Q = c.fifo.count Q := by
    rw [Ring.count, Ring.count, h.head, h.tail]
  rw [Ring.contents, Ring.contents, hcount, h.tail]
  apply List.map_congr_left
  intro i hi
  exact h.slots _ fun _ => h.sound.valid.index_ne (List.mem_range.mp hi)

theorem Follows.late_le (h : Follows Q f c early late) : late.length ≤ 1 := by
  have hb := h.behind
  generalize f.program = p at hb
  cases hb with
  | stopped => exact Nat.zero_le 1
  | entering => exact Nat.le_refl 1
  | leaving => exact Nat.le_refl 1

end

/-- The events of the inputs that satisfy `p`. -/
def shown {ι : Type} (p : ι → Bool) (tr : Trace ι Event) : List Event :=
  Trace.events (tr.filter fun x => p x.1)

@[simp] theorem shown_snoc {ι : Type} (p : ι → Bool) (tr : Trace ι Event) (i : ι)
    (ev : List Event) :
    shown p (tr ++ [(i, ev)]) = shown p tr ++ if p i = true then ev else [] := by
  cases h : p i <;> simp [shown, List.filter_append, h]

/-- A run of accesses, and the run of the machine that it follows. -/
structure Mirrors (Q : Nat) (tr : Trace AccessInput Event) (f : AccessState)
    (tr' : Trace Input Event) (c : State) (early : List Event) (late : List Input) : Prop where
  follows : Follows Q f c early late
  interrupts : shown AccessInput.byInterrupt tr = shown (fun i => !i.goesOn) tr'
  program : shown (fun i => !i.byInterrupt) tr = shown Input.goesOn tr' ++ early
  inputs : tr.inputs.flatMap AccessInput.own = tr'.inputs.filter Input.goesOn ++ late

section

variable {Q : Nat} {tr : Trace AccessInput Event} {tr' : Trace Input Event} {f f' : AccessState}
  {c : State} {early : List Event} {late : List Input}

theorem Mirrors.of_step (hQ : Q < 2 ^ 16) (h : Mirrors Q tr f tr' c early late) {i : AccessInput}
    {ev : List Event} (hok : EntersOnce tr f i) (hs : accessStep Q f i = some (f', ev)) :
    Mirrors Q (tr ++ [(i, ev)]) f' tr' c (early ++ ev) (late ++ i.own) ∨
      ∃ j c' ev' early' late', NoReentry tr' c j ∧ step Q c j = some (c', ev') ∧
        Mirrors Q (tr ++ [(i, ev)]) f' (tr' ++ [(j, ev')]) c' early' late' := by
  have hown : (Trace.inputs (tr ++ [(i, ev)])).flatMap AccessInput.own
      = tr'.inputs.filter Input.goesOn ++ (late ++ i.own) := by
    rw [Trace.inputs_append, List.flatMap_append, h.inputs, List.append_assoc]
    simp [Trace.inputs]
  cases h.follows.of_step hQ hok hs with
  | quiet hi hf =>
      refine Or.inl ⟨hf, ?_, ?_, hown⟩
      · cases hb : i.byInterrupt with
        | false => simp [hb, h.interrupts]
        | true => simp [hi hb, h.interrupts]
      · cases hb : i.byInterrupt with
        | false => simp [hb, h.program]
        | true => simp [hi hb, h.program]
  | @commit c' j hi hj hgoes hloops hstep hf =>
      refine Or.inr ⟨j, c', _, [], [], hloops, hstep, hf, ?_, ?_, ?_⟩
      · simp [hi, hgoes, h.interrupts]
      · simp [hi, hgoes, h.program]
      · rw [hown, hj, Trace.inputs_append, List.filter_append, List.append_nil]
        simp [Trace.inputs, hgoes]
  | @put msg c' hi hstep hf =>
      have hnone : i.own = [] := by
        cases i <;> first | rfl | cases hi
      refine Or.inr ⟨.putMsg msg, c', ev, early, late,
        fun he => absurd he Bool.false_ne_true, hstep, hf, ?_, ?_, ?_⟩
      · simp [hi, Input.goesOn, h.interrupts]
      · simp [hi, Input.goesOn, h.program]
      · rw [hown, hnone, List.append_nil, Trace.inputs_append, List.filter_append]
        simp [Trace.inputs, Input.goesOn]

/-- **The interrupts make no difference.** Every run of accesses in which no `icap_loop` is
re-entered has a run of the machine that is behind by at most one step of the program: the
interrupts return the same, the program does and sees the same, and the same messages wait. Where
the program has stopped, the machine is in the same place. -/
theorem accesses_refine (hQ : Q < 2 ^ 16) {f₀ : AccessState} (hvalid : Ring.Valid Q f₀.fifo)
    (hloops : loopTails f₀.stack = []) (hinit : f₀.icap.callbacks ≠ none)
    (hprogram : f₀.program = .stopped) (hisr : f₀.isr = .idle)
    (hrun : (accessMachine Q).Run EntersOnce f₀ tr f) :
    ∃ tr' c early late, (machine Q).Run NoReentry ⟨f₀.icap, f₀.stack⟩ tr' c ∧
      shown AccessInput.byInterrupt tr = shown (fun i => !i.goesOn) tr' ∧
      shown (fun i => !i.byInterrupt) tr = shown Input.goesOn tr' ++ early ∧
      tr.inputs.flatMap AccessInput.own = tr'.inputs.filter Input.goesOn ++ late ∧
      late.length ≤ 1 ∧ f.fifo.contents Q = c.fifo.contents Q ∧
      (f.program = .stopped → early = [] ∧ late = [] ∧ f.stack = c.stack ∧
        f.icap = withFifo c.icap f.fifo) := by
  have hmirrors : ∃ tr' c early late, (machine Q).Run NoReentry ⟨f₀.icap, f₀.stack⟩ tr' c ∧
      Mirrors Q tr f tr' c early late := by
    refine hrun.invariant (I := fun tr f => ∃ tr' c early late,
      (machine Q).Run NoReentry ⟨f₀.icap, f₀.stack⟩ tr' c ∧
        Mirrors Q tr f tr' c early late) ?_ ?_
    · refine ⟨[], _, [], [], .start, ?_, rfl, rfl, rfl⟩
      refine ⟨⟨hvalid, Or.inl hloops⟩, ⟨hinit, hinit⟩, rfl, rfl, fun _ _ => rfl, ?_, ?_⟩
      · rw [hisr]
        trivial
      · rw [hprogram]
        exact .stopped rfl rfl
    · rintro tr f f' i ev - ⟨tr', c, early, late, hrun', h⟩ hok hstep
      rcases h.of_step hQ hok hstep with h' | ⟨j, c', ev', early', late', hok', hc, h'⟩
      · exact ⟨tr', c, _, _, hrun', h'⟩
      · exact ⟨_, c', early', late', hrun'.step hok' hc, h'⟩
  obtain ⟨tr', c, early, late, hrun', h⟩ := hmirrors
  refine ⟨tr', c, early, late, hrun', h.interrupts, h.program, h.inputs, h.follows.late_le,
    h.follows.contents, fun hp => ?_⟩
  obtain ⟨he, hl, hicap, hstack⟩ := h.follows.stopped hp
  exact ⟨he, hl, hstack, hicap⟩

end

/-- An application that has just been opened. -/
def opened : AccessState :=
  ⟨(icapApplicationInit bareMetal (zeroedInstance 0 0) 0 (some fun _ => false) 0).1, [], .stopped,
    .idle⟩

/-- A second message comes while the first is read from its slot. -/
def interruptedInputs : List AccessInput :=
  List.replicate 4 .access ++ .interrupt someMsg :: List.replicate 6 .isr ++
    List.replicate 6 .access

theorem accesses_refine_interrupted : ∃ tr f, (accessMachine 10).Run EntersOnce opened tr f ∧
    f.program = .stopped ∧ (f.fifo.contents 10).map (·.size) = [40] ∧
      ∃ tr' c, (machine 10).Run NoReentry ⟨opened.icap, []⟩ tr' c ∧
        tr.inputs.flatMap AccessInput.own = tr'.inputs.filter Input.goesOn ∧
          f.fifo.contents 10 = c.fifo.contents 10 := by
  have hput : (accessMachine 10).Run EntersOnce opened _ _ :=
    Machine.Run.start.exec_of_mem (.interrupt someMsg :: List.replicate 6 .isr)
      (by simp [EntersOnce])
  have henter : (accessMachine 10).Run EntersOnce opened _ _ :=
    hput.step (show EntersOnce _ _ (.program (.loop 0)) from fun _ => rfl) rfl
  have hrun := henter.exec_of_mem interruptedInputs (by simp [interruptedInputs, EntersOnce])
  obtain ⟨tr', c, early, late, hrun', -, -, hinputs, -, hcontents, hstop⟩ :=
    accesses_refine (by omega) ⟨by decide, by decide⟩ rfl (Option.some_ne_none _) rfl rfl hrun
  obtain ⟨-, rfl, -⟩ := hstop rfl
  rw [List.append_nil] at hinputs
  exact ⟨_, _, hrun, rfl, by decide +kernel, tr', c, hrun', hinputs, hcontents⟩

/-! ## The accesses of a machine -/

/-- Between two steps of the machine. -/
def AccessState.of (c : State) : AccessState := ⟨c.icap, c.stack, .stopped, .idle⟩

/-- Accesses lead from one state to another and show the events. -/
def Plays (Q : Nat) (f : AccessState) (ev : List Event) (f' : AccessState) : Prop :=
  ∃ tr, (accessMachine Q).Run (fun _ _ i => i.own = []) f tr f' ∧ tr.events = ev

section

variable {Q : Nat} {f f' f'' : AccessState} {ev ev' : List Event}

theorem Plays.refl : Plays Q f [] f := ⟨[], .start, rfl⟩

theorem Plays.snoc (h : Plays Q f ev f') {i : AccessInput} (hi : i.own = [])
    (hs : accessStep Q f' i = some (f'', ev')) : Plays Q f (ev ++ ev') f'' := by
  obtain ⟨tr, hrun, rfl⟩ := h
  exact ⟨_, hrun.step hi hs, by rw [Trace.events_append, Trace.events_singleton]⟩

theorem Plays.trans (h : Plays Q f ev f') (h' : Plays Q f' ev' f'') :
    Plays Q f (ev ++ ev') f'' := by
  obtain ⟨tr, hrun, rfl⟩ := h
  obtain ⟨tr', hrun', rfl⟩ := h'
  exact ⟨_, hrun.append hrun', Trace.events_append _ _⟩

/-- The end of `icap_loop`. -/
theorem plays_loopEnd (icap : Instance) (tailNext : Nat) (ret : U32) (stack : List Activation) :
    Plays Q ⟨icap, stack, .leaving ret (.loadRelease tailNext), .idle⟩
      (loopEnd icap tailNext ret stack).2 (.of (loopEnd icap tailNext ret stack).1) := by
  have hend : (loopEnd icap tailNext ret stack).1.icap = setTail icap tailNext := by
    simp only [loopEnd, loopReturn_icap]
  have hrelease : accessStep Q ⟨icap, stack, .leaving ret (.loadRelease tailNext), .idle⟩ .access
      = some (⟨icap, stack, .leaving ret (.storeTail tailNext), .idle⟩, _) := rfl
  exact (Plays.refl.snoc rfl hrelease).snoc (i := .access) rfl rfl

/-- The rest of a handler, and of `icap_loop`. -/
theorem plays_goOn {icap : Instance} {stack : List Activation} {p : Program} {tailNext : Nat}
    {sendRet : U32} {q : Parse U32}
    (h : goOn ⟨icap, stack, p, .idle⟩ tailNext sendRet q = (f, ev)) :
    ∃ ev', Plays Q f ev' (.of (loopParse icap tailNext sendRet stack q).1) ∧
      (loopParse icap tailNext sendRet stack q).2 = ev ++ ev' := by
  obtain ⟨t, ev', ⟨k, hgo, hloop⟩ | ⟨ret, hgo, hloop⟩⟩ :=
    goOn_cases icap (s := ⟨icap, stack, p, .idle⟩) rfl tailNext sendRet q
  all_goals
    obtain ⟨rfl, rfl⟩ := Prod.mk.inj (hgo.symm.trans h)
    have hl : loopParse icap tailNext sendRet stack q = _ := hloop icap.transport.msgFifo stack
    rw [hl]
  · exact ⟨[], .refl, (List.append_nil _).symm⟩
  · exact ⟨_, plays_loopEnd _ tailNext ret stack, rfl⟩

/-- `icap_loop` -/
theorem plays_icapLoop (icap : Instance) (sendRet : U32) (stack : List Activation) :
    Plays Q ⟨icap, stack, .entering sendRet .loadTail, .idle⟩ (icapLoop Q icap sendRet stack).2
      (.of (icapLoop Q icap sendRet stack).1) := by
  have htail : Plays Q ⟨icap, stack, .entering sendRet .loadTail, .idle⟩ []
      ⟨icap, stack, .entering sendRet (.loadHead icap.transport.msgFifo.tail), .idle⟩ :=
    Plays.refl.snoc (i := .access) rfl rfl
  by_cases hempty : icap.transport.msgFifo.tail = icap.transport.msgFifo.head
  · have hc : Interrupts.stepConsumer Q icap.transport.msgFifo
        (.loadHead icap.transport.msgFifo.tail) = _ := if_pos hempty
    rw [icapLoop_empty hempty]
    refine htail.snoc (i := .access) rfl ?_
    simp only [accessStep, enteringStep, hc, Option.map_some]
    rfl
  · obtain ⟨msg, hmsg⟩ : ∃ msg, msg
        = icap.transport.msgFifo.slot (indexNext Q icap.transport.msgFifo.tail) := ⟨_, rfl⟩
    have hc : Interrupts.stepConsumer Q icap.transport.msgFifo
        (.loadHead icap.transport.msgFifo.tail) = _ := if_neg hempty
    rcases hp : icapParseMsg bareMetal icap msg.srcAddr msg.data.mem msg.size with ⟨icap', p⟩
    rw [icapLoop_parse hempty hmsg hp]
    have hhead : Plays Q ⟨icap, stack, .entering sendRet .loadTail, .idle⟩ []
        ⟨icap, stack, .entering sendRet .loadTailNext, .idle⟩ := by
      refine htail.snoc (i := .access) rfl ?_
      simp only [accessStep, enteringStep, hc, Option.map_some]
      rfl
    have hnext := hhead.snoc (i := .access) rfl rfl
    have hsrc := hnext.snoc (i := .access) rfl rfl
    have hdata := hsrc.snoc (i := .access) rfl rfl
    have hsize := hdata.snoc (i := .access) rfl rfl
    rcases hgo : goOn ⟨icap', stack, .entering sendRet (.parsing
      (indexNext Q icap.transport.msgFifo.tail) msg), .idle⟩
      (indexNext Q icap.transport.msgFifo.tail) sendRet p with ⟨f', ev'⟩
    obtain ⟨ev'', hrest, hev⟩ := plays_goOn hgo
    have hs : accessStep Q ⟨icap, stack, .entering sendRet (.parsing
        (indexNext Q icap.transport.msgFifo.tail) msg), .idle⟩ .access = some (f', ev') := by
      rw [← hgo]
      refine (enteringStep_parsing Q _ sendRet _ msg).trans ?_
      simp only [hp]
    subst hmsg
    have hparse := (hsize.snoc (i := .access) rfl hs).trans hrest
    rw [hev]
    exact hparse

/-- The next access of `icap_put_msg`. -/
theorem Plays.isr {icap : Instance} {stack : List Activation} {p : Program}
    {fifo fifo' : IcapMsgFifo} {isr isr' : Interrupts.Producer} {evs : List Interrupts.Event}
    (h : Plays Q f ev ⟨withFifo icap fifo, stack, p, isr⟩)
    (hs : Interrupts.stepProducer Q fifo isr = some (fifo', isr', evs)) :
    Plays Q f (ev ++ evs.filterMap fifoEvent) ⟨withFifo icap fifo', stack, p, isr'⟩ := by
  refine h.snoc (i := .isr) rfl ?_
  exact congrArg (Option.map _) hs

/-- The three stores fill the slot. -/
theorem write_fields (fifo : IcapMsgFifo) (i : Nat) (msg : IcapRemoteMsg) :
    let fifo₁ := fifo.write i { fifo.slot i with data := msg.data }
    let fifo₂ := fifo₁.write i { fifo₁.slot i with srcAddr := msg.srcAddr }
    fifo₂.write i { fifo₂.slot i with size := msg.size } = fifo.write i msg := by
  simp only [Ring.write, Function.update_self, Function.update_idem]

/-- `icap_put_msg` -/
theorem plays_putMsg (c : State) (msg : IcapRemoteMsg) :
    Plays Q (.of c) [.put msg (icapPutMsg Q c.icap msg).2]
      (.of ⟨(icapPutMsg Q c.icap msg).1, c.stack⟩) := by
  by_cases hcb : c.icap.callbacks.isNone = true
  · have hput : icapPutMsg Q c.icap msg = _ := if_pos hcb
    have hs : accessStep Q (.of c) (.interrupt msg) = _ := if_pos hcb
    rw [hput]
    exact Plays.refl.snoc rfl hs
  have hs : accessStep Q (.of c) (.interrupt msg)
      = some (⟨withFifo c.icap c.fifo, c.stack, .stopped, .loadHead msg⟩, []) := if_neg hcb
  have hhead := (Plays.refl.snoc rfl hs).isr rfl
  rcases icapPutMsg_cases Q c.icap msg with ⟨hnone, -⟩ | ⟨hfull, hput⟩ | ⟨-, hroom, hput⟩
  · exact absurd (by rw [hnone]; rfl) hcb
  · rw [hput]
    exact hhead.isr (if_pos hfull)
  · have htail := hhead.isr (if_neg hroom)
    have hstored := (((htail.isr rfl).isr rfl).isr rfl).isr rfl
    rw [write_fields c.fifo (indexNext Q c.fifo.head) msg] at hstored
    rw [hput]
    exact hstored

theorem Plays.run (h : Plays Q f ev f') :
    ∃ tr, (accessMachine Q).Run EntersOnce f tr f' ∧ tr.events = ev ∧
      tr.inputs.flatMap AccessInput.own = [] := by
  obtain ⟨tr, hrun, rfl⟩ := h
  refine ⟨tr, hrun.mono fun tr s i hi => ?_, rfl, ?_⟩
  · cases i with
    | program i => cases hi
    | _ => trivial
  · refine hrun.invariant (I := fun tr _ => tr.inputs.flatMap AccessInput.own = []) rfl ?_
    intro tr s s' i ev _ h hi _
    rw [Trace.inputs_append, List.flatMap_append, h]
    simpa [Trace.inputs] using hi

/-- The program goes on, up to where it stops. -/
theorem Plays.after {i : Input} (h : Plays Q f' ev' f'') (hp : f.program = .stopped)
    (hok : entersLoop i = true → loopTails f.stack = [])
    (hs : programStep Q f i = some (f', ev)) :
    ∃ tr, (accessMachine Q).Run EntersOnce f tr f'' ∧ tr.events = ev ++ ev' ∧
      tr.inputs.flatMap AccessInput.own = [i] := by
  have hstep : (accessMachine Q).step f (.program i) = some (f', ev) := by
    simp only [accessMachine, accessStep, hp]
    exact hs
  have hfirst : (accessMachine Q).Run EntersOnce f [(.program i, ev)] f' :=
    Machine.Run.start.step hok hstep
  obtain ⟨tr, hrun, rfl, hown⟩ := h.run
  refine ⟨_, hfirst.append hrun, ?_, ?_⟩
  · rw [Trace.events_append, Trace.events_singleton]
  · rw [Trace.inputs_append, List.flatMap_append, hown]
    rfl

/-- No init and no deinit. -/
def Running : Input → Prop
  | .putMsg _ => True
  | i => i.goesOn = true

/-- A step that does not look at the fifo is one step of the program. -/
theorem step_apart {c c' : State} {i : Input}
    (hmap : programStep Q (.of c) i = (step Q c i).map fun (s', ev) => (.of s', ev))
    (hok : entersLoop i = true → loopTails (AccessState.of c).stack = [])
    (hs : step Q c i = some (c', ev)) :
    ∃ tr, (accessMachine Q).Run EntersOnce (.of c) tr (.of c') ∧ tr.events = ev ∧
      tr.inputs.flatMap AccessInput.own = [i] := by
  rw [hs] at hmap
  have hafter := Plays.refl.after rfl hok hmap
  rwa [List.append_nil] at hafter

theorem step_plays {c c' : State} {i : Input} (hrunning : Running i)
    (hok : entersLoop i = true → loopTails (AccessState.of c).stack = [])
    (hs : step Q c i = some (c', ev)) :
    ∃ tr, (accessMachine Q).Run EntersOnce (.of c) tr (.of c') ∧ tr.events = ev ∧
      tr.inputs.flatMap AccessInput.own = [i].filter Input.goesOn := by
  cases i with
  | putMsg msg =>
      obtain ⟨rfl, rfl⟩ := Prod.mk.inj (Option.some.inj hs)
      exact (plays_putMsg c msg).run
  | loop sendRet =>
      simp only [step] at hs
      split_ifs at hs with hruns
      have hs' := Option.some.inj hs
      have hplays := plays_icapLoop (Q := Q) c.icap sendRet c.stack
      rw [hs'] at hplays
      exact hplays.after (f := .of c) rfl hok (if_pos hruns)
  | pass sendRet =>
      simp only [step] at hs
      split at hs
      · rename_i w rest htop
        have hplays := plays_icapLoop (Q := Q) c.icap sendRet c.stack
        have hs' := Option.some.inj hs
        rw [hs'] at hplays
        have hprogram : programStep Q (.of c) (.pass sendRet)
            = some (⟨c.icap, c.stack, .entering sendRet .loadTail, .idle⟩, []) := by
          simp only [programStep, AccessState.of, htop]
        exact hplays.after rfl hok hprogram
      · cases hs
  | callbackRet r sendRet =>
      simp only [step] at hs
      split at hs
      · rename_i tailNext k rest htop
        rcases hgo : goOn ⟨c.icap, rest, .stopped, .idle⟩ tailNext sendRet (k r) with ⟨f', ev₁⟩
        obtain ⟨ev₂, hplays, hev⟩ := plays_goOn (Q := Q) hgo
        have hs' := Option.some.inj hs
        rw [hs'] at hplays hev
        have hprogram : programStep Q (.of c) (.callbackRet r sendRet) = some (f', ev₁) := by
          simp only [programStep, AccessState.of, htop, hgo]
        rw [show ev = _ from hev]
        exact hplays.after rfl hok hprogram
      · cases hs
  | call cl now sendRet uninit => exact step_apart rfl hok hs
  | clock now => exact step_apart rfl hok hs
  | _ => cases hrunning

/-- **Every run of the machine is a run of accesses**, in which the interrupts come between the
steps of the program. -/
theorem machine_plays {c₀ c : State} {tr' : Trace Input Event}
    (hrun : (machine Q).Run (fun tr s i => NoReentry tr s i ∧ Running i) c₀ tr' c) :
    ∃ tr, (accessMachine Q).Run EntersOnce (.of c₀) tr (.of c) ∧ tr.events = tr'.events ∧
      tr.inputs.flatMap AccessInput.own = tr'.inputs.filter Input.goesOn := by
  refine hrun.invariant (I := fun tr' c => ∃ tr,
    (accessMachine Q).Run EntersOnce (.of c₀) tr (.of c) ∧ tr.events = tr'.events ∧
      tr.inputs.flatMap AccessInput.own = tr'.inputs.filter Input.goesOn) ⟨[], .start, rfl, rfl⟩ ?_
  rintro tr' c c' i ev - ⟨tr, hacc, hev, hown⟩ ⟨hok, hrunning⟩ hs
  obtain ⟨tr₁, hacc₁, hev₁, hown₁⟩ := step_plays hrunning hok hs
  refine ⟨tr ++ tr₁, hacc.append hacc₁, ?_, ?_⟩
  · rw [Trace.events_append, Trace.events_append, hev, hev₁, Trace.events_singleton]
  · rw [Trace.inputs_append, List.flatMap_append, hown, hown₁, Trace.inputs_append,
      List.filter_append]
    rfl

end

theorem machine_plays_handling : ∃ tr c,
    (machine 10).Run (fun tr s i => NoReentry tr s i ∧ Running i) ⟨opened.icap, []⟩ tr c ∧
      takenBuffers tr = [4096] ∧ releasedBuffers tr = [4096] ∧
      ∃ tr', (accessMachine 10).Run EntersOnce opened tr' (.of c) ∧ tr'.events = tr.events := by
  have hrun : (machine 10).Run (fun tr s i => NoReentry tr s i ∧ Running i) ⟨opened.icap, []⟩ _ _ :=
    Machine.Run.start.exec [.putMsg someMsg, .loop 0]
      ⟨⟨nofun, trivial⟩, ⟨fun _ => rfl, rfl⟩, trivial⟩
  obtain ⟨tr', hacc, hev, -⟩ := machine_plays hrun
  exact ⟨_, _, hrun, rfl, rfl, tr', hacc, hev⟩

end Icap.BareMetal
