import Icap.Basic.Transition
import Icap.BareMetal.Transport

set_option autoImplicit false

/-! # The fifo under interrupts

The single loads and stores of `icap_put_msg`, which runs in the receive interrupt, and of
`icap_loop`, which the interrupt can preempt anywhere; each side is a program with one
constructor for each access still to be made. The instance is initialised, and neither function
is re-entered. Whatever the interleaving, the two sides refine a bounded queue
(`ring_refines_fifo`): the producer writes only the slot after the head, the consumer reads only
the slot after the tail, and these differ while the consumer uses its slot.
-/

namespace Icap.BareMetal.Interrupts

open RingBuffer Transition

/-! ## The two programs -/

/-- `icap_put_msg`: the next access, with its arguments and local variables. -/
inductive Producer where
  | idle
  | loadHead (msg : IcapRemoteMsg)
  | loadTail (msg : IcapRemoteMsg) (headNext : Nat)
  | storeData (msg : IcapRemoteMsg) (headNext : Nat)
  | storeSrcAddr (msg : IcapRemoteMsg) (headNext : Nat)
  | storeSize (msg : IcapRemoteMsg) (headNext : Nat)
  | storeHead (msg : IcapRemoteMsg) (headNext : Nat)

/-- `icap_loop`: the next access. `parsing` is the call of `icap_parse_msg`. -/
inductive Consumer where
  | idle
  | loadTail
  | loadHead (tail : Nat)
  | loadTailNext
  | loadSrcAddr (tailNext : Nat)
  | loadData (tailNext : Nat) (srcAddr : U32)
  | loadSize (tailNext : Nat) (srcAddr : U32) (data : RxBuffer)
  | parsing (tailNext : Nat) (msg : IcapRemoteMsg)
  | loadRelease (tailNext : Nat)
  | storeTail (tailNext : Nat)

structure State where
  fifo : IcapMsgFifo
  producer : Producer
  consumer : Consumer

inductive Input where
  /-- The receive interrupt calls `icap_put_msg`. -/
  | putMsg (msg : IcapRemoteMsg)
  /-- The next access of `icap_put_msg`. -/
  | producer
  /-- The program calls `icap_loop`. -/
  | loop
  /-- The next access of `icap_loop`. -/
  | consumer

inductive Event where
  /-- `icap_put_msg` stores the head and returns `RL_HOLD`. -/
  | held (msg : IcapRemoteMsg)
  /-- `icap_put_msg` reads the tail and returns `RL_ERR_NO_BUFF`. -/
  | refused (msg : IcapRemoteMsg)
  /-- `icap_loop` reads the head and returns. -/
  | empty
  | parsed (msg : IcapRemoteMsg)
  | released (addr : Nat)
  /-- `icap_loop` stores the tail and returns. -/
  | consumed

def stepProducer (Q : Nat) (fifo : IcapMsgFifo) :
    Producer → Option (IcapMsgFifo × Producer × List Event)
  | .idle => none
  | .loadHead msg => some (fifo, .loadTail msg (indexNext Q fifo.head), [])
  | .loadTail msg headNext =>
      if headNext = fifo.tail then some (fifo, .idle, [.refused msg])
      else some (fifo, .storeData msg headNext, [])
  | .storeData msg headNext =>
      some (fifo.write headNext { fifo.slot headNext with data := msg.data },
        .storeSrcAddr msg headNext, [])
  | .storeSrcAddr msg headNext =>
      some (fifo.write headNext { fifo.slot headNext with srcAddr := msg.srcAddr },
        .storeSize msg headNext, [])
  | .storeSize msg headNext =>
      some (fifo.write headNext { fifo.slot headNext with size := msg.size },
        .storeHead msg headNext, [])
  | .storeHead msg headNext => some ({ fifo with head := headNext }, .idle, [.held msg])

def stepConsumer (Q : Nat) (fifo : IcapMsgFifo) :
    Consumer → Option (IcapMsgFifo × Consumer × List Event)
  | .idle => none
  | .loadTail => some (fifo, .loadHead fifo.tail, [])
  | .loadHead tail =>
      if tail = fifo.head then some (fifo, .idle, [.empty]) else some (fifo, .loadTailNext, [])
  | .loadTailNext => some (fifo, .loadSrcAddr (indexNext Q fifo.tail), [])
  | .loadSrcAddr tailNext => some (fifo, .loadData tailNext (fifo.slot tailNext).srcAddr, [])
  | .loadData tailNext srcAddr =>
      some (fifo, .loadSize tailNext srcAddr (fifo.slot tailNext).data, [])
  | .loadSize tailNext srcAddr data =>
      let msg : IcapRemoteMsg := ⟨data, (fifo.slot tailNext).size, srcAddr⟩
      some (fifo, .parsing tailNext msg, [.parsed msg])
  | .parsing tailNext _ => some (fifo, .loadRelease tailNext, [])
  | .loadRelease tailNext =>
      some (fifo, .storeTail tailNext, [.released (fifo.slot tailNext).data.addr])
  | .storeTail tailNext => some ({ fifo with tail := tailNext }, .idle, [.consumed])

def step (Q : Nat) (s : State) : Input → Option (State × List Event)
  | .putMsg msg =>
      match s.producer with
      | .idle => some ({ s with producer := .loadHead msg }, [])
      | _ => none
  | .producer =>
      (stepProducer Q s.fifo s.producer).map fun (fifo, producer, ev) =>
        ({ s with fifo := fifo, producer := producer }, ev)
  | .loop =>
      match s.consumer with
      | .idle => some ({ s with consumer := .loadTail }, [])
      | _ => none
  | .consumer =>
      (stepConsumer Q s.fifo s.consumer).map fun (fifo, consumer, ev) =>
        ({ s with fifo := fifo, consumer := consumer }, ev)

def machine (Q : Nat) : Machine State Input Event := ⟨step Q⟩

/-- After `icap_init_transport`. -/
def start : State := ⟨.zero, .idle, .idle⟩

/-! ## What one step does -/

section

variable {Q : Nat} {f f' : IcapMsgFifo} {ev : List Event} {e : Event}

/-- A function is called where its side is idle, or one side makes its next access. -/
inductive StepCase (Q : Nat) (s : State) : State → List Event → Prop
  | putMsg (msg : IcapRemoteMsg) (hidle : s.producer = .idle) :
      StepCase Q s { s with producer := .loadHead msg } []
  | loop (hidle : s.consumer = .idle) : StepCase Q s { s with consumer := .loadTail } []
  | producer {f' : IcapMsgFifo} {p' : Producer} {ev : List Event}
      (h : stepProducer Q s.fifo s.producer = some (f', p', ev)) :
      StepCase Q s { s with fifo := f', producer := p' } ev
  | consumer {f' : IcapMsgFifo} {c' : Consumer} {ev : List Event}
      (h : stepConsumer Q s.fifo s.consumer = some (f', c', ev)) :
      StepCase Q s { s with fifo := f', consumer := c' } ev

theorem step_cases {s s' : State} {i : Input} (hstep : step Q s i = some (s', ev)) :
    StepCase Q s s' ev := by
  cases i with
  | putMsg msg =>
      cases hpc : s.producer with
      | idle =>
          simp only [step, hpc, Option.some.injEq, Prod.mk.injEq] at hstep
          obtain ⟨rfl, rfl⟩ := hstep
          exact .putMsg msg hpc
      | _ => simp [step, hpc] at hstep
  | loop =>
      cases hpc : s.consumer with
      | idle =>
          simp only [step, hpc, Option.some.injEq, Prod.mk.injEq] at hstep
          obtain ⟨rfl, rfl⟩ := hstep
          exact .loop hpc
      | _ => simp [step, hpc] at hstep
  | producer =>
      obtain ⟨⟨f', p', ev'⟩, hp, heq⟩ := Option.map_eq_some_iff.mp hstep
      obtain ⟨rfl, rfl⟩ := Prod.mk.inj heq
      exact .producer hp
  | consumer =>
      obtain ⟨⟨f', c', ev'⟩, hc, heq⟩ := Option.map_eq_some_iff.mp hstep
      obtain ⟨rfl, rfl⟩ := Prod.mk.inj heq
      exact .consumer hc

/-- `icap_put_msg` refuses where it reads the tail, and shows a message where it stores the
head. -/
theorem stepProducer_events {p p' : Producer} (hstep : stepProducer Q f p = some (f', p', ev))
    (he : e ∈ ev) :
    (∃ m, p = .loadTail m f.tail ∧ e = .refused m) ∨ ∃ m, e = .held m := by
  cases p with
  | idle => cases hstep
  | loadTail msg hn =>
      rw [stepProducer] at hstep
      split_ifs at hstep with hfull
      · cases hstep
        exact Or.inl ⟨msg, by rw [hfull], List.mem_singleton.mp he⟩
      · cases hstep
        cases he
  | storeHead msg hn =>
      cases hstep
      exact Or.inr ⟨msg, List.mem_singleton.mp he⟩
  | _ =>
      cases hstep
      cases he

/-- `icap_loop` finds the fifo empty where it reads the head. -/
theorem stepConsumer_events {c c' : Consumer} (hstep : stepConsumer Q f c = some (f', c', ev))
    (he : e ∈ ev) :
    (c = .loadHead f.head ∧ e = .empty) ∨ (∃ m, e = .parsed m) ∨ (∃ a, e = .released a) ∨
      e = .consumed := by
  cases c with
  | idle => cases hstep
  | loadHead tail =>
      rw [stepConsumer] at hstep
      split_ifs at hstep with hempty
      · cases hstep
        exact Or.inl ⟨by rw [hempty], List.mem_singleton.mp he⟩
      · cases hstep
        cases he
  | loadSize tn srcAddr data =>
      cases hstep
      exact Or.inr (Or.inl ⟨_, List.mem_singleton.mp he⟩)
  | loadRelease tn =>
      cases hstep
      exact Or.inr (Or.inr (Or.inl ⟨_, List.mem_singleton.mp he⟩))
  | storeTail tn =>
      cases hstep
      exact Or.inr (Or.inr (Or.inr (List.mem_singleton.mp he)))
  | _ =>
      cases hstep
      cases he

end

/-! ## What a run shows -/

def Event.heldMsg : Event → Option IcapRemoteMsg
  | .held msg => some msg
  | _ => none

def Event.parsedMsg : Event → Option IcapRemoteMsg
  | .parsed msg => some msg
  | _ => none

def Event.releasedAddr : Event → Option Nat
  | .released addr => some addr
  | _ => none

def Event.isConsumed : Event → Bool
  | .consumed => true
  | _ => false

/-- The messages for which `icap_put_msg` returned `RL_HOLD`. -/
def heldMsgs (tr : Trace Input Event) : List IcapRemoteMsg :=
  tr.events.filterMap Event.heldMsg

/-- The messages handed to `icap_parse_msg`. -/
def parsedMsgs (tr : Trace Input Event) : List IcapRemoteMsg :=
  tr.events.filterMap Event.parsedMsg

def releasedAddrs (tr : Trace Input Event) : List Nat :=
  tr.events.filterMap Event.releasedAddr

/-- The number of messages whose slot has been given back. -/
def consumedCount (tr : Trace Input Event) : Nat := tr.events.countP Event.isConsumed

/-! ## The invariant of each side -/

/-- What the producer has established before its next access: the slot after the head is free,
and the fields written so far are those of the message. -/
def ProducerOk (Q : Nat) (fifo : IcapMsgFifo) : Producer → Prop
  | .idle => True
  | .loadHead _ => True
  | .loadTail _ hn => hn = next Q fifo.head
  | .storeData _ hn => hn = next Q fifo.head ∧ hn ≠ fifo.tail
  | .storeSrcAddr msg hn =>
      hn = next Q fifo.head ∧ hn ≠ fifo.tail ∧ (fifo.slot hn).data = msg.data
  | .storeSize msg hn =>
      hn = next Q fifo.head ∧ hn ≠ fifo.tail ∧ (fifo.slot hn).data = msg.data ∧
        (fifo.slot hn).srcAddr = msg.srcAddr
  | .storeHead msg hn => hn = next Q fifo.head ∧ hn ≠ fifo.tail ∧ fifo.slot hn = msg

/-- What the consumer has established: a message waits in the slot after the tail, and the
fields read so far are those of the slot. -/
def ConsumerOk (Q : Nat) (fifo : IcapMsgFifo) : Consumer → Prop
  | .idle => True
  | .loadTail => True
  | .loadHead tail => tail = fifo.tail
  | .loadTailNext => fifo.tail ≠ fifo.head
  | .loadSrcAddr tn => fifo.tail ≠ fifo.head ∧ tn = next Q fifo.tail
  | .loadData tn srcAddr =>
      fifo.tail ≠ fifo.head ∧ tn = next Q fifo.tail ∧ srcAddr = (fifo.slot tn).srcAddr
  | .loadSize tn srcAddr data =>
      fifo.tail ≠ fifo.head ∧ tn = next Q fifo.tail ∧ srcAddr = (fifo.slot tn).srcAddr ∧
        data = (fifo.slot tn).data
  | .parsing tn msg => fifo.tail ≠ fifo.head ∧ tn = next Q fifo.tail ∧ msg = fifo.slot tn
  | .loadRelease tn => fifo.tail ≠ fifo.head ∧ tn = next Q fifo.tail
  | .storeTail tn => fifo.tail ≠ fifo.head ∧ tn = next Q fifo.tail

/-- The message parsed and not yet consumed. -/
def Consumer.handling (fifo : IcapMsgFifo) : Consumer → List IcapRemoteMsg
  | .parsing tn _ => [fifo.slot tn]
  | .loadRelease tn => [fifo.slot tn]
  | .storeTail tn => [fifo.slot tn]
  | _ => []

/-- The buffer released and not yet consumed. -/
def Consumer.releasing (fifo : IcapMsgFifo) : Consumer → List Nat
  | .storeTail tn => [(fifo.slot tn).data.addr]
  | _ => []

/-- The messages `past` are consumed and the fifo holds the other messages that were put. -/
structure Refines (Q : Nat) (tr : Trace Input Event) (s : State) (past : List IcapRemoteMsg) :
    Prop where
  valid : Ring.Valid Q s.fifo
  producer : ProducerOk Q s.fifo s.producer
  consumer : ConsumerOk Q s.fifo s.consumer
  held : heldMsgs tr = past ++ s.fifo.contents Q
  parsed : parsedMsgs tr = past ++ s.consumer.handling s.fifo
  released : releasedAddrs tr = past.map (·.data.addr) ++ s.consumer.releasing s.fifo
  consumed : consumedCount tr = past.length

/-! ## Steps -/

section

variable {Q : Nat} {tr : Trace Input Event} {s : State} {past : List IcapRemoteMsg}

/-- The consumer does not notice a change that keeps the tail, the slot after it, and the fact
that a message waits there. -/
theorem ConsumerOk.congr {f : IcapMsgFifo} {c : Consumer} (h : ConsumerOk Q f c)
    (f' : IcapMsgFifo) (htail : f'.tail = f.tail) (hhead : f.tail ≠ f.head → f'.tail ≠ f'.head)
    (hslot : f.tail ≠ f.head → f'.slot (next Q f.tail) = f.slot (next Q f.tail)) :
    ConsumerOk Q f' c ∧ c.handling f' = c.handling f ∧ c.releasing f' = c.releasing f := by
  -- only from `loadTailNext` on does the consumer rely on a waiting message
  cases c with
  | idle => exact ⟨trivial, rfl, rfl⟩
  | loadTail => exact ⟨trivial, rfl, rfl⟩
  | loadHead tail =>
      refine ⟨?_, rfl, rfl⟩
      show tail = f'.tail
      rw [htail]
      exact h
  | loadTailNext => exact ⟨hhead h, rfl, rfl⟩
  | loadSrcAddr tn =>
      refine ⟨⟨hhead h.1, ?_⟩, rfl, rfl⟩
      rw [htail]
      exact h.2
  | loadData tn srcAddr =>
      obtain ⟨hne, rfl, hsrc⟩ := h
      refine ⟨⟨hhead hne, by rw [htail], ?_⟩, rfl, rfl⟩
      rw [hslot hne]
      exact hsrc
  | loadSize tn srcAddr data =>
      obtain ⟨hne, rfl, hsrc, hdata⟩ := h
      refine ⟨⟨hhead hne, by rw [htail], ?_, ?_⟩, rfl, rfl⟩
      · rw [hslot hne]
        exact hsrc
      · rw [hslot hne]
        exact hdata
  | parsing tn msg =>
      obtain ⟨hne, rfl, hmsg⟩ := h
      refine ⟨⟨hhead hne, by rw [htail], ?_⟩, ?_, rfl⟩
      · rw [hslot hne]
        exact hmsg
      · simp only [Consumer.handling, hslot hne]
  | loadRelease tn =>
      obtain ⟨hne, rfl⟩ := h
      refine ⟨⟨hhead hne, by rw [htail]⟩, ?_, rfl⟩
      simp only [Consumer.handling, hslot hne]
  | storeTail tn =>
      obtain ⟨hne, rfl⟩ := h
      refine ⟨⟨hhead hne, by rw [htail]⟩, ?_, ?_⟩
      · simp only [Consumer.handling, hslot hne]
      · simp only [Consumer.releasing, hslot hne]

theorem heldMsgs_snoc (i : Input) (ev : List Event) :
    heldMsgs (tr ++ [(i, ev)]) = heldMsgs tr ++ ev.filterMap Event.heldMsg := by
  simp [heldMsgs]

theorem parsedMsgs_snoc (i : Input) (ev : List Event) :
    parsedMsgs (tr ++ [(i, ev)]) = parsedMsgs tr ++ ev.filterMap Event.parsedMsg := by
  simp [parsedMsgs]

theorem releasedAddrs_snoc (i : Input) (ev : List Event) :
    releasedAddrs (tr ++ [(i, ev)]) = releasedAddrs tr ++ ev.filterMap Event.releasedAddr := by
  simp [releasedAddrs]

theorem consumedCount_snoc (i : Input) (ev : List Event) :
    consumedCount (tr ++ [(i, ev)]) = consumedCount tr + ev.countP Event.isConsumed := by
  simp [consumedCount]

/-- A step of the producer that shows no message: the consumer and the queue do not change. -/
theorem Refines.producer_quiet (h : Refines Q tr s past) {i : Input} {f' : IcapMsgFifo}
    {p' : Producer} {ev : List Event} (hev : ev = [] ∨ ∃ m, ev = [.refused m])
    (hvalid : Ring.Valid Q f') (hp : ProducerOk Q f' p') (htail : f'.tail = s.fifo.tail)
    (hhead : f'.head = s.fifo.head) (hcontents : f'.contents Q = s.fifo.contents Q)
    (hslot : s.fifo.tail ≠ s.fifo.head →
      f'.slot (next Q s.fifo.tail) = s.fifo.slot (next Q s.fifo.tail)) :
    Refines Q (tr ++ [(i, ev)]) { s with fifo := f', producer := p' } past := by
  have hshown : ev.filterMap Event.heldMsg = [] ∧ ev.filterMap Event.parsedMsg = [] ∧
      ev.filterMap Event.releasedAddr = [] ∧ ev.countP Event.isConsumed = 0 := by
    rcases hev with rfl | ⟨m, rfl⟩ <;> exact ⟨rfl, rfl, rfl, rfl⟩
  obtain ⟨hh, hpm, hr, hc⟩ := hshown
  obtain ⟨hok, hhandling, hreleasing⟩ := h.consumer.congr f' htail
    (fun hne => by rw [htail, hhead]; exact hne) hslot
  constructor
  · exact hvalid
  · exact hp
  · exact hok
  · rw [heldMsgs_snoc, hh, List.append_nil, h.held, hcontents]
  · rw [parsedMsgs_snoc, hpm, List.append_nil, h.parsed, hhandling]
  · rw [releasedAddrs_snoc, hr, List.append_nil, h.released, hreleasing]
  · rw [consumedCount_snoc, hc, Nat.add_zero, h.consumed]

/-- A store to a field of the slot after the head. -/
theorem Refines.producer_write (h : Refines Q tr s past) {i : Input} {p' : Producer} {hn : Nat}
    (hhn : hn = next Q s.fifo.head) (m : IcapRemoteMsg)
    (hp : ProducerOk Q (s.fifo.write hn m) p') :
    Refines Q (tr ++ [(i, [])]) { s with fifo := s.fifo.write hn m, producer := p' } past := by
  subst hhn
  exact h.producer_quiet (Or.inl rfl) (h.valid.write _ _) hp rfl rfl (h.valid.contents_write m)
    fun hne => h.valid.slot_write hne m

theorem Refines.stepProducer (h : Refines Q tr s past) (hQ : Q < 2 ^ 16) {i : Input}
    {f' : IcapMsgFifo} {p' : Producer} {ev : List Event}
    (hstep : stepProducer Q s.fifo s.producer = some (f', p', ev)) :
    Refines Q (tr ++ [(i, ev)]) { s with fifo := f', producer := p' } past := by
  have hok := h.producer
  cases hpc : s.producer with
  | idle =>
      rw [hpc] at hstep
      cases hstep
  -- an access that shows nothing is a quiet step of the queue
  | loadHead msg =>
      rw [hpc] at hstep
      obtain ⟨rfl, rfl, rfl⟩ : s.fifo = f' ∧ _ = p' ∧ [] = ev := by
        simpa [Interrupts.stepProducer] using hstep
      exact h.producer_quiet (Or.inl rfl) h.valid (indexNext_eq hQ h.valid.head_lt) rfl rfl rfl
        fun _ => rfl
  | loadTail msg hn =>
      rw [hpc] at hstep hok
      by_cases hfull : hn = s.fifo.tail
      · obtain ⟨rfl, rfl, rfl⟩ : s.fifo = f' ∧ _ = p' ∧ _ = ev := by
          simpa [Interrupts.stepProducer, hfull] using hstep
        exact h.producer_quiet (Or.inr ⟨msg, rfl⟩) h.valid trivial rfl rfl rfl fun _ => rfl
      · obtain ⟨rfl, rfl, rfl⟩ : s.fifo = f' ∧ _ = p' ∧ [] = ev := by
          simpa [Interrupts.stepProducer, hfull] using hstep
        exact h.producer_quiet (Or.inl rfl) h.valid ⟨hok, hfull⟩ rfl rfl rfl fun _ => rfl
  | storeData msg hn =>
      rw [hpc] at hstep hok
      obtain ⟨rfl, rfl, rfl⟩ : _ = f' ∧ _ = p' ∧ [] = ev := by
        simpa [Interrupts.stepProducer] using hstep
      obtain ⟨hhn, hroom⟩ := hok
      refine h.producer_write hhn _ ⟨hhn, hroom, ?_⟩
      simp only [Ring.write, Function.update_self]
  | storeSrcAddr msg hn =>
      rw [hpc] at hstep hok
      obtain ⟨rfl, rfl, rfl⟩ : _ = f' ∧ _ = p' ∧ [] = ev := by
        simpa [Interrupts.stepProducer] using hstep
      obtain ⟨hhn, hroom, hdata⟩ := hok
      refine h.producer_write hhn _ ⟨hhn, hroom, ?_, ?_⟩
      · simpa only [Ring.write, Function.update_self] using hdata
      · simp only [Ring.write, Function.update_self]
  | storeSize msg hn =>
      rw [hpc] at hstep hok
      obtain ⟨rfl, rfl, rfl⟩ : _ = f' ∧ _ = p' ∧ [] = ev := by
        simpa [Interrupts.stepProducer] using hstep
      obtain ⟨hhn, hroom, hdata, hsrc⟩ := hok
      refine h.producer_write hhn _ ⟨hhn, hroom, ?_⟩
      -- all three fields are now those of the message
      simp only [Ring.write, Function.update_self, hdata, hsrc]
  -- the store of the head is where the message enters the queue
  | storeHead msg hn =>
      rw [hpc] at hstep hok
      obtain ⟨rfl, rfl, rfl⟩ : _ = f' ∧ _ = p' ∧ [Event.held msg] = ev := by
        simpa [Interrupts.stepProducer] using hstep
      obtain ⟨rfl, hroom, hmsg⟩ := hok
      obtain ⟨hcons, hhandling, hreleasing⟩ := h.consumer.congr
        { s.fifo with head := next Q s.fifo.head } rfl (fun _ => Ne.symm hroom) fun _ => rfl
      constructor
      · exact ⟨Ring.next_lt (by have := h.valid.head_lt; omega), h.valid.tail_lt⟩
      · trivial
      · exact hcons
      · rw [heldMsgs_snoc, h.held, h.valid.contents_publish hroom, hmsg, List.append_assoc]
        rfl
      · rw [parsedMsgs_snoc, h.parsed, hhandling]
        exact List.append_nil _
      · rw [releasedAddrs_snoc, h.released, hreleasing]
        exact List.append_nil _
      · rw [consumedCount_snoc, h.consumed]
        rfl

/-- A step of the consumer up to the store of the tail: the fifo does not change. -/
theorem Refines.consumer_quiet (h : Refines Q tr s past) {i : Input} {c' : Consumer}
    {ev : List Event} (hheld : ev.filterMap Event.heldMsg = [])
    (hconsumed : ev.countP Event.isConsumed = 0) (hc : ConsumerOk Q s.fifo c')
    (hparsed : s.consumer.handling s.fifo ++ ev.filterMap Event.parsedMsg = c'.handling s.fifo)
    (hreleased : s.consumer.releasing s.fifo ++ ev.filterMap Event.releasedAddr
      = c'.releasing s.fifo) :
    Refines Q (tr ++ [(i, ev)]) { s with consumer := c' } past := by
  constructor
  · exact h.valid
  · exact h.producer
  · exact hc
  · rw [heldMsgs_snoc, hheld, List.append_nil, h.held]
  · rw [parsedMsgs_snoc, h.parsed, List.append_assoc, hparsed]
  · rw [releasedAddrs_snoc, h.released, List.append_assoc, hreleased]
  · rw [consumedCount_snoc, hconsumed, Nat.add_zero, h.consumed]

/-- The store of the tail gives the slot back: the oldest message is past. -/
theorem Refines.consume (h : Refines Q tr s past) {i : Input} {tn : Nat}
    (hpc : s.consumer = .storeTail tn) :
    Refines Q (tr ++ [(i, [.consumed])])
      { s with fifo := { s.fifo with tail := tn }, consumer := .idle }
      (past ++ [s.fifo.slot tn]) := by
  have hok := h.consumer
  have hparsed := h.parsed
  have hreleased := h.released
  rw [hpc] at hok hparsed hreleased
  obtain ⟨hne, rfl⟩ := hok
  have hcons := h.valid.contents_cons hne
  have hpop := h.valid.pop
  -- the free slot after the head is not the one that is given back
  have hother : next Q s.fifo.head ≠ next Q s.fifo.tail := by
    intro heq
    exact hne (Ring.next_inj h.valid.head_lt h.valid.tail_lt heq).symm
  constructor
  · exact hpop
  -- what the producer knows of its slot is not touched by the store of the tail
  · have hp := h.producer
    revert hp
    cases s.producer with
    | idle => exact id
    | loadHead msg => exact id
    | loadTail msg hn => exact id
    | storeData msg hn =>
        rintro ⟨rfl, -⟩
        exact ⟨rfl, hother⟩
    | storeSrcAddr msg hn =>
        rintro ⟨rfl, -, hrest⟩
        exact ⟨rfl, hother, hrest⟩
    | storeSize msg hn =>
        rintro ⟨rfl, -, hrest⟩
        exact ⟨rfl, hother, hrest⟩
    | storeHead msg hn =>
        rintro ⟨rfl, -, hrest⟩
        exact ⟨rfl, hother, hrest⟩
  · trivial
  · calc heldMsgs (tr ++ [(i, [Event.consumed])])
        = past ++ s.fifo.contents Q := by rw [heldMsgs_snoc, h.held]; exact List.append_nil _
      _ = past ++ [s.fifo.slot (next Q s.fifo.tail)] ++ (s.fifo.pop Q).contents Q := by
          rw [hcons, List.append_assoc]
          rfl
  · rw [parsedMsgs_snoc, hparsed]
    rfl
  · rw [releasedAddrs_snoc, hreleased, List.map_append]
    rfl
  · rw [consumedCount_snoc, h.consumed, List.length_append]
    rfl

theorem Refines.stepConsumer (h : Refines Q tr s past) (hQ : Q < 2 ^ 16) {i : Input}
    {f' : IcapMsgFifo} {c' : Consumer} {ev : List Event}
    (hstep : stepConsumer Q s.fifo s.consumer = some (f', c', ev)) :
    ∃ past', Refines Q (tr ++ [(i, ev)]) { s with fifo := f', consumer := c' } past' := by
  have hok := h.consumer
  cases hpc : s.consumer with
  | idle =>
      rw [hpc] at hstep
      cases hstep
  | loadTail =>
      rw [hpc] at hstep
      obtain ⟨rfl, rfl, rfl⟩ : s.fifo = f' ∧ _ = c' ∧ [] = ev := by
        simpa [Interrupts.stepConsumer] using hstep
      exact ⟨past, h.consumer_quiet rfl rfl rfl (by rw [hpc]; rfl) (by rw [hpc]; rfl)⟩
  | loadHead tail =>
      rw [hpc] at hstep hok
      by_cases hempty : tail = s.fifo.head
      · obtain ⟨rfl, rfl, rfl⟩ : s.fifo = f' ∧ _ = c' ∧ [Event.empty] = ev := by
          simpa [Interrupts.stepConsumer, hempty] using hstep
        exact ⟨past, h.consumer_quiet rfl rfl trivial (by rw [hpc]; rfl) (by rw [hpc]; rfl)⟩
      · obtain ⟨rfl, rfl, rfl⟩ : s.fifo = f' ∧ _ = c' ∧ [] = ev := by
          simpa [Interrupts.stepConsumer, hempty] using hstep
        -- the tail it has read is still the tail: only `icap_loop` stores it
        have hne : s.fifo.tail ≠ s.fifo.head := by
          rw [← show tail = s.fifo.tail from hok]
          exact hempty
        exact ⟨past, h.consumer_quiet rfl rfl hne (by rw [hpc]; rfl) (by rw [hpc]; rfl)⟩
  | loadTailNext =>
      rw [hpc] at hstep hok
      obtain ⟨rfl, rfl, rfl⟩ : s.fifo = f' ∧ _ = c' ∧ [] = ev := by
        simpa [Interrupts.stepConsumer] using hstep
      exact ⟨past, h.consumer_quiet rfl rfl ⟨hok, indexNext_eq hQ h.valid.tail_lt⟩
        (by rw [hpc]; rfl) (by rw [hpc]; rfl)⟩
  | loadSrcAddr tn =>
      rw [hpc] at hstep hok
      obtain ⟨rfl, rfl, rfl⟩ : s.fifo = f' ∧ _ = c' ∧ [] = ev := by
        simpa [Interrupts.stepConsumer] using hstep
      exact ⟨past, h.consumer_quiet rfl rfl ⟨hok.1, hok.2, rfl⟩ (by rw [hpc]; rfl)
        (by rw [hpc]; rfl)⟩
  | loadData tn srcAddr =>
      rw [hpc] at hstep hok
      obtain ⟨rfl, rfl, rfl⟩ : s.fifo = f' ∧ _ = c' ∧ [] = ev := by
        simpa [Interrupts.stepConsumer] using hstep
      exact ⟨past, h.consumer_quiet rfl rfl ⟨hok.1, hok.2.1, hok.2.2, rfl⟩ (by rw [hpc]; rfl)
        (by rw [hpc]; rfl)⟩
  -- the three fields read one by one are those of one message
  | loadSize tn srcAddr data =>
      rw [hpc] at hstep hok
      obtain ⟨rfl, rfl, rfl⟩ : s.fifo = f' ∧ _ = c' ∧ _ = ev := by
        simpa [Interrupts.stepConsumer] using hstep
      obtain ⟨hne, htn, rfl, rfl⟩ := hok
      exact ⟨past, h.consumer_quiet rfl rfl ⟨hne, htn, rfl⟩ (by rw [hpc]; rfl)
        (by rw [hpc]; rfl)⟩
  | parsing tn msg =>
      rw [hpc] at hstep hok
      obtain ⟨rfl, rfl, rfl⟩ : s.fifo = f' ∧ _ = c' ∧ [] = ev := by
        simpa [Interrupts.stepConsumer] using hstep
      exact ⟨past, h.consumer_quiet rfl rfl ⟨hok.1, hok.2.1⟩ (by rw [hpc]; rfl)
        (by rw [hpc]; rfl)⟩
  | loadRelease tn =>
      rw [hpc] at hstep hok
      obtain ⟨rfl, rfl, rfl⟩ : s.fifo = f' ∧ _ = c' ∧ _ = ev := by
        simpa [Interrupts.stepConsumer] using hstep
      exact ⟨past, h.consumer_quiet rfl rfl hok (by rw [hpc]; rfl) (by rw [hpc]; rfl)⟩
  | storeTail tn =>
      have hstep' := hstep
      rw [hpc] at hstep'
      obtain ⟨rfl, rfl, rfl⟩ : _ = f' ∧ _ = c' ∧ _ = ev := by
        simpa [Interrupts.stepConsumer] using hstep'
      exact ⟨_, h.consume hpc⟩

theorem Refines.of_step (h : Refines Q tr s past) (hQ : Q < 2 ^ 16) {i : Input} {s' : State}
    {ev : List Event} (hstep : step Q s i = some (s', ev)) :
    ∃ past', Refines Q (tr ++ [(i, ev)]) s' past' := by
  cases step_cases hstep with
  | putMsg msg =>
      exact ⟨past, h.producer_quiet (Or.inl rfl) h.valid trivial rfl rfl rfl fun _ => rfl⟩
  | loop hidle =>
      exact ⟨past, h.consumer_quiet rfl rfl trivial (by rw [hidle]; rfl) (by rw [hidle]; rfl)⟩
  | producer hp => exact ⟨past, h.stepProducer hQ hp⟩
  | consumer hc => exact h.stepConsumer hQ hc

theorem start_refines (hQ : 0 < Q) : Refines Q [] start [] where
  valid := ⟨hQ, hQ⟩
  producer := trivial
  consumer := trivial
  held := by
    have hvalid : Ring.Valid Q IcapMsgFifo.zero := ⟨hQ, hQ⟩
    have hempty := hvalid.contents_eq_nil.mpr rfl
    exact hempty.symm
  parsed := rfl
  released := rfl
  consumed := rfl

theorem run_refines {ok : Trace Input Event → State → Input → Prop} (hQ : 0 < Q)
    (hQ' : Q < 2 ^ 16) (hrun : (machine Q).Run ok start tr s) : ∃ past, Refines Q tr s past := by
  refine hrun.invariant (I := fun tr s => ∃ past, Refines Q tr s past) ⟨[], start_refines hQ⟩ ?_
  rintro tr s s' i ev - ⟨past, h⟩ - hstep
  exact h.of_step hQ' hstep

/-! ## What the invariant says -/

/-- The message being handled is the oldest of the queue. -/
theorem Refines.handling_le (h : Refines Q tr s past) :
    s.consumer.handling s.fifo <+: s.fifo.contents Q := by
  have hok := h.consumer
  cases hpc : s.consumer with
  | parsing tn msg | loadRelease tn | storeTail tn =>
      rw [hpc] at hok
      rw [h.valid.contents_cons hok.1]
      first
        | rw [hok.2.1]; exact ⟨_, rfl⟩
        | rw [hok.2]; exact ⟨_, rfl⟩
  | _ => exact List.nil_prefix

theorem Refines.releasing_le (h : Refines Q tr s past) :
    s.consumer.releasing s.fifo <+: (s.fifo.contents Q).map (·.data.addr) := by
  have hok := h.consumer
  cases hpc : s.consumer with
  | storeTail tn =>
      rw [hpc] at hok
      rw [h.valid.contents_cons hok.1, hok.2]
      exact ⟨_, rfl⟩
  | _ => exact List.nil_prefix

/-- A message is refused where the producer reads the tail. -/
theorem step_refused {i : Input} {s' : State} {ev : List Event}
    (hstep : step Q s i = some (s', ev)) {m : IcapRemoteMsg} (hm : .refused m ∈ ev) :
    s.producer = .loadTail m s.fifo.tail := by
  cases step_cases hstep with
  | putMsg | loop => cases hm
  | producer hp =>
      rcases stepProducer_events hp hm with ⟨m', hpc, heq⟩ | ⟨m', heq⟩
      · rw [hpc, Event.refused.inj heq]
      · cases heq
  | consumer hc =>
      rcases stepConsumer_events hc hm with ⟨-, heq⟩ | ⟨m', heq⟩ | ⟨a, heq⟩ | heq <;> cases heq

/-- The fifo is found empty where the consumer reads the head. -/
theorem step_empty {i : Input} {s' : State} {ev : List Event}
    (hstep : step Q s i = some (s', ev)) (hm : .empty ∈ ev) :
    s.consumer = .loadHead s.fifo.head := by
  cases step_cases hstep with
  | putMsg | loop => cases hm
  | producer hp =>
      rcases stepProducer_events hp hm with ⟨m, -, heq⟩ | ⟨m, heq⟩ <;> cases heq
  | consumer hc =>
      rcases stepConsumer_events hc hm with ⟨hpc, -⟩ | ⟨m, heq⟩ | ⟨a, heq⟩ | heq
      · exact hpc
      · cases heq
      · cases heq
      · cases heq

end

/-! ## Uninterrupted -/

/-- `icap_put_msg` without an interleaved consumer is `icapPutMsg`. -/
theorem producer_uninterrupted (Q : Nat) (icap : Instance) (msg : IcapRemoteMsg)
    (consumer : Consumer) (hinit : icap.callbacks ≠ none) :
    ((machine Q).exec [] ⟨icap.transport.msgFifo, .idle, consumer⟩
        (.putMsg msg :: List.replicate 6 .producer)).2
      = ⟨(icapPutMsg Q icap msg).1.transport.msgFifo, .idle, consumer⟩ := by
  rcases icapPutMsg_cases Q icap msg with ⟨hcb, -⟩ | ⟨hfull, h⟩ | ⟨-, hroom, h⟩
  · exact absurd hcb hinit
  · rw [h]
    simp [Machine.exec, machine, step, stepProducer, List.replicate, hfull]
  · rw [h]
    simp [Machine.exec, machine, step, stepProducer, List.replicate, hroom, Ring.write]

/-- `icap_loop` on an empty fifo without an interleaved producer. -/
theorem consumer_uninterrupted_empty (Q : Nat) (fifo : IcapMsgFifo) (producer : Producer)
    (h : fifo.tail = fifo.head) :
    ((machine Q).exec [] ⟨fifo, producer, .idle⟩ (.loop :: List.replicate 9 .consumer)).2
      = ⟨fifo, producer, .idle⟩ := by
  simp [Machine.exec, machine, step, stepConsumer, List.replicate, h]

/-- `icap_loop` without an interleaved producer parses the slot after the tail, releases its
buffer and moves the tail there. -/
theorem consumer_uninterrupted (Q : Nat) (fifo : IcapMsgFifo) (producer : Producer)
    (h : fifo.tail ≠ fifo.head) :
    let r := (machine Q).exec [] ⟨fifo, producer, .idle⟩ (.loop :: List.replicate 9 .consumer)
    let msg := fifo.slot (indexNext Q fifo.tail)
    r.2 = ⟨{ fifo with tail := indexNext Q fifo.tail }, producer, .idle⟩ ∧
      r.1.events = [.parsed msg, .released msg.data.addr, .consumed] := by
  simp [Machine.exec, machine, step, stepConsumer, List.replicate, h, Trace.events]

/-! ## The result -/

/-- In every run from the zeroed fifo both indices name slots; the messages parsed are the
first of the messages put, in order, and their buffers are released in that order; a message
being parsed stays in its slot; a message is refused only when `Q - 1` messages are put and
not consumed, and nothing is found only when every message put has been parsed and consumed. -/
theorem ring_refines_fifo {Q : Nat} (hQ : 2 ≤ Q) (hQ' : Q ≤ 65535) {tr : Trace Input Event}
    {s : State} (hrun : (machine Q).Run (fun _ _ _ => True) start tr s) :
    s.fifo.head < Q ∧ s.fifo.tail < Q ∧
      parsedMsgs tr <+: heldMsgs tr ∧
      releasedAddrs tr <+: (heldMsgs tr).map (·.data.addr) ∧
      (∀ tn msg, s.consumer = .parsing tn msg → s.fifo.slot tn = msg) ∧
      ∀ i s' ev, step Q s i = some (s', ev) →
        (∀ msg, .refused msg ∈ ev → (heldMsgs tr).length = consumedCount tr + (Q - 1)) ∧
        (.empty ∈ ev →
          parsedMsgs tr = heldMsgs tr ∧ consumedCount tr = (heldMsgs tr).length) := by
  obtain ⟨past, h⟩ := run_refines (by omega) (by omega) hrun
  have hlen : (heldMsgs tr).length = consumedCount tr + s.fifo.count Q := by
    rw [h.held, h.consumed, List.length_append, Ring.contents_length]
  refine ⟨h.valid.head_lt, h.valid.tail_lt, ?_, ?_, ?_, ?_⟩
  · rw [h.parsed, h.held]
    exact List.prefix_append_right_inj past |>.mpr h.handling_le
  · rw [h.released, h.held, List.map_append]
    exact List.prefix_append_right_inj _ |>.mpr h.releasing_le
  · intro tn msg hpc
    have hok := h.consumer
    rw [hpc] at hok
    exact hok.2.2.symm
  · intro i s' ev hstep
    constructor
    · intro msg hm
      -- the refused producer has just compared the slot after the head with the tail
      have hok := h.producer
      rw [step_refused hstep hm] at hok
      have hfull := h.valid.next_head_eq_tail.mp (show s.fifo.tail = _ from hok).symm
      omega
    · intro hm
      -- the consumer has just compared the tail it read with the head
      have hok := h.consumer
      have hparsed := h.parsed
      rw [step_empty hstep hm] at hok hparsed
      have hnil := h.valid.contents_eq_nil.mpr (show s.fifo.head = s.fifo.tail from hok).symm
      constructor
      · rw [hparsed, h.held, hnil]
        rfl
      · rw [h.consumed, h.held, hnil, List.append_nil]

def msgOfSize (size : U32) : IcapRemoteMsg := { IcapRemoteMsg.zero with size := size }

/-- A ring of two slots: the second message comes while the first is parsed and is refused, the
third goes to slot 0. -/
def wrappingInputs : List Input :=
  List.flatten
    [.putMsg (msgOfSize 1) :: List.replicate 6 .producer, .loop :: List.replicate 6 .consumer,
      .putMsg (msgOfSize 2) :: List.replicate 2 .producer, List.replicate 3 .consumer,
      .putMsg (msgOfSize 3) :: List.replicate 6 .producer]

theorem ring_refines_fifo_wraps : ∃ tr s, (machine 2).Run (fun _ _ _ => True) start tr s ∧
    (heldMsgs tr).map (·.size) = [1, 3] ∧ (parsedMsgs tr).map (·.size) = [1] ∧
      s.fifo.head = 0 ∧ parsedMsgs tr <+: heldMsgs tr := by
  have hrun : (machine 2).Run (fun _ _ _ => True) start _ _ :=
    Machine.Run.start.exec_of_forall wrappingInputs fun _ _ _ => trivial
  obtain ⟨-, -, hfirst, -⟩ := ring_refines_fifo (by omega) (by omega) hrun
  exact ⟨_, _, hrun, by decide +kernel, by decide +kernel, by decide +kernel, hfirst⟩

end Icap.BareMetal.Interrupts
