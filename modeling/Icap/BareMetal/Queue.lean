import Icap.BareMetal.Machine

set_option autoImplicit false

/-! # What a step does to the fifo

The steps of the machine, seen from the fifo: which messages are put, handed to
`icap_parse_msg` and released, and what becomes of the ring (`step_queue`). Every fact about
the fifo is derived from these cases.
-/

namespace Icap.BareMetal

open ByteMemory RingBuffer Transition

/-- The events of the fifo. -/
inductive QueueEvent where
  | put (msg : IcapRemoteMsg) (ret : PutResult)
  | parsed (msg : IcapRemoteMsg)
  | released (addr : Nat)

def Event.queue : Event → Option QueueEvent
  | .put msg ret => some (.put msg ret)
  | .parsed msg => some (.parsed msg)
  | .released addr => some (.released addr)
  | _ => none

def queueEvents (ev : List Event) : List QueueEvent := ev.filterMap Event.queue

@[simp] theorem queueEvents_nil : queueEvents [] = [] := rfl

@[simp] theorem queueEvents_append (ev ev' : List Event) :
    queueEvents (ev ++ ev') = queueEvents ev ++ queueEvents ev' := by
  simp [queueEvents]

/-- The `tail_next` of each `icap_loop` that has not returned, innermost first. -/
def loopTails : List Activation → List Nat
  | [] => []
  | .loop tailNext _ :: rest => tailNext :: loopTails rest
  | .poll _ :: rest => loopTails rest
  | .clock _ :: rest => loopTails rest

abbrev State.fifo (s : State) : IcapMsgFifo := s.icap.transport.msgFifo

/-! ## The functions that run inside a step -/

theorem runParse_fifo (sendRet : U32) (t : IcapTransport) (p : Parse U32) :
    (runParse sendRet t p).1.msgFifo = t.msgFifo := by
  -- a handler reaches the transport through `icap_response_notify` only
  induction p generalizing t with
  | done ret => rfl
  | callback c k _ => rfl
  | sendPlatform frame k ih => exact ih _ _
  | responseNotify response k ih => exact ih _ _

theorem runParse_queue (sendRet : U32) (t : IcapTransport) (p : Parse U32) :
    queueEvents (runParse sendRet t p).2.1 = [] := by
  induction p generalizing t with
  | done ret => rfl
  | callback c k _ => rfl
  | sendPlatform frame k ih => exact ih _ _
  | responseNotify response k ih => exact ih _ _

@[simp] theorem loopReturn_icap (icap : Instance) (ret : U32) (stack : List Activation) :
    (loopReturn icap ret stack).1.icap = icap := by
  rcases loopReturn_cases icap ret stack with
    ⟨w, rest, rfl, -, h⟩ | ⟨w, rest, rfl, -, h⟩ | ⟨-, h⟩ <;> rw [h]

@[simp] theorem loopReturn_tails (icap : Instance) (ret : U32) (stack : List Activation) :
    loopTails (loopReturn icap ret stack).1.stack = loopTails stack := by
  rcases loopReturn_cases icap ret stack with
    ⟨w, rest, rfl, -, h⟩ | ⟨w, rest, rfl, -, h⟩ | ⟨-, h⟩ <;> rw [h] <;> rfl

@[simp] theorem loopReturn_queue (icap : Instance) (ret : U32) (stack : List Activation) :
    queueEvents (loopReturn icap ret stack).2 = [] := by
  rcases loopReturn_cases icap ret stack with
    ⟨w, rest, rfl, -, h⟩ | ⟨w, rest, rfl, -, h⟩ | ⟨-, h⟩ <;> rw [h] <;> rfl

/-- `icap_loop` changes nothing of the instance but the transport. -/
theorem loopParse_icap (icap : Instance) (tailNext : Nat) (sendRet : U32)
    (stack : List Activation) (p : Parse U32) :
    ∃ t, (loopParse icap tailNext sendRet stack p).1.icap = { icap with transport := t } := by
  unfold loopParse
  rcases runParse sendRet icap.transport p with ⟨t, ev, progress⟩
  cases progress with
  | callback k => exact ⟨t, rfl⟩
  | done ret => exact ⟨_, loopReturn_icap _ _ _⟩

theorem icapLoop_icap (Q : Nat) (icap : Instance) (sendRet : U32) (stack : List Activation) :
    ∃ t, (icapLoop Q icap sendRet stack).1.icap = { icap with transport := t } := by
  by_cases hne : icap.transport.msgFifo.tail = icap.transport.msgFifo.head
  · rw [icapLoop_empty hne]
    exact ⟨icap.transport, loopReturn_icap _ _ _⟩
  · obtain ⟨msg, hmsg⟩ : ∃ msg, msg
        = icap.transport.msgFifo.slot (indexNext Q icap.transport.msgFifo.tail) := ⟨_, rfl⟩
    obtain ⟨a, ha⟩ := icapParseMsg_eq icap msg.srcAddr msg.data.mem msg.size
    rcases hp : icapParseMsg bareMetal icap msg.srcAddr msg.data.mem msg.size with ⟨icap', p⟩
    rw [hp] at ha
    simp only at ha
    rw [icapLoop_parse hne hmsg hp]
    subst ha
    exact loopParse_icap _ _ _ _ _

/-- Going on with a handler stops in a callback, or releases the buffer and moves the
tail. -/
theorem loopParse_queue (icap : Instance) (tailNext : Nat) (sendRet : U32)
    (stack : List Activation) (p : Parse U32) :
    (loopParse icap tailNext sendRet stack p).1.fifo = icap.transport.msgFifo ∧
      loopTails (loopParse icap tailNext sendRet stack p).1.stack
        = tailNext :: loopTails stack ∧
      queueEvents (loopParse icap tailNext sendRet stack p).2 = []
    ∨ (loopParse icap tailNext sendRet stack p).1.fifo
        = { icap.transport.msgFifo with tail := tailNext } ∧
      loopTails (loopParse icap tailNext sendRet stack p).1.stack = loopTails stack ∧
      queueEvents (loopParse icap tailNext sendRet stack p).2
        = [.released (icap.transport.msgFifo.slot tailNext).data.addr] := by
  have hfifo := runParse_fifo sendRet icap.transport p
  have hqueue := runParse_queue sendRet icap.transport p
  unfold loopParse
  rcases hrun : runParse sendRet icap.transport p with ⟨t, ev, progress⟩
  rw [hrun] at hfifo hqueue
  simp only at hfifo hqueue
  cases progress with
  -- the frame of `icap_loop` is on the stack until the callback returns
  | callback k => exact Or.inl ⟨hfifo, rfl, hqueue⟩
  | done ret =>
      refine Or.inr ⟨?_, ?_, ?_⟩
      · simp only [loopEnd, State.fifo, loopReturn_icap, setTail]
        rw [hfifo]
      · simp only [loopEnd, loopReturn_tails]
      · simp only [queueEvents_append, hqueue, List.nil_append, loopEnd]
        rw [hfifo]
        simp only [queueEvents, List.filterMap_cons, Event.queue]
        exact congrArg _ (loopReturn_queue _ _ _)

/-! ## Steps -/

/-- The input makes the program or a wait call `icap_loop`. -/
def entersLoop : Input → Bool
  | .loop _ => true
  | .pass _ => true
  | _ => false

/-- What a step does to the fifo. -/
inductive QueueStep (Q : Nat) (s : State) (i : Input) (s' : State) (ev : List Event) : Prop
  /-- The fifo is not touched; `icap_loop` does so when it finds the fifo empty. -/
  | quiet (hopen : opensTransport s i = false)
      (henter : entersLoop i = true → s.fifo.tail = s.fifo.head) (hfifo : s'.fifo = s.fifo)
      (htails : loopTails s'.stack = loopTails s.stack) (hev : queueEvents ev = [])
  | open (hopen : opensTransport s i = true) (hfifo : s'.fifo = .zero)
      (htails : loopTails s'.stack = loopTails s.stack) (hev : queueEvents ev = [])
  | hold (msg : IcapRemoteMsg) (hi : i = .putMsg msg)
      (hroom : indexNext Q s.fifo.head ≠ s.fifo.tail)
      (hfifo : s'.fifo = { s.fifo.write (indexNext Q s.fifo.head) msg with
        head := indexNext Q s.fifo.head })
      (htails : loopTails s'.stack = loopTails s.stack) (hev : queueEvents ev = [.put msg .hold])
  | refuse (msg : IcapRemoteMsg) (ret : PutResult) (hi : i = .putMsg msg) (hret : ret ≠ .hold)
      (hfifo : s'.fifo = s.fifo) (htails : loopTails s'.stack = loopTails s.stack)
      (hev : queueEvents ev = [.put msg ret])
  /-- `icap_loop` stops in a callback of the message after the tail. -/
  | parse (henter : entersLoop i = true) (hne : s.fifo.tail ≠ s.fifo.head)
      (hfifo : s'.fifo = s.fifo)
      (htails : loopTails s'.stack = indexNext Q s.fifo.tail :: loopTails s.stack)
      (hev : queueEvents ev = [.parsed (s.fifo.slot (indexNext Q s.fifo.tail))])
  /-- `icap_loop` handles the message after the tail. -/
  | handle (henter : entersLoop i = true) (hne : s.fifo.tail ≠ s.fifo.head)
      (hfifo : s'.fifo = { s.fifo with tail := indexNext Q s.fifo.tail })
      (htails : loopTails s'.stack = loopTails s.stack)
      (hev : queueEvents ev = [.parsed (s.fifo.slot (indexNext Q s.fifo.tail)),
        .released (s.fifo.slot (indexNext Q s.fifo.tail)).data.addr])
  /-- The innermost `icap_loop` goes on after its callback, and returns. -/
  | release (tailNext : Nat) (hopen : opensTransport s i = false)
      (henter : entersLoop i = false)
      (hfifo : s'.fifo = { s.fifo with tail := tailNext })
      (htails : loopTails s.stack = tailNext :: loopTails s'.stack)
      (hev : queueEvents ev = [.released (s.fifo.slot tailNext).data.addr])

section

variable {Q : Nat} {s s' : State} {ev : List Event}

theorem icapLoop_queue {i : Input} {sendRet : U32} (henter : entersLoop i = true)
    (h : icapLoop Q s.icap sendRet s.stack = (s', ev)) : QueueStep Q s i s' ev := by
  have hopen : opensTransport s i = false := by
    cases i <;> first | rfl | cases henter
  by_cases hne : s.fifo.tail = s.fifo.head
  · rw [icapLoop_empty hne] at h
    have hs := congrArg Prod.fst h
    have hev := congrArg Prod.snd h
    subst hs hev
    exact .quiet hopen (fun _ => hne) (by rw [State.fifo, loopReturn_icap])
      (loopReturn_tails _ _ _) (loopReturn_queue _ _ _)
  · obtain ⟨msg, hmsg⟩ : ∃ msg, msg = s.fifo.slot (indexNext Q s.fifo.tail) := ⟨_, rfl⟩
    obtain ⟨a, ha⟩ := icapParseMsg_eq s.icap msg.srcAddr msg.data.mem msg.size
    rcases hp : icapParseMsg bareMetal s.icap msg.srcAddr msg.data.mem msg.size with ⟨icap', p⟩
    rw [hp] at ha
    have hpfifo : icap'.transport.msgFifo = s.fifo := by rw [show icap' = _ from ha]
    rw [icapLoop_parse hne hmsg hp] at h
    obtain ⟨rfl, rfl⟩ := Prod.mk.inj h
    have hq := loopParse_queue icap' (indexNext Q s.fifo.tail) sendRet s.stack p
    rw [hpfifo] at hq
    -- `parsed` comes before whatever the handler shows
    have hev (qs : List QueueEvent) (he : queueEvents
        (loopParse icap' (indexNext Q s.fifo.tail) sendRet s.stack p).2 = qs) :
        queueEvents (.parsed msg ::
          (loopParse icap' (indexNext Q s.fifo.tail) sendRet s.stack p).2)
          = .parsed (s.fifo.slot (indexNext Q s.fifo.tail)) :: qs := by
      rw [← hmsg]
      exact congrArg _ he
    rcases hq with ⟨hf, ht, he⟩ | ⟨hf, ht, he⟩
    · exact .parse henter hne hf ht (hev _ he)
    · exact .handle henter hne hf ht (hev _ he)

theorem lifecycle_queue {i : Input} {r : Instance × U32}
    (hr : lifecycleResult s.icap i = some r) :
    QueueStep Q s i ⟨r.1, s.stack⟩ [.lifecycle r.2] := by
  have henter : entersLoop i = false := by
    cases i <;> first | rfl | cases hr
  rcases lifecycleResult_cases hr with ⟨hopen, ht, -⟩ | ⟨hopen, ht, -⟩
  · exact .open hopen (congrArg IcapTransport.msgFifo ht) rfl rfl
  · exact .quiet hopen (by simp [henter]) (congrArg IcapTransport.msgFifo ht) rfl rfl

theorem putMsg_queue (msg : IcapRemoteMsg) :
    QueueStep Q s (.putMsg msg) ⟨(icapPutMsg Q s.icap msg).1, s.stack⟩
      [.put msg (icapPutMsg Q s.icap msg).2] := by
  rcases icapPutMsg_cases Q s.icap msg with ⟨-, hput⟩ | ⟨-, hput⟩ | ⟨-, hroom, hput⟩
  all_goals rw [hput]
  · exact .refuse msg _ rfl (by simp) rfl rfl rfl
  · exact .refuse msg _ rfl (by simp) rfl rfl rfl
  · exact .hold msg rfl hroom rfl rfl rfl

/-- Every step is one of the cases. -/
theorem step_queue {i : Input} (h : step Q s i = some (s', ev)) : QueueStep Q s i s' ev := by
  cases step_cases h with
  | putMsg msg => exact putMsg_queue msg
  | lifecycle r hr => exact lifecycle_queue hr
  | refused | waits | notifies => exact .quiet rfl nofun rfl rfl rfl
  | loop sendRet => exact icapLoop_queue rfl rfl
  | pass sendRet => exact icapLoop_queue rfl rfl
  -- the frame of a wait changes its kind or goes; it holds no tail
  | polls now w rest hstack => exact .quiet rfl nofun rfl (by rw [hstack]; rfl) rfl
  | timesOut now w rest hstack => exact .quiet rfl nofun rfl (by rw [hstack]; rfl) rfl
  | resumes r sendRet tailNext k rest hstack =>
      rcases loopParse_queue s.icap tailNext sendRet rest (k r) with
        ⟨hf, ht, he⟩ | ⟨hf, ht, he⟩
      · exact .quiet rfl nofun hf (by rw [ht, hstack]; rfl) he
      · exact .release tailNext rfl rfl hf (by rw [hstack, loopTails]; exact congrArg _ ht.symm) he

/-! ## The fifo as a queue of messages

Without re-entry the fifo is a queue whose oldest message is either waiting or, inside
`icap_loop`, being handled. -/

/-- An `icap_loop` has not returned. -/
def busy (s : State) : Bool := !(loopTails s.stack).isEmpty

/-- The indices name slots, and an `icap_loop` in a callback handles the oldest message. -/
structure Sound (Q : Nat) (s : State) : Prop where
  valid : Ring.Valid Q s.fifo
  loops : loopTails s.stack = [] ∨
    loopTails s.stack = [next Q s.fifo.tail] ∧ s.fifo.tail ≠ s.fifo.head

/-- The steps of the queue: its messages, and whether the oldest is being handled. -/
inductive FifoStep :
    List IcapRemoteMsg → Bool → List IcapRemoteMsg → Bool → List QueueEvent → Prop
  | quiet (c : List IcapRemoteMsg) (b : Bool) : FifoStep c b c b []
  | refuse (c : List IcapRemoteMsg) (b : Bool) (m : IcapRemoteMsg) (ret : PutResult)
      (hret : ret ≠ .hold) : FifoStep c b c b [.put m ret]
  | hold (c : List IcapRemoteMsg) (b : Bool) (m : IcapRemoteMsg) :
      FifoStep c b (c ++ [m]) b [.put m .hold]
  | parse (m : IcapRemoteMsg) (c : List IcapRemoteMsg) :
      FifoStep (m :: c) false (m :: c) true [.parsed m]
  | handle (m : IcapRemoteMsg) (c : List IcapRemoteMsg) :
      FifoStep (m :: c) false c false [.parsed m, .released m.data.addr]
  | release (m : IcapRemoteMsg) (c : List IcapRemoteMsg) :
      FifoStep (m :: c) true c false [.released m.data.addr]

theorem Sound.busy_of_tails {n : Nat} {l : List Nat} (h : loopTails s.stack = n :: l) :
    busy s = true := by
  rw [busy, h]
  rfl

theorem busy_congr (h : loopTails s'.stack = loopTails s.stack) : busy s' = busy s := by
  rw [busy, busy, h]

theorem zero_valid (hQ : 0 < Q) : Ring.Valid Q IcapMsgFifo.zero := ⟨hQ, hQ⟩

/-- **The machine refines the queue**, as long as `icap_loop` is not re-entered and the
transport is opened only when the fifo is empty. -/
theorem Sound.of_step (hs : Sound Q s) (hQ : Q < 2 ^ 16) {i : Input}
    (hreentry : entersLoop i = true → loopTails s.stack = [])
    (hempty : opensTransport s i = true → s.fifo.tail = s.fifo.head)
    (h : step Q s i = some (s', ev)) :
    Sound Q s' ∧ FifoStep (s.fifo.contents Q) (busy s) (s'.fifo.contents Q) (busy s')
      (queueEvents ev) := by
  have hv := hs.valid
  have hhead : indexNext Q s.fifo.head = next Q s.fifo.head := indexNext_eq hQ hv.head_lt
  have htail : indexNext Q s.fifo.tail = next Q s.fifo.tail := indexNext_eq hQ hv.tail_lt
  cases step_queue h with
  | quiet _ _ hfifo htails hev =>
      rw [hev, hfifo, busy_congr htails]
      exact ⟨⟨by rw [hfifo]; exact hv, by rw [hfifo, htails]; exact hs.loops⟩, .quiet _ _⟩
  | «open» hopen hfifo htails hev =>
      -- an empty fifo stays empty, and no message is being handled
      have hlen := hv.contents_eq_nil.mpr (hempty hopen)
      have hpos : 0 < Q := by have := hv.head_lt; omega
      have hzero := (zero_valid hpos).contents_eq_nil.mpr rfl
      have hidle : loopTails s.stack = [] := by
        rcases hs.loops with h0 | ⟨-, hne⟩
        · exact h0
        · exact absurd (hempty hopen) hne
      rw [hev, hfifo, hlen, hzero, busy_congr htails]
      exact ⟨⟨by rw [hfifo]; exact zero_valid hpos, Or.inl (htails.trans hidle)⟩, .quiet _ _⟩
  | hold msg _ hroom hfifo htails hev =>
      rw [hhead] at hroom hfifo
      have hfifo' : s'.fifo = s.fifo.push Q msg := hfifo
      rw [hev, hfifo', hv.contents_push hroom, busy_congr htails]
      refine ⟨⟨by rw [hfifo']; exact hv.push msg, ?_⟩, .hold _ _ _⟩
      rw [htails, hfifo']
      rcases hs.loops with h0 | ⟨h1, -⟩
      · exact Or.inl h0
      · exact Or.inr ⟨h1, Ne.symm hroom⟩
  | refuse msg ret _ hret hfifo htails hev =>
      rw [hev, hfifo, busy_congr htails]
      exact ⟨⟨by rw [hfifo]; exact hv, by rw [hfifo, htails]; exact hs.loops⟩,
        .refuse _ _ _ _ hret⟩
  -- without re-entry the slot after the tail is not being handled
  | parse henter hne hfifo htails hev =>
      have hidle := hreentry henter
      rw [htail] at htails hev
      rw [hidle] at htails
      have hb : busy s = false := by rw [busy, hidle]; rfl
      rw [hev, hfifo, hv.contents_cons hne, hb, Sound.busy_of_tails htails]
      exact ⟨⟨by rw [hfifo]; exact hv, Or.inr ⟨by rw [htails, hfifo], by rw [hfifo]; exact hne⟩⟩,
        .parse _ _⟩
  | handle henter hne hfifo htails hev =>
      have hidle := hreentry henter
      rw [htail] at hfifo hev
      have hfifo' : s'.fifo = s.fifo.pop Q := hfifo
      have hb : busy s = false := by rw [busy, hidle]; rfl
      rw [hev, hfifo', hv.contents_cons hne, busy_congr htails, hb]
      exact ⟨⟨by rw [hfifo']; exact hv.pop, Or.inl (htails.trans hidle)⟩, .handle _ _⟩
  -- the one `icap_loop` under way has the slot after the tail
  | release tailNext _ _ hfifo htails hev =>
      rcases hs.loops with h0 | ⟨h1, hne⟩
      · rw [h0] at htails
        cases htails
      · rw [h1] at htails
        obtain ⟨rfl, hrest⟩ := List.cons.inj htails
        have hfifo' : s'.fifo = s.fifo.pop Q := hfifo
        have hb : busy s' = false := by rw [busy, ← hrest]; rfl
        rw [hev, hfifo', hv.contents_cons hne, hb, Sound.busy_of_tails h1]
        exact ⟨⟨by rw [hfifo']; exact hv.pop, Or.inl hrest.symm⟩, .release _ _⟩

end

end Icap.BareMetal
