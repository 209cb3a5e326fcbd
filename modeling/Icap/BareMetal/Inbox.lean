import Icap.BareMetal.Handling

set_option autoImplicit false

/-! # The inbox

What is left of a bare-metal instance that only receives: messages put by the interrupt are
handled in order, one at a time, and the program calls `icap_loop` between them. The inbox
forgets the indices and the slots of the fifo and the stack of activations. It and the machine
refine each other step by step (`Receiving.step`, `Receiving.step_of_inbox`).
-/

namespace Icap.BareMetal

open RingBuffer Transition

/-! ## The inbox as a machine -/

/-- An instance and, inside a callback, the rest of the handler. -/
structure Desk where
  icap : Instance
  pending : Option (CallbackResult → Parse U32)

/-- `icap_loop` hands over a message, or the running callback returns; with what
`rpmsg_lite_send` returns. -/
inductive Turn where
  | message (msg : IcapRemoteMsg) (sendRet : U32)
  | result (r : CallbackResult) (sendRet : U32)

/-- Run a handler up to its end or its next callback. -/
def Desk.resume (icap : Instance) (sendRet : U32) (p : Parse U32) : Desk × List Event :=
  let (t, ev, progress) := runParse sendRet icap.transport p
  (⟨{ icap with transport := t }, progress.pending⟩, ev)

def Desk.turn (d : Desk) : Turn → Option (Desk × List Event)
  | .message msg sendRet =>
      match d.pending with
      | none =>
          let (icap, p) := icapParseMsg bareMetal d.icap msg.srcAddr msg.data.mem msg.size
          let (d', ev) := Desk.resume icap sendRet p
          some (d', .parsed msg :: ev)
      | some _ => none
  | .result r sendRet =>
      match d.pending with
      | none => none
      | some k => some (Desk.resume d.icap sendRet (k r))

/-- The oldest message stays in the queue until its handler has returned. -/
structure Inbox where
  desk : Desk
  queue : List IcapRemoteMsg

def Inbox.turn (b : Inbox) (t : Turn) : Option (Inbox × List Event) :=
  match b.desk.turn t with
  | none => none
  | some (d, ev) => some (⟨d, if d.pending.isSome then b.queue else b.queue.tail⟩, ev)

def Inbox.step (b : Inbox) : Input → Option (Inbox × List Event)
  | .putMsg msg => some (⟨b.desk, b.queue ++ [msg]⟩, [])
  | .loop sendRet =>
      match b.queue with
      | [] => some (b, [])
      | msg :: _ => b.turn (.message msg sendRet)
  | .callbackRet r sendRet => b.turn (.result r sendRet)
  | _ => none

def inbox : Machine Inbox Input Event := ⟨Inbox.step⟩

/-! ## The steps of an inbox -/

/-- The desk on its own, which takes turns. -/
def desk : Machine Desk Turn Event := ⟨Desk.turn⟩

/-- The inbox after a turn of its desk. -/
def Inbox.after (b : Inbox) (d : Desk) : Inbox :=
  ⟨d, if d.pending.isSome then b.queue else b.queue.tail⟩

/-- Every step of an inbox is one of these. -/
inductive InboxCase (b : Inbox) : Input → Inbox → List Event → Prop
  | put (msg : IcapRemoteMsg) : InboxCase b (.putMsg msg) ⟨b.desk, b.queue ++ [msg]⟩ []
  | empty (sendRet : U32) (hqueue : b.queue = []) : InboxCase b (.loop sendRet) b []
  | message (sendRet : U32) (msg : IcapRemoteMsg) (rest : List IcapRemoteMsg) (icap : Instance)
      (p : Parse U32) (hqueue : b.queue = msg :: rest) (hidle : b.desk.pending = none)
      (hp : icapParseMsg bareMetal b.desk.icap msg.srcAddr msg.data.mem msg.size = (icap, p)) :
      InboxCase b (.loop sendRet) (b.after (Desk.resume icap sendRet p).1)
        (.parsed msg :: (Desk.resume icap sendRet p).2)
  | result (r : CallbackResult) (sendRet : U32) (k : CallbackResult → Parse U32)
      (hpending : b.desk.pending = some k) :
      InboxCase b (.callbackRet r sendRet)
        (b.after (Desk.resume b.desk.icap sendRet (k r)).1)
        (Desk.resume b.desk.icap sendRet (k r)).2

theorem inbox_cases {b b' : Inbox} {i : Input} {ev : List Event}
    (h : b.step i = some (b', ev)) : InboxCase b i b' ev := by
  cases i with
  | putMsg msg =>
      obtain ⟨rfl, rfl⟩ := Prod.mk.inj (Option.some.inj h)
      exact .put msg
  | loop sendRet =>
      cases hqueue : b.queue with
      | nil =>
          simp only [Inbox.step, hqueue] at h
          obtain ⟨rfl, rfl⟩ := Prod.mk.inj (Option.some.inj h)
          exact .empty sendRet hqueue
      | cons msg rest =>
          simp only [Inbox.step, hqueue, Inbox.turn, Desk.turn] at h
          cases hpending : b.desk.pending with
          | some k =>
              simp only [hpending] at h
              cases h
          | none =>
              rcases hp : icapParseMsg bareMetal b.desk.icap msg.srcAddr msg.data.mem msg.size with
                ⟨icap, p⟩
              simp only [hpending, hp, ← hqueue] at h
              obtain ⟨rfl, rfl⟩ := Prod.mk.inj (Option.some.inj h)
              exact .message sendRet msg rest icap p hqueue hpending hp
  | callbackRet r sendRet =>
      simp only [Inbox.step, Inbox.turn, Desk.turn] at h
      cases hpending : b.desk.pending with
      | none =>
          simp only [hpending] at h
          cases h
      | some k =>
          simp only [hpending] at h
          obtain ⟨rfl, rfl⟩ := Prod.mk.inj (Option.some.inj h)
          exact .result r sendRet k hpending
  | _ => cases h

theorem Inbox.step_message {b : Inbox} (sendRet : U32) {msg : IcapRemoteMsg}
    {rest : List IcapRemoteMsg} {icap : Instance} {p : Parse U32} (hqueue : b.queue = msg :: rest)
    (hidle : b.desk.pending = none)
    (hp : icapParseMsg bareMetal b.desk.icap msg.srcAddr msg.data.mem msg.size = (icap, p)) :
    b.step (.loop sendRet) = some (b.after (Desk.resume icap sendRet p).1,
      .parsed msg :: (Desk.resume icap sendRet p).2) := by
  simp only [Inbox.step, hqueue]
  simp only [Inbox.turn, Desk.turn, hidle, hp]
  rfl

theorem Inbox.step_result {b : Inbox} (r : CallbackResult) (sendRet : U32)
    {k : CallbackResult → Parse U32} (hpending : b.desk.pending = some k) :
    b.step (.callbackRet r sendRet) = some (b.after (Desk.resume b.desk.icap sendRet (k r)).1,
      (Desk.resume b.desk.icap sendRet (k r)).2) := by
  simp only [Inbox.step, Inbox.turn, Desk.turn, hpending]
  rfl

/-- A handler changes nothing of the instance but the last response. -/
theorem Desk.resume_identity (icap : Instance) (sendRet : U32) (p : Parse U32) :
    identity (Desk.resume icap sendRet p).1.icap = identity icap := by
  have haddr := runParse_remoteAddr sendRet icap.transport p
  unfold Desk.resume
  generalize runParse sendRet icap.transport p = run at haddr
  obtain ⟨t, ev, progress⟩ := run
  exact congrArg (fun addr => (icap.callbacks, icap.type, addr)) haddr

/-! ## The inbox of a state -/

/-- Parsing, callbacks, sends and stored responses. -/
def Event.onDesk : Event → Bool
  | .parsed _ => true
  | .invoked _ => true
  | .sent _ _ _ _ => true
  | .stored _ => true
  | _ => false

def withFifo (icap : Instance) (fifo : IcapMsgFifo) : Instance :=
  { icap with transport := { icap.transport with msgFifo := fifo } }

def inboxOf (Q : Nat) (s : State) : Inbox :=
  ⟨⟨withFifo s.icap .zero, (pendingHandlers s.stack).head?⟩, s.fifo.contents Q⟩

/-- Frames are put while there is room, and the program calls `icap_loop` outside the
callbacks. -/
def Traffic (Q : Nat) (_ : Trace Input Event) (s : State) : Input → Prop
  | .putMsg msg => msg.srcAddr ≠ -1 ∧ indexNext Q s.fifo.head ≠ s.fifo.tail
  | .loop _ => s.stack = []
  | .callbackRet _ _ => True
  | _ => False

/-- The same for an inbox of the same size. -/
def Room (Q : Nat) (_ : Trace Input Event) (b : Inbox) : Input → Prop
  | .putMsg msg => msg.srcAddr ≠ -1 ∧ b.queue.length + 1 < Q
  | _ => True

/-- An initialised instance with nothing running but the `icap_loop` that handles the oldest
message. -/
structure Receiving (Q : Nat) (s : State) : Prop where
  valid : Ring.Valid Q s.fifo
  callbacks : s.icap.callbacks ≠ none
  stack : s.stack = [] ∨ s.fifo.tail ≠ s.fifo.head ∧
    ∃ k, s.stack = [.loop (next Q s.fifo.tail) k]

/-! ## Handlers without the fifo -/

theorem runParse_withFifo (sendRet : U32) (t : IcapTransport) (fifo : IcapMsgFifo)
    (p : Parse U32) :
    runParse sendRet { t with msgFifo := fifo } p
      = ({ (runParse sendRet t p).1 with msgFifo := fifo }, (runParse sendRet t p).2) := by
  induction p generalizing t with
  | done ret => rfl
  | callback c k _ => rfl
  | sendPlatform frame k ih =>
      simp only [runParse]
      rw [ih]
      rfl
  | responseNotify response k ih =>
      have h := ih 0 (icapResponseNotify t response).1
      simp only [runParse, icapResponseNotify] at h ⊢
      rw [h]

theorem icapVerifyRemote_withFifo (t : IcapTransport) (fifo : IcapMsgFifo) (srcAddr : U32) :
    icapVerifyRemote { t with msgFifo := fifo } srcAddr
      = ({ (icapVerifyRemote t srcAddr).1 with msgFifo := fifo },
        (icapVerifyRemote t srcAddr).2) := by
  unfold icapVerifyRemote
  split_ifs <;> rfl

theorem icapParseMsg_withFifo (icap : Instance) (fifo : IcapMsgFifo) (srcAddr : U32)
    (msg : IcapMsg) (size : U32) :
    icapParseMsg bareMetal (withFifo icap fifo) srcAddr msg size
      = (withFifo (icapParseMsg bareMetal icap srcAddr msg size).1 fifo,
        (icapParseMsg bareMetal icap srcAddr msg size).2) :=
  icapParseMsg_map (P := bareMetal) (f := fun t => { t with msgFifo := fifo })
    (fun t => icapVerifyRemote_withFifo t fifo) icap srcAddr msg size

/-- Everything a handler shows happens at the desk. -/
theorem runParse_onDesk (sendRet : U32) (t : IcapTransport) (p : Parse U32) :
    (runParse sendRet t p).2.1.filter Event.onDesk = (runParse sendRet t p).2.1 := by
  induction p generalizing t with
  | done ret => rfl
  | callback c k _ => rfl
  | sendPlatform frame k ih => exact congrArg (icapSendPlatform t frame :: ·) (ih sendRet t)
  | responseNotify response k ih => exact congrArg (Event.stored response :: ·) (ih _ _)

/-! ## `icap_loop` at the desk -/

/-- The stack of an `icap_loop` that the program has called. -/
def loopStack (tailNext : Nat) : Option (CallbackResult → Parse U32) → List Activation
  | none => []
  | some k => [.loop tailNext k]

@[simp] theorem loopStack_pending (tailNext : Nat) (k : Option (CallbackResult → Parse U32)) :
    (pendingHandlers (loopStack tailNext k)).head? = k := by
  cases k <;> rfl

/-- Going on with a handler, seen from the desk. -/
theorem loopParse_desk (icap : Instance) (tailNext : Nat) (sendRet : U32) (p : Parse U32) :
    let r := loopParse icap tailNext sendRet [] p
    let d := Desk.resume (withFifo icap .zero) sendRet p
    withFifo r.1.icap .zero = d.1.icap ∧ r.1.stack = loopStack tailNext d.1.pending ∧
      r.2.filter Event.onDesk = d.2 ∧
      r.1.fifo = if d.1.pending.isSome then icap.transport.msgFifo
        else { icap.transport.msgFifo with tail := tailNext } := by
  have hfifo := runParse_fifo sendRet icap.transport p
  have hdesk := runParse_onDesk sendRet icap.transport p
  have hwith : runParse sendRet (withFifo icap .zero).transport p = _ :=
    runParse_withFifo sendRet icap.transport .zero p
  intro r d
  have hd : d = Desk.resume (withFifo icap .zero) sendRet p := rfl
  unfold Desk.resume at hd
  rw [hwith] at hd
  have hr : r = loopParse icap tailNext sendRet [] p := rfl
  unfold loopParse at hr
  generalize runParse sendRet icap.transport p = run at hfifo hdesk hd hr
  obtain ⟨t, ev, progress⟩ := run
  simp only at hfifo hdesk
  cases progress with
  -- in a callback the message keeps its slot
  | callback k =>
      rw [hd, hr]
      refine ⟨rfl, rfl, hdesk, ?_⟩
      rw [← hfifo]
      rfl
  | done ret =>
      rw [hd, hr]
      refine ⟨rfl, rfl, ?_, ?_⟩
      · rw [List.filter_append, hdesk]
        exact List.append_nil _
      · rw [← hfifo]
        rfl

/-! ## Refinement -/

section

variable {Q : Nat} {tr : Trace Input Event} {tr' : Trace Input Event} {s s' : State} {i : Input}
  {ev : List Event}

/-- The desk is idle exactly when no `icap_loop` has been left in a callback. -/
theorem Receiving.idle_iff (h : Receiving Q s) :
    (inboxOf Q s).desk.pending = none ↔ s.stack = [] := by
  rcases h.stack with hs | ⟨-, k, hs⟩
  · simp [inboxOf, hs, pendingHandlers]
  · simp [inboxOf, hs, pendingHandlers]

/-- An `icap_loop` at the desk leaves the message at the tail, or takes it. -/
theorem Receiving.of_desk (hvalid : Ring.Valid Q s.fifo) (hne : s.fifo.tail ≠ s.fifo.head)
    {icap : Instance} (hicap : icap.transport.msgFifo = s.fifo) (hcb : icap.callbacks ≠ none)
    {sendRet : U32} {p : Parse U32}
    (h : (loopParse icap (next Q s.fifo.tail) sendRet [] p).1 = s') :
    Receiving Q s' ∧ inboxOf Q s' = ⟨(Desk.resume (withFifo icap .zero) sendRet p).1,
      if (Desk.resume (withFifo icap .zero) sendRet p).1.pending.isSome then s.fifo.contents Q
      else (s.fifo.contents Q).tail⟩ := by
  obtain ⟨hwith, hstack, -, hfifo⟩ := loopParse_desk icap (next Q s.fifo.tail) sendRet p
  obtain ⟨t, ht⟩ := loopParse_icap icap (next Q s.fifo.tail) sendRet [] p
  rw [hicap] at hfifo
  rw [h] at hwith hstack hfifo ht
  have hcb' : s'.icap.callbacks ≠ none := by rwa [ht]
  generalize Desk.resume (withFifo icap .zero) sendRet p = r at hwith hstack hfifo ⊢
  obtain ⟨⟨icap', pending⟩, ev'⟩ := r
  simp only at hwith hstack hfifo ⊢
  rw [inboxOf, hwith, hstack, loopStack_pending]
  cases pending with
  -- the handler has returned: the message is taken
  | none =>
      have hpop : s'.fifo = s.fifo.pop Q := hfifo
      rw [hpop, hvalid.contents_cons hne]
      exact ⟨⟨by rw [hpop]; exact hvalid.pop, hcb', Or.inl hstack⟩, rfl⟩
  | some k =>
      have hsame : s'.fifo = s.fifo := hfifo
      rw [hsame]
      exact ⟨⟨by rw [hsame]; exact hvalid, hcb', Or.inr ⟨by rw [hsame]; exact hne, k,
        by rw [hsame]; exact hstack⟩⟩, rfl⟩

theorem Receiving.put (h : Receiving Q s) (hQ : Q < 2 ^ 16) (msg : IcapRemoteMsg)
    (hroom : indexNext Q s.fifo.head ≠ s.fifo.tail) :
    Receiving Q ⟨(icapPutMsg Q s.icap msg).1, s.stack⟩ ∧
      inboxOf Q ⟨(icapPutMsg Q s.icap msg).1, s.stack⟩
        = ⟨(inboxOf Q s).desk, (inboxOf Q s).queue ++ [msg]⟩ := by
  rcases icapPutMsg_cases Q s.icap msg with ⟨hcb, -⟩ | ⟨hfull, -⟩ | ⟨-, -, hput⟩
  · exact absurd hcb h.callbacks
  · exact absurd hfull hroom
  · rw [indexNext_eq hQ h.valid.head_lt] at hroom hput
    rw [hput]
    have hcontents : (s.fifo.push Q msg).contents Q = s.fifo.contents Q ++ [msg] :=
      h.valid.contents_push hroom msg
    refine ⟨⟨h.valid.push msg, h.callbacks, ?_⟩, ?_⟩
    · exact h.stack.imp id fun ⟨_, hk⟩ => ⟨Ne.symm hroom, hk⟩
    · exact congrArg (Inbox.mk (inboxOf Q s).desk) hcontents

/-- `icap_loop`, called with the oldest message waiting. -/
theorem Receiving.loop (h : Receiving Q s) (hQ : Q < 2 ^ 16) (hidle : s.stack = [])
    (hne : s.fifo.tail ≠ s.fifo.head) (sendRet : U32) :
    Receiving Q (icapLoop Q s.icap sendRet []).1 ∧
      (inboxOf Q s).turn (.message (s.fifo.slot (next Q s.fifo.tail)) sendRet)
        = some (inboxOf Q (icapLoop Q s.icap sendRet []).1,
          (icapLoop Q s.icap sendRet []).2.filter Event.onDesk) := by
  obtain ⟨msg, hmsg⟩ : ∃ msg, msg = s.fifo.slot (indexNext Q s.fifo.tail) := ⟨_, rfl⟩
  have htail := indexNext_eq hQ h.valid.tail_lt
  rcases hp : icapParseMsg bareMetal s.icap msg.srcAddr msg.data.mem msg.size with ⟨icap, p⟩
  have hicap := icapParseMsg_eq s.icap msg.srcAddr msg.data.mem msg.size
  have hwith := icapParseMsg_withFifo s.icap .zero msg.srcAddr msg.data.mem msg.size
  rw [hp] at hicap hwith
  obtain ⟨addr, hicap⟩ := hicap
  have hfifo : icap.transport.msgFifo = s.fifo := by rw [show icap = _ from hicap]
  have hcb : icap.callbacks ≠ none := by
    rw [show icap = _ from hicap]
    exact h.callbacks
  rw [icapLoop_parse hne hmsg hp, ← htail, ← hmsg, htail]
  obtain ⟨hreceiving, hinbox⟩ := Receiving.of_desk h.valid hne hfifo hcb rfl
  refine ⟨hreceiving, ?_⟩
  rw [hinbox]
  have hev := (loopParse_desk icap (next Q s.fifo.tail) sendRet p).2.2.1
  have hpending : (inboxOf Q s).desk.pending = none := h.idle_iff.mpr hidle
  have hdesk : (inboxOf Q s).desk.icap = withFifo s.icap .zero := rfl
  simp only [Inbox.turn, Desk.turn, hpending, hdesk, hwith]
  rw [List.filter_cons_of_pos rfl, hev]
  rfl

/-- The callback returns. -/
theorem Receiving.callbackRet (h : Receiving Q s) {tailNext : Nat} {k : CallbackResult → Parse U32}
    {rest : List Activation} (hstack : s.stack = .loop tailNext k :: rest) (r : CallbackResult)
    (sendRet : U32) :
    Receiving Q (loopParse s.icap tailNext sendRet rest (k r)).1 ∧
      (inboxOf Q s).turn (.result r sendRet)
        = some (inboxOf Q (loopParse s.icap tailNext sendRet rest (k r)).1,
          (loopParse s.icap tailNext sendRet rest (k r)).2.filter Event.onDesk) := by
  obtain ⟨hne, rfl, rfl⟩ : s.fifo.tail ≠ s.fifo.head ∧ tailNext = next Q s.fifo.tail ∧
      rest = [] := by
    rcases h.stack with hs | ⟨hne, k', hs⟩
    · rw [hs] at hstack
      cases hstack
    · rw [hs] at hstack
      simp only [List.cons.injEq, Activation.loop.injEq] at hstack
      exact ⟨hne, hstack.1.1.symm, hstack.2.symm⟩
  obtain ⟨hreceiving, hinbox⟩ := Receiving.of_desk h.valid hne rfl h.callbacks rfl
  refine ⟨hreceiving, ?_⟩
  rw [hinbox]
  have hev := (loopParse_desk s.icap (next Q s.fifo.tail) sendRet (k r)).2.2.1
  have hpending : (inboxOf Q s).desk.pending = some k := by
    rw [inboxOf, hstack]
    rfl
  have hdesk : (inboxOf Q s).desk.icap = withFifo s.icap .zero := rfl
  simp only [Inbox.turn, Desk.turn, hpending, hdesk, hev]
  rfl

theorem lifecycleResult_not_traffic {r : Instance × U32}
    (hr : lifecycleResult s.icap i = some r) : ¬ Traffic Q tr s i := by
  cases i <;> first | exact id | cases hr

/-- **The machine refines the inbox** on the same inputs. -/
theorem Receiving.step (h : Receiving Q s) (hQ : Q < 2 ^ 16) (hok : Traffic Q tr s i)
    (hstep : BareMetal.step Q s i = some (s', ev)) :
    Receiving Q s' ∧ (inboxOf Q s).step i = some (inboxOf Q s', ev.filter Event.onDesk) := by
  cases step_cases hstep with
  | putMsg msg =>
      obtain ⟨hreceiving, hinbox⟩ := h.put hQ msg hok.2
      rw [hinbox]
      exact ⟨hreceiving, rfl⟩
  | lifecycle r hr => exact absurd hok (lifecycleResult_not_traffic hr)
  | refused | waits | notifies | pass | polls | timesOut => exact hok.elim
  | loop sendRet =>
      have hidle : s.stack = [] := hok
      rw [hidle]
      by_cases hne : s.fifo.tail = s.fifo.head
      · have hqueue : (inboxOf Q s).queue = [] := h.valid.contents_eq_nil.mpr hne
        have hloop : icapLoop Q s.icap sendRet [] = (s, [.loopReturned 0]) := by
          obtain ⟨icap, stack⟩ := s
          subst hidle
          exact icapLoop_empty hne
        rw [hloop]
        simp only [Inbox.step, hqueue]
        exact ⟨h, rfl⟩
      · have hqueue : (inboxOf Q s).queue = _ := h.valid.contents_cons hne
        simp only [Inbox.step, hqueue]
        exact h.loop hQ hidle hne sendRet
  | resumes r sendRet tailNext k rest hstack => exact h.callbackRet hstack r sendRet

/-- **The inbox refines the machine**: what the inbox can do, the machine does. -/
theorem Receiving.step_of_inbox (h : Receiving Q s) (hQ : Q < 2 ^ 16) {b : Inbox}
    (hok : Room Q tr' (inboxOf Q s) i) (hstep : (inboxOf Q s).step i = some (b, ev)) :
    ∃ s' ev', Traffic Q tr s i ∧ BareMetal.step Q s i = some (s', ev') := by
  cases i with
  -- room in the inbox is a free slot of the fifo
  | putMsg msg =>
      obtain ⟨hsrc, hroom⟩ := hok
      refine ⟨_, _, ⟨hsrc, ?_⟩, rfl⟩
      rw [indexNext_eq hQ h.valid.head_lt, Ne, h.valid.next_head_eq_tail, ← Ring.contents_length]
      exact Nat.ne_of_lt hroom
  | loop sendRet =>
      have hidle : s.stack = [] := by
        rcases h.stack with hs | ⟨hne, k, hs⟩
        · exact hs
        · -- the inbox refuses a message while one is being handled
          have hqueue : (inboxOf Q s).queue = _ := h.valid.contents_cons hne
          have hpending : (inboxOf Q s).desk.pending = some k := by
            rw [inboxOf, hs]
            rfl
          simp only [Inbox.step, hqueue, Inbox.turn, Desk.turn, hpending] at hstep
          cases hstep
      refine ⟨(icapLoop Q s.icap sendRet s.stack).1, (icapLoop Q s.icap sendRet s.stack).2,
        hidle, ?_⟩
      simp only [BareMetal.step, hidle, programRuns, if_true]
  | callbackRet r sendRet =>
      rcases h.stack with hs | ⟨hne, k, hs⟩
      · have hpending : (inboxOf Q s).desk.pending = none := h.idle_iff.mpr hs
        simp only [Inbox.step, Inbox.turn, Desk.turn, hpending] at hstep
        cases hstep
      · refine ⟨(loopParse s.icap (next Q s.fifo.tail) sendRet [] (k r)).1,
          (loopParse s.icap (next Q s.fifo.tail) sendRet [] (k r)).2, trivial, ?_⟩
        simp only [BareMetal.step, hs]
  | _ => cases hstep

theorem Receiving.room (h : Receiving Q s) (hQ : Q < 2 ^ 16) (hok : Traffic Q tr s i) :
    Room Q tr' (inboxOf Q s) i := by
  cases i with
  | putMsg msg =>
      obtain ⟨hsrc, hroom⟩ := hok
      rw [indexNext_eq hQ h.valid.head_lt, Ne, h.valid.next_head_eq_tail, ← Ring.contents_length]
        at hroom
      have hlt := h.valid.count_lt
      rw [← Ring.contents_length] at hlt
      exact ⟨hsrc, Nat.lt_of_le_of_ne hlt hroom⟩
  | _ => trivial

/-! ## Runs -/

/-- A trace of the machine, seen from the desk. -/
def deskTrace (tr : Trace Input Event) : Trace Input Event :=
  tr.map fun e => (e.1, e.2.filter Event.onDesk)

theorem deskTrace_snoc (tr : Trace Input Event) (i : Input) (ev : List Event) :
    deskTrace (tr ++ [(i, ev)]) = deskTrace tr ++ [(i, ev.filter Event.onDesk)] := by
  simp [deskTrace]

/-- A run of the machine is a run of the inbox. -/
theorem Receiving.run {s₀ : State} (h : Receiving Q s₀) (hQ : Q < 2 ^ 16)
    (hrun : (machine Q).Run (Traffic Q) s₀ tr s) :
    Receiving Q s ∧ inbox.Run (Room Q) (inboxOf Q s₀) (deskTrace tr) (inboxOf Q s) := by
  induction hrun with
  | start => exact ⟨h, .start⟩
  | step hr hok hs ih =>
      obtain ⟨hreceiving, hinbox⟩ := ih
      obtain ⟨hreceiving', hstep⟩ := hreceiving.step hQ hok hs
      rw [deskTrace_snoc]
      exact ⟨hreceiving', hinbox.step (hreceiving.room hQ hok) hstep⟩

/-- A run of the inbox is one of the machine. -/
theorem Receiving.run_of_inbox {s₀ : State} (h : Receiving Q s₀) (hQ : Q < 2 ^ 16) {b : Inbox}
    (hrun : inbox.Run (Room Q) (inboxOf Q s₀) tr' b) :
    ∃ tr s, (machine Q).Run (Traffic Q) s₀ tr s ∧ Receiving Q s ∧ inboxOf Q s = b ∧
      deskTrace tr = tr' := by
  induction hrun with
  | start => exact ⟨[], s₀, .start, h, rfl, rfl⟩
  | step _ hok hs ih =>
      obtain ⟨tr, s, hr, hreceiving, rfl, rfl⟩ := ih
      obtain ⟨s', ev', hok', hs'⟩ := hreceiving.step_of_inbox hQ hok hs
      obtain ⟨hreceiving', hstep⟩ := hreceiving.step hQ hok' hs'
      -- both descriptions of the step end in one inbox
      obtain ⟨rfl, rfl⟩ := Prod.mk.inj (Option.some.inj (hs.symm.trans hstep))
      exact ⟨tr ++ [(_, ev')], s', hr.step hok' hs', hreceiving', rfl, deskTrace_snoc _ _ _⟩

/-- An init leaves an empty inbox that knows no peer. -/
theorem Receiving.of_init {before : State} {i₀ : Input} {ev₀ : List Event} (hQ : 0 < Q)
    (hidle : before.stack = []) (hopen : opensTransport before i₀ = true)
    (hinit : BareMetal.step Q before i₀ = some (s, ev₀)) :
    Receiving Q s ∧ s.icap.transport.remoteAddr = -1 ∧ s.fifo.contents Q = [] := by
  cases step_cases hinit with
  | lifecycle r hr =>
      rcases lifecycleResult_cases hr with ⟨-, ht, -, hcb⟩ | ⟨hnot, -⟩
      · have hvalid : Ring.Valid Q IcapMsgFifo.zero := ⟨hQ, hQ⟩
        have hfifo : r.1.transport.msgFifo = .zero := congrArg IcapTransport.msgFifo ht
        refine ⟨⟨by rw [State.fifo, hfifo]; exact hvalid, hcb, Or.inl hidle⟩, ?_, ?_⟩
        · exact congrArg IcapTransport.remoteAddr ht
        · rw [State.fifo, hfifo]
          exact hvalid.contents_eq_nil.mpr rfl
      · simp [hopen] at hnot
  | _ => cases hopen

end

end Icap.BareMetal
