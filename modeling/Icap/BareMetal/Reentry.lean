import Icap.BareMetal.Buffers

set_option autoImplicit false

/-! # Re-entering `icap_loop`

`icap_loop` publishes its tail only after the handler has returned, so an `icap_loop` that a
callback enters, through a synchronous call or directly, finds the message being handled at
the tail again. Over any run without an init, each queued message is parsed once, then
released once, in order, exactly when no callback enters `icap_loop`
(`exactlyOnce_iff_noReentry`).
-/

namespace Icap.BareMetal

open RingBuffer Transition

/-! ## Each message once -/

def QueueEvent.held : QueueEvent → Option IcapRemoteMsg
  | .put msg .hold => some msg
  | _ => none

theorem QueueEvent.held_refused {m : IcapRemoteMsg} {ret : PutResult} (hret : ret ≠ .hold) :
    QueueEvent.held (.put m ret) = none := by
  cases ret with
  | hold => exact absurd rfl hret
  | noBuff => rfl
  | error e => rfl

/-- The parsing of a message or the release of a buffer. -/
def QueueEvent.handles : QueueEvent → Bool
  | .put _ _ => false
  | _ => true

/-- The messages of the fifo at the start and those put since, oldest first. -/
def queuedMsgs (Q : Nat) (s₀ : State) (tr : Trace Input Event) : List IcapRemoteMsg :=
  s₀.fifo.contents Q ++ (queueEvents tr.events).filterMap QueueEvent.held

/-- The messages parsed and the buffers released, in the order in which it happened. -/
def handlingEvents (tr : Trace Input Event) : List QueueEvent :=
  (queueEvents tr.events).filter QueueEvent.handles

/-- What the handling of one message is. -/
def handled (msg : IcapRemoteMsg) : List QueueEvent := [.parsed msg, .released msg.data.addr]

/-- The queued messages have been parsed once and then released once each, in order, up to
the oldest that is left; the tail has moved forward by one slot for each release. -/
structure ExactlyOnce (Q : Nat) (s₀ : State) (tr : Trace Input Event) (s : State) : Prop where
  handling : handlingEvents tr <+: (queuedMsgs Q s₀ tr).flatMap handled
  remaining : s.fifo.contents Q = (queuedMsgs Q s₀ tr).drop (releasedBuffers tr).length
  tail : s.fifo.tail = (next Q)^[(releasedBuffers tr).length] s₀.fifo.tail

/-- The transport is not opened. -/
def NotOpened (_ : Trace Input Event) (s : State) (i : Input) : Prop :=
  opensTransport s i = false

/-! ## The invariant -/

theorem queuedMsgs_snoc (Q : Nat) (s₀ : State) (tr : Trace Input Event) (i : Input)
    (ev : List Event) :
    queuedMsgs Q s₀ (tr ++ [(i, ev)])
      = queuedMsgs Q s₀ tr ++ (queueEvents ev).filterMap QueueEvent.held := by
  simp [queuedMsgs]

theorem handlingEvents_snoc (tr : Trace Input Event) (i : Input) (ev : List Event) :
    handlingEvents (tr ++ [(i, ev)])
      = handlingEvents tr ++ (queueEvents ev).filter QueueEvent.handles := by
  simp [handlingEvents]

/-- The handling of the oldest message that has begun, if any. -/
def begun : Bool → List IcapRemoteMsg → List QueueEvent
  | true, m :: _ => [.parsed m]
  | _, _ => []

/-- The messages `past` are handled, the fifo holds the others, and the oldest of them is
being handled when the machine is busy. -/
structure InOrder (Q : Nat) (s₀ : State) (tr : Trace Input Event) (s : State)
    (past : List IcapRemoteMsg) : Prop where
  queued : queuedMsgs Q s₀ tr = past ++ s.fifo.contents Q
  handling : handlingEvents tr = past.flatMap handled ++ begun (busy s) (s.fifo.contents Q)
  released : (releasedBuffers tr).length = past.length
  tail : s.fifo.tail = (next Q)^[past.length] s₀.fifo.tail

section

variable {Q : Nat} {s₀ : State} {tr : Trace Input Event} {s s' : State} {i : Input}
  {ev : List Event} {past : List IcapRemoteMsg}

theorem begun_append (b : Bool) (c : List IcapRemoteMsg) (m : IcapRemoteMsg)
    (h : b = true → c ≠ []) : begun b (c ++ [m]) = begun b c := by
  cases b with
  | false => rfl
  | true =>
      cases c with
      | nil => exact absurd rfl (h rfl)
      | cons a c => rfl

theorem Sound.contents_ne_nil (h : Sound Q s) (hb : busy s = true) : s.fifo.contents Q ≠ [] := by
  rcases h.loops with h0 | ⟨-, hne⟩
  · rw [busy, h0] at hb
    cases hb
  · exact fun hc => hne (h.valid.contents_eq_nil.mp hc)

/-- The tail moves one slot for each release. -/
theorem Sound.step_tail (hs : Sound Q s) (hQ : Q < 2 ^ 16) (hopen : opensTransport s i = false)
    (hstep : step Q s i = some (s', ev)) :
    s'.fifo.tail
      = (next Q)^[((queueEvents ev).filterMap QueueEvent.givenBack).length] s.fifo.tail := by
  have htail := indexNext_eq hQ hs.valid.tail_lt
  cases step_queue hstep with
  | quiet _ _ hfifo _ hev => rw [hev, hfifo]; rfl
  | «open» ho => simp [hopen] at ho
  | hold msg _ _ hfifo _ hev => rw [hev, hfifo]; rfl
  | refuse msg ret _ _ hfifo _ hev => rw [hev, hfifo]; rfl
  | parse _ _ hfifo _ hev => rw [hev, hfifo]; rfl
  | handle _ _ hfifo _ hev => rw [hev, hfifo]; exact htail
  | release tailNext _ _ hfifo htails hev =>
      rcases hs.loops with h0 | ⟨h1, -⟩
      · rw [h0] at htails
        cases htails
      · rw [h1] at htails
        rw [hev, hfifo]
        exact (List.cons.inj htails).1.symm

theorem InOrder.of_step (h : InOrder Q s₀ tr s past) (hs : Sound Q s) (hQ : Q < 2 ^ 16)
    (hreentry : entersLoop i = true → loopTails s.stack = [])
    (hopen : opensTransport s i = false) (hstep : step Q s i = some (s', ev)) :
    ∃ past', InOrder Q s₀ (tr ++ [(i, ev)]) s' past' := by
  obtain ⟨-, hfifo⟩ := hs.of_step hQ hreentry (by simp [hopen]) hstep
  have htail := hs.step_tail hQ hopen hstep
  have hbusy := hs.contents_ne_nil
  obtain ⟨hq, hh, hr, ht⟩ := h
  rw [ht] at htail
  have hq' := queuedMsgs_snoc Q s₀ tr i ev
  have hh' := handlingEvents_snoc tr i ev
  have hr' := congrArg List.length (releasedBuffers_snoc tr i ev)
  rw [List.length_append, hr] at hr'
  rw [hq] at hq'
  rw [hh] at hh'
  -- one case for each step of the queue; the machine is no longer looked at
  generalize hc : s.fifo.contents Q = c at hfifo hq' hh' hbusy
  generalize hb : busy s = b at hfifo hh' hbusy
  generalize hc' : s'.fifo.contents Q = c' at hfifo
  generalize hb' : busy s' = b' at hfifo
  generalize hqs : queueEvents ev = qs at hfifo hq' hh' hr' htail
  cases hfifo with
  | quiet =>
      exact ⟨past, by rw [hq', hc']; simp, by rw [hh', hb', hc']; simp, hr', htail⟩
  | refuse _ _ m ret hret =>
      have hheld : QueueEvent.held (.put m ret) = none := QueueEvent.held_refused hret
      have hgiven : QueueEvent.givenBack (.put m ret) = none := rfl
      refine ⟨past, ?_, ?_, ?_, ?_⟩
      · rw [hq', hc']
        simp [hheld]
      · rw [hh', hb', hc']
        simp [QueueEvent.handles]
      · rw [hr']
        simp [hgiven]
      · simpa [hgiven] using htail
  | hold _ _ m =>
      refine ⟨past, ?_, ?_, hr', htail⟩
      · rw [hq', hc', List.append_assoc]
        rfl
      · rw [hh', hb', hc', begun_append _ _ _ hbusy]
        simp [QueueEvent.handles]
  -- the message stays the oldest of the queue until its buffer is released
  | parse m c =>
      refine ⟨past, ?_, ?_, hr', htail⟩
      · rw [hq', hc']
        simp [QueueEvent.held, List.filterMap_cons]
      · rw [hh', hb', hc']
        simp [begun, QueueEvent.handles]
  | handle m c =>
      refine ⟨past ++ [m], ?_, ?_, ?_, ?_⟩
      · rw [hq', hc']
        simp [QueueEvent.held, List.filterMap_cons]
      · rw [hh', hb', hc']
        simp [begun, handled, QueueEvent.handles]
      · rw [hr']
        simp [QueueEvent.givenBack, List.filterMap_cons]
      · rw [htail, List.length_append, List.length_singleton, Function.iterate_succ_apply']
        rfl
  -- its handling began with an earlier step
  | release m c =>
      refine ⟨past ++ [m], ?_, ?_, ?_, ?_⟩
      · rw [hq', hc']
        simp [QueueEvent.held, List.filterMap_cons]
      · rw [hh', hb', hc']
        simp [begun, handled, QueueEvent.handles]
      · rw [hr']
        simp [QueueEvent.givenBack]
      · rw [htail, List.length_append, List.length_singleton, Function.iterate_succ_apply']
        rfl

theorem begun_le (b : Bool) (c : List IcapRemoteMsg) : begun b c <+: c.flatMap handled := by
  cases b with
  | false => exact List.nil_prefix
  | true =>
      cases c with
      | nil => exact List.nil_prefix
      | cons m c => exact ⟨.released m.data.addr :: c.flatMap handled, rfl⟩

theorem InOrder.exactlyOnce (h : InOrder Q s₀ tr s past) : ExactlyOnce Q s₀ tr s where
  handling := by
    rw [h.queued, h.handling, List.flatMap_append]
    exact (List.prefix_append_right_inj _).mpr (begun_le _ _)
  remaining := by rw [h.queued, h.released, List.drop_left]
  tail := by rw [h.released, h.tail]

theorem run_inOrder (hQ : Q < 2 ^ 16) (hvalid : Ring.Valid Q s₀.fifo) (hstack : s₀.stack = [])
    (hrun : (machine Q).Run (fun tr s i => NotOpened tr s i ∧ NoReentry tr s i) s₀ tr s) :
    Sound Q s ∧ ∃ past, InOrder Q s₀ tr s past := by
  have hidle : loopTails s₀.stack = [] := by rw [hstack]; rfl
  refine hrun.invariant (I := fun tr s => Sound Q s ∧ ∃ past, InOrder Q s₀ tr s past)
    ⟨⟨hvalid, Or.inl hidle⟩, [], ?_⟩ ?_
  · have hb : busy s₀ = false := by rw [busy, hidle]; rfl
    exact ⟨by simp [queuedMsgs], by rw [hb]; rfl, rfl, rfl⟩
  · rintro tr s s' i ev - ⟨hs, past, hi⟩ ⟨hopen, hreentry⟩ hstep
    exact ⟨(hs.of_step hQ hreentry (by simp [show opensTransport s i = false from hopen])
      hstep).1, hi.of_step hs hQ hreentry hopen hstep⟩

/-- An `icap_loop` entered while a message is being handled parses that message again. -/
theorem InOrder.not_exactlyOnce (h : InOrder Q s₀ tr s past) (hs : Sound Q s)
    (hQ : Q < 2 ^ 16) (hreentry : ¬ NoReentry tr s i) (hopen : opensTransport s i = false)
    (hstep : step Q s i = some (s', ev)) : ¬ ExactlyOnce Q s₀ (tr ++ [(i, ev)]) s' := by
  obtain ⟨henter, hloops⟩ : entersLoop i = true ∧ loopTails s.stack ≠ [] := by
    simpa [NoReentry] using hreentry
  obtain ⟨h0, -⟩ | ⟨hloops', hne⟩ := hs.loops.imp (fun h => And.intro h trivial) id
  · exact absurd h0 hloops
  have hb := Sound.busy_of_tails hloops'
  have hc := hs.valid.contents_cons hne
  -- the step parses a message first, and puts none
  obtain ⟨qs, hheld, hev⟩ : ∃ qs, (QueueEvent.parsed (s.fifo.slot (next Q s.fifo.tail)) ::
      qs).filterMap QueueEvent.held = [] ∧
      queueEvents ev = .parsed (s.fifo.slot (next Q s.fifo.tail)) :: qs := by
    have htail := indexNext_eq hQ hs.valid.tail_lt
    cases step_queue hstep with
    | parse _ _ _ _ hev => exact ⟨[], rfl, by rw [hev, htail]⟩
    | handle _ _ _ _ hev => exact ⟨_, rfl, by rw [hev, htail]⟩
    | quiet _ hidle => exact absurd (hidle henter) hne
    | «open» ho => simp [hopen] at ho
    | hold _ hi => subst hi; cases henter
    | refuse _ _ hi => subst hi; cases henter
    | release _ _ hnot => simp [henter] at hnot
  -- the list of the handlings repeats the oldest message, which the fifo holds once
  intro honce
  have hp := honce.handling
  rw [handlingEvents_snoc, queuedMsgs_snoc, hev, hheld, h.handling, h.queued, hb, hc] at hp
  simp only [begun, List.append_nil, List.flatMap_append, List.flatMap_cons, List.append_assoc,
    List.prefix_append_right_inj, handled, List.cons_append, List.nil_append, List.filter_cons,
    QueueEvent.handles, if_true, List.cons_prefix_cons] at hp
  cases hp.2.1

end

/-- **Each message is handled once** in every state of a run, whatever the fifo held at its
start, exactly when no `icap_loop` is entered while another one is in a callback. -/
theorem exactlyOnce_iff_noReentry {Q : Nat} (hQ : Q < 2 ^ 16) {s₀ : State}
    (hvalid : Ring.Valid Q s₀.fifo) (hstack : s₀.stack = []) {tr : Trace Input Event} {s : State}
    (hrun : (machine Q).Run NotOpened s₀ tr s) :
    (∀ tr' s', tr' <+: tr → (machine Q).Run NotOpened s₀ tr' s' → ExactlyOnce Q s₀ tr' s') ↔
      (machine Q).Run (fun tr s i => NotOpened tr s i ∧ NoReentry tr s i) s₀ tr s := by
  refine hrun.forall_prefix_iff (fun tr s hr => ?_) ?_
  · obtain ⟨-, past, hpast⟩ := run_inOrder hQ hvalid hstack hr
    exact hpast.exactlyOnce
  · intro tr s s' i ev hr hopen hreentry hstep
    obtain ⟨hsound, past, hpast⟩ := run_inOrder hQ hvalid hstack hr
    exact hpast.not_exactlyOnce hsound hQ hreentry hopen hstep

/-! ## A callback that makes a synchronous call -/

/-- An application with a `frag_ready` callback and one `FRAG_READY` in its fifo. -/
def fragReadyState : State :=
  ((machine 10).exec [] (State.zeroed 0 0) [.applicationInit 0 (some (· = .fragReady)) 0,
    .putMsg ⟨⟨4096, ByteMemory.ofList (icapMsgFrame ICAP_MSG_FRAG_READY ICAP_MSG 1
      (List.replicate 8 0))⟩, 48, 7⟩]).2

/-- What the callback returns. -/
def handledResult : CallbackResult := ⟨0, Vector.replicate 28 0⟩

/-- The callback calls `icap_pause`, which times out. The message is parsed, and its buffer
released, by the `icap_loop` inside that call and by the one around it. -/
theorem reentry_handles_twice : ∃ tr s, (machine 10).Run NotOpened fragReadyState tr s ∧
    releasedBuffers tr = [4096, 4096] ∧ ¬ ExactlyOnce 10 fragReadyState tr s := by
  refine ⟨_, _, Machine.Run.start.exec [.loop 0, .call (.pause 1) 0 0 (fun _ => 0), .pass 0,
    .callbackRet handledResult 0, .clock 600000, .callbackRet handledResult 0] ?_, rfl,
    fun h => ?_⟩
  · exact ⟨rfl, rfl, rfl, rfl, rfl, rfl, trivial⟩
  · exact absurd h.handling.length_le (by decide)

/-- The callback makes no call. -/
theorem exactlyOnce_iff_noReentry_once : ∃ tr s,
    (machine 10).Run NotOpened fragReadyState tr s ∧ releasedBuffers tr = [4096] ∧
      ExactlyOnce 10 fragReadyState tr s := by
  have hvalid : Ring.Valid 10 fragReadyState.fifo := ⟨by decide, by decide⟩
  have hrun : (machine 10).Run NotOpened fragReadyState
      ((machine 10).exec [] fragReadyState [.loop 0, .callbackRet handledResult 0]).1
      ((machine 10).exec [] fragReadyState [.loop 0, .callbackRet handledResult 0]).2 :=
    Machine.Run.start.exec _ ⟨rfl, rfl, trivial⟩
  refine ⟨_, _, hrun, rfl, ?_⟩
  refine (exactlyOnce_iff_noReentry (by omega) hvalid rfl hrun).mpr ?_ _ _
    (List.prefix_refl _) hrun
  exact Machine.Run.start.exec _ ⟨⟨rfl, fun _ => rfl⟩, ⟨rfl, nofun⟩, trivial⟩

end Icap.BareMetal
