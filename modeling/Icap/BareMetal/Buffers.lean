import Icap.BareMetal.Queue

set_option autoImplicit false

/-! # Held receive buffers

A buffer is held from the `icap_put_msg` that returns `RL_HOLD` until it is given to
`rpmsg_lite_release_rx_buffer`. The buffers held are those stored in the occupied slots of
the fifo in every state of a run exactly when no init of the run empties a fifo that is not
empty (`buffers_conserved_iff`): an init forgets the buffers it finds.
-/

namespace Icap.BareMetal

open RingBuffer Transition

/-! ## What is held -/

def QueueEvent.taken : QueueEvent → Option Nat
  | .put msg .hold => some msg.data.addr
  | _ => none

theorem QueueEvent.taken_refused {m : IcapRemoteMsg} {ret : PutResult} (hret : ret ≠ .hold) :
    QueueEvent.taken (.put m ret) = none := by
  cases ret with
  | hold => exact absurd rfl hret
  | noBuff => rfl
  | error e => rfl

def QueueEvent.givenBack : QueueEvent → Option Nat
  | .released addr => some addr
  | _ => none

/-- The buffers for which `icap_put_msg` returned `RL_HOLD`. -/
def takenBuffers (tr : Trace Input Event) : List Nat :=
  (queueEvents tr.events).filterMap QueueEvent.taken

/-- The buffers given to `rpmsg_lite_release_rx_buffer`. -/
def releasedBuffers (tr : Trace Input Event) : List Nat :=
  (queueEvents tr.events).filterMap QueueEvent.givenBack

/-- The buffers in the occupied slots. -/
def storedBuffers (Q : Nat) (s : State) : List Nat :=
  (s.fifo.contents Q).map fun msg => msg.data.addr

/-- Every buffer taken has been released once, or is in one occupied slot and not yet
released. -/
def Conserved (Q : Nat) (tr : Trace Input Event) (s : State) : Prop :=
  (takenBuffers tr).Perm (releasedBuffers tr ++ storedBuffers Q s)

/-! ## Conditions on a step -/

/-- No `icap_loop` is entered while another one is in a callback. -/
def NoReentry (_ : Trace Input Event) (s : State) (i : Input) : Prop :=
  entersLoop i = true → loopTails s.stack = []

/-- An init that is not refused finds the fifo empty. -/
def OpensEmpty (_ : Trace Input Event) (s : State) (i : Input) : Prop :=
  opensTransport s i = true → s.fifo.tail = s.fifo.head

/-! ## Conservation -/

theorem takenBuffers_snoc (tr : Trace Input Event) (i : Input) (ev : List Event) :
    takenBuffers (tr ++ [(i, ev)])
      = takenBuffers tr ++ (queueEvents ev).filterMap QueueEvent.taken := by
  simp [takenBuffers]

theorem releasedBuffers_snoc (tr : Trace Input Event) (i : Input) (ev : List Event) :
    releasedBuffers (tr ++ [(i, ev)])
      = releasedBuffers tr ++ (queueEvents ev).filterMap QueueEvent.givenBack := by
  simp [releasedBuffers]

section

variable {Q : Nat} {tr : Trace Input Event} {s s' : State} {i : Input} {ev : List Event}

/-- A step of the queue keeps the buffers. -/
theorem Conserved.of_step (h : Conserved Q tr s)
    (hstep : FifoStep (s.fifo.contents Q) (busy s) (s'.fifo.contents Q) (busy s')
      (queueEvents ev)) : Conserved Q (tr ++ [(i, ev)]) s' := by
  unfold Conserved storedBuffers at h ⊢
  rw [takenBuffers_snoc, releasedBuffers_snoc]
  -- from here on only the queue of messages matters
  generalize s.fifo.contents Q = c, busy s = b, s'.fifo.contents Q = c', busy s' = b',
    queueEvents ev = qs at h hstep ⊢
  cases hstep with
  | quiet => simpa using h
  | refuse _ _ m ret hret =>
      simpa [QueueEvent.taken_refused hret, QueueEvent.givenBack, List.filterMap_cons] using h
  | hold _ _ m =>
      have := h.append_right [m.data.addr]
      simpa [QueueEvent.taken, QueueEvent.givenBack, List.filterMap_cons] using this
  | parse m c => simpa [QueueEvent.taken, QueueEvent.givenBack, List.filterMap_cons] using h
  | handle m c => simpa [QueueEvent.taken, QueueEvent.givenBack, List.filterMap_cons] using h
  | release m c => simpa [QueueEvent.taken, QueueEvent.givenBack, List.filterMap_cons] using h

theorem zeroed_sound (hQ : 0 < Q) (rpmsgInstance rpmsgEpt : Nat) :
    Sound Q (State.zeroed rpmsgInstance rpmsgEpt) := ⟨zero_valid hQ, Or.inl rfl⟩

theorem run_conserved (hQ : 0 < Q) (hQ' : Q < 2 ^ 16) {rpmsgInstance rpmsgEpt : Nat}
    (hrun : (machine Q).Run (fun tr s i => NoReentry tr s i ∧ OpensEmpty tr s i)
      (State.zeroed rpmsgInstance rpmsgEpt) tr s) : Sound Q s ∧ Conserved Q tr s := by
  refine hrun.invariant (I := fun tr s => Sound Q s ∧ Conserved Q tr s) ⟨zeroed_sound hQ _ _, ?_⟩
    ?_
  · have hempty := (zero_valid hQ).contents_eq_nil.mpr rfl
    simp only [Conserved, storedBuffers, State.zeroed, State.fifo, zeroedInstance, hempty]
    exact List.Perm.refl _
  · rintro tr s s' i ev - ⟨hsound, hcons⟩ ⟨hreentry, hopen⟩ hstep
    obtain ⟨hsound', hfifo⟩ := hsound.of_step hQ' hreentry hopen hstep
    exact ⟨hsound', hcons.of_step hfifo⟩

/-- An init that finds messages in the fifo forgets their buffers. -/
theorem not_conserved_of_open (hsound : Sound Q s) (hcons : Conserved Q tr s) (hQ : 0 < Q)
    (hopen : ¬ OpensEmpty tr s i) (hstep : step Q s i = some (s', ev)) :
    ¬ Conserved Q (tr ++ [(i, ev)]) s' := by
  obtain ⟨ho, hne⟩ : opensTransport s i = true ∧ s.fifo.tail ≠ s.fifo.head := by
    simpa [OpensEmpty] using hopen
  have hlost : (s.fifo.contents Q).length ≠ 0 := fun h =>
    hne (hsound.valid.contents_eq_nil.mp (List.length_eq_zero_iff.mp h))
  -- the init empties the fifo without a release, so one side of the permutation gets shorter
  intro hcons'
  unfold Conserved storedBuffers at hcons hcons'
  rw [takenBuffers_snoc, releasedBuffers_snoc] at hcons'
  have hlen := hcons.length_eq
  cases step_queue hstep with
  | «open» _ hfifo _ hev =>
      rw [hev, hfifo, (zero_valid hQ).contents_eq_nil.mpr rfl] at hcons'
      have hlen' := hcons'.length_eq
      simp only [List.filterMap_nil, List.append_nil, List.map_nil, List.length_append,
        List.length_map] at hlen hlen'
      omega
  | quiet hopen' => simp [ho] at hopen'
  | release _ hopen' => simp [ho] at hopen'
  | hold _ hi => subst hi; cases ho
  | refuse _ _ hi => subst hi; cases ho
  | parse henter => cases i <;> first | cases ho | cases henter
  | handle henter => cases i <;> first | cases ho | cases henter

end

/-- **Held buffers are conserved** in every state of a run without re-entry exactly when every
init of the run that is not refused finds the fifo empty. -/
theorem buffers_conserved_iff {Q : Nat} (hQ : 0 < Q) (hQ' : Q < 2 ^ 16)
    {rpmsgInstance rpmsgEpt : Nat} {tr : Trace Input Event} {s : State}
    (hrun : (machine Q).Run NoReentry (State.zeroed rpmsgInstance rpmsgEpt) tr s) :
    (∀ tr' s', tr' <+: tr →
      (machine Q).Run NoReentry (State.zeroed rpmsgInstance rpmsgEpt) tr' s' →
        Conserved Q tr' s') ↔
      (machine Q).Run (fun tr s i => NoReentry tr s i ∧ OpensEmpty tr s i)
        (State.zeroed rpmsgInstance rpmsgEpt) tr s := by
  refine hrun.forall_prefix_iff (fun _ _ hr => (run_conserved hQ hQ' hr).2) ?_
  intro tr s s' i ev hr _ hopen hstep
  obtain ⟨hsound, hcons⟩ := run_conserved hQ hQ' hr
  exact not_conserved_of_open hsound hcons hQ hopen hstep

/-! ## A run that leaks a buffer -/

/-- A message of 40 bytes in the buffer at address 4096. -/
def someMsg : IcapRemoteMsg :=
  ⟨⟨4096, ByteMemory.ofList (icapMsgFrame ICAP_MSG_GET_DEV_NUM ICAP_MSG 1 [])⟩, 40, 7⟩

/-- The application is closed and opened again while a message waits. -/
def leakingInputs : List Input :=
  [.applicationInit 0 (some fun _ => false) 0, .putMsg someMsg, .applicationDeinit,
    .applicationInit 0 (some fun _ => false) 0]

theorem buffers_leaked : ∃ tr s, (machine 10).Run NoReentry (State.zeroed 0 0) tr s ∧
    ¬ Conserved 10 tr s := by
  refine ⟨_, _, Machine.Run.start.exec leakingInputs ?_, fun h => ?_⟩
  · exact ⟨nofun, nofun, nofun, nofun, trivial⟩
  · exact absurd h.length_eq (by decide)

/-- The same calls, with the message handled before the application is closed. -/
def handlingInputs : List Input :=
  [.applicationInit 0 (some fun _ => false) 0, .putMsg someMsg, .loop 0, .applicationDeinit,
    .applicationInit 0 (some fun _ => false) 0]

theorem buffers_conserved_iff_handled :
    ∃ tr s, (machine 10).Run NoReentry (State.zeroed 0 0) tr s ∧ takenBuffers tr = [4096] ∧
      Conserved 10 tr s := by
  have hrun : (machine 10).Run NoReentry (State.zeroed 0 0)
      ((machine 10).exec [] (State.zeroed 0 0) handlingInputs).1
      ((machine 10).exec [] (State.zeroed 0 0) handlingInputs).2 :=
    Machine.Run.start.exec _ ⟨nofun, nofun, fun _ => rfl, nofun, nofun, trivial⟩
  refine ⟨_, _, hrun, rfl, ?_⟩
  refine (buffers_conserved_iff (by omega) (by omega) hrun).mpr ?_ _ _ (List.prefix_refl _) hrun
  exact Machine.Run.start.exec handlingInputs
    ⟨⟨nofun, fun _ => rfl⟩, ⟨nofun, nofun⟩, ⟨fun _ => rfl, nofun⟩, ⟨nofun, nofun⟩,
      ⟨nofun, fun _ => rfl⟩, trivial⟩

end Icap.BareMetal
