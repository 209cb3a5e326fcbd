import Icap.Basic.NestedCounter
import Icap.BareMetal.Session

set_option autoImplicit false

/-! # Device functions in interrupts

The single accesses of `icap_send_msg` to the instance, in the device functions, which do not wait
and may be called in interrupts: at any point of a running call an interrupt may run further calls
to their end. `icap_platform_lock` keeps none of them out on this platform, so the seq_num, which
is incremented and loaded again in separate accesses, is unique exactly when no call begins between
these accesses of another (`seqNums_unique_iff`).
-/

namespace Icap.BareMetal.Preemption

open ByteMemory Transition NestedCounter

/-! ## Running calls -/

def icapPlatformLock (icap : Instance) : Instance := icap

def icapPlatformUnlock (icap : Instance) : Instance := icap

/-- `icap_send_msg`: the next access, with the local variables it needs. What it does between two
accesses touches only its own variables. -/
inductive Access where
  | lock
  /-- `icap->seq_num++` loads the counter. -/
  | loadCount
  /-- `icap->seq_num++` stores the counter. -/
  | storeCount (count : U32)
  /-- `seq_num = icap->seq_num` -/
  | loadSeqNum
  | unlock (seqNum : U32)
  | sendPlatform (seqNum : U32)

/-- A running `icap_send_msg` with the payload it has copied; `ret` is what the device function
makes of its return value. -/
structure Sender where
  call : ApiCall
  cmd : U32
  payload : List Byte
  ret : U32 → CallResult
  access : Access

/-- The instance and the running calls, innermost first. -/
structure State where
  icap : Instance
  senders : List Sender

inductive Input where
  /-- The program, or an interrupt of what runs, calls a device function; `uninit` is the memory
  of an uninitialised `response`. -/
  | call (c : ApiCall) (uninit : Mem)
  /-- The innermost call makes its next access; `rpmsg_lite_send`, if it is that, returns
  `sendRet`. -/
  | access (sendRet : U32)

/-- A device function up to the first access of its `icap_send_msg`. -/
def enter (c : ApiCall) (uninit : Mem) : Option Sender × List Event :=
  match c.call with
  | .done r => (none, [.returned c r])
  | .sendMsg cmd data _ _ k =>
      match icapSendMsgPayload data with
      | none => (none, [.returned c (k (-ICAP_ERROR_MSG_LEN) uninit)])
      | some payload => (some ⟨c, cmd, payload, fun ret => k ret uninit, .lock⟩, [])

/-- One access: the instance after it, the next access and what it shows. -/
def stepAccess (icap : Instance) (r : Sender) (sendRet : U32) :
    Access → Instance × Option Access × List Event
  | .lock => (icapPlatformLock icap, some .loadCount, [])
  | .loadCount => (icap, some (.storeCount icap.seqNum), [])
  | .storeCount count => ({ icap with seqNum := count + 1 }, some .loadSeqNum, [])
  | .loadSeqNum => (icap, some (.unlock icap.seqNum), [])
  | .unlock seqNum => (icapPlatformUnlock icap, some (.sendPlatform seqNum), [])
  | .sendPlatform seqNum =>
      (icap, none, [icapSendPlatform icap.transport (icapMsgFrame r.cmd ICAP_MSG seqNum r.payload),
        .returned r.call (r.ret sendRet)])

def step (s : State) : Input → Option (State × List Event)
  | .call c uninit =>
      if c.sync then none
      else
        let (sender, ev) := enter c uninit
        some (⟨s.icap, sender.toList ++ s.senders⟩, ev)
  | .access sendRet =>
      match s.senders with
      | [] => none
      | r :: rest =>
          let (icap, next, ev) := stepAccess s.icap r sendRet r.access
          some (⟨icap, (next.map fun a => { r with access := a }).toList ++ rest⟩, ev)

def machine : Machine State Input Event := ⟨step⟩

/-- A device instance after `icap_device_init`, with no call running. -/
def initialised (icap : Instance) (name : Nat) (cb : CallbackTable) (priv : Nat) : State :=
  ⟨(icapDeviceInit bareMetal icap name (some cb) priv).1, []⟩

/-! ## Seq_nums -/

/-- The seq_nums of the frames handed to `rpmsg_lite_send`, in order. -/
def seqNums (tr : Trace Input Event) : List U32 :=
  (tr.events.filterMap Event.frame).map frameSeqNum

def Input.isCall : Input → Bool
  | .call _ _ => true
  | .access _ => false

/-- The number of calls of device functions. -/
def calls (tr : Trace Input Event) : Nat := tr.countP fun e => e.1.isCall

/-- The call has loaded the counter to increment it, and not yet loaded its seq_num. -/
def Access.counting : Access → Bool
  | .storeCount _ => true
  | .loadSeqNum => true
  | _ => false

/-- The input is not a call that sends, made while another is between its accesses to the
counter. -/
def Undisturbed (s : State) : Input → Prop
  | .call c _ => (c.request 0).isSome → ∀ r ∈ s.senders, r.access.counting = false
  | .access _ => True

/-- A call that no interrupt disturbs is the call of the machine in `BareMetal/Machine.lean`. -/
theorem exec_call {c : ApiCall} (hsync : c.sync = false) (icap : Instance) (now sendRet : U32)
    (uninit : Mem) (stack : List Activation) :
    let run := machine.exec [] ⟨icap, []⟩ (.call c uninit :: List.replicate 6 (.access sendRet))
    run.2.icap = (startCall icap c now sendRet uninit stack).1.icap ∧ run.2.senders = [] ∧
      run.1.events = (startCall icap c now sendRet uninit stack).2 := by
  have hcall := c.call_sends
  cases hc : c.call with
  | done r =>
      have hstep : step ⟨icap, []⟩ (.call c uninit) = some (⟨icap, []⟩, [.returned c r]) := by
        simp only [step, enter, hsync, hc]
        rfl
      simp only [Machine.exec, machine, hstep, startCall, hc]
      exact ⟨rfl, rfl, rfl⟩
  | sendMsg cmd data sync wants k =>
      rw [hc] at hcall
      have hpayload := icapSendMsgPayload_of_sends hcall
      have hs : sync = false := hcall.1.trans hsync
      have hstep : step ⟨icap, []⟩ (.call c uninit) = some (⟨icap,
          [⟨c, cmd, data.getD [], fun ret => k ret uninit, .lock⟩]⟩, []) := by
        simp only [step, enter, hsync, hc, hpayload]
        rfl
      simp only [Machine.exec, machine, hstep, startCall, hc, hpayload, hs]
      exact ⟨rfl, rfl, rfl⟩

/-! ## The counter of a run -/

/-- How far an access is with the counter. -/
def Access.phase : Access → Phase
  | .lock => .entered
  | .loadCount => .entered
  | .storeCount count => .loaded count.toNat
  | .loadSeqNum => .stored
  | .unlock seqNum => .took seqNum.toNat
  | .sendPlatform seqNum => .took seqNum.toNat

/-- The calls of a run as activations that share the counter. -/
def view (tr : Trace Input Event) (s : State) : Nesting where
  count := s.icap.seqNum.toNat
  active := s.senders.map fun r => r.access.phase
  given := (seqNums tr).map BitVec.toNat

@[simp] theorem phase_counting (a : Access) : a.phase.counting = a.counting := by
  cases a <;> rfl

@[simp] theorem seqNums_snoc (tr : Trace Input Event) (i : Input) (ev : List Event) :
    seqNums (tr ++ [(i, ev)]) = seqNums tr ++ (ev.filterMap Event.frame).map frameSeqNum := by
  simp [seqNums]

theorem calls_call (tr : Trace Input Event) (c : ApiCall) (uninit : Mem) (ev : List Event) :
    calls (tr ++ [(.call c uninit, ev)]) = calls tr + 1 := by
  rw [calls, List.countP_append]
  rfl

theorem calls_access (tr : Trace Input Event) (sendRet : U32) (ev : List Event) :
    calls (tr ++ [(.access sendRet, ev)]) = calls tr := by
  rw [calls, List.countP_append]
  rfl

/-- Every frame of `icap_send_msg` carries the seq_num that it has loaded. -/
theorem frameSeqNum_frame (cmd type n : U32) (payload : List Byte) :
    frameSeqNum (icapMsgFrame cmd type n payload) = n :=
  (frameAt_of_holds (holds_ofList _)).seqNum

section

variable {tr : Trace Input Event} {s s' : State} {i : Input} {ev : List Event}

/-- What a step does to the calls and their counter. -/
inductive ViewStep (tr : Trace Input Event) (s : State) :
    Input → List Event → State → Prop
  /-- The call returns without sending. -/
  | refused (c : ApiCall) (uninit : Mem) (ev : List Event) (s' : State)
      (hsends : (c.request 0).isSome = false)
      (h : view (tr ++ [(.call c uninit, ev)]) s' = view tr s) :
      ViewStep tr s (.call c uninit) ev s'
  | enters (c : ApiCall) (uninit : Mem) (ev : List Event) (s' : State)
      (hsends : (c.request 0).isSome = true)
      (h : view (tr ++ [(.call c uninit, ev)]) s' = (view tr s).enter) :
      ViewStep tr s (.call c uninit) ev s'
  /-- The access leaves the counter alone. -/
  | rests (sendRet : U32) (ev : List Event) (s' : State)
      (h : view (tr ++ [(.access sendRet, ev)]) s' = view tr s) :
      ViewStep tr s (.access sendRet) ev s'
  | advances (sendRet : U32) (ev : List Event) (s' : State)
      (h : view (tr ++ [(.access sendRet, ev)]) s' = (view tr s).advance) :
      ViewStep tr s (.access sendRet) ev s'

theorem step_call_view {c : ApiCall} {uninit : Mem} (h : step s (.call c uninit) = some (s', ev)) :
    ViewStep tr s (.call c uninit) ev s' := by
  have hcall := c.call_sends
  simp only [step] at h
  split_ifs at h with hsync
  obtain ⟨rfl, rfl⟩ := Prod.mk.inj (Option.some.inj h)
  cases hc : c.call with
  | done r =>
      refine .refused c uninit _ _ (by simp only [ApiCall.request, hc]; rfl) ?_
      simp only [enter, hc, view, seqNums_snoc]
      simp [Event.frame]
  | sendMsg cmd data sync wants k =>
      rw [hc] at hcall
      have hpayload := icapSendMsgPayload_of_sends hcall
      refine .enters c uninit _ _ (by simp only [ApiCall.request, hc]; rfl) ?_
      simp only [enter, hc, hpayload, view, seqNums_snoc]
      simp [Nesting.enter, Access.phase]

theorem step_access_view {sendRet : U32} (hord : (view tr s).Ordered)
    (hbound : (view tr s).given.length + (view tr s).active.length < 2 ^ 32)
    (h : step s (.access sendRet) = some (s', ev)) : ViewStep tr s (.access sendRet) ev s' := by
  obtain ⟨icap, senders⟩ := s
  cases senders with
  | nil => cases h
  | cons r rest =>
      obtain ⟨rfl, rfl⟩ := Prod.mk.inj (Option.some.inj h)
      have hactive : (view tr ⟨icap, r :: rest⟩).active
          = r.access.phase :: rest.map fun r => r.access.phase := rfl
      obtain ⟨call, cmd, payload, ret, access⟩ := r
      cases access with
      | lock =>
          refine .rests sendRet _ _ ?_
          simp only [view, seqNums_snoc]
          simp [Access.phase, icapPlatformLock]
      | loadCount =>
          refine .advances sendRet _ _ ?_
          rw [Nesting.advance_entered hactive]
          simp only [view, seqNums_snoc]
          simp [Access.phase]
      | storeCount count =>
          have hlt := hord.loaded_lt hactive
          have hcount : (count + 1).toNat = count.toNat + 1 := toNat_add_one (by omega)
          refine .advances sendRet _ _ ?_
          rw [Nesting.advance_loaded hactive]
          simp only [view, seqNums_snoc, hcount]
          simp [Access.phase]
      | loadSeqNum =>
          refine .advances sendRet _ _ ?_
          rw [Nesting.advance_stored hactive]
          simp only [view, seqNums_snoc]
          simp [Access.phase]
      | unlock seqNum =>
          refine .rests sendRet _ _ ?_
          simp only [view, seqNums_snoc]
          simp [Access.phase, icapPlatformUnlock]
      | sendPlatform seqNum =>
          refine .advances sendRet _ _ ?_
          rw [Nesting.advance_took hactive]
          simp only [view, seqNums_snoc]
          simp [Event.frame, icapSendPlatform, frameSeqNum_frame]

/-- A call that sends is undisturbed exactly when no activation of the counter is between its
loads. -/
theorem undisturbed_view (tr : Trace Input Event) (s : State) :
    (∀ r ∈ s.senders, r.access.counting = false) ↔ (view tr s).Undisturbed := by
  simp [view, Nesting.Undisturbed]

/-- What holds of the counter in every run of fewer than 2^32 calls. -/
structure Counted (tr : Trace Input Event) (s : State) : Prop where
  ordered : (view tr s).Ordered
  bound : (view tr s).given.length + (view tr s).active.length ≤ calls tr

theorem Counted.of_step (h : Counted tr s) (hcalls : calls tr < 2 ^ 32)
    (hstep : step s i = some (s', ev)) :
    ViewStep tr s i ev s' ∧ Counted (tr ++ [(i, ev)]) s' := by
  have hview : ViewStep tr s i ev s' := by
    cases i with
    | call c uninit => exact step_call_view hstep
    | access sendRet => exact step_access_view h.ordered (h.bound.trans_lt hcalls) hstep
  refine ⟨hview, ?_⟩
  have hbound := h.bound
  cases hview with
  | refused c uninit ev s' _ hv =>
      refine ⟨by rw [hv]; exact h.ordered, ?_⟩
      rw [hv, calls_call]
      omega
  | enters c uninit ev s' _ hv =>
      refine ⟨by rw [hv]; exact h.ordered.enter, ?_⟩
      rw [hv, calls_call]
      exact Nat.succ_le_succ hbound
  | rests sendRet ev s' hv =>
      refine ⟨by rw [hv]; exact h.ordered, ?_⟩
      rw [hv, calls_access]
      exact hbound
  | advances sendRet ev s' hv =>
      refine ⟨by rw [hv]; exact h.ordered.advance, ?_⟩
      rw [hv, calls_access, Nesting.advance_length]
      exact hbound

theorem calls_of_snoc (h : calls (tr ++ [(i, ev)]) < 2 ^ 32) : calls tr < 2 ^ 32 := by
  rw [calls, List.countP_append] at h
  exact (Nat.le_add_right _ _).trans_lt h

variable {s₀ : State} {ok : Trace Input Event → State → Input → Prop}

theorem run_counted (hrun : machine.Run ok s₀ tr s) (h0 : view [] s₀ = ⟨0, [], []⟩)
    (hcalls : calls tr < 2 ^ 32) : Counted tr s := by
  induction hrun with
  | start =>
      constructor <;> rw [h0]
      · exact ⟨.nil, nofun, le_rfl⟩
      · exact le_rfl
  | step _ _ hstep ih =>
      have hless := calls_of_snoc hcalls
      exact ((ih hless).of_step hless hstep).2

/-- The counter of an undisturbed run. -/
theorem run_sound (hrun : machine.Run (fun _ s i => Undisturbed s i) s₀ tr s)
    (h0 : view [] s₀ = ⟨0, [], []⟩) (hcalls : calls tr < 2 ^ 32) : (view tr s).Sound := by
  induction hrun with
  | start =>
      rw [h0]
      exact ⟨nofun, nofun, rfl, .nil, nofun, nofun⟩
  | @step tr s s' i ev hr hok hstep ih =>
      have hless := calls_of_snoc hcalls
      have hsound := ih hless
      cases ((run_counted hr h0 hless).of_step hless hstep).1 with
      | refused c uninit ev s' _ hv => rw [hv]; exact hsound
      | enters c uninit ev s' hsends hv =>
          rw [hv]
          exact hsound.enter ((undisturbed_view tr s).mp (hok hsends))
      | rests sendRet ev s' hv => rw [hv]; exact hsound
      | advances sendRet ev s' hv => rw [hv]; exact hsound.advance

/-- A run is undisturbed, or its counter is doomed from the first call on that disturbs another. -/
theorem undisturbed_or_doomed (hrun : machine.Run ok s₀ tr s) (h0 : view [] s₀ = ⟨0, [], []⟩)
    (hcalls : calls tr < 2 ^ 32) :
    machine.Run (fun _ s i => Undisturbed s i) s₀ tr s ∨ (view tr s).Doomed := by
  induction hrun with
  | start => exact Or.inl .start
  | @step tr s s' i ev hr _ hstep ih =>
      have hless := calls_of_snoc hcalls
      have hcounted := run_counted hr h0 hless
      cases (hcounted.of_step hless hstep).1 with
      | refused c uninit ev s' hsends hv =>
          rw [hv]
          refine (ih hless).imp_left fun hr => .step hr (fun hs => ?_) hstep
          rw [hsends] at hs
          cases hs
      | enters c uninit ev s' hsends hv =>
          rw [hv]
          rcases ih hless with hr | hdoomed
          · by_cases hquiet : (view tr s).Undisturbed
            · exact Or.inl (.step hr (fun _ => (undisturbed_view tr s).mpr hquiet) hstep)
            · exact Or.inr (.of_disturbed hquiet)
          · exact Or.inr hdoomed.enter
      | rests sendRet ev s' hv =>
          rw [hv]
          exact (ih hless).imp_left fun hr => .step hr trivial hstep
      | advances sendRet ev s' hv =>
          rw [hv]
          exact (ih hless).imp (fun hr => .step hr trivial hstep)
            fun hdoomed => hdoomed.advance hcounted.ordered

theorem unique_view :
    (view tr s).Unique ↔ (seqNums tr).Nodup ∧ s.icap.seqNum.toNat = (seqNums tr).length := by
  have hinj : Function.Injective (BitVec.toNat (w := 32)) := fun _ _ => BitVec.eq_of_toNat_eq
  simp only [Nesting.Unique, view, List.nodup_map_iff hinj, List.length_map]

end

/-- **Seq_nums under interrupts.** In a run of fewer than 2^32 calls of the device functions on one
instance, interrupted by further calls at any access, the frames carry pairwise distinct seq_nums
and the counter is their number at the end, exactly when no call that sends begins while another is
between its accesses to the counter. -/
theorem seqNums_unique_iff {icap : Instance} {name priv : Nat} {cb : CallbackTable}
    {tr : Trace Input Event} {s : State}
    (hrun : machine.Run (fun _ _ _ => True) (initialised icap name cb priv) tr s)
    (hdone : s.senders = []) (hcalls : calls tr < 2 ^ 32) :
    ((seqNums tr).Nodup ∧ s.icap.seqNum.toNat = (seqNums tr).length) ↔
      machine.Run (fun _ s i => Undisturbed s i) (initialised icap name cb priv) tr s := by
  have h0 : view [] (initialised icap name cb priv) = ⟨0, [], []⟩ := rfl
  have hactive : (view tr s).active = [] := by simp [view, hdone]
  rw [← unique_view]
  constructor
  · intro hunique
    rcases undisturbed_or_doomed hrun h0 hcalls with hr | hdoomed
    · exact hr
    · exact absurd hunique (hdoomed.not_unique hactive)
  · intro hr
    exact (run_sound hr h0 hcalls).unique hactive

/-! ## Two interrupted calls -/

/-- The accesses of the innermost call. -/
def accesses (n : Nat) : List Input := List.replicate n (.access 0)

/-- `icap_frag_ready`, interrupted after its first `n` accesses by `icap_xrun`. -/
def interruptedAfter (n : Nat) : List Input :=
  .call (.fragReady (some (Vector.replicate 8 0))) (fun _ => 0) :: accesses n
    ++ .call (.xrun (some (Vector.replicate 8 0))) (fun _ => 0) :: accesses 6 ++ accesses (6 - n)

def firstInit : State := initialised (zeroedInstance 0 0) 0 (fun _ => false) 0

/-- Interrupted before it sends, the call has its seq_num. -/
theorem seqNums_unique_iff_interrupted :
    (seqNums (machine.exec [] firstInit (interruptedAfter 5)).1).Nodup ∧
      (machine.exec [] firstInit (interruptedAfter 5)).2.icap.seqNum.toNat
        = (seqNums (machine.exec [] firstInit (interruptedAfter 5)).1).length := by
  have hrun : machine.Run (fun _ _ _ => True) firstInit _ _ :=
    Machine.Run.start.exec_of_forall (interruptedAfter 5) fun _ _ _ => trivial
  refine (seqNums_unique_iff hrun rfl (by decide +kernel)).mpr ?_
  refine Machine.Run.start.exec _ ⟨fun _ => nofun, trivial, trivial, trivial, trivial, trivial,
    fun _ r hr => ?_, trivial, trivial, trivial, trivial, trivial, trivial, trivial, trivial⟩
  rw [List.mem_singleton.mp hr]
  rfl

/-- Interrupted between the load and the store, both calls send seq_num 1 and the counter is 1;
interrupted between the store and the second load, both send seq_num 2. -/
theorem seqNums_collide :
    machine.Run (fun _ _ _ => True) firstInit (machine.exec [] firstInit (interruptedAfter 2)).1
      (machine.exec [] firstInit (interruptedAfter 2)).2 ∧
    seqNums (machine.exec [] firstInit (interruptedAfter 2)).1 = [1, 1] ∧
    (machine.exec [] firstInit (interruptedAfter 2)).2.icap.seqNum = 1 ∧
    (machine.exec [] firstInit (interruptedAfter 2)).2.senders.length = 0 ∧
    seqNums (machine.exec [] firstInit (interruptedAfter 3)).1 = [2, 2] := by
  refine ⟨Machine.Run.start.exec_of_forall _ fun _ _ _ => trivial, ?_, ?_, ?_, ?_⟩ <;>
    decide +kernel

end Icap.BareMetal.Preemption
