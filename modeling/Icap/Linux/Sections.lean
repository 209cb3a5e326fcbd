import Icap.Linux.Locks
import Icap.Linux.Calls
import Icap.Linux.Ownership

set_option autoImplicit false

/-! # The sections of the Linux instance are atomic

`Linux.machine` takes a section as one step. The locks make this right: whatever the order in which
the threads' single loads, stores and lock operations come, there is a run of `Linux.machine` with
the same events, in which every thread that is between two sections is where it is, as long as the
instance is neither initialised nor closed (`operations_refine`). Whether an skb has been freed is
not in the memory of the threads, so this is up to the faults that `Linux.machine` shows.
-/

namespace Icap.Linux

open ByteMemory Transition Locks

/-! ## Each section takes effect at once -/

/-- The actions that neither initialise the instance nor close it. -/
def Action.keepsOpen : Action → Bool
  | .deinitTransport => false
  | a => !a.opens && !a.closes

theorem Action.not_opens {a : Action} (h : a.keepsOpen = true) :
    a.opens = false ∧ a.closes = false := by
  cases a <;> simp_all [keepsOpen, opens, closes]

/-- The data that is copied to an skb in the queue is not seen yet. -/
theorem putData_seen {q : SkbQueue} {k : Nat} (hk : k ∈ q.responseQueue) (src : Mem) (n : Nat) :
    (q.transport.modify k fun b => b.putData src n).queue.seen = q.seen := by
  funext j
  by_cases hj : j = k
  · subst hj
    simp only [SkbQueue.seen, IcapTransport.queue, IcapTransport.modify, SkbQueue.transport, hk,
      if_true, Function.update_self, SkBuff.putData]
  · simp only [SkbQueue.seen, IcapTransport.queue, IcapTransport.modify, SkbQueue.transport,
      Function.update_of_ne hj]

namespace Operations

theorem startCall_atomic (c : ApiCall) (uninit : Mem) (m : ∀ l : Lock, l.Data) :
    (startCall c uninit).Atomic Lock.see false ∅ m := by
  unfold startCall
  split
  · simp [Code.Atomic]
  · split
    · simp [Code.Atomic]
    · simp [Code.Atomic]

theorem prepareWait_atomic (thread : Nat) (msg : Message) (mem : Option Mem)
    (m : ∀ l : Lock, l.Data) : (prepareWait thread msg mem).Atomic Lock.see false ∅ m := by
  refine ⟨rfl, fun rpdev => ⟨by simp, ?_⟩⟩
  simp only
  split
  · simp [Code.Atomic]
  · split
    · simp [Code.Atomic]
    · simp [Code.Atomic]

theorem sendPlatform_atomic (sent : Event) (sendRet : U32) (k : U32 → List Event × Thread)
    (m : ∀ l : Lock, l.Data) : (sendPlatform sent sendRet k).Atomic Lock.see false ∅ m := by
  simp [sendPlatform, Code.Atomic]

theorem releaseResponseLock_atomic (thread : Thread) (m : ∀ l : Lock, l.Data) :
    (releaseResponseLock thread).Atomic Lock.see true {.skbSpinlock, .responseLock} m :=
  ⟨rfl, by simp, rfl, by simp, by simp [Code.Atomic]⟩

theorem findHint_atomic (msg : Message) (m : ∀ l : Lock, l.Data) :
    (findHint msg).Atomic Lock.see false ∅ m := by
  refine ⟨rfl, fun _ => ⟨rfl, fun q => ⟨by simp, ?_⟩⟩⟩
  simp only
  split
  · exact ⟨rfl, by simp, releaseResponseLock_atomic _ _⟩
  · exact ⟨rfl, by simp, releaseResponseLock_atomic _ _⟩

theorem unlink_atomic (msg : Message) (skb : Nat) (timeout : WakeUp) (m : ∀ l : Lock, l.Data) :
    (unlink msg skb timeout).Atomic Lock.see false ∅ m :=
  ⟨rfl, fun _ => ⟨rfl, fun _ => ⟨rfl, by simp, releaseResponseLock_atomic _ _⟩⟩⟩

theorem result_atomic (msg : Message) (skb : Nat) (timeout : WakeUp) (m : ∀ l : Lock, l.Data) :
    (result msg skb timeout).Atomic Lock.see false ∅ m := by
  cases timeout with
  | response => exact ⟨rfl, fun _ => ⟨rfl, fun _ => rfl⟩⟩
  | signal => exact ⟨rfl, fun _ => rfl⟩
  | elapsed =>
      refine ⟨rfl, fun rpdev => ⟨by simp, ?_⟩⟩
      simp only
      split
      · simp [Code.Atomic]
      · simp [Code.Atomic]

theorem responseNotify_atomic (response : IcapMsg) (k : U32 → Parse U32)
    (m : ∀ l : Lock, l.Data) : (responseNotify response k).Atomic Lock.see false ∅ m := by
  refine ⟨rfl, fun q => ⟨by simp, ?_⟩⟩
  rw [Function.update_self]
  simp only
  split
  · rename_i skb hfind
    refine ⟨by simp, ?_, rfl, by simp, rfl, by simp, by simp [Code.Atomic]⟩
    rw [Function.update_self]
    exact putData_seen (findSeqNum_some hfind).1 _ _
  · simp [Code.Atomic]

end Operations

/-- Every section of an open instance takes its locks before it takes effect. -/
theorem operations_atomic {bits i : Nat} {th : Thread} {a : Action} {p : Operations}
    (ha : a.keepsOpen = true) (h : operations bits i th a = some p) (m : ∀ l : Lock, l.Data) :
    p.Atomic Lock.see false ∅ m := by
  unfold operations at h
  split at h
  · obtain rfl := Option.some.inj h
    exact Operations.startCall_atomic _ _ m
  · obtain rfl := Option.some.inj h
    exact Operations.prepareWait_atomic _ _ _ m
  · obtain rfl := Option.some.inj h
    exact Operations.sendPlatform_atomic _ _ _ m
  · obtain rfl := Option.some.inj h
    exact Operations.findHint_atomic _ m
  · obtain rfl := Option.some.inj h
    exact ⟨rfl, fun _ => ⟨rfl, fun _ => rfl⟩⟩
  · obtain rfl := Option.some.inj h
    exact Operations.unlink_atomic _ _ _ m
  · obtain rfl := Option.some.inj h
    exact Operations.result_atomic _ _ _ m
  · obtain rfl := Option.some.inj h
    exact ⟨rfl, by simp⟩
  · cases ha
  · cases ha
  · cases ha
  · obtain rfl := Option.some.inj h
    exact ⟨rfl, fun _ => ⟨rfl, fun _ => rfl⟩⟩
  · obtain rfl := Option.some.inj h
    exact ⟨rfl, by simp⟩
  · obtain rfl := Option.some.inj h
    exact Operations.sendPlatform_atomic _ _ _ m
  · obtain rfl := Option.some.inj h
    exact Operations.responseNotify_atomic _ _ m
  · obtain rfl := Option.some.inj h
    exact ⟨rfl, by simp⟩
  · cases h

/-! ## Each section does what the instance does -/

def Event.isFault : Event → Bool
  | .fault _ => true
  | _ => false

/-- The events but the faults. -/
def unfaulted (ev : List Event) : List Event := ev.filter fun e => !e.isFault

/-- A section of the instance as the memory sees it. -/
def asMemory : Instance × Thread × List Event → (∀ l : Lock, l.Data) × List Event × Thread
  | (icap, thread, ev) => (memory icap, unfaulted ev, thread)

@[simp] theorem unfaulted_append (ev ev' : List Event) :
    unfaulted (ev ++ ev') = unfaulted ev ++ unfaulted ev' :=
  List.filter_append _ _

@[simp] theorem unfaulted_useSkbs (t : IcapTransport) (ks : List Nat) :
    unfaulted (useSkbs t ks) = [] := by
  refine List.filter_eq_nil_iff.mpr fun e he => ?_
  obtain ⟨k, rfl⟩ := mem_useSkbs he
  simp [Event.isFault]

section

variable {icap : Instance}

/-- What is stored to the queue, for the instance. -/
theorem memory_store (f : IcapTransport → IcapTransport)
    (hrpdev : (f icap.transport).rpdev = icap.transport.rpdev)
    (hf : (f (memory icap .skbSpinlock).transport).queue = (f icap.transport).unfreed.queue) :
    Function.update (memory icap) .skbSpinlock (f (memory icap .skbSpinlock).transport).queue
      = memory { icap with transport := f icap.transport } := by
  funext l
  cases l with
  | skbSpinlock => exact hf
  | rpdevLock => exact hrpdev.symm
  | _ => rfl

theorem modify_unfreed {f : SkBuff → SkBuff}
    (hf : ∀ b : SkBuff, f { b with freed := false } = { f b with freed := false }) (skb : Nat) :
    ((memory icap .skbSpinlock).transport.modify skb f).queue
      = (icap.transport.modify skb f).unfreed.queue := by
  have hskbs : ((memory icap .skbSpinlock).transport.modify skb f).skbs
      = fun k => { (icap.transport.modify skb f).skbs k with freed := false } := by
    funext k
    by_cases hk : k = skb
    · rw [hk, modify_self, modify_self]
      exact hf _
    · rw [modify_of_ne hk, modify_of_ne hk]
      rfl
  exact congrArg (fun skbs => (⟨_, skbs, _⟩ : SkbQueue)) hskbs

theorem pushHint_unfreed (thread : Nat) (cmd seqNum : U32) (mem : Mem) :
    ((memory icap .skbSpinlock).transport.pushHint thread cmd seqNum mem).queue
      = (icap.transport.pushHint thread cmd seqNum mem).unfreed.queue := by
  have hskbs : ((memory icap .skbSpinlock).transport.pushHint thread cmd seqNum mem).skbs
      = fun k =>
        { (icap.transport.pushHint thread cmd seqNum mem).skbs k with freed := false } := by
    funext k
    by_cases hk : k = icap.transport.allocated
    · rw [hk, pushHint_self]
      exact pushHint_self _ _ _ _ _
    · rw [pushHint_of_ne hk]
      exact pushHint_of_ne hk
  exact congrArg (fun skbs => (⟨_, skbs, _⟩ : SkbQueue)) hskbs

theorem kfreeSkb_unfreed (t : IcapTransport) (skb : Nat) :
    (t.kfreeSkb skb).unfreed.queue = t.unfreed.queue := by
  have hskbs : (t.kfreeSkb skb).unfreed.skbs = t.unfreed.skbs := by
    funext k
    by_cases hk : k = skb
    · subst hk
      exact congrArg (fun b : SkBuff => { b with freed := false }) (modify_self _ _ _)
    · exact congrArg (fun b : SkBuff => { b with freed := false }) (modify_of_ne hk)
  exact congrArg (fun skbs => (⟨_, skbs, _⟩ : SkbQueue)) hskbs

theorem memory_id (l : Lock) : Function.update (memory icap) l (memory icap l) = memory icap :=
  Function.update_eq_self _ _

namespace Operations

theorem startCall_run (c : ApiCall) (uninit : Mem) :
    (startCall c uninit).run Lock.see (memory icap)
      = some (asMemory (Linux.startCall icap c uninit)) := by
  unfold startCall Linux.startCall
  cases hcall : c.call with
  | done r => rfl
  | sendMsg cmd data sync wantsResponse k =>
      cases hpayload : icapSendMsgPayload data with
      | none => simp only [hpayload]; rfl
      | some payload =>
          simp only [hpayload, Code.run, Option.map_some, Function.update_self, id,
            Function.update_idem]
          have hmem : Function.update (memory icap) .platformLock (icap.seqNum + 1)
              = memory (icapSendMsgSeqNum icap).1 := by
            funext l
            cases l <;> rfl
          exact congrArg some (Prod.ext hmem rfl)

theorem prepareWait_run (thread : Nat) (m : Message) (mem : Option Mem) :
    (prepareWait thread m mem).run Lock.see (memory icap)
      = some (asMemory (Linux.prepareWait icap thread m mem)) := by
  unfold prepareWait Linux.prepareWait icapPrepareWait
  simp only [Code.run]
  cases hrpdev : icap.transport.rpdev with
  | none =>
      rw [show memory icap .rpdevLock = none from hrpdev]
      simp only [Option.isNone_none, if_true, Code.run, id, memory_id, Option.map_some]
      rfl
  | some dst =>
      rw [show memory icap .rpdevLock = some dst from hrpdev]
      cases mem with
      | none =>
          simp only [Option.isNone_some, Bool.false_eq_true, if_false, Code.run, id, memory_id,
            Option.map_some]
          rfl
      | some mem =>
          simp only [Option.isNone_some, Bool.false_eq_true, if_false, Code.run, Option.map_some]
          rw [memory_store (fun t => t.pushHint thread m.cmd m.seqNum mem) rfl
            (pushHint_unfreed _ _ _ _)]
          rfl

theorem sendPlatform_run (sent : Event) (sendRet : U32) (k : U32 → List Event × Thread) :
    (sendPlatform sent sendRet k).run Lock.see (memory icap)
      = some (memory icap, (if icap.transport.rpdev.isSome then [sent] else []) ++
          (k (icapSendPlatform icap.transport sendRet)).1,
          (k (icapSendPlatform icap.transport sendRet)).2) := by
  simp only [sendPlatform, Code.run, id, memory_id, Option.map_some, List.append_nil]
  rfl

theorem sendMsg_run (m : Message) (sync : Bool) (sendRet : U32) :
    (sendMsg m sync sendRet).run Lock.see (memory icap)
      = some (asMemory (Linux.sendMsg icap m sync sendRet)) := by
  rw [sendMsg, sendPlatform_run]
  cases sync with
  | true =>
      cases hrpdev : icap.transport.rpdev <;>
        simp [Linux.sendMsg, hrpdev, asMemory, unfaulted, Event.isFault]
  | false =>
      cases hrpdev : icap.transport.rpdev <;>
        simp [Linux.sendMsg, hrpdev, asMemory, unfaulted, Event.isFault, Message.returns]

theorem findHint_run (m : Message) :
    (findHint m).run Lock.see (memory icap) = some (asMemory (Linux.findHint icap m)) := by
  have hfind : findSeqNum (memory icap .skbSpinlock : SkbQueue).transport m.seqNum
      = findSeqNum icap.transport m.seqNum := rfl
  unfold findHint underResponseLock Linux.findHint
  simp only [Code.run, hfind]
  cases findSeqNum icap.transport m.seqNum with
  | none =>
      simp only [releaseResponseLock, Code.run, id, memory_id, Option.map_some, asMemory,
        unfaulted_append, unfaulted_useSkbs]
      rfl
  | some skb =>
      simp only [releaseResponseLock, Code.run, id, memory_id, Option.map_some, asMemory,
        unfaulted_useSkbs]
      rfl

theorem waitEvent_run (m : Message) (skb : Nat) (timeout : WakeUp) :
    (waitEvent m skb timeout).run Lock.see (memory icap)
      = (Linux.waitEvent icap m skb timeout).map asMemory := by
  have hseen : ((memory icap .skbSpinlock).seen skb).hint = (icap.transport.skbs skb).hint := by
    unfold SkbQueue.seen
    split <;> rfl
  simp only [waitEvent, Linux.waitEvent, Code.run, Lock.see, hseen, decide_eq_true_eq]
  split
  · simp [asMemory]
  · rfl

theorem unlink_run (m : Message) (skb : Nat) (timeout : WakeUp) :
    (unlink m skb timeout).run Lock.see (memory icap)
      = some (asMemory (Linux.unlink icap m skb timeout)) := by
  simp only [unlink, underResponseLock, releaseResponseLock, Code.run, Option.map_some]
  rw [memory_store (fun t => t.skbUnlink skb) rfl rfl]
  simp only [Linux.unlink, asMemory]
  split
  · simp
  · rfl

theorem result_run (m : Message) (skb : Nat) (timeout : WakeUp)
    (hskb : skb ∉ icap.transport.responseQueue) :
    (result m skb timeout).run Lock.see (memory icap)
      = some (asMemory (waitResult icap m skb timeout)) := by
  have hseen : (memory icap .skbSpinlock : SkbQueue).seen skb
      = { icap.transport.skbs skb with freed := false } := if_neg hskb
  cases timeout with
  | response =>
      unfold result waitResult
      simp only [Code.run, Lock.see, hseen, Option.map_some, if_true, asMemory, unfaulted_useSkbs]
      rfl
  | signal => rfl
  | elapsed =>
      unfold result waitResult
      simp only [Code.run]
      cases hrpdev : icap.transport.rpdev with
      | none =>
          rw [show memory icap .rpdevLock = none from hrpdev]
          simp only [Code.run, id, memory_id, Option.map_some, asMemory]
          rfl
      | some dst =>
          rw [show memory icap .rpdevLock = some dst from hrpdev]
          simp only [Code.run, Lock.see, hseen, Option.map_some, if_true, asMemory,
            unfaulted_append, unfaulted_useSkbs]
          rfl

theorem receive_run (bits : Nat) (srcAddr : U32) (msg : IcapMsg) (size : U32) :
    (receive bits srcAddr msg size).run Lock.see (memory icap)
      = some (memory icap, [], .parse (icapParseMsg (linux bits) icap srcAddr msg size).2) := by
  have hparse : (icapParseMsg (linux bits) (memory icap .unlocked).instance srcAddr msg size).2
      = (icapParseMsg (linux bits) icap srcAddr msg size).2 := by
    obtain ⟨transport, name, type, priv, callbacks, seqNum⟩ := icap
    have hverify : ∀ t, (linux bits).icapVerifyRemote t srcAddr = (t, 0) := fun _ => rfl
    unfold icapParseMsg
    cases callbacks with
    | none => rfl
    | some cb =>
        simp only [memory, Fields.instance, hverify, ne_eq, not_true, if_false]
        split_ifs
        · rfl
        · cases type <;> rfl
        · cases type <;> rfl
        · rfl
        · rfl
  simp only [receive, Code.run, Lock.see, hparse, if_true, Option.map_some, List.append_nil]

theorem responseNotify_run (response : IcapMsg) (k : U32 → Parse U32) :
    (responseNotify response k).run Lock.see (memory icap)
      = some (asMemory (Linux.responseNotify icap response k)) := by
  have hfind : findSeqNum (memory icap .skbSpinlock : SkbQueue).transport response.seqNum
      = findSeqNum icap.transport response.seqNum := rfl
  unfold responseNotify Linux.responseNotify icapResponseNotify
  simp only [Code.run, hfind]
  cases findSeqNum icap.transport response.seqNum with
  | none =>
      simp only [Code.run, id, memory_id, Option.map_some, asMemory, unfaulted_useSkbs]
      rfl
  | some skb =>
      have hnotify : ∀ t : IcapTransport, ((t.modify skb fun b =>
            b.putData response response.totalLen.toNat).queue.transport.modify skb
              fun b => { b with hint := { b.hint with received := 1 } }).queue
          = (t.modify skb fun b => b.notify response).queue := by
        intro t
        simp only [IcapTransport.queue, SkbQueue.transport, IcapTransport.modify,
          Function.update_self, Function.update_idem]
        rfl
      simp only [Code.run, Option.map_some, Function.update_self, Function.update_idem, asMemory,
        unfaulted_useSkbs, hnotify]
      exact congrArg some (Prod.ext (memory_store (fun t => t.modify skb fun b => b.notify response)
        rfl (modify_unfreed (fun _ => rfl) skb)) rfl)

end Operations

end

/-! ## An skb that has been taken from the queue -/

/-- The skbs that threads have taken from the queue are not in it. -/
structure Unqueued (t : IcapTransport) (threads : Nat → Thread) : Prop where
  nodup : t.responseQueue.Nodup
  queued : ∀ k ∈ t.responseQueue, k < t.allocated
  held : ∀ i k, (threads i).held = some k → k < t.allocated
  removed : ∀ i k, (threads i).removed = some k → k < t.allocated ∧ k ∉ t.responseQueue

theorem Unqueued.same {t t' : IcapTransport} {threads : Nat → Thread} {i : Nat} {th : Thread}
    (h : Unqueued t threads) (hqueue : t'.responseQueue = t.responseQueue)
    (halloc : t'.allocated = t.allocated) (hheld : th.held = (threads i).held ∨ th.held = none)
    (hremoved : th.removed = (threads i).removed ∨ th.removed = none) :
    Unqueued t' (Function.update threads i th) where
  nodup := by
    rw [hqueue]
    exact h.nodup
  queued := by
    rw [hqueue, halloc]
    exact h.queued
  held := by
    intro j k hj
    rw [halloc]
    exact h.held j k (update_keeps hheld hj)
  removed := by
    intro j k hj
    rw [hqueue, halloc]
    exact h.removed j k (update_keeps hremoved hj)

theorem Unqueued.prepared {t : IcapTransport} {threads : Nat → Thread} {i : Nat} {m : Message}
    {mem : Mem} (h : Unqueued t threads) :
    Unqueued (t.pushHint i m.cmd m.seqNum mem)
      (Function.update threads i (.sendPlatform m true)) where
  nodup := by
    refine h.nodup.append (List.nodup_singleton _) fun k hk hk' => ?_
    exact Nat.ne_of_lt (h.queued k hk) (List.mem_singleton.mp hk')
  queued := by
    intro k hk
    rcases List.mem_append.mp hk with hk | hk
    · exact Nat.lt_succ_of_lt (h.queued k hk)
    · rw [List.mem_singleton.mp hk]
      exact Nat.lt_succ_self _
  held := by
    intro j k hj
    exact Nat.lt_succ_of_lt (h.held j k (update_keeps (Or.inr rfl) hj))
  removed := by
    intro j k hj
    obtain ⟨hlt, hnot⟩ := h.removed j k (update_keeps (Or.inr rfl) hj)
    refine ⟨Nat.lt_succ_of_lt hlt, fun hk => ?_⟩
    rcases List.mem_append.mp hk with hk | hk
    · exact hnot hk
    · exact Nat.ne_of_lt hlt (List.mem_singleton.mp hk)

theorem Unqueued.unlinked {t : IcapTransport} {threads : Nat → Thread} {i : Nat} {m : Message}
    {skb : Nat} {timeout : WakeUp} (h : Unqueued t threads)
    (hth : threads i = .unlink m skb timeout) :
    Unqueued (t.skbUnlink skb) (Function.update threads i (.result m skb timeout)) where
  nodup := h.nodup.erase skb
  queued := fun k hk => h.queued k (List.mem_of_mem_erase hk)
  held := by
    intro j k hj
    exact h.held j k (update_keeps (Or.inr rfl) hj)
  removed := by
    intro j k hj
    rcases update_some hj with ⟨-, hnew⟩ | ⟨-, hold⟩
    · obtain rfl : skb = k := Option.some.inj hnew
      exact ⟨h.held i skb (by rw [hth]; rfl), fun hk => (h.nodup.mem_erase_iff.mp hk).1 rfl⟩
    · obtain ⟨hlt, hnot⟩ := h.removed j k hold
      exact ⟨hlt, fun hk => hnot (List.mem_of_mem_erase hk)⟩

theorem Unqueued.of_step {bits : Nat} {s s' : State} {inp : Input} {ev : List Event}
    (h : Unqueued s.icap.transport s.threads) (hok : inp.action.keepsOpen = true)
    (hstep : step bits s inp = some (s', ev)) : Unqueued s'.icap.transport s'.threads := by
  obtain ⟨icap', th', hmove, rfl⟩ := step_move hstep
  obtain ⟨i, a⟩ := inp
  simp only at hmove hok ⊢
  generalize hth : s.threads i = th at hmove
  have hh : th.held = (s.threads i).held := by rw [hth]
  have hr : th.removed = (s.threads i).removed := by rw [hth]
  cases hmove with
  | @started c uninit m sync =>
      refine h.same rfl rfl (Or.inr ?_) (Or.inr ?_) <;> cases sync <;> rfl
  | prepared => exact h.prepared
  | unlinked => exact h.unlinked hth
  | @found m skb hfind =>
      refine ⟨h.nodup, h.queued, fun j k hj => ?_, fun j k hj => ?_⟩
      · rcases update_some hj with ⟨-, hnew⟩ | ⟨-, hold⟩
        · obtain rfl : skb = k := Option.some.inj hnew
          exact h.queued skb (findSeqNum_some hfind).1
        · exact h.held j k hold
      · exact h.removed j k (update_keeps (Or.inr rfl) hj)
  | opened ha => simp [(Action.not_opens hok).1] at ha
  | closed ha | closing ha => simp [(Action.not_opens hok).2] at ha
  | deinitTransport => cases hok
  | woken => exact h.same rfl rfl (Or.inl hh) (Or.inr rfl)
  | result => exact h.same rfl rfl (Or.inr rfl) (Or.inl hr)
  | refused | prepareFailed | sent | sentAsync | notFound | freed | received | invoked
  | sentResponse | dropped | notified | parsed =>
      exact h.same rfl rfl (Or.inr rfl) (Or.inr rfl)

/-! ## A run of operations as a run of the instance -/

section

variable {bits : Nat} {icap : Instance} {i : Nat} {th : Thread} {a : Action}

theorem operations_run (ha : a.keepsOpen = true)
    (hskb : ∀ skb, th.removed = some skb → skb ∉ icap.transport.responseQueue) :
    ((operations bits i th a).bind fun p => p.run Lock.see (memory icap))
      = (stepThread bits icap i th a).map asMemory := by
  cases th with
  | idle =>
      cases a with
      | call c uninit => exact Operations.startCall_run c uninit
      | receive srcAddr msg size =>
          have hsame := icapParseMsg_eq bits icap srcAddr msg size
          refine (Operations.receive_run bits srcAddr msg size).trans ?_
          simp only [stepThread, Option.map_some, asMemory, hsame]
          rfl
      | applicationDeinit | deviceDeinit | applicationInit | deviceInit => cases ha
      | _ => rfl
  | prepareWait m =>
      cases a with
      | prepareWait mem => exact Operations.prepareWait_run i m mem
      | _ => rfl
  | sendPlatform m sync =>
      cases a with
      | sendPlatform sendRet => exact Operations.sendMsg_run m sync sendRet
      | _ => rfl
  | findHint m =>
      cases a with
      | findHint => exact Operations.findHint_run m
      | _ => rfl
  | waitEvent m skb =>
      cases a with
      | waitEvent timeout => exact Operations.waitEvent_run m skb timeout
      | _ => rfl
  | unlink m skb timeout =>
      cases a with
      | unlink => exact Operations.unlink_run m skb timeout
      | _ => rfl
  | result m skb timeout =>
      cases a with
      | result => exact Operations.result_run m skb timeout (hskb skb rfl)
      | _ => rfl
  | free m skb timeout ret response =>
      cases a with
      | free =>
          -- the skb is freed for the allocator only
          have hmem : memory icap
              = memory { icap with transport := icap.transport.kfreeSkb skb } := by
            funext l
            cases l with
            | skbSpinlock => exact (kfreeSkb_unfreed _ _).symm
            | _ => rfl
          simp only [operations, stepThread, freeHint, Option.bind_some, Option.map_some, Code.run,
            asMemory, unfaulted_append, unfaulted_useSkbs, ← hmem]
          rfl
      | _ => rfl
  | deinitTransport =>
      cases a with
      | deinitTransport => cases ha
      | _ => rfl
  | parse p =>
      cases p with
      | done ret =>
          cases a with
          | _ => rfl
      | callback c k =>
          cases a with
          | _ => rfl
      | sendPlatform frame k =>
          cases a with
          | sendPlatform sendRet =>
              refine (Operations.sendPlatform_run (.sentResponse frame) sendRet
                fun ret => ([], .parse (k ret))).trans ?_
              cases hrpdev : icap.transport.rpdev <;>
                simp [stepThread, sendResponse, hrpdev, asMemory, unfaulted, Event.isFault]
          | _ => rfl
      | responseNotify response k =>
          cases a with
          | responseNotify => exact Operations.responseNotify_run response k
          | _ => rfl

theorem sectionStep_step {s : State} {b : SectionState Lock.Data Thread} {x : Nat × Action}
    {ev : List Event} (h : Unqueued s.icap.transport s.threads) (hx : x.2.keepsOpen = true)
    (hstep : sectionStep Lock.see (operations bits) ⟨memory s.icap, s.threads⟩ x = some (b, ev)) :
    ∃ s' ev', step bits s ⟨x.1, x.2⟩ = some (s', ev') ∧ unfaulted ev' = ev ∧
      b = ⟨memory s'.icap, s'.threads⟩ := by
  obtain ⟨i, a⟩ := x
  simp only [sectionStep] at hstep hx
  rw [operations_run hx fun skb hskb => (h.removed i skb hskb).2] at hstep
  cases hs : stepThread bits s.icap i (s.threads i) a with
  | none =>
      rw [hs] at hstep
      cases hstep
  | some r =>
      obtain ⟨icap', th', ev'⟩ := r
      rw [hs] at hstep
      simp only [Option.map_some, asMemory, Option.some.injEq, Prod.mk.injEq] at hstep
      obtain ⟨rfl, rfl⟩ := hstep
      refine ⟨⟨icap', Function.update s.threads i th'⟩, ev', ?_, rfl, rfl⟩
      simp only [step, hs, Option.map_some]

/-- A run of sections is a run of the instance. -/
theorem run_of_sections {s₀ : State} {tr : Trace (Nat × Action) Event}
    {b : SectionState Lock.Data Thread} (h₀ : Unqueued s₀.icap.transport s₀.threads)
    (hrun : (sectionMachine Lock.see (operations bits)).Run (fun _ _ x => x.2.keepsOpen = true)
      ⟨memory s₀.icap, s₀.threads⟩ tr b) :
    ∃ tr' s, (machine bits).Run (fun _ _ inp => inp.action.keepsOpen = true) s₀ tr' s ∧
      unfaulted tr'.events = tr.events ∧ b = ⟨memory s.icap, s.threads⟩ ∧
      Unqueued s.icap.transport s.threads := by
  induction hrun with
  | start => exact ⟨[], s₀, .start, rfl, rfl, h₀⟩
  | @step tr b b' x ev hr hok hstep ih =>
      obtain ⟨tr', s, hr', hev, rfl, h⟩ := ih
      obtain ⟨s', ev', hs, hev', hb⟩ := sectionStep_step h hok hstep
      have hs' : (machine bits).step s ⟨x.1, x.2⟩ = some (s', ev') := hs
      refine ⟨tr' ++ [(⟨x.1, x.2⟩, ev')], s', .step hr' hok hs', ?_, hb, h.of_step hok hs⟩
      rw [Trace.events_append, Trace.events_append, unfaulted_append, hev]
      simp [hev']

theorem opened_unqueued {rpdev : Option U32} {name : Nat} {cb : CallbackTable} {priv : Nat} :
    Unqueued (State.opened bits rpdev name cb priv).icap.transport
      (State.opened bits rpdev name cb priv).threads where
  nodup := List.nodup_nil
  queued := List.forall_mem_nil _
  held := by
    intro i k hk
    cases hk
  removed := by
    intro i k hk
    cases hk

/-- **The sections are atomic.** Every run of the threads' operations on an open instance has a run
of the instance with the same events, but the faults, in which each thread that is between two
sections is where it is and each variable whose lock is free has the value that it has. -/
theorem operations_refine {rpdev : Option U32} {name : Nat} {cb : CallbackTable} {priv : Nat}
    {tr : Trace (LockInput Action) Event} {s : LockState Lock.Data Lock.Seen Event Thread}
    (hrun : (operationMachine bits).Run
      (fun _ _ inp => inp.Begins fun a => a.keepsOpen = true)
      (.idle (memory (State.opened bits rpdev name cb priv).icap) fun _ => .idle) tr s) :
    ∃ tr' s', (machine bits).Run (fun _ _ inp => inp.action.keepsOpen = true)
        (State.opened bits rpdev name cb priv) tr' s' ∧
      unfaulted tr'.events = tr.events ∧
      (∀ i th, s.threads i = .between th → s'.threads i = th) ∧
      ∀ l, s.holder l = none → s.mem l = memory s'.icap l := by
  obtain ⟨tr₁, b, hrun₁, hev₁, hb⟩ := run_sections
    (fun _ _ _ _ ha h m => operations_atomic ha h m) hrun
  obtain ⟨tr', s', hrun', hev', rfl, -⟩ := run_of_sections opened_unqueued hrun₁
  refine ⟨tr', s', hrun', hev'.trans hev₁, fun i th hi => ?_, fun l hl => hb.unheld l hl⟩
  have htracks := hb.threads i
  rw [hi] at htracks
  cases htracks with
  | between hheld => rfl

/-- Thread 0 waits for the response to `icap_pause`; thread 2 has copied it to the skb and not yet
set `received` when thread 1 takes the next seq_num and waits for `skb_spinlock`. -/
def interleavedInputs : List (LockInput Action) :=
  let ack := ofList (icapMsgFrame ICAP_MSG_PAUSE ICAP_ACK 1 [])
  goOn 0 (.call (.pause 1) fun _ => 0) 6 ++ goOn 0 (.prepareWait (some fun _ => 0)) 7 ++
    goOn 0 (.sendPlatform 0) 4 ++ goOn 0 .findHint 6 ++ goOn 2 (.receive 0 ack 40) 1 ++
    goOn 2 .responseNotify 2 ++ goOn 1 (.call (.pause 2) fun _ => 0) 6 ++
    goOn 1 (.prepareWait (some fun _ => 0)) 1 ++ List.replicate 3 (.go 2) ++
    goOn 0 (.waitEvent .response) 1

theorem operations_refine_interleaved : ∃ tr s tr' s',
    (operationMachine 64).Run (fun _ _ inp => inp.Begins fun a => a.keepsOpen = true)
      (.idle (memory (State.opened 64 (some 0) 0 (fun _ => false) 0).icap) fun _ => .idle) tr s ∧
    (machine 64).Run (fun _ _ inp => inp.action.keepsOpen = true)
      (State.opened 64 (some 0) 0 (fun _ => false) 0) tr' s' ∧
    tr.length = 46 ∧ unfaulted tr'.events = tr.events := by
  have hrun : (operationMachine 64).Run (fun _ _ inp => inp.Begins fun a => a.keepsOpen = true)
      (.idle (memory (State.opened 64 (some 0) 0 (fun _ => false) 0).icap) fun _ => .idle) _ _ :=
    Machine.Run.start.exec_of_inputs interleavedInputs (by decide +kernel)
  obtain ⟨tr', s', hrun', hev, -⟩ := operations_refine hrun
  exact ⟨_, _, tr', s', hrun, hrun', by decide +kernel, hev⟩

/-! ## The seq_nums -/

theorem startedMsg_useSkbs (t : IcapTransport) (ks : List Nat) :
    (useSkbs t ks).filterMap Event.startedMsg = [] := by
  refine List.filterMap_eq_nil_iff.mpr fun e he => ?_
  obtain ⟨k, rfl⟩ := mem_useSkbs he
  rfl

theorem startedMsg_unfaulted (ev : List Event) :
    (unfaulted ev).filterMap Event.startedMsg = ev.filterMap Event.startedMsg := by
  rw [unfaulted, List.filterMap_filter]
  refine List.filterMap_congr fun e _ => ?_
  cases e <;> rfl

/-- A step starts a message with the next seq_num, or it starts none. -/
theorem step_seqNum {s s' : State} {inp : Input} {ev : List Event}
    (hok : inp.action.keepsOpen = true) (h : step bits s inp = some (s', ev)) :
    (ev.filterMap Event.startedMsg).map Message.seqNum = [] ∧ s'.icap.seqNum = s.icap.seqNum ∨
      (ev.filterMap Event.startedMsg).map Message.seqNum = [s.icap.seqNum + 1] ∧
        s'.icap.seqNum = s.icap.seqNum + 1 := by
  obtain ⟨icap', th', hmove, rfl⟩ := step_move h
  obtain ⟨i, a⟩ := inp
  simp only at hmove hok ⊢
  generalize s.threads i = th at hmove
  cases hmove with
  | @started c uninit m sync hc hm =>
      refine Or.inr ⟨?_, rfl⟩
      rw [← hm]
      rfl
  | opened ha => simp [(Action.not_opens hok).1] at ha
  | closed ha | closing ha => simp [(Action.not_opens hok).2] at ha
  | deinitTransport => cases hok
  | sent hev | sentResponse hev => exact Or.inl ⟨by rcases hev with rfl | rfl <;> rfl, rfl⟩
  | sentAsync hev => exact Or.inl ⟨by rcases hev with rfl | rfl <;> rfl, rfl⟩
  | unlinked =>
      refine Or.inl ⟨?_, rfl⟩
      split
      · rw [startedMsg_useSkbs, List.map_nil]
      · rfl
  | result hused hev =>
      refine Or.inl ⟨?_, rfl⟩
      rcases hused with rfl | rfl <;> rcases hev with rfl | ⟨icapId, msgCmd, rfl⟩ <;>
        simp [startedMsg_useSkbs, Event.startedMsg]
  | notFound | found | woken | freed | dropped | notified =>
      exact Or.inl ⟨by simp [startedMsg_useSkbs, Event.startedMsg, Message.returns], rfl⟩
  | refused | prepareFailed | prepared | received | invoked | parsed => exact Or.inl ⟨rfl, rfl⟩

theorem run_seqNum {rpdev : Option U32} {name : Nat} {cb : CallbackTable} {priv : Nat}
    {tr : Trace Input Event} {s : State}
    (hrun : (machine bits).Run (fun _ _ inp => inp.action.keepsOpen = true)
      (State.opened bits rpdev name cb priv) tr s) :
    startedSeqNums tr
        = (List.range (startedSeqNums tr).length).map (fun k => BitVec.ofNat 32 (k + 1)) ∧
      s.icap.seqNum = BitVec.ofNat 32 (startedSeqNums tr).length := by
  refine hrun.invariant (I := fun tr s => startedSeqNums tr
      = (List.range (startedSeqNums tr).length).map (fun k => BitVec.ofNat 32 (k + 1)) ∧
    s.icap.seqNum = BitVec.ofNat 32 (startedSeqNums tr).length) ⟨rfl, rfl⟩ ?_
  rintro tr s s' inp ev - ⟨hlist, hnum⟩ hok hstep
  rw [startedSeqNums_snoc]
  rcases step_seqNum hok hstep with ⟨hev, hsame⟩ | ⟨hev, hnext⟩
  · rw [hev, hsame, List.append_nil]
    exact ⟨hlist, hnum⟩
  · have hsucc : s.icap.seqNum + 1 = BitVec.ofNat 32 ((startedSeqNums tr).length + 1) := by
      rw [hnum, BitVec.ofNat_add]
      rfl
    rw [hev, hnext, List.length_append, List.length_singleton, List.range_succ, List.map_append,
      ← hlist, hsucc]
    exact ⟨rfl, rfl⟩

theorem run_started {rpdev : Option U32} {name : Nat} {cb : CallbackTable} {priv : Nat}
    {ok : Trace Input Event → State → Input → Prop} {tr : Trace Input Event} {s : State}
    (hrun : (machine bits).Run ok (State.opened bits rpdev name cb priv) tr s) :
    Started tr s.threads := by
  refine hrun.invariant (I := fun tr s => Started tr s.threads) ⟨?_, ?_⟩ ?_
  · intro i m hm
    cases hm
  · intro m hm
    cases hm
  · intro tr s s' inp ev _ h _ hstep
    exact h.of_step hstep

/-- **No seq_num is lost.** However the single loads and stores of `icap->seq_num++` interleave, the
messages that the calls start have the seq_nums from 1 on, in their order and each once; the calls
go on with these messages and send them. -/
theorem operations_seqNums {rpdev : Option U32} {name : Nat} {cb : CallbackTable} {priv : Nat}
    {tr : Trace (LockInput Action) Event} {s : LockState Lock.Data Lock.Seen Event Thread}
    (hrun : (operationMachine bits).Run
      (fun _ _ inp => inp.Begins fun a => a.keepsOpen = true)
      (.idle (memory (State.opened bits rpdev name cb priv).icap) fun _ => .idle) tr s) :
    (tr.events.filterMap Event.startedMsg).map Message.seqNum
      = (List.range (tr.events.filterMap Event.startedMsg).length).map
          (fun k => BitVec.ofNat 32 (k + 1)) ∧
    (∀ i th m, s.threads i = .between th → th.message = some m →
      m ∈ tr.events.filterMap Event.startedMsg) ∧
    ∀ m, .sentMsg m ∈ tr.events → m ∈ tr.events.filterMap Event.startedMsg := by
  obtain ⟨tr₁, b, hrun₁, hev₁, hb⟩ := run_sections
    (fun _ _ _ _ ha h m => operations_atomic ha h m) hrun
  obtain ⟨tr', s', hrun', hev', rfl, -⟩ := run_of_sections opened_unqueued hrun₁
  have hevents : unfaulted tr'.events = tr.events := hev'.trans hev₁
  have hmsgs : tr.events.filterMap Event.startedMsg = tr'.events.filterMap Event.startedMsg := by
    rw [← hevents, startedMsg_unfaulted]
  have hstarted := run_started hrun'
  have hmem {m : Message} (hm : .started m ∈ tr'.events) :
      m ∈ tr.events.filterMap Event.startedMsg := by
    rw [hmsgs]
    exact List.mem_filterMap.mpr ⟨_, hm, rfl⟩
  refine ⟨?_, fun i th m hi hm => hmem ?_, fun m hm => hmem ?_⟩
  · have hnums := (run_seqNum hrun').1
    rwa [startedSeqNums, ← hmsgs, List.length_map] at hnums
  · have htracks := hb.threads i
    rw [hi] at htracks
    cases htracks with
    | between hheld => exact hstarted.known i m hm
  · refine hstarted.sent m (List.mem_of_mem_filter (p := fun e => !e.isFault) ?_)
    rw [show List.filter _ tr'.events = tr.events from hevents]
    exact hm

end

theorem operations_seqNums_interleaved : ∃ tr s th m,
    (operationMachine 64).Run (fun _ _ inp => inp.Begins fun a => a.keepsOpen = true)
      (.idle (memory (State.opened 64 (some 0) 0 (fun _ => false) 0).icap) fun _ => .idle) tr s ∧
    (tr.events.filterMap Event.startedMsg).map Message.seqNum = [1, 2] ∧
    s.threads 0 = .between th ∧ th.message = some m ∧
    m ∈ tr.events.filterMap Event.startedMsg := by
  have hrun : (operationMachine 64).Run (fun _ _ inp => inp.Begins fun a => a.keepsOpen = true)
      (.idle (memory (State.opened 64 (some 0) 0 (fun _ => false) 0).icap) fun _ => .idle) _ _ :=
    Machine.Run.start.exec_of_inputs interleavedInputs (by decide +kernel)
  have hlength : (List.filterMap Event.startedMsg (Trace.events ((operationMachine 64).exec []
      (.idle (memory (State.opened 64 (some 0) 0 (fun _ => false) 0).icap) fun _ => .idle)
      interleavedInputs).1)).length = 2 := by decide +kernel
  obtain ⟨hnums, hknown, -⟩ := operations_seqNums hrun
  rw [hlength] at hnums
  exact ⟨_, _, _, _, hrun, hnums, rfl, rfl, hknown 0 _ _ rfl rfl⟩

end Icap.Linux
