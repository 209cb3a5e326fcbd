import Icap.Basic.Atomicity
import Icap.Linux.Awaited

set_option autoImplicit false

/-! # The locks of the Linux instance

The functions of `icap_linux_kernel_rpmsg.c` and their callers operation by operation, with the
locks they take. `platform_lock` guards `seq_num`, `rpdev_lock` guards `rpdev` and `skb_spinlock`
guards `response_queue` and what its skbs hold; `response_lock` guards nothing that `skb_spinlock`
does not, and what an init writes has no lock. `wait_event_interruptible_timeout` and the code that
has taken its skb from the queue read the skb without the lock.
-/

namespace Icap.Linux

open ByteMemory Transition Locks

/-! ## What the locks guard -/

/-- The locks, and what is used without one. -/
inductive Lock where
  | platformLock
  | rpdevLock
  | responseLock
  | skbSpinlock
  | unlocked
  deriving DecidableEq

/-- `response_queue` and the memory of its skbs. -/
structure SkbQueue where
  responseQueue : List Nat
  skbs : Nat → SkBuff
  allocated : Nat

/-- What an init writes. -/
structure Fields where
  name : Nat
  type : IcapInstanceType
  priv : Nat
  callbacks : Option CallbackTable

@[reducible] def Lock.Data : Lock → Type
  | platformLock => U32
  | rpdevLock => Option U32
  | responseLock => Unit
  | skbSpinlock => SkbQueue
  | unlocked => Fields

@[reducible] def Lock.Seen : Lock → Type
  | platformLock => Unit
  | rpdevLock => Unit
  | responseLock => Unit
  | skbSpinlock => Nat → SkBuff
  | unlocked => Fields

/-- The skbs without the data of those in the queue. -/
def SkbQueue.seen (q : SkbQueue) (k : Nat) : SkBuff :=
  if k ∈ q.responseQueue then { q.skbs k with data := fun _ => 0, len := 0 } else q.skbs k

/-- What is read without the lock: fields that an init writes, and of an skb its hint and, when it
has been taken from the queue, its data. -/
def Lock.see : ∀ l : Lock, l.Data → l.Seen
  | platformLock, _ => ()
  | rpdevLock, _ => ()
  | responseLock, _ => ()
  | skbSpinlock, q => SkbQueue.seen q
  | unlocked, f => f

/-- The order in which locks are taken: `skb_spinlock` is the inner one. -/
def Lock.rank : Lock → Nat
  | skbSpinlock => 1
  | _ => 0

def Lock.free : Lock → Bool
  | unlocked => true
  | _ => false

/-- The queue as part of the transport. -/
def SkbQueue.transport (q : SkbQueue) : IcapTransport :=
  ⟨none, q.responseQueue, q.skbs, q.allocated⟩

def IcapTransport.queue (t : IcapTransport) : SkbQueue := ⟨t.responseQueue, t.skbs, t.allocated⟩

/-- Whether an skb is freed is known to the allocator only. -/
def IcapTransport.unfreed (t : IcapTransport) : IcapTransport :=
  { t with skbs := fun k => { t.skbs k with freed := false } }

/-- The instance as the memory of the threads. -/
def memory (icap : Instance) : ∀ l : Lock, l.Data
  | .platformLock => icap.seqNum
  | .rpdevLock => icap.transport.rpdev
  | .responseLock => ()
  | .skbSpinlock => icap.transport.unfreed.queue
  | .unlocked => ⟨icap.name, icap.type, icap.priv, icap.callbacks⟩

def Fields.instance (f : Fields) : Instance :=
  { zeroedInstance none with
    name := f.name
    type := f.type
    priv := f.priv
    callbacks := f.callbacks }

/-! ## The operations of the sections -/

abbrev Operations := Code Lock.Data Lock.Seen Event Thread

namespace Operations

/-- `icap_send_msg` up to `icap_platform_unlock`. -/
def startCall (c : ApiCall) (uninit : Mem) : Operations :=
  match c.call with
  | .done r => .ret [.refused c r] .idle
  | .sendMsg cmd data sync _ k =>
      match icapSendMsgPayload data with
      | none => .ret [.refused c (k (-ICAP_ERROR_MSG_LEN) uninit)] .idle
      | some payload =>
          .acquire .platformLock <|
            -- `icap->seq_num++`; the message takes what it then loads
            .load .platformLock fun n : U32 => .store .platformLock (fun _ => n + 1) <|
            .load .platformLock fun seqNum : U32 =>
              let m : Message := ⟨c, cmd, seqNum, payload, uninit⟩
              .commit .platformLock id [.started m] <| .release .platformLock <|
                .ret [] (if sync then .prepareWait m else .sendPlatform m false)

/-- `icap_prepare_wait`; the new skb is filled in before it is in the queue. -/
def prepareWait (thread : Nat) (m : Message) (mem : Option Mem) : Operations :=
  .acquire .rpdevLock <| .load .rpdevLock fun rpdev : Option U32 =>
    let fail (ret : U32) : Operations :=
      .commit .rpdevLock id [m.returns none ret m.response] <| .release .rpdevLock <| .ret [] .idle
    if rpdev.isNone then
      fail (-ICAP_ERROR_BROKEN_CON)
    else
      match mem with
      | none => fail (-ENOMEM)
      | some mem =>
          .acquire .skbSpinlock <| .load .skbSpinlock fun q : SkbQueue =>
            .commit .skbSpinlock
              (fun q : SkbQueue => (q.transport.pushHint thread m.cmd m.seqNum mem).queue)
              [.allocated q.allocated] <|
            .release .skbSpinlock <| .release .rpdevLock <| .ret [] (.sendPlatform m true)

/-- `icap_send_platform`; `sent` is what it hands to `rpmsg_send`. -/
def sendPlatform (sent : Event) (sendRet : U32) (k : U32 → List Event × Thread) : Operations :=
  .acquire .rpdevLock <| .load .rpdevLock fun rpdev : Option U32 =>
    let (ev, thread) := k (if rpdev.isNone then -ICAP_ERROR_BROKEN_CON else sendRet)
    .commit .rpdevLock id ((if rpdev.isSome then [sent] else []) ++ ev) <|
    .release .rpdevLock <| .ret [] thread

/-- `icap_send_msg` after `icap_prepare_wait`. -/
def sendMsg (m : Message) (sync : Bool) (sendRet : U32) : Operations :=
  sendPlatform (.sentMsg m) sendRet fun ret =>
    if sync then ([], .findHint m) else ([m.returns none ret m.response], .idle)

/-- A section of `icap_wait_for_response` under both of its locks. -/
def underResponseLock (k : Operations) : Operations :=
  .acquire .responseLock <| .acquire .skbSpinlock k

def releaseResponseLock (thread : Thread) : Operations :=
  .release .skbSpinlock <| .release .responseLock <| .ret [] thread

def findHint (m : Message) : Operations :=
  underResponseLock <| .load .skbSpinlock fun q : SkbQueue =>
    match findSeqNum q.transport m.seqNum with
    | none =>
        .commit .skbSpinlock id [.notFound m, m.returns none (-ICAP_ERROR_PROTOCOL) m.response] <|
        releaseResponseLock .idle
    | some skb => .commit .skbSpinlock id [] <| releaseResponseLock (.waitEvent m skb)

/-- The condition `hint->received` is read without a lock. -/
def waitEvent (m : Message) (skb : Nat) (timeout : WakeUp) : Operations :=
  .peek .skbSpinlock
    (fun skbs : Nat → SkBuff => decide (timeout = .response ↔ (skbs skb).hint.received ≠ 0))
    (fun _ => []) fun _ => .ret [] (.unlink m skb timeout)

def unlink (m : Message) (skb : Nat) (timeout : WakeUp) : Operations :=
  underResponseLock <|
    .commit .skbSpinlock (fun q : SkbQueue => (q.transport.skbUnlink skb).queue) [] <|
    releaseResponseLock (.result m skb timeout)

/-- The skb is read without a lock. -/
def result (m : Message) (skb : Nat) : WakeUp → Operations
  | .response =>
      .peek .skbSpinlock (fun _ => true) (fun _ => []) fun skbs : Nat → SkBuff =>
        let (ret, response) := m.answer (skbs skb).data (skbs skb).len
        .ret [] (.free m skb .response ret response)
  | .signal => .ret [] (.free m skb .signal (-ERESTARTSYS) m.response)
  | .elapsed =>
      .acquire .rpdevLock <| .load .rpdevLock fun rpdev : Option U32 =>
        match rpdev with
        | none =>
            .commit .rpdevLock id [] <| .release .rpdevLock <|
              .ret [] (.free m skb .elapsed (-ICAP_ERROR_BROKEN_CON) m.response)
        | some dst =>
            .peek .skbSpinlock (fun _ => true)
              (fun skbs : Nat → SkBuff => [.uevent (dst.toNat % 256) (skbs skb).hint.msgCmd])
              fun _ => .release .rpdevLock <| .ret [] (.free m skb .elapsed (-ETIMEDOUT) m.response)

/-- `icap_application_deinit` and `icap_device_deinit` before `icap_deinit_transport`. -/
def deinit : Operations :=
  .load .unlocked fun f : Fields =>
    if f.callbacks.isNone then
      .ret [.lifecycle 0] .idle
    else
      .store .unlocked (fun f : Fields => { f with callbacks := none }) <|
        .ret [] .deinitTransport

/-- The loop of `icap_deinit_transport`. -/
def freeAll (k : Operations) : List Nat → Operations
  | [] => k
  | skb :: skbs =>
      .commit .skbSpinlock (fun q : SkbQueue => (q.transport.skbUnlink skb).queue) [.freed skb] <|
      freeAll k skbs

def deinitTransport : Operations :=
  .acquire .rpdevLock <| .acquire .skbSpinlock <| .load .skbSpinlock fun q : SkbQueue =>
    freeAll (.release .skbSpinlock <| .commit .rpdevLock (fun _ => none) [.lifecycle 0] <|
      .release .rpdevLock <| .ret [] .idle) q.responseQueue

/-- `icap_parse_msg` up to the first callback, message or response. -/
def receive (bits : Nat) (srcAddr : U32) (msg : IcapMsg) (size : U32) : Operations :=
  .peek .unlocked (fun _ => true) (fun _ => []) fun f : Fields =>
    .ret [] (.parse (icapParseMsg (linux bits) f.instance srcAddr msg size).2)

/-- `icap_response_notify`; the data is complete when `received` is set. -/
def responseNotify (response : IcapMsg) (k : U32 → Parse U32) : Operations :=
  .acquire .skbSpinlock <| .load .skbSpinlock fun q : SkbQueue =>
    match findSeqNum q.transport response.seqNum with
    | some skb =>
        .store .skbSpinlock (fun q : SkbQueue => (q.transport.modify skb fun b =>
          b.putData response response.totalLen.toNat).queue) <|
        .commit .skbSpinlock (fun q : SkbQueue => (q.transport.modify skb fun b =>
          { b with hint := { b.hint with received := 1 } }).queue) [] <|
        .release .skbSpinlock <| .ret [] (.parse (k 0))
    | none =>
        .commit .skbSpinlock id [] <| .release .skbSpinlock <|
          .ret [] (.parse (k (-ICAP_ERROR_TIMEOUT)))

end Operations

/-- The operations of a section; the locks are made in an init, which is none. -/
def operations (bits : Nat) (i : Nat) : Thread → Action → Option Operations
  | .idle, .call c uninit => some (.startCall c uninit)
  | .prepareWait m, .prepareWait mem => some (.prepareWait i m mem)
  | .sendPlatform m sync, .sendPlatform sendRet => some (.sendMsg m sync sendRet)
  | .findHint m, .findHint => some (.findHint m)
  | .waitEvent m skb, .waitEvent timeout => some (.waitEvent m skb timeout)
  | .unlink m skb timeout, .unlink => some (.unlink m skb timeout)
  | .result m skb timeout, .result => some (.result m skb timeout)
  | .free m skb timeout ret response, .free =>
      some (.ret [.freed skb, m.returns (some timeout) ret response] .idle)
  | .idle, .applicationDeinit => some .deinit
  | .idle, .deviceDeinit => some .deinit
  | .deinitTransport, .deinitTransport => some .deinitTransport
  | .idle, .receive srcAddr msg size => some (.receive bits srcAddr msg size)
  | .parse (.callback c k), .callbackRet r => some (.ret [.invoked c] (.parse (k r)))
  | .parse (.sendPlatform frame k), .sendPlatform sendRet =>
      some (.sendPlatform (.sentResponse frame) sendRet fun ret => ([], .parse (k ret)))
  | .parse (.responseNotify response k), .responseNotify => some (.responseNotify response k)
  | .parse (.done ret), .parseRet => some (.ret [.parsed ret] .idle)
  | _, _ => none

def operationMachine (bits : Nat) :
    Machine (LockState Lock.Data Lock.Seen Event Thread) (LockInput Action) Event :=
  lockMachine Lock.see (operations bits)

/-! ## Each section keeps to the locks -/

namespace Operations

theorem startCall_disciplined (c : ApiCall) (uninit : Mem) :
    (startCall c uninit).Disciplined Lock.rank Lock.free := by
  unfold startCall
  split
  · rfl
  · split
    · rfl
    · simp [Code.Disciplined, Code.Guarded, Lock.free]

theorem prepareWait_disciplined (thread : Nat) (m : Message) (mem : Option Mem) :
    (prepareWait thread m mem).Disciplined Lock.rank Lock.free := by
  refine ⟨rfl, by simp, Or.inl (by simp), fun rpdev => ?_⟩
  simp only
  split
  · simp [Code.Guarded]
  · split
    · simp [Code.Guarded]
    · simp [Code.Guarded, Lock.free, Lock.rank]

theorem sendPlatform_disciplined (sent : Event) (sendRet : U32) (k : U32 → List Event × Thread) :
    (sendPlatform sent sendRet k).Disciplined Lock.rank Lock.free := by
  simp [sendPlatform, Code.Disciplined, Code.Guarded, Lock.free]

theorem underResponseLock_disciplined {k : Operations}
    (hk : k.Guarded Lock.rank Lock.free {.skbSpinlock, .responseLock}) :
    (underResponseLock k).Disciplined Lock.rank Lock.free :=
  ⟨rfl, by simp, rfl, by simp [Lock.rank], hk⟩

theorem releaseResponseLock_guarded (thread : Thread) :
    (releaseResponseLock thread).Guarded Lock.rank Lock.free {.skbSpinlock, .responseLock} :=
  ⟨by simp, by simp, by simp [Code.Guarded]⟩

theorem findHint_disciplined (m : Message) : (findHint m).Disciplined Lock.rank Lock.free := by
  refine underResponseLock_disciplined ⟨Or.inl (by simp), fun q => ?_⟩
  simp only
  split
  · exact ⟨Or.inl (by simp), releaseResponseLock_guarded _⟩
  · exact ⟨Or.inl (by simp), releaseResponseLock_guarded _⟩

theorem unlink_disciplined (m : Message) (skb : Nat) (timeout : WakeUp) :
    (unlink m skb timeout).Disciplined Lock.rank Lock.free :=
  underResponseLock_disciplined ⟨Or.inl (by simp), releaseResponseLock_guarded _⟩

theorem result_disciplined (m : Message) (skb : Nat) (timeout : WakeUp) :
    (result m skb timeout).Disciplined Lock.rank Lock.free := by
  cases timeout with
  | response => exact fun _ => rfl
  | signal => rfl
  | elapsed =>
      refine ⟨rfl, by simp, Or.inl (by simp), fun rpdev => ?_⟩
      simp only
      split
      · simp [Code.Guarded]
      · simp [Code.Guarded]

theorem deinit_disciplined : deinit.Disciplined Lock.rank Lock.free := by
  refine ⟨Or.inr rfl, fun f => ?_⟩
  simp only
  split
  · rfl
  · exact ⟨Or.inr rfl, rfl⟩

theorem freeAll_guarded {k : Operations} {held : Finset Lock} (hl : .skbSpinlock ∈ held)
    (hk : k.Guarded Lock.rank Lock.free held) (skbs : List Nat) :
    (freeAll k skbs).Guarded Lock.rank Lock.free held := by
  induction skbs with
  | nil => exact hk
  | cons skb skbs ih => exact ⟨Or.inl hl, ih⟩

theorem deinitTransport_disciplined : deinitTransport.Disciplined Lock.rank Lock.free := by
  refine ⟨rfl, by simp, rfl, by simp [Lock.rank], Or.inl (by simp), fun q => ?_⟩
  exact freeAll_guarded (by simp) (by simp [Code.Guarded]) _

theorem responseNotify_disciplined (response : IcapMsg) (k : U32 → Parse U32) :
    (responseNotify response k).Disciplined Lock.rank Lock.free := by
  refine ⟨rfl, by simp, Or.inl (by simp), fun q => ?_⟩
  simp only
  split
  · simp [Code.Guarded]
  · simp [Code.Guarded]

end Operations

/-- Every section uses what a lock guards under the lock, takes `skb_spinlock` last and waits with
no lock held. -/
theorem operations_disciplined {bits i : Nat} {th : Thread} {a : Action} {p : Operations}
    (h : operations bits i th a = some p) : p.Disciplined Lock.rank Lock.free := by
  unfold operations at h
  split at h
  · obtain rfl := Option.some.inj h
    exact Operations.startCall_disciplined _ _
  · obtain rfl := Option.some.inj h
    exact Operations.prepareWait_disciplined _ _ _
  · obtain rfl := Option.some.inj h
    exact Operations.sendPlatform_disciplined _ _ _
  · obtain rfl := Option.some.inj h
    exact Operations.findHint_disciplined _
  · obtain rfl := Option.some.inj h
    exact fun _ => rfl
  · obtain rfl := Option.some.inj h
    exact Operations.unlink_disciplined _ _ _
  · obtain rfl := Option.some.inj h
    exact Operations.result_disciplined _ _ _
  · obtain rfl := Option.some.inj h
    rfl
  · obtain rfl := Option.some.inj h
    exact Operations.deinit_disciplined
  · obtain rfl := Option.some.inj h
    exact Operations.deinit_disciplined
  · obtain rfl := Option.some.inj h
    exact Operations.deinitTransport_disciplined
  · obtain rfl := Option.some.inj h
    exact fun _ => rfl
  · obtain rfl := Option.some.inj h
    rfl
  · obtain rfl := Option.some.inj h
    exact Operations.sendPlatform_disciplined _ _ _
  · obtain rfl := Option.some.inj h
    exact Operations.responseNotify_disciplined _ _
  · obtain rfl := Option.some.inj h
    rfl
  · cases h

/-! ## Races and deadlocks -/

section

variable {bits : Nat} {icap : Instance} {i : Nat} {p : Operations} {l : Lock}
  {ok : Trace (LockInput Action) Event → LockState Lock.Data Lock.Seen Event Thread →
    LockInput Action → Prop}
  {tr : Trace (LockInput Action) Event} {s : LockState Lock.Data Lock.Seen Event Thread}

/-- **No races.** Whatever the threads call and in whatever order their operations come, a thread
that is about to use what a lock guards holds the lock, and no other thread is about to use it. -/
theorem operations_race_free
    (hrun : (operationMachine bits).Run ok (.idle (memory icap) fun _ => .idle) tr s)
    (hi : s.threads i = .inside p) (hp : p.uses = some l) (hl : l ≠ .unlocked) :
    s.holder l = some i ∧ ∀ j q, j ≠ i → s.threads j = .inside q → q.uses ≠ some l := by
  have hfree : l.free = false := by
    cases l with
    | unlocked => exact absurd rfl hl
    | _ => rfl
  exact run_race_free (fun _ _ _ _ h => operations_disciplined h) hrun hi hp hfree

/-- **No deadlocks.** Whatever the threads call and in whatever order their operations come, each
thread can be brought to the end of its section by operations of the sections that have begun. -/
theorem operations_complete
    (hrun : (operationMachine bits).Run ok (.idle (memory icap) fun _ => .idle) tr s) (i : Nat) :
    ∃ s' th, Reaches Lock.see (operations bits) s s' ∧ s'.threads i = .between th := by
  have hrank : ∀ l : Lock, l.rank < 2 := fun l => by cases l <;> decide
  exact run_completes hrank (fun _ _ _ _ h => operations_disciplined h) hrun i

end

/-- The thread begins the section and does `n` more operations. -/
def goOn (i : Nat) (a : Action) (n : Nat) : List (LockInput Action) :=
  .begin i a :: List.replicate n (.go i)

/-- Threads 0 and 1 call `icap_pause`; thread 0 has `skb_spinlock` in `icap_wait_for_response` and
thread 1 waits for it in `icap_prepare_wait`, where it has `rpdev_lock`. -/
def contendedInputs : List (LockInput Action) :=
  goOn 0 (.call (.pause 1) fun _ => 0) 6 ++ goOn 0 (.prepareWait (some fun _ => 0)) 7 ++
    goOn 0 (.sendPlatform 0) 4 ++ goOn 0 .findHint 1 ++ goOn 1 (.call (.pause 1) fun _ => 0) 6 ++
    goOn 1 (.prepareWait (some fun _ => 0)) 1

theorem operations_race_free_contended : ∃ tr s p,
    (operationMachine 64).Run (fun _ _ _ => True)
      (.idle (memory (zeroedInstance (some 0))) fun _ => .idle) tr s ∧
    s.threads 0 = .inside p ∧ p.uses = some .skbSpinlock ∧ s.holder .rpdevLock = some 1 ∧
    s.holder .skbSpinlock = some 0 ∧
    ∀ j q, j ≠ 0 → s.threads j = .inside q → q.uses ≠ some .skbSpinlock := by
  have hrun : (operationMachine 64).Run (fun _ _ _ => True)
      (.idle (memory (zeroedInstance (some 0))) fun _ => .idle) _ _ :=
    Machine.Run.start.exec_of_forall contendedInputs fun _ _ _ => trivial
  exact ⟨_, _, _, hrun, rfl, rfl, rfl, operations_race_free hrun rfl rfl (by simp)⟩

theorem operations_complete_contended : ∃ tr s s' th,
    (operationMachine 64).Run (fun _ _ _ => True)
      (.idle (memory (zeroedInstance (some 0))) fun _ => .idle) tr s ∧
    s.holder .rpdevLock = some 1 ∧ s.holder .skbSpinlock = some 0 ∧
    Reaches Lock.see (operations 64) s s' ∧ s'.threads 1 = .between th := by
  have hrun : (operationMachine 64).Run (fun _ _ _ => True)
      (.idle (memory (zeroedInstance (some 0))) fun _ => .idle) _ _ :=
    Machine.Run.start.exec_of_forall contendedInputs fun _ _ _ => trivial
  obtain ⟨s', th, hreach, hth⟩ := operations_complete hrun 1
  exact ⟨_, _, s', th, hrun, rfl, rfl, hreach, hth⟩

end Icap.Linux
