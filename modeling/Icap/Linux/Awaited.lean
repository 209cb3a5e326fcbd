import Icap.Linux.Machine

set_option autoImplicit false

/-! # Hints of calls that wait

A synchronous call has a hint in `response_queue` from `icap_prepare_wait` to `skb_unlink`. In
whatever order the threads go on, also when the instance is closed and opened again, every hint in
the queue is that of a call that waits (`run_awaited`), as long as no look-up finds the hint of
another call, which after 2^32 sends or a second init may carry the same seq_num (`FindsOwn`).
-/

namespace Icap.Linux

open ByteMemory Transition

/-! ## What a thread has -/

/-- The call of a thread between `icap_prepare_wait` and the removal of its hint. -/
def Thread.linked : Thread → Option Message
  | .sendPlatform m true => some m
  | .findHint m => some m
  | .waitEvent m _ => some m
  | .unlink m _ _ => some m
  | _ => none

/-- The skb in the queue that it has found. -/
def Thread.held : Thread → Option Nat
  | .waitEvent _ skb => some skb
  | .unlink _ skb _ => some skb
  | _ => none

/-! ## The invariant -/

/-- Every hint in the queue is that of a call that waits, which holds no other. -/
structure Awaited (t : IcapTransport) (threads : Nat → Thread) : Prop where
  nodup : t.responseQueue.Nodup
  queued : ∀ k ∈ t.responseQueue, k < t.allocated ∧
    ∃ m, (threads (t.skbs k).allocator).linked = some m ∧ (t.skbs k).hint.seqNum = m.seqNum
  unique : ∀ k ∈ t.responseQueue, ∀ k' ∈ t.responseQueue,
    (t.skbs k).allocator = (t.skbs k').allocator → k = k'
  held : ∀ i k, (threads i).held = some k → k < t.allocated ∧
    ∀ k' ∈ t.responseQueue, (t.skbs k').allocator = i → k' = k

/-- A look-up that finds a hint finds the one of its call. -/
def FindsOwn (s : State) (inp : Input) : Prop :=
  ∀ m, s.threads inp.thread = .findHint m → ∀ k, findSeqNum s.icap.transport m.seqNum = some k →
    (s.icap.transport.skbs k).allocator = inp.thread

/-- The seq_num of a synchronous call that waits for its response. -/
def AwaitedSeqNum (s : State) (n : U32) : Prop :=
  ∃ i m, (s.threads i).linked = some m ∧ m.seqNum = n

/-- No hint in the queue has the seq_num. -/
def Unhinted (t : IcapTransport) (n : U32) : Prop :=
  ∀ k ∈ t.responseQueue, (t.skbs k).hint.seqNum ≠ n

theorem findSeqNum_eq_none {t : IcapTransport} {n : U32} :
    findSeqNum t n = none ↔ Unhinted t n := by
  constructor
  · exact findSeqNum_none
  · intro h
    refine List.find?_eq_none.mpr fun k hk => ?_
    simpa using h k hk

section

variable {t t' : IcapTransport} {threads : Nat → Thread} {i : Nat} {th' : Thread}

/-- A thread that keeps what it has, seen from all threads. -/
theorem update_proj {β : Type} (g : Thread → β) (h : g th' = g (threads i)) (j : Nat) :
    g (Function.update threads i th' j) = g (threads j) := by
  by_cases hj : j = i
  · rw [hj, Function.update_self, h]
  · rw [Function.update_of_ne hj]

/-- A received response changes neither the owner of an skb nor its seq_num. -/
theorem notify_same (skb : Nat) (response : IcapMsg) (k : Nat) :
    ((t.modify skb fun b => b.notify response).skbs k).allocator = (t.skbs k).allocator ∧
      ((t.modify skb fun b => b.notify response).skbs k).freed = (t.skbs k).freed ∧
      ((t.modify skb fun b => b.notify response).skbs k).hint.seqNum
        = (t.skbs k).hint.seqNum := by
  by_cases hk : k = skb
  · rw [hk, modify_self]
    exact ⟨rfl, rfl, rfl⟩
  · rw [modify_of_ne hk]
    exact ⟨rfl, rfl, rfl⟩

theorem Awaited.unhinted {s : State} (h : Awaited s.icap.transport s.threads) {n : U32}
    (hn : ¬ AwaitedSeqNum s n) : Unhinted s.icap.transport n := by
  intro k hk heq
  obtain ⟨-, m, hm, hseq⟩ := h.queued k hk
  exact hn ⟨_, m, hm, hseq.symm.trans heq⟩

/-- No hint in the queue is one of a thread that does not wait. -/
theorem Awaited.not_allocator (h : Awaited t threads) (hi : (threads i).linked = none) :
    ∀ k ∈ t.responseQueue, (t.skbs k).allocator ≠ i := by
  rintro k hk rfl
  obtain ⟨-, m, hm, -⟩ := h.queued k hk
  rw [hi] at hm
  cases hm

/-- A step that changes no hint and leaves in the queue only hints that were there. The thread
either keeps what it has, or has no hint in the queue any more. -/
theorem Awaited.of_sublist (h : Awaited t threads)
    (hqueue : t'.responseQueue.Sublist t.responseQueue) (halloc : t'.allocated = t.allocated)
    (hskb : ∀ k, (t'.skbs k).allocator = (t.skbs k).allocator ∧
      (t'.skbs k).hint.seqNum = (t.skbs k).hint.seqNum)
    (hheld : th'.held = (threads i).held ∨ th'.held = none)
    (hlinked : th'.linked = (threads i).linked ∨
      ∀ k ∈ t'.responseQueue, (t.skbs k).allocator ≠ i) :
    Awaited t' (Function.update threads i th') := by
  have hin : ∀ k ∈ t'.responseQueue, k ∈ t.responseQueue := fun k hk => hqueue.subset hk
  constructor
  · exact h.nodup.sublist hqueue
  · intro k hk
    obtain ⟨hlt, m, hm, hseq⟩ := h.queued k (hin k hk)
    simp only [hskb, halloc]
    refine ⟨hlt, m, ?_, hseq⟩
    by_cases hi : (t.skbs k).allocator = i
    -- the thread that goes on still waits, or had no hint left
    · rcases hlinked with hlinked | hnone
      · rw [hi, Function.update_self, hlinked, ← hi]
        exact hm
      · exact absurd hi (hnone k hk)
    · rw [Function.update_of_ne hi]
      exact hm
  · intro k hk k' hk'
    simp only [hskb]
    exact h.unique k (hin k hk) k' (hin k' hk')
  · intro j k hj
    obtain ⟨hlt, hown⟩ := h.held j k (update_keeps hheld hj)
    simp only [hskb, halloc]
    exact ⟨hlt, fun k' hk' => hown k' (hin k' hk')⟩

/-- `icap_prepare_wait` queues a hint of its own. -/
theorem Awaited.prepared (h : Awaited t threads) {m : Message} {mem : Mem}
    (hth : threads i = .prepareWait m) :
    Awaited (t.pushHint i m.cmd m.seqNum mem)
      (Function.update threads i (.sendPlatform m true)) := by
  obtain ⟨n, hn⟩ : ∃ n, n = t.allocated := ⟨_, rfl⟩
  have hold : ∀ k, k ≠ n → (t.pushHint i m.cmd m.seqNum mem).skbs k = t.skbs k :=
    fun k hk => pushHint_of_ne (by rw [← hn]; exact hk)
  have hnew : (t.pushHint i m.cmd m.seqNum mem).skbs n
      = ⟨i, ⟨0, m.seqNum, m.cmd⟩, mem, 0, false⟩ := by
    rw [hn]
    exact pushHint_self _ _ _ _ _
  have hne : ∀ k ∈ t.responseQueue, k ≠ n := fun k hk => by
    have := (h.queued k hk).1
    omega
  have halc := h.not_allocator (i := i) (by rw [hth]; rfl)
  have hq : ∀ k, k ∈ (t.pushHint i m.cmd m.seqNum mem).responseQueue ↔
      k ∈ t.responseQueue ∨ k = n := by
    intro k
    rw [hn]
    simp [IcapTransport.pushHint]
  have hheld := update_proj Thread.held
    (show Thread.held (.sendPlatform m true) = (threads i).held by rw [hth]; rfl)
  constructor
  · rw [show (t.pushHint i m.cmd m.seqNum mem).responseQueue = t.responseQueue ++ [n] by
      rw [hn]; rfl, List.nodup_append]
    refine ⟨h.nodup, List.nodup_singleton n, fun k hk k' hk' => ?_⟩
    rw [List.mem_singleton.mp hk']
    exact hne k hk
  · intro k hk
    rcases (hq k).mp hk with hk | rfl
    · obtain ⟨hlt, m', hm', hseq⟩ := h.queued k hk
      simp only [hold k (hne k hk)]
      refine ⟨Nat.lt_succ_of_lt hlt, m', ?_, hseq⟩
      rw [Function.update_of_ne (halc k hk)]
      exact hm'
    · simp only [hnew]
      refine ⟨by rw [hn]; exact Nat.lt_succ_self _, m, ?_, rfl⟩
      rw [Function.update_self]
      rfl
  · intro k hk k' hk' heq
    rcases (hq k).mp hk with hk | rfl <;> rcases (hq k').mp hk' with hk' | rfl
    · rw [hold k (hne k hk), hold k' (hne k' hk')] at heq
      exact h.unique k hk k' hk' heq
    · rw [hold k (hne k hk), hnew] at heq
      exact absurd heq (halc k hk)
    · rw [hold k' (hne k' hk'), hnew] at heq
      exact absurd heq.symm (halc k' hk')
    · rfl
  · intro j k hj
    rw [hheld] at hj
    obtain ⟨hlt, hown⟩ := h.held j k hj
    refine ⟨Nat.lt_succ_of_lt hlt, fun k' hk' heq => ?_⟩
    rcases (hq k').mp hk' with hk' | rfl
    · rw [hold k' (hne k' hk')] at heq
      exact hown k' hk' heq
    · -- the thread that holds a hint is not the one that prepares its wait
      rw [hnew] at heq
      obtain rfl : i = j := heq
      rw [hth] at hj
      cases hj

/-- A call finds its own hint. -/
theorem Awaited.found (h : Awaited t threads) {m : Message} {skb : Nat}
    (hth : threads i = .findHint m) (hskb : skb ∈ t.responseQueue)
    (hown : (t.skbs skb).allocator = i) :
    Awaited t (Function.update threads i (.waitEvent m skb)) := by
  have hlinked := update_proj Thread.linked
    (show Thread.linked (.waitEvent m skb) = (threads i).linked by rw [hth]; rfl)
  refine ⟨h.nodup, ?_, h.unique, ?_⟩
  · simp only [hlinked]
    exact h.queued
  · intro j k hj
    rcases update_some hj with ⟨rfl, hnew⟩ | ⟨-, hold⟩
    · obtain rfl : skb = k := Option.some.inj hnew
      exact ⟨(h.queued skb hskb).1,
        fun k' hk' heq => h.unique k' hk' skb hskb (heq.trans hown.symm)⟩
    · exact h.held j k hold

/-- `skb_unlink` by a call, of the only hint that it has in the queue. -/
theorem Awaited.unlinked (h : Awaited t threads) {m : Message} {skb : Nat} {timeout : WakeUp}
    (hth : threads i = .unlink m skb timeout) :
    Awaited (t.skbUnlink skb) (Function.update threads i (.result m skb timeout)) := by
  refine h.of_sublist List.erase_sublist rfl (fun k => ⟨rfl, rfl⟩) (Or.inr rfl) (Or.inr ?_)
  intro k hk heq
  obtain ⟨hne, hin⟩ := h.nodup.mem_erase_iff.mp hk
  exact hne ((h.held i skb (by rw [hth]; rfl)).2 k hin heq)

theorem kfreeSkb_same (t : IcapTransport) (j k : Nat) :
    ((t.kfreeSkb j).skbs k).allocator = (t.skbs k).allocator ∧
      ((t.kfreeSkb j).skbs k).hint.seqNum = (t.skbs k).hint.seqNum := by
  by_cases hk : k = j
  · rw [hk, IcapTransport.kfreeSkb, modify_self]
    exact ⟨rfl, rfl⟩
  · rw [IcapTransport.kfreeSkb, modify_of_ne hk]
    exact ⟨rfl, rfl⟩

/-- A flush frees the hints and keeps who made them. -/
theorem foldl_kfreeSkb_same (ks : List Nat) (t : IcapTransport) (k : Nat) :
    ((ks.foldl IcapTransport.kfreeSkb t).skbs k).allocator = (t.skbs k).allocator ∧
      ((ks.foldl IcapTransport.kfreeSkb t).skbs k).hint.seqNum = (t.skbs k).hint.seqNum ∧
      (ks.foldl IcapTransport.kfreeSkb t).allocated = t.allocated := by
  induction ks generalizing t with
  | nil => exact ⟨rfl, rfl, rfl⟩
  | cons j ks ih =>
      obtain ⟨halc, hseq, halloc⟩ := ih (t.kfreeSkb j)
      have hsame := kfreeSkb_same t j k
      exact ⟨halc.trans hsame.1, hseq.trans hsame.2, halloc⟩

variable {bits : Nat} {s s' : State} {inp : Input} {ev : List Event} {tr : Trace Input Event}

theorem Awaited.of_step (h : Awaited s.icap.transport s.threads) (hok : FindsOwn s inp)
    (hstep : step bits s inp = some (s', ev)) : Awaited s'.icap.transport s'.threads := by
  obtain ⟨i, a⟩ := inp
  obtain ⟨⟨icap', th', ev'⟩, hs, heq⟩ := Option.map_eq_some_iff.mp hstep
  obtain ⟨rfl, rfl⟩ := Prod.mk.inj heq
  have hmove := stepThread_move hs
  simp only at hs hmove ⊢
  have hsame : ∀ k, (s.icap.transport.skbs k).allocator = (s.icap.transport.skbs k).allocator ∧
      (s.icap.transport.skbs k).hint.seqNum = (s.icap.transport.skbs k).hint.seqNum :=
    fun k => ⟨rfl, rfl⟩
  generalize hth : s.threads i = th at hs hmove
  have hl : th.linked = (s.threads i).linked := by rw [hth]
  have hh : th.held = (s.threads i).held := by rw [hth]
  cases hmove with
  | @started c uninit m sync =>
      refine h.of_sublist (List.Sublist.refl _) rfl hsame (Or.inr ?_) (Or.inl ?_) <;>
        cases sync <;> first | rfl | exact hl
  | prepared => exact h.prepared hth
  | @notFound m hfind =>
      refine h.of_sublist (List.Sublist.refl _) rfl hsame (Or.inr rfl) (Or.inr ?_)
      rintro k hk rfl
      obtain ⟨-, m', hm', hseq⟩ := h.queued k hk
      rw [hth] at hm'
      obtain rfl : m = m' := Option.some.inj hm'
      exact findSeqNum_none hfind k hk hseq
  | found hfind => exact h.found hth (findSeqNum_some hfind).1 (hok _ hth _ hfind)
  | unlinked => exact h.unlinked hth
  | freed =>
      exact h.of_sublist (List.Sublist.refl _) rfl (kfreeSkb_same _ _) (Or.inl hh) (Or.inl hl)
  | opened ha =>
      rcases stepThread_opens ha hs with ht | ht <;> rw [ht]
      · exact h.of_sublist (List.Sublist.refl _) rfl hsame (Or.inl hh) (Or.inl hl)
      · exact h.of_sublist (List.nil_sublist _) rfl hsame (Or.inl hh) (Or.inl hl)
  | deinitTransport =>
      have hflush := foldl_kfreeSkb_same s.icap.transport.responseQueue s.icap.transport
      exact h.of_sublist (List.nil_sublist _) (hflush 0).2.2
        (fun k => ⟨(hflush k).1, (hflush k).2.1⟩) (Or.inl hh) (Or.inl hl)
  | notified =>
      exact h.of_sublist (List.Sublist.refl _) rfl
        (fun k => ⟨(notify_same _ _ k).1, (notify_same _ _ k).2.2⟩) (Or.inl hh) (Or.inl hl)
  | refused | prepareFailed | sent | sentAsync | woken | result | closed | closing | received
  | invoked | sentResponse | dropped | parsed =>
      exact h.of_sublist (List.Sublist.refl _) rfl hsame (Or.inl hh) (Or.inl hl)

/-- **The hints in the queue are those of calls that wait**, over every run in which the look-ups
find the hints of their own calls. -/
theorem run_awaited {rpdev : Option U32} {name : Nat} {cb : CallbackTable} {priv : Nat}
    (hrun : (machine bits).Run (fun _ s inp => FindsOwn s inp)
      (State.opened bits rpdev name cb priv) tr s) :
    Awaited s.icap.transport s.threads := by
  refine hrun.invariant (I := fun _ s => Awaited s.icap.transport s.threads)
    ⟨List.nodup_nil, nofun, nofun, nofun⟩ ?_
  intro tr s s' inp ev _ h hok hstep
  exact h.of_step hok hstep

end

end Icap.Linux
