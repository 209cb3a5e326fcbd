import Icap.Linux.Awaited

set_option autoImplicit false

/-! # Who owns a wait hint

Between `icap_prepare_wait` and `skb_unlink` the hint of a synchronous call is in
`response_queue`, and from then until `kfree_skb` only its call has it (`Owned`). Every step
keeps this but two: a flush of `icap_deinit_transport` that finds hints in the queue, and a
look-up that finds the hint of another call, which after 2^32 sends may carry the same seq_num
(`HandsOff`). `hints_owned_iff` says that these are exactly the steps that break it.
-/

namespace Icap.Linux

open ByteMemory Transition

/-! ## The invariant -/

/-- The skb a thread has removed from the queue and not freed. -/
def Thread.removed : Thread → Option Nat
  | .result _ skb _ => some skb
  | .free _ skb _ _ _ => some skb
  | _ => none

/-- The hints in the queue and the calls that wait correspond, and every other skb has been
removed by its call or is freed. -/
structure Owned (t : IcapTransport) (threads : Nat → Thread) : Prop where
  nodup : t.responseQueue.Nodup
  queued : ∀ k ∈ t.responseQueue, k < t.allocated ∧ (t.skbs k).freed = false ∧
    ∃ m, (threads (t.skbs k).allocator).linked = some m ∧ (t.skbs k).hint.seqNum = m.seqNum
  linked : ∀ i m, (threads i).linked = some m →
    ∃ k ∈ t.responseQueue, (t.skbs k).allocator = i
  unique : ∀ k ∈ t.responseQueue, ∀ k' ∈ t.responseQueue,
    (t.skbs k).allocator = (t.skbs k').allocator → k = k'
  held : ∀ i k, (threads i).held = some k → k ∈ t.responseQueue ∧ (t.skbs k).allocator = i
  removed : ∀ i k, (threads i).removed = some k →
    k < t.allocated ∧ (t.skbs k).freed = false ∧ k ∉ t.responseQueue ∧ (t.skbs k).allocator = i
  live : ∀ k < t.allocated, (t.skbs k).freed = false →
    k ∈ t.responseQueue ∨ ∃ i, (threads i).removed = some k
  fresh : ∀ k, t.allocated ≤ k → (t.skbs k).freed = false

/-- The flush finds no hint, and a look-up that finds a hint finds the one of its call. -/
def HandsOff (s : State) (inp : Input) : Prop :=
  match s.threads inp.thread, inp.action with
  | .deinitTransport, .deinitTransport => s.icap.transport.responseQueue = []
  | .findHint m, .findHint =>
      ∀ k, findSeqNum s.icap.transport m.seqNum = some k →
        (s.icap.transport.skbs k).allocator = inp.thread
  | _, _ => True

/-! ## Steps -/

section

variable {t t' : IcapTransport} {threads : Nat → Thread} {i : Nat} {th' : Thread}

theorem Owned.awaited (h : Owned t threads) : Awaited t threads where
  nodup := h.nodup
  queued := by
    intro k hk
    obtain ⟨hlt, -, hm⟩ := h.queued k hk
    exact ⟨hlt, hm⟩
  unique := h.unique
  held := by
    rintro i k hk
    obtain ⟨hin, rfl⟩ := h.held i k hk
    exact ⟨(h.queued k hin).1, fun k' hk' heq => h.unique k' hk' k hin heq⟩

/-- What `Owned` says besides `Awaited`. -/
theorem Owned.of_awaited (ha : Awaited t threads)
    (hfreed : ∀ k ∈ t.responseQueue, (t.skbs k).freed = false)
    (hlinked : ∀ i m, (threads i).linked = some m →
      ∃ k ∈ t.responseQueue, (t.skbs k).allocator = i)
    (hheld : ∀ i k, (threads i).held = some k →
      k ∈ t.responseQueue ∧ (t.skbs k).allocator = i)
    (hremoved : ∀ i k, (threads i).removed = some k → k < t.allocated ∧
      (t.skbs k).freed = false ∧ k ∉ t.responseQueue ∧ (t.skbs k).allocator = i)
    (hlive : ∀ k < t.allocated, (t.skbs k).freed = false →
      k ∈ t.responseQueue ∨ ∃ i, (threads i).removed = some k)
    (hfresh : ∀ k, t.allocated ≤ k → (t.skbs k).freed = false) : Owned t threads where
  nodup := ha.nodup
  queued := fun k hk => ⟨(ha.queued k hk).1, hfreed k hk, (ha.queued k hk).2⟩
  linked := hlinked
  unique := ha.unique
  held := hheld
  removed := hremoved
  live := hlive
  fresh := hfresh

/-- A step that changes no queue, no thread's hint and of the skbs only what they received. -/
theorem Owned.quiet (h : Owned t threads) (hqueue : t'.responseQueue = t.responseQueue)
    (halloc : t'.allocated = t.allocated)
    (hskb : ∀ k, (t'.skbs k).allocator = (t.skbs k).allocator ∧
      (t'.skbs k).freed = (t.skbs k).freed ∧
      (t'.skbs k).hint.seqNum = (t.skbs k).hint.seqNum)
    (hlinked : th'.linked = (threads i).linked) (hheld : th'.held = (threads i).held)
    (hremoved : th'.removed = (threads i).removed) :
    Owned t' (Function.update threads i th') := by
  have hl := update_proj Thread.linked hlinked
  have hh := update_proj Thread.held hheld
  have hr := update_proj Thread.removed hremoved
  have ha : Awaited t' (Function.update threads i th') :=
    h.awaited.of_sublist (by rw [hqueue]) halloc (fun k => ⟨(hskb k).1, (hskb k).2.2⟩)
      (Or.inl hheld) (Or.inl hlinked)
  apply Owned.of_awaited ha
  · intro k hk
    rw [hqueue] at hk
    rw [(hskb k).2.1]
    exact (h.queued k hk).2.1
  · intro j m hj
    rw [hl] at hj
    obtain ⟨k, hk, halc⟩ := h.linked j m hj
    exact ⟨k, by rw [hqueue]; exact hk, by simp only [hskb, halc]⟩
  · intro j k hj
    rw [hh] at hj
    simp only [hqueue, hskb]
    exact h.held j k hj
  · intro j k hj
    rw [hr] at hj
    simp only [hqueue, hskb, halloc]
    exact h.removed j k hj
  · intro k hk hfreed
    rw [(hskb k).2.1] at hfreed
    simp only [hqueue, hr]
    exact h.live k (by rw [← halloc]; exact hk) hfreed
  · intro k hk
    rw [(hskb k).2.1]
    exact h.fresh k (by rw [← halloc]; exact hk)

/-- `icap_prepare_wait` makes a hint of its own. -/
theorem Owned.prepared (h : Owned t threads) {m : Message} {mem : Mem}
    (hth : threads i = .prepareWait m) :
    Owned (t.pushHint i m.cmd m.seqNum mem) (Function.update threads i (.sendPlatform m true)) := by
  obtain ⟨n, hn⟩ : ∃ n, n = t.allocated := ⟨_, rfl⟩
  have hold : ∀ k, k ≠ n → (t.pushHint i m.cmd m.seqNum mem).skbs k = t.skbs k :=
    fun k hk => pushHint_of_ne (by rw [← hn]; exact hk)
  have hnew : (t.pushHint i m.cmd m.seqNum mem).skbs n
      = ⟨i, ⟨0, m.seqNum, m.cmd⟩, mem, 0, false⟩ := by
    rw [hn]
    exact pushHint_self _ _ _ _ _
  have hne : ∀ k ∈ t.responseQueue, k ≠ n := fun k hk => by
    have := (h.queued k hk).1
    omega
  have hq : (t.pushHint i m.cmd m.seqNum mem).responseQueue = t.responseQueue ++ [n] := by
    rw [hn]
    rfl
  have hheld := update_proj Thread.held
    (show Thread.held (.sendPlatform m true) = (threads i).held by rw [hth]; rfl)
  have hremoved := update_proj Thread.removed
    (show Thread.removed (.sendPlatform m true) = (threads i).removed by rw [hth]; rfl)
  apply Owned.of_awaited (h.awaited.prepared hth)
  · intro k hk
    rw [hq, List.mem_append, List.mem_singleton] at hk
    rcases hk with hk | rfl
    · rw [hold k (hne k hk)]
      exact (h.queued k hk).2.1
    · rw [hnew]
  · intro j m' hj
    by_cases hji : j = i
    · refine ⟨n, by rw [hq]; simp, ?_⟩
      simp only [hnew, hji]
    · rw [Function.update_of_ne hji] at hj
      obtain ⟨k, hk, halc'⟩ := h.linked j m' hj
      refine ⟨k, by rw [hq]; simp [hk], ?_⟩
      simp only [hold k (hne k hk)]
      exact halc'
  · intro j k hj
    rw [hheld] at hj
    obtain ⟨hk, halc'⟩ := h.held j k hj
    refine ⟨by rw [hq]; simp [hk], ?_⟩
    simp only [hold k (hne k hk)]
    exact halc'
  · intro j k hj
    rw [hremoved] at hj
    obtain ⟨hlt, hfreed, hk, halc'⟩ := h.removed j k hj
    have hkn : k ≠ n := by omega
    simp only [hold k hkn]
    refine ⟨Nat.lt_succ_of_lt hlt, hfreed, ?_, halc'⟩
    rw [hq, List.mem_append, List.mem_singleton]
    rintro (hin | hin)
    · exact hk hin
    · exact hkn hin
  -- an skb that is not freed was there before, or is the new one
  · intro k hk hfreed
    simp only [hremoved]
    rw [hq, List.mem_append, List.mem_singleton]
    by_cases hkn : k = n
    · exact Or.inl (Or.inr hkn)
    · simp only [hold k hkn] at hfreed
      have hlt : k < t.allocated + 1 := hk
      rcases h.live k (by omega) hfreed with hin | hin
      · exact Or.inl (Or.inl hin)
      · exact Or.inr hin
  · intro k hk
    have hle : t.allocated + 1 ≤ k := hk
    simp only [hold k (by omega)]
    exact h.fresh k (by omega)

/-- A look-up that finds the hint of its call. -/
theorem Owned.found (h : Owned t threads) {m : Message} {skb : Nat}
    (hth : threads i = .findHint m) (hin : skb ∈ t.responseQueue)
    (halc : (t.skbs skb).allocator = i) :
    Owned t (Function.update threads i (.waitEvent m skb)) := by
  have hlinked := update_proj Thread.linked
    (show Thread.linked (.waitEvent m skb) = (threads i).linked by rw [hth]; rfl)
  have hremoved := update_proj Thread.removed
    (show Thread.removed (.waitEvent m skb) = (threads i).removed by rw [hth]; rfl)
  apply Owned.of_awaited (h.awaited.found hth hin halc)
  · exact fun k hk => (h.queued k hk).2.1
  · simp only [hlinked]
    exact h.linked
  · intro j k hj
    rcases update_some hj with ⟨hji, hnew⟩ | ⟨-, hold⟩
    · obtain rfl : skb = k := Option.some.inj hnew
      exact ⟨hin, halc.trans hji.symm⟩
    · exact h.held j k hold
  · simp only [hremoved]
    exact h.removed
  · simp only [hremoved]
    exact h.live
  · exact h.fresh

/-- `skb_unlink` takes the hint out of the queue: its call is the only one that has it. -/
theorem Owned.unlinked (h : Owned t threads) {m : Message} {skb : Nat} {timeout : WakeUp}
    (hth : threads i = .unlink m skb timeout) :
    Owned (t.skbUnlink skb) (Function.update threads i (.result m skb timeout)) := by
  obtain ⟨hin, halc⟩ := h.held i skb (by rw [hth]; rfl)
  have herase : ∀ k, k ∈ t.responseQueue.erase skb ↔ k ≠ skb ∧ k ∈ t.responseQueue :=
    fun k => h.nodup.mem_erase_iff
  apply Owned.of_awaited (h.awaited.unlinked hth)
  · exact fun k hk => (h.queued k ((herase k).mp hk).2).2.1
  · intro j m' hj
    rcases update_some hj with ⟨-, hnew⟩ | ⟨hji, hold⟩
    · cases hnew
    · obtain ⟨k, hk, halc'⟩ := h.linked j m' hold
      refine ⟨k, (herase k).mpr ⟨?_, hk⟩, halc'⟩
      rintro rfl
      exact hji (halc'.symm.trans halc)
  · intro j k hj
    rcases update_some hj with ⟨-, hnew⟩ | ⟨hji, hold⟩
    · cases hnew
    · obtain ⟨hk, halc'⟩ := h.held j k hold
      refine ⟨(herase k).mpr ⟨?_, hk⟩, halc'⟩
      rintro rfl
      exact hji (halc'.symm.trans halc)
  · intro j k hj
    rcases update_some hj with ⟨hji, hnew⟩ | ⟨-, hold⟩
    · obtain rfl : skb = k := Option.some.inj hnew
      obtain ⟨hlt, hfreed, -⟩ := h.queued skb hin
      exact ⟨hlt, hfreed, fun hk => ((herase skb).mp hk).1 rfl, halc.trans hji.symm⟩
    · obtain ⟨hlt, hfreed, hk, halc'⟩ := h.removed j k hold
      exact ⟨hlt, hfreed, fun hk' => hk ((herase k).mp hk').2, halc'⟩
  -- the hint is out of the queue, and its call still has the skb
  · intro k hk hfreed
    by_cases hks : k = skb
    · refine Or.inr ⟨i, ?_⟩
      rw [Function.update_self, hks]
      rfl
    · rcases h.live k hk hfreed with hk' | ⟨j, hj⟩
      · exact Or.inl ((herase k).mpr ⟨hks, hk'⟩)
      · refine Or.inr ⟨j, ?_⟩
        have hji : j ≠ i := by
          rintro rfl
          rw [hth] at hj
          cases hj
        rw [Function.update_of_ne hji]
        exact hj
  · exact h.fresh

/-- `kfree_skb` at the end of the call. -/
theorem Owned.freed (h : Owned t threads) {m : Message} {skb : Nat} {timeout : WakeUp} {ret : U32}
    {response : Mem} (hth : threads i = .free m skb timeout ret response) :
    Owned (t.kfreeSkb skb) (Function.update threads i .idle) := by
  obtain ⟨hlt, -, hout, halc⟩ := h.removed i skb (by rw [hth]; rfl)
  have hold : ∀ k, k ≠ skb → (t.kfreeSkb skb).skbs k = t.skbs k := fun k hk => modify_of_ne hk
  have hself : (t.kfreeSkb skb).skbs skb = { t.skbs skb with freed := true } := modify_self _ _ _
  have hne : ∀ k ∈ t.responseQueue, k ≠ skb := by
    rintro k hk rfl
    exact hout hk
  have hlinked := update_proj Thread.linked
    (show Thread.linked .idle = (threads i).linked by rw [hth]; rfl)
  have hheld := update_proj Thread.held
    (show Thread.held .idle = (threads i).held by rw [hth]; rfl)
  have ha : Awaited (t.kfreeSkb skb) (Function.update threads i .idle) :=
    h.awaited.of_sublist (List.Sublist.refl _) rfl (kfreeSkb_same t skb)
      (Or.inl (by rw [hth]; rfl)) (Or.inl (by rw [hth]; rfl))
  apply Owned.of_awaited ha
  · intro k hk
    rw [hold k (hne k hk)]
    exact (h.queued k hk).2.1
  · intro j m' hj
    rw [hlinked] at hj
    simp only [(kfreeSkb_same t skb _).1]
    exact h.linked j m' hj
  · intro j k hj
    rw [hheld] at hj
    simp only [(kfreeSkb_same t skb _).1]
    exact h.held j k hj
  · intro j k hj
    rcases update_some hj with ⟨-, hnew⟩ | ⟨hji, hremoved⟩
    · cases hnew
    · obtain ⟨hlt', hfreed', hk, halc'⟩ := h.removed j k hremoved
      have hks : k ≠ skb := by
        rintro rfl
        exact hji (halc'.symm.trans halc)
      simp only [hold k hks]
      exact ⟨hlt', hfreed', hk, halc'⟩
  · intro k hk hfreed'
    by_cases hks : k = skb
    · simp only [hks, hself] at hfreed'
      cases hfreed'
    · simp only [hold k hks] at hfreed'
      rcases h.live k hk hfreed' with hk' | ⟨j, hj⟩
      · exact Or.inl hk'
      · refine Or.inr ⟨j, ?_⟩
        have hji : j ≠ i := by
          rintro rfl
          rw [hth] at hj
          exact hks (Option.some.inj hj).symm
        rw [Function.update_of_ne hji]
        exact hj
  · intro k hk
    have hks : k ≠ skb := by
      rintro rfl
      exact absurd hlt (Nat.not_lt.mpr hk)
    simp only [hold k hks]
    exact h.fresh k hk

/-- The look-up of a call that waits finds a hint. -/
theorem Owned.find_ne_none (h : Owned t threads) {m : Message}
    (hth : (threads i).linked = some m) : findSeqNum t m.seqNum ≠ none := by
  intro hnone
  obtain ⟨k, hk, halc⟩ := h.linked i m hth
  obtain ⟨-, -, m', hm', hseq⟩ := h.queued k hk
  rw [halc, hth] at hm'
  obtain rfl : m = m' := Option.some.inj hm'
  exact findSeqNum_none hnone k hk hseq

theorem icapDeinitTransport_of_empty (hempty : t.responseQueue = []) :
    icapDeinitTransport t = { t with rpdev := none } := by
  rw [icapDeinitTransport, hempty, List.foldl_nil, ← hempty]

variable {bits : Nat} {s : State} {a : Action} {icap' : Instance} {ev : List Event}

theorem Owned.of_move (h : Owned s.icap.transport s.threads)
    (hmove : Move bits s.icap i (s.threads i) a icap' th' ev) (hopen : a.opens = false)
    (hok : HandsOff s ⟨i, a⟩) : Owned icap'.transport (Function.update s.threads i th') := by
  have hsame : ∀ k, (s.icap.transport.skbs k).allocator = (s.icap.transport.skbs k).allocator ∧
      (s.icap.transport.skbs k).freed = (s.icap.transport.skbs k).freed ∧
      (s.icap.transport.skbs k).hint.seqNum = (s.icap.transport.skbs k).hint.seqNum :=
    fun k => ⟨rfl, rfl, rfl⟩
  unfold HandsOff at hok
  simp only at hok
  generalize hth : s.threads i = th at hmove
  have hl : th.linked = (s.threads i).linked := by rw [hth]
  have hh : th.held = (s.threads i).held := by rw [hth]
  have hr : th.removed = (s.threads i).removed := by rw [hth]
  cases hmove with
  | started =>
      rename_i sync _ _
      cases sync <;> exact h.quiet rfl rfl hsame hl hh hr
  | prepared => exact h.prepared hth
  | notFound hfind => exact absurd hfind (h.find_ne_none (i := i) (by rw [hth]; rfl))
  | found hfind =>
      rw [hth] at hok
      exact h.found hth (findSeqNum_some hfind).1 (hok _ hfind)
  | unlinked => exact h.unlinked hth
  | freed => exact h.freed hth
  | opened ha =>
      rw [hopen] at ha
      cases ha
  -- a deinit that finds the queue empty frees nothing
  | deinitTransport =>
      rw [hth] at hok
      rw [show icapDeinitTransport _ = _ from icapDeinitTransport_of_empty hok]
      exact h.quiet rfl rfl hsame hl hh hr
  | notified hfind =>
      exact h.quiet rfl rfl (notify_same _ _) hl hh hr
  | refused | prepareFailed | sent | sentAsync | woken | result | closed | closing | received
  | invoked | sentResponse | dropped | parsed =>
      exact h.quiet rfl rfl hsame hl hh hr

/-! ## Events -/

/-- What the property speaks of. -/
inductive HintEvent where
  | fault (skb : Nat)
  | freed (skb : Nat)
  | notFound (m : Message)

def Event.hint : Event → Option HintEvent
  | .fault skb => some (.fault skb)
  | .freed skb => some (.freed skb)
  | .notFound m => some (.notFound m)
  | _ => none

def hintEvents (ev : List Event) : List HintEvent := ev.filterMap Event.hint

theorem hintEvents_append (ev ev' : List Event) :
    hintEvents (ev ++ ev') = hintEvents ev ++ hintEvents ev' := by
  simp [hintEvents]

theorem useSkbs_nil {ks : List Nat} (h : ∀ k ∈ ks, (t.skbs k).freed = false) :
    useSkbs t ks = [] := by
  rw [useSkbs, List.filter_eq_nil_iff.mpr]
  · rfl
  · intro k hk
    rw [h k hk]
    exact Bool.false_ne_true

theorem Owned.use_walk (h : Owned t threads) (n : U32) : useSkbs t (walkSeqNum t n) = [] :=
  useSkbs_nil fun k hk => (h.queued k (mem_queue_of_walk hk)).2.1

theorem Owned.use_held (h : Owned t threads) {k : Nat} (hk : (threads i).held = some k) :
    useSkbs t [k] = [] :=
  useSkbs_nil fun k' hk' => by
    rw [List.mem_singleton.mp hk']
    exact (h.queued k (h.held i k hk).1).2.1

theorem Owned.use_removed (h : Owned t threads) {k : Nat} (hk : (threads i).removed = some k) :
    useSkbs t [k] = [] :=
  useSkbs_nil fun k' hk' => by
    rw [List.mem_singleton.mp hk']
    exact (h.removed i k hk).2.1

/-- A step frees nothing, or the skb that its call has removed from the queue; there is no
fault, and no look-up fails. -/
theorem Owned.hints_of_move (h : Owned s.icap.transport s.threads)
    (hmove : Move bits s.icap i (s.threads i) a icap' th' ev) (hopen : a.opens = false)
    (hok : HandsOff s ⟨i, a⟩) :
    (hintEvents ev = [] ∧
      ∀ k, (icap'.transport.skbs k).freed = (s.icap.transport.skbs k).freed) ∨
    ∃ skb, hintEvents ev = [.freed skb] ∧ (s.icap.transport.skbs skb).freed = false ∧
      icap'.transport = s.icap.transport.kfreeSkb skb := by
  unfold HandsOff at hok
  simp only at hok
  generalize hth : s.threads i = th at hmove
  have hheld : ∀ k, th.held = some k → useSkbs s.icap.transport [k] = [] := by
    intro k hk
    exact h.use_held (i := i) (by rw [hth]; exact hk)
  have hremoved : ∀ k, th.removed = some k → useSkbs s.icap.transport [k] = [] := by
    intro k hk
    exact h.use_removed (i := i) (by rw [hth]; exact hk)
  have hwalk := h.use_walk
  cases hmove with
  | sent hev =>
      refine Or.inl ⟨?_, fun k => rfl⟩
      rcases hev with rfl | rfl <;> rfl
  | sentAsync hev =>
      refine Or.inl ⟨?_, fun k => rfl⟩
      rcases hev with rfl | rfl <;> rfl
  | notFound hfind => exact absurd hfind (h.find_ne_none (i := i) (by rw [hth]; rfl))
  | prepared =>
      refine Or.inl ⟨rfl, fun k => ?_⟩
      by_cases hk : k = s.icap.transport.allocated
      · rw [hk, pushHint_self, h.fresh _ (Nat.le_refl _)]
      · rw [pushHint_of_ne hk]
  | unlinked =>
      rename_i m skb timeout
      refine Or.inl ⟨?_, fun k => rfl⟩
      rw [if_pos (h.held i skb (by rw [hth]; rfl)).1, hheld skb rfl]
      rfl
  | result hused hev hret =>
      rename_i m skb timeout ret response used ev
      refine Or.inl ⟨?_, fun k => rfl⟩
      rw [hremoved skb rfl] at hused
      rcases hused with rfl | rfl <;> rcases hev with rfl | ⟨icapId, msgCmd, rfl⟩ <;> rfl
  -- the only step that frees: the skb is one that its call has removed from the queue
  | freed =>
      rename_i m skb timeout ret response
      refine Or.inr ⟨skb, ?_, (h.removed i skb (by rw [hth]; rfl)).2.1, rfl⟩
      rw [hremoved skb rfl]
      rfl
  | opened ha =>
      rw [hopen] at ha
      cases ha
  | deinitTransport =>
      rw [hth] at hok
      rw [show icapDeinitTransport _ = _ from icapDeinitTransport_of_empty hok,
        show s.icap.transport.responseQueue = [] from hok]
      exact Or.inl ⟨rfl, fun k => rfl⟩
  | sentResponse hev =>
      refine Or.inl ⟨?_, fun k => rfl⟩
      rcases hev with rfl | rfl <;> rfl
  | notified hfind =>
      refine Or.inl ⟨?_, fun k => (notify_same _ _ k).2.1⟩
      rw [hwalk]
      rfl
  | found | dropped =>
      refine Or.inl ⟨?_, fun k => rfl⟩
      rw [hwalk]
      rfl
  | woken =>
      refine Or.inl ⟨?_, fun k => rfl⟩
      rw [hheld _ rfl]
      rfl
  | refused | started | prepareFailed | closed | closing | received | invoked | parsed =>
      exact Or.inl ⟨rfl, fun k => rfl⟩

end

/-! ## Runs -/

def HintEvent.freedSkb : HintEvent → Option Nat
  | .freed skb => some skb
  | _ => none

/-- The skbs handed to `kfree_skb`. -/
def freedSkbs (tr : Trace Input Event) : List Nat :=
  (hintEvents tr.events).filterMap HintEvent.freedSkb

/-- The property: each call between prepare and unlink has its own hint in the queue, and the
one it has found is its own; an skb that is allocated is freed once, if its call has not yet
to do it; no skb is used after it was freed; and no look-up fails. -/
structure HintsOwned (tr : Trace Input Event) (s : State) : Prop where
  own : ∀ i m, (s.threads i).linked = some m → ∃ k ∈ s.icap.transport.responseQueue,
    (s.icap.transport.skbs k).allocator = i ∧ (s.icap.transport.skbs k).freed = false ∧
      (s.icap.transport.skbs k).hint.seqNum = m.seqNum ∧
      ∀ k', (s.threads i).held = some k' → k' = k
  freedOnce : ∀ k < s.icap.transport.allocated, (freedSkbs tr).count k = 1 ∨
    (freedSkbs tr).count k = 0 ∧
      (k ∈ s.icap.transport.responseQueue ∨ ∃ i, (s.threads i).removed = some k)
  noFault : ∀ k, .fault k ∉ tr.events
  found : ∀ m, .notFound m ∉ tr.events

/-- The events so far are frees of skbs, each once. -/
structure Ledger (tr : Trace Input Event) (t : IcapTransport) : Prop where
  freed : ∀ e ∈ hintEvents tr.events, ∃ k, e = .freed k
  count : ∀ k, (freedSkbs tr).count k = if (t.skbs k).freed then 1 else 0

section

variable {bits : Nat} {tr : Trace Input Event} {s s' : State} {rpdev : Option U32}
  {name priv : Nat} {cb : CallbackTable}

theorem freedSkbs_snoc (inp : Input) (ev : List Event) :
    freedSkbs (tr ++ [(inp, ev)]) =
      freedSkbs tr ++ (hintEvents ev).filterMap HintEvent.freedSkb := by
  rw [freedSkbs, Trace.events_append, Trace.events_singleton, hintEvents_append,
    List.filterMap_append]
  rfl

theorem Ledger.of_move {t t' : IcapTransport} (h : Ledger tr t) {inp : Input} {ev : List Event}
    (hev : (hintEvents ev = [] ∧ ∀ k, (t'.skbs k).freed = (t.skbs k).freed) ∨
      ∃ skb, hintEvents ev = [.freed skb] ∧ (t.skbs skb).freed = false ∧
        t' = t.kfreeSkb skb) :
    Ledger (tr ++ [(inp, ev)]) t' := by
  rcases hev with ⟨hev, hsame⟩ | ⟨skb, hev, hlive, rfl⟩
  · constructor
    · intro e he
      rw [Trace.events_append, Trace.events_singleton, hintEvents_append, hev,
        List.append_nil] at he
      exact h.freed e he
    · intro k
      rw [freedSkbs_snoc, hev, hsame k]
      simpa using h.count k
  · constructor
    · intro e he
      rw [Trace.events_append, Trace.events_singleton, hintEvents_append, hev,
        List.mem_append, List.mem_singleton] at he
      rcases he with he | rfl
      · exact h.freed e he
      · exact ⟨skb, rfl⟩
    · intro k
      have hcount := h.count k
      rw [freedSkbs_snoc, hev, List.count_append, hcount]
      by_cases hk : k = skb
      · rw [hk, hlive, show (t.kfreeSkb skb).skbs skb = _ from modify_self _ _ _]
        simp [HintEvent.freedSkb]
      · rw [show (t.kfreeSkb skb).skbs k = _ from modify_of_ne hk]
        simp [HintEvent.freedSkb, Ne.symm hk]

theorem opened_owned : Owned (State.opened bits rpdev name cb priv).icap.transport
    (State.opened bits rpdev name cb priv).threads where
  nodup := List.nodup_nil
  queued := fun _ hk => absurd hk List.not_mem_nil
  linked := nofun
  unique := fun _ hk => absurd hk List.not_mem_nil
  held := nofun
  removed := nofun
  live := fun _ hk => absurd hk (Nat.not_lt_zero _)
  fresh := fun _ _ => rfl

theorem opened_ledger : Ledger [] (State.opened bits rpdev name cb priv).icap.transport :=
  ⟨nofun, fun _ => rfl⟩

theorem owned_step {inp : Input} {ev : List Event} (h : Owned s.icap.transport s.threads)
    (hl : Ledger tr s.icap.transport) (hopen : inp.action.opens = false) (hok : HandsOff s inp)
    (hstep : step bits s inp = some (s', ev)) :
    Owned s'.icap.transport s'.threads ∧ Ledger (tr ++ [(inp, ev)]) s'.icap.transport := by
  obtain ⟨icap', th', hmove, rfl⟩ := step_move hstep
  exact ⟨h.of_move hmove hopen hok, hl.of_move (h.hints_of_move hmove hopen hok)⟩

theorem run_owned {ok : Trace Input Event → State → Input → Prop}
    (hok : ∀ tr s inp, ok tr s inp → inp.action.opens = false ∧ HandsOff s inp)
    (hrun : (machine bits).Run ok (State.opened bits rpdev name cb priv) tr s) :
    Owned s.icap.transport s.threads ∧ Ledger tr s.icap.transport := by
  refine hrun.invariant (I := fun tr s => Owned s.icap.transport s.threads ∧
    Ledger tr s.icap.transport) ⟨opened_owned, opened_ledger⟩ ?_
  rintro tr s s' inp ev - ⟨h, hl⟩ hi hstep
  obtain ⟨hopen, hhands⟩ := hok tr s inp hi
  exact owned_step h hl hopen hhands hstep

theorem Owned.hintsOwned (h : Owned s.icap.transport s.threads)
    (hl : Ledger tr s.icap.transport) : HintsOwned tr s where
  own := by
    intro i m hm
    obtain ⟨k, hk, halc⟩ := h.linked i m hm
    obtain ⟨-, hfreed, m', hm', hseq⟩ := h.queued k hk
    rw [halc, hm] at hm'
    obtain rfl : m = m' := Option.some.inj hm'
    refine ⟨k, hk, halc, hfreed, hseq, fun k' hk' => ?_⟩
    obtain ⟨hin, halc'⟩ := h.held i k' hk'
    exact h.unique k' hin k hk (halc'.trans halc.symm)
  freedOnce := by
    intro k hk
    rw [hl.count k]
    cases hfreed : (s.icap.transport.skbs k).freed with
    | true => exact Or.inl rfl
    | false => exact Or.inr ⟨rfl, h.live k hk hfreed⟩
  noFault := by
    intro k hmem
    obtain ⟨k', hk'⟩ := hl.freed (.fault k) (List.mem_filterMap.mpr ⟨_, hmem, rfl⟩)
    cases hk'
  found := by
    intro m hmem
    obtain ⟨k', hk'⟩ := hl.freed (.notFound m) (List.mem_filterMap.mpr ⟨_, hmem, rfl⟩)
    cases hk'

/-- A step that is not allowed takes a hint from its call or gives a call another's. -/
theorem Owned.lost (h : Owned s.icap.transport s.threads) {inp : Input} {ev : List Event}
    (hstep : step bits s inp = some (s', ev)) (hbad : ¬ HandsOff s inp) :
    ¬ HintsOwned (tr ++ [(inp, ev)]) s' := by
  intro howned
  obtain ⟨icap', th', hmove, rfl⟩ := step_move hstep
  obtain ⟨i, a⟩ := inp
  unfold HandsOff at hbad
  simp only at hbad hmove
  generalize hth : s.threads i = th at hmove hbad
  cases hmove with
  -- the thread holds a hint that its own call does not have
  | found hfind =>
      rename_i m skb
      have hself : Function.update s.threads i (Thread.waitEvent m skb) i = .waitEvent m skb :=
        Function.update_self _ _ _
      obtain ⟨k, -, halc, -, -, hheld⟩ := howned.own i m (congrArg Thread.linked hself)
      have hk : skb = k := hheld skb (congrArg Thread.held hself)
      refine hbad fun k' hk' => ?_
      rw [hfind] at hk'
      rw [← Option.some.inj hk', hk]
      exact halc
  | notFound hfind =>
      refine hbad fun k' hk' => ?_
      rw [hfind] at hk'
      cases hk'
  -- the call whose hint is flushed still waits
  | deinitTransport =>
      refine hbad ?_
      by_contra hne
      obtain ⟨k, hk⟩ := List.exists_mem_of_ne_nil _ hne
      obtain ⟨-, -, m, hm, -⟩ := h.queued k hk
      have hother : (s.icap.transport.skbs k).allocator ≠ i := by
        intro heq
        rw [heq, hth] at hm
        cases hm
      obtain ⟨k', hk', -⟩ := howned.own (s.icap.transport.skbs k).allocator m (by
        simp only [Function.update_of_ne hother]
        exact hm)
      cases hk'
  | opened | closed | closing => cases a <;> exact hbad trivial
  | _ => exact hbad trivial

/-- In a run without another init every wait hint is owned by its call until that call removes
it, if and only if every flush finds the queue empty and every look-up that finds a hint finds
the one of its call. -/
theorem hints_owned_iff
    (hrun : (machine bits).Run (fun _ _ inp => inp.action.opens = false)
      (State.opened bits rpdev name cb priv) tr s) :
    (∀ tr' s', tr' <+: tr → (machine bits).Run (fun _ _ inp => inp.action.opens = false)
        (State.opened bits rpdev name cb priv) tr' s' → HintsOwned tr' s') ↔
      (machine bits).Run (fun _ s inp => inp.action.opens = false ∧ HandsOff s inp)
        (State.opened bits rpdev name cb priv) tr s := by
  -- the first step that is not allowed breaks the property at once
  refine Machine.Run.forall_prefix_iff (P := HintsOwned) hrun ?_ ?_
  · intro tr s hr
    obtain ⟨h, hl⟩ := run_owned (fun _ _ _ hok => hok) hr
    exact h.hintsOwned hl
  · intro tr s s' inp ev hr hopen hbad hstep
    obtain ⟨h, -⟩ := run_owned (fun _ _ _ hok => hok) hr
    exact h.lost hstep hbad

end

/-- The waiting call of thread 1 times out after thread 2 has closed the instance. -/
def closedWhileWaiting : List Input :=
  [⟨1, .call (.pause 1) fun _ => 0⟩, ⟨1, .prepareWait (some fun _ => 0)⟩, ⟨1, .sendPlatform 0⟩,
    ⟨1, .findHint⟩, ⟨2, .applicationDeinit⟩, ⟨2, .deinitTransport⟩, ⟨1, .waitEvent .elapsed⟩,
    ⟨1, .unlink⟩, ⟨1, .result⟩, ⟨1, .free⟩]

theorem hint_freed_twice : ∃ tr s,
    (machine 64).Run (fun _ _ inp => inp.action.opens = false)
      (State.opened 64 (some 0) 0 (fun _ => false) 0) tr s ∧
    freedSkbs tr = [0, 0] ∧ ¬ HintsOwned tr s := by
  have hfreed : freedSkbs ((machine 64).exec [] (State.opened 64 (some 0) 0 (fun _ => false) 0)
      closedWhileWaiting).1 = [0, 0] := by decide +kernel
  refine ⟨_, _, Machine.Run.start.exec closedWhileWaiting
    ⟨rfl, rfl, rfl, rfl, rfl, rfl, rfl, rfl, rfl, rfl, trivial⟩, hfreed, fun h => ?_⟩
  rcases h.freedOnce 0 Nat.zero_lt_one with hcount | ⟨hcount, -⟩
  · rw [hfreed] at hcount
    cases hcount
  · rw [hfreed] at hcount
    cases hcount

/-- The instance is closed after the call has returned. -/
def closedAfterwards : List Input :=
  [⟨1, .call (.pause 1) fun _ => 0⟩, ⟨1, .prepareWait (some fun _ => 0)⟩, ⟨1, .sendPlatform 0⟩,
    ⟨1, .findHint⟩, ⟨1, .waitEvent .elapsed⟩, ⟨1, .unlink⟩, ⟨1, .result⟩, ⟨1, .free⟩,
    ⟨2, .applicationDeinit⟩, ⟨2, .deinitTransport⟩]

theorem hints_owned_iff_closed : ∃ tr s,
    (machine 64).Run (fun _ _ inp => inp.action.opens = false)
      (State.opened 64 (some 0) 0 (fun _ => false) 0) tr s ∧
    freedSkbs tr = [0] ∧ HintsOwned tr s := by
  have hrun : (machine 64).Run (fun _ _ inp => inp.action.opens = false)
      (State.opened 64 (some 0) 0 (fun _ => false) 0) _ _ :=
    Machine.Run.start.exec closedAfterwards
      ⟨rfl, rfl, rfl, rfl, rfl, rfl, rfl, rfl, rfl, rfl, trivial⟩
  refine ⟨_, _, hrun, by decide +kernel, ?_⟩
  refine (hints_owned_iff hrun).mpr ?_ _ _ (List.prefix_refl _) hrun
  refine Machine.Run.start.exec closedAfterwards ⟨⟨rfl, trivial⟩, ⟨rfl, trivial⟩, ⟨rfl, trivial⟩,
    ⟨rfl, fun k hk => ?_⟩, ⟨rfl, trivial⟩, ⟨rfl, trivial⟩, ⟨rfl, trivial⟩, ⟨rfl, trivial⟩,
    ⟨rfl, trivial⟩, ⟨rfl, rfl⟩, trivial⟩
  obtain rfl : 0 = k := Option.some.inj hk
  rfl

end Icap.Linux
