import Icap.Linux.Awaited

set_option autoImplicit false

/-! # Responses nobody waits for

`icap_response_notify` looks for a hint with the response's seq_num. If it finds none, it refuses
the response, and the rest of the run is one in which the frame has not arrived
(`refused_iff`).
-/

namespace Icap.Linux

open ByteMemory Transition

/-! ## A frame that has not arrived -/

/-- Every sequence of inputs. -/
def AnyInput (_ : Trace Input Event) (_ : State) (_ : Input) : Prop := True

/-- The threads other than `i` go on. -/
def Others (i : Nat) (_ : Trace Input Event) (_ : State) (inp : Input) : Prop := inp.thread ≠ i

/-- In `s` the endpoint's callback runs in the thread `i`, and `icap_parse_msg` accepts the
response `r` for an application. -/
def Receives (bits : Nat) (s : State) (i : Nat) (r : IcapMsg) (s' : State) : Prop :=
  ∃ srcAddr size, step bits s ⟨i, .receive srcAddr r size⟩ = some (s', []) ∧
    s'.threads i = .parse (icapApplicationParseResponse r)

/-- The thread `i` received a response in `s`, the others took the steps `during`, and then
`icap_response_notify` led to `s'`. It returned `-ICAP_ERROR_TIMEOUT`; and all that comes later
comes too, and shows the same, when the frame has not arrived. -/
structure Refused (bits : Nat) (s : State) (i : Nat) (during : Trace Input Event) (s' : State) :
    Prop where
  ret : s'.threads i = .parse (.done (-ICAP_ERROR_TIMEOUT))
  /-- The return of `icap_parse_msg`, the next step of the thread, is left out. -/
  erased : ∀ later u, (machine bits).Run AnyInput s' later u →
    ∃ v, (machine bits).Run AnyInput s (during ++ later.eraseP fun e => e.1.thread = i) v ∧
      v.icap = u.icap ∧ ∀ j ≠ i, v.threads j = u.threads j
  restored : ∀ later v, (machine bits).Run AnyInput s (during ++ later) v →
    ∃ ret, (machine bits).Run AnyInput s' ((⟨i, .parseRet⟩, [.parsed ret]) :: later) v

section

variable {bits i : Nat} {s s' s₀ s₁ : State} {r : IcapMsg} {tr : Trace Input Event}
  {ev : List Event}

theorem Receives.eq (h : Receives bits s i r s') :
    s.threads i = .idle ∧ s' = s.put i (.parse (icapApplicationParseResponse r)) := by
  obtain ⟨srcAddr, size, hstep, hthread⟩ := h
  obtain ⟨icap', th', hmove, rfl⟩ := step_move hstep
  simp only [Function.update_self] at hmove hthread
  rw [← hthread, State.put]
  generalize s.threads i = th at hmove
  cases hmove with
  | received => exact ⟨rfl, rfl⟩
  | closing ha => cases ha

/-- The others' steps do not depend on the thread. -/
theorem run_put (th : Thread) (h : (machine bits).Run (Others i) s tr s') :
    (machine bits).Run (Others i) (s.put i th) tr (s'.put i th) := by
  induction h with
  | start => exact .start
  | step _ hok hs ih => exact .step ih hok (step_put hs hok th)

theorem run_threads (h : (machine bits).Run (Others i) s tr s') :
    s'.threads i = s.threads i := by
  induction h with
  | start => rfl
  | step _ hok hs ih => exact (step_threads hs fun heq => hok heq.symm).trans ih

/-- A receiver that has only to return does so, and changes nothing else. -/
theorem step_parseRet {ret : U32} (h : s.threads i = .parse (.done ret)) :
    step bits s ⟨i, .parseRet⟩ = some (s.put i .idle, [.parsed ret]) := by
  unfold step
  simp only [h]
  rfl

theorem step_done {ret : U32} {a : Action} (h : s.threads i = .parse (.done ret))
    (hstep : step bits s ⟨i, a⟩ = some (s', ev)) : s' = s.put i .idle := by
  obtain ⟨icap', th', hmove, rfl⟩ := step_move hstep
  simp only [h] at hmove
  cases hmove with
  | parsed => rfl

/-- A run in which a receiver has only to return is, without that return, a run in which its
thread is idle from the start. -/
theorem run_erase {ret : U32} (hdone : s.threads i = .parse (.done ret))
    (h : (machine bits).Run AnyInput s tr s') :
    ∃ v, (machine bits).Run AnyInput (s.put i .idle) (tr.eraseP fun e => e.1.thread = i) v ∧
      ((∀ e ∈ tr, e.1.thread ≠ i) ∧ s'.threads i = .parse (.done ret) ∧ v = s'.put i .idle ∨
        (∃ e ∈ tr, e.1.thread = i) ∧ v = s') := by
  -- before the return the two runs differ in the receiving thread, and after it in nothing
  induction h with
  | start => exact ⟨_, .start, Or.inl ⟨nofun, hdone, rfl⟩⟩
  | @step tr s₁ s₂ inp ev _ _ hs ih =>
      obtain ⟨v, hv, ⟨hnone, hth, rfl⟩ | ⟨⟨e, he, hi⟩, rfl⟩⟩ := ih
      · have hkept : tr.eraseP (fun e => e.1.thread = i) = tr :=
          List.eraseP_of_forall_not fun e he => by simpa using hnone e he
        rw [hkept] at hv
        rw [List.eraseP_append_right _ fun e he => by simpa using hnone e he]
        by_cases hi : inp.thread = i
        · -- the receiver returns: its step is left out
          subst hi
          refine ⟨_, by simpa using hv, Or.inr ⟨⟨(inp, ev), by simp, rfl⟩, ?_⟩⟩
          exact (step_done hth hs).symm
        · have hsame : s₂.threads i = .parse (.done ret) :=
            (step_threads hs fun heq => hi heq.symm).trans hth
          refine ⟨_, ?_, Or.inl ⟨?_, hsame, rfl⟩⟩
          · rw [List.eraseP_of_forall_not (by simpa using hi)]
            exact .step hv trivial (step_put hs hi .idle)
          · intro e he
            rcases List.mem_append.mp he with he | he
            · exact hnone e he
            · rw [List.mem_singleton.mp he]
              exact hi
      · refine ⟨_, ?_, Or.inr ⟨⟨e, List.mem_append_left _ he, hi⟩, rfl⟩⟩
        rw [List.eraseP_append_left (by simpa using hi) _ he]
        exact .step hv trivial hs

/-- **A response is refused, and without effect on anything later, exactly when no hint in the
queue has its seq_num.** -/
theorem refused_iff {during : Trace Input Event} (hreceive : Receives bits s i r s₀)
    (hduring : (machine bits).Run (Others i) s₀ during s₁)
    (hnotify : step bits s₁ ⟨i, .responseNotify⟩ = some (s', ev)) :
    Refused bits s i during s' ↔ Unhinted s₁.icap.transport r.seqNum := by
  obtain ⟨hidle, rfl⟩ := hreceive.eq
  have hth : s₁.threads i = .parse (.responseNotify r .done) :=
    (run_threads hduring).trans (State.put_self _ _ _)
  have hwithout : (machine bits).Run AnyInput s during (s₁.put i .idle) := by
    have hrun := run_put .idle hduring
    have hback : (s.put i (.parse (icapApplicationParseResponse r))).put i .idle = s := by
      rw [State.put_put, ← hidle, State.put_threads]
    rw [hback] at hrun
    exact hrun.mono fun _ _ _ _ => trivial
  obtain ⟨icap', th', hmove, rfl⟩ := step_move hnotify
  simp only [hth] at hmove
  cases hmove with
  | notified hfind =>
      refine ⟨fun h => ?_, fun h => ?_⟩
      · have hret := h.ret
        simp only [Function.update_self] at hret
        cases hret
      · rw [findSeqNum_eq_none.mpr h] at hfind
        cases hfind
  | dropped hfind =>
      refine ⟨fun _ => findSeqNum_eq_none.mp hfind, fun _ => ?_⟩
      -- the transport is as it was, so only the receiver's return is left of the frame
      have hdone : (s₁.put i (.parse (.done (-ICAP_ERROR_TIMEOUT)))).threads i
          = .parse (.done (-ICAP_ERROR_TIMEOUT)) := State.put_self _ _ _
      have hback : (s₁.put i (.parse (.done (-ICAP_ERROR_TIMEOUT)))).put i .idle
          = s₁.put i .idle := State.put_put _ _ _ _
      refine ⟨hdone, fun later u hlater => ?_, fun later v hlater => ?_⟩
      · obtain ⟨v, hv, hend⟩ := run_erase hdone hlater
        rw [hback] at hv
        refine ⟨v, hwithout.append hv, ?_⟩
        rcases hend with ⟨-, -, rfl⟩ | ⟨-, rfl⟩
        · exact ⟨rfl, fun j hj => State.put_of_ne _ _ hj⟩
        · exact ⟨rfl, fun _ _ => rfl⟩
      · obtain ⟨v₁, hv₁, hv⟩ := hlater.of_append
        obtain rfl : s₁.put i .idle = v₁ := hwithout.unique hv₁
        have hreturn : (machine bits).Run AnyInput
            (s₁.put i (.parse (.done (-ICAP_ERROR_TIMEOUT))))
            [(⟨i, .parseRet⟩, [.parsed (-ICAP_ERROR_TIMEOUT)])] (s₁.put i .idle) :=
          .step .start trivial (by rw [← hback]; exact step_parseRet hdone)
        exact ⟨_, hreturn.append hv⟩

end

end Icap.Linux
