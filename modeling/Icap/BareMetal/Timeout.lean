import Icap.Basic.WrappingTimer
import Icap.BareMetal.Session
import Icap.BareMetal.Reentry

set_option autoImplicit false

/-! # The timeout of `icap_wait_for_response`

A wait reads the clock at its start and after each iteration of its loop; the clock shows the
true time modulo `2 ^ 32`, and an iteration is one call of `icap_loop` with everything that its
callbacks do. Each reading is tested exactly, whatever the iterations have done (`Polling.inTime`).
A response that answers the wait ends it, unless a callback of the same iteration enters
`icap_loop` again and that overwrites the seq_num in `last_response`, which there is one of for
all waits (`wait_timely_iff`).
-/

namespace Icap.BareMetal

open ByteMemory Transition WrappingTimer

/-! ## One iteration of the loop -/

/-- The `icap_loop` that the wait `w` has called is in a callback, with any calls above it. -/
def InCallback (w : Wait) (rest : List Activation) (s : State) : Prop :=
  ∃ tailNext k, .loop tailNext k :: .poll w :: rest <:+ s.stack

/-- The inputs of an iteration: the wait calls `icap_loop`, and while that is in a callback
anything happens. -/
def InIteration (w : Wait) (rest : List Activation) (_ : Trace Input Event) (s : State)
    (i : Input) : Prop :=
  (s.stack = .poll w :: rest ∧ ∃ sendRet, i = .pass sendRet) ∨ InCallback w rest s

/-- `tr` is an iteration of the wait `w`, up to the test of `last_response`. -/
structure Iteration (Q : Nat) (w : Wait) (rest : List Activation) (s : State)
    (tr : Trace Input Event) (s' : State) : Prop where
  polls : s.stack = .poll w :: rest
  run : (machine Q).Run (InIteration w rest) s tr s'
  nonempty : tr ≠ []
  ends : ¬ InCallback w rest s'

/-- The stack is too short for a callback of the iteration. -/
theorem not_inCallback {w : Wait} {rest : List Activation} {s : State}
    (h : s.stack.length ≤ rest.length + 1) : ¬ InCallback w rest s := by
  rintro ⟨tailNext, k, hsuffix⟩
  have hlen := hsuffix.length_le
  rw [List.length_cons, List.length_cons] at hlen
  omega

/-- The wait is over, and its call returns what the response `r` says. -/
def AnsweredBy (w : Wait) (rest : List Activation) (r : IcapMsg) (ev : List Event)
    (s' : State) : Prop :=
  s'.stack = rest ∧ ∃ ev₁, ev = ev₁ ++
    [.answered w.seqNum (responseRet r) (w.copied r), .returned w.call (w.result r)]

/-- The test of `last_response` after the events `ev`. -/
def Tested (w : Wait) (rest : List Activation) (ev : List Event) (s' : State) : Prop :=
  (s'.stack = .clock w :: rest ∧ s'.lastResponse.seqNum ≠ w.seqNum) ∨
    (AnsweredBy w rest s'.lastResponse ev s' ∧ s'.lastResponse.seqNum = w.seqNum)

section

variable {Q : Nat} {w : Wait} {rest : List Activation} {s s' : State} {i : Input}
  {ev : List Event} {tr : Trace Input Event}

theorem AnsweredBy.append {r : IcapMsg} (h : AnsweredBy w rest r ev s') (ev₀ : List Event) :
    AnsweredBy w rest r (ev₀ ++ ev) s' := by
  obtain ⟨hstack, ev₁, rfl⟩ := h
  exact ⟨hstack, ev₀ ++ ev₁, by rw [List.append_assoc]⟩

theorem Tested.append (h : Tested w rest ev s') (ev₀ : List Event) :
    Tested w rest (ev₀ ++ ev) s' := by
  rcases h with h | ⟨h, hseq⟩
  · exact Or.inl h
  · exact Or.inr ⟨h.append ev₀, hseq⟩

/-- `icap_loop` returns to the wait. -/
theorem loopReturn_tested (icap : Instance) (ret : U32) :
    Tested w rest (loopReturn icap ret (.poll w :: rest)).2
      (loopReturn icap ret (.poll w :: rest)).1 := by
  by_cases hseq : icap.transport.lastResponse.seqNum = w.seqNum
  · rw [loopReturn_answered hseq]
    exact Or.inr ⟨⟨rfl, [], rfl⟩, hseq⟩
  · rw [loopReturn_waiting hseq]
    exact Or.inl ⟨rfl, hseq⟩

/-- `icap_loop` returns to a caller above the callback. -/
theorem loopReturn_inCallback (icap : Instance) (ret : U32) {stack : List Activation}
    {tailNext : Nat} {k : CallbackResult → Parse U32}
    (hsuffix : .loop tailNext k :: .poll w :: rest <:+ stack) :
    InCallback w rest (loopReturn icap ret stack).1 := by
  rcases loopReturn_cases icap ret stack with
    ⟨w', rest', rfl, -, h⟩ | ⟨w', rest', rfl, -, h⟩ | ⟨-, h⟩ <;> rw [h]
  · have hrest := (List.suffix_cons_iff.mp hsuffix).resolve_left nofun
    exact ⟨tailNext, k, hrest⟩
  · have hrest := (List.suffix_cons_iff.mp hsuffix).resolve_left nofun
    exact ⟨tailNext, k, hrest.trans (List.suffix_cons _ _)⟩
  · exact ⟨tailNext, k, hsuffix⟩

/-- The wait calls `icap_loop`: it gets into a callback, or returns to the test. -/
theorem pass_tested (sendRet : U32) (icap : Instance) :
    InCallback w rest (icapLoop Q icap sendRet (.poll w :: rest)).1 ∨
      Tested w rest (icapLoop Q icap sendRet (.poll w :: rest)).2
        (icapLoop Q icap sendRet (.poll w :: rest)).1 := by
  obtain ⟨icap₁, ev₁, -, -, ⟨tailNext, k, h⟩ | ⟨ret, h⟩⟩ := icapLoop_stack (Q := Q) icap sendRet
  · rw [h]
    exact Or.inl ⟨tailNext, k, List.suffix_refl _⟩
  · rw [h]
    exact Or.inr ((loopReturn_tested icap₁ ret).append ev₁)

/-- A step in a callback of the iteration ends at most the iteration. -/
theorem step_inCallback (hin : InCallback w rest s) (h : step Q s i = some (s', ev)) :
    InCallback w rest s' ∨ Tested w rest ev s' := by
  obtain ⟨tailNext, k, hsuffix⟩ := hin
  cases step_cases h with
  | putMsg | lifecycle | refused | notifies => exact Or.inl ⟨tailNext, k, hsuffix⟩
  | waits => exact Or.inl ⟨tailNext, k, hsuffix.trans (List.suffix_cons _ _)⟩
  | loop sendRet | pass sendRet =>
      obtain ⟨icap₁, ev₁, -, -, ⟨tailNext', k', heq⟩ | ⟨ret, heq⟩⟩ :=
        icapLoop_stack (Q := Q) s.icap sendRet
      · rw [heq]
        exact Or.inl ⟨tailNext, k, hsuffix.trans (List.suffix_cons _ _)⟩
      · rw [heq]
        exact Or.inl (loopReturn_inCallback icap₁ ret hsuffix)
  | polls now w' rest' hclock =>
      rw [hclock] at hsuffix
      have hrest := (List.suffix_cons_iff.mp hsuffix).resolve_left nofun
      exact Or.inl ⟨tailNext, k, hrest.trans (List.suffix_cons _ _)⟩
  | timesOut now w' rest' hclock =>
      rw [hclock] at hsuffix
      exact Or.inl ⟨tailNext, k, (List.suffix_cons_iff.mp hsuffix).resolve_left nofun⟩
  | resumes r sendRet tailNext' k' rest' hloop =>
      rw [hloop] at hsuffix
      obtain ⟨icap₁, ev₁, -, -, ⟨k'', heq⟩ | ⟨ret, heq⟩⟩ :=
        loopParse_stack s.icap tailNext' sendRet (k' r)
      all_goals
        rw [heq]
        rcases List.suffix_cons_iff.mp hsuffix with hhere | hrest
      -- the callback that returns is the one of the iteration, or one above
      · obtain ⟨-, rfl⟩ := List.cons.inj hhere
        exact Or.inl ⟨tailNext', k'', List.suffix_refl _⟩
      · exact Or.inl ⟨tailNext, k, hrest.trans (List.suffix_cons _ _)⟩
      · obtain ⟨-, rfl⟩ := List.cons.inj hhere
        exact Or.inr ((loopReturn_tested icap₁ ret).append ev₁)
      · exact Or.inl (loopReturn_inCallback icap₁ ret hrest)

/-- An iteration is in a callback or has got to its test. -/
theorem run_inIteration (hrun : (machine Q).Run (InIteration w rest) s tr s') :
    (tr = [] ∧ s' = s) ∨ InCallback w rest s' ∨ Tested w rest tr.events s' := by
  cases hrun with
  | start => exact Or.inl ⟨rfl, rfl⟩
  -- the last step decides
  | @step tr s₁ _ i ev _ hok hstep =>
      rw [Trace.events_append, Trace.events_singleton]
      right
      rcases hok with ⟨hstack, sendRet, rfl⟩ | hin
      · have heq : step Q s₁ (.pass sendRet) = some (icapLoop Q s₁.icap sendRet s₁.stack) := by
          simp only [step, hstack]
        rw [hstack] at heq
        obtain ⟨rfl, rfl⟩ := Prod.mk.inj (Option.some.inj (heq.symm.trans hstep))
        exact (pass_tested sendRet s₁.icap).imp_right fun h => h.append _
      · exact (step_inCallback hin hstep).imp_right fun h => h.append _

theorem Iteration.tested (h : Iteration Q w rest s tr s') : Tested w rest tr.events s' := by
  rcases run_inIteration h.run with ⟨hnil, -⟩ | hin | htested
  · exact absurd hnil h.nonempty
  · exact absurd hin h.ends
  · exact htested

theorem Iteration.lastResponse (h : Iteration Q w rest s tr s') :
    s'.lastResponse = (storedMsgs tr.events).foldl storeResponse s.lastResponse :=
  run_lastResponse h.run

end

/-! ## The wait -/

/-- The wait `w` began at the true time `start` and goes on, after `n` iterations and readings
of the clock at the true times `readings`. -/
inductive Polling (Q : Nat) (w : Wait) (rest : List Activation) (start : Nat) :
    List Nat → Nat → State → Prop
  | begin {s s' : State} {c : ApiCall} {sendRet : U32} {uninit : Mem} {ev : List Event}
      (hstep : step Q s (.call c (counterAt 32 start) sendRet uninit) = some (s', ev))
      (hstack : s'.stack = .poll w :: rest) : Polling Q w rest start [] 0 s'
  /-- The receive interrupt comes between an iteration and a reading. -/
  | interrupt {readings : List Nat} {n : Nat} {s s' : State} {msg : IcapRemoteMsg}
      {ev : List Event} (h : Polling Q w rest start readings n s)
      (hstep : step Q s (.putMsg msg) = some (s', ev)) : Polling Q w rest start readings n s'
  | iteration {readings : List Nat} {n : Nat} {s s' : State} {tr : Trace Input Event}
      (h : Polling Q w rest start readings n s) (hiter : Iteration Q w rest s tr s')
      (hstack : s'.stack = .clock w :: rest) : Polling Q w rest start readings (n + 1) s'
  | reading {readings : List Nat} {n t : Nat} {s s' : State} {ev : List Event}
      (h : Polling Q w rest start readings n s) (hnext : Next ICAP_MSG_TIMEOUT_US start readings t)
      (hstep : step Q s (.clock (counterAt 32 t)) = some (s', ev))
      (hstack : s'.stack = .poll w :: rest) : Polling Q w rest start (readings ++ [t]) n s'

/-- What holds in a wait that goes on; each reading follows an iteration. -/
structure InTime (w : Wait) (rest : List Activation) (start : Nat) (readings : List Nat) (n : Nat)
    (s : State) : Prop where
  start_eq : w.start = counterAt 32 start
  running : Running ICAP_MSG_TIMEOUT_US start readings
  place : (s.stack = .poll w :: rest ∧ n = readings.length) ∨
    (s.stack = .clock w :: rest ∧ n = readings.length + 1)

/-- What the wait does at the true time `t` of a reading. -/
def timeTest (w : Wait) (rest : List Activation) (start t : Nat) (icap : Instance) :
    State × List Event :=
  if t < start + ICAP_MSG_TIMEOUT_US.toNat then
    (⟨icap, .poll w :: rest⟩, [])
  else
    (⟨icap, rest⟩, [.timedOut w.seqNum,
      .returned w.call (w.call.finish (-ICAP_ERROR_TIMEOUT) w.response)])

section

variable {Q : Nat} {w : Wait} {rest : List Activation} {start n t : Nat} {readings : List Nat}
  {s s' : State} {ev : List Event}

theorem InTime.clock_step (h : InTime w rest start readings n s)
    (hstack : s.stack = .clock w :: rest) (hnext : Next ICAP_MSG_TIMEOUT_US start readings t) :
    step Q s (.clock (counterAt 32 t)) = some (timeTest w rest start t s.icap) := by
  have htest := h.running.test_iff hnext
  rw [← h.start_eq] at htest
  by_cases htime : counterAt 32 t - w.start < ICAP_MSG_TIMEOUT_US
  · rw [timeTest, if_pos (htest.mp htime)]
    simp only [step, hstack, htime, if_true]
  · rw [timeTest, if_neg (fun hlt => htime (htest.mpr hlt))]
    simp only [step, hstack, htime, if_false]

/-- A wait begins with the clock of its call. -/
theorem startCall_inTime {c : ApiCall} {sendRet : U32} {uninit : Mem}
    (hstep : step Q s (.call c (counterAt 32 start) sendRet uninit) = some (s', ev))
    (hstack : s'.stack = .poll w :: rest) : InTime w rest start [] 0 s' := by
  have hstart : w.start = counterAt 32 start := by
    cases step_cases hstep with
    | lifecycle r hr => cases hr
    | refused _ _ _ _ hruns | notifies _ _ _ _ _ hruns =>
        rw [show s.stack = .poll w :: rest from hstack] at hruns
        cases hruns
    | waits => rw [← Activation.poll.inj (List.cons.inj hstack).1]
  exact ⟨hstart, .nil, Or.inl ⟨hstack, rfl⟩⟩

/-- Every reading of a wait that goes on was within the timeout. -/
theorem Polling.inTime (h : Polling Q w rest start readings n s) :
    InTime w rest start readings n s := by
  induction h with
  | begin hstep hstack => exact startCall_inTime hstep hstack
  | interrupt _ hstep ih =>
      obtain ⟨rfl, -⟩ := Prod.mk.inj (Option.some.inj hstep)
      exact ⟨ih.start_eq, ih.running, ih.place⟩
  | iteration _ hiter hstack ih =>
      refine ⟨ih.start_eq, ih.running, Or.inr ⟨hstack, ?_⟩⟩
      rcases ih.place with ⟨-, rfl⟩ | ⟨hclock, -⟩
      · rfl
      · cases hclock.symm.trans hiter.polls
  | @reading readings n t s s' ev _ hnext hstep hstack ih =>
      rcases ih.place with ⟨hpoll, -⟩ | ⟨hclock, rfl⟩
      · simp [step, hpoll] at hstep
      · have htest : counterAt 32 t - counterAt 32 start < ICAP_MSG_TIMEOUT_US := by
          rw [ih.clock_step hclock hnext] at hstep
          rw [ih.running.test_iff hnext]
          by_contra hover
          rw [timeTest, if_neg hover] at hstep
          obtain ⟨rfl, -⟩ := Prod.mk.inj (Option.some.inj hstep)
          exact List.ne_cons_self hstack
        exact ⟨ih.start_eq, ih.running.snoc hnext htest, Or.inl ⟨hstack, by simp⟩⟩

end

/-! ## The response that answers -/

/-- The response `r` has a seq_num, and that is `n`. -/
def CarriesSeqNum (r : IcapMsg) (n : U32) : Prop := 8 ≤ r.totalLen.toNat ∧ r.seqNum = n

instance (r : IcapMsg) (n : U32) : Decidable (CarriesSeqNum r n) :=
  inferInstanceAs (Decidable (_ ∧ _))

/-- The responses `post` stored after `r` leave its seq_num in `last_response`. -/
def KeepsSeqNum (r : IcapMsg) (post : List IcapMsg) : Prop :=
  (post.foldl storeResponse r).seqNum = r.seqNum

/-- Among responses that have a seq_num, the last one decides. -/
theorem keepsSeqNum_iff {r : IcapMsg} {post : List IcapMsg}
    (hpost : ∀ r' ∈ post, 8 ≤ r'.totalLen.toNat) :
    KeepsSeqNum r post ↔ ∀ r' ∈ post.getLast?, r'.seqNum = r.seqNum := by
  unfold KeepsSeqNum
  rcases List.eq_nil_or_concat' post with rfl | ⟨post, r', rfl⟩
  · simp
  · have hlen := hpost r' (by simp)
    have hseq : ((post ++ [r']).foldl storeResponse r).seqNum = r'.seqNum := by
      rw [List.foldl_append]
      exact load32_copy (by omega)
    rw [hseq]
    simp

/-- Memories that start alike do so after the same responses. -/
theorem foldl_storeResponse_congr {m : Nat} (post : List IcapMsg) {last last' : IcapMsg}
    (h : ∀ i, i < m → last i = last' i) :
    ∀ i, i < m → post.foldl storeResponse last i = post.foldl storeResponse last' i := by
  induction post generalizing last last' with
  | nil => exact h
  | cons r post ih =>
      refine ih fun i hi => ?_
      unfold storeResponse copy
      split_ifs
      · rfl
      · exact h i hi

/-- What was in `last_response` before `r` shows only behind the end of `r`. -/
theorem foldl_storeResponse_split (pre post : List IcapMsg) (last r : IcapMsg) :
    ∀ i, i < r.totalLen.toNat →
      (pre ++ r :: post).foldl storeResponse last i = post.foldl storeResponse r i := by
  rw [List.foldl_append, List.foldl_cons]
  exact foldl_storeResponse_congr post fun i hi => copy_lt hi

section

variable {Q : Nat} {w : Wait} {rest : List Activation} {s s' : State} {i : Input}
  {ev : List Event} {tr : Trace Input Event}

/-- The wait is answered exactly when the seq_num in `last_response` is its own. -/
theorem Iteration.answered_iff (h : Iteration Q w rest s tr s') :
    AnsweredBy w rest s'.lastResponse tr.events s' ↔ s'.lastResponse.seqNum = w.seqNum := by
  rcases h.tested with ⟨hclock, hne⟩ | ⟨hanswered, hseq⟩
  · refine iff_of_false (fun hanswered => ?_) hne
    exact List.cons_ne_self _ _ (hclock.symm.trans hanswered.1)
  · exact iff_of_true hanswered hseq

theorem AnsweredBy.agrees {ev : List Event} {r : IcapMsg}
    (h : AnsweredBy w rest s'.lastResponse ev s') (hagree : Agrees s'.lastResponse r) :
    AnsweredBy w rest r ev s' := by
  obtain ⟨hstack, ev₁, hev⟩ := h
  refine ⟨hstack, ev₁, ?_⟩
  rw [hev, hagree.responseRet, copied_agrees hagree, result_agrees hagree]

/-- A response of the iteration with the seq_num of the wait answers it unless a later one
overwrites the seq_num, and what the later ones leave of it is what the call returns. -/
theorem Iteration.answered_iff_keeps (h : Iteration Q w rest s tr s') {pre post : List IcapMsg}
    {r : IcapMsg} (hstored : storedMsgs tr.events = pre ++ r :: post)
    (hr : CarriesSeqNum r w.seqNum) :
    (AnsweredBy w rest s'.lastResponse tr.events s' ↔ KeepsSeqNum r post) ∧
    (Agrees (post.foldl storeResponse r) r → AnsweredBy w rest r tr.events s') := by
  obtain ⟨hlen, hseq⟩ := hr
  have hlast (i : Nat) (hi : i < r.totalLen.toNat) :
      s'.lastResponse i = post.foldl storeResponse r i := by
    calc s'.lastResponse i
        = (pre ++ r :: post).foldl storeResponse s.lastResponse i := by
          rw [h.lastResponse, hstored]
      _ = post.foldl storeResponse r i := foldl_storeResponse_split pre post _ r i hi
  have hiff : AnsweredBy w rest s'.lastResponse tr.events s' ↔ KeepsSeqNum r post := by
    have hnum : s'.lastResponse.seqNum = (post.foldl storeResponse r).seqNum :=
      load32_congr fun i hi => hlast _ (by omega)
    rw [h.answered_iff, hnum, KeepsSeqNum, hseq]
  refine ⟨hiff, fun hagree => ?_⟩
  have hagree' : Agrees s'.lastResponse r :=
    ⟨fun i hi => (hlast i hi).trans (hagree.bytes i hi), hagree.header, hagree.nak⟩
  exact (hiff.mpr hagree.seqNum).agrees hagree'

/-- Only an `icap_loop` that begins stores a response; where every handler is silent, going on
with one stores none. -/
theorem step_stored_nil (hq : Quiescent s) (hno : entersLoop i = false)
    (h : step Q s i = some (s', ev)) : storedMsgs ev = [] := by
  cases step_cases h with
  | putMsg | lifecycle | refused | waits | notifies | polls | timesOut => rfl
  | loop | pass => cases hno
  | resumes r sendRet tailNext k rest hstack =>
      have hk : (k r).Silent := hq tailNext k (by rw [hstack]; exact List.mem_cons_self) r
      obtain ⟨ev₁, hidle, ⟨k', -, heq⟩ | ⟨ret, heq⟩⟩ :=
        loopParse_silent s.icap tailNext sendRet rest hk
      · rw [heq]
        exact hidle.storedMsgs
      · rw [heq, storedMsgs_append, hidle.storedMsgs]
        exact loopReturn_stored _ ret rest

theorem step_stored_length (hq : Quiescent s) (h : step Q s i = some (s', ev)) :
    Quiescent s' ∧ (storedMsgs ev).length ≤ 1 := by
  obtain ⟨stored, hq', hst, -⟩ := step_waits hq h
  refine ⟨hq', ?_⟩
  cases stored with
  | none => simp [hst.2]
  | some m => simp [hst.2.2.1]

/-- A run in which only the first input makes `icap_loop` begin stores at most one response. -/
theorem run_stored_length {ok : Trace Input Event → State → Input → Prop} (hq : Quiescent s)
    (hrun : (machine Q).Run ok s tr s') :
    Quiescent s' ∧
      ((∀ e ∈ tr.tail, entersLoop e.1 = false) → (storedMsgs tr.events).length ≤ 1) := by
  induction hrun with
  | start => exact ⟨hq, fun _ => Nat.zero_le 1⟩
  | @step tr s₁ s₂ i ev _ _ hstep ih =>
      obtain ⟨hq₁, hlen⟩ := ih
      obtain ⟨hq₂, hlen_step⟩ := step_stored_length hq₁ hstep
      refine ⟨hq₂, fun hno => ?_⟩
      rw [Trace.events_append, Trace.events_singleton, storedMsgs_append]
      cases tr with
      | nil => exact hlen_step
      | cons e tr =>
          rw [List.cons_append, List.tail_cons] at hno
          have hlast : entersLoop i = false := hno (i, ev) (by simp)
          rw [step_stored_nil hq₁ hlast hstep, List.append_nil]
          exact hlen fun e' he' => hno e' (List.mem_append_left _ he')

/-- **A response is never missed without re-entry.** When no callback of an iteration enters
`icap_loop`, a response of the iteration with the seq_num of the wait answers it. -/
theorem Iteration.answered_of_no_reentry (h : Iteration Q w rest s tr s') (hq : Quiescent s)
    (hno : ∀ e ∈ tr.tail, entersLoop e.1 = false) {r : IcapMsg}
    (hmem : r ∈ storedMsgs tr.events) (hr : CarriesSeqNum r w.seqNum) :
    AnsweredBy w rest s'.lastResponse tr.events s' := by
  obtain ⟨pre, post, hstored⟩ := List.append_of_mem hmem
  have hlen := (run_stored_length hq h.run).2 hno
  rw [hstored, List.length_append, List.length_cons] at hlen
  have hpost : post = [] := List.eq_nil_of_length_eq_zero (by omega)
  subst hpost
  exact (h.answered_iff_keeps hstored hr).1.mpr rfl

/-- **The wait is timely.** Every reading of a wait that goes on was within the timeout, and the
next one, after one more iteration, ends the call exactly when the timeout has truly passed. A
response of an iteration with the seq_num of the wait ends it, whatever the time, exactly when the
responses stored after it keep its seq_num; when they keep all of it, it is what the call
returns. -/
theorem wait_timely_iff {start n : Nat} {readings : List Nat}
    (h : Polling Q w rest start readings n s) :
    (∀ t ∈ readings, t < start + ICAP_MSG_TIMEOUT_US.toNat) ∧
    (s.stack = .clock w :: rest → n = readings.length + 1 ∧
      ∀ t, Next ICAP_MSG_TIMEOUT_US start readings t →
        step Q s (.clock (counterAt 32 t)) = some (timeTest w rest start t s.icap)) ∧
    (∀ tr s', Iteration Q w rest s tr s' →
      (s'.stack = .clock w :: rest ∨ AnsweredBy w rest s'.lastResponse tr.events s') ∧
      ∀ pre r post, storedMsgs tr.events = pre ++ r :: post → CarriesSeqNum r w.seqNum →
        (AnsweredBy w rest s'.lastResponse tr.events s' ↔ KeepsSeqNum r post) ∧
        (Agrees (post.foldl storeResponse r) r → AnsweredBy w rest r tr.events s')) := by
  have hin := h.inTime
  refine ⟨hin.running.within, fun hclock => ⟨?_, fun t hnext => hin.clock_step hclock hnext⟩,
    fun tr s' hiter => ⟨?_, fun pre r post hstored hr => hiter.answered_iff_keeps hstored hr⟩⟩
  · rcases hin.place with ⟨hpoll, -⟩ | ⟨-, hn⟩
    · cases hclock.symm.trans hpoll
    · exact hn
  · exact hiter.tested.imp And.left And.left

end

/-! ## A wait over the wrap of the clock -/

/-- `icap_pause` of an application, called five microseconds before the clock wraps. -/
def pauseWait : Wait := ⟨.pause 1, 1, counterAt 32 (2 ^ 32 - 5), fun _ => 0⟩

def pausing : State :=
  ((machine 10).exec [] (sessionStart 0 0 0 0 fun _ => true)
    [.call pauseWait.call pauseWait.start 0 pauseWait.response]).2

theorem pausing_iteration :
    Iteration 10 pauseWait [] pausing [(.pass 0, [])] ⟨pausing.icap, [.clock pauseWait]⟩ where
  polls := rfl
  run := Machine.Run.start.step (Or.inl ⟨rfl, 0, rfl⟩) rfl
  nonempty := nofun
  ends := not_inCallback (by decide)

/-- Nothing arrives. The reading 599999 microseconds after the start, when the clock has wrapped,
goes on; the next one, at the timeout, ends the call. -/
theorem wait_timely_iff_wrap : ∃ s,
    Polling 10 pauseWait [] (2 ^ 32 - 5) [2 ^ 32 - 5 + 599999] 2 s ∧
    step 10 s (.clock (counterAt 32 (2 ^ 32 - 5 + 600000)))
      = some (⟨s.icap, []⟩, [.timedOut 1, .returned (.pause 1) ⟨-ICAP_ERROR_TIMEOUT, none⟩]) := by
  obtain ⟨ev, hcall⟩ : ∃ ev, step 10 (sessionStart 0 0 0 0 fun _ => true)
      (.call (.pause 1) (counterAt 32 (2 ^ 32 - 5)) 0 fun _ => 0) = some (pausing, ev) := ⟨_, rfl⟩
  have hbegin : Polling 10 pauseWait [] (2 ^ 32 - 5) [] 0 pausing := .begin hcall rfl
  have hfirst := Polling.iteration hbegin pausing_iteration rfl
  have hread : Polling 10 pauseWait [] (2 ^ 32 - 5) [2 ^ 32 - 5 + 599999] 1 pausing :=
    hfirst.reading (t := 2 ^ 32 - 5 + 599999) (by decide) rfl rfl
  have hlast := Polling.iteration hread pausing_iteration rfl
  exact ⟨_, hlast, ((wait_timely_iff hlast).2.1 rfl).2 _ (by decide)⟩

/-! ## A callback that makes a synchronous call -/

/-- `icap_pause` of an application, called when the clock shows 0. -/
def outerWait : Wait := ⟨.pause 1, 1, counterAt 32 0, fun _ => 0⟩

def ackMsg (cmd seqNum : U32) : IcapMsg := ofList (icapMsgFrame cmd ICAP_ACK seqNum [])

/-- The frames that arrive during the call: a `FRAG_READY`, the ACK of the call, and the ACK of
the call that the `frag_ready` callback makes. -/
def outerFrames : List Input :=
  [.putMsg ⟨⟨4096, ofList (icapMsgFrame ICAP_MSG_FRAG_READY ICAP_MSG 1 (word32 3 ++ word32 1))⟩,
      48, 7⟩,
    .putMsg ⟨⟨8192, ackMsg ICAP_MSG_PAUSE 1⟩, 40, 7⟩,
    .putMsg ⟨⟨12288, ackMsg ICAP_MSG_RESUME 2⟩, 40, 7⟩]

def outerCall : State :=
  ((machine 10).exec [] (sessionStart 0 0 0 0 fun _ => true)
    [.call outerWait.call outerWait.start 0 outerWait.response]).2

def outerPoll : State := ((machine 10).exec [] outerCall outerFrames).2

/-- The callback calls `icap_resume`. The `icap_loop` in there handles the `FRAG_READY` again,
then the ACK of `icap_pause` and, after two readings of the clock, the ACK of `icap_resume`. -/
def outerIteration : Trace Input Event × State :=
  (machine 10).exec [] outerPoll [.pass 0, .call (.resume 1) 10 0 (fun _ => 0), .pass 0,
    .callbackRet handledResult 0, .clock 20, .pass 0, .clock 30, .pass 0,
    .callbackRet handledResult 0]

theorem outerPoll_polling : Polling 10 outerWait [] 0 [] 0 outerPoll := by
  obtain ⟨ev, hcall⟩ : ∃ ev, step 10 (sessionStart 0 0 0 0 fun _ => true)
      (.call (.pause 1) (counterAt 32 0) 0 fun _ => 0) = some (outerCall, ev) := ⟨_, rfl⟩
  have hbegin : Polling 10 outerWait [] 0 [] 0 outerCall := .begin hcall rfl
  exact .interrupt (.interrupt (.interrupt hbegin rfl) rfl) rfl

theorem outerIteration_iteration :
    Iteration 10 outerWait [] outerPoll outerIteration.1 outerIteration.2 where
  polls := rfl
  run := Machine.Run.start.exec _ ⟨Or.inl ⟨rfl, 0, rfl⟩, Or.inr ⟨_, _, [], rfl⟩,
    Or.inr ⟨_, _, [_], rfl⟩, Or.inr ⟨_, _, [_, _], rfl⟩, Or.inr ⟨_, _, [_], rfl⟩,
    Or.inr ⟨_, _, [_], rfl⟩, Or.inr ⟨_, _, [_], rfl⟩, Or.inr ⟨_, _, [_], rfl⟩,
    Or.inr ⟨_, _, [], rfl⟩, trivial⟩
  nonempty := by decide
  ends := not_inCallback (by decide)

/-- The iteration of `icap_pause` stores its ACK, and the call times out. -/
theorem nested_call_loses_response :
    Polling 10 outerWait [] 0 [] 0 outerPoll ∧
    Iteration 10 outerWait [] outerPoll outerIteration.1 outerIteration.2 ∧
    storedMsgs outerIteration.1.events = [ackMsg ICAP_MSG_PAUSE 1, ackMsg ICAP_MSG_RESUME 2] ∧
    CarriesSeqNum (ackMsg ICAP_MSG_PAUSE 1) outerWait.seqNum ∧
    ¬ AnsweredBy outerWait [] outerIteration.2.lastResponse outerIteration.1.events
      outerIteration.2 ∧
    step 10 outerIteration.2 (.clock (counterAt 32 600000)) = some (⟨outerIteration.2.icap, []⟩,
      [.timedOut 1, .returned (.pause 1) ⟨-ICAP_ERROR_TIMEOUT, none⟩]) := by
  refine ⟨outerPoll_polling, outerIteration_iteration, rfl, by decide, fun h => ?_, rfl⟩
  have hclock : outerIteration.2.stack = [.clock outerWait] := rfl
  exact List.cons_ne_nil _ _ (hclock.symm.trans h.1)

end Icap.BareMetal
