import Icap.BareMetal.Copies
import Icap.Transports.Stray

set_option autoImplicit false

/-! # Negative responses

Both `icap_wait_for_response` return the first payload word of a NAK, whether or not the NAK has
a payload and whatever its sign is, and the API functions take 0 and positive results for
success. A call is refused by what the wait reads exactly when that word is negative, or when a
response that is no NAK is refused by its length and fits (`nak_negative_iff`).
-/

namespace Icap

open ByteMemory Transition

/-! ## What a call makes of an answer -/

/-- What the API function returns when the memory `d` answers it, of which `n` bytes are copied to
its `response`. -/
def ApiCall.answered (c : ApiCall) (d : Mem) (n : Nat) (uninit : Mem) : CallResult :=
  if IcapMsg.type d = ICAP_NAK then c.finish (IcapMsg.payloadU32 d) uninit
  else c.finish 0 (copy uninit d n)

/-- A copy of `n` bytes of the memory `d`, if the function wants one, stays in its `response`. -/
def ApiCall.CopyFits (c : ApiCall) (d : Mem) (n : Nat) : Prop :=
  IcapMsg.type d ≠ ICAP_NAK → c.wantsResponse = true → n ≤ sizeofIcapMsg

/-- The `payload_len` the function asks of the response it decodes. -/
def AnswerKind.payloadLen : AnswerKind → Option U32
  | .ident => some 4
  | .features => some 28
  | _ => none

/-- The bytes of `payload_len` among the first `n` are those of `len`. -/
def AllowsLength (len : U32) (d : Mem) (n : Nat) : Prop :=
  ∀ i < 4, 36 + i < n → (word32 len)[i]? = some (d (36 + i))

/-- What the wait reads refuses the call: it is a NAK with a negative word. After a frame that is
shorter than its type it need not be a NAK; then it fits, and the function refuses its length or
returns its word, which is negative. -/
def Refuses (c : ApiCall) (d : Mem) (n : Nat) : Prop :=
  if IcapMsg.type d = ICAP_NAK then (IcapMsg.payloadU32 d).toInt < 0
  else n ≤ sizeofIcapMsg ∧ ∃ len, c.answerKind.payloadLen = some len ∧
    (¬ AllowsLength len d n ∨ len = 4 ∧ 43 < n ∧ 128 ≤ (d 43).toNat)

/-- Memory with the given `payload_len` and zero elsewhere. -/
def lengthOnly (len : U32) : Mem := ofList (List.replicate 36 0 ++ word32 len)

section

variable {c : ApiCall} {d uninit : Mem} {n : Nat} {len : U32}

/-- How a synchronous function that sends computes its result. -/
theorem finish_eq (hsync : c.sync = true) (hsends : (c.request 0).isSome) (ret : U32)
    (response : IcapMsg) :
    c.finish ret response = match c.answerKind with
      | .ident =>
          if ret ≠ 0 then ⟨ret, none⟩
          else if response.payloadLen ≠ 4 then ⟨-ICAP_ERROR_MSG_LEN, none⟩
          else ⟨response.payloadU32, none⟩
      | .features =>
          if ret ≠ 0 then ⟨ret, none⟩
          else if response.payloadLen ≠ 28 then ⟨-ICAP_ERROR_MSG_LEN, none⟩
          else ⟨0, some (response.payloadStruct 28)⟩
      | _ => ⟨ret, none⟩ := by
  cases c with
  | getSubdevices | subdeviceDeinit _ | removeSrc _ | removeDst _ | start _ | stop _ | pause _
  | resume _ => rfl
  | getSubdeviceFeatures subdevId features =>
      cases features with
      | false => cases hsends
      | true => rfl
  | subdeviceInit arg | addSrc arg | addDst arg | frags arg =>
      cases arg with
      | none => cases hsends
      | some v => rfl
  | fragReady _ | xrun _ | error _ => cases hsync

/-- A result of `icap_send_msg` other than 0 is returned. -/
theorem finish_of_ne_zero (hsync : c.sync = true) (hsends : (c.request 0).isSome) {ret : U32}
    (hret : ret ≠ 0) (response : IcapMsg) : c.finish ret response = ⟨ret, none⟩ := by
  rw [finish_eq hsync hsends]
  cases c.answerKind <;> simp only [ne_eq, hret, not_false_eq_true, if_true]

/-- A function that passes no `response` returns what `icap_send_msg` returns. -/
theorem finish_unwanted (hsync : c.sync = true) (hsends : (c.request 0).isSome)
    (hwants : ¬ c.wantsResponse = true) (ret : U32) (response response' : IcapMsg) :
    c.finish ret response = c.finish ret response' := by
  cases c with
  | getSubdevices => exact absurd rfl hwants
  | getSubdeviceFeatures subdevId features =>
      cases features with
      | false => rfl
      | true => exact absurd rfl hwants
  | addSrc arg | addDst arg =>
      cases arg with
      | none => rfl
      | some v => exact absurd rfl hwants
  | subdeviceInit arg | frags arg =>
      cases arg <;> rfl
  | subdeviceDeinit _ | removeSrc _ | removeDst _ | start _ | stop _ | pause _ | resume _ => rfl
  | fragReady _ | xrun _ | error _ => cases hsync

/-- A function that asks a length of its response wants it copied. -/
theorem wantsResponse_of_payloadLen (hsends : (c.request 0).isSome)
    (hlen : c.answerKind.payloadLen = some len) : c.wantsResponse = true := by
  cases c with
  | getSubdevices => rfl
  | getSubdeviceFeatures subdevId features =>
      cases features with
      | false => cases hsends
      | true => rfl
  | addSrc arg | addDst arg =>
      cases arg with
      | none => cases hsends
      | some v => rfl
  | subdeviceInit _ | frags _ | subdeviceDeinit _ | removeSrc _ | removeDst _ | start _ | stop _
  | pause _ | resume _ | fragReady _ | xrun _ | error _ => cases hlen

theorem lengthOnly_byte {i : Nat} (hi : i < 4) :
    (word32 len)[i]? = some (lengthOnly len (36 + i)) := by
  have hget : (List.replicate 36 0 ++ word32 len)[36 + i]? = (word32 len)[i]? := by
    rw [List.getElem?_append_right (by simp)]
    simp
  rw [← hget]
  refine holds_ofList _ _ ?_
  simp only [List.length_append, List.length_replicate, word32_length]
  omega

/-- Some content of `response` reads as the length after the copy. -/
theorem AllowsLength.copy (h : AllowsLength len d n) :
    IcapMsg.payloadLen (ByteMemory.copy (lengthOnly len) d n) = len := by
  refine load32_eq_iff.mpr (List.ext_getElem? fun i => ?_)
  -- byte by byte: one that is copied is allowed, and the others are the length already
  by_cases hi : i < 4
  · have hblock : (block (ByteMemory.copy (lengthOnly len) d n) 36 4)[i]?
        = some (ByteMemory.copy (lengthOnly len) d n (36 + i)) := by
      simp [block, hi]
    rw [hblock]
    unfold ByteMemory.copy
    split_ifs with hcopied
    · exact (h i hi hcopied).symm
    · exact (lengthOnly_byte hi).symm
  · rw [List.getElem?_eq_none (by simpa using hi), List.getElem?_eq_none (by simpa using hi)]

/-- A length that reads after the copy is allowed by it. -/
theorem allowsLength_of_copy (h : IcapMsg.payloadLen (copy uninit d n) = len) :
    AllowsLength len d n := by
  intro i hi hcopied
  rw [← load32_eq_iff.mp h]
  simp [block, hi, copy_lt hcopied]

/-- The word behind the length is zero where it is not copied. -/
theorem lengthOnly_word : lengthOnly len 43 = 0 := by
  rw [lengthOnly, ofList, List.getElem?_eq_none (by simp)]
  rfl

/-- A call that decodes the copied response fails, whatever its `response` held before. -/
theorem finish_copy_negative (hsync : c.sync = true) (hsends : (c.request 0).isSome) :
    (∀ uninit, (c.finish 0 (copy uninit d n)).ret.toInt < 0) ↔
      ∃ len, c.answerKind.payloadLen = some len ∧
        (¬ AllowsLength len d n ∨ len = 4 ∧ 43 < n ∧ 128 ≤ (d 43).toNat) := by
  have hlen : (-ICAP_ERROR_MSG_LEN).toInt < 0 := by decide
  have hzero : ¬ (0 : U32).toInt < 0 := by decide
  simp only [finish_eq hsync hsends]
  cases c.answerKind with
  -- these decode nothing, so they return 0
  | status | frags =>
      simp only [AnswerKind.payloadLen, reduceCtorEq, false_and, exists_false, iff_false]
      exact fun h => hzero (h d)
  | ident =>
      simp only [AnswerKind.payloadLen, Option.some.injEq, exists_eq_left', ne_eq,
        not_true_eq_false, if_false]
      constructor
      · intro h
        by_contra hnot
        obtain ⟨hallows, hword⟩ := not_or.mp hnot
        -- a `response` that holds the length makes the call read a word
        have hneg := h (lengthOnly 4)
        rw [if_neg (by rw [not_not.mp hallows |>.copy]; simp)] at hneg
        simp only [IcapMsg.payloadU32, load32_toInt_neg, sizeofIcapMsgHeader] at hneg
        refine hword ⟨trivial, ?_⟩
        by_cases hn : 43 < n
        · rw [copy_lt hn] at hneg
          exact ⟨hn, hneg⟩
        · have hbyte : ByteMemory.copy (lengthOnly 4) d n 43 = 0 := by
            unfold ByteMemory.copy
            rw [if_neg hn, lengthOnly_word]
          rw [hbyte] at hneg
          exact absurd hneg (by decide)
      · rintro h uninit
        split_ifs with hp
        · rcases h with hnot | ⟨-, hn, hneg⟩
          · exact absurd (allowsLength_of_copy hp) hnot
          · simp only [IcapMsg.payloadU32, load32_toInt_neg, sizeofIcapMsgHeader]
            rw [copy_lt hn]
            exact hneg
        · exact hlen
  | features =>
      simp only [AnswerKind.payloadLen, Option.some.injEq, exists_eq_left', ne_eq,
        not_true_eq_false, if_false]
      constructor
      · intro h
        refine Or.inl fun hallows => ?_
        have hneg := h (lengthOnly 28)
        rw [if_neg (by rw [hallows.copy]; simp)] at hneg
        exact hzero hneg
      · rintro (hnot | ⟨hfour, -⟩) uninit
        · rw [if_pos]
          · exact hlen
          · exact fun hp => hnot (allowsLength_of_copy hp)
        · exact absurd hfour (by decide)

/-- **What a call returns is negative, whatever its `response` held before, and the copy stays in
it, exactly when what answers the call refuses it.** -/
theorem answered_negative_iff (hsync : c.sync = true) (hsends : (c.request 0).isSome) :
    ((∀ uninit, (c.answered d n uninit).ret.toInt < 0) ∧ c.CopyFits d n) ↔ Refuses c d n := by
  unfold ApiCall.answered Refuses
  by_cases hnak : IcapMsg.type d = ICAP_NAK
  · have hfits : c.CopyFits d n := fun htype => absurd hnak htype
    rw [and_iff_left hfits]
    simp only [if_pos hnak]
    by_cases hzero : IcapMsg.payloadU32 d = 0
    · -- the function goes on to decode a `response` that nothing has been copied to
      rw [hzero]
      have hcopy := finish_copy_negative (d := d) (n := 0) hsync hsends
      simp only [copy_zero] at hcopy
      rw [hcopy]
      refine ⟨?_, fun h => absurd h (by decide)⟩
      rintro ⟨len, -, hnot | ⟨-, hn, -⟩⟩
      · exact absurd (fun i _ hi => absurd hi (by omega)) hnot
      · omega
    · simp only [finish_of_ne_zero hsync hsends hzero]
      exact forall_const _
  · simp only [if_neg hnak]
    rw [finish_copy_negative hsync hsends]
    constructor
    · rintro ⟨⟨len, hlen, hbytes⟩, hfits⟩
      exact ⟨hfits hnak (wantsResponse_of_payloadLen hsends hlen), len, hlen, hbytes⟩
    · rintro ⟨hfits, hrefused⟩
      exact ⟨hrefused, fun _ _ => hfits⟩

/-- Of a NAK with a whole word the wait reads that word. -/
theorem refuses_nak {r : IcapMsg} (hcopied : ∀ i < r.totalLen.toNat, d i = r i)
    (hnak : r.type = ICAP_NAK) (hlen : sizeofIcapMsgHeader + 4 ≤ r.totalLen.toNat) :
    Refuses c d n ↔ r.payloadU32.toInt < 0 := by
  simp only [sizeofIcapMsgHeader] at hlen
  have htype : IcapMsg.type d = r.type := load32_congr fun i hi => hcopied _ (by omega)
  have hword : IcapMsg.payloadU32 d = r.payloadU32 :=
    load32_congr fun i hi => hcopied _ (by simp only [sizeofIcapMsgHeader]; omega)
  unfold Refuses
  rw [if_pos (htype.trans hnak), hword]

end

namespace BareMetal

section

variable {Q : Nat} {icap : Instance} {i : Input} {pre rest : List Activation} {w w' : Wait}
  {s' : State} {ev : List Event} {n v : U32} {copied : Option (List Byte)}

/-! ## Bare metal: the step that answers a wait -/

theorem Wait.result_eq (w : Wait) (last : IcapMsg) :
    w.result last = w.call.answered last last.totalLen.toNat w.response := by
  unfold Wait.result ApiCall.answered responseRet responseCopy
  by_cases hnak : last.type = ICAP_NAK
  · simp only [if_pos hnak]
  · simp only [if_neg hnak]

/-- The functions above a wait that hold no wait are `icap_loop`s. -/
theorem head_of_waits_nil (hpre : waits pre = []) {a : Activation} {stack : List Activation}
    (hstack : pre ++ .poll w :: rest = a :: stack) :
    (pre = [] ∧ a = .poll w ∧ stack = rest) ∨
      ∃ tailNext k pre', pre = .loop tailNext k :: pre' ∧ a = .loop tailNext k ∧
        stack = pre' ++ .poll w :: rest ∧ waits pre' = [] := by
  cases pre with
  | nil =>
      obtain ⟨rfl, rfl⟩ := List.cons.inj hstack
      exact Or.inl ⟨rfl, rfl, rfl⟩
  | cons b pre' =>
      obtain ⟨rfl, rfl⟩ := List.cons.inj hstack
      cases b with
      | poll w₀ | clock w₀ => cases hpre
      | loop tailNext k => exact Or.inr ⟨tailNext, k, pre', rfl, rfl, rfl, hpre⟩

/-- A wait that a return of `icap_loop` answers is the caller. -/
theorem answered_by_return (hpre : waits pre = []) {ret : U32} {ev₁ : List Event}
    (hnot : ∀ e ∈ ev₁, e.concludes = false)
    (hans : Event.answered n v copied ∈ ev₁ ++ (loopReturn icap ret (pre ++ .poll w :: rest)).2) :
    pre = [] ∧ icap.transport.lastResponse.seqNum = w.seqNum ∧
      (loopReturn icap ret (pre ++ .poll w :: rest)).1.icap = icap := by
  have hmem := (List.mem_append.mp hans).resolve_left (not_answered hnot n v copied)
  rcases loopReturn_cases icap ret (pre ++ .poll w :: rest) with
    ⟨w₀, rest₀, hstack, hseq, hret⟩ | ⟨w₀, rest₀, hstack, -, hret⟩ | ⟨-, hret⟩
  · rcases head_of_waits_nil hpre hstack with ⟨hnil, hw, -⟩ | ⟨_, _, _, -, hloop, -⟩
    · obtain rfl := Activation.poll.inj hw
      exact ⟨hnil, hseq, by rw [hret]⟩
    · cases hloop
  · rw [hret] at hmem
    cases hmem
  · rw [hret] at hmem
    simp at hmem

/-- **The step that answers a wait** is a return of `icap_loop` to it, with the last response the
step leaves; what it does up to there does not depend on the wait. -/
theorem step_answers (hpre : waits pre = [])
    (hstep : step Q ⟨icap, pre ++ .poll w :: rest⟩ i = some (s', ev))
    (hans : Event.answered n v copied ∈ ev) :
    ∃ icap₁ ret ev₁, icap₁ = s'.icap ∧ s'.lastResponse.seqNum = w.seqNum ∧
      (∀ e ∈ ev₁, e.concludes = false) ∧ ∀ w', step Q ⟨icap, pre ++ .poll w' :: rest⟩ i
        = some ((loopReturn icap₁ ret (.poll w' :: rest)).1,
          ev₁ ++ (loopReturn icap₁ ret (.poll w' :: rest)).2) := by
  cases step_cases hstep with
  | putMsg | lifecycle | refused | waits | notifies | polls | timesOut =>
      simp [icapSendPlatform] at hans
  -- the program calls `icap_loop` only where no wait is on top
  | loop sendRet hruns =>
      obtain ⟨icap₁, ev₁, hnot, -, ⟨tailNext, k, hend⟩ | ⟨ret, hend⟩⟩ :=
        icapLoop_stack (Q := Q) icap sendRet
      · rw [hend] at hans
        exact absurd hans (not_answered hnot n v copied)
      · rw [hend] at hans
        obtain ⟨rfl, -⟩ := answered_by_return hpre hnot hans
        cases hruns
  | pass sendRet w₀ rest₀ hstack =>
      obtain ⟨icap₁, ev₁, hnot, -, ⟨tailNext, k, hend⟩ | ⟨ret, hend⟩⟩ :=
        icapLoop_stack (Q := Q) icap sendRet
      · rw [hend] at hans
        exact absurd hans (not_answered hnot n v copied)
      · rw [hend] at hans ⊢
        obtain ⟨rfl, hseq, hicap⟩ := answered_by_return hpre hnot hans
        refine ⟨icap₁, ret, ev₁, hicap.symm, ?_, hnot, fun w' => congrArg some (hend _)⟩
        rw [State.lastResponse, hicap]
        exact hseq
  -- the wait has called the `icap_loop` whose callback returns
  | resumes r sendRet tailNext k rest₀ hstack =>
      rcases head_of_waits_nil hpre hstack with ⟨-, hw, -⟩ | ⟨_, _, pre', rfl, hloop, rfl, hpre'⟩
      · cases hw
      obtain ⟨rfl, rfl⟩ := Activation.loop.inj hloop
      obtain ⟨icap₁, ev₁, hnot, -, ⟨k', hend⟩ | ⟨ret, hend⟩⟩ :=
        loopParse_stack icap tailNext sendRet (k r)
      · rw [hend] at hans
        exact absurd hans (not_answered hnot n v copied)
      · rw [hend] at hans ⊢
        obtain ⟨rfl, hseq, hicap⟩ := answered_by_return hpre' hnot hans
        refine ⟨icap₁, ret, ev₁, hicap.symm, ?_, hnot, fun w' => congrArg some (hend _)⟩
        rw [State.lastResponse, hicap]
        exact hseq

theorem not_oversized_iff {last : IcapMsg} (hseq : last.seqNum = w.seqNum) :
    ¬ Oversized w last ↔ w.call.CopyFits last last.totalLen.toNat := by
  constructor
  · intro hnot htype hwanted
    by_contra hlong
    exact hnot ⟨hseq, htype, hwanted, by omega⟩
  · intro hfits hover
    exact absurd (hfits hover.type hover.wanted) (by have := hover.length; omega)

/-- What the call returns, and copies, in the step that answers its wait. -/
theorem answered_step_negative_iff {c : ApiCall} (hsync : c.sync = true)
    (hsends : (c.request 0).isSome) {start : U32} {uninit₀ : Mem} (hpre : waits pre = [])
    (hstep : step Q ⟨icap, pre ++ .poll ⟨c, n, start, uninit₀⟩ :: rest⟩ i = some (s', ev))
    (hans : Event.answered n v copied ∈ ev) :
    (∀ uninit, ∃ s'' ev' r,
      step Q ⟨icap, pre ++ .poll ⟨c, n, start, uninit⟩ :: rest⟩ i = some (s'', ev') ∧
        Event.returned c r ∈ ev' ∧ r.ret.toInt < 0 ∧ AnswersFit ev') ↔
      Refuses c s'.lastResponse s'.lastResponse.totalLen.toNat := by
  obtain ⟨icap₁, ret, ev₁, rfl, hseq, hnot, hend⟩ := step_answers hpre hstep hans
  rw [← answered_negative_iff hsync hsends, ← forall_and_right]
  refine forall_congr' fun uninit => ?_
  have hseq' : s'.lastResponse.seqNum = (⟨c, n, start, uninit⟩ : Wait).seqNum := hseq
  have hfits : AnswersFit (ev₁ ++ (loopReturn s'.icap ret (.poll ⟨c, n, start, uninit⟩ :: rest)).2)
      ↔ c.CopyFits s'.lastResponse s'.lastResponse.totalLen.toNat := by
    rw [answersFit_append hnot, loopReturn_answersFit, ← not_oversized_iff hseq']
    exact ⟨fun h => h _ rfl, by rintro h w ⟨⟩; exact h⟩
  have hresult : (⟨c, n, start, uninit⟩ : Wait).result s'.lastResponse
      = c.answered s'.lastResponse s'.lastResponse.totalLen.toNat uninit := Wait.result_eq _ _
  rw [hend]
  constructor
  · rintro ⟨s'', ev', r, heq, hmem, hneg, hfit⟩
    obtain ⟨-, rfl⟩ := Prod.mk.inj (Option.some.inj heq)
    refine ⟨?_, hfits.mp hfit⟩
    rw [loopReturn_answered hseq'] at hmem
    rcases List.mem_append.mp hmem with hmem | hmem
    · cases hnot _ hmem
    · simp only [List.mem_cons, reduceCtorEq, Event.returned.injEq, List.not_mem_nil, or_false,
        false_or, true_and] at hmem
      rw [← hresult, ← hmem]
      exact hneg
  · rintro ⟨hneg, hfit⟩
    refine ⟨_, _, c.answered s'.lastResponse s'.lastResponse.totalLen.toNat uninit, rfl, ?_, hneg,
      hfits.mpr hfit⟩
    rw [loopReturn_answered hseq', ← hresult]
    exact List.mem_append_right _ (List.mem_cons_of_mem _ List.mem_cons_self)

end

end BareMetal

/-! ## Linux: the sections after the wait -/

namespace Linux

theorem Message.answer_eq {m : Message} (hsync : m.call.sync = true)
    (hsends : (m.call.request 0).isSome) (data : Mem) (len : Nat) :
    m.call.finish (m.answer data len).1 (m.answer data len).2
      = m.call.answered data len m.response := by
  unfold Message.answer ApiCall.answered
  by_cases hnak : IcapMsg.type data = ICAP_NAK
  · simp only [if_pos hnak]
  · simp only [if_neg hnak]
    by_cases hwants : m.call.wantsResponse = true
    · rw [if_pos hwants]
    · rw [if_neg hwants]
      exact finish_unwanted hsync hsends hwants _ _ _

/-- The last section of a wait is the return of the API function. -/
theorem step_free {bits i k : Nat} {s s' : State} {ev : List Event} {m : Message}
    {timeout : WakeUp} {ret : U32} {response : Mem}
    (hth : s.threads i = .free m k timeout ret response)
    (hstep : step bits s ⟨i, .free⟩ = some (s', ev)) (r : CallResult) :
    Event.returned m (some timeout) r ∈ ev ↔ r = m.call.finish ret response := by
  unfold step at hstep
  simp only [hth] at hstep
  have hev : ev = useSkbs s.icap.transport [k] ++
      [.freed k, m.returns (some timeout) ret response] :=
    (Prod.mk.inj (Option.some.inj hstep)).2.symm
  rw [hev]
  simp only [Message.returns, List.mem_append, List.mem_cons, reduceCtorEq,
    Event.returned.injEq, List.not_mem_nil, or_false, false_or, true_and]
  -- the other events of the section are faults
  refine or_iff_right fun hmem => ?_
  obtain ⟨k', hk'⟩ := mem_useSkbs hmem
  cases hk'

/-- What the call returns once `icap_wait_for_response` has read the skb of its response, of which
it copies `len` bytes. -/
theorem answered_negative_iff {c : ApiCall} (hsync : c.sync = true)
    (hsends : (c.request 0).isSome) (bits : Nat) (s : State) (i k : Nat) (cmd n : U32)
    (payload : List Byte) :
    ((∀ uninit s₁ during s₂ s₃ ev₁ ev₃,
      step bits (s.put i (.result ⟨c, cmd, n, payload, uninit⟩ k .response)) ⟨i, .result⟩
        = some (s₁, ev₁) →
      (machine bits).Run (Others i) s₁ during s₂ → step bits s₂ ⟨i, .free⟩ = some (s₃, ev₃) →
      ∃ r, Event.returned ⟨c, cmd, n, payload, uninit⟩ (some .response) r ∈ ev₃ ∧
        r.ret.toInt < 0) ∧
      c.CopyFits (s.icap.transport.skbs k).data (s.icap.transport.skbs k).len) ↔
      Refuses c (s.icap.transport.skbs k).data (s.icap.transport.skbs k).len := by
  rw [← Icap.answered_negative_iff hsync hsends]
  refine and_congr_left fun _ => forall_congr' fun uninit => ?_
  obtain ⟨m, hm⟩ : ∃ m : Message, m = ⟨c, cmd, n, payload, uninit⟩ := ⟨_, rfl⟩
  obtain ⟨d, hd⟩ : ∃ d : SkBuff, d = s.icap.transport.skbs k := ⟨_, rfl⟩
  have hanswer : m.call.finish (m.answer d.data d.len).1 (m.answer d.data d.len).2
      = c.answered d.data d.len uninit := by
    rw [Message.answer_eq (by rw [hm]; exact hsync) (by rw [hm]; exact hsends), hm]
  have hresult : step bits (s.put i (.result m k .response)) ⟨i, .result⟩
      = some ((s.put i (.result m k .response)).put i
          (.free m k .response (m.answer d.data d.len).1 (m.answer d.data d.len).2),
        useSkbs s.icap.transport [k]) := by
    unfold step
    rw [State.put_self, hd]
    rfl
  rw [State.put_put] at hresult
  rw [← hm, ← hd, ← hanswer]
  constructor
  · intro h
    obtain ⟨⟨s₃, ev₃⟩, hstep₃⟩ : ∃ r, step bits (s.put i (.free m k .response
        (m.answer d.data d.len).1 (m.answer d.data d.len).2)) ⟨i, .free⟩ = some r := by
      unfold step
      rw [State.put_self]
      exact ⟨_, rfl⟩
    obtain ⟨r, hmem, hneg⟩ := h _ _ _ _ _ _ hresult .start hstep₃
    rw [(step_free (State.put_self _ _ _) hstep₃ r).mp hmem] at hneg
    exact hneg
  · intro hneg s₁ during s₂ s₃ ev₁ ev₃ hstep₁ hduring hstep₃
    -- the other threads leave the result of this one
    obtain ⟨rfl, -⟩ := Prod.mk.inj (Option.some.inj (hresult.symm.trans hstep₁))
    have hth := (run_threads hduring).trans (State.put_self _ _ _)
    exact ⟨_, (step_free hth hstep₃ _).mpr rfl, hneg⟩

end Linux

/-! ## Both transports -/

/-- **A call that is answered returns a negative value**, whatever its `response` held before, and
writes nothing behind it, exactly when the memory that its wait reads refuses it: on bare metal
`last_response`, in every step that answers the wait; on Linux the skb of its hint. When that
memory starts with a NAK that has its word, the condition is that the word is negative. -/
theorem nak_negative_iff {c : ApiCall} (hsync : c.sync = true) (hsends : (c.request 0).isSome) :
    (∀ (Q : Nat) (icap : BareMetal.Instance) (i : BareMetal.Input)
        (pre rest : List BareMetal.Activation) (n start : U32) (uninit₀ : Mem)
        (s' : BareMetal.State) (ev : List BareMetal.Event) (v : U32) (copied : Option (List Byte)),
      BareMetal.waits pre = [] →
      BareMetal.step Q ⟨icap, pre ++ .poll ⟨c, n, start, uninit₀⟩ :: rest⟩ i = some (s', ev) →
      BareMetal.Event.answered n v copied ∈ ev →
      ((∀ uninit, ∃ s'' ev' r,
        BareMetal.step Q ⟨icap, pre ++ .poll ⟨c, n, start, uninit⟩ :: rest⟩ i = some (s'', ev') ∧
          BareMetal.Event.returned c r ∈ ev' ∧ r.ret.toInt < 0 ∧ BareMetal.AnswersFit ev') ↔
        Refuses c s'.lastResponse s'.lastResponse.totalLen.toNat)) ∧
    (∀ (bits : Nat) (s : Linux.State) (i k : Nat) (cmd n : U32) (payload : List Byte),
      ((∀ uninit s₁ during s₂ s₃ ev₁ ev₃,
        Linux.step bits (s.put i (.result ⟨c, cmd, n, payload, uninit⟩ k .response)) ⟨i, .result⟩
          = some (s₁, ev₁) →
        (Linux.machine bits).Run (Linux.Others i) s₁ during s₂ →
        Linux.step bits s₂ ⟨i, .free⟩ = some (s₃, ev₃) →
        ∃ r, Linux.Event.returned ⟨c, cmd, n, payload, uninit⟩ (some .response) r ∈ ev₃ ∧
          r.ret.toInt < 0) ∧
        c.CopyFits (s.icap.transport.skbs k).data (s.icap.transport.skbs k).len) ↔
        Refuses c (s.icap.transport.skbs k).data (s.icap.transport.skbs k).len) ∧
    ∀ (d r : Mem) (n : Nat), (∀ j < (IcapMsg.totalLen r).toNat, d j = r j) →
      IcapMsg.type r = ICAP_NAK → sizeofIcapMsgHeader + 4 ≤ (IcapMsg.totalLen r).toNat →
      (Refuses c d n ↔ (IcapMsg.payloadU32 r).toInt < 0) := by
  refine ⟨?_, ?_, ?_⟩
  · intro Q icap i pre rest n start uninit₀ s' ev v copied hpre hstep hans
    exact BareMetal.answered_step_negative_iff hsync hsends hpre hstep hans
  · intro bits s i k cmd n payload
    exact Linux.answered_negative_iff hsync hsends bits s i k cmd n payload
  · intro d r n hcopied hnak hlen
    exact refuses_nak hcopied hnak hlen

/-! ## Three refusals -/

/-- A NAK for the first message. -/
def firstNak (cmd error : U32) : List Byte := icapMsgFrame cmd ICAP_NAK 1 (word32 error)

namespace BareMetal

/-- A call, and a NAK that comes while it waits. -/
def refusedCall (c : ApiCall) (cmd error : U32) : List Input :=
  [.call c 0 0 (fun _ => 0), .putMsg ⟨⟨4096, ofList (firstNak cmd error)⟩, 44, 7⟩]

/-- The wait is about to find the NAK. -/
def refusedState (c : ApiCall) (cmd error : U32) : State :=
  ((machine 10).exec [] silentApplication (refusedCall c cmd error)).2

/-- `icap_pause` refused with -22. -/
theorem nak_negative_iff_pause : ∃ s' ev r,
    step 10 (refusedState (.pause 1) ICAP_MSG_PAUSE (-22)) (.pass 0) = some (s', ev) ∧
      Event.returned (.pause 1) r ∈ ev ∧ r.ret.toInt < 0 ∧ AnswersFit ev := by
  obtain ⟨out, hout⟩ : ∃ out, out
      = icapLoop 10 (refusedState (.pause 1) ICAP_MSG_PAUSE (-22)).icap 0
        (refusedState (.pause 1) ICAP_MSG_PAUSE (-22)).stack := ⟨_, rfl⟩
  have hstep : step 10 (refusedState (.pause 1) ICAP_MSG_PAUSE (-22)) (.pass 0)
      = some (out.1, out.2) := by rw [hout]; rfl
  have hmem : Event.answered 1 (-22) none ∈ out.2 := by
    rw [hout]
    exact List.mem_of_mem_tail (List.mem_of_mem_tail (List.mem_of_mem_tail List.mem_cons_self))
  have hnak : out.1.lastResponse.type = ICAP_NAK := by rw [hout]; decide +kernel
  have hword : out.1.lastResponse.payloadU32.toInt < 0 := by rw [hout]; decide +kernel
  have hrefuses : Refuses (.pause 1) out.1.lastResponse out.1.lastResponse.totalLen.toNat := by
    rw [Refuses, if_pos hnak]
    exact hword
  exact ((nak_negative_iff rfl rfl).1 10 _ (.pass 0) [] [] 1 0 (fun _ => 0) _ _ _ _ rfl hstep
    hmem).mpr hrefuses fun _ => 0

end BareMetal

namespace Linux

/-- What the calls of a run returned, in order. -/
def callResults (tr : Trace Input Event) : List CallResult :=
  tr.events.filterMap fun
    | .returned _ _ r => some r
    | _ => none

/-- A call of thread 1, and a NAK that comes while it waits. -/
def refusedCall (c : ApiCall) (cmd error : U32) : List Input :=
  [⟨1, .call c fun _ => 0⟩, ⟨1, .prepareWait (some fun _ => 0)⟩, ⟨1, .sendPlatform 0⟩,
    ⟨1, .findHint⟩, ⟨2, .receive 0 (ofList (firstNak cmd error)) 44⟩, ⟨2, .responseNotify⟩,
    ⟨1, .waitEvent .response⟩, ⟨1, .unlink⟩, ⟨1, .result⟩, ⟨1, .free⟩]

end Linux

/-- A NAK with the word 3 is returned as the number of subdevices, and a NAK with the word 0 as
success. -/
theorem nak_taken_for_success :
    AcceptedResponse BareMetal.bareMetal (ofList (firstNak ICAP_MSG_GET_DEV_NUM 3)) 44 ∧
    IcapMsg.type (ofList (firstNak ICAP_MSG_GET_DEV_NUM 3)) = ICAP_NAK ∧
    BareMetal.callResults ((BareMetal.machine 10).exec [] BareMetal.silentApplication
      (BareMetal.refusedCall .getSubdevices ICAP_MSG_GET_DEV_NUM 3 ++ [.pass 0])).1
        = [⟨3, none⟩] ∧
    BareMetal.callResults ((BareMetal.machine 10).exec [] BareMetal.silentApplication
      (BareMetal.refusedCall (.pause 1) ICAP_MSG_PAUSE 0 ++ [.pass 0])).1 = [⟨0, none⟩] ∧
    Linux.callResults ((Linux.machine 64).exec []
      (Linux.State.opened 64 (some 0) 0 (fun _ => false) 0)
      (Linux.refusedCall .getSubdevices ICAP_MSG_GET_DEV_NUM 3)).1 = [⟨3, none⟩] ∧
    Linux.callResults ((Linux.machine 64).exec []
      (Linux.State.opened 64 (some 0) 0 (fun _ => false) 0)
      (Linux.refusedCall (.pause 1) ICAP_MSG_PAUSE 0)).1 = [⟨0, none⟩] := by
  refine ⟨⟨by decide, by decide, by decide⟩, by decide, ?_, ?_, ?_, ?_⟩ <;> decide +kernel

end Icap
