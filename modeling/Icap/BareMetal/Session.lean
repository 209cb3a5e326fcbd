import Icap.BareMetal.Queue
import Icap.BareMetal.Responses

set_option autoImplicit false

/-! # Response matching within one session

An application instance from its first init on, with peers that answer only what was sent.
The single slot `last_response` is never cleared, but the seq_num in it is at most the counter,
so it is not the one of a call that begins; and whenever it is the seq_num of a call that waits,
the slot holds the response stored last, during that call (`Waiting`). So a call that is
answered returns a response stored during the call (`response_matching`).
-/

namespace Icap.BareMetal

open ByteMemory RingBuffer Transition

/-! ## The environment of a session -/

def Event.frame : Event → Option (List Byte)
  | .sent _ _ _ frame => some frame
  | _ => none

def callFrames : Input × List Event → List (List Byte)
  | (.call _ _ _ _, ev) => ev.filterMap Event.frame
  | _ => []

/-- The messages `icap_send_msg` has sent, in order. -/
def sentMessages (tr : Trace Input Event) : List (List Byte) := tr.flatMap callFrames

def frameSeqNum (frame : List Byte) : U32 := IcapMsg.seqNum (ofList frame)

/-- An application instance after `icap_application_init` on a zeroed struct. -/
def sessionStart (rpmsgInstance rpmsgEpt name priv : Nat) (cb : CallbackTable) : State :=
  ⟨(icapApplicationInit bareMetal (zeroedInstance rpmsgInstance rpmsgEpt) name (some cb) priv).1,
    []⟩

/-- The instance is not initialised again, fewer than `2 ^ 32` messages are sent, and response
frames are well formed and carry the seq_num of a message already sent. -/
def InSession (tr : Trace Input Event) (_ : State) : Input → Prop
  | .putMsg m => IsResponse m.data.mem →
      WellFormed m.data.mem m.size ∧ m.data.mem.seqNum ∈ (sentMessages tr).map frameSeqNum
  | .applicationInit _ _ _ => False
  | .deviceInit _ _ _ => False
  | .call c _ _ _ => (c.request 0).isSome → (sentMessages tr).length + 1 < 2 ^ 32
  | _ => True

/-! ## What the last response agrees with -/

section

variable {last r : IcapMsg}

theorem responseCopy_agrees (h : Agrees last r) (response : Mem) :
    responseCopy last response = responseCopy r response := by
  unfold responseCopy
  rw [h.type, h.totalLen, h.copy]

theorem copied_agrees (h : Agrees last r) (w : Wait) : w.copied last = w.copied r := by
  unfold Wait.copied
  rw [h.type, h.totalLen]
  split_ifs
  · rfl
  · congr 1
    apply List.map_congr_left
    intro i hi
    exact h.bytes _ (by have := List.mem_range.mp hi; omega)

theorem result_agrees (h : Agrees last r) (w : Wait) : w.result last = w.result r := by
  rw [Wait.result, Wait.result, h.responseRet, responseCopy_agrees h]

end

/-! ## The invariant -/

/-- The call of `w` is part of the run, and if the last response has its seq_num, it is the
response stored last, during the call. -/
def Waiting (tr : Trace Input Event) (last : IcapMsg) (w : Wait) : Prop :=
  ∃ tr₁ tr₂ sendRet frame rpmsgInstance rpmsgEpt remoteAddr,
    tr = tr₁ ++ (.call w.call w.start sendRet w.response,
      [.sent rpmsgInstance rpmsgEpt remoteAddr frame]) :: tr₂ ∧
    w.call.sync = true ∧ w.call.request w.seqNum = some frame ∧
    (last.seqNum = w.seqNum →
      ∃ r, (storedMsgs (Trace.events tr₂)).getLast? = some r ∧ Agrees last r)

/-- What is known of a message in the fifo when `n` messages have been sent. -/
def Expected (n : Nat) (m : IcapRemoteMsg) : Prop :=
  m.data.mem.protocolVersion = ICAP_PROTOCOL_VERSION → IsResponse m.data.mem →
    WellFormed m.data.mem m.size ∧ m.data.mem.seqNum.toNat ≤ n

structure Matched (tr : Trace Input Event) (s : State) : Prop where
  quiescent : Quiescent s
  counter : (sentMessages tr).map frameSeqNum
    = (List.range s.icap.seqNum.toNat).map fun k => BitVec.ofNat 32 (k + 1)
  slots : ∀ j, Expected s.icap.seqNum.toNat (s.fifo.slot j)
  last : s.lastResponse.seqNum.toNat ≤ s.icap.seqNum.toNat
  waiting : ∀ w ∈ waits s.stack, Waiting tr s.lastResponse w

theorem sentMessages_snoc (tr : Trace Input Event) (e : Input × List Event) :
    sentMessages (tr ++ [e]) = sentMessages tr ++ callFrames e := by
  simp [sentMessages]

theorem request_seqNum {c : ApiCall} {n : U32} {frame : List Byte}
    (h : c.request n = some frame) : frameSeqNum frame = n := by
  unfold ApiCall.request at h
  cases hc : c.call with
  | done r => simp [hc] at h
  | sendMsg cmd data sync wants k =>
      simp only [hc, Option.some.injEq] at h
      subst h
      exact (frameAt_of_holds (holds_ofList _)).seqNum

theorem request_isSome {c : ApiCall} {n : U32} {frame : List Byte}
    (h : c.request n = some frame) : (c.request 0).isSome = true := by
  rw [c.request_isSome_eq 0 n, h]
  rfl

section

variable {Q : Nat} {tr : Trace Input Event} {s s' : State} {i : Input} {ev : List Event}

theorem icapPutMsg_seqNum (Q : Nat) (icap : Instance) (msg : IcapRemoteMsg) :
    (icapPutMsg Q icap msg).1.seqNum = icap.seqNum := by
  rcases icapPutMsg_cases Q icap msg with ⟨-, h⟩ | ⟨-, h⟩ | ⟨-, -, h⟩ <;> rw [h]

/-- A step either sends the next message or leaves the counter. -/
theorem step_counter (hopen : opensTransport s i = false) (h : step Q s i = some (s', ev)) :
    (∃ c now sendRet uninit frame, i = .call c now sendRet uninit ∧
      c.request (s.icap.seqNum + 1) = some frame ∧ s'.icap.seqNum = s.icap.seqNum + 1 ∧
      callFrames (i, ev) = [frame])
    ∨ (s'.icap.seqNum = s.icap.seqNum ∧ callFrames (i, ev) = []) := by
  cases step_cases h with
  | putMsg msg => exact Or.inr ⟨icapPutMsg_seqNum _ _ _, rfl⟩
  | lifecycle r hr =>
      rcases lifecycleResult_cases hr with ⟨ho, -, -⟩ | ⟨-, -, hn⟩
      · simp [hopen] at ho
      · exact Or.inr ⟨hn, by cases i <;> rfl⟩
  | refused => exact Or.inr ⟨rfl, rfl⟩
  | waits c now sendRet uninit frame _ hreq =>
      exact Or.inl ⟨c, now, sendRet, uninit, frame, rfl, hreq, rfl, rfl⟩
  | notifies c now sendRet uninit frame _ hreq =>
      exact Or.inl ⟨c, now, sendRet, uninit, frame, rfl, hreq, rfl, rfl⟩
  | loop sendRet | pass sendRet =>
      obtain ⟨t, ht⟩ := icapLoop_icap Q s.icap sendRet s.stack
      exact Or.inr ⟨by rw [ht], rfl⟩
  | polls | timesOut => exact Or.inr ⟨rfl, rfl⟩
  | resumes r sendRet tailNext k rest =>
      obtain ⟨t, ht⟩ := loopParse_icap s.icap tailNext sendRet rest (k r)
      exact Or.inr ⟨by rw [ht], rfl⟩

/-- The slots of the fifo change only where a message is put, or all at once in an init. -/
theorem step_slots_cases (h : step Q s i = some (s', ev)) (j : Nat) :
    s'.fifo.slot j = s.fifo.slot j ∨ (∃ m, i = .putMsg m ∧ s'.fifo.slot j = m) ∨
      (opensTransport s i = true ∧ s'.fifo = .zero) := by
  cases step_queue h with
  | quiet _ _ hfifo => exact Or.inl (by rw [hfifo])
  | «open» ho hfifo => exact Or.inr (Or.inr ⟨ho, hfifo⟩)
  | hold msg hi _ hfifo =>
      rw [hfifo]
      by_cases hj : j = indexNext Q s.fifo.head
      -- the one slot that `icap_put_msg` writes
      · exact Or.inr (Or.inl ⟨msg, hi, by rw [hj]; exact Function.update_self _ _ _⟩)
      · exact Or.inl (Function.update_of_ne hj _ _)
  | refuse _ _ _ _ hfifo => exact Or.inl (by rw [hfifo])
  | parse _ _ hfifo => exact Or.inl (by rw [hfifo])
  | handle _ _ hfifo => exact Or.inl (by rw [hfifo])
  | release _ _ _ hfifo => exact Or.inl (by rw [hfifo])

theorem step_slots (hopen : opensTransport s i = false) (h : step Q s i = some (s', ev)) (j : Nat) :
    s'.fifo.slot j = s.fifo.slot j ∨ ∃ m, i = .putMsg m ∧ s'.fifo.slot j = m := by
  rcases step_slots_cases h j with hsame | hput | ⟨ho, -⟩
  · exact Or.inl hsame
  · exact Or.inr hput
  · simp [hopen] at ho

theorem InSession.not_open (h : InSession tr s i) : opensTransport s i = false := by
  cases i <;> first | rfl | exact h.elim

theorem Matched.counter_length (h : Matched tr s) :
    (sentMessages tr).length = s.icap.seqNum.toNat := by
  have := congrArg List.length h.counter
  simpa using this

/-- Every seq_num of the session is at most the counter. -/
theorem Matched.seqNum_le (h : Matched tr s) {n : U32}
    (hn : n ∈ (sentMessages tr).map frameSeqNum) : n.toNat ≤ s.icap.seqNum.toNat := by
  rw [h.counter] at hn
  obtain ⟨k, hk, rfl⟩ := List.mem_map.mp hn
  have hk' := List.mem_range.mp hk
  rw [BitVec.toNat_ofNat]
  exact (Nat.mod_le _ _).trans hk'

theorem toNat_add_one {n : U32} (h : n.toNat + 1 < 2 ^ 32) : (n + 1).toNat = n.toNat + 1 := by
  rw [BitVec.toNat_add]
  exact Nat.mod_eq_of_lt h

/-- The counter of a session does not wrap. -/
theorem step_counter_le (hm : Matched tr s) (hok : InSession tr s i)
    (h : step Q s i = some (s', ev)) :
    s.icap.seqNum.toNat ≤ s'.icap.seqNum.toNat ∧
      (sentMessages (tr ++ [(i, ev)])).map frameSeqNum
        = (List.range s'.icap.seqNum.toNat).map fun k => BitVec.ofNat 32 (k + 1) := by
  rw [sentMessages_snoc, List.map_append, hm.counter]
  rcases step_counter hok.not_open h with
    ⟨c, now, sendRet, uninit, frame, rfl, hreq, hnext, hframes⟩ | ⟨hsame, hframes⟩
  · have hlt : s.icap.seqNum.toNat + 1 < 2 ^ 32 := by
      rw [← hm.counter_length]
      exact hok (request_isSome hreq)
    have hnext' : s'.icap.seqNum.toNat = s.icap.seqNum.toNat + 1 := by
      rw [hnext, toNat_add_one hlt]
    refine ⟨by omega, ?_⟩
    have hnew : frameSeqNum frame = BitVec.ofNat 32 (s.icap.seqNum.toNat + 1) := by
      rw [request_seqNum hreq, BitVec.ofNat_add, BitVec.ofNat_toNat, BitVec.setWidth_eq]
      rfl
    rw [hframes, hnext']
    calc ((List.range s.icap.seqNum.toNat).map fun k => BitVec.ofNat 32 (k + 1))
          ++ [frame].map frameSeqNum
        = ((List.range s.icap.seqNum.toNat).map fun k => BitVec.ofNat 32 (k + 1))
            ++ [BitVec.ofNat 32 (s.icap.seqNum.toNat + 1)] := by rw [List.map_singleton, hnew]
      _ = (List.range (s.icap.seqNum.toNat + 1)).map fun k => BitVec.ofNat 32 (k + 1) := by
          rw [List.range_succ, List.map_append, List.map_singleton]
  · rw [hframes, hsame]
    exact ⟨le_rfl, by simp⟩

theorem Expected.mono {n n' : Nat} {m : IcapRemoteMsg} (h : Expected n m) (hn : n ≤ n') :
    Expected n' m :=
  fun hv hr => ⟨(h hv hr).1, (h hv hr).2.trans hn⟩

/-- A response that a session stores is well formed, so the last response agrees with it. -/
theorem Stores.agrees {m : IcapRemoteMsg} (hst : Stores s s'.icap ev (some m))
    (hslots : ∀ j, Expected s.icap.seqNum.toNat (s.fifo.slot j)) :
    Agrees s'.lastResponse m.data.mem ∧ m.data.mem.seqNum.toNat ≤ s.icap.seqNum.toNat := by
  obtain ⟨⟨j, hj⟩, hacc, -, hnew⟩ := hst
  have hexpected : Expected s.icap.seqNum.toNat m := by
    rw [hj]
    exact hslots j
  obtain ⟨hwell, hseq⟩ := hexpected hacc.version hacc.type
  rw [show s'.lastResponse = _ from hnew]
  exact ⟨agrees_of_accepted hacc (by decide) hwell fun _ hi => copy_lt hi, hseq⟩

/-- What the waits know survives a step: a new response agrees with the slot it is copied
to. -/
theorem Waiting.of_step {w : Wait} (h : Waiting tr s.lastResponse w)
    {stored : Option IcapRemoteMsg} (hst : Stores s s'.icap ev stored)
    (hslots : ∀ j, Expected s.icap.seqNum.toNat (s.fifo.slot j)) :
    Waiting (tr ++ [(i, ev)]) s'.lastResponse w := by
  obtain ⟨tr₁, tr₂, sendRet, frame, inst, ept, addr, rfl, hsync, hreq, hlast⟩ := h
  refine ⟨tr₁, tr₂ ++ [(i, ev)], sendRet, frame, inst, ept, addr, by simp, hsync, hreq, ?_⟩
  intro hseq
  rw [Trace.events_append, Trace.events_singleton, storedMsgs_append]
  cases stored with
  | none =>
      rw [hst.2, List.append_nil]
      rw [show s'.lastResponse = s.lastResponse from hst.1] at hseq ⊢
      exact hlast hseq
  | some m =>
      obtain ⟨hagree, -⟩ := Stores.agrees hst hslots
      obtain ⟨-, -, hmsgs, -⟩ := hst
      exact ⟨m.data.mem, by rw [hmsgs]; simp, hagree⟩

theorem Matched.of_step (hm : Matched tr s) (hok : InSession tr s i)
    (h : step Q s i = some (s', ev)) : Matched (tr ++ [(i, ev)]) s' := by
  obtain ⟨stored, hq', hst, hwait⟩ := step_waits hm.quiescent h
  obtain ⟨hle, hcounter⟩ := step_counter_le hm hok h
  have hwaiting (w : Wait) (hw : w ∈ waits s.stack) :
      Waiting (tr ++ [(i, ev)]) s'.lastResponse w :=
    (hm.waiting w hw).of_step hst hm.slots
  have hlast : s'.lastResponse.seqNum.toNat ≤ s.icap.seqNum.toNat := by
    cases stored with
    | none =>
        rw [show s'.lastResponse = s.lastResponse from hst.1]
        exact hm.last
    | some m =>
        obtain ⟨hagree, hseq⟩ := Stores.agrees hst hm.slots
        rw [hagree.seqNum]
        exact hseq
  refine ⟨hq', hcounter, fun j => ?_, hlast.trans hle, fun w hw => ?_⟩
  -- a response frame is well formed and answers a message already sent
  · rcases step_slots hok.not_open h j with hj | ⟨m, rfl, hj⟩
    · rw [hj]
      exact (hm.slots j).mono hle
    · rw [hj]
      intro _ hr
      obtain ⟨hwell, hmem⟩ := hok hr
      exact ⟨hwell, (hm.seqNum_le hmem).trans hle⟩
  · cases hwait with
    | stay hwaits => exact hwaiting w (by rwa [hwaits] at hw)
    | timeout w' hwaits => exact hwaiting w (by rw [hwaits]; exact List.mem_cons_of_mem _ hw)
    | answer w' pre hwaits => exact hwaiting w (by rw [hwaits]; exact List.mem_cons_of_mem _ hw)
    | begin c now sendRet uninit frame hi hsync hreq hstored hwaits hev =>
        rw [hwaits] at hw
        rcases List.mem_cons.mp hw with rfl | hw
        · -- the seq_num of the new call is larger than every one stored
          refine ⟨tr, [], sendRet, frame, _, _, _, by rw [hi, hev]; rfl, hsync, hreq,
            fun hseq => ?_⟩
          rcases step_counter hok.not_open h with ⟨_, _, _, _, _, _, _, hnext, -⟩ | ⟨-, hframes⟩
          · have hlt : s.icap.seqNum.toNat + 1 < 2 ^ 32 := by
              rw [← hm.counter_length]
              subst hi
              exact hok (request_isSome hreq)
            rw [hseq, toNat_add_one hlt] at hlast
            omega
          · subst hi hev
            cases hframes
        · exact hwaiting w hw

end

theorem sessionStart_matched (rpmsgInstance rpmsgEpt name priv : Nat) (cb : CallbackTable) :
    Matched [] (sessionStart rpmsgInstance rpmsgEpt name priv cb) where
  quiescent := nofun
  counter := rfl
  slots := by
    intro j hv
    have hzero : load32 (fun _ => 0) 0 = ICAP_PROTOCOL_VERSION := hv
    exact absurd hzero (by decide)
  last := by
    have hzero : load32 (fun _ => 0) 4 = 0 := by decide
    exact (congrArg BitVec.toNat hzero).le
  waiting := nofun

theorem run_matched {Q rpmsgInstance rpmsgEpt name priv : Nat} {cb : CallbackTable}
    {tr : Trace Input Event} {s : State}
    (hrun : (machine Q).Run InSession (sessionStart rpmsgInstance rpmsgEpt name priv cb) tr s) :
    Matched tr s := by
  refine hrun.invariant (sessionStart_matched _ _ _ _ _) ?_
  rintro tr s s' i ev - hm hok hstep
  exact hm.of_step hok hstep

/-- **Response matching.** In every session, a call that does not time out returns the response
stored last, which was stored during the call and carries its seq_num; and a response with
the seq_num of the waiting call that the wait loop parses is the one the call returns, at
once. -/
theorem response_matching {Q rpmsgInstance rpmsgEpt name priv : Nat} {cb : CallbackTable}
    {tr : Trace Input Event} {s s' : State} {i : Input} {ev : List Event}
    (hrun : (machine Q).Run InSession (sessionStart rpmsgInstance rpmsgEpt name priv cb) tr s)
    (hok : InSession tr s i) (hstep : (machine Q).step s i = some (s', ev)) :
    (∀ n ret copied, Event.answered n ret copied ∈ ev →
      ∃ tr₁ tr₂ c now sendRet uninit frame rpmsgInstance rpmsgEpt remoteAddr r,
        tr ++ [(i, ev)] = tr₁ ++ (.call c now sendRet uninit,
          [.sent rpmsgInstance rpmsgEpt remoteAddr frame]) :: tr₂ ∧
        c.sync = true ∧ c.request n = some frame ∧
        (storedMsgs (Trace.events tr₂)).getLast? = some r ∧ r.seqNum = n ∧
        ret = (if r.type = ICAP_NAK then r.payloadU32 else 0) ∧
        copied = (if r.type = ICAP_NAK ∨ c.wantsResponse = false then none
          else some (block r 0 (sizeofIcapMsgHeader + r.payloadLen.toNat))) ∧
        Event.returned c (c.finish ret (responseCopy r uninit)) ∈ ev) ∧
    (∀ sendRet w rest r, i = .pass sendRet → s.stack = .poll w :: rest → r ∈ storedMsgs ev →
      r.seqNum = w.seqNum →
        Event.answered w.seqNum (responseRet r) (w.copied r) ∈ ev ∧
        Event.returned w.call (w.result r) ∈ ev) := by
  have hm := run_matched hrun
  have hm' := hm.of_step hok hstep
  obtain ⟨stored, -, hst, hwait⟩ := step_waits hm.quiescent hstep
  constructor
  · intro n ret copied hmem
    cases hwait with
    | stay _ hno => exact absurd hmem (hno _ _ _)
    | timeout _ _ _ hno => exact absurd hmem (hno _ _ _)
    | begin _ _ _ _ _ _ _ _ _ _ hev => simp [hev, icapSendPlatform] at hmem
    | answer w pre hwaits hseq hno hev =>
        rw [hev] at hmem
        simp only [List.mem_append, List.mem_cons, Event.answered.injEq, List.not_mem_nil,
          or_false, reduceCtorEq] at hmem
        rcases hmem with hmem | ⟨rfl, rfl, rfl⟩
        · exact absurd hmem (not_answered hno _ _ _)
        -- what the wait knows after the step is about the response it returns
        · have hw := (hm.waiting w (by rw [hwaits]; exact List.mem_cons_self)).of_step
            (i := i) hst hm.slots
          obtain ⟨tr₁, tr₂, sendRet, frame, inst, ept, addr, htr, hsync, hreq, hlast⟩ := hw
          obtain ⟨r, hr, hagree⟩ := hlast hseq
          refine ⟨tr₁, tr₂, w.call, w.start, sendRet, w.response, frame, inst, ept, addr, r, htr,
            hsync, hreq, hr, hagree.seqNum.symm.trans hseq, hagree.responseRet, ?_, ?_⟩
          · have hlen : r.totalLen.toNat = sizeofIcapMsgHeader + r.payloadLen.toNat := by
              have hh := hagree.header
              have hp := r.payloadLen.isLt
              simp only [IcapMsg.totalLen, BitVec.toNat_add, BitVec.toNat_ofNat,
                sizeofIcapMsgHeader] at hh ⊢
              omega
            rw [copied_agrees hagree, Wait.copied, hlen]
          · rw [hev, ← responseCopy_agrees hagree]
            simp [Wait.result]
  · intro sendRet w rest r hi hstack hr hseq
    cases stored with
    | none => rw [hst.2] at hr; cases hr
    | some m =>
        obtain ⟨hagree, -⟩ := Stores.agrees hst hm.slots
        obtain ⟨-, -, hmsgs, -⟩ := hst
        rw [hmsgs, List.mem_singleton] at hr
        subst hr
        -- of the four cases only an answer ends the wait
        cases hwait with
        | stay _ _ hmiss =>
            exact absurd (hagree.seqNum.trans hseq) (hmiss sendRet w rest hi hstack rfl)
        | timeout _ _ hnone => cases hnone
        | begin _ _ _ _ _ _ _ _ hnone => cases hnone
        | answer w' pre hwaits _ _ hev =>
            rw [hstack] at hwaits
            obtain ⟨rfl, -⟩ := List.cons.inj hwaits
            rw [hev, ← hagree.responseRet, ← copied_agrees hagree, ← result_agrees hagree]
            simp

/-- `icap_stop` has been called, and its ACK is in the fifo. -/
def stopAcked : Trace Input Event × State :=
  (machine 10).exec [] (sessionStart 0 0 0 0 fun _ => false)
    [.call (.stop 1) 0 0 (fun _ => 0),
      .putMsg ⟨⟨4096, ofList (icapMsgFrame ICAP_MSG_STOP ICAP_ACK 1 [])⟩, 40, 7⟩]

theorem stopAcked_run :
    (machine 10).Run InSession (sessionStart 0 0 0 0 fun _ => false) stopAcked.1 stopAcked.2 :=
  Machine.Run.start.exec _
    ⟨fun _ => by decide, fun _ => ⟨⟨by decide, by decide, by decide⟩, by decide⟩, trivial⟩

theorem response_matching_stop : ∃ s' ev, (machine 10).step stopAcked.2 (.pass 0) = some (s', ev) ∧
    Event.answered 1 0 none ∈ ev := by
  refine ⟨_, _, rfl, ?_⟩
  have h := (response_matching stopAcked_run (i := .pass 0) trivial rfl).2 0
    ⟨.stop 1, 1, 0, fun _ => 0⟩ [] (ofList (icapMsgFrame ICAP_MSG_STOP ICAP_ACK 1 [])) rfl rfl
    (List.mem_singleton.mpr rfl) (by decide)
  exact h.1

end Icap.BareMetal
