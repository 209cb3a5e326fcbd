import Icap.BareMetal.Copies

set_option autoImplicit false

/-! # Initialising again

`icap_application_init` after `icap_application_deinit` resets everything but `last_response`.
What a later run can observe of the last response left there is little, but not nothing: which
calls it answers, with what, and how many bytes `icap_wait_for_response` copies of it. The
instance is as good as a zeroed one exactly when the last response is `Forgettable`
(`reinit_fresh_iff`).
-/

namespace Icap.BareMetal

open ByteMemory RingBuffer Transition

/-! ## Two instances -/

inductive Observation where
  | event (e : Event)
  /-- `icap_wait_for_response` copies `n` bytes to a `response` of fewer bytes. -/
  | overrun (n : Nat)

/-- What a copy to `*response` shows: nothing, as long as it stays inside. -/
def overrun : Option (List Byte) → Option Observation
  | none => none
  | some bytes => if sizeofIcapMsg < bytes.length then some (.overrun bytes.length) else none

/-- Return values, callback invocations, sent frames, and copies that overrun their
destination. -/
def Event.visible : Event → Option Observation
  | .put msg ret => some (.event (.put msg ret))
  | .invoked c => some (.event (.invoked c))
  | .sent rpmsgInstance rpmsgEpt remoteAddr frame =>
      some (.event (.sent rpmsgInstance rpmsgEpt remoteAddr frame))
  | .returned c r => some (.event (.returned c r))
  | .loopReturned ret => some (.event (.loopReturned ret))
  | .lifecycle ret => some (.event (.lifecycle ret))
  | .answered _ _ copied => overrun copied
  | .parsed _ | .released _ | .stored _ | .timedOut _ => none

/-- The program has called `icap_application_deinit` and then `icap_application_init`. -/
def afterReinit (s : State) (name : Nat) (cb : CallbackTable) (priv : Nat) : State :=
  ⟨(icapApplicationInit bareMetal (icapApplicationDeinit bareMetal s.icap).1 name (some cb)
    priv).1, s.stack⟩

/-- The program has called `icap_application_init` on a zeroed instance with the same
rpmsg-lite pointers. -/
def afterInit (s : State) (name : Nat) (cb : CallbackTable) (priv : Nat) : State :=
  ⟨(icapApplicationInit bareMetal (zeroedInstance s.icap.transport.rpmsgInstance
    s.icap.transport.rpmsgEpt) name (some cb) priv).1, s.stack⟩

/-- No function returns the payload of a response with this length. -/
def Unread (m : IcapMsg) : Prop := m.payloadLen ≠ 4 ∧ m.payloadLen ≠ 28

/-- The three high bytes of the length are zero, so that a copy of the response fits, also once
the lowest byte is overwritten. -/
def Refused (m : IcapMsg) : Prop := Unread m ∧ m.payloadLen.toNat < 2 ^ 8

/-- The last response answers no call but with what zeroed memory would. -/
structure Forgettable (m : IcapMsg) : Prop where
  seqNum : m.seqNum = 0
  payload : m.payloadU32 = 0
  length : Refused m
  type : m.type.toNat < 2 ^ 8 ∧ m.type ≠ ICAP_NAK

/-! ## What can be observed of the last response -/

/-- Nothing that can be observed differs. A short response overwrites a part of the memory only,
so this is a relation on single bytes. -/
structure Alike (m m' : IcapMsg) : Prop where
  seqNum : ∀ i, 4 ≤ i → i < 8 → m i = m' i
  nak : m 12 = 2 ↔ m' 12 = 2
  type : ∀ i, 13 ≤ i → i < 16 → m i = m' i
  payload : ∀ i, 40 ≤ i → i < 44 → m i = m' i
  lengthHigh : ∀ i, 37 ≤ i → i < 40 → m i = m' i
  length : m 36 = m' 36 ∨ Refused m ∧ Refused m'
  features : m.payloadLen = 28 → ∀ i, 40 ≤ i → i < 68 → m i = m' i

section

variable {m m' r : IcapMsg}

theorem Unread.of_length (h : Unread m) (hlen : m'.payloadLen = m.payloadLen) : Unread m' := by
  rw [Unread, hlen]
  exact h

theorem Refused.of_length (h : Refused m) (hlen : m'.payloadLen = m.payloadLen) : Refused m' := by
  rw [Refused, hlen]
  exact ⟨h.1.of_length hlen, h.2⟩

/-- A copy of a refused response covers the header and fits. -/
theorem Refused.totalLen_toNat (h : Refused m) :
    m.totalLen.toNat = 40 + m.payloadLen.toNat := by
  have hlen := IcapMsg.totalLen_toNat m
  have hlt := h.2
  omega

/-- A copy that ends inside the length field brings a first byte with which no function returns
the payload. -/
theorem unread_of_short (hlow : 36 < r.totalLen.toNat) (hhigh : r.totalLen.toNat < 40)
    (hbyte : m 36 = r 36) : Unread m := by
  have hr := load32_low r 36
  have hm := load32_low m 36
  have hlt := r.payloadLen.isLt
  have hlt' := m.payloadLen.isLt
  rw [hbyte, ← hr] at hm
  have hm' : m.payloadLen.toNat % 2 ^ 8 = r.payloadLen.toNat % 2 ^ 8 := hm
  rw [IcapMsg.totalLen_toNat] at hlow hhigh
  constructor
  · intro h
    rw [h] at hm'
    have h4 : (4 : U32).toNat = 4 := rfl
    omega
  · intro h
    rw [h] at hm'
    have h28 : (28 : U32).toNat = 28 := rfl
    omega

/-- A copy that does not reach the length. -/
theorem payloadLen_copy_le {n : Nat} (hn : n ≤ 36) (dst src : IcapMsg) :
    IcapMsg.payloadLen (copy dst src n) = dst.payloadLen :=
  load32_congr fun i _ => if_neg (by omega)

/-- A copy that covers the header. -/
theorem payloadLen_copy_ge {n : Nat} (hn : 40 ≤ n) (dst src : IcapMsg) :
    IcapMsg.payloadLen (copy dst src n) = src.payloadLen :=
  load32_copy hn

theorem copy_same {i n : Nat} (h : m i = m' i) : copy m r n i = copy m' r n i := by
  unfold copy
  split_ifs
  · rfl
  · exact h

theorem Alike.copy (h : Alike m m') :
    Alike (copy m r r.totalLen.toNat) (copy m' r r.totalLen.toNat) := by
  generalize hn : r.totalLen.toNat = n
  have hcopy (i : Nat) (hi : i < n) : ByteMemory.copy m r n i = ByteMemory.copy m' r n i := by
    rw [copy_lt hi, copy_lt hi]
  refine ⟨?_, ?_, ?_, ?_, ?_, ?_, ?_⟩
  · intro i h1 h2
    exact copy_same (h.seqNum i h1 h2)
  · unfold ByteMemory.copy
    split_ifs
    · exact Iff.rfl
    · exact h.nak
  · intro i h1 h2
    exact copy_same (h.type i h1 h2)
  · intro i h1 h2
    exact copy_same (h.payload i h1 h2)
  · intro i h1 h2
    exact copy_same (h.lengthHigh i h1 h2)
  -- the lowest byte of the length is kept or overwritten
  · by_cases hlow : n ≤ 36
    · rcases h.length with heq | ⟨hr, hr'⟩
      · exact Or.inl (copy_same heq)
      · exact Or.inr ⟨hr.of_length (payloadLen_copy_le hlow _ _),
          hr'.of_length (payloadLen_copy_le hlow _ _)⟩
    · exact Or.inl (hcopy 36 (by omega))
  · intro hlen i h1 h2
    by_cases hlow : n ≤ 36
    · rw [payloadLen_copy_le hlow] at hlen
      exact copy_same (h.features hlen i h1 h2)
    · by_cases hhigh : n < 40
      · have hcut : Unread (ByteMemory.copy m r n) :=
          unread_of_short (r := r) (by omega) (by omega) (copy_lt (by omega))
        exact absurd hlen hcut.2
      · -- the payload of the response is 28 bytes long
        rw [payloadLen_copy_ge (by omega)] at hlen
        rw [IcapMsg.totalLen_toNat, hlen, show (28 : U32).toNat = 28 from rfl] at hn
        exact hcopy i (by omega)

/-! ## Answers -/

theorem Alike.seqNum_eq (h : Alike m m') : m.seqNum = m'.seqNum :=
  load32_congr fun i hi => h.seqNum (4 + i) (by omega) (by omega)

theorem Alike.payloadU32_eq (h : Alike m m') : m.payloadU32 = m'.payloadU32 :=
  load32_congr fun i hi => h.payload (40 + i) (by omega) (by omega)

theorem type_nak_iff (m : IcapMsg) :
    m.type = ICAP_NAK ↔ m 12 = 2 ∧ m 13 = 0 ∧ m 14 = 0 ∧ m 15 = 0 := by
  have h0 := (m 12).isLt
  have h1 := (m 13).isLt
  have h2 := (m 14).isLt
  have h3 := (m 15).isLt
  have htype : m.type.toNat = (m 12).toNat + 2 ^ 8 * (m 13).toNat + 2 ^ 16 * (m 14).toNat
      + 2 ^ 24 * (m 15).toNat := load32_toNat m 12
  have hnak : ICAP_NAK.toNat = 2 := rfl
  have htwo : (2 : Byte).toNat = 2 := rfl
  have hzero : (0 : Byte).toNat = 0 := rfl
  simp only [← BitVec.toNat_inj, hnak, htype, htwo, hzero]
  omega

theorem Alike.nak_iff (h : Alike m m') : m.type = ICAP_NAK ↔ m'.type = ICAP_NAK := by
  rw [type_nak_iff, type_nak_iff, h.nak, h.type 13 (by omega) (by omega),
    h.type 14 (by omega) (by omega), h.type 15 (by omega) (by omega)]

theorem Alike.responseRet_eq (h : Alike m m') : responseRet m = responseRet m' := by
  unfold responseRet
  rw [h.payloadU32_eq]
  by_cases hm : m.type = ICAP_NAK
  · rw [if_pos hm, if_pos (h.nak_iff.mp hm)]
  · rw [if_neg hm, if_neg fun hm' => hm (h.nak_iff.mpr hm')]

/-- Every API function returns the same for the two responses. -/
structure SameAnswer (m m' : IcapMsg) : Prop where
  ident : m.payloadLen = 4 ↔ m'.payloadLen = 4
  features : m.payloadLen = 28 ↔ m'.payloadLen = 28
  payloadU32 : m.payloadLen = 4 → m.payloadU32 = m'.payloadU32
  payloadStruct : m.payloadLen = 28 → m.payloadStruct 28 = m'.payloadStruct 28

theorem SameAnswer.refl (m : IcapMsg) : SameAnswer m m :=
  ⟨Iff.rfl, Iff.rfl, fun _ => rfl, fun _ => rfl⟩

theorem sameAnswer_of_unread (h : Unread m) (h' : Unread m') : SameAnswer m m' :=
  ⟨⟨fun h4 => absurd h4 h.1, fun h4 => absurd h4 h'.1⟩,
    ⟨fun h28 => absurd h28 h.2, fun h28 => absurd h28 h'.2⟩,
    fun h4 => absurd h4 h.1, fun h28 => absurd h28 h.2⟩

theorem finish_congr (h : SameAnswer m m') (c : ApiCall) (ret : U32) :
    c.finish ret m = c.finish ret m' := by
  have hident (ret : U32) :
      (if ret ≠ 0 then (⟨ret, none⟩ : CallResult)
        else if m.payloadLen ≠ 4 then ⟨-ICAP_ERROR_MSG_LEN, none⟩ else ⟨m.payloadU32, none⟩)
      = if ret ≠ 0 then ⟨ret, none⟩
        else if m'.payloadLen ≠ 4 then ⟨-ICAP_ERROR_MSG_LEN, none⟩ else ⟨m'.payloadU32, none⟩ := by
    by_cases h4 : m.payloadLen = 4
    · rw [if_neg (not_not_intro h4), if_neg (not_not_intro (h.ident.mp h4)), h.payloadU32 h4]
    · rw [if_pos h4, if_pos fun h4' => h4 (h.ident.mpr h4')]
  -- the functions that return data check the length of the payload first
  cases c with
  | getSubdevices => exact hident ret
  | addSrc buf =>
      cases buf with
      | none => rfl
      | some b => exact hident ret
  | addDst buf =>
      cases buf with
      | none => rfl
      | some b => exact hident ret
  | getSubdeviceFeatures subdevId features =>
      cases features with
      | false => rfl
      | true =>
          simp only [ApiCall.finish, ApiCall.call, icapGetSubdeviceFeatures, Bool.not_true,
            Bool.false_eq_true, if_false]
          by_cases h28 : m.payloadLen = 28
          · rw [if_neg (not_not_intro h28), if_neg (not_not_intro (h.features.mp h28)),
              h.payloadStruct h28]
          · rw [if_pos h28, if_pos fun h28' => h28 (h.features.mpr h28')]
  | subdeviceInit arg | frags arg | fragReady arg | xrun arg => cases arg <;> rfl
  | subdeviceDeinit _ | removeSrc _ | removeDst _ | start _ | stop _ | pause _ | resume _
  | error _ => rfl

theorem Refused.copy (h : Refused m) (u : Mem) :
    Unread (ByteMemory.copy u m m.totalLen.toNat) := by
  have htotal := h.totalLen_toNat
  exact h.1.of_length (payloadLen_copy_ge (by omega) _ _)

/-- The lengths are equal, or no function returns either payload. -/
theorem Alike.payloadLen_eq (h : Alike m m') :
    m.payloadLen = m'.payloadLen ∨ Refused m ∧ Refused m' := by
  refine h.length.imp_left fun hlow => load32_congr fun i hi => ?_
  rcases Nat.eq_zero_or_pos i with rfl | hpos
  · exact hlow
  · exact h.lengthHigh (36 + i) (by omega) (by omega)

theorem Alike.sameAnswer (h : Alike m m') (u : Mem) :
    SameAnswer (ByteMemory.copy u m m.totalLen.toNat) (ByteMemory.copy u m' m'.totalLen.toNat) := by
  rcases h.payloadLen_eq with hlen | ⟨hm, hm'⟩
  · have htotal : m'.totalLen.toNat = m.totalLen.toNat := by
      rw [IcapMsg.totalLen_toNat, IcapMsg.totalLen_toNat, hlen]
    rw [htotal]
    by_cases hlow : m.totalLen.toNat ≤ 36
    · -- nothing of the payload is copied
      have hkeep (i : Nat) (hi : 36 ≤ i) : ByteMemory.copy u m m.totalLen.toNat i
          = ByteMemory.copy u m' m.totalLen.toNat i := by
        unfold ByteMemory.copy
        rw [if_neg (by omega), if_neg (by omega)]
      have hsame : IcapMsg.payloadLen (ByteMemory.copy u m m.totalLen.toNat)
          = IcapMsg.payloadLen (ByteMemory.copy u m' m.totalLen.toNat) :=
        load32_congr fun i _ => hkeep (36 + i) (by omega)
      refine ⟨by rw [hsame], by rw [hsame], fun _ => ?_, fun _ => ?_⟩
      · exact load32_congr fun i _ => hkeep (40 + i) (by omega)
      · apply Vector.ext
        intro i hi
        simp only [IcapMsg.payloadStruct, Vector.getElem_ofFn]
        exact hkeep _ (by simp only [sizeofIcapMsgHeader]; omega)
    · by_cases hhigh : m.totalLen.toNat < 40
      · exact sameAnswer_of_unread (unread_of_short (by omega) hhigh (copy_lt (by omega)))
          (unread_of_short (r := m') (by omega) (by omega) (copy_lt (by omega)))
      -- the whole header is copied, so the length decides how much of the payload is
      · have hcopy (n : IcapMsg) : IcapMsg.payloadLen (ByteMemory.copy u n m.totalLen.toNat)
            = n.payloadLen := payloadLen_copy_ge (by omega) _ _
        refine ⟨by rw [hcopy, hcopy, hlen], by rw [hcopy, hcopy, hlen], fun h4 => ?_, fun h28 => ?_⟩
        · rw [hcopy] at h4
          have hn := IcapMsg.totalLen_toNat m
          rw [h4, show (4 : U32).toNat = 4 from rfl] at hn
          refine load32_congr fun i hi => ?_
          have hi' : sizeofIcapMsgHeader + i < m.totalLen.toNat := by
            simp only [sizeofIcapMsgHeader]
            omega
          rw [copy_lt hi', copy_lt hi']
          exact h.payload _ (by simp only [sizeofIcapMsgHeader]; omega)
            (by simp only [sizeofIcapMsgHeader]; omega)
        · rw [hcopy] at h28
          have hn := IcapMsg.totalLen_toNat m
          rw [h28, show (28 : U32).toNat = 28 from rfl] at hn
          apply Vector.ext
          intro i hi
          have hi' : sizeofIcapMsgHeader + i < m.totalLen.toNat := by
            simp only [sizeofIcapMsgHeader]
            omega
          simp only [IcapMsg.payloadStruct, Vector.getElem_ofFn]
          rw [copy_lt hi', copy_lt hi']
          exact h.features h28 _ (by simp only [sizeofIcapMsgHeader]; omega)
            (by simp only [sizeofIcapMsgHeader]; omega)
  · exact sameAnswer_of_unread (hm.copy u) (hm'.copy u)

/-- A wait that is answered returns the same. -/
theorem Alike.result_eq (h : Alike m m') (w : Wait) : w.result m = w.result m' := by
  rw [Wait.result, Wait.result, h.responseRet_eq]
  refine finish_congr ?_ w.call _
  unfold responseCopy
  by_cases hm : m.type = ICAP_NAK
  · rw [if_pos hm, if_pos (h.nak_iff.mp hm)]
    exact .refl _
  · rw [if_neg hm, if_neg fun hm' => hm (h.nak_iff.mpr hm')]
    exact h.sameAnswer w.response

/-- The two waits copy the same number of bytes, or both copies fit. -/
theorem Alike.overrun_eq (h : Alike m m') (w : Wait) :
    overrun (w.copied m) = overrun (w.copied m') := by
  unfold Wait.copied
  by_cases hnone : m.type = ICAP_NAK ∨ w.call.wantsResponse = false
  · rw [if_pos hnone, if_pos (hnone.imp_left h.nak_iff.mp)]
  · rw [if_neg hnone, if_neg fun hnone' => hnone (hnone'.imp_left h.nak_iff.mpr)]
    simp only [overrun, block_length]
    rcases h.payloadLen_eq with hlen | ⟨hm, hm'⟩
    · rw [IcapMsg.totalLen, IcapMsg.totalLen, hlen]
    · have htotal := hm.totalLen_toNat
      have htotal' := hm'.totalLen_toNat
      have hlt := hm.2
      have hlt' := hm'.2
      have hsizeof : sizeofIcapMsg = 304 := rfl
      rw [if_neg (by omega), if_neg (by omega)]

/-- What is visible of a wait that is answered. -/
def Wait.shows (w : Wait) (last : IcapMsg) : List Observation :=
  (overrun (w.copied last)).toList ++ [.event (.returned w.call (w.result last))]

theorem Wait.visible_answered (w : Wait) (last : IcapMsg) :
    [Event.answered w.seqNum (responseRet last) (w.copied last),
      .returned w.call (w.result last)].filterMap Event.visible = w.shows last := by
  rw [Wait.shows, List.filterMap_cons]
  cases hover : (overrun (w.copied last)) with
  | none => simp only [Event.visible, hover, Option.toList_none]; rfl
  | some o => simp only [Event.visible, hover, Option.toList_some]; rfl

/-- The rest of the pass that stores the response is not visible. -/
theorem Wait.visible_loopEnd (w : Wait) (msg : IcapRemoteMsg) (r : IcapMsg) (addr : Nat)
    (last : IcapMsg) :
    [Event.parsed msg, .stored r, .released addr,
      .answered w.seqNum (responseRet last) (w.copied last),
      .returned w.call (w.result last)].filterMap Event.visible = w.shows last :=
  w.visible_answered last

theorem Alike.shows_eq (h : Alike m m') (w : Wait) : w.shows m = w.shows m' := by
  rw [Wait.shows, Wait.shows, h.overrun_eq, h.result_eq]

end

/-! ## Runs that differ in the last response -/

def withLast (icap : Instance) (m : IcapMsg) : Instance :=
  { icap with transport := { icap.transport with lastResponse := m } }

/-- The same functions run on two instances that differ in the last response, alike. -/
inductive AlikeState : State → State → Prop
  | mk (icap : Instance) (m : IcapMsg) (stack : List Activation)
      (h : Alike icap.transport.lastResponse m) : AlikeState ⟨icap, stack⟩ ⟨withLast icap m, stack⟩

/-- Two results of a function whose states are alike and whose events look the same. -/
def AlikeRun (r r' : State × List Event) : Prop :=
  AlikeState r.1 r'.1 ∧ r.2.filterMap Event.visible = r'.2.filterMap Event.visible

section

variable {icap : Instance} {m : IcapMsg}

theorem AlikeRun.append {r r' : State × List Event} (h : AlikeRun r r') (ev₀ ev₀' : List Event)
    (hev : ev₀.filterMap Event.visible = ev₀'.filterMap Event.visible) :
    AlikeRun (r.1, ev₀ ++ r.2) (r'.1, ev₀' ++ r'.2) := by
  refine ⟨h.1, ?_⟩
  simp only [List.filterMap_append, hev, h.2]

theorem loopReturn_alike (h : Alike icap.transport.lastResponse m) (ret : U32)
    (stack : List Activation) :
    AlikeRun (loopReturn icap ret stack) (loopReturn (withLast icap m) ret stack) := by
  rcases loopReturn_cases icap ret stack with
    ⟨w, rest, rfl, hseq, hr⟩ | ⟨w, rest, rfl, hseq, hr⟩ | ⟨hnot, hr⟩
  · have hseq' : (withLast icap m).transport.lastResponse.seqNum = w.seqNum :=
      h.seqNum_eq.symm.trans hseq
    rw [hr, loopReturn_answered hseq']
    refine ⟨.mk _ _ rest h, ?_⟩
    rw [w.visible_answered, w.visible_answered]
    exact h.shows_eq w
  · have hseq' : (withLast icap m).transport.lastResponse.seqNum ≠ w.seqNum :=
      fun heq => hseq (h.seqNum_eq.trans heq)
    rw [hr, loopReturn_waiting hseq']
    exact ⟨.mk _ _ _ h, rfl⟩
  · have hr' : loopReturn (withLast icap m) ret stack
        = (⟨withLast icap m, stack⟩, [.loopReturned ret]) := by
      rcases loopReturn_cases (withLast icap m) ret stack with
        ⟨w, rest, hw, -⟩ | ⟨w, rest, hw, -⟩ | ⟨-, hr'⟩
      · exact absurd hw (hnot w rest)
      · exact absurd hw (hnot w rest)
      · exact hr'
    rw [hr, hr']
    exact ⟨.mk _ _ _ h, rfl⟩

theorem loopEnd_alike (h : Alike icap.transport.lastResponse m) (tailNext : Nat) (ret : U32)
    (stack : List Activation) :
    AlikeRun (loopEnd icap tailNext ret stack) (loopEnd (withLast icap m) tailNext ret stack) := by
  have hret := @loopReturn_alike (setTail icap tailNext) m h ret stack
  exact hret.append [.released _] [.released _] rfl

/-- Where a handler stops does not depend on the last response, nor do its visible events. -/
theorem runParse_alike (sendRet : U32) {t : IcapTransport} {m : IcapMsg}
    (h : Alike t.lastResponse m) (p : Parse U32) :
    ∃ m', (runParse sendRet { t with lastResponse := m } p).1
        = { (runParse sendRet t p).1 with lastResponse := m' } ∧
      Alike (runParse sendRet t p).1.lastResponse m' ∧
      (runParse sendRet t p).2.1.filterMap Event.visible
        = (runParse sendRet { t with lastResponse := m } p).2.1.filterMap Event.visible ∧
      (runParse sendRet t p).2.2 = (runParse sendRet { t with lastResponse := m } p).2.2 := by
  induction p generalizing t m with
  | done ret => exact ⟨m, rfl, h, rfl, rfl⟩
  | callback c k _ => exact ⟨m, rfl, h, rfl, rfl⟩
  | sendPlatform frame k ih =>
      obtain ⟨m', h1, h2, h3, h4⟩ := ih sendRet h
      refine ⟨m', h1, h2, ?_, h4⟩
      exact congrArg (.event (icapSendPlatform t frame) :: ·) h3
  -- a response is copied over both last responses
  | responseNotify response k ih =>
      obtain ⟨m', h1, h2, h3, h4⟩ := ih 0 (t := (icapResponseNotify t response).1)
        (h.copy (r := response))
      exact ⟨m', h1, h2, h3, h4⟩

theorem loopParse_alike (h : Alike icap.transport.lastResponse m) (tailNext : Nat) (sendRet : U32)
    (stack : List Activation) (p : Parse U32) :
    AlikeRun (loopParse icap tailNext sendRet stack p)
      (loopParse (withLast icap m) tailNext sendRet stack p) := by
  obtain ⟨m', h1, h2, h3, h4⟩ := runParse_alike sendRet h p
  unfold loopParse
  rw [show (withLast icap m).transport = { icap.transport with lastResponse := m } from rfl]
  rcases hrun : runParse sendRet icap.transport p with ⟨t, ev, progress⟩
  rcases hrun' : runParse sendRet { icap.transport with lastResponse := m } p with
    ⟨t', ev', progress'⟩
  rw [hrun, hrun'] at h1 h3 h4
  rw [hrun] at h2
  simp only at h1 h2 h3 h4
  subst h1 h4
  cases progress with
  | callback k => exact ⟨.mk { icap with transport := t } _ _ h2, h3⟩
  | done ret =>
      have hend := @loopEnd_alike { icap with transport := t } m' h2 tailNext ret stack
      exact hend.append _ _ h3

theorem icapVerifyRemote_withLast (t : IcapTransport) (m : IcapMsg) (srcAddr : U32) :
    icapVerifyRemote { t with lastResponse := m } srcAddr
      = ({ (icapVerifyRemote t srcAddr).1 with lastResponse := m },
        (icapVerifyRemote t srcAddr).2) := by
  unfold icapVerifyRemote
  split_ifs <;> rfl

/-- Parsing does not read the last response. -/
theorem icapParseMsg_withLast (icap : Instance) (m : IcapMsg) (srcAddr : U32) (msg : IcapMsg)
    (size : U32) :
    icapParseMsg bareMetal (withLast icap m) srcAddr msg size
      = (withLast (icapParseMsg bareMetal icap srcAddr msg size).1 m,
        (icapParseMsg bareMetal icap srcAddr msg size).2) :=
  icapParseMsg_map (P := bareMetal) (fun t => icapVerifyRemote_withLast t m) icap srcAddr msg size

theorem icapLoop_alike {Q : Nat} (h : Alike icap.transport.lastResponse m) (sendRet : U32)
    (stack : List Activation) :
    AlikeRun (icapLoop Q icap sendRet stack) (icapLoop Q (withLast icap m) sendRet stack) := by
  by_cases hne : icap.transport.msgFifo.tail = icap.transport.msgFifo.head
  · have hne' : (withLast icap m).transport.msgFifo.tail
        = (withLast icap m).transport.msgFifo.head := hne
    rw [icapLoop_empty hne, icapLoop_empty hne']
    exact loopReturn_alike h 0 stack
  · obtain ⟨msg, hmsg⟩ : ∃ msg, msg
        = icap.transport.msgFifo.slot (indexNext Q icap.transport.msgFifo.tail) := ⟨_, rfl⟩
    obtain ⟨a, ha⟩ := icapParseMsg_eq icap msg.srcAddr msg.data.mem msg.size
    rcases hp : icapParseMsg bareMetal icap msg.srcAddr msg.data.mem msg.size with ⟨icap', p⟩
    have hp' := icapParseMsg_withLast icap m msg.srcAddr msg.data.mem msg.size
    rw [hp] at ha hp'
    rw [icapLoop_parse hne hmsg hp,
      @icapLoop_parse Q (withLast icap m) _ sendRet stack _ msg hne hmsg hp']
    have hlast : Alike icap'.transport.lastResponse m := by
      rw [show icap' = _ from ha]
      exact h
    have hparse := loopParse_alike hlast (indexNext Q icap.transport.msgFifo.tail) sendRet stack p
    exact hparse.append [.parsed msg] [.parsed msg] rfl

theorem icapPutMsg_withLast (Q : Nat) (icap : Instance) (m : IcapMsg) (msg : IcapRemoteMsg) :
    icapPutMsg Q (withLast icap m) msg
      = (withLast (icapPutMsg Q icap msg).1 m, (icapPutMsg Q icap msg).2) := by
  unfold icapPutMsg
  rw [show (withLast icap m).callbacks = icap.callbacks from rfl,
    show (withLast icap m).transport.msgFifo = icap.transport.msgFifo from rfl]
  simp only
  split_ifs <;> rfl

/-- No init and no deinit touches the last response. -/
theorem lifecycle_withLast (icap : Instance) (m : IcapMsg) (name priv : Nat)
    (cb : Option CallbackTable) :
    icapApplicationInit bareMetal (withLast icap m) name cb priv
        = (withLast (icapApplicationInit bareMetal icap name cb priv).1 m,
          (icapApplicationInit bareMetal icap name cb priv).2) ∧
      icapApplicationDeinit bareMetal (withLast icap m)
        = (withLast (icapApplicationDeinit bareMetal icap).1 m,
          (icapApplicationDeinit bareMetal icap).2) ∧
      icapDeviceInit bareMetal (withLast icap m) name cb priv
        = (withLast (icapDeviceInit bareMetal icap name cb priv).1 m,
          (icapDeviceInit bareMetal icap name cb priv).2) ∧
      icapDeviceDeinit bareMetal (withLast icap m)
        = (withLast (icapDeviceDeinit bareMetal icap).1 m,
          (icapDeviceDeinit bareMetal icap).2) := by
  have hcb : (withLast icap m).callbacks = icap.callbacks := rfl
  refine ⟨?_, ?_, ?_, ?_⟩
  · cases cb with
    | none => rfl
    | some cb =>
        simp only [icapApplicationInit, hcb]
        split_ifs <;> rfl
  · simp only [icapApplicationDeinit, hcb]
    split_ifs <;> rfl
  · cases cb <;> rfl
  · simp only [icapDeviceDeinit, hcb]
    split_ifs <;> rfl

theorem startCall_alike (h : Alike icap.transport.lastResponse m) (c : ApiCall)
    (now sendRet : U32) (uninit : Mem) (stack : List Activation) :
    AlikeRun (startCall icap c now sendRet uninit stack)
      (startCall (withLast icap m) c now sendRet uninit stack) := by
  unfold startCall
  cases c.call with
  | done r => exact ⟨.mk _ _ _ h, rfl⟩
  | sendMsg cmd data sync wants k =>
      simp only
      cases icapSendMsgPayload data with
      | none => exact ⟨.mk _ _ _ h, rfl⟩
      | some payload =>
          have hsent : AlikeState ⟨(icapSendMsgSeqNum icap).1, stack⟩
              ⟨(icapSendMsgSeqNum (withLast icap m)).1, stack⟩ :=
            .mk (icapSendMsgSeqNum icap).1 m stack h
          cases sync with
          | false => exact ⟨hsent, rfl⟩
          | true => exact ⟨.mk (icapSendMsgSeqNum icap).1 m _ h, rfl⟩

/-- Both have no step, or both have one and the results are alike. -/
def AlikeStep (o o' : Option (State × List Event)) : Prop :=
  (o = none ∧ o' = none) ∨ ∃ r r', o = some r ∧ o' = some r' ∧ AlikeRun r r'

theorem AlikeStep.of_run {r r' : State × List Event} (h : AlikeRun r r') :
    AlikeStep (some r) (some r') :=
  Or.inr ⟨r, r', rfl, rfl, h⟩

theorem AlikeStep.ite {o o' : Option (State × List Event)} (p : Bool) (h : AlikeStep o o') :
    AlikeStep (if p then o else none) (if p then o' else none) := by
  cases p
  · exact Or.inl ⟨rfl, rfl⟩
  · exact h

theorem lifecycleStep_alike (h : Alike icap.transport.lastResponse m) {stack : List Activation}
    {r r' : Instance × U32} (hlast : r.1.transport.lastResponse = icap.transport.lastResponse)
    (hr : r' = (withLast r.1 m, r.2)) :
    AlikeStep (lifecycleStep ⟨icap, stack⟩ r) (lifecycleStep ⟨withLast icap m, stack⟩ r') := by
  rw [← hlast] at h
  subst hr
  exact .ite _ (.of_run ⟨.mk _ _ stack h, rfl⟩)

theorem step_alike {Q : Nat} {s t : State} (h : AlikeState s t) (i : Input) :
    AlikeStep (step Q s i) (step Q t i) := by
  obtain ⟨icap, m, stack, hlast⟩ := h
  cases i with
  | putMsg msg =>
      have hput := icapPutMsg_withLast Q icap m msg
      have hlast' : Alike (icapPutMsg Q icap msg).1.transport.lastResponse m := by
        rw [icapPutMsg_last]
        exact hlast
      simp only [step, hput]
      exact .of_run ⟨.mk _ _ stack hlast', rfl⟩
  | applicationInit name cb priv =>
      refine lifecycleStep_alike hlast ?_ (lifecycle_withLast icap m name priv cb).1
      cases cb with
      | none => rfl
      | some cb => unfold icapApplicationInit; simp only; split_ifs <;> rfl
  | applicationDeinit =>
      refine lifecycleStep_alike hlast ?_ (lifecycle_withLast icap m 0 0 none).2.1
      unfold icapApplicationDeinit
      split_ifs <;> rfl
  | deviceInit name cb priv =>
      refine lifecycleStep_alike hlast ?_ (lifecycle_withLast icap m name priv cb).2.2.1
      cases cb <;> rfl
  | deviceDeinit =>
      refine lifecycleStep_alike hlast ?_ (lifecycle_withLast icap m 0 0 none).2.2.2
      unfold icapDeviceDeinit
      split_ifs <;> rfl
  | call c now sendRet uninit =>
      exact .ite _ (.of_run (startCall_alike hlast c now sendRet uninit stack))
  | loop sendRet => exact .ite _ (.of_run (icapLoop_alike hlast sendRet stack))
  | pass sendRet =>
      cases stack with
      | nil => exact Or.inl ⟨rfl, rfl⟩
      | cons a rest =>
          cases a with
          | poll w => exact .of_run (icapLoop_alike hlast sendRet _)
          | clock w => exact Or.inl ⟨rfl, rfl⟩
          | loop tailNext k => exact Or.inl ⟨rfl, rfl⟩
  | clock now =>
      cases stack with
      | nil => exact Or.inl ⟨rfl, rfl⟩
      | cons a rest =>
          cases a with
          | poll w => exact Or.inl ⟨rfl, rfl⟩
          | clock w =>
              simp only [step]
              split_ifs
              · exact .of_run ⟨.mk _ _ _ hlast, rfl⟩
              · exact .of_run ⟨.mk _ _ _ hlast, rfl⟩
          | loop tailNext k => exact Or.inl ⟨rfl, rfl⟩
  | callbackRet r sendRet =>
      cases stack with
      | nil => exact Or.inl ⟨rfl, rfl⟩
      | cons a rest =>
          cases a with
          | poll w => exact Or.inl ⟨rfl, rfl⟩
          | clock w => exact Or.inl ⟨rfl, rfl⟩
          | loop tailNext k => exact .of_run (loopParse_alike hlast tailNext sendRet rest (k r))

/-- Alike states let observe the same. -/
theorem observes_alike {Q : Nat} {s t : State} (h : AlikeState s t) (is : List Input) :
    (machine Q).observes Event.visible s is = (machine Q).observes Event.visible t is := by
  refine Machine.observes_eq_of_bisim h (fun s t i hst => ?_) is
  rcases step_alike (Q := Q) hst i with ⟨hs, ht⟩ | ⟨r, r', hs, ht, hstate, hev⟩
  · exact Or.inl ⟨hs, ht⟩
  · exact Or.inr ⟨r.1, r'.1, r.2, r'.2, hs, ht, hev, hstate⟩

end

/-! ## The two initialised instances -/

/-- An application in whose session `n` messages have been sent and none has arrived. -/
def session (s : State) (name : Nat) (cb : CallbackTable) (priv : Nat) (n : U32)
    (last : IcapMsg) : Instance where
  transport := ⟨s.icap.transport.rpmsgInstance, s.icap.transport.rpmsgEpt, -1, .zero, last⟩
  name := name
  type := .application
  priv := priv
  callbacks := some cb
  seqNum := n

theorem afterInit_eq (s : State) (name : Nat) (cb : CallbackTable) (priv : Nat) :
    afterInit s name cb priv = ⟨session s name cb priv 0 fun _ => 0, s.stack⟩ := rfl

/-- The last response is all that is left of the earlier session. -/
theorem afterReinit_eq (s : State) (name : Nat) (cb : CallbackTable) (priv : Nat) :
    afterReinit s name cb priv = ⟨session s name cb priv 0 s.lastResponse, s.stack⟩ := by
  have hdeinit : (icapApplicationDeinit bareMetal s.icap).1
      = { s.icap with callbacks := none } := by
    unfold icapApplicationDeinit
    cases hcb : s.icap.callbacks with
    | none =>
        simp only [Option.isNone_none, if_true]
        rw [← hcb]
    | some cb' => rfl
  rw [afterReinit, hdeinit]
  rfl

/-- A forgettable last response is like zeroed memory. -/
theorem Forgettable.alike {m : IcapMsg} (h : Forgettable m) : Alike (fun _ => 0) m where
  seqNum _ h1 h2 := (eq_zero_of_load32 h.seqNum h1 h2).symm
  nak := by
    have hbyte (i : Nat) (h1 : 12 < i) (h2 : i < 16) : m i = 0 :=
      eq_zero_of_load32_lt h.type.1 h1 h2
    constructor
    · intro htwo
      cases htwo
    · intro htwo
      exact absurd ((type_nak_iff m).mpr ⟨htwo, hbyte 13 (by omega) (by omega),
        hbyte 14 (by omega) (by omega), hbyte 15 (by omega) (by omega)⟩) h.type.2
  type _ h1 h2 := (eq_zero_of_load32_lt h.type.1 (by omega) h2).symm
  payload _ h1 h2 := (eq_zero_of_load32 h.payload h1 h2).symm
  lengthHigh _ h1 h2 := (eq_zero_of_load32_lt h.length.2 h1 h2).symm
  length := Or.inr ⟨⟨⟨by decide, by decide⟩, by decide⟩, h.length⟩
  features hlen := absurd hlen (by decide)

/-! ## What gives the last response away

A call that the last response answers at once, or a short response that makes the last response
the answer: it overwrites the seq_num, and of what comes after it no more than it has bytes. -/

/-- The header of a response to the first message, of a frame of `n < 40` bytes: the length field
behind its end makes the length check wrap. -/
def shortResponse (type : U32) (n : Nat) : IcapMsg :=
  ofList (word32 ICAP_PROTOCOL_VERSION ++ word32 1 ++ word32 0 ++ word32 type
    ++ List.replicate 20 0 ++ word32 (BitVec.ofNat 32 (2 ^ 32 - 40 + n)))

section

variable {Q : Nat} {s : State} {name : Nat} {cb : CallbackTable} {priv : Nat} {n : U32}
  {last : IcapMsg} {stack : List Activation} {c : ApiCall} {frame : List Byte}

theorem step_syncCall (hruns : programRuns stack = true) (hreq : c.request (n + 1) = some frame)
    (hsync : c.sync = true) (uninit : Mem) :
    step Q ⟨session s name cb priv n last, stack⟩ (.call c 0 0 uninit)
      = some (⟨session s name cb priv (n + 1) last, .poll ⟨c, n + 1, 0, uninit⟩ :: stack⟩,
        [icapSendPlatform (session s name cb priv n last).transport frame]) := by
  have hstep : step Q ⟨session s name cb priv n last, stack⟩ (.call c 0 0 uninit)
      = some (startCall (session s name cb priv n last) c 0 0 uninit stack) := if_pos hruns
  rw [hstep]
  rcases startCall_cases (session s name cb priv n last) c 0 0 uninit stack with
    ⟨hnone, -⟩ | ⟨frame', hreq', ⟨-, h⟩ | ⟨hasync, -⟩⟩
  · rw [show c.request (n + 1) = none from hnone] at hreq
    cases hreq
  · rw [show c.request (n + 1) = some frame' from hreq'] at hreq
    rw [h, Option.some.inj hreq]
    rfl
  · rw [hsync] at hasync
    cases hasync

theorem step_pass (Q : Nat) (stack : List Activation) (w : Wait) (icap : Instance) :
    step Q ⟨icap, .poll w :: stack⟩ (.pass 0) = some (icapLoop Q icap 0 (.poll w :: stack)) := rfl

theorem step_observes {s s' : State} {i : Input} {ev : List Event}
    (h : step Q s i = some (s', ev)) (is : List Input) :
    (machine Q).observes Event.visible s (i :: is)
      = ev.filterMap Event.visible ++ (machine Q).observes Event.visible s' is :=
  @Machine.observes_cons _ _ _ _ (machine Q) s Event.visible s' i ev h is

/-- A call whose `icap_loop` finds the fifo empty and the awaited response in place. -/
theorem observes_hit (hruns : programRuns stack = true) (hreq : c.request (n + 1) = some frame)
    (hsync : c.sync = true) (hseq : last.seqNum = n + 1) (uninit : Mem) :
    (machine Q).observes Event.visible ⟨session s name cb priv n last, stack⟩
        [.call c 0 0 uninit, .pass 0]
      = .event (icapSendPlatform (session s name cb priv n last).transport frame)
        :: Wait.shows ⟨c, n + 1, 0, uninit⟩ last := by
  have hpass := (step_pass Q stack ⟨c, n + 1, 0, uninit⟩
    (session s name cb priv (n + 1) last)).trans
    (congrArg some ((icapLoop_empty rfl).trans (loopReturn_answered hseq)))
  have hcall := @step_syncCall Q s name cb priv n last stack c frame hruns hreq hsync uninit
  rw [step_observes hcall, step_observes hpass, ← Wait.visible_answered]
  exact congrArg _ (List.append_nil _)

/-- A call whose `icap_loop` finds the fifo empty and that goes on to wait. -/
theorem observes_miss (hruns : programRuns stack = true) (hreq : c.request (n + 1) = some frame)
    (hsync : c.sync = true) (hseq : last.seqNum ≠ n + 1) (uninit : Mem) (is : List Input) :
    (machine Q).observes Event.visible ⟨session s name cb priv n last, stack⟩
        (.call c 0 0 uninit :: .pass 0 :: is)
      = .event (icapSendPlatform (session s name cb priv n last).transport frame) ::
        (machine Q).observes Event.visible ⟨session s name cb priv (n + 1) last,
          .clock ⟨c, n + 1, 0, uninit⟩ :: stack⟩ is := by
  have hpass := (step_pass Q stack ⟨c, n + 1, 0, uninit⟩
    (session s name cb priv (n + 1) last)).trans
    (congrArg some ((icapLoop_empty rfl).trans (loopReturn_waiting hseq)))
  have hcall := @step_syncCall Q s name cb priv n last stack c frame hruns hreq hsync uninit
  rw [step_observes hcall, step_observes hpass]
  rfl

theorem observes_timeout (is : List Input) :
    (machine Q).observes Event.visible ⟨session s name cb priv n last,
        .clock ⟨.pause 1, n, 0, fun _ => 0⟩ :: stack⟩ (.clock 600000 :: is)
      = .event (.returned (.pause 1) ⟨-ICAP_ERROR_TIMEOUT, none⟩) ::
        (machine Q).observes Event.visible ⟨session s name cb priv n last, stack⟩ is := by
  have hclock : ¬ (600000 : U32) - 0 < ICAP_MSG_TIMEOUT_US := by decide
  have hstep : step Q ⟨session s name cb priv n last,
      .clock ⟨.pause 1, n, 0, fun _ => 0⟩ :: stack⟩ (.clock 600000)
      = some (⟨session s name cb priv n last, stack⟩, [.timedOut n,
        .returned (.pause 1) ((ApiCall.pause 1).finish (-ICAP_ERROR_TIMEOUT) fun _ => 0)]) := by
    simp only [step, if_neg hclock]
  rw [step_observes hstep]
  rfl

/-- A session without messages from the peer, up to the answer that the last response gives. -/
def rounds : Nat → List Input
  | 0 => [.call (.pause 1) 0 0 fun _ => 0, .pass 0]
  | k + 1 => .call (.pause 1) 0 0 (fun _ => 0) :: .pass 0 :: .clock 600000 :: rounds k

/-- The last response answers the call with its seq_num. -/
theorem observes_rounds (hruns : programRuns stack = true) {k : Nat}
    (hseq : last.seqNum.toNat = n.toNat + k + 1) :
    (machine Q).observes Event.visible ⟨session s name cb priv n last, stack⟩ (rounds k)
      ≠ (machine Q).observes Event.visible ⟨session s name cb priv n fun _ => 0, stack⟩
        (rounds k) := by
  have hlt := last.seqNum.isLt
  induction k generalizing n with
  -- the fresh instance goes on to wait, so it shows no return
  | zero =>
      have hnext : (n + 1).toNat = n.toNat + 1 := toNat_add_one (by omega)
      have hhit : last.seqNum = n + 1 := BitVec.eq_of_toNat_eq (by omega)
      have hmiss : IcapMsg.seqNum (fun _ => 0) ≠ n + 1 := by
        intro h
        rw [← h] at hnext
        have hzero : (IcapMsg.seqNum fun _ => 0).toNat = 0 := by decide
        omega
      rw [rounds, observes_hit hruns rfl rfl hhit, observes_miss hruns rfl rfl hmiss]
      intro h
      exact absurd (List.append_eq_nil_iff.mp (List.cons.inj h).2).2 (List.cons_ne_nil _ _)
  -- both time out
  | succ k ih =>
      have hnext : (n + 1).toNat = n.toNat + 1 := toNat_add_one (by omega)
      have hmiss : last.seqNum ≠ n + 1 := by
        intro h
        rw [h] at hseq
        omega
      have hmiss' : IcapMsg.seqNum (fun _ => 0) ≠ n + 1 := by
        intro h
        rw [← h] at hnext
        have hzero : (IcapMsg.seqNum fun _ => 0).toNat = 0 := by decide
        omega
      rw [rounds, observes_miss hruns rfl rfl hmiss, observes_miss hruns rfl rfl hmiss',
        observes_timeout, observes_timeout]
      intro h
      exact ih (n := n + 1) (by omega) (List.cons.inj (List.cons.inj h).2).2

/-! ## A short response -/

/-- Types and sizes of the short responses that give a last response away. -/
def shortResponses : List (U32 × Nat) :=
  [(ICAP_NAK, 16), (ICAP_ACK, 16), (ICAP_ACK, 8), (ICAP_NAK, 13), (ICAP_ACK, 37), (ICAP_ACK, 38)]

theorem short_response : ∀ p ∈ shortResponses,
    (shortResponse p.1 p.2).protocolVersion = ICAP_PROTOCOL_VERSION ∧
      sizeMatches bareMetal (shortResponse p.1 p.2) (BitVec.ofNat 32 p.2) = true ∧
      IsResponse (shortResponse p.1 p.2) ∧ (shortResponse p.1 p.2).seqNum = 1 ∧
      (shortResponse p.1 p.2).type = p.1 ∧ (shortResponse p.1 p.2).totalLen.toNat = p.2 := by
  decide

/-- A short response in a receive buffer. -/
def shortMsg (type : U32) (k : Nat) : IcapRemoteMsg :=
  ⟨⟨4096, shortResponse type k⟩, BitVec.ofNat 32 k, 7⟩

/-- The session after its first message has arrived. -/
def sessionPut (s : State) (name : Nat) (cb : CallbackTable) (priv : Nat) (n : U32)
    (last : IcapMsg) (msg : IcapRemoteMsg) : Instance :=
  let icap := session s name cb priv n last
  { icap with transport := { icap.transport with
      msgFifo := { IcapMsgFifo.zero.write 1 msg with head := 1 } } }

theorem step_put (hQ : 2 ≤ Q) (msg : IcapRemoteMsg) :
    step Q ⟨session s name cb priv n last, stack⟩ (.putMsg msg)
      = some (⟨sessionPut s name cb priv n last msg, stack⟩, [.put msg .hold]) := by
  have hnext : indexNext Q 0 = 1 := if_neg (by omega)
  have hput : icapPutMsg Q (session s name cb priv n last) msg
      = (sessionPut s name cb priv n last msg, .hold) := by
    simp only [icapPutMsg, session, IcapMsgFifo.zero, hnext, Option.isNone_some,
      Bool.false_eq_true, if_false, Nat.one_ne_zero]
    rfl
  simp only [step, hput]

/-- The wait parses the short response and finds the last response to be the answer. -/
theorem step_pass_short {type : U32} {k : Nat}
    (hk : (type, k) ∈ shortResponses)
    (hQ : 2 ≤ Q) (w : Wait)
    (hseq : IcapMsg.seqNum (copy last (shortResponse type k) k) = w.seqNum) :
    ∃ s' ev, step Q ⟨sessionPut s name cb priv n last (shortMsg type k), .poll w :: stack⟩
        (.pass 0) = some (s', ev) ∧
      ev.filterMap Event.visible = w.shows (copy last (shortResponse type k) k) := by
  obtain ⟨hversion, hsize, hresponse, -, -, htotal⟩ := short_response _ hk
  have hnext : indexNext Q 0 = 1 := if_neg (by omega)
  have hparse : icapParseMsg bareMetal (sessionPut s name cb priv n last (shortMsg type k)) 7
      (shortResponse type k) (BitVec.ofNat 32 k)
      = ({ sessionPut s name cb priv n last (shortMsg type k) with
          transport := { (sessionPut s name cb priv n last (shortMsg type k)).transport with
            remoteAddr := 7 } }, .responseNotify (shortResponse type k) .done) := by
    have hresponse' : (shortResponse type k).type = ICAP_ACK
        ∨ (shortResponse type k).type = ICAP_NAK := hresponse
    simp only [icapParseMsg, sessionPut, session, hversion, ne_eq, not_true_eq_false, if_false,
      hsize, Bool.not_true, Bool.false_eq_true, if_pos hresponse']
    rfl
  have hloop := @icapLoop_parse Q (sessionPut s name cb priv n last (shortMsg type k)) _ 0
    (.poll w :: stack) _ (shortMsg type k)
    (by simp [sessionPut, session, IcapMsgFifo.zero, Ring.write])
    (by simp [sessionPut, session, IcapMsgFifo.zero, Ring.write, hnext]) hparse
  rw [loopParse_notify, loopEnd_answered] at hloop
  · refine ⟨_, _, (step_pass Q stack w _).trans (congrArg some hloop), ?_⟩
    have hcopy : copy last (shortResponse type k) k = copy last (shortResponse type k)
        (shortResponse type k).totalLen.toNat := congrArg _ htotal.symm
    rw [hcopy]
    exact w.visible_loopEnd (shortMsg type k) (shortResponse type k) _ _
  · rw [← hseq, htotal]
    rfl

/-- The first call of the session, answered by the last response with the beginning of a short
response. -/
theorem observes_short {type : U32} {k : Nat}
    (hk : (type, k) ∈ shortResponses)
    (hQ : 2 ≤ Q) (hruns : programRuns stack = true) (hreq : c.request 1 = some frame)
    (hsync : c.sync = true) (uninit : Mem) :
    (machine Q).observes Event.visible ⟨session s name cb priv 0 last, stack⟩
        [.call c 0 0 uninit, .putMsg (shortMsg type k), .pass 0]
      = .event (icapSendPlatform (session s name cb priv 0 last).transport frame)
        :: .event (.put (shortMsg type k) .hold)
        :: Wait.shows ⟨c, 1, 0, uninit⟩ (copy last (shortResponse type k) k) := by
  have hk8 : 8 ≤ k := by
    simp only [shortResponses, List.mem_cons, Prod.mk.injEq, List.not_mem_nil, or_false] at hk
    omega
  obtain ⟨-, -, -, hshort, -, -⟩ := short_response _ hk
  have hseq : IcapMsg.seqNum (copy last (shortResponse type k) k) = (1 : U32) := by
    rw [← hshort]
    exact load32_copy hk8
  have hcall := @step_syncCall Q s name cb priv 0 last stack c frame hruns hreq hsync uninit
  obtain ⟨s', ev, hpass, hev⟩ := @step_pass_short Q s name cb priv (0 + 1) last stack type k
    hk hQ ⟨c, 0 + 1, 0, uninit⟩ hseq
  rw [step_observes hcall, step_observes (step_put hQ _), step_observes hpass, hev]
  exact congrArg ([_, _] ++ ·) (List.append_nil _)

end

/-! ## Answers that differ -/

/-- An uninitialised `response` that holds a payload of one word, 7. -/
def seven : Mem := ofList (List.replicate 36 0 ++ word32 4 ++ word32 7)

section

variable {m : IcapMsg}

theorem payloadU32_copy_le {k : Nat} (hk : k ≤ 40) (dst src : IcapMsg) :
    IcapMsg.payloadU32 (copy dst src k) = dst.payloadU32 :=
  load32_congr fun i _ => if_neg (by simp only [sizeofIcapMsgHeader]; omega)

theorem type_copy_ge {k : Nat} (hk : 16 ≤ k) (dst src : IcapMsg) :
    IcapMsg.type (copy dst src k) = src.type :=
  load32_copy hk

/-- What `icap_get_subdevices` returns for a NAK without an error, out of memory that it has not
written. -/
theorem answer_nak (hnak : m.type = ICAP_NAK) (hpayload : m.payloadU32 = 0) :
    Wait.result ⟨.getSubdevices, 1, 0, seven⟩ m = ⟨7, none⟩ := by
  have hret : responseRet m = 0 := by rw [responseRet, if_pos hnak, hpayload]
  have hcopy : responseCopy m seven = seven := if_pos hnak
  have hseven : (ApiCall.getSubdevices).finish 0 seven = ⟨7, none⟩ := by decide
  rw [Wait.result, hret, hcopy]
  exact hseven

/-- What a call returns for an ACK. -/
theorem answer_ack (hnak : m.type ≠ ICAP_NAK) (c : ApiCall) (uninit : Mem) :
    Wait.result ⟨c, 1, 0, uninit⟩ m = c.finish 0 (copy uninit m m.totalLen.toNat) := by
  have hret : responseRet m = 0 := if_neg hnak
  have hcopy : responseCopy m uninit = copy uninit m m.totalLen.toNat := if_neg hnak
  rw [Wait.result, hret, hcopy]

/-- What `icap_get_subdevices` returns for an ACK of another length. -/
theorem answer_refused (hnak : m.type ≠ ICAP_NAK) (hlength : Refused m) (uninit : Mem) :
    Wait.result ⟨.getSubdevices, 1, 0, uninit⟩ m = ⟨-ICAP_ERROR_MSG_LEN, none⟩ := by
  have hlen : IcapMsg.payloadLen (copy uninit m m.totalLen.toNat) ≠ 4 := (hlength.copy uninit).1
  rw [answer_ack hnak]
  exact if_pos hlen

/-- What `icap_get_subdevice_features` returns for an ACK of another length. -/
theorem features_refused (hnak : m.type ≠ ICAP_NAK) (hlength : Refused m) (uninit : Mem) :
    Wait.result ⟨.getSubdeviceFeatures 0 true, 1, 0, uninit⟩ m = ⟨-ICAP_ERROR_MSG_LEN, none⟩ := by
  have hlen : IcapMsg.payloadLen (copy uninit m m.totalLen.toNat) ≠ 28 := (hlength.copy uninit).2
  rw [answer_ack hnak]
  exact if_pos hlen

/-- A response with the length of an answer. -/
theorem exists_length_ne {m' : IcapMsg} (hnak : m.type ≠ ICAP_NAK) (hpayload : m.payloadU32 = 0)
    (hlength : ¬ Unread m) (hnak' : m'.type ≠ ICAP_NAK) (hlength' : Refused m') :
    ∃ c : ApiCall, c.sync = true ∧ (c.request 1).isSome ∧ ∃ uninit,
      Wait.result ⟨c, 1, 0, uninit⟩ m ≠ Wait.result ⟨c, 1, 0, uninit⟩ m' := by
  by_cases h4 : m.payloadLen = 4
  -- the length of an answer to `icap_get_subdevices`
  · refine ⟨.getSubdevices, rfl, rfl, fun _ => 0, ?_⟩
    have htotal : m.totalLen.toNat = 44 := by
      rw [IcapMsg.totalLen_toNat, h4]
      rfl
    have hlen : IcapMsg.payloadLen (copy (fun _ => 0) m 44) = 4 :=
      (payloadLen_copy_ge (by omega) _ _).trans h4
    have hword : IcapMsg.payloadU32 (copy (fun _ => 0) m 44) = 0 :=
      (load32_copy (by decide)).trans hpayload
    have hret : (ApiCall.getSubdevices).finish 0 (copy (fun _ => 0) m 44) = ⟨0, none⟩ :=
      (if_neg (not_not_intro hlen)).trans (by rw [hword])
    rw [answer_refused hnak' hlength', answer_ack hnak, htotal, hret]
    decide
  -- the length of an answer to `icap_get_subdevice_features`
  · have h28 : m.payloadLen = 28 := by
      by_contra h28
      exact hlength ⟨h4, h28⟩
    refine ⟨.getSubdeviceFeatures 0 true, rfl, rfl, fun _ => 0, ?_⟩
    have htotal : m.totalLen.toNat = 68 := by
      rw [IcapMsg.totalLen_toNat, h28]
      rfl
    have hlen : IcapMsg.payloadLen (copy (fun _ => 0) m 68) = 28 :=
      (payloadLen_copy_ge (by omega) _ _).trans h28
    have hret : (ApiCall.getSubdeviceFeatures 0 true).finish 0 (copy (fun _ => 0) m 68)
        = ⟨0, some (IcapMsg.payloadStruct (copy (fun _ => 0) m 68) 28)⟩ :=
      if_neg (not_not_intro hlen)
    rw [features_refused hnak' hlength', answer_ack hnak, htotal, hret]
    intro heq
    cases (CallResult.mk.inj heq).2

/-- What the copy for `icap_get_subdevices` shows of an ACK. -/
theorem overrun_ack (hnak : m.type ≠ ICAP_NAK) (uninit : Mem) :
    overrun (Wait.copied ⟨.getSubdevices, 1, 0, uninit⟩ m)
      = if 304 < m.totalLen.toNat then some (.overrun m.totalLen.toNat) else none := by
  have hwanted : (ApiCall.getSubdevices).wantsResponse = true := rfl
  rw [Wait.copied_of_wanted hnak hwanted, overrun, block_length]
  rfl

end

theorem Wait.shows_inj {w : Wait} {m m' : IcapMsg} (h : w.shows m = w.shows m') :
    overrun (w.copied m) = overrun (w.copied m') ∧ w.result m = w.result m' := by
  obtain ⟨hover, hret⟩ := List.append_inj' h rfl
  refine ⟨by simpa using congrArg List.head? hover, ?_⟩
  exact (Event.returned.inj (Observation.event.inj (List.cons.inj hret).1)).2

/-- Some call shows something else with the last response than with zeroed memory, when the
short response `p` makes it the answer. -/
def GivesAway (last : IcapMsg) (p : U32 × Nat) : Prop :=
  ∃ c : ApiCall, c.sync = true ∧ (c.request 1).isSome ∧ ∃ uninit,
    Wait.shows ⟨c, 1, 0, uninit⟩ (copy last (shortResponse p.1 p.2) p.2)
      ≠ Wait.shows ⟨c, 1, 0, uninit⟩ (copy (fun _ => 0) (shortResponse p.1 p.2) p.2)

section

variable {last : IcapMsg}

theorem zero_refused : Refused fun _ => 0 := ⟨⟨by decide, by decide⟩, by decide⟩

/-- The response does not reach the type of the last response. -/
theorem givesAway_of_nak (hnak : last.type = ICAP_NAK) (hpayload : last.payloadU32 = 0) :
    GivesAway last (ICAP_ACK, 8) := by
  refine ⟨.getSubdevices, rfl, rfl, seven, fun h => absurd (Wait.shows_inj h).2 ?_⟩
  have htype (dst : IcapMsg) : IcapMsg.type (copy dst (shortResponse ICAP_ACK 8) 8) = dst.type :=
    load32_congr fun i _ => if_neg (by omega)
  rw [answer_nak ((htype last).trans hnak) ((payloadU32_copy_le (by omega) _ _).trans hpayload),
    answer_refused (by rw [htype]; decide)
      (zero_refused.of_length (payloadLen_copy_le (by omega) _ _))]
  decide

/-- The response overwrites the lowest byte of the type: with zeroed memory it makes a NAK. -/
theorem givesAway_of_type (htype : ¬ last.type.toNat < 2 ^ 8) (hlength : Refused last) :
    GivesAway last (ICAP_NAK, 13) := by
  refine ⟨.getSubdevices, rfl, rfl, seven, fun h => absurd (Wait.shows_inj h).2 ?_⟩
  have hack : IcapMsg.type (copy last (shortResponse ICAP_NAK 13) 13) ≠ ICAP_NAK := by
    intro heq
    obtain ⟨-, h13, h14, h15⟩ := (type_nak_iff _).mp heq
    have hbytes := load32_toNat last 12
    have hlow := (last 12).isLt
    rw [show last 13 = 0 from h13, show last 14 = 0 from h14, show last 15 = 0 from h15] at hbytes
    have hz : (0 : Byte).toNat = 0 := rfl
    rw [hz] at hbytes
    exact htype (by rw [IcapMsg.type]; omega)
  have hnak : IcapMsg.type (copy (fun _ => 0) (shortResponse ICAP_NAK 13) 13) = ICAP_NAK := by
    decide
  rw [answer_refused hack (hlength.of_length (payloadLen_copy_le (by omega) _ _)),
    answer_nak hnak ((payloadU32_copy_le (by omega) _ _).trans (by decide))]
  decide

/-- An ACK overwrites the type. -/
theorem type_copy_ack {k : Nat} (hk : (ICAP_ACK, k) ∈ shortResponses) (h16 : 16 ≤ k)
    (dst : IcapMsg) : IcapMsg.type (copy dst (shortResponse ICAP_ACK k) k) ≠ ICAP_NAK := by
  obtain ⟨-, -, -, -, htype, -⟩ := short_response _ hk
  rw [type_copy_ge h16, htype]
  exact (by decide : ICAP_ACK ≠ ICAP_NAK)

/-- The length of the last response is taken for that of an answer. -/
theorem givesAway_of_length (hpayload : last.payloadU32 = 0) (hlength : ¬ Unread last) :
    GivesAway last (ICAP_ACK, 16) := by
  have hack := @type_copy_ack 16 (by simp [shortResponses]) le_rfl
  have hkeep (dst : IcapMsg) : IcapMsg.payloadLen (copy dst (shortResponse ICAP_ACK 16) 16)
      = dst.payloadLen := payloadLen_copy_le (by omega) _ _
  obtain ⟨c, hsync, hsends, uninit, hne⟩ := exists_length_ne (hack last)
    ((payloadU32_copy_le (by omega) _ _).trans hpayload)
    (fun hr => hlength (hr.of_length (hkeep last).symm))
    (hack _) (zero_refused.of_length (hkeep _))
  exact ⟨c, hsync, hsends, uninit, fun h => hne (Wait.shows_inj h).2⟩

/-- The response ends inside the length of the last response, and the high bytes that are left
make the copy too long, or make it wrap where the one of zeroed memory is too long. -/
theorem givesAway_of_overrun (hlength : ¬ last.payloadLen.toNat < 2 ^ 8) :
    GivesAway last (ICAP_ACK, 37) ∨ GivesAway last (ICAP_ACK, 38) := by
  have hlast : last.payloadLen.toNat = (last 36).toNat + 2 ^ 8 * (last 37).toNat
      + 2 ^ 16 * (last 38).toNat + 2 ^ 24 * (last 39).toNat := load32_toNat last 36
  have h36 := (last 36).isLt
  have h37 := (last 37).isLt
  have h38 := (last 38).isLt
  have h39 := (last 39).isLt
  -- the three bytes that a response of 37 bytes leaves, and the two that one of 38 bytes leaves
  have hkeep37 (dst : IcapMsg) :
      (IcapMsg.payloadLen (copy dst (shortResponse ICAP_ACK 37) 37)).toNat
        = 253 + 2 ^ 8 * (dst 37).toNat + 2 ^ 16 * (dst 38).toNat + 2 ^ 24 * (dst 39).toNat :=
    load32_toNat _ 36
  have hkeep38 (dst : IcapMsg) :
      (IcapMsg.payloadLen (copy dst (shortResponse ICAP_ACK 38) 38)).toNat
        = 254 + 2 ^ 8 * 255 + 2 ^ 16 * (dst 38).toNat + 2 ^ 24 * (dst 39).toNat :=
    load32_toNat _ 36
  have hack37 := @type_copy_ack 37 (by simp [shortResponses]) (by omega)
  have hack38 := @type_copy_ack 38 (by simp [shortResponses]) (by omega)
  have htotal37 := IcapMsg.totalLen_toNat (copy last (shortResponse ICAP_ACK 37) 37)
  have htotal38 := IcapMsg.totalLen_toNat (copy last (shortResponse ICAP_ACK 38) 38)
  rw [hkeep37] at htotal37
  rw [hkeep38] at htotal38
  by_cases hfull : (last 37).toNat = 255 ∧ (last 38).toNat = 255 ∧ (last 39).toNat = 255
  · refine Or.inr ⟨.getSubdevices, rfl, rfl, seven, fun h => absurd (Wait.shows_inj h).1 ?_⟩
    have hzero : (IcapMsg.totalLen (copy (fun _ => 0) (shortResponse ICAP_ACK 38) 38)).toNat
        = 65574 := by decide
    rw [overrun_ack (hack38 last), overrun_ack (hack38 _), if_neg (by omega),
      if_pos (by omega)]
    exact (Option.some_ne_none _).symm
  · refine Or.inl ⟨.getSubdevices, rfl, rfl, seven, fun h => absurd (Wait.shows_inj h).1 ?_⟩
    have hzero : (IcapMsg.totalLen (copy (fun _ => 0) (shortResponse ICAP_ACK 37) 37)).toNat
        = 293 := by decide
    rw [overrun_ack (hack37 last), overrun_ack (hack37 _), if_pos (by omega),
      if_neg (by omega)]
    exact Option.some_ne_none _

/-- The first word of the payload is taken for the error of a NAK. -/
theorem givesAway_of_payload (hpayload : last.payloadU32 ≠ 0) : GivesAway last (ICAP_NAK, 16) := by
  refine ⟨.pause 1, rfl, rfl, fun _ => 0, fun h => absurd (Wait.shows_inj h).2 ?_⟩
  obtain ⟨-, -, -, -, htype, -⟩ := short_response (ICAP_NAK, 16) (by simp [shortResponses])
  have hret (dst : IcapMsg) :
      Wait.result ⟨.pause 1, 1, 0, fun _ => 0⟩ (copy dst (shortResponse ICAP_NAK 16) 16)
        = ⟨dst.payloadU32, none⟩ := by
    have hr : responseRet (copy dst (shortResponse ICAP_NAK 16) 16) = dst.payloadU32 := by
      rw [responseRet, if_pos ((type_copy_ge le_rfl _ _).trans htype),
        payloadU32_copy_le (by omega)]
    rw [Wait.result, hr]
    rfl
  rw [hret, hret]
  intro heq
  exact hpayload ((CallResult.mk.inj heq).1.trans (by decide))

/-- Each way in which a last response is not forgettable gives it away. -/
theorem exists_givesAway (hseq : last.seqNum = 0) (h : ¬ Forgettable last) :
    ∃ p ∈ shortResponses, GivesAway last p := by
  by_cases hpayload : last.payloadU32 = 0
  · by_cases hread : Unread last
    · by_cases hlow : last.payloadLen.toNat < 2 ^ 8
      · by_cases hnak : last.type = ICAP_NAK
        · exact ⟨_, by simp [shortResponses], givesAway_of_nak hnak hpayload⟩
        · have htype : ¬ last.type.toNat < 2 ^ 8 :=
            fun hlt => h ⟨hseq, hpayload, ⟨hread, hlow⟩, hlt, hnak⟩
          exact ⟨_, by simp [shortResponses], givesAway_of_type htype ⟨hread, hlow⟩⟩
      · rcases givesAway_of_overrun hlow with h37 | h38
        · exact ⟨_, by simp [shortResponses], h37⟩
        · exact ⟨_, by simp [shortResponses], h38⟩
    · exact ⟨_, by simp [shortResponses], givesAway_of_length hpayload hread⟩
  · exact ⟨_, by simp [shortResponses], givesAway_of_payload hpayload⟩

end

/-- **Re-initialisation** gives an instance that no later run can tell from a zeroed one
initialised with the same arguments exactly when the last response, which it leaves, is
forgettable. -/
theorem reinit_fresh_iff {Q : Nat} (hQ : 2 ≤ Q) {s : State} (hruns : programRuns s.stack = true)
    (name : Nat) (cb : CallbackTable) (priv : Nat) :
    (∀ is, (machine Q).observes Event.visible (afterReinit s name cb priv) is
      = (machine Q).observes Event.visible (afterInit s name cb priv) is) ↔
      Forgettable s.lastResponse := by
  rw [afterReinit_eq, afterInit_eq]
  constructor
  · intro hsame
    by_contra hnot
    by_cases hseq : s.lastResponse.seqNum = 0
    · obtain ⟨p, hp, c, hsync, hsends, uninit, hne⟩ := exists_givesAway hseq hnot
      obtain ⟨frame, hreq⟩ := Option.isSome_iff_exists.mp hsends
      have h := hsame [.call c 0 0 uninit, .putMsg (shortMsg p.1 p.2), .pass 0]
      rw [observes_short hp hQ hruns hreq hsync, observes_short hp hQ hruns hreq hsync] at h
      exact hne (List.cons.inj (List.cons.inj h).2).2
    -- the call that takes the seq_num of the last response is answered by it
    · have hpos : s.lastResponse.seqNum.toNat ≠ 0 := by
        intro h
        exact hseq (BitVec.eq_of_toNat_eq h)
      refine observes_rounds hruns (k := s.lastResponse.seqNum.toNat - 1) ?_ (hsame _)
      rw [show (0 : U32).toNat = 0 from rfl]
      omega
  · intro hforget is
    exact (observes_alike (.mk (session s name cb priv 0 fun _ => 0) _ s.stack
      hforget.alike) is).symm

/-- An application instance after `icap_stop` has been acknowledged. -/
def stoppedState : State :=
  ((machine 10).exec [] (State.zeroed 0 0) [.applicationInit 0 (some fun _ => false) 0,
    .call (.stop 1) 0 0 (fun _ => 0),
    .putMsg ⟨⟨4096, ofList (icapMsgFrame ICAP_MSG_STOP ICAP_ACK 1 [])⟩, 40, 7⟩, .pass 0]).2

/-- The first call of the next session returns at once, answered by the response to
`icap_stop`; the fresh instance waits. -/
theorem stale_response_answers :
    (∃ tr, (machine 10).Run (fun _ _ _ => True) (State.zeroed 0 0) tr stoppedState) ∧
    stoppedState.fifo.tail = stoppedState.fifo.head ∧ stoppedState.stack = [] ∧
    (machine 10).observes Event.visible (afterReinit stoppedState 0 (fun _ => false) 0) (rounds 0)
      = [.event (.sent 0 0 (-1) (icapMsgFrame ICAP_MSG_PAUSE ICAP_MSG 1 (word32 1))),
        .event (.returned (.pause 1) ⟨0, none⟩)] ∧
    (machine 10).observes Event.visible (afterInit stoppedState 0 (fun _ => false) 0) (rounds 0)
      = [.event (.sent 0 0 (-1) (icapMsgFrame ICAP_MSG_PAUSE ICAP_MSG 1 (word32 1)))] :=
  ⟨⟨_, Machine.Run.start.exec_of_forall _ fun _ _ _ => trivial⟩, rfl, rfl, rfl, rfl⟩

/-- An application instance after an `icap_stop` that timed out. -/
def unansweredState : State :=
  ((machine 10).exec [] (State.zeroed 0 0) [.applicationInit 0 (some fun _ => false) 0,
    .call (.stop 1) 0 0 (fun _ => 0), .pass 0, .clock 600000]).2

theorem reinit_fresh_iff_unanswered :
    (machine 10).observes Event.visible (afterReinit unansweredState 0 (fun _ => false) 0)
        (rounds 1)
      = (machine 10).observes Event.visible (afterInit unansweredState 0 (fun _ => false) 0)
        (rounds 1) :=
  (reinit_fresh_iff (by omega) rfl 0 (fun _ => false) 0).mpr
    ⟨by decide, by decide, ⟨⟨by decide, by decide⟩, by decide⟩, by decide, by decide⟩ _

end Icap.BareMetal
