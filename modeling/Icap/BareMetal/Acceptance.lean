import Icap.BareMetal.Machine
import Icap.Protocol.Target

set_option autoImplicit false

/-! # What the parser accepts

On bare metal `size_t` has 32 bits, so the length check of `icap_parse_msg` compares modulo
2^32. It accepts exactly the well-formed frames and the frames shorter than a header whose
length wraps around (`accepts_exactly_iff`). A frame that is rejected leaves the instance as it
was unless it is the first to reach the remote check, which records its source
(`rejected_unchanged_iff`).
-/

namespace Icap.BareMetal

open ByteMemory

/-! ## The checks -/

theorem icapVerifyRemote_ok {t : IcapTransport} {srcAddr : U32} :
    (icapVerifyRemote t srcAddr).2 = 0 ↔ srcAddr = t.remoteAddr ∨ t.remoteAddr = -1 := by
  unfold icapVerifyRemote
  split_ifs with hnone hne
  · simp [hnone]
  · have herror : -ICAP_ERROR_REMOTE_ADDR ≠ 0 := by decide
    simp only [herror, hnone, or_false, false_iff]
    exact fun h => hne h.symm
  · simp only [ne_eq, not_not] at hne
    simp [hne]

/-- The 32-bit sum of the header size and `payload_len` wraps round to a size below a
header's. -/
structure Wraps (msg : IcapMsg) (size : U32) : Prop where
  short : size.toNat < sizeofIcapMsgHeader
  length : sizeofIcapMsgHeader + msg.payloadLen.toNat = size.toNat + 2 ^ 32

/-- The length check in exact arithmetic. -/
theorem sizeMatches_iff {msg : IcapMsg} {size : U32} :
    sizeMatches bareMetal msg size = true ↔
      (sizeofIcapMsgHeader ≤ size.toNat ∧
        msg.payloadLen.toNat = size.toNat - sizeofIcapMsgHeader) ∨ Wraps msg size := by
  have hpayload := msg.payloadLen.isLt
  have hsize := size.isLt
  have hmod : sizeMatches bareMetal msg size = true ↔
      size.toNat = (40 + msg.payloadLen.toNat) % 2 ^ 32 := decide_eq_true_iff
  rw [hmod]
  constructor
  · intro h
    -- a frame shorter than a header matches only through the sum modulo `2 ^ 32`
    by_cases hshort : size.toNat < 40
    · refine Or.inr ⟨hshort, ?_⟩
      simp only [sizeofIcapMsgHeader]
      omega
    · refine Or.inl ⟨?_, ?_⟩ <;> simp only [sizeofIcapMsgHeader] <;> omega
  · rintro (⟨hheader, hlen⟩ | ⟨hshort, hlen⟩)
    · simp only [sizeofIcapMsgHeader] at hheader hlen
      omega
    · simp only [sizeofIcapMsgHeader] at hshort hlen
      omega

/-! ## Acceptance -/

/-- A frame for the instance: it is initialised, and the frame is a message or a response of its
peer, with a whole header and the length the header says. -/
structure ExpectedFrame (icap : Instance) (srcAddr : U32) (msg : IcapMsg) (size : U32) : Prop where
  callbacks : icap.callbacks ≠ none
  version : msg.protocolVersion = ICAP_PROTOCOL_VERSION
  header : sizeofIcapMsgHeader ≤ size.toNat
  length : msg.payloadLen.toNat = size.toNat - sizeofIcapMsgHeader
  source : srcAddr = icap.transport.remoteAddr ∨ icap.transport.remoteAddr = -1
  type : msg.type = ICAP_MSG ∨ msg.type = ICAP_ACK ∨ msg.type = ICAP_NAK

/-- A handler is reached by the expected frames and by no others, and the total length that a
handler computes is the size of the frame. -/
def AcceptsExactly (icap : Instance) (srcAddr : U32) (msg : IcapMsg) (size : U32) : Prop :=
  (Reaches bareMetal icap srcAddr msg size ↔ ExpectedFrame icap srcAddr msg size) ∧
    (Reaches bareMetal icap srcAddr msg size →
      msg.totalLen.toNat = size.toNat ∧ sizeofIcapMsgHeader ≤ msg.totalLen.toNat)

/-- A frame that is expected but for its length, which wraps around. -/
structure WrappedFrame (icap : Instance) (srcAddr : U32) (msg : IcapMsg) (size : U32) : Prop where
  callbacks : icap.callbacks ≠ none
  version : msg.protocolVersion = ICAP_PROTOCOL_VERSION
  wraps : Wraps msg size
  source : srcAddr = icap.transport.remoteAddr ∨ icap.transport.remoteAddr = -1
  type : msg.type = ICAP_MSG ∨ msg.type = ICAP_ACK ∨ msg.type = ICAP_NAK

section

variable {icap : Instance} {srcAddr : U32} {msg : IcapMsg} {size : U32}

/-- Every handler is reached by an expected frame or by a wrapped one. -/
theorem reaches_cases : Reaches bareMetal icap srcAddr msg size ↔
    ExpectedFrame icap srcAddr msg size ∨ WrappedFrame icap srcAddr msg size := by
  have hremote : (bareMetal.icapVerifyRemote icap.transport srcAddr).2 = 0 ↔
      srcAddr = icap.transport.remoteAddr ∨ icap.transport.remoteAddr = -1 := icapVerifyRemote_ok
  rw [reaches_iff, sizeMatches_iff, hremote]
  constructor
  · rintro ⟨hcb, hv, ⟨hheader, hlen⟩ | hwraps, hsrc, htype⟩
    · exact Or.inl ⟨hcb, hv, hheader, hlen, hsrc, htype⟩
    · exact Or.inr ⟨hcb, hv, hwraps, hsrc, htype⟩
  · rintro (h | h)
    · exact ⟨h.callbacks, h.version, Or.inl ⟨h.header, h.length⟩, h.source, h.type⟩
    · exact ⟨h.callbacks, h.version, Or.inr h.wraps, h.source, h.type⟩

theorem ExpectedFrame.totalLen (h : ExpectedFrame icap srcAddr msg size) :
    msg.totalLen.toNat = size.toNat := by
  have hsize := size.isLt
  have hheader := h.header
  have hlen := h.length
  simp only [sizeofIcapMsgHeader] at hheader hlen
  rw [IcapMsg.totalLen_toNat]
  omega

theorem WrappedFrame.not_expected (h : WrappedFrame icap srcAddr msg size) :
    ¬ ExpectedFrame icap srcAddr msg size := fun he => by
  have hshort := h.wraps.short
  have hheader := he.header
  omega

end

/-- **The parser accepts exactly the well-formed frames** of its peer, except for the frames
shorter than a header whose length wraps around in 32 bits. -/
theorem accepts_exactly_iff (icap : Instance) (srcAddr : U32) (msg : IcapMsg) (size : U32) :
    AcceptsExactly icap srcAddr msg size ↔ ¬ WrappedFrame icap srcAddr msg size := by
  unfold AcceptsExactly
  rw [reaches_cases]
  constructor
  · intro hexact hwrapped
    exact hwrapped.not_expected (hexact.1.mp (Or.inr hwrapped))
  · intro hnot
    refine ⟨⟨fun h => h.resolve_right hnot, Or.inl⟩, fun h => ?_⟩
    have he := h.resolve_right hnot
    exact ⟨he.totalLen, by rw [he.totalLen]; exact he.header⟩

/-- An application that has heard no one. -/
def unheardApplication : Instance :=
  (icapApplicationInit bareMetal (zeroedInstance 0 0) 0 (some fun _ => false) 0).1

/-- A message of eight bytes; the rest of the header lies behind them in memory. -/
def wrappedMsg : IcapMsg :=
  ofList (word32 ICAP_PROTOCOL_VERSION ++ word32 1 ++ word32 ICAP_MSG_STOP ++ word32 ICAP_ACK
    ++ List.replicate 20 0 ++ word32 (-32))

/-- The frame of eight bytes is stored as a response. -/
theorem wrapped_frame_accepted :
    Reaches bareMetal unheardApplication 7 wrappedMsg 8 ∧
      ¬ ExpectedFrame unheardApplication 7 wrappedMsg 8 ∧
      ¬ AcceptsExactly unheardApplication 7 wrappedMsg 8 := by
  have hwrapped : WrappedFrame unheardApplication 7 wrappedMsg 8 := by
    refine ⟨?_, by decide, ⟨by decide, by decide⟩, Or.inr rfl, Or.inr (Or.inl (by decide))⟩
    exact Option.some_ne_none _
  exact ⟨reaches_cases.mpr (Or.inr hwrapped), hwrapped.not_expected,
    fun hexact => hwrapped.not_expected
      (hexact.1.mp (reaches_cases.mpr (Or.inr hwrapped)))⟩

/-! ## Rejection -/

/-- `icap_parse_msg` up to its first callback: the instance, the events, and how far it got. -/
def parseMsg (sendRet : U32) (icap : Instance) (srcAddr : U32) (msg : IcapMsg) (size : U32) :
    Instance × List Event × Progress :=
  let (icap', p) := icapParseMsg bareMetal icap srcAddr msg size
  let (t, ev, progress) := runParse sendRet icap'.transport p
  ({ icap' with transport := t }, ev, progress)

/-- The errors of the checks and of a response that no callback is for. -/
def rejections : List U32 :=
  [-ICAP_ERROR_INIT, -ICAP_ERROR_PROTOCOL_NOT_SUP, -ICAP_ERROR_MSG_LEN, -ICAP_ERROR_REMOTE_ADDR,
    -ICAP_ERROR_MSG_TYPE, -ICAP_ERROR_MSG_ID]

/-- `icap_parse_msg` returns one of the errors without a callback. -/
def Rejects (sendRet : U32) (icap : Instance) (srcAddr : U32) (msg : IcapMsg) (size : U32) :
    Prop :=
  ∃ ret ∈ rejections, (parseMsg sendRet icap srcAddr msg size).2.2 = .done ret

/-- The checks after the remote check fail: the type is none of the three, or a device gets a
response to a command that it never sends. -/
def FailsLate (type : IcapInstanceType) (msg : IcapMsg) : Prop :=
  (msg.type ≠ ICAP_MSG ∧ msg.type ≠ ICAP_ACK ∧ msg.type ≠ ICAP_NAK) ∨
    (type = .device ∧ (msg.type = ICAP_ACK ∨ msg.type = ICAP_NAK) ∧
      msg.cmd ≠ ICAP_MSG_FRAG_READY ∧ msg.cmd ≠ ICAP_MSG_XRUN ∧ msg.cmd ≠ ICAP_MSG_ERROR)

/-- The first frame to reach the remote check is rejected after it. -/
structure RejectedFirst (icap : Instance) (srcAddr : U32) (msg : IcapMsg) (size : U32) : Prop where
  unheard : icap.transport.remoteAddr = -1
  source : srcAddr ≠ -1
  callbacks : icap.callbacks ≠ none
  version : msg.protocolVersion = ICAP_PROTOCOL_VERSION
  length : sizeMatches bareMetal msg size = true
  late : FailsLate icap.type msg

section

variable {icap : Instance} {srcAddr : U32} {msg : IcapMsg} {size : U32} {sendRet : U32}

/-- A message handler returns 0 or stops in a callback. -/
theorem handle_progress (t : IcapTransport) (cb : CallbackTable) (h : Option Handler) {ret : U32}
    (hdone : (runParse sendRet t (handle cb msg h)).2.2 = .done ret) : ret = 0 := by
  cases h with
  | none => exact (Progress.done.inj hdone).symm
  | some h =>
      by_cases hset : cb h.callback.id
      · rw [handle, if_pos hset] at hdone
        cases hdone
      · rw [handle, if_neg hset] at hdone
        exact (Progress.done.inj hdone).symm

/-- A branch of `icap_device_parse_response` returns 0 or stops in its callback. -/
theorem verdict_progress (t : IcapTransport) (set : Bool) (c : Callback) {ret : U32}
    (hdone : (runParse sendRet t (icapDeviceParseVerdict set c)).2.2 = .done ret) : ret = 0 := by
  cases set with
  | true => cases hdone
  | false => exact (Progress.done.inj hdone).symm

theorem icapDeviceParseResponse_late (cb : CallbackTable) (hfrag : msg.cmd ≠ ICAP_MSG_FRAG_READY)
    (hxrun : msg.cmd ≠ ICAP_MSG_XRUN) (herror : msg.cmd ≠ ICAP_MSG_ERROR) :
    icapDeviceParseResponse cb msg = .done (-ICAP_ERROR_MSG_ID) := by
  unfold icapDeviceParseResponse
  simp only [if_neg hfrag, if_neg hxrun, if_neg herror]

/-- The response handler of a device passes a verdict to a callback, or rejects. -/
theorem icapDeviceParseResponse_cases (cb : CallbackTable) (msg : IcapMsg) :
    (∃ set c, icapDeviceParseResponse cb msg = icapDeviceParseVerdict set c) ∨
      msg.cmd ≠ ICAP_MSG_FRAG_READY ∧ msg.cmd ≠ ICAP_MSG_XRUN ∧ msg.cmd ≠ ICAP_MSG_ERROR := by
  by_cases hfrag : msg.cmd = ICAP_MSG_FRAG_READY
  · exact Or.inl ⟨_, _, if_pos hfrag⟩
  · by_cases hxrun : msg.cmd = ICAP_MSG_XRUN
    · exact Or.inl ⟨_, _, (if_neg hfrag).trans (if_pos hxrun)⟩
    · by_cases herror : msg.cmd = ICAP_MSG_ERROR
      · exact Or.inl ⟨_, _, ((if_neg hfrag).trans (if_neg hxrun)).trans (if_pos herror)⟩
      · exact Or.inr ⟨hfrag, hxrun, herror⟩

theorem zero_notMem_rejections : (0 : U32) ∉ rejections := by decide

/-- Of the handlers only one rejects, and only the responses that fail late. -/
theorem rejects_target (t : IcapTransport) {type : IcapInstanceType} {cb : CallbackTable}
    {h : Target} (htarget : target type msg = some h) {ret : U32} (hret : ret ∈ rejections)
    (hdone : (runParse sendRet t (h.run cb msg)).2.2 = .done ret) : FailsLate type msg := by
  have hzero : ret ≠ 0 := fun heq => zero_notMem_rejections (heq ▸ hret)
  -- the other handlers answer, return 0 or stop in a callback
  cases h with
  | applicationParseResponse => exact absurd (Progress.done.inj hdone).symm hzero
  | applicationParseMsg =>
      rw [Target.run, icapApplicationParseMsg_eq] at hdone
      exact absurd (handle_progress _ _ _ hdone) hzero
  | deviceParseMsg =>
      rw [Target.run, icapDeviceParseMsg_eq] at hdone
      exact absurd (handle_progress _ _ _ hdone) hzero
  | deviceParseResponse =>
      rcases icapDeviceParseResponse_cases cb msg with ⟨set, c, hverdict⟩ | ⟨hfrag, hxrun, herror⟩
      · rw [Target.run, hverdict] at hdone
        exact absurd (verdict_progress _ _ _ hdone) hzero
      · unfold target at htarget
        split_ifs at htarget with hresponse hmsg
        · cases type with
          | application => cases htarget
          | device => exact Or.inr ⟨rfl, hresponse, hfrag, hxrun, herror⟩
        · cases type <;> cases htarget

/-- What fails late is rejected by the last check or by the handler, with an instance that the
remote check alone has changed. -/
theorem parseMsg_late (sendRet : U32) {cb : CallbackTable} (hlate : FailsLate icap.type msg)
    (hchecked : Checked bareMetal icap srcAddr msg size cb) :
    ∃ ret ∈ rejections, parseMsg sendRet icap srcAddr msg size
      = ({ icap with transport := (icapVerifyRemote icap.transport srcAddr).1 }, [],
        .done ret) := by
  unfold parseMsg
  rw [icapParseMsg_target, hchecked.target_eq]
  -- the type is looked at after the remote check, the command of a response later still
  rcases hlate with htype | ⟨hdevice, hresponse, hfrag, hxrun, herror⟩
  · rw [target_eq_none_iff.mpr htype]
    exact ⟨-ICAP_ERROR_MSG_TYPE, by decide, rfl⟩
  · have htarget : target icap.type msg = some .deviceParseResponse := by
      rw [hdevice]
      exact if_pos hresponse
    rw [htarget]
    simp only [runTarget, Target.run, icapDeviceParseResponse_late cb hfrag hxrun herror]
    exact ⟨-ICAP_ERROR_MSG_ID, by decide, rfl⟩

/-- A remote check that fails writes nothing. -/
theorem icapVerifyRemote_refused {t : IcapTransport} (h : (icapVerifyRemote t srcAddr).2 ≠ 0) :
    (icapVerifyRemote t srcAddr).1 = t := by
  unfold icapVerifyRemote at h ⊢
  split_ifs at h ⊢
  · exact absurd rfl h
  · rfl
  · exact absurd rfl h

/-- A frame that is rejected has failed a check that leaves the instance as it is, or has failed
late. -/
theorem rejects_cases (h : Rejects sendRet icap srcAddr msg size) :
    (parseMsg sendRet icap srcAddr msg size).1 = icap ∨
      FailsLate icap.type msg ∧ ∃ cb, Checked bareMetal icap srcAddr msg size cb := by
  obtain ⟨ret, hret, hdone⟩ := h
  unfold parseMsg at hdone ⊢
  rw [icapParseMsg_target] at hdone ⊢
  rcases icapParseMsgTarget_cases (P := bareMetal) icap srcAddr msg size with
    ⟨e, heq⟩ | ⟨hremote, heq⟩ | ⟨cb, hchecked, heq⟩
  · rw [heq]
    exact Or.inl rfl
  · have hsame : (bareMetal.icapVerifyRemote icap.transport srcAddr).1 = icap.transport :=
      icapVerifyRemote_refused hremote
    rw [heq, hsame]
    exact Or.inl rfl
  · refine Or.inr ⟨?_, cb, hchecked⟩
    rw [heq] at hdone
    cases ht : target icap.type msg with
    | none => exact Or.inl (target_eq_none_iff.mp ht)
    | some t =>
        rw [ht] at hdone
        exact rejects_target _ ht hret hdone

end

/-- **A rejected frame leaves the instance as it was**, unless it is the first to reach the
remote check and fails after it. -/
theorem rejected_unchanged_iff (sendRet : U32) (icap : Instance) (srcAddr : U32) (msg : IcapMsg)
    (size : U32) :
    (Rejects sendRet icap srcAddr msg size →
      (parseMsg sendRet icap srcAddr msg size).1 = icap) ↔
      ¬ RejectedFirst icap srcAddr msg size := by
  constructor
  · intro hkeep hfirst
    obtain ⟨cb, hcb⟩ := Option.ne_none_iff_exists'.mp hfirst.callbacks
    have hremote : (icapVerifyRemote icap.transport srcAddr).2 = 0 :=
      icapVerifyRemote_ok.mpr (Or.inr hfirst.unheard)
    obtain ⟨ret, hret, hparse⟩ := parseMsg_late sendRet hfirst.late
      ⟨hcb, hfirst.version, hfirst.length, hremote⟩
    have hsame := hkeep ⟨ret, hret, by rw [hparse]⟩
    rw [hparse] at hsame
    -- the remote check has taken the source for the peer
    have haddr := congrArg (fun i : Instance => i.transport.remoteAddr) hsame
    simp only [icapVerifyRemote, if_pos hfirst.unheard] at haddr
    exact hfirst.source (haddr.trans hfirst.unheard)
  · intro hnot hrejects
    rcases rejects_cases hrejects with hsame | ⟨hlate, cb, hchecked⟩
    · exact hsame
    · obtain ⟨ret, -, hparse⟩ := parseMsg_late sendRet hlate hchecked
      rw [hparse]
      -- the remote check finds its peer, or a source that stands for no peer
      have hsame : (icapVerifyRemote icap.transport srcAddr).1 = icap.transport := by
        unfold icapVerifyRemote
        split_ifs with hunheard
        · have hsrc : srcAddr = -1 := by
            by_contra hsrc
            exact hnot ⟨hunheard, hsrc, by rw [hchecked.callbacks]; simp, hchecked.version,
              hchecked.length, hlate⟩
          rw [hsrc, ← hunheard]
        · rfl
        · rfl
      rw [hsame]

/-- A frame of an unknown type, from the endpoint 9. -/
def unknownMsg : IcapMsg := ofList (icapMsgFrame ICAP_MSG_STOP 3 1 [])

/-- The frame is rejected, and from then on the application listens to the endpoint 9 only. -/
theorem rejected_frame_pins :
    (parseMsg 0 unheardApplication 9 unknownMsg 40).2.2 = .done (-ICAP_ERROR_MSG_TYPE) ∧
      (parseMsg 0 unheardApplication 9 unknownMsg 40).1.transport.remoteAddr = 9 ∧
      ¬ (Rejects 0 unheardApplication 9 unknownMsg 40 →
        (parseMsg 0 unheardApplication 9 unknownMsg 40).1 = unheardApplication) := by
  have hdone : (parseMsg 0 unheardApplication 9 unknownMsg 40).2.2
      = .done (-ICAP_ERROR_MSG_TYPE) := by rfl
  have haddr : (parseMsg 0 unheardApplication 9 unknownMsg 40).1.transport.remoteAddr = 9 := by rfl
  refine ⟨hdone, haddr, fun hkeep => ?_⟩
  have hsame := hkeep ⟨-ICAP_ERROR_MSG_TYPE, by decide, hdone⟩
  rw [hsame] at haddr
  exact absurd haddr (by decide)

end Icap.BareMetal
