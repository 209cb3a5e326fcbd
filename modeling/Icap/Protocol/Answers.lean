import Icap.BareMetal.Transport

set_option autoImplicit false

/-! # Exactly one answer per message

Over any sequence of arriving frames, the frames `icap_parse_msg` hands to
`icap_send_platform` are one answer for each accepted message, in order, and nothing for
responses and rejected frames (`answers_exact`). An answer is described by what a peer reads
in it (`Answers`); which messages are answered with a NAK is said by a table of the commands
(`commandCallback`) and of the failure conventions (`reportsFailure`).
-/

namespace Icap

open ByteMemory

/-! ## Runs of the parser -/

/-- A frame arriving at `icap_parse_msg`, and what the callback, `icap_send_platform` or
`icap_response_notify` it calls returns. -/
structure Arrival where
  srcAddr : U32
  msg : IcapMsg
  size : U32
  result : CallbackResult
  ret : U32

/-- The frames a handler hands to `icap_send_platform`. -/
def Parse.frames {α : Type} (a : Arrival) : Parse α → List (List Byte)
  | done _ => []
  | callback _ k => (k a.result).frames a
  | sendPlatform frame k => frame :: (k a.ret).frames a
  | responseNotify _ k => (k a.ret).frames a

section

variable {T : Type} (P : Platform T)

def afterParse (icap : IcapInstance T) (a : Arrival) : IcapInstance T :=
  (icapParseMsg P icap a.srcAddr a.msg a.size).1

def sentFor (icap : IcapInstance T) (a : Arrival) : List (List Byte) :=
  (icapParseMsg P icap a.srcAddr a.msg a.size).2.frames a

/-- The frames handed to `icap_send_platform` while a sequence of arrivals is parsed. -/
def sentDuring : IcapInstance T → List Arrival → List (List Byte)
  | _, [] => []
  | icap, a :: as => sentFor P icap a ++ sentDuring (afterParse P icap a) as

/-- The version, length and remote checks. -/
def PassesChecks (icap : IcapInstance T) (a : Arrival) : Prop :=
  a.msg.protocolVersion = ICAP_PROTOCOL_VERSION ∧ sizeMatches P a.msg a.size = true ∧
    (P.icapVerifyRemote icap.transport a.srcAddr).2 = 0

instance (icap : IcapInstance T) (a : Arrival) : Decidable (PassesChecks P icap a) :=
  inferInstanceAs (Decidable (_ ∧ _ ∧ _))

/-- The arrivals that pass the checks and have type `ICAP_MSG`. -/
def acceptedMessages : IcapInstance T → List Arrival → List Arrival
  | _, [] => []
  | icap, a :: as =>
      (if PassesChecks P icap a ∧ a.msg.type = ICAP_MSG then [a] else [])
        ++ acceptedMessages (afterParse P icap a) as

end

/-! ## What an answer is -/

/-- The commands an instance handles, with the callback each is for. -/
def commandCallbacks : IcapInstanceType → List (U32 × CallbackId)
  | .application =>
      [(ICAP_MSG_FRAG_READY, .fragReady), (ICAP_MSG_XRUN, .xrun), (ICAP_MSG_ERROR, .error)]
  | .device =>
      [(ICAP_MSG_GET_DEV_NUM, .getSubdevices),
        (ICAP_MSG_GET_DEV_FEATURES, .getSubdeviceFeatures),
        (ICAP_MSG_DEV_INIT, .subdeviceInit), (ICAP_MSG_DEV_DEINIT, .subdeviceDeinit),
        (ICAP_MSG_ADD_SRC, .addSrc), (ICAP_MSG_ADD_DST, .addDst),
        (ICAP_MSG_REMOVE_SRC, .removeSrc), (ICAP_MSG_REMOVE_DST, .removeDst),
        (ICAP_MSG_START, .start), (ICAP_MSG_STOP, .stop), (ICAP_MSG_PAUSE, .pause),
        (ICAP_MSG_RESUME, .resume), (ICAP_MSG_BUF_OFFSETS, .frags)]

def commandCallback (type : IcapInstanceType) (cmd : U32) : Option CallbackId :=
  (commandCallbacks type).lookup cmd

/-- Whether a callback's return value reports a failure. -/
def reportsFailure : CallbackId → U32 → Bool
  | .getSubdevices, ret => ret.toInt < 0
  | .getSubdeviceFeatures, ret => ret.toInt < 0
  | .addSrc, ret => ret.toInt < 0
  | .addDst, ret => ret.toInt < 0
  | _, ret => ret ≠ 0

/-- The error a message has to be answered with: its command is not handled, or its callback
is set and reports a failure. -/
def failure (type : IcapInstanceType) (cb : CallbackTable) (a : Arrival) : Option U32 :=
  match commandCallback type a.msg.cmd with
  | none => some (-ICAP_ERROR_MSG_ID)
  | some id =>
      if cb id = true ∧ reportsFailure id a.result.ret = true then some a.result.ret else none

/-- What a peer reads in the answer to a message. -/
structure Answers (type : IcapInstanceType) (cb : CallbackTable) (a : Arrival)
    (frame : List Byte) (m : IcapMsg) : Prop where
  cmd : m.cmd = a.msg.cmd
  seqNum : m.seqNum = a.msg.seqNum
  payloadLen : m.payloadLen.toNat + sizeofIcapMsgHeader = frame.length
  version : m.protocolVersion = ICAP_PROTOCOL_VERSION
  length : ∀ {T : Type} (P : Platform T), 32 ≤ P.sizeBits →
    sizeMatches P m (BitVec.ofNat 32 frame.length) = true
  nak_iff : m.type = ICAP_NAK ↔ (failure type cb a).isSome = true
  ack_iff : m.type = ICAP_ACK ↔ failure type cb a = none
  error : ∀ e, failure type cb a = some e → m.payloadLen = 4 ∧ m.payloadU32 = e

/-! ## The table agrees with the handlers -/

/-- The handler of a message on an instance of the given type. -/
def handlerOf : IcapInstanceType → IcapMsg → Option Handler
  | .application => applicationHandler
  | .device => deviceHandler

theorem lookup_ite {cmd c : U32} {id : CallbackId} {rest : List (U32 × CallbackId)}
    {h h' : Option Handler} (hid : h.map (fun h => h.callback.id) = some id)
    (hrest : h'.map (fun h => h.callback.id) = rest.lookup cmd) :
    (if cmd = c then h else h').map (fun h => h.callback.id) = ((c, id) :: rest).lookup cmd := by
  by_cases hc : cmd = c
  · subst hc
    rw [if_pos rfl, hid, List.lookup_cons_self]
  · have hb : (cmd == c) = false := by simpa using hc
    rw [if_neg hc, hrest, List.lookup_cons, hb]

theorem handlerOf_callback (type : IcapInstanceType) (msg : IcapMsg) :
    (handlerOf type msg).map (fun h => h.callback.id) = commandCallback type msg.cmd := by
  cases type with
  | application => exact lookup_ite rfl <| lookup_ite rfl <| lookup_ite rfl rfl
  | device =>
      exact lookup_ite rfl <| lookup_ite rfl <| lookup_ite rfl <| lookup_ite rfl <|
        lookup_ite rfl <| lookup_ite rfl <| lookup_ite rfl <| lookup_ite rfl <|
        lookup_ite rfl <| lookup_ite rfl <| lookup_ite rfl <| lookup_ite rfl <|
        lookup_ite rfl rfl

/-- A handler whose kind and callback follow the same failure convention. -/
def Handler.Conventional (h : Handler) : Prop :=
  ∀ ret, h.kind.fails ret = reportsFailure h.callback.id ret

theorem conventional_ite {p : Prop} [Decidable p] {h : Handler} {h' : Option Handler}
    (hc : h.Conventional) (hrest : ∀ g, h' = some g → g.Conventional) :
    ∀ g, (if p then some h else h') = some g → g.Conventional := by
  intro g hg
  by_cases hp : p
  · rw [if_pos hp, Option.some.injEq] at hg
    exact hg ▸ hc
  · rw [if_neg hp] at hg
    exact hrest g hg

theorem handlerOf_conventional (type : IcapInstanceType) (msg : IcapMsg) :
    ∀ h, handlerOf type msg = some h → h.Conventional := by
  cases type with
  | application =>
      exact conventional_ite (fun _ => rfl) <| conventional_ite (fun _ => rfl) <|
        conventional_ite (fun _ => rfl) fun _ h => nomatch h
  | device =>
      exact conventional_ite (fun _ => rfl) <| conventional_ite (fun _ => rfl) <|
        conventional_ite (fun _ => rfl) <| conventional_ite (fun _ => rfl) <|
        conventional_ite (fun _ => rfl) <| conventional_ite (fun _ => rfl) <|
        conventional_ite (fun _ => rfl) <| conventional_ite (fun _ => rfl) <|
        conventional_ite (fun _ => rfl) <| conventional_ite (fun _ => rfl) <|
        conventional_ite (fun _ => rfl) <| conventional_ite (fun _ => rfl) <|
        conventional_ite (fun _ => rfl) fun _ h => nomatch h

/-! ## One arrival -/

section

variable {T : Type} {P : Platform T} {icap : IcapInstance T} {cb : CallbackTable}

theorem icapParseMsg_rejected (hcb : icap.callbacks = some cb) {a : Arrival}
    (h : ¬ PassesChecks P icap a) :
    ∃ ret, (icapParseMsg P icap a.srcAddr a.msg a.size).2 = .done ret := by
  simp only [icapParseMsg, hcb]
  split_ifs with hv hl hr
  · exact ⟨_, rfl⟩
  · exact ⟨_, rfl⟩
  all_goals first
    | exact ⟨_, rfl⟩
    | exact absurd ⟨by simpa using hv, by simpa using hl, by simpa using hr⟩ h

/-- An accepted message goes to the handler of the instance's type. -/
theorem icapParseMsg_message (hcb : icap.callbacks = some cb) {a : Arrival}
    (h : PassesChecks P icap a) (ht : a.msg.type = ICAP_MSG) :
    (icapParseMsg P icap a.srcAddr a.msg a.size).2
      = handle cb a.msg (handlerOf icap.type a.msg) := by
  obtain ⟨hv, hl, hr⟩ := h
  have hres : ¬ (a.msg.type = ICAP_ACK ∨ a.msg.type = ICAP_NAK) := by
    rw [ht]
    decide
  simp only [icapParseMsg, hcb, hv, ne_eq, not_true_eq_false, if_false, hl, Bool.not_true,
    Bool.false_eq_true, hr, if_neg hres, if_pos ht]
  cases icap.type with
  | application => exact icapApplicationParseMsg_eq cb a.msg
  | device => exact icapDeviceParseMsg_eq cb a.msg

theorem icapDeviceParseVerdict_frames (set : Bool) (c : Callback) (a : Arrival) :
    (icapDeviceParseVerdict set c).frames a = [] := by
  cases set <;> rfl

theorem icapDeviceParseResponse_frames (cb : CallbackTable) (msg : IcapMsg) (a : Arrival) :
    (icapDeviceParseResponse cb msg).frames a = [] := by
  unfold icapDeviceParseResponse
  simp only
  split_ifs <;> first | exact icapDeviceParseVerdict_frames _ _ _ | rfl

/-- Responses and frames of unknown type are not answered. -/
theorem sentFor_not_message (hcb : icap.callbacks = some cb) {a : Arrival}
    (ht : a.msg.type ≠ ICAP_MSG) : sentFor P icap a = [] := by
  simp only [sentFor, icapParseMsg, hcb]
  split_ifs
  · rfl
  · rfl
  · rfl
  · cases icap.type with
    | application => rfl
    | device => exact icapDeviceParseResponse_frames _ _ _
  · rfl

theorem afterParse_callbacks (a : Arrival) :
    (afterParse P icap a).callbacks = icap.callbacks := by
  rcases icapParseMsg_instance (P := P) icap a.srcAddr a.msg a.size with h | h <;>
    rw [afterParse, h]

theorem afterParse_type (a : Arrival) : (afterParse P icap a).type = icap.type := by
  rcases icapParseMsg_instance (P := P) icap a.srcAddr a.msg a.size with h | h <;>
    rw [afterParse, h]

end

/-! ## The answer to one message -/

/-- A frame built by `icap_send_response` for a message, read by a peer. -/
theorem answers_of_frameAt {type : IcapInstanceType} {cb : CallbackTable} {a : Arrival}
    {m : IcapMsg} {t : U32} {payload : List Byte}
    (hm : FrameAt m a.msg.cmd t a.msg.seqNum payload)
    (hp : payload.length ≤ sizeofIcapMsgPayload)
    (hf : t = ICAP_ACK ∧ failure type cb a = none ∨
      ∃ e, t = ICAP_NAK ∧ payload = word32 e ∧ failure type cb a = some e) :
    Answers type cb a (icapMsgFrame a.msg.cmd t a.msg.seqNum payload) m where
  cmd := hm.cmd
  seqNum := hm.seqNum
  payloadLen := by
    simp only [sizeofIcapMsgPayload] at hp
    rw [hm.payloadLen, icapMsgFrame_length, BitVec.toNat_ofNat, Nat.mod_eq_of_lt (by omega),
      Nat.add_comm]
  version := hm.protocolVersion
  length := by
    intro T P hP
    rw [sizeMatches, icapMsgFrame_length]
    exact decide_eq_true (hm.size_eq hp hP)
  nak_iff := by
    rw [hm.type]
    rcases hf with ⟨rfl, hf⟩ | ⟨e, rfl, -, hf⟩ <;> rw [hf] <;> simp [ICAP_NAK, ICAP_ACK]
  ack_iff := by
    rw [hm.type]
    rcases hf with ⟨rfl, hf⟩ | ⟨e, rfl, -, hf⟩ <;> rw [hf] <;> simp [ICAP_NAK, ICAP_ACK]
  error := by
    intro e he
    rcases hf with ⟨rfl, hf⟩ | ⟨e', rfl, rfl, hf⟩
    · rw [hf] at he
      cases he
    · rw [hf, Option.some.injEq] at he
      subst he
      exact ⟨hm.payloadLen, hm.payloadU32⟩

/-- A message is answered with one frame, which reads as its answer. -/
theorem sentFor_message {T : Type} {P : Platform T} {icap : IcapInstance T}
    {cb : CallbackTable} (hcb : icap.callbacks = some cb) {a : Arrival}
    (h : PassesChecks P icap a) (ht : a.msg.type = ICAP_MSG) :
    ∃ frame, sentFor P icap a = [frame] ∧
      ∀ m, Holds m frame → Answers icap.type cb a frame m := by
  have hcall := handlerOf_callback icap.type a.msg
  have hconv := handlerOf_conventional icap.type a.msg
  rw [sentFor, icapParseMsg_message hcb h ht]
  cases hh : handlerOf icap.type a.msg with
  | none =>
      refine ⟨_, rfl, fun m hm => ?_⟩
      have hf : failure icap.type cb a = some (-ICAP_ERROR_MSG_ID) := by
        rw [failure, ← hcall, hh]
        rfl
      exact answers_of_frameAt (frameAt_of_holds hm) (word32_length_le _)
        (Or.inr ⟨_, rfl, rfl, hf⟩)
  | some hd =>
      have hfail : failure icap.type cb a
          = if cb hd.callback.id = true ∧ hd.kind.fails a.result.ret = true
            then some a.result.ret else none := by
        rw [failure, ← hcall, hh, hconv hd hh]
        rfl
      by_cases hset : cb hd.callback.id = true
      · rw [handle, if_pos hset]
        refine ⟨hd.reply a.msg a.result, rfl, fun m hm => ?_⟩
        by_cases hr : hd.kind.fails a.result.ret = true
        · rw [if_pos ⟨hset, hr⟩] at hfail
          rw [Handler.reply_of_fails hr] at hm ⊢
          exact answers_of_frameAt (frameAt_of_holds hm) (word32_length_le _)
            (Or.inr ⟨_, rfl, rfl, hfail⟩)
        · rw [if_neg (fun h => hr h.2)] at hfail
          rw [Handler.reply_of_not_fails hr] at hm ⊢
          exact answers_of_frameAt (frameAt_of_holds hm) (AnswerKind.ackPayload_length_le _ _)
            (Or.inl ⟨rfl, hfail⟩)
      · rw [handle, if_neg hset]
        rw [if_neg (fun h => hset h.1)] at hfail
        refine ⟨hd.defaultReply a.msg, rfl, fun m hm => ?_⟩
        exact answers_of_frameAt (frameAt_of_holds hm) (AnswerKind.defaultPayload_length_le _)
          (Or.inl ⟨rfl, hfail⟩)

theorem sentFor_rejected {T : Type} {P : Platform T} {icap : IcapInstance T}
    {cb : CallbackTable} (hcb : icap.callbacks = some cb) {a : Arrival}
    (h : ¬ (PassesChecks P icap a ∧ a.msg.type = ICAP_MSG)) : sentFor P icap a = [] := by
  by_cases ht : a.msg.type = ICAP_MSG
  · obtain ⟨ret, hret⟩ := icapParseMsg_rejected (P := P) hcb (fun hp => h ⟨hp, ht⟩)
    rw [sentFor, hret]
    rfl
  · exact sentFor_not_message hcb ht

/-! ## Whole runs -/

/-- **Exactly one answer per message, and no answer to an answer.** -/
theorem answers_exact {T : Type} (P : Platform T) (cb : CallbackTable) (icap : IcapInstance T)
    (hcb : icap.callbacks = some cb) (arrivals : List Arrival) :
    List.Forall₂ (fun a frame => ∀ m, Holds m frame → Answers icap.type cb a frame m)
      (acceptedMessages P icap arrivals) (sentDuring P icap arrivals) := by
  induction arrivals generalizing icap with
  | nil => exact List.Forall₂.nil
  | cons a as ih =>
      have hrest := ih (afterParse P icap a) ((afterParse_callbacks a).trans hcb)
      rw [afterParse_type] at hrest
      rw [acceptedMessages, sentDuring]
      by_cases h : PassesChecks P icap a ∧ a.msg.type = ICAP_MSG
      · obtain ⟨frame, hsent, hans⟩ := sentFor_message hcb h.1 h.2
        rw [if_pos h, hsent]
        exact List.Forall₂.cons hans hrest
      · rw [if_neg h, sentFor_rejected hcb h]
        exact hrest

/-- An application with a `frag_ready` callback. -/
def fragReadyApplication : BareMetal.Instance :=
  (icapApplicationInit BareMetal.bareMetal (BareMetal.zeroedInstance 0 0) 0
    (some (· = .fragReady)) 0).1

/-- A message for its callback, a response, a message of another peer, a message with a wrong
length, and a message without callback. -/
def mixedArrivals : List Arrival :=
  let result : CallbackResult := ⟨0, Vector.replicate 28 0⟩
  [⟨7, ofList (icapMsgFrame ICAP_MSG_FRAG_READY ICAP_MSG 1 (word32 3 ++ word32 1)), 48, result, 0⟩,
    ⟨7, ofList (icapMsgFrame ICAP_MSG_PAUSE ICAP_ACK 1 []), 40, result, 0⟩,
    ⟨8, ofList (icapMsgFrame ICAP_MSG_XRUN ICAP_MSG 1 (word32 3)), 44, result, 0⟩,
    ⟨7, ofList (icapMsgFrame ICAP_MSG_XRUN ICAP_MSG 2 (word32 3)), 48, result, 0⟩,
    ⟨7, ofList (icapMsgFrame ICAP_MSG_ERROR ICAP_MSG 3 (word32 3)), 44, result, 0⟩]

/-- Two of the five are answered. -/
theorem answers_exact_fragReady :
    (acceptedMessages BareMetal.bareMetal fragReadyApplication mixedArrivals).map
      (fun a => a.msg.seqNum) = [1, 3] ∧
    (sentDuring BareMetal.bareMetal fragReadyApplication mixedArrivals).length = 2 := by
  have haccepted : (acceptedMessages BareMetal.bareMetal fragReadyApplication mixedArrivals).map
      (fun a => a.msg.seqNum) = [1, 3] := by decide +kernel
  refine ⟨haccepted, ?_⟩
  rw [← (answers_exact BareMetal.bareMetal (· = .fragReady) fragReadyApplication rfl
    mixedArrivals).length_eq, ← List.length_map, haccepted]
  rfl

end Icap
