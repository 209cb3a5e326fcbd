import Icap.Protocol.Dispatch

set_option autoImplicit false

/-! # Checks and handlers

`icap_parse_msg` cut at the call of its handler: the checks that come before
(`icapParseMsgTarget`) and the four handlers (`Target.run`). `icapParseMsg_target` puts the two
parts together again, so that what a message does can be read off the handler it reaches.
-/

namespace Icap

open ByteMemory

/-- The four handlers of `icap_parse_msg`. -/
inductive Target where
  | applicationParseResponse
  | deviceParseResponse
  | applicationParseMsg
  | deviceParseMsg
  deriving DecidableEq

def Target.run (cb : CallbackTable) (msg : IcapMsg) : Target → Parse U32
  | applicationParseResponse => icapApplicationParseResponse msg
  | deviceParseResponse => icapDeviceParseResponse cb msg
  | applicationParseMsg => icapApplicationParseMsg cb msg
  | deviceParseMsg => icapDeviceParseMsg cb msg

/-- The handler of a message that passes the checks; a type that is none of the three has
none. -/
def target (type : IcapInstanceType) (msg : IcapMsg) : Option Target :=
  if msg.type = ICAP_ACK ∨ msg.type = ICAP_NAK then
    match type with
    | .application => some .applicationParseResponse
    | .device => some .deviceParseResponse
  else if msg.type = ICAP_MSG then
    match type with
    | .application => some .applicationParseMsg
    | .device => some .deviceParseMsg
  else
    none

section

variable {T : Type} (P : Platform T)

/-- `icap_parse_msg` up to its handler: the instance after the checks, and the error returned or
the handler called with the instance's callbacks. -/
def icapParseMsgTarget (icap : IcapInstance T) (srcAddr : U32) (msg : IcapMsg) (size : U32) :
    IcapInstance T × Except U32 (CallbackTable × Target) :=
  match icap.callbacks with
  | none => (icap, .error (-ICAP_ERROR_INIT))
  | some cb =>
      if msg.protocolVersion ≠ ICAP_PROTOCOL_VERSION then
        (icap, .error (-ICAP_ERROR_PROTOCOL_NOT_SUP))
      else if !sizeMatches P msg size then
        (icap, .error (-ICAP_ERROR_MSG_LEN))
      else
        let (transport, ret) := P.icapVerifyRemote icap.transport srcAddr
        let icap := { icap with transport := transport }
        if ret ≠ 0 then
          (icap, .error ret)
        else
          match target icap.type msg with
          | some t => (icap, .ok (cb, t))
          | none => (icap, .error (-ICAP_ERROR_MSG_TYPE))

/-- The rest of `icap_parse_msg`. -/
def runTarget (msg : IcapMsg) : Except U32 (CallbackTable × Target) → Parse U32
  | .error ret => .done ret
  | .ok (cb, t) => t.run cb msg

/-- The checks and the handler are `icap_parse_msg`. -/
theorem icapParseMsg_target (icap : IcapInstance T) (srcAddr : U32) (msg : IcapMsg) (size : U32) :
    icapParseMsg P icap srcAddr msg size
      = ((icapParseMsgTarget P icap srcAddr msg size).1,
        runTarget msg (icapParseMsgTarget P icap srcAddr msg size).2) := by
  unfold icapParseMsg icapParseMsgTarget
  cases icap.callbacks with
  | none => rfl
  | some cb =>
      simp only [target]
      split_ifs
      · rfl
      · rfl
      · rfl
      · cases icap.type <;> rfl
      · cases icap.type <;> rfl
      · rfl

/-- The message reaches one of the four handlers. -/
def Reaches (icap : IcapInstance T) (srcAddr : U32) (msg : IcapMsg) (size : U32) : Prop :=
  ∃ cb t, (icapParseMsgTarget P icap srcAddr msg size).2 = .ok (cb, t)

/-- The checks before the one of the type pass. -/
structure Checked (icap : IcapInstance T) (srcAddr : U32) (msg : IcapMsg) (size : U32)
    (cb : CallbackTable) : Prop where
  callbacks : icap.callbacks = some cb
  version : msg.protocolVersion = ICAP_PROTOCOL_VERSION
  length : sizeMatches P msg size = true
  remote : (P.icapVerifyRemote icap.transport srcAddr).2 = 0

variable {P}

/-- A message fails before the remote check, at the remote check, or after it, or it reaches a
handler. -/
theorem icapParseMsgTarget_cases (icap : IcapInstance T) (srcAddr : U32) (msg : IcapMsg)
    (size : U32) :
    (∃ e, icapParseMsgTarget P icap srcAddr msg size = (icap, .error e))
    ∨ ((P.icapVerifyRemote icap.transport srcAddr).2 ≠ 0 ∧
      icapParseMsgTarget P icap srcAddr msg size
        = ({ icap with transport := (P.icapVerifyRemote icap.transport srcAddr).1 },
          .error (P.icapVerifyRemote icap.transport srcAddr).2))
    ∨ ∃ cb, Checked P icap srcAddr msg size cb ∧ icapParseMsgTarget P icap srcAddr msg size
        = ({ icap with transport := (P.icapVerifyRemote icap.transport srcAddr).1 },
          match target icap.type msg with
          | some t => .ok (cb, t)
          | none => .error (-ICAP_ERROR_MSG_TYPE)) := by
  unfold icapParseMsgTarget
  cases hcb : icap.callbacks with
  | none => exact Or.inl ⟨_, rfl⟩
  | some cb =>
      simp only
      split_ifs with hv hl hr
      · exact Or.inl ⟨_, rfl⟩
      · exact Or.inl ⟨_, rfl⟩
      · exact Or.inr (Or.inl ⟨hr, rfl⟩)
      · refine Or.inr (Or.inr ⟨cb, ⟨hcb, not_not.mp hv, by simpa using hl, not_not.mp hr⟩, ?_⟩)
        cases target icap.type msg <;> rfl

/-- The converse: when the checks pass, the type decides. -/
theorem Checked.target_eq {icap : IcapInstance T} {srcAddr : U32} {msg : IcapMsg} {size : U32}
    {cb : CallbackTable} (h : Checked P icap srcAddr msg size cb) :
    icapParseMsgTarget P icap srcAddr msg size
      = ({ icap with transport := (P.icapVerifyRemote icap.transport srcAddr).1 },
        match target icap.type msg with
        | some t => .ok (cb, t)
        | none => .error (-ICAP_ERROR_MSG_TYPE)) := by
  unfold icapParseMsgTarget
  have hlen : ¬ (!sizeMatches P msg size) = true := by simp [h.length]
  simp only [h.callbacks, if_neg (not_not_intro h.version), if_neg hlen,
    if_neg (not_not_intro h.remote)]
  cases target icap.type msg <;> rfl

/-- A handler is reached exactly when all five checks pass. -/
theorem icapParseMsgTarget_ok {icap : IcapInstance T} {srcAddr : U32} {msg : IcapMsg} {size : U32}
    {cb : CallbackTable} {t : Target} :
    (icapParseMsgTarget P icap srcAddr msg size).2 = .ok (cb, t) ↔
      Checked P icap srcAddr msg size cb ∧ target icap.type msg = some t := by
  constructor
  · intro hok
    rcases icapParseMsgTarget_cases (P := P) icap srcAddr msg size with
      ⟨e, h⟩ | ⟨-, h⟩ | ⟨cb', hchecked, h⟩
    · rw [h] at hok
      cases hok
    · rw [h] at hok
      cases hok
    · rw [h] at hok
      cases ht : target icap.type msg with
      | none =>
          rw [ht] at hok
          cases hok
      | some t' =>
          rw [ht] at hok
          cases hok
          exact ⟨hchecked, rfl⟩
  · rintro ⟨hchecked, ht⟩
    rw [hchecked.target_eq, ht]

theorem target_isSome_iff (type : IcapInstanceType) (msg : IcapMsg) :
    (∃ t, target type msg = some t) ↔
      msg.type = ICAP_MSG ∨ msg.type = ICAP_ACK ∨ msg.type = ICAP_NAK := by
  unfold target
  by_cases hr : msg.type = ICAP_ACK ∨ msg.type = ICAP_NAK
  · rw [if_pos hr]
    cases type <;> simp [hr]
  · rw [if_neg hr]
    by_cases hm : msg.type = ICAP_MSG
    · rw [if_pos hm]
      cases type <;> simp [hm]
    · rw [if_neg hm]
      simp [hm, hr]

theorem target_eq_none_iff {type : IcapInstanceType} {msg : IcapMsg} :
    target type msg = none ↔
      msg.type ≠ ICAP_MSG ∧ msg.type ≠ ICAP_ACK ∧ msg.type ≠ ICAP_NAK := by
  have hsome := target_isSome_iff type msg
  rw [← Option.isSome_iff_exists] at hsome
  rw [← Option.not_isSome_iff_eq_none, hsome]
  tauto

theorem reaches_iff {icap : IcapInstance T} {srcAddr : U32} {msg : IcapMsg} {size : U32} :
    Reaches P icap srcAddr msg size ↔
      icap.callbacks ≠ none ∧ msg.protocolVersion = ICAP_PROTOCOL_VERSION ∧
        sizeMatches P msg size = true ∧ (P.icapVerifyRemote icap.transport srcAddr).2 = 0 ∧
        (msg.type = ICAP_MSG ∨ msg.type = ICAP_ACK ∨ msg.type = ICAP_NAK) := by
  simp only [Reaches, icapParseMsgTarget_ok, ← target_isSome_iff icap.type]
  constructor
  · rintro ⟨cb, t, hchecked, ht⟩
    exact ⟨by rw [hchecked.callbacks]; simp, hchecked.version, hchecked.length, hchecked.remote,
      t, ht⟩
  · rintro ⟨hcb, hv, hl, hr, t, ht⟩
    obtain ⟨cb, hcb⟩ := Option.ne_none_iff_exists'.mp hcb
    exact ⟨cb, t, ⟨hcb, hv, hl, hr⟩, ht⟩

end

end Icap
