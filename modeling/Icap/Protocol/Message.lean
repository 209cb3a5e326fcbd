import Icap.Basic.ByteMemory

set_option autoImplicit false

/-! # ICAP messages

The constants, the message layout and the frames of `icap.h` and `icap_transport.h`. A
received message is memory (`IcapMsg`), of which the parser knows only the size the
transport reported; a frame handed to the transport is the list of its bytes. `icapMsgFrame`
is what `icap_send_msg` and `icap_send_response` build, and `frameAt_of_holds` says what a
reader of memory holding such a frame finds in each field.
-/

namespace Icap

open ByteMemory

/-- `uint32_t`, and `int32_t` as the same 32 bits (read with `BitVec.toInt`). -/
abbrev U32 := BitVec 32

/-! ## Constants -/

def ICAP_ERROR_INIT : U32 := 6
def ICAP_ERROR_BUSY : U32 := 16
def ICAP_ERROR_INVALID : U32 := 22
def ICAP_ERROR_BROKEN_CON : U32 := 32
def ICAP_ERROR_MSG_TYPE : U32 := 42
def ICAP_ERROR_PROTOCOL : U32 := 71
def ICAP_ERROR_MSG_ID : U32 := 74
def ICAP_ERROR_REMOTE_ADDR : U32 := 78
def ICAP_ERROR_MSG_LEN : U32 := 90
def ICAP_ERROR_PROTOCOL_NOT_SUP : U32 := 93
def ICAP_ERROR_TIMEOUT : U32 := 110

def ICAP_PROTOCOL_VERSION : U32 := 1

/-! `enum icap_msg_type` -/

def ICAP_MSG : U32 := 0
def ICAP_ACK : U32 := 1
def ICAP_NAK : U32 := 2

/-! `enum icap_msg_cmd` -/

def ICAP_MSG_GET_DEV_NUM : U32 := 9
def ICAP_MSG_GET_DEV_FEATURES : U32 := 10
def ICAP_MSG_DEV_INIT : U32 := 11
def ICAP_MSG_DEV_DEINIT : U32 := 12
def ICAP_MSG_ADD_SRC : U32 := 50
def ICAP_MSG_ADD_DST : U32 := 51
def ICAP_MSG_REMOVE_SRC : U32 := 52
def ICAP_MSG_REMOVE_DST : U32 := 53
def ICAP_MSG_START : U32 := 54
def ICAP_MSG_STOP : U32 := 55
def ICAP_MSG_PAUSE : U32 := 56
def ICAP_MSG_RESUME : U32 := 57
def ICAP_MSG_BUF_OFFSETS : U32 := 58
def ICAP_MSG_FRAG_READY : U32 := 59
def ICAP_MSG_XRUN : U32 := 60
def ICAP_MSG_ERROR : U32 := 200

/-- `sizeof(struct icap_msg_header)`: ten words. -/
def sizeofIcapMsgHeader : Nat := 40

/-- `sizeof(union icap_msg_payload)`: its largest member, `struct icap_buf_offsets`. -/
def sizeofIcapMsgPayload : Nat := 264

/-- `sizeof(struct icap_msg)` -/
def sizeofIcapMsg : Nat := sizeofIcapMsgHeader + sizeofIcapMsgPayload

/-! ## Message structs

The packed structs travel as the bytes they occupy; the code copies them whole and looks
into one field only, `icap_buf_frags.buf_id`. -/

abbrev IcapBufDescriptor := Vector Byte 108
abbrev IcapBufFrags := Vector Byte 8
abbrev IcapBufOffsets := Vector Byte 264
abbrev IcapSubdeviceFeatures := Vector Byte 28
abbrev IcapSubdeviceParams := Vector Byte 16

/-- `icap_buf_frags.buf_id` -/
def IcapBufFrags.bufId (frags : IcapBufFrags) : U32 := load32 (ofList frags.toList) 0

/-! ## Received messages -/

/-- `struct icap_msg *`: the memory from the start of the message on. -/
abbrev IcapMsg := Mem

namespace IcapMsg

def protocolVersion (msg : IcapMsg) : U32 := load32 msg 0
def seqNum (msg : IcapMsg) : U32 := load32 msg 4
def cmd (msg : IcapMsg) : U32 := load32 msg 8
def type (msg : IcapMsg) : U32 := load32 msg 12
def payloadLen (msg : IcapMsg) : U32 := load32 msg 36

/-- `payload.u32`, `payload.s32` and `payload.frags.buf_id`: the first payload word. -/
def payloadU32 (msg : IcapMsg) : U32 := load32 msg sizeofIcapMsgHeader

/-- A payload struct of `n` bytes. -/
def payloadStruct (msg : IcapMsg) (n : Nat) : Vector Byte n :=
  Vector.ofFn fun i => msg (sizeofIcapMsgHeader + i)

/-- `sizeof(struct icap_msg_header) + payload_len`, stored in a `uint32_t`. -/
def totalLen (msg : IcapMsg) : U32 := BitVec.ofNat 32 sizeofIcapMsgHeader + msg.payloadLen

theorem totalLen_toNat (msg : IcapMsg) :
    msg.totalLen.toNat = (40 + msg.payloadLen.toNat) % 2 ^ 32 := by
  rw [totalLen, BitVec.toNat_add]
  rfl

end IcapMsg

/-! ## Frames -/

/-- The bytes of a message: the header fields in order (the five reserved words are zero)
and the payload. -/
def icapMsgFrame (cmd type seqNum : U32) (payload : List Byte) : List Byte :=
  word32 ICAP_PROTOCOL_VERSION ++ word32 seqNum ++ word32 cmd ++ word32 type
    ++ List.replicate 20 0 ++ word32 (BitVec.ofNat 32 payload.length) ++ payload

@[simp] theorem icapMsgFrame_length (cmd type seqNum : U32) (payload : List Byte) :
    (icapMsgFrame cmd type seqNum payload).length = sizeofIcapMsgHeader + payload.length := by
  simp only [icapMsgFrame, List.length_append, word32_length, List.length_replicate,
    sizeofIcapMsgHeader]

/-- What the fields of a message read as when its memory holds a frame. -/
structure FrameAt (msg : IcapMsg) (cmd type seqNum : U32) (payload : List Byte) : Prop where
  protocolVersion : msg.protocolVersion = ICAP_PROTOCOL_VERSION
  seqNum : msg.seqNum = seqNum
  cmd : msg.cmd = cmd
  type : msg.type = type
  payloadLen : msg.payloadLen = BitVec.ofNat 32 payload.length
  payload : block msg sizeofIcapMsgHeader payload.length = payload

theorem frameAt_of_holds {msg : IcapMsg} {cmd type seqNum : U32} {payload : List Byte}
    (h : Holds msg (icapMsgFrame cmd type seqNum payload)) :
    FrameAt msg cmd type seqNum payload := by
  have hv : Holds msg ([] ++ word32 ICAP_PROTOCOL_VERSION ++ (word32 seqNum ++ word32 cmd
      ++ word32 type ++ List.replicate 20 0 ++ word32 (BitVec.ofNat 32 payload.length)
      ++ payload)) := by
    simpa only [icapMsgFrame, List.nil_append, List.append_assoc] using h
  have hs : Holds msg (word32 ICAP_PROTOCOL_VERSION ++ word32 seqNum ++ (word32 cmd
      ++ word32 type ++ List.replicate 20 0 ++ word32 (BitVec.ofNat 32 payload.length)
      ++ payload)) := by
    simpa only [icapMsgFrame, List.append_assoc] using h
  have hc : Holds msg ((word32 ICAP_PROTOCOL_VERSION ++ word32 seqNum) ++ word32 cmd
      ++ (word32 type ++ List.replicate 20 0 ++ word32 (BitVec.ofNat 32 payload.length)
      ++ payload)) := by
    simpa only [icapMsgFrame, List.append_assoc] using h
  have ht : Holds msg ((word32 ICAP_PROTOCOL_VERSION ++ word32 seqNum ++ word32 cmd)
      ++ word32 type ++ (List.replicate 20 0 ++ word32 (BitVec.ofNat 32 payload.length)
      ++ payload)) := by
    simpa only [icapMsgFrame, List.append_assoc] using h
  have hp : Holds msg (icapMsgFrame cmd type seqNum payload ++ []) := by
    simpa only [List.append_nil] using h
  exact
    { protocolVersion := Holds.load32_mid hv
      seqNum := Holds.load32_mid hs
      cmd := Holds.load32_mid hc
      type := Holds.load32_mid ht
      payloadLen := Holds.load32_mid h
      payload := Holds.block_mid hp }

namespace FrameAt

variable {msg : IcapMsg} {cmd type seqNum : U32} {payload : List Byte}

/-- A payload of one word is read back as that word. -/
theorem payloadU32 {v : U32} (h : FrameAt msg cmd type seqNum (word32 v)) :
    msg.payloadU32 = v :=
  load32_word32 h.payload

/-- A struct sent as payload is read back byte for byte. -/
theorem payloadStruct {n : Nat} {v : Vector Byte n} (h : FrameAt msg cmd type seqNum v.toList) :
    msg.payloadStruct n = v := by
  have hp := h.payload
  rw [Vector.length_toList] at hp
  apply Vector.ext
  intro i hi
  have hi' := congrArg (fun l => l[i]?) hp
  simpa [block, IcapMsg.payloadStruct, hi] using hi'

theorem bufId {v : IcapBufFrags} (h : FrameAt msg cmd type seqNum v.toList) :
    msg.payloadU32 = v.bufId := by
  have hp := h.payload
  rw [← holds_iff_block.mp (holds_ofList v.toList)] at hp
  simp only [block, List.length_map, List.length_range] at hp
  refine load32_congr (fun i hi => ?_)
  have hi' := congrArg (fun l => l[i]?) hp
  simpa [show i < 8 by omega] using hi'

/-- The frame's own length passes the length check, in 32-bit and in wider arithmetic. -/
theorem size_eq (h : FrameAt msg cmd type seqNum payload)
    (hp : payload.length ≤ sizeofIcapMsgPayload) {bits : Nat} (hbits : 32 ≤ bits) :
    (BitVec.ofNat 32 (sizeofIcapMsgHeader + payload.length)).toNat
      = (sizeofIcapMsgHeader + msg.payloadLen.toNat) % 2 ^ bits := by
  have hpow : 2 ^ 32 ≤ 2 ^ bits := Nat.pow_le_pow_right (by omega) hbits
  simp only [sizeofIcapMsgHeader, sizeofIcapMsgPayload] at *
  have hlen : msg.payloadLen.toNat = payload.length := by
    rw [h.payloadLen, BitVec.toNat_ofNat, Nat.mod_eq_of_lt (by omega)]
  calc (BitVec.ofNat 32 (40 + payload.length)).toNat
      = 40 + payload.length := by rw [BitVec.toNat_ofNat, Nat.mod_eq_of_lt (by omega)]
    _ = (40 + msg.payloadLen.toNat) % 2 ^ bits := by rw [hlen, Nat.mod_eq_of_lt (by omega)]

theorem totalLen (h : FrameAt msg cmd type seqNum payload)
    (hp : payload.length ≤ sizeofIcapMsgPayload) :
    msg.totalLen.toNat = sizeofIcapMsgHeader + payload.length := by
  simp only [IcapMsg.totalLen, h.payloadLen, sizeofIcapMsgHeader, sizeofIcapMsgPayload] at *
  rw [BitVec.toNat_add, BitVec.toNat_ofNat, BitVec.toNat_ofNat]
  omega

end FrameAt

end Icap
