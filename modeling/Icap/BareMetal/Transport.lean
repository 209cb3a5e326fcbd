import Icap.Basic.Ring
import Icap.Protocol.Response

set_option autoImplicit false

/-! # The rpmsg-lite transport

`struct icap_transport` of `icap_bm_rpmsg-lite.h` and the functions of
`icap_bm_rpmsg-lite.c` that touch nothing else: a fifo of receive buffers held from the
vring, the address of the peer and the last response. The fifo is a `RingBuffer.Ring` whose
size `ICAP_MSG_QUEUE_SIZE` is the parameter `Q`.
-/

namespace Icap.BareMetal

open ByteMemory RingBuffer

/-- A receive buffer of the vring: its address and the bytes from there on. -/
structure RxBuffer where
  addr : Nat
  mem : IcapMsg

/-- `struct _icap_remote_msg` -/
structure IcapRemoteMsg where
  data : RxBuffer
  size : U32
  srcAddr : U32

/-- `struct _icap_msg_fifo` -/
abbrev IcapMsgFifo := RingBuffer.Ring IcapRemoteMsg

/-- `struct icap_transport`; the pointers to the rpmsg-lite objects are addresses. -/
structure IcapTransport where
  rpmsgInstance : Nat
  rpmsgEpt : Nat
  remoteAddr : U32
  msgFifo : IcapMsgFifo
  lastResponse : IcapMsg

abbrev Instance := IcapInstance IcapTransport

def ICAP_MSG_TIMEOUT_US : U32 := 600000

/-- A zeroed `struct _icap_remote_msg`: its data pointer is `NULL`. -/
def IcapRemoteMsg.zero : IcapRemoteMsg := ⟨⟨0, fun _ => 0⟩, 0, 0⟩

/-- A zeroed `struct _icap_msg_fifo`. -/
def IcapMsgFifo.zero : IcapMsgFifo := ⟨0, 0, fun _ => .zero⟩

/-- A zeroed instance whose two rpmsg-lite pointers have been set. -/
def zeroedInstance (rpmsgInstance rpmsgEpt : Nat) : Instance where
  transport := ⟨rpmsgInstance, rpmsgEpt, 0, .zero, fun _ => 0⟩
  name := 0
  type := .application
  priv := 0
  callbacks := none
  seqNum := 0

/-! ## Opening, closing and the remote check -/

def icapInitTransport (t : IcapTransport) : IcapTransport :=
  { t with msgFifo := .zero, remoteAddr := -1 }

def icapDeinitTransport (t : IcapTransport) : IcapTransport := t

/-- The first peer that is heard becomes the only one. -/
def icapVerifyRemote (t : IcapTransport) (srcAddr : U32) : IcapTransport × U32 :=
  if t.remoteAddr = -1 then
    ({ t with remoteAddr := srcAddr }, 0)
  else if t.remoteAddr ≠ srcAddr then
    (t, -ICAP_ERROR_REMOTE_ADDR)
  else
    (t, 0)

/-- The platform `icap_parse_msg` is compiled for; its `size_t` has 32 bits. -/
def bareMetal : Platform IcapTransport where
  sizeBits := 32
  icapInitTransport := icapInitTransport
  icapDeinitTransport := icapDeinitTransport
  icapVerifyRemote := icapVerifyRemote

theorem icapVerifyRemote_eq (t : IcapTransport) (srcAddr : U32) :
    ∃ a, (icapVerifyRemote t srcAddr).1 = { t with remoteAddr := a } := by
  unfold icapVerifyRemote
  split_ifs
  · exact ⟨srcAddr, rfl⟩
  · exact ⟨t.remoteAddr, rfl⟩
  · exact ⟨t.remoteAddr, rfl⟩

/-- `icap_parse_msg` changes nothing of the instance but the remote address. -/
theorem icapParseMsg_eq (icap : Instance) (srcAddr : U32) (msg : IcapMsg) (size : U32) :
    ∃ a, (icapParseMsg bareMetal icap srcAddr msg size).1
      = { icap with transport := { icap.transport with remoteAddr := a } } := by
  rcases icapParseMsg_instance (P := bareMetal) icap srcAddr msg size with h | h
  · exact ⟨icap.transport.remoteAddr, h⟩
  · obtain ⟨a, ha⟩ := icapVerifyRemote_eq icap.transport srcAddr
    refine ⟨a, h.trans ?_⟩
    rw [show (bareMetal.icapVerifyRemote icap.transport srcAddr).1 = _ from ha]

/-! ## The fifo -/

/-- The `atomic_t` index after `i`; the sum is cut to 16 bits before it is compared. -/
def indexNext (Q i : Nat) : Nat :=
  let next := (i + 1) % 2 ^ 16
  if next ≥ Q then 0 else next

/-- What `icap_put_msg` returns: `RL_HOLD`, `RL_ERR_NO_BUFF` or an error. -/
inductive PutResult where
  | hold
  | noBuff
  | error (ret : U32)
  deriving DecidableEq

def icapPutMsg (Q : Nat) (icap : Instance) (msg : IcapRemoteMsg) : Instance × PutResult :=
  if icap.callbacks.isNone then
    (icap, .error (-ICAP_ERROR_INIT))
  else
    let fifo := icap.transport.msgFifo
    let headNext := indexNext Q fifo.head
    if headNext = fifo.tail then
      (icap, .noBuff)
    else
      let fifo := { fifo.write headNext msg with head := headNext }
      ({ icap with transport := { icap.transport with msgFifo := fifo } }, .hold)

/-- A message is refused by an instance that is not initialised and by a full fifo, and
written to the slot after the head otherwise. -/
theorem icapPutMsg_cases (Q : Nat) (icap : Instance) (msg : IcapRemoteMsg) :
    (icap.callbacks = none ∧ icapPutMsg Q icap msg = (icap, .error (-ICAP_ERROR_INIT)))
    ∨ (indexNext Q icap.transport.msgFifo.head = icap.transport.msgFifo.tail ∧
      icapPutMsg Q icap msg = (icap, .noBuff))
    ∨ (icap.callbacks ≠ none ∧
      indexNext Q icap.transport.msgFifo.head ≠ icap.transport.msgFifo.tail ∧
      icapPutMsg Q icap msg = ({ icap with transport := { icap.transport with msgFifo :=
        { icap.transport.msgFifo.write (indexNext Q icap.transport.msgFifo.head) msg with
          head := indexNext Q icap.transport.msgFifo.head } } }, .hold)) := by
  cases hcb : icap.callbacks with
  | none => exact Or.inl ⟨rfl, by simp only [icapPutMsg, hcb, Option.isNone_none, if_true]⟩
  | some cb =>
      by_cases hfull : indexNext Q icap.transport.msgFifo.head = icap.transport.msgFifo.tail
      · refine Or.inr (Or.inl ⟨hfull, ?_⟩)
        simp only [icapPutMsg, hcb, hfull, Option.isNone_some, Bool.false_eq_true, if_false,
          if_true]
      · refine Or.inr (Or.inr ⟨by simp, hfull, ?_⟩)
        simp only [icapPutMsg, hcb, hfull, Option.isNone_some, Bool.false_eq_true, if_false]

/-- The indices of a fifo of up to 65535 slots do not overflow. -/
theorem indexNext_eq {Q i : Nat} (hQ : Q < 2 ^ 16) (hi : i < Q) : indexNext Q i = next Q i := by
  simp only [indexNext, next]
  rw [Nat.mod_eq_of_lt (by omega)]

/-! ## The last response -/

/-- `icap_response_notify` -/
def icapResponseNotify (t : IcapTransport) (response : IcapMsg) : IcapTransport × U32 :=
  ({ t with lastResponse := copy t.lastResponse response response.totalLen.toNat }, 0)

/-- What `icap_wait_for_response` leaves in `*response`, a `struct icap_msg`, when `last` is the
response it waits for. What a longer copy overwrites behind it is undefined. -/
def responseCopy (last : IcapMsg) (response : Mem) : Mem :=
  if last.type = ICAP_NAK then response else copy response last last.totalLen.toNat

end Icap.BareMetal
