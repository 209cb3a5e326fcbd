import Icap.Protocol.Parse

set_option autoImplicit false

/-! # The Linux rpmsg transport

`struct icap_transport` of `icap_linux_kernel_rpmsg.h` and the sections of
`icap_linux_kernel_rpmsg.c` that run under one of its locks. A synchronous call leaves a hint
in `response_queue` before it sends; the response is copied to the hint's skb and wakes the
call. An skb is named by its number in the order of allocation, so the name of a freed skb is
not used again.
-/

namespace Icap.Linux

open ByteMemory

def ENOMEM : U32 := 12
def ETIMEDOUT : U32 := 110
def ERESTARTSYS : U32 := 512

/-- `struct _icap_wait_hint` -/
structure IcapWaitHint where
  received : U32
  seqNum : U32
  msgCmd : U32

/-- An skb of `icap_prepare_wait`: the hint at `skb->head` and the `len` bytes at `skb->data`.
The code does not record which thread allocated it. -/
structure SkBuff where
  allocator : Nat
  hint : IcapWaitHint
  data : Mem
  len : Nat
  freed : Bool

/-- `struct icap_transport` without its locks, and the memory of the skbs. Of the device, if
`rpdev` is not `NULL`, only `dst` is read. -/
structure IcapTransport where
  rpdev : Option U32
  responseQueue : List Nat
  skbs : Nat → SkBuff
  allocated : Nat

abbrev Instance := IcapInstance IcapTransport

namespace IcapTransport

/-- Change one skb. -/
def modify (t : IcapTransport) (k : Nat) (f : SkBuff → SkBuff) : IcapTransport :=
  { t with skbs := Function.update t.skbs k (f (t.skbs k)) }

/-- `skb_unlink` -/
def skbUnlink (t : IcapTransport) (k : Nat) : IcapTransport :=
  { t with responseQueue := t.responseQueue.erase k }

/-- `kfree_skb`; the memory keeps what it held. -/
def kfreeSkb (t : IcapTransport) (k : Nat) : IcapTransport :=
  t.modify k fun skb => { skb with freed := true }

end IcapTransport

/-- `skb_put_data` -/
def SkBuff.putData (skb : SkBuff) (src : Mem) (n : Nat) : SkBuff :=
  { skb with
    data := fun i => if i < skb.len then skb.data i else copy skb.data (fun j => src (j - skb.len))
      (skb.len + n) i
    len := skb.len + n }

/-- The response is copied behind what the skb holds, and the call can wake up. -/
def SkBuff.notify (skb : SkBuff) (response : IcapMsg) : SkBuff :=
  { skb.putData response response.totalLen.toNat with
    hint := { skb.hint with received := 1 } }

/-- A new skb with a hint, at the tail of the queue. -/
def IcapTransport.pushHint (t : IcapTransport) (allocator : Nat) (cmd seqNum : U32) (mem : Mem) :
    IcapTransport :=
  { t with
    responseQueue := t.responseQueue ++ [t.allocated]
    skbs := Function.update t.skbs t.allocated ⟨allocator, ⟨0, seqNum, cmd⟩, mem, 0, false⟩
    allocated := t.allocated + 1 }

/-! ## The functions -/

def icapInitTransport (t : IcapTransport) : IcapTransport := { t with responseQueue := [] }

/-- The hints that still wait are freed. -/
def icapDeinitTransport (t : IcapTransport) : IcapTransport :=
  { t.responseQueue.foldl IcapTransport.kfreeSkb t with responseQueue := [], rpdev := none }

/-- `icap_send_platform`; `sendRet` is what `rpmsg_send` returns. -/
def icapSendPlatform (t : IcapTransport) (sendRet : U32) : U32 :=
  if t.rpdev.isNone then -ICAP_ERROR_BROKEN_CON else sendRet

/-- `_find_seq_num` -/
def findSeqNum (t : IcapTransport) (seqNum : U32) : Option Nat :=
  t.responseQueue.find? fun k => (t.skbs k).hint.seqNum = seqNum

/-- The skbs `_find_seq_num` reads. -/
def walkSeqNum (t : IcapTransport) (seqNum : U32) : List Nat :=
  (t.responseQueue.takeWhile fun k => (t.skbs k).hint.seqNum ≠ seqNum)
    ++ (findSeqNum t seqNum).toList

/-- `icap_prepare_wait` in the thread `allocator`; `mem` is what `alloc_skb` returns, the
memory of a new skb or `NULL`. -/
def icapPrepareWait (t : IcapTransport) (allocator : Nat) (cmd seqNum : U32) (mem : Option Mem) :
    IcapTransport × U32 :=
  if t.rpdev.isNone then
    (t, -ICAP_ERROR_BROKEN_CON)
  else
    match mem with
    | none => (t, -ENOMEM)
    | some mem => (t.pushHint allocator cmd seqNum mem, 0)

/-- A response nobody waits for is dropped. -/
def icapResponseNotify (t : IcapTransport) (response : IcapMsg) : IcapTransport × U32 :=
  match findSeqNum t response.seqNum with
  | some k => (t.modify k fun skb => skb.notify response, 0)
  | none => (t, -ICAP_ERROR_TIMEOUT)

/-- rpmsg endpoints on Linux are one to one. -/
def icapVerifyRemote (t : IcapTransport) (_srcAddr : U32) : IcapTransport × U32 := (t, 0)

/-- The platform of a kernel whose `size_t` has `bits` bits. -/
def linux (bits : Nat) : Platform IcapTransport where
  sizeBits := bits
  icapInitTransport := icapInitTransport
  icapDeinitTransport := icapDeinitTransport
  icapVerifyRemote := icapVerifyRemote

/-- `icap_parse_msg` itself changes nothing of the instance here. -/
theorem icapParseMsg_eq (bits : Nat) (icap : Instance) (srcAddr : U32) (msg : IcapMsg)
    (size : U32) : (icapParseMsg (linux bits) icap srcAddr msg size).1 = icap := by
  rcases icapParseMsg_instance (P := linux bits) icap srcAddr msg size with h | h
  · exact h
  · exact h

section

variable {t : IcapTransport} {n : U32} {k : Nat}

/-! ## One skb of many -/

theorem pushHint_of_ne {allocator : Nat} {cmd seqNum : U32} {mem : Mem} (hk : k ≠ t.allocated) :
    (t.pushHint allocator cmd seqNum mem).skbs k = t.skbs k :=
  Function.update_of_ne hk _ _

theorem pushHint_self (t : IcapTransport) (allocator : Nat) (cmd seqNum : U32) (mem : Mem) :
    (t.pushHint allocator cmd seqNum mem).skbs t.allocated
      = ⟨allocator, ⟨0, seqNum, cmd⟩, mem, 0, false⟩ :=
  Function.update_self _ _ _

theorem modify_of_ne {j : Nat} {f : SkBuff → SkBuff} (hk : k ≠ j) :
    (t.modify j f).skbs k = t.skbs k :=
  Function.update_of_ne hk _ _

theorem modify_self (t : IcapTransport) (k : Nat) (f : SkBuff → SkBuff) :
    (t.modify k f).skbs k = f (t.skbs k) :=
  Function.update_self _ _ _

/-! ## Finding a hint -/

theorem findSeqNum_some (h : findSeqNum t n = some k) :
    k ∈ t.responseQueue ∧ (t.skbs k).hint.seqNum = n :=
  ⟨List.mem_of_find?_eq_some h, by simpa using List.find?_some h⟩

theorem findSeqNum_none (h : findSeqNum t n = none) :
    ∀ k ∈ t.responseQueue, (t.skbs k).hint.seqNum ≠ n := by
  intro k hk
  simpa using List.find?_eq_none.mp h k hk

theorem mem_queue_of_walk (h : k ∈ walkSeqNum t n) : k ∈ t.responseQueue := by
  rcases List.mem_append.mp h with h | h
  · exact (List.takeWhile_sublist _).mem h
  · exact (findSeqNum_some (Option.mem_toList.mp h)).1

end

end Icap.Linux
