import Icap.Protocol.Dispatch

set_option autoImplicit false

/-! # Responses

What a response says to the call that waits for it, and which part of its memory that takes: a
platform keeps a copy of the response, and the copy answers the call as the response itself
would (`Agrees`).
-/

namespace Icap

open ByteMemory

def IsResponse (msg : IcapMsg) : Prop := msg.type = ICAP_ACK ∨ msg.type = ICAP_NAK

instance (msg : IcapMsg) : Decidable (IsResponse msg) := inferInstanceAs (Decidable (_ ∨ _))

/-- What `icap_wait_for_response` returns for the response it has waited for. -/
def responseRet (last : IcapMsg) : U32 := if last.type = ICAP_NAK then last.payloadU32 else 0

/-- A full header at least, a `struct icap_msg` at most, and a NAK carries one word. -/
structure WellFormed (msg : IcapMsg) (size : U32) : Prop where
  header : sizeofIcapMsgHeader ≤ size.toNat
  size : size.toNat ≤ sizeofIcapMsg
  nak : msg.type = ICAP_NAK → msg.payloadLen = 4

/-- The memory `last` starts with the whole of the response `r`. -/
structure Agrees (last r : IcapMsg) : Prop where
  bytes : ∀ i, i < r.totalLen.toNat → last i = r i
  header : sizeofIcapMsgHeader ≤ r.totalLen.toNat
  nak : r.type = ICAP_NAK → sizeofIcapMsgHeader + 4 ≤ r.totalLen.toNat

namespace Agrees

variable {last r : IcapMsg}

theorem load32 (h : Agrees last r) {off : Nat} (hoff : off + 4 ≤ r.totalLen.toNat) :
    ByteMemory.load32 last off = ByteMemory.load32 r off :=
  load32_congr fun _ hi => h.bytes _ (by omega)

theorem seqNum (h : Agrees last r) : last.seqNum = r.seqNum := by
  have hh := h.header
  simp only [sizeofIcapMsgHeader] at hh
  exact h.load32 (by omega)

theorem type (h : Agrees last r) : last.type = r.type := by
  have hh := h.header
  simp only [sizeofIcapMsgHeader] at hh
  exact h.load32 (by omega)

theorem totalLen (h : Agrees last r) : last.totalLen = r.totalLen := by
  have hh := h.header
  simp only [sizeofIcapMsgHeader] at hh
  have hlen : last.payloadLen = r.payloadLen := h.load32 (by omega)
  rw [IcapMsg.totalLen, IcapMsg.totalLen, hlen]

theorem responseRet (h : Agrees last r) : responseRet last = responseRet r := by
  unfold Icap.responseRet
  rw [h.type]
  by_cases ht : r.type = ICAP_NAK
  · rw [if_pos ht, if_pos ht]
    exact h.load32 (h.nak ht)
  · rw [if_neg ht, if_neg ht]

/-- A copy of the response's bytes. -/
theorem copy (h : Agrees last r) (dst : Mem) :
    ByteMemory.copy dst last r.totalLen.toNat = ByteMemory.copy dst r r.totalLen.toNat := by
  funext i
  unfold ByteMemory.copy
  split_ifs with hi
  · exact h.bytes i hi
  · rfl

end Agrees

section

variable {T : Type} {P : Platform T} {msg : IcapMsg} {size : U32}

/-- The length computed from the header of an accepted response is its size. -/
theorem AcceptedResponse.totalLen_toNat (ha : AcceptedResponse P msg size)
    (hbits : 32 ≤ P.sizeBits) : msg.totalLen.toNat = size.toNat := by
  have hsize : size.toNat = (sizeofIcapMsgHeader + msg.payloadLen.toNat) % 2 ^ P.sizeBits := by
    simpa [sizeMatches] using ha.length
  have hlen : msg.totalLen.toNat = (sizeofIcapMsgHeader + msg.payloadLen.toNat) % 2 ^ 32 :=
    msg.totalLen_toNat
  rcases Nat.eq_or_lt_of_le hbits with h32 | h33
  · rw [hlen, hsize, ← h32]
  · -- a wider `size_t` holds the sum, and the sum is the size, which has 32 bits
    have hpow : 2 ^ 33 ≤ 2 ^ P.sizeBits := Nat.pow_le_pow_right (by omega) h33
    have hpayload := msg.payloadLen.isLt
    have hlt := size.isLt
    have hheader : sizeofIcapMsgHeader = 40 := rfl
    have hexact : size.toNat = sizeofIcapMsgHeader + msg.payloadLen.toNat :=
      hsize.trans (Nat.mod_eq_of_lt (by omega))
    rw [hlen, ← hexact]
    exact Nat.mod_eq_of_lt hlt

/-- Memory that starts with an accepted, well-formed response agrees with it. -/
theorem agrees_of_accepted {last : IcapMsg} (ha : AcceptedResponse P msg size)
    (hbits : 32 ≤ P.sizeBits) (hw : WellFormed msg size)
    (hbytes : ∀ i, i < msg.totalLen.toNat → last i = msg i) : Agrees last msg := by
  refine ⟨hbytes, by rw [ha.totalLen_toNat hbits]; exact hw.header, fun hn => ?_⟩
  rw [IcapMsg.totalLen, hw.nak hn]
  decide

end

end Icap
