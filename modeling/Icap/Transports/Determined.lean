import Icap.BareMetal.Transport
import Icap.Linux.Transport
import Icap.Protocol.Extent

set_option autoImplicit false

/-! # What the bytes received determine

Both platforms as transports, and when `icap_parse_msg` depends on the received bytes only: when
the payload is at least as long as what the handler of the frame reads of it.
-/

namespace Icap

open ByteMemory

/-! ## The transports -/

theorem totalLen_congr {r r' : IcapMsg} (hlen : sizeofIcapMsgHeader ≤ r.totalLen.toNat)
    (hbytes : ∀ i, i < r.totalLen.toNat → r' i = r i) :
    r'.totalLen = r.totalLen ∧ r'.seqNum = r.seqNum := by
  simp only [sizeofIcapMsgHeader] at hlen
  have hpayload : r'.payloadLen = r.payloadLen :=
    load32_congr fun i hi => hbytes (36 + i) (by omega)
  have hseq : r'.seqNum = r.seqNum := load32_congr fun i hi => hbytes (4 + i) (by omega)
  exact ⟨by rw [IcapMsg.totalLen, IcapMsg.totalLen, hpayload], hseq⟩

def BareMetal.transport : Transport BareMetal.IcapTransport where
  toPlatform := BareMetal.bareMetal
  icapResponseNotify := BareMetal.icapResponseNotify
  wide := le_rfl
  notify_congr t r r' hlen hbytes := by
    have hcopy : copy t.lastResponse r' r.totalLen.toNat
        = copy t.lastResponse r r.totalLen.toNat := by
      funext i
      unfold copy
      split_ifs with hi
      · exact hbytes i hi
      · rfl
    unfold BareMetal.icapResponseNotify
    rw [(totalLen_congr hlen hbytes).1, hcopy]

/-- The bytes of a response that `skb_put_data` appends. -/
theorem Linux.notify_skb_congr {r r' : IcapMsg} (hlen : sizeofIcapMsgHeader ≤ r.totalLen.toNat)
    (hbytes : ∀ i, i < r.totalLen.toNat → r' i = r i) (skb : Linux.SkBuff) :
    skb.notify r' = skb.notify r := by
  have hdata (i : Nat) :
      (if i < skb.len then skb.data i
        else copy skb.data (fun j => r' (j - skb.len)) (skb.len + r.totalLen.toNat) i)
      = if i < skb.len then skb.data i
        else copy skb.data (fun j => r (j - skb.len)) (skb.len + r.totalLen.toNat) i := by
    unfold copy
    split_ifs with hold hnew
    · rfl
    · exact hbytes _ (by omega)
    · rfl
  simp only [Linux.SkBuff.notify, Linux.SkBuff.putData, (totalLen_congr hlen hbytes).1, hdata]

def Linux.transport (bits : Nat) (hbits : 32 ≤ bits) : Transport Linux.IcapTransport where
  toPlatform := Linux.linux bits
  icapResponseNotify := Linux.icapResponseNotify
  wide := hbits
  notify_congr t r r' hlen hbytes := by
    unfold Linux.icapResponseNotify
    rw [(totalLen_congr hlen hbytes).2]
    simp only [Linux.notify_skb_congr hlen hbytes]

/-! ## The checks -/

section

variable {T : Type} {P : Transport T} {icap : IcapInstance T} {srcAddr : U32}
  {msg msg' : IcapMsg} {size : U32}

theorem sameHeader_of_sameBytes (hsize : sizeofIcapMsgHeader ≤ size.toNat)
    (h : SameBytes size msg msg') : SameHeader msg msg' := by
  simp only [sizeofIcapMsgHeader] at hsize
  have hword (off : Nat) (hoff : off + 4 ≤ 40) : load32 msg' off = load32 msg off :=
    load32_congr fun i hi => h (off + i) (by omega)
  exact ⟨hword 0 (by omega), hword 4 (by omega), hword 8 (by omega), hword 12 (by omega),
    hword 36 (by omega)⟩

/-- The checks read the header only. -/
theorem icapParseMsgTarget_congr (P : Platform T) (h : SameHeader msg msg') :
    icapParseMsgTarget P icap srcAddr msg' size = icapParseMsgTarget P icap srcAddr msg size := by
  simp only [icapParseMsgTarget, sizeMatches, target, h.protocolVersion, h.payloadLen, h.type]

/-- A frame with a whole header that passes the length check has the length its header says. -/
theorem Checked.size_eq {cb : CallbackTable} (h : Checked P.toPlatform icap srcAddr msg size cb)
    (hsize : sizeofIcapMsgHeader ≤ size.toNat) :
    size.toNat = sizeofIcapMsgHeader + msg.payloadLen.toNat := by
  have hmod : size.toNat = (sizeofIcapMsgHeader + msg.payloadLen.toNat) % 2 ^ P.sizeBits :=
    of_decide_eq_true h.length
  have hpow : 2 ^ 32 ≤ 2 ^ P.sizeBits := Nat.pow_le_pow_right (by omega) P.wide
  have hpayload := msg.payloadLen.isLt
  simp only [sizeofIcapMsgHeader] at hmod hsize ⊢
  -- a sum that wraps around leaves less than a header
  by_cases hlt : 40 + msg.payloadLen.toNat < 2 ^ P.sizeBits
  · rw [hmod, Nat.mod_eq_of_lt hlt]
  · have hsub : (40 + msg.payloadLen.toNat) % 2 ^ P.sizeBits
        = 40 + msg.payloadLen.toNat - 2 ^ P.sizeBits := by
      rw [Nat.mod_eq_sub_mod (by omega), Nat.mod_eq_of_lt (by omega)]
    omega

theorem parseOutcome_target (answer : Callback → CallbackResult) (sendRet : U32) :
    parseOutcome P answer sendRet icap srcAddr msg size
      = ({ (icapParseMsgTarget P.toPlatform icap srcAddr msg size).1 with
          transport := ((runTarget msg (icapParseMsgTarget P.toPlatform icap srcAddr msg size).2
            ).perform P answer sendRet
              (icapParseMsgTarget P.toPlatform icap srcAddr msg size).1.transport).1 },
        ((runTarget msg (icapParseMsgTarget P.toPlatform icap srcAddr msg size).2).perform P answer
          sendRet (icapParseMsgTarget P.toPlatform icap srcAddr msg size).1.transport).2) := by
  unfold parseOutcome
  rw [icapParseMsg_target]

end

/-- **The bytes received determine what `icap_parse_msg` does**, on every transport, exactly when
the frame is refused by the checks or its payload is as long as what its handler reads. -/
theorem parse_determined_iff {T : Type} (P : Transport T) (icap : IcapInstance T) (srcAddr : U32)
    (msg : IcapMsg) {size : U32} (hsize : sizeofIcapMsgHeader ≤ size.toNat) :
    Determined P icap srcAddr msg size ↔
      ∀ cb h, (icapParseMsgTarget P.toPlatform icap srcAddr msg size).2 = .ok (cb, h) →
        h.extent cb msg ≤ msg.payloadLen.toNat := by
  constructor
  · intro hdetermined cb h hok
    obtain ⟨hchecked, htarget⟩ := icapParseMsgTarget_ok.mp hok
    have hlen := hchecked.size_eq hsize
    by_contra hlong
    -- a memory that differs in the first byte after the frame
    obtain ⟨msg', hmsg'⟩ : ∃ msg', msg' = Function.update msg size.toNat (msg size.toNat + 1) :=
      ⟨_, rfl⟩
    have hbytes : SameBytes size msg msg' := by
      intro i hi
      rw [hmsg', Function.update_of_ne (by omega)]
    have hheader := sameHeader_of_sameBytes hsize hbytes
    have hsame := hdetermined msg' hbytes (fun _ => ⟨0, Vector.replicate 28 0⟩) 0
    rw [parseOutcome_target, parseOutcome_target, icapParseMsgTarget_congr _ hheader, hok] at hsame
    have hacts := congrArg (fun r : IcapInstance T × List Action × U32 =>
      r.2.1.head?.map Action.payload) hsame
    have htarget' : target icap.type msg' = some h := by
      rw [target_congr hheader]
      exact htarget
    have hextent : h.extent cb msg' = h.extent cb msg := Target.extent_congr hheader
    simp only [runTarget] at hacts
    rw [Target.payload P _ _ _ htarget (by omega), Target.payload P _ _ _ htarget' (by omega),
      hextent] at hacts
    have hbyte := congrArg (fun l : List Byte => l[msg.payloadLen.toNat]?)
      (Option.some.inj hacts)
    have hlt : msg.payloadLen.toNat < h.extent cb msg := by omega
    simp only [block, List.getElem?_map, List.getElem?_range hlt, Option.map_some,
      Option.some.injEq, ← hlen, hmsg', Function.update_self] at hbyte
    simp at hbyte
  · intro hshort msg' hbytes answer sendRet
    have hheader := sameHeader_of_sameBytes hsize hbytes
    rw [parseOutcome_target, parseOutcome_target, icapParseMsgTarget_congr _ hheader]
    cases hok : (icapParseMsgTarget P.toPlatform icap srcAddr msg size).2 with
    | error e => rfl
    | ok p =>
        obtain ⟨cb, h⟩ := p
        obtain ⟨hchecked, htarget⟩ := icapParseMsgTarget_ok.mp hok
        have hlen := hchecked.size_eq hsize
        have hextent := hshort cb h hok
        have htotal : msg.totalLen.toNat = size.toNat := by
          have hlt := size.isLt
          rw [IcapMsg.totalLen_toNat, hlen]
          simp only [sizeofIcapMsgHeader] at hlen ⊢
          omega
        have hpayload : SamePayload (h.extent cb msg) msg msg' := fun i hi =>
          hbytes _ (by omega)
        have hperform := Target.perform_congr P answer sendRet
          (icapParseMsgTarget P.toPlatform icap srcAddr msg size).1.transport htarget hheader
          (by rw [htotal]; exact hbytes) (by rw [htotal]; exact hsize) hpayload
        simp only [runTarget, hperform]

/-! ## A command without its argument -/

/-- A device that can be stopped. -/
def stoppableDevice : IcapInstance BareMetal.IcapTransport :=
  (icapDeviceInit BareMetal.bareMetal (BareMetal.zeroedInstance 0 0) 0
    (some fun id => id = .stop) 0).1

/-- An `icap_stop` message of 40 bytes, without the subdevice id, and what lies behind it. -/
def stopFrame (behind : U32) : IcapMsg :=
  ofList (icapMsgFrame ICAP_MSG_STOP ICAP_MSG 1 [] ++ word32 behind)

/-- The device stops the subdevice whose id it finds behind the frame. -/
theorem stop_reads_behind :
    SameBytes 40 (stopFrame 1) (stopFrame 2) ∧
      ((parseOutcome BareMetal.transport (fun _ => ⟨0, Vector.replicate 28 0⟩) 0 stoppableDevice 7
        (stopFrame 1) 40).2.1.head?.map Action.payload = some (word32 1)) ∧
      ((parseOutcome BareMetal.transport (fun _ => ⟨0, Vector.replicate 28 0⟩) 0 stoppableDevice 7
        (stopFrame 2) 40).2.1.head?.map Action.payload = some (word32 2)) ∧
      ¬ Determined BareMetal.transport stoppableDevice 7 (stopFrame 1) 40 := by
  have hbytes : SameBytes 40 (stopFrame 1) (stopFrame 2) := by
    intro i hi
    have hlen (v : U32) : (icapMsgFrame ICAP_MSG_STOP ICAP_MSG 1 []).length = 40 := rfl
    have hi' : i < (icapMsgFrame ICAP_MSG_STOP ICAP_MSG 1 []).length := hi
    simp only [stopFrame, ofList, List.getElem?_append_left hi']
  have h1 : (parseOutcome BareMetal.transport (fun _ => ⟨0, Vector.replicate 28 0⟩) 0
      stoppableDevice 7 (stopFrame 1) 40).2.1.head?.map Action.payload = some (word32 1) := by rfl
  have h2 : (parseOutcome BareMetal.transport (fun _ => ⟨0, Vector.replicate 28 0⟩) 0
      stoppableDevice 7 (stopFrame 2) 40).2.1.head?.map Action.payload = some (word32 2) := by rfl
  refine ⟨hbytes, h1, h2, fun hdetermined => ?_⟩
  rw [hdetermined (stopFrame 2) hbytes, h1] at h2
  exact absurd h2 (by decide)

/-- A frame that carries the id. -/
theorem parse_determined_iff_stop :
    Determined BareMetal.transport stoppableDevice 7
      (ofList (icapMsgFrame ICAP_MSG_STOP ICAP_MSG 1 (word32 1))) 44 := by
  refine (parse_determined_iff BareMetal.transport stoppableDevice 7
    (ofList (icapMsgFrame ICAP_MSG_STOP ICAP_MSG 1 (word32 1))) (by decide)).mpr ?_
  intro cb h hok
  obtain ⟨hchecked, htarget⟩ := icapParseMsgTarget_ok.mp hok
  have hcb : cb = fun id => decide (id = .stop) := (Option.some.inj hchecked.callbacks).symm
  have hh : h = .deviceParseMsg := (Option.some.inj htarget).symm
  subst hcb hh
  exact Nat.le_of_ble_eq_true rfl

end Icap
