import Icap.Linux.Calls
import Icap.Linux.Ownership
import Icap.Protocol.Response

set_option autoImplicit false

/-! # Each call gets its own response

Any number of threads call an application instance that is not closed, and the peer answers each
message at most once. A response on its way to `icap_response_notify` finds the hint of its
call empty, as no other response has its seq_num, and a hint that is full holds the response
with its seq_num (`Answered`). So a call that is woken by a response returns that response
(`responses_matched`), in whatever order threads, deliveries, timeouts and signals come.
-/

namespace Icap.Linux

open ByteMemory Transition

/-! ## The environment -/

def Input.response (inp : Input) : Option IcapMsg :=
  match inp.action with
  | .receive _ msg _ => if IsResponse msg then some msg else none
  | _ => none

/-- The responses the peer has delivered. -/
def responses (tr : Trace Input Event) : List IcapMsg := tr.inputs.filterMap Input.response

/-- The instance is neither closed nor initialised again, fewer than `2 ^ 32` messages are
sent, and the peer answers each message it was sent at most once, with a well-formed frame. -/
def AnswersOnce (tr : Trace Input Event) (_ : State) (inp : Input) : Prop :=
  match inp.action with
  | .call c _ => (c.request 0).isSome → (startedSeqNums tr).length + 1 < 2 ^ 32
  | .receive _ msg size => IsResponse msg → WellFormed msg size ∧
      msg.seqNum ∈ sentSeqNums tr ∧ msg.seqNum ∉ (responses tr).map IcapMsg.seqNum
  | a => a.opens = false ∧ a.closes = false

/-! ## What the hints and the threads hold -/

/-- The skb holds the response and nothing else. -/
def Filled (skb : SkBuff) (r : IcapMsg) : Prop :=
  Agrees skb.data r ∧ skb.len = r.totalLen.toNat

/-- What the call returns for a response. -/
def Message.resultFor (m : Message) (r : IcapMsg) : CallResult :=
  m.call.finish (m.answer r r.totalLen.toNat).1 (m.answer r r.totalLen.toNat).2

/-- The response a receiver is about to hand to `icap_response_notify`. -/
def Thread.inFlight : Thread → Option IcapMsg
  | .parse (.responseNotify r _) => some r
  | _ => none

/-- What the thread has learned of the responses delivered. -/
def ThreadOk (resp : List IcapMsg) (t : IcapTransport) : Thread → Prop
  | .unlink _ skb .response => (t.skbs skb).hint.received ≠ 0
  | .result m skb .response => ∃ r ∈ resp, r.seqNum = m.seqNum ∧ Filled (t.skbs skb) r
  | .free m _ .response ret response =>
      ∃ r ∈ resp, r.seqNum = m.seqNum ∧ m.answer r r.totalLen.toNat = (ret, response)
  | .parse p => p.Silent ∨ ∃ r ∈ resp, p = .responseNotify r .done ∧ Agrees r r
  | .deinitTransport => False
  | _ => True

structure Answered (tr : Trace Input Event) (t : IcapTransport) (threads : Nat → Thread) :
    Prop where
  once : ((responses tr).map IcapMsg.seqNum).Nodup
  sent : ∀ r ∈ responses tr, r.seqNum ∈ sentSeqNums tr
  knows : ∀ i, ThreadOk (responses tr) t (threads i)
  flights : ∀ i j r r', (threads i).inFlight = some r → (threads j).inFlight = some r' →
    r.seqNum = r'.seqNum → i = j
  queued : ∀ k ∈ t.responseQueue,
    (t.skbs k).hint.received = 0 ∧ (t.skbs k).len = 0 ∨
    (t.skbs k).hint.received ≠ 0 ∧
      ∃ r ∈ responses tr, r.seqNum = (t.skbs k).hint.seqNum ∧ Filled (t.skbs k) r
  pending : ∀ i r, (threads i).inFlight = some r → ∀ k ∈ t.responseQueue,
    (t.skbs k).hint.seqNum = r.seqNum → (t.skbs k).hint.received = 0
  returned : ∀ m r, .returned m (some .response) r ∈ tr.events →
    ∃ msg ∈ responses tr, msg.seqNum = m.seqNum ∧ r = m.resultFor msg

section

variable {tr : Trace Input Event} {t t' : IcapTransport} {threads : Nat → Thread} {i : Nat}
  {th th' : Thread} {inp : Input} {ev : List Event} {resp resp' : List IcapMsg}

theorem responses_snoc :
    responses (tr ++ [(inp, ev)]) = responses tr ++ inp.response.toList := by
  cases h : inp.response with
  | none => simp [responses, Trace.inputs, h]
  | some r => simp [responses, Trace.inputs, h]

/-- The hint, the bytes and the length of an skb. -/
def SameContents (skb skb' : SkBuff) : Prop :=
  skb'.hint = skb.hint ∧ skb'.data = skb.data ∧ skb'.len = skb.len

theorem SameContents.filled {skb skb' : SkBuff} (h : SameContents skb skb') {r : IcapMsg}
    (hf : Filled skb r) : Filled skb' r := by
  obtain ⟨-, hdata, hlen⟩ := h
  unfold Filled
  rw [hdata, hlen]
  exact hf

/-- What a thread knows stays true while its skb is left alone. -/
theorem ThreadOk.congr (h : ThreadOk resp t th) (hresp : ∀ r ∈ resp, r ∈ resp')
    (hheld : ∀ k, th.held = some k → (t.skbs k).hint.received ≠ 0 →
      (t'.skbs k).hint.received ≠ 0)
    (hremoved : ∀ k, th.removed = some k → SameContents (t.skbs k) (t'.skbs k)) :
    ThreadOk resp' t' th := by
  -- what a thread knows depends on its cause of waking only when that is a response
  cases th with
  | unlink m skb timeout =>
      cases timeout with
      | response => exact hheld skb rfl h
      | elapsed => trivial
      | signal => trivial
  | result m skb timeout =>
      cases timeout with
      | response =>
          obtain ⟨r, hr, hseq, hf⟩ := h
          exact ⟨r, hresp r hr, hseq, (hremoved skb rfl).filled hf⟩
      | elapsed => trivial
      | signal => trivial
  | free m skb timeout ret response =>
      cases timeout with
      | response =>
          obtain ⟨r, hr, hrest⟩ := h
          exact ⟨r, hresp r hr, hrest⟩
      | elapsed => trivial
      | signal => trivial
  | parse p =>
      rcases h with h | ⟨r, hr, hrest⟩
      · exact Or.inl h
      · exact Or.inr ⟨r, hresp r hr, hrest⟩
  | deinitTransport => exact h
  | _ => trivial

/-- A full skb answers its call as the response does. -/
theorem answer_filled {skb : SkBuff} {r : IcapMsg} (h : Filled skb r) (m : Message) :
    m.answer skb.data skb.len = m.answer r r.totalLen.toNat := by
  obtain ⟨hagree, hlen⟩ := h
  unfold Message.answer
  rw [hagree.type, hlen, hagree.copy]
  by_cases hnak : r.type = ICAP_NAK
  · rw [if_pos hnak, if_pos hnak]
    congr 1
    exact hagree.load32 (hagree.nak hnak)
  · rw [if_neg hnak, if_neg hnak]

/-- A response copied to an empty skb fills it. -/
theorem filled_notify {skb : SkBuff} (hlen : skb.len = 0) {r : IcapMsg} (hr : Agrees r r) :
    Filled (skb.notify r) r := by
  constructor
  · refine ⟨fun i hi => ?_, hr.header, hr.nak⟩
    simp only [SkBuff.notify, SkBuff.putData, hlen, Nat.not_lt_zero, if_false, Nat.zero_add,
      Nat.sub_zero]
    exact copy_lt hi
  · simp only [SkBuff.notify, SkBuff.putData, hlen, Nat.zero_add]

theorem inFlight_silent {p : Parse U32} (h : p.Silent) : (Thread.parse p).inFlight = none := by
  cases p with
  | responseNotify r k => exact h.elim
  | _ => rfl

/-! ## Steps -/

/-- A step that delivers no response and fills no hint. -/
theorem Answered.go (h : Answered tr t threads) (howned : Owned t threads)
    (hresp : inp.response = none) (hqueue : ∀ k ∈ t'.responseQueue, k ∈ t.responseQueue ∨
      (t'.skbs k).hint.received = 0 ∧ (t'.skbs k).len = 0)
    (hskb : ∀ k < t.allocated, SameContents (t.skbs k) (t'.skbs k))
    (hthread : ThreadOk (responses tr) t' th')
    (hflight : th'.inFlight = none ∨ th'.inFlight = (threads i).inFlight)
    (hreturned : ∀ m r, .returned m (some .response) r ∈ ev →
      ∃ msg ∈ responses tr, msg.seqNum = m.seqNum ∧ r = m.resultFor msg) :
    Answered (tr ++ [(inp, ev)]) t' (Function.update threads i th') := by
  have hr : responses (tr ++ [(inp, ev)]) = responses tr := by
    rw [responses_snoc, hresp]
    exact List.append_nil _
  have hfl : ∀ j r, (Function.update threads i th' j).inFlight = some r →
      (threads j).inFlight = some r := fun j r hj => update_keeps hflight.symm hj
  constructor
  · rw [hr]
    exact h.once
  · intro r hmem
    rw [hr] at hmem
    rw [sentSeqNums_snoc]
    exact List.mem_append_left _ (h.sent r hmem)
  · intro j
    rw [hr]
    by_cases hji : j = i
    · rw [hji, Function.update_self]
      exact hthread
    · rw [Function.update_of_ne hji]
      refine (h.knows j).congr (fun r hmem => hmem) ?_ ?_
      · intro k hk hreceived
        have hlt := (howned.queued k (howned.held j k hk).1).1
        rw [(hskb k hlt).1]
        exact hreceived
      · intro k hk
        exact hskb k (howned.removed j k hk).1
  · intro j j' r r' hj hj'
    exact h.flights j j' r r' (hfl j r hj) (hfl j' r' hj')
  · intro k hk
    rw [hr]
    rcases hqueue k hk with hk | hk
    · obtain ⟨hhint, hdata, hlen⟩ := hskb k (howned.queued k hk).1
      rcases h.queued k hk with ⟨h0, hl⟩ | ⟨hne, r, hmem, hseq, hf⟩
      · refine Or.inl ⟨?_, hlen.trans hl⟩
        rw [hhint]
        exact h0
      · refine Or.inr ⟨?_, r, hmem, ?_, SameContents.filled ⟨hhint, hdata, hlen⟩ hf⟩
        · rw [hhint]
          exact hne
        · rw [hhint]
          exact hseq
    · exact Or.inl hk
  · intro j r hj k hk hseq
    rcases hqueue k hk with hk | hk
    · have hhint := (hskb k (howned.queued k hk).1).1
      rw [hhint] at hseq ⊢
      exact h.pending j r (hfl j r hj) k hk hseq
    · exact hk.1
  · intro m r hmem
    rw [hr]
    rw [Trace.mem_events_snoc] at hmem
    rcases hmem with hmem | hmem
    · exact h.returned m r hmem
    · exact hreturned m r hmem

/-- `icap_response_notify` fills the hint of the call. -/
theorem Answered.notified (h : Answered tr t threads) (howned : Owned t threads) {r : IcapMsg}
    {k : U32 → Parse U32} {skb : Nat} (hth : threads i = .parse (.responseNotify r k))
    (hfind : findSeqNum t r.seqNum = some skb) (hresp : inp.response = none)
    (hev : ∀ m timeout res, .returned m timeout res ∉ ev) :
    Answered (tr ++ [(inp, ev)]) (t.modify skb fun b => b.notify r)
      (Function.update threads i (.parse (k 0))) := by
  have hr : responses (tr ++ [(inp, ev)]) = responses tr := by
    rw [responses_snoc, hresp]
    exact List.append_nil _
  obtain ⟨hmem, hk, hself⟩ : r ∈ responses tr ∧ k = .done ∧ Agrees r r := by
    have hok := h.knows i
    rw [hth] at hok
    rcases hok with hsilent | ⟨r', hr', heq, hself⟩
    · exact hsilent.elim
    · obtain ⟨rfl, rfl⟩ := Parse.responseNotify.inj heq
      exact ⟨hr', rfl, hself⟩
  have hflight : (threads i).inFlight = some r := by
    rw [hth]
    rfl
  obtain ⟨hin, hseq⟩ := findSeqNum_some hfind
  have hreceived := h.pending i r hflight skb hin hseq
  -- the hint has not been filled, since its response was in flight
  have hlen : (t.skbs skb).len = 0 := by
    rcases h.queued skb hin with ⟨-, hl⟩ | ⟨hne, -⟩
    · exact hl
    · exact absurd hreceived hne
  have hfl : ∀ j r', (Function.update threads i (.parse (k 0)) j).inFlight = some r' →
      j ≠ i ∧ (threads j).inFlight = some r' := by
    intro j r' hj
    rcases update_some hj with ⟨-, hnew⟩ | hold
    · rw [hk] at hnew
      cases hnew
    · exact hold
  constructor
  · rw [hr]
    exact h.once
  · intro r' hmem'
    rw [hr] at hmem'
    rw [sentSeqNums_snoc]
    exact List.mem_append_left _ (h.sent r' hmem')
  · intro j
    rw [hr]
    by_cases hji : j = i
    · rw [hji, Function.update_self, hk]
      exact Or.inl trivial
    · rw [Function.update_of_ne hji]
      refine (h.knows j).congr (fun r' hmem' => hmem') ?_ ?_
      · intro k' hk' hne
        by_cases hks : k' = skb
        · rw [hks] at hne
          exact absurd hreceived hne
        · rw [modify_of_ne hks]
          exact hne
      · intro k' hk'
        have hks : k' ≠ skb := by
          rintro rfl
          exact (howned.removed j k' hk').2.2.1 hin
        rw [modify_of_ne hks]
        exact ⟨rfl, rfl, rfl⟩
  · intro j j' r₁ r₂ hj hj'
    exact h.flights j j' r₁ r₂ (hfl j r₁ hj).2 (hfl j' r₂ hj').2
  · intro k' hk'
    rw [hr]
    by_cases hks : k' = skb
    · rw [hks, modify_self]
      refine Or.inr ⟨by simp [SkBuff.notify], r, hmem, hseq.symm, filled_notify hlen hself⟩
    · rw [modify_of_ne hks]
      exact h.queued k' hk'
  · intro j r' hj k' hk' hseq'
    obtain ⟨hji, hj⟩ := hfl j r' hj
    by_cases hks : k' = skb
    · rw [hks, modify_self] at hseq'
      -- the response for this hint was the one in flight
      have hsame : r'.seqNum = r.seqNum := hseq'.symm.trans hseq
      exact absurd (h.flights j i r' r hj hflight hsame) hji
    · rw [modify_of_ne hks] at hseq' ⊢
      exact h.pending j r' hj k' hk' hseq'
  · intro m res hmem'
    rw [hr]
    rw [Trace.mem_events_snoc] at hmem'
    rcases hmem' with hmem' | hmem'
    · exact h.returned m res hmem'
    · exact absurd hmem' (hev m _ res)

/-- A response is delivered: it is the first with its seq_num. -/
theorem Answered.received (h : Answered tr t threads) {msg : IcapMsg} {p : Parse U32}
    (hresp : inp.response = some msg) (hsent : msg.seqNum ∈ sentSeqNums tr)
    (hfirst : msg.seqNum ∉ (responses tr).map IcapMsg.seqNum)
    (hp : p.Silent ∨ p = .responseNotify msg .done ∧ Agrees msg msg) :
    Answered (tr ++ [(inp, [])]) t (Function.update threads i (.parse p)) := by
  have hr : responses (tr ++ [(inp, [])]) = responses tr ++ [msg] := by
    rw [responses_snoc, hresp]
    rfl
  have hold : ∀ r ∈ responses tr, r ∈ responses (tr ++ [(inp, [])]) := by
    intro r hmem
    rw [hr]
    exact List.mem_append_left _ hmem
  have hnew : ∀ r ∈ responses tr, r.seqNum ≠ msg.seqNum := by
    intro r hmem heq
    exact hfirst (heq ▸ List.mem_map_of_mem hmem)
  -- what is in flight has been delivered before, so it is not this response
  have hflying : ∀ j r, (threads j).inFlight = some r → r ∈ responses tr := by
    intro j r hj
    have hok := h.knows j
    revert hj hok
    cases threads j with
    | parse q =>
        intro hj hok
        rcases hok with hok | ⟨r', hr', rfl, -⟩
        · rw [inFlight_silent hok] at hj
          cases hj
        · obtain rfl : r' = r := Option.some.inj hj
          exact hr'
    | _ => exact nofun
  have hfl : ∀ j r, (Function.update threads i (.parse p) j).inFlight = some r →
      j = i ∧ r = msg ∨ j ≠ i ∧ (threads j).inFlight = some r := by
    intro j r hj
    rcases update_some hj with ⟨hji, hnew⟩ | hold
    · rcases hp with hsilent | ⟨rfl, -⟩
      · rw [inFlight_silent hsilent] at hnew
        cases hnew
      · exact Or.inl ⟨hji, (Option.some.inj hnew).symm⟩
    · exact Or.inr hold
  constructor
  · rw [hr, List.map_append, List.nodup_append]
    refine ⟨h.once, List.nodup_singleton _, ?_⟩
    intro n hn n' hn' heq
    rw [List.map_singleton, List.mem_singleton] at hn'
    rw [heq, hn'] at hn
    exact hfirst hn
  · intro r hmem
    rw [hr, List.mem_append, List.mem_singleton] at hmem
    rw [sentSeqNums_snoc]
    refine List.mem_append_left _ ?_
    rcases hmem with hmem | rfl
    · exact h.sent r hmem
    · exact hsent
  · intro j
    by_cases hji : j = i
    · rw [hji, Function.update_self]
      rcases hp with hsilent | ⟨rfl, hself⟩
      · exact Or.inl hsilent
      · refine Or.inr ⟨msg, ?_, rfl, hself⟩
        rw [hr]
        exact List.mem_append_right _ (List.mem_singleton_self _)
    · rw [Function.update_of_ne hji]
      exact (h.knows j).congr hold (fun _ _ hne => hne) fun _ _ => ⟨rfl, rfl, rfl⟩
  · intro j j' r r' hj hj' heq
    rcases hfl j r hj with ⟨hji, hrm⟩ | ⟨-, hj⟩
    · rcases hfl j' r' hj' with ⟨hji', -⟩ | ⟨-, hj'⟩
      · exact hji.trans hji'.symm
      · rw [hrm] at heq
        exact absurd heq.symm (hnew r' (hflying j' r' hj'))
    · rcases hfl j' r' hj' with ⟨-, hrm⟩ | ⟨-, hj'⟩
      · rw [hrm] at heq
        exact absurd heq (hnew r (hflying j r hj))
      · exact h.flights j j' r r' hj hj' heq
  · intro k hk
    rcases h.queued k hk with hk | ⟨hne, r, hmem, hrest⟩
    · exact Or.inl hk
    · exact Or.inr ⟨hne, r, hold r hmem, hrest⟩
  · intro j r hj k hk hseq
    rcases hfl j r hj with ⟨-, hrm⟩ | ⟨-, hj⟩
    · rcases h.queued k hk with ⟨h0, -⟩ | ⟨-, r', hmem, hseq', -⟩
      · exact h0
      · rw [hrm] at hseq
        exact absurd (hseq'.trans hseq) (hnew r' hmem)
    · exact h.pending j r hj k hk hseq
  · intro m r hmem
    rw [Trace.events_append, Trace.events_singleton, List.append_nil] at hmem
    obtain ⟨msg', hmem', hrest⟩ := h.returned m r hmem
    exact ⟨msg', hold msg' hmem', hrest⟩

variable {bits : Nat} {s : State} {a : Action} {icap' : Instance}

theorem AnswersOnce.keeps (hok : AnswersOnce tr s inp) :
    inp.action.opens = false ∧ inp.action.closes = false := by
  unfold AnswersOnce at hok
  split at hok
  · rename_i ha
    rw [ha]
    exact ⟨rfl, rfl⟩
  · rename_i ha
    rw [ha]
    exact ⟨rfl, rfl⟩
  · exact hok

/-- The call of a thread that has removed its hint knows its response. -/
theorem Answered.unlinked (h : Answered tr t threads) (howned : Owned t threads) {m : Message}
    {skb : Nat} {timeout : WakeUp} (hth : threads i = .unlink m skb timeout) :
    ThreadOk (responses tr) (t.skbUnlink skb) (.result m skb timeout) := by
  cases timeout with
  | elapsed => trivial
  | signal => trivial
  | response =>
      have hreceived := h.knows i
      rw [hth] at hreceived
      obtain ⟨hin, halc⟩ := howned.held i skb (by rw [hth]; rfl)
      obtain ⟨-, -, m', hm', hseq⟩ := howned.queued skb hin
      rw [halc, hth] at hm'
      obtain rfl : m = m' := Option.some.inj hm'
      rcases h.queued skb hin with ⟨h0, -⟩ | ⟨-, r, hr, hr', hf⟩
      · exact absurd h0 hreceived
      · exact ⟨r, hr, hr'.trans hseq, hf⟩

def Event.returnsResponse : Event → Bool
  | .returned _ (some .response) _ => true
  | _ => false

/-- No call returns a response in the events. -/
def NoResponse (ev : List Event) : Prop := ∀ e ∈ ev, e.returnsResponse = false

theorem noResponse_nil : NoResponse [] := fun _ he => absurd he List.not_mem_nil

theorem noResponse_singleton {e : Event} (he : e.returnsResponse = false) : NoResponse [e] := by
  intro e' he'
  rw [List.mem_singleton.mp he']
  exact he

/-- An event that is left out where there is no rpmsg device. -/
theorem noResponse_of_or {e : Event} (hev : ev = [] ∨ ev = [e]) (he : e.returnsResponse = false) :
    NoResponse ev := by
  rcases hev with rfl | rfl
  · exact noResponse_nil
  · exact noResponse_singleton he

theorem noResponse_useSkbs (ks : List Nat) : NoResponse (useSkbs t ks) := by
  intro e he
  obtain ⟨k, rfl⟩ := mem_useSkbs he
  rfl

theorem NoResponse.append {ev' : List Event} (h : NoResponse ev) (h' : NoResponse ev') :
    NoResponse (ev ++ ev') := by
  intro e he
  exact (List.mem_append.mp he).elim (h e) (h' e)

/-- A step that leaves the hints alone and returns no response to a call. -/
theorem Answered.same (h : Answered tr t threads) (howned : Owned t threads)
    (hresp : inp.response = none) (hthread : ThreadOk (responses tr) t th')
    (hflight : th'.inFlight = none) (hev : NoResponse ev) :
    Answered (tr ++ [(inp, ev)]) t (Function.update threads i th') :=
  h.go howned hresp (fun _ hk => Or.inl hk) (fun _ _ => ⟨rfl, rfl, rfl⟩) hthread (Or.inl hflight)
    fun _ _ hmem => by cases hev _ hmem

/-- Such a step of a handler that stores no response. -/
theorem Answered.silent (h : Answered tr t threads) (howned : Owned t threads)
    (hresp : inp.response = none) {p : Parse U32} (hp : p.Silent) (hev : NoResponse ev) :
    Answered (tr ++ [(inp, ev)]) t (Function.update threads i (.parse p)) :=
  h.same howned hresp (Or.inl hp) (inFlight_silent hp) hev

/-- Only a response that passes the checks goes to `icap_response_notify`. -/
theorem Answered.receive (hbits : 32 ≤ bits) {icap : Instance}
    (h : Answered tr icap.transport threads) (howned : Owned icap.transport threads)
    {srcAddr : U32} {msg : IcapMsg} {size : U32}
    (hok : IsResponse msg → WellFormed msg size ∧ msg.seqNum ∈ sentSeqNums tr ∧
      msg.seqNum ∉ (responses tr).map IcapMsg.seqNum) :
    Answered (tr ++ [(⟨i, .receive srcAddr msg size⟩, [])]) icap.transport
      (Function.update threads i (.parse (icapParseMsg (linux bits) icap srcAddr msg size).2)) := by
  have hparse := icapParseMsg_notify (linux bits) icap srcAddr msg size
  by_cases hmsg : IsResponse msg
  · obtain ⟨hw, hsent, hfirst⟩ := hok hmsg
    refine h.received (by simp [Input.response, hmsg]) hsent hfirst ?_
    rcases hparse with hsilent | ⟨hp, hacc⟩
    · exact Or.inl hsilent
    · exact Or.inr ⟨hp, agrees_of_accepted hacc hbits hw fun _ _ => rfl⟩
  · rcases hparse with hsilent | ⟨-, hacc⟩
    · exact h.silent howned (by simp [Input.response, hmsg]) hsilent noResponse_nil
    · exact absurd hacc.type hmsg

/-- `icap_wait_for_response` frees the skb, and the caller gets what has been read from it. -/
theorem Answered.freed (h : Answered tr t threads) (howned : Owned t threads)
    (hresp : inp.response = none) {m : Message} {skb : Nat} {timeout : WakeUp} {ret : U32}
    {response : Mem} (hknows : ThreadOk (responses tr) t (.free m skb timeout ret response)) :
    Answered (tr ++ [(inp, useSkbs t [skb] ++
      [.freed skb, m.returns (some timeout) ret response])]) (t.kfreeSkb skb)
      (Function.update threads i .idle) := by
  refine h.go howned hresp (fun k hk => Or.inl hk) (fun k _ => ?_) trivial (Or.inl rfl) ?_
  · by_cases hk : k = skb
    · rw [hk, show (t.kfreeSkb skb).skbs skb = _ from modify_self _ _ _]
      exact ⟨rfl, rfl, rfl⟩
    · rw [show (t.kfreeSkb skb).skbs k = _ from modify_of_ne hk]
      exact ⟨rfl, rfl, rfl⟩
  · intro m' r' hmem
    rcases List.mem_append.mp hmem with hmem | hmem
    · cases noResponse_useSkbs _ _ hmem
    · simp only [Message.returns, List.mem_cons, reduceCtorEq, Event.returned.injEq,
        List.not_mem_nil, or_false, false_or] at hmem
      obtain ⟨rfl, htimeout, rfl⟩ := hmem
      obtain rfl : WakeUp.response = timeout := Option.some.inj htimeout
      obtain ⟨r, hr, hseq, hans⟩ := hknows
      refine ⟨r, hr, hseq, ?_⟩
      rw [Message.resultFor, hans]

/-- The hint that `icap_prepare_wait` queues is empty. -/
theorem Answered.prepared (h : Answered tr t threads) (howned : Owned t threads)
    (hresp : inp.response = none) {m : Message} {mem : Mem} :
    Answered (tr ++ [(inp, [.allocated t.allocated])]) (t.pushHint i m.cmd m.seqNum mem)
      (Function.update threads i (.sendPlatform m true)) := by
  refine h.go howned hresp (fun k hk => ?_) (fun k hk => ?_) trivial (Or.inl rfl) ?_
  · rcases List.mem_append.mp hk with hk | hk
    · exact Or.inl hk
    · rw [List.mem_singleton.mp hk, pushHint_self]
      exact Or.inr ⟨rfl, rfl⟩
  · rw [pushHint_of_ne (by omega)]
    exact ⟨rfl, rfl, rfl⟩
  · intro m r hmem
    cases List.mem_singleton.mp hmem

theorem Answered.of_move (hbits : 32 ≤ bits) (h : Answered tr s.icap.transport s.threads)
    (howned : Owned s.icap.transport s.threads)
    (hmove : Move bits s.icap i (s.threads i) a icap' th' ev) (hok : AnswersOnce tr s ⟨i, a⟩) :
    Answered (tr ++ [(⟨i, a⟩, ev)]) icap'.transport (Function.update s.threads i th') := by
  have hknows := h.knows i
  generalize hth : s.threads i = th at hmove hknows
  cases hmove with
  | received => exact h.receive hbits howned hok
  | invoked =>
      rcases hknows with hsilent | ⟨_, -, heq, -⟩
      · exact h.silent howned rfl (hsilent _) (noResponse_singleton rfl)
      · cases heq
  | sentResponse hev =>
      rcases hknows with hsilent | ⟨_, -, heq, -⟩
      · exact h.silent howned rfl (hsilent _) (noResponse_of_or hev rfl)
      · cases heq
  | dropped hfind =>
      rename_i response k
      have hk : k = .done := by
        rcases hknows with hsilent | ⟨_, -, heq, -⟩
        · exact hsilent.elim
        · exact (Parse.responseNotify.inj heq).2
      rw [hk]
      exact h.silent howned rfl trivial (noResponse_useSkbs _)
  | notified hfind =>
      exact h.notified howned hth hfind rfl fun m timeout res hmem => by
        cases useSkbs_ofCall _ hmem
  | woken htimeout =>
      rename_i m skb timeout
      refine h.same howned rfl ?_ rfl (noResponse_useSkbs _)
      cases timeout with
      | response => exact htimeout.mp rfl
      | elapsed => trivial
      | signal => trivial
  | unlinked =>
      refine h.go howned rfl (fun k hk => Or.inl (List.mem_of_mem_erase hk))
        (fun _ _ => ⟨rfl, rfl, rfl⟩) (h.unlinked howned hth) (Or.inl rfl) fun m r hmem => ?_
      split_ifs at hmem
      · cases noResponse_useSkbs _ _ hmem
      · cases List.mem_singleton.mp hmem
  | result hused hev hret =>
      rename_i m skb timeout ret response used ev
      refine h.same howned rfl ?_ rfl (NoResponse.append ?_ ?_)
      · cases timeout with
        | response =>
            obtain ⟨r, hr, hseq, hf⟩ := hknows
            exact ⟨r, hr, hseq, (answer_filled hf m).symm.trans (hret rfl)⟩
        | elapsed => trivial
        | signal => trivial
      · rcases hused with rfl | rfl
        · exact noResponse_nil
        · exact noResponse_useSkbs _
      · rcases hev with rfl | ⟨icapId, msgCmd, rfl⟩
        · exact noResponse_nil
        · exact noResponse_singleton rfl
  | freed => exact h.freed howned rfl hknows
  | prepared => exact h.prepared howned rfl
  | opened ha =>
      rw [hok.keeps.1] at ha
      cases ha
  | closing ha | closed ha =>
      rw [hok.keeps.2] at ha
      cases ha
  | deinitTransport => exact hknows.elim
  | sent hev => exact h.same howned rfl trivial rfl (noResponse_of_or hev rfl)
  | sentAsync hev =>
      exact h.same howned rfl trivial rfl
        (NoResponse.append (noResponse_of_or hev rfl) (noResponse_singleton rfl))
  | notFound =>
      refine h.same howned rfl trivial rfl ((noResponse_useSkbs _).append fun e he => ?_)
      rcases List.mem_cons.mp he with rfl | he
      · rfl
      · exact noResponse_singleton rfl e he
  | found => exact h.same howned rfl trivial rfl (noResponse_useSkbs _)
  | started =>
      rename_i sync _ _
      cases sync <;> exact h.same howned rfl trivial rfl (noResponse_singleton rfl)
  | prepareFailed | refused | parsed =>
      exact h.same howned rfl trivial rfl (noResponse_singleton rfl)

/-! ## Runs -/

theorem Thread.message_of_linked {m : Message} (h : th.linked = some m) :
    th.message = some m := by
  cases th with
  | sendPlatform m' sync =>
      cases sync with
      | true => exact h
      | false => cases h
  | findHint m' => exact h
  | waitEvent m' skb => exact h
  | unlink m' skb timeout => exact h
  | _ => cases h

/-- The owner of a queued hint is the thread whose call has its seq_num. -/
theorem Owned.owner_eq (howned : Owned t threads) {seqNum : U32}
    (hcalls : Calls tr seqNum threads) {k : Nat} (hk : k ∈ t.responseQueue) {m : Message}
    (hm : (threads i).linked = some m) (hseq : (t.skbs k).hint.seqNum = m.seqNum) :
    (t.skbs k).allocator = i := by
  obtain ⟨-, -, m', hm', hseq'⟩ := howned.queued k hk
  exact hcalls.distinct _ i m' m (Thread.message_of_linked hm') (Thread.message_of_linked hm)
    (hseq'.symm.trans hseq)

/-- With distinct seq_nums and no deinit, no step takes a hint from its call. -/
theorem handsOff_of_answersOnce (howned : Owned s.icap.transport s.threads)
    (hcalls : Calls tr s.icap.seqNum s.threads)
    (h : Answered tr s.icap.transport s.threads) : HandsOff s inp := by
  have hknows := h.knows inp.thread
  unfold HandsOff
  split
  · rename_i hth _
    rw [hth] at hknows
    exact hknows.elim
  · rename_i m hth _
    intro k hk
    obtain ⟨hin, hseq⟩ := findSeqNum_some hk
    exact howned.owner_eq hcalls hin (by rw [hth]; rfl) hseq
  · trivial

/-- The hints in the queue have different seq_nums and are those of the calls between prepare
and unlink; every call that was woken by a response has returned the one response with its
seq_num; no look-up has failed; and no call that has returned has a hint left. -/
structure Matched (tr : Trace Input Event) (s : State) : Prop where
  distinct : (s.icap.transport.responseQueue.map fun k =>
    (s.icap.transport.skbs k).hint.seqNum).Nodup
  hint : ∀ i m, (s.threads i).linked = some m → ∃! k, k ∈ s.icap.transport.responseQueue ∧
    (s.icap.transport.skbs k).hint.seqNum = m.seqNum
  call : ∀ k ∈ s.icap.transport.responseQueue, ∃! i, ∃ m, (s.threads i).linked = some m ∧
    m.seqNum = (s.icap.transport.skbs k).hint.seqNum
  started : (startedSeqNums tr).Nodup
  answered : ∀ m r, .returned m (some .response) r ∈ tr.events →
    ∃ msg ∈ responses tr, msg.seqNum = m.seqNum ∧ r = m.resultFor msg ∧
      ∀ msg' ∈ responses tr, msg'.seqNum = m.seqNum → msg' = msg
  found : ∀ m, .notFound m ∉ tr.events
  returned : ∀ m timeout r, .returned m timeout r ∈ tr.events →
    ∀ k ∈ s.icap.transport.responseQueue,
      (s.icap.transport.skbs k).hint.seqNum ≠ m.seqNum

theorem matched_of (howned : Owned s.icap.transport s.threads)
    (hledger : Ledger tr s.icap.transport) (hcalls : Calls tr s.icap.seqNum s.threads)
    (h : Answered tr s.icap.transport s.threads) : Matched tr s := by
  have hsame : ∀ k ∈ s.icap.transport.responseQueue, ∀ k' ∈ s.icap.transport.responseQueue,
      (s.icap.transport.skbs k).hint.seqNum = (s.icap.transport.skbs k').hint.seqNum →
        k = k' := by
    intro k hk k' hk' heq
    obtain ⟨-, -, m, hm, hseq⟩ := howned.queued k' hk'
    exact howned.unique k hk k' hk' (howned.owner_eq hcalls hk hm (heq.trans hseq))
  constructor
  · exact List.Nodup.map_on hsame howned.nodup
  · intro i m hm
    obtain ⟨k, hk, halc⟩ := howned.linked i m hm
    obtain ⟨-, -, m', hm', hseq⟩ := howned.queued k hk
    rw [halc, hm] at hm'
    obtain rfl : m = m' := Option.some.inj hm'
    refine ⟨k, ⟨hk, hseq⟩, ?_⟩
    rintro k' ⟨hk', hseq'⟩
    exact hsame k' hk' k hk (hseq'.trans hseq.symm)
  · intro k hk
    obtain ⟨-, -, m, hm, hseq⟩ := howned.queued k hk
    refine ⟨_, ⟨m, hm, hseq.symm⟩, ?_⟩
    rintro i ⟨m', hm', hseq'⟩
    exact (howned.owner_eq hcalls hk hm' hseq'.symm).symm
  · exact hcalls.nodup
  · intro m r hmem
    obtain ⟨msg, hmsg, hseq, hr⟩ := h.returned m r hmem
    refine ⟨msg, hmsg, hseq, hr, fun msg' hmsg' hseq' => ?_⟩
    exact List.inj_on_of_nodup_map h.once hmsg' hmsg (hseq'.trans hseq.symm)
  · exact (howned.hintsOwned hledger).found
  · intro m timeout r hmem k hk
    obtain ⟨-, -, m', hm', hseq⟩ := howned.queued k hk
    rw [hseq]
    exact (hcalls.returned m timeout r hmem).2 _ m' (Thread.message_of_linked hm')

variable {rpdev : Option U32} {name priv : Nat} {cb : CallbackTable}

theorem opened_calls : Calls [] (State.opened bits rpdev name cb priv).icap.seqNum
    (State.opened bits rpdev name cb priv).threads where
  counter := rfl
  started := rfl
  bound := by decide
  known := by
    intro i m hm
    cases hm
  distinct := by
    intro i j m m' hm
    cases hm
  sent := fun _ hn => absurd hn List.not_mem_nil
  unsent := by
    intro i m hm
    cases hm
  returned := fun _ _ _ hr => absurd hr List.not_mem_nil

theorem opened_answered : Answered [] (State.opened bits rpdev name cb priv).icap.transport
    (State.opened bits rpdev name cb priv).threads where
  once := List.nodup_nil
  sent := nofun
  knows := fun _ => trivial
  flights := nofun
  queued := fun _ hk => absurd hk List.not_mem_nil
  pending := nofun
  returned := nofun

/-- In every run of an application instance with any number of threads, whose peer answers each
message at most once, the hints and the waiting calls match, and each call that is woken by a
response returns its own. -/
theorem responses_matched (hbits : 32 ≤ bits)
    (hrun : (machine bits).Run AnswersOnce (State.opened bits rpdev name cb priv) tr s) :
    Matched tr s := by
  have hinv := hrun.invariant (I := fun tr s => Owned s.icap.transport s.threads ∧
      Ledger tr s.icap.transport ∧ Calls tr s.icap.seqNum s.threads ∧
      Answered tr s.icap.transport s.threads)
    ⟨opened_owned, opened_ledger, opened_calls, opened_answered⟩ ?_
  · obtain ⟨howned, hledger, hcalls, h⟩ := hinv
    exact matched_of howned hledger hcalls h
  · rintro tr s s' ⟨i, a⟩ ev - ⟨howned, hledger, hcalls, h⟩ hok hstep
    have hopen := hok.keeps.1
    have hhands : HandsOff s ⟨i, a⟩ := handsOff_of_answersOnce howned hcalls h
    obtain ⟨howned', hledger'⟩ := owned_step howned hledger hopen hhands hstep
    obtain ⟨icap', th', hmove, rfl⟩ := step_move hstep
    refine ⟨howned', hledger', ?_, h.of_move hbits howned hmove hok⟩
    refine hcalls.of_move hmove hopen ?_
    rintro c uninit rfl
    exact hok

end

/-- Threads 1 and 2 call `icap_pause` and `icap_resume`; thread 3 receives the NAK for the second
call before the ACK for the first, and the second returns first. -/
def answeredInputs : List Input :=
  [⟨1, .call (.pause 1) fun _ => 0⟩, ⟨1, .prepareWait (some fun _ => 0)⟩, ⟨1, .sendPlatform 0⟩,
    ⟨2, .call (.resume 2) fun _ => 0⟩, ⟨2, .prepareWait (some fun _ => 0)⟩, ⟨1, .findHint⟩,
    ⟨2, .sendPlatform 0⟩, ⟨2, .findHint⟩,
    ⟨3, .receive 0 (ofList (icapMsgFrame ICAP_MSG_RESUME ICAP_NAK 2
      (word32 (-ICAP_ERROR_INVALID)))) 44⟩, ⟨3, .responseNotify⟩, ⟨3, .parseRet⟩,
    ⟨3, .receive 0 (ofList (icapMsgFrame ICAP_MSG_PAUSE ICAP_ACK 1 [])) 40⟩,
    ⟨3, .responseNotify⟩, ⟨3, .parseRet⟩, ⟨2, .waitEvent .response⟩, ⟨1, .waitEvent .response⟩,
    ⟨2, .unlink⟩, ⟨2, .result⟩, ⟨2, .free⟩, ⟨1, .unlink⟩, ⟨1, .result⟩, ⟨1, .free⟩]

theorem responses_matched_pause : ∃ tr s,
    (machine 64).Run AnswersOnce (State.opened 64 (some 0) 0 (fun _ => false) 0) tr s ∧
    (startedSeqNums tr) = [1, 2] ∧ (responses tr).map IcapMsg.seqNum = [2, 1] ∧
    freedSkbs tr = [1, 0] ∧ Matched tr s := by
  have hrun : (machine 64).Run AnswersOnce (State.opened 64 (some 0) 0 (fun _ => false) 0) _ _ :=
    Machine.Run.start.exec answeredInputs ⟨fun _ => by decide, ⟨rfl, rfl⟩, ⟨rfl, rfl⟩,
      fun _ => by decide +kernel, ⟨rfl, rfl⟩, ⟨rfl, rfl⟩, ⟨rfl, rfl⟩, ⟨rfl, rfl⟩,
      fun _ => ⟨⟨by decide, by decide, by decide +kernel⟩, by decide +kernel, by decide +kernel⟩,
      ⟨rfl, rfl⟩, ⟨rfl, rfl⟩,
      fun _ => ⟨⟨by decide, by decide, by decide +kernel⟩, by decide +kernel, by decide +kernel⟩,
      ⟨rfl, rfl⟩, ⟨rfl, rfl⟩, ⟨rfl, rfl⟩, ⟨rfl, rfl⟩, ⟨rfl, rfl⟩, ⟨rfl, rfl⟩, ⟨rfl, rfl⟩,
      ⟨rfl, rfl⟩, ⟨rfl, rfl⟩, ⟨rfl, rfl⟩, trivial⟩
  exact ⟨_, _, hrun, by decide +kernel, by decide +kernel, by decide +kernel,
    responses_matched (by omega) hrun⟩

end Icap.Linux
