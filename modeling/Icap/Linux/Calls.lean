import Icap.Linux.Machine

set_option autoImplicit false

/-! # The seq_nums of the calls

Every `icap_send_msg` takes the next seq_num under `platform_lock`, so as long as fewer than
2^32 messages are started, no two calls have the same, in whatever order their threads go on. A
message is sent by the call that has its seq_num, and once.
-/

namespace Icap.Linux

open ByteMemory Transition

/-! ## What a run shows -/

def Event.startedMsg : Event → Option Message
  | .started m => some m
  | _ => none

def Event.sentMessage : Event → Option Message
  | .sentMsg m => some m
  | _ => none

/-- The seq_nums that `icap_send_msg` has taken. -/
def startedSeqNums (tr : Trace Input Event) : List U32 :=
  (tr.events.filterMap Event.startedMsg).map Message.seqNum

/-- The seq_nums of the messages handed to `rpmsg_send`. -/
def sentSeqNums (tr : Trace Input Event) : List U32 :=
  (tr.events.filterMap Event.sentMessage).map Message.seqNum

/-! ## What a thread has -/

/-- The call of a thread, from its seq_num to its return. -/
def Thread.message : Thread → Option Message
  | .prepareWait m => some m
  | .sendPlatform m _ => some m
  | .findHint m => some m
  | .waitEvent m _ => some m
  | .unlink m _ _ => some m
  | .result m _ _ => some m
  | .free m _ _ _ _ => some m
  | _ => none

/-- The call of a thread that has not sent its message. -/
def Thread.unsent : Thread → Option Message
  | .prepareWait m => some m
  | .sendPlatform m _ => some m
  | _ => none

theorem Thread.message_of_unsent {th : Thread} {m : Message} (h : th.unsent = some m) :
    th.message = some m := by
  cases th with
  | prepareWait m' => exact h
  | sendPlatform m' sync => exact h
  | _ => cases h

/-! ## What a step does with a call -/

/-- What a step does with the call of its thread: it starts one, or goes on with the one it has and
sends and returns no other. -/
inductive CallStep (th : Thread) (a : Action) (th' : Thread) (ev : List Event) : Prop
  | start (m : Message) (c : ApiCall) (uninit : Mem) (hth : th = .idle) (ha : a = .call c uninit)
      (hm : th'.message = some m) (hev : ev = [.started m])
  | go (hm : th'.message = th.message ∨ th'.message = none) (hstarted : ∀ m, .started m ∉ ev)
      (hsent : ∀ m, .sentMsg m ∈ ev → th.unsent = some m ∧ ev.filterMap Event.sentMessage = [m])
      (hreturned : ∀ m timeout r, .returned m timeout r ∈ ev → some m = th.message)

theorem Move.call {bits i : Nat} {icap icap' : Instance} {th th' : Thread} {a : Action}
    {ev : List Event} (h : Move bits icap i th a icap' th' ev) : CallStep th a th' ev := by
  cases h with
  | started =>
      rename_i c uninit m sync _ _
      exact .start m c uninit rfl rfl (by cases sync <;> rfl) rfl
  | sent hev | sentAsync hev | sentResponse hev =>
      rcases hev with rfl | rfl <;> refine .go ?_ ?_ ?_ ?_ <;>
        simp +contextual [Thread.message, Thread.unsent, Event.sentMessage, Message.returns]
  | result hused hev _ =>
      rcases hused with rfl | rfl <;> rcases hev with rfl | ⟨icapId, msgCmd, rfl⟩ <;>
        refine .go ?_ ?_ ?_ ?_ <;> simp [useSkbs, Thread.message]
  | unlinked =>
      split_ifs <;> refine .go ?_ ?_ ?_ ?_ <;> simp [useSkbs, Thread.message]
  | _ =>
      refine .go ?_ ?_ ?_ ?_ <;> simp +contextual [useSkbs, Thread.message, Message.returns]

/-- Every call that is under way has started, and a message is sent by a call that has. -/
structure Started (tr : Trace Input Event) (threads : Nat → Thread) : Prop where
  known : ∀ i m, (threads i).message = some m → .started m ∈ tr.events
  sent : ∀ m, .sentMsg m ∈ tr.events → .started m ∈ tr.events

/-- No call starts but with `.started`. -/
theorem Started.of_step {bits : Nat} {tr : Trace Input Event} {s s' : State} {inp : Input}
    {ev : List Event} (h : Started tr s.threads) (hstep : step bits s inp = some (s', ev)) :
    Started (tr ++ [(inp, ev)]) s'.threads := by
  obtain ⟨icap', th', hmove, rfl⟩ := step_move hstep
  have hown (m : Message) (hm : th'.message = some m) :
      .started m ∈ tr.events ∨ .started m ∈ ev := by
    cases hmove.call with
    | start m' c uninit _ _ hm' hev =>
        obtain rfl := Option.some.inj (hm'.symm.trans hm)
        exact Or.inr (by rw [hev]; exact List.mem_singleton_self _)
    | go hgo =>
        rcases hgo with hgo | hgo
        · exact Or.inl (h.known inp.thread m (hgo ▸ hm))
        · rw [hgo] at hm
          cases hm
  refine ⟨fun j m hj => Trace.mem_events_snoc.mpr ?_, fun m hm => Trace.mem_events_snoc.mpr ?_⟩
  · rcases update_some hj with ⟨-, hnew⟩ | ⟨-, hold⟩
    · exact hown m hnew
    · exact Or.inl (h.known j m hold)
  · rcases Trace.mem_events_snoc.mp hm with hm | hm
    · exact Or.inl (h.sent m hm)
    · cases hmove.call with
      | start m' c uninit _ _ _ hev =>
          rw [hev] at hm
          cases List.mem_singleton.mp hm
      | go _ _ hsent _ =>
          exact Or.inl (h.known inp.thread m (Thread.message_of_unsent (hsent m hm).1))

/-! ## The seq_nums -/

/-- The counter, the seq_nums taken and the calls that are under way. -/
structure Calls (tr : Trace Input Event) (seqNum : U32) (threads : Nat → Thread) : Prop where
  counter : seqNum = BitVec.ofNat 32 (startedSeqNums tr).length
  started : startedSeqNums tr
    = (List.range (startedSeqNums tr).length).map fun k => BitVec.ofNat 32 (k + 1)
  bound : (startedSeqNums tr).length < 2 ^ 32
  known : ∀ i m, (threads i).message = some m → m.seqNum ∈ startedSeqNums tr
  distinct : ∀ i j m m', (threads i).message = some m → (threads j).message = some m' →
    m.seqNum = m'.seqNum → i = j
  sent : ∀ n ∈ sentSeqNums tr, n ∈ startedSeqNums tr
  unsent : ∀ i m, (threads i).unsent = some m → m.seqNum ∉ sentSeqNums tr
  returned : ∀ m timeout r, .returned m timeout r ∈ tr.events → m.seqNum ∈ startedSeqNums tr ∧
    ∀ i m', (threads i).message = some m' → m'.seqNum ≠ m.seqNum

section

variable {tr : Trace Input Event} {seqNum : U32} {threads : Nat → Thread} {i : Nat}
  {th th' : Thread} {inp : Input} {ev : List Event}

theorem startedSeqNums_snoc : startedSeqNums (tr ++ [(inp, ev)])
    = startedSeqNums tr ++ (ev.filterMap Event.startedMsg).map Message.seqNum := by
  simp [startedSeqNums]

theorem sentSeqNums_snoc : sentSeqNums (tr ++ [(inp, ev)])
    = sentSeqNums tr ++ (ev.filterMap Event.sentMessage).map Message.seqNum := by
  simp [sentSeqNums]

/-- Fewer than 2^32 seq_nums are distinct. -/
theorem Calls.nodup (h : Calls tr seqNum threads) : (startedSeqNums tr).Nodup := by
  rw [h.started]
  refine List.Nodup.map_on ?_ List.nodup_range
  intro a ha b hb hab
  have hbound := h.bound
  have ha' := List.mem_range.mp ha
  have hb' := List.mem_range.mp hb
  have hval := congrArg BitVec.toNat hab
  rw [BitVec.toNat_ofNat, BitVec.toNat_ofNat, Nat.mod_eq_of_lt (by omega),
    Nat.mod_eq_of_lt (by omega)] at hval
  omega

/-- The next seq_num has not been taken. -/
theorem Calls.next_notMem (h : Calls tr seqNum threads)
    (hlt : (startedSeqNums tr).length + 1 < 2 ^ 32) : seqNum + 1 ∉ startedSeqNums tr := by
  rw [h.started, h.counter]
  intro hmem
  obtain ⟨k, hk, heq⟩ := List.mem_map.mp hmem
  have hk' := List.mem_range.mp hk
  have hval := congrArg BitVec.toNat heq
  rw [BitVec.toNat_add, BitVec.toNat_ofNat, BitVec.toNat_ofNat,
    show (1 : U32).toNat = 1 from rfl] at hval
  omega

/-- A call takes the next seq_num. -/
theorem Calls.start (h : Calls tr seqNum threads) {m : Message} (hm : m.seqNum = seqNum + 1)
    (hlt : (startedSeqNums tr).length + 1 < 2 ^ 32) (hth' : th'.message = some m) :
    Calls (tr ++ [(inp, [.started m])]) (seqNum + 1) (Function.update threads i th') := by
  have hnew := h.next_notMem hlt
  have hstarted : startedSeqNums (tr ++ [(inp, [.started m])])
      = startedSeqNums tr ++ [seqNum + 1] := by
    rw [startedSeqNums_snoc, ← hm]
    rfl
  have hsent : sentSeqNums (tr ++ [(inp, [.started m])]) = sentSeqNums tr := by
    rw [sentSeqNums_snoc]
    exact List.append_nil _
  have hcount : BitVec.ofNat 32 ((startedSeqNums tr).length + 1) = seqNum + 1 := by
    rw [h.counter, BitVec.ofNat_add]
    rfl
  -- the thread has the new seq_num, the others have old ones
  have hmsg : ∀ j m', (Function.update threads i th' j).message = some m' →
      j = i ∧ m' = m ∨ j ≠ i ∧ (threads j).message = some m' := by
    intro j m' hj
    rcases update_some hj with ⟨hji, hnew⟩ | hold
    · exact Or.inl ⟨hji, Option.some.inj (hnew.symm.trans hth')⟩
    · exact Or.inr hold
  constructor
  · rw [hstarted, List.length_append, List.length_singleton, hcount]
  · rw [hstarted, List.length_append, List.length_singleton]
    calc startedSeqNums tr ++ [seqNum + 1]
        = (List.range (startedSeqNums tr).length).map (fun k => BitVec.ofNat 32 (k + 1))
            ++ [BitVec.ofNat 32 ((startedSeqNums tr).length + 1)] := by rw [← h.started, hcount]
      _ = (List.range ((startedSeqNums tr).length + 1)).map fun k => BitVec.ofNat 32 (k + 1) := by
          rw [List.range_succ, List.map_append, List.map_singleton]
  · rw [hstarted, List.length_append, List.length_singleton]
    exact hlt
  · intro j m' hj
    rw [hstarted]
    rcases hmsg j m' hj with ⟨-, rfl⟩ | ⟨-, hj⟩
    · rw [hm]
      exact List.mem_append_right _ (List.mem_singleton_self _)
    · exact List.mem_append_left _ (h.known j m' hj)
  -- the new seq_num is none of the old ones, so no two calls share one
  · intro j j' m' m'' hj hj' heq
    rcases hmsg j m' hj with ⟨hji, hmm⟩ | ⟨-, hold⟩
    · rcases hmsg j' m'' hj' with ⟨hji', -⟩ | ⟨-, hold'⟩
      · exact hji.trans hji'.symm
      · refine absurd (h.known j' m'' hold') ?_
        rw [← heq, hmm, hm]
        exact hnew
    · rcases hmsg j' m'' hj' with ⟨-, hmm⟩ | ⟨-, hold'⟩
      · refine absurd (h.known j m' hold) ?_
        rw [heq, hmm, hm]
        exact hnew
      · exact h.distinct j j' m' m'' hold hold' heq
  · intro n hn
    rw [hsent] at hn
    rw [hstarted]
    exact List.mem_append_left _ (h.sent n hn)
  · intro j m' hj
    rw [hsent]
    rcases update_some hj with ⟨-, hunsent⟩ | ⟨-, hold⟩
    · have hmm := hth'.symm.trans (Thread.message_of_unsent hunsent)
      obtain rfl : m = m' := Option.some.inj hmm
      intro hmem
      rw [hm] at hmem
      exact hnew (h.sent _ hmem)
    · exact h.unsent j m' hold
  · intro m' timeout r hmem
    rw [Trace.mem_events_snoc, List.mem_singleton] at hmem
    rcases hmem with hmem | hmem
    · -- a call that has returned had an old seq_num
      obtain ⟨hin, hothers⟩ := h.returned m' timeout r hmem
      refine ⟨by rw [hstarted]; exact List.mem_append_left _ hin, fun j m'' hj heq => ?_⟩
      rcases hmsg j m'' hj with ⟨-, rfl⟩ | ⟨-, hj⟩
      · rw [← heq, hm] at hin
        exact hnew hin
      · exact hothers j m'' hj heq
    · cases hmem

/-- A call goes on or returns: it keeps its message or drops it, and sends no other. -/
theorem Calls.go (h : Calls tr seqNum threads)
    (hmessage : th'.message = (threads i).message ∨ th'.message = none)
    (hunsent : th'.unsent = (threads i).unsent ∨ th'.unsent = none)
    (hstarted : ∀ m, .started m ∉ ev)
    (hsent : ∀ m, .sentMsg m ∈ ev → (threads i).message = some m ∧ th'.unsent = none)
    (hreturned : ∀ m timeout r, .returned m timeout r ∈ ev →
      (threads i).message = some m ∧ th'.message = none) :
    Calls (tr ++ [(inp, ev)]) seqNum (Function.update threads i th') := by
  have hs : startedSeqNums (tr ++ [(inp, ev)]) = startedSeqNums tr := by
    have hnone : ev.filterMap Event.startedMsg = [] := by
      refine List.filterMap_eq_nil_iff.mpr fun e he => ?_
      cases e with
      | started m => exact absurd he (hstarted m)
      | _ => rfl
    rw [startedSeqNums_snoc, hnone]
    exact List.append_nil _
  have hmem : ∀ n ∈ sentSeqNums (tr ++ [(inp, ev)]), n ∈ sentSeqNums tr ∨
      ∃ m, (threads i).message = some m ∧ th'.unsent = none ∧ m.seqNum = n := by
    intro n hn
    rw [sentSeqNums_snoc, List.mem_append] at hn
    rcases hn with hn | hn
    · exact Or.inl hn
    · obtain ⟨m, hm, rfl⟩ := List.mem_map.mp hn
      obtain ⟨e, he, hem⟩ := List.mem_filterMap.mp hm
      cases e with
      | sentMsg m' =>
          obtain rfl : m' = m := Option.some.inj hem
          obtain ⟨h1, h2⟩ := hsent m' he
          exact Or.inr ⟨m', h1, h2, rfl⟩
      | _ => cases hem
  have hmsg : ∀ j m, (Function.update threads i th' j).message = some m →
      (threads j).message = some m := fun j m hj => update_keeps hmessage hj
  constructor
  · rw [hs]
    exact h.counter
  · rw [hs]
    exact h.started
  · rw [hs]
    exact h.bound
  · intro j m hj
    rw [hs]
    exact h.known j m (hmsg j m hj)
  · intro j j' m m' hj hj' heq
    exact h.distinct j j' m m' (hmsg j m hj) (hmsg j' m' hj') heq
  · intro n hn
    rw [hs]
    rcases hmem n hn with hn | ⟨m, hm, -, rfl⟩
    · exact h.sent n hn
    · exact h.known i m hm
  · intro j m hj hin
    have hj' := hmsg j m (Thread.message_of_unsent hj)
    rcases hmem _ hin with hin | ⟨m', hm', hnone, heq⟩
    · exact h.unsent j m (update_keeps hunsent hj) hin
    · -- the seq_num that was sent is that of the call that went on
      obtain rfl : i = j := h.distinct i j m' m hm' hj' heq
      rw [Function.update_self, hnone] at hj
      cases hj
  · intro m timeout r hin
    rw [hs]
    rw [Trace.mem_events_snoc] at hin
    rcases hin with hin | hin
    · obtain ⟨hstart, hothers⟩ := h.returned m timeout r hin
      exact ⟨hstart, fun j m' hj => hothers j m' (hmsg j m' hj)⟩
    · obtain ⟨hm, hnone⟩ := hreturned m timeout r hin
      refine ⟨h.known i m hm, fun j m' hj heq => ?_⟩
      obtain rfl : j = i := h.distinct j i m' m (hmsg j m' hj) hm heq
      rw [Function.update_self, hnone] at hj
      cases hj

/-- The events of a call are its start, its send and its return. -/
def Event.ofCall : Event → Bool
  | .started _ => true
  | .sentMsg _ => true
  | .returned _ _ _ => true
  | _ => false

/-- A thread goes on without an event of a call. -/
theorem Calls.quiet (h : Calls tr seqNum threads) (hmessage : th'.message = (threads i).message)
    (hunsent : th'.unsent = (threads i).unsent) (hev : ∀ e ∈ ev, e.ofCall = false) :
    Calls (tr ++ [(inp, ev)]) seqNum (Function.update threads i th') := by
  have hno : ∀ e, e.ofCall = true → e ∉ ev := by
    intro e he hmem
    rw [hev e hmem] at he
    cases he
  exact h.go (Or.inl hmessage) (Or.inl hunsent) (fun m => hno _ rfl)
    (fun m hm => absurd hm (hno _ rfl)) fun m timeout r hm => absurd hm (hno _ rfl)

/-- A call returns; it may have sent its message in the same step. -/
theorem Calls.finish (h : Calls tr seqNum threads) {m : Message}
    (hm : (threads i).message = some m) (hidle : th'.message = none)
    (hev : ∀ e ∈ ev, e.ofCall = true → e = .sentMsg m ∨ ∃ timeout r, e = .returned m timeout r) :
    Calls (tr ++ [(inp, ev)]) seqNum (Function.update threads i th') := by
  have hunsent : th'.unsent = none := by
    cases hu : th'.unsent with
    | none => rfl
    | some m' =>
        rw [Thread.message_of_unsent hu] at hidle
        cases hidle
  refine h.go (Or.inr hidle) (Or.inr hunsent) ?_ ?_ ?_
  · intro m' hmem
    rcases hev _ hmem rfl with heq | ⟨timeout, r, heq⟩ <;> cases heq
  · intro m' hmem
    rcases hev _ hmem rfl with heq | ⟨timeout, r, heq⟩
    · cases heq
      exact ⟨hm, hunsent⟩
    · cases heq
  · intro m' timeout' r' hmem
    rcases hev _ hmem rfl with heq | ⟨timeout, r, heq⟩
    · cases heq
    · cases heq
      exact ⟨hm, hidle⟩

theorem useSkbs_ofCall {t : IcapTransport} {ks : List Nat} :
    ∀ e ∈ useSkbs t ks, e.ofCall = false := by
  intro e he
  obtain ⟨k, rfl⟩ := mem_useSkbs he
  rfl

variable {bits : Nat} {s : State} {a : Action} {icap' : Instance}

theorem Calls.of_move (h : Calls tr s.icap.seqNum s.threads)
    (hmove : Move bits s.icap i (s.threads i) a icap' th' ev) (hopen : a.opens = false)
    (hlt : ∀ c uninit, a = .call c uninit → (c.request 0).isSome →
      (startedSeqNums tr).length + 1 < 2 ^ 32) :
    Calls (tr ++ [(inp, ev)]) icap'.seqNum (Function.update s.threads i th') := by
  generalize hth : s.threads i = th at hmove
  have hm : th.message = (s.threads i).message := by rw [hth]
  have hu : th.unsent = (s.threads i).unsent := by rw [hth]
  cases hmove with
  | started hc hseq =>
      rename_i sync
      exact h.start hseq (hlt _ _ rfl hc) (by cases sync <;> rfl)
  | prepareFailed =>
      refine h.finish hm.symm rfl fun e he _ => ?_
      rw [List.mem_singleton.mp he]
      exact Or.inr ⟨_, _, rfl⟩
  | sent hev =>
      refine h.go (Or.inl hm) (Or.inr rfl) ?_ ?_ ?_
      · rcases hev with rfl | rfl <;> simp
      · intro m hmem
        rcases hev with rfl | rfl
        · cases hmem
        · obtain rfl := Event.sentMsg.inj (List.mem_singleton.mp hmem)
          exact ⟨hm.symm, rfl⟩
      · rcases hev with rfl | rfl <;> simp
  -- `icap_send_platform` may fail, and then no message is sent
  | sentAsync hev =>
      refine h.finish hm.symm rfl fun e he _ => ?_
      rcases List.mem_append.mp he with he | he
      · rcases hev with rfl | rfl
        · cases he
        · exact Or.inl (List.mem_singleton.mp he)
      · rw [List.mem_singleton.mp he]
        exact Or.inr ⟨_, _, rfl⟩
  -- the hint is used, and freed or missed, before the call returns
  | notFound | freed =>
      refine h.finish hm.symm rfl fun e he hcall => ?_
      rcases List.mem_append.mp he with he | he
      · rw [useSkbs_ofCall e he] at hcall
        cases hcall
      · rcases List.mem_cons.mp he with rfl | he
        · cases hcall
        · rw [List.mem_singleton.mp he]
          exact Or.inr ⟨_, _, rfl⟩
  | opened ha =>
      rw [hopen] at ha
      cases ha
  | result hused hev hret =>
      refine h.quiet hm hu fun e he => ?_
      rcases List.mem_append.mp he with he | he
      · rcases hused with rfl | rfl
        · cases he
        · exact useSkbs_ofCall e he
      · rcases hev with rfl | ⟨icapId, msgCmd, rfl⟩
        · cases he
        · rw [List.mem_singleton.mp he]
          rfl
  | unlinked =>
      refine h.quiet hm hu fun e he => ?_
      split_ifs at he
      · exact useSkbs_ofCall e he
      · rw [List.mem_singleton.mp he]
        rfl
  | deinitTransport =>
      refine h.quiet hm hu fun e he => ?_
      simp only [List.mem_append, List.mem_map, List.mem_singleton] at he
      rcases he with (he | ⟨k, -, rfl⟩) | rfl
      · exact useSkbs_ofCall e he
      · rfl
      · rfl
  | sentResponse hev =>
      refine h.quiet hm hu fun e he => ?_
      rcases hev with rfl | rfl
      · cases he
      · rw [List.mem_singleton.mp he]
        rfl
  | found | woken | dropped | notified => exact h.quiet hm hu useSkbs_ofCall
  | closing | received => exact h.quiet hm hu fun e he => absurd he List.not_mem_nil
  | refused | prepared | closed | invoked | parsed =>
      exact h.quiet hm hu fun e he => by rw [List.mem_singleton.mp he]; rfl

end

end Icap.Linux
