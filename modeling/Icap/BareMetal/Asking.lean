import Icap.BareMetal.Serving

set_option autoImplicit false

/-! # An application that makes requests

What an application sends, over any steps in which the messages parsed hold frames of a device and
every call is one of an application function: the requests of its calls, in the order of the calls
and with the seq_nums from 1 on, and responses to what it parses (`AsksRequests`).
-/

namespace Icap.BareMetal

open ByteMemory RingBuffer Transition

/-- The request the program makes. -/
def Input.asked : Input → Option (U32 → Request)
  | .call c _ _ _ => c.ask
  | _ => none

/-- The rest of a handler sends responses only. -/
def Responds (k : CallbackResult → Parse U32) : Prop :=
  ∀ r sendRet, ∃ frames : List (List Byte),
    outcome sendRet (k r) = (frames.map HandlerEvent.sent, none) ∧
      ∀ frame ∈ frames, ResponseFrame frame

/-- The application has made the requests `asked`. -/
structure AsksRequests (s : State) (es : List HandlerEvent) (asked : List (U32 → Request)) :
    Prop where
  counter : s.icap.seqNum = BitVec.ofNat 32 asked.length
  sent : readFrames requestOf (sentFrames es) = numbered asked
  frames : ∀ frame ∈ sentFrames es, Asks frame
  pending : ∀ k ∈ pendingHandlers s.stack, Responds k

/-! ## Handlers -/

theorem responds_answer {frame : List Byte} (h : ResponseFrame frame) (sendRet : U32) :
    ∃ frames : List (List Byte),
      outcome sendRet (Parse.answer frame) = (frames.map HandlerEvent.sent, none) ∧
        ∀ frame ∈ frames, ResponseFrame frame :=
  ⟨[frame], rfl, List.forall_mem_singleton.mpr h⟩

/-- A message handler invokes a callback and then responds, or responds at once. -/
theorem outcome_handle (cb : CallbackTable) (msg : IcapMsg) (h : Option Handler) (sendRet : U32) :
    ∃ (cs : List Callback) (frames : List (List Byte)) (k : Option _),
      outcome sendRet (handle cb msg h)
        = (cs.map HandlerEvent.invoked ++ frames.map HandlerEvent.sent, k) ∧
      (∀ frame ∈ frames, ResponseFrame frame) ∧ ∀ k' ∈ k, Responds k' := by
  cases h with
  | none =>
      exact ⟨[], [nakFrame msg (-ICAP_ERROR_MSG_ID)], none, rfl,
        List.forall_mem_singleton.mpr (responseFrame_nak msg _), by simp⟩
  | some h =>
      cases hset : cb h.callback.id with
      | false =>
          rw [handle_of_null hset]
          exact ⟨[], [h.defaultReply msg], none, rfl, List.forall_mem_singleton.mpr
            (responseFrame_ack msg (AnswerKind.defaultPayload_length_le _)), by simp⟩
      | true =>
          rw [handle, if_pos hset]
          refine ⟨[h.callback], [], some fun r => .answer (h.reply msg r), rfl,
            List.forall_mem_nil _, ?_⟩
          rintro k ⟨⟩
          exact fun r sendRet => responds_answer (responseFrame_reply h msg r) sendRet

/-- An application responds to what it parses. -/
theorem outcome_application (cb : CallbackTable) (msg : IcapMsg) (sendRet : U32) :
    ∃ (cs : List Callback) (frames : List (List Byte)) (k : Option _),
      outcome sendRet (acceptedHandler cb .application msg)
        = (cs.map HandlerEvent.invoked ++ frames.map HandlerEvent.sent, k) ∧
      (∀ frame ∈ frames, ResponseFrame frame) ∧ ∀ k' ∈ k, Responds k' := by
  by_cases hr : IsResponse msg
  · simp only [acceptedHandler, if_pos hr]
    exact ⟨[], [], none, rfl, List.forall_mem_nil _, by simp⟩
  · simp only [acceptedHandler, if_neg hr]
    exact outcome_handle cb msg _ sendRet

/-! ## Steps -/

section

variable {Q : Nat} {s s' : State} {i : Input} {ev : List Event} {es : List HandlerEvent}
  {asked : List (U32 → Request)}

/-- A step makes the next request, or makes none. -/
theorem step_asked (hlife : i.lifecycle = false)
    (hcall : ∀ c now sendRet uninit, i = .call c now sendRet uninit → c.sync = true)
    (h : step Q s i = some (s', ev)) :
    (∃ (c : ApiCall) (q : U32 → Request) (frame : List Byte), i.asked = some q ∧ c.ask = some q ∧
      c.request (s.icap.seqNum + 1) = some frame ∧ s'.icap.seqNum = s.icap.seqNum + 1 ∧
      handlerEvents ev = [.sent frame] ∧ pendingHandlers s'.stack = pendingHandlers s.stack) ∨
    (i.asked = none ∧ s'.icap.seqNum = s.icap.seqNum) := by
  have hopen : opensTransport s i = false := by
    cases i <;> first | rfl | cases hlife
  have hstep := h
  cases step_cases h with
  | refused c now sendRet uninit _ hreq => exact Or.inr ⟨ApiCall.ask_eq_none hreq, rfl⟩
  | waits c now sendRet uninit frame _ hreq hsync =>
      obtain ⟨q, hq⟩ := ApiCall.ask_of_request hsync hreq
      exact Or.inl ⟨c, q, frame, hq, hq, hreq, rfl, rfl, rfl⟩
  | notifies c now sendRet uninit frame _ hreq hasync =>
      rw [hcall c now sendRet uninit rfl] at hasync
      cases hasync
  | putMsg msg => exact Or.inr ⟨rfl, icapPutMsg_seqNum _ _ _⟩
  | lifecycle r hr => simp [lifecycle_of_result hr] at hlife
  | loop sendRet | pass sendRet | polls | timesOut | resumes =>
      rcases step_counter hopen hstep with ⟨_, _, _, _, _, hi, -⟩ | ⟨hsame, -⟩
      · cases hi
      · exact Or.inr ⟨rfl, hsame⟩

theorem readFrames_responses {frames : List (List Byte)}
    (h : ∀ frame ∈ frames, ResponseFrame frame) : readFrames requestOf frames = [] :=
  List.filterMap_eq_nil_iff.mpr fun frame hframe => (h frame hframe).carries_request.2

/-- Nothing but responses is sent. -/
theorem AsksRequests.respond (h : AsksRequests s es asked) {es' : List HandlerEvent}
    (hseq : s'.icap.seqNum = s.icap.seqNum)
    (hframes : ∀ frame ∈ sentFrames es', ResponseFrame frame)
    (hpending : ∀ k ∈ pendingHandlers s'.stack, Responds k) :
    AsksRequests s' (es ++ es') asked := by
  obtain ⟨h1, h2, h3, -⟩ := h
  refine ⟨hseq.trans h1, ?_, ?_, hpending⟩
  · rw [sentFrames_append, readFrames_append, readFrames_responses hframes, List.append_nil]
    exact h2
  · rw [sentFrames_append]
    exact List.forall_mem_append.mpr ⟨h3, fun frame hframe => Or.inl (hframes frame hframe)⟩

/-- The application makes the requests of its calls, step by step. -/
theorem AsksRequests.of_step {β : Type} {decode : IcapMsg → Option β} {cb : CallbackTable}
    {peer : U32} (h : AsksRequests s es asked) (hlinked : Linked cb .application peer s.icap)
    (hlife : i.lifecycle = false)
    (hcall : ∀ c now sendRet uninit, i = .call c now sendRet uninit → c.sync = true)
    (hmsg : entersLoop i = true → s.fifo.tail ≠ s.fifo.head → ∃ frame, Carries decode frame ∧
      FromPeer peer frame (s.fifo.slot (indexNext Q s.fifo.tail)))
    (hstep : step Q s i = some (s', ev)) :
    AsksRequests s' (es ++ handlerEvents ev) (asked ++ i.asked.toList) := by
  rcases step_asked hlife hcall hstep with
    ⟨c, q, frame, hi, hask, hreq, hseq, hev, hpending⟩ | ⟨hi, hseq⟩
  · -- the next request has the next seq_num
    obtain ⟨h1, h2, h3, h4⟩ := h
    have hnumber : s.icap.seqNum + 1 = BitVec.ofNat 32 (asked.length + 1) := by
      rw [h1, BitVec.ofNat_add]
      rfl
    rw [hi, hev, Option.toList_some]
    refine ⟨?_, ?_, ?_, ?_⟩
    · rw [hseq, hnumber, List.length_append, List.length_singleton]
    · rw [sentFrames_append, readFrames_append, h2, numbered_snoc, ← hnumber]
      change _ ++ readFrames requestOf [frame] = _
      rw [readFrames_singleton, (carries_ask hask hreq).2]
      rfl
    · rw [sentFrames_append]
      exact List.forall_mem_append.mpr
        ⟨h3, List.forall_mem_singleton.mpr (Or.inr ⟨c, q, _, hask, hreq⟩)⟩
    · rw [hpending]
      exact h4
  · rw [hi, Option.toList_none, List.append_nil]
    cases step_handling hlife hstep with
    | quiet _ _ hev hpending _ =>
        rw [hev]
        exact h.respond hseq nofun (by rw [hpending]; exact h.pending)
    | call c now sendRet uninit frame hcalled hreq _ _ _ =>
        obtain ⟨q, hq⟩ := ApiCall.ask_of_request (hcall c now sendRet uninit hcalled) hreq
        rw [hcalled] at hi
        exact absurd (hi.symm.trans hq) nofun
    | parse sendRet msg icap p henter hne hslot hp hev hpending _ =>
        obtain ⟨frame, hcarries, hfrom⟩ := hmsg henter hne
        rw [← hslot] at hfrom
        obtain ⟨icap', hp', -⟩ := icapParseMsg_fromPeer hlinked hcarries hfrom
        rw [hp'] at hp
        obtain ⟨rfl, rfl⟩ := Prod.mk.inj hp
        obtain ⟨cs, frames, k, hout, hframes, hk⟩ := outcome_application cb msg.data.mem sendRet
        rw [hout] at hev hpending
        have hsent : sentFrames (handlerEvents ev) = frames := by
          rw [hev]
          change sentFrames (cs.map HandlerEvent.invoked ++ frames.map HandlerEvent.sent) = _
          simp
        refine h.respond hseq (by rw [hsent]; exact hframes) ?_
        rw [hpending]
        exact List.forall_mem_append.mpr
          ⟨fun k' hk' => hk k' (Option.mem_toList.mp hk'), h.pending⟩
    | resume r sendRet k rest hresumed hk hev hpending _ =>
        obtain ⟨frames, hout, hframes⟩ :=
          h.pending k (by rw [hk]; exact List.mem_cons_self) r sendRet
        rw [hout] at hev hpending
        refine h.respond hseq (by rw [hev, sentFrames_sent]; exact hframes) ?_
        rw [hpending]
        intro k' hk'
        exact h.pending k' (by rw [hk]; exact List.mem_cons_of_mem _ hk')

end

end Icap.BareMetal
