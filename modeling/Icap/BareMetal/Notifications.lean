import Icap.BareMetal.Handling

set_option autoImplicit false

/-! # The two ends of a notification

What an application does with the notes it parses (`AnswersNotes`) and what a device does with
the verdicts it parses (`HearsVerdicts`), over any steps in which the messages parsed hold frames
of the peer and no callback enters `icap_loop`.
-/

namespace Icap.BareMetal

open ByteMemory RingBuffer Transition

/-! ## Logs -/

namespace HandlerEvent

def message : HandlerEvent → Option IcapRemoteMsg
  | parsed msg => some msg
  | _ => none

def callback : HandlerEvent → Option Callback
  | invoked c => some c
  | _ => none

def frame : HandlerEvent → Option (List Byte)
  | sent frame => some frame
  | _ => none

end HandlerEvent

def parsedMsgs (es : List HandlerEvent) : List IcapRemoteMsg := es.filterMap HandlerEvent.message

def invokedCallbacks (es : List HandlerEvent) : List Callback :=
  es.filterMap HandlerEvent.callback

def sentFrames (es : List HandlerEvent) : List (List Byte) := es.filterMap HandlerEvent.frame

/-- What `decode` reads in messages. -/
def read {β : Type} (decode : IcapMsg → Option β) (ms : List IcapRemoteMsg) : List β :=
  ms.filterMap fun m => decode m.data.mem

/-- What `decode` reads in frames. -/
def readFrames {β : Type} (decode : IcapMsg → Option β) (frames : List (List Byte)) : List β :=
  frames.filterMap fun frame => decode (ofList frame)

/-- The notes whose callback is set. -/
def heard (cb : CallbackTable) (ns : List Note) : List Note :=
  ns.filter fun n => cb n.callback.id

/-- The answers to notes, in order, when the callbacks that are set return `rs` in order; a
callback that has not returned leaves its note and the later ones without an answer. -/
def verdicts (cb : CallbackTable) : List Note → List U32 → List Callback
  | [], _ => []
  | n :: ns, rs =>
      if cb n.callback.id then
        match rs with
        | [] => []
        | ret :: rs => n.response ret :: verdicts cb ns rs
      else
        n.response 0 :: verdicts cb ns rs

section

variable (es es' : List HandlerEvent)

@[simp] theorem parsedMsgs_append : parsedMsgs (es ++ es') = parsedMsgs es ++ parsedMsgs es' := by
  simp [parsedMsgs]

@[simp] theorem invokedCallbacks_append :
    invokedCallbacks (es ++ es') = invokedCallbacks es ++ invokedCallbacks es' := by
  simp [invokedCallbacks]

@[simp] theorem sentFrames_append : sentFrames (es ++ es') = sentFrames es ++ sentFrames es' := by
  simp [sentFrames]

variable {β : Type} (decode : IcapMsg → Option β)

@[simp] theorem read_append (ms ms' : List IcapRemoteMsg) :
    read decode (ms ++ ms') = read decode ms ++ read decode ms' := by
  simp [read]

@[simp] theorem readFrames_append (fs fs' : List (List Byte)) :
    readFrames decode (fs ++ fs') = readFrames decode fs ++ readFrames decode fs' := by
  simp [readFrames]

@[simp] theorem readFrames_singleton (frame : List Byte) :
    readFrames decode [frame] = (decode (ofList frame)).toList := by
  cases h : decode (ofList frame) <;> simp [readFrames, h]

@[simp] theorem read_singleton (m : IcapRemoteMsg) :
    read decode [m] = (decode m.data.mem).toList := by
  cases h : decode m.data.mem <;> simp [read, h]

variable (cb : CallbackTable)

@[simp] theorem heard_append (ns ns' : List Note) :
    heard cb (ns ++ ns') = heard cb ns ++ heard cb ns' := by
  simp [heard]

theorem heard_cons_of_set {n : Note} {ns : List Note} (h : cb n.callback.id = true) :
    heard cb (n :: ns) = n :: heard cb ns :=
  List.filter_cons_of_pos h

theorem heard_cons_of_null {n : Note} {ns : List Note} (h : ¬ cb n.callback.id = true) :
    heard cb (n :: ns) = heard cb ns :=
  List.filter_cons_of_neg h

/-- Answers come note by note, as long as every callback has returned. -/
theorem verdicts_append {ns : List Note} {rs : List U32} (h : rs.length = (heard cb ns).length)
    (ns' : List Note) (rs' : List U32) :
    verdicts cb (ns ++ ns') (rs ++ rs') = verdicts cb ns rs ++ verdicts cb ns' rs' := by
  induction ns generalizing rs with
  | nil =>
      have hrs : rs = [] := List.eq_nil_of_length_eq_zero h
      rw [hrs]
      rfl
  | cons n ns ih =>
      by_cases hset : cb n.callback.id = true
      · rw [heard_cons_of_set cb hset] at h
        cases rs with
        | nil => cases h
        | cons ret rs =>
            have ih' := @ih rs (Nat.succ.inj h)
            simp only [List.cons_append, verdicts, if_pos hset, ih']
      · rw [heard_cons_of_null cb hset] at h
        simp only [List.cons_append, verdicts, if_neg hset, ih h]

end

/-! ## Messages from the peer -/

/-- The message holds a frame sent by the peer. -/
structure FromPeer (peer : U32) (frame : List Byte) (m : IcapRemoteMsg) : Prop where
  holds : Holds m.data.mem frame
  size : m.size = BitVec.ofNat 32 frame.length
  source : m.srcAddr = peer

/-- An initialised instance that has not heard anyone but the peer. -/
def Linked (cb : CallbackTable) (type : IcapInstanceType) (peer : U32) (icap : Instance) : Prop :=
  ∃ addr, identity icap = (some cb, type, addr) ∧ (addr = -1 ∨ addr = peer)

/-- The handler of a message that passes the checks. -/
def acceptedHandler (cb : CallbackTable) (type : IcapInstanceType) (msg : IcapMsg) : Parse U32 :=
  match type with
  | .application =>
      if IsResponse msg then .responseNotify msg .done
      else handle cb msg (applicationHandler msg)
  | .device =>
      if IsResponse msg then icapDeviceParseResponse cb msg
      else handle cb msg (deviceHandler msg)

section

variable {cb : CallbackTable} {type : IcapInstanceType} {peer : U32} {icap icap' : Instance}

theorem Linked.of_identity (h : Linked cb type peer icap) (hid : identity icap' = identity icap) :
    Linked cb type peer icap' := by
  obtain ⟨addr, heq, haddr⟩ := h
  exact ⟨addr, hid.trans heq, haddr⟩

/-- The peer is verified. -/
theorem Linked.verify (h : Linked cb type peer icap) :
    (icapVerifyRemote icap.transport peer).2 = 0 ∧
      Linked cb type peer
        { icap with transport := (icapVerifyRemote icap.transport peer).1 } := by
  obtain ⟨addr, heq, haddr⟩ := h
  simp only [identity, Prod.mk.injEq] at heq
  obtain ⟨hcb, htype, hremote⟩ := heq
  unfold icapVerifyRemote
  by_cases h1 : icap.transport.remoteAddr = -1
  · rw [if_pos h1]
    exact ⟨rfl, peer, by simp only [identity, hcb, htype], Or.inr rfl⟩
  · have h2 : icap.transport.remoteAddr = peer := by
      rcases haddr with rfl | rfl
      · exact absurd hremote h1
      · exact hremote
    rw [if_neg h1, if_neg (not_not_intro h2)]
    exact ⟨rfl, peer, by simp only [identity, hcb, htype, h2], Or.inr rfl⟩

/-- A linked instance accepts every frame of its peer. -/
theorem icapParseMsg_fromPeer {β : Type} {decode : IcapMsg → Option β} {frame : List Byte}
    {m : IcapRemoteMsg} (hlinked : Linked cb type peer icap) (hcarries : Carries decode frame)
    (hm : FromPeer peer frame m) :
    ∃ icap', icapParseMsg bareMetal icap m.srcAddr m.data.mem m.size
        = (icap', acceptedHandler cb type m.data.mem) ∧ Linked cb type peer icap' := by
  obtain ⟨cmd, msgType, seqNum, payload, rfl, hlen, htype⟩ := hcarries.built
  obtain ⟨hholds, hsize, hsource⟩ := hm
  have hf := frameAt_of_holds hholds
  have hmatches : sizeMatches bareMetal m.data.mem m.size = true := by
    rw [hsize, icapMsgFrame_length]
    exact decide_eq_true (hf.size_eq hlen le_rfl)
  obtain ⟨hret, hlinked'⟩ := hlinked.verify
  obtain ⟨addr, heq, -⟩ := hlinked
  simp only [identity, Prod.mk.injEq] at heq
  obtain ⟨hcb, hinst, -⟩ := heq
  have hret' : (bareMetal.icapVerifyRemote icap.transport peer).2 = 0 := hret
  refine ⟨{ icap with transport := (icapVerifyRemote icap.transport peer).1 }, ?_, hlinked'⟩
  rw [hsource]
  simp only [icapParseMsg, hcb, hf.protocolVersion, ne_eq, not_true_eq_false, if_false, hmatches,
    Bool.not_true, Bool.false_eq_true, hret']
  -- the frame passes every check, so its type chooses the handler
  by_cases hr : m.data.mem.type = ICAP_ACK ∨ m.data.mem.type = ICAP_NAK
  · have hr' : IsResponse m.data.mem := hr
    rw [if_pos hr]
    cases type with
    | application =>
        simp only [hinst, acceptedHandler, if_pos hr']
        rfl
    | device =>
        simp only [hinst, acceptedHandler, if_pos hr']
        rfl
  · have hmsg : m.data.mem.type = ICAP_MSG := by
      rw [hf.type]
      rcases htype with h | h | h
      · exact h
      · exact absurd (Or.inl (hf.type.trans h)) hr
      · exact absurd (Or.inr (hf.type.trans h)) hr
    have hr' : ¬ IsResponse m.data.mem := hr
    rw [if_neg hr, if_pos hmsg]
    cases type with
    | application =>
        simp only [hinst, acceptedHandler, if_neg hr', icapApplicationParseMsg_eq]
        rfl
    | device =>
        simp only [hinst, acceptedHandler, if_neg hr', icapDeviceParseMsg_eq]
        rfl

end

/-! ## The application -/

/-- How far the answers are: every callback has returned, or the callback of the latest note
runs. -/
inductive Answering (cb : CallbackTable) (ns : List Note) (results : List U32) :
    List (CallbackResult → Parse U32) → Prop
  | done (h : results.length = (heard cb ns).length) : Answering cb ns results []
  | running (before : List Note) (n : Note) (msg : IcapMsg) (hns : ns = before ++ [n])
      (hset : cb n.callback.id = true) (hmsg : noteOf msg = some n)
      (h : results.length = (heard cb before).length) :
      Answering cb ns results [fun r => .answer (n.handler.reply msg r)]

/-- The callbacks invoked are those of the notes parsed, and the frames sent that a device reads
as verdicts are the answers to them. -/
structure AnswersNotes (cb : CallbackTable) (s : State) (es : List HandlerEvent)
    (results : List U32) : Prop where
  invoked : invokedCallbacks es = (heard cb (read noteOf (parsedMsgs es))).map Note.callback
  sent : readFrames verdictOf (sentFrames es) = verdicts cb (read noteOf (parsedMsgs es)) results
  carries : ∀ frame ∈ sentFrames es, Carries verdictOf frame
  answering : Answering cb (read noteOf (parsedMsgs es)) results (pendingHandlers s.stack)

section

variable {cb : CallbackTable} {msg : IcapMsg} {n : Note}

theorem acceptedHandler_note (h : noteOf msg = some n) :
    acceptedHandler cb .application msg = handle cb msg (some n.handler) := by
  have htype := noteOf_type h
  simp only [acceptedHandler, if_neg (not_isResponse htype), applicationHandler_eq htype, h,
    Option.map_some]

theorem outcome_note_set (h : noteOf msg = some n) (hset : cb n.callback.id = true)
    (sendRet : U32) :
    outcome sendRet (acceptedHandler cb .application msg)
      = ([.invoked n.callback], some fun r => .answer (n.handler.reply msg r)) := by
  rw [← n.handler_callback] at hset ⊢
  rw [acceptedHandler_note h, handle, if_pos hset]
  rfl

theorem outcome_note_null (h : noteOf msg = some n) (hset : ¬ cb n.callback.id = true)
    (sendRet : U32) :
    outcome sendRet (acceptedHandler cb .application msg)
      = ([.sent (n.handler.defaultReply msg)], none) := by
  rw [← n.handler_callback] at hset
  rw [acceptedHandler_note h, handle, if_neg hset]
  rfl

/-- A message that is no note leads to no callback, and to no verdict. -/
theorem outcome_not_note (cb : CallbackTable) (h : noteOf msg = none)
    (htype : msg.type = ICAP_MSG ∨ IsResponse msg) (sendRet : U32) :
    ∃ frames, outcome sendRet (acceptedHandler cb .application msg)
        = (frames.map HandlerEvent.sent, none) ∧
      readFrames verdictOf frames = [] ∧ ∀ frame ∈ frames, Carries verdictOf frame := by
  by_cases hr : IsResponse msg
  · refine ⟨[], ?_, rfl, nofun⟩
    simp only [acceptedHandler, if_pos hr]
    rfl
  · have hm : msg.type = ICAP_MSG := htype.resolve_right hr
    obtain ⟨hcarries, hnone⟩ := carries_refusal hm h (-ICAP_ERROR_MSG_ID)
    refine ⟨[nakFrame msg (-ICAP_ERROR_MSG_ID)], ?_, ?_, ?_⟩
    · simp only [acceptedHandler, if_neg hr, applicationHandler_eq hm, h, Option.map_none]
      rfl
    · rw [readFrames_singleton, hnone]
      rfl
    · exact List.forall_mem_singleton.mpr hcarries

end

@[simp] theorem parsedMsgs_sent (frames : List (List Byte)) :
    parsedMsgs (frames.map HandlerEvent.sent) = [] := by
  induction frames with
  | nil => rfl
  | cons frame frames ih => exact ih

@[simp] theorem invokedCallbacks_sent (frames : List (List Byte)) :
    invokedCallbacks (frames.map HandlerEvent.sent) = [] := by
  induction frames with
  | nil => rfl
  | cons frame frames ih => exact ih

@[simp] theorem sentFrames_sent (frames : List (List Byte)) :
    sentFrames (frames.map HandlerEvent.sent) = frames := by
  induction frames with
  | nil => rfl
  | cons frame frames ih => exact congrArg (frame :: ·) ih

@[simp] theorem parsedMsgs_invoked (cs : List Callback) :
    parsedMsgs (cs.map HandlerEvent.invoked) = [] := by
  induction cs with
  | nil => rfl
  | cons c cs ih => exact ih

@[simp] theorem invokedCallbacks_invoked (cs : List Callback) :
    invokedCallbacks (cs.map HandlerEvent.invoked) = cs := by
  induction cs with
  | nil => rfl
  | cons c cs ih => exact congrArg (c :: ·) ih

@[simp] theorem sentFrames_invoked (cs : List Callback) :
    sentFrames (cs.map HandlerEvent.invoked) = [] := by
  induction cs with
  | nil => rfl
  | cons c cs ih => exact ih

/-- A request is a message of the requested command. -/
theorem request_eq {c : ApiCall} {n : U32} {frame : List Byte} (h : c.request n = some frame) :
    ∃ cmd payload, frame = icapMsgFrame cmd ICAP_MSG n payload ∧
      payload.length ≤ sizeofIcapMsgPayload := by
  have hsends := c.call_sends
  unfold ApiCall.request at h
  cases hc : c.call with
  | done r => simp [hc] at h
  | sendMsg cmd data sync wants k =>
      rw [hc] at hsends
      simp only [hc, Option.some.injEq] at h
      exact ⟨cmd, data.getD [], h.symm, hsends.2⟩

section

variable {cb : CallbackTable} {s s' : State} {es : List HandlerEvent} {results : List U32}

/-- Frames that are no verdicts change nothing. -/
theorem AnswersNotes.send (h : AnswersNotes cb s es results) (ms : List IcapRemoteMsg)
    (frames : List (List Byte)) {es' : List HandlerEvent} (hmsgs : parsedMsgs es' = ms)
    (hm : read noteOf ms = []) (hinvoked : invokedCallbacks es' = [])
    (hsent : sentFrames es' = frames) (hframes : readFrames verdictOf frames = [])
    (hcarries : ∀ frame ∈ frames, Carries verdictOf frame)
    (hpending : pendingHandlers s'.stack = pendingHandlers s.stack) :
    AnswersNotes cb s' (es ++ es') results := by
  obtain ⟨h1, h2, h3, h4⟩ := h
  refine ⟨?_, ?_, ?_, ?_⟩
  · simp only [invokedCallbacks_append, parsedMsgs_append, read_append, hmsgs, hm, hinvoked,
      List.append_nil, h1]
  · simp only [sentFrames_append, readFrames_append, parsedMsgs_append, read_append, hmsgs, hm,
      hsent, hframes, List.append_nil, h2]
  · rw [sentFrames_append, hsent]
    exact List.forall_mem_append.mpr ⟨h3, hcarries⟩
  · simp only [parsedMsgs_append, read_append, hmsgs, hm, List.append_nil, hpending]
    exact h4

theorem AnswersNotes.results_length (h : AnswersNotes cb s es results)
    (hidle : pendingHandlers s.stack = []) :
    results.length = (heard cb (read noteOf (parsedMsgs es))).length := by
  have ha := h.answering
  rw [hidle] at ha
  cases ha with
  | done hlen => exact hlen

/-- A note is parsed. -/
theorem AnswersNotes.parse (h : AnswersNotes cb s es results)
    (hidle : pendingHandlers s.stack = []) {m : IcapRemoteMsg} {frame : List Byte}
    {sendRet : U32} (hcarries : Carries noteOf frame) (hm : Holds m.data.mem frame)
    (hpending : pendingHandlers s'.stack
      = (outcome sendRet (acceptedHandler cb .application m.data.mem)).2.toList) :
    AnswersNotes cb s'
      (es ++ .parsed m :: (outcome sendRet (acceptedHandler cb .application m.data.mem)).1)
      results := by
  have hlen := h.results_length hidle
  cases hn : noteOf m.data.mem with
  | none =>
      obtain ⟨frames, hout, hframes, hall⟩ :=
        outcome_not_note cb hn (hcarries.type hm) sendRet
      rw [hout] at hpending ⊢
      refine h.send [m] frames ?_ ?_ ?_ ?_ hframes hall ?_
      · exact congrArg (m :: ·) (parsedMsgs_sent frames)
      · rw [read_singleton, hn]
        rfl
      · exact invokedCallbacks_sent frames
      · exact sentFrames_sent frames
      · rw [hpending, hidle]
        rfl
  | some n =>
      obtain ⟨h1, h2, h3, -⟩ := h
      have hmsgs (es' : List HandlerEvent) (hes' : parsedMsgs es' = []) :
          read noteOf (parsedMsgs (es ++ .parsed m :: es'))
            = read noteOf (parsedMsgs es) ++ [n] := by
        have hcons : parsedMsgs (.parsed m :: es') = [m] := congrArg (m :: ·) hes'
        rw [parsedMsgs_append, hcons, read_append, read_singleton, hn]
        rfl
      have hverdicts := verdicts_append cb hlen [n] []
      rw [List.append_nil] at hverdicts
      -- a callback that is set answers when it returns, one that is not set at once
      by_cases hset : cb n.callback.id = true
      · rw [outcome_note_set hn hset] at hpending ⊢
        refine ⟨?_, ?_, ?_, ?_⟩
        · rw [hmsgs _ rfl, heard_append, List.map_append, ← h1, invokedCallbacks_append]
          rw [heard_cons_of_set cb hset]
          rfl
        · rw [hmsgs _ rfl, hverdicts, sentFrames_append, readFrames_append, h2]
          simp only [verdicts, if_pos hset]
          rfl
        · rw [sentFrames_append]
          exact List.forall_mem_append.mpr ⟨h3, nofun⟩
        · rw [hmsgs _ rfl, hpending]
          exact .running _ n m.data.mem rfl hset hn hlen
      · rw [outcome_note_null hn hset] at hpending ⊢
        obtain ⟨hreply, hresponse⟩ := carries_defaultReply hn
        refine ⟨?_, ?_, ?_, ?_⟩
        · rw [hmsgs _ rfl, heard_append, List.map_append, ← h1, invokedCallbacks_append]
          rw [heard_cons_of_null cb hset]
          rfl
        · have hframe : readFrames verdictOf [n.handler.defaultReply m.data.mem]
              = [n.response 0] := by
            rw [readFrames_singleton, hresponse]
            rfl
          rw [hmsgs _ rfl, hverdicts, sentFrames_append, readFrames_append, h2]
          simp only [verdicts, if_neg hset]
          exact congrArg _ hframe
        · rw [sentFrames_append]
          exact List.forall_mem_append.mpr ⟨h3, List.forall_mem_singleton.mpr hreply⟩
        · rw [hmsgs _ rfl, hpending]
          refine .done ?_
          rw [heard_append, heard_cons_of_null cb hset, hlen]
          simp [heard]

/-- The callback of a note returns. -/
theorem AnswersNotes.resume (h : AnswersNotes cb s es results)
    {k : CallbackResult → Parse U32} {rest : List (CallbackResult → Parse U32)}
    (hk : pendingHandlers s.stack = k :: rest) (r : CallbackResult) (sendRet : U32)
    (hpending : pendingHandlers s'.stack = (outcome sendRet (k r)).2.toList ++ rest) :
    AnswersNotes cb s' (es ++ (outcome sendRet (k r)).1) (results ++ [r.ret]) := by
  obtain ⟨h1, h2, h3, h4⟩ := h
  rw [hk] at h4
  generalize hns : read noteOf (parsedMsgs es) = ns at h1 h2 h4
  -- the running callback is that of the latest note, so its verdict is the next one
  cases h4 with
  | running before n msg hsplit hset hmsg hlen =>
      obtain ⟨hreply, hresponse⟩ := carries_reply hmsg r
      have hmsgs : read noteOf (parsedMsgs (es ++ (outcome sendRet
          (Parse.answer (n.handler.reply msg r))).1)) = ns := by
        rw [parsedMsgs_append, read_append, hns]
        exact List.append_nil ns
      have hbefore := verdicts_append cb hlen [n] []
      have hafter := verdicts_append cb hlen [n] [r.ret]
      rw [List.append_nil, ← hsplit] at hbefore
      rw [← hsplit] at hafter
      simp only [verdicts, if_pos hset] at hbefore hafter
      refine ⟨?_, ?_, ?_, ?_⟩
      · rw [hmsgs, invokedCallbacks_append, h1]
        exact List.append_nil _
      · have hframe : readFrames verdictOf [n.handler.reply msg r] = [n.response r.ret] := by
          rw [readFrames_singleton, hresponse]
          rfl
        rw [hmsgs, hafter, sentFrames_append, readFrames_append, h2, hbefore, List.append_nil]
        exact congrArg _ hframe
      · rw [sentFrames_append]
        exact List.forall_mem_append.mpr ⟨h3, List.forall_mem_singleton.mpr hreply⟩
      · rw [hmsgs, hpending]
        refine .done ?_
        rw [hsplit, heard_append, heard_cons_of_set cb hset, List.length_append, hlen]
        simp [heard]

/-- The application answers the notes it parses, step by step. -/
theorem AnswersNotes.of_step {Q : Nat} {i : Input} {ev : List Event} {peer : U32}
    (h : AnswersNotes cb s es results) (hlinked : Linked cb .application peer s.icap)
    (hidle : entersLoop i = true → loopTails s.stack = [])
    (hmsg : entersLoop i = true → s.fifo.tail ≠ s.fifo.head → ∃ frame, Carries noteOf frame ∧
      FromPeer peer frame (s.fifo.slot (indexNext Q s.fifo.tail)))
    (hstep : Handling Q s i s' ev) :
    Linked cb .application peer s'.icap ∧
      AnswersNotes cb s' (es ++ handlerEvents ev) (results ++ i.result.toList) := by
  cases hstep with
  | quiet _ hresult hev hpending hid =>
      refine ⟨hlinked.of_identity hid, ?_⟩
      have hsend : AnswersNotes cb s' (es ++ []) results :=
        h.send [] [] rfl rfl rfl rfl rfl nofun hpending
      simpa only [hev, hresult, Option.toList_none, List.append_nil] using hsend
  -- a device reads a request as no verdict
  | call c now sendRet uninit frame hi hreq hev hpending hid =>
      refine ⟨hlinked.of_identity hid, ?_⟩
      obtain ⟨cmd, payload, rfl, hlen⟩ := request_eq hreq
      obtain ⟨hcarries, hnone⟩ := carries_request cmd (s.icap.seqNum + 1) hlen
      have hresult : i.result = none := by rw [hi]; rfl
      rw [hev, hresult, Option.toList_none, List.append_nil]
      refine h.send [] [_] rfl rfl rfl rfl ?_ ?_ hpending
      · rw [readFrames_singleton, hnone]
        rfl
      · exact List.forall_mem_singleton.mpr hcarries
  | parse sendRet msg icap p henter hne hslot hp hev hpending hid =>
      obtain ⟨frame, hcarries, hfrom⟩ := hmsg henter hne
      rw [← hslot] at hfrom
      obtain ⟨icap', hp', hlinked'⟩ := icapParseMsg_fromPeer hlinked hcarries hfrom
      rw [hp'] at hp
      obtain ⟨rfl, rfl⟩ := Prod.mk.inj hp
      have hresult : i.result = none := by
        cases i <;> first | rfl | cases henter
      have hnil := pendingHandlers_eq_nil (hidle henter)
      rw [hnil, List.append_nil] at hpending
      refine ⟨hlinked'.of_identity hid, ?_⟩
      rw [hev, hresult, Option.toList_none, List.append_nil]
      exact h.parse hnil hcarries hfrom.holds hpending
  | resume r sendRet k rest hi hk hev hpending hid =>
      refine ⟨hlinked.of_identity hid, ?_⟩
      rw [hev, hi]
      exact h.resume hk r sendRet hpending

end

/-! ## The device -/

/-- The rest of a handler sends at most an answer. -/
def Answers (k : CallbackResult → Parse U32) : Prop :=
  ∀ r sendRet, ∃ frames, outcome sendRet (k r) = (frames.map HandlerEvent.sent, none) ∧
    readFrames noteOf frames = [] ∧ ∀ frame ∈ frames, Carries noteOf frame

/-- The verdict callbacks invoked are those of the verdicts parsed that are set, and the frames
sent that an application reads as notes are the notifications. -/
structure HearsVerdicts (cb : CallbackTable) (s : State) (es : List HandlerEvent)
    (notes : List Note) : Prop where
  invoked : (invokedCallbacks es).filter Callback.isVerdict
    = (read verdictOf (parsedMsgs es)).filter fun c => cb c.id
  sent : readFrames noteOf (sentFrames es) = notes
  carries : ∀ frame ∈ sentFrames es, Carries noteOf frame
  pending : ∀ k ∈ pendingHandlers s.stack, Answers k

theorem answers_answer {frame : List Byte}
    (h : Carries noteOf frame ∧ noteOf (ofList frame) = none) :
    readFrames noteOf [frame] = [] ∧ ∀ frame' ∈ [frame], Carries noteOf frame' := by
  refine ⟨?_, List.forall_mem_singleton.mpr h.1⟩
  rw [readFrames_singleton, h.2]
  rfl

theorem answers_reply (h : Handler) (msg : IcapMsg) :
    Answers fun r => .answer (h.reply msg r) := by
  intro r sendRet
  exact ⟨[h.reply msg r], rfl, answers_answer (carries_handler_reply h msg r)⟩

theorem answers_done : Answers fun r => .done r.ret := fun _ _ => ⟨[], rfl, rfl, nofun⟩

section

variable {cb : CallbackTable} {msg : IcapMsg}

/-- A device invokes the callback of a verdict, or handles a request without notifying. -/
theorem outcome_device (cb : CallbackTable) (htype : msg.type = ICAP_MSG ∨ IsResponse msg)
    (sendRet : U32) :
    ∃ (cs : List Callback) (frames : List (List Byte)) (k : Option _),
      outcome sendRet (acceptedHandler cb .device msg)
        = (cs.map HandlerEvent.invoked ++ frames.map HandlerEvent.sent, k) ∧
      cs.filter Callback.isVerdict = (verdictOf msg).toList.filter (fun c => cb c.id) ∧
      (readFrames noteOf frames = [] ∧ ∀ frame ∈ frames, Carries noteOf frame) ∧
      ∀ k' ∈ k, Answers k' := by
  -- a verdict is a response; every message of type `ICAP_MSG` is a request of the application
  by_cases hr : IsResponse msg
  · simp only [acceptedHandler, if_pos hr, icapDeviceParseResponse_eq cb hr]
    cases hv : verdictOf msg with
    | none => exact ⟨[], [], none, rfl, rfl, ⟨rfl, nofun⟩, nofun⟩
    | some c =>
        have hc := verdictOf_isVerdict hv
        cases hset : cb c.id with
        | false =>
            exact ⟨[], [], none, by simp only [hset]; rfl, by simp [hset], ⟨rfl, nofun⟩, nofun⟩
        | true =>
            refine ⟨[c], [], some fun r => .done r.ret, by simp only [hset]; rfl,
              by simp [hset, hc], ⟨rfl, nofun⟩, ?_⟩
            rintro k ⟨⟩
            exact answers_done
  · have hm : msg.type = ICAP_MSG := htype.resolve_right hr
    simp only [acceptedHandler, if_neg hr, verdictOf_message hm]
    cases hd : deviceHandler msg with
    | none =>
        exact ⟨[], [nakFrame msg (-ICAP_ERROR_MSG_ID)], none, rfl, rfl,
          answers_answer (carries_answer (word32_length_le _) (Or.inr rfl)), nofun⟩
    | some h =>
        have hc := deviceHandler_callback msg h hd
        cases hset : cb h.callback.id with
        | false =>
            rw [handle_of_null hset]
            exact ⟨[], [h.defaultReply msg], none, rfl, rfl, answers_answer
              (carries_answer (AnswerKind.defaultPayload_length_le _) (Or.inl rfl)), nofun⟩
        | true =>
            rw [handle, if_pos hset]
            refine ⟨[h.callback], [], some fun r => .answer (h.reply msg r), rfl, by simp [hc],
              ⟨rfl, nofun⟩, ?_⟩
            rintro k ⟨⟩
            exact answers_reply h msg

/-- A call of a device function sends its note. -/
theorem request_note {c : ApiCall} (hsync : c.sync = false) {n : U32} {frame : List Byte}
    (h : c.request n = some frame) :
    ∃ note, c.note = some note ∧ frame = icapMsgFrame note.cmd ICAP_MSG n note.payload := by
  cases c with
  | fragReady buf =>
      cases buf with
      | none => cases h
      | some frags => exact ⟨.fragReady frags, rfl, (Option.some.inj h).symm⟩
  | xrun buf =>
      cases buf with
      | none => cases h
      | some frags => exact ⟨.xrun frags, rfl, (Option.some.inj h).symm⟩
  | error e => exact ⟨.error e, rfl, (Option.some.inj h).symm⟩
  | _ => cases hsync

variable {s s' : State} {es : List HandlerEvent} {notes : List Note}

theorem HearsVerdicts.add (h : HearsVerdicts cb s es notes) {es' : List HandlerEvent}
    {notes' : List Note}
    (hinvoked : (invokedCallbacks es').filter Callback.isVerdict
      = (read verdictOf (parsedMsgs es')).filter fun c => cb c.id)
    (hsent : readFrames noteOf (sentFrames es') = notes')
    (hcarries : ∀ frame ∈ sentFrames es', Carries noteOf frame)
    (hpending : ∀ k ∈ pendingHandlers s'.stack, Answers k) :
    HearsVerdicts cb s' (es ++ es') (notes ++ notes') := by
  obtain ⟨h1, h2, h3, -⟩ := h
  refine ⟨?_, ?_, ?_, hpending⟩
  · calc (invokedCallbacks (es ++ es')).filter Callback.isVerdict
        = (invokedCallbacks es).filter Callback.isVerdict
            ++ (invokedCallbacks es').filter Callback.isVerdict := by
          rw [invokedCallbacks_append, List.filter_append]
      _ = (read verdictOf (parsedMsgs es)).filter (fun c => cb c.id)
            ++ (read verdictOf (parsedMsgs es')).filter fun c => cb c.id := by
          rw [h1, hinvoked]
      _ = (read verdictOf (parsedMsgs (es ++ es'))).filter fun c => cb c.id := by
          rw [parsedMsgs_append, read_append, List.filter_append]
  · rw [sentFrames_append, readFrames_append, h2, hsent]
  · rw [sentFrames_append]
    exact List.forall_mem_append.mpr ⟨h3, hcarries⟩

/-- The device notifies and hears verdicts, step by step. -/
theorem HearsVerdicts.of_step {Q : Nat} {i : Input} {ev : List Event} {peer : U32}
    (h : HearsVerdicts cb s es notes) (hlinked : Linked cb .device peer s.icap)
    (hcall : ∀ c now sendRet uninit, i = .call c now sendRet uninit → c.sync = false)
    (hmsg : entersLoop i = true → s.fifo.tail ≠ s.fifo.head → ∃ frame, Carries verdictOf frame ∧
      FromPeer peer frame (s.fifo.slot (indexNext Q s.fifo.tail)))
    (hstep : Handling Q s i s' ev) :
    Linked cb .device peer s'.icap ∧
      HearsVerdicts cb s' (es ++ handlerEvents ev) (notes ++ i.note.toList) := by
  cases hstep with
  | quiet hnote _ hev hpending hid =>
      refine ⟨hlinked.of_identity hid, ?_⟩
      rw [hev, hnote]
      exact h.add rfl rfl nofun (by rw [hpending]; exact h.pending)
  -- what a device calls is a notification
  | call c now sendRet uninit frame hi hreq hev hpending hid =>
      refine ⟨hlinked.of_identity hid, ?_⟩
      obtain ⟨note, hnote, rfl⟩ := request_note (hcall c now sendRet uninit hi) hreq
      obtain ⟨hcarries, hread⟩ := carries_note note (s.icap.seqNum + 1)
      have hnote' : i.note = some note := by rw [hi]; exact hnote
      rw [hev, hnote']
      refine h.add rfl ?_ ?_ (by rw [hpending]; exact h.pending)
      · rw [show sentFrames _ = [_] from rfl, readFrames_singleton, hread]
      · exact List.forall_mem_singleton.mpr hcarries
  | parse sendRet msg icap p henter hne hslot hp hev hpending hid =>
      obtain ⟨frame, hcarries, hfrom⟩ := hmsg henter hne
      rw [← hslot] at hfrom
      obtain ⟨icap', hp', hlinked'⟩ := icapParseMsg_fromPeer hlinked hcarries hfrom
      rw [hp'] at hp
      obtain ⟨rfl, rfl⟩ := Prod.mk.inj hp
      have hnote : i.note = none := by
        cases i <;> first | rfl | cases henter
      obtain ⟨cs, frames, k, hout, hcs, ⟨hframes, hall⟩, hk⟩ :=
        outcome_device cb (hcarries.type hfrom.holds) sendRet
      rw [hout] at hev hpending
      refine ⟨hlinked'.of_identity hid, ?_⟩
      rw [hev, hnote]
      have hmsgs :
          parsedMsgs (cs.map HandlerEvent.invoked ++ frames.map HandlerEvent.sent) = [] := by
        simp
      have hinvoked : invokedCallbacks (cs.map HandlerEvent.invoked
          ++ frames.map HandlerEvent.sent) = cs := by
        simp
      have hsent : sentFrames (cs.map HandlerEvent.invoked ++ frames.map HandlerEvent.sent)
          = frames := by
        simp
      refine h.add ?_ ?_ ?_ ?_
      · rw [show parsedMsgs (.parsed msg :: _) = [msg] from congrArg (msg :: ·) hmsgs,
          read_singleton, ← hcs]
        exact congrArg _ hinvoked
      · exact (congrArg _ hsent).trans hframes
      · exact fun frame hframe => hall frame (hsent ▸ hframe)
      · rw [hpending]
        exact List.forall_mem_append.mpr
          ⟨fun k' hk' => hk k' (Option.mem_toList.mp hk'), h.pending⟩
  | resume r sendRet k rest hi hk hev hpending hid =>
      refine ⟨hlinked.of_identity hid, ?_⟩
      obtain ⟨frames, hout, hframes, hall⟩ :=
        h.pending k (by rw [hk]; exact List.mem_cons_self) r sendRet
      have hnote : i.note = none := by rw [hi]; rfl
      rw [hout] at hev hpending
      rw [hev, hnote]
      refine h.add ?_ ?_ ?_ ?_
      · rw [invokedCallbacks_sent, parsedMsgs_sent]
        rfl
      · rw [sentFrames_sent]
        exact hframes
      · rw [sentFrames_sent]
        exact hall
      · intro k' hk'
        refine h.pending k' ?_
        rw [hk]
        rw [hpending] at hk'
        exact List.mem_cons_of_mem _ hk'

end

end Icap.BareMetal
