import Icap.BareMetal.Notifications
import Icap.Protocol.Request

set_option autoImplicit false

/-! # A device that serves requests

What a device does with the requests it parses, as a server that takes one at a time (`Serves`):
the callbacks for requests are invoked in the order of the requests, and the replies are those to
the requests, with the results of their callbacks. This holds over any steps in which the messages
parsed hold frames of an application and no callback enters `icap_loop`.
-/

namespace Icap.BareMetal

open ByteMemory RingBuffer Transition

/-! ## The log of a device -/

/-- The results of the callbacks for requests, when the callbacks `cs` have returned `rs` in
order. -/
def requestResults (cs : List Callback) (rs : List CallbackResult) : List CallbackResult :=
  ((cs.zip rs).filter fun p => !p.1.isVerdict).map Prod.snd

/-- What the running callback returns. -/
def Input.callbackResult : Input → Option CallbackResult
  | .callbackRet r _ => some r
  | _ => none

/-- The callback that runs, if any, with the rest of its handler: that of the latest request, or
one for an answer. -/
inductive Serving (cb : CallbackTable) (qs : List Request) (cs : List Callback)
    (rs : List CallbackResult) : List (CallbackResult → Parse U32) → Prop
  | idle (hlen : rs.length = cs.length)
      (h : Serial.Progress (Request.isSet cb) qs (requestResults cs rs) none) :
      Serving cb qs cs rs []
  | request (q : Request) (before : List Callback) (hcs : cs = before ++ [q.callback])
      (hq : q.callback.isVerdict = false) (hlen : rs.length = before.length)
      (h : Serial.Progress (Request.isSet cb) qs (requestResults cs rs) (some q)) :
      Serving cb qs cs rs [fun r => .answer (q.reply (some r))]
  | verdict (c : Callback) (before : List Callback) (hcs : cs = before ++ [c])
      (hc : c.isVerdict = true) (hlen : rs.length = before.length)
      (h : Serial.Progress (Request.isSet cb) qs (requestResults cs rs) none) :
      Serving cb qs cs rs [fun r => .done r.ret]

/-- The requests `qs` have been read, the callbacks `cs` invoked and the frames `frames` sent. -/
structure Serves (cb : CallbackTable) (qs : List Request) (cs : List Callback)
    (frames : List (List Byte)) (rs : List CallbackResult)
    (pending : List (CallbackResult → Parse U32)) : Prop where
  invoked : cs.filter (fun c => !c.isVerdict)
    = (qs.filter (Request.isSet cb)).map Request.callback
  replies : readFrames replyOf frames
    = (Serial.outcomes (Request.isSet cb) qs (requestResults cs rs)).map fun p => p.1.reply p.2
  serving : Serving cb qs cs rs pending

theorem zip_append_extra {α β : Type} {as : List α} {bs : List β} (h : bs.length = as.length)
    (as' : List α) : (as ++ as').zip bs = as.zip bs := by
  have happend : (as ++ as').zip (bs ++ []) = as.zip bs ++ as'.zip [] := List.zip_append h.symm
  rw [List.append_nil, List.zip_nil_right, List.append_nil] at happend
  exact happend

/-- A callback that has not returned has no result. -/
theorem requestResults_invoked {cs : List Callback} {rs : List CallbackResult}
    (h : rs.length = cs.length) (c : Callback) :
    requestResults (cs ++ [c]) rs = requestResults cs rs := by
  rw [requestResults, zip_append_extra h, requestResults]

theorem requestResults_returned {cs : List Callback} {rs : List CallbackResult}
    (h : rs.length = cs.length) (c : Callback) (r : CallbackResult) :
    requestResults (cs ++ [c]) (rs ++ [r])
      = requestResults cs rs ++ if c.isVerdict then [] else [r] := by
  rw [requestResults, List.zip_append h.symm, List.filter_append, List.map_append, requestResults]
  cases hc : c.isVerdict <;> simp [hc]

namespace Serves

variable {cb : CallbackTable} {qs : List Request} {cs : List Callback}
  {frames : List (List Byte)} {rs : List CallbackResult}
  {pending : List (CallbackResult → Parse U32)}

theorem start (cb : CallbackTable) : Serves cb [] [] [] [] [] :=
  ⟨rfl, rfl, .idle rfl (.idle rfl)⟩

/-- The device sends what is no reply. -/
theorem send (h : Serves cb qs cs frames rs pending) {frames' : List (List Byte)}
    (hframes : readFrames replyOf frames' = []) :
    Serves cb qs cs (frames ++ frames') rs pending := by
  refine ⟨h.invoked, ?_, h.serving⟩
  rw [readFrames_append, hframes, List.append_nil]
  exact h.replies

/-- The callback of a request that is set. -/
theorem invoke (h : Serves cb qs cs frames rs []) {q : Request} (hset : q.isSet cb = true)
    (hq : q.callback.isVerdict = false) :
    Serves cb (qs ++ [q]) (cs ++ [q.callback]) frames rs [fun r => .answer (q.reply (some r))] := by
  obtain ⟨hinvoked, hreplies, hserving⟩ := h
  cases hserving with
  | idle hlen hprogress =>
      obtain ⟨htake, houtcomes⟩ := hprogress.take q
      rw [if_pos hset] at htake houtcomes
      rw [List.append_nil] at houtcomes
      refine ⟨?_, ?_, .request q cs rfl hq hlen ?_⟩
      · rw [List.filter_append, List.filter_append, List.map_append, hinvoked,
          List.filter_cons_of_pos (by simp [hq]), List.filter_cons_of_pos hset]
        rfl
      · rw [requestResults_invoked hlen, houtcomes]
        exact hreplies
      · rw [requestResults_invoked hlen]
        exact htake

/-- A request whose callback is `NULL` is answered at once. -/
theorem refuse (h : Serves cb qs cs frames rs []) {q : Request} (hset : ¬ q.isSet cb = true) :
    Serves cb (qs ++ [q]) cs (frames ++ [q.reply none]) rs [] := by
  obtain ⟨hinvoked, hreplies, hserving⟩ := h
  cases hserving with
  | idle hlen hprogress =>
      obtain ⟨htake, houtcomes⟩ := hprogress.take q
      rw [if_neg hset] at htake houtcomes
      refine ⟨?_, ?_, .idle hlen htake⟩
      · rw [List.filter_append, List.filter_cons_of_neg hset, List.filter_nil, List.append_nil]
        exact hinvoked
      · rw [readFrames_append, readFrames_singleton, hreplies,
          (q.reply_responseFrame none).carries_reply.2, houtcomes, List.map_append]
        rfl

/-- A callback for an answer. -/
theorem hear (h : Serves cb qs cs frames rs []) {c : Callback} (hc : c.isVerdict = true) :
    Serves cb qs (cs ++ [c]) frames rs [fun r => .done r.ret] := by
  obtain ⟨hinvoked, hreplies, hserving⟩ := h
  cases hserving with
  | idle hlen hprogress =>
      refine ⟨?_, ?_, .verdict c cs rfl hc hlen ?_⟩
      · rw [List.filter_append, List.filter_cons_of_neg (by simp [hc]), List.filter_nil,
          List.append_nil]
        exact hinvoked
      · rw [requestResults_invoked hlen]
        exact hreplies
      · rw [requestResults_invoked hlen]
        exact hprogress

/-- The running callback returns `r`. -/
theorem resume {k : CallbackResult → Parse U32} {rest : List (CallbackResult → Parse U32)}
    (h : Serves cb qs cs frames rs (k :: rest)) (r : CallbackResult) (sendRet : U32) :
    rest = [] ∧ (outcome sendRet (k r)).2 = none ∧
      parsedMsgs (outcome sendRet (k r)).1 = [] ∧
      invokedCallbacks (outcome sendRet (k r)).1 = [] ∧
      Serves cb qs cs (frames ++ sentFrames (outcome sendRet (k r)).1) (rs ++ [r]) [] := by
  obtain ⟨hinvoked, hreplies, hserving⟩ := h
  cases hserving with
  -- the reply to the latest request
  | request q before hcs hq hlen hprogress =>
      subst hcs
      refine ⟨rfl, rfl, rfl, rfl, ?_⟩
      have hresults : requestResults (before ++ [q.callback]) (rs ++ [r])
          = requestResults (before ++ [q.callback]) rs ++ [r] := by
        rw [requestResults_returned hlen, requestResults_invoked hlen, hq]
        rfl
      obtain ⟨hfinish, houtcomes⟩ := hprogress.finish r
      refine ⟨hinvoked, ?_, .idle (by simp [hlen]) ?_⟩
      · rw [hresults, houtcomes, List.map_append, ← hreplies, readFrames_append]
        congr 1
        have hframes : sentFrames (outcome sendRet (Parse.answer (q.reply (some r)))).1
            = [q.reply (some r)] := rfl
        rw [hframes, readFrames_singleton, (q.reply_responseFrame (some r)).carries_reply.2]
        rfl
      · rw [hresults]
        exact hfinish
  -- nothing is sent after a callback for an answer
  | verdict c before hcs hc hlen hprogress =>
      subst hcs
      refine ⟨rfl, rfl, rfl, rfl, ?_⟩
      have hresults : requestResults (before ++ [c]) (rs ++ [r])
          = requestResults (before ++ [c]) rs := by
        rw [requestResults_returned hlen, requestResults_invoked hlen, hc]
        exact List.append_nil _
      refine ⟨hinvoked, ?_, .idle (by simp [hlen]) ?_⟩
      · rw [hresults]
        exact (congrArg _ (List.append_nil _)).trans hreplies
      · rw [hresults]
        exact hprogress

end Serves

/-! ## Messages -/

section

variable {cb : CallbackTable} {msg : IcapMsg} {q : Request}

theorem acceptedHandler_request (h : requestOf msg = some q) :
    acceptedHandler cb .device msg = handle cb msg (some q.handler) := by
  rw [acceptedHandler, if_neg (not_isResponse (requestOf_type h)),
    (deviceHandler_of_requestOf h).1]

theorem outcome_request_set (h : requestOf msg = some q) (hset : q.isSet cb = true)
    (sendRet : U32) :
    outcome sendRet (acceptedHandler cb .device msg)
      = ([.invoked q.callback], some fun r => .answer (q.reply (some r))) := by
  have hreply : (fun r => Parse.answer (q.handler.reply msg r))
      = fun r => Parse.answer (q.reply (some r)) := by
    funext r
    rw [handler_reply_eq h]
  have hset' : cb q.handler.callback.id = true := hset
  rw [acceptedHandler_request h, handle, if_pos hset', hreply]
  rfl

theorem outcome_request_null (h : requestOf msg = some q) (hset : ¬ q.isSet cb = true)
    (sendRet : U32) :
    outcome sendRet (acceptedHandler cb .device msg) = ([.sent (q.reply none)], none) := by
  have hset' : ¬ cb q.handler.callback.id = true := hset
  rw [acceptedHandler_request h, handle, if_neg hset', handler_defaultReply_eq h]
  rfl

/-- A device invokes the callback of an answer, or does nothing. -/
theorem outcome_verdict (cb : CallbackTable) (h : IsResponse msg) (sendRet : U32) :
    outcome sendRet (acceptedHandler cb .device msg) = ([], none) ∨
      ∃ c, c.isVerdict = true ∧ outcome sendRet (acceptedHandler cb .device msg)
        = ([.invoked c], some fun r => .done r.ret) := by
  simp only [acceptedHandler, if_pos h, icapDeviceParseResponse_eq cb h]
  cases hv : verdictOf msg with
  | none => exact Or.inl rfl
  | some c =>
      cases hset : cb c.id with
      | false => exact Or.inl (by simp only [hset]; rfl)
      | true => exact Or.inr ⟨c, verdictOf_isVerdict hv, by simp only [hset]; rfl⟩

end

/-! ## Steps -/

/-- The requests a device has read, the callbacks it has invoked and the frames it has sent. -/
def ServesRequests (cb : CallbackTable) (s : State) (es : List HandlerEvent)
    (rs : List CallbackResult) : Prop :=
  Serves cb (read requestOf (parsedMsgs es)) (invokedCallbacks es) (sentFrames es) rs
    (pendingHandlers s.stack)

section

variable {cb : CallbackTable} {s s' : State} {es : List HandlerEvent} {rs : List CallbackResult}

/-- The device parses a message of the application. -/
theorem ServesRequests.parse (h : ServesRequests cb s es rs)
    (hidle : pendingHandlers s.stack = []) {frame : List Byte} (hasks : Asks frame)
    {m : IcapRemoteMsg} (hm : Holds m.data.mem frame) {sendRet : U32}
    (hpending : pendingHandlers s'.stack
      = (outcome sendRet (acceptedHandler cb .device m.data.mem)).2.toList) :
    ServesRequests cb s'
      (es ++ .parsed m :: (outcome sendRet (acceptedHandler cb .device m.data.mem)).1) rs := by
  rw [ServesRequests, hidle] at h
  rw [ServesRequests, hpending, parsedMsgs_append, read_append, invokedCallbacks_append,
    sentFrames_append]
  rcases hasks.read hm with hr | ⟨q, hq⟩
  · -- an answer to a notification is no request
    have hnone := requestOf_response hr
    have hread : read requestOf [m] = [] := by
      rw [read_singleton, hnone]
      rfl
    rcases outcome_verdict cb hr sendRet with hout | ⟨c, hc, hout⟩
    · rw [hout]
      change Serves cb (_ ++ read requestOf [m]) (_ ++ []) (_ ++ []) rs []
      rw [hread, List.append_nil, List.append_nil, List.append_nil]
      exact h
    · rw [hout]
      change Serves cb (_ ++ read requestOf [m]) (_ ++ [c]) (_ ++ []) rs [fun r => .done r.ret]
      rw [hread, List.append_nil, List.append_nil]
      exact h.hear hc
  · have hread : read requestOf [m] = [q] := by
      rw [read_singleton, hq]
      rfl
    by_cases hset : q.isSet cb = true
    · rw [outcome_request_set hq hset]
      change Serves cb (_ ++ read requestOf [m]) (_ ++ [q.callback]) (_ ++ []) rs
        [fun r => .answer (q.reply (some r))]
      rw [hread, List.append_nil]
      exact h.invoke hset (Request.callback_of_requestOf hq)
    · rw [outcome_request_null hq hset]
      change Serves cb (_ ++ read requestOf [m]) (_ ++ []) (_ ++ [q.reply none]) rs []
      rw [hread, List.append_nil]
      exact h.refuse hset

/-- The device serves the requests it parses, step by step. -/
theorem ServesRequests.of_step {Q : Nat} {i : Input} {ev : List Event} {peer : U32}
    (h : ServesRequests cb s es rs) (hlinked : Linked cb .device peer s.icap)
    (hcall : ∀ c now sendRet uninit, i = .call c now sendRet uninit → c.sync = false)
    (hidle : entersLoop i = true → loopTails s.stack = [])
    (hmsg : entersLoop i = true → s.fifo.tail ≠ s.fifo.head → ∃ frame, Asks frame ∧
      FromPeer peer frame (s.fifo.slot (indexNext Q s.fifo.tail)))
    (hstep : Handling Q s i s' ev) :
    ServesRequests cb s' (es ++ handlerEvents ev) (rs ++ i.callbackResult.toList) := by
  cases hstep with
  | quiet _ hresult hev hpending _ =>
      have hnone : i.callbackResult = none := by
        cases i <;> first | rfl | cases hresult
      rw [ServesRequests, hev, hnone, hpending, Option.toList_none, List.append_nil,
        List.append_nil]
      exact h
  -- a notification is no reply
  | call c now sendRet uninit frame hi hreq hev hpending _ =>
      obtain ⟨note, -, rfl⟩ := request_note (hcall c now sendRet uninit hi) hreq
      subst hi
      rw [ServesRequests, hev, hpending, parsedMsgs_append, invokedCallbacks_append,
        sentFrames_append]
      change Serves cb (read requestOf (_ ++ [])) (_ ++ []) (_ ++ [_]) (_ ++ []) _
      rw [List.append_nil, List.append_nil, List.append_nil]
      refine Serves.send h ?_
      rw [readFrames_singleton, (carries_reply_note note _).2]
      rfl
  | parse sendRet msg icap p henter hne hslot hp hev hpending _ =>
      obtain ⟨frame, hasks, hfrom⟩ := hmsg henter hne
      rw [← hslot] at hfrom
      obtain ⟨icap', hp', -⟩ := icapParseMsg_fromPeer hlinked hasks.carries hfrom
      rw [hp'] at hp
      obtain ⟨rfl, rfl⟩ := Prod.mk.inj hp
      have hnone : i.callbackResult = none := by
        cases i <;> first | rfl | cases henter
      have hnil := pendingHandlers_eq_nil (hidle henter)
      rw [hnil, List.append_nil] at hpending
      rw [hev, hnone, Option.toList_none, List.append_nil]
      exact h.parse hnil hasks hfrom.holds hpending
  | resume r sendRet k rest hi hk hev hpending _ =>
      subst hi
      rw [ServesRequests, hk] at h
      obtain ⟨rfl, hdone, hmsgs, hinvoked, hserves⟩ := Serves.resume h r sendRet
      rw [hdone] at hpending
      rw [ServesRequests, hev, hpending, parsedMsgs_append, invokedCallbacks_append,
        sentFrames_append, hmsgs, hinvoked, List.append_nil, List.append_nil]
      exact hserves

end

end Icap.BareMetal
