import Icap.BareMetal.Link
import Icap.BareMetal.Returns

set_option autoImplicit false

/-! # Remote calls of an application linked to a device

The other direction of a link (`BareMetal/Link.lean`): the requests of the application and the
replies of the device. In every run the device reads the requests of the calls, each once and in
order, and replies with what its callbacks return (`requests_once`); and a call of the application
that does not time out returns what the callback returned for that very call (`calls_return`), also
after calls that timed out and whose replies come late.
-/

namespace Icap.BareMetal

open ByteMemory RingBuffer Transition

/-! ## What happened -/

/-- The requests the application has made. -/
def asked (tr : Trace LinkInput LinkEvent) : List (U32 → Request) :=
  (inputsAt .application tr).filterMap Input.asked

/-- They take the seq_nums from 1 on. -/
def requested (tr : Trace LinkInput LinkEvent) : List Request := numbered (asked tr)

/-- The requests the device has read. -/
def served (tr : Trace LinkInput LinkEvent) : List Request :=
  read requestOf (parsedMsgs (handlerEvents (eventsAt .device tr)))

/-- What the callbacks of the device have returned. -/
def deviceResults (tr : Trace LinkInput LinkEvent) : List CallbackResult :=
  (inputsAt .device tr).filterMap Input.callbackResult

/-- The callbacks invoked by the device. -/
def deviceCallbacks (tr : Trace LinkInput LinkEvent) : List Callback :=
  invokedCallbacks (handlerEvents (eventsAt .device tr))

/-- The requests the device is done with, each with the result of its callback if it is set. -/
def outcomes (cb : CallbackTable) (tr : Trace LinkInput LinkEvent) :
    List (Request × Option CallbackResult) :=
  Serial.outcomes (Request.isSet cb) (served tr) (requestResults (deviceCallbacks tr)
    (deviceResults tr))

/-- The functions that have returned to the application, each with what it returned. -/
def returns (tr : Trace LinkInput LinkEvent) : List (ApiCall × CallResult) :=
  returnedResults (eventsAt .application tr)

/-! ## The two logs -/

/-- What the application has asked and what the device has served. -/
structure Serviced (cb : Side → CallbackTable) (tr : Trace LinkInput LinkEvent) (l : Link) :
    Prop where
  asks : AsksRequests (l.side .application) (handlerEvents (eventsAt .application tr)) (asked tr)
  serves : ServesRequests (cb .device) (l.side .device) (handlerEvents (eventsAt .device tr))
    (deviceResults tr)

section

variable {Q : Nat} {address : Side → U32} {cb : Side → CallbackTable}
  {tr : Trace LinkInput LinkEvent} {l l' : Link} {x : Side} {i : Input} {s : State}
  {ev : List Event}

/-- The application calls application functions. -/
theorem Orderly.call_sync (hok : Orderly tr l (.run .application i)) :
    ∀ c now sendRet uninit, i = .call c now sendRet uninit → c.sync = true := by
  rintro c now sendRet uninit rfl
  exact hok.1

/-- The side that moves keeps its log, and the other log stays. -/
theorem Serviced.of_side (h : Serviced cb tr l) (hc : Connected Q address cb tr l) (hQ : Q < 2 ^ 16)
    {tr' : Trace LinkInput LinkEvent} (hmay : MayStep x (l.side x) i)
    (hsync : x = .application → ∀ c now sendRet uninit, i = .call c now sendRet uninit →
      c.sync = true)
    (hstep : step Q (l.side x) i = some (s, ev)) (hside : l'.side = Function.update l.side x s)
    (hevents : eventsAt x tr' = eventsAt x tr ++ ev)
    (hother : eventsAt x.other tr' = eventsAt x.other tr)
    (hasked : asked tr' = asked tr ++ if x = .application then i.asked.toList else [])
    (hresults : deviceResults tr'
      = deviceResults tr ++ if x = .device then i.callbackResult.toList else []) :
    Serviced cb tr' l' := by
  obtain ⟨hasks, hserves⟩ := h
  have hnext (henter : entersLoop i = true)
      (hne : (l.side x).fifo.tail ≠ (l.side x).fifo.head) :=
    (hc.delivered x).next (hc.sound x) hQ (hmay.loop henter) hne
  have hself : l'.side x = s := by rw [hside, Function.update_self]
  have hsame : l'.side x.other = l.side x.other := by
    rw [hside, Function.update_of_ne x.other_ne]
  cases x with
  | application =>
      have hlog := hasks.of_step (hc.linked .application) hmay.lifecycle (hsync rfl)
        (fun henter hne => by
          obtain ⟨frame, hframe, hfrom⟩ := hnext henter hne
          exact ⟨frame, hc.hears.carries frame hframe, hfrom⟩) hstep
      have hresults' : deviceResults tr' = deviceResults tr := hresults.trans (List.append_nil _)
      refine ⟨?_, ?_⟩
      · rw [hself, hevents, handlerEvents_append, hasked]
        exact hlog
      · rw [show l'.side .device = _ from hsame, show eventsAt .device tr' = _ from hother,
          hresults']
        exact hserves
  | device =>
      have hlog := hserves.of_step (hc.linked .device) (hmay.device rfl) hmay.loop
        (fun henter hne => by
          obtain ⟨frame, hframe, hfrom⟩ := hnext henter hne
          exact ⟨frame, hasks.frames frame hframe, hfrom⟩) (step_handling hmay.lifecycle hstep)
      have hasked' : asked tr' = asked tr := hasked.trans (List.append_nil _)
      refine ⟨?_, ?_⟩
      · rw [show l'.side .application = _ from hsame,
          show eventsAt .application tr' = _ from hother, hasked']
        exact hasks
      · rw [hself, hevents, handlerEvents_append, hresults]
        exact hlog

theorem asked_snoc_run (x : Side) (i : Input) (ev : List LinkEvent) :
    asked (tr ++ [(.run x i, ev)])
      = asked tr ++ if x = .application then i.asked.toList else [] := by
  rw [asked, inputsAt_snoc_run, List.filterMap_append, filterMap_ite_singleton, asked]

theorem deviceResults_snoc_run (x : Side) (i : Input) (ev : List LinkEvent) :
    deviceResults (tr ++ [(.run x i, ev)])
      = deviceResults tr ++ if x = .device then i.callbackResult.toList else [] := by
  rw [deviceResults, inputsAt_snoc_run, List.filterMap_append, filterMap_ite_singleton,
    deviceResults]

theorem asked_snoc_deliver (x : Side) (addr : Nat) (rest : Mem) (ev : List LinkEvent) :
    asked (tr ++ [(.deliver x addr rest, ev)]) = asked tr := by
  rw [asked, inputsAt_snoc_deliver, asked]

theorem deviceResults_snoc_deliver (x : Side) (addr : Nat) (rest : Mem) (ev : List LinkEvent) :
    deviceResults (tr ++ [(.deliver x addr rest, ev)]) = deviceResults tr := by
  rw [deviceResults, inputsAt_snoc_deliver, deviceResults]

theorem Serviced.of_step {a : LinkInput} {ev' : List LinkEvent} (h : Serviced cb tr l)
    (hc : Connected Q address cb tr l) (hQ : Q < 2 ^ 16) (hok : Orderly tr l a)
    (hstep : linkStep Q address l a = some (l', ev')) : Serviced cb (tr ++ [(a, ev')]) l' := by
  cases linkStep_cases hstep with
  | run x i s ev ha hrun hev hside _ =>
      subst ha hev
      obtain ⟨hmay, -⟩ := hok.mayStep (hc.outside x) hrun
      refine h.of_side hc hQ hmay ?_ hrun hside (eventsAt_snoc_self ev)
        (eventsAt_snoc_other x.other_ne.symm ev) (asked_snoc_run x i _)
        (deviceResults_snoc_run x i _)
      rintro rfl
      exact hok.call_sync
  -- a delivery asks nothing and returns from nothing
  | deliver x m frame frames s ha hm hframes hrun hev hside _ =>
      obtain ⟨addr, rest, rfl⟩ := ha
      subst hev
      refine h.of_side hc hQ (mayStep_putMsg x (l.side x) m) (fun _ => nofun) hrun hside
        (eventsAt_snoc_self [Event.put m .hold])
        (eventsAt_snoc_other x.other_ne.symm [Event.put m .hold]) ?_ ?_
      · rw [asked_snoc_deliver]
        cases x <;> exact (List.append_nil _).symm
      · rw [deviceResults_snoc_deliver]
        cases x <;> exact (List.append_nil _).symm

theorem linkStart_serviced (rpmsg : Side → Nat × Nat) (name priv : Side → Nat) :
    Serviced cb [] (linkStart rpmsg name priv cb) where
  asks := ⟨rfl, rfl, nofun, nofun⟩
  serves := Serves.start (cb .device)

theorem run_serviced (hQ0 : 0 < Q) (hQ : Q < 2 ^ 16) {rpmsg : Side → Nat × Nat}
    {name priv : Side → Nat}
    (hrun : (linkMachine Q address).Run Orderly (linkStart rpmsg name priv cb) tr l) :
    Serviced cb tr l := by
  refine hrun.invariant (linkStart_serviced rpmsg name priv) ?_
  intro tr l l' a ev hr hi hok hstep
  exact hi.of_step (run_connected hQ0 hQ hr) hQ hok hstep

/-! ## What each side reads -/

/-- The requests of the application are those the device has read and those on their way. -/
theorem requested_eq (hc : Connected Q address cb tr l) (h : Serviced cb tr l) :
    requested tr = served tr ++ inFlight requestOf Q .device l := by
  have hread := (hc.delivered .device).read_eq
    fun frame hframe => (h.asks.frames frame hframe).carries
  exact h.asks.sent.symm.trans hread

/-- The replies of the device are those the application has read and those on their way. -/
theorem replies_eq (hc : Connected Q address cb tr l) (h : Serviced cb tr l) :
    (outcomes (cb .device) tr).map (fun p => p.1.reply p.2)
      = read replyOf (parsedMsgs (handlerEvents (eventsAt .application tr)))
        ++ inFlight replyOf Q .application l := by
  have hcarries : ∀ frame ∈ sentFrames (handlerEvents (eventsAt .device tr)),
      Carries replyOf frame := by
    intro frame hframe
    obtain ⟨cmd, type, seqNum, payload, rfl, hlen, htype⟩ := (hc.hears.carries frame hframe).built
    exact (carries_reply_of_built hlen htype).1
  exact h.serves.replies.symm.trans ((hc.delivered .application).read_eq hcarries)

/-- A response frame of the device is the reply to a request that the application has made. -/
theorem Serviced.response (hc : Connected Q address cb tr l) (h : Serviced cb tr l)
    {frame : List Byte} (hframe : frame ∈ sentFrames (handlerEvents (eventsAt .device tr)))
    {msg : IcapMsg} (hmsg : Holds msg frame) (hresponse : IsResponse msg) :
    ∃ p ∈ outcomes (cb .device) tr, frame = p.1.reply p.2 ∧ p.1 ∈ requested tr := by
  obtain ⟨cmd, type, seqNum, payload, rfl, hlen, htype⟩ := (hc.hears.carries frame hframe).built
  have hne : type ≠ ICAP_MSG := by
    rintro rfl
    exact not_isResponse (frameAt_of_holds hmsg).type hresponse
  have hread : replyOf (ofList (icapMsgFrame cmd type seqNum payload))
      = some (icapMsgFrame cmd type seqNum payload) :=
    (carries_reply_of_built hlen htype).2.trans (if_neg hne)
  have hmem : icapMsgFrame cmd type seqNum payload
      ∈ (outcomes (cb .device) tr).map fun p => p.1.reply p.2 := by
    rw [show (outcomes (cb .device) tr).map (fun p => p.1.reply p.2) = _
      from h.serves.replies.symm]
    exact List.mem_filterMap.mpr ⟨_, hframe, hread⟩
  obtain ⟨p, hp, heq⟩ := List.mem_map.mp hmem
  refine ⟨p, hp, heq.symm, ?_⟩
  rw [requested_eq hc h]
  exact List.mem_append_left _ (Serial.mem_of_outcome hp)

end

/-- **Requests are served once, in order, with the caller's arguments.** In every run of a device
and an application that are linked: the requests of the calls of the application are those the
device has read and those on their way; the callbacks the device has invoked for requests are those
of the requests read, where they are set; and the replies to the requests, with the results of
these callbacks in order, are those the application has read and those on their way back. -/
theorem requests_once {Q : Nat} (hQ0 : 0 < Q) (hQ : Q < 2 ^ 16) {address : Side → U32}
    {rpmsg : Side → Nat × Nat} {name priv : Side → Nat} {cb : Side → CallbackTable}
    {tr : Trace LinkInput LinkEvent} {l : Link}
    (hrun : (linkMachine Q address).Run Orderly (linkStart rpmsg name priv cb) tr l) :
    requested tr = served tr ++ inFlight requestOf Q .device l ∧
      (deviceCallbacks tr).filter (fun c => !c.isVerdict)
        = ((served tr).filter (Request.isSet (cb .device))).map Request.callback ∧
      (outcomes (cb .device) tr).map (fun p => p.1.reply p.2)
        = read replyOf (parsedMsgs (handlerEvents (eventsAt .application tr)))
          ++ inFlight replyOf Q .application l := by
  have hc := run_connected hQ0 hQ hrun
  have h := run_serviced hQ0 hQ hrun
  exact ⟨requested_eq hc h, h.serves.invoked, replies_eq hc h⟩

/-- `icap_pause` times out; its reply comes while `icap_resume` waits. -/
def lateRun : Trace LinkInput LinkEvent × Link :=
  (linkMachine 10 fun | .device => 30 | .application => 40).exec []
    (linkStart (fun _ => (0, 0)) (fun _ => 0) (fun _ => 0) fun
      | .device => fun c => c = .pause ∨ c = .resume
      | .application => fun _ => false)
    [.run .application (.call (.pause 1) 0 0 fun _ => 0), .run .application (.pass 0),
      .run .application (.clock 600000),
      .run .application (.call (.resume 2) 600000 0 fun _ => 0),
      .deliver .device 4096 (fun _ => 0), .deliver .device 4608 (fun _ => 0),
      .run .device (.loop 0), .run .device (.callbackRet ⟨0, Vector.replicate 28 0⟩ 0),
      .run .device (.loop 0),
      .run .device (.callbackRet ⟨-ICAP_ERROR_INVALID, Vector.replicate 28 0⟩ 0),
      .deliver .application 8192 (fun _ => 0), .deliver .application 8704 (fun _ => 0),
      .run .application (.pass 0), .run .application (.clock 600001),
      .run .application (.pass 0)]

theorem lateRun_run :
    (linkMachine 10 fun | .device => 30 | .application => 40).Run Orderly
      (linkStart (fun _ => (0, 0)) (fun _ => 0) (fun _ => 0) fun
        | .device => fun c => c = .pause ∨ c = .resume
        | .application => fun _ => false) lateRun.1 lateRun.2 :=
  Machine.Run.start.exec _
    ⟨⟨rfl, rfl⟩, rfl, rfl, ⟨rfl, rfl⟩, trivial, trivial, rfl, rfl, rfl, rfl, trivial, trivial, rfl,
      rfl, rfl, trivial⟩

theorem requests_once_late :
    deviceCallbacks lateRun.1 = [.pause 1, .resume 2] ∧
      requested lateRun.1 = served lateRun.1 ++ inFlight requestOf 10 .device lateRun.2 := by
  obtain ⟨hrequested, -⟩ := requests_once (by omega) (by omega) lateRun_run
  exact ⟨by decide +kernel, hrequested⟩

/-! ## The session of the application -/

theorem inputsAt_append (x : Side) (tr tr' : Trace LinkInput LinkEvent) :
    inputsAt x (tr ++ tr') = inputsAt x tr ++ inputsAt x tr' := by
  simp [inputsAt]

theorem eventsAt_append (x : Side) (tr tr' : Trace LinkInput LinkEvent) :
    eventsAt x (tr ++ tr') = eventsAt x tr ++ eventsAt x tr' := by
  simp [eventsAt]

theorem asked_append (tr tr' : Trace LinkInput LinkEvent) :
    asked (tr ++ tr') = asked tr ++ asked tr' := by
  rw [asked, inputsAt_append, List.filterMap_append, asked, asked]

/-- A request of the application has the seq_num of its place. -/
theorem seqNum_of_asked {tr : Trace LinkInput LinkEvent} {q : U32 → Request} (h : q ∈ asked tr)
    (n : U32) : (q n).seqNum = n := by
  obtain ⟨i, -, hi⟩ := List.mem_filterMap.mp h
  cases i with
  | call c now sendRet uninit => exact ApiCall.ask_seqNum hi n
  | _ => cases hi

theorem seqNum_of_requested {tr : Trace LinkInput LinkEvent} {p : Request}
    (h : p ∈ requested tr) :
    ∃ (k : Nat) (q : U32 → Request), (asked tr)[k]? = some q ∧ p = q (BitVec.ofNat 32 (k + 1)) ∧
      p.seqNum = BitVec.ofNat 32 (k + 1) := by
  obtain ⟨k, q, hk, rfl⟩ := mem_numbered h
  exact ⟨k, q, hk, rfl, seqNum_of_asked (List.mem_of_getElem? hk) _⟩

section

variable {Q : Nat} {address : Side → U32} {cb : Side → CallbackTable}
  {tr : Trace LinkInput LinkEvent} {l l' : Link} {x : Side} {i : Input} {s : State}
  {ev : List Event}

/-- The messages the application parses hold frames of the device. -/
theorem Connected.parsed (hc : Connected Q address cb tr l) {m : IcapRemoteMsg}
    (hm : m ∈ parsedMsgs (handlerEvents (eventsAt .application tr))) :
    ∃ frame ∈ sentFrames (handlerEvents (eventsAt .device tr)), Holds m.data.mem frame := by
  obtain ⟨arrived, harrived, hmsgs⟩ := hc.delivered .application
  obtain ⟨frame, hframe, hfrom⟩ := exists_of_forall₂ hmsgs (List.mem_append_left _ hm)
  refine ⟨frame, ?_, hfrom.holds⟩
  rw [show sentFrames (handlerEvents (eventsAt .device tr)) = _ from harrived]
  exact List.mem_append_left _ hframe

/-- The counter of the application is the number of requests. -/
theorem AsksRequests.counter_toNat {es : List HandlerEvent} {qs : List (U32 → Request)}
    (h : AsksRequests s es qs) (hbound : qs.length < 2 ^ 32) : s.icap.seqNum.toNat = qs.length := by
  rw [h.counter, BitVec.toNat_ofNat]
  exact Nat.mod_eq_of_lt hbound

/-- A call is part of a session while the counter does not wrap. -/
theorem inSession_run {tr' : Trace Input Event} (hs : Serviced cb tr l)
    (hm : Matched tr' (l.side .application)) (hok : Orderly tr l (.run .application i))
    (hbound : (asked tr ++ i.asked.toList).length < 2 ^ 32) :
    InSession tr' (l.side .application) i := by
  rw [List.length_append] at hbound
  cases i with
  | putMsg m => exact hok.elim
  | applicationInit _ _ _ | deviceInit _ _ _ => cases hok
  | call c now sendRet uninit =>
      intro hsome
      obtain ⟨frame, hframe⟩ := Option.isSome_iff_exists.mp hsome
      obtain ⟨q, hq⟩ := ApiCall.ask_of_request hok.1 hframe
      have hlen : (Input.call c now sendRet uninit).asked.toList.length = 1 := by
        rw [show (Input.call c now sendRet uninit).asked = some q from hq]
        rfl
      rw [hm.counter_length, hs.asks.counter_toNat (by omega)]
      omega
  | applicationDeinit | deviceDeinit | loop _ | pass _ | clock _ | callbackRet _ _ => trivial

/-- A frame of the device that arrives is part of a session. -/
theorem inSession_deliver {tr' : Trace Input Event} (hc : Connected Q address cb tr l)
    (hs : Serviced cb tr l) (hm : Matched tr' (l.side .application)) {m : IcapRemoteMsg}
    {frame : List Byte} {frames : List (List Byte)}
    (hfrom : FromPeer (address .device) frame m)
    (hframes : l.channel .application = frame :: frames)
    (hbound : (asked tr).length < 2 ^ 32) :
    InSession tr' (l.side .application) (.putMsg m) := by
  intro hresponse
  have hsent : frame ∈ sentFrames (handlerEvents (eventsAt .device tr)) := by
    obtain ⟨arrived, harrived, -⟩ := hc.delivered .application
    rw [show sentFrames (handlerEvents (eventsAt .device tr)) = _ from harrived, hframes]
    exact List.mem_append_right _ List.mem_cons_self
  obtain ⟨p, -, hreply, hp⟩ := hs.response hc hsent hfrom.holds hresponse
  obtain ⟨k, q, hk, -, hseq⟩ := seqNum_of_requested hp
  have hholds := hfrom.holds
  rw [hreply] at hholds
  refine ⟨?_, ?_⟩
  · rw [hfrom.size, hreply]
    exact (p.1.reply_responseFrame p.2).wellFormed hholds
  · rw [Request.reply_seqNum hholds, hseq, hm.counter, hs.asks.counter_toNat hbound]
    have hlt : k < (asked tr).length := (List.getElem?_eq_some_iff.mp hk).1
    exact List.mem_map.mpr ⟨k, List.mem_range.mpr hlt, rfl⟩

/-- The application of a link runs a session. -/
theorem session_run (hQ0 : 0 < Q) (hQ : Q < 2 ^ 16) {rpmsg : Side → Nat × Nat}
    {name priv : Side → Nat}
    (hrun : (linkMachine Q address).Run Orderly (linkStart rpmsg name priv cb) tr l)
    (hbound : (asked tr).length < 2 ^ 32) :
    ∃ tr', (machine Q).Run InSession (sessionStart (rpmsg .application).1 (rpmsg .application).2
        (name .application) (priv .application) (cb .application)) tr' (l.side .application) ∧
      tr'.events = eventsAt .application tr := by
  refine @Machine.Run.project _ _ _ _ _ _ _ _ _ _ _ (machine Q) InSession
    (fun l => l.side .application) (fun tr tr' => tr'.events = eventsAt .application tr) hrun rfl ?_
  intro tr₁ l₁ l₂ a ev tr' hprefix hr hr' hR hok hstep
  have hc := run_connected hQ0 hQ hr
  have hs := run_serviced hQ0 hQ hr
  have hm := run_matched hr'
  have hlen : (asked (tr₁ ++ [(a, ev)])).length < 2 ^ 32 := by
    obtain ⟨tr₂, rfl⟩ := hprefix
    rw [asked_append, List.length_append] at hbound
    omega
  cases linkStep_cases hstep with
  | run x i s ev' ha hmove hev hside _ =>
      subst ha hev
      cases x with
      | device =>
          refine Or.inl ⟨?_, ?_⟩
          · rw [hside, Function.update_of_ne (by decide)]
          · rw [eventsAt_snoc_other (by decide)]
            exact hR
      | application =>
          rw [asked_snoc_run, if_pos rfl] at hlen
          refine Or.inr ⟨i, ev', inSession_run hs hm hok hlen, ?_, ?_⟩
          · rw [hside, Function.update_self]
            exact hmove
          · rw [Trace.events_append, Trace.events_singleton, eventsAt_snoc_self, hR]
  | deliver x m frame frames s ha hfrom hframes hmove hev hside _ =>
      obtain ⟨addr, rest, rfl⟩ := ha
      subst hev
      cases x with
      | device =>
          refine Or.inl ⟨?_, ?_⟩
          · rw [hside, Function.update_of_ne (by decide)]
          · have hother := @eventsAt_snoc_other tr₁ (.deliver .device addr rest)
              .application .device (by decide) [Event.put m .hold]
            exact hR.trans hother.symm
      | application =>
          rw [asked_snoc_deliver] at hlen
          refine Or.inr ⟨.putMsg m, [.put m .hold], inSession_deliver hc hs hm hfrom hframes hlen,
            ?_, ?_⟩
          · rw [hside, Function.update_self]
            exact hmove
          · have hself : eventsAt .application
                (tr₁ ++ [(.deliver .application addr rest, [(.application, Event.put m .hold)])])
                = eventsAt .application tr₁ ++ [.put m .hold] :=
              eventsAt_snoc_self [Event.put m .hold]
            rw [Trace.events_append, Trace.events_singleton, hR]
            exact hself.symm

/-! ## Calls return in turn -/

theorem served_append (tr tr' : Trace LinkInput LinkEvent) :
    ∃ qs, served (tr ++ tr') = served tr ++ qs := by
  refine ⟨read requestOf (parsedMsgs (handlerEvents (eventsAt .device tr'))), ?_⟩
  rw [served, eventsAt_append, handlerEvents_append, parsedMsgs_append, read_append, served]

theorem prefix_zip {α β : Type} (as as' : List α) (bs bs' : List β) :
    as.zip bs <+: (as ++ as').zip (bs ++ bs') := by
  induction as generalizing bs with
  | nil => exact List.nil_prefix
  | cons a as ih =>
      cases bs with
      | nil => exact List.nil_prefix
      | cons b bs => exact List.cons_prefix_cons.mpr ⟨rfl, ih bs⟩

/-- What a request has led to stays. -/
theorem outcomes_mono (cb : CallbackTable) (tr tr' : Trace LinkInput LinkEvent) :
    outcomes cb tr <+: outcomes cb (tr ++ tr') := by
  obtain ⟨qs, hserved⟩ := served_append tr tr'
  have hcallbacks : deviceCallbacks (tr ++ tr') = deviceCallbacks tr ++ deviceCallbacks tr' := by
    simp [deviceCallbacks, eventsAt_append]
  have hresults : deviceResults (tr ++ tr') = deviceResults tr ++ deviceResults tr' := by
    simp [deviceResults, inputsAt_append]
  obtain ⟨rs, hrs⟩ := ((prefix_zip (deviceCallbacks tr) (deviceCallbacks tr') (deviceResults tr)
    (deviceResults tr')).filter fun p => !p.1.isVerdict).map Prod.snd
  rw [outcomes, outcomes, hserved, hcallbacks, hresults, requestResults, requestResults, ← hrs]
  exact Serial.prefix_outcomes _ _ _ _ _

/-- What the `k`-th call has returned: the error of a timeout, or what came of its request. -/
def ReturnedWith (os : List (Request × Option CallbackResult)) (k : Nat) (c : ApiCall)
    (res : CallResult) : Prop :=
  res = ⟨-ICAP_ERROR_TIMEOUT, none⟩ ∨
    ∃ q o, c.ask = some q ∧ (q (BitVec.ofNat 32 (k + 1)), o) ∈ os ∧ res = c.outcome o

/-- The calls that have returned are the first ones, and at most one waits. -/
structure InTurn (cb : Side → CallbackTable) (tr : Trace LinkInput LinkEvent) (l : Link) :
    Prop where
  turn : (returns tr).map (fun p => p.1.ask)
      ++ (waits (l.side .application).stack).map (fun w => w.call.ask) = (asked tr).map some
  single : ∀ w ∈ waits (l.side .application).stack, waits (l.side .application).stack = [w] ∧
    w.seqNum = BitVec.ofNat 32 (asked tr).length
  returned : ∀ k c res, (returns tr)[k]? = some (c, res) →
    ReturnedWith (outcomes (cb .device) tr) k c res

theorem ReturnedWith.mono {os os' : List (Request × Option CallbackResult)} {k : Nat} {c : ApiCall}
    {res : CallResult} (h : ReturnedWith os k c res) (hos : os <+: os') :
    ReturnedWith os' k c res := by
  rcases h with h | ⟨q, o, hq, hmem, hres⟩
  · exact Or.inl h
  · exact Or.inr ⟨q, o, hq, hos.sublist.mem hmem, hres⟩

/-- The call that waits is the latest one. -/
theorem InTurn.waiting (h : InTurn cb tr l) {w : Wait} {ws : List Wait}
    (hw : waits (l.side .application).stack = w :: ws) :
    ws = [] ∧ ∃ q qs, w.call.ask = some q ∧ asked tr = qs ++ [q] ∧
      (returns tr).length = qs.length ∧
      (returns tr).map (fun p => p.1.ask) = qs.map some ∧
      w.seqNum = BitVec.ofNat 32 (qs.length + 1) := by
  obtain ⟨hsingle, hseq⟩ := h.single w (by rw [hw]; exact List.mem_cons_self)
  have hnil : ws = [] := (List.cons.inj (hw.symm.trans hsingle)).2
  subst hnil
  have hturn := h.turn
  rw [hw] at hturn
  have hne : asked tr ≠ [] := by
    intro hnil
    rw [hnil] at hturn
    simp at hturn
  obtain ⟨qs, q, hasked⟩ := List.eq_nil_or_concat (asked tr) |>.resolve_left hne
  rw [List.concat_eq_append] at hasked
  rw [hasked, List.map_append] at hturn
  obtain ⟨hreturns, hlast⟩ := List.append_inj' hturn rfl
  rw [hasked, List.length_append] at hseq
  refine ⟨rfl, q, qs, (List.cons.inj hlast).1, hasked, ?_, hreturns, hseq⟩
  have hlen := congrArg List.length hreturns
  rwa [List.length_map, List.length_map] at hlen

/-- The latest call returns `res`. -/
theorem InTurn.return (h : InTurn cb tr l) {tr' : Trace LinkInput LinkEvent} {w : Wait}
    {res : CallResult}
    (hw : waits (l.side .application).stack = w :: waits (l'.side .application).stack)
    (hasked : asked tr' = asked tr)
    (hreturns : returns tr' = returns tr ++ returnedResults [.returned w.call res])
    (hos : outcomes (cb .device) tr <+: outcomes (cb .device) tr')
    (hres : ∀ q qs, w.call.ask = some q → asked tr = qs ++ [q] →
      w.seqNum = BitVec.ofNat 32 (qs.length + 1) →
      ReturnedWith (outcomes (cb .device) tr') qs.length w.call res) : InTurn cb tr' l' := by
  obtain ⟨hnil, q, qs, hq, hqs, hlen, hfirst, hseq⟩ := h.waiting hw
  have hnew : returnedResults [.returned w.call res] = [(w.call, res)] := by
    simp [returnedResults, Event.callResult, hq]
  rw [hnew] at hreturns
  refine ⟨?_, ?_, ?_⟩
  · rw [hreturns, hnil, hasked, hqs, List.map_append, hfirst, List.map_append]
    simp [hq]
  · rw [hnil]
    exact List.forall_mem_nil _
  · intro k c res' hk
    rw [hreturns] at hk
    rcases Nat.lt_or_ge k (returns tr).length with hlt | hge
    · rw [List.getElem?_append_left hlt] at hk
      exact (h.returned k c res' hk).mono hos
    · rw [List.getElem?_append_right hge] at hk
      -- the only new return is that of the call that waited
      have hzero : k - (returns tr).length = 0 := by
        by_contra hpos
        rw [List.getElem?_eq_none (by simp; omega)] at hk
        cases hk
      rw [hzero] at hk
      obtain ⟨rfl, rfl⟩ := Prod.mk.inj (Option.some.inj hk)
      have hk' : k = qs.length := by omega
      rw [hk']
      exact hres q qs hq hqs hseq

/-- The call of a wait that is answered returns what came of its request. -/
theorem returnedWith_answer (hc : Connected Q address cb tr l) (hs : Serviced cb tr l)
    (hbound : (asked tr).length < 2 ^ 32) {w : Wait} {q : U32 → Request} {qs : List (U32 → Request)}
    (hq : w.call.ask = some q) (hqs : asked tr = qs ++ [q])
    (hseq : w.seqNum = BitVec.ofNat 32 (qs.length + 1)) {m : IcapRemoteMsg}
    (hm : m ∈ parsedMsgs (handlerEvents (eventsAt .application tr)))
    (hresponse : IsResponse m.data.mem) (hseq' : m.data.mem.seqNum = w.seqNum) :
    ReturnedWith (outcomes (cb .device) tr) qs.length w.call (w.result m.data.mem) := by
  obtain ⟨frame, hframe, hholds⟩ := hc.parsed hm
  obtain ⟨⟨p, o⟩, hp, rfl, hrequested⟩ := hs.response hc hframe hholds hresponse
  obtain ⟨k, q', hk, heq, hpseq⟩ := seqNum_of_requested hrequested
  simp only at heq hpseq hholds
  -- seq_nums do not repeat, so the reply is to the request of the call that waits
  have hlt : k < (asked tr).length := (List.getElem?_eq_some_iff.mp hk).1
  have hnumber : k = qs.length := by
    have hnat := congrArg BitVec.toNat
      ((hpseq.symm.trans (Request.reply_seqNum hholds).symm).trans (hseq'.trans hseq))
    rw [hqs, List.length_append, List.length_singleton] at hlt hbound
    simp only [BitVec.toNat_ofNat] at hnat
    omega
  subst hnumber
  obtain rfl : q' = q := by
    rw [hqs, List.getElem?_append_right le_rfl, Nat.sub_self] at hk
    exact (Option.some.inj hk).symm
  subst heq
  refine Or.inr ⟨q', o, hq, hp, ?_⟩
  obtain ⟨callback, hremote, -⟩ := ApiCall.ask_eq_some hq
  rw [ApiCall.reply_ask hq] at hholds
  rw [Wait.result, ApiCall.outcome_eq]
  exact finish_last hremote hholds w.response

/-- Nothing is asked, and no call returns. -/
theorem InTurn.quiet (h : InTurn cb tr l) {tr' : Trace LinkInput LinkEvent}
    (hwaits : waits (l'.side .application).stack = waits (l.side .application).stack)
    (hasked : asked tr' = asked tr) (hreturns : returns tr' = returns tr)
    (hos : outcomes (cb .device) tr <+: outcomes (cb .device) tr') : InTurn cb tr' l' := by
  refine ⟨?_, ?_, ?_⟩
  · rw [hreturns, hwaits, hasked]
    exact h.turn
  · rw [hwaits, hasked]
    exact h.single
  · rw [hreturns]
    exact fun k c res hk => (h.returned k c res hk).mono hos

theorem stack_eq_nil {stack : List Activation} (hruns : programRuns stack = true)
    (hloops : loopTails stack = []) : stack = [] := by
  cases stack with
  | nil => rfl
  | cons a rest =>
      cases a with
      | poll w => cases hruns
      | clock w => cases hruns
      | loop tailNext k => cases hloops

/-- A step of the application. -/
theorem InTurn.of_run (h : InTurn cb tr l) (hs : Serviced cb tr l)
    {tr' : Trace LinkInput LinkEvent} (hok : Orderly tr l (.run .application i))
    (hreturn : ReturnStep (l.side .application) i s ev)
    (hc' : Connected Q address cb tr' l') (hs' : Serviced cb tr' l')
    (hside : l'.side .application = s) (hbound : (asked tr').length < 2 ^ 32)
    (hevents : eventsAt .application tr' = eventsAt .application tr ++ ev)
    (hasked' : asked tr' = asked tr ++ i.asked.toList)
    (hos : outcomes (cb .device) tr <+: outcomes (cb .device) tr')
    (hparsed : ∀ w ∈ waits (l.side .application).stack, s.lastResponse.seqNum = w.seqNum →
      ∃ m ∈ parsedMsgs (handlerEvents (eventsAt .application tr')),
        IsResponse m.data.mem ∧ m.data.mem.seqNum = w.seqNum ∧
        w.result s.lastResponse = w.result m.data.mem) : InTurn cb tr' l' := by
  have hreturns : returns tr' = returns tr ++ returnedResults ev := by
    rw [returns, hevents, returnedResults_append, returns]
  cases hreturn with
  | quiet hasked hwaits hev =>
      rw [hasked, Option.toList_none, List.append_nil] at hasked'
      rw [hev, List.append_nil] at hreturns
      exact h.quiet (by rw [hside, hwaits]) hasked' hreturns hos
  | call c now sendRet uninit q hi hask hruns hwaits hev =>
      subst hi
      rw [show (Input.call c now sendRet uninit).asked = some q from hask, Option.toList_some]
        at hasked'
      rw [hev, List.append_nil] at hreturns
      -- the stack is empty, so no call waits
      have hstack := stack_eq_nil hruns hok.2
      have hturn := h.turn
      rw [hstack] at hturn hwaits
      have hidle : (returns tr).map (fun p => p.1.ask) = (asked tr).map some :=
        (List.append_nil _).symm.trans hturn
      refine ⟨?_, ?_, ?_⟩
      · rw [hreturns, hside, hwaits, hasked', List.map_append, hidle]
        exact congrArg (List.map some (asked tr) ++ [·]) hask
      · rw [hside, hwaits, hasked']
        refine List.forall_mem_singleton.mpr ⟨rfl, ?_⟩
        rw [hs.asks.counter, List.length_append, BitVec.ofNat_add]
        rfl
      · rw [hreturns]
        exact fun k c res hk => (h.returned k c res hk).mono hos
  | timeout w hasked hwaits hev =>
      rw [hasked, Option.toList_none, List.append_nil] at hasked'
      rw [hev] at hreturns
      refine h.return (by rw [hside]; exact hwaits) hasked' hreturns hos ?_
      exact fun q qs hq _ _ => Or.inl (ApiCall.finish_timeout hq w.response)
  | answer w hasked hwaits hseq hev =>
      rw [hasked, Option.toList_none, List.append_nil] at hasked'
      rw [hev] at hreturns
      refine h.return (by rw [hside]; exact hwaits) hasked' hreturns hos ?_
      intro q qs hq hqs hnumber
      obtain ⟨m, hm, hresponse, hmseq, hresult⟩ :=
        hparsed w (by rw [hwaits]; exact List.mem_cons_self) hseq
      rw [hresult]
      exact returnedWith_answer hc' hs' hbound hq (hasked'.trans hqs) hnumber hm hresponse hmseq

theorem linkStart_inTurn (rpmsg : Side → Nat × Nat) (name priv : Side → Nat) :
    InTurn cb [] (linkStart rpmsg name priv cb) :=
  ⟨rfl, nofun, nofun⟩

theorem run_inTurn (hQ0 : 0 < Q) (hQ : Q < 2 ^ 16) {rpmsg : Side → Nat × Nat}
    {name priv : Side → Nat}
    (hrun : (linkMachine Q address).Run Orderly (linkStart rpmsg name priv cb) tr l)
    (hbound : (asked tr).length < 2 ^ 32) : InTurn cb tr l := by
  refine hrun.invariant (I := fun tr l => (asked tr).length < 2 ^ 32 → InTurn cb tr l)
    (fun _ => linkStart_inTurn rpmsg name priv) ?_ hbound
  intro tr l l' a ev hr ih hok hstep hlen
  have hlen' : (asked tr).length < 2 ^ 32 := by
    rw [asked_append, List.length_append] at hlen
    omega
  have h := ih hlen'
  have hr' := hr.step hok hstep
  have hs := run_serviced hQ0 hQ hr
  have hs' := run_serviced hQ0 hQ hr'
  have hos := outcomes_mono (cb .device) tr [(a, ev)]
  obtain ⟨tr₁, hsession, hevents⟩ := session_run hQ0 hQ hr hlen'
  cases linkStep_cases hstep with
  | run x i s ev' ha hmove hev hside _ =>
      subst ha hev
      cases x with
      | device =>
          refine h.quiet ?_ ?_ ?_ hos
          · rw [hside, Function.update_of_ne (by decide)]
          · exact (asked_snoc_run .device i _).trans (List.append_nil _)
          · rw [returns, eventsAt_snoc_other (by decide), returns]
      | application =>
          have hself : l'.side .application = s := by rw [hside, Function.update_self]
          have hin := hlen
          rw [asked_snoc_run, if_pos rfl] at hin
          have hok' := inSession_run hs (run_matched hsession) hok hin
          have hasked := (@asked_snoc_run tr .application i (ev'.map (.application, ·))).trans
            (congrArg _ (if_pos rfl))
          refine h.of_run hs hok (step_returns (run_matched hsession).quiescent hmove)
            (run_connected hQ0 hQ hr') hs' hself hlen (eventsAt_snoc_self ev') hasked hos ?_
          intro w hw hseq
          obtain ⟨m, hm, hrest⟩ := answered_parsed hsession hok' hmove hw hseq
          rw [Trace.events_append, Trace.events_singleton, hevents] at hm
          rw [eventsAt_snoc_self]
          exact ⟨m, hm, hrest⟩
  | deliver x m frame frames s ha _ _ hmove hev hside _ =>
      obtain ⟨addr, rest, rfl⟩ := ha
      subst hev
      -- the interrupt leaves the stack of its side
      have hstack : s.stack = (l.side x).stack := by
        simp only [step, Option.some.injEq, Prod.mk.injEq] at hmove
        rw [← hmove.1]
      refine h.quiet ?_ (asked_snoc_deliver x addr rest _) ?_ hos
      · rw [hside]
        by_cases hx : Side.application = x
        · subst hx
          rw [Function.update_self, hstack]
        · rw [Function.update_of_ne hx]
      · rw [returns, eventsAt_append, returnedResults_append, returns]
        cases x <;> exact List.append_nil _

end

/-- **A call returns what came of its own request.** In every run of a device and an application
that are linked, in which the counter does not wrap: the functions that have returned are the first
calls, in order, and each has returned the error of a timeout or what the device's callback
returned for the request of that very call. -/
theorem calls_return {Q : Nat} (hQ0 : 0 < Q) (hQ : Q < 2 ^ 16) {address : Side → U32}
    {rpmsg : Side → Nat × Nat} {name priv : Side → Nat} {cb : Side → CallbackTable}
    {tr : Trace LinkInput LinkEvent} {l : Link}
    (hrun : (linkMachine Q address).Run Orderly (linkStart rpmsg name priv cb) tr l)
    (hbound : (requested tr).length < 2 ^ 32) {k : Nat} {c : ApiCall} {res : CallResult}
    (hk : (returns tr)[k]? = some (c, res)) :
    ∃ q, c.ask = some q ∧ (requested tr)[k]? = some (q (BitVec.ofNat 32 (k + 1))) ∧
      (res = ⟨-ICAP_ERROR_TIMEOUT, none⟩ ∨
        ∃ o, (q (BitVec.ofNat 32 (k + 1)), o) ∈ outcomes (cb .device) tr ∧ res = c.outcome o) := by
  have hlen : (asked tr).length < 2 ^ 32 := by
    rwa [requested, numbered, List.length_mapIdx] at hbound
  have h := run_inTurn hQ0 hQ hrun hlen
  -- the call in the place of the return
  have hlt : k < (returns tr).length := (List.getElem?_eq_some_iff.mp hk).1
  have hplace := congrArg (·[k]?) h.turn
  rw [List.getElem?_append_left (by rwa [List.length_map]), List.getElem?_map, hk,
    List.getElem?_map] at hplace
  obtain ⟨q, hq, hask⟩ := Option.map_eq_some_iff.mp hplace.symm
  refine ⟨q, hask.symm, ?_, ?_⟩
  · rw [requested, numbered, List.getElem?_mapIdx, hq]
    rfl
  · rcases h.returned k c res hk with htimeout | ⟨q', o, hq', hmem, hres⟩
    · exact Or.inl htimeout
    · obtain rfl : q' = q := Option.some.inj (hq'.symm.trans hask.symm)
      exact Or.inr ⟨o, hmem, hres⟩

theorem calls_return_late :
    returns lateRun.1
        = [(.pause 1, ⟨-ICAP_ERROR_TIMEOUT, none⟩), (.resume 2, ⟨-ICAP_ERROR_INVALID, none⟩)] ∧
      ∃ q, (ApiCall.resume 2).ask = some q ∧
        ∃ o, (q 2, o) ∈ outcomes (fun c => c = .pause ∨ c = .resume) lateRun.1 := by
  have hreturns : returns lateRun.1
      = [(.pause 1, ⟨-ICAP_ERROR_TIMEOUT, none⟩), (.resume 2, ⟨-ICAP_ERROR_INVALID, none⟩)] := by
    decide +kernel
  refine ⟨hreturns, ?_⟩
  obtain ⟨q, hq, -, htimeout | ⟨o, ho, -⟩⟩ := calls_return (by omega) (by omega) lateRun_run
    (by decide +kernel) (show (returns lateRun.1)[1]? = _ by rw [hreturns]; rfl)
  · exact absurd htimeout (by decide)
  · exact ⟨q, hq, o, ho⟩

end Icap.BareMetal
