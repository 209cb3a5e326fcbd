import Icap.Basic.Network
import Icap.BareMetal.Requests
import Icap.BareMetal.Service
import Icap.Linux.Requests

set_option autoImplicit false

/-! # A Linux application and a bare-metal device

The application core runs Linux, the device core the rpmsg-lite transport, and the two are linked by
channels that keep the order of frames and may lose any of them; a full fifo of the device loses
frames as well. Any number of threads call application functions and any of them receive. In every
run the device serves each request at most once and in the order they were sent (`served_once`), its
answers meet what the matching of responses relies on, and a call that is woken by a response
returns what the device's callback returned for the request of that very call (`woken_calls`).
-/

namespace Icap.Remote

open ByteMemory Transition BareMetal

/-! ## The two sides -/

def application (bits : Nat) : Party Linux.State Linux.Input Linux.Event (List Byte) :=
  ⟨Linux.machine bits, Linux.Input.frame, Linux.Event.sentFrame⟩

/-- The frame in a receive buffer. -/
def bufferFrame (m : IcapRemoteMsg) : List Byte := block m.data.mem 0 m.size.toNat

def device (Q : Nat) : Party State Input Event (List Byte) :=
  ⟨machine Q, fun i => i.put.map bufferFrame, fun e => e.handler.bind HandlerEvent.frame⟩

abbrev System := Pair Linux.State State (List Byte)

abbrev SystemInput := PairInput Linux.Input Input

abbrev SystemTrace := Trace SystemInput (Linux.Event ⊕ Event)

/-- Both instances are initialised and nothing is on its way. -/
def start (bits : Nat) (rpdev : Option U32) (rpmsg : Nat × Nat) (name priv : Side → Nat)
    (cb : Side → CallbackTable) : System :=
  ⟨Linux.State.opened bits rpdev (name .application) (cb .application) (priv .application),
    deviceStart rpmsg (name .device) (priv .device) (cb .device), [], []⟩

/-- The threads call application functions and the device calls device functions, no callback of
the device calls `icap_loop`, the frames come from the address of the application, and the
instances stay initialised. -/
def Orderly (peer : U32) (tr : SystemTrace) (p : System) : SystemInput → Prop
  | .left inp => Linux.AppCalls (leftTrace tr) p.left inp
  | .right (.call c _ _ _) => c.sync = false
  | .right (.loop _) => loopTails p.right.stack = []
  | .right (.putMsg m) => m.srcAddr = peer
  | .right i => i.lifecycle = false
  | _ => True

/-! ## What happened -/

/-- The requests the device has read. -/
def served (tr : SystemTrace) : List Request :=
  read requestOf (parsedMsgs (handlerEvents (rightTrace tr).events))

/-- The callbacks the device has invoked. -/
def invoked (tr : SystemTrace) : List Callback :=
  invokedCallbacks (handlerEvents (rightTrace tr).events)

/-- The requests the device is done with, each with the result of its callback if it is set. -/
def outcomes (cb : CallbackTable) (tr : SystemTrace) : List (Request × Option CallbackResult) :=
  Serial.outcomes (Request.isSet cb) (served tr) (requestResults (invoked tr)
    (callbackResults (rightTrace tr)))

/-- The calls that were woken by a response and have returned, each with what it returned. -/
def woken (tr : SystemTrace) : List (Linux.Message × CallResult) :=
  (leftTrace tr).events.filterMap fun
    | .returned m (some .response) r => some (m, r)
    | _ => none

theorem returned_of_woken {tr : SystemTrace} {m : Linux.Message} {r : CallResult}
    (h : (m, r) ∈ woken tr) : .returned m (some .response) r ∈ (leftTrace tr).events := by
  obtain ⟨e, he, heq⟩ := List.mem_filterMap.mp h
  split at heq
  · obtain ⟨rfl, rfl⟩ := Prod.mk.inj (Option.some.inj heq)
    exact he
  · cases heq

/-! ## The runs of the sides -/

section

variable {Q bits : Nat} {peer : U32} {rpdev : Option U32} {rpmsg : Nat × Nat}
  {name priv : Side → Nat} {cb : Side → CallbackTable} {tr : SystemTrace} {p : System}

theorem device_sent (tr : Trace Input Event) :
    (device Q).sent tr = sentFrames (handlerEvents tr.events) := by
  rw [Party.sent, sentFrames, handlerEvents, List.filterMap_filterMap]
  rfl

theorem device_taken (tr : Trace Input Event) :
    (device Q).taken tr = (putMsgs tr).map bufferFrame := by
  rw [Party.taken, putMsgs, List.map_filterMap]
  rfl

theorem holds_block (msg : IcapMsg) (n : Nat) : Holds msg (block msg 0 n) := by
  rw [holds_iff_block, block_length]

theorem holds_bufferFrame (m : IcapRemoteMsg) : Holds m.data.mem (bufferFrame m) :=
  holds_block _ _

/-- What is read in receive buffers is what is read in their frames. -/
theorem read_buffers {β : Type} {decode : IcapMsg → Option β} {ms : List IcapRemoteMsg}
    (h : ∀ m ∈ ms, Carries decode (bufferFrame m)) :
    BareMetal.read decode ms = readFrames decode (ms.map bufferFrame) := by
  rw [BareMetal.read, readFrames, List.filterMap_map]
  exact List.filterMap_congr fun m hm => (h m hm).reads _ (holds_bufferFrame m)

theorem fromPeer_bufferFrame {m : IcapRemoteMsg} (h : m.srcAddr = peer) :
    FromPeer peer (bufferFrame m) m := by
  refine ⟨holds_bufferFrame m, ?_, h⟩
  rw [bufferFrame, block_length, BitVec.ofNat_toNat, BitVec.setWidth_eq]

theorem application_run
    (h : (pairMachine (application bits) (device Q)).Run (Orderly peer)
      (start bits rpdev rpmsg name priv cb) tr p) :
    (Linux.machine bits).Run Linux.AppCalls
      (Linux.State.opened bits rpdev (name .application) (cb .application) (priv .application))
      (leftTrace tr) p.left :=
  h.left fun _ _ _ _ _ _ _ hok => hok

/-- What comes to the device are frames of the application. -/
theorem device_run
    (h : (pairMachine (application bits) (device Q)).Run (Orderly peer)
      (start bits rpdev rpmsg name priv cb) tr p) :
    (machine Q).Run (Fed peer) (deviceStart rpmsg (name .device) (priv .device) (cb .device))
      (rightTrace tr) p.right := by
  refine h.right fun tr₁ p₁ i rest hr _ htake hok => ?_
  have hasked := Linux.run_asked (application_run hr)
  cases i with
  | putMsg m =>
      exact ⟨bufferFrame m, hasked.frame (hr.next_right rfl rfl htake), fromPeer_bufferFrame hok⟩
  | _ => exact hok

/-! ## Requests -/

/-- The device reads requests that were sent, in order. -/
theorem served_sublist (hQ0 : 0 < Q) (hQ : Q < 2 ^ 16)
    (h : (pairMachine (application bits) (device Q)).Run (Orderly peer)
      (start bits rpdev rpmsg name priv cb) tr p) :
    (served tr).Sublist (Linux.sentRequests (leftTrace tr)) := by
  have hattends := run_attends hQ0 hQ (device_run h)
  have hasked := Linux.run_asked (application_run h)
  have hcarried := (h.carried rfl rfl).2
  rw [device_taken] at hcarried
  have hput : (read requestOf (putMsgs (rightTrace tr))).Sublist
      (Linux.sentRequests (leftTrace tr)) := by
    have hcarries : ∀ m ∈ putMsgs (rightTrace tr), Carries requestOf (bufferFrame m) :=
      fun m hm => (hasked.frame (hcarried.mem (List.mem_append_left _
        (List.mem_map_of_mem hm)))).carries
    rw [read_buffers hcarries, ← hasked.requests]
    exact ((List.sublist_append_left _ _).trans hcarried).filterMap _
  exact ((List.sublist_append_left _ _).trans hattends.queued |>.filterMap _).trans hput

theorem served_nodup (hQ0 : 0 < Q) (hQ : Q < 2 ^ 16)
    (h : (pairMachine (application bits) (device Q)).Run (Orderly peer)
      (start bits rpdev rpmsg name priv cb) tr p) : ((served tr).map Request.seqNum).Nodup := by
  have hasked := Linux.run_asked (application_run h)
  have hsub := (served_sublist hQ0 hQ h).map Request.seqNum
  rw [hasked.seqNums] at hsub
  exact hasked.once.sublist hsub

/-! ## Answers -/

/-- A frame of a device holds a response, or a note. -/
theorem replyOf_of_holds {frame : List Byte} (h : DeviceFrame frame) {msg : IcapMsg}
    (hm : Holds msg frame) :
    replyOf (ofList frame) = if IsResponse msg then some frame else none := by
  rcases h with h | ⟨n, seqNum, rfl⟩
  · rw [if_pos (h.isResponse hm), h.carries_reply.2]
  · rw [(carries_reply_note n seqNum).2, if_neg (not_isResponse (frameAt_of_holds hm).type)]

/-- A response that a device sends is the reply to a request it is done with. -/
theorem reply_of_sent (hQ0 : 0 < Q) (hQ : Q < 2 ^ 16)
    (h : (pairMachine (application bits) (device Q)).Run (Orderly peer)
      (start bits rpdev rpmsg name priv cb) tr p) {frame : List Byte}
    (hframe : frame ∈ (device Q).sent (rightTrace tr)) {msg : IcapMsg} (hm : Holds msg frame)
    (hr : IsResponse msg) : ∃ a ∈ outcomes (cb .device) tr, frame = a.1.reply a.2 := by
  have hattends := run_attends hQ0 hQ (device_run h)
  rw [device_sent] at hframe
  rcases hattends.speaks.frames frame hframe with hresponse | ⟨n, seqNum, rfl⟩
  · have hmem : frame ∈ readFrames replyOf (sentFrames (handlerEvents (rightTrace tr).events)) :=
      List.mem_filterMap.mpr ⟨frame, hframe, hresponse.carries_reply.2⟩
    rw [hattends.serves.replies] at hmem
    obtain ⟨a, ha, heq⟩ := List.mem_map.mp hmem
    exact ⟨a, ha, heq.symm⟩
  · exact absurd hr (not_isResponse (frameAt_of_holds hm).type)

/-- The requests the device is done with differ in their seq_nums. -/
theorem outcomes_nodup (hQ0 : 0 < Q) (hQ : Q < 2 ^ 16)
    (h : (pairMachine (application bits) (device Q)).Run (Orderly peer)
      (start bits rpdev rpmsg name priv cb) tr p) :
    ((outcomes (cb .device) tr).map fun a => a.1.seqNum).Nodup := by
  have hsub := (Serial.prefix_fst_outcomes (Request.isSet (cb .device)) (served tr)
    (requestResults (invoked tr) (callbackResults (rightTrace tr)))).sublist.map Request.seqNum
  rw [List.map_map] at hsub
  exact (served_nodup hQ0 hQ h).sublist hsub

/-- The responses received and those on their way are replies to requests that are done, to each
request one. -/
theorem responseFrames_sublist (hQ0 : 0 < Q) (hQ : Q < 2 ^ 16)
    (h : (pairMachine (application bits) (device Q)).Run (Orderly peer)
      (start bits rpdev rpmsg name priv cb) tr p) :
    (Linux.responseFrames (leftTrace tr) ++ readFrames replyOf p.toLeft).Sublist
      ((outcomes (cb .device) tr).map fun a => a.1.reply a.2) := by
  have hattends := run_attends hQ0 hQ (device_run h)
  have hcarried := (h.carried rfl rfl).1
  have hsent := hattends.serves.replies
  rw [← device_sent (Q := Q)] at hsent
  have hsub := hcarried.filterMap fun frame => replyOf (ofList frame)
  have hread : ((application bits).taken (leftTrace tr)).filterMap
      (fun frame => replyOf (ofList frame)) = Linux.responseFrames (leftTrace tr) := by
    rw [Party.taken, Linux.responseFrames, List.filterMap_filterMap]
    refine List.filterMap_congr fun inp hinp => ?_
    obtain ⟨i, a⟩ := inp
    cases a with
    | receive srcAddr msg size =>
        -- the frame received has been sent by the device
        have hmem : block msg 0 size.toNat ∈ (device Q).sent (rightTrace tr) :=
          hcarried.mem (List.mem_append_left _ (List.mem_filterMap.mpr ⟨_, hinp, rfl⟩))
        rw [device_sent] at hmem
        exact replyOf_of_holds (hattends.speaks.frames _ hmem) (holds_block msg _)
    | _ => rfl
  rw [List.filterMap_append, hread] at hsub
  exact hsent ▸ hsub

/-- A response has the seq_num that its frame has. -/
theorem responseFrames_seqNums (hQ0 : 0 < Q) (hQ : Q < 2 ^ 16)
    (h : (pairMachine (application bits) (device Q)).Run (Orderly peer)
      (start bits rpdev rpmsg name priv cb) tr p) :
    (Linux.responseFrames (leftTrace tr)).map (fun frame => IcapMsg.seqNum (ofList frame))
      = (Linux.responses (leftTrace tr)).map IcapMsg.seqNum := by
  have hsub := (List.sublist_append_left _ _).trans (responseFrames_sublist hQ0 hQ h)
  rw [Linux.responseFrames, Linux.responses, List.map_filterMap, List.map_filterMap]
  refine List.filterMap_congr fun inp hinp => ?_
  obtain ⟨i, a⟩ := inp
  cases a with
  | receive srcAddr msg size =>
      simp only [Linux.Input.responseFrame, Linux.Input.response]
      split_ifs with hresponse
      · have hmem : block msg 0 size.toNat ∈ Linux.responseFrames (leftTrace tr) :=
          List.mem_filterMap.mpr ⟨_, hinp, if_pos hresponse⟩
        obtain ⟨⟨q, o⟩, -, hreply⟩ := List.mem_map.mp (hsub.mem hmem)
        have hholds := holds_block msg size.toNat
        rw [← hreply] at hholds ⊢
        rw [Option.map_some, Option.map_some, Request.reply_seqNum hholds,
          Request.reply_seqNum (holds_ofList _)]
      · rfl
  | _ => rfl

/-- The responses received and those on their way differ in their seq_nums. -/
theorem responses_nodup (hQ0 : 0 < Q) (hQ : Q < 2 ^ 16)
    (h : (pairMachine (application bits) (device Q)).Run (Orderly peer)
      (start bits rpdev rpmsg name priv cb) tr p) :
    ((Linux.responses (leftTrace tr)).map IcapMsg.seqNum
      ++ (readFrames replyOf p.toLeft).map fun frame => IcapMsg.seqNum (ofList frame)).Nodup := by
  have hsub := (responseFrames_sublist hQ0 hQ h).map fun frame => IcapMsg.seqNum (ofList frame)
  have hof : ((outcomes (cb .device) tr).map fun a => a.1.reply a.2).map
      (fun frame => IcapMsg.seqNum (ofList frame))
      = (outcomes (cb .device) tr).map fun a => a.1.seqNum := by
    rw [List.map_map]
    exact List.map_congr_left fun a _ => Request.reply_seqNum (holds_ofList (a.1.reply a.2))
  rw [List.map_append, responseFrames_seqNums hQ0 hQ h, hof] at hsub
  exact (outcomes_nodup hQ0 hQ h).sublist hsub

/-- A response that a thread has received is in a frame of the device. -/
theorem received_frame (h : (pairMachine (application bits) (device Q)).Run (Orderly peer)
      (start bits rpdev rpmsg name priv cb) tr p) {msg : IcapMsg}
    (hmsg : msg ∈ Linux.responses (leftTrace tr)) :
    ∃ frame ∈ (device Q).sent (rightTrace tr), Holds msg frame ∧ IsResponse msg := by
  obtain ⟨⟨i, a⟩, hinp, heq⟩ := List.mem_filterMap.mp hmsg
  cases a with
  | receive srcAddr msg' size =>
      simp only [Linux.Input.response] at heq
      split_ifs at heq with hresponse
      obtain rfl := Option.some.inj heq
      exact ⟨block msg' 0 size.toNat, (h.carried rfl rfl).1.mem (List.mem_append_left _
        (List.mem_filterMap.mpr ⟨_, hinp, rfl⟩)), holds_block _ _, hresponse⟩
  | _ => cases heq

/-- The device meets what the matching of responses relies on. -/
theorem answersOnce_run (hQ0 : 0 < Q) (hQ : Q < 2 ^ 16)
    (h : (pairMachine (application bits) (device Q)).Run (Orderly peer)
      (start bits rpdev rpmsg name priv cb) tr p) :
    (Linux.machine bits).Run Linux.AnswersOnce
      (Linux.State.opened bits rpdev (name .application) (cb .application) (priv .application))
      (leftTrace tr) p.left := by
  refine h.left fun tr₁ p₁ inp rest hr _ htake hok => ?_
  obtain ⟨i, a⟩ := inp
  cases a with
  | call c uninit => exact hok.2
  | receive srcAddr msg size =>
      intro hresponse
      have hhead : p₁.toLeft = block msg 0 size.toNat :: rest := htake
      have hholds := holds_block msg size.toNat
      have hframe : block msg 0 size.toNat ∈ (device Q).sent (rightTrace tr₁) :=
        hr.next_left rfl rfl hhead
      obtain ⟨⟨q, o⟩, ha, hreply⟩ := reply_of_sent hQ0 hQ hr hframe hholds hresponse
      have hseq : msg.seqNum = q.seqNum := Request.reply_seqNum (hreply ▸ hholds)
      refine ⟨?_, ?_, ?_⟩
      · have hsize : size = BitVec.ofNat 32 (block msg 0 size.toNat).length := by
          rw [block_length, BitVec.ofNat_toNat, BitVec.setWidth_eq]
        rw [hsize]
        refine ResponseFrame.wellFormed ?_ hholds
        rw [hreply]
        exact q.reply_responseFrame o
      · rw [hseq, ← (Linux.run_asked (application_run hr)).seqNums]
        exact List.mem_map_of_mem
          ((served_sublist hQ0 hQ hr).mem (Serial.mem_of_outcome ha))
      · -- the seq_num of a response on its way has not come before
        have hnodup := responses_nodup hQ0 hQ hr
        have hread : readFrames replyOf p₁.toLeft
            = block msg 0 size.toNat :: readFrames replyOf rest := by
          rw [hhead]
          refine List.filterMap_cons_some ?_
          rw [hreply]
          exact (replyOf_of_holds (Or.inl (q.reply_responseFrame o)) (hreply ▸ hholds)).trans
            (if_pos hresponse)
        have hof : IcapMsg.seqNum (ofList (block msg 0 size.toNat)) = msg.seqNum := by
          rw [hreply, hseq]
          exact Request.reply_seqNum (holds_ofList _)
        rw [hread, List.map_cons, hof] at hnodup
        exact fun hmem => (List.nodup_append.mp hnodup).2.2 _ hmem _ List.mem_cons_self rfl
  | _ => exact hok

end

/-- **Requests of all threads are served at most once, in the order they were sent.** In every run
of a Linux application and a bare-metal device whose channels may lose frames: the requests the
device has read are among those handed to `rpmsg_send`, in that order, no two of which have one
seq_num; the callbacks invoked for requests are those of the requests read, where they are set; and
the responses that have come back are replies to the requests the device is done with, in their
order and to each request at most one. -/
theorem served_once {Q bits : Nat} (hQ0 : 0 < Q) (hQ : Q < 2 ^ 16) {peer : U32}
    {rpdev : Option U32} {rpmsg : Nat × Nat} {name priv : Side → Nat} {cb : Side → CallbackTable}
    {tr : SystemTrace} {p : System}
    (hrun : (pairMachine (application bits) (device Q)).Run (Orderly peer)
      (start bits rpdev rpmsg name priv cb) tr p) :
    (served tr).Sublist (Linux.sentRequests (leftTrace tr)) ∧
      ((Linux.sentRequests (leftTrace tr)).map Request.seqNum).Nodup ∧
      (invoked tr).filter (fun c => !c.isVerdict)
        = ((served tr).filter (Request.isSet (cb .device))).map Request.callback ∧
      (Linux.responseFrames (leftTrace tr)).Sublist
        ((outcomes (cb .device) tr).map fun a => a.1.reply a.2) := by
  have hattends := run_attends hQ0 hQ (device_run hrun)
  have hasked := Linux.run_asked (application_run hrun)
  refine ⟨served_sublist hQ0 hQ hrun, ?_, hattends.serves.invoked, ?_⟩
  · rw [hasked.seqNums]
    exact hasked.once
  · exact (List.sublist_append_left _ _).trans (responseFrames_sublist hQ0 hQ hrun)

/-- **A woken call returns what the device did for it.** In every such run, a call of any thread
that is woken by a response returns what came of its own request: what the device's callback
returned for it, or the default of a callback that is `NULL`. -/
theorem woken_calls {Q bits : Nat} (hQ0 : 0 < Q) (hQ : Q < 2 ^ 16) (hbits : 32 ≤ bits) {peer : U32}
    {rpdev : Option U32} {rpmsg : Nat × Nat} {name priv : Side → Nat} {cb : Side → CallbackTable}
    {tr : SystemTrace} {p : System}
    (hrun : (pairMachine (application bits) (device Q)).Run (Orderly peer)
      (start bits rpdev rpmsg name priv cb) tr p) {m : Linux.Message} {r : CallResult}
    (hwoken : (m, r) ∈ woken tr) :
    ∃ q o, m.request = some q ∧ (q, o) ∈ outcomes (cb .device) tr ∧ r = m.call.outcome o := by
  have hr := returned_of_woken hwoken
  have hasked := Linux.run_asked (application_run hrun)
  have hanswered := Linux.run_answered hbits (answersOnce_run hQ0 hQ hrun)
  obtain ⟨msg, hmsg, hseq, rfl⟩ := hanswered.returned m r hr
  obtain ⟨frame, hframe, hholds, hresponse⟩ := received_frame hrun hmsg
  obtain ⟨⟨q, o⟩, ha, rfl⟩ := reply_of_sent hQ0 hQ hrun hframe hholds hresponse
  -- the reply is to the request with the seq_num of the call
  have hsent := (served_sublist hQ0 hQ hrun).mem (Serial.mem_of_outcome ha)
  obtain ⟨m', hm', hreq, hseq'⟩ := hasked.of_sentRequest hsent
  have hsame : m'.seqNum = m.seqNum :=
    hseq'.symm.trans ((Request.reply_seqNum hholds).symm.trans hseq)
  obtain rfl := hasked.unique hm' (hasked.returned m _ _ hr) hsame
  obtain ⟨q', hq', hreq', -⟩ := (hasked.asks m' hm').carries
  obtain rfl := Option.some.inj (hreq.symm.trans hreq')
  exact ⟨_, o, hreq, ha, Linux.Message.resultFor_reply hq' hholds⟩

/-- Two threads call; the request of the second is lost, and the first is refused. -/
def lossyInputs : List SystemInput :=
  [.left ⟨1, .call (.pause 1) fun _ => 0⟩, .left ⟨1, .prepareWait (some fun _ => 0)⟩,
    .left ⟨1, .sendPlatform 0⟩, .left ⟨1, .findHint⟩,
    .left ⟨2, .call (.resume 2) fun _ => 0⟩, .left ⟨2, .prepareWait (some fun _ => 0)⟩,
    .left ⟨2, .sendPlatform 0⟩, .left ⟨2, .findHint⟩,
    .right (.putMsg ⟨⟨4096, ofList (icapMsgFrame ICAP_MSG_PAUSE ICAP_MSG 1 (word32 1))⟩, 44, 40⟩),
    .loseRight, .right (.loop 0),
    .right (.callbackRet ⟨-ICAP_ERROR_INVALID, Vector.replicate 28 0⟩ 0),
    .left ⟨3, .receive 0
      (ofList (icapMsgFrame ICAP_MSG_PAUSE ICAP_NAK 1 (word32 (-ICAP_ERROR_INVALID)))) 44⟩,
    .left ⟨3, .responseNotify⟩, .left ⟨3, .parseRet⟩, .left ⟨1, .waitEvent .response⟩,
    .left ⟨2, .waitEvent .elapsed⟩, .left ⟨1, .unlink⟩, .left ⟨1, .result⟩, .left ⟨1, .free⟩]

def lossyStart : System :=
  start 64 (some 30) (0, 0) (fun _ => 0) (fun _ => 0) fun _ c => c = .pause ∨ c = .resume

def lossyRun : SystemTrace × System :=
  (pairMachine (application 64) (device 10)).exec [] lossyStart lossyInputs

theorem lossyRun_run : (pairMachine (application 64) (device 10)).Run (Orderly 40) lossyStart
    lossyRun.1 lossyRun.2 :=
  Machine.Run.start.exec lossyInputs
    ⟨⟨rfl, fun _ => by decide⟩, ⟨rfl, rfl⟩, ⟨rfl, rfl⟩, ⟨rfl, rfl⟩,
      ⟨rfl, fun _ => by decide⟩, ⟨rfl, rfl⟩, ⟨rfl, rfl⟩, ⟨rfl, rfl⟩, rfl, trivial, rfl, rfl,
      ⟨rfl, rfl⟩, ⟨rfl, rfl⟩, ⟨rfl, rfl⟩, ⟨rfl, rfl⟩, ⟨rfl, rfl⟩, ⟨rfl, rfl⟩, ⟨rfl, rfl⟩,
      ⟨rfl, rfl⟩, trivial⟩

theorem served_once_lossy : invoked lossyRun.1 = [.pause 1] ∧
    (served lossyRun.1).length = 1 ∧ (Linux.sentRequests (leftTrace lossyRun.1)).length = 2 ∧
    (served lossyRun.1).Sublist (Linux.sentRequests (leftTrace lossyRun.1)) ∧
    (Linux.responseFrames (leftTrace lossyRun.1)).length = 1 ∧
    (Linux.responseFrames (leftTrace lossyRun.1)).Sublist
      ((outcomes (fun c => c = .pause ∨ c = .resume) lossyRun.1).map fun a => a.1.reply a.2) := by
  obtain ⟨hserved, -, -, hreplies⟩ := served_once (by omega) (by omega) lossyRun_run
  exact ⟨by decide +kernel, by decide +kernel, by decide +kernel, hserved, by decide +kernel,
    hreplies⟩

theorem woken_calls_lossy : ∃ m, woken lossyRun.1 = [(m, ⟨-ICAP_ERROR_INVALID, none⟩)] ∧
    ∃ q o, m.request = some q ∧
      (q, o) ∈ outcomes (fun c => c = .pause ∨ c = .resume) lossyRun.1 := by
  have hone : (woken lossyRun.1).map Prod.snd = [⟨-ICAP_ERROR_INVALID, none⟩] := by decide +kernel
  obtain ⟨⟨m, r⟩, hwoken, hr⟩ := List.map_eq_singleton_iff.mp hone
  obtain rfl : r = _ := hr
  obtain ⟨q, o, hq, ho, -⟩ := woken_calls (by omega) (by omega) (by omega) lossyRun_run
    (by rw [hwoken]; exact List.mem_singleton_self _)
  exact ⟨m, hwoken, q, o, hq, ho⟩

end Icap.Remote
