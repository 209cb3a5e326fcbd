import Icap.Basic.Serial
import Icap.Linux.Machine
import Icap.Protocol.Notification

set_option autoImplicit false

/-! # What the receivers of a Linux application do with notifications

Any thread can receive, and threads receive while the callbacks of other threads run, so the
callbacks of an application run in no particular order. Seen from one thread nothing of this is
left: a thread invokes the callbacks of the notes it has taken, in order, and answers each note with
what its callback returned (`run_hears`).
-/

namespace Icap.Linux

open ByteMemory Transition

/-! ## The steps of a thread -/

/-- The steps of the thread `i`. -/
def ofThread (i : Nat) (tr : Trace Input Event) : Trace Input Event :=
  tr.filter fun x => x.1.thread = i

/-- The note that comes to the rpmsg endpoint. -/
def Input.note (inp : Input) : Option Note :=
  match inp.action with
  | .receive _ msg _ => noteOf msg
  | _ => none

/-- What the running callback returns. -/
def Input.result (inp : Input) : Option CallbackResult :=
  match inp.action with
  | .callbackRet r => some r
  | _ => none

def Event.callback : Event → Option Callback
  | .invoked c => some c
  | _ => none

def Event.answer : Event → Option (List Byte)
  | .sentResponse frame => some frame
  | _ => none

def takenNotes (tr : Trace Input Event) : List Note := tr.inputs.filterMap Input.note

/-- What the callbacks have returned. -/
def callbackResults (tr : Trace Input Event) : List CallbackResult :=
  tr.inputs.filterMap Input.result

def invokedCallbacks (tr : Trace Input Event) : List Callback := tr.events.filterMap Event.callback

/-- The frames of the answers. -/
def answerFrames (tr : Trace Input Event) : List (List Byte) := tr.events.filterMap Event.answer

/-- The verdicts a device reads in frames. -/
def verdictsOf (frames : List (List Byte)) : List Callback :=
  frames.filterMap fun frame => verdictOf (ofList frame)

/-- The notes that are done, each with the result of its callback if it is set. -/
def noteOutcomes (cb : CallbackTable) (tr : Trace Input Event) :
    List (Note × Option CallbackResult) :=
  Serial.outcomes (fun n => cb n.callback.id) (takenNotes tr) (callbackResults tr)

/-- The verdict on a note. -/
def verdictOn (a : Note × Option CallbackResult) : Callback :=
  a.1.response (match a.2 with | some r => r.ret | none => 0)

/-- What comes are frames of a device, and the instance stays open. -/
def Heard (_ : Trace Input Event) (_ : State) (inp : Input) : Prop :=
  match inp.action with
  | .receive _ msg size => ∃ frame, Carries noteOf frame ∧ Holds msg frame ∧
      size = BitVec.ofNat 32 frame.length
  | a => a.opens = false ∧ a.closes = false

section

variable {tr : Trace Input Event} {inp : Input} {ev : List Event}

theorem ofThread_snoc_self : ofThread inp.thread (tr ++ [(inp, ev)])
    = ofThread inp.thread tr ++ [(inp, ev)] := by
  simp [ofThread]

theorem ofThread_snoc_other {i : Nat} (h : i ≠ inp.thread) :
    ofThread i (tr ++ [(inp, ev)]) = ofThread i tr := by
  simp [ofThread, h.symm]

theorem takenNotes_snoc : takenNotes (tr ++ [(inp, ev)]) = takenNotes tr ++ inp.note.toList :=
  Trace.filterMap_inputs_snoc _ _ _ _

theorem callbackResults_snoc :
    callbackResults (tr ++ [(inp, ev)]) = callbackResults tr ++ inp.result.toList :=
  Trace.filterMap_inputs_snoc _ _ _ _

theorem invokedCallbacks_snoc :
    invokedCallbacks (tr ++ [(inp, ev)]) = invokedCallbacks tr ++ ev.filterMap Event.callback :=
  Trace.filterMap_events_snoc _ _ _ _

theorem answerFrames_snoc :
    answerFrames (tr ++ [(inp, ev)]) = answerFrames tr ++ ev.filterMap Event.answer :=
  Trace.filterMap_events_snoc _ _ _ _

@[simp] theorem verdictsOf_append (fs fs' : List (List Byte)) :
    verdictsOf (fs ++ fs') = verdictsOf fs ++ verdictsOf fs' := by
  simp [verdictsOf]

@[simp] theorem verdictsOf_singleton (frame : List Byte) :
    verdictsOf [frame] = (verdictOf (ofList frame)).toList := by
  cases h : verdictOf (ofList frame) <;> simp [verdictsOf, h]

end

/-! ## One receiver -/

/-- The thread is in no handler, or at its end, or hands on a response. -/
def Thread.Silent : Thread → Prop
  | .parse p => (∃ ret, p = .done ret) ∨ ∃ msg, p = .responseNotify msg .done
  | .deinitTransport => False
  | _ => True

/-- How far a thread is with the notes `ns`, when callbacks have returned `rs`: the verdicts `owed`
are about to be sent. -/
inductive Attending (cb : CallbackTable) (ns : List Note) (rs : List CallbackResult) :
    Thread → List Callback → Prop
  | silent {th : Thread} (hth : th.Silent)
      (h : Serial.Progress (fun n : Note => cb n.callback.id) ns rs none) : Attending cb ns rs th []
  | invoking (n : Note) (msg : IcapMsg) (hmsg : noteOf msg = some n)
      (h : Serial.Progress (fun n : Note => cb n.callback.id) ns rs (some n)) :
      Attending cb ns rs
        (.parse (.callback n.callback fun r => .answer (n.handler.reply msg r))) []
  | answering (frame : List Byte) (hcarries : Carries verdictOf frame)
      (h : Serial.Progress (fun n : Note => cb n.callback.id) ns rs none) :
      Attending cb ns rs (.parse (.answer frame)) (verdictOf (ofList frame)).toList

/-- The thread has the steps `tr`: it has invoked the callbacks of the notes that are done, and
answered them if it could send. -/
structure Hears (cb : CallbackTable) (rpdev : Option U32) (tr : Trace Input Event) (th : Thread) :
    Prop where
  invoked : invokedCallbacks tr
    = ((noteOutcomes cb tr).filter fun a => a.2.isSome).map fun a => a.1.callback
  carries : ∀ frame ∈ answerFrames tr, Carries verdictOf frame
  attending : ∃ owed, Attending cb (takenNotes tr) (callbackResults tr) th owed ∧
    if rpdev.isSome then verdictsOf (answerFrames tr) ++ owed = (noteOutcomes cb tr).map verdictOn
    else answerFrames tr = []

/-- What the threads do not change while the instance is open. -/
structure Open (cb : CallbackTable) (rpdev : Option U32) (icap : Instance) : Prop where
  callbacks : icap.callbacks = some cb
  type : icap.type = .application
  rpdev : icap.transport.rpdev = rpdev

section

variable {bits : Nat} {cb : CallbackTable} {rpdev : Option U32} {icap icap' : Instance} {i : Nat}
  {th th' : Thread} {a : Action} {ev : List Event} {tr : Trace Input Event}

theorem Move.open (h : Move bits icap i th a icap' th' ev) (ha : a.opens = false)
    (ha' : a.closes = false) (hth : th ≠ .deinitTransport) (hopen : Open cb rpdev icap) :
    Open cb rpdev icap' := by
  cases h with
  | opened hopens =>
      rw [ha] at hopens
      cases hopens
  | closed hcloses | closing hcloses =>
      rw [ha'] at hcloses
      cases hcloses
  | deinitTransport => exact absurd rfl hth
  | _ => exact ⟨hopen.callbacks, hopen.type, hopen.rpdev⟩

@[simp] theorem useSkbs_callback (t : IcapTransport) (ks : List Nat) :
    (useSkbs t ks).filterMap Event.callback = [] := by
  simp [useSkbs, Event.callback, Function.comp_def]

@[simp] theorem useSkbs_answer (t : IcapTransport) (ks : List Nat) :
    (useSkbs t ks).filterMap Event.answer = [] := by
  simp [useSkbs, Event.answer, Function.comp_def]

/-- A thread in no handler stays so until a message comes. -/
theorem Move.silent (h : Move bits icap i th a icap' th' ev) (hth : th.Silent)
    (hopen : a.opens = false) (hclose : a.closes = false)
    (hreceive : ∀ srcAddr msg size, a ≠ .receive srcAddr msg size) :
    th'.Silent ∧ (⟨i, a⟩ : Input).note = none ∧ (⟨i, a⟩ : Input).result = none ∧
      ev.filterMap Event.callback = [] ∧ ev.filterMap Event.answer = [] := by
  cases h with
  | invoked | sentResponse => rcases hth with ⟨ret, heq⟩ | ⟨msg, heq⟩ <;> cases heq
  | received => exact absurd rfl (hreceive _ _ _)
  | opened hopens =>
      rw [hopen] at hopens
      cases hopens
  | closing hcloses | closed hcloses =>
      rw [hclose] at hcloses
      cases hcloses
  | deinitTransport => exact hth.elim
  | dropped | notified =>
      rcases hth with ⟨ret, heq⟩ | ⟨msg, heq⟩
      · cases heq
      · obtain ⟨-, rfl⟩ := Parse.responseNotify.inj heq
        exact ⟨Or.inl ⟨_, rfl⟩, rfl, rfl, useSkbs_callback _ _, useSkbs_answer _ _⟩
  | started =>
      rename_i sync _ _
      cases sync <;> exact ⟨trivial, rfl, rfl, rfl, rfl⟩
  | sent hev | sentAsync hev =>
      rcases hev with rfl | rfl <;> exact ⟨trivial, rfl, rfl, rfl, rfl⟩
  | result hused hev _ =>
      rcases hused with rfl | rfl <;> rcases hev with rfl | ⟨icapId, msgCmd, rfl⟩ <;>
        refine ⟨trivial, rfl, rfl, ?_, ?_⟩ <;> simp [Event.callback, Event.answer]
  | unlinked =>
      split_ifs <;> refine ⟨trivial, rfl, rfl, ?_, ?_⟩ <;> simp [Event.callback, Event.answer]
  | _ =>
      refine ⟨trivial, rfl, rfl, ?_, ?_⟩ <;> simp [Message.returns, Event.callback, Event.answer]

/-- An open application accepts a frame of the device. -/
theorem icapParseMsg_carries (hbits : 32 ≤ bits) (hopen : Open cb rpdev icap) {frame : List Byte}
    (hcarries : Carries noteOf frame) {msg : IcapMsg} (hm : Holds msg frame) (srcAddr : U32) :
    (icapParseMsg (linux bits) icap srcAddr msg (BitVec.ofNat 32 frame.length)).2
      = if IsResponse msg then .responseNotify msg .done
        else handle cb msg ((noteOf msg).map Note.handler) := by
  obtain ⟨cmd, type, seqNum, payload, rfl, hlen, htype⟩ := hcarries.built
  have hf := frameAt_of_holds hm
  have hsize : sizeMatches (linux bits) msg (BitVec.ofNat 32
      (icapMsgFrame cmd type seqNum payload).length) = true := by
    rw [icapMsgFrame_length]
    exact decide_eq_true (hf.size_eq hlen hbits)
  have hremote : ((linux bits).icapVerifyRemote icap.transport srcAddr).2 = 0 := rfl
  simp only [icapParseMsg, hopen.callbacks, hf.protocolVersion, ne_eq, not_true_eq_false, if_false,
    hsize, Bool.not_true, Bool.false_eq_true, hremote]
  by_cases hr : msg.type = ICAP_ACK ∨ msg.type = ICAP_NAK
  · have hr' : IsResponse msg := hr
    rw [if_pos hr, if_pos hr', hopen.type]
    rfl
  · have hr' : ¬ IsResponse msg := hr
    have hmsg : msg.type = ICAP_MSG := (hcarries.type hm).resolve_right hr
    rw [if_neg hr, if_neg hr', if_pos hmsg, hopen.type, ← applicationHandler_eq hmsg,
      ← icapApplicationParseMsg_eq]

/-! ## Steps of a receiver -/

/-- The thread takes no note, and invokes and answers nothing. -/
theorem Hears.quiet (h : Hears cb rpdev tr th) {inp : Input} (hnote : inp.note = none)
    (hresult : inp.result = none) (hcallback : ev.filterMap Event.callback = [])
    (hanswer : ev.filterMap Event.answer = [])
    (hattending : ∀ owed, Attending cb (takenNotes tr) (callbackResults tr) th owed →
      Attending cb (takenNotes tr) (callbackResults tr) th' owed) :
    Hears cb rpdev (tr ++ [(inp, ev)]) th' := by
  have hnotes : takenNotes (tr ++ [(inp, ev)]) = takenNotes tr := by
    rw [takenNotes_snoc, hnote, Option.toList_none, List.append_nil]
  have hresults : callbackResults (tr ++ [(inp, ev)]) = callbackResults tr := by
    rw [callbackResults_snoc, hresult, Option.toList_none, List.append_nil]
  have hframes : answerFrames (tr ++ [(inp, ev)]) = answerFrames tr := by
    rw [answerFrames_snoc, hanswer, List.append_nil]
  obtain ⟨owed, ha, hverdicts⟩ := h.attending
  constructor
  · rw [invokedCallbacks_snoc, hcallback, List.append_nil, noteOutcomes, hnotes, hresults]
    exact h.invoked
  · rw [hframes]
    exact h.carries
  · refine ⟨owed, ?_, ?_⟩
    · rw [hnotes, hresults]
      exact hattending owed ha
    · rw [hframes, noteOutcomes, hnotes, hresults]
      exact hverdicts

/-- A thread that is idle owes nothing. -/
theorem Hears.idle (h : Hears cb rpdev tr .idle) :
    Serial.Progress (fun n : Note => cb n.callback.id) (takenNotes tr) (callbackResults tr) none ∧
      if rpdev.isSome then verdictsOf (answerFrames tr) = (noteOutcomes cb tr).map verdictOn
      else answerFrames tr = [] := by
  obtain ⟨owed, ha, hverdicts⟩ := h.attending
  cases ha with
  | silent _ hprogress =>
      rw [List.append_nil] at hverdicts
      exact ⟨hprogress, hverdicts⟩

/-- The thread takes a note. -/
theorem Hears.take (h : Hears cb rpdev tr .idle) {inp : Input} {n : Note} {msg : IcapMsg}
    (hnote : inp.note = some n) (hresult : inp.result = none) (hmsg : noteOf msg = some n) :
    Hears cb rpdev (tr ++ [(inp, [])]) (.parse (handle cb msg (some n.handler))) := by
  obtain ⟨hprogress, hverdicts⟩ := h.idle
  have hnotes : takenNotes (tr ++ [(inp, [])]) = takenNotes tr ++ [n] := by
    rw [takenNotes_snoc, hnote, Option.toList_some]
  have hresults : callbackResults (tr ++ [(inp, [])]) = callbackResults tr := by
    rw [callbackResults_snoc, hresult, Option.toList_none, List.append_nil]
  have hframes : answerFrames (tr ++ [(inp, [])]) = answerFrames tr := by
    rw [answerFrames_snoc, List.filterMap_nil, List.append_nil]
  obtain ⟨htake, houtcomes⟩ := hprogress.take n
  have hinvoked : invokedCallbacks (tr ++ [(inp, [])]) = invokedCallbacks tr := by
    rw [invokedCallbacks_snoc, List.filterMap_nil, List.append_nil]
  have hc : n.handler.callback = n.callback := n.handler_callback
  by_cases hset : cb n.callback.id = true
  · rw [if_pos hset] at htake houtcomes
    rw [List.append_nil] at houtcomes
    have hout : noteOutcomes cb (tr ++ [(inp, [])]) = noteOutcomes cb tr := by
      rw [noteOutcomes, hnotes, hresults]
      exact houtcomes
    rw [handle, if_pos (by rw [hc]; exact hset), hc]
    refine ⟨?_, ?_, [], ?_, ?_⟩
    · rw [hinvoked, hout]
      exact h.invoked
    · rw [hframes]
      exact h.carries
    · rw [hnotes, hresults]
      exact .invoking n msg hmsg htake
    · rw [hframes, hout, List.append_nil]
      exact hverdicts
  -- a callback that is `NULL` is answered at once
  · rw [if_neg hset] at htake houtcomes
    have hout : noteOutcomes cb (tr ++ [(inp, [])]) = noteOutcomes cb tr ++ [(n, none)] := by
      rw [noteOutcomes, hnotes, hresults]
      exact houtcomes
    obtain ⟨hcarries, hread⟩ := carries_defaultReply hmsg
    rw [handle, if_neg (by rw [hc]; exact hset)]
    refine ⟨?_, ?_, (verdictOf (ofList (n.handler.defaultReply msg))).toList, ?_, ?_⟩
    · rw [hinvoked, hout, List.filter_append, List.map_append, h.invoked]
      exact (List.append_nil _).symm
    · rw [hframes]
      exact h.carries
    · rw [hnotes, hresults]
      exact .answering _ hcarries htake
    · rw [hframes, hout, hread, List.map_append]
      split_ifs at hverdicts ⊢ with hconnected
      · rw [hverdicts]
        rfl
      · exact hverdicts

/-- A frame of the device comes to an idle thread. -/
theorem Hears.receive (h : Hears cb rpdev tr .idle) (hbits : 32 ≤ bits)
    (hopen : Open cb rpdev icap) {srcAddr : U32} {msg : IcapMsg} {size : U32} {frame : List Byte}
    (hcarries : Carries noteOf frame) (hm : Holds msg frame)
    (hsize : size = BitVec.ofNat 32 frame.length) :
    Hears cb rpdev (tr ++ [(⟨i, .receive srcAddr msg size⟩, [])])
      (.parse (icapParseMsg (linux bits) icap srcAddr msg size).2) := by
  rw [hsize, icapParseMsg_carries hbits hopen hcarries hm]
  by_cases hr : IsResponse msg
  · have hnote : noteOf msg = none := noteOf_response fun htype => not_isResponse htype hr
    rw [if_pos hr]
    refine h.quiet hnote rfl rfl rfl fun owed ha => ?_
    cases ha with
    | silent _ hprogress => exact .silent (Or.inr ⟨msg, rfl⟩) hprogress
  · rw [if_neg hr]
    cases hn : noteOf msg with
    | some n => exact h.take hn rfl hn
    -- what is no note is refused, and a device reads no verdict in that
    | none =>
        have htype := (hcarries.type hm).resolve_right hr
        obtain ⟨hrefusal, hread⟩ := carries_refusal htype hn (-ICAP_ERROR_MSG_ID)
        refine h.quiet hn rfl rfl rfl fun owed ha => ?_
        cases ha with
        | silent _ hprogress =>
            have hanswering := Attending.answering _ hrefusal hprogress
            rw [hread] at hanswering
            exact hanswering

/-- The callback of the note returns. -/
theorem Hears.resume {c : Callback} {k : CallbackResult → Parse U32}
    (h : Hears cb rpdev tr (.parse (.callback c k))) (r : CallbackResult) :
    Hears cb rpdev (tr ++ [(⟨i, .callbackRet r⟩, [.invoked c])]) (.parse (k r)) := by
  obtain ⟨owed, ha, hverdicts⟩ := h.attending
  cases ha with
  | silent hth _ => rcases hth with ⟨ret, heq⟩ | ⟨msg, heq⟩ <;> cases heq
  | invoking n msg hmsg hprogress =>
      rw [List.append_nil] at hverdicts
      obtain ⟨hfinish, houtcomes⟩ := hprogress.finish r
      obtain ⟨hcarries, hread⟩ := carries_reply hmsg r
      have hnotes : takenNotes (tr ++ [(⟨i, .callbackRet r⟩, [.invoked n.callback])])
          = takenNotes tr := takenNotes_snoc.trans (List.append_nil _)
      have hresults : callbackResults (tr ++ [(⟨i, .callbackRet r⟩, [.invoked n.callback])])
          = callbackResults tr ++ [r] := callbackResults_snoc
      have hframes : answerFrames (tr ++ [(⟨i, .callbackRet r⟩, [.invoked n.callback])])
          = answerFrames tr := answerFrames_snoc.trans (List.append_nil _)
      have hout : noteOutcomes cb (tr ++ [(⟨i, .callbackRet r⟩, [.invoked n.callback])])
          = noteOutcomes cb tr ++ [(n, some r)] := by
        rw [noteOutcomes, hnotes, hresults]
        exact houtcomes
      refine ⟨?_, ?_, (verdictOf (ofList (n.handler.reply msg r))).toList, ?_, ?_⟩
      · rw [invokedCallbacks_snoc, hout, List.filter_append, List.map_append, h.invoked]
        rfl
      · rw [hframes]
        exact h.carries
      · rw [hnotes, hresults]
        exact .answering _ hcarries hfinish
      · rw [hframes, hout, hread, List.map_append]
        split_ifs at hverdicts ⊢ with hconnected
        · rw [hverdicts]
          rfl
        · exact hverdicts

/-- The answer is sent, if there is a remote device. -/
theorem Hears.send {frame : List Byte} {k : U32 → Parse U32}
    (h : Hears cb rpdev tr (.parse (.sendPlatform frame k))) (sendRet ret : U32) :
    Hears cb rpdev (tr ++ [(⟨i, .sendPlatform sendRet⟩,
      if rpdev.isSome then [.sentResponse frame] else [])]) (.parse (k ret)) := by
  obtain ⟨owed, ha, hverdicts⟩ := h.attending
  cases ha with
  | silent hth _ => rcases hth with ⟨ret, heq⟩ | ⟨msg, heq⟩ <;> cases heq
  | answering _ hcarries hprogress =>
      obtain ⟨ev, hev⟩ : ∃ ev : List Event,
          ev = if rpdev.isSome then [.sentResponse frame] else [] := ⟨_, rfl⟩
      have hnotes : takenNotes (tr ++ [(⟨i, .sendPlatform sendRet⟩, ev)]) = takenNotes tr :=
        takenNotes_snoc.trans (List.append_nil _)
      have hresults : callbackResults (tr ++ [(⟨i, .sendPlatform sendRet⟩, ev)])
          = callbackResults tr := callbackResults_snoc.trans (List.append_nil _)
      have hout : noteOutcomes cb (tr ++ [(⟨i, .sendPlatform sendRet⟩, ev)])
          = noteOutcomes cb tr := by
        rw [noteOutcomes, hnotes, hresults, noteOutcomes]
      have hdone : Attending cb (takenNotes (tr ++ [(⟨i, .sendPlatform sendRet⟩, ev)]))
          (callbackResults (tr ++ [(⟨i, .sendPlatform sendRet⟩, ev)])) (.parse (.done 0)) [] := by
        rw [hnotes, hresults]
        exact .silent (Or.inl ⟨0, rfl⟩) hprogress
      rw [← hev]
      by_cases hconnected : rpdev.isSome = true
      · rw [if_pos hconnected] at hev hverdicts
        subst hev
        refine ⟨?_, ?_, [], hdone, ?_⟩
        · rw [invokedCallbacks_snoc, hout, h.invoked]
          exact List.append_nil _
        · rw [answerFrames_snoc]
          exact List.forall_mem_append.mpr ⟨h.carries, List.forall_mem_singleton.mpr hcarries⟩
        · rw [if_pos hconnected, answerFrames_snoc, hout, verdictsOf_append, List.append_nil,
            ← hverdicts]
          exact congrArg _ (verdictsOf_singleton frame)
      · rw [if_neg hconnected] at hev hverdicts
        subst hev
        refine ⟨?_, ?_, [], hdone, ?_⟩
        · rw [invokedCallbacks_snoc, hout, h.invoked]
          exact List.append_nil _
        · rw [answerFrames_snoc]
          exact List.forall_mem_append.mpr ⟨h.carries, List.forall_mem_nil _⟩
        · rw [if_neg hconnected, answerFrames_snoc, hverdicts]
          rfl

/-! ## Runs -/

theorem Hears.not_deinit (h : Hears cb rpdev tr th) : th ≠ .deinitTransport := by
  rintro rfl
  obtain ⟨owed, ha, -⟩ := h.attending
  cases ha with
  | silent hth _ => exact hth

/-- A receiver with an answer does nothing but send it. -/
theorem stepThread_answer {frame : List Byte} {k : U32 → Parse U32}
    (h : stepThread bits icap i (.parse (.sendPlatform frame k)) a = some (icap', th', ev)) :
    ∃ sendRet ret, a = .sendPlatform sendRet ∧ th' = .parse (k ret) ∧
      ev = if icap.transport.rpdev.isSome then [.sentResponse frame] else [] := by
  cases a with
  | sendPlatform sendRet =>
      obtain ⟨-, rfl, rfl⟩ := Option.some.inj h
      exact ⟨sendRet, _, rfl, rfl, rfl⟩
  | _ => cases h

/-- The threads hear what comes to them. -/
structure Listens (cb : CallbackTable) (rpdev : Option U32) (tr : Trace Input Event) (s : State) :
    Prop where
  opened : Open cb rpdev s.icap
  hears : ∀ i, Hears cb rpdev (ofThread i tr) (s.threads i)

/-- One step of a receiver. -/
theorem Hears.of_step (h : Hears cb rpdev tr th) (hbits : 32 ≤ bits) (hopen : Open cb rpdev icap)
    {tr₀ : Trace Input Event} {s₀ : State} (hheard : Heard tr₀ s₀ ⟨i, a⟩)
    (hstep : stepThread bits icap i th a = some (icap', th', ev)) :
    Hears cb rpdev (tr ++ [(⟨i, a⟩, ev)]) th' := by
  have hmove := stepThread_move hstep
  obtain ⟨owed, ha, -⟩ := h.attending
  cases ha with
  | silent hth hprogress =>
      by_cases hreceive : ∃ srcAddr msg size, a = .receive srcAddr msg size
      · obtain ⟨srcAddr, msg, size, rfl⟩ := hreceive
        obtain ⟨frame, hcarries, hm, hsize⟩ := hheard
        cases hmove with
        | received => exact h.receive hbits hopen hcarries hm hsize
        | opened hopens => cases hopens
        | closed hcloses | closing hcloses => cases hcloses
      · have hkeeps : a.opens = false ∧ a.closes = false := by
          cases a with
          | receive srcAddr msg size => exact absurd ⟨srcAddr, msg, size, rfl⟩ hreceive
          | _ => exact hheard
        obtain ⟨hth', hnote, hresult, hcallback, hanswer⟩ := hmove.silent hth hkeeps.1 hkeeps.2
          fun srcAddr msg size ha => hreceive ⟨srcAddr, msg, size, ha⟩
        refine h.quiet hnote hresult hcallback hanswer fun owed' ha' => ?_
        cases ha' with
        | silent _ hprogress' => exact .silent hth' hprogress'
        | invoking => rcases hth with ⟨ret, heq⟩ | ⟨msg, heq⟩ <;> cases heq
        | answering => rcases hth with ⟨ret, heq⟩ | ⟨msg, heq⟩ <;> cases heq
  | invoking n msg _ _ =>
      cases hmove with
      | invoked => exact h.resume _
  | answering frame _ _ =>
      obtain ⟨sendRet, ret, rfl, rfl, rfl⟩ := stepThread_answer hstep
      rw [hopen.rpdev]
      exact h.send sendRet ret

theorem Listens.of_step {s s' : State} {inp : Input} (h : Listens cb rpdev tr s)
    (hbits : 32 ≤ bits) (hheard : Heard tr s inp) (hstep : step bits s inp = some (s', ev)) :
    Listens cb rpdev (tr ++ [(inp, ev)]) s' := by
  obtain ⟨⟨icap', th', ev'⟩, hs, heq⟩ := Option.map_eq_some_iff.mp hstep
  obtain ⟨rfl, rfl⟩ := Prod.mk.inj heq
  have hself := h.hears inp.thread
  have hclear : inp.action.opens = false ∧ inp.action.closes = false := by
    unfold Heard at hheard
    split at hheard
    · rename_i heq'
      rw [heq']
      exact ⟨rfl, rfl⟩
    · exact hheard
  constructor
  · exact (stepThread_move hs).open hclear.1 hclear.2 hself.not_deinit h.opened
  · intro j
    by_cases hj : j = inp.thread
    · subst hj
      rw [ofThread_snoc_self]
      show Hears cb rpdev _ (Function.update s.threads inp.thread th' inp.thread)
      rw [Function.update_self]
      exact hself.of_step hbits h.opened hheard hs
    -- a step of another thread is not seen
    · rw [ofThread_snoc_other hj]
      show Hears cb rpdev _ (Function.update s.threads inp.thread th' j)
      rw [Function.update_of_ne hj]
      exact h.hears j

theorem opened_listens (bits : Nat) (rpdev : Option U32) (name : Nat) (cb : CallbackTable)
    (priv : Nat) : Listens cb rpdev [] (State.opened bits rpdev name cb priv) where
  opened := ⟨rfl, rfl, rfl⟩
  hears _ := by
    refine ⟨rfl, List.forall_mem_nil _, [], .silent trivial (.idle rfl), ?_⟩
    split_ifs <;> rfl

theorem run_hears (hbits : 32 ≤ bits) {name priv : Nat} {s : State}
    (hrun : (machine bits).Run Heard (State.opened bits rpdev name cb priv) tr s) :
    Listens cb rpdev tr s := by
  refine hrun.invariant (opened_listens bits rpdev name cb priv) ?_
  rintro tr s s' inp ev - h hheard hstep
  exact h.of_step hbits hheard hstep

/-! ## All receivers -/

/-- The notes taken, each with the thread that has taken it. -/
def notesByThread (tr : Trace Input Event) : List (Nat × Note) :=
  Serial.tagged (fun x => x.1.thread) (fun x => x.1.note.toList) tr

/-- The verdicts sent, each with the thread that has sent it. -/
def verdictsByThread (tr : Trace Input Event) : List (Nat × Callback) :=
  Serial.tagged (fun x => x.1.thread) (fun x => verdictsOf (x.2.filterMap Event.answer)) tr

theorem takenNotes_eq_flatMap (tr : Trace Input Event) :
    takenNotes tr = tr.flatMap fun x => x.1.note.toList := by
  induction tr with
  | nil => rfl
  | cons x tr ih =>
      rw [List.flatMap_cons, ← ih]
      cases h : x.1.note <;> simp [takenNotes, Trace.inputs, h]

theorem verdictsOf_answerFrames (tr : Trace Input Event) :
    verdictsOf (answerFrames tr) = tr.flatMap fun x => verdictsOf (x.2.filterMap Event.answer) := by
  induction tr with
  | nil => rfl
  | cons x tr ih =>
      have hcons : answerFrames (x :: tr) = x.2.filterMap Event.answer ++ answerFrames tr :=
        List.filterMap_append
      rw [List.flatMap_cons, ← ih, hcons, verdictsOf_append]

theorem part_notesByThread (i : Nat) (tr : Trace Input Event) :
    Serial.part i (notesByThread tr) = takenNotes (ofThread i tr) := by
  rw [notesByThread, Serial.part_tagged, takenNotes_eq_flatMap]
  rfl

theorem part_verdictsByThread (i : Nat) (tr : Trace Input Event) :
    Serial.part i (verdictsByThread tr) = verdictsOf (answerFrames (ofThread i tr)) := by
  rw [verdictsByThread, Serial.part_tagged, verdictsOf_answerFrames]
  rfl

/-- A thread has sent its verdicts in order, all but the last one perhaps. -/
theorem Hears.verdicts (h : Hears cb rpdev tr th) :
    verdictsOf (answerFrames tr) <+: (noteOutcomes cb tr).map verdictOn := by
  obtain ⟨owed, -, hverdicts⟩ := h.attending
  split_ifs at hverdicts
  · rw [← hverdicts]
    exact List.prefix_append _ _
  · rw [hverdicts]
    exact List.nil_prefix

/-- The verdicts sent are for different notes, those of a thread for what it has made of its notes,
in order. -/
theorem Listens.verdicts {s : State} (h : Listens cb rpdev tr s) :
    ∃ as : List (Nat × (Note × Option CallbackResult)),
      as.map (fun a => verdictOn a.2) = verdictsOf (answerFrames tr) ∧
      (as.map fun a => a.2.1).Subperm (takenNotes tr) ∧
      ∀ i, Serial.part i as <+: noteOutcomes cb (ofThread i tr) := by
  have hshown (i : Nat) : Serial.part i (verdictsByThread tr)
      <+: (Serial.outcomes (fun n : Note => cb n.callback.id)
        (Serial.part i (notesByThread tr)) (callbackResults (ofThread i tr))).map verdictOn := by
    rw [part_verdictsByThread, part_notesByThread]
    exact (h.hears i).verdicts
  obtain ⟨as, hlog, hnotes, hdone⟩ := Serial.exists_outcomes hshown
  refine ⟨as, ?_, ?_, fun i => ?_⟩
  · have hsnd := congrArg (List.map Prod.snd) hlog
    rwa [List.map_map, verdictsByThread, Serial.tagged_snd, ← verdictsOf_answerFrames] at hsnd
  · rwa [notesByThread, Serial.tagged_snd, ← takenNotes_eq_flatMap] at hnotes
  · have hpart := hdone i
    rwa [part_notesByThread] at hpart

/-- Every answer is that of a thread. -/
theorem Listens.carries {s : State} (h : Listens cb rpdev tr s) {frame : List Byte}
    (hframe : .sentResponse frame ∈ tr.events) : Carries verdictOf frame := by
  obtain ⟨⟨⟨i, a⟩, ev⟩, hx, hev⟩ := List.mem_flatMap.mp hframe
  refine (h.hears i).carries frame (List.mem_filterMap.mpr ⟨_, List.mem_flatMap.mpr
    ⟨_, List.mem_filter.mpr ⟨hx, ?_⟩, hev⟩, rfl⟩)
  exact decide_eq_true rfl

end

end Icap.Linux
