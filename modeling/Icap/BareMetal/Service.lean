import Icap.BareMetal.Link
import Icap.BareMetal.Serving

set_option autoImplicit false

/-! # A device on its own

A device to which the frames of an application come, over whatever transport (`Fed`). The messages
it has parsed and those that wait are among those handed to `icap_put_msg`, in order, since a full
fifo refuses some. It serves the requests it has parsed, and sends notifications and responses
(`run_attends`).
-/

namespace Icap.BareMetal

open ByteMemory RingBuffer Transition

/-- The message of a receive interrupt. -/
def Input.put : Input → Option IcapRemoteMsg
  | .putMsg m => some m
  | _ => none

/-- The messages handed to `icap_put_msg`. -/
def putMsgs (tr : Trace Input Event) : List IcapRemoteMsg := tr.inputs.filterMap Input.put

/-- What the callbacks have returned. -/
def callbackResults (tr : Trace Input Event) : List CallbackResult :=
  tr.inputs.filterMap Input.callbackResult

/-- The device calls device functions, no callback calls `icap_loop`, what comes are frames of the
application, and the instance stays initialised. -/
def Fed (peer : U32) (_ : Trace Input Event) (s : State) : Input → Prop
  | .call c _ _ _ => c.sync = false
  | .loop _ => loopTails s.stack = []
  | .putMsg m => ∃ frame, Asks frame ∧ FromPeer peer frame m
  | i => i.lifecycle = false

/-- After `icap_device_init`. -/
def deviceStart (rpmsg : Nat × Nat) (name priv : Nat) (cb : CallbackTable) : State :=
  ⟨(icapDeviceInit bareMetal (zeroedInstance rpmsg.1 rpmsg.2) name (some cb) priv).1, []⟩

/-- A frame that a device sends. -/
def DeviceFrame (frame : List Byte) : Prop :=
  ResponseFrame frame ∨ ∃ (n : Note) (seqNum : U32),
    frame = icapMsgFrame n.cmd ICAP_MSG seqNum n.payload

theorem DeviceFrame.carries {frame : List Byte} (h : DeviceFrame frame) :
    Carries replyOf frame := by
  rcases h with h | ⟨n, seqNum, rfl⟩
  · exact h.carries_reply.1
  · exact (carries_reply_note n seqNum).1

theorem DeviceFrame.carries_note {frame : List Byte} (h : DeviceFrame frame) :
    Carries noteOf frame := by
  rcases h with ⟨cmd, type, seqNum, payload, htype, hlen, -, rfl⟩ | ⟨n, seqNum, rfl⟩
  · exact (carries_answer hlen htype).1
  · exact (Icap.carries_note n seqNum).1

/-! ## What a device sends -/

/-- The frames sent are frames of a device, and the handlers in a callback will send responses. -/
structure Speaks (s : State) (es : List HandlerEvent) : Prop where
  frames : ∀ frame ∈ sentFrames es, DeviceFrame frame
  pending : ∀ k ∈ pendingHandlers s.stack, ∀ r, (k r).SendsResponses

section

variable {Q : Nat} {cb : CallbackTable} {peer : U32} {s s' : State} {i : Input} {ev : List Event}
  {es : List HandlerEvent} {tr : Trace Input Event}

theorem outcome_sendsResponses {p : Parse U32} (h : p.SendsResponses) (sendRet : U32) :
    (∀ frame ∈ sentFrames (outcome sendRet p).1, ResponseFrame frame) ∧
      ∀ k ∈ (outcome sendRet p).2, ∀ r, (k r).SendsResponses := by
  induction p with
  | done ret => exact ⟨List.forall_mem_nil _, by simp [outcome]⟩
  | callback c k _ =>
      refine ⟨List.forall_mem_nil _, fun k' hk' => ?_⟩
      obtain rfl : k = k' := Option.some.inj hk'
      exact h
  | sendPlatform frame k ih =>
      obtain ⟨hframes, hpending⟩ := ih sendRet (h.2 sendRet)
      exact ⟨List.forall_mem_cons.mpr ⟨h.1, hframes⟩, hpending⟩
  | responseNotify response k ih => exact ih 0 (h 0)

theorem Speaks.add (h : Speaks s es) {es' : List HandlerEvent}
    (hframes : ∀ frame ∈ sentFrames es', DeviceFrame frame)
    (hpending : ∀ k ∈ pendingHandlers s'.stack, ∀ r, (k r).SendsResponses) :
    Speaks s' (es ++ es') := by
  refine ⟨?_, hpending⟩
  rw [sentFrames_append]
  exact List.forall_mem_append.mpr ⟨h.frames, hframes⟩

theorem Speaks.of_step (h : Speaks s es)
    (hcall : ∀ c now sendRet uninit, i = .call c now sendRet uninit → c.sync = false)
    (hstep : Handling Q s i s' ev) : Speaks s' (es ++ handlerEvents ev) := by
  cases hstep with
  | quiet _ _ hev hpending _ =>
      rw [hev]
      exact h.add (List.forall_mem_nil _) (by rw [hpending]; exact h.pending)
  | call c now sendRet uninit frame hi hreq hev hpending _ =>
      obtain ⟨note, -, rfl⟩ := request_note (hcall c now sendRet uninit hi) hreq
      rw [hev]
      exact h.add (List.forall_mem_singleton.mpr (Or.inr ⟨note, _, rfl⟩))
        (by rw [hpending]; exact h.pending)
  | parse sendRet msg icap p henter hne hmsg hp hev hpending _ =>
      have hp' : p.SendsResponses := by
        have hall := icapParseMsg_sendsResponses bareMetal s.icap msg.srcAddr msg.data.mem msg.size
        rwa [hp] at hall
      obtain ⟨hframes, hrest⟩ := outcome_sendsResponses hp' sendRet
      rw [hev]
      refine h.add (fun frame hframe => Or.inl (hframes frame hframe)) ?_
      rw [hpending]
      exact List.forall_mem_append.mpr ⟨fun k hk => hrest k (Option.mem_toList.mp hk), h.pending⟩
  | resume r sendRet k rest hi hk hev hpending _ =>
      have hall := h.pending
      rw [hk] at hall
      obtain ⟨hk', hrest'⟩ := List.forall_mem_cons.mp hall
      obtain ⟨hframes, hrest⟩ := outcome_sendsResponses (hk' r) sendRet
      rw [hev]
      refine h.add (fun frame hframe => Or.inl (hframes frame hframe)) ?_
      rw [hpending]
      exact List.forall_mem_append.mpr ⟨fun k hk => hrest k (Option.mem_toList.mp hk), hrest'⟩

/-- The instance hears nobody but the peer. -/
theorem Linked.of_handling (h : Linked cb .device peer s.icap)
    (hmsg : entersLoop i = true → s.fifo.tail ≠ s.fifo.head → ∃ frame, Asks frame ∧
      FromPeer peer frame (s.fifo.slot (indexNext Q s.fifo.tail)))
    (hstep : Handling Q s i s' ev) : Linked cb .device peer s'.icap := by
  cases hstep with
  | quiet _ _ _ _ hid => exact h.of_identity hid
  | call _ _ _ _ _ _ _ _ _ hid => exact h.of_identity hid
  | resume _ _ _ _ _ _ _ _ hid => exact h.of_identity hid
  | parse sendRet msg icap p henter hne hslot hp _ _ hid =>
      obtain ⟨frame, hasks, hfrom⟩ := hmsg henter hne
      rw [← hslot] at hfrom
      obtain ⟨icap', hp', hlinked⟩ := icapParseMsg_fromPeer h hasks.carries hfrom
      rw [hp'] at hp
      obtain ⟨rfl, -⟩ := Prod.mk.inj hp
      exact hlinked.of_identity hid

/-! ## The fifo -/

/-- A step holds the message of its interrupt, or none. -/
theorem held_sublist_put (h : step Q s i = some (s', ev)) :
    ((queueEvents ev).filterMap QueueEvent.held).Sublist i.put.toList := by
  by_cases hput : ∀ m, i ≠ .putMsg m
  · rw [held_of_not_put h hput]
    exact List.nil_sublist _
  · obtain ⟨m, hm⟩ := not_forall_not.mp hput
    subst hm
    simp only [step, Option.some.injEq, Prod.mk.injEq] at h
    obtain ⟨-, rfl⟩ := h
    cases hverdict : (icapPutMsg Q s.icap m).2 with
    | hold => exact List.Sublist.refl _
    | noBuff | error => exact List.nil_sublist _

/-- The message that `icap_loop` parses next is the first one that waits. -/
theorem slot_mem_waiting (hs : Sound Q s) (hQ : Q < 2 ^ 16) (hidle : loopTails s.stack = [])
    (hne : s.fifo.tail ≠ s.fifo.head) : s.fifo.slot (indexNext Q s.fifo.tail) ∈ waiting Q s := by
  have hb : busy s = false := by rw [busy, hidle]; rfl
  rw [waiting, hb, if_neg (by decide), hs.valid.contents_cons hne, indexNext_eq hQ hs.valid.tail_lt]
  exact List.mem_cons_self

/-! ## Runs -/

structure Attends (Q : Nat) (cb : CallbackTable) (peer : U32) (tr : Trace Input Event) (s : State) :
    Prop where
  sound : Sound Q s
  outside : WaitsOutside s
  linked : Linked cb .device peer s.icap
  queued : (parsedMsgs (handlerEvents tr.events) ++ waiting Q s).Sublist (putMsgs tr)
  fed : ∀ m ∈ putMsgs tr, ∃ frame, Asks frame ∧ FromPeer peer frame m
  speaks : Speaks s (handlerEvents tr.events)
  serves : ServesRequests cb s (handlerEvents tr.events) (callbackResults tr)

theorem Fed.mayStep (h : Fed peer tr s i) (hout : WaitsOutside s)
    (hstep : step Q s i = some (s', ev)) : MayStep .device s i := by
  cases i with
  | putMsg m => exact mayStep_putMsg .device s m
  | applicationInit _ _ _ | applicationDeinit | deviceInit _ _ _ | deviceDeinit => cases h
  | call c now sendRet uninit =>
      refine ⟨rfl, nofun, ?_, ?_⟩
      · rintro c' now' sendRet' uninit' ⟨⟩ hsync
        rw [show c.sync = false from h] at hsync
        cases hsync
      · rintro - c' now' sendRet' uninit' ⟨⟩
        exact h
  | loop sendRet => exact ⟨rfl, fun _ => h, nofun, fun _ => nofun⟩
  | pass sendRet => exact ⟨rfl, fun _ => hout.pass hstep, nofun, fun _ => nofun⟩
  | clock now => exact ⟨rfl, nofun, nofun, fun _ => nofun⟩
  | callbackRet r sendRet => exact ⟨rfl, nofun, nofun, fun _ => nofun⟩

theorem putMsgs_snoc : putMsgs (tr ++ [(i, ev)]) = putMsgs tr ++ i.put.toList :=
  Trace.filterMap_inputs_snoc _ _ _ _

theorem callbackResults_snoc :
    callbackResults (tr ++ [(i, ev)]) = callbackResults tr ++ i.callbackResult.toList :=
  Trace.filterMap_inputs_snoc _ _ _ _

theorem Attends.of_step (h : Attends Q cb peer tr s) (hQ : Q < 2 ^ 16) (hfed : Fed peer tr s i)
    (hstep : step Q s i = some (s', ev)) : Attends Q cb peer (tr ++ [(i, ev)]) s' := by
  have hmay := hfed.mayStep h.outside hstep
  have hopen : opensTransport s i = false := by
    have hlife := hmay.lifecycle
    cases i <;> first | rfl | cases hlife
  have hhandling := step_handling hmay.lifecycle hstep
  obtain ⟨hsound, hfifo⟩ := h.sound.of_step hQ hmay.loop (by simp [hopen]) hstep
  have hwait := h.sound.waiting_step hfifo
  rw [← parsedMsgs_eq] at hwait
  -- what `icap_loop` parses next has come from the application
  have hnext (henter : entersLoop i = true) (hne : s.fifo.tail ≠ s.fifo.head) :=
    h.fed _ (h.queued.mem (List.mem_append_right _
      (slot_mem_waiting h.sound hQ (hmay.loop henter) hne)))
  have hput : ∀ m ∈ i.put.toList, ∃ frame, Asks frame ∧ FromPeer peer frame m := by
    intro m hm
    cases i with
    | putMsg m' =>
        obtain rfl : m = m' := List.mem_singleton.mp hm
        exact hfed
    | _ => cases hm
  constructor
  · exact hsound
  · exact h.outside.of_step hmay.lifecycle hmay.outside hmay.loop hstep
  · exact h.linked.of_handling hnext hhandling
  · rw [Trace.events_append, Trace.events_singleton, handlerEvents_append, parsedMsgs_append,
      putMsgs_snoc, List.append_assoc, ← hwait, ← List.append_assoc]
    exact h.queued.append (held_sublist_put hstep)
  · rw [putMsgs_snoc]
    exact List.forall_mem_append.mpr ⟨h.fed, hput⟩
  · rw [Trace.events_append, Trace.events_singleton, handlerEvents_append]
    exact h.speaks.of_step (hmay.device rfl) hhandling
  · rw [Trace.events_append, Trace.events_singleton, handlerEvents_append, callbackResults_snoc]
    exact h.serves.of_step h.linked (hmay.device rfl) hmay.loop hnext hhandling

theorem deviceStart_attends (hQ : 0 < Q) (rpmsg : Nat × Nat) (name priv : Nat) :
    Attends Q cb peer [] (deviceStart rpmsg name priv cb) where
  sound := ⟨zero_valid hQ, Or.inl rfl⟩
  outside := rfl
  linked := ⟨-1, rfl, Or.inl rfl⟩
  queued := by
    have hempty := (zero_valid hQ).contents_eq_nil.mpr rfl
    have hwait : waiting Q (deviceStart rpmsg name priv cb) = [] := hempty
    rw [hwait]
    exact List.Sublist.refl _
  fed := List.forall_mem_nil _
  speaks := ⟨List.forall_mem_nil _, List.forall_mem_nil _⟩
  serves := .start cb

theorem run_attends (hQ0 : 0 < Q) (hQ : Q < 2 ^ 16) {rpmsg : Nat × Nat} {name priv : Nat}
    (hrun : (machine Q).Run (Fed peer) (deviceStart rpmsg name priv cb) tr s) :
    Attends Q cb peer tr s := by
  refine hrun.invariant (deviceStart_attends hQ0 rpmsg name priv) ?_
  rintro tr s s' i ev - h hfed hstep
  exact h.of_step hQ hfed hstep

/-! ## Notifications and verdicts -/

/-- The notes the device has sent. -/
def notifiedNotes (tr : Trace Input Event) : List Note := tr.inputs.filterMap Input.note

/-- What comes to a device of an application that answers notes. -/
def FedVerdicts (peer : U32) (tr : Trace Input Event) (s : State) (i : Input) : Prop :=
  Fed peer tr s i ∧ ∀ m ∈ i.put.toList, ∃ frame, Carries verdictOf frame ∧ FromPeer peer frame m

theorem notifiedNotes_snoc :
    notifiedNotes (tr ++ [(i, ev)]) = notifiedNotes tr ++ i.note.toList :=
  Trace.filterMap_inputs_snoc _ _ _ _

theorem run_hearsVerdicts (hQ0 : 0 < Q) (hQ : Q < 2 ^ 16) {rpmsg : Nat × Nat} {name priv : Nat}
    (hrun : (machine Q).Run (FedVerdicts peer) (deviceStart rpmsg name priv cb) tr s) :
    HearsVerdicts cb s (handlerEvents tr.events) (notifiedNotes tr) ∧
      ∀ m ∈ putMsgs tr, ∃ frame, Carries verdictOf frame ∧ FromPeer peer frame m := by
  refine hrun.invariant (I := fun tr s =>
    HearsVerdicts cb s (handlerEvents tr.events) (notifiedNotes tr) ∧
      ∀ m ∈ putMsgs tr, ∃ frame, Carries verdictOf frame ∧ FromPeer peer frame m) ?_ ?_
  · exact ⟨⟨rfl, rfl, List.forall_mem_nil _, List.forall_mem_nil _⟩, List.forall_mem_nil _⟩
  rintro tr s s' i ev hr ⟨h, hput⟩ ⟨hfed, hverdict⟩ hstep
  have hattends := run_attends hQ0 hQ (hr.mono fun _ _ _ hok => hok.1)
  have hmay := hfed.mayStep hattends.outside hstep
  have hnext (henter : entersLoop i = true) (hne : s.fifo.tail ≠ s.fifo.head) :=
    hput _ (hattends.queued.mem (List.mem_append_right _
      (slot_mem_waiting hattends.sound hQ (hmay.loop henter) hne)))
  constructor
  · rw [Trace.events_append, Trace.events_singleton, handlerEvents_append, notifiedNotes_snoc]
    exact (h.of_step hattends.linked (hmay.device rfl) hnext
      (step_handling hmay.lifecycle hstep)).2
  · rw [putMsgs_snoc]
    exact List.forall_mem_append.mpr ⟨hput, hverdict⟩

end

end Icap.BareMetal
