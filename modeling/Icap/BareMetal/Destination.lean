import Icap.BareMetal.Acceptance
import Icap.BareMetal.Notifications
import Icap.BareMetal.Reentry

set_option autoImplicit false

/-! # Where frames are sent

`icap_send_platform` sends to `remote_addr`, which `icap_init_transport` sets to -1 and only
the remote check of `icap_parse_msg` overwrites. A handler answers after that check; the
program can send at any time, and a callback can open the transport again before its message is
answered. Over any run from an init, every frame goes to the peer exactly when no call
sends and no handler goes on to its answer while no peer is known (`sends_to_peer_iff`).
-/

namespace Icap.BareMetal

open ByteMemory RingBuffer Transition

/-! ## Destinations -/

def Event.destination : Event → Option U32
  | .sent _ _ remoteAddr _ => some remoteAddr
  | _ => none

def destinations (ev : List Event) : List U32 := ev.filterMap Event.destination

@[simp] theorem destinations_append (ev ev' : List Event) :
    destinations (ev ++ ev') = destinations ev ++ destinations ev' := by
  simp [destinations]

/-- Frames are accepted from the endpoint `addr` and from no other. -/
def Listens (t : IcapTransport) (addr : U32) : Prop :=
  ∀ srcAddr, (icapVerifyRemote t srcAddr).2 = 0 ↔ srcAddr = addr

abbrev State.remoteAddr (s : State) : U32 := s.icap.transport.remoteAddr

/-- What the last step has sent went to the peer. -/
def SendsToPeer (tr : Trace Input Event) (s : State) : Prop :=
  ∀ e ∈ tr.getLast?, ∀ addr ∈ destinations e.2, addr ≠ -1 ∧ Listens s.icap.transport addr

/-- An instance that knows its peer listens to it; one that does not listens to all. -/
theorem listens_iff {t : IcapTransport} {addr : U32} :
    Listens t addr ↔ t.remoteAddr ≠ -1 ∧ addr = t.remoteAddr := by
  simp only [Listens, icapVerifyRemote_ok]
  constructor
  · intro h
    have hknown : t.remoteAddr ≠ -1 := by
      intro hnone
      -- every source would be accepted, so both 0 and 1 would be `addr`
      have h0 : (0 : U32) = addr := (h 0).mp (Or.inr hnone)
      have h1 : (1 : U32) = addr := (h 1).mp (Or.inr hnone)
      exact absurd (h0.trans h1.symm) (by decide)
    exact ⟨hknown, ((h t.remoteAddr).mp (Or.inl rfl)).symm⟩
  · rintro ⟨hknown, rfl⟩ srcAddr
    exact ⟨fun h => h.resolve_right hknown, Or.inl⟩

/-! ## Which steps send -/

/-- The handler sends before its next callback. -/
def sendsNext : Parse U32 → Bool
  | .done _ => false
  | .callback _ _ => false
  | .sendPlatform _ _ => true
  | .responseNotify _ k => sendsNext (k 0)

/-- The program sends, or the handler whose callback returns does. -/
def transmits (s : State) : Input → Bool
  | .call c _ _ _ => (c.request (s.icap.seqNum + 1)).isSome
  | .callbackRet r _ =>
      match pendingHandlers s.stack with
      | k :: _ => sendsNext (k r)
      | [] => false
  | _ => false

theorem sendsNext_iff (sendRet : U32) (p : Parse U32) :
    sendsNext p = true ↔ sentFrames (outcome sendRet p).1 ≠ [] := by
  induction p with
  | done ret => simp [sendsNext, outcome, sentFrames]
  | callback c k _ => simp [sendsNext, outcome, sentFrames, HandlerEvent.frame]
  | sendPlatform frame k _ => simp [sendsNext, outcome, sentFrames, HandlerEvent.frame]
  | responseNotify response k ih => exact ih 0

/-! ## The destination of a step -/

/-- The frames of the events have the destination `addr`. -/
def SentTo (addr : U32) (ev : List Event) : Prop :=
  destinations ev = (sentFrames (handlerEvents ev)).map fun _ => addr

theorem SentTo.append {addr : U32} {ev ev' : List Event} (h : SentTo addr ev)
    (h' : SentTo addr ev') : SentTo addr (ev ++ ev') := by
  unfold SentTo at h h' ⊢
  calc destinations (ev ++ ev')
      = ((sentFrames (handlerEvents ev)).map fun _ => addr)
          ++ (sentFrames (handlerEvents ev')).map fun _ => addr := by
        rw [destinations_append, h, h']
    _ = (sentFrames (handlerEvents (ev ++ ev'))).map fun _ => addr := by
        rw [handlerEvents_append, sentFrames_append, List.map_append]

theorem SentTo.mem {addr addr' : U32} {ev : List Event} (h : SentTo addr ev)
    (haddr : addr' ∈ destinations ev) : addr' = addr := by
  rw [h] at haddr
  obtain ⟨-, -, rfl⟩ := List.mem_map.mp haddr
  rfl

/-- The frames sent are as many as the handler's and the program's. -/
theorem SentTo.eq_nil_iff {addr : U32} {ev : List Event} (h : SentTo addr ev) :
    destinations ev = [] ↔ sentFrames (handlerEvents ev) = [] := by
  rw [h, List.map_eq_nil_iff]

theorem runParse_sentTo (sendRet : U32) (t : IcapTransport) (p : Parse U32) :
    SentTo t.remoteAddr (runParse sendRet t p).2.1 := by
  -- a handler does not touch the remote address
  induction p generalizing t with
  | done ret => rfl
  | callback c k _ => rfl
  | sendPlatform frame k ih => exact congrArg (t.remoteAddr :: ·) (ih sendRet t)
  | responseNotify response k ih => exact ih _ _

theorem loopReturn_sentTo (addr : U32) (icap : Instance) (ret : U32) (stack : List Activation) :
    SentTo addr (loopReturn icap ret stack).2 := by
  rcases loopReturn_cases icap ret stack with
    ⟨w, rest, rfl, -, h⟩ | ⟨w, rest, rfl, -, h⟩ | ⟨-, h⟩ <;> rw [h] <;> rfl

theorem loopParse_sentTo (icap : Instance) (tailNext : Nat) (sendRet : U32)
    (stack : List Activation) (p : Parse U32) :
    SentTo icap.transport.remoteAddr (loopParse icap tailNext sendRet stack p).2 := by
  have hto := runParse_sentTo sendRet icap.transport p
  unfold loopParse
  rcases hrun : runParse sendRet icap.transport p with ⟨t, ev, progress⟩
  rw [hrun] at hto
  cases progress with
  | callback k => exact hto
  | done ret =>
      refine hto.append ?_
      exact loopReturn_sentTo _ (setTail { icap with transport := t } tailNext) ret stack

section

variable {Q : Nat} {s s' : State} {i : Input} {ev : List Event}

theorem loopParse_remoteAddr (icap : Instance) (tailNext : Nat) (sendRet : U32)
    (stack : List Activation) (p : Parse U32) :
    (loopParse icap tailNext sendRet stack p).1.remoteAddr = icap.transport.remoteAddr :=
  congrArg (fun id => id.2.2) (loopParse_identity icap tailNext sendRet stack p)

theorem icapLoop_sentTo (icap : Instance) (sendRet : U32) (stack : List Activation) :
    SentTo (icapLoop Q icap sendRet stack).1.remoteAddr (icapLoop Q icap sendRet stack).2 := by
  by_cases hne : icap.transport.msgFifo.tail = icap.transport.msgFifo.head
  · rw [icapLoop_empty hne]
    exact loopReturn_sentTo _ _ _ _
  · obtain ⟨msg, hmsg⟩ : ∃ msg, msg
        = icap.transport.msgFifo.slot (indexNext Q icap.transport.msgFifo.tail) := ⟨_, rfl⟩
    rcases hp : icapParseMsg bareMetal icap msg.srcAddr msg.data.mem msg.size with ⟨icap', p⟩
    rw [icapLoop_parse hne hmsg hp]
    simp only [loopParse_remoteAddr]
    exact loopParse_sentTo icap' (indexNext Q icap.transport.msgFifo.tail) sendRet stack p

/-- What a step sends goes to the remote address it leaves. -/
theorem step_sentTo (h : step Q s i = some (s', ev)) : SentTo s'.remoteAddr ev := by
  cases step_cases h with
  | putMsg | lifecycle | refused | polls | timesOut => rfl
  | waits | notifies => rfl
  | loop sendRet | pass sendRet => exact icapLoop_sentTo _ _ _
  | resumes r sendRet tailNext k rest =>
      rw [loopParse_remoteAddr]
      exact loopParse_sentTo _ _ _ _ _

/-! ## The answer to a message -/

theorem icapVerifyRemote_addr {t : IcapTransport} {srcAddr : U32}
    (h : (icapVerifyRemote t srcAddr).2 = 0) :
    (icapVerifyRemote t srcAddr).1.remoteAddr = srcAddr := by
  rcases icapVerifyRemote_ok.mp h with rfl | hnone
  · unfold icapVerifyRemote
    split_ifs <;> rfl
  · unfold icapVerifyRemote
    rw [if_pos hnone]

/-- A message whose handler sends has passed the remote check. -/
theorem icapParseMsg_sends {icap icap' : Instance} {p : Parse U32} {msg : IcapRemoteMsg}
    (hp : icapParseMsg bareMetal icap msg.srcAddr msg.data.mem msg.size = (icap', p))
    (hsends : sendsNext p = true) : icap'.transport.remoteAddr = msg.srcAddr := by
  rw [icapParseMsg_target] at hp
  obtain ⟨rfl, rfl⟩ := Prod.mk.inj hp
  rcases icapParseMsgTarget_cases (P := bareMetal) icap msg.srcAddr msg.data.mem msg.size with
    ⟨e, h⟩ | ⟨-, h⟩ | ⟨cb, hchecked, h⟩
  · rw [h] at hsends
    cases hsends
  · rw [h] at hsends
    cases hsends
  · rw [h]
    exact icapVerifyRemote_addr hchecked.remote

/-- Every message the fifo has held came from an endpoint. -/
def FromEndpoints (s : State) : Prop := ∀ j, (s.fifo.slot j).srcAddr ≠ -1

theorem icapLoop_sends {sendRet : U32} (hsrc : FromEndpoints s)
    (hsends : destinations (icapLoop Q s.icap sendRet s.stack).2 ≠ []) :
    (icapLoop Q s.icap sendRet s.stack).1.remoteAddr ≠ -1 := by
  by_cases hne : s.fifo.tail = s.fifo.head
  · -- an empty fifo leads to no answer
    rw [icapLoop_empty hne] at hsends
    exact absurd ((loopReturn_sentTo 0 _ _ _).eq_nil_iff.mpr
      (by rw [(loopReturn_handlers _ _ _).1]; rfl)) hsends
  · obtain ⟨msg, hmsg⟩ : ∃ msg, msg = s.fifo.slot (indexNext Q s.fifo.tail) := ⟨_, rfl⟩
    rcases hp : icapParseMsg bareMetal s.icap msg.srcAddr msg.data.mem msg.size with ⟨icap', p⟩
    rw [icapLoop_parse hne hmsg hp] at hsends ⊢
    have hto := loopParse_sentTo icap' (indexNext Q s.fifo.tail) sendRet s.stack p
    have hframes := mt hto.eq_nil_iff.mpr hsends
    rw [(loopParse_handlers icap' (indexNext Q s.fifo.tail) sendRet s.stack p).1] at hframes
    have haddr := icapParseMsg_sends hp ((sendsNext_iff sendRet p).mpr hframes)
    simp only [loopParse_remoteAddr, haddr, hmsg]
    exact hsrc _

/-! ## Steps -/

/-- What `transmits` says: the step sends, and leaves the remote address. -/
theorem transmits_sends (h : step Q s i = some (s', ev)) (ht : transmits s i = true) :
    destinations ev ≠ [] ∧ s'.remoteAddr = s.remoteAddr := by
  cases step_cases h with
  | putMsg | polls | timesOut | loop | pass => cases ht
  | lifecycle r hr => cases i <;> first | cases ht | cases hr
  | refused c now sendRet uninit _ hreq =>
      simp only [transmits, hreq, Option.isSome_none] at ht
      cases ht
  | waits | notifies => exact ⟨by simp [destinations, Event.destination, icapSendPlatform], rfl⟩
  -- the message of the callback may have been parsed long ago, so nothing is checked here
  | resumes r sendRet tailNext k rest hstack =>
      refine ⟨?_, loopParse_remoteAddr _ _ _ _ _⟩
      have hsends : sendsNext (k r) = true := by
        simpa only [transmits, hstack, pendingHandlers] using ht
      have hto := loopParse_sentTo s.icap tailNext sendRet rest (k r)
      rw [Ne, hto.eq_nil_iff, (loopParse_handlers s.icap tailNext sendRet rest (k r)).1]
      exact (sendsNext_iff sendRet (k r)).mp hsends

/-- A step that sends and is not one of these answers a message it has just checked. -/
theorem sends_transmits (hsrc : FromEndpoints s) (h : step Q s i = some (s', ev))
    (hsends : destinations ev ≠ []) : transmits s i = true ∨ s'.remoteAddr ≠ -1 := by
  cases step_cases h with
  | putMsg | lifecycle | refused | polls | timesOut => exact absurd rfl hsends
  | waits c now sendRet uninit frame _ hreq =>
      exact Or.inl (by simp only [transmits, hreq, Option.isSome_some])
  | notifies c now sendRet uninit frame _ hreq =>
      exact Or.inl (by simp only [transmits, hreq, Option.isSome_some])
  -- an answer without a callback follows its remote check at once
  | loop sendRet | pass sendRet => exact Or.inr (icapLoop_sends hsrc hsends)
  | resumes r sendRet tailNext k rest hstack =>
      refine Or.inl ?_
      have hto := loopParse_sentTo s.icap tailNext sendRet rest (k r)
      rw [Ne, hto.eq_nil_iff, (loopParse_handlers s.icap tailNext sendRet rest (k r)).1] at hsends
      simp only [transmits, hstack, pendingHandlers]
      exact (sendsNext_iff sendRet (k r)).mpr hsends

/-! ## Runs -/

/-- Frames come from endpoints, whose addresses are not -1. -/
def Endpoints (_ : Trace Input Event) (_ : State) : Input → Prop
  | .putMsg msg => msg.srcAddr ≠ -1
  | _ => True

/-- A call sends, and a handler goes on to its answer, only when the peer is known. -/
def PeerKnown (_ : Trace Input Event) (s : State) (i : Input) : Prop :=
  transmits s i = true → s.remoteAddr ≠ -1

/-- Opening the transport empties the fifo. -/
theorem opened_fromEndpoints (hopen : opensTransport s i = true)
    (h : step Q s i = some (s', ev)) : FromEndpoints s' := by
  have hfifo : s'.fifo = .zero := by
    cases step_queue h with
    | «open» _ hfifo => exact hfifo
    | quiet ho | release _ ho => simp [hopen] at ho
    | hold _ hi | refuse _ _ hi => subst hi; cases hopen
    | parse henter | handle henter => cases i <;> first | cases hopen | cases henter
  intro j
  rw [hfifo]
  exact (by decide : (0 : U32) ≠ -1)

theorem FromEndpoints.of_step {tr : Trace Input Event} (hsrc : FromEndpoints s)
    (hok : Endpoints tr s i) (h : step Q s i = some (s', ev)) : FromEndpoints s' := by
  cases hopen : opensTransport s i with
  | true => exact opened_fromEndpoints hopen h
  | false =>
      intro j
      rcases step_slots hopen h j with hsame | ⟨msg, rfl, hnew⟩
      · rw [hsame]
        exact hsrc j
      · rw [hnew]
        exact hok

theorem sendsToPeer_snoc {tr : Trace Input Event} :
    SendsToPeer (tr ++ [(i, ev)]) s' ↔
      ∀ addr ∈ destinations ev, addr ≠ -1 ∧ Listens s'.icap.transport addr := by
  simp [SendsToPeer]

/-- A step that meets the condition sends to the peer. -/
theorem FromEndpoints.sendsToPeer {tr : Trace Input Event} (hsrc : FromEndpoints s)
    (hknown : PeerKnown tr s i) (h : step Q s i = some (s', ev)) :
    SendsToPeer (tr ++ [(i, ev)]) s' := by
  rw [sendsToPeer_snoc]
  intro addr haddr
  obtain rfl := (step_sentTo h).mem haddr
  have hremote : s'.remoteAddr ≠ -1 := by
    -- a step that transmits leaves the remote address; the other ones have just set it
    rcases sends_transmits hsrc h (List.ne_nil_of_mem haddr) with ht | hremote
    · rw [(transmits_sends h ht).2]
      exact hknown ht
    · exact hremote
  exact ⟨hremote, listens_iff.mpr ⟨hremote, rfl⟩⟩

/-- A step that does not meet it sends to -1. -/
theorem not_sendsToPeer {tr : Trace Input Event} (hunknown : ¬ PeerKnown tr s i)
    (h : step Q s i = some (s', ev)) : ¬ SendsToPeer (tr ++ [(i, ev)]) s' := by
  rw [sendsToPeer_snoc]
  obtain ⟨ht, hnone⟩ : transmits s i = true ∧ s.remoteAddr = -1 := by
    simpa only [PeerKnown, Classical.not_imp, not_not] using hunknown
  obtain ⟨hsends, hremote⟩ := transmits_sends h ht
  obtain ⟨addr, haddr⟩ := List.exists_mem_of_ne_nil _ hsends
  intro hall
  apply (hall addr haddr).1
  calc addr = s'.remoteAddr := (step_sentTo h).mem haddr
    _ = s.remoteAddr := hremote
    _ = -1 := hnone

end

/-- **Frames go to the peer** in every state of a run from an init exactly when no call sends,
and no handler goes on to its answer, while the peer is not known. -/
theorem sends_to_peer_iff {Q : Nat} {before s₀ : State} {i₀ : Input} {ev₀ : List Event}
    (hopen : opensTransport before i₀ = true) (hinit : step Q before i₀ = some (s₀, ev₀))
    {tr : Trace Input Event} {s : State} (hrun : (machine Q).Run Endpoints s₀ tr s) :
    (∀ tr' s', tr' <+: tr → (machine Q).Run Endpoints s₀ tr' s' → SendsToPeer tr' s') ↔
      (machine Q).Run (fun tr s i => Endpoints tr s i ∧ PeerKnown tr s i) s₀ tr s := by
  refine hrun.forall_prefix_iff (fun tr s hr => ?_) ?_
  · refine (hr.invariant (I := fun tr s => FromEndpoints s ∧ SendsToPeer tr s)
      ⟨opened_fromEndpoints hopen hinit, nofun⟩ ?_).2
    rintro tr s s' i ev - ⟨hsrc, -⟩ ⟨hok, hknown⟩ hstep
    exact ⟨hsrc.of_step hok hstep, hsrc.sendsToPeer hknown hstep⟩
  · rintro tr s s' i ev - - hunknown hstep
    exact not_sendsToPeer hunknown hstep

/-! ## A call before any message -/

/-- An application after its init. -/
def silentApplication : State :=
  ((machine 10).exec [] (.zeroed 0 0) [.applicationInit 0 (some (· = .fragReady)) 0]).2

/-- The first thing the application does is `icap_get_subdevices`; its message goes to -1. -/
theorem first_call_sends_to_nobody : ∃ tr s,
    (machine 10).Run Endpoints silentApplication tr s ∧ ¬ SendsToPeer tr s := by
  refine ⟨_, _, Machine.Run.start.exec [.call .getSubdevices 0 0 (fun _ => 0)] ?_, fun h => ?_⟩
  · exact ⟨trivial, trivial⟩
  · exact (h _ rfl (-1) List.mem_cons_self).1 rfl

/-- The device at 7 speaks first; the callback's answer and a call go to it. -/
theorem sends_to_peer_iff_heard : ∃ tr s, (machine 10).Run Endpoints silentApplication tr s ∧
    destinations tr.events = [7, 7] ∧
    ∀ tr' s', tr' <+: tr → (machine 10).Run Endpoints silentApplication tr' s' →
      SendsToPeer tr' s' := by
  let inputs : List Input := [.putMsg ⟨⟨4096, ofList (icapMsgFrame ICAP_MSG_FRAG_READY ICAP_MSG 1
    (List.replicate 8 0))⟩, 48, 7⟩, .loop 0, .callbackRet handledResult 0,
    .call .getSubdevices 0 0 (fun _ => 0)]
  have hrun : (machine 10).Run Endpoints silentApplication
      ((machine 10).exec [] silentApplication inputs).1
      ((machine 10).exec [] silentApplication inputs).2 := by
    refine Machine.Run.start.exec _ ⟨?_, trivial, trivial, trivial, trivial⟩
    exact (by decide : (7 : U32) ≠ -1)
  refine ⟨_, _, hrun, rfl, ?_⟩
  have hinit : step 10 (.zeroed 0 0) (.applicationInit 0 (some (· = .fragReady)) 0)
      = some (silentApplication, [.lifecycle 0]) := rfl
  refine (sends_to_peer_iff rfl hinit hrun).mpr ?_
  refine Machine.Run.start.exec _ ⟨⟨?_, nofun⟩, ⟨trivial, nofun⟩, ⟨trivial, fun _ => ?_⟩,
    ⟨trivial, fun _ => ?_⟩, trivial⟩
  · exact (by decide : (7 : U32) ≠ -1)
  · exact (by decide : (7 : U32) ≠ -1)
  · exact (by decide : (7 : U32) ≠ -1)

end Icap.BareMetal
