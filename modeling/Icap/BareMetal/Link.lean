import Icap.BareMetal.Notifications
import Icap.BareMetal.Reentry

set_option autoImplicit false

/-! # A device and an application, linked

Two instances on the rpmsg-lite transport and the two channels between them, which keep the order
of frames and lose none: a frame leaves its channel when the `icap_put_msg` of the receive
interrupt holds it. Either side takes a step at any time. For every run of the two, the
notifications of the device are the notes the application has parsed and those on their way, each
once and in order, and likewise for the answers on their way back (`notifications_once`).
-/

namespace Icap.BareMetal

open ByteMemory RingBuffer Transition

/-! ## The machine of the link -/

inductive Side where
  | device
  | application
  deriving DecidableEq

def Side.other : Side → Side
  | device => application
  | application => device

def Side.type : Side → IcapInstanceType
  | device => .device
  | application => .application

structure Link where
  side : Side → State
  /-- The frames on their way to a side, oldest first. -/
  channel : Side → List (List Byte)

inductive LinkInput where
  /-- A side takes a step. -/
  | run (x : Side) (i : Input)
  /-- The oldest frame on its way to a side is delivered, in the buffer at `addr` with `rest`
  behind it. -/
  | deliver (x : Side) (addr : Nat) (rest : Mem)

/-- An event of one side. -/
abbrev LinkEvent := Side × Event

/-- A frame in a receive buffer. -/
def delivery (source : U32) (addr : Nat) (rest : Mem) (frame : List Byte) : IcapRemoteMsg :=
  ⟨⟨addr, copy rest (ofList frame) frame.length⟩, BitVec.ofNat 32 frame.length, source⟩

def linkStep (Q : Nat) (address : Side → U32) (l : Link) :
    LinkInput → Option (Link × List LinkEvent)
  | .run x i =>
      match step Q (l.side x) i with
      | none => none
      | some (s, ev) =>
          let sent := sentFrames (handlerEvents ev)
          some (⟨Function.update l.side x s,
            Function.update l.channel x.other (l.channel x.other ++ sent)⟩, ev.map (x, ·))
  | .deliver x addr rest =>
      match l.channel x with
      | [] => none
      | frame :: frames =>
          let msg := delivery (address x.other) addr rest frame
          match icapPutMsg Q (l.side x).icap msg with
          | (icap, .hold) =>
              some (⟨Function.update l.side x ⟨icap, (l.side x).stack⟩,
                Function.update l.channel x frames⟩, [(x, .put msg .hold)])
          | _ => none

def linkMachine (Q : Nat) (address : Side → U32) : Machine Link LinkInput LinkEvent :=
  ⟨linkStep Q address⟩

/-- Both instances are initialised and nothing is on its way. -/
def linkStart (rpmsg : Side → Nat × Nat) (name priv : Side → Nat) (cb : Side → CallbackTable) :
    Link where
  side
    | .device => ⟨(icapDeviceInit bareMetal
        (zeroedInstance (rpmsg .device).1 (rpmsg .device).2) (name .device)
        (some (cb .device)) (priv .device)).1, []⟩
    | .application => sessionStart (rpmsg .application).1 (rpmsg .application).2
        (name .application) (priv .application) (cb .application)
  channel _ := []

/-- The device calls device functions and the application calls application functions; no
callback makes a synchronous call or calls `icap_loop`; frames come out of the channels only, and
the instances stay initialised. -/
def Orderly (_ : Trace LinkInput LinkEvent) (l : Link) : LinkInput → Prop
  | .run .device (.call c _ _ _) => c.sync = false
  | .run .application (.call c _ _ _) =>
      c.sync = true ∧ loopTails (l.side .application).stack = []
  | .run x (.loop _) => loopTails (l.side x).stack = []
  | .run _ (.putMsg _) => False
  | .run _ i => i.lifecycle = false
  | .deliver _ _ _ => True

/-! ## What happened -/

/-- The steps a side has taken itself. -/
def inputsAt (x : Side) (tr : Trace LinkInput LinkEvent) : List Input :=
  tr.inputs.filterMap fun
    | .run y i => if y = x then some i else none
    | .deliver _ _ _ => none

def eventsAt (x : Side) (tr : Trace LinkInput LinkEvent) : List Event :=
  tr.events.filterMap fun e => if e.1 = x then some e.2 else none

/-- The notifications the device has sent. -/
def notified (tr : Trace LinkInput LinkEvent) : List Note :=
  (inputsAt .device tr).filterMap Input.note

/-- What the callbacks of the application have returned. -/
def results (tr : Trace LinkInput LinkEvent) : List U32 :=
  (inputsAt .application tr).filterMap Input.result

/-- The callbacks invoked by the application. -/
def applicationCallbacks (tr : Trace LinkInput LinkEvent) : List Callback :=
  invokedCallbacks (handlerEvents (eventsAt .application tr))

/-- The callbacks for answers that the device has invoked. -/
def verdictCallbacks (tr : Trace LinkInput LinkEvent) : List Callback :=
  (invokedCallbacks (handlerEvents (eventsAt .device tr))).filter Callback.isVerdict

/-- The messages in the fifo that have not been parsed. -/
def waiting (Q : Nat) (s : State) : List IcapRemoteMsg :=
  if busy s then (s.fifo.contents Q).tail else s.fifo.contents Q

/-- What is on its way to a side, in its fifo or in its channel. -/
def inFlight {β : Type} (decode : IcapMsg → Option β) (Q : Nat) (x : Side) (l : Link) : List β :=
  read decode (waiting Q (l.side x)) ++ readFrames decode (l.channel x)

/-! ## The fifo of one side -/

def QueueEvent.message : QueueEvent → Option IcapRemoteMsg
  | .parsed msg => some msg
  | _ => none

theorem parsedMsgs_eq (ev : List Event) :
    parsedMsgs (handlerEvents ev) = (queueEvents ev).filterMap QueueEvent.message := by
  rw [parsedMsgs, handlerEvents, queueEvents, List.filterMap_filterMap, List.filterMap_filterMap]
  congr 1
  funext e
  cases e <;> rfl

/-- The messages waiting are those held and not parsed. -/
theorem Sound.waiting_step {Q : Nat} {s s' : State} {qs : List QueueEvent} (hs : Sound Q s)
    (h : FifoStep (s.fifo.contents Q) (busy s) (s'.fifo.contents Q) (busy s') qs) :
    waiting Q s ++ qs.filterMap QueueEvent.held
      = qs.filterMap QueueEvent.message ++ waiting Q s' := by
  have hbusy := hs.contents_ne_nil
  unfold waiting
  generalize s.fifo.contents Q = c, busy s = b, s'.fifo.contents Q = c', busy s' = b'
    at h hbusy ⊢
  cases h with
  | quiet => exact List.append_nil _
  | refuse _ _ m ret hret =>
      simp [QueueEvent.held_refused hret, QueueEvent.message]
  -- the message being handled is not among those that wait
  | hold _ _ m =>
      cases b with
      | false => rfl
      | true =>
          cases c with
          | nil => exact absurd rfl (hbusy rfl)
          | cons a c => rfl
  | parse m c => exact List.append_nil _
  | handle m c => exact List.append_nil _
  | release m c => exact List.append_nil _

/-! ## Steps of the link -/

/-- A step of the link is a step of the machine of one side: the side's own, whose frames go into
the channel to the other side, or the arrival of the oldest frame in its channel. -/
inductive LinkMove (Q : Nat) (address : Side → U32) (l : Link) (a : LinkInput) (l' : Link)
    (ev : List LinkEvent) : Prop
  | run (x : Side) (i : Input) (s : State) (ev' : List Event) (ha : a = .run x i)
      (hstep : step Q (l.side x) i = some (s, ev')) (hev : ev = ev'.map (x, ·))
      (hside : l'.side = Function.update l.side x s)
      (hchannel : l'.channel = Function.update l.channel x.other
        (l.channel x.other ++ sentFrames (handlerEvents ev')))
  | deliver (x : Side) (m : IcapRemoteMsg) (frame : List Byte) (frames : List (List Byte))
      (s : State) (ha : ∃ addr rest, a = .deliver x addr rest)
      (hm : FromPeer (address x.other) frame m) (hframes : l.channel x = frame :: frames)
      (hstep : step Q (l.side x) (.putMsg m) = some (s, [.put m .hold]))
      (hev : ev = [(x, .put m .hold)]) (hside : l'.side = Function.update l.side x s)
      (hchannel : l'.channel = Function.update l.channel x frames)

theorem fromPeer_delivery (source : U32) (addr : Nat) (rest : Mem) (frame : List Byte) :
    FromPeer source frame (delivery source addr rest frame) :=
  ⟨(holds_ofList frame).copy le_rfl, rfl, rfl⟩

theorem linkStep_cases {Q : Nat} {address : Side → U32} {l l' : Link} {a : LinkInput}
    {ev : List LinkEvent} (h : linkStep Q address l a = some (l', ev)) :
    LinkMove Q address l a l' ev := by
  cases a with
  | run x i =>
      simp only [linkStep] at h
      split at h
      · cases h
      · rename_i s ev' hstep
        obtain ⟨rfl, rfl⟩ := Prod.mk.inj (Option.some.inj h)
        exact .run x i s ev' rfl hstep rfl rfl rfl
  | deliver x addr rest =>
      simp only [linkStep] at h
      split at h
      · cases h
      · rename_i frame frames hchannel
        split at h
        · rename_i icap hput
          obtain ⟨rfl, rfl⟩ := Prod.mk.inj (Option.some.inj h)
          have hm := fromPeer_delivery (address x.other) addr rest frame
          refine .deliver x _ frame frames _ ⟨addr, rest, rfl⟩ hm hchannel ?_ rfl rfl rfl
          simp only [step, hput]
        · cases h

theorem Side.other_ne (x : Side) : x.other ≠ x := by cases x <;> decide

theorem Side.other_other (x : Side) : x.other.other = x := by cases x <;> rfl

section

variable {tr : Trace LinkInput LinkEvent} {a : LinkInput} {x y : Side}

theorem eventsAt_snoc (ev : List LinkEvent) :
    eventsAt x (tr ++ [(a, ev)])
      = eventsAt x tr ++ ev.filterMap fun e => if e.1 = x then some e.2 else none := by
  simp [eventsAt]

theorem eventsAt_snoc_self (ev : List Event) :
    eventsAt x (tr ++ [(a, ev.map (x, ·))]) = eventsAt x tr ++ ev := by
  rw [eventsAt_snoc, List.filterMap_map]
  simp

theorem eventsAt_snoc_other (h : y ≠ x) (ev : List Event) :
    eventsAt x (tr ++ [(a, ev.map (y, ·))]) = eventsAt x tr := by
  rw [eventsAt_snoc, List.filterMap_map]
  simp [h]

theorem inputsAt_snoc_run (y : Side) (i : Input) (ev : List LinkEvent) :
    inputsAt x (tr ++ [(.run y i, ev)]) = inputsAt x tr ++ if y = x then [i] else [] := by
  by_cases h : y = x <;> simp [inputsAt, Trace.inputs, h]

theorem inputsAt_snoc_deliver (addr : Nat) (rest : Mem) (ev : List LinkEvent) :
    inputsAt x (tr ++ [(.deliver y addr rest, ev)]) = inputsAt x tr := by
  simp [inputsAt, Trace.inputs]

theorem filterMap_ite_singleton {β : Type} (f : Input → Option β) (c : Prop) [Decidable c]
    (i : Input) : (if c then [i] else []).filterMap f = if c then (f i).toList else [] := by
  split_ifs
  · cases h : f i <;> simp [h]
  · rfl

theorem notified_snoc_run (x : Side) (i : Input) (ev : List LinkEvent) :
    notified (tr ++ [(.run x i, ev)])
      = notified tr ++ if x = .device then i.note.toList else [] := by
  rw [notified, inputsAt_snoc_run, List.filterMap_append, filterMap_ite_singleton, notified]

theorem results_snoc_run (x : Side) (i : Input) (ev : List LinkEvent) :
    results (tr ++ [(.run x i, ev)])
      = results tr ++ if x = .application then i.result.toList else [] := by
  rw [results, inputsAt_snoc_run, List.filterMap_append, filterMap_ite_singleton, results]

end

/-! ## The invariant -/

/-- The frames the other side has sent are those that have arrived, in order, and those in the
channel; the messages that have arrived have been parsed or wait. -/
def Delivered (Q : Nat) (address : Side → U32) (tr : Trace LinkInput LinkEvent) (l : Link)
    (x : Side) : Prop :=
  ∃ arrived, sentFrames (handlerEvents (eventsAt x.other tr)) = arrived ++ l.channel x ∧
    List.Forall₂ (FromPeer (address x.other)) arrived
      (parsedMsgs (handlerEvents (eventsAt x tr)) ++ waiting Q (l.side x))

structure Connected (Q : Nat) (address : Side → U32) (cb : Side → CallbackTable)
    (tr : Trace LinkInput LinkEvent) (l : Link) : Prop where
  sound : ∀ x, Sound Q (l.side x)
  outside : ∀ x, WaitsOutside (l.side x)
  linked : ∀ x, Linked (cb x) x.type (address x.other) (l.side x).icap
  delivered : ∀ x, Delivered Q address tr l x
  answers : AnswersNotes (cb .application) (l.side .application)
    (handlerEvents (eventsAt .application tr)) (results tr)
  hears : HearsVerdicts (cb .device) (l.side .device) (handlerEvents (eventsAt .device tr))
    (notified tr)

/-- What a side may do in its next step. -/
structure MayStep (x : Side) (s : State) (i : Input) : Prop where
  lifecycle : i.lifecycle = false
  loop : entersLoop i = true → loopTails s.stack = []
  outside : ∀ c now sendRet uninit, i = .call c now sendRet uninit → c.sync = true →
    loopTails s.stack = []
  device : x = .device → ∀ c now sendRet uninit, i = .call c now sendRet uninit → c.sync = false

section

variable {Q : Nat} {address : Side → U32} {cb : Side → CallbackTable}
  {tr : Trace LinkInput LinkEvent} {l l' : Link} {x : Side} {i : Input} {s : State}
  {ev : List Event}

theorem Orderly.mayStep (hok : Orderly tr l (.run x i)) (hout : WaitsOutside (l.side x))
    (hstep : step Q (l.side x) i = some (s, ev)) :
    MayStep x (l.side x) i ∧ (∀ m, i ≠ .putMsg m) := by
  cases i with
  | putMsg m => cases x <;> exact hok.elim
  | applicationInit _ _ _ | applicationDeinit | deviceInit _ _ _ | deviceDeinit =>
      cases x <;> cases hok
  | call c now sendRet uninit =>
      refine ⟨⟨rfl, nofun, ?_, ?_⟩, nofun⟩
      · rintro c' now' sendRet' uninit' ⟨⟩ hsync
        cases x with
        | device =>
            rw [show c.sync = false from hok] at hsync
            cases hsync
        | application => exact hok.2
      · rintro rfl c' now' sendRet' uninit' ⟨⟩
        exact hok
  | loop sendRet =>
      have hidle : loopTails (l.side x).stack = [] := by cases x <;> exact hok
      exact ⟨⟨rfl, fun _ => hidle, nofun, fun _ => nofun⟩, nofun⟩
  | pass sendRet => exact ⟨⟨rfl, fun _ => hout.pass hstep, nofun, fun _ => nofun⟩, nofun⟩
  | clock now => exact ⟨⟨rfl, nofun, nofun, fun _ => nofun⟩, nofun⟩
  | callbackRet r sendRet => exact ⟨⟨rfl, nofun, nofun, fun _ => nofun⟩, nofun⟩

theorem mayStep_putMsg (x : Side) (s : State) (m : IcapRemoteMsg) : MayStep x s (.putMsg m) :=
  ⟨rfl, nofun, nofun, fun _ => nofun⟩

theorem held_of_not_put {s' : State} (h : step Q s i = some (s', ev)) (hput : ∀ m, i ≠ .putMsg m) :
    (queueEvents ev).filterMap QueueEvent.held = [] := by
  cases step_queue h with
  | quiet _ _ _ _ hev => rw [hev]; rfl
  | «open» _ _ _ hev => rw [hev]; rfl
  | hold m hi => exact absurd hi (hput m)
  | refuse m _ hi => exact absurd hi (hput m)
  | parse _ _ _ _ hev => rw [hev]; rfl
  | handle _ _ _ _ hev => rw [hev]; rfl
  | release _ _ _ _ _ hev => rw [hev]; rfl

theorem exists_of_forall₂ {α β : Type} {R : α → β → Prop} {as : List α} {bs : List β}
    (h : List.Forall₂ R as bs) {b : β} (hb : b ∈ bs) : ∃ a ∈ as, R a b := by
  induction h with
  | nil => cases hb
  | cons hR _ ih =>
      rcases List.mem_cons.mp hb with rfl | hb
      · exact ⟨_, List.mem_cons_self, hR⟩
      · obtain ⟨a, ha, hab⟩ := ih hb
        exact ⟨a, List.mem_cons_of_mem _ ha, hab⟩

/-- `new` is sent by the other side, and `came` arrives as the messages `ms`. -/
theorem Delivered.of_step (h : Delivered Q address tr l x) {tr' : Trace LinkInput LinkEvent}
    (new came : List (List Byte)) (ms : List IcapRemoteMsg)
    (hsent : sentFrames (handlerEvents (eventsAt x.other tr'))
      = sentFrames (handlerEvents (eventsAt x.other tr)) ++ new)
    (hchannel : l.channel x ++ new = came ++ l'.channel x)
    (hcame : List.Forall₂ (FromPeer (address x.other)) came ms)
    (hwait : parsedMsgs (handlerEvents (eventsAt x tr')) ++ waiting Q (l'.side x)
      = parsedMsgs (handlerEvents (eventsAt x tr)) ++ waiting Q (l.side x) ++ ms) :
    Delivered Q address tr' l' x := by
  obtain ⟨arrived, harrived, hmsgs⟩ := h
  refine ⟨arrived ++ came, ?_, ?_⟩
  · calc sentFrames (handlerEvents (eventsAt x.other tr'))
        = arrived ++ (l.channel x ++ new) := by rw [hsent, harrived, List.append_assoc]
      _ = arrived ++ came ++ l'.channel x := by rw [hchannel, List.append_assoc]
  · rw [hwait]
    exact List.rel_append hmsgs hcame

/-- The message that `icap_loop` parses next holds a frame that the other side has sent. -/
theorem Delivered.next (h : Delivered Q address tr l x) (hs : Sound Q (l.side x)) (hQ : Q < 2 ^ 16)
    (hidle : loopTails (l.side x).stack = []) (hne : (l.side x).fifo.tail ≠ (l.side x).fifo.head) :
    ∃ frame ∈ sentFrames (handlerEvents (eventsAt x.other tr)), FromPeer (address x.other) frame
      ((l.side x).fifo.slot (indexNext Q (l.side x).fifo.tail)) := by
  obtain ⟨arrived, harrived, hmsgs⟩ := h
  have hb : busy (l.side x) = false := by rw [busy, hidle]; rfl
  have hmem : (l.side x).fifo.slot (indexNext Q (l.side x).fifo.tail)
      ∈ parsedMsgs (handlerEvents (eventsAt x tr)) ++ waiting Q (l.side x) := by
    refine List.mem_append_right _ ?_
    rw [waiting, hb, if_neg (by decide), hs.valid.contents_cons hne,
      indexNext_eq hQ hs.valid.tail_lt]
    exact List.mem_cons_self
  obtain ⟨frame, hframe, hfrom⟩ := exists_of_forall₂ hmsgs hmem
  exact ⟨frame, by rw [harrived]; exact List.mem_append_left _ hframe, hfrom⟩

/-- What both kinds of steps of a side keep. -/
theorem Connected.sides_step (h : Connected Q address cb tr l) (hQ : Q < 2 ^ 16)
    (hmay : MayStep x (l.side x) i) (hstep : step Q (l.side x) i = some (s, ev))
    (hside : l'.side = Function.update l.side x s) :
    (∀ y, Sound Q (l'.side y)) ∧ (∀ y, WaitsOutside (l'.side y)) ∧
      Handling Q (l.side x) i s ev ∧
      waiting Q (l.side x) ++ (queueEvents ev).filterMap QueueEvent.held
        = parsedMsgs (handlerEvents ev) ++ waiting Q s := by
  have hopen : opensTransport (l.side x) i = false := by
    have hlife := hmay.lifecycle
    cases i <;> first | rfl | cases hlife
  obtain ⟨hsound, hfifo⟩ := (h.sound x).of_step hQ hmay.loop (by simp [hopen]) hstep
  have hout := (h.outside x).of_step hmay.lifecycle hmay.outside hmay.loop hstep
  refine ⟨?_, ?_, step_handling hmay.lifecycle hstep, ?_⟩
  · rw [hside]
    exact (Function.forall_update_iff l.side fun _ s => Sound Q s).mpr
      ⟨hsound, fun y _ => h.sound y⟩
  · rw [hside]
    exact (Function.forall_update_iff l.side fun _ s => WaitsOutside s).mpr
      ⟨hout, fun y _ => h.outside y⟩
  · rw [parsedMsgs_eq]
    exact (h.sound x).waiting_step hfifo

/-- What a step of the side `x` does to the two directions: `came` has arrived at `x` as the
messages `ms`, and what `x` sends is on its way to the other side. -/
theorem Connected.delivered_step (h : Connected Q address cb tr l)
    {tr' : Trace LinkInput LinkEvent} {came : List (List Byte)} {ms : List IcapRemoteMsg}
    (hside : l'.side = Function.update l.side x s)
    (hevents : eventsAt x tr' = eventsAt x tr ++ ev)
    (hother : eventsAt x.other tr' = eventsAt x.other tr)
    (hcame : List.Forall₂ (FromPeer (address x.other)) came ms)
    (hreceived : l.channel x = came ++ l'.channel x)
    (hsent : l'.channel x.other = l.channel x.other ++ sentFrames (handlerEvents ev))
    (hwait : waiting Q (l.side x) ++ ms = parsedMsgs (handlerEvents ev) ++ waiting Q s) :
    ∀ y, Delivered Q address tr' l' y := by
  intro y
  by_cases hy : y = x
  · -- the side has parsed some of what waited and of what came
    subst hy
    refine (h.delivered y).of_step [] came ms ?_ ?_ hcame ?_
    · rw [hother, List.append_nil]
    · rw [List.append_nil, hreceived]
    · calc parsedMsgs (handlerEvents (eventsAt y tr')) ++ waiting Q (l'.side y)
          = parsedMsgs (handlerEvents (eventsAt y tr))
              ++ (parsedMsgs (handlerEvents ev) ++ waiting Q s) := by
            rw [hevents, handlerEvents_append, parsedMsgs_append, hside, Function.update_self,
              List.append_assoc]
        _ = parsedMsgs (handlerEvents (eventsAt y tr)) ++ waiting Q (l.side y) ++ ms := by
            rw [← hwait, List.append_assoc]
  · -- nothing arrives at the other side
    have hy' : y = x.other := by cases x <;> cases y <;> first | rfl | exact absurd rfl hy
    subst hy'
    refine (h.delivered x.other).of_step (sentFrames (handlerEvents ev)) [] [] ?_ ?_ .nil ?_
    · rw [x.other_other, hevents, handlerEvents_append, sentFrames_append]
    · rw [hsent, List.nil_append]
    · rw [hother, hside, Function.update_of_ne hy, List.append_nil]

/-- What the two logs become. -/
theorem Connected.logs_step (h : Connected Q address cb tr l) (hQ : Q < 2 ^ 16)
    {tr' : Trace LinkInput LinkEvent} (hmay : MayStep x (l.side x) i)
    (hhandling : Handling Q (l.side x) i s ev)
    (hside : l'.side = Function.update l.side x s)
    (hevents : eventsAt x tr' = eventsAt x tr ++ ev)
    (hother : eventsAt x.other tr' = eventsAt x.other tr)
    (hnotified : notified tr' = notified tr ++ if x = .device then i.note.toList else [])
    (hresults : results tr' = results tr ++ if x = .application then i.result.toList else []) :
    (∀ y, Linked (cb y) y.type (address y.other) (l'.side y).icap) ∧
      AnswersNotes (cb .application) (l'.side .application)
        (handlerEvents (eventsAt .application tr')) (results tr') ∧
      HearsVerdicts (cb .device) (l'.side .device) (handlerEvents (eventsAt .device tr'))
        (notified tr') := by
  have hnext (henter : entersLoop i = true)
      (hne : (l.side x).fifo.tail ≠ (l.side x).fifo.head) :=
    (h.delivered x).next (h.sound x) hQ (hmay.loop henter) hne
  -- the log of the side that moves grows, and that of the other one stays
  cases x with
  | application =>
      have hlog := h.answers.of_step (h.linked .application) hmay.loop (fun henter hne => by
        obtain ⟨frame, hframe, hfrom⟩ := hnext henter hne
        exact ⟨frame, h.hears.carries frame hframe, hfrom⟩) hhandling
      have hself : l'.side .application = s := by rw [hside, Function.update_self]
      have hsame : l'.side .device = l.side .device := by
        rw [hside, Function.update_of_ne (by decide)]
      refine ⟨fun y => ?_, ?_, ?_⟩
      · cases y with
        | device => rw [hsame]; exact h.linked .device
        | application => rw [hself]; exact hlog.1
      · rw [hself, hevents, handlerEvents_append, hresults]
        exact hlog.2
      · have hnot : notified tr' = notified tr := hnotified.trans (List.append_nil _)
        rw [hsame, hnot, show eventsAt .device tr' = _ from hother]
        exact h.hears
  | device =>
      have hlog := h.hears.of_step (h.linked .device) (hmay.device rfl) (fun henter hne => by
        obtain ⟨frame, hframe, hfrom⟩ := hnext henter hne
        exact ⟨frame, h.answers.carries frame hframe, hfrom⟩) hhandling
      have hself : l'.side .device = s := by rw [hside, Function.update_self]
      have hsame : l'.side .application = l.side .application := by
        rw [hside, Function.update_of_ne (by decide)]
      refine ⟨fun y => ?_, ?_, ?_⟩
      · cases y with
        | device => rw [hself]; exact hlog.1
        | application => rw [hsame]; exact h.linked .application
      · have hres : results tr' = results tr := hresults.trans (List.append_nil _)
        rw [hsame, hres, show eventsAt .application tr' = _ from hother]
        exact h.answers
      · rw [hself, hevents, handlerEvents_append, hnotified]
        exact hlog.2

theorem Connected.of_step {a : LinkInput} {ev' : List LinkEvent} (h : Connected Q address cb tr l)
    (hQ : Q < 2 ^ 16) (hok : Orderly tr l a) (hstep : linkStep Q address l a = some (l', ev')) :
    Connected Q address cb (tr ++ [(a, ev')]) l' := by
  cases linkStep_cases hstep with
  -- nothing arrives, and what the side sends goes into the channel
  | run x i s ev ha hrun hev hside hchannel =>
      subst ha hev
      obtain ⟨hmay, hput⟩ := hok.mayStep (h.outside x) hrun
      obtain ⟨hsound, hout, hhandling, hwait⟩ := h.sides_step hQ hmay hrun hside
      rw [held_of_not_put hrun hput] at hwait
      have hself : eventsAt x (tr ++ [(.run x i, ev.map (x, ·))]) = eventsAt x tr ++ ev :=
        eventsAt_snoc_self ev
      have hother : eventsAt x.other (tr ++ [(.run x i, ev.map (x, ·))]) = eventsAt x.other tr :=
        eventsAt_snoc_other x.other_ne.symm ev
      obtain ⟨hlinked, hanswers, hhears⟩ := h.logs_step hQ hmay hhandling hside hself hother
        (notified_snoc_run x i _) (results_snoc_run x i _)
      refine ⟨hsound, hout, hlinked, ?_, hanswers, hhears⟩
      refine h.delivered_step hside hself hother .nil ?_ ?_ hwait
      · rw [hchannel, Function.update_of_ne x.other_ne.symm, List.nil_append]
      · rw [hchannel, Function.update_self]
  -- the oldest frame of the channel arrives, and nothing is sent
  | deliver x m frame frames s ha hm hframes hrun hev hside hchannel =>
      obtain ⟨addr, rest, rfl⟩ := ha
      subst hev
      have hmay := mayStep_putMsg x (l.side x) m
      obtain ⟨hsound, hout, hhandling, hwait⟩ := h.sides_step hQ hmay hrun hside
      have hself : eventsAt x (tr ++ [(.deliver x addr rest, [(x, Event.put m .hold)])])
          = eventsAt x tr ++ [.put m .hold] := eventsAt_snoc_self [Event.put m .hold]
      have hother : eventsAt x.other (tr ++ [(.deliver x addr rest, [(x, Event.put m .hold)])])
          = eventsAt x.other tr := eventsAt_snoc_other x.other_ne.symm [Event.put m .hold]
      have hnotified : notified (tr ++ [(.deliver x addr rest, [(x, Event.put m .hold)])])
          = notified tr ++ [] := by
        rw [notified, inputsAt_snoc_deliver, List.append_nil, ← notified]
      have hresults : results (tr ++ [(.deliver x addr rest, [(x, Event.put m .hold)])])
          = results tr ++ [] := by
        rw [results, inputsAt_snoc_deliver, List.append_nil, ← results]
      obtain ⟨hlinked, hanswers, hhears⟩ := h.logs_step hQ hmay hhandling hside hself hother
        (hnotified.trans (by cases x <;> rfl)) (hresults.trans (by cases x <;> rfl))
      refine ⟨hsound, hout, hlinked, ?_, hanswers, hhears⟩
      refine h.delivered_step hside hself hother (.cons hm .nil) ?_ ?_ hwait
      · rw [hchannel, Function.update_self, hframes]
        rfl
      · rw [hchannel, Function.update_of_ne x.other_ne]
        exact (List.append_nil _).symm

theorem linkStart_connected (hQ : 0 < Q) (rpmsg : Side → Nat × Nat) (name priv : Side → Nat) :
    Connected Q address cb [] (linkStart rpmsg name priv cb) where
  sound x := by cases x <;> exact ⟨zero_valid hQ, Or.inl rfl⟩
  outside x := by cases x <;> rfl
  linked x := by cases x <;> exact ⟨-1, rfl, Or.inl rfl⟩
  delivered x := by
    have hempty := (zero_valid hQ).contents_eq_nil.mpr rfl
    refine ⟨[], rfl, ?_⟩
    have hwait : waiting Q ((linkStart rpmsg name priv cb).side x) = [] := by
      cases x <;> exact hempty
    rw [hwait]
    exact .nil
  answers := ⟨rfl, rfl, nofun, .done rfl⟩
  hears := ⟨rfl, rfl, nofun, nofun⟩

theorem run_connected (hQ0 : 0 < Q) (hQ : Q < 2 ^ 16) {rpmsg : Side → Nat × Nat}
    {name priv : Side → Nat}
    (hrun : (linkMachine Q address).Run Orderly (linkStart rpmsg name priv cb) tr l) :
    Connected Q address cb tr l := by
  refine hrun.invariant (linkStart_connected hQ0 rpmsg name priv) ?_
  rintro tr l l' a ev - hi hok hstep
  exact hi.of_step hQ hok hstep

/-- What one side has read of the frames sent to it, with what is on its way, is what the other
side has sent. -/
theorem Delivered.read_eq {β : Type} {decode : IcapMsg → Option β}
    (h : Delivered Q address tr l x)
    (hcarries : ∀ frame ∈ sentFrames (handlerEvents (eventsAt x.other tr)), Carries decode frame) :
    readFrames decode (sentFrames (handlerEvents (eventsAt x.other tr)))
      = read decode (parsedMsgs (handlerEvents (eventsAt x tr))) ++ inFlight decode Q x l := by
  obtain ⟨arrived, harrived, hmsgs⟩ := h
  rw [harrived] at hcarries
  have hread : readFrames decode arrived
      = read decode (parsedMsgs (handlerEvents (eventsAt x tr)) ++ waiting Q (l.side x)) := by
    have hall (frame : List Byte) (hframe : frame ∈ arrived) : Carries decode frame :=
      hcarries frame (List.mem_append_left _ hframe)
    generalize parsedMsgs (handlerEvents (eventsAt x tr)) ++ waiting Q (l.side x) = ms at hmsgs
    clear harrived hcarries
    -- frame by frame: a frame and the message that holds it are read alike
    induction hmsgs with
    | nil => rfl
    | @cons frame m frames ms hm _ ih =>
        have hhead := (hall frame List.mem_cons_self).reads m.data.mem hm.holds
        have htail := ih fun frame' hframe' => hall frame' (List.mem_cons_of_mem _ hframe')
        rw [readFrames, List.filterMap_cons, read, List.filterMap_cons, hhead]
        cases decode (ofList frame) with
        | none => exact htail
        | some b => exact congrArg (b :: ·) htail
  calc readFrames decode (sentFrames (handlerEvents (eventsAt x.other tr)))
      = readFrames decode arrived ++ readFrames decode (l.channel x) := by
        rw [harrived, readFrames_append]
    _ = read decode (parsedMsgs (handlerEvents (eventsAt x tr))) ++ inFlight decode Q x l := by
        rw [hread, read_append, inFlight, List.append_assoc]

end

/-- **Notifications arrive once, in order, with the right verdict.** In every run of a device and
an application that are linked: what the device has notified is what has arrived at the
application and what is on its way; the application has invoked the callbacks of what arrived that
are set; the answers to what arrived are what the device has heard and what is on its way back;
the device has invoked the callbacks of what it heard that are set; and if buffer ids are not
negative and callbacks return no positive number, a verdict is negative exactly when the callback
failed. -/
theorem notifications_once {Q : Nat} (hQ0 : 0 < Q) (hQ : Q < 2 ^ 16) {address : Side → U32}
    {rpmsg : Side → Nat × Nat} {name priv : Side → Nat} {cb : Side → CallbackTable}
    {tr : Trace LinkInput LinkEvent} {l : Link}
    (hrun : (linkMachine Q address).Run Orderly (linkStart rpmsg name priv cb) tr l) :
    ∃ arrived heardVerdicts,
      notified tr = arrived ++ inFlight noteOf Q .application l ∧
      applicationCallbacks tr = (heard (cb .application) arrived).map Note.callback ∧
      verdicts (cb .application) arrived (results tr)
        = heardVerdicts ++ inFlight verdictOf Q .device l ∧
      verdictCallbacks tr = heardVerdicts.filter (fun c => cb .device c.id) ∧
      ∀ (n : Note) (ret : U32), 0 ≤ n.id.toInt → ret.toInt ≤ 0 →
        ((n.verdict ret).toInt < 0 ↔ ret ≠ 0) := by
  have h := run_connected hQ0 hQ hrun
  have hnotes := (h.delivered .application).read_eq h.hears.carries
  have hverdicts := (h.delivered .device).read_eq h.answers.carries
  refine ⟨_, _, ?_, h.answers.invoked, ?_, h.hears.invoked, fun n ret => Note.verdict_neg_iff⟩
  · exact h.hears.sent.symm.trans hnotes
  · exact h.answers.sent.symm.trans hverdicts

/-- A `frag_ready` that the application parses inside `icap_pause`, and refuses. -/
def refusedRun : Trace LinkInput LinkEvent × Link :=
  (linkMachine 10 fun | .device => 30 | .application => 40).exec []
    (linkStart (fun _ => (0, 0)) (fun _ => 0) (fun _ => 0) fun
      | .device => (· = .fragReadyResponse)
      | .application => (· = .fragReady))
    [.run .application (.call (.pause 1) 0 0 fun _ => 0),
      .run .device (.call (.fragReady (some (Vector.replicate 8 5))) 0 0 fun _ => 0),
      .deliver .application 4096 (fun _ => 0), .run .application (.pass 0),
      .run .application (.callbackRet ⟨-ICAP_ERROR_INVALID, Vector.replicate 28 0⟩ 0),
      .deliver .device 8192 (fun _ => 0), .deliver .device 8704 (fun _ => 0),
      .run .device (.loop 0), .run .device (.loop 0)]

theorem refusedRun_run :
    (linkMachine 10 fun | .device => 30 | .application => 40).Run Orderly
      (linkStart (fun _ => (0, 0)) (fun _ => 0) (fun _ => 0) fun
        | .device => (· = .fragReadyResponse)
        | .application => (· = .fragReady)) refusedRun.1 refusedRun.2 :=
  Machine.Run.start.exec _
    ⟨⟨rfl, rfl⟩, rfl, trivial, rfl, rfl, trivial, trivial, rfl, rfl, trivial⟩

theorem notifications_once_refused :
    applicationCallbacks refusedRun.1 = [.fragReady (Vector.replicate 8 5)] ∧
      verdictCallbacks refusedRun.1 = [.fragReadyResponse (-ICAP_ERROR_INVALID)] ∧
      ∃ arrived, notified refusedRun.1
        = arrived ++ inFlight noteOf 10 .application refusedRun.2 := by
  obtain ⟨arrived, -, hnotified, -⟩ := notifications_once (by omega) (by omega) refusedRun_run
  exact ⟨by decide +kernel, by decide +kernel, arrived, hnotified⟩

end Icap.BareMetal
