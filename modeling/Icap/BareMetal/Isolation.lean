import Icap.BareMetal.Destination
import Icap.BareMetal.Inbox

set_option autoImplicit false

/-! # Isolation of the peer

ICAP is one-to-one: the first source heard becomes the peer. Frames of other sources are without
effect, before the peer is known and after. Deleting them from a run, with the calls of
`icap_loop` that handled them, gives a run again, and every run that handles what is left has
the same effects (`foreign_frames_without_effect`). The proof deletes frames from the inbox.
-/

namespace Icap.BareMetal

open ByteMemory Transition

/-! ## The peer -/

/-- The frame passes the version and the length check. -/
def wellFormed (m : IcapRemoteMsg) : Bool :=
  m.data.mem.protocolVersion = ICAP_PROTOCOL_VERSION && sizeMatches bareMetal m.data.mem m.size

/-- The source of the first frame that passes. -/
def firstPeer (ms : List IcapRemoteMsg) : Option U32 :=
  (ms.find? wellFormed).map fun m => m.srcAddr

def Input.arrival : Input → Option IcapRemoteMsg
  | .putMsg msg => some msg
  | _ => none

/-- The frames that have arrived. -/
def arrivals (tr : Trace Input Event) : List IcapRemoteMsg := tr.inputs.filterMap Input.arrival

/-! ## Effects -/

/-- The invocation of a callback, with its arguments, or a frame sent, with its destination. -/
def Event.effect : Event → Bool
  | .invoked _ => true
  | .sent _ _ _ _ => true
  | _ => false

def effects (ev : List Event) : List Event := ev.filter Event.effect

/-- Two runs have the same effects, and end with the same last response and the same peer. -/
structure SameEffects (tr : Trace Input Event) (s : State) (tr' : Trace Input Event)
    (s' : State) : Prop where
  effects : effects tr'.events = effects tr.events
  lastResponse : s'.lastResponse = s.lastResponse
  remoteAddr : s'.remoteAddr = s.remoteAddr

/-- The messages `icap_loop` handed over. -/
def handedOver (ev : List Event) : List IcapRemoteMsg := parsedMsgs (handlerEvents ev)

/-- The turn of the desk in a step. -/
def turn (e : Input × List Event) : Option Turn :=
  match e.1 with
  | .loop sendRet => (handedOver e.2).head?.map fun msg => .message msg sendRet
  | .callbackRet r sendRet => some (.result r sendRet)
  | _ => none

def turns (tr : Trace Input Event) : List Turn := tr.filterMap turn

/-- The step puts no frame of another source than `a` and handles none. -/
def concerns (a : U32) (e : Input × List Event) : Bool :=
  match e.1 with
  | .putMsg msg => msg.srcAddr = a
  | .loop _ => (handedOver e.2).all fun msg => msg.srcAddr = a
  | _ => true

def Turn.concerns (a : U32) : Turn → Bool
  | .message msg _ => msg.srcAddr = a
  | .result _ _ => true

/-! ## Logs -/

theorem firstPeer_append (ms ms' : List IcapRemoteMsg) :
    firstPeer (ms ++ ms') = (firstPeer ms).or (firstPeer ms') := by
  simp only [firstPeer, List.find?_append]
  cases ms.find? wellFormed <;> rfl

theorem firstPeer_cons_of_pos {m : IcapRemoteMsg} (h : wellFormed m = true)
    (ms : List IcapRemoteMsg) : firstPeer (m :: ms) = some m.srcAddr := by
  simp [firstPeer, h]

theorem firstPeer_cons_of_neg {m : IcapRemoteMsg} (h : ¬ wellFormed m = true)
    (ms : List IcapRemoteMsg) : firstPeer (m :: ms) = firstPeer ms := by
  simp [firstPeer, h]

theorem arrivals_snoc (tr : Trace Input Event) (i : Input) (ev : List Event) :
    arrivals (tr ++ [(i, ev)]) = arrivals tr ++ i.arrival.toList := by
  cases h : i.arrival <;> simp [arrivals, Trace.inputs, h]

/-- Only the receive interrupt brings a frame. -/
theorem arrivals_quiet {i : Input} (h : i.arrival = none) (tr : Trace Input Event)
    (ev : List Event) : arrivals (tr ++ [(i, ev)]) = arrivals tr := by
  rw [arrivals_snoc, h]
  exact List.append_nil _

/-- More frames do not change the first. -/
theorem firstPeer_mono {tr tr' : Trace Input Event} (h : tr <+: tr') {a : U32}
    (ha : firstPeer (arrivals tr) = some a) : firstPeer (arrivals tr') = some a := by
  obtain ⟨rest, rfl⟩ := h
  have happend : arrivals (tr ++ rest) = arrivals tr ++ arrivals rest := by
    simp [arrivals]
  rw [happend, firstPeer_append, ha]
  rfl

@[simp] theorem effects_append (ev ev' : List Event) :
    effects (ev ++ ev') = effects ev ++ effects ev' := by
  simp [effects]

theorem turns_snoc (tr : Trace Input Event) (i : Input) (ev : List Event) :
    turns (tr ++ [(i, ev)]) = turns tr ++ (turn (i, ev)).toList := by
  cases h : turn (i, ev) <;> simp [turns, h]

/-! ## What the desk does with a frame -/

section

variable {icap icap' : Instance} {m : IcapRemoteMsg} {p : Parse U32}

/-- A frame that fails a check is ignored. -/
theorem icapParseMsg_ignored
    (h : ¬ wellFormed m = true ∨
      icap.transport.remoteAddr ≠ -1 ∧ m.srcAddr ≠ icap.transport.remoteAddr) :
    ∃ e, icapParseMsg bareMetal icap m.srcAddr m.data.mem m.size = (icap, .done e) := by
  rw [icapParseMsg_target]
  rcases icapParseMsgTarget_cases (P := bareMetal) icap m.srcAddr m.data.mem m.size with
    ⟨e, heq⟩ | ⟨hremote, heq⟩ | ⟨cb, hchecked, -⟩
  · exact ⟨e, by rw [heq]; rfl⟩
  · have hsame : (bareMetal.icapVerifyRemote icap.transport m.srcAddr).1 = icap.transport :=
      icapVerifyRemote_refused hremote
    refine ⟨(bareMetal.icapVerifyRemote icap.transport m.srcAddr).2, ?_⟩
    rw [heq, hsame]
    rfl
  · exfalso
    rcases h with hform | ⟨hknown, hsrc⟩
    · apply hform
      simp only [wellFormed, hchecked.version, hchecked.length, decide_true, Bool.and_self]
    · rcases icapVerifyRemote_ok.mp hchecked.remote with hsame | hnone
      · exact hsrc hsame
      · exact hknown hnone

/-- A frame that passes is from the peer, or makes its source the peer. -/
theorem icapParseMsg_heard (hcb : icap.callbacks ≠ none) (hform : wellFormed m = true)
    (hremote : icap.transport.remoteAddr = -1 ∨ m.srcAddr = icap.transport.remoteAddr)
    (hp : icapParseMsg bareMetal icap m.srcAddr m.data.mem m.size = (icap', p)) :
    icap'.transport.remoteAddr = m.srcAddr := by
  obtain ⟨cb, hcb⟩ := Option.ne_none_iff_exists'.mp hcb
  simp only [wellFormed, Bool.and_eq_true, decide_eq_true_eq] at hform
  have hok : (icapVerifyRemote icap.transport m.srcAddr).2 = 0 :=
    icapVerifyRemote_ok.mpr hremote.symm
  have hchecked : Checked bareMetal icap m.srcAddr m.data.mem m.size cb :=
    ⟨hcb, hform.1, hform.2, hok⟩
  rw [icapParseMsg_target, hchecked.target_eq] at hp
  rw [← (Prod.mk.inj hp).1]
  exact icapVerifyRemote_addr hok

theorem Desk.resume_remoteAddr (icap : Instance) (sendRet : U32) (p : Parse U32) :
    (Desk.resume icap sendRet p).1.icap.transport.remoteAddr = icap.transport.remoteAddr :=
  congrArg (fun id => id.2.2) (Desk.resume_identity icap sendRet p)

theorem Desk.resume_callbacks (icap : Instance) (sendRet : U32) (p : Parse U32) :
    (Desk.resume icap sendRet p).1.icap.callbacks = icap.callbacks :=
  congrArg (fun id => id.1) (Desk.resume_identity icap sendRet p)

theorem Desk.resume_done (icap : Instance) (sendRet ret : U32) :
    Desk.resume icap sendRet (.done ret) = (⟨icap, none⟩, []) := rfl

theorem handedOver_runParse (sendRet : U32) (t : IcapTransport) (p : Parse U32) :
    handedOver (runParse sendRet t p).2.1 = [] := by
  induction p generalizing t with
  | done ret => rfl
  | callback c k _ => rfl
  | sendPlatform frame k ih => exact ih _ _
  | responseNotify response k ih => exact ih _ _

theorem handedOver_message (m : IcapRemoteMsg) (icap : Instance) (sendRet : U32)
    (p : Parse U32) : handedOver (.parsed m :: (Desk.resume icap sendRet p).2) = [m] :=
  congrArg (m :: ·) (handedOver_runParse sendRet icap.transport p)

end

/-! ## The peer of an inbox -/

abbrev Inbox.remoteAddr (b : Inbox) : U32 := b.desk.icap.transport.remoteAddr

/-- What is known of the peer: nothing, and the frames handled so far are ignored, or it is the
source of the first frame that passes. -/
inductive PeerState (tr : Trace Input Event) (b : Inbox) : Prop
  | unknown (hremote : b.remoteAddr = -1) (hidle : b.desk.pending = none)
      (hfirst : firstPeer (arrivals tr) = firstPeer b.queue)
  | known (hremote : b.remoteAddr ≠ -1) (hfirst : firstPeer (arrivals tr) = some b.remoteAddr)
      (hpending : b.desk.pending ≠ none →
        ∃ m rest, b.queue = m :: rest ∧ m.srcAddr = b.remoteAddr)

/-- The inbox of an initialised instance that hears endpoints only. -/
structure Listening (tr : Trace Input Event) (b : Inbox) : Prop where
  callbacks : b.desk.icap.callbacks ≠ none
  sources : ∀ m ∈ b.queue, m.srcAddr ≠ -1
  peer : PeerState tr b

section

variable {Q : Nat} {tr : Trace Input Event} {b b' : Inbox} {i : Input} {ev : List Event}

theorem Inbox.after_sources {d : Desk} (h : ∀ m ∈ b.queue, m.srcAddr ≠ -1) :
    ∀ m ∈ (b.after d).queue, m.srcAddr ≠ -1 := by
  intro m hm
  simp only [Inbox.after] at hm
  split_ifs at hm
  · exact h m hm
  · exact h m (List.mem_of_mem_tail hm)

/-- The message at the desk: ignored, or from the peer that is known from then on. -/
theorem Listening.message (h : Listening tr b) {m : IcapRemoteMsg} {rest : List IcapRemoteMsg}
    {icap : Instance} {p : Parse U32} (hqueue : b.queue = m :: rest)
    (hp : icapParseMsg bareMetal b.desk.icap m.srcAddr m.data.mem m.size = (icap, p)) :
    (icap = b.desk.icap ∧ (∃ e, p = .done e) ∧
      (b.remoteAddr = -1 → ¬ wellFormed m = true)) ∨
    (icap.transport.remoteAddr = m.srcAddr ∧ m.srcAddr ≠ -1 ∧
      firstPeer (arrivals tr) = some m.srcAddr) := by
  have hsrc : m.srcAddr ≠ -1 := h.sources m (by rw [hqueue]; exact List.mem_cons_self)
  -- a frame passes `icap_verify_remote` when no peer is known yet, or as the peer's
  by_cases hform : wellFormed m = true
  · cases h.peer with
    | unknown hremote _ hfirst =>
        refine Or.inr ⟨icapParseMsg_heard h.callbacks hform (Or.inl hremote) hp, hsrc, ?_⟩
        rw [hfirst, hqueue, firstPeer_cons_of_pos hform]
    | known hremote hfirst =>
        by_cases hpeer : m.srcAddr = b.remoteAddr
        · refine Or.inr ⟨icapParseMsg_heard h.callbacks hform (Or.inr hpeer) hp, hsrc, ?_⟩
          rw [hfirst, hpeer]
        · obtain ⟨e, he⟩ := icapParseMsg_ignored (Or.inr ⟨hremote, hpeer⟩)
          rw [hp] at he
          obtain ⟨rfl, rfl⟩ := Prod.mk.inj he
          exact Or.inl ⟨rfl, ⟨e, rfl⟩, fun hnone => absurd hnone hremote⟩
  · obtain ⟨e, he⟩ : ∃ e, icapParseMsg bareMetal b.desk.icap m.srcAddr m.data.mem m.size
        = (b.desk.icap, .done e) := icapParseMsg_ignored (Or.inl hform)
    rw [hp] at he
    obtain ⟨rfl, rfl⟩ := Prod.mk.inj he
    exact Or.inl ⟨rfl, ⟨e, rfl⟩, fun _ => hform⟩

theorem Listening.of_step (h : Listening tr b) (hok : Room Q tr b i)
    (hstep : b.step i = some (b', ev)) : Listening (tr ++ [(i, ev)]) b' := by
  have harrivals := arrivals_snoc tr i ev
  cases inbox_cases hstep with
  | put m =>
      obtain ⟨hsrc, -⟩ := hok
      refine ⟨h.callbacks, ?_, ?_⟩
      · intro m' hm'
        rcases List.mem_append.mp hm' with hm' | hm'
        · exact h.sources m' hm'
        · rw [List.mem_singleton.mp hm']
          exact hsrc
      -- a frame that arrives becomes the first only when none came before it
      · cases h.peer with
        | unknown hremote hidle hfirst =>
            refine .unknown hremote hidle ?_
            rw [harrivals, firstPeer_append, hfirst, ← firstPeer_append]
            rfl
        | known hremote hfirst hpending =>
            refine .known hremote ?_ fun hp => ?_
            · rw [harrivals, firstPeer_append, hfirst]
              rfl
            · obtain ⟨m', rest, hqueue, hpeer⟩ := hpending hp
              exact ⟨m', rest ++ [m], by rw [hqueue]; rfl, hpeer⟩
  | empty sendRet hqueue =>
      have hsame : arrivals (tr ++ [(.loop sendRet, [])]) = arrivals tr := arrivals_quiet rfl tr []
      refine ⟨h.callbacks, h.sources, ?_⟩
      cases h.peer with
      | unknown hremote hidle hfirst => exact .unknown hremote hidle (by rw [hsame, hfirst])
      | known hremote hfirst hpending => exact .known hremote (by rw [hsame, hfirst]) hpending
  | message sendRet m rest icap p hqueue hidle hp =>
      have hsame (ev : List Event) : arrivals (tr ++ [(.loop sendRet, ev)]) = arrivals tr :=
        arrivals_quiet rfl tr ev
      rcases h.message hqueue hp with ⟨rfl, ⟨e, rfl⟩, hform⟩ | ⟨hremote, hsrc, hfirst⟩
      -- an ignored frame leaves the desk as it was and goes from the queue
      · have hrest : (b.after ⟨b.desk.icap, none⟩).queue = rest := by
          simp [Inbox.after, hqueue]
        refine ⟨h.callbacks, Inbox.after_sources h.sources, ?_⟩
        cases h.peer with
        | unknown hnone _ hfirst =>
            refine .unknown hnone rfl ?_
            rw [Desk.resume_done, hrest, hsame, hfirst, hqueue, firstPeer_cons_of_neg (hform hnone)]
        | known hknown hfirst => exact .known hknown (by rw [hsame]; exact hfirst) (absurd rfl)
      -- the frame that passes makes its source the peer, or comes from it
      · have hremote' : (b.after (Desk.resume icap sendRet p).1).remoteAddr = m.srcAddr :=
          (Desk.resume_remoteAddr icap sendRet p).trans hremote
        have hcb : icap.callbacks = b.desk.icap.callbacks := by
          obtain ⟨addr, ha⟩ := icapParseMsg_eq b.desk.icap m.srcAddr m.data.mem m.size
          rw [hp] at ha
          rw [show icap = _ from ha]
        refine ⟨?_, Inbox.after_sources h.sources, .known ?_ ?_ fun hpending => ?_⟩
        · rw [Inbox.after, Desk.resume_callbacks, hcb]
          exact h.callbacks
        · rw [hremote']
          exact hsrc
        · rw [hsame, hremote', hfirst]
        · refine ⟨m, rest, ?_, hremote'.symm⟩
          simp only [Inbox.after] at hpending ⊢
          rw [if_pos (Option.isSome_iff_ne_none.mpr hpending), hqueue]
  | result r sendRet k hk =>
      have hsame (ev : List Event) :
          arrivals (tr ++ [(.callbackRet r sendRet, ev)]) = arrivals tr :=
        arrivals_quiet rfl tr ev
      have hremote' : (b.after (Desk.resume b.desk.icap sendRet (k r)).1).remoteAddr
          = b.remoteAddr := Desk.resume_remoteAddr b.desk.icap sendRet (k r)
      refine ⟨?_, Inbox.after_sources h.sources, ?_⟩
      · rw [Inbox.after, Desk.resume_callbacks]
        exact h.callbacks
      · cases h.peer with
        | unknown _ hidle => simp [hk] at hidle
        | known hknown hfirst hpending =>
            refine .known ?_ ?_ fun hstill => ?_
            · rw [hremote']
              exact hknown
            · rw [hsame, hremote', hfirst]
            · obtain ⟨m, rest, hqueue, hpeer⟩ := hpending (by rw [hk]; simp)
              refine ⟨m, rest, ?_, hpeer.trans hremote'.symm⟩
              simp only [Inbox.after] at hstill ⊢
              rw [if_pos (Option.isSome_iff_ne_none.mpr hstill), hqueue]

/-! ## Deleting foreign frames -/

def fromSource (a : U32) (m : IcapRemoteMsg) : Bool := m.srcAddr = a

/-- A run and the same run without the frames of other sources than `a`. -/
structure Purged (a : U32) (tr : Trace Input Event) (b : Inbox) (tr' : Trace Input Event)
    (b' : Inbox) : Prop where
  listening : Listening tr b
  desk : b'.desk = b.desk
  queue : b'.queue = b.queue.filter (fromSource a)
  turns : turns tr' = (turns tr).filter (Turn.concerns a)
  shown : effects tr'.events = effects tr.events

variable {a : U32} {tr' : Trace Input Event} {c : Inbox}

theorem Inbox.after_filter {m : IcapRemoteMsg} {rest : List IcapRemoteMsg}
    (hqueue : b.queue = m :: rest) (hm : fromSource a m = true)
    (h : c.queue = b.queue.filter (fromSource a)) (d : Desk) :
    (c.after d).queue = (b.after d).queue.filter (fromSource a) := by
  simp only [Inbox.after]
  split_ifs
  · exact h
  · rw [h, hqueue, List.filter_cons_of_pos hm]
    rfl

/-- A step that both runs take. -/
theorem Purged.both (h : Purged a tr b tr' c) (hlisten : Listening (tr ++ [(i, ev)]) b')
    {c' : Inbox} (hdesk : c'.desk = b'.desk) (hqueue : c'.queue = b'.queue.filter (fromSource a))
    (hturn : ∀ t ∈ turn (i, ev), t.concerns a = true) :
    Purged a (tr ++ [(i, ev)]) b' (tr' ++ [(i, ev)]) c' := by
  refine ⟨hlisten, hdesk, hqueue, ?_, ?_⟩
  · rw [turns_snoc, turns_snoc, h.turns, List.filter_append]
    cases ht : turn (i, ev) with
    | none => rfl
    | some t =>
        have hkeep := hturn t (by rw [ht]; rfl)
        rw [Option.toList_some, List.filter_cons_of_pos hkeep, List.filter_nil]
  · rw [Trace.events_append, Trace.events_append, effects_append, effects_append, h.shown]

/-- A step that is deleted. -/
theorem Purged.dropped (h : Purged a tr b tr' c) (hlisten : Listening (tr ++ [(i, ev)]) b')
    (hdesk : b'.desk = b.desk)
    (hqueue : b'.queue.filter (fromSource a) = b.queue.filter (fromSource a))
    (hturn : ∀ t ∈ turn (i, ev), t.concerns a = false) (heffects : effects ev = []) :
    Purged a (tr ++ [(i, ev)]) b' tr' c := by
  refine ⟨hlisten, h.desk.trans hdesk.symm, h.queue.trans hqueue.symm, ?_, ?_⟩
  · rw [turns_snoc, h.turns, List.filter_append]
    cases ht : turn (i, ev) with
    | none => exact (List.append_nil _).symm
    | some t =>
        have hdrop : ¬ t.concerns a = true := by simp [hturn t (by rw [ht]; rfl)]
        rw [Option.toList_some, List.filter_cons_of_neg hdrop, List.filter_nil, List.append_nil]
  · rw [Trace.events_append, effects_append, Trace.events_singleton, heffects, List.append_nil,
      h.shown]

theorem turn_message (sendRet : U32) (m : IcapRemoteMsg) (icap : Instance) (p : Parse U32) :
    turn (.loop sendRet, .parsed m :: (Desk.resume icap sendRet p).2)
      = some (.message m sendRet) := by
  simp only [turn, handedOver_message, List.head?_cons, Option.map_some]

theorem concerns_message (a sendRet : U32) (m : IcapRemoteMsg) (icap : Instance)
    (p : Parse U32) :
    concerns a (.loop sendRet, .parsed m :: (Desk.resume icap sendRet p).2)
      = fromSource a m := by
  simp only [concerns, handedOver_message, List.all_cons, List.all_nil, Bool.and_true, fromSource]

/-- Each step is taken by both runs, or is that of a foreign frame and without effect. -/
theorem Purged.of_step (h : Purged a tr b tr' c) (hok : Room Q tr b i)
    (hstep : b.step i = some (b', ev))
    (ha : ∀ addr, firstPeer (arrivals (tr ++ [(i, ev)])) = some addr → addr = a) :
    (concerns a (i, ev) = true ∧ ∃ c' ev', Room Q tr' c i ∧ c.step i = some (c', ev') ∧
      Purged a (tr ++ [(i, ev)]) b' (tr' ++ [(i, ev')]) c')
    ∨ (concerns a (i, ev) = false ∧ Purged a (tr ++ [(i, ev)]) b' tr' c) := by
  have hlisten := h.listening.of_step hok hstep
  -- the desks of the two runs are equal, so a frame of the peer has the same effect in both
  cases inbox_cases hstep with
  | put m =>
      by_cases hm : fromSource a m = true
      · refine Or.inl ⟨hm, ⟨c.desk, c.queue ++ [m]⟩, [], ⟨hok.1, ?_⟩, rfl,
          h.both hlisten h.desk ?_ nofun⟩
        · have hle := List.length_filter_le (fromSource a) b.queue
          rw [h.queue]
          exact Nat.lt_of_le_of_lt (Nat.add_le_add_right hle 1) hok.2
        · rw [h.queue, List.filter_append, List.filter_cons_of_pos hm]
          rfl
      · refine Or.inr ⟨by simpa [concerns, fromSource] using hm,
          h.dropped hlisten rfl ?_ nofun rfl⟩
        rw [List.filter_append, List.filter_cons_of_neg hm]
        exact List.append_nil _
  | empty sendRet hqueue =>
      have hnil : c.queue = [] := by rw [h.queue, hqueue]; rfl
      refine Or.inl ⟨rfl, c, [], trivial, ?_, h.both hlisten h.desk h.queue nofun⟩
      simp only [Inbox.step, hnil]
  | message sendRet m rest icap p hqueue hidle hp =>
      rw [concerns_message]
      have hturn := turn_message sendRet m icap p
      by_cases hm : fromSource a m = true
      · have hqueue' : c.queue = m :: rest.filter (fromSource a) := by
          rw [h.queue, hqueue, List.filter_cons_of_pos hm]
        refine Or.inl ⟨hm, _, _, trivial, Inbox.step_message sendRet hqueue' ?_ ?_,
          h.both hlisten rfl (Inbox.after_filter hqueue hm h.queue _) ?_⟩
        · rw [h.desk]
          exact hidle
        · rw [h.desk]
          exact hp
        · rw [hturn]
          rintro t ⟨⟩
          exact hm
      · -- the frame is ignored: were it heard, `a` would be its source
        have hsrc : m.srcAddr ≠ a := by simpa [fromSource] using hm
        rcases h.listening.message hqueue hp with ⟨rfl, ⟨e, rfl⟩, -⟩ | ⟨-, -, hfirst⟩
        · refine Or.inr ⟨by simpa using hm, h.dropped hlisten ?_ ?_ ?_ rfl⟩
          · rw [Desk.resume_done, Inbox.after, ← hidle]
          · rw [Desk.resume_done, hqueue, List.filter_cons_of_neg hm]
            simp [Inbox.after, hqueue]
          · rw [hturn]
            rintro t ⟨⟩
            simpa [Turn.concerns] using hsrc
        · exact absurd (ha _ (firstPeer_mono (List.prefix_append _ _) hfirst)) hsrc
  -- a callback runs for a frame of the peer only
  | result r sendRet k hk =>
      obtain ⟨m, rest, hqueue, hm⟩ : ∃ m rest, b.queue = m :: rest ∧ fromSource a m = true := by
        cases h.listening.peer with
        | unknown _ hidle => simp [hk] at hidle
        | known _ hfirst hpending =>
            obtain ⟨m, rest, hqueue, hpeer⟩ := hpending (by rw [hk]; simp)
            have haddr : b.remoteAddr = a :=
              ha _ (firstPeer_mono (List.prefix_append _ _) hfirst)
            exact ⟨m, rest, hqueue, by simp [fromSource, hpeer, haddr]⟩
      have hk' : c.desk.pending = some k := by rw [h.desk]; exact hk
      refine Or.inl ⟨rfl, _, _, trivial, Inbox.step_result r sendRet hk', ?_⟩
      rw [h.desk]
      refine h.both hlisten rfl (Inbox.after_filter hqueue hm h.queue _) ?_
      rintro t ⟨⟩
      rfl

/-! ## Destinations -/

theorem Desk.resume_sentTo (icap : Instance) (sendRet : U32) (p : Parse U32) :
    SentTo icap.transport.remoteAddr (Desk.resume icap sendRet p).2 :=
  runParse_sentTo sendRet icap.transport p

/-- What an inbox sends goes to the peer. -/
theorem Listening.sends (h : Listening tr b) (hstep : b.step i = some (b', ev)) :
    ∀ addr ∈ destinations ev, firstPeer (arrivals (tr ++ [(i, ev)])) = some addr := by
  intro addr haddr
  refine firstPeer_mono (List.prefix_append tr _) ?_
  cases inbox_cases hstep with
  | put | empty => cases haddr
  | message sendRet m rest icap p hqueue _ hp =>
      have hto : addr = icap.transport.remoteAddr := (Desk.resume_sentTo icap sendRet p).mem haddr
      rcases h.message hqueue hp with ⟨-, ⟨e, rfl⟩, -⟩ | ⟨hremote, -, hfirst⟩
      · cases haddr
      · rw [hfirst, hto, hremote]
  | result r sendRet k hk =>
      have hto : addr = b.remoteAddr :=
        (Desk.resume_sentTo b.desk.icap sendRet (k r)).mem haddr
      cases h.peer with
      | unknown _ hidle => simp [hk] at hidle
      | known _ hfirst => rw [hfirst, hto]

/-! ## The turns of a run -/

/-- The turns of an inbox are a run of its desk. -/
theorem desk_run {b₀ : Inbox} (hrun : inbox.Run (Room Q) b₀ tr b) :
    ∃ trd, desk.Run (fun _ _ _ => True) b₀.desk trd b.desk ∧ trd.inputs = turns tr ∧
      trd.events = tr.events := by
  induction hrun with
  | start => exact ⟨[], .start, rfl, rfl⟩
  | @step tr b b' i ev _ _ hs ih =>
      obtain ⟨trd, hrd, hin, hev⟩ := ih
      have hs' : b.step i = some (b', ev) := hs
      rw [turns_snoc, Trace.events_append, Trace.events_singleton, ← hin, ← hev]
      cases inbox_cases hs' with
      | put m => exact ⟨trd, hrd, (List.append_nil _).symm, (List.append_nil _).symm⟩
      | empty sendRet => exact ⟨trd, hrd, (List.append_nil _).symm, (List.append_nil _).symm⟩
      | message sendRet m rest icap p hqueue hidle hp =>
          refine ⟨trd ++ [(.message m sendRet, .parsed m :: (Desk.resume icap sendRet p).2)],
            hrd.step trivial ?_, ?_, ?_⟩
          · simp only [desk, Desk.turn, hidle, hp]
            rfl
          · rw [turn_message, Trace.inputs_append]
            rfl
          · rw [Trace.events_append, Trace.events_singleton]
      | result r sendRet k hk =>
          refine ⟨trd ++ [(.result r sendRet, (Desk.resume b.desk.icap sendRet (k r)).2)],
            hrd.step trivial ?_, ?_, ?_⟩
          · simp only [desk, Desk.turn, hk]
            rfl
          · rw [Trace.inputs_append]
            rfl
          · rw [Trace.events_append, Trace.events_singleton]

/-- The same turns have the same effects. -/
theorem desk_eq_of_turns {b₀ : Inbox} (hrun : inbox.Run (Room Q) b₀ tr b)
    (hrun' : inbox.Run (Room Q) b₀ tr' c) (hturns : turns tr = turns tr') :
    tr.events = tr'.events ∧ b.desk = c.desk := by
  obtain ⟨trd, hrd, hin, hev⟩ := desk_run hrun
  obtain ⟨trd', hrd', hin', hev'⟩ := desk_run hrun'
  obtain ⟨rfl, hdesk⟩ := hrd.eq_of_inputs hrd' (by rw [hin, hin', hturns])
  exact ⟨hev.symm.trans hev', hdesk⟩

/-! ## Runs -/

/-- The inbox of an instance that has just been initialised. -/
theorem listening_start (hcb : b.desk.icap.callbacks ≠ none) (hremote : b.remoteAddr = -1)
    (hqueue : b.queue = []) (hidle : b.desk.pending = none) : Listening [] b := by
  refine ⟨hcb, ?_, .unknown hremote hidle ?_⟩
  · rw [hqueue]
    nofun
  · rw [hqueue]
    rfl

/-- Deleting the foreign frames leaves a run. -/
theorem inbox_purge {b₀ : Inbox} (h0 : Listening [] b₀) (hempty : b₀.queue = [])
    (hrun : inbox.Run (Room Q) b₀ tr b) (ha : firstPeer (arrivals tr) = some a) :
    ∃ tr' c, inbox.Run (Room Q) b₀ tr' c ∧ tr'.inputs = Trace.inputs (tr.filter (concerns a)) ∧
      Purged a tr b tr' c := by
  refine hrun.simulate (concerns a) (R := Purged a) ⟨h0, rfl, ?_, rfl, rfl⟩ ?_
  · rw [hempty]
    rfl
  · intro tr₁ b₁ b₂ i ev tr' c hprefix hpurged hok hstep
    refine hpurged.of_step hok hstep fun addr haddr => ?_
    have hwhole := firstPeer_mono hprefix haddr
    rw [ha] at hwhole
    exact (Option.some.inj hwhole).symm

theorem inbox_sends {b₀ : Inbox} (h0 : Listening [] b₀) (hrun : inbox.Run (Room Q) b₀ tr b) :
    Listening tr b ∧
      ∀ addr ∈ destinations tr.events, firstPeer (arrivals tr) = some addr := by
  induction hrun with
  | start => exact ⟨h0, nofun⟩
  | step _ hok hs ih =>
      obtain ⟨hlisten, hsends⟩ := ih
      refine ⟨hlisten.of_step hok hs, fun addr haddr => ?_⟩
      rw [Trace.events_append, Trace.events_singleton, destinations_append] at haddr
      rcases List.mem_append.mp haddr with haddr | haddr
      · exact firstPeer_mono (List.prefix_append _ _) (hsends addr haddr)
      · exact hlisten.sends hs addr haddr

end

/-! ## The trace at the desk -/

theorem deskTrace_inputs (tr : Trace Input Event) : (deskTrace tr).inputs = tr.inputs := by
  simp [deskTrace, Trace.inputs]

theorem deskTrace_events (tr : Trace Input Event) :
    (deskTrace tr).events = tr.events.filter Event.onDesk := by
  induction tr with
  | nil => rfl
  | cons e tr ih =>
      have hcons (tr : Trace Input Event) (e : Input × List Event) :
          Trace.events (e :: tr) = e.2 ++ tr.events := rfl
      rw [hcons, List.filter_append, ← ih]
      rfl

theorem handedOver_onDesk (ev : List Event) :
    handedOver (ev.filter Event.onDesk) = handedOver ev := by
  induction ev with
  | nil => rfl
  | cons e ev ih =>
      cases e with
      | parsed msg => exact congrArg (msg :: ·) ih
      | _ => exact ih

theorem deskTrace_turns (tr : Trace Input Event) : turns (deskTrace tr) = turns tr := by
  simp only [turns, deskTrace, List.filterMap_map]
  congr 1
  funext e
  simp only [Function.comp, turn, handedOver_onDesk]

theorem deskTrace_concerns (a : U32) (tr : Trace Input Event) :
    Trace.inputs ((deskTrace tr).filter (concerns a)) = Trace.inputs (tr.filter (concerns a)) := by
  have hsame (e : Input × List Event) :
      concerns a (e.1, e.2.filter Event.onDesk) = concerns a e := by
    simp only [concerns, handedOver_onDesk]
  induction tr with
  | nil => rfl
  | cons e tr ih =>
      simp only [deskTrace, List.map_cons, List.filter_cons, hsame]
      split_ifs
      · exact congrArg (e.1 :: ·) ih
      · exact ih

theorem effects_onDesk (ev : List Event) : effects (ev.filter Event.onDesk) = effects ev := by
  induction ev with
  | nil => rfl
  | cons e ev ih =>
      cases e with
      | invoked c => exact congrArg (Event.invoked c :: ·) ih
      | sent rpmsgInstance rpmsgEpt addr frame =>
          exact congrArg (Event.sent rpmsgInstance rpmsgEpt addr frame :: ·) ih
      | _ => exact ih

theorem destinations_onDesk (ev : List Event) :
    destinations (ev.filter Event.onDesk) = destinations ev := by
  induction ev with
  | nil => rfl
  | cons e ev ih =>
      cases e with
      | sent _ _ addr _ => exact congrArg (addr :: ·) ih
      | _ => exact ih

/-! ## Isolation -/

/-- The inbox of an instance just initialised knows no peer. -/
theorem inboxOf_init {Q : Nat} {before s₀ : State} {i₀ : Input} {ev₀ : List Event} (hQ0 : 0 < Q)
    (hidle : before.stack = []) (hopen : opensTransport before i₀ = true)
    (hinit : step Q before i₀ = some (s₀, ev₀)) :
    Receiving Q s₀ ∧ (inboxOf Q s₀).queue = [] ∧ Listening [] (inboxOf Q s₀) := by
  obtain ⟨hreceiving, hremote, hqueue⟩ := Receiving.of_init hQ0 hidle hopen hinit
  have hpending : (inboxOf Q s₀).desk.pending = none := by
    rcases hreceiving.stack with hs | ⟨hne, -⟩
    · exact hreceiving.idle_iff.mpr hs
    · exact absurd (hreceiving.valid.contents_eq_nil.mp hqueue) hne
  exact ⟨hreceiving, hqueue, listening_start hreceiving.callbacks hremote hqueue hpending⟩

/-- **Foreign frames are without effect.** From an init on, frames are put while there is room and
looped in any order. Let `a` be the source of the first that passes the version and the length
check. All answers go to `a`; the run without the frames of other sources, and without the
calls of `icap_loop` that handled them, exists; and every run that handles what is left, with
the same results of callbacks and sends, has the same effects. -/
theorem foreign_frames_without_effect {Q : Nat} (hQ0 : 0 < Q) (hQ : Q < 2 ^ 16)
    {before s₀ : State} {i₀ : Input} {ev₀ : List Event} (hidle : before.stack = [])
    (hopen : opensTransport before i₀ = true) (hinit : step Q before i₀ = some (s₀, ev₀))
    {tr : Trace Input Event} {s : State} (hrun : (machine Q).Run (Traffic Q) s₀ tr s) {a : U32}
    (ha : firstPeer (arrivals tr) = some a) :
    (∀ addr ∈ destinations tr.events, addr = a) ∧
    (∃ tr' s', (machine Q).Run (Traffic Q) s₀ tr' s' ∧
      tr'.inputs = Trace.inputs (tr.filter (concerns a)) ∧
      turns tr' = (turns tr).filter (Turn.concerns a)) ∧
    ∀ tr' s', (machine Q).Run (Traffic Q) s₀ tr' s' →
      turns tr' = (turns tr).filter (Turn.concerns a) → SameEffects tr s tr' s' := by
  obtain ⟨hreceiving, hempty, hlisten⟩ := inboxOf_init hQ0 hidle hopen hinit
  obtain ⟨-, hinbox⟩ := hreceiving.run hQ hrun
  have harrivals : arrivals (deskTrace tr) = arrivals tr := by
    rw [arrivals, arrivals, deskTrace_inputs]
  obtain ⟨tr₁, c, hpurged, hin, hsame⟩ :=
    inbox_purge hlisten hempty hinbox (by rw [harrivals]; exact ha)
  refine ⟨fun addr haddr => ?_, ?_, fun tr' s' hrun' hturns => ?_⟩
  · have hsends := (inbox_sends hlisten hinbox).2 addr
    rw [deskTrace_events, destinations_onDesk, harrivals, ha] at hsends
    exact (Option.some.inj (hsends haddr)).symm
  · obtain ⟨tr', s', hrun', -, -, rfl⟩ := hreceiving.run_of_inbox hQ hpurged
    refine ⟨tr', s', hrun', ?_, ?_⟩
    · rw [← deskTrace_inputs, hin, deskTrace_concerns]
    · rw [← deskTrace_turns tr', hsame.turns, deskTrace_turns]
  · -- the other run takes the turns of the one without foreign frames
    obtain ⟨-, hinbox'⟩ := hreceiving.run hQ hrun'
    obtain ⟨hevents, hdesk⟩ := desk_eq_of_turns hinbox' hpurged
      (by rw [deskTrace_turns, hturns, hsame.turns, deskTrace_turns])
    have hicap : withFifo s'.icap .zero = withFifo s.icap .zero :=
      congrArg Desk.icap (hdesk.trans hsame.desk)
    refine ⟨?_, ?_, ?_⟩
    · calc effects tr'.events = effects (deskTrace tr').events := by
            rw [deskTrace_events, effects_onDesk]
        _ = effects tr₁.events := by rw [hevents]
        _ = effects (deskTrace tr).events := hsame.shown
        _ = effects tr.events := by rw [deskTrace_events, effects_onDesk]
    · exact congrArg (fun icap => icap.transport.lastResponse) hicap
    · exact congrArg (fun icap => icap.transport.remoteAddr) hicap

def fragReadyFrom (addr : Nat) (src : U32) : IcapRemoteMsg :=
  ⟨⟨addr, ofList (icapMsgFrame ICAP_MSG_FRAG_READY ICAP_MSG 1 (List.replicate 8 0))⟩, 48, src⟩

/-- A `FRAG_READY` from 7 with one from 9 behind it. -/
def mixedTraffic : Trace Input Event × State :=
  (machine 10).exec [] silentApplication [.putMsg (fragReadyFrom 4096 7),
    .putMsg (fragReadyFrom 8192 9), .loop 0, .callbackRet handledResult 0, .loop 0]

theorem mixedTraffic_run :
    (machine 10).Run (Traffic 10) silentApplication mixedTraffic.1 mixedTraffic.2 := by
  refine Machine.Run.start.exec _ ⟨⟨?_, ?_⟩, ⟨?_, ?_⟩, rfl, trivial, rfl, trivial⟩
  · exact (by decide : (7 : U32) ≠ -1)
  · exact (by decide : (1 : Nat) ≠ 0)
  · exact (by decide : (9 : U32) ≠ -1)
  · exact (by decide : (2 : Nat) ≠ 0)

theorem mixedTraffic_arrivals :
    arrivals mixedTraffic.1 = [fragReadyFrom 4096 7, fragReadyFrom 8192 9] := rfl

/-- The frame from 9 and the `icap_loop` that refuses it are deleted. -/
theorem foreign_frames_without_effect_one : ∃ tr' s',
    (machine 10).Run (Traffic 10) silentApplication tr' s' ∧ tr'.inputs.length = 3 ∧
    destinations mixedTraffic.1.events = [7] ∧
    SameEffects mixedTraffic.1 mixedTraffic.2 tr' s' := by
  have hinit : step 10 (.zeroed 0 0) (.applicationInit 0 (some (· = .fragReady)) 0)
      = some (silentApplication, [.lifecycle 0]) := rfl
  have hfirst : firstPeer (arrivals mixedTraffic.1) = some 7 := by
    rw [mixedTraffic_arrivals]
    decide +kernel
  obtain ⟨-, ⟨tr', s', hrun, hin, hturns⟩, heffects⟩ :=
    foreign_frames_without_effect (by decide) (by decide) rfl rfl hinit mixedTraffic_run hfirst
  refine ⟨tr', s', hrun, ?_, by decide +kernel, heffects tr' s' hrun hturns⟩
  rw [hin]
  decide +kernel

end Icap.BareMetal
