import Icap.Linux.Notes
import Icap.Transports.Remote

set_option autoImplicit false

/-! # Notifications between a bare-metal device and a Linux application

The way of notifications in the system of `Icap.Transports.Remote`: the device notifies, a note that
arrives is taken by one of the receivers of the application, whose callbacks run at the same time,
and the answers come back in any order. Every verdict callback of the device is for what a receiver
made of a note, and no two are for one note (`notes_answered`).
-/

namespace Icap.Remote

open ByteMemory Transition BareMetal

section

variable {Q bits : Nat} {peer : U32} {rpdev : Option U32} {rpmsg : Nat × Nat}
  {name priv : Side → Nat} {cb : Side → CallbackTable} {tr : SystemTrace} {p : System}

/-! ## The runs of the sides -/

/-- What comes to the application are frames of a device. -/
theorem application_heard (hQ0 : 0 < Q) (hQ : Q < 2 ^ 16)
    (h : (pairMachine (application bits) (device Q)).Run (Orderly peer)
      (start bits rpdev rpmsg name priv cb) tr p) :
    (Linux.machine bits).Run Linux.Heard
      (Linux.State.opened bits rpdev (name .application) (cb .application) (priv .application))
      (leftTrace tr) p.left := by
  refine h.left fun tr₁ p₁ inp rest hr _ htake hok => ?_
  obtain ⟨i, a⟩ := inp
  cases a with
  | receive srcAddr msg size =>
      have hframe : block msg 0 size.toNat ∈ (device Q).sent (rightTrace tr₁) :=
        hr.next_left rfl rfl htake
      rw [device_sent] at hframe
      refine ⟨block msg 0 size.toNat, ?_, holds_block msg _, ?_⟩
      · exact ((run_attends hQ0 hQ (device_run hr)).speaks.frames _ hframe).carries_note
      · rw [block_length, BitVec.ofNat_toNat, BitVec.setWidth_eq]
  | call c uninit => exact ⟨rfl, rfl⟩
  | _ => exact hok

/-- The application sends no frame in which a device reads a verdict that is not there. -/
theorem application_carries (hQ0 : 0 < Q) (hQ : Q < 2 ^ 16) (hbits : 32 ≤ bits)
    (h : (pairMachine (application bits) (device Q)).Run (Orderly peer)
      (start bits rpdev rpmsg name priv cb) tr p) {frame : List Byte}
    (hframe : frame ∈ (application bits).sent (leftTrace tr)) : Carries verdictOf frame := by
  have hasked := Linux.run_asked (application_run h)
  have hlistens := Linux.run_hears hbits (application_heard hQ0 hQ h)
  obtain ⟨e, he, heq⟩ := List.mem_filterMap.mp hframe
  cases e with
  | sentMsg m =>
      obtain rfl := Option.some.inj heq
      obtain ⟨cmd, payload, hreq, hlen⟩ := request_eq (hasked.asks m (hasked.sent m he)).request
      rw [hreq]
      exact (carries_request cmd m.seqNum hlen).1
  | sentResponse frame' =>
      obtain rfl := Option.some.inj heq
      exact hlistens.carries he
  | _ => cases heq

/-- What comes to the device are requests and answers to notes. -/
theorem device_fedVerdicts (hQ0 : 0 < Q) (hQ : Q < 2 ^ 16) (hbits : 32 ≤ bits)
    (h : (pairMachine (application bits) (device Q)).Run (Orderly peer)
      (start bits rpdev rpmsg name priv cb) tr p) :
    (machine Q).Run (FedVerdicts peer)
      (deviceStart rpmsg (name .device) (priv .device) (cb .device)) (rightTrace tr) p.right := by
  refine h.right fun tr₁ p₁ i rest hr _ htake hok => ?_
  have hasked := Linux.run_asked (application_run hr)
  cases i with
  | putMsg m =>
      have hmem : bufferFrame m ∈ (application bits).sent (leftTrace tr₁) :=
        hr.next_right rfl rfl htake
      have hfrom : FromPeer peer (bufferFrame m) m := fromPeer_bufferFrame hok
      exact ⟨⟨bufferFrame m, hasked.frame hmem, hfrom⟩, List.forall_mem_singleton.mpr
        ⟨bufferFrame m, application_carries hQ0 hQ hbits hr hmem, hfrom⟩⟩
  | _ => exact ⟨hok, List.forall_mem_nil _⟩

/-! ## Notes on their way -/

/-- The application takes notes that the device has sent, in order. -/
theorem taken_sublist (hQ0 : 0 < Q) (hQ : Q < 2 ^ 16) (hbits : 32 ≤ bits)
    (h : (pairMachine (application bits) (device Q)).Run (Orderly peer)
      (start bits rpdev rpmsg name priv cb) tr p) :
    (Linux.takenNotes (leftTrace tr)).Sublist (notifiedNotes (rightTrace tr)) := by
  have hattends := run_attends hQ0 hQ (device_run h)
  obtain ⟨hverdicts, -⟩ := run_hearsVerdicts hQ0 hQ (device_fedVerdicts hQ0 hQ hbits h)
  have hcarried := (List.sublist_append_left _ _).trans (h.carried rfl rfl).1
  have hread : Linux.takenNotes (leftTrace tr)
      = readFrames noteOf ((application bits).taken (leftTrace tr)) := by
    rw [Linux.takenNotes, readFrames, Party.taken, List.filterMap_filterMap]
    refine List.filterMap_congr fun inp hinp => ?_
    obtain ⟨i, a⟩ := inp
    cases a with
    | receive srcAddr msg size =>
        have hmem : block msg 0 size.toNat ∈ (device Q).sent (rightTrace tr) :=
          hcarried.mem (List.mem_filterMap.mpr ⟨_, hinp, rfl⟩)
        rw [device_sent] at hmem
        exact (hattends.speaks.frames _ hmem).carries_note.reads msg (holds_block msg _)
    | _ => rfl
  rw [hread, ← hverdicts.sent, ← device_sent (Q := Q)]
  exact hcarried.filterMap _

/-- The device hears verdicts that the application has sent, in order. -/
theorem heard_sublist (hQ0 : 0 < Q) (hQ : Q < 2 ^ 16) (hbits : 32 ≤ bits)
    (h : (pairMachine (application bits) (device Q)).Run (Orderly peer)
      (start bits rpdev rpmsg name priv cb) tr p) :
    (BareMetal.read verdictOf (parsedMsgs (handlerEvents (rightTrace tr).events))).Sublist
      (Linux.verdictsOf (Linux.answerFrames (leftTrace tr))) := by
  have hattends := run_attends hQ0 hQ (device_run h)
  have hasked := Linux.run_asked (application_run h)
  have hcarried := (List.sublist_append_left _ _).trans (h.carried rfl rfl).2
  rw [device_taken] at hcarried
  have hcarries : ∀ m ∈ putMsgs (rightTrace tr), Carries verdictOf (bufferFrame m) := fun m hm =>
    application_carries hQ0 hQ hbits h (hcarried.mem (List.mem_map_of_mem hm))
  -- a request is no verdict
  have hsent : readFrames verdictOf ((application bits).sent (leftTrace tr))
      = Linux.verdictsOf (Linux.answerFrames (leftTrace tr)) := by
    rw [readFrames, Party.sent, Linux.verdictsOf, Linux.answerFrames, List.filterMap_filterMap,
      List.filterMap_filterMap]
    refine List.filterMap_congr fun e he => ?_
    cases e with
    | sentMsg m =>
        obtain ⟨cmd, payload, hreq, hlen⟩ := request_eq (hasked.asks m (hasked.sent m he)).request
        have hnone := (carries_request cmd m.seqNum hlen).2
        rw [← hreq] at hnone
        exact hnone
    | _ => rfl
  have hput : (BareMetal.read verdictOf (parsedMsgs (handlerEvents (rightTrace tr).events))).Sublist
      (BareMetal.read verdictOf (putMsgs (rightTrace tr))) :=
    ((List.sublist_append_left _ _).trans hattends.queued).filterMap _
  rw [read_buffers hcarries] at hput
  rw [← hsent]
  exact hput.trans (hcarried.filterMap _)

end

/-- **A verdict is what one receiver made of one note.** In every run of a Linux application, whose
receivers run at the same time, and a bare-metal device whose channels may lose frames: the notes
that receivers have taken are among those the device has sent, each taken once; each thread has
invoked the callbacks of its own notes, in order; and the verdict callbacks of the device are, where
they are set, for what threads have made of notes, no two for one note: those for the notes of one
thread come in the order in which the thread took them. -/
theorem notes_answered {Q bits : Nat} (hQ0 : 0 < Q) (hQ : Q < 2 ^ 16) (hbits : 32 ≤ bits)
    {peer : U32} {rpdev : Option U32} {rpmsg : Nat × Nat} {name priv : Side → Nat}
    {cb : Side → CallbackTable} {tr : SystemTrace} {p : System}
    (hrun : (pairMachine (application bits) (device Q)).Run (Orderly peer)
      (start bits rpdev rpmsg name priv cb) tr p) :
    (Linux.takenNotes (leftTrace tr)).Sublist (notifiedNotes (rightTrace tr)) ∧
      (∀ i, Linux.invokedCallbacks (Linux.ofThread i (leftTrace tr))
        = ((Linux.noteOutcomes (cb .application) (Linux.ofThread i (leftTrace tr))).filter
          fun a => a.2.isSome).map fun a => a.1.callback) ∧
      ∃ as : List (Nat × (Note × Option CallbackResult)),
        (invoked tr).filter Callback.isVerdict
          = (as.map fun a => Linux.verdictOn a.2).filter (fun c => cb .device c.id) ∧
        (∀ i, (Serial.part i as).Sublist
          (Linux.noteOutcomes (cb .application) (Linux.ofThread i (leftTrace tr)))) ∧
        (as.map fun a => a.2.1).Subperm (Linux.takenNotes (leftTrace tr)) := by
  have htaken := taken_sublist hQ0 hQ hbits hrun
  have hlistens := Linux.run_hears hbits (application_heard hQ0 hQ hrun)
  obtain ⟨hverdicts, -⟩ := run_hearsVerdicts hQ0 hQ (device_fedVerdicts hQ0 hQ hbits hrun)
  refine ⟨htaken, fun i => (hlistens.hears i).invoked, ?_⟩
  obtain ⟨as, hsent, hnotes, hdone⟩ := hlistens.verdicts
  -- the device hears some of the verdicts that were sent
  have hheard := heard_sublist hQ0 hQ hbits hrun
  rw [← hsent] at hheard
  obtain ⟨as', hsub, heq⟩ := List.sublist_map_iff.mp hheard
  refine ⟨as', ?_, fun i => ?_, (hsub.map _).subperm.trans hnotes⟩
  · rw [← heq]
    exact hverdicts.invoked
  · exact (Serial.part_sublist i hsub).trans (hdone i).sublist

/-- Two receivers are in callbacks; the one that came later answers first. -/
def crossedInputs : List SystemInput :=
  [.right (.call (.error 3) 0 0 fun _ => 0), .right (.call (.error 4) 0 0 fun _ => 0),
    .left ⟨1, .receive 0 (ofList (icapMsgFrame ICAP_MSG_ERROR ICAP_MSG 1 (word32 3))) 44⟩,
    .left ⟨2, .receive 0 (ofList (icapMsgFrame ICAP_MSG_ERROR ICAP_MSG 2 (word32 4))) 44⟩,
    .left ⟨2, .callbackRet ⟨0, Vector.replicate 28 0⟩⟩, .left ⟨2, .sendPlatform 0⟩,
    .left ⟨1, .callbackRet ⟨-ICAP_ERROR_INVALID, Vector.replicate 28 0⟩⟩,
    .left ⟨1, .sendPlatform 0⟩,
    .right (.putMsg ⟨⟨4096, ofList (icapMsgFrame ICAP_MSG_ERROR ICAP_ACK 2 [])⟩, 40, 40⟩),
    .right (.putMsg ⟨⟨8192,
      ofList (icapMsgFrame ICAP_MSG_ERROR ICAP_NAK 1 (word32 (-ICAP_ERROR_INVALID)))⟩, 44, 40⟩),
    .right (.loop 0), .right (.callbackRet ⟨0, Vector.replicate 28 0⟩ 0), .right (.loop 0)]

def crossedStart : System :=
  start 64 (some 30) (0, 0) (fun _ => 0) (fun _ => 0) fun _ c => c = .error ∨ c = .errorResponse

def crossedRun : SystemTrace × System :=
  (pairMachine (application 64) (device 10)).exec [] crossedStart crossedInputs

theorem crossedRun_run : (pairMachine (application 64) (device 10)).Run (Orderly 40) crossedStart
    crossedRun.1 crossedRun.2 :=
  Machine.Run.start.exec crossedInputs
    ⟨rfl, rfl, ⟨rfl, rfl⟩, ⟨rfl, rfl⟩, ⟨rfl, rfl⟩, ⟨rfl, rfl⟩, ⟨rfl, rfl⟩, ⟨rfl, rfl⟩, rfl, rfl,
      rfl, rfl, rfl, trivial⟩

theorem notes_answered_crossed :
    invoked crossedRun.1 = [.errorResponse 0, .errorResponse (-ICAP_ERROR_INVALID)] ∧
      Linux.invokedCallbacks (Linux.ofThread 1 (leftTrace crossedRun.1)) = [.error 3] ∧
      (Linux.takenNotes (leftTrace crossedRun.1)).Sublist
        (notifiedNotes (rightTrace crossedRun.1)) ∧
      ∃ as : List (Nat × (Note × Option CallbackResult)),
        (as.map fun a => Linux.verdictOn a.2).filter
            (fun c => c.id = .error ∨ c.id = .errorResponse)
          = [.errorResponse 0, .errorResponse (-ICAP_ERROR_INVALID)] ∧
        (as.map fun a => a.2.1).Subperm (Linux.takenNotes (leftTrace crossedRun.1)) := by
  obtain ⟨htaken, -, as, hverdicts, -, hnotes⟩ :=
    notes_answered (by omega) (by omega) (by omega) crossedRun_run
  have hinvoked : invoked crossedRun.1
      = [.errorResponse 0, .errorResponse (-ICAP_ERROR_INVALID)] := by decide +kernel
  rw [hinvoked] at hverdicts
  exact ⟨hinvoked, by decide +kernel, htaken, as, hverdicts.symm, hnotes⟩

end Icap.Remote
