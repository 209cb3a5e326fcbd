import Icap.Basic.Transition

set_option autoImplicit false

/-! # Two machines and their channels

Two machines send each other frames. Each direction has a channel that keeps the order of its frames
and may lose any of them. A step of the pair is a step of one machine, where an input that takes a
frame takes the oldest one of its channel, or the loss of a frame. So each machine has a run of its
own (`Run.left`, `Run.right`), and the frames a machine has taken and those in its channel are among
those the other one has sent, in the order they were sent (`Run.carried`).
-/

namespace Transition

/-- A machine, the frame each of its inputs takes and the frame each of its events sends. -/
structure Party (σ ι ε φ : Type) where
  machine : Machine σ ι ε
  takes : ι → Option φ
  sends : ε → Option φ

namespace Party

variable {σ ι ε φ : Type} (A : Party σ ι ε φ)

def taken (tr : Trace ι ε) : List φ := tr.inputs.filterMap A.takes

def sent (tr : Trace ι ε) : List φ := tr.events.filterMap A.sends

theorem taken_snoc (tr : Trace ι ε) (i : ι) (ev : List ε) :
    A.taken (tr ++ [(i, ev)]) = A.taken tr ++ (A.takes i).toList :=
  Trace.filterMap_inputs_snoc _ _ _ _

theorem sent_snoc (tr : Trace ι ε) (i : ι) (ev : List ε) :
    A.sent (tr ++ [(i, ev)]) = A.sent tr ++ ev.filterMap A.sends :=
  Trace.filterMap_events_snoc _ _ _ _

end Party

/-- Two machines, with the frames on their way to each, oldest first. -/
structure Pair (σ τ φ : Type) where
  left : σ
  right : τ
  toLeft : List φ
  toRight : List φ

inductive PairInput (ι κ : Type) where
  | left (i : ι)
  | right (i : κ)
  /-- The oldest frame on its way to a machine is lost. -/
  | loseLeft
  | loseRight

def PairInput.isLeft {ι κ : Type} : PairInput ι κ → Bool
  | left _ => true
  | _ => false

def PairInput.isRight {ι κ : Type} : PairInput ι κ → Bool
  | right _ => true
  | _ => false

section

variable {σ τ ι κ ε η φ : Type} [DecidableEq φ]

/-- What is left of a channel when the frame `f` is taken from it. -/
def takeFrame : Option φ → List φ → Option (List φ)
  | none, channel => some channel
  | some _, [] => none
  | some f, g :: channel => if f = g then some channel else none

theorem takeFrame_some {f : Option φ} {channel rest : List φ}
    (h : takeFrame f channel = some rest) : channel = f.toList ++ rest := by
  cases f with
  | none => exact Option.some.inj h
  | some f =>
      cases channel with
      | nil => cases h
      | cons g channel =>
          by_cases hfg : f = g
          · rw [takeFrame, if_pos hfg] at h
            rw [hfg, Option.some.inj h]
            rfl
          · rw [takeFrame, if_neg hfg] at h
            cases h

def pairStep (A : Party σ ι ε φ) (B : Party τ κ η φ) (p : Pair σ τ φ) :
    PairInput ι κ → Option (Pair σ τ φ × List (ε ⊕ η))
  | .left i =>
      match takeFrame (A.takes i) p.toLeft, A.machine.step p.left i with
      | some rest, some (s, ev) =>
          some (⟨s, p.right, rest, p.toRight ++ ev.filterMap A.sends⟩, ev.map .inl)
      | _, _ => none
  | .right i =>
      match takeFrame (B.takes i) p.toRight, B.machine.step p.right i with
      | some rest, some (s, ev) =>
          some (⟨p.left, s, p.toLeft ++ ev.filterMap B.sends, rest⟩, ev.map .inr)
      | _, _ => none
  | .loseLeft => some ({ p with toLeft := p.toLeft.tail }, [])
  | .loseRight => some ({ p with toRight := p.toRight.tail }, [])

def pairMachine (A : Party σ ι ε φ) (B : Party τ κ η φ) :
    Machine (Pair σ τ φ) (PairInput ι κ) (ε ⊕ η) :=
  ⟨pairStep A B⟩

/-- The steps of the left machine. -/
def leftTrace (tr : Trace (PairInput ι κ) (ε ⊕ η)) : Trace ι ε :=
  tr.filterMap fun
    | (.left i, ev) => some (i, ev.filterMap Sum.getLeft?)
    | _ => none

/-- The steps of the right machine. -/
def rightTrace (tr : Trace (PairInput ι κ) (ε ⊕ η)) : Trace κ η :=
  tr.filterMap fun
    | (.right i, ev) => some (i, ev.filterMap Sum.getRight?)
    | _ => none

/-! ## Steps -/

/-- A step of a pair. -/
inductive PairMove (A : Party σ ι ε φ) (B : Party τ κ η φ) (p : Pair σ τ φ) :
    PairInput ι κ → Pair σ τ φ → List (ε ⊕ η) → Prop
  | left (i : ι) (rest : List φ) (s : σ) (ev : List ε)
      (htake : p.toLeft = (A.takes i).toList ++ rest)
      (hstep : A.machine.step p.left i = some (s, ev)) :
      PairMove A B p (.left i) ⟨s, p.right, rest, p.toRight ++ ev.filterMap A.sends⟩ (ev.map .inl)
  | right (i : κ) (rest : List φ) (s : τ) (ev : List η)
      (htake : p.toRight = (B.takes i).toList ++ rest)
      (hstep : B.machine.step p.right i = some (s, ev)) :
      PairMove A B p (.right i) ⟨p.left, s, p.toLeft ++ ev.filterMap B.sends, rest⟩ (ev.map .inr)
  | loseLeft : PairMove A B p .loseLeft { p with toLeft := p.toLeft.tail } []
  | loseRight : PairMove A B p .loseRight { p with toRight := p.toRight.tail } []

variable {A : Party σ ι ε φ} {B : Party τ κ η φ} {p p' p₀ : Pair σ τ φ} {a : PairInput ι κ}
  {ev : List (ε ⊕ η)} {tr : Trace (PairInput ι κ) (ε ⊕ η)}

theorem pairStep_move (h : pairStep A B p a = some (p', ev)) : PairMove A B p a p' ev := by
  cases a with
  | left i =>
      simp only [pairStep] at h
      split at h
      · rename_i rest s ev' htake hstep
        obtain ⟨rfl, rfl⟩ := Prod.mk.inj (Option.some.inj h)
        exact .left i rest s ev' (takeFrame_some htake) hstep
      · cases h
  | right i =>
      simp only [pairStep] at h
      split at h
      · rename_i rest s ev' htake hstep
        obtain ⟨rfl, rfl⟩ := Prod.mk.inj (Option.some.inj h)
        exact .right i rest s ev' (takeFrame_some htake) hstep
      · cases h
  | loseLeft =>
      obtain ⟨rfl, rfl⟩ := Prod.mk.inj (Option.some.inj h)
      exact .loseLeft
  | loseRight =>
      obtain ⟨rfl, rfl⟩ := Prod.mk.inj (Option.some.inj h)
      exact .loseRight

theorem leftTrace_snoc_left (i : ι) (ev : List ε) :
    leftTrace (tr ++ [(.left i, ev.map (.inl : ε → ε ⊕ η))]) = leftTrace tr ++ [(i, ev)] := by
  simp [leftTrace, List.filterMap_map, Function.comp_def]

/-- A step of the left machine is the only kind that shows in its trace. -/
theorem leftTrace_snoc_other (ha : a.isLeft = false) (ev : List (ε ⊕ η)) :
    leftTrace (tr ++ [(a, ev)]) = leftTrace tr := by
  cases a with
  | left i => cases ha
  | right i | loseLeft | loseRight => simp [leftTrace]

theorem rightTrace_snoc_right (i : κ) (ev : List η) :
    rightTrace (tr ++ [(.right i, ev.map (.inr : η → ε ⊕ η))]) = rightTrace tr ++ [(i, ev)] := by
  simp [rightTrace, List.filterMap_map, Function.comp_def]

theorem rightTrace_snoc_other (ha : a.isRight = false) (ev : List (ε ⊕ η)) :
    rightTrace (tr ++ [(a, ev)]) = rightTrace tr := by
  cases a with
  | right i => cases ha
  | left i | loseLeft | loseRight => simp [rightTrace]

/-! ## Runs -/

variable {ok : Trace (PairInput ι κ) (ε ⊕ η) → Pair σ τ φ → PairInput ι κ → Prop}

/-- The run of the left machine, when what the pair may do next is what the machine may do. -/
theorem Machine.Run.left {okL : Trace ι ε → σ → ι → Prop}
    (h : (pairMachine A B).Run ok p₀ tr p)
    (hok : ∀ tr₁ p₁ i rest, (pairMachine A B).Run ok p₀ tr₁ p₁ →
      A.machine.Run okL p₀.left (leftTrace tr₁) p₁.left →
      p₁.toLeft = (A.takes i).toList ++ rest → ok tr₁ p₁ (.left i) →
      okL (leftTrace tr₁) p₁.left i) :
    A.machine.Run okL p₀.left (leftTrace tr) p.left := by
  refine h.invariant (I := fun tr p => A.machine.Run okL p₀.left (leftTrace tr) p.left) .start ?_
  intro tr p p' a ev hr ih hallowed hstep
  cases pairStep_move hstep with
  | left i rest s ev htake hmove =>
      rw [leftTrace_snoc_left]
      exact .step ih (hok _ _ _ _ hr ih htake hallowed) hmove
  | right i rest s ev _ _ => rwa [leftTrace_snoc_other rfl]
  | loseLeft => rwa [leftTrace_snoc_other rfl]
  | loseRight => rwa [leftTrace_snoc_other rfl]

/-- The run of the right machine. -/
theorem Machine.Run.right {okR : Trace κ η → τ → κ → Prop}
    (h : (pairMachine A B).Run ok p₀ tr p)
    (hok : ∀ tr₁ p₁ i rest, (pairMachine A B).Run ok p₀ tr₁ p₁ →
      B.machine.Run okR p₀.right (rightTrace tr₁) p₁.right →
      p₁.toRight = (B.takes i).toList ++ rest → ok tr₁ p₁ (.right i) →
      okR (rightTrace tr₁) p₁.right i) :
    B.machine.Run okR p₀.right (rightTrace tr) p.right := by
  refine h.invariant (I := fun tr p => B.machine.Run okR p₀.right (rightTrace tr) p.right) .start ?_
  intro tr p p' a ev hr ih hallowed hstep
  cases pairStep_move hstep with
  | left i rest s ev _ _ => rwa [rightTrace_snoc_other rfl]
  | right i rest s ev htake hmove =>
      rw [rightTrace_snoc_right]
      exact .step ih (hok _ _ _ _ hr ih htake hallowed) hmove
  | loseLeft => rwa [rightTrace_snoc_other rfl]
  | loseRight => rwa [rightTrace_snoc_other rfl]

/-- What is taken and what is on its way was sent, in this order. -/
theorem Machine.Run.carried (h : (pairMachine A B).Run ok p₀ tr p) (hleft : p₀.toLeft = [])
    (hright : p₀.toRight = []) :
    (A.taken (leftTrace tr) ++ p.toLeft).Sublist (B.sent (rightTrace tr)) ∧
      (B.taken (rightTrace tr) ++ p.toRight).Sublist (A.sent (leftTrace tr)) := by
  refine h.invariant (I := fun tr p =>
    (A.taken (leftTrace tr) ++ p.toLeft).Sublist (B.sent (rightTrace tr)) ∧
      (B.taken (rightTrace tr) ++ p.toRight).Sublist (A.sent (leftTrace tr))) ?_ ?_
  · rw [hleft, hright]
    exact ⟨List.Sublist.refl _, List.Sublist.refl _⟩
  rintro tr p p' a ev - ⟨hl, hr⟩ - hstep
  cases pairStep_move hstep with
  -- a frame taken leaves the channel, and a frame sent enters it
  | left i rest s ev htake _ =>
      rw [leftTrace_snoc_left, rightTrace_snoc_other rfl, A.taken_snoc, A.sent_snoc]
      refine ⟨?_, ?_⟩
      · rwa [List.append_assoc, ← htake]
      · rw [← List.append_assoc]
        exact hr.append (List.Sublist.refl _)
  | right i rest s ev htake _ =>
      rw [leftTrace_snoc_other rfl, rightTrace_snoc_right, B.taken_snoc, B.sent_snoc]
      refine ⟨?_, ?_⟩
      · rw [← List.append_assoc]
        exact hl.append (List.Sublist.refl _)
      · rwa [List.append_assoc, ← htake]
  | loseLeft =>
      rw [leftTrace_snoc_other rfl, rightTrace_snoc_other rfl]
      exact ⟨((List.Sublist.refl _).append (List.tail_sublist _)).trans hl, hr⟩
  | loseRight =>
      rw [leftTrace_snoc_other rfl, rightTrace_snoc_other rfl]
      exact ⟨hl, ((List.Sublist.refl _).append (List.tail_sublist _)).trans hr⟩

/-- A frame that the left machine takes next was sent by the right one. -/
theorem Machine.Run.next_left (h : (pairMachine A B).Run ok p₀ tr p) (hleft : p₀.toLeft = [])
    (hright : p₀.toRight = []) {f : φ} {rest : List φ} (hnext : p.toLeft = f :: rest) :
    f ∈ B.sent (rightTrace tr) := by
  refine (h.carried hleft hright).1.mem (List.mem_append_right _ ?_)
  rw [hnext]
  exact List.mem_cons_self

theorem Machine.Run.next_right (h : (pairMachine A B).Run ok p₀ tr p) (hleft : p₀.toLeft = [])
    (hright : p₀.toRight = []) {f : φ} {rest : List φ} (hnext : p.toRight = f :: rest) :
    f ∈ A.sent (leftTrace tr) := by
  refine (h.carried hleft hright).2.mem (List.mem_append_right _ ?_)
  rw [hnext]
  exact List.mem_cons_self

end

end Transition
