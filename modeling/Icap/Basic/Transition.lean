import Mathlib.Tactic

set_option autoImplicit false

/-! # Machines and their runs

A machine takes a state and an input to the next state and the events the step shows; an
input that is not enabled has no step. A run is a sequence of steps in which every input meets
a condition on the history so far and the current state, so that assumptions on the
environment are conditions on single inputs. The file has the rules by which a property of one
step becomes a property of runs: invariants, monotonicity, splitting a run at a step,
simulation by another machine, the run of a part, and equality of what two states let observe.
-/

namespace Transition

/-- The inputs taken so far, each with the events it showed; the latest is last. -/
abbrev Trace (ι ε : Type) := List (ι × List ε)

/-- The events of a trace, in order. -/
def Trace.events {ι ε : Type} (tr : Trace ι ε) : List ε := tr.flatMap Prod.snd

/-- The inputs of a trace, in order. -/
def Trace.inputs {ι ε : Type} (tr : Trace ι ε) : List ι := tr.map Prod.fst

structure Machine (σ ι ε : Type) where
  step : σ → ι → Option (σ × List ε)

section

variable {σ ι ε ω : Type}

@[simp] theorem Trace.events_nil : Trace.events ([] : Trace ι ε) = [] := rfl

@[simp] theorem Trace.events_append (tr tr' : Trace ι ε) :
    Trace.events (tr ++ tr') = Trace.events tr ++ Trace.events tr' := by
  simp [Trace.events]

@[simp] theorem Trace.events_singleton (i : ι) (ev : List ε) :
    Trace.events [(i, ev)] = ev := by
  simp [Trace.events]

theorem Trace.mem_events_snoc {tr : Trace ι ε} {i : ι} {ev : List ε} {e : ε} :
    e ∈ Trace.events (tr ++ [(i, ev)]) ↔ e ∈ tr.events ∨ e ∈ ev := by
  rw [events_append, events_singleton, List.mem_append]

@[simp] theorem Trace.inputs_append (tr tr' : Trace ι ε) :
    Trace.inputs (tr ++ tr') = Trace.inputs tr ++ Trace.inputs tr' := by
  simp [Trace.inputs]

/-- What the inputs show when one more is taken. -/
theorem Trace.filterMap_inputs_snoc {β : Type} (f : ι → Option β) (tr : Trace ι ε) (i : ι)
    (ev : List ε) : (Trace.inputs (tr ++ [(i, ev)])).filterMap f
      = tr.inputs.filterMap f ++ (f i).toList := by
  rw [Trace.inputs_append, List.filterMap_append]
  cases h : f i <;> simp [Trace.inputs, h]

theorem Trace.filterMap_events_snoc {β : Type} (f : ε → Option β) (tr : Trace ι ε) (i : ι)
    (ev : List ε) : (Trace.events (tr ++ [(i, ev)])).filterMap f
      = tr.events.filterMap f ++ ev.filterMap f := by
  rw [Trace.events_append, Trace.events_singleton, List.filterMap_append]

variable (M : Machine σ ι ε)

/-- `M.Run ok s₀ tr s`: from `s₀` the trace `tr` leads to `s`, and each input met `ok` when it
was taken. -/
inductive Machine.Run (ok : Trace ι ε → σ → ι → Prop) (s₀ : σ) : Trace ι ε → σ → Prop
  | start : Machine.Run ok s₀ [] s₀
  | step {tr : Trace ι ε} {s s' : σ} {i : ι} {ev : List ε} :
      Machine.Run ok s₀ tr s → ok tr s i → M.step s i = some (s', ev) →
      Machine.Run ok s₀ (tr ++ [(i, ev)]) s'

variable {M} {ok ok' : Trace ι ε → σ → ι → Prop} {s₀ s : σ} {tr : Trace ι ε}

namespace Machine.Run

/-- A property that holds at the start and is kept by every allowed step holds of every
run. -/
theorem invariant {I : Trace ι ε → σ → Prop} (h : M.Run ok s₀ tr s) (h0 : I [] s₀)
    (hstep : ∀ tr s s' i ev, M.Run ok s₀ tr s → I tr s → ok tr s i →
      M.step s i = some (s', ev) → I (tr ++ [(i, ev)]) s') : I tr s := by
  induction h with
  | start => exact h0
  | step hr hok hs ih => exact hstep _ _ _ _ _ hr ih hok hs

theorem mono (h : M.Run ok s₀ tr s) (himp : ∀ tr s i, ok tr s i → ok' tr s i) :
    M.Run ok' s₀ tr s := by
  induction h with
  | start => exact .start
  | step _ hok hs ih => exact .step ih (himp _ _ _ hok) hs

/-- The last step of a run. -/
theorem of_snoc {i : ι} {ev : List ε} (h : M.Run ok s₀ (tr ++ [(i, ev)]) s) :
    ∃ s₁, M.Run ok s₀ tr s₁ ∧ ok tr s₁ i ∧ M.step s₁ i = some (s, ev) := by
  generalize htr : tr ++ [(i, ev)] = tr' at h
  cases h with
  | start => simp at htr
  | step hr hok hs =>
      obtain ⟨rfl, hlast⟩ := List.append_inj' htr rfl
      simp only [List.cons.injEq, Prod.mk.injEq, and_true] at hlast
      obtain ⟨rfl, rfl⟩ := hlast
      exact ⟨_, hr, hok, hs⟩

/-- A run split at any point. -/
theorem of_append {tr' : Trace ι ε} (h : M.Run ok s₀ (tr ++ tr') s) :
    ∃ s₁, M.Run ok s₀ tr s₁ ∧ M.Run (fun tr₂ => ok (tr ++ tr₂)) s₁ tr' s := by
  induction tr' using List.reverseRecOn generalizing s with
  | nil => exact ⟨s, by simpa using h, .start⟩
  | append_singleton tr' a ih =>
      rw [← List.append_assoc] at h
      obtain ⟨s₂, hr, hok, hs⟩ := h.of_snoc
      obtain ⟨s₁, h1, h2⟩ := ih hr
      exact ⟨s₁, h1, .step h2 hok hs⟩

/-- Two runs put together. -/
theorem append {s₁ : σ} {tr' : Trace ι ε} (h : M.Run ok s₀ tr s₁)
    (h' : M.Run (fun tr₂ => ok (tr ++ tr₂)) s₁ tr' s) : M.Run ok s₀ (tr ++ tr') s := by
  induction h' with
  | start => simpa using h
  | step _ hok hs ih =>
      rw [← List.append_assoc]
      exact .step ih hok hs

/-- A trace leads to one state. -/
theorem unique {s' : σ} (h : M.Run ok s₀ tr s) (h' : M.Run ok' s₀ tr s') : s = s' := by
  induction h generalizing s' with
  | start =>
      generalize htr : [] = tr' at h'
      cases h' with
      | start => rfl
      | step _ _ _ => simp at htr
  | step hr hok hs ih =>
      obtain ⟨s₁, hr', -, hs'⟩ := h'.of_snoc
      rw [ih hr', hs'] at hs
      exact (Prod.mk.inj (Option.some.inj hs)).1.symm

/-- The inputs of a run decide its events and its last state. -/
theorem eq_of_inputs {s' : σ} {tr' : Trace ι ε} (h : M.Run ok s₀ tr s) (h' : M.Run ok' s₀ tr' s')
    (hin : tr.inputs = tr'.inputs) : tr = tr' ∧ s = s' := by
  induction h generalizing tr' s' with
  | start =>
      have hnil : tr' = [] := List.map_eq_nil_iff.mp hin.symm
      subst hnil
      have hr : M.Run ok s₀ [] s₀ := .start
      exact ⟨rfl, hr.unique h'⟩
  | @step tr s₁ s i ev hr _ hs ih =>
      cases h' with
      | start => simp [Trace.inputs] at hin
      | @step tr₂ s₂ _ i₂ ev₂ hr' _ hs' =>
          simp only [Trace.inputs_append] at hin
          obtain ⟨htr, hlast⟩ := List.append_inj' hin rfl
          obtain rfl : i = i₂ := by simpa [Trace.inputs] using hlast
          obtain ⟨rfl, rfl⟩ := ih hr' htr
          obtain ⟨rfl, rfl⟩ := Prod.mk.inj (Option.some.inj (hs.symm.trans hs'))
          exact ⟨rfl, rfl⟩

theorem of_prefix {tr' : Trace ι ε} (h : M.Run ok s₀ tr s) (hp : tr' <+: tr) :
    ∃ s', M.Run ok s₀ tr' s' := by
  obtain ⟨rest, rfl⟩ := hp
  obtain ⟨s', hr, -⟩ := h.of_append
  exact ⟨s', hr⟩

/-- The exact condition for a property to hold in every state of a run: when the steps that
meet `ok'` keep it, and the first step that does not breaks it. -/
theorem forall_prefix_iff {P : Trace ι ε → σ → Prop} (hrun : M.Run ok s₀ tr s)
    (hgood : ∀ tr s, M.Run (fun tr s i => ok tr s i ∧ ok' tr s i) s₀ tr s → P tr s)
    (hbad : ∀ tr s s' i ev, M.Run (fun tr s i => ok tr s i ∧ ok' tr s i) s₀ tr s →
      ok tr s i → ¬ ok' tr s i → M.step s i = some (s', ev) → ¬ P (tr ++ [(i, ev)]) s') :
    (∀ tr' s', tr' <+: tr → M.Run ok s₀ tr' s' → P tr' s') ↔
      M.Run (fun tr s i => ok tr s i ∧ ok' tr s i) s₀ tr s := by
  constructor
  · intro hall
    induction hrun with
    | start => exact .start
    | @step tr s s' i ev hr hok hs ih =>
        have hr' := ih fun tr' s' hp hr' => hall tr' s' (hp.trans (List.prefix_append _ _)) hr'
        refine .step hr' ⟨hok, ?_⟩ hs
        by_contra hnot
        exact hbad _ _ _ _ _ hr' hok hnot hs (hall _ _ (List.prefix_refl _) (.step hr hok hs))
  · intro hr tr' s' hp hr'
    obtain ⟨s₁, hr₁⟩ := hr.of_prefix hp
    rw [hr'.unique hr₁]
    exact hgood _ _ hr₁

/-- **Simulation with deletion.** When `M'` matches every step that is kept on the same input,
and a step that is not kept changes nothing for `R`, the inputs kept make a run of `M'`. -/
theorem simulate {τ ε' : Type} {M' : Machine τ ι ε'} {okM' : Trace ι ε' → τ → ι → Prop} {t₀ : τ}
    (keep : ι × List ε → Bool) {R : Trace ι ε → σ → Trace ι ε' → τ → Prop}
    (h : M.Run ok s₀ tr s) (h0 : R [] s₀ [] t₀)
    (hstep : ∀ tr₁ s₁ s₂ i ev tr' t, tr₁ ++ [(i, ev)] <+: tr → R tr₁ s₁ tr' t → ok tr₁ s₁ i →
      M.step s₁ i = some (s₂, ev) →
      (keep (i, ev) = true ∧ ∃ t' ev', okM' tr' t i ∧ M'.step t i = some (t', ev') ∧
        R (tr₁ ++ [(i, ev)]) s₂ (tr' ++ [(i, ev')]) t') ∨
      (keep (i, ev) = false ∧ R (tr₁ ++ [(i, ev)]) s₂ tr' t)) :
    ∃ tr' t, M'.Run okM' t₀ tr' t ∧ tr'.inputs = Trace.inputs (tr.filter keep) ∧ R tr s tr' t := by
  induction h with
  | start => exact ⟨[], t₀, .start, rfl, h0⟩
  | @step tr s s' i ev hr hok hs ih =>
      obtain ⟨tr', t, hr', hin, hR⟩ := ih fun tr₁ s₁ s₂ i₁ ev₁ tr'₁ t₁ hp =>
        hstep tr₁ s₁ s₂ i₁ ev₁ tr'₁ t₁ (hp.trans (List.prefix_append _ _))
      rw [List.filter_append, Trace.inputs_append, ← hin]
      rcases hstep tr s s' i ev tr' t (List.prefix_refl _) hR hok hs with
        ⟨hkeep, t', ev', hok', hs', hR'⟩ | ⟨hkeep, hR'⟩
      · refine ⟨tr' ++ [(i, ev')], t', .step hr' hok' hs', ?_, hR'⟩
        simp [hkeep, Trace.inputs]
      · refine ⟨tr', t, hr', ?_, hR'⟩
        simp [hkeep, Trace.inputs]

/-- **A part of a machine.** When every step leaves the part `f` of the state or is a step of `M'`
there, the part has a run of its own. -/
theorem project {τ ι' ε' : Type} {M' : Machine τ ι' ε'} {okM' : Trace ι' ε' → τ → ι' → Prop}
    {f : σ → τ} {R : Trace ι ε → Trace ι' ε' → Prop} (h : M.Run ok s₀ tr s) (h0 : R [] [])
    (hstep : ∀ tr₁ s₁ s₂ i ev tr', tr₁ ++ [(i, ev)] <+: tr → M.Run ok s₀ tr₁ s₁ →
      M'.Run okM' (f s₀) tr' (f s₁) → R tr₁ tr' → ok tr₁ s₁ i → M.step s₁ i = some (s₂, ev) →
      (f s₂ = f s₁ ∧ R (tr₁ ++ [(i, ev)]) tr') ∨
      ∃ i' ev', okM' tr' (f s₁) i' ∧ M'.step (f s₁) i' = some (f s₂, ev') ∧
        R (tr₁ ++ [(i, ev)]) (tr' ++ [(i', ev')])) :
    ∃ tr', M'.Run okM' (f s₀) tr' (f s) ∧ R tr tr' := by
  induction h with
  | start => exact ⟨[], .start, h0⟩
  | @step tr s s' i ev hr hok hs ih =>
      obtain ⟨tr', hr', hR⟩ := ih fun tr₁ s₁ s₂ i₁ ev₁ tr'₁ hp =>
        hstep tr₁ s₁ s₂ i₁ ev₁ tr'₁ (hp.trans (List.prefix_append _ _))
      rcases hstep tr s s' i ev tr' (List.prefix_refl _) hr hr' hR hok hs with
        ⟨hsame, hR'⟩ | ⟨i', ev', hok', hs', hR'⟩
      · exact ⟨tr', by rw [hsame]; exact hr', hR'⟩
      · exact ⟨tr' ++ [(i', ev')], .step hr' hok' hs', hR'⟩

end Machine.Run

/-! ## Running a list of inputs -/

/-- The trace and the state after a list of inputs; an input that is not enabled is
skipped. -/
def Machine.exec (M : Machine σ ι ε) : Trace ι ε → σ → List ι → Trace ι ε × σ
  | tr, s, [] => (tr, s)
  | tr, s, i :: is =>
      match M.step s i with
      | none => M.exec tr s is
      | some (s', ev) => M.exec (tr ++ [(i, ev)]) s' is

/-- Each input of a list is enabled and allowed when it is taken. -/
def Machine.Allowed (M : Machine σ ι ε) (ok : Trace ι ε → σ → ι → Prop) :
    Trace ι ε → σ → List ι → Prop
  | _, _, [] => True
  | tr, s, i :: is =>
      ok tr s i ∧
        match M.step s i with
        | none => False
        | some (s', ev) => M.Allowed ok (tr ++ [(i, ev)]) s' is

theorem Machine.Run.exec (is : List ι) (h : M.Run ok s₀ tr s) (hok : M.Allowed ok tr s is) :
    M.Run ok s₀ (M.exec tr s is).1 (M.exec tr s is).2 := by
  induction is generalizing tr s with
  | nil => exact h
  | cons i is ih =>
      obtain ⟨hi, hrest⟩ := hok
      cases hs : M.step s i with
      | none =>
          rw [hs] at hrest
          exact hrest.elim
      | some r =>
          obtain ⟨s', ev⟩ := r
          rw [hs] at hrest
          simp only [Machine.exec, hs]
          exact ih (h.step hi hs) hrest

/-- Where each of its inputs is allowed in every state, a list makes a run. -/
theorem Machine.Run.exec_of_mem (is : List ι) (h : M.Run ok s₀ tr s)
    (hok : ∀ i ∈ is, ∀ tr s, ok tr s i) : M.Run ok s₀ (M.exec tr s is).1 (M.exec tr s is).2 := by
  induction is generalizing tr s with
  | nil => exact h
  | cons i is ih =>
      have hrest := fun j hj => hok j (List.mem_cons_of_mem _ hj)
      cases hs : M.step s i with
      | none =>
          simp only [Machine.exec, hs]
          exact ih h hrest
      | some r =>
          simp only [Machine.exec, hs]
          exact ih (h.step (hok i List.mem_cons_self _ _) hs) hrest

/-- Where every input is allowed, a list of inputs makes a run. -/
theorem Machine.Run.exec_of_forall (is : List ι) (h : M.Run ok s₀ tr s)
    (hok : ∀ tr s i, ok tr s i) : M.Run ok s₀ (M.exec tr s is).1 (M.exec tr s is).2 :=
  h.exec_of_mem is fun i _ tr s => hok tr s i

/-- Where what is allowed does not depend on the state, allowed inputs make a run. -/
theorem Machine.Run.exec_of_inputs {allowed : ι → Prop} (is : List ι)
    (h : M.Run (fun _ _ i => allowed i) s₀ tr s) (hok : ∀ i ∈ is, allowed i) :
    M.Run (fun _ _ i => allowed i) s₀ (M.exec tr s is).1 (M.exec tr s is).2 :=
  h.exec_of_mem is fun i hi _ _ => hok i hi

/-! ## What a run lets observe -/

/-- What is visible of a run on a sequence of inputs; an input that is not enabled shows nothing
and changes nothing. -/
def Machine.observes (M : Machine σ ι ε) (visible : ε → Option ω) (s : σ) : List ι → List ω
  | [] => []
  | i :: is =>
      match M.step s i with
      | none => M.observes visible s is
      | some (s', ev) => ev.filterMap visible ++ M.observes visible s' is

/-- States related by a bisimulation, up to what is not visible of the events, show the same. -/
theorem Machine.observes_eq_of_bisim {visible : ε → Option ω} {R : σ → σ → Prop} {t : σ}
    (hR : R s t)
    (hstep : ∀ s t i, R s t →
      (M.step s i = none ∧ M.step t i = none) ∨
      ∃ s' t' ev ev', M.step s i = some (s', ev) ∧ M.step t i = some (t', ev') ∧
        ev.filterMap visible = ev'.filterMap visible ∧ R s' t')
    (is : List ι) : M.observes visible s is = M.observes visible t is := by
  induction is generalizing s t with
  | nil => rfl
  | cons i is ih =>
      rcases hstep s t i hR with ⟨hs, ht⟩ | ⟨s', t', ev, ev', hs, ht, hev, hR'⟩
      · simp only [Machine.observes, hs, ht]
        exact ih hR
      · simp only [Machine.observes, hs, ht, hev]
        exact congrArg _ (ih hR')

theorem Machine.observes_cons {visible : ε → Option ω} {s' : σ} {i : ι} {ev : List ε}
    (h : M.step s i = some (s', ev)) (is : List ι) :
    M.observes visible s (i :: is) = ev.filterMap visible ++ M.observes visible s' is := by
  simp only [Machine.observes, h]

end

end Transition
