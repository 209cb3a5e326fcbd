import Icap.Basic.Locks

set_option autoImplicit false

/-! # Sections as single steps

A section that takes its locks before it takes effect and releases them afterwards, and that shows
nothing to reads without a lock but its effect, is `Atomic`. When all sections are, every run of
their operations has a run of whole sections that shows the same events, each section at the point
where it takes effect (`run_sections`).
-/

namespace Locks

open Transition

section

variable {L : Type} [DecidableEq L] {D O : L → Type} {ε τ α : Type}

/-! ## Running a section at once -/

/-- The memory a section leaves, its events and what the thread remembers of it. -/
def Code.run (see : ∀ l, D l → O l) :
    Code D O ε τ → (∀ l, D l) → Option ((∀ l, D l) × List ε × τ)
  | ret ev t, m => some (m, ev, t)
  | acquire _ k, m => k.run see m
  | release _ k, m => k.run see m
  | load l k, m => (k (m l)).run see m
  | store l f k, m => k.run see (Function.update m l (f (m l)))
  | commit l f ev k, m =>
      (k.run see (Function.update m l (f (m l)))).map fun (m', ev', t) => (m', ev ++ ev', t)
  | peek l ready ev k, m =>
      let o := see l (m l)
      if ready o then ((k o).run see m).map fun (m', ev', t) => (m', ev o ++ ev', t) else none

structure SectionState (D : L → Type) (τ : Type) where
  mem : ∀ l, D l
  threads : Nat → τ

/-- The thread runs the section of `a`. -/
def sectionStep (see : ∀ l, D l → O l) (code : Nat → τ → α → Option (Code D O ε τ))
    (s : SectionState D τ) (inp : Nat × α) : Option (SectionState D τ × List ε) :=
  ((code inp.1 (s.threads inp.1) inp.2).bind fun p => p.run see s.mem).map fun (m, ev, t) =>
    (⟨m, Function.update s.threads inp.1 t⟩, ev)

def sectionMachine (see : ∀ l, D l → O l) (code : Nat → τ → α → Option (Code D O ε τ)) :
    Machine (SectionState D τ) (Nat × α) ε :=
  ⟨sectionStep see code⟩

/-- The section that begins is an allowed one. -/
def LockInput.Begins (allowed : α → Prop) : LockInput α → Prop
  | .begin _ a => allowed a
  | .go _ => True

instance {allowed : α → Prop} [DecidablePred allowed] : DecidablePred (LockInput.Begins allowed)
  | .begin _ a => inferInstanceAs (Decidable (allowed a))
  | .go _ => inferInstanceAs (Decidable True)

/-! ## Atomic sections -/

/-- The rest of a section that holds the locks `held` over the memory `m`; `committed` says whether
it has taken effect. -/
def Code.Atomic (see : ∀ l, D l → O l) :
    Code D O ε τ → Bool → Finset L → (∀ l, D l) → Prop
  | ret ev _, committed, held, _ => held = ∅ ∧ (committed = true → ev = [])
  | acquire l k, committed, held, m =>
      committed = false ∧ ∀ d, k.Atomic see false (insert l held) (Function.update m l d)
  | release l k, committed, held, m =>
      committed = true ∧ l ∈ held ∧ k.Atomic see true (held.erase l) m
  | load l k, committed, held, m => l ∈ held ∧ (k (m l)).Atomic see committed held m
  | store l f k, committed, held, m =>
      l ∈ held ∧ see l (f (m l)) = see l (m l) ∧
        k.Atomic see committed held (Function.update m l (f (m l)))
  | commit l f _ k, committed, held, m =>
      committed = false ∧ l ∈ held ∧ k.Atomic see true held (Function.update m l (f (m l)))
  | peek _ _ _ k, committed, held, m => committed = false ∧ ∀ o, (k o).Atomic see true held m

variable {see : ∀ l, D l → O l} {code : Nat → τ → α → Option (Code D O ε τ)} {p : Code D O ε τ}
  {held : Finset L}

theorem update_agrees {m m' : ∀ l, D l} (h : ∀ l ∈ held, m l = m' l) {l : L} (d : D l) :
    ∀ l' ∈ insert l held, Function.update m l d l' = Function.update m' l d l' := by
  intro l' hl'
  by_cases hl : l' = l
  · subst hl
    simp
  · rw [Function.update_of_ne hl, Function.update_of_ne hl]
    exact h l' (Finset.mem_of_mem_insert_of_ne hl' hl)

/-- Whether a section is atomic depends on the cells it holds. -/
theorem Code.Atomic.congr {committed : Bool} {m m' : ∀ l, D l}
    (h : p.Atomic see committed held m) (hm : ∀ l ∈ held, m l = m' l) :
    p.Atomic see committed held m' := by
  induction p generalizing committed held m m' with
  | ret ev t => exact h
  | acquire l k ih => exact ⟨h.1, fun d => ih (h.2 d) (update_agrees hm d)⟩
  | release l k ih =>
      exact ⟨h.1, h.2.1, ih h.2.2 fun l' hl' => hm l' (Finset.mem_of_mem_erase hl')⟩
  | load l k ih =>
      rw [Code.Atomic, ← hm l h.1]
      exact ⟨h.1, ih _ h.2 hm⟩
  | store l f k ih =>
      rw [Code.Atomic, ← hm l h.1]
      exact ⟨h.1, h.2.1, ih h.2.2 fun l' hl' =>
        update_agrees hm _ l' (Finset.mem_insert_of_mem hl')⟩
  | commit l f ev k ih =>
      rw [Code.Atomic, ← hm l h.2.1]
      exact ⟨h.1, h.2.1, ih h.2.2 fun l' hl' =>
        update_agrees hm _ l' (Finset.mem_insert_of_mem hl')⟩
  | peek l ready ev k ih => exact ⟨h.1, fun o => ih o (h.2 o) hm⟩

theorem piecewise_subset {held' : Finset L} (h : held' ⊆ held) (m x : ∀ l, D l) :
    held.piecewise m x = held'.piecewise m (held.piecewise m x) := by
  ext l
  by_cases hl : l ∈ held'
  · rw [Finset.piecewise_eq_of_mem _ _ _ hl, Finset.piecewise_eq_of_mem _ _ _ (h hl)]
  · rw [Finset.piecewise_eq_of_notMem _ _ _ hl]

/-- A section that has taken effect ends, whatever is in the cells it does not hold, and shows
nothing more. -/
theorem Code.Atomic.finishes {m : ∀ l, D l} (h : p.Atomic see true held m) :
    ∃ m' t, (∀ x, p.run see (held.piecewise m x) = some (held.piecewise m' x, [], t)) ∧
      ∀ l, see l (m' l) = see l (m l) := by
  induction p generalizing held m with
  | ret ev t =>
      obtain ⟨rfl, hev⟩ := h
      exact ⟨m, t, fun x => by rw [Code.run, hev rfl], fun _ => rfl⟩
  | acquire l k ih => cases h.1
  | release l k ih =>
      obtain ⟨-, hl, hk⟩ := h
      obtain ⟨m', t, hrun, hsee⟩ := ih hk
      refine ⟨(held.erase l).piecewise m' m, t, fun x => ?_, fun l' => ?_⟩
      · have hsplit : ∀ y : ∀ l, D l, held.piecewise ((held.erase l).piecewise y m) x
            = (held.erase l).piecewise y (held.piecewise m x) := by
          intro y
          ext l'
          by_cases hl' : l' ∈ held.erase l
          · simp [hl', Finset.mem_of_mem_erase hl']
          · by_cases hin : l' ∈ held
            · simp [hl', hin]
            · simp [hl', hin]
        have hm := hsplit m
        rw [Finset.piecewise_same] at hm
        rw [Code.run, hm, hrun, hsplit]
      · by_cases hl' : l' ∈ held.erase l
        · rw [Finset.piecewise_eq_of_mem _ _ _ hl', hsee]
        · rw [Finset.piecewise_eq_of_notMem _ _ _ hl']
  | load l k ih =>
      obtain ⟨hl, hk⟩ := h
      obtain ⟨m', t, hrun, hsee⟩ := ih _ hk
      refine ⟨m', t, fun x => ?_, hsee⟩
      rw [Code.run, Finset.piecewise_eq_of_mem _ _ _ hl, hrun]
  | store l f k ih =>
      obtain ⟨hl, hf, hk⟩ := h
      obtain ⟨m', t, hrun, hsee⟩ := ih hk
      refine ⟨m', t, fun x => ?_, fun l' => (hsee l').trans ?_⟩
      · rw [Code.run, Finset.piecewise_eq_of_mem _ _ _ hl, Finset.update_piecewise_of_mem _ _ _ hl,
          hrun]
      · by_cases hl' : l' = l
        · subst hl'
          rw [Function.update_self, hf]
        · rw [Function.update_of_ne hl']
  | commit l f ev k ih => cases h.1
  | peek l ready ev k ih => cases h.1

/-! ## A run of operations as a run of sections -/

/-- What the thread `i` does in `s` is what the sections have done in `a`: it is between two
sections, or its section will take effect and leads to where the section as a whole leads, or its
section has taken effect and leads to where the memory already is. -/
inductive Tracks (see : ∀ l, D l → O l) (code : Nat → τ → α → Option (Code D O ε τ))
    (allowed : α → Prop) (s : LockState D O ε τ) (a : SectionState D τ) (i : Nat) :
    Activity D O ε τ → Prop
  | between (hheld : ∀ l, s.holder l ≠ some i) :
      Tracks see code allowed s a i (.between (a.threads i))
  | before {p p₀ : Code D O ε τ} {held : Finset L} {x : α}
      (hheld : ∀ l, s.holder l = some i ↔ l ∈ held) (hp : p.Atomic see false held s.mem)
      (hx : allowed x) (hp₀ : code i (a.threads i) x = some p₀)
      (hrun : ∀ m, p₀.run see (held.piecewise a.mem m) = p.run see (held.piecewise s.mem m)) :
      Tracks see code allowed s a i (.inside p)
  | after {p : Code D O ε τ} {held : Finset L} (hheld : ∀ l, s.holder l = some i ↔ l ∈ held)
      (hp : p.Atomic see true held s.mem)
      (hrun : ∀ m, p.run see (held.piecewise s.mem m)
        = some (held.piecewise a.mem m, [], a.threads i)) :
      Tracks see code allowed s a i (.inside p)

/-- The cells that nobody holds are what the sections have left, and a read without the lock sees no
difference in the others. -/
structure Represents (see : ∀ l, D l → O l) (code : Nat → τ → α → Option (Code D O ε τ))
    (allowed : α → Prop) (s : LockState D O ε τ) (a : SectionState D τ) : Prop where
  threads : ∀ i, Tracks see code allowed s a i (s.threads i)
  unheld : ∀ l, s.holder l = none → s.mem l = a.mem l
  seen : ∀ l, see l (s.mem l) = see l (a.mem l)

variable {allowed : α → Prop} {s s' : LockState D O ε τ} {a a' : SectionState D τ} {i j : Nat}
  {ev : List ε}

theorem Tracks.congr {x : Activity D O ε τ} (h : Tracks see code allowed s a j x)
    (hholder : ∀ l, s'.holder l = some j ↔ s.holder l = some j)
    (hmem : ∀ l, s.holder l = some j → s.mem l = s'.mem l)
    (hamem : ∀ l, s.holder l = some j → a.mem l = a'.mem l) (ht : a.threads j = a'.threads j) :
    Tracks see code allowed s' a' j x := by
  cases h with
  | between hheld =>
      rw [ht]
      exact .between fun l hl => hheld l ((hholder l).mp hl)
  | @before p p₀ held x hheld hp hx hp₀ hrun =>
      have hm : ∀ l ∈ held, s.mem l = s'.mem l := fun l hl => hmem l ((hheld l).mpr hl)
      have ha : ∀ l ∈ held, a.mem l = a'.mem l := fun l hl => hamem l ((hheld l).mpr hl)
      refine .before (fun l => (hholder l).trans (hheld l)) (hp.congr hm) hx (ht ▸ hp₀) fun m => ?_
      rw [← held.piecewise_congr ha fun _ _ => rfl, ← held.piecewise_congr hm fun _ _ => rfl]
      exact hrun m
  | @after p held hheld hp hrun =>
      have hm : ∀ l ∈ held, s.mem l = s'.mem l := fun l hl => hmem l ((hheld l).mpr hl)
      have ha : ∀ l ∈ held, a.mem l = a'.mem l := fun l hl => hamem l ((hheld l).mpr hl)
      refine .after (fun l => (hholder l).trans (hheld l)) (hp.congr hm) fun m => ?_
      rw [← held.piecewise_congr ha fun _ _ => rfl, ← held.piecewise_congr hm fun _ _ => rfl, ← ht]
      exact hrun m

/-- A step of the thread `i` that changes the cells it holds. -/
theorem Represents.of_thread (h : Represents see code allowed s a) (hop : Operated see s i s')
    (hi : Tracks see code allowed s' a' i (s'.threads i))
    (hmem : ∀ l, s.holder l ≠ some i → s.mem l = s'.mem l)
    (hamem : ∀ l, s.holder l ≠ some i → a.mem l = a'.mem l)
    (hthreads : ∀ j, j ≠ i → a.threads j = a'.threads j)
    (hunheld : ∀ l, s'.holder l = none → s'.mem l = a'.mem l)
    (hseen : ∀ l, see l (s'.mem l) = see l (a'.mem l)) : Represents see code allowed s' a' where
  threads := by
    intro j
    by_cases hj : j = i
    · rw [hj]
      exact hi
    · have hne : ∀ l, s.holder l = some j → s.holder l ≠ some i := by
        intro l hl hl'
        rw [hl] at hl'
        exact hj (Option.some.inj hl')
      rw [hop.threads j hj]
      exact (h.threads j).congr (hop.holder j hj) (fun l hl => hmem l (hne l hl))
        (fun l hl => hamem l (hne l hl)) (hthreads j hj)
  unheld := hunheld
  seen := hseen

/-- A store to a cell that the thread `i` holds, which a read without the lock does not see. -/
theorem Represents.stored (h : Represents see code allowed s a) {l : L} {f : D l → D l}
    {k : Code D O ε τ} (hheld : ∀ l, s.holder l = some i ↔ l ∈ held) (hl : l ∈ held)
    (hf : see l (f (s.mem l)) = see l (s.mem l))
    (hs' : Operated see s i ⟨Function.update s.mem l (f (s.mem l)), s.holder,
      Function.update s.threads i (.inside k)⟩)
    (hi : Tracks see code allowed ⟨Function.update s.mem l (f (s.mem l)), s.holder,
      Function.update s.threads i (.inside k)⟩ a i
      (Function.update s.threads i (.inside k) i)) :
    Represents see code allowed ⟨Function.update s.mem l (f (s.mem l)), s.holder,
      Function.update s.threads i (.inside k)⟩ a := by
  have hne : ∀ l', s.holder l' ≠ some i → l' ≠ l := by
    rintro l' hl' rfl
    exact hl' ((hheld l').mpr hl)
  refine h.of_thread hs' hi (fun l' hl' => ?_) (fun _ _ => rfl) (fun _ _ => rfl)
    (fun l' hl' => ?_) fun l' => ?_
  · exact (Function.update_of_ne (hne l' hl') _ _).symm
  · simp only [Function.update_of_ne (hne l' (by rw [show s.holder l' = none from hl']; simp))]
    exact h.unheld l' hl'
  · by_cases heq : l' = l
    · subst heq
      simp only [Function.update_self, hf, h.seen]
    · simp only [Function.update_of_ne heq, h.seen]

/-- The section of the thread `i` takes effect: what is left of it ends somewhere, and that is where
the section as a whole ends. -/
theorem Represents.effect (h : Represents see code allowed s a) {p p₀ k : Code D O ε τ} {x : α}
    {m₁ : ∀ l, D l} (hheld : ∀ l, s.holder l = some i ↔ l ∈ held)
    (hp₀ : code i (a.threads i) x = some p₀)
    (hrun : ∀ m, p₀.run see (held.piecewise a.mem m) = p.run see (held.piecewise s.mem m))
    (hk : k.Atomic see true held m₁) (hmem : ∀ l ∉ held, s.mem l = m₁ l)
    (heffect : p.run see (held.piecewise s.mem a.mem)
      = (k.run see (held.piecewise m₁ a.mem)).map fun (m, ev', t) => (m, ev ++ ev', t)) :
    ∃ a', sectionStep see code a (i, x) = some (a', ev) ∧
      Represents see code allowed ⟨m₁, s.holder, Function.update s.threads i (.inside k)⟩ a' := by
  obtain ⟨m', t, hfinish, hsee⟩ := hk.finishes
  have hsection : p₀.run see a.mem = some (held.piecewise m' a.mem, ev, t) := by
    have hwhole := hrun a.mem
    rw [Finset.piecewise_same] at hwhole
    rw [hwhole, heffect, hfinish]
    simp only [Option.map_some, List.append_nil]
  refine ⟨⟨held.piecewise m' a.mem, Function.update a.threads i t⟩, ?_, ?_⟩
  · simp only [sectionStep, hp₀, Option.bind_some, hsection, Option.map_some]
  · have hnot : ∀ l, s.holder l ≠ some i → l ∉ held := fun l hl hin => hl ((hheld l).mpr hin)
    refine h.of_thread ⟨fun j hj => Function.update_of_ne hj _ _, fun _ _ _ => Iff.rfl⟩ ?_
      (fun l hl => hmem l (hnot l hl)) ?_ ?_ ?_ ?_
    · simp only [Function.update_self]
      refine .after hheld hk fun m => ?_
      simp only [Function.update_self, hfinish, Finset.piecewise_idem_left]
    · intro l hl
      exact (Finset.piecewise_eq_of_notMem _ _ _ (hnot l hl)).symm
    · intro j hj
      exact (Function.update_of_ne hj _ _).symm
    · intro l hl
      have hout : l ∉ held := hnot l (by rw [show s.holder l = none from hl]; simp)
      simp only [Finset.piecewise_eq_of_notMem _ _ _ hout, ← hmem l hout]
      exact h.unheld l hl
    · intro l
      by_cases hl : l ∈ held
      · simp only [Finset.piecewise_eq_of_mem _ _ _ hl, hsee]
      · simp only [Finset.piecewise_eq_of_notMem _ _ _ hl, ← hmem l hl]
        exact h.seen l

/-- An operation before the section takes effect changes nothing for `a`, unless the section takes
effect there. -/
theorem Represents.operate_before (h : Represents see code allowed s a) {p₀ : Code D O ε τ} {x : α}
    (hheld : ∀ l, s.holder l = some i ↔ l ∈ held) (hp : p.Atomic see false held s.mem)
    (hx : allowed x) (hp₀ : code i (a.threads i) x = some p₀)
    (hrun : ∀ m, p₀.run see (held.piecewise a.mem m) = p.run see (held.piecewise s.mem m))
    (hop : operate see s i p = some (s', ev)) :
    (ev = [] ∧ Represents see code allowed s' a) ∨
      ∃ a', sectionStep see code a (i, x) = some (a', ev) ∧ Represents see code allowed s' a' := by
  have hnot : ∀ l, s.holder l ≠ some i → l ∉ held := fun l hl hin => hl ((hheld l).mpr hin)
  have hoperated := operate_operated hop
  cases p with
  | ret ev' t =>
      obtain ⟨rfl, rfl⟩ := Prod.mk.inj (Option.some.inj hop)
      obtain ⟨rfl, -⟩ := hp
      refine Or.inr ⟨⟨a.mem, Function.update a.threads i t⟩, ?_, ?_⟩
      · have hwhole := hrun a.mem
        rw [Finset.piecewise_empty, Finset.piecewise_empty] at hwhole
        simp only [sectionStep, hp₀, Option.bind_some, hwhole, Code.run, Option.map_some]
      · refine h.of_thread hoperated ?_ (fun _ _ => rfl) (fun _ _ => rfl)
          (fun j hj => (Function.update_of_ne hj _ _).symm) h.unheld h.seen
        have hi : Tracks see code allowed
            { s with threads := Function.update s.threads i (.between t) }
            ⟨a.mem, Function.update a.threads i t⟩ i
            (.between (Function.update a.threads i t i)) :=
          .between fun l hl => Finset.notMem_empty l ((hheld l).mp hl)
        simpa only [Function.update_self] using hi
  | acquire l k =>
      simp only [operate] at hop
      split_ifs at hop with hfree
      obtain ⟨rfl, rfl⟩ := Prod.mk.inj (Option.some.inj hop)
      have hl : l ∉ held := hnot l (by rw [hfree]; simp)
      refine Or.inl ⟨rfl, h.of_thread hoperated ?_ (fun _ _ => rfl) (fun _ _ => rfl)
        (fun _ _ => rfl) ?_ h.seen⟩
      · simp only [Function.update_self]
        refine .before (held_acquire hheld) ?_ hx hp₀ fun m => ?_
        · have hk := hp.2 (s.mem l)
          rwa [Function.update_eq_self] at hk
        -- nobody held `l`, so the cell is the same for both
        · rw [Finset.piecewise_insert, Finset.piecewise_insert,
            Finset.update_piecewise_of_notMem _ _ _ hl, Finset.update_piecewise_of_notMem _ _ _ hl,
            ← h.unheld l hfree, hrun, Code.run]
      · intro l' hl'
        by_cases heq : l' = l
        · subst heq
          simp at hl'
        · simp only [Function.update_of_ne heq] at hl'
          exact h.unheld l' hl'
  | release l k => cases hp.1
  | load l k =>
      obtain ⟨rfl, rfl⟩ := Prod.mk.inj (Option.some.inj hop)
      refine Or.inl ⟨rfl, h.of_thread hoperated ?_ (fun _ _ => rfl) (fun _ _ => rfl)
        (fun _ _ => rfl) h.unheld h.seen⟩
      simp only [Function.update_self]
      refine .before hheld hp.2 hx hp₀ fun m => ?_
      rw [hrun, Code.run, Finset.piecewise_eq_of_mem _ _ _ hp.1]
  | store l f k =>
      obtain ⟨rfl, rfl⟩ := Prod.mk.inj (Option.some.inj hop)
      obtain ⟨hl, hf, hk⟩ := hp
      refine Or.inl ⟨rfl, h.stored hheld hl hf hoperated ?_⟩
      simp only [Function.update_self]
      refine .before hheld hk hx hp₀ fun m => ?_
      rw [hrun, Code.run, Finset.piecewise_eq_of_mem _ _ _ hl,
        Finset.update_piecewise_of_mem _ _ _ hl]
  | commit l f ev' k =>
      obtain ⟨rfl, rfl⟩ := Prod.mk.inj (Option.some.inj hop)
      obtain ⟨-, hl, hk⟩ := hp
      refine Or.inr (h.effect hheld hp₀ hrun hk (fun l' hl' => ?_) ?_)
      · have hne : l' ≠ l := by
          rintro rfl
          exact hl' hl
        exact (Function.update_of_ne hne _ _).symm
      · rw [Code.run, Finset.piecewise_eq_of_mem _ _ _ hl, Finset.update_piecewise_of_mem _ _ _ hl]
  | peek l ready ev' k =>
      simp only [operate] at hop
      split_ifs at hop with hready
      obtain ⟨rfl, rfl⟩ := Prod.mk.inj (Option.some.inj hop)
      -- the section as a whole sees what the thread sees
      have hsee : see l (held.piecewise s.mem a.mem l) = see l (s.mem l) := by
        by_cases hl : l ∈ held
        · rw [Finset.piecewise_eq_of_mem _ _ _ hl]
        · rw [Finset.piecewise_eq_of_notMem _ _ _ hl, h.seen]
      refine Or.inr (h.effect hheld hp₀ hrun (hp.2 _) (fun _ _ => rfl) ?_)
      simp only [Code.run, hsee, hready, if_true]

/-- An operation after the section has taken effect shows nothing and changes nothing for `a`. -/
theorem Represents.operate_after (h : Represents see code allowed s a)
    (hheld : ∀ l, s.holder l = some i ↔ l ∈ held) (hp : p.Atomic see true held s.mem)
    (hrun : ∀ m, p.run see (held.piecewise s.mem m)
      = some (held.piecewise a.mem m, [], a.threads i))
    (hop : operate see s i p = some (s', ev)) : ev = [] ∧ Represents see code allowed s' a := by
  have hnot : ∀ l, s.holder l ≠ some i → l ∉ held := fun l hl hin => hl ((hheld l).mpr hin)
  have hoperated := operate_operated hop
  cases p with
  | ret ev' t =>
      obtain ⟨rfl, rfl⟩ := Prod.mk.inj (Option.some.inj hop)
      obtain ⟨rfl, hev⟩ := hp
      obtain ⟨-, ht⟩ := Prod.mk.inj (Option.some.inj (hrun a.mem))
      obtain rfl : t = a.threads i := (Prod.mk.inj ht).2
      refine ⟨hev rfl, h.of_thread hoperated ?_ (fun _ _ => rfl) (fun _ _ => rfl)
        (fun _ _ => rfl) h.unheld h.seen⟩
      simp only [Function.update_self]
      exact .between fun l hl => Finset.notMem_empty l ((hheld l).mp hl)
  | acquire l k => cases hp.1
  | release l k =>
      simp only [operate] at hop
      split_ifs at hop with hown
      obtain ⟨rfl, rfl⟩ := Prod.mk.inj (Option.some.inj hop)
      obtain ⟨-, hl, hk⟩ := hp
      obtain ⟨m', t, hfinish, -⟩ := hk.finishes
      have hends : ∀ m, held.piecewise a.mem m
          = (held.erase l).piecewise m' (held.piecewise s.mem m) ∧ a.threads i = t := by
        intro m
        have hm := hrun m
        rw [Code.run, piecewise_subset (held.erase_subset l) s.mem m, hfinish] at hm
        obtain ⟨hmem, ht⟩ := Prod.mk.inj (Option.some.inj hm)
        exact ⟨hmem.symm, (Prod.mk.inj ht).2.symm⟩
      have hsame : s.mem l = a.mem l := by
        have hm := congrFun (hends a.mem).1 l
        rw [Finset.piecewise_eq_of_mem _ _ _ hl,
          Finset.piecewise_eq_of_notMem _ _ _ (Finset.notMem_erase l held),
          Finset.piecewise_eq_of_mem _ _ _ hl] at hm
        exact hm.symm
      have hrest : ∀ l' ∈ held.erase l, m' l' = a.mem l' := by
        intro l' hl'
        have hm := congrFun (hends a.mem).1 l'
        rw [Finset.piecewise_eq_of_mem _ _ _ (Finset.mem_of_mem_erase hl'),
          Finset.piecewise_eq_of_mem _ _ _ hl'] at hm
        exact hm.symm
      refine ⟨rfl, h.of_thread hoperated ?_ (fun _ _ => rfl) (fun _ _ => rfl)
        (fun _ _ => rfl) (fun l' hl' => ?_) h.seen⟩
      · simp only [Function.update_self]
        refine .after (held_release hheld) hk fun m => ?_
        rw [hfinish, (hends m).2, (held.erase l).piecewise_congr hrest fun _ _ => rfl]
      · by_cases heq : l' = l
        · rw [heq]
          exact hsame
        · simp only [Function.update_of_ne heq] at hl'
          exact h.unheld l' hl'
  | load l k =>
      obtain ⟨rfl, rfl⟩ := Prod.mk.inj (Option.some.inj hop)
      refine ⟨rfl, h.of_thread hoperated ?_ (fun _ _ => rfl) (fun _ _ => rfl)
        (fun _ _ => rfl) h.unheld h.seen⟩
      simp only [Function.update_self]
      refine .after hheld hp.2 fun m => ?_
      rw [← hrun, Code.run, Finset.piecewise_eq_of_mem _ _ _ hp.1]
  | store l f k =>
      obtain ⟨rfl, rfl⟩ := Prod.mk.inj (Option.some.inj hop)
      obtain ⟨hl, hf, hk⟩ := hp
      refine ⟨rfl, h.stored hheld hl hf hoperated ?_⟩
      simp only [Function.update_self]
      refine .after hheld hk fun m => ?_
      rw [← hrun, Code.run, Finset.piecewise_eq_of_mem _ _ _ hl,
        Finset.update_piecewise_of_mem _ _ _ hl]
  | commit l f ev' k => cases hp.1
  | peek l ready ev' k => cases hp.1

theorem Represents.start (mem : ∀ l, D l) (threads : Nat → τ) :
    Represents see code allowed (.idle mem threads) ⟨mem, threads⟩ where
  threads := fun i => .between fun l hl => by cases hl
  unheld := fun _ _ => rfl
  seen := fun _ => rfl

theorem Represents.of_step
    (hcode : ∀ i t x p, allowed x → code i t x = some p → ∀ m, p.Atomic see false ∅ m)
    (h : Represents see code allowed s a) {inp : LockInput α} (hok : inp.Begins allowed)
    (hs : lockStep see code s inp = some (s', ev)) :
    (ev = [] ∧ Represents see code allowed s' a) ∨
      ∃ i x a', allowed x ∧ sectionStep see code a (i, x) = some (a', ev) ∧
        Represents see code allowed s' a' := by
  cases inp with
  | begin i x =>
      have hi := h.threads i
      simp only [lockStep] at hs
      cases hact : s.threads i with
      | inside p =>
          rw [hact] at hs
          cases hs
      | between t =>
          rw [hact] at hs hi
          obtain ⟨p, hp, hop⟩ := Option.bind_eq_some_iff.mp hs
          cases hi with
          | between hheld =>
              rcases h.operate_before (by simpa using hheld) (hcode i _ x p hok hp _) hok hp
                (fun _ => by rw [Finset.piecewise_empty, Finset.piecewise_empty]) hop with
                hsilent | ⟨a', hstep, ha'⟩
              · exact Or.inl hsilent
              · exact Or.inr ⟨i, x, a', hok, hstep, ha'⟩
  | go i =>
      have hi := h.threads i
      simp only [lockStep] at hs
      cases hact : s.threads i with
      | between t =>
          rw [hact] at hs
          cases hs
      | inside p =>
          rw [hact] at hs hi
          cases hi with
          | before hheld hp hx hp₀ hrun =>
              rcases h.operate_before hheld hp hx hp₀ hrun hs with hsilent | ⟨a', hstep, ha'⟩
              · exact Or.inl hsilent
              · exact Or.inr ⟨i, _, a', hx, hstep, ha'⟩
          | after hheld hp hrun => exact Or.inl (h.operate_after hheld hp hrun hs)

/-- **A run of operations is a run of sections.** -/
theorem run_sections
    (hcode : ∀ i t x p, allowed x → code i t x = some p → ∀ m, p.Atomic see false ∅ m)
    {tr : Trace (LockInput α) ε} {mem : ∀ l, D l} {threads : Nat → τ}
    (hrun : (lockMachine see code).Run (fun _ _ inp => inp.Begins allowed) (.idle mem threads)
      tr s) :
    ∃ tr' a, (sectionMachine see code).Run (fun _ _ inp => allowed inp.2) ⟨mem, threads⟩ tr' a ∧
      tr'.events = tr.events ∧ Represents see code allowed s a := by
  induction hrun with
  | start => exact ⟨[], ⟨mem, threads⟩, .start, rfl, .start mem threads⟩
  | @step tr s s' inp ev hr hok hs ih =>
      obtain ⟨tr', a, hr', hev, h⟩ := ih
      rcases h.of_step hcode hok hs with ⟨rfl, h'⟩ | ⟨i, x, a', hx, hstep, h'⟩
      · exact ⟨tr', a, hr', by simp [hev], h'⟩
      · exact ⟨tr' ++ [((i, x), ev)], a', .step hr' hx hstep, by simp [hev], h'⟩

end

end Locks
