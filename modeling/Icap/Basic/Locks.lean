import Icap.Basic.Transition

set_option autoImplicit false

/-! # Sections of code under locks

Threads run sections of code over a shared memory. The memory has a cell for each lock, with the
data the lock guards. The machine `lockMachine` interleaves the single operations of the sections:
taking a lock and releasing it, loads, stores and reads without a lock. A section is `Guarded` when
it uses a cell only while it holds its lock, takes locks in the order of their ranks and waits for
nothing but locks while it runs. When all sections are guarded, no two threads are about to use one
cell (`run_race_free`), and every section that has begun can be completed, so no run leads to a
deadlock (`run_completes`).
-/

namespace Locks

open Transition

/-- The rest of a section. `D` is the data of the cells and `O` what a read without the lock sees of
it. A section shows its events where it takes effect: at `commit`, a store; at `peek`, a read
without the lock that waits until `ready`; or where it ends. -/
inductive Code {L : Type} (D O : L → Type) (ε τ : Type) where
  | ret (ev : List ε) (t : τ)
  | acquire (l : L) (k : Code D O ε τ)
  | release (l : L) (k : Code D O ε τ)
  | load (l : L) (k : D l → Code D O ε τ)
  | store (l : L) (f : D l → D l) (k : Code D O ε τ)
  | commit (l : L) (f : D l → D l) (ev : List ε) (k : Code D O ε τ)
  | peek (l : L) (ready : O l → Bool) (ev : O l → List ε) (k : O l → Code D O ε τ)

/-- A thread is between two sections, with what it remembers, or inside one. -/
inductive Activity {L : Type} (D O : L → Type) (ε τ : Type) where
  | between (t : τ)
  | inside (p : Code D O ε τ)

structure LockState {L : Type} (D O : L → Type) (ε τ : Type) where
  mem : ∀ l, D l
  holder : L → Option Nat
  threads : Nat → Activity D O ε τ

inductive LockInput (α : Type) where
  /-- The thread begins the section of `a` with its first operation. -/
  | begin (i : Nat) (a : α)
  | go (i : Nat)

section

variable {L : Type} [DecidableEq L] {D O : L → Type} {ε τ α : Type}

/-- One operation of the thread `i`. -/
def operate (see : ∀ l, D l → O l) (s : LockState D O ε τ) (i : Nat) :
    Code D O ε τ → Option (LockState D O ε τ × List ε)
  | .ret ev t => some ({ s with threads := Function.update s.threads i (.between t) }, ev)
  | .acquire l k =>
      if s.holder l = none then
        some (⟨s.mem, Function.update s.holder l (some i),
          Function.update s.threads i (.inside k)⟩, [])
      else
        none
  | .release l k =>
      if s.holder l = some i then
        some (⟨s.mem, Function.update s.holder l none,
          Function.update s.threads i (.inside k)⟩, [])
      else
        none
  | .load l k =>
      some ({ s with threads := Function.update s.threads i (.inside (k (s.mem l))) }, [])
  | .store l f k =>
      some (⟨Function.update s.mem l (f (s.mem l)), s.holder,
        Function.update s.threads i (.inside k)⟩, [])
  | .commit l f ev k =>
      some (⟨Function.update s.mem l (f (s.mem l)), s.holder,
        Function.update s.threads i (.inside k)⟩, ev)
  | .peek l ready ev k =>
      let o := see l (s.mem l)
      if ready o then
        some ({ s with threads := Function.update s.threads i (.inside (k o)) }, ev o)
      else
        none

def lockStep (see : ∀ l, D l → O l) (code : Nat → τ → α → Option (Code D O ε τ))
    (s : LockState D O ε τ) : LockInput α → Option (LockState D O ε τ × List ε)
  | .begin i a =>
      match s.threads i with
      | .between t => (code i t a).bind (operate see s i)
      | .inside _ => none
  | .go i =>
      match s.threads i with
      | .between _ => none
      | .inside p => operate see s i p

def lockMachine (see : ∀ l, D l → O l) (code : Nat → τ → α → Option (Code D O ε τ)) :
    Machine (LockState D O ε τ) (LockInput α) ε :=
  ⟨lockStep see code⟩

/-- No lock is held and no thread is inside a section. -/
def LockState.idle (mem : ∀ l, D l) (threads : Nat → τ) : LockState D O ε τ :=
  ⟨mem, fun _ => none, fun i => .between (threads i)⟩

/-! ## Guarded sections -/

/-- The rest of a section that holds the locks `held`. The cells that are `free` have no lock. -/
def Code.Guarded (rank : L → Nat) (free : L → Bool) : Code D O ε τ → Finset L → Prop
  | ret _ _, held => held = ∅
  | acquire l k, held =>
      free l = false ∧ (∀ l' ∈ held, rank l' < rank l) ∧ k.Guarded rank free (insert l held)
  | release l k, held => l ∈ held ∧ k.Guarded rank free (held.erase l)
  | load l k, held => (l ∈ held ∨ free l = true) ∧ ∀ d, (k d).Guarded rank free held
  | store l _ k, held => (l ∈ held ∨ free l = true) ∧ k.Guarded rank free held
  | commit l _ _ k, held => (l ∈ held ∨ free l = true) ∧ k.Guarded rank free held
  | peek _ ready _ k, held => (∀ o, ready o = true) ∧ ∀ o, (k o).Guarded rank free held

/-- A section that waits for nothing but locks, unless it begins with a wait. -/
def Code.Disciplined (rank : L → Nat) (free : L → Bool) : Code D O ε τ → Prop
  | peek _ _ _ k => ∀ o, (k o).Guarded rank free ∅
  | p => p.Guarded rank free ∅

/-- The cell the section uses next, under its lock or as a free cell. -/
def Code.uses : Code D O ε τ → Option L
  | load l _ => some l
  | store l _ _ => some l
  | commit l _ _ _ => some l
  | _ => none

/-- A thread holds the locks that its section knows of. -/
def Keeps (rank : L → Nat) (free : L → Bool) (holder : L → Option Nat) (i : Nat) :
    Activity D O ε τ → Prop
  | .between _ => ∀ l, holder l ≠ some i
  | .inside p => ∃ held, (∀ l, holder l = some i ↔ l ∈ held) ∧ p.Guarded rank free held

/-- Every thread holds the locks that its section knows of. -/
def Orderly (rank : L → Nat) (free : L → Bool) (s : LockState D O ε τ) : Prop :=
  ∀ i, Keeps rank free s.holder i (s.threads i)

variable {see : ∀ l, D l → O l} {code : Nat → τ → α → Option (Code D O ε τ)} {rank : L → Nat}
  {free : L → Bool} {s s' : LockState D O ε τ} {i j : Nat} {p : Code D O ε τ} {ev : List ε}
  {held : Finset L}

theorem Keeps.congr {holder holder' : L → Option Nat} {x : Activity D O ε τ}
    (h : Keeps rank free holder i x) (hsame : ∀ l, holder' l = some i ↔ holder l = some i) :
    Keeps rank free holder' i x := by
  cases x with
  | between t => exact fun l hl => h l ((hsame l).mp hl)
  | inside p =>
      obtain ⟨held, hheld, hp⟩ := h
      exact ⟨held, fun l => (hsame l).trans (hheld l), hp⟩

/-- What an operation leaves of the other threads and the locks. -/
structure Operated (see : ∀ l, D l → O l) (s : LockState D O ε τ) (i : Nat)
    (s' : LockState D O ε τ) : Prop where
  threads : ∀ j, j ≠ i → s'.threads j = s.threads j
  holder : ∀ j, j ≠ i → ∀ l, s'.holder l = some j ↔ s.holder l = some j

theorem operate_operated (h : operate see s i p = some (s', ev)) : Operated see s i s' := by
  cases p with
  | ret ev' t | load l k =>
      obtain ⟨rfl, -⟩ := Prod.mk.inj (Option.some.inj h)
      exact ⟨fun j hj => Function.update_of_ne hj _ _, fun _ _ _ => Iff.rfl⟩
  | store l f k | commit l f ev' k =>
      obtain ⟨rfl, -⟩ := Prod.mk.inj (Option.some.inj h)
      exact ⟨fun j hj => Function.update_of_ne hj _ _, fun _ _ _ => Iff.rfl⟩
  | peek l ready ev' k =>
      simp only [operate] at h
      split_ifs at h
      obtain ⟨rfl, -⟩ := Prod.mk.inj (Option.some.inj h)
      exact ⟨fun j hj => Function.update_of_ne hj _ _, fun _ _ _ => Iff.rfl⟩
  | acquire l k =>
      simp only [operate] at h
      split_ifs at h with hfree
      obtain ⟨rfl, -⟩ := Prod.mk.inj (Option.some.inj h)
      refine ⟨fun j hj => Function.update_of_ne hj _ _, fun j hj l' => ?_⟩
      by_cases hl : l' = l
      · subst hl
        simp [hfree, Ne.symm hj]
      · simp [hl]
  | release l k =>
      simp only [operate] at h
      split_ifs at h with hown
      obtain ⟨rfl, -⟩ := Prod.mk.inj (Option.some.inj h)
      refine ⟨fun j hj => Function.update_of_ne hj _ _, fun j hj l' => ?_⟩
      by_cases hl : l' = l
      · subst hl
        simp [hown, Ne.symm hj]
      · simp [hl]

theorem held_acquire {holder : L → Option Nat} {l : L} (h : ∀ l, holder l = some i ↔ l ∈ held)
    (l' : L) : Function.update holder l (some i) l' = some i ↔ l' ∈ insert l held := by
  by_cases hl : l' = l
  · subst hl
    simp
  · simp [hl, h]

theorem held_release {holder : L → Option Nat} {l : L} (h : ∀ l, holder l = some i ↔ l ∈ held)
    (l' : L) : Function.update holder l none l' = some i ↔ l' ∈ held.erase l := by
  by_cases hl : l' = l
  · subst hl
    simp
  · simp [hl, h]

/-- The thread that operates keeps its locks in order. -/
theorem operate_keeps (hheld : ∀ l, s.holder l = some i ↔ l ∈ held)
    (hp : p.Guarded rank free held) (h : operate see s i p = some (s', ev)) :
    Keeps rank free s'.holder i (s'.threads i) := by
  cases p with
  | ret ev t =>
      obtain ⟨rfl, -⟩ := Prod.mk.inj (Option.some.inj h)
      simp only [Function.update_self]
      intro l hl
      rw [hheld, show held = ∅ from hp] at hl
      exact Finset.notMem_empty _ hl
  | load l k =>
      obtain ⟨rfl, -⟩ := Prod.mk.inj (Option.some.inj h)
      simp only [Function.update_self]
      exact ⟨held, hheld, hp.2 _⟩
  | store l f k | commit l f ev' k =>
      obtain ⟨rfl, -⟩ := Prod.mk.inj (Option.some.inj h)
      simp only [Function.update_self]
      exact ⟨held, hheld, hp.2⟩
  | peek l ready ev' k =>
      simp only [operate] at h
      split_ifs at h
      obtain ⟨rfl, -⟩ := Prod.mk.inj (Option.some.inj h)
      simp only [Function.update_self]
      exact ⟨held, hheld, hp.2 _⟩
  | acquire l k =>
      simp only [operate] at h
      split_ifs at h
      obtain ⟨rfl, -⟩ := Prod.mk.inj (Option.some.inj h)
      simp only [Function.update_self]
      exact ⟨insert l held, held_acquire hheld, hp.2.2⟩
  | release l k =>
      simp only [operate] at h
      split_ifs at h
      obtain ⟨rfl, -⟩ := Prod.mk.inj (Option.some.inj h)
      simp only [Function.update_self]
      exact ⟨held.erase l, held_release hheld, hp.2⟩

theorem Orderly.operate (hs : Orderly rank free s) (hheld : ∀ l, s.holder l = some i ↔ l ∈ held)
    (hp : p.Guarded rank free held) (h : operate see s i p = some (s', ev)) :
    Orderly rank free s' := by
  intro j
  by_cases hj : j = i
  · subst hj
    exact operate_keeps hheld hp h
  · have hop := operate_operated h
    rw [hop.threads j hj]
    exact (hs j).congr (hop.holder j hj)

/-- A section that begins has no lock; one that begins with a wait ends it in its first
operation. -/
theorem Orderly.begin (hs : Orderly rank free s) {t : τ} (hi : s.threads i = .between t)
    (hp : p.Disciplined rank free) (h : Locks.operate see s i p = some (s', ev)) :
    Orderly rank free s' := by
  have hnone : ∀ l, s.holder l = some i ↔ l ∈ (∅ : Finset L) := by
    intro l
    have hbetween := hs i
    rw [hi] at hbetween
    simpa using hbetween l
  cases p with
  | peek l ready ev' k =>
      have hop := operate_operated h
      simp only [Locks.operate] at h
      split_ifs at h
      obtain ⟨rfl, -⟩ := Prod.mk.inj (Option.some.inj h)
      intro j
      by_cases hj : j = i
      · subst hj
        simp only [Function.update_self]
        exact ⟨∅, hnone, hp _⟩
      · rw [hop.threads j hj]
        exact (hs j).congr (hop.holder j hj)
  | _ => exact hs.operate hnone hp h

theorem Orderly.of_step (hcode : ∀ i t a p, code i t a = some p → p.Disciplined rank free)
    (hs : Orderly rank free s) {a : LockInput α} (h : lockStep see code s a = some (s', ev)) :
    Orderly rank free s' := by
  cases a with
  | begin i a =>
      simp only [lockStep] at h
      split at h
      · rename_i t hi
        obtain ⟨p, hp, hop⟩ := Option.bind_eq_some_iff.mp h
        exact hs.begin hi (hcode i t a p hp) hop
      · cases h
  | go i =>
      simp only [lockStep] at h
      split at h
      · cases h
      · rename_i p hi
        have hkeeps := hs i
        rw [hi] at hkeeps
        obtain ⟨held, hheld, hp⟩ := hkeeps
        exact hs.operate hheld hp h

section

variable {ok : Trace (LockInput α) ε → LockState D O ε τ → LockInput α → Prop}
  {tr : Trace (LockInput α) ε} {mem : ∀ l, D l} {threads : Nat → τ}

theorem run_orderly (hcode : ∀ i t a p, code i t a = some p → p.Disciplined rank free)
    (hrun : (lockMachine see code).Run ok (.idle mem threads) tr s) : Orderly rank free s := by
  refine hrun.invariant (I := fun _ s => Orderly rank free s) ?_ ?_
  · intro i l hl
    cases hl
  · intro tr s s' a ev _ hs _ hstep
    exact hs.of_step hcode hstep

theorem held_of_uses {l : L} (hp : p.Guarded rank free held) (h : p.uses = some l) :
    l ∈ held ∨ free l = true := by
  cases p with
  | load l' k | store l' f k | commit l' f ev k =>
      obtain rfl : l' = l := Option.some.inj h
      exact hp.1
  | ret _ _ | acquire _ _ | release _ _ | peek _ _ _ _ => cases h

/-- A thread that is about to use a cell holds its lock, unless it has none, and no other thread is
about to use the cell. -/
theorem run_race_free (hcode : ∀ i t a p, code i t a = some p → p.Disciplined rank free)
    (hrun : (lockMachine see code).Run ok (.idle mem threads) tr s) {l : L}
    (hi : s.threads i = .inside p) (hp : p.uses = some l) (hl : free l = false) :
    s.holder l = some i ∧ ∀ j q, j ≠ i → s.threads j = .inside q → q.uses ≠ some l := by
  have hs := run_orderly hcode hrun
  have hholds : ∀ {j : Nat} {q : Code D O ε τ}, s.threads j = .inside q → q.uses = some l →
      s.holder l = some j := by
    intro j q hj hq
    have hkeeps := hs j
    rw [hj] at hkeeps
    obtain ⟨held, hheld, hguarded⟩ := hkeeps
    rcases held_of_uses hguarded hq with hin | hfree
    · exact (hheld l).mpr hin
    · rw [hl] at hfree
      cases hfree
  refine ⟨hholds hi hp, fun j q hj hq huses => hj ?_⟩
  have hsame := hholds hq huses
  rw [hholds hi hp] at hsame
  exact (Option.some.inj hsame).symm

end

/-! ## Completing sections -/

/-- Only threads that are inside a section go on. -/
def Goes (_ : Trace (LockInput α) ε) (_ : LockState D O ε τ) (a : LockInput α) : Prop :=
  ∃ i, a = .go i

/-- The threads that are inside a section can go on to `s'`. -/
def Reaches (see : ∀ l, D l → O l) (code : Nat → τ → α → Option (Code D O ε τ))
    (s s' : LockState D O ε τ) : Prop :=
  ∃ tr, (lockMachine see code).Run Goes s tr s'

theorem Reaches.refl (s : LockState D O ε τ) : Reaches see code s s := ⟨[], .start⟩

theorem Reaches.trans {s₁ : LockState D O ε τ} (h : Reaches see code s s₁)
    (h' : Reaches see code s₁ s') : Reaches see code s s' := by
  obtain ⟨tr, h⟩ := h
  obtain ⟨tr', h'⟩ := h'
  exact ⟨tr ++ tr', h.append h'⟩

theorem Reaches.operate (hi : s.threads i = .inside p)
    (h : Locks.operate see s i p = some (s', ev)) : Reaches see code s s' := by
  refine ⟨[] ++ [(.go i, ev)], .step .start ⟨i, rfl⟩ ?_⟩
  simp only [lockMachine, lockStep, hi]
  exact h

omit [DecidableEq L] in
/-- What the thread `k` has is left alone. -/
def Spared (s s' : LockState D O ε τ) (k : Nat) : Prop :=
  s'.threads k = s.threads k ∧ ∀ l, s'.holder l = some k ↔ s.holder l = some k

omit [DecidableEq L] in
theorem Spared.refl (s : LockState D O ε τ) (k : Nat) : Spared s s k := ⟨rfl, fun _ => Iff.rfl⟩

omit [DecidableEq L] in
theorem Spared.trans {s₁ : LockState D O ε τ} {k : Nat} (h : Spared s s₁ k) (h' : Spared s₁ s' k) :
    Spared s s' k :=
  ⟨h'.1.trans h.1, fun l => (h'.2 l).trans (h.2 l)⟩

omit [DecidableEq L] in
theorem Operated.spared (h : Operated see s i s') {k : Nat} (hk : k ≠ i) : Spared s s' k :=
  ⟨h.threads k hk, h.holder k hk⟩

/-- The threads that hold `l` or a lock above it go on until `l` is free. -/
structure Frees (see : ∀ l, D l → O l) (code : Nat → τ → α → Option (Code D O ε τ))
    (rank : L → Nat) (free : L → Bool) (l : L) (s s' : LockState D O ε τ) : Prop where
  reaches : Reaches see code s s'
  orderly : Orderly rank free s'
  freed : s'.holder l = none
  spared : ∀ k, (∀ l', s.holder l' = some k → rank l' < rank l) → Spared s s' k

/-- The thread `j`, which holds `l`, takes a step before `l` is freed. -/
theorem Frees.operate {l : L} {s₁ : LockState D O ε τ} (hj : s.threads j = .inside p)
    (hown : s.holder l = some j) (hop : Locks.operate see s j p = some (s₁, ev))
    (h : Frees see code rank free l s₁ s') : Frees see code rank free l s s' := by
  refine ⟨(Reaches.operate hj hop).trans h.reaches, h.orderly, h.freed, fun k hk => ?_⟩
  have hne : k ≠ j := by
    rintro rfl
    exact Nat.lt_irrefl _ (hk l hown)
  have hspared := (operate_operated hop).spared hne
  exact hspared.trans (h.spared k fun l' hl' => hk l' ((hspared.2 l').mp hl'))

/-- Locks above `l` are freed before `l` is. -/
theorem Frees.trans {l l' : L} {s₁ : LockState D O ε τ} (hl : rank l < rank l')
    (h : Frees see code rank free l' s s₁) (h' : Frees see code rank free l s₁ s') :
    Frees see code rank free l s s' := by
  refine ⟨h.reaches.trans h'.reaches, h'.orderly, h'.freed, fun k hk => ?_⟩
  have hspared := h.spared k fun l₁ hl₁ => (hk l₁ hl₁).trans hl
  exact hspared.trans (h'.spared k fun l₁ hl₁ => hk l₁ ((hspared.2 l₁).mp hl₁))

/-- The section of a thread that holds a lock. -/
theorem Orderly.inside {l : L} (hs : Orderly rank free s) (hown : s.holder l = some j) :
    ∃ p held, s.threads j = .inside p ∧ (∀ l, s.holder l = some j ↔ l ∈ held) ∧
      p.Guarded rank free held := by
  have hkeeps := hs j
  cases hj : s.threads j with
  | between t =>
      rw [hj] at hkeeps
      exact absurd hown (hkeeps l)
  | inside p =>
      rw [hj] at hkeeps
      obtain ⟨held, hheld, hp⟩ := hkeeps
      exact ⟨p, held, rfl, hheld, hp⟩

/-- A lock that is held can be freed. The induction is on the locks above it and, for one lock, on
the section of its holder. -/
theorem exists_frees {B : Nat} (hB : ∀ l, rank l < B) (n : Nat) :
    ∀ {l : L} {p : Code D O ε τ} {held : Finset L} {s : LockState D O ε τ}, B ≤ rank l + n →
      Orderly rank free s → s.threads j = .inside p → (∀ l, s.holder l = some j ↔ l ∈ held) →
      p.Guarded rank free held → l ∈ held → ∃ s', Frees see code rank free l s s' := by
  induction n generalizing j with
  | zero =>
      intro l p held s hn
      exact absurd hn (Nat.not_le.mpr (hB l))
  | succ n ihn =>
      intro l p held s hn hs hj hheld hp hl
      have hown := (hheld l).mpr hl
      induction p generalizing held s with
      | ret ev t =>
          rw [show held = ∅ from hp] at hl
          exact absurd hl (Finset.notMem_empty l)
      | load l' k ih =>
          have hop : operate see s j (.load l' k) = some (_, []) := rfl
          obtain ⟨s', h⟩ := ih _ (hs.operate hheld hp hop) (Function.update_self _ _ _) hheld
            (hp.2 _) hl hown
          exact ⟨s', h.operate hj hown hop⟩
      | store l' f k ih =>
          have hop : operate see s j (.store l' f k) = some (_, []) := rfl
          obtain ⟨s', h⟩ := ih (hs.operate hheld hp hop) (Function.update_self _ _ _) hheld
            hp.2 hl hown
          exact ⟨s', h.operate hj hown hop⟩
      | commit l' f ev k ih =>
          have hop : operate see s j (.commit l' f ev k) = some (_, ev) := rfl
          obtain ⟨s', h⟩ := ih (hs.operate hheld hp hop) (Function.update_self _ _ _) hheld
            hp.2 hl hown
          exact ⟨s', h.operate hj hown hop⟩
      | peek l' ready ev k ih =>
          have hop : operate see s j (.peek l' ready ev k) = some (_, ev (see l' (s.mem l'))) :=
            if_pos (hp.1 _)
          obtain ⟨s', h⟩ := ih _ (hs.operate hheld hp hop) (Function.update_self _ _ _) hheld
            (hp.2 _) hl hown
          exact ⟨s', h.operate hj hown hop⟩
      | release l' k ih =>
          have hop : operate see s j (.release l' k) = some (_, []) :=
            if_pos ((hheld l').mpr hp.1)
          have hs₁ := hs.operate hheld hp hop
          by_cases hl' : l' = l
          · subst hl'
            refine ⟨_, (Reaches.operate hj hop), hs₁, Function.update_self _ _ _, fun k' hk' => ?_⟩
            refine (operate_operated hop).spared ?_
            rintro rfl
            exact Nat.lt_irrefl _ (hk' l' hown)
          · have hown₁ : Function.update s.holder l' none l = some j := by
              rwa [Function.update_of_ne (Ne.symm hl')]
            obtain ⟨s', h⟩ := ih hs₁ (Function.update_self _ _ _) (held_release hheld) hp.2
              (Finset.mem_erase.mpr ⟨Ne.symm hl', hl⟩) hown₁
            exact ⟨s', h.operate hj hown hop⟩
      | acquire l' k ih =>
          have hrank : rank l < rank l' := hp.2.1 l hl
          -- first `l'` has to be free, which lies above `l`
          have hready : ∃ s₁, s₁.holder l' = none ∧ Spared s s₁ j ∧ Orderly rank free s₁ ∧
              ∀ s', Frees see code rank free l s₁ s' → Frees see code rank free l s s' := by
            cases hholder : s.holder l' with
            | none => exact ⟨s, hholder, .refl s j, hs, fun s' h => h⟩
            | some m =>
                obtain ⟨q, held', hm, hheld', hq⟩ := hs.inside hholder
                obtain ⟨s₁, h⟩ := ihn (by omega) hs hm hheld' hq ((hheld' l').mp hholder)
                exact ⟨s₁, h.freed, h.spared j fun l₁ hl₁ => hp.2.1 l₁ ((hheld l₁).mp hl₁),
                  h.orderly, fun s' h' => h.trans hrank h'⟩
          obtain ⟨s₁, hfree, hspared, hs₁, hback⟩ := hready
          have hj₁ : s₁.threads j = .inside (.acquire l' k) := hspared.1.trans hj
          have hheld₁ := fun l₁ => (hspared.2 l₁).trans (hheld l₁)
          have hown₁ : s₁.holder l = some j := (hheld₁ l).mpr hl
          have hop : operate see s₁ j (.acquire l' k) = some (_, []) := if_pos hfree
          have hne : l ≠ l' := by
            rintro rfl
            exact Nat.lt_irrefl _ hrank
          obtain ⟨s', h⟩ := ih (hs₁.operate hheld₁ hp hop) (Function.update_self _ _ _)
            (held_acquire hheld₁) hp.2.2 (Finset.mem_insert_of_mem hl)
            ((Function.update_of_ne hne _ _).trans hown₁)
          exact ⟨s', hback s' (h.operate hj₁ hown₁ hop)⟩

/-- The induction is on the section of the thread. A lock it waits for is freed first, which leaves
the thread where it is because it only holds locks below it. -/
theorem Orderly.completes {B : Nat} (hB : ∀ l, rank l < B) {p : Code D O ε τ} :
    ∀ {s : LockState D O ε τ} {held : Finset L}, Orderly rank free s → s.threads i = .inside p →
      (∀ l, s.holder l = some i ↔ l ∈ held) → p.Guarded rank free held →
      ∃ s' t, Reaches see code s s' ∧ s'.threads i = .between t := by
  induction p with
  | ret ev t =>
      intro s held hs hi hheld hp
      have hop : Locks.operate see s i (.ret ev t) = some (_, ev) := rfl
      exact ⟨_, t, .operate hi hop, Function.update_self _ _ _⟩
  | load l k ih =>
      intro s held hs hi hheld hp
      have hop : Locks.operate see s i (.load l k) = some (_, []) := rfl
      obtain ⟨s', t, hreach, hs'⟩ := ih _ (hs.operate hheld hp hop) (Function.update_self _ _ _)
        hheld (hp.2 _)
      exact ⟨s', t, (Reaches.operate hi hop).trans hreach, hs'⟩
  | store l f k ih =>
      intro s held hs hi hheld hp
      have hop : Locks.operate see s i (.store l f k) = some (_, []) := rfl
      obtain ⟨s', t, hreach, hs'⟩ := ih (hs.operate hheld hp hop) (Function.update_self _ _ _)
        hheld hp.2
      exact ⟨s', t, (Reaches.operate hi hop).trans hreach, hs'⟩
  | commit l f ev k ih =>
      intro s held hs hi hheld hp
      have hop : Locks.operate see s i (.commit l f ev k) = some (_, ev) := rfl
      obtain ⟨s', t, hreach, hs'⟩ := ih (hs.operate hheld hp hop) (Function.update_self _ _ _)
        hheld hp.2
      exact ⟨s', t, (Reaches.operate hi hop).trans hreach, hs'⟩
  | peek l ready ev k ih =>
      intro s held hs hi hheld hp
      have hop : Locks.operate see s i (.peek l ready ev k) = some (_, ev (see l (s.mem l))) :=
        if_pos (hp.1 _)
      obtain ⟨s', t, hreach, hs'⟩ := ih _ (hs.operate hheld hp hop) (Function.update_self _ _ _)
        hheld (hp.2 _)
      exact ⟨s', t, (Reaches.operate hi hop).trans hreach, hs'⟩
  | release l k ih =>
      intro s held hs hi hheld hp
      have hop : Locks.operate see s i (.release l k) = some (_, []) := if_pos ((hheld l).mpr hp.1)
      obtain ⟨s', t, hreach, hs'⟩ := ih (hs.operate hheld hp hop) (Function.update_self _ _ _)
        (held_release hheld) hp.2
      exact ⟨s', t, (Reaches.operate hi hop).trans hreach, hs'⟩
  | acquire l k ih =>
      intro s held hs hi hheld hp
      have hready : ∃ s₁, s₁.holder l = none ∧ Spared s s₁ i ∧ Orderly rank free s₁ ∧
          Reaches see code s s₁ := by
        cases hholder : s.holder l with
        | none => exact ⟨s, hholder, .refl s i, hs, .refl s⟩
        | some j =>
            obtain ⟨q, held', hj, hheld', hq⟩ := hs.inside hholder
            obtain ⟨s₁, h⟩ := exists_frees hB B (Nat.le_add_left _ _) hs hj hheld' hq
              ((hheld' l).mp hholder)
            exact ⟨s₁, h.freed, h.spared i fun l₁ hl₁ => hp.2.1 l₁ ((hheld l₁).mp hl₁), h.orderly,
              h.reaches⟩
      obtain ⟨s₁, hfree, hspared, hs₁, hreach₁⟩ := hready
      have hi₁ : s₁.threads i = .inside (.acquire l k) := hspared.1.trans hi
      have hheld₁ := fun l₁ => (hspared.2 l₁).trans (hheld l₁)
      have hop : Locks.operate see s₁ i (.acquire l k) = some (_, []) := if_pos hfree
      obtain ⟨s', t, hreach, hs'⟩ := ih (hs₁.operate hheld₁ hp hop) (Function.update_self _ _ _)
        (held_acquire hheld₁) hp.2.2
      exact ⟨s', t, hreach₁.trans ((Reaches.operate hi₁ hop).trans hreach), hs'⟩

/-- Whatever the other threads hold, the sections that have begun can go on until the thread `i` is
between two sections. -/
theorem run_completes {ok : Trace (LockInput α) ε → LockState D O ε τ → LockInput α → Prop}
    {tr : Trace (LockInput α) ε} {mem : ∀ l, D l} {threads : Nat → τ} {B : Nat}
    (hB : ∀ l, rank l < B) (hcode : ∀ i t a p, code i t a = some p → p.Disciplined rank free)
    (hrun : (lockMachine see code).Run ok (.idle mem threads) tr s) (i : Nat) :
    ∃ s' t, Reaches see code s s' ∧ s'.threads i = .between t := by
  have hs := run_orderly hcode hrun
  have hkeeps := hs i
  cases hi : s.threads i with
  | between t => exact ⟨s, t, .refl s, hi⟩
  | inside p =>
      rw [hi] at hkeeps
      obtain ⟨held, hheld, hp⟩ := hkeeps
      exact hs.completes hB hi hheld hp

end

end Locks
