import Mathlib.Tactic

set_option autoImplicit false

/-! # A counter read and written by nested activations

An activation increments a shared counter with a load and a store, then loads it again and takes
what it finds for its number. Further activations may begin at any point and finish before the one
they interrupt goes on. The numbers given are pairwise distinct and the counter is the number of
activations exactly when none begins between the first load and the second one of another; the
file has the two invariants that say so (`Sound` and `Doomed`), each kept by every step.
-/

namespace NestedCounter

/-- How far an activation has got. -/
inductive Phase where
  | entered
  | loaded (n : Nat)
  | stored
  | took (n : Nat)

namespace Phase

/-- It has loaded the counter, and not yet the second time. -/
def counting : Phase → Bool
  | .loaded _ => true
  | .stored => true
  | _ => false

def hasStored : Phase → Bool
  | .stored => true
  | .took _ => true
  | _ => false

/-- How often its next step stores the counter. -/
def nextStores : Phase → Nat
  | .loaded _ => 1
  | _ => 0

/-- The number it has taken. -/
def number : Phase → Option Nat
  | .took n => some n
  | _ => none

end Phase

/-- The counter, the activations that have not finished, innermost first, and the numbers of those
that have. -/
structure Nesting where
  count : Nat
  active : List Phase
  given : List Nat

namespace Nesting

/-- An activation begins. -/
def enter (c : Nesting) : Nesting := { c with active := .entered :: c.active }

/-- The innermost activation goes on. -/
def advance (c : Nesting) : Nesting :=
  match c.active with
  | [] => c
  | .entered :: rest => { c with active := .loaded c.count :: rest }
  | .loaded n :: rest => { c with count := n + 1, active := .stored :: rest }
  | .stored :: rest => { c with active := .took c.count :: rest }
  | .took n :: rest => { c with active := rest, given := c.given ++ [n] }

/-- How often the counter has been stored. -/
def stores (c : Nesting) : Nat := c.given.length + c.active.countP Phase.hasStored

/-- The numbers taken so far. -/
def numbers (c : Nesting) : List Nat := c.given ++ c.active.filterMap Phase.number

/-- Every activation has its own number, and the counter has counted them. -/
def Unique (c : Nesting) : Prop := c.given.Nodup ∧ c.count = c.given.length

/-! ## Every run -/

/-- No activation has loaded more than one further in, and none more than the counter, which is at
most the number of stores. -/
structure Ordered (c : Nesting) : Prop where
  nested : c.active.Pairwise fun p q => ∀ n m, p = .loaded n → q = .loaded m → m ≤ n
  loaded : ∀ n, .loaded n ∈ c.active → n ≤ c.count
  count : c.count ≤ c.stores

/-! ## Undisturbed runs -/

/-- Only the innermost activation is between its two loads, and nothing has happened to the counter
since it has been. -/
structure Sound (c : Nesting) : Prop where
  outer : ∀ p ∈ c.active.tail, p.counting = false
  loaded : ∀ n, c.active.head? = some (.loaded n) → n = c.count
  count : c.count = c.stores
  nodup : c.numbers.Nodup
  le : ∀ n ∈ c.numbers, n ≤ c.count
  stored : c.active.head? = some .stored → c.count ∉ c.numbers

/-! ## Disturbed runs -/

/-- A store has been lost or a number given twice, or an activation is bound to do so when it
stores or takes its number: one that has begun since has stored, or will. -/
inductive Doomed (c : Nesting) : Prop
  | lost (h : c.count < c.stores)
  | twice (h : ¬ c.numbers.Nodup)
  | overwrites (above below : List Phase) (n : Nat)
      (hactive : c.active = above ++ .loaded n :: below)
      (h : n < c.count ∨ ∃ p ∈ above, p.hasStored = false)
  | repeats (above below : List Phase) (hactive : c.active = above ++ .stored :: below)
      (h : c.count ∈ c.numbers ∨ ∃ p ∈ above, p.number = none)

section

variable {c : Nesting} {p : Phase} {rest : List Phase}

/-! ### Steps of the innermost activation -/

theorem advance_entered (h : c.active = .entered :: rest) :
    c.advance = { c with active := .loaded c.count :: rest } := by
  rw [advance, h]

theorem advance_loaded {n : Nat} (h : c.active = .loaded n :: rest) :
    c.advance = { c with count := n + 1, active := .stored :: rest } := by
  rw [advance, h]

theorem advance_stored (h : c.active = .stored :: rest) :
    c.advance = { c with active := .took c.count :: rest } := by
  rw [advance, h]

theorem advance_took {n : Nat} (h : c.active = .took n :: rest) :
    c.advance = { c with active := rest, given := c.given ++ [n] } := by
  rw [advance, h]

@[simp] theorem enter_stores : c.enter.stores = c.stores := rfl

@[simp] theorem enter_numbers : c.enter.numbers = c.numbers := rfl

theorem advance_stores (h : c.active = p :: rest) :
    c.advance.stores = c.stores + p.nextStores := by
  cases p with
  | entered => rw [advance_entered h, stores, stores, h]; rfl
  | loaded n =>
      rw [advance_loaded h, stores, stores, h, List.countP_cons_of_pos rfl,
        List.countP_cons_of_neg Bool.false_ne_true]
      rfl
  | stored =>
      rw [advance_stored h, stores, stores, h, List.countP_cons_of_pos rfl,
        List.countP_cons_of_pos rfl]
      rfl
  | took n =>
      rw [advance_took h, stores, stores, h, List.countP_cons_of_pos rfl, List.length_append,
        List.length_singleton, Nat.add_right_comm, Nat.add_assoc]
      rfl

/-- Only the second load takes a number. -/
theorem advance_numbers (h : c.active = p :: rest) (hp : p ≠ .stored) :
    c.advance.numbers = c.numbers := by
  cases p with
  | entered => rw [advance_entered h, numbers, numbers, h]; rfl
  | loaded n => rw [advance_loaded h, numbers, numbers, h]; rfl
  | stored => exact absurd rfl hp
  | took n =>
      rw [advance_took h, numbers, numbers, h, List.append_assoc]
      rfl

theorem advance_numbers_stored (h : c.active = .stored :: rest) :
    c.advance.numbers.Perm (c.count :: c.numbers) := by
  have hnew : c.advance.numbers = c.given ++ c.count :: rest.filterMap Phase.number := by
    rw [advance_stored h]
    rfl
  have hold : c.numbers = c.given ++ rest.filterMap Phase.number := by
    rw [numbers, h]
    rfl
  rw [hnew, hold]
  exact List.perm_middle

/-- A step neither begins nor forgets an activation. -/
theorem advance_length (c : Nesting) :
    c.advance.given.length + c.advance.active.length = c.given.length + c.active.length := by
  cases hactive : c.active with
  | nil => rw [advance, hactive]; simp [hactive]
  | cons p rest =>
      cases p with
      | entered => rw [advance_entered hactive]; rfl
      | loaded n => rw [advance_loaded hactive]; rfl
      | stored => rw [advance_stored hactive]; rfl
      | took n =>
          rw [advance_took hactive, List.length_cons]
          simp only [List.length_append, List.length_singleton]
          omega

/-! ### Every run -/

/-- A store leaves the counter at most at the number of activations. -/
theorem Ordered.loaded_lt {n : Nat} (h : Ordered c) (hactive : c.active = .loaded n :: rest) :
    n < c.given.length + c.active.length := by
  have hn := h.loaded n (by rw [hactive]; exact List.mem_cons_self)
  have hcount := h.count
  have hrest : rest.countP Phase.hasStored ≤ rest.length := List.countP_le_length
  rw [stores, hactive, List.countP_cons_of_neg Bool.false_ne_true] at hcount
  rw [hactive, List.length_cons]
  omega

theorem Ordered.enter (h : Ordered c) : Ordered c.enter where
  nested := List.pairwise_cons.mpr ⟨fun _ _ _ _ hp => (nomatch hp), h.nested⟩
  loaded := fun n hn => h.loaded n ((List.mem_cons.mp hn).resolve_left nofun)
  count := by
    rw [enter_stores]
    exact h.count

theorem Ordered.advance (h : Ordered c) : Ordered c.advance := by
  have hcount := h.count
  cases hactive : c.active with
  | nil =>
      rw [Nesting.advance, hactive]
      exact h
  | cons p rest =>
      have hnested := h.nested
      rw [hactive] at hnested
      obtain ⟨hhead, hrest⟩ := List.pairwise_cons.mp hnested
      have hloaded : ∀ n, .loaded n ∈ rest → n ≤ c.count := fun n hn =>
        h.loaded n (by rw [hactive]; exact List.mem_cons_of_mem _ hn)
      have hstores := advance_stores hactive
      cases p with
      | entered =>
          rw [advance_entered hactive] at hstores ⊢
          refine ⟨List.pairwise_cons.mpr ⟨?_, hrest⟩, ?_, by rw [hstores]; exact hcount⟩
          · rintro q hq n m ⟨⟩ rfl
            exact hloaded m hq
          · intro n hn
            rcases List.mem_cons.mp hn with heq | hn
            · exact (Phase.loaded.inj heq).le
            · exact hloaded n hn
      | loaded k =>
          have hk : k ≤ c.count := h.loaded k (by rw [hactive]; exact List.mem_cons_self)
          rw [advance_loaded hactive] at hstores ⊢
          refine ⟨List.pairwise_cons.mpr ⟨fun _ _ _ _ hp => (nomatch hp), hrest⟩, ?_, ?_⟩
          -- what the outer ones have loaded is at most what this one has
          · intro n hn
            rcases List.mem_cons.mp hn with heq | hn
            · cases heq
            · exact (hhead _ hn k n rfl rfl).trans (Nat.le_succ k)
          · rw [hstores]
            simp only [Phase.nextStores]
            omega
      | stored =>
          rw [advance_stored hactive] at hstores ⊢
          refine ⟨List.pairwise_cons.mpr ⟨fun _ _ _ _ hp => (nomatch hp), hrest⟩, ?_,
            by rw [hstores]; exact hcount⟩
          intro n hn
          exact hloaded n ((List.mem_cons.mp hn).resolve_left nofun)
      | took k =>
          rw [advance_took hactive] at hstores ⊢
          exact ⟨hrest, hloaded, by rw [hstores]; exact hcount⟩

/-! ### Undisturbed runs -/

/-- No activation has loaded the counter and not yet the second time. -/
def Undisturbed (c : Nesting) : Prop := ∀ p ∈ c.active, p.counting = false

theorem Sound.enter (h : Sound c) (hquiet : c.Undisturbed) : Sound c.enter where
  outer := hquiet
  loaded := nofun
  count := h.count
  nodup := h.nodup
  le := h.le
  stored := nofun

theorem Sound.advance (h : Sound c) : Sound c.advance := by
  have hcount := h.count
  cases hactive : c.active with
  | nil =>
      rw [Nesting.advance, hactive]
      exact h
  | cons p rest =>
      have hrest : ∀ q ∈ rest, q.counting = false := by
        have houter := h.outer
        rw [hactive] at houter
        exact houter
      have hstores := advance_stores hactive
      have hle := h.le
      cases p with
      | entered =>
          have hnumbers := advance_numbers hactive nofun
          rw [advance_entered hactive] at hstores hnumbers ⊢
          refine ⟨hrest, ?_, hcount.trans hstores.symm, by rw [hnumbers]; exact h.nodup,
            by rw [hnumbers]; exact hle, nofun⟩
          rintro n ⟨⟩
          rfl
      | loaded k =>
          have hnumbers := advance_numbers hactive nofun
          have hk : k = c.count := h.loaded k (by rw [hactive]; rfl)
          rw [advance_loaded hactive] at hstores hnumbers ⊢
          simp only [Phase.nextStores] at hstores
          refine ⟨hrest, nofun, ?_, by rw [hnumbers]; exact h.nodup, ?_, ?_⟩
          · rw [hstores, ← hcount, hk]
          · rw [hnumbers]
            intro n hn
            exact (hle n hn).trans (by rw [hk]; exact Nat.le_succ _)
          -- the number to be taken next is larger than all others
          · rw [hnumbers]
            rintro - hmem
            have hlt : k + 1 ≤ c.count := hle _ hmem
            omega
      | stored =>
          have hnumbers := advance_numbers_stored hactive
          have hnew := h.stored (by rw [hactive]; rfl)
          rw [advance_stored hactive] at hstores hnumbers ⊢
          refine ⟨hrest, nofun, hcount.trans hstores.symm, ?_, ?_, nofun⟩
          · rw [hnumbers.nodup_iff]
            exact List.nodup_cons.mpr ⟨hnew, h.nodup⟩
          · intro n hn
            rcases List.mem_cons.mp (hnumbers.mem_iff.mp hn) with rfl | hn
            · exact le_rfl
            · exact hle n hn
      | took k =>
          have hnumbers := advance_numbers hactive nofun
          rw [advance_took hactive] at hstores hnumbers ⊢
          have hhead : ∀ q, rest.head? = some q → q.counting = false := fun q hq =>
            hrest q (List.mem_of_mem_head? hq)
          refine ⟨fun q hq => hrest q (List.mem_of_mem_tail hq), ?_, hcount.trans hstores.symm,
            by rw [hnumbers]; exact h.nodup, by rw [hnumbers]; exact hle, ?_⟩
          · intro n hn
            cases hhead _ hn
          · intro hn
            cases hhead _ hn

theorem Sound.unique (h : Sound c) (hactive : c.active = []) : c.Unique := by
  have hnodup := h.nodup
  have hcount := h.count
  rw [numbers, hactive] at hnodup
  rw [stores, hactive] at hcount
  exact ⟨by simpa using hnodup, hcount⟩

/-! ### Disturbed runs -/

/-- An activation that begins between the two loads of another. -/
theorem Doomed.of_disturbed (h : ¬ c.Undisturbed) : Doomed c.enter := by
  obtain ⟨p, hp, hcounting⟩ : ∃ p ∈ c.active, p.counting = true := by
    simpa [Undisturbed] using h
  obtain ⟨above, below, hactive⟩ := List.append_of_mem hp
  have hactive' : c.enter.active = (.entered :: above) ++ p :: below := congrArg _ hactive
  cases p with
  | loaded n =>
      exact .overwrites _ _ n hactive' (Or.inr ⟨.entered, List.mem_cons_self, rfl⟩)
  | stored => exact .repeats _ _ hactive' (Or.inr ⟨.entered, List.mem_cons_self, rfl⟩)
  | entered | took _ => cases hcounting

theorem Doomed.enter (h : Doomed c) : Doomed c.enter := by
  cases h with
  | lost h => exact .lost h
  | twice h => exact .twice h
  | overwrites above below n hactive h =>
      refine .overwrites (.entered :: above) below n (congrArg _ hactive) (h.imp_right ?_)
      rintro ⟨p, hp, hstored⟩
      exact ⟨p, List.mem_cons_of_mem _ hp, hstored⟩
  | repeats above below hactive h =>
      refine .repeats (.entered :: above) below (congrArg _ hactive) (h.imp_right ?_)
      rintro ⟨p, hp, hnumber⟩
      exact ⟨p, List.mem_cons_of_mem _ hp, hnumber⟩

/-- A step adds no more to the counter than it stores. -/
theorem Ordered.advance_count_le (h : Ordered c) (hactive : c.active = p :: rest) :
    c.advance.count ≤ c.count + p.nextStores := by
  cases p with
  | entered => rw [advance_entered hactive]; exact le_rfl
  | loaded n =>
      rw [advance_loaded hactive]
      exact Nat.succ_le_succ (h.loaded n (by rw [hactive]; exact List.mem_cons_self))
  | stored => rw [advance_stored hactive]; exact le_rfl
  | took n => rw [advance_took hactive]; exact le_rfl

theorem numbers_nodup_of_advance (hactive : c.active = p :: rest) (h : c.advance.numbers.Nodup) :
    c.numbers.Nodup := by
  by_cases hp : p = .stored
  · subst hp
    exact (List.nodup_cons.mp ((advance_numbers_stored hactive).nodup_iff.mp h)).2
  · rwa [advance_numbers hactive hp] at h

/-- An activation whose store will lose another, seen from the innermost one. -/
theorem Doomed.advance_overwrites {above below : List Phase} {n : Nat} (hord : Ordered c)
    (hactive : c.active = above ++ .loaded n :: below)
    (h : n < c.count ∨ ∃ p ∈ above, p.hasStored = false) : Doomed c.advance := by
  cases above with
  | nil =>
      -- the innermost one itself: its store loses another
      have hlt : n < c.count := h.resolve_right (by simp)
      have hstores := advance_stores hactive
      have hcount := hord.count
      refine .lost ?_
      rw [hstores, advance_loaded hactive]
      exact Nat.succ_lt_succ (hlt.trans_le hcount)
  | cons q above =>
      have hactive' : c.active = q :: (above ++ .loaded n :: below) := hactive
      cases q with
      | entered =>
          rw [advance_entered hactive']
          exact .overwrites (.loaded c.count :: above) below n rfl
            (Or.inr ⟨_, List.mem_cons_self, rfl⟩)
      | loaded k =>
          have hnested := hord.nested
          rw [hactive'] at hnested
          have hle : n ≤ k := (List.pairwise_cons.mp hnested).1 _
            (List.mem_append_right _ List.mem_cons_self) k n rfl rfl
          rw [advance_loaded hactive']
          exact .overwrites (.stored :: above) below n rfl (Or.inl (Nat.lt_succ_of_le hle))
      | stored =>
          rw [advance_stored hactive']
          refine .overwrites (.took c.count :: above) below n rfl (h.imp_right ?_)
          rintro ⟨p, hp, hstored⟩
          rcases List.mem_cons.mp hp with rfl | hp
          · cases hstored
          · exact ⟨p, List.mem_cons_of_mem _ hp, hstored⟩
      | took k =>
          rw [advance_took hactive']
          refine .overwrites above below n rfl (h.imp_right ?_)
          rintro ⟨p, hp, hstored⟩
          rcases List.mem_cons.mp hp with rfl | hp
          · cases hstored
          · exact ⟨p, hp, hstored⟩

/-- An activation that will take a number again, seen from the innermost one. -/
theorem Doomed.advance_repeats {above below : List Phase}
    (hactive : c.active = above ++ .stored :: below)
    (h : c.count ∈ c.numbers ∨ ∃ p ∈ above, p.number = none) : Doomed c.advance := by
  cases above with
  | nil =>
      -- the innermost one itself: it takes a number that is taken
      have hmem : c.count ∈ c.numbers := h.resolve_right (by simp)
      refine .twice fun hnodup => ?_
      have hnodup' := (advance_numbers_stored hactive).nodup_iff.mp hnodup
      exact (List.nodup_cons.mp hnodup').1 hmem
  | cons q above =>
      have hactive' : c.active = q :: (above ++ .stored :: below) := hactive
      cases q with
      | entered =>
          rw [advance_entered hactive']
          exact .repeats (.loaded c.count :: above) below rfl (Or.inr ⟨_, List.mem_cons_self, rfl⟩)
      | loaded k =>
          rw [advance_loaded hactive']
          exact .repeats (.stored :: above) below rfl (Or.inr ⟨_, List.mem_cons_self, rfl⟩)
      | stored =>
          have hmem := (advance_numbers_stored hactive').mem_iff.mpr List.mem_cons_self
          rw [advance_stored hactive'] at hmem ⊢
          exact .repeats (.took c.count :: above) below rfl (Or.inl hmem)
      | took k =>
          have hnumbers := advance_numbers hactive' nofun
          rw [advance_took hactive'] at hnumbers ⊢
          refine .repeats above below rfl ?_
          rw [hnumbers]
          refine h.imp_right ?_
          rintro ⟨p, hp, hnumber⟩
          rcases List.mem_cons.mp hp with rfl | hp
          · cases hnumber
          · exact ⟨p, hp, hnumber⟩

theorem Doomed.advance (h : Doomed c) (hord : Ordered c) : Doomed c.advance := by
  cases hactive : c.active with
  | nil =>
      rw [Nesting.advance, hactive]
      exact h
  | cons p rest =>
      cases h with
      | lost h =>
          have hle := hord.advance_count_le hactive
          have hstores := advance_stores hactive
          exact .lost (by omega)
      | twice h => exact .twice fun hnodup => h (numbers_nodup_of_advance hactive hnodup)
      | overwrites above below n hactive h => exact .advance_overwrites hord hactive h
      | repeats above below hactive h => exact .advance_repeats hactive h

theorem Doomed.not_unique (h : Doomed c) (hactive : c.active = []) : ¬ c.Unique := by
  rintro ⟨hnodup, hcount⟩
  cases h with
  | lost h =>
      rw [stores, hactive, hcount] at h
      simp at h
  | twice h =>
      rw [numbers, hactive] at h
      exact h (by simpa using hnodup)
  | overwrites above below n h => simp [hactive] at h
  | repeats above below h => simp [hactive] at h

end

end Nesting

end NestedCounter
