import Mathlib.Tactic

set_option autoImplicit false

/-! # Jobs taken one at a time

A server takes jobs in order. Some jobs need a result from outside before they are done, and while
one waits for its result no other job is taken. So the jobs and the results, each in order, decide
the outcome of every job (`outcomes`), and a step of the server adds at most one outcome at the end
(`Progress.take`, `Progress.finish`). Of several servers each takes its own jobs; what they show of
their outcomes in any order belongs to different jobs (`exists_outcomes`).
-/

namespace Serial

variable {α ρ : Type}

/-- The jobs that are done, each with the result it got; a job that waits for its result ends the
list. -/
def outcomes (needs : α → Bool) : List α → List ρ → List (α × Option ρ)
  | [], _ => []
  | a :: as, rs =>
      if needs a then
        match rs with
        | [] => []
        | r :: rs => (a, some r) :: outcomes needs as rs
      else
        (a, none) :: outcomes needs as rs

/-- How far the server is: every job is done, or the last one waits for its result. -/
inductive Progress (needs : α → Bool) (jobs : List α) (rs : List ρ) : Option α → Prop
  | idle (h : rs.length = (jobs.filter needs).length) : Progress needs jobs rs none
  | waiting (before : List α) (a : α) (hjobs : jobs = before ++ [a]) (hneeds : needs a = true)
      (h : rs.length = (before.filter needs).length) : Progress needs jobs rs (some a)

section

variable {needs : α → Bool} {jobs : List α} {rs : List ρ} {a : α}

theorem outcomes_cons_of_needs (h : needs a = true) (r : ρ) (rs : List ρ) :
    outcomes needs (a :: jobs) (r :: rs) = (a, some r) :: outcomes needs jobs rs :=
  if_pos h

theorem outcomes_cons_nil (h : needs a = true) :
    outcomes needs (a :: jobs) ([] : List ρ) = [] :=
  if_pos h

theorem outcomes_cons_of_not (h : ¬ needs a = true) (rs : List ρ) :
    outcomes needs (a :: jobs) rs = (a, none) :: outcomes needs jobs rs :=
  if_neg h

/-- Later jobs do not change the outcomes of jobs that are done. -/
theorem outcomes_append (h : rs.length = (jobs.filter needs).length) (jobs' : List α)
    (rs' : List ρ) :
    outcomes needs (jobs ++ jobs') (rs ++ rs')
      = outcomes needs jobs rs ++ outcomes needs jobs' rs' := by
  induction jobs generalizing rs with
  | nil =>
      obtain rfl : rs = [] := List.eq_nil_of_length_eq_zero h
      rfl
  | cons a jobs ih =>
      by_cases hneeds : needs a = true
      · rw [List.filter_cons_of_pos hneeds] at h
        cases rs with
        | nil => cases h
        | cons r rs =>
            have ih' := @ih rs (Nat.succ.inj h)
            simp only [List.cons_append, outcomes_cons_of_needs hneeds, ih']
      · rw [List.filter_cons_of_neg hneeds] at h
        simp only [List.cons_append, outcomes_cons_of_not hneeds, ih h]

/-- Later jobs and results only add outcomes. -/
theorem prefix_outcomes (needs : α → Bool) (jobs jobs' : List α) (rs rs' : List ρ) :
    outcomes needs jobs rs <+: outcomes needs (jobs ++ jobs') (rs ++ rs') := by
  induction jobs generalizing rs with
  | nil => exact List.nil_prefix
  | cons a jobs ih =>
      by_cases hneeds : needs a = true
      · cases rs with
        | nil =>
            rw [outcomes_cons_nil hneeds]
            exact List.nil_prefix
        | cons r rs =>
            rw [List.cons_append, List.cons_append, outcomes_cons_of_needs hneeds,
              outcomes_cons_of_needs hneeds]
            exact List.cons_prefix_cons.mpr ⟨rfl, ih rs⟩
      · rw [List.cons_append, outcomes_cons_of_not hneeds, outcomes_cons_of_not hneeds]
        exact List.cons_prefix_cons.mpr ⟨rfl, ih rs⟩

/-- The jobs that are done are the first ones. -/
theorem prefix_fst_outcomes (needs : α → Bool) (jobs : List α) (rs : List ρ) :
    (outcomes needs jobs rs).map Prod.fst <+: jobs := by
  induction jobs generalizing rs with
  | nil => exact List.prefix_refl _
  | cons a jobs ih =>
      by_cases hneeds : needs a = true
      · cases rs with
        | nil =>
            rw [outcomes_cons_nil hneeds]
            exact List.nil_prefix
        | cons r rs =>
            rw [outcomes_cons_of_needs hneeds, List.map_cons]
            exact List.cons_prefix_cons.mpr ⟨rfl, ih rs⟩
      · rw [outcomes_cons_of_not hneeds, List.map_cons]
        exact List.cons_prefix_cons.mpr ⟨rfl, ih rs⟩

theorem mem_of_outcome {o : Option ρ} (h : (a, o) ∈ outcomes needs jobs rs) : a ∈ jobs :=
  (prefix_fst_outcomes needs jobs rs).sublist.mem (List.mem_map_of_mem h)

namespace Progress

/-- The server takes a job. -/
theorem take (h : Progress needs jobs rs none) (a : α) :
    Progress needs (jobs ++ [a]) rs (if needs a then some a else none) ∧
      outcomes needs (jobs ++ [a]) rs
        = outcomes needs jobs rs ++ if needs a then [] else [(a, none)] := by
  cases h with
  | idle h =>
      have happend := outcomes_append h [a] []
      rw [List.append_nil] at happend
      by_cases hneeds : needs a = true
      · rw [if_pos hneeds, if_pos hneeds, happend, outcomes_cons_nil hneeds]
        exact ⟨.waiting jobs a rfl hneeds h, rfl⟩
      · rw [if_neg hneeds, if_neg hneeds, happend, outcomes_cons_of_not hneeds]
        refine ⟨.idle ?_, rfl⟩
        rw [List.filter_append, List.filter_cons_of_neg hneeds, List.filter_nil, List.append_nil, h]

/-- The job that waits gets its result. -/
theorem finish (h : Progress needs jobs rs (some a)) (r : ρ) :
    Progress needs jobs (rs ++ [r]) none ∧
      outcomes needs jobs (rs ++ [r]) = outcomes needs jobs rs ++ [(a, some r)] := by
  cases h with
  | waiting before _ hjobs hneeds h =>
      subst hjobs
      have hbefore := outcomes_append h [a] []
      have hafter := outcomes_append h [a] [r]
      rw [List.append_nil, outcomes_cons_nil hneeds, List.append_nil] at hbefore
      rw [outcomes_cons_of_needs hneeds] at hafter
      refine ⟨.idle ?_, ?_⟩
      · rw [List.filter_append, List.filter_cons_of_pos hneeds, List.length_append,
          List.length_append, h]
        rfl
      · rw [hafter, hbefore]
        rfl

end Progress

end

/-! ## Several servers -/

/-- What belongs to the server `i`, in order. -/
def part {κ α : Type} [DecidableEq κ] (i : κ) (log : List (κ × α)) : List α :=
  log.filterMap fun x => if x.1 = i then some x.2 else none

/-- What the entries of a history give, each for its server. -/
def tagged {κ τ α : Type} (server : τ → κ) (f : τ → List α) (xs : List τ) : List (κ × α) :=
  xs.flatMap fun x => (f x).map fun a => (server x, a)

section

variable {κ τ β γ : Type} [DecidableEq κ]

@[simp] theorem part_append (i : κ) (log log' : List (κ × α)) :
    part i (log ++ log') = part i log ++ part i log' :=
  List.filterMap_append

theorem part_singleton_self (i : κ) (a : α) : part i [(i, a)] = [a] := by
  simp [part]

theorem part_singleton_other {i j : κ} (h : j ≠ i) (a : α) : part i [(j, a)] = [] := by
  simp [part, h]

theorem part_map (i : κ) (g : α → β) (log : List (κ × α)) :
    part i (log.map fun x => (x.1, g x.2)) = (part i log).map g := by
  rw [part, part, List.filterMap_map, List.map_filterMap]
  refine List.filterMap_congr fun x _ => ?_
  simp only [Function.comp_apply]
  split_ifs <;> rfl

/-- Logs are counted server by server. -/
theorem count_part [DecidableEq α] (i : κ) (a : α) (log : List (κ × α)) :
    (part i log).count a = log.count (i, a) := by
  induction log with
  | nil => rfl
  | cons x log ih =>
      obtain ⟨j, b⟩ := x
      rw [← List.singleton_append, part_append, List.count_append, List.count_append, ih]
      by_cases hj : j = i
      · subst hj
        rw [part_singleton_self]
        simp [List.count_singleton]
      · rw [part_singleton_other hj]
        simp [hj]

/-- A log is among another one when it is so for each server. -/
theorem subperm_of_part [DecidableEq α] {log log' : List (κ × α)}
    (h : ∀ i, (part i log).Subperm (part i log')) : log.Subperm log' := by
  refine List.subperm_ext_iff.mpr ?_
  rintro ⟨i, a⟩ -
  rw [← count_part, ← count_part]
  exact (h i).count_le a

theorem part_tagged (server : τ → κ) (f : τ → List α) (i : κ) (xs : List τ) :
    part i (tagged server f xs) = (xs.filter fun x => server x = i).flatMap f := by
  induction xs with
  | nil => rfl
  | cons x xs ih =>
      have hcons : tagged server f (x :: xs)
          = (f x).map (fun a => (server x, a)) ++ tagged server f xs := List.flatMap_cons
      rw [hcons, part_append, ih]
      by_cases hi : server x = i
      · rw [List.filter_cons_of_pos (by simpa using hi), List.flatMap_cons]
        simp [part, List.filterMap_map, hi]
      · rw [List.filter_cons_of_neg (by simpa using hi)]
        simp [part, List.filterMap_map, hi]

omit [DecidableEq κ] in
theorem tagged_snd (server : τ → κ) (f : τ → List α) (xs : List τ) :
    (tagged server f xs).map Prod.snd = xs.flatMap f := by
  rw [tagged, List.map_flatMap]
  simp [Function.comp_def]

/-- **What servers show in any order has its origins in what each has done.** When each server
shows some of the `g` of what it has done, in order, then the log of all servers is the `g` of one
list whose parts are what the servers have done. -/
theorem exists_origins {g : β → γ} {log : List (κ × γ)} {done : κ → List β}
    (h : ∀ i, part i log <+: (done i).map g) :
    ∃ as : List (κ × β), as.map (fun a => (a.1, g a.2)) = log ∧ ∀ i, part i as <+: done i := by
  induction log using List.reverseRecOn with
  | nil => exact ⟨[], rfl, fun i => List.nil_prefix⟩
  | append_singleton log x ih =>
      obtain ⟨j, c⟩ := x
      obtain ⟨as, rfl, has⟩ := ih fun i =>
        (part_append i log [(j, c)] ▸ List.prefix_append _ _).trans (h i)
      -- the server `j` has done one more than what it has shown
      obtain ⟨rest, hrest⟩ := has j
      have hnext := h j
      rw [part_append, part_map, part_singleton_self, ← hrest, List.map_append,
        List.prefix_append_right_inj] at hnext
      cases rest with
      | nil => exact absurd (List.prefix_nil.mp hnext) (List.cons_ne_nil _ _)
      | cons b rest =>
          obtain ⟨rfl, -⟩ := List.cons_prefix_cons.mp hnext
          refine ⟨as ++ [(j, b)], by rw [List.map_append]; rfl, fun i => ?_⟩
          by_cases hij : j = i
          · subst hij
            rw [part_append, part_singleton_self, ← hrest]
            exact (List.prefix_append_right_inj _).mpr (List.cons_prefix_cons.mpr ⟨rfl,
              List.nil_prefix⟩)
          · rw [part_append, part_singleton_other hij, List.append_nil]
            exact has i

/-- A part of a log is among what belongs to the server. -/
theorem part_sublist (i : κ) {log log' : List (κ × α)} (h : log.Sublist log') :
    (part i log).Sublist (part i log') :=
  h.filterMap _

/-- **Several servers.** Each server takes jobs and shows the `g` of its outcomes. What is shown
by all of them are outcomes of different jobs, in the order of each server. -/
theorem exists_outcomes [DecidableEq α] {needs : α → Bool} {jobs : List (κ × α)}
    {rs : κ → List ρ} {g : α × Option ρ → γ} {log : List (κ × γ)}
    (h : ∀ i, part i log <+: (outcomes needs (part i jobs) (rs i)).map g) :
    ∃ as : List (κ × (α × Option ρ)), as.map (fun a => (a.1, g a.2)) = log ∧
      (as.map fun a => a.2.1).Subperm (jobs.map Prod.snd) ∧
      ∀ i, part i as <+: outcomes needs (part i jobs) (rs i) := by
  obtain ⟨as, hlog, has⟩ := exists_origins h
  refine ⟨as, hlog, ?_, has⟩
  have hjobs : (as.map fun a => (a.1, a.2.1)).Subperm jobs := by
    refine subperm_of_part fun i => ?_
    rw [part_map]
    exact (((has i).map Prod.fst).trans (prefix_fst_outcomes _ _ _)).sublist.subperm
  obtain ⟨js, hperm, hsub⟩ := hjobs
  have hmap := hperm.map Prod.snd
  rw [List.map_map] at hmap
  exact ⟨js.map Prod.snd, hmap, hsub.map Prod.snd⟩

end

end Serial
