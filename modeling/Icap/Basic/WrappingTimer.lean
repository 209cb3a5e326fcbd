import Mathlib.Tactic

set_option autoImplicit false

/-! # A timeout on a counter that wraps

A free-running counter of `bits` bits shows the true time modulo `2 ^ bits`. A wait reads it
at its start and then again and again, and ends at the first reading whose modular distance to
the first one has reached the timeout. The distance is the true elapsed time as long as that is
below `2 ^ bits`; and it is at every reading, as the reading before was within the timeout and
less than `2 ^ bits - timeout` lies between two readings.
-/

namespace WrappingTimer

variable {bits : Nat}

/-- The counter at the true time `t`. -/
def counterAt (bits t : Nat) : BitVec bits := BitVec.ofNat bits t

/-- The true time of the latest reading, or of the start. -/
def latest (start : Nat) (readings : List Nat) : Nat := readings.getLastD start

/-- `t` may be the time of the next reading. -/
def Next (timeout : BitVec bits) (start : Nat) (readings : List Nat) (t : Nat) : Prop :=
  latest start readings ≤ t ∧ t < latest start readings + (2 ^ bits - timeout.toNat)

instance (timeout : BitVec bits) (start : Nat) (readings : List Nat) (t : Nat) :
    Decidable (Next timeout start readings t) :=
  inferInstanceAs (Decidable (_ ∧ _))

/-- No reading has reached the timeout. -/
structure Running (timeout : BitVec bits) (start : Nat) (readings : List Nat) : Prop where
  start_le : start ≤ latest start readings
  within : ∀ t ∈ readings, t < start + timeout.toNat

theorem latest_snoc (start : Nat) (readings : List Nat) (t : Nat) :
    latest start (readings ++ [t]) = t := by
  simp [latest]

theorem latest_mem_or (start : Nat) (readings : List Nat) :
    latest start readings = start ∨ latest start readings ∈ readings := by
  cases h : readings.getLast? with
  | none =>
      rw [List.getLast?_eq_none_iff] at h
      exact Or.inl (by rw [h]; rfl)
  | some t =>
      refine Or.inr ?_
      rw [latest, List.getLastD_eq_getLast?, h]
      exact List.mem_of_getLast? h

/-- The modular distance of two readings is the true one when that is below `2 ^ bits`. -/
theorem toNat_counterAt_sub {start t : Nat} (hle : start ≤ t) (hlt : t < start + 2 ^ bits) :
    (counterAt bits t - counterAt bits start).toNat = t - start := by
  obtain ⟨d, rfl⟩ := Nat.exists_eq_add_of_le hle
  have hd : d < 2 ^ bits := by omega
  calc (counterAt bits (start + d) - counterAt bits start).toNat
      = (BitVec.ofNat bits d).toNat := by
        rw [counterAt, counterAt, BitVec.ofNat_add, BitVec.add_comm, BitVec.add_sub_cancel]
    _ = d := by rw [BitVec.toNat_ofNat, Nat.mod_eq_of_lt hd]
    _ = start + d - start := (Nat.add_sub_cancel_left _ _).symm

section

variable {timeout : BitVec bits} {start t : Nat} {readings : List Nat}

theorem Running.nil : Running timeout start [] := ⟨le_rfl, nofun⟩

/-- The latest reading found the time not over, so the true time is still within one turn of
the counter at the next. -/
theorem Running.next_lt (h : Running timeout start readings)
    (hnext : Next timeout start readings t) : start ≤ t ∧ t < start + 2 ^ bits := by
  have htimeout := timeout.isLt
  obtain ⟨hle, hlt⟩ := hnext
  refine ⟨h.start_le.trans hle, ?_⟩
  rcases latest_mem_or start readings with heq | hmem
  · omega
  · have := h.within _ hmem
    omega

/-- **The test is exact.** At the next reading the modular distance is below the timeout
exactly when the true elapsed time is. -/
theorem Running.test_iff (h : Running timeout start readings)
    (hnext : Next timeout start readings t) :
    counterAt bits t - counterAt bits start < timeout ↔ t < start + timeout.toNat := by
  obtain ⟨hle, hlt⟩ := h.next_lt hnext
  rw [BitVec.lt_def, toNat_counterAt_sub hle hlt]
  omega

theorem Running.snoc (h : Running timeout start readings)
    (hnext : Next timeout start readings t)
    (htest : counterAt bits t - counterAt bits start < timeout) :
    Running timeout start (readings ++ [t]) where
  start_le := by
    rw [latest_snoc]
    exact h.start_le.trans hnext.1
  within := by
    intro t' ht'
    rcases List.mem_append.mp ht' with ht' | ht'
    · exact h.within _ ht'
    · rw [List.mem_singleton.mp ht']
      exact (h.test_iff hnext).mp htest

end

end WrappingTimer
