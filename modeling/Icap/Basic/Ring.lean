import Mathlib.Tactic

set_option autoImplicit false

/-! # Ring buffers

A ring of `Q` slots whose indices `head` and `tail` name the slot last written and the slot
last consumed. It is empty when they agree, and full when the slot after `head` is `tail`, so
it holds at most `Q - 1` elements. `contents` is the queue it stands for; the file relates the
index operations to the list operations on it.
-/

namespace RingBuffer

structure Ring (α : Type) where
  head : Nat
  tail : Nat
  slot : Nat → α

/-- The slot after slot `i`. -/
def next (Q i : Nat) : Nat := if i + 1 ≥ Q then 0 else i + 1

/-- The slot `i + 1` places after slot `t`. -/
def index (Q t i : Nat) : Nat := if t + 1 + i < Q then t + 1 + i else t + 1 + i - Q

namespace Ring

variable {α : Type} {Q : Nat} {r : Ring α}

/-- The number of elements held. -/
def count (Q : Nat) (r : Ring α) : Nat :=
  if r.tail ≤ r.head then r.head - r.tail else r.head + Q - r.tail

/-- The elements held, oldest first. -/
def contents (Q : Nat) (r : Ring α) : List α :=
  (List.range (r.count Q)).map fun i => r.slot (index Q r.tail i)

/-- Both indices name slots. -/
structure Valid (Q : Nat) (r : Ring α) : Prop where
  head_lt : r.head < Q
  tail_lt : r.tail < Q

/-- Write a slot. -/
def write (r : Ring α) (i : Nat) (a : α) : Ring α :=
  { r with slot := Function.update r.slot i a }

/-- Write the slot after `head` and publish it. -/
def push (Q : Nat) (r : Ring α) (a : α) : Ring α :=
  { r.write (next Q r.head) a with head := next Q r.head }

/-- Publish the consumption of the slot after `tail`. -/
def pop (Q : Nat) (r : Ring α) : Ring α := { r with tail := next Q r.tail }

theorem next_lt {i : Nat} (hQ : 0 < Q) : next Q i < Q := by
  unfold next
  split_ifs <;> omega

theorem Valid.count_lt (h : Valid Q r) : r.count Q < Q := by
  have h1 := h.head_lt
  have h2 := h.tail_lt
  unfold count
  split_ifs <;> omega

@[simp] theorem contents_length : (r.contents Q).length = r.count Q := by
  simp [contents]

/-! ## Empty and full -/

theorem Valid.count_eq_zero (h : Valid Q r) : r.count Q = 0 ↔ r.tail = r.head := by
  have h1 := h.head_lt
  have h2 := h.tail_lt
  unfold count
  split_ifs <;> omega

theorem Valid.contents_eq_nil (h : Valid Q r) : r.contents Q = [] ↔ r.tail = r.head := by
  rw [← h.count_eq_zero, ← contents_length, List.length_eq_zero_iff]

/-- The full test: the slot after `head` is `tail` exactly when `Q - 1` elements are held. -/
theorem Valid.next_head_eq_tail (h : Valid Q r) :
    next Q r.head = r.tail ↔ r.count Q + 1 = Q := by
  have h1 := h.head_lt
  have h2 := h.tail_lt
  unfold next count
  split_ifs <;> omega

/-! ## Consuming -/

theorem Valid.pop (h : Valid Q r) : Valid Q (r.pop Q) where
  head_lt := h.head_lt
  tail_lt := next_lt (by have := h.head_lt; omega)

theorem Valid.count_pop (h : Valid Q r) (hne : r.tail ≠ r.head) :
    r.count Q = (r.pop Q).count Q + 1 := by
  have h1 := h.head_lt
  have h2 := h.tail_lt
  simp only [Ring.pop, count, next]
  split_ifs <;> omega

/-- The oldest element is in the slot after `tail`; consuming it leaves the others. -/
theorem Valid.contents_cons (h : Valid Q r) (hne : r.tail ≠ r.head) :
    r.contents Q = r.slot (next Q r.tail) :: (r.pop Q).contents Q := by
  have h1 := h.head_lt
  have h2 := h.tail_lt
  rw [contents, h.count_pop hne, List.range_succ_eq_map, List.map_cons, List.map_map]
  congr 1
  · congr 1
    simp only [index, next]
    split_ifs <;> omega
  · apply List.map_congr_left
    intro i hi
    have hlt := h.count_lt
    rw [h.count_pop hne] at hlt
    have hi' := List.mem_range.mp hi
    simp only [Function.comp_apply, Ring.pop]
    congr 1
    simp only [index, next]
    split_ifs <;> omega

/-! ## Writing -/

/-- The slot after `head` is the first one past the held elements. -/
theorem Valid.index_count (h : Valid Q r) : index Q r.tail (r.count Q) = next Q r.head := by
  have h1 := h.head_lt
  have h2 := h.tail_lt
  unfold count index next
  split_ifs <;> omega

theorem Valid.index_ne {i : Nat} (h : Valid Q r) (hi : i < r.count Q) :
    index Q r.tail i ≠ next Q r.head := by
  have h2 := h.tail_lt
  have h3 := h.count_lt
  rw [← h.index_count]
  unfold index
  split_ifs <;> omega

/-- Writing the slot after `head` does not touch a held element. -/
theorem Valid.contents_write (h : Valid Q r) (a : α) :
    (r.write (next Q r.head) a).contents Q = r.contents Q := by
  apply List.map_congr_left
  intro i hi
  exact Function.update_of_ne (h.index_ne (List.mem_range.mp hi)) _ _

/-- Slots have different successors. -/
theorem next_inj {i j : Nat} (hi : i < Q) (hj : j < Q) (h : next Q i = next Q j) : i = j := by
  unfold next at h
  split_ifs at h <;> omega

/-- Writing the slot after `head` does not touch the oldest element. -/
theorem Valid.slot_write (h : Valid Q r) (hne : r.tail ≠ r.head) (a : α) :
    (r.write (next Q r.head) a).slot (next Q r.tail) = r.slot (next Q r.tail) := by
  apply Function.update_of_ne
  intro heq
  exact hne (next_inj h.tail_lt h.head_lt heq)

theorem Valid.write (h : Valid Q r) (i : Nat) (a : α) : Valid Q (r.write i a) :=
  ⟨h.head_lt, h.tail_lt⟩

theorem Valid.push (h : Valid Q r) (a : α) : Valid Q (r.push Q a) where
  head_lt := next_lt (by have := h.head_lt; omega)
  tail_lt := h.tail_lt

/-- Publishing a written slot appends its element. -/
theorem Valid.contents_publish (h : Valid Q r) (hroom : next Q r.head ≠ r.tail) :
    ({ r with head := next Q r.head } : Ring α).contents Q
      = r.contents Q ++ [r.slot (next Q r.head)] := by
  have h1 := h.head_lt
  have h2 := h.tail_lt
  have hcount : ({ r with head := next Q r.head } : Ring α).count Q = r.count Q + 1 := by
    revert hroom
    simp only [count, next]
    split_ifs <;> omega
  calc ({ r with head := next Q r.head } : Ring α).contents Q
      = (List.range (r.count Q + 1)).map fun i => r.slot (index Q r.tail i) := by
        rw [contents, hcount]
    _ = r.contents Q ++ [r.slot (index Q r.tail (r.count Q))] := by
        rw [List.range_succ, List.map_append, List.map_singleton, contents]
    _ = r.contents Q ++ [r.slot (next Q r.head)] := by rw [h.index_count]

theorem Valid.contents_push (h : Valid Q r) (hroom : next Q r.head ≠ r.tail) (a : α) :
    (r.push Q a).contents Q = r.contents Q ++ [a] := by
  calc (r.push Q a).contents Q
      = (r.write (next Q r.head) a).contents Q
          ++ [(r.write (next Q r.head) a).slot (next Q r.head)] :=
        (h.write (next Q r.head) a).contents_publish hroom
    _ = r.contents Q ++ [a] := by
        rw [h.contents_write]
        simp only [Ring.write, Function.update_self]

end Ring

end RingBuffer
