import Mathlib.Tactic

set_option autoImplicit false

/-! # Byte memory

A memory is a function from addresses to bytes, so that code reading past the end of a
buffer still reads something. The file has the block copy, 32-bit little-endian words and
the predicate `Holds`: the memory starts with a given list of bytes.
-/

namespace ByteMemory

abbrev Byte := BitVec 8

abbrev Mem := Nat → Byte

/-- The `n` bytes from address `off` on. -/
def block (m : Mem) (off n : Nat) : List Byte := (List.range n).map fun i => m (off + i)

/-- `memcpy(dst, src, n)`. -/
def copy (dst src : Mem) (n : Nat) : Mem := fun i => if i < n then src i else dst i

/-- The 32-bit word at `off`, least significant byte first. -/
def load32 (m : Mem) (off : Nat) : BitVec 32 :=
  BitVec.ofNat 32 ((m off).toNat + 2 ^ 8 * (m (off + 1)).toNat + 2 ^ 16 * (m (off + 2)).toNat
    + 2 ^ 24 * (m (off + 3)).toNat)

/-- The four bytes of a word, least significant byte first. -/
def word32 (v : BitVec 32) : List Byte :=
  [BitVec.ofNat 8 v.toNat, BitVec.ofNat 8 (v.toNat / 2 ^ 8), BitVec.ofNat 8 (v.toNat / 2 ^ 16),
    BitVec.ofNat 8 (v.toNat / 2 ^ 24)]

/-- The memory starts with the bytes `l`. -/
def Holds (m : Mem) (l : List Byte) : Prop := ∀ i, i < l.length → l[i]? = some (m i)

/-- The memory that starts with `l` and is zero after it. -/
def ofList (l : List Byte) : Mem := fun i => (l[i]?).getD 0

@[simp] theorem block_length (m : Mem) (off n : Nat) : (block m off n).length = n := by
  simp [block]

@[simp] theorem word32_length (v : BitVec 32) : (word32 v).length = 4 := rfl

theorem block_succ (m : Mem) (off n : Nat) :
    block m off (n + 1) = m off :: block m (off + 1) n := by
  simp only [block, List.range_succ_eq_map, List.map_cons, List.map_map, Nat.add_zero]
  congr 1
  apply List.map_congr_left
  intro i _
  simp only [Function.comp_apply]
  congr 1
  omega

theorem block_congr {m m' : Mem} {off off' n : Nat} (h : ∀ i, i < n → m (off + i) = m' (off' + i)) :
    block m off n = block m' off' n :=
  List.map_congr_left fun i hi => h i (List.mem_range.mp hi)

theorem block_add (m : Mem) (off n n' : Nat) :
    block m off (n + n') = block m off n ++ block m (off + n) n' := by
  simp only [block, List.range_add, List.map_append, List.map_map, Function.comp_def,
    Nat.add_assoc]

/-! ## Words -/

theorem load32_congr {m m' : Mem} {off off' : Nat}
    (h : ∀ i, i < 4 → m (off + i) = m' (off' + i)) : load32 m off = load32 m' off' := by
  have h0 := h 0 (by omega)
  have h1 := h 1 (by omega)
  have h2 := h 2 (by omega)
  have h3 := h 3 (by omega)
  simp only [Nat.add_zero] at h0
  simp only [load32, h0, h1, h2, h3]

theorem load32_toNat (m : Mem) (off : Nat) :
    (load32 m off).toNat = (m off).toNat + 2 ^ 8 * (m (off + 1)).toNat
      + 2 ^ 16 * (m (off + 2)).toNat + 2 ^ 24 * (m (off + 3)).toNat := by
  have h0 := (m off).isLt
  have h1 := (m (off + 1)).isLt
  have h2 := (m (off + 2)).isLt
  have h3 := (m (off + 3)).isLt
  rw [load32, BitVec.toNat_ofNat]
  exact Nat.mod_eq_of_lt (by omega)

/-- The lowest byte of a word is the first. -/
theorem load32_low (m : Mem) (off : Nat) : (load32 m off).toNat % 2 ^ 8 = (m off).toNat := by
  have h0 := (m off).isLt
  rw [load32_toNat]
  omega

/-- The higher bytes of a small word are zero. -/
theorem eq_zero_of_load32_lt {m : Mem} {off i : Nat} (h : (load32 m off).toNat < 2 ^ 8)
    (hlow : off < i) (hhigh : i < off + 4) : m i = 0 := by
  rw [load32_toNat] at h
  apply BitVec.eq_of_toNat_eq
  have hzero : (0 : Byte).toNat = 0 := rfl
  rw [hzero]
  obtain rfl | rfl | rfl : i = off + 1 ∨ i = off + 2 ∨ i = off + 3 := by omega
  all_goals omega

theorem eq_zero_of_load32 {m : Mem} {off i : Nat} (h : load32 m off = 0) (hlow : off ≤ i)
    (hhigh : i < off + 4) : m i = 0 := by
  have hlt : (load32 m off).toNat < 2 ^ 8 := by
    rw [h]
    decide
  rcases Nat.eq_or_lt_of_le hlow with rfl | hlt'
  · have hm := load32_low m off
    rw [h] at hm
    exact BitVec.eq_of_toNat_eq hm.symm
  · exact eq_zero_of_load32_lt hlt hlt' hhigh

/-- Reading back the four bytes of a word gives the word. -/
theorem load32_word32 {m : Mem} {off : Nat} {v : BitVec 32} (h : block m off 4 = word32 v) :
    load32 m off = v := by
  simp only [block_succ, word32, List.cons.injEq] at h
  obtain ⟨h0, h1, h2, h3, -⟩ := h
  apply BitVec.eq_of_toNat_eq
  have hv := v.isLt
  simp only [load32, h0, h1, h2, h3, BitVec.toNat_ofNat]
  omega

/-- Writing a word that was read gives the bytes it was read from. -/
theorem word32_load32 (m : Mem) (off : Nat) : word32 (load32 m off) = block m off 4 := by
  have h0 := (m off).isLt
  have h1 := (m (off + 1)).isLt
  have h2 := (m (off + 2)).isLt
  have h3 := (m (off + 3)).isLt
  have hbyte (b : Byte) (n : Nat) (h : n % 2 ^ 8 = b.toNat) : BitVec.ofNat 8 n = b :=
    BitVec.eq_of_toNat_eq (by rw [BitVec.toNat_ofNat, h])
  simp only [block_succ, word32, load32_toNat, Nat.add_assoc, Nat.reduceAdd]
  rw [hbyte (m off) _ (by omega), hbyte (m (off + 1)) _ (by omega),
    hbyte (m (off + 2)) _ (by omega), hbyte (m (off + 3)) _ (by omega)]
  rfl

theorem load32_eq_iff {m : Mem} {off : Nat} {v : BitVec 32} :
    load32 m off = v ↔ block m off 4 = word32 v := by
  constructor
  · rintro rfl
    exact (word32_load32 m off).symm
  · exact load32_word32

/-- The sign of a word is in its last byte. -/
theorem load32_toInt_neg (m : Mem) (off : Nat) :
    (load32 m off).toInt < 0 ↔ 128 ≤ (m (off + 3)).toNat := by
  have h0 := (m off).isLt
  have h1 := (m (off + 1)).isLt
  have h2 := (m (off + 2)).isLt
  rw [BitVec.toInt_neg_iff, load32_toNat]
  omega

/-! ## Copies -/

@[simp] theorem copy_zero (dst src : Mem) : copy dst src 0 = dst := by
  funext i
  simp [copy]

theorem copy_lt {dst src : Mem} {n i : Nat} (h : i < n) : copy dst src n i = src i := by
  simp [copy, h]

theorem load32_copy {dst src : Mem} {n off : Nat} (h : off + 4 ≤ n) :
    load32 (copy dst src n) off = load32 src off :=
  load32_congr fun _ hi => copy_lt (by omega)

/-! ## Memories that start with given bytes -/

theorem holds_ofList (l : List Byte) : Holds (ofList l) l := by
  intro i hi
  simp [ofList, List.getElem?_eq_getElem hi]

theorem holds_iff_block {m : Mem} {l : List Byte} : Holds m l ↔ block m 0 l.length = l := by
  constructor
  · intro h
    apply List.ext_getElem?
    intro i
    by_cases hi : i < l.length
    · rw [h i hi]
      simp [block, hi]
    · simp [block, hi]
  · intro h i hi
    rw [← h]
    simp [block, hi]

/-- The bytes of a part of the held list, read back from its address. -/
theorem Holds.block_mid {m : Mem} {pre mid post : List Byte} (h : Holds m (pre ++ mid ++ post)) :
    block m pre.length mid.length = mid := by
  apply List.ext_getElem?
  intro i
  by_cases hi : i < mid.length
  · have hm := h (pre.length + i) (by simp only [List.length_append]; omega)
    rw [List.append_assoc, List.getElem?_append_right (by omega), Nat.add_sub_cancel_left,
      List.getElem?_append_left hi] at hm
    rw [hm]
    simp [block, hi]
  · simp [block, hi]

theorem Holds.load32_mid {m : Mem} {pre post : List Byte} {v : BitVec 32}
    (h : Holds m (pre ++ word32 v ++ post)) : load32 m pre.length = v :=
  load32_word32 h.block_mid

theorem Holds.copy {dst src : Mem} {l : List Byte} {n : Nat} (h : Holds src l)
    (hn : l.length ≤ n) : Holds (copy dst src n) l := by
  intro i hi
  rw [h i hi, copy_lt (by omega)]

end ByteMemory
