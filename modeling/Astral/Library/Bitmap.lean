import Mathlib.Tactic

namespace Astral.Library

variable {index size : Nat} {before after member : Nat → Prop}

/-- The bits behind the last byte count as set. -/
def bit (bytes : List (BitVec 8)) (index : Nat) : Bool :=
  (bytes.getD (index / 8) (BitVec.allOnes 8)).getLsbD (index % 8)

def setBit (bytes : List (BitVec 8)) (place offset : Nat) : List (BitVec 8) :=
  bytes.modify place (· ||| 1#8 <<< offset)

def clearBit (bytes : List (BitVec 8)) (place offset : Nat) : List (BitVec 8) :=
  bytes.modify place (· &&& ~~~(1#8 <<< offset))

section Bits

variable {bytes : List (BitVec 8)} {place offset : Nat}

@[simp] theorem setBit_length : (setBit bytes place offset).length = bytes.length := List.length_modify ..

@[simp] theorem clearBit_length : (clearBit bytes place offset).length = bytes.length := List.length_modify ..

theorem getD_modify (change : BitVec 8 → BitVec 8) (other : Nat) (inside : place < bytes.length) :
    (bytes.modify place change).getD other (BitVec.allOnes 8) =
      if other = place then change (bytes.getD place (BitVec.allOnes 8))
      else bytes.getD other (BitVec.allOnes 8) := by
  rw [List.getD_eq_getElem?_getD, List.getElem?_modify]
  by_cases same : place = other
  · subst same
    simp [inside]
  · have different : other ≠ place := fun equal => same equal.symm
    simp [same, different]

theorem getLsbD_mask (within : index < 8) : (1#8 <<< offset).getLsbD index = decide (index = offset) := by
  rw [BitVec.getLsbD_shiftLeft, BitVec.getLsbD_one]
  grind

theorem bit_setBit (inside : place < bytes.length) (small : offset < 8) (index : Nat) :
    bit (setBit bytes place offset) index = (decide (index = 8 * place + offset) || bit bytes index) := by
  unfold bit setBit
  rw [getD_modify _ _ inside]
  have within : index % 8 < 8 := Nat.mod_lt index (by decide)
  by_cases same : index / 8 = place
  · rw [if_pos same, ← same]
    have place_iff : index % 8 = offset ↔ index = 8 * (index / 8) + offset := by omega
    rw [BitVec.getLsbD_or, getLsbD_mask within, Bool.or_comm, decide_eq_decide.mpr place_iff]
  · have different : ¬ index = 8 * place + offset := by omega
    simp [same, different]

theorem bit_clearBit (inside : place < bytes.length) (small : offset < 8) (index : Nat) :
    bit (clearBit bytes place offset) index = (!decide (index = 8 * place + offset) && bit bytes index) := by
  unfold bit clearBit
  rw [getD_modify _ _ inside]
  have within : index % 8 < 8 := Nat.mod_lt index (by decide)
  by_cases same : index / 8 = place
  · rw [if_pos same, ← same]
    have place_iff : index % 8 = offset ↔ index = 8 * (index / 8) + offset := by omega
    rw [BitVec.getLsbD_and, BitVec.getLsbD_not, getLsbD_mask within, decide_eq_true within, Bool.true_and,
      Bool.and_comm, decide_eq_decide.mpr place_iff]
  · have different : ¬ index = 8 * place + offset := by omega
    simp [same, different]

/-- Bytes are the same when their bits are. -/
theorem bytes_ext {other : List (BitVec 8)} (lengths : bytes.length = other.length)
    (bits : ∀ index, bit bytes index = bit other index) : bytes = other := by
  apply List.ext_getElem lengths
  intro index inside _
  apply BitVec.eq_of_getLsbD_eq
  intro low small
  have same := bits (8 * index + low)
  have place_eq : (8 * index + low) / 8 = index := by omega
  have offset_eq : (8 * index + low) % 8 = low := by omega
  simpa [bit, place_eq, offset_eq, inside, lengths ▸ inside] using same

theorem clearBit_setBit (inside : place < bytes.length) (small : offset < 8)
    (clear : bit bytes (8 * place + offset) = false) : clearBit (setBit bytes place offset) place offset = bytes := by
  apply bytes_ext
  · simp
  · intro index
    rw [bit_clearBit (by simpa using inside) small, bit_setBit inside small]
    by_cases same : index = 8 * place + offset
    · simp [same, clear]
    · simp [same]

end Bits

/-- Taking one member away lowers the count by one. -/
theorem count_remove [DecidablePred before] [DecidablePred after] (inside : index < size) (member : before index)
    (changed : ∀ other < size, after other ↔ before other ∧ other ≠ index) :
    Nat.count before size = Nat.count after size + 1 := by
  rw [Nat.count_eq_card_filter_range, Nat.count_eq_card_filter_range]
  have erased : (Finset.range size).filter after = ((Finset.range size).filter before).erase index := by
    ext other
    simp only [Finset.mem_filter, Finset.mem_range, Finset.mem_erase]
    constructor
    · rintro ⟨small, kept⟩
      obtain ⟨was, different⟩ := (changed other small).mp kept
      exact ⟨different, small, was⟩
    · rintro ⟨different, small, was⟩
      exact ⟨small, (changed other small).mpr ⟨was, different⟩⟩
  have present : index ∈ (Finset.range size).filter before := by
    simp [inside, member]
  rw [erased, Finset.card_erase_add_one present]

theorem count_congr [DecidablePred before] [DecidablePred after] (same : ∀ index < size, after index ↔ before index) :
    Nat.count after size = Nat.count before size := by
  rw [Nat.count_eq_card_filter_range, Nat.count_eq_card_filter_range]
  congr 1
  apply Finset.filter_congr
  intro index member
  exact same index (Finset.mem_range.mp member)

/-- A sum with one summand that is higher by one. -/
theorem sum_range_remove {before after : Nat → Nat} (inside : index < size) (lower : before index = after index + 1)
    (same : ∀ other, other ≠ index → before other = after other) :
    ∑ other ∈ Finset.range size, before other = ∑ other ∈ Finset.range size, after other + 1 := by
  have member : index ∈ Finset.range size := Finset.mem_range.mpr inside
  rw [← Finset.add_sum_erase _ before member, ← Finset.add_sum_erase _ after member, lower]
  have rest : ∑ other ∈ (Finset.range size).erase index, before other =
      ∑ other ∈ (Finset.range size).erase index, after other := by
    apply Finset.sum_congr rfl
    intro other erased
    exact same other (Finset.ne_of_mem_erase erased)
  rw [rest]
  omega

/-- The counts of the parts of a range add up to the count of the range. -/
theorem sum_count (member : Nat → Nat → Prop) [∀ part, DecidablePred (member part)] (size parts : Nat) :
    ∑ part ∈ Finset.range parts, Nat.count (member part) size =
      Nat.count (fun place => member (place / size) (place % size)) (parts * size) := by
  induction parts with
  | zero => simp
  | succ parts ih =>
    rw [Finset.sum_range_succ, ih, Nat.add_mul, Nat.one_mul, Nat.count_add]
    congr 1
    apply count_congr
    intro index small
    have positive : 0 < size := Nat.zero_lt_of_lt small
    rw [Nat.mul_comm parts size, Nat.mul_add_div positive, Nat.mul_add_mod, Nat.div_eq_of_lt small,
      Nat.mod_eq_of_lt small, Nat.add_zero]

/-- A set whose members lie below a bound has at most as many members. -/
theorem count_le_bound [DecidablePred member] {bound : Nat} (below : ∀ index < size, member index → index < bound) :
    Nat.count member size ≤ bound := by
  rw [Nat.count_eq_card_filter_range]
  calc ((Finset.range size).filter member).card ≤ (Finset.range bound).card := by
        apply Finset.card_le_card
        intro index inside
        obtain ⟨small, holds⟩ := Finset.mem_filter.mp inside
        exact Finset.mem_range.mpr (below index (Finset.mem_range.mp small) holds)
    _ = bound := Finset.card_range bound

/-- A count is zero when nothing is counted. -/
theorem count_eq_zero [DecidablePred member] : Nat.count member size = 0 ↔ ∀ index < size, ¬ member index := by
  rw [Nat.count_eq_card_filter_range, Finset.card_eq_zero, Finset.filter_eq_empty_iff]
  simp [Finset.mem_range]

end Astral.Library
