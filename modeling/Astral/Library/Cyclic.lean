import Mathlib.Tactic

namespace Astral.Library

variable {size start index : Nat}

/-- A cyclic store keeps the item with the given index after a start in this slot. -/
def slot (size start index : Nat) : Nat := (start + index) % size

theorem slot_lt (positive : 0 < size) (start index : Nat) : slot size start index < size :=
  Nat.mod_lt _ positive

theorem slot_add (size start first second : Nat) :
    slot size (start + first) second = slot size start (first + second) := by
  simp only [slot, Nat.add_assoc]

/-- The slots before the end of the store come first and the others continue at its beginning. -/
theorem slot_low (below : start % size + index < size) : slot size start index = start % size + index := by
  rw [slot, Nat.add_mod, Nat.mod_eq_of_lt (show index < size by omega), Nat.mod_eq_of_lt below]

theorem slot_high (above : size ≤ start % size + index) (within : index < size) :
    slot size start index = start % size + index - size := by
  have bound : start % size < size := Nat.mod_lt _ (by omega)
  rw [slot, Nat.add_mod, Nat.mod_eq_of_lt within, Nat.mod_eq_sub_mod above, Nat.mod_eq_of_lt (by omega)]

/-- Indices of one turn have different slots. -/
theorem slot_inj {first second : Nat} (one : first < size) (two : second < size)
    (same : slot size start first = slot size start second) : first = second := by
  have equal : first ≡ second [MOD size] := Nat.ModEq.add_left_cancel' start same
  exact Nat.ModEq.eq_of_lt_of_lt equal one two

/-- Behind the free slots come the used ones again. -/
theorem slot_wrap {used : Nat} (within : used ≤ size) (start index : Nat) :
    slot size (start + used) (size - used + index) = slot size start index := by
  rw [slot, slot, show start + used + (size - used + index) = start + index + size by omega, Nat.add_mod_right]

end Astral.Library
