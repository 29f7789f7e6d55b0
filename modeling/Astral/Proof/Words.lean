import Astral.Construction.Machine

namespace Astral

variable {left right : Nat}

theorem wordSize_eq : wordSize = 2 ^ 64 := rfl

theorem addWord_eq (fits : left + right < wordSize) :
    addWord left right = left + right := Nat.mod_eq_of_lt fits

theorem subWord_eq (ordered : right ≤ left) (fits : left < wordSize) : subWord left right = left - right := by
  unfold subWord
  rw [show left + wordSize - right = left - right + wordSize by omega, Nat.add_mod_right, Nat.mod_eq_of_lt (by omega)]

theorem addWord_lt (left right : Nat) : addWord left right < wordSize := Nat.mod_lt _ (by decide)

theorem addWord_assoc (first second third : Nat) :
    addWord (addWord first second) third = addWord first (second + third) := by
  simp only [addWord, Nat.mod_add_mod, Nat.add_assoc]

/-- The number of pages up to the end of a range, of which a word has no more than the lower bits. -/
theorem toppage_eq (value : Nat) : roundUp value pageSize / pageSize = (value + 4095) / 4096 % 2 ^ 52 := by
  have word := wordSize_eq
  simp only [roundUp, roundDown, subWord, addWord, pageSize, word]
  omega

theorem toppage_small {value : Nat} (small : value < 2 ^ 63) :
    roundUp value pageSize / pageSize = (value + 4095) / 4096 := by
  rw [toppage_eq, Nat.mod_eq_of_lt (by omega)]

theorem signed_small {word : Nat} (small : word < 2 ^ 63) : signed word = word := by
  rw [signed, if_pos small]

theorem signed_large {word : Nat} (large : 2 ^ 63 ≤ word) : signed word = (word : Int) - 2 ^ 64 := by
  rw [signed, if_neg (Nat.not_lt.mpr large)]

/-- On small words the signed minimum is the minimum. -/
theorem minLong_small (one : left < 2 ^ 63) (two : right < 2 ^ 63) : minLong left right = min left right := by
  rw [minLong, signed_small one, signed_small two]
  split <;> omega

/-- A large word is a negative number and wins against a small one. -/
theorem minLong_left (large : 2 ^ 63 ≤ left) (bound : left < wordSize) (small : right < 2 ^ 63) :
    minLong left right = left := by
  have limit := wordSize_eq
  rw [minLong, signed_large large, signed_small small, if_neg (by omega)]

theorem minLong_right (small : left < 2 ^ 63) (large : 2 ^ 63 ≤ right) (bound : right < wordSize) :
    minLong left right = right := by
  have limit := wordSize_eq
  rw [minLong, signed_large large, signed_small small, if_pos (by omega)]

theorem minLong_large (one : 2 ^ 63 ≤ left) (two : 2 ^ 63 ≤ right) : minLong left right = min left right := by
  rw [minLong, signed_large one, signed_large two]
  split <;> omega

theorem minLong_idem (left right : Nat) : minLong left (minLong left right) = minLong left right := by
  by_cases less : signed left > signed right
  all_goals simp [minLong, less]

theorem minLong_lt {left right bound : Nat} (one : left < bound) (two : right < bound) : minLong left right < bound := by
  unfold minLong
  split
  · exact two
  · exact one

/-- The signed minimum is small only if both words are. -/
theorem minLong_ge (huge : 2 ^ 63 ≤ left ∨ 2 ^ 63 ≤ right) (one : left < wordSize) (two : right < wordSize) :
    2 ^ 63 ≤ minLong left right := by
  rcases Nat.lt_or_ge left (2 ^ 63) with small | large
  · rcases huge with wrong | huge
    · omega
    · rw [minLong_right small huge two]
      exact huge
  · rcases Nat.lt_or_ge right (2 ^ 63) with small | huge
    · rw [minLong_left large one small]
      exact large
    · rw [minLong_large large huge]
      omega

/-- A small signed minimum is the minimum of two small words. -/
theorem minLong_both (one : left < wordSize) (two : right < wordSize) (short : minLong left right < 2 ^ 63) :
    left < 2 ^ 63 ∧ right < 2 ^ 63 ∧ minLong left right = min left right := by
  by_cases huge : 2 ^ 63 ≤ left ∨ 2 ^ 63 ≤ right
  · have large := minLong_ge huge one two
    omega
  · have small : left < 2 ^ 63 ∧ right < 2 ^ 63 := by omega
    exact ⟨small.1, small.2, minLong_small small.1 small.2⟩

/-- A large count passes a small limit, and any other count is cut by it. -/
theorem minLong_limit {count limit : Nat} (bound : count < wordSize) (small : limit < 2 ^ 63) :
    minLong count limit < wordSize ∧
      (minLong count limit < 2 ^ 63 → count < 2 ^ 63 ∧ minLong count limit = min count limit) := by
  have word := wordSize_eq
  refine ⟨minLong_lt bound (by omega), ?_⟩
  intro short
  obtain ⟨less, _, same⟩ := minLong_both bound (by omega) short
  exact ⟨less, same⟩

section Flags

variable {width : Nat} {flag mask : BitVec width}

/-- Other flags do not count. -/
theorem hasFlag_or (clear : hasFlag mask flag = false) (flags : BitVec width) :
    hasFlag (flags ||| mask) flag = hasFlag flags flag := by
  have mask_clear : mask &&& flag = 0 := by simpa [hasFlag] using clear
  have distributed : (flags ||| mask) &&& flag = flags &&& flag ||| mask &&& flag := by
    ext index
    simp [Bool.and_or_distrib_right]
  unfold hasFlag
  rw [distributed, mask_clear]
  simp

theorem hasFlag_set (flags : BitVec width) (nonzero : flag ≠ 0) : hasFlag (flags ||| flag) flag = true := by
  have absorbed : (flags ||| flag) &&& flag = flag := by
    ext index
    rw [BitVec.getElem_and, BitVec.getElem_or]
    cases flag[index] <;> simp
  unfold hasFlag
  rw [absorbed]
  simpa using nonzero

theorem hasFlag_cleared (flags flag : BitVec width) : hasFlag (flags &&& ~~~flag) flag = false := by
  have nothing : flags &&& ~~~flag &&& flag = 0 := by
    ext index
    simp
  unfold hasFlag
  rw [nothing]
  simp

end Flags

end Astral
