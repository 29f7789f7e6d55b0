import Mathlib.Tactic

namespace Astral.Library

open Function

section Exchange

variable {A : Type} {items : List A} {index : Nat}

/-- One item is exchanged for another one in a count. -/
theorem countP_exchange {old : A} (found : items[index]? = some old) (new : A) (test : A → Bool) :
    (items.set index new).countP test + (if test old then 1 else 0) =
      items.countP test + if test new then 1 else 0 := by
  obtain ⟨within, here⟩ := List.getElem?_eq_some_iff.mp found
  have counted : (if test old then 1 else 0) ≤ items.countP test := by
    split
    · next holds => exact List.countP_pos_iff.mpr ⟨old, List.mem_of_getElem? found, holds⟩
    · exact Nat.zero_le _
  rw [List.countP_set within, here]
  omega

section

variable {old new : A} (found : items[index]? = some old)
include found

/-- Both items pass a test or both fail it. -/
theorem countP_same {test : A → Bool} (same : test new = test old) :
    (items.set index new).countP test = items.countP test := by
  have counted := countP_exchange found new test
  rw [same] at counted
  omega

/-- Only the new item passes a test. -/
theorem countP_more {test : A → Bool} (failed : test old = false) (passes : test new = true) :
    (items.set index new).countP test = items.countP test + 1 := by
  have counted := countP_exchange found new test
  rw [failed, passes, if_neg (by simp), if_pos rfl] at counted
  exact counted

/-- Only the old item passes a test. -/
theorem countP_less {test : A → Bool} (passed : test old = true) (fails : test new = false) :
    (items.set index new).countP test + 1 = items.countP test := by
  have counted := countP_exchange found new test
  rw [passed, fails, if_pos rfl, if_neg (by simp)] at counted
  exact counted

end

/-- One item is exchanged for another one with the same property. -/
theorem forall_exchange {property : A → Prop} (all : ∀ item ∈ items, property item) {new : A} (holds : property new) :
    ∀ item ∈ items.set index new, property item := by
  intro item member
  rcases List.mem_or_eq_of_mem_set member with old | same
  · exact all item old
  · rw [same]
    exact holds

/-- One item with a property is added. -/
theorem forall_added {property : A → Prop} (all : ∀ item ∈ items, property item) {new : A} (holds : property new) :
    ∀ item ∈ items ++ [new], property item := by
  intro item member
  rcases List.mem_append.mp member with old | last
  · exact all item old
  · rw [List.mem_singleton.mp last]
    exact holds

/-- One item is exchanged for another one in a sum. -/
theorem sum_exchange {old : A} (found : items[index]? = some old) (new : A) (weight : A → Nat) :
    ((items.set index new).map weight).sum + weight old = (items.map weight).sum + weight new := by
  induction items generalizing index with
  | nil => cases found
  | cons first rest continues =>
    cases index with
    | zero =>
      cases found
      simp only [List.set_cons_zero, List.map_cons, List.sum_cons]
      omega
    | succ index =>
      have later := continues found
      simp only [List.set_cons_succ, List.map_cons, List.sum_cons]
      omega

end Exchange

/-- One list is exchanged for another one in a sum of lengths. -/
theorem sum_length_exchange {I P : Type} [DecidableEq I] {lists : Finset I} {list : I} (inside : list ∈ lists)
    (members : I → List P) (new : List P) :
    (∑ next ∈ lists, (update members list new next).length) + (members list).length =
      (∑ next ∈ lists, (members next).length) + new.length := by
  have others : ∑ next ∈ lists.erase list, (update members list new next).length =
      ∑ next ∈ lists.erase list, (members next).length := by
    apply Finset.sum_congr rfl
    intro next member
    rw [update_of_ne (Finset.ne_of_mem_erase member)]
  rw [← Finset.add_sum_erase _ _ inside, ← Finset.add_sum_erase lists (fun next => (members next).length) inside, others,
    update_self]
  omega

end Astral.Library
