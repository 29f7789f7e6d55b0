import Mathlib.Logic.Function.Basic

namespace Astral.Library

/-- The links lead from a pointer over the listed items to the null pointer. -/
def Threads {P : Type} (next : P → Option P) : Option P → List P → Prop
  | head, [] => head = none
  | head, item :: rest => head = some item ∧ Threads next (next item) rest

variable {P : Type} {next : P → Option P} {head : Option P} {items : List P}

/-- Only the links of the items count. -/
theorem Threads.congr {other : P → Option P} (threads : Threads next head items)
    (agree : ∀ item ∈ items, other item = next item) : Threads other head items := by
  induction items generalizing head with
  | nil => exact threads
  | cons item rest ih =>
    refine ⟨threads.1, ?_⟩
    rw [agree item List.mem_cons_self]
    exact ih threads.2 fun later member => agree later (List.mem_cons_of_mem _ member)

/-- The link of an item that is not listed may change. -/
theorem Threads.update [DecidableEq P] (threads : Threads next head items) {item : P} (outside : item ∉ items)
    (link : Option P) : Threads (Function.update next item link) head items := by
  apply threads.congr
  intro other member
  apply Function.update_of_ne
  intro same
  rw [same] at member
  exact outside member

/-- A new item is put in front. -/
theorem Threads.push [DecidableEq P] (threads : Threads next head items) {item : P} (outside : item ∉ items) :
    Threads (Function.update next item head) (some item) (item :: items) := by
  refine ⟨rfl, ?_⟩
  rw [Function.update_self]
  exact threads.update outside head

/-- An item is taken out behind another one. -/
theorem Threads.remove [DecidableEq P] {before after : List P} {last item : P}
    (threads : Threads next head (before ++ last :: item :: after)) (distinct : (before ++ last :: item :: after).Nodup) :
    Threads (Function.update next last (next item)) head (before ++ last :: after) := by
  induction before generalizing head with
  | nil =>
    refine ⟨threads.1, ?_⟩
    rw [Function.update_self]
    exact threads.2.2.update (by simp_all) _
  | cons first rest ih =>
    refine ⟨threads.1, ?_⟩
    rw [Function.update_of_ne (by rintro rfl; simp at distinct)]
    exact ih threads.2 distinct.of_cons

end Astral.Library
