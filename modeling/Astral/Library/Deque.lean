import Mathlib.Tactic

namespace Astral.Library

open Function

/-- A doubly linked list with a pointer to each of its ends. -/
structure Deque (P : Type) where
  head : Option P
  tail : Option P
  next : P → Option P
  prev : P → Option P

namespace Deque

variable {P : Type}

def empty : Deque P where
  head := none
  tail := none
  next _ := none
  prev _ := none

/-- The fields link exactly the members of a list in its order. -/
structure Holds (deque : Deque P) (members : List P) : Prop where
  distinct : members.Nodup
  head : deque.head = members.head?
  tail : deque.tail = members.getLast?
  next : ∀ before member after, members = before ++ member :: after → deque.next member = after.head?
  prev : ∀ before member after, members = before ++ member :: after → deque.prev member = before.getLast?

theorem holds_empty : (empty : Deque P).Holds [] where
  distinct := List.nodup_nil
  head := rfl
  tail := rfl
  next before member after split := by simp at split
  prev before member after split := by simp at split

variable {deque : Deque P} {members : List P} {member : P}

theorem Holds.nil_of_head (holds : deque.Holds members) (none_first : deque.head = none) : members = [] :=
  List.head?_eq_none_iff.mp (holds.head ▸ none_first)

/-- The list is read from its other end. -/
def flip (deque : Deque P) : Deque P := ⟨deque.tail, deque.head, deque.prev, deque.next⟩

theorem reverse_split {before after : List P} (split : members.reverse = before ++ member :: after) :
    members = after.reverse ++ member :: before.reverse := by
  rw [← members.reverse_reverse, split]
  simp

theorem Holds.flip (holds : deque.Holds members) : deque.flip.Holds members.reverse where
  distinct := List.nodup_reverse.mpr holds.distinct
  head := holds.tail.trans List.head?_reverse.symm
  tail := holds.head.trans List.getLast?_reverse.symm
  next _ _ _ split := (holds.prev _ _ _ (reverse_split split)).trans List.getLast?_reverse
  prev _ _ _ split := (holds.next _ _ _ (reverse_split split)).trans List.head?_reverse

/-- A member of two joined lists is in one of them. -/
theorem split_append {before after left right : List P} {other : P} (split : before ++ after = left ++ other :: right) :
    (∃ middle, before = left ++ other :: middle ∧ right = middle ++ after) ∨
      ∃ middle, after = middle ++ other :: right ∧ left = before ++ middle := by
  rcases List.append_eq_append_iff.mp split with ⟨middle, left_eq, after_eq⟩ | ⟨middle, before_eq, right_eq⟩
  · exact Or.inr ⟨middle, after_eq, left_eq⟩
  · cases middle with
    | nil =>
      exact Or.inr ⟨[], by simpa using right_eq.symm, by simpa using before_eq.symm⟩
    | cons first rest =>
      simp only [List.cons_append, List.cons.injEq] at right_eq
      exact Or.inl ⟨rest, by rw [before_eq, right_eq.1], right_eq.2⟩

section Ends

variable {before after : List P}

variable (holds : deque.Holds (before ++ member :: after))
include holds

theorem Holds.head_iff : deque.head = some member ↔ before = [] := by
  rw [holds.head]
  cases before with
  | nil => simp
  | cons first rest =>
    have distinct := holds.distinct
    rw [List.cons_append] at distinct
    have different : first ≠ member := fun same => (List.nodup_cons.mp distinct).1 (by simp [same])
    simp [different]

theorem Holds.flip_split : deque.flip.Holds (after.reverse ++ member :: before.reverse) := by
  simpa using holds.flip

theorem Holds.tail_iff : deque.tail = some member ↔ after = [] :=
  holds.flip_split.head_iff.trans List.reverse_eq_nil_iff

end Ends

section Operations

variable [DecidableEq P]

/-- Put a member in front. -/
def pushFront (deque : Deque P) (member : P) : Deque P where
  head := some member
  tail := if deque.tail = none then some member else deque.tail
  next := update deque.next member deque.head
  prev :=
    match deque.head with
    | none => update deque.prev member none
    | some first => update (update deque.prev member none) first (some member)

/-- Take the last member. -/
def popBack (deque : Deque P) : Option (P × Deque P) :=
  match deque.tail with
  | none => none
  | some last =>
    some (last,
      { head := if deque.prev last = none then none else deque.head
        tail := deque.prev last
        next :=
          match deque.prev last with
          | none => update deque.next last none
          | some before => update (update deque.next before none) last none
        prev := update deque.prev last none })

/-- The next fields when the left neighbour of a member points past it. -/
def nextWithout (deque : Deque P) (member : P) : Option (P → Option P) :=
  if deque.head = some member then some deque.next
  else (deque.prev member).map fun left => update deque.next left (deque.next member)

/-- The previous fields when the right neighbour of a member points past it. -/
def prevWithout (deque : Deque P) (member : P) : Option (P → Option P) :=
  if deque.tail = some member then some deque.prev
  else (deque.next member).map fun right => update deque.prev right (deque.prev member)

/-- Take a member out, whose neighbours are read unless it is at an end. -/
def unlink (deque : Deque P) (member : P) : Option (Deque P) := do
  let next ← deque.nextWithout member
  let prev ← deque.prevWithout member
  some
    { head := if deque.head = some member then deque.next member else deque.head
      tail := if deque.tail = some member then deque.prev member else deque.tail
      next := update next member none
      prev := update prev member none }

/-- The fields when a neighbour of a member, if there is one, points to the other one. -/
def spliced (fields : P → Option P) (near far : Option P) : P → Option P :=
  match near with
  | none => fields
  | some neighbour => update fields neighbour far

theorem Holds.pushFront (holds : deque.Holds members) (outside : member ∉ members) :
    (deque.pushFront member).Holds (member :: members) where
  distinct := List.nodup_cons.mpr ⟨outside, holds.distinct⟩
  head := rfl
  tail := by
    rw [List.getLast?_cons, ← holds.tail]
    cases tail : deque.tail with
    | none | some => simp [Deque.pushFront, tail]
  next before other after split := by
    cases before with
    | nil =>
      simp only [List.nil_append, List.cons.injEq] at split
      obtain ⟨rfl, rfl⟩ := split
      simp [Deque.pushFront, holds.head]
    | cons first rest =>
      simp only [List.cons_append, List.cons.injEq] at split
      obtain ⟨rfl, inside⟩ := split
      have different : other ≠ member := fun same => outside (by rw [inside, same]; simp)
      simp only [Deque.pushFront, update_of_ne different]
      exact holds.next rest other after inside
  prev before other after split := by
    have head := holds.head
    cases before with
    | nil =>
      simp only [List.nil_append, List.cons.injEq] at split
      obtain ⟨rfl, rfl⟩ := split
      cases first_eq : deque.head with
      | none => simp [Deque.pushFront, first_eq]
      | some first =>
        rw [first_eq] at head
        have different : member ≠ first := by
          intro same
          exact outside (same ▸ List.mem_of_mem_head? head.symm)
        simp [Deque.pushFront, first_eq, update_of_ne different]
    | cons first rest =>
      simp only [List.cons_append, List.cons.injEq] at split
      obtain ⟨rfl, inside⟩ := split
      have different : other ≠ member := fun same => outside (by rw [inside, same]; simp)
      cases rest with
      | nil =>
        rw [inside] at head
        simp only [List.nil_append, List.head?_cons] at head
        simp [Deque.pushFront, head]
      | cons top rest =>
        rw [inside] at head
        simp only [List.cons_append, List.head?_cons] at head
        have distinct := holds.distinct
        rw [inside, List.cons_append] at distinct
        have not_top : other ≠ top := by
          intro same
          exact (List.nodup_cons.mp distinct).1 (by simp [same])
        simp only [Deque.pushFront, head, update_of_ne not_top, update_of_ne different]
        rw [holds.prev (top :: rest) other after inside, List.getLast?_cons_cons]

/-- Only the new member and the one that was first get other links. -/
theorem Holds.pushFront_other (holds : deque.Holds members) {other : P} (different : other ≠ member)
    (outside : other ∉ members) : (deque.pushFront member).next other = deque.next other ∧
      (deque.pushFront member).prev other = deque.prev other := by
  have head := holds.head
  cases first_eq : deque.head with
  | none => simp [Deque.pushFront, first_eq, update_of_ne different]
  | some first =>
    rw [first_eq] at head
    have not_first : other ≠ first := fun same => outside (same ▸ List.mem_of_mem_head? head.symm)
    simp [Deque.pushFront, first_eq, update_of_ne different, update_of_ne not_first]

section Unlink

variable {before after : List P}

section

variable (holds : deque.Holds (before ++ member :: after))
include holds

theorem Holds.nextWithout_eq :
    deque.nextWithout member = some (spliced deque.next (deque.prev member) (deque.next member)) := by
  unfold Deque.nextWithout
  rw [holds.prev before member after rfl]
  simp only [holds.head_iff]
  cases last_eq : before.getLast? with
  | none =>
    rw [if_pos (List.getLast?_eq_none_iff.mp last_eq)]
    rfl
  | some left =>
    rw [if_neg (by rintro rfl; cases last_eq)]
    rfl

theorem Holds.spliced_next (other : P) : spliced deque.next (deque.prev member) (deque.next member) other =
    if before.getLast? = some other then after.head? else deque.next other := by
  rw [holds.prev before member after rfl, holds.next before member after rfl]
  cases before.getLast? with
  | none => simp [spliced]
  | some left =>
    by_cases same : left = other
    · simp [spliced, same]
    · simp [spliced, same, update_of_ne (Ne.symm same)]

/-- The next fields link what is left when a member is taken out. -/
theorem Holds.nextSpliced : (∀ left other right, before ++ after = left ++ other :: right →
      spliced deque.next (deque.prev member) (deque.next member) other = right.head?) ∧
    ∀ other, other ∉ before → spliced deque.next (deque.prev member) (deque.next member) other = deque.next other := by
  obtain ⟨before_distinct, _, apart⟩ := List.nodup_append.mp holds.distinct
  simp only [holds.spliced_next]
  refine ⟨?_, fun other outside => if_neg fun last => outside (List.mem_of_getLast? last)⟩
  intro left other right split
  rcases split_append split with ⟨middle, rfl, rfl⟩ | ⟨middle, rfl, rfl⟩
  · cases middle with
    | nil => simp
    | cons top rest =>
      rw [if_neg, holds.next left other (top :: rest ++ member :: after) (by simp)]
      · rfl
      · intro last
        rw [List.getLast?_append_cons, List.getLast?_cons_cons] at last
        obtain ⟨_, ends_distinct, _⟩ := List.nodup_append.mp before_distinct
        exact (List.nodup_cons.mp ends_distinct).1 (List.mem_of_getLast? last)
  · rw [if_neg, holds.next (before ++ member :: middle) other right (by simp)]
    intro last
    exact apart other (List.mem_of_getLast? last) other (by simp) rfl

theorem Holds.prevSpliced : (∀ left other right, before ++ after = left ++ other :: right →
      spliced deque.prev (deque.next member) (deque.prev member) other = left.getLast?) ∧
    ∀ other, other ∉ after → spliced deque.prev (deque.next member) (deque.prev member) other = deque.prev other := by
  obtain ⟨links, others⟩ := holds.flip_split.nextSpliced
  refine ⟨?_, fun other outside => others other (mt List.mem_reverse.mp outside)⟩
  intro left other right split
  rw [← List.head?_reverse]
  apply links right.reverse
  rw [← List.reverse_append, split]
  simp

theorem Holds.headSpliced :
    (if deque.head = some member then deque.next member else deque.head) = (before ++ after).head? := by
  simp only [holds.head_iff]
  cases before with
  | nil =>
    rw [if_pos rfl, holds.next [] member after rfl]
    rfl
  | cons first rest =>
    rw [if_neg (List.cons_ne_nil first rest), holds.head]
    rfl

/-- A member in the middle is taken out. -/
theorem Holds.unlink : ∃ rest, deque.unlink member = some rest ∧ rest.Holds (before ++ after) ∧
      rest.next member = none ∧ rest.prev member = none ∧
      ∀ other, other ∉ before ++ member :: after → rest.next other = deque.next other ∧
        rest.prev other = deque.prev other := by
  obtain ⟨next_links, next_others⟩ := holds.nextSpliced
  obtain ⟨prev_links, prev_others⟩ := holds.prevSpliced
  have prev_eq : deque.prevWithout member = _ := holds.flip_split.nextWithout_eq
  have different {left right : List P} {other : P} (split : before ++ after = left ++ other :: right) :
      other ≠ member := by
    rintro rfl
    exact (List.nodup_middle.mp holds.distinct).notMem (by simp [split])
  refine ⟨_, by simp only [Deque.unlink, holds.nextWithout_eq, prev_eq]; rfl, ⟨?_, holds.headSpliced, ?_, ?_, ?_⟩,
    update_self .., update_self .., ?_⟩
  · exact (List.nodup_middle.mp holds.distinct).of_cons
  · rw [← List.head?_reverse, List.reverse_append]
    exact holds.flip_split.headSpliced
  · intro left other right split
    exact (update_of_ne (different split) ..).trans (next_links left other right split)
  · intro left other right split
    exact (update_of_ne (different split) ..).trans (prev_links left other right split)
  · intro other outside
    simp only [List.mem_append, List.mem_cons, not_or] at outside
    exact ⟨(update_of_ne outside.2.1 ..).trans (next_others other outside.1),
      (update_of_ne outside.2.1 ..).trans (prev_others other outside.2.2)⟩

end

/-- The last member is taken out like any other. -/
theorem Holds.popBack (holds : deque.Holds (before ++ [member])) :
    ∃ rest, deque.popBack = some (member, rest) ∧ rest.Holds before ∧ rest.next member = none ∧
      rest.prev member = none ∧
      ∀ other, other ∉ before ++ [member] → rest.next other = deque.next other ∧ rest.prev other = deque.prev other := by
  obtain ⟨rest, unlinked, rest_holds, next_none, prev_none, others⟩ := holds.unlink
  have tail : deque.tail = some member := holds.tail_iff.mpr rfl
  have next_member := holds.next before member [] rfl
  have prev_member := holds.prev before member [] rfl
  refine ⟨rest, ?_, by simpa using rest_holds, next_none, prev_none, others⟩
  have same : deque.popBack = (deque.unlink member).map fun left => (member, left) := by
    cases last_eq : before.getLast? with
    | none =>
      have head : deque.head = some member := holds.head_iff.mpr (List.getLast?_eq_none_iff.mp last_eq)
      rw [last_eq] at prev_member
      simp [Deque.popBack, Deque.unlink, Deque.nextWithout, Deque.prevWithout, tail, head, prev_member, next_member]
    | some left =>
      have not_head : deque.head ≠ some member := fun first => by simp [holds.head_iff.mp first] at last_eq
      rw [last_eq] at prev_member
      simp [Deque.popBack, Deque.unlink, Deque.nextWithout, Deque.prevWithout, tail, not_head, prev_member,
        next_member]
  rw [same, unlinked]
  rfl

end Unlink

end Operations

end Deque

end Astral.Library
