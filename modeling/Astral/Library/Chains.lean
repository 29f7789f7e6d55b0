import Astral.Library.Deque

namespace Astral.Library

open Function

/-- Doubly linked lists that share the link fields of their members. Each list has a pointer to its first member. -/
structure Chains (I P : Type) where
  head : I → Option P
  next : P → Option P
  prev : P → Option P

namespace Chains

variable {I P : Type}

def empty : Chains I P where
  head _ := none
  next _ := none
  prev _ := none

/-- The fields link exactly the members of each list in its order, and no two lists have a member in common. -/
structure Holds (chains : Chains I P) (members : I → List P) : Prop where
  distinct : ∀ list, (members list).Nodup
  apart : ∀ {one two : I} {member : P}, member ∈ members one → member ∈ members two → one = two
  head : ∀ list, chains.head list = (members list).head?
  next : ∀ {list : I} {before : List P} {member : P} {after : List P},
    members list = before ++ member :: after → chains.next member = after.head?
  prev : ∀ {list : I} {before : List P} {member : P} {after : List P},
    members list = before ++ member :: after → chains.prev member = before.getLast?

theorem holds_empty : (empty : Chains I P).Holds fun _ => [] where
  distinct _ := List.nodup_nil
  apart member := absurd member List.not_mem_nil
  head _ := rfl
  next split := by simp at split
  prev split := by simp at split

variable {chains : Chains I P} {members : I → List P}

/-- Only the heads and the links of members count. -/
theorem Holds.congr (holds : chains.Holds members) {other : Chains I P} (head : other.head = chains.head)
    (next : ∀ list, ∀ member ∈ members list, other.next member = chains.next member)
    (prev : ∀ list, ∀ member ∈ members list, other.prev member = chains.prev member) : other.Holds members where
  distinct := holds.distinct
  apart := holds.apart
  head list := by rw [head, holds.head]
  next {list before member after} split := by
    rw [next list member (by rw [split]; simp), holds.next split]
  prev {list before member after} split := by
    rw [prev list member (by rw [split]; simp), holds.prev split]

section Walk

/-- Follow the links to the first member that passes a test. -/
def find (next : P → Option P) (test : P → Bool) : (fuel : Nat) → Option P → Option (Option P)
  | _, none => some none
  | 0, some _ => none
  | fuel + 1, some member => if test member then some (some member) else find next test fuel (next member)

/-- Follow the links to the end. -/
def collect (next : P → Option P) : (fuel : Nat) → Option P → Option (List P)
  | _, none => some []
  | 0, some _ => none
  | fuel + 1, some member => (member :: ·) <$> collect next fuel (next member)

section

variable (holds : chains.Holds members)
include holds

theorem Holds.find_from (test : P → Bool) {list : I} (before rest : List P) (split : members list = before ++ rest)
    {fuel : Nat} (enough : rest.length ≤ fuel) : find chains.next test fuel rest.head? = some (rest.find? test) := by
  induction rest generalizing before fuel with
  | nil =>
    rw [List.head?_nil, find]
    rfl
  | cons member rest ih =>
    obtain ⟨fuel, rfl⟩ : ∃ less, fuel = less + 1 := ⟨fuel - 1, by simp only [List.length_cons] at enough; omega⟩
    rw [List.head?_cons, find, List.find?_cons]
    split
    · next passed => rw [passed]
    · next failed =>
      rw [eq_false_of_ne_true failed, holds.next split]
      exact ih (before ++ [member]) (by rw [split]; simp) (by simpa using enough)

theorem Holds.find_eq (test : P → Bool) (list : I) {fuel : Nat} (enough : (members list).length ≤ fuel) :
    find chains.next test fuel (chains.head list) = some ((members list).find? test) := by
  rw [holds.head list]
  exact holds.find_from test [] (members list) rfl enough

theorem Holds.collect_from {list : I} (before rest : List P) (split : members list = before ++ rest) {fuel : Nat}
    (enough : rest.length ≤ fuel) : collect chains.next fuel rest.head? = some rest := by
  induction rest generalizing before fuel with
  | nil =>
    rw [List.head?_nil, collect]
  | cons member rest ih =>
    obtain ⟨fuel, rfl⟩ : ∃ less, fuel = less + 1 := ⟨fuel - 1, by simp only [List.length_cons] at enough; omega⟩
    rw [List.head?_cons, collect, holds.next split,
      ih (before ++ [member]) (by rw [split]; simp) (by simpa using enough)]
    rfl

theorem Holds.collect_eq (list : I) {fuel : Nat} (enough : (members list).length ≤ fuel) :
    collect chains.next fuel (chains.head list) = some (members list) := by
  rw [holds.head list]
  exact holds.collect_from [] (members list) rfl enough

end

end Walk

/-- One list with its last member. -/
def deque (chains : Chains I P) (members : I → List P) (list : I) : Deque P where
  head := chains.head list
  tail := (members list).getLast?
  next := chains.next
  prev := chains.prev

theorem Holds.deque (holds : chains.Holds members) (list : I) : (chains.deque members list).Holds (members list) where
  distinct := holds.distinct list
  head := holds.head list
  tail := rfl
  next _ _ _ split := holds.next split
  prev _ _ _ split := holds.prev split

theorem Holds.deque_split (holds : chains.Holds members) {list : I} {before after : List P} {member : P}
    (split : members list = before ++ member :: after) : (chains.deque members list).Holds (before ++ member :: after) :=
  split ▸ holds.deque list

section Replace

variable [DecidableEq I]

/-- The lists other than one keep their members when those keep their links. -/
theorem Holds.replace (holds : chains.Holds members) {other : Chains I P} {list : I} {replaced : List P}
    (one : (Deque.mk (other.head list) replaced.getLast? other.next other.prev).Holds replaced)
    (head : ∀ next, next ≠ list → other.head next = chains.head next)
    (inside : ∀ member ∈ replaced, member ∈ members list ∨ ∀ next, member ∉ members next)
    (links : ∀ next, next ≠ list → ∀ member ∈ members next,
      other.next member = chains.next member ∧ other.prev member = chains.prev member) :
    other.Holds (update members list replaced) := by
  have apart (next : I) (different : next ≠ list) (member : P) (here : member ∈ replaced) : member ∉ members next := by
    rcases inside member here with old | new
    · intro there
      exact different (holds.apart there old)
    · exact new next
  refine ⟨?_, ?_, ?_, ?_, ?_⟩
  · exact (forall_update_iff members fun _ => List.Nodup).mpr ⟨one.distinct, fun next _ => holds.distinct next⟩
  · intro first second member in_first in_second
    by_cases same_first : first = list
    · by_cases same_second : second = list
      · rw [same_first, same_second]
      · rw [same_first, update_self] at in_first
        rw [update_of_ne same_second] at in_second
        exact absurd in_second (apart second same_second member in_first)
    · rw [update_of_ne same_first] at in_first
      by_cases same_second : second = list
      · rw [same_second, update_self] at in_second
        exact absurd in_first (apart first same_first member in_second)
      · rw [update_of_ne same_second] at in_second
        exact holds.apart in_first in_second
  · refine (forall_update_iff members fun next list => other.head next = list.head?).mpr ⟨one.head, ?_⟩
    intro next different
    rw [head next different, holds.head]
  · intro next before member after split
    by_cases same : next = list
    · rw [same, update_self] at split
      exact one.next before member after split
    · rw [update_of_ne same] at split
      rw [(links next same member (by rw [split]; simp)).1, holds.next split]
  · intro next before member after split
    by_cases same : next = list
    · rw [same, update_self] at split
      exact one.prev before member after split
    · rw [update_of_ne same] at split
      rw [(links next same member (by rw [split]; simp)).2, holds.prev split]

/-- The member that is cut is in no list any more. -/
theorem Holds.cut_outside (holds : chains.Holds members) {list : I} {before after : List P} {member : P}
    (split : members list = before ++ member :: after) (next : I) :
    member ∉ update members list (before ++ after) next := by
  have distinct := holds.distinct list
  rw [split] at distinct
  by_cases same : next = list
  · rw [same, update_self]
    exact (List.nodup_middle.mp distinct).notMem
  · rw [update_of_ne same]
    intro there
    exact same (holds.apart there (by rw [split]; simp))

end Replace

section Grouped

variable [DecidableEq I]

/-- The members whose key names a list, in their order. -/
def grouped (members : List P) (key : P → Option I) (list : I) : List P :=
  members.filter fun member => key member = some list

theorem mem_grouped {members : List P} {key : P → Option I} {list : I} {member : P} :
    member ∈ grouped members key list ↔ member ∈ members ∧ key member = some list := by
  simp [grouped]

/-- Only the keys of the members count. -/
theorem grouped_congr {members : List P} {key other : P → Option I}
    (same : ∀ member ∈ members, other member = key member) : grouped members other = grouped members key := by
  funext list
  apply List.filter_congr
  intro member inside
  rw [same member inside]

end Grouped

section Clear

variable [DecidableEq P]

/-- Clear the links of a member. -/
def clear (chains : Chains I P) (member : P) : Chains I P :=
  { chains with
    next := update chains.next member none
    prev := update chains.prev member none }

theorem Holds.clear (holds : chains.Holds members) {member : P} (outside : ∀ list, member ∉ members list) :
    (chains.clear member).Holds members := by
  have different (list : I) (other : P) (inside : other ∈ members list) : other ≠ member := by
    intro same
    rw [same] at inside
    exact outside list inside
  apply holds.congr
  · rfl
  · intro list other inside
    exact update_of_ne (different list other inside) ..
  · intro list other inside
    exact update_of_ne (different list other inside) ..

end Clear

section Operations

variable [DecidableEq I] [DecidableEq P]

/-- Put a member in front of a list. -/
def push (chains : Chains I P) (list : I) (member : P) : Chains I P where
  head := update chains.head list (some member)
  next := update chains.next member (chains.head list)
  prev :=
    match chains.head list with
    | none => update chains.prev member none
    | some first => update (update chains.prev member none) first (some member)

/-- Let the neighbours of a member point past it, or the head if there is none before it. -/
def cut (chains : Chains I P) (list : I) (member : P) : Chains I P where
  head :=
    match chains.prev member with
    | none => update chains.head list (chains.next member)
    | some _ => chains.head
  next :=
    match chains.prev member with
    | none => chains.next
    | some left => update chains.next left (chains.next member)
  prev :=
    match chains.next member with
    | none => chains.prev
    | some right => update chains.prev right (chains.prev member)

/-- A new member is put in front of its list. -/
theorem Holds.push (holds : chains.Holds members) {member : P} (outside : ∀ list, member ∉ members list) (list : I) :
    (chains.push list member).Holds (update members list (member :: members list)) := by
  have pushed := (holds.deque list).pushFront (outside list)
  apply holds.replace
  · refine ⟨pushed.distinct, ?_, rfl, pushed.next, pushed.prev⟩
    exact update_self ..
  · intro next different
    exact update_of_ne different ..
  · intro other inside
    rcases List.mem_cons.mp inside with same | old
    · rw [same]
      exact .inr outside
    · exact .inl old
  · intro next different other inside
    apply (holds.deque list).pushFront_other
    · intro same
      rw [same] at inside
      exact outside next inside
    · intro there
      exact different (holds.apart inside there)

section Cut

variable {list : I} {before after : List P} {member : P}

section

variable (holds : chains.Holds members)
include holds

section

variable (split : members list = before ++ member :: after)
include split

theorem Holds.cut_next (other : P) :
    (chains.cut list member).next other = if before.getLast? = some other then after.head? else chains.next other :=
  (holds.deque_split split).spliced_next other

theorem Holds.cut_prev (other : P) :
    (chains.cut list member).prev other = if after.head? = some other then before.getLast? else chains.prev other := by
  have spliced := (holds.deque_split split).flip_split.spliced_next other
  rw [List.getLast?_reverse, List.head?_reverse] at spliced
  exact spliced

theorem Holds.cut_head : (chains.cut list member).head list = (before ++ after).head? := by
  unfold Chains.cut
  simp only [holds.prev split, holds.next split]
  cases before with
  | nil => simp
  | cons first rest =>
    have head := holds.head list
    rw [split] at head
    cases last : (first :: rest).getLast? with
    | none => simp at last
    | some left => simpa using head

/-- What is left of a list without one of its members. -/
theorem Holds.cut_deque :
    (Deque.mk ((chains.cut list member).head list) (before ++ after).getLast? (chains.cut list member).next
      (chains.cut list member).prev).Holds (before ++ after) := by
  have deque := holds.deque_split split
  exact ⟨(List.nodup_middle.mp deque.distinct).of_cons, holds.cut_head split, rfl, deque.nextSpliced.1,
    deque.prevSpliced.1⟩

/-- A member is cut out of its list. -/
theorem Holds.cut : (chains.cut list member).Holds (update members list (before ++ after)) := by
  have inside (other : P) (here : other ∈ before ++ after) : other ∈ members list := by
    rw [split]
    rcases List.mem_append.mp here with earlier | later
    · simp [earlier]
    · simp [later]
  apply holds.replace (holds.cut_deque split)
  · intro next different
    unfold Chains.cut
    simp only
    cases chains.prev member with
    | none => exact update_of_ne different ..
    | some left => rfl
  · intro other here
    exact .inl (inside other here)
  · intro next different other there
    have outside : other ∉ before ++ after := fun here => different (holds.apart there (inside other here))
    exact ⟨(holds.deque_split split).nextSpliced.2 other fun before => outside (List.mem_append_left _ before),
      (holds.deque_split split).prevSpliced.2 other fun after => outside (List.mem_append_right _ after)⟩

end

end

end Cut

section

variable {source target : I} {before after : List P} {member : P} (split : members source = before ++ member :: after)
include split

/-- A member is cut out of its list and put in front of another one. -/
theorem Holds.move (holds : chains.Holds members) (different : target ≠ source) :
    ((chains.cut source member).push target member).Holds
      (update (update members source (before ++ after)) target (member :: members target)) := by
  have pushed := (holds.cut split).push (holds.cut_outside split) target
  rw [update_of_ne different] at pushed
  exact pushed

/-- Only the member that was moved is in another list. -/
theorem Holds.mem_move (holds : chains.Holds members) {list : I} {other : P} :
    other ∈ update (update members source (before ++ after)) target (member :: members target) list ↔
      (other = member ∧ list = target) ∨ (other ≠ member ∧ other ∈ members list) := by
  by_cases same : list = target
  · rw [same, update_self, List.mem_cons]
    by_cases equal : other = member <;> simp [equal]
  · rw [update_of_ne same]
    by_cases equal : other = member
    · rw [equal]
      simp only [same, and_false, ne_eq, not_true_eq_false, false_and, or_self, iff_false]
      exact holds.cut_outside split list
    · by_cases origin : list = source
      · rw [origin, update_self, split]
        simp [equal]
      · rw [update_of_ne origin]
        simp [equal]

end

/-- Put the first member of a list in front of another one. -/
def moveFirst (chains : Chains I P) (source target : I) (member : P) : Chains I P :=
  let head := update chains.head source (chains.next member)
  let prev :=
    match chains.next member with
    | none => chains.prev
    | some right => update chains.prev right none
  { head := update head target (some member)
    next := update chains.next member (head target)
    prev := update (
      match head target with
      | none => prev
      | some first => update prev first (some member)) member none }

section

variable (holds : chains.Holds members) {source target : I} (different : target ≠ source) {member : P} {after : List P}
  (split : members source = member :: after)
include holds different split

/-- The first member has none before it. -/
theorem Holds.moveFirst_eq : chains.moveFirst source target member = (chains.cut source member).push target member := by
  have alone : chains.prev member = none := holds.prev (show members source = [] ++ member :: after from split)
  have apart : ∀ first ∈ chains.head target, first ≠ member := by
    intro first here same
    rw [holds.head target] at here
    have inside := List.mem_of_mem_head? here
    rw [same] at inside
    exact different (holds.apart inside (by rw [split]; exact List.mem_cons_self))
  unfold Chains.moveFirst Chains.push Chains.cut
  simp only [alone, update_of_ne different, mk.injEq, true_and]
  cases first : chains.head target with
  | none => rfl
  | some first_member =>
    exact update_comm (apart first_member first) _ _ _

theorem Holds.moveFirst : (chains.moveFirst source target member).Holds
      (update (update members source after) target (member :: members target)) := by
  rw [holds.moveFirst_eq different split]
  exact holds.move (show members source = [] ++ member :: after from split) different

end

theorem grouped_erase {members : List P} (distinct : members.Nodup) (key : P → Option I) (member : P) (list : I) :
    grouped (members.erase member) key list = (grouped members key list).erase member := by
  unfold grouped
  rw [distinct.erase_eq_filter, (distinct.filter _).erase_eq_filter, List.filter_comm]

section

variable {members : List P} {key : P → Option I} (holds : chains.Holds (grouped members key))
include holds

/-- A new member is put in front of the list that its key names. -/
theorem Holds.push_grouped {member : P} (outside : member ∉ members) {list : I} (keyed : key member = some list) :
    (chains.push list member).Holds (grouped (member :: members) key) := by
  have pushed := holds.push (fun next inside => outside (mem_grouped.mp inside).1) list
  have same : update (grouped members key) list (member :: grouped members key list) =
      grouped (member :: members) key := by
    funext next
    unfold grouped
    by_cases here : next = list
    · rw [here, update_self, List.filter_cons_of_pos (by simpa using keyed)]
    · rw [update_of_ne here, List.filter_cons_of_neg]
      rw [keyed]
      simpa using Ne.symm here
  rw [same] at pushed
  exact pushed

/-- A member is cut out of the list that its key names. -/
theorem Holds.cut_grouped (distinct : members.Nodup) {member : P} (inside : member ∈ members) {list : I}
    (keyed : key member = some list) : (chains.cut list member).Holds (grouped (members.erase member) key) := by
  obtain ⟨before, after, split⟩ := List.append_of_mem (mem_grouped.mpr ⟨inside, keyed⟩)
  have kept := holds.cut split
  have same : update (grouped members key) list (before ++ after) = grouped (members.erase member) key := by
    funext next
    rw [grouped_erase distinct]
    by_cases here : next = list
    · have outside : member ∉ before := by
        have apart := (List.nodup_middle.mp (split ▸ distinct.filter _ : (before ++ member :: after).Nodup)).notMem
        exact fun inside => apart (List.mem_append_left _ inside)
      rw [here, update_self, split, List.erase_append_right _ outside, List.erase_cons_head]
    · rw [update_of_ne here, List.erase_of_not_mem]
      intro present
      rw [mem_grouped, keyed] at present
      exact here (Option.some.inj present.2).symm
  rw [same] at kept
  exact kept

end

end Operations

end Chains

end Astral.Library
