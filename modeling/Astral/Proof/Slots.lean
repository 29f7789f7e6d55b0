import Astral.Construction.Slab
import Astral.Library.Thread

namespace Astral.Slab

open Function Astral.Library

variable {C : Type} {cache : Cache C} {state : State C} {slot count page other one two : Nat} {items : List Nat}

section Geometry

/-- The sizes of a cache fit to each other. -/
structure Proper (cache : Cache C) : Prop where
  positive : 0 < cache.truesize
  direct : cache.direct = true → cache.size + 8 ≤ cache.truesize ∧ cache.slabobjcount * cache.truesize ≤ 4056
  indirect : cache.direct = false → cache.size ≤ cache.truesize ∧ cache.slabobjcount = 16
  bytes : cache.bytes = cache.slabobjcount * cache.truesize

/-- The free word of a slot. -/
def slotWord (cache : Cache C) (page slot : Nat) : Nat :=
  if cache.direct then page + slot * cache.truesize + cache.size else page + 8 * slot

/-- The object of a slot. -/
def slotObject (cache : Cache C) (state : State C) (page slot : Nat) : Nat :=
  (if cache.direct then page else state.base page) + slot * cache.truesize

/-- The memory of the slabs does not overlap. -/
structure Layout (cache : Cache C) (state : State C) : Prop where
  aligned : ∀ page ∈ state.slabs, page % 4096 = 0
  pages : cache.direct = false → ∀ page ∈ state.slabs, ∀ other ∈ state.slabs,
    Apart page 4096 (state.base other) cache.bytes
  areas : cache.direct = false → ∀ page ∈ state.slabs, ∀ other ∈ state.slabs, page ≠ other →
    Apart (state.base page) cache.bytes (state.base other) cache.bytes

theorem slot_end (within : slot < count) (size : Nat) : slot * size + size ≤ count * size := by
  rw [← Nat.succ_mul]
  exact Nat.mul_le_mul_right size within

theorem Proper.size_le (proper : Proper cache) : cache.size ≤ cache.truesize := by
  cases kind : cache.direct with
  | true =>
    have fits := (proper.direct kind).1
    omega
  | false => exact (proper.indirect kind).1

theorem Proper.word_inside (proper : Proper cache) (within : slot < cache.slabobjcount) (page : Nat) :
    page ≤ slotWord cache page slot ∧ slotWord cache page slot + 8 ≤ page + 4056 := by
  have inside := slot_end within cache.truesize
  unfold slotWord
  cases kind : cache.direct with
  | true =>
    have fits := proper.direct kind
    simp only [if_true]
    omega
  | false =>
    have fits := proper.indirect kind
    simp only [Bool.false_eq_true, if_false]
    omega

theorem Proper.word_inj (proper : Proper cache) (aligned : page % 4096 = 0) (other_aligned : other % 4096 = 0)
    (one_within : one < cache.slabobjcount) (two_within : two < cache.slabobjcount)
    (same : slotWord cache page one = slotWord cache other two) : page = other ∧ one = two := by
  have in_one := proper.word_inside one_within page
  have in_two := proper.word_inside two_within other
  have pages : page = other := by omega
  refine ⟨pages, ?_⟩
  unfold slotWord at same
  cases kind : cache.direct with
  | true =>
    simp only [kind, if_true] at same
    exact Nat.eq_of_mul_eq_mul_right proper.positive (by omega : one * cache.truesize = two * cache.truesize)
  | false =>
    simp only [kind, Bool.false_eq_true, if_false] at same
    omega

theorem Proper.mem_words (proper : Proper cache) (aligned : page % 4096 = 0) (within : slot < cache.slabobjcount)
    (items_within : ∀ item ∈ items, item < cache.slabobjcount)
    (member : slotWord cache page slot ∈ items.map (slotWord cache page)) : slot ∈ items := by
  obtain ⟨item, inside, same⟩ := List.mem_map.mp member
  rw [← (proper.word_inj aligned aligned (items_within item inside) within same).2]
  exact inside

/-- Two objects of one slab are apart. -/
theorem slots_apart {size unit : Nat} (fits : size ≤ unit) (different : one ≠ two) (start : Nat) :
    Apart (start + one * unit) size (start + two * unit) size := by
  unfold Apart
  rcases Nat.lt_or_gt_of_ne different with less | more
  · have inside := slot_end less unit
    omega
  · have inside := slot_end more unit
    omega

section

variable (layout : Layout cache state) (proper : Proper cache) (here : page ∈ state.slabs) (there : other ∈ state.slabs)
  (one_within : one < cache.slabobjcount)
include layout proper here there one_within

theorem Layout.objects_apart (two_within : two < cache.slabobjcount) (different : page ≠ other ∨ one ≠ two) :
    Apart (slotObject cache state page one) cache.truesize (slotObject cache state other two) cache.truesize := by
  have in_one := slot_end one_within cache.truesize
  have in_two := slot_end two_within cache.truesize
  have aligned := layout.aligned page here
  have other_aligned := layout.aligned other there
  have bytes := proper.bytes
  by_cases same : page = other
  · rw [same]
    exact slots_apart (Nat.le_refl _) (different.resolve_left (not_not_intro same)) _
  · unfold slotObject
    cases kind : cache.direct with
    | true =>
      have fits := proper.direct kind
      simp only [Apart, if_true]
      omega
    | false =>
      have apart := layout.areas kind page here other there same
      unfold Apart at apart ⊢
      simp only [Bool.false_eq_true, if_false]
      omega

theorem Layout.object_inj (two_within : two < cache.slabobjcount)
    (same : slotObject cache state page one = slotObject cache state other two) : page = other ∧ one = two := by
  by_contra different
  have apart := layout.objects_apart proper here there one_within two_within (by
    by_contra equal
    push Not at equal
    exact different equal)
  have positive := proper.positive
  unfold Apart at apart
  omega

/-- An object is apart from the free words and the header of each slab. -/
theorem Layout.object_apart :
    (∀ slot < cache.slabobjcount, Apart (slotObject cache state page one) cache.size (slotWord cache other slot) 8) ∧
      Apart (slotObject cache state page one) cache.size (other + slabPageOffset) 40 := by
  have in_one := slot_end one_within cache.truesize
  have aligned := layout.aligned page here
  have other_aligned := layout.aligned other there
  have bytes := proper.bytes
  cases kind : cache.direct with
  | true =>
    have fits := proper.direct kind
    refine ⟨?_, ?_⟩
    · intro slot within
      have inside := slot_end within cache.truesize
      unfold Apart slotObject slotWord
      simp only [kind, if_true]
      rcases Nat.lt_trichotomy one slot with less | same | more
      · have before := slot_end less cache.truesize
        omega
      · rw [same]
        omega
      · have behind := slot_end more cache.truesize
        omega
    · unfold Apart slotObject slabPageOffset
      simp only [kind, if_true]
      omega
  | false =>
    have fits := proper.indirect kind
    have apart := layout.pages kind other there page here
    refine ⟨?_, ?_⟩
    · intro slot within
      unfold Apart slotObject slotWord at *
      simp only [kind, Bool.false_eq_true, if_false]
      omega
    · unfold Apart slotObject slabPageOffset at *
      simp only [kind, Bool.false_eq_true, if_false]
      omega

end

end Geometry

/-- The free words of each slab form a chain over its free slots. -/
structure Slots (cache : Cache C) (ready : C → Prop) (state : State C) (idle : Nat → List Nat) : Prop where
  proper : ∀ page ∈ state.slabs, Proper cache
  layout : Layout cache state
  chain : ∀ page ∈ state.slabs, Threads state.word (state.free page) ((idle page).map (slotWord cache page))
  distinct : ∀ page ∈ state.slabs, (idle page).Nodup
  within : ∀ page ∈ state.slabs, ∀ slot ∈ idle page, slot < cache.slabobjcount
  used : ∀ page ∈ state.slabs, state.used page + (idle page).length = cache.slabobjcount
  cleared : ∀ page ∈ state.slabs, ∀ slot < cache.slabobjcount, slot ∉ idle page →
    state.word (slotWord cache page slot) = none
  prepared : ∀ page ∈ state.slabs, ∀ slot ∈ idle page, ready (state.object (slotObject cache state page slot))

variable {ready : C → Prop} {idle : Nat → List Nat}

/-- The free words of one slab form a chain over the slots. -/
structure Shape (cache : Cache C) (ready : C → Prop) (state : State C) (page : Nat) (items : List Nat) : Prop where
  chain : Threads state.word (state.free page) (items.map (slotWord cache page))
  distinct : items.Nodup
  within : ∀ slot ∈ items, slot < cache.slabobjcount
  used : state.used page + items.length = cache.slabobjcount
  cleared : ∀ slot < cache.slabobjcount, slot ∉ items → state.word (slotWord cache page slot) = none
  prepared : ∀ slot ∈ items, ready (state.object (slotObject cache state page slot))

theorem Slots.shape (slots : Slots cache ready state idle) (here : page ∈ state.slabs) :
    Shape cache ready state page (idle page) :=
  ⟨slots.chain page here, slots.distinct page here, slots.within page here, slots.used page here,
    slots.cleared page here, slots.prepared page here⟩

/-- A slab is not touched. -/
structure Untouched (cache : Cache C) (state next : State C) (page : Nat) : Prop where
  free : next.free page = state.free page
  used : next.used page = state.used page
  word : ∀ slot < cache.slabobjcount, next.word (slotWord cache page slot) = state.word (slotWord cache page slot)
  object : ∀ slot < cache.slabobjcount,
    next.object (slotObject cache next page slot) = state.object (slotObject cache state page slot)

section Change

variable {next : State C}

theorem Shape.untouched (shape : Shape cache ready state page items) (same : Untouched cache state next page) :
    Shape cache ready next page items := by
  refine ⟨?_, shape.distinct, shape.within, ?_, ?_, ?_⟩
  · rw [same.free]
    apply shape.chain.congr
    intro word listed
    obtain ⟨slot, free, rfl⟩ := List.mem_map.mp listed
    exact same.word slot (shape.within slot free)
  · rw [same.used]
    exact shape.used
  · intro slot inside busy
    rw [same.word slot inside]
    exact shape.cleared slot inside busy
  · intro slot free
    rw [same.object slot (shape.within slot free)]
    exact shape.prepared slot free

/-- One slab changes or is new, and the others are not touched. -/
theorem Slots.change (slots : Slots cache ready state idle) (proper : ∀ page ∈ next.slabs, Proper cache)
    (layout : Layout cache next) (shape : Shape cache ready next page items)
    (others : ∀ other ∈ next.slabs, other ≠ page → other ∈ state.slabs ∧ Untouched cache state next other) :
    Slots cache ready next (update idle page items) := by
  have each : ∀ other ∈ next.slabs, Shape cache ready next other (update idle page items other) := by
    intro other there
    by_cases same : other = page
    · rw [same, update_self]
      exact shape
    · rw [update_of_ne same]
      obtain ⟨old, untouched⟩ := others other there same
      exact (slots.shape old).untouched untouched
  exact ⟨proper, layout, fun other there => (each other there).chain, fun other there => (each other there).distinct,
    fun other there => (each other there).within, fun other there => (each other there).used,
    fun other there => (each other there).cleared, fun other there => (each other there).prepared⟩

end Change

/-- A slab does not see a change of a free word of another one. -/
theorem Slots.word_other {item : Nat} (slots : Slots cache ready state idle) (here : page ∈ state.slabs)
    (within : slot < cache.slabobjcount) (there : other ∈ state.slabs) (inside : item < cache.slabobjcount)
    (different : other ≠ page ∨ item ≠ slot) (link : Option Nat) :
    update state.word (slotWord cache page slot) link (slotWord cache other item) =
      state.word (slotWord cache other item) := by
  apply update_of_ne
  intro same
  obtain ⟨pages, slots_same⟩ := (slots.proper page here).word_inj (slots.layout.aligned other there)
    (slots.layout.aligned page here) inside within same
  rcases different with pages_differ | slots_differ
  · exact pages_differ pages
  · exact slots_differ slots_same

theorem objectOf_slotWord (cache : Cache C) (state : State C) (page slot : Nat) :
    objectOf cache state page (slotWord cache page slot) = slotObject cache state page slot := by
  unfold objectOf slotWord slotObject
  cases cache.direct with
  | true =>
    simp only [if_true]
    omega
  | false =>
    simp only [Bool.false_eq_true, if_false]
    rw [Nat.add_sub_cancel_left, Nat.mul_div_cancel_left slot (by decide : 0 < 8)]

section

variable (slots : Slots cache ready state idle) (here : page ∈ state.slabs)
include slots here

/-- The first free slot is taken. -/
theorem Slots.take {rest : List Nat} (first : idle page = slot :: rest) : takeobject cache state page =
        (some (slotObject cache state page slot), state.unlink page (slotWord cache page slot)) ∧
      Slots cache ready (state.unlink page (slotWord cache page slot)) (update idle page rest) := by
  have shape := slots.shape here
  rw [first] at shape
  have within : slot < cache.slabobjcount := shape.within slot List.mem_cons_self
  have rest_within : ∀ item ∈ rest, item < cache.slabobjcount :=
    fun item member => shape.within item (List.mem_cons_of_mem _ member)
  obtain ⟨head, tail⟩ := shape.chain
  obtain ⟨missing, distinct⟩ := List.nodup_cons.mp shape.distinct
  refine ⟨?_, slots.change slots.proper ⟨slots.layout.aligned, slots.layout.pages, slots.layout.areas⟩
    ⟨?_, distinct, rest_within, ?_, ?_, ?_⟩ ?_⟩
  · unfold takeobject
    simp only [head, objectOf_slotWord]
  · simp only [State.unlink, update_self]
    apply tail.update
    intro member
    exact missing ((slots.proper page here).mem_words (slots.layout.aligned page here) within rest_within member)
  · have counted := shape.used
    rw [List.length_cons] at counted
    simp only [State.unlink, update_self]
    omega
  · intro item inside unlisted
    by_cases same : item = slot
    · rw [same]
      exact update_self ..
    · simp only [State.unlink]
      rw [slots.word_other here within here inside (.inr same)]
      exact shape.cleared item inside (by simp [same, unlisted])
  · intro item member
    exact shape.prepared item (List.mem_cons_of_mem _ member)
  · intro other there different
    refine ⟨there, update_of_ne different .., update_of_ne different .., ?_, fun _ _ => rfl⟩
    intro item inside
    exact slots.word_other here within there inside (.inl different) none

omit slots here in
/-- Numbers below a bound that miss one of them are fewer. -/
theorem length_lt_of_missing {missing : Nat} (distinct : items.Nodup) (bounded : ∀ item ∈ items, item < count)
    (within : missing < count) (absent : missing ∉ items) : items.length < count := by
  have fits : (missing :: items) ⊆ List.range count := by
    intro item member
    rw [List.mem_range]
    rcases List.mem_cons.mp member with same | old
    · rw [same]
      exact within
    · exact bounded item old
  have length := ((List.nodup_cons.mpr ⟨absent, distinct⟩).subperm fits).length_le
  rw [List.length_range, List.length_cons] at length
  exact length

/-- The contents of an object in use may change. -/
theorem Slots.store (within : slot < cache.slabobjcount) (busy : slot ∉ idle page) (contents : C) :
    Slots cache ready (state.store (slotObject cache state page slot) contents) idle where
  proper := slots.proper
  layout := ⟨slots.layout.aligned, slots.layout.pages, slots.layout.areas⟩
  chain := slots.chain
  distinct := slots.distinct
  within := slots.within
  used := slots.used
  cleared := slots.cleared
  prepared other there item member := by
    have untouched : (state.store (slotObject cache state page slot) contents).object
        (slotObject cache state other item) = state.object (slotObject cache state other item) := by
      apply update_of_ne
      intro same
      obtain ⟨pages, equal⟩ := slots.layout.object_inj (slots.proper page here) there here
        (slots.within other there item member) within same
      rw [pages, equal] at member
      exact busy member
    have good := slots.prepared other there item member
    rw [← untouched] at good
    exact good

/-- A slot in use whose object is prepared again becomes free. -/
theorem Slots.give (within : slot < cache.slabobjcount) (busy : slot ∉ idle page)
    (good : ready (state.object (slotObject cache state page slot))) :
    Slots cache ready (state.link page (slotWord cache page slot)) (update idle page (slot :: idle page)) := by
  have shape := slots.shape here
  refine slots.change slots.proper ⟨slots.layout.aligned, slots.layout.pages, slots.layout.areas⟩
    ⟨?_, List.nodup_cons.mpr ⟨busy, shape.distinct⟩, ?_, ?_, ?_, ?_⟩ ?_
  · simp only [State.link, update_self, List.map_cons]
    apply shape.chain.push
    intro member
    exact busy ((slots.proper page here).mem_words (slots.layout.aligned page here) within shape.within member)
  · exact List.forall_mem_cons.mpr ⟨within, shape.within⟩
  · simp only [State.link, update_self, List.length_cons]
    have counted := shape.used
    have fewer := length_lt_of_missing shape.distinct shape.within within busy
    omega
  · intro item inside unlisted
    simp only [State.link]
    rw [slots.word_other here within here inside (.inr (List.ne_of_not_mem_cons unlisted))]
    exact shape.cleared item inside (List.not_mem_of_not_mem_cons unlisted)
  · exact List.forall_mem_cons.mpr ⟨good, shape.prepared⟩
  · intro other there different
    refine ⟨there, update_of_ne different .., update_of_ne different .., ?_, fun _ _ => rfl⟩
    intro item inside
    exact slots.word_other here within there inside (.inl different) _

end

section Init

/-- The loop has built the slots from one on. -/
structure Built (cache : Cache C) (page objbase first count : Nat) (state next : State C) : Prop where
  slabs : next.slabs = state.slabs
  lists : next.lists = state.lists
  used : next.used = state.used
  base : next.base = state.base
  free : ∀ other, other ≠ page → next.free other = state.free other
  word : ∀ address, (∀ item < cache.slabobjcount, address ≠ slotWord cache page item) →
    next.word address = state.word address
  object : ∀ address, (∀ item < cache.slabobjcount, address ≠ objbase + item * cache.truesize) →
    next.object address = state.object address
  early : ∀ item < first, next.object (objbase + item * cache.truesize) = state.object (objbase + item * cache.truesize)
  prepared : ∀ item, first ≤ item → item < cache.slabobjcount →
    ∃ memory, next.object (objbase + item * cache.truesize) = cache.ctor memory
  chain : ∀ items : List Nat, (∀ item ∈ items, item < first) →
    Threads state.word (state.free page) (items.map (slotWord cache page)) →
    Threads next.word (next.free page) (((List.range' first count).reverse ++ items).map (slotWord cache page))

theorem initLoop_builds (proper : Proper cache) (aligned : page % 4096 = 0) (contents : Nat → C) (objbase : Nat)
    (freenext : Nat → Nat)
    (words : ∀ item < cache.slabobjcount, freenext (item * cache.truesize) = slotWord cache page item)
    (count first : Nat) (all : first + count = cache.slabobjcount) (state : State C) :
    ∃ next, initLoop cache contents page objbase freenext count (first * cache.truesize) state = .ok next ∧
      Built cache page objbase first count state next := by
  induction count generalizing first state with
  | zero =>
    refine ⟨state, ?_, rfl, rfl, rfl, rfl, fun _ _ => rfl, fun _ _ => rfl, fun _ _ => rfl, fun _ _ => rfl, ?_, ?_⟩
    · have done : first = cache.slabobjcount := all
      rw [initLoop, proper.bytes, done, if_neg (Nat.lt_irrefl _)]
    · intro item above within
      omega
    · intro items _ threads
      exact threads
  | succ count ih =>
    have within : first < cache.slabobjcount := by omega
    have inside := slot_end within cache.truesize
    have positive := proper.positive
    have bounded : cache.bytes < wordSize := Nat.mod_lt _ (by decide)
    rw [proper.bytes] at bounded
    have next_offset : (first * cache.truesize + cache.truesize) % wordSize = (first + 1) * cache.truesize := by
      rw [Nat.succ_mul, Nat.mod_eq_of_lt (by omega)]
    obtain ⟨next, ran, built⟩ := ih (first + 1) (by omega)
      { state with
        object := update state.object (objbase + first * cache.truesize)
          (cache.ctor (contents (objbase + first * cache.truesize)))
        word := update state.word (slotWord cache page first) (state.free page)
        free := update state.free page (some (slotWord cache page first)) }
    refine ⟨next, ?_, built.slabs, built.lists, built.used, built.base, ?_, ?_, ?_, ?_, ?_, ?_⟩
    · rw [initLoop, proper.bytes, if_pos (by omega), next_offset, words first within]
      exact ran
    · intro other different
      rw [built.free other different]
      exact update_of_ne different ..
    · intro address outside
      rw [built.word address outside]
      exact update_of_ne (outside first within) ..
    · intro address outside
      rw [built.object address outside]
      exact update_of_ne (outside first within) ..
    · intro item earlier
      rw [built.early item (by omega)]
      apply update_of_ne
      have before := slot_end earlier cache.truesize
      omega
    · intro item from_first item_within
      by_cases same : item = first
      · refine ⟨contents (objbase + first * cache.truesize), ?_⟩
        rw [same, built.early first (by omega)]
        exact update_self ..
      · exact built.prepared item (by omega) item_within
    · intro items earlier threads
      have outside : slotWord cache page first ∉ items.map (slotWord cache page) := by
        intro member
        have items_within : ∀ item ∈ items, item < cache.slabobjcount :=
          fun item listed => (earlier item listed).trans within
        exact lt_irrefl first (earlier first (proper.mem_words aligned within items_within member))
      have longer := built.chain (first :: items) (by
        intro item member
        rcases List.mem_cons.mp member with same | old
        · omega
        · have before := earlier item old
          omega) (by
        simp only [update_self, List.map_cons]
        exact threads.push outside)
      rw [List.range'_succ, List.reverse_cons, List.append_assoc]
      exact longer

/-- The header of a new slab is cleared. -/
structure Cleared (cache : Cache C) (page objbase : Nat) (state cleared : State C) : Prop where
  slabs : cleared.slabs = state.slabs
  lists : cleared.lists = state.lists
  word : cleared.word = state.word
  object : cleared.object = state.object
  used : ∀ other, other ≠ page → cleared.used other = state.used other
  free : ∀ other, other ≠ page → cleared.free other = state.free other
  base : ∀ other, other ≠ page → cleared.base other = state.base other
  unused : cleared.used page = 0
  none_free : cleared.free page = none
  start : (if cache.direct then page else cleared.base page) = objbase

variable {objbase : Nat} {cleared next : State C}

section

variable (clear : Cleared cache page objbase state cleared)
include clear

section

variable (built : Built cache page objbase 0 cache.slabobjcount cleared next)
include built

/-- The objects of a new slab are behind its start. -/
theorem Cleared.slotObject_page (slot : Nat) :
    slotObject cache (enter next page) page slot = objbase + slot * cache.truesize := by
  show (if cache.direct then page else next.base page) + _ = _
  rw [built.base, clear.start]

theorem Cleared.slotObject_other (different : other ≠ page) (slot : Nat) :
    slotObject cache (enter next page) other slot = slotObject cache state other slot := by
  show (if cache.direct then other else next.base other) + _ = _
  rw [built.base, clear.base other different]
  rfl

/-- The objects of the other slabs are not touched. -/
theorem Cleared.object_other (proper : Proper cache) (layout : Layout cache (enter next page)) {other : Nat}
    (there : other ∈ state.slabs) (different : other ≠ page) {slot : Nat} (within : slot < cache.slabobjcount) :
    next.object (slotObject cache state other slot) = state.object (slotObject cache state other slot) := by
  rw [built.object, clear.object]
  intro item inside same
  rw [← clear.slotObject_page built, ← clear.slotObject_other built different] at same
  apply different
  apply (layout.object_inj proper _ _ within inside same).1
  · show other ∈ page :: next.slabs
    rw [built.slabs, clear.slabs]
    exact List.mem_cons_of_mem _ there
  · exact List.mem_cons_self

end

end

/-- A new slab has only free slots. -/
theorem Slots.grow (slots : Slots cache ready state idle) (proper : Proper cache)
    (clear : Cleared cache page objbase state cleared)
    (built : Built cache page objbase 0 cache.slabobjcount cleared next) (layout : Layout cache (enter next page))
    (constructed : ∀ memory, ready (cache.ctor memory)) : Slots cache ready (enter next page)
      (update idle page (List.range' 0 cache.slabobjcount).reverse) := by
  have page_aligned : page % 4096 = 0 := layout.aligned page List.mem_cons_self
  refine slots.change (fun _ _ => proper) layout ⟨?_, ?_, ?_, ?_, ?_, ?_⟩ ?_
  · have chain := built.chain [] (by simp) clear.none_free
    rw [List.append_nil] at chain
    exact chain
  · exact List.nodup_reverse.mpr (List.nodup_range' 1)
  · intro slot free
    rw [List.mem_reverse, List.mem_range'_1] at free
    omega
  · show next.used page + _ = _
    rw [built.used, clear.unused, List.length_reverse, List.length_range', Nat.zero_add]
  · intro slot within busy
    rw [List.mem_reverse, List.mem_range'_1] at busy
    omega
  · intro slot free
    rw [List.mem_reverse, List.mem_range'_1] at free
    rw [clear.slotObject_page built]
    obtain ⟨memory, contents⟩ := built.prepared slot (Nat.zero_le _) (by omega)
    show ready (next.object _)
    rw [contents]
    exact constructed memory
  · intro other member different
    have there : other ∈ state.slabs := by
      have member : other ∈ page :: next.slabs := member
      rw [built.slabs, clear.slabs] at member
      exact List.mem_of_ne_of_mem different member
    refine ⟨there, (built.free other different).trans (clear.free other different), ?_, ?_, ?_⟩
    · show next.used other = _
      rw [built.used, clear.used other different]
    · intro slot within
      show next.word _ = _
      rw [built.word, clear.word]
      intro item inside same
      exact different (proper.word_inj (slots.layout.aligned other there) page_aligned within inside same).1
    · intro slot within
      rw [clear.slotObject_other built different]
      exact clear.object_other built proper layout there different within

end Init

end Astral.Slab
