import Astral.Construction.Heap
import Astral.Proof.Slab

namespace Astral.Alloc

open Function Astral.Library Astral.Slab

/-- What the heap is for: the bytes behind each pointer that was given out. -/
abbrev Map := Nat → Option (List UInt8)

/-- The first bytes are kept, and the others are zero. -/
def resize (size : Nat) (bytes : List UInt8) : List UInt8 :=
  bytes.take size ++ List.replicate (size - bytes.length) 0

/-- The meaning of a call that returns a pointer. -/
def Event.meaning (map : Map) : Event → Option Nat → Map
  | .alloc size _, some ptr => update map ptr (some (List.replicate size 0))
  | .alloc _ _, none => map
  | .realloc old size _, some ptr =>
    update (update map old none) ptr ((map old).map (resize size))
  | .realloc _ _ _, none => map
  | .free ptr, _ => update map ptr none
  | .write ptr index byte, _ => update map ptr ((map ptr).map fun bytes => bytes.set index byte)

/-- The heap with the bytes that it should hold. -/
structure System where
  heap : Heap
  map : Map

def step (caches : Nat → Cache Block) (system : System) (event : Event) : Except Fault System := do
  let (ret, heap) ← system.heap.apply caches event
  pure ⟨heap, event.meaning system.map ret⟩

variable {size index ptr : Nat} {growth : Growth Block} {block : Block}

section Caches

theorem getcachefromsize_ok (found : getcachefromsize size = .ok index) :
    index < cacheCount ∧ size ≤ allocsize index := by
  unfold getcachefromsize at found
  cases search : allocsizes.findIdx? (fun allocsize => decide (size ≤ allocsize)) with
  | none =>
    rw [search] at found
    cases found
  | some first =>
    rw [search] at found
    cases found
    obtain ⟨within, passed, _⟩ := List.findIdx?_eq_some_iff_getElem.mp search
    refine ⟨within, ?_⟩
    unfold allocsize
    rw [List.getD_eq_getElem?_getD, List.getElem?_eq_getElem within]
    simpa using passed

theorem getcachefromsize_of_le (fits : size ≤ 65536) : ∃ index, getcachefromsize size = .ok index := by
  unfold getcachefromsize
  cases search : allocsizes.findIdx? (fun allocsize => decide (size ≤ allocsize)) with
  | none =>
    have last := List.findIdx?_eq_none_iff.mp search 65536 (by decide)
    simp [fits] at last
  | some index => exact ⟨index, rfl⟩

/-- The capacity of a block leads to its cache. -/
theorem getcachefromsize_allocsize (within : index < cacheCount) : getcachefromsize (allocsize index) = .ok index := by
  unfold cacheCount at within
  interval_cases index <;> rfl

variable {caches : Nat → Cache Block}

theorem Initialised.cache (initialised : Initialised caches) (within : index < cacheCount) :
    Formed (caches index) ∧ (caches index).size = allocsize index + headerSize ∧
      (caches index).ctor = initarea (allocsize index + headerSize) ∧
      (caches index).dtor = initarea (allocsize index + headerSize) := by
  have made := initialised index within
  have sizes : (newcache index).toOption.map
      (fun cache => decide (2 ≤ cache.slabobjcount ∧ cache.slabobjcount * cache.truesize < wordSize)) = some true := by
    unfold cacheCount at within
    interval_cases index <;> decide +kernel
  have word : (UInt64.ofNat (allocsize index + headerSize)).toNat = allocsize index + headerSize := by
    unfold cacheCount at within
    interval_cases index <;> rfl
  rw [made] at sizes
  simp only [Except.toOption, Option.map_some, Option.some.injEq, decide_eq_true_eq] at sizes
  obtain ⟨size, ctor, dtor⟩ := newcache_fields made
  rw [word] at size
  exact ⟨newcache_formed made sizes.1 sizes.2, size, ctor, dtor⟩

end Caches

/-- A free block has its capacity and only zeros. -/
def Ready (capacity : Nat) (block : Block) : Prop :=
  block.capacity = capacity ∧ ∀ index < capacity, block.data index = 0

/-- The state of one cache with the common memory. -/
def Heap.view (heap : Heap) (live : Nat → List Nat) (index : Nat) : Slab.System Block :=
  ⟨(heap.slabs index).remember heap.memory, live index⟩

/-- The caches share the memory, and the objects of each cache that are in use are listed. -/
structure Shared (caches : Nat → Cache Block) (heap : Heap) (live : Nat → List Nat) : Prop where
  valid : ∀ index < cacheCount, Valid (caches index) (Ready (allocsize index)) (heap.view live index)
  apart : ∀ one < cacheCount, ∀ two < cacheCount, one ≠ two → ∀ address,
    Covered (caches one) (heap.slabs one) address → ¬ Covered (caches two) (heap.slabs two) address

/-- The heap holds the bytes of a map. -/
structure Holds (caches : Nat → Cache Block) (heap : Heap) (live : Nat → List Nat) (map : Map) : Prop where
  shared : Shared caches heap live
  capacity : ∀ index < cacheCount, ∀ start ∈ live index,
    (heap.memory start).capacity = allocsize index ∧ (heap.memory start).size ≤ allocsize index
  bytes : ∀ index < cacheCount, ∀ start ∈ live index, map (start + headerSize) = some (heap.memory start).bytes
  known : ∀ ptr, (map ptr).isSome → ∃ index < cacheCount, ∃ start ∈ live index, ptr = start + headerSize

variable {caches : Nat → Cache Block} {heap : Heap} {live : Nat → List Nat} {map : Map} {start : Nat}

theorem initarea_ready (capacity : Nat) (block : Block) : Ready capacity (initarea (capacity + headerSize) block) := by
  refine ⟨Nat.add_sub_cancel .., ?_⟩
  intro place inside
  simp only [initarea, Nat.add_sub_cancel, if_pos inside]

section Shared

section

variable (shared : Shared caches heap live) (within : index < cacheCount) (used : start ∈ live index)
include shared within used

theorem Shared.owned : Owned (caches index) (heap.slabs index) start :=
  (shared.valid index within).owned used

/-- A block belongs to one cache. -/
theorem Shared.same_cache {other : Nat} (other_within : other < cacheCount) (other_used : start ∈ live other) :
    other = index := by
  by_contra different
  exact shared.apart other other_within index within different start (shared.owned other_within other_used).covered
    (shared.owned within used).covered

theorem Shared.modify (change : Block → Block) : Shared caches (heap.modify start change) live := by
  refine ⟨?_, shared.apart⟩
  intro other other_within
  by_cases same : other = index
  · rw [same]
    exact (shared.valid index within).store used (change (heap.memory start))
  · apply (shared.valid other other_within).remember
    intro address owned
    apply update_of_ne
    intro equal
    rw [equal] at owned
    exact shared.apart other other_within index within same start owned.covered (shared.owned within used).covered

/-- Two blocks do not overlap. -/
theorem Shared.separate (initialised : Initialised caches) {other two : Nat} (other_within : other < cacheCount)
    (two_used : two ∈ live other) (different : two ≠ start) :
    Apart start (caches index).size two (caches other).size := by
  have size := (initialised.cache within).2.1
  have other_size := (initialised.cache other_within).2.1
  have header : headerSize = 16 := rfl
  by_cases same : other = index
  · rw [same] at two_used ⊢
    exact ((shared.valid index within).separate start used).1 two two_used different
  · by_contra close
    unfold Apart at close
    exact shared.apart other other_within index within same (max start two)
      ((shared.valid other other_within).covered two_used (by omega) (by omega))
      ((shared.valid index within).covered used (by omega) (by omega))

end

/-- The new memory is not in use by any cache. -/
def Heap.Fresh (caches : Nat → Cache Block) (heap : Heap) (index : Nat) (growth : Growth Block) : Prop :=
  growth.Fresh (caches index) (heap.slabs index) ∧
    ∀ other < cacheCount, other ≠ index → ∀ address, Covered (caches other) (heap.slabs other) address →
      ¬ growth.Contains (caches index) address

variable (shared : Shared caches heap live)
include shared

/-- One cache has worked on its own objects. -/
theorem Shared.change {state : State Block} {rest : List Nat}
    (valid : Valid (caches index) (Ready (allocsize index)) ⟨state, rest⟩)
    (frame : ∀ other < cacheCount, other ≠ index → ∀ address, Covered (caches other) (heap.slabs other) address →
      state.object address = heap.memory address ∧ ¬ Covered (caches index) state address) :
    Shared caches ⟨state.object, update heap.slabs index state⟩ (update live index rest) := by
  refine ⟨?_, ?_⟩
  · intro other other_within
    by_cases same : other = index
    · rw [same]
      simp only [Heap.view, update_self]
      exact valid
    · simp only [Heap.view, update_of_ne same]
      apply (shared.valid other other_within).remember
      intro address owned
      exact (frame other other_within same address owned.covered).1
  · intro one one_within two two_within different address
    by_cases same_one : one = index
    · rw [same_one] at different
      simp only [same_one, update_self, update_of_ne different.symm]
      intro mine other
      exact (frame two two_within different.symm address other).2 mine
    · by_cases same_two : two = index
      · simp only [same_two, update_self, update_of_ne same_one]
        intro other
        exact (frame one one_within same_one address other).2
      · simp only [update_of_ne same_one, update_of_ne same_two]
        exact shared.apart one one_within two two_within different address

theorem Shared.take (initialised : Initialised caches) (within : index < cacheCount)
    (fresh : heap.Fresh caches index growth) : ∃ ret next, heap.take caches index growth = .ok (ret, next) ∧
      Shared caches next (update live index (ret.toList ++ live index)) ∧
      (ret = none → growcache (caches index) (heap.view live index).state growth = .ok none) ∧
      (∀ block ∈ ret, block ∉ live index ∧ Ready (allocsize index) (next.memory block)) ∧
      ∀ other < cacheCount, ∀ block ∈ live other, next.memory block = heap.memory block := by
  obtain ⟨formed, _, ctor, _⟩ := initialised.cache within
  have constructed (memory : Block) : Ready (allocsize index) ((caches index).ctor memory) := by
    rw [ctor]
    exact initarea_ready _ memory
  obtain ⟨unused, outside⟩ := fresh
  obtain ⟨ret, state, ran, valid, failed, new, kept, frame, owned⟩ :=
    (shared.valid index within).allocate formed constructed ⟨unused.aligned, unused.page, unused.objects⟩
  refine ⟨ret, ⟨state.object, update heap.slabs index state⟩, ?_, ?_, fun none_taken => (failed none_taken).1, new, ?_⟩
  · have ran : slabAllocate (caches index) ((heap.slabs index).remember heap.memory) growth = .ok (ret, state) := ran
    simp only [Heap.take, Heap.call, ran]
    rfl
  · apply shared.change valid
    intro other other_within different address other_owned
    refine ⟨frame address (outside other other_within different address other_owned), ?_⟩
    intro mine
    rcases owned address mine with old | grown
    · exact shared.apart other other_within index within different address other_owned old
    · exact outside other other_within different address other_owned grown
  · intro other other_within block used
    by_cases same : other = index
    · rw [same] at used
      exact kept block used
    · exact frame block (outside other other_within same block (shared.owned other_within used).covered)

theorem Shared.give (initialised : Initialised caches) (within : index < cacheCount) (used : start ∈ live index) :
    ∃ next, heap.give caches index start = .ok next ∧
      Shared caches next (update live index ((live index).erase start)) ∧
      ∀ block, block ≠ start → next.memory block = heap.memory block := by
  obtain ⟨formed, _, _, dtor⟩ := initialised.cache within
  have destructed (memory : Block) : Ready (allocsize index) ((caches index).dtor memory) := by
    rw [dtor]
    exact initarea_ready _ memory
  obtain ⟨state, ran, valid, kept, owned⟩ := (shared.valid index within).free formed.several destructed used
  refine ⟨⟨state.object, update heap.slabs index state⟩, ?_, ?_, kept⟩
  · have ran : slabFree (caches index) ((heap.slabs index).remember heap.memory) start = .ok state := ran
    simp only [Heap.give, Heap.call, ran]
    rfl
  · apply shared.change valid
    intro other other_within different address other_owned
    have mine := (shared.owned within used).covered
    refine ⟨kept address ?_, ?_⟩
    · intro same
      rw [same] at other_owned
      exact shared.apart other other_within index within different start other_owned mine
    · rw [owned address]
      exact shared.apart other other_within index within different address other_owned

end Shared

section Contents

variable (holds : Holds caches heap live map)
include holds

/-- All but one block and its bytes are as before. -/
theorem Holds.change {next : Heap} {after : Nat → List Nat} {stored : Option (List UInt8)}
    (shared : Shared caches next after) (others : ∀ other < cacheCount, ∀ block, block ≠ start →
      (block ∈ after other ↔ block ∈ live other) ∧ (block ∈ live other → next.memory block = heap.memory block))
    (here : ∀ other < cacheCount, start ∈ after other → (next.memory start).capacity = allocsize other ∧
      (next.memory start).size ≤ allocsize other ∧ stored = some (next.memory start).bytes)
    (listed : stored.isSome → ∃ index < cacheCount, start ∈ after index) :
    Holds caches next after (update map (start + headerSize) stored) := by
  refine ⟨shared, ?_, ?_, ?_⟩
  · intro other within block member
    by_cases same : block = start
    · rw [same] at member ⊢
      exact ⟨(here other within member).1, (here other within member).2.1⟩
    · obtain ⟨old, kept⟩ := others other within block same
      rw [kept (old.mp member)]
      exact holds.capacity other within block (old.mp member)
  · intro other within block member
    by_cases same : block = start
    · rw [same] at member ⊢
      rw [update_self]
      exact (here other within member).2.2
    · obtain ⟨old, kept⟩ := others other within block same
      rw [kept (old.mp member), update_of_ne (by omega)]
      exact holds.bytes other within block (old.mp member)
  · intro ptr present
    by_cases same : ptr = start + headerSize
    · rw [same, update_self] at present
      obtain ⟨index, within, member⟩ := listed present
      exact ⟨index, within, start, member, same⟩
    · rw [update_of_ne same] at present
      obtain ⟨other, within, block, old, equal⟩ := holds.known ptr present
      exact ⟨other, within, block, (others other within block (by omega)).1.mpr old, equal⟩

/-- The owner of a block may change its size and its data. -/
theorem Holds.modify (within : index < cacheCount) (used : start ∈ live index) (change : Block → Block)
    (capacity : (change (heap.memory start)).capacity = (heap.memory start).capacity)
    (fits : (change (heap.memory start)).size ≤ allocsize index) : Holds caches (heap.modify start change) live
      (update map (start + headerSize) (some (change (heap.memory start)).bytes)) := by
  have self : (heap.modify start change).memory start = change (heap.memory start) := update_self ..
  apply holds.change (holds.shared.modify within used change)
  · intro other other_within block different
    exact ⟨.rfl, fun _ => update_of_ne different ..⟩
  · intro other other_within other_used
    rw [self, capacity, holds.shared.same_cache within used other_within other_used]
    exact ⟨(holds.capacity index within start used).1, fits, rfl⟩
  · exact fun _ => ⟨index, within, used⟩

/-- A new block is taken from a cache and its first bytes are set. -/
theorem Holds.take (initialised : Initialised caches) (within : index < cacheCount)
    (fresh : heap.Fresh caches index growth) : ∃ ret next, heap.take caches index growth = .ok (ret, next) ∧
      (∀ other < cacheCount, ∀ block ∈ live other, next.memory block = heap.memory block) ∧
      (ret = none → growcache (caches index) (heap.view live index).state growth = .ok none ∧
        Holds caches next live map) ∧
      ∀ block ∈ ret, map (block + headerSize) = none ∧ Ready (allocsize index) (next.memory block) ∧
        ∀ change : Block → Block, (change (next.memory block)).capacity = (next.memory block).capacity →
          (change (next.memory block)).size ≤ allocsize index →
          Holds caches (next.modify block change) (update live index (block :: live index))
            (update map (block + headerSize) (some (change (next.memory block)).bytes)) := by
  obtain ⟨ret, next, ran, shared, failed, new, kept⟩ := holds.shared.take initialised within fresh
  refine ⟨ret, next, ran, kept, ?_, ?_⟩
  · intro none_taken
    refine ⟨failed none_taken, ?_, ?_, ?_, holds.known⟩
    · rw [none_taken, Option.toList_none, List.nil_append, update_eq_self] at shared
      exact shared
    · intro other other_within block used
      rw [kept other other_within block used]
      exact holds.capacity other other_within block used
    · intro other other_within block used
      rw [kept other other_within block used]
      exact holds.bytes other other_within block used
  · intro block taken
    obtain ⟨unlisted, ready⟩ := new block taken
    rw [Option.mem_def.mp taken, Option.toList_some, List.singleton_append] at shared
    have mine : block ∈ update live index (block :: live index) index := by
      rw [update_self]
      exact List.mem_cons_self
    have alone {other : Nat} (other_within : other < cacheCount)
        (member : block ∈ update live index (block :: live index) other) : other = index :=
      shared.same_cache within mine other_within member
    refine ⟨?_, ready, ?_⟩
    · by_contra present
      obtain ⟨other, other_within, start, used, same⟩ := holds.known _ (Option.ne_none_iff_isSome.mp present)
      obtain rfl : block = start := Nat.add_right_cancel same
      by_cases equal : other = index
      · rw [equal] at used
        exact unlisted used
      · rw [← update_of_ne equal (block :: live index) live] at used
        exact equal (alone other_within used)
    · intro change capacity fits
      have self : (next.modify block change).memory block = change (next.memory block) := update_self ..
      apply holds.change (shared.modify within mine change)
      · intro other other_within used_block different
        refine ⟨?_, fun old => (update_of_ne different ..).trans (kept other other_within used_block old)⟩
        by_cases same : other = index
        · rw [same, update_self, List.mem_cons, or_iff_right different]
        · rw [update_of_ne same]
      · intro other other_within member
        rw [self, capacity, alone other_within member]
        exact ⟨ready.1, fits, rfl⟩
      · exact fun _ => ⟨index, within, mine⟩

/-- A block is given back to its cache. -/
theorem Holds.give (initialised : Initialised caches) (within : index < cacheCount) (used : start ∈ live index) :
    ∃ next, heap.give caches index start = .ok next ∧ Holds caches next (update live index ((live index).erase start))
        (update map (start + headerSize) none) := by
  obtain ⟨next, ran, shared, kept⟩ := holds.shared.give initialised within used
  refine ⟨next, ran, holds.change shared ?_ ?_ ?_⟩
  · intro other other_within block different
    refine ⟨?_, fun _ => kept block different⟩
    by_cases same : other = index
    · rw [same, update_self]
      exact List.mem_erase_of_ne different
    · rw [update_of_ne same]
  · intro other other_within member
    by_cases same : other = index
    · rw [same, update_self] at member
      exact absurd member (holds.shared.valid index within).distinct.not_mem_erase
    · rw [update_of_ne same] at member
      exact absurd (holds.shared.same_cache within used other_within member) same
  · exact nofun

end Contents

section Bytes

@[simp] theorem Block.bytes_length (block : Block) : block.bytes.length = block.size := by
  simp [Block.bytes]

/-- A block that agrees with another one up to its size and is zero behind it. -/
theorem bytes_resize {other : Block}
    (same : ∀ index < other.size, other.data index = if index < block.size then block.data index else 0) :
    other.bytes = resize other.size block.bytes := by
  apply List.ext_getElem
  · simp only [resize, List.length_append, List.length_take, List.length_replicate, Block.bytes_length]
    omega
  · intro index here _
    have inside : index < other.size := by simpa using here
    have value := same index inside
    simp only [resize, Block.bytes, List.getElem_map, List.getElem_range]
    rw [value]
    split
    · next early =>
      rw [List.getElem_append_left (by simp; omega)]
      simp
    · next late =>
      rw [List.getElem_append_right (by simp; omega)]
      simp

theorem ready_bytes {capacity : Nat} (ready : Ready capacity block) (fits : size ≤ capacity) :
    ({ block with size } : Block).bytes = List.replicate size 0 := by
  rw [List.eq_replicate_iff]
  refine ⟨by simp, ?_⟩
  intro byte member
  simp only [Block.bytes, List.mem_map, List.mem_range] at member
  obtain ⟨index, inside, same⟩ := member
  rw [← same]
  exact ready.2 index (by omega)

theorem write_bytes (block : Block) (place : Nat) (byte : UInt8) :
    ({ block with data := update block.data place byte } : Block).bytes = block.bytes.set place byte := by
  apply List.ext_getElem
  · simp
  · intro index _ _
    simp only [Block.bytes, List.getElem_map, List.getElem_range, List.getElem_set]
    by_cases same : place = index
    · simp [same]
    · simp [same, update_of_ne (Ne.symm same)]

end Bytes

section Calls

/-- The cache for a size could not grow. -/
def Failed (caches : Nat → Cache Block) (heap : Heap) (size : Nat) (growth : Growth Block) : Prop :=
  ∃ index, getcachefromsize size = .ok index ∧
    growcache (caches index) ((heap.slabs index).remember heap.memory) growth = .ok none

/-- A pointer that is returned is new, and none is returned only without memory. -/
def Event.Good (caches : Nat → Cache Block) (heap : Heap) (map : Map) : Event → Option Nat → Prop
  | .alloc _ _, some ptr => map ptr = none
  | .alloc size growth, none => Failed caches heap size growth
  | .realloc old _ _, some ptr => ptr = old ∨ map ptr = none
  | .realloc _ size growth, none => Failed caches heap size growth
  | .free _, _ => True
  | .write _ _ _, _ => True

/-- The caller keeps to its blocks, and new memory is not in use. -/
def Allowed (caches : Nat → Cache Block) (system : System) : Event → Prop
  | .alloc size growth =>
    size ≤ 65536 ∧ ∀ index, getcachefromsize size = .ok index → system.heap.Fresh caches index growth
  | .realloc ptr size growth =>
    (system.map ptr).isSome ∧ size ≤ 65536 ∧
      ∀ index, getcachefromsize size = .ok index → system.heap.Fresh caches index growth
  | .free ptr => (system.map ptr).isSome
  | .write ptr index _ => ∃ bytes, system.map ptr = some bytes ∧ index < bytes.length

/-- A call has its meaning. -/
def Serves (caches : Nat → Cache Block) (heap : Heap) (map : Map) (event : Event) : Prop :=
  ∃ ret next, heap.apply caches event = .ok (ret, next) ∧ event.Good caches heap map ret ∧
    ∃ live, Holds caches next live (event.meaning map ret)

section

variable (holds : Holds caches heap live map)
variable (initialised : Initialised caches)
include holds initialised

theorem Holds.alloc (may : Allowed caches ⟨heap, map⟩ (.alloc size growth)) :
    Serves caches heap map (.alloc size growth) := by
  obtain ⟨small, fresh⟩ := may
  obtain ⟨index, found⟩ := getcachefromsize_of_le small
  obtain ⟨within, fits⟩ := getcachefromsize_ok found
  obtain ⟨_, cache_size, _⟩ := initialised.cache within
  obtain ⟨ret, next, ran, _, failed, taken⟩ := holds.take initialised within (fresh index found)
  unfold Serves Heap.apply Alloc.alloc
  simp only [found, bind, Except.bind, ran]
  cases ret with
  | none =>
    obtain ⟨without, after⟩ := failed rfl
    exact ⟨none, next, rfl, ⟨index, found, without⟩, live, after⟩
  | some start =>
    obtain ⟨new, ready, after⟩ := taken start rfl
    have result := after (fun block => { block with size }) rfl fits
    rw [ready_bytes ready fits] at result
    have capacity : (next.memory start).capacity = (caches index).size - headerSize := by
      rw [ready.1, cache_size, Nat.add_sub_cancel]
    simp only [if_pos capacity]
    exact ⟨some (start + headerSize), _, rfl, new, _, result⟩

theorem Holds.free (present : (map ptr).isSome) : Serves caches heap map (.free ptr) := by
  obtain ⟨index, within, start, used, same⟩ := holds.known ptr present
  obtain ⟨next, ran, after⟩ := holds.give initialised within used
  have capacity := (holds.capacity index within start used).1
  unfold Serves Heap.apply Alloc.free
  rw [same]
  simp only [Nat.add_sub_cancel, capacity, getcachefromsize_allocsize within, bind, Except.bind, ran]
  exact ⟨none, next, rfl, trivial, _, after⟩

omit initialised in
theorem Holds.write {place : Nat} {bytes : List UInt8} (present : map ptr = some bytes) (byte : UInt8) :
    Serves caches heap map (.write ptr place byte) := by
  obtain ⟨index, within, start, used, same⟩ := holds.known ptr (by rw [present]; rfl)
  have stored := holds.bytes index within start used
  have result := holds.modify within used (fun block => { block with data := update block.data place byte }) rfl
    (holds.capacity index within start used).2
  rw [write_bytes] at result
  unfold Serves Heap.apply
  rw [same]
  simp only [Nat.add_sub_cancel, Event.meaning, stored]
  exact ⟨none, _, rfl, trivial, live, result⟩

omit initialised in
/-- A block is resized in place. -/
theorem Holds.resize_here (within : index < cacheCount) (used : start ∈ live index) (size : Nat)
    (growth : Growth Block) (change : Block → Block)
    (capacity : (change (heap.memory start)).capacity = (heap.memory start).capacity)
    (resized : (change (heap.memory start)).size = size) (fits : size ≤ allocsize index)
    (same : ∀ place < size, (change (heap.memory start)).data place =
      if place < (heap.memory start).size then (heap.memory start).data place else 0) :
    Holds caches (heap.modify start change) live
      ((Event.realloc (start + headerSize) size growth).meaning map (some (start + headerSize))) := by
  have result := holds.modify within used change capacity (by omega)
  have bytes : (change (heap.memory start)).bytes = resize size (heap.memory start).bytes := by
    rw [← resized]
    apply bytes_resize
    rw [resized]
    exact same
  rw [bytes] at result
  simp only [Event.meaning, update_idem, holds.bytes index within start used, Option.map_some]
  exact result

theorem Holds.realloc (may : Allowed caches ⟨heap, map⟩ (.realloc ptr size growth)) :
    Serves caches heap map (.realloc ptr size growth) := by
  obtain ⟨present, small, fresh⟩ := may
  obtain ⟨index, within, start, used, same⟩ := holds.known ptr present
  obtain ⟨capacity, bounded⟩ := holds.capacity index within start used
  obtain ⟨target, found⟩ := getcachefromsize_of_le small
  obtain ⟨target_within, fits⟩ := getcachefromsize_ok found
  unfold Serves Heap.apply Alloc.realloc
  simp only [same, Nat.add_sub_cancel]
  by_cases shrinks : size ≤ (heap.memory start).size
  · rw [if_pos shrinks]
    refine ⟨_, _, rfl, .inl rfl, live, ?_⟩
    apply holds.resize_here within used size growth _ rfl rfl (by omega)
    intro place inside
    simp only [if_pos (by omega : place < (heap.memory start).size)]
  · rw [if_neg shrinks, capacity, getcachefromsize_allocsize within, found]
    simp only [bind, Except.bind]
    by_cases stays : index = target
    · rw [if_pos stays]
      refine ⟨_, _, rfl, .inl rfl, live, ?_⟩
      rw [← stays] at fits
      apply holds.resize_here within used size growth _ rfl rfl fits
      intro place inside
      simp only [Block.grow]
      by_cases early : place < (heap.memory start).size
      · rw [if_neg (by omega), if_pos early]
      · rw [if_pos (by omega), if_neg early]
    · rw [if_neg stays]
      obtain ⟨ret, next, ran, kept, failed, taken⟩ := holds.take initialised target_within (fresh target found)
      simp only [ran]
      cases ret with
      | none =>
        obtain ⟨without, after⟩ := failed rfl
        exact ⟨none, next, rfl, ⟨target, found, without⟩, live, after⟩
      | some new =>
        obtain ⟨unknown, ready, after⟩ := taken new rfl
        have stored := holds.bytes index within start used
        have different : start ≠ new := by
          intro equal
          rw [← equal, stored] at unknown
          cases unknown
        have copied := after (Block.copy size (next.memory start)) rfl fits
        have bytes : (Block.copy size (next.memory start) (next.memory new)).bytes =
            resize size (heap.memory start).bytes := by
          rw [kept index within start used]
          apply bytes_resize
          intro place inside
          simp only [Block.copy] at inside ⊢
          split
          · rfl
          · exact ready.2 place (by omega)
        have still : start ∈ update live target (new :: live target) index := by
          rw [update_of_ne stays]
          exact used
        obtain ⟨last, gave, final⟩ := copied.give initialised within still
        have meant : update (update map (new + headerSize)
            (some (Block.copy size (next.memory start) (next.memory new)).bytes)) (start + headerSize) none =
            (Event.realloc (start + headerSize) size growth).meaning map (some (new + headerSize)) := by
          simp only [Event.meaning, stored, Option.map_some, bytes]
          exact update_comm (by omega) _ _ _
        rw [meant] at final
        simp only [gave]
        exact ⟨some (new + headerSize), last, rfl, .inr unknown, _, final⟩

/-- Every call has its meaning. -/
theorem Holds.serves {event : Event} (may : Allowed caches ⟨heap, map⟩ event) : Serves caches heap map event := by
  cases event with
  | alloc size growth => exact holds.alloc initialised may
  | realloc ptr size growth => exact holds.realloc initialised may
  | free ptr => exact holds.free initialised may
  | write ptr place byte =>
    obtain ⟨bytes, present, _⟩ := may
    exact holds.write present byte

end

theorem init_holds (memory : Nat → Block) : Holds caches (Heap.init memory) (fun _ => []) fun _ => none := by
  refine ⟨⟨?_, ?_⟩, ?_, ?_, ?_⟩
  · intro index _
    exact init_valid _ _ memory
  · rintro one _ two _ _ address ⟨_, ⟨page, here, _⟩, _⟩
    cases here
  all_goals simp

end Calls

theorem Holds.mapped (holds : Holds caches heap live map) {bytes : List UInt8} (present : map ptr = some bytes) :
    ∃ index < cacheCount, ∃ start ∈ live index, ptr = start + headerSize ∧
      (heap.memory start).capacity = allocsize index ∧ (heap.memory start).size ≤ allocsize index ∧
      (heap.memory start).bytes = bytes := by
  obtain ⟨index, within, start, used, same⟩ := holds.known ptr (by rw [present]; rfl)
  obtain ⟨capacity, bounded⟩ := holds.capacity index within start used
  have stored := holds.bytes index within start used
  rw [← same, present] at stored
  exact ⟨index, within, start, used, same, capacity, bounded, (Option.some.inj stored).symm⟩

/-- In every run the heap holds the bytes that were written, in blocks that lead back to their caches and do not
overlap. Every call ends and has its meaning, and an allocation fails only without memory. -/
theorem heap_holds_contents (initialised : Initialised caches) (memory : Nat → Block) {system : System}
    (reached : Reaches (step caches) (Allowed caches) ⟨Heap.init memory, fun _ => none⟩ system) :
    (∀ ptr bytes, system.map ptr = some bytes → ∃ index < cacheCount, ∃ start, ptr = start + headerSize ∧
      Owned (caches index) (system.heap.slabs index) start ∧
      getcachefromsize (system.heap.memory start).capacity = .ok index ∧
      (system.heap.memory start).size ≤ (system.heap.memory start).capacity ∧
      (system.heap.memory start).bytes = bytes) ∧
    (∀ one two ones twos, system.map one = some ones → system.map two = some twos → two ≠ one →
      Apart one ones.length two twos.length) ∧
    ∀ event, Allowed caches system event → Serves caches system.heap system.map event := by
  have holds : ∃ live, Holds caches system.heap live system.map := by
    apply reached.keeps fun system => ∃ live, Holds caches system.heap live system.map
    · intro before event after ⟨live, kept⟩ may moved
      obtain ⟨ret, next, ran, _, final⟩ := kept.serves initialised may
      simp only [step, ran] at moved
      cases moved
      exact final
    · exact ⟨_, init_holds memory⟩
  obtain ⟨live, holds⟩ := holds
  refine ⟨?_, ?_, fun event may => holds.serves initialised may⟩
  · intro ptr bytes present
    obtain ⟨index, within, start, used, same, capacity, bounded, stored⟩ := holds.mapped present
    refine ⟨index, within, start, same, holds.shared.owned within used, ?_, by omega, stored⟩
    rw [capacity]
    exact getcachefromsize_allocsize within
  · intro one two ones twos first second different
    obtain ⟨index, within, start, used, rfl, _, bounded, rfl⟩ := holds.mapped first
    obtain ⟨other, other_within, block, other_used, rfl, _, other_bounded, rfl⟩ := holds.mapped second
    have apart := holds.shared.separate within used initialised other_within other_used (by omega)
    rw [(initialised.cache within).2.1, (initialised.cache other_within).2.1] at apart
    unfold Apart at apart ⊢
    simp only [Block.bytes, List.length_map, List.length_range]
    omega

/-- The caches that `alloc_init` makes. -/
def kernelCaches (index : Nat) : Cache Block :=
  match newcache index with
  | .ok cache => cache
  | .error _ => ⟨0, 8, 0, 0, id, id⟩

/-- Memory that was never written. -/
def blankMemory (_ : Nat) : Block := ⟨0, 0, fun _ => 0⟩

/-- A page for the first slab. -/
def onePage : Growth Block := ⟨some 4096, none, blankMemory⟩

/-- The heap before the first call. -/
def blankSystem : System := ⟨Heap.init blankMemory, fun _ => none⟩

theorem kernelCaches_initialised : Initialised kernelCaches := by
  intro index within
  unfold kernelCaches
  cases made : newcache index with
  | ok cache => rfl
  | error fault =>
    have fine : (newcache index).isOk = true := by
      unfold cacheCount at within
      interval_cases index <;> rfl
    rw [made] at fine
    cases fine

theorem first_block_zero : Initialised kernelCaches ∧ Allowed kernelCaches blankSystem (.alloc 40 onePage) ∧
    ∃ system start, step kernelCaches blankSystem (.alloc 40 onePage) = .ok system ∧
      8072 = start + headerSize ∧ (system.heap.memory start).bytes = List.replicate 40 0 := by
  have may : Allowed kernelCaches blankSystem (.alloc 40 onePage) := by
    refine ⟨by decide, ?_⟩
    intro index _
    refine ⟨⟨by simp [onePage, pageSize], ?_, by simp [onePage]⟩, ?_⟩
    · simp [onePage, blankSystem, Heap.init, State.init]
    · rintro other _ _ address ⟨_, ⟨page, here, _⟩, _⟩
      cases here
  refine ⟨kernelCaches_initialised, may, ?_⟩
  have stored : (fun system => system.map 8072) <$> step kernelCaches blankSystem (.alloc 40 onePage) =
      .ok (some (List.replicate 40 0)) := by
    decide +kernel
  obtain ⟨system, ran, stored⟩ := map_ok.mp stored
  obtain ⟨_, _, start, same, _, _, _, bytes⟩ := (heap_holds_contents kernelCaches_initialised blankMemory
    (Reaches.next .refl may ran)).1 8072 _ stored
  exact ⟨system, start, ran, same, bytes⟩

end Astral.Alloc
