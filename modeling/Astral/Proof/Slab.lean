import Astral.Proof.Slots

namespace Astral.Slab

open Function Astral.Library

variable {rest : List Nat} {C : Type} {cache : Cache C} {ready : C → Prop} {state : State C}
  {members : Place → List Nat} {idle : Nat → List Nat} {page slot : Nat} {address fuel addr : Nat} {next : State C}
  {place : Place} {after : List Nat} {growth : Growth C}

section Sizes

theorem roundUp_wraps {value unit : Nat} (positive : 0 < unit) (small : value ≤ wordSize) (bounded : unit < wordSize)
    (nonzero : roundUp value unit ≠ 0) : value ≤ roundUp value unit := by
  have sum : subWord (addWord value unit) 1 = (value + unit - 1) % wordSize := by
    have word : wordSize = 2 ^ 64 := rfl
    simp only [subWord, addWord, word]
    omega
  rw [roundUp, sum, roundDown] at nonzero ⊢
  by_cases wraps : value + unit - 1 < wordSize
  · rw [Nat.mod_eq_of_lt wraps]
    have rest := Nat.mod_lt (value + unit - 1) positive
    omega
  · have wrapped : (value + unit - 1) % wordSize = value + unit - 1 - wordSize := by
      rw [Nat.mod_eq_sub_mod (by omega), Nat.mod_eq_of_lt (by omega)]
    rw [wrapped, Nat.mod_eq_of_lt (by omega)] at nonzero
    omega

/-- The sizes of a cache fit to each other as soon as a slab can be mapped. -/
structure Formed (cache : Cache C) : Prop where
  several : 2 ≤ cache.slabobjcount
  proper : cache.direct = true ∨ cache.bytes ≠ 0 → Proper cache

section

variable {size alignment : UInt64} {ctor dtor : C → C} (made : slabNewcache size alignment ctor dtor = .ok cache)
include made

theorem newcache_formed (several : 2 ≤ cache.slabobjcount) (fits : cache.slabobjcount * cache.truesize < wordSize) :
    Formed cache := by
  have bytes : cache.bytes = cache.slabobjcount * cache.truesize := by
    unfold Cache.bytes
    rw [Nat.mul_comm, Nat.mod_eq_of_lt fits]
  have size_bounded : size.toNat < wordSize := size.toNat_lt
  have alignment_bounded : alignment.toNat < wordSize := alignment.toNat_lt
  have word : wordSize = 2 ^ 64 := rfl
  have unit_fits : 0 < (if alignment = 0 then 8 else alignment.toNat) ∧
      (if alignment = 0 then 8 else alignment.toNat) < wordSize := by
    split
    · omega
    · next nonzero =>
      have positive : alignment.toNat ≠ 0 := fun zero => nonzero (UInt64.toNat_inj.mp zero)
      omega
  revert made
  fun_cases slabNewcache size alignment ctor dtor with intro made
  | case1 => cases made
  | case2 unit small truesize nonzero =>
    cases made
    have larger := roundUp_wraps unit_fits.1 (by unfold slabIndirectCutoff at small; omega) unit_fits.2 nonzero
    refine ⟨several, fun _ => ⟨Nat.pos_of_ne_zero nonzero, fun _ => ⟨larger, Nat.div_mul_le_self ..⟩, ?_, bytes⟩⟩
    intro indirect
    simp [Cache.direct, small] at indirect
  | case3 unit large =>
    cases made
    have indirect : (⟨size.toNat, unit, roundUp size.toNat unit, slabIndirectCount, ctor, dtor⟩ : Cache C).direct =
        false := by
      simpa [Cache.direct] using large
    refine ⟨several, fun mapped => ?_⟩
    have nonzero : roundUp size.toNat unit ≠ 0 := by
      intro zero
      rcases mapped with direct | sized
      · rw [indirect] at direct
        cases direct
      · apply sized
        rw [bytes]
        simp only [zero, Nat.mul_zero]
    have larger := roundUp_wraps unit_fits.1 size_bounded.le unit_fits.2 nonzero
    refine ⟨Nat.pos_of_ne_zero nonzero, ?_, fun _ => ⟨larger, rfl⟩, bytes⟩
    intro direct
    rw [indirect] at direct
    cases direct

theorem newcache_fields : cache.size = size.toNat ∧ cache.ctor = ctor ∧ cache.dtor = dtor := by
  revert made
  fun_cases slabNewcache size alignment ctor dtor with intro made
  | case1 => cases made
  | case2 | case3 =>
    cases made
    exact ⟨rfl, rfl, rfl⟩

end

end Sizes

/-- The counts of used objects that fit to a list. -/
def Place.Admits (count used : Nat) : Place → Prop
  | .full => used = count
  | .part => 0 < used ∧ used < count
  | .empty => used = 0

/-- Each slab is in the list that fits to its used objects. -/
structure Sound (cache : Cache C) (ready : C → Prop) (state : State C) (members : Place → List Nat)
    (idle : Nat → List Nat) : Prop where
  slots : Slots cache ready state idle
  lists : state.lists.Holds members
  listed : ∀ page, page ∈ state.slabs ↔ ∃ place, page ∈ members place
  placed : ∀ place, ∀ page ∈ members place, place.Admits cache.slabobjcount (state.used page)

/-- The object of a slot that is not free. -/
def Live (cache : Cache C) (state : State C) (idle : Nat → List Nat) (address : Nat) : Prop :=
  ∃ page ∈ state.slabs, ∃ slot < cache.slabobjcount, slot ∉ idle page ∧ slotObject cache state page slot = address

/-- The object of a slot. -/
def Owned (cache : Cache C) (state : State C) (address : Nat) : Prop :=
  ∃ page ∈ state.slabs, ∃ slot < cache.slabobjcount, slotObject cache state page slot = address

/-- An address in an object of a slot. -/
def Covered (cache : Cache C) (state : State C) (address : Nat) : Prop :=
  ∃ object, Owned cache state object ∧ object ≤ address ∧ address ≤ object + (cache.truesize - 1)

theorem Owned.covered (owned : Owned cache state address) : Covered cache state address :=
  ⟨address, owned, Nat.le_refl _, Nat.le_add_right ..⟩

theorem Live.owned (live : Live cache state idle address) : Owned cache state address := by
  obtain ⟨page, here, slot, within, _, same⟩ := live
  exact ⟨page, here, slot, within, same⟩

theorem owned_congr (slabs : next.slabs = state.slabs) (base : next.base = state.base) (address : Nat) :
    Owned cache next address ↔ Owned cache state address := by
  unfold Owned slotObject
  rw [slabs, base]

theorem covered_congr (slabs : next.slabs = state.slabs) (base : next.base = state.base) (address : Nat) :
    Covered cache next address ↔ Covered cache state address := by
  simp only [Covered, owned_congr slabs base]

theorem Slots.relist (slots : Slots cache ready state idle) (lists : Chains Place Nat) :
    Slots cache ready { state with lists } idle :=
  ⟨slots.proper, ⟨slots.layout.aligned, slots.layout.pages, slots.layout.areas⟩, slots.chain, slots.distinct,
    slots.within, slots.used, slots.cleared, slots.prepared⟩

section Move

variable (slots : Slots cache ready state idle) (holds : state.lists.Holds members)
  (listed : ∀ page, page ∈ state.slabs ↔ ∃ place, page ∈ members place)
  (placed : ∀ place, ∀ other ∈ members place, other ≠ page → place.Admits cache.slabobjcount (state.used other))
include slots holds listed placed

/-- A slab whose count has changed is still in the list that fits. -/
theorem Sound.stay (member : page ∈ members place) (fits : place.Admits cache.slabobjcount (state.used page)) :
    Sound cache ready state members idle := by
  refine ⟨slots, holds, listed, ?_⟩
  intro other_place other there
  by_cases same : other = page
  · rw [same] at there ⊢
    rw [holds.apart there member]
    exact fits
  · exact placed other_place other there same

/-- A slab whose count has changed goes to the list that fits. -/
theorem Sound.move {before : List Nat} {source target : Place} (split : members source = before ++ page :: after)
    (fits : target.Admits cache.slabobjcount (state.used page)) {lists : Chains Place Nat} (moved : lists.Holds
      (update (update members source (before ++ after)) target (page :: members target))) :
    Sound cache ready { state with lists }
      (update (update members source (before ++ after)) target (page :: members target)) idle where
  slots := slots.relist lists
  lists := moved
  listed other := by
    simp only [listed other, holds.mem_move split]
    by_cases same : other = page
    · have here : page ∈ members source := by simp [split]
      simpa [same] using ⟨source, here⟩
    · simp [same]
  placed place other member := by
    rcases (holds.mem_move split).mp member with ⟨same, equal⟩ | ⟨apart, old⟩
    · rw [same, equal]
      exact fits
    · exact placed place other old apart

end Move

section Search

/-- The test of the search. -/
def covers (cache : Cache C) (state : State C) (obj page : Nat) : Bool :=
  state.base page ≤ obj ∧ obj < state.base page + cache.bytes

/-- A slab that does not hold the object is passed. -/
theorem search_step {obj : Nat} {part : Bool} (enough : (page :: rest).length ≤ fuel)
    (passed : ∀ less, rest.length ≤ less →
      (if state.lists.next page = none ∧ part = false then search cache state obj less true (state.lists.head .part)
        else search cache state obj less part (state.lists.next page)) = .ok (rest.find? (covers cache state obj))) :
    search cache state obj fuel part (some page) = .ok ((page :: rest).find? (covers cache state obj)) := by
  rw [List.length_cons] at enough
  obtain ⟨fuel, rfl⟩ : ∃ less, fuel = less + 1 := ⟨fuel - 1, by omega⟩
  rw [search, List.find?_cons]
  by_cases covered : state.base page ≤ obj ∧ obj < state.base page + cache.bytes
  · simp [covers, covered]
  · have missed : covers cache state obj page = false := by simpa [covers] using covered
    rw [if_neg covered, missed]
    exact passed fuel (by omega)

theorem search_part (holds : state.lists.Holds members) (obj : Nat) (before rest : List Nat)
    (split : members .part = before ++ rest) (enough : rest.length ≤ fuel) :
    search cache state obj fuel true rest.head? = .ok (rest.find? (covers cache state obj)) := by
  induction rest generalizing before fuel with
  | nil => cases fuel <;> rfl
  | cons page rest ih =>
    refine search_step enough fun less left => ?_
    rw [if_neg (by simp), holds.next split]
    exact ih (before ++ [page]) (by rw [split]; simp) left

theorem search_full (holds : state.lists.Holds members) (obj page : Nat) (before rest : List Nat)
    (split : members .full = before ++ page :: rest) (enough : (page :: rest ++ members .part).length ≤ fuel) :
    search cache state obj fuel false (some page) =
      .ok ((page :: rest ++ members .part).find? (covers cache state obj)) := by
  induction rest generalizing before page fuel with
  | nil =>
    refine search_step enough fun less left => ?_
    rw [if_pos ⟨holds.next split, rfl⟩, holds.head]
    exact search_part holds obj [] (members .part) rfl left
  | cons next rest ih =>
    refine search_step enough fun less left => ?_
    rw [holds.next split, List.head?_cons, if_neg (by simp)]
    exact ih next (before ++ [page]) (by rw [split]; simp) left

end Search

section Allocate

/-- The slab has an object to give away. -/
theorem Sound.idle_cons (sound : Sound cache ready state members idle) (here : page ∈ state.slabs)
    (fewer : state.used page < cache.slabobjcount) : ∃ slot rest, idle page = slot :: rest := by
  have counted := sound.slots.used page here
  cases free : idle page with
  | nil =>
    rw [free, List.length_nil] at counted
    omega
  | cons slot rest => exact ⟨slot, rest, rfl⟩

/-- An object was taken out of the first free slot of a slab. -/
structure Took (cache : Cache C) (ready : C → Prop) (state : State C) (idle : Nat → List Nat) (page : Nat)
    (rest : List Nat) (next : State C) : Prop where
  sound : ∃ members, Sound cache ready next members (update idle page rest)
  slabs : next.slabs = state.slabs
  base : next.base = state.base
  object : next.object = state.object

section

variable (sound : Sound cache ready state members idle)
include sound

theorem Sound.placed_unlink (objend : Nat) (place : Place) :
    ∀ other ∈ members place, other ≠ page → place.Admits cache.slabobjcount ((state.unlink page objend).used other) := by
  intro other there different
  simp only [State.unlink, update_of_ne different]
  exact sound.placed place other there

/-- The first slab of a list that is not full gives an object away. -/
theorem Sound.allocateFrom_first (several : 2 ≤ cache.slabobjcount) (split : members place = page :: after)
    (usable : place ≠ .full) : page ∈ state.slabs ∧ ∃ slot rest next, idle page = slot :: rest ∧
      allocateFrom cache state page = (some (slotObject cache state page slot), next) ∧
      Took cache ready state idle page rest next := by
  have member : page ∈ members place := by
    rw [split]
    exact List.mem_cons_self
  have here := (sound.listed page).mpr ⟨place, member⟩
  have admits := sound.placed place page member
  have fewer : state.used page < cache.slabobjcount := by
    cases place with
    | full => exact absurd rfl usable
    | part => exact admits.2
    | empty =>
      have unused : state.used page = 0 := admits
      omega
  obtain ⟨slot, rest, first⟩ := sound.idle_cons here fewer
  obtain ⟨took, slots⟩ := sound.slots.take here first
  set taken := state.unlink page (slotWord cache page slot)
  have counted : taken.used page = state.used page + 1 := update_self ..
  have head (other : Place) : taken.lists.head other = (members other).head? := sound.lists.head other
  have split : members place = [] ++ page :: after := split
  refine ⟨here, slot, rest, ?_⟩
  unfold allocateFrom
  simp only [took, head]
  cases place with
  | full => exact absurd rfl usable
  | empty =>
    have unused : state.used page = 0 := admits
    rw [if_pos (by rw [split]; rfl)]
    have fits : Place.part.Admits cache.slabobjcount (taken.used page) := ⟨by omega, by omega⟩
    have moved := Sound.move slots sound.lists sound.listed (sound.placed_unlink _) split fits
      (sound.lists.moveFirst (by decide) split)
    exact ⟨_, first, rfl, ⟨_, moved⟩, rfl, rfl, rfl⟩
  | part =>
    have nonempty : (members .empty).head? ≠ some page := by
      intro first
      cases sound.lists.apart member (List.mem_of_mem_head? first)
    rw [if_neg nonempty]
    by_cases last : taken.used page = cache.slabobjcount
    · rw [if_pos last]
      have moved := Sound.move slots sound.lists sound.listed (sound.placed_unlink _) split
        (show Place.full.Admits _ _ from last) (sound.lists.moveFirst (by decide) split)
      exact ⟨_, first, rfl, ⟨_, moved⟩, rfl, rfl, rfl⟩
    · rw [if_neg last]
      have fits : Place.part.Admits cache.slabobjcount (taken.used page) := ⟨by omega, by omega⟩
      exact ⟨_, first, rfl, ⟨_, .stay slots sound.lists sound.listed (sound.placed_unlink _) member fits⟩, rfl, rfl, rfl⟩

/-- An allocation begins at the first slab with a free object. -/
theorem Sound.first_usable : (state.lists.head .part).or (state.lists.head .empty) = none ∨
      ∃ place page after, members place = page :: after ∧ place ≠ .full ∧
        (state.lists.head .part).or (state.lists.head .empty) = some page := by
  rw [sound.lists.head, sound.lists.head]
  cases part : members .part with
  | cons page after => exact .inr ⟨.part, page, after, part, by decide, rfl⟩
  | nil =>
    cases empty : members .empty with
    | cons page after => exact .inr ⟨.empty, page, after, empty, by decide, rfl⟩
    | nil => exact .inl rfl

end

theorem slotObject_congr (base : next.base = state.base) (other item : Nat) :
    slotObject cache next other item = slotObject cache state other item := by
  unfold slotObject
  rw [base]

/-- The object of the first free slot is the only one that comes into use. -/
theorem Slots.live_first (slots : Slots cache ready state idle) (here : page ∈ state.slabs)
    (first : idle page = slot :: rest) (slabs : next.slabs = state.slabs) (base : next.base = state.base) :
    ¬ Live cache state idle (slotObject cache state page slot) ∧
      ∀ address, Live cache next (update idle page rest) address ↔
        address = slotObject cache state page slot ∨ Live cache state idle address := by
  have within : slot < cache.slabobjcount := slots.within page here slot (by rw [first]; exact List.mem_cons_self)
  have distinct := slots.distinct page here
  rw [first] at distinct
  have outside : slot ∉ rest := (List.nodup_cons.mp distinct).1
  -- the free slots are the same but for the first one
  have busy_iff (other item : Nat) : item ∉ update idle page rest other ↔
      item ∉ idle other ∨ other = page ∧ item = slot := by
    by_cases same : other = page
    · subst same
      rw [update_self, first, List.mem_cons]
      by_cases equal : item = slot
      · simp [equal, outside]
      · simp [equal]
    · simp [same]
  constructor
  · intro ⟨other, there, item, inside, busy, same⟩
    obtain ⟨pages, equal⟩ := slots.layout.object_inj (slots.proper page here) there here inside within same
    rw [pages, equal, first] at busy
    exact busy List.mem_cons_self
  · intro address
    unfold Live
    simp only [slabs, slotObject_congr base, busy_iff]
    constructor
    · rintro ⟨other, there, item, inside, busy | ⟨rfl, rfl⟩, same⟩
      · exact .inr ⟨other, there, item, inside, busy, same⟩
      · exact .inl same.symm
    · rintro (same | ⟨other, there, item, inside, busy, same⟩)
      · exact ⟨page, here, slot, within, .inr ⟨rfl, rfl⟩, same.symm⟩
      · exact ⟨other, there, item, inside, .inl busy, same⟩

end Allocate

section Grow

variable {objbase : Nat} {cleared : State C}

/-- The new memory contains an address. -/
def Growth.Contains (cache : Cache C) (growth : Growth C) (address : Nat) : Prop :=
  (∃ page ∈ growth.slab, page ≤ address ∧ address < page + pageSize) ∨
    ∃ objbase ∈ growth.objects, objbase ≤ address ∧ address < objbase + cache.bytes

/-- A new slab is empty, and nothing changes for the objects in use. -/
structure Grown (cache : Cache C) (ready : C → Prop) (state : State C) (members : Place → List Nat)
    (idle : Nat → List Nat) (grown : State C) (page objbase : Nat) : Prop where
  sound : Sound cache ready grown (update members .empty (page :: members .empty))
    (update idle page (List.range' 0 cache.slabobjcount).reverse)
  live : ∀ address, Live cache grown (update idle page (List.range' 0 cache.slabobjcount).reverse) address ↔
    Live cache state idle address
  object : ∀ address, Live cache state idle address → grown.object address = state.object address
  owned : ∀ address, Owned cache grown address →
    Owned cache state address ∨ ∃ slot < cache.slabobjcount, address = objbase + slot * cache.truesize
  frame : ∀ address, (∀ slot < cache.slabobjcount, address ≠ objbase + slot * cache.truesize) →
    grown.object address = state.object address

theorem Cleared.slabs_enter (clear : Cleared cache page objbase state cleared)
    (built : Built cache page objbase 0 cache.slabobjcount cleared next) :
    (enter next page).slabs = page :: state.slabs := by
  show page :: next.slabs = _
  rw [built.slabs, clear.slabs]

theorem Layout.aligned_cons (layout : Layout cache state) (clear : Cleared cache page objbase state cleared)
    (built : Built cache page objbase 0 cache.slabobjcount cleared next) (aligned : page % 4096 = 0) :
    ∀ other ∈ (enter next page).slabs, other % 4096 = 0 := by
  intro other member
  rw [clear.slabs_enter built] at member
  rcases List.mem_cons.mp member with same | old
  · rw [same]
    exact aligned
  · exact layout.aligned other old

/-- Memory is mapped for at least one page. -/
theorem vmmMap_some {size start : Nat} {given : Option Nat} (mapped : vmmMap size given = some start) :
    size ≠ 0 ∧ given = some start := by
  unfold vmmMap at mapped
  split at mapped
  · cases mapped
  · next nonzero =>
    refine ⟨?_, mapped⟩
    rintro rfl
    exact nonzero (by decide)

section

variable (sound : Sound cache ready state members idle) (proper : Proper cache) (new : page ∉ state.slabs)
  (constructed : ∀ memory, ready (cache.ctor memory))
include sound proper new constructed

theorem Sound.enter (clear : Cleared cache page objbase state cleared)
    (built : Built cache page objbase 0 cache.slabobjcount cleared next) (layout : Layout cache (enter next page)) :
    Grown cache ready state members idle (enter next page) page objbase := by
  have slabs := clear.slabs_enter built
  have outside (place : Place) : page ∉ members place := fun member => new ((sound.listed page).mpr ⟨place, member⟩)
  have apart {other : Nat} (there : other ∈ state.slabs) : other ≠ page := ne_of_mem_of_not_mem there new
  have mem_lists (other : Nat) (place : Place) : other ∈ update members .empty (page :: members .empty) place ↔
        (other = page ∧ place = .empty) ∨ other ∈ members place := by
    by_cases same : place = .empty
    · rw [same, update_self, List.mem_cons]
      simp
    · rw [update_of_ne same]
      simp [same]
  refine ⟨⟨sound.slots.grow proper clear built layout constructed, ?_, ?_, ?_⟩, ?_, ?_, ?_, ?_⟩
  · show (next.lists.push .empty page).Holds _
    rw [built.lists, clear.lists]
    exact sound.lists.push outside .empty
  · intro other
    rw [slabs, List.mem_cons, sound.listed]
    simp only [mem_lists, exists_or, exists_eq_right]
  · intro place other member
    show place.Admits cache.slabobjcount (next.used other)
    rw [built.used]
    rcases (mem_lists other place).mp member with ⟨same, equal⟩ | old
    · rw [same, equal, clear.unused]
      rfl
    · rw [clear.used other (apart ((sound.listed other).mpr ⟨place, old⟩))]
      exact sound.placed place other old
  · intro address
    constructor
    · intro ⟨other, there, slot, within, busy, same⟩
      rw [slabs] at there
      rcases List.mem_cons.mp there with equal | old
      · rw [equal, update_self, List.mem_reverse, List.mem_range'_1] at busy
        omega
      · rw [update_of_ne (apart old)] at busy
        rw [clear.slotObject_other built (apart old)] at same
        exact ⟨other, old, slot, within, busy, same⟩
    · intro ⟨other, there, slot, within, busy, same⟩
      refine ⟨other, ?_, slot, within, ?_, ?_⟩
      · rw [slabs]
        exact List.mem_cons_of_mem _ there
      · rw [update_of_ne (apart there)]
        exact busy
      · rw [clear.slotObject_other built (apart there)]
        exact same
  · intro address ⟨other, there, slot, within, _, same⟩
    rw [← same]
    exact clear.object_other built proper layout there (apart there) within
  · intro address ⟨other, there, slot, within, same⟩
    rw [slabs] at there
    rcases List.mem_cons.mp there with equal | old
    · rw [equal, clear.slotObject_page built] at same
      exact .inr ⟨slot, within, same.symm⟩
    · rw [clear.slotObject_other built (apart old)] at same
      exact .inl ⟨other, old, slot, within, same⟩
  · intro address outside
    show next.object address = _
    rw [built.object address outside, clear.object]

theorem Sound.initdirect (kind : cache.direct = true) (aligned : page % 4096 = 0) (contents : Nat → C) :
    ∃ next, initdirect cache state contents page = .ok next ∧
      Grown cache ready state members idle (Slab.enter next page) page page := by
  have words (item : Nat) (_ : item < cache.slabobjcount) :
      page + item * cache.truesize + cache.size = slotWord cache page item := by
    simp only [slotWord, kind, if_true]
  obtain ⟨next, ran, built⟩ := initLoop_builds proper aligned contents page
    (fun offset => page + offset + cache.size) words cache.slabobjcount 0 (Nat.zero_add _)
    (state.reset page)
  have clear : Cleared cache page page state (state.reset page) :=
    ⟨rfl, rfl, rfl, rfl, fun _ different => update_of_ne different ..,
      fun _ different => update_of_ne different .., fun _ _ => rfl, update_self ..,
      update_self .., by rw [kind]; rfl⟩
  rw [Nat.zero_mul] at ran
  refine ⟨next, ran, sound.enter proper new constructed clear built ⟨?_, ?_, ?_⟩⟩
  · exact sound.slots.layout.aligned_cons clear built aligned
  all_goals simp [kind]

theorem Sound.initindirect (kind : cache.direct = false) (aligned : page % 4096 = 0) (contents : Nat → C)
    (page_apart : ∀ other ∈ state.slabs, Apart page 4096 (state.base other) cache.bytes)
    (own_apart : Apart page 4096 objbase cache.bytes)
    (area_apart : ∀ other ∈ state.slabs, Apart other 4096 objbase cache.bytes ∧
      Apart (state.base other) cache.bytes objbase cache.bytes) :
    ∃ next, initindirect cache state contents page objbase = .ok next ∧
      Grown cache ready state members idle (Slab.enter next page) page objbase := by
  have words (item : Nat) (_ : item < cache.slabobjcount) :
      page + 8 * (item * cache.truesize / cache.truesize) = slotWord cache page item := by
    simp only [slotWord, kind, Bool.false_eq_true, if_false, Nat.mul_div_cancel item proper.positive]
  obtain ⟨next, ran, built⟩ := initLoop_builds proper aligned contents objbase
    (fun offset => page + 8 * (offset / cache.truesize)) words cache.slabobjcount 0 (Nat.zero_add _)
    { state.reset page with base := update state.base page objbase }
  have clear : Cleared cache page objbase state { state.reset page with base := update state.base page objbase } :=
    ⟨rfl, rfl, rfl, rfl, fun _ different => update_of_ne different ..,
      fun _ different => update_of_ne different .., fun _ different => update_of_ne different ..,
      update_self .., update_self .., by rw [kind]; exact update_self ..⟩
  have own : (Slab.enter next page).base page = objbase := by
    show next.base page = _
    rw [built.base]
    exact update_self ..
  have others {other : Nat} (there : other ∈ state.slabs) : (Slab.enter next page).base other = state.base other := by
    show next.base other = _
    rw [built.base]
    exact update_of_ne (ne_of_mem_of_not_mem there new) ..
  have slabs := clear.slabs_enter built
  rw [Nat.zero_mul] at ran
  refine ⟨next, ran, sound.enter proper new constructed clear built ⟨?_, ?_, ?_⟩⟩
  · exact sound.slots.layout.aligned_cons clear built aligned
  · simp only [slabs, List.forall_mem_cons, own]
    refine fun _ => ⟨⟨own_apart, fun two there => ?_⟩, fun one old => ⟨(area_apart one old).1, fun two there => ?_⟩⟩
    · rw [others there]
      exact page_apart two there
    · rw [others there]
      exact sound.slots.layout.pages kind one old two there
  · simp only [slabs, List.forall_mem_cons, own]
    refine fun _ => ⟨⟨absurd rfl, fun two there _ => ?_⟩, fun one old => ⟨fun _ => ?_, fun two there => ?_⟩⟩
    · rw [others there]
      exact (area_apart two there).2.symm
    · rw [others old]
      exact (area_apart one old).2
    · rw [others old, others there]
      exact sound.slots.layout.areas kind one old two there

omit proper new in
/-- The cache grows by an empty slab, or there is no memory. -/
theorem Sound.grow (formed : Formed cache) (fresh : growth.Fresh cache state) :
    growcache cache state growth = .ok none ∨ ∃ grown page objbase, growcache cache state growth = .ok (some grown) ∧
        Grown cache ready state members idle grown page objbase ∧
        ∀ slot < cache.slabobjcount, ∀ address, objbase + slot * cache.truesize ≤ address →
          address ≤ objbase + slot * cache.truesize + (cache.truesize - 1) → growth.Contains cache address := by
  unfold growcache
  cases mapped : growth.slab with
  | none => exact .inl rfl
  | some page =>
    have aligned : page % 4096 = 0 := fresh.aligned page mapped
    obtain ⟨new, page_apart⟩ := fresh.page page mapped
    cases kind : cache.direct with
    | true =>
      have proper := formed.proper (.inl kind)
      obtain ⟨next, ran, grown⟩ := sound.initdirect proper new constructed kind aligned growth.contents
      simp only [if_true, ran]
      refine .inr ⟨_, page, page, rfl, grown, ?_⟩
      intro slot within address low high
      have inside := slot_end within cache.truesize
      have fits := proper.direct kind
      have positive := proper.positive
      exact .inl ⟨page, mapped, by omega, by simp only [pageSize]; omega⟩
    | false =>
      simp only [Bool.false_eq_true, if_false]
      cases area : vmmMap cache.bytes growth.objects with
      | none => exact .inl rfl
      | some objbase =>
        obtain ⟨sized, given⟩ := vmmMap_some area
        obtain ⟨own_apart, area_apart⟩ := fresh.objects objbase given
        obtain ⟨next, ran, grown⟩ := sound.initindirect (formed.proper (.inr sized)) new constructed kind aligned
          growth.contents (page_apart kind) (own_apart page mapped)
          (fun other there => ⟨(area_apart other there).1, (area_apart other there).2 kind⟩)
        simp only [ran]
        refine .inr ⟨_, page, objbase, rfl, grown, ?_⟩
        intro slot within address low high
        have inside := slot_end within cache.truesize
        have proper := formed.proper (.inr sized)
        have bytes := proper.bytes
        have positive := proper.positive
        exact .inr ⟨objbase, given, by omega, by omega⟩

end

end Grow

section Free

/-- An object in use was freed. -/
structure Gave (cache : Cache C) (ready : C → Prop) (state : State C) (idle : Nat → List Nat) (page slot : Nat)
    (next : State C) : Prop where
  sound : ∃ members, Sound cache ready next members (update idle page (slot :: idle page))
  slabs : next.slabs = state.slabs
  base : next.base = state.base
  object : ∀ address, address ≠ slotObject cache state page slot → next.object address = state.object address

/-- The object is in a free slot again, and its slab may be in the wrong list. -/
structure Returned (cache : Cache C) (ready : C → Prop) (state : State C) (members : Place → List Nat)
    (idle : Nat → List Nat) (page slot : Nat) (returned : State C) : Prop where
  slots : Slots cache ready returned (update idle page (slot :: idle page))
  lists : returned.lists = state.lists
  slabs : returned.slabs = state.slabs
  base : returned.base = state.base
  used : returned.used page = state.used page - 1
  others : ∀ place, ∀ other ∈ members place, other ≠ page → place.Admits cache.slabobjcount (returned.used other)
  object : ∀ address, address ≠ slotObject cache state page slot → returned.object address = state.object address

section

variable (sound : Sound cache ready state members idle)
include sound

theorem Sound.searched : members .full ++ members .part ⊆ state.slabs := by
  intro page member
  rcases List.mem_append.mp member with full | part
  · exact (sound.listed page).mpr ⟨.full, full⟩
  · exact (sound.listed page).mpr ⟨.part, part⟩

/-- The search goes through both lists. -/
theorem Sound.search_eq (obj : Nat) : search cache state obj state.slabs.length (state.lists.head .full).isNone
      (state.lists.head (if (state.lists.head .full).isNone then .part else .full)) =
      .ok ((members .full ++ members .part).find? (covers cache state obj)) := by
  have distinct : (members .full ++ members .part).Nodup := by
    apply List.nodup_append.mpr
    refine ⟨sound.lists.distinct .full, sound.lists.distinct .part, ?_⟩
    intro one in_full two in_part same
    rw [same] at in_full
    cases sound.lists.apart in_full in_part
  have enough := (distinct.subperm sound.searched).length_le
  have head := sound.lists.head .full
  cases split : members .full with
  | nil =>
    rw [split] at head enough
    rw [head, List.head?_nil, Option.isNone_none, if_pos rfl, sound.lists.head]
    exact search_part sound.lists obj [] (members .part) rfl enough
  | cons page rest =>
    rw [split] at head enough
    rw [head, List.head?_cons, Option.isNone_some, if_neg (by decide), head, List.head?_cons]
    exact search_full sound.lists obj page [] rest split enough

variable (here : page ∈ state.slabs) (within : slot < cache.slabobjcount) (busy : slot ∉ idle page)
include here within busy

/-- A slab with an object in use is full or partly used. -/
theorem Sound.busy_listed : 0 < state.used page ∧ (page ∈ members .full ∨ page ∈ members .part) := by
  have counted := sound.slots.used page here
  have fewer := length_lt_of_missing (sound.slots.distinct page here) (sound.slots.within page here) within busy
  have used : 0 < state.used page := by omega
  refine ⟨used, ?_⟩
  obtain ⟨place, member⟩ := (sound.listed page).mp here
  cases place with
  | full => exact .inl member
  | part => exact .inr member
  | empty =>
    have unused : state.used page = 0 := sound.placed .empty page member
    omega

/-- The slab and the free word of an object in use are found. -/
theorem Sound.locate_eq :
    locate cache state (slotObject cache state page slot) = .ok (page, slotWord cache page slot) := by
  have proper := sound.slots.proper page here
  have inside := slot_end within cache.truesize
  have bytes := proper.bytes
  have positive := proper.positive
  unfold locate
  cases kind : cache.direct with
  | true =>
    have aligned := sound.slots.layout.aligned page here
    have fits := proper.direct kind
    have word : slotObject cache state page slot + cache.size = slotWord cache page slot := by
      simp only [slotObject, slotWord, kind, if_true]
    have down : roundDown (slotObject cache state page slot) pageSize = page := by
      simp only [roundDown, slotObject, kind, if_true, pageSize]
      omega
    rw [if_pos rfl, word, if_pos (sound.slots.cleared page here slot within busy), down]
  | false =>
    have covered : covers cache state (slotObject cache state page slot) page = true := by
      simp only [covers, slotObject, kind, Bool.false_eq_true, if_false, decide_eq_true_eq]
      omega
    have listed : page ∈ members .full ++ members .part := List.mem_append.mpr (sound.busy_listed here within busy).2
    have found : (members .full ++ members .part).find? (covers cache state (slotObject cache state page slot)) =
        some page := by
      apply find?_unique listed covered
      intro other member passed
      by_contra different
      have apart := sound.slots.layout.areas kind other (sound.searched member) page here different
      simp only [covers, slotObject, kind, Bool.false_eq_true, if_false, decide_eq_true_eq] at covered passed
      unfold Apart at apart
      omega
    have word : page + 8 * ((slotObject cache state page slot - state.base page) / cache.truesize) =
        slotWord cache page slot := by
      simp only [slotObject, slotWord, kind, Bool.false_eq_true, if_false, Nat.add_sub_cancel_left,
        Nat.mul_div_cancel slot proper.positive]
    simp only [Bool.false_eq_true, if_false, sound.search_eq, found]
    exact congrArg (fun freeptr => Except.ok (page, freeptr)) word

variable (destructed : ∀ memory, ready (cache.dtor memory))
include destructed

theorem Sound.returnobject :
    ∃ returned, returnobject cache state (slotObject cache state page slot) = .ok (page, returned) ∧
      Returned cache ready state members idle page slot returned := by
  set object := slotObject cache state page slot
  have stored := sound.slots.store here within busy (cache.dtor (state.object object))
  refine ⟨(state.store object (cache.dtor (state.object object))).link page (slotWord cache page slot),
    ?_, ?_, rfl, rfl, rfl, update_self .., ?_, ?_⟩
  · unfold Slab.returnobject
    rw [sound.locate_eq here within busy]
    rfl
  · apply stored.give here within busy
    have cleaned : (state.store object (cache.dtor (state.object object))).object object =
        cache.dtor (state.object object) := update_self ..
    have good := destructed (state.object object)
    rw [← cleaned] at good
    exact good
  · intro place other there different
    have kept := sound.placed place other there
    simp only [State.link, State.store, update_of_ne different]
    exact kept
  · intro address different
    exact update_of_ne different ..

theorem Sound.slabFree (several : 2 ≤ cache.slabobjcount) :
    ∃ next, slabFree cache state (slotObject cache state page slot) = .ok next ∧
      Gave cache ready state idle page slot next := by
  obtain ⟨some_used, listed⟩ := sound.busy_listed here within busy
  obtain ⟨returned, back, result⟩ := sound.returnobject here within busy destructed
  have used := result.used
  have lists : returned.lists.Holds members := by
    rw [result.lists]
    exact sound.lists
  have all (other : Nat) : other ∈ returned.slabs ↔ ∃ place, other ∈ members place := by
    rw [result.slabs]
    exact sound.listed other
  unfold Slab.slabFree
  rw [back]
  simp only [bind, Except.bind, pure, Except.pure]
  rcases listed with full | part
  · have count : state.used page = cache.slabobjcount := sound.placed .full page full
    obtain ⟨before, after, split⟩ := List.append_of_mem full
    have fits : Place.part.Admits cache.slabobjcount (returned.used page) := ⟨by omega, by omega⟩
    have moved := Sound.move result.slots lists all result.others split fits (lists.move split (by decide))
    rw [if_neg (by omega : ¬ returned.used page = 0), if_pos (by omega : returned.used page + 1 = cache.slabobjcount)]
    exact ⟨_, rfl, ⟨_, moved⟩, result.slabs, result.base, result.object⟩
  · obtain ⟨_, some_free⟩ := sound.placed .part page part
    by_cases last : returned.used page = 0
    · obtain ⟨before, after, split⟩ := List.append_of_mem part
      have moved := Sound.move result.slots lists all result.others split
        (show Place.empty.Admits cache.slabobjcount (returned.used page) from last) (lists.move split (by decide))
      have stays : ¬ (relist returned .part .empty page).used page + 1 = cache.slabobjcount := by
        show ¬ returned.used page + 1 = _
        omega
      rw [if_pos last, if_neg stays]
      exact ⟨_, rfl, ⟨_, moved⟩, result.slabs, result.base, result.object⟩
    · rw [if_neg last, if_neg (by omega : ¬ returned.used page + 1 = cache.slabobjcount)]
      have stays : Sound cache ready returned members _ :=
        .stay result.slots lists all result.others part ⟨by omega, by omega⟩
      exact ⟨_, rfl, ⟨members, stays⟩, result.slabs, result.base, result.object⟩

end

/-- The object that was freed is the only one that is gone. -/
theorem Gave.live (gave : Gave cache ready state idle page slot next) (here : page ∈ state.slabs) (address : Nat) :
    Live cache next (update idle page (slot :: idle page)) address ↔
      address ≠ slotObject cache state page slot ∧ Live cache state idle address := by
  -- an allocation would take the same object again
  obtain ⟨_, sound⟩ := gave.sound
  rw [← gave.slabs] at here
  obtain ⟨gone, both⟩ := sound.slots.live_first here (update_self ..) gave.slabs.symm gave.base.symm
  rw [update_idem, update_eq_self, slotObject_congr gave.base] at both
  rw [slotObject_congr gave.base] at gone
  rw [both]
  constructor
  · intro live
    refine ⟨?_, .inr live⟩
    rintro rfl
    exact gone live
  · intro ⟨different, either⟩
    exact either.resolve_left different

end Free

section Calls

/-- The cache is sound, and the listed objects are the ones in use. -/
structure Valid (cache : Cache C) (ready : C → Prop) (system : System C) : Prop where
  distinct : system.live.Nodup
  sound : ∃ members idle, Sound cache ready system.state members idle ∧
    ∀ address, address ∈ system.live ↔ Live cache system.state idle address

variable {system : System C}

theorem init_valid (cache : Cache C) (ready : C → Prop) (object : Nat → C) :
    Valid cache ready ⟨State.init object, []⟩ := by
  refine ⟨List.nodup_nil, fun _ => [], fun _ => [], ⟨⟨?_, ⟨?_, ?_, ?_⟩, ?_, ?_, ?_, ?_, ?_, ?_⟩,
    Chains.holds_empty, ?_, ?_⟩, ?_⟩
  all_goals simp [State.init, Live]

theorem Took.valid {live : List Nat} (took : Took cache ready state idle page rest next)
    (sound : Sound cache ready state members idle) (first : idle page = slot :: rest) (here : page ∈ state.slabs)
    (distinct : live.Nodup) (used : ∀ address, address ∈ live ↔ Live cache state idle address) :
    Valid cache ready ⟨next, slotObject cache state page slot :: live⟩ ∧
      slotObject cache state page slot ∉ live ∧ ready (next.object (slotObject cache state page slot)) := by
  obtain ⟨places, after⟩ := took.sound
  obtain ⟨new, both⟩ := sound.slots.live_first here first took.slabs took.base
  rw [← used] at new
  refine ⟨⟨List.nodup_cons.mpr ⟨new, distinct⟩, places, _, after, ?_⟩, new, ?_⟩
  · intro address
    rw [List.mem_cons, both, used]
  · rw [took.object]
    exact sound.slots.prepared page here slot (by rw [first]; exact List.mem_cons_self)

section

variable (valid : Valid cache ready system)
include valid

/-- An allocation gives a new object whose contents are ready, unless the cache cannot grow. -/
theorem Valid.allocate (formed : Formed cache) (constructed : ∀ memory, ready (cache.ctor memory))
    (fresh : growth.Fresh cache system.state) : ∃ ret next, slabAllocate cache system.state growth = .ok (ret, next) ∧
      Valid cache ready ⟨next, ret.toList ++ system.live⟩ ∧
      (ret = none → growcache cache system.state growth = .ok none ∧ next = system.state) ∧
      (∀ address ∈ ret, address ∉ system.live ∧ ready (next.object address)) ∧
      (∀ address ∈ system.live, next.object address = system.state.object address) ∧
      (∀ address, ¬ growth.Contains cache address → next.object address = system.state.object address) ∧
      ∀ address, Covered cache next address → Covered cache system.state address ∨ growth.Contains cache address := by
  obtain ⟨distinct, members, idle, sound, live⟩ := valid
  unfold slabAllocate
  rcases sound.first_usable with none_usable | ⟨place, page, after, split, usable, head⟩
  · rw [none_usable]
    rcases sound.grow constructed formed fresh with failed | ⟨grown, page, objbase, ran, grew, inside⟩
    · rw [failed]
      exact ⟨none, system.state, rfl, ⟨distinct, members, idle, sound, live⟩, fun _ => ⟨rfl, rfl⟩, by simp,
        fun _ _ => rfl, fun _ _ => rfl, fun _ owned => .inl owned⟩
    · have split : update members .empty (page :: members .empty) .empty = page :: members .empty := update_self ..
      obtain ⟨here, slot, rest, next, first, taken, took⟩ :=
        grew.sound.allocateFrom_first formed.several split (by decide)
      obtain ⟨valid, new, good⟩ := took.valid grew.sound first here distinct
        (fun address => (live address).trans (grew.live address).symm)
      have head : grown.lists.head .empty = some page := by
        rw [grew.sound.lists.head, split]
        rfl
      rw [ran]
      simp only [bind, Except.bind, head, taken]
      refine ⟨_, next, rfl, valid, by simp, ?_, ?_, ?_, ?_⟩
      · simpa using ⟨new, good⟩
      · intro address used
        rw [took.object]
        exact grew.object address ((live address).mp used)
      · intro address outside
        rw [took.object]
        apply grew.frame
        intro slot within same
        rw [same] at outside
        exact outside (inside slot within _ (Nat.le_refl _) (Nat.le_add_right ..))
      · intro address ⟨object, owned, low, high⟩
        rcases grew.owned object ((owned_congr took.slabs took.base object).mp owned) with old | ⟨slot, within, rfl⟩
        · exact .inl ⟨object, old, low, high⟩
        · exact .inr (inside slot within address low high)
  · obtain ⟨here, slot, rest, next, first, ran, took⟩ := sound.allocateFrom_first formed.several split usable
    obtain ⟨valid, new, good⟩ := took.valid sound first here distinct live
    rw [head]
    simp only [ran]
    refine ⟨_, next, rfl, valid, by simp, ?_, fun _ _ => by rw [took.object], fun _ _ => by rw [took.object], ?_⟩
    · simpa using ⟨new, good⟩
    · exact fun address covered => .inl ((covered_congr took.slabs took.base address).mp covered)

/-- Freeing an object in use leaves the others. -/
theorem Valid.free (several : 2 ≤ cache.slabobjcount) (destructed : ∀ memory, ready (cache.dtor memory))
    (used : addr ∈ system.live) :
    ∃ next, slabFree cache system.state addr = .ok next ∧ Valid cache ready ⟨next, system.live.erase addr⟩ ∧
      (∀ address, address ≠ addr → next.object address = system.state.object address) ∧
      ∀ address, Covered cache next address ↔ Covered cache system.state address := by
  obtain ⟨distinct, members, idle, sound, live⟩ := valid
  obtain ⟨page, here, slot, within, busy, same⟩ := (live addr).mp used
  obtain ⟨next, ran, gave⟩ := sound.slabFree here within busy destructed several
  rw [same] at ran
  obtain ⟨places, after⟩ := gave.sound
  refine ⟨next, ran, ⟨distinct.erase addr, places, _, after, ?_⟩, ?_, covered_congr gave.slabs gave.base⟩
  · intro address
    rw [distinct.mem_erase_iff, live, gave.live here, same]
  · intro address different
    exact gave.object address (by rw [same]; exact different)

/-- The owner of an object may change it. -/
theorem Valid.store (used : addr ∈ system.live) (contents : C) :
    Valid cache ready { system with state := system.state.store addr contents } := by
  obtain ⟨distinct, members, idle, sound, live⟩ := valid
  obtain ⟨page, here, slot, within, busy, same⟩ := (live addr).mp used
  have slots := sound.slots.store here within busy contents
  rw [same] at slots
  exact ⟨distinct, members, idle, ⟨slots, sound.lists, sound.listed, sound.placed⟩, live⟩

/-- Only the contents of its objects count for a cache. -/
theorem Valid.remember {memory : Nat → C}
    (agree : ∀ address, Owned cache system.state address → memory address = system.state.object address) :
    Valid cache ready ⟨system.state.remember memory, system.live⟩ := by
  obtain ⟨distinct, members, idle, sound, live⟩ := valid
  refine ⟨distinct, members, idle, ⟨⟨sound.slots.proper, ?_, sound.slots.chain, sound.slots.distinct,
    sound.slots.within, sound.slots.used, sound.slots.cleared, ?_⟩, sound.lists, sound.listed, sound.placed⟩, live⟩
  · exact ⟨sound.slots.layout.aligned, sound.slots.layout.pages, sound.slots.layout.areas⟩
  · intro page here slot free
    have same := agree _ ⟨page, here, slot, sound.slots.within page here slot free, rfl⟩
    have good := sound.slots.prepared page here slot free
    rw [← same] at good
    exact good

theorem Valid.owned (used : address ∈ system.live) : Owned cache system.state address := by
  obtain ⟨_, members, idle, _, live⟩ := valid
  exact ((live address).mp used).owned

theorem Valid.covered {one : Nat} (used : one ∈ system.live) (low : one ≤ address) (high : address < one + cache.size) :
    Covered cache system.state address := by
  have owned := valid.owned used
  obtain ⟨page, here, _⟩ := id owned
  obtain ⟨_, _, _, sound, _⟩ := valid
  have size := (sound.slots.proper page here).size_le
  exact ⟨one, owned, low, by omega⟩

/-- A step ends without a fault and keeps the cache sound. -/
theorem Valid.step (formed : Formed cache) (constructed : ∀ memory, ready (cache.ctor memory))
    (destructed : ∀ memory, ready (cache.dtor memory)) {event : Event C} (may : Allowed cache system event) :
    ∃ next, step cache system event = .ok next ∧ Valid cache ready next := by
  cases event with
  | allocate growth =>
    obtain ⟨ret, next, ran, after, _⟩ := valid.allocate formed constructed may
    simp only [Slab.step, ran]
    exact ⟨_, rfl, after⟩
  | free addr =>
    obtain ⟨next, ran, after, _⟩ := valid.free formed.several destructed may
    simp only [Slab.step, ran]
    exact ⟨_, rfl, after⟩
  | store addr contents => exact ⟨_, rfl, valid.store may contents⟩

end

/-- The objects in use overlap neither each other nor a free word nor the header of a slab. -/
def Separate (cache : Cache C) (system : System C) : Prop :=
  ∀ one ∈ system.live, (∀ two ∈ system.live, two ≠ one → Apart one cache.size two cache.size) ∧
    ∀ page ∈ system.state.slabs, (∀ slot < cache.slabobjcount, Apart one cache.size (slotWord cache page slot) 8) ∧
      Apart one cache.size (page + slabPageOffset) 40

theorem Valid.separate (valid : Valid cache ready system) : Separate cache system := by
  obtain ⟨_, members, idle, sound, live⟩ := valid
  intro one used
  obtain ⟨page, here, slot, within, _, same⟩ := (live one).mp used
  have proper := sound.slots.proper page here
  have size := proper.size_le
  refine ⟨?_, ?_⟩
  · intro two other_used different
    obtain ⟨other, there, item, inside, _, equal⟩ := (live two).mp other_used
    have apart := sound.slots.layout.objects_apart proper here there within inside (by
      by_contra both
      push Not at both
      rw [← equal, ← both.1, ← both.2] at different
      exact different same)
    unfold Apart at apart ⊢
    omega
  · intro other there
    rw [← same]
    exact sound.slots.layout.object_apart proper here there within

end Calls

/-- If the memory of a slab has a size that fits into a word, every slab of a cache is in the list that fits to its used
objects, its free words form a chain over its free slots, the objects in use are apart, no call fails or hangs, and an
allocation returns nothing only if the cache could not grow. -/
theorem slab_cache_sound {size alignment : UInt64} {ctor dtor : C → C}
    (made : slabNewcache size alignment ctor dtor = .ok cache) (several : 2 ≤ cache.slabobjcount)
    (fits : cache.slabobjcount * cache.truesize < wordSize) (object : Nat → C) {system : System C}
    (reached : Reaches (step cache) (Allowed cache) ⟨State.init object, []⟩ system) :
    (∃ members idle, Sound cache (fun _ => True) system.state members idle ∧
      ∀ address, address ∈ system.live ↔ Live cache system.state idle address) ∧ Separate cache system ∧
    (∀ event, Allowed cache system event → ∃ next, step cache system event = .ok next) ∧
    ∀ growth next, growth.Fresh cache system.state →
      slabAllocate cache system.state growth = .ok (none, next) → growcache cache system.state growth = .ok none := by
  have formed := newcache_formed made several fits
  have valid : Valid cache (fun _ => True) system := by
    apply reached.keeps (Valid cache fun _ => True)
    · intro before event after kept may moved
      obtain ⟨next, ran, valid⟩ := kept.step formed (fun _ => trivial) (fun _ => trivial) may
      rw [moved] at ran
      cases ran
      exact valid
    · exact init_valid cache _ object
  refine ⟨valid.sound, valid.separate, ?_, ?_⟩
  · intro event may
    obtain ⟨next, ran, _⟩ := valid.step formed (fun _ => trivial) (fun _ => trivial) may
    exact ⟨next, ran⟩
  · intro growth next fresh failed
    obtain ⟨ret, after, ran, _, none_grown, _⟩ := valid.allocate formed (fun _ => trivial) fresh
    rw [failed] at ran
    cases ran
    exact (none_grown rfl).1

/-- A cache of objects of 500 bytes, of which a page holds seven. -/
def smallCache : Cache Unit := ⟨500, 8, 512, 7, id, id⟩

/-- Memory for a first slab. -/
def firstGrowth : Growth Unit := ⟨some 4096, some 65536, fun _ => ()⟩

theorem firstGrowth_fresh (cache : Cache Unit) : firstGrowth.Fresh cache (State.init fun _ => ()) := by
  refine ⟨?_, ?_, ?_⟩
  · simp [firstGrowth, pageSize]
  · simp [firstGrowth, State.init]
  · simp [firstGrowth, State.init, Apart, pageSize]

theorem small_cache_sound : (slabNewcache 500 8 id id = .ok smallCache ∧ 2 ≤ smallCache.slabobjcount ∧
      smallCache.slabobjcount * smallCache.truesize < wordSize) ∧
    ∃ system, [.allocate firstGrowth, .allocate ⟨none, none, fun _ => ()⟩].foldlM (step smallCache)
      ⟨State.init fun _ => (), []⟩ = .ok system ∧ system.live = [6656, 7168] ∧ Separate smallCache system := by
  have made : slabNewcache 500 8 id id = .ok smallCache := by
    have truesize : roundUp 508 8 = 512 := by decide
    simp [slabNewcache, smallCache, slabIndirectCutoff, slabPageOffset, truesize]
  have several : 2 ≤ smallCache.slabobjcount := by decide
  have fits : smallCache.slabobjcount * smallCache.truesize < wordSize := by decide
  refine ⟨⟨made, several, fits⟩, ?_⟩
  have live : System.live <$> [.allocate firstGrowth, .allocate ⟨none, none, fun _ => ()⟩].foldlM (step smallCache)
      ⟨State.init fun _ => (), []⟩ = .ok [6656, 7168] := by
    decide +kernel
  obtain ⟨system, ran, live⟩ := map_ok.mp live
  refine ⟨system, ran, live, ?_⟩
  obtain ⟨middle, first, rest⟩ := bind_ok.mp ran
  obtain ⟨last, second, ⟨⟩⟩ := bind_ok.mp rest
  have grown : Allowed smallCache ⟨_, []⟩ (.allocate firstGrowth) := firstGrowth_fresh _
  have spare : Allowed smallCache middle (.allocate ⟨none, none, fun _ => ()⟩) := ⟨nofun, nofun, nofun⟩
  exact (slab_cache_sound made several fits (fun _ => ()) ((Reaches.next .refl grown first).next spare second)).2.1

/-- A cache whose objects are so large that the size of a slab does not fit into a word. -/
def hugeCache : Cache Unit := ⟨1152921504606851072, 8, 1152921504606851072, 16, id, id⟩

/-- Memory for a second slab. -/
def secondGrowth : Growth Unit := ⟨some 8192, some 1048576, fun _ => ()⟩

/-- The first slab has one slot instead of sixteen. After one allocation the cache has a slab that counts as partly used
and has no free object, so the next allocation returns nothing although the cache could grow. -/
theorem huge_objects_stranded : slabNewcache 1152921504606851072 8 id id = .ok hugeCache ∧ 2 ≤ hugeCache.slabobjcount ∧
    ∃ system, Reaches (step hugeCache) (Allowed hugeCache) ⟨State.init fun _ => (), []⟩ system ∧
      system.state.slabs = [4096] ∧ system.state.used 4096 = 1 ∧ system.state.free 4096 = none ∧
      secondGrowth.Fresh hugeCache system.state ∧
      (∃ next, slabAllocate hugeCache system.state secondGrowth = .ok (none, next)) ∧
      growcache hugeCache system.state secondGrowth ≠ .ok none := by
  refine ⟨rfl, by decide, ?_⟩
  have evaluated : (fun system => ((system.state.slabs, system.state.used 4096, system.state.free 4096,
      system.state.base 4096), Prod.fst <$> slabAllocate hugeCache system.state secondGrowth,
      Option.isSome <$> growcache hugeCache system.state secondGrowth)) <$>
        step hugeCache ⟨State.init fun _ => (), []⟩ (.allocate firstGrowth) =
      .ok (([4096], 1, none, 65536), .ok none, .ok true) := by
    decide +kernel
  obtain ⟨system, ran, evaluated⟩ := map_ok.mp evaluated
  simp only [Prod.mk.injEq] at evaluated
  obtain ⟨⟨slabs, used, free, base⟩, refused, grows⟩ := evaluated
  refine ⟨system, Reaches.next .refl
    (show Allowed hugeCache _ (.allocate firstGrowth) from firstGrowth_fresh hugeCache) ran, slabs, used, free,
    ⟨?_, ?_, ?_⟩, ?_, ?_⟩
  · simp [secondGrowth, pageSize]
  · simp [secondGrowth, slabs, base, Apart, pageSize]
  · have bytes : hugeCache.bytes = 65536 := by decide
    simp [secondGrowth, slabs, base, Apart, pageSize, bytes]
  · obtain ⟨⟨ret, next⟩, result, same⟩ := map_ok.mp refused
    cases same
    exact ⟨next, result⟩
  · intro failed
    rw [failed] at grows
    cases grows

end Astral.Slab
