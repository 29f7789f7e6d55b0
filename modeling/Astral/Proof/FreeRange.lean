import Astral.Construction.FreeRange
import Astral.Library.Exchange
import Astral.Library.Run
import Mathlib.Tactic

namespace Astral.FreeRange

open Library

/-- A range of size zero is a free entry of the cache of ranges. -/
structure Space.WellFormed (space : Space) : Prop where
  sorted : space.ranges.Pairwise fun lower upper => lower.top ≤ upper.start
  inside : ∀ range ∈ space.ranges, 0 < range.size ∧ space.start ≤ range.start ∧ range.top ≤ space.stop

def Range.Apart (range : Range) (size addr : Nat) : Prop := addr + size ≤ range.start ∨ range.top ≤ addr

/-- The addresses lie in the space and in none of its ranges. -/
def Space.Fits (space : Space) (size addr : Nat) : Prop :=
  space.start ≤ addr ∧ addr + size ≤ space.stop ∧ ∀ range ∈ space.ranges, range.Apart size addr

/-- What a search from an address on may return. -/
def Space.Finds (space : Space) (addr size found : Nat) : Prop :=
  if found = null then ∀ other, addr ≤ other → ¬ space.Fits size other
  else addr ≤ found ∧ space.Fits size found

section Search

variable {stop size addr found : Nat} {range : Range} {rest : List Range}

/-- What a search from an address on may return for a list of ranges. -/
def FindsIn (stop size addr : Nat) (ranges : List Range) (found : Nat) : Prop :=
  if found = null then ∀ other, addr ≤ other → other + size ≤ stop → ¬ ∀ range ∈ ranges, range.Apart size other
  else addr ≤ found ∧ found + size ≤ stop ∧ ∀ range ∈ ranges, range.Apart size found

/-- What does not fit before a range is looked for behind it. -/
theorem FindsIn.behind (late : ¬ addr + size ≤ range.start)
    (finds : FindsIn stop size (if addr < range.top then range.top else addr) rest found) :
    FindsIn stop size addr (range :: rest) found := by
  have low : ∀ other, (if addr < range.top then range.top else addr) ≤ other ↔ addr ≤ other ∧ range.top ≤ other := by
    intro other
    split_ifs <;> omega
  unfold FindsIn at finds ⊢
  simp only [List.forall_mem_cons, low] at finds ⊢
  split_ifs at finds ⊢ with missing
  · rintro other above fits ⟨before | after, others⟩
    · omega
    · exact finds other ⟨above, after⟩ fits others
  · obtain ⟨⟨above, after⟩, fits, others⟩ := finds
    exact ⟨above, fits, .inr after, others⟩

theorem FindsIn.finds {space : Space} (inside : space.start ≤ addr)
    (finds : FindsIn space.stop size addr space.ranges found) : space.Finds addr size found := by
  unfold FindsIn at finds
  unfold Space.Finds Space.Fits
  split_ifs at finds ⊢ with missing
  · exact fun other above fits => finds other above fits.2.1 fits.2.2
  · exact ⟨finds.1, inside.trans finds.1, finds.2⟩

variable (sorted : (range :: rest).Pairwise fun lower upper => lower.top ≤ upper.start)
include sorted

theorem apart_before (before : addr + size ≤ range.start) : ∀ other ∈ range :: rest, other.Apart size addr := by
  refine List.forall_mem_cons.2 ⟨.inl before, fun other member => .inl ?_⟩
  have after := (List.pairwise_cons.1 sorted).1 other member
  unfold Range.top at after
  omega

theorem searchBehind_finds (positive : 0 < size) (late : ¬ addr + size ≤ range.start)
    (inside : ∀ other ∈ range :: rest, 0 < other.size ∧ other.top ≤ stop) :
    FindsIn stop size addr (range :: rest) (searchBehind stop size addr range rest) := by
  induction rest generalizing addr range with
  | nil =>
    refine .behind late ?_
    have above := (inside range List.mem_cons_self).1
    simp only [searchBehind, FindsIn, Range.top, null] at above ⊢
    grind
  | cons next rest ih =>
    refine .behind late ?_
    obtain ⟨nonempty, later⟩ := List.forall_mem_cons.1 inside
    have raised : (if addr < range.top then range.top else addr) ≠ null := by
      unfold null Range.top
      split_ifs <;> omega
    have sorted := (List.pairwise_cons.1 sorted).2
    simp only [searchBehind]
    generalize (if addr < range.top then range.top else addr) = low at raised ⊢
    by_cases fits : low < next.start ∧ next.start - low ≥ size
    · rw [if_pos fits, FindsIn, if_neg raised]
      have next_inside := (later next List.mem_cons_self).2
      unfold Range.top at next_inside
      exact ⟨le_refl low, by omega, apart_before sorted (by omega)⟩
    · rw [if_neg fits]
      exact ih sorted (by omega) later

end Search

/-- The search is right unless it runs in a space without ranges whose end it does not look at, or finds the address
that it returns for none. -/
theorem getfreerange_finds_iff (space : Space) (wellFormed : space.WellFormed) (addr size : Nat)
    (inside : space.start ≤ addr ∧ addr < space.stop) (positive : 0 < size) :
    space.Finds addr size (getfreerange space addr size) ↔
      (space.ranges = [] → addr ≠ null → addr + size ≤ space.stop) ∧ (addr = null → ¬ space.Fits size null) := by
  have given : (if addr = null then space.start else addr) = addr := by
    unfold null
    split_ifs <;> omega
  simp only [getfreerange, given]
  cases listed : space.ranges with
  | nil =>
    unfold Space.Finds Space.Fits null
    simp only [listed, List.not_mem_nil, false_imp_iff, implies_true, and_true, forall_const]
    split_ifs with zero
    · exact ⟨fun none => ⟨fun other => absurd zero other, fun _ => none 0 (by omega)⟩,
        fun never other above fits => never.2 zero (by omega)⟩
    · exact ⟨fun fits => ⟨fun _ => fits.2.2, fun same => absurd same zero⟩,
        fun fits => ⟨le_refl addr, inside.1, fits.1 zero⟩⟩
  | cons range rest =>
    have bounds := wellFormed.inside
    have sorted := wellFormed.sorted
    rw [listed] at bounds sorted
    have first := bounds range List.mem_cons_self
    unfold Range.top at first
    by_cases early : addr + size ≤ range.start
    · have fits : space.Fits size addr := ⟨inside.1, by omega, listed ▸ apart_before sorted early⟩
      dsimp only
      rw [if_pos (by omega), Space.Finds]
      simp only [reduceCtorEq, false_imp_iff, true_and]
      split_ifs with zero
      · subst zero
        exact ⟨fun none => absurd fits (none null (le_refl _)), fun never => absurd fits (never rfl)⟩
      · exact ⟨fun _ same => absurd same zero, fun _ => ⟨le_refl addr, fits⟩⟩
    · dsimp only
      rw [if_neg (by omega)]
      have finds := searchBehind_finds sorted positive early fun other member =>
        ⟨(bounds other member).1, (bounds other member).2.2⟩
      rw [← listed] at finds
      refine iff_of_true (finds.finds inside.1) ⟨fun empty => absurd empty (List.cons_ne_nil _ _), fun zero fits => ?_⟩
      -- nothing below the first range is left for the null address
      obtain before | after := fits.2.2 range (listed ▸ List.mem_cons_self)
      · omega
      · unfold Range.top null at after
        omega

theorem secondGap_found : Space.Finds ⟨0x1000, 0x9000, [⟨0x1000, 0x1000⟩, ⟨0x3000, 0x2000⟩]⟩ 0x1000 0x2000
      (getfreerange ⟨0x1000, 0x9000, [⟨0x1000, 0x1000⟩, ⟨0x3000, 0x2000⟩]⟩ 0x1000 0x2000) :=
  (getfreerange_finds_iff _ ⟨by decide, by decide⟩ 0x1000 0x2000 (by decide) (by decide)).2
    ⟨fun empty => (by cases empty), fun zero => (by cases zero)⟩

/-- A space without ranges gives out addresses behind its end. -/
theorem emptySpace_overrun :
    Space.WellFormed ⟨0x1000, 0x3000, []⟩ ∧ getfreerange ⟨0x1000, 0x3000, []⟩ 0x2000 0x2000 = 0x2000 ∧
      ¬ Space.Finds ⟨0x1000, 0x3000, []⟩ 0x2000 0x2000 (getfreerange ⟨0x1000, 0x3000, []⟩ 0x2000 0x2000) := by
  refine ⟨⟨by decide, by decide⟩, by decide, fun finds => ?_⟩
  have fits := finds.2.2.1
  exact absurd fits (by decide)

namespace Cache

/-- A range that is in use has a size. -/
def Lasting (_ : List Vmmcache) : Event → Prop
  | .resize _ _ size => size ≠ 0
  | _ => True

/-- No entry below the hint is free, and the free ones are counted. -/
structure Vmmcache.Sound (cache : Vmmcache) : Prop where
  below : ∀ index < cache.firstfree, ∀ entry, cache.ranges[index]? = some entry → entry.size ≠ 0
  counts : cache.freecount = cache.ranges.countP (·.size = 0)
  owned : ∀ entry ∈ cache.ranges, entry.owned = true ↔ entry.size ≠ 0

section

variable {cache : Vmmcache} {caches : List Vmmcache}

theorem newcache_sound : newcache.Sound := by
  constructor
  · intro index inside
    cases inside
  · decide
  · intro entry member
    rw [(List.mem_replicate.mp member).2]
    simp

/-- A page with a free entry gives the first one away. -/
theorem take_sound (sound : cache.Sound) (some_free : cache.freecount > 0) :
    Yields (fun _ => False) (take cache) fun (r, next) =>
      next.Sound ∧ ∀ entry, cache.ranges[r]? = some entry → entry.owned = false := by
  obtain ⟨below, counts, owned⟩ := sound
  rw [counts, gt_iff_lt, List.countP_pos_iff] at some_free
  obtain ⟨free, member, empty⟩ := some_free
  obtain ⟨place, found⟩ := List.getElem?_of_mem member
  have late : cache.firstfree ≤ place := by
    by_contra early
    exact below place (by omega) free found (of_decide_eq_true empty)
  unfold take getentrynumber
  cases search : (cache.ranges.drop cache.firstfree).findIdx? (·.size = 0) with
  | none =>
    have none_free := List.findIdx?_eq_none_iff.mp search free
    rw [← Nat.add_sub_cancel' late, ← List.getElem?_drop] at found
    rw [none_free (List.mem_of_getElem? found)] at empty
    cases empty
  | some index =>
    obtain ⟨within, here, first⟩ := List.findIdx?_eq_some_iff_getElem.mp search
    have got := List.getElem?_eq_getElem within
    generalize (cache.ranges.drop cache.firstfree)[index] = entry at got here
    rw [List.getElem?_drop] at got
    refine ⟨⟨?_, ?_, ?_⟩, ?_⟩
    · intro other inside entry found
      rcases eq_or_ne (cache.firstfree + index) other with rfl | different
      · rw [List.getElem?_set_self (List.getElem?_eq_some_iff.mp got).1] at found
        cases found
        decide
      · rw [List.getElem?_set_ne different] at found
        rcases Nat.lt_or_ge other cache.firstfree with early | late
        · exact below other early entry found
        · have before : other - cache.firstfree < index := by
            simp only at inside
            omega
          rw [← Nat.add_sub_cancel' late, ← List.getElem?_drop] at found
          obtain ⟨_, rfl⟩ := List.getElem?_eq_some_iff.mp found
          simpa using first (other - cache.firstfree) before
    · have less : (cache.ranges.set (cache.firstfree + index) ⟨2 ^ 64 - 1, true⟩).countP (·.size = 0) + 1 = _ :=
        countP_less got here rfl
      simp only
      omega
    · exact forall_exchange owned (by simp)
    · intro _ found
      cases got.symm.trans found
      rw [Bool.eq_false_iff, ne_eq, owned entry (List.mem_of_getElem? got)]
      simpa using here

/-- No entry below the hint becomes free when an entry above it does or none does. -/
theorem below_exchange {ranges : List Entry} {hint next place : Nat} {new : Entry}
    (below : ∀ index < hint, ∀ entry, ranges[index]? = some entry → entry.size ≠ 0) (least : next ≤ hint)
    (above : new.size = 0 → next ≤ place) :
    ∀ index < next, ∀ entry, (ranges.set place new)[index]? = some entry → entry.size ≠ 0 := by
  intro index inside entry here
  rcases eq_or_ne place index with rfl | different
  · rw [List.getElem?_set_self'] at here
    obtain ⟨_, _, rfl⟩ := Option.map_eq_some_iff.mp here
    intro empty
    have := above empty
    omega
  · rw [List.getElem?_set_ne different] at here
    exact below index (by omega) entry here

/-- Who owns an entry may change its page where that stays sound. -/
theorem change_sound {new : Vmmcache → Vmmcache} {page place : Nat} (all : ∀ cache ∈ caches, cache.Sound)
    (keeps : ∀ cache : Vmmcache, cache.Sound → ∀ entry, cache.ranges[place]? = some entry → entry.size ≠ 0 →
      (new cache).Sound) :
    Yields (· = .notReady) (change caches page place new) fun next => ∀ cache ∈ next, cache.Sound := by
  fun_cases change caches page place new with
  | case1 cache found owned =>
    obtain ⟨entry, there, owned⟩ := Option.any_eq_true _ _ |>.mp owned
    have sound := all cache (List.mem_of_getElem? found)
    exact forall_exchange all (keeps cache sound entry there ((sound.owned entry (List.mem_of_getElem? there)).mp owned))
  | _ => rfl

theorem freerange_sound {place : Nat} {entry : Entry} (sound : cache.Sound) (found : cache.ranges[place]? = some entry)
    (used : entry.size ≠ 0) : (freerange cache place).Sound := by
  constructor
  · refine below_exchange sound.below ?_ fun _ => ?_
    all_goals
      simp only [freerange]
      split <;> omega
  · rw [freerange, sound.counts]
    exact (countP_more found (decide_eq_false used) rfl).symm
  · exact forall_exchange sound.owned (by simp)

theorem resize_sound {place size : Nat} {entry : Entry} (sound : cache.Sound) (found : cache.ranges[place]? = some entry)
    (used : entry.size ≠ 0) (lasting : size ≠ 0) :
    Vmmcache.Sound { cache with ranges := cache.ranges.set place ⟨size, true⟩ } := by
  constructor
  · exact below_exchange sound.below (le_refl _) fun empty => absurd empty lasting
  · rw [sound.counts]
    exact (countP_same found ((decide_eq_false lasting).trans (decide_eq_false used).symm)).symm
  · exact forall_exchange sound.owned (by simpa using lasting)

/-- The entry is in use. -/
def InUse (caches : List Vmmcache) (page place : Nat) : Prop :=
  ∃ cache entry, caches[page]? = some cache ∧ cache.ranges[place]? = some entry ∧ entry.owned = true

theorem allocrange_sound (memory : Bool) (all : ∀ cache ∈ caches, cache.Sound) :
    Yields (fun _ => False) (allocrange memory caches) fun (found, next) =>
      (∀ cache ∈ next, cache.Sound) ∧ ∀ page place, found = some (page, place) → ¬ InUse caches page place := by
  fun_induction allocrange memory caches with
  | case1 => exact ⟨all, fun page place found => by cases found⟩
  | case2 cache rest free =>
    rw [List.forall_mem_cons] at all
    refine ((take_sound all.1 free).imp fun (r, next) taken => ?_).map
    refine ⟨List.forall_mem_cons.mpr ⟨taken.1, all.2⟩, fun page place found => ?_⟩
    cases found
    rintro ⟨_, owner, ⟨⟩, there, owned⟩
    rw [taken.2 owner there] at owned
    cases owned
  | case3 cache full =>
    refine ((take_sound newcache_sound (by decide)).imp fun (r, next) taken => ?_).map
    refine ⟨forall_added all taken.1, fun page place found => ?_⟩
    cases found
    rintro ⟨_, _, ⟨⟩, _⟩
  | case4 cache rest full _ ih =>
    rw [List.forall_mem_cons] at all
    refine ((ih all.2).imp fun (found, next) later => ?_).map
    refine ⟨List.forall_mem_cons.mpr ⟨all.1, later.1⟩, fun page place shifted => ?_⟩
    obtain ⟨_, found, ⟨⟩⟩ := Option.map_eq_some_iff.mp shifted
    exact later.2 _ _ found

theorem step_sound {event : Event} {next : List Vmmcache} (all : ∀ cache ∈ caches, cache.Sound)
    (lasting : Lasting caches event) (moved : step caches event = .ok next) : ∀ cache ∈ next, cache.Sound := by
  revert moved
  fun_cases step caches event with
  | case1 memory =>
    intro moved
    obtain ⟨_, ran, rfl⟩ := map_ok.mp moved
    exact ((allocrange_sound memory all).of_ok ran).1
  | case2 page place => exact (change_sound all fun _ sound _ => freerange_sound sound).of_ok
  | case3 page place size =>
    exact (change_sound all fun _ sound _ found used => resize_sound sound found used lasting).of_ok

end

/-- The free entries of each page are counted and none lies below its hint, and an entry that is handed out was free. -/
theorem allocrange_unused {caches : List Vmmcache} (reached : Reaches step Lasting [newcache] caches) :
    (∀ cache ∈ caches, cache.Sound) ∧ ∀ memory, ∃ found next, allocrange memory caches = .ok (found, next) ∧
      ∀ page place, found = some (page, place) → ¬ InUse caches page place := by
  have all : ∀ cache ∈ caches, cache.Sound := reached.keeps (fun caches => ∀ cache ∈ caches, cache.Sound)
    (fun _ _ _ => step_sound) (by simpa using newcache_sound)
  refine ⟨all, fun memory => ?_⟩
  have sound := allocrange_sound memory all
  cases ran : allocrange memory caches with
  | error failure => cases sound.of_error ran
  | ok result => exact ⟨result.1, result.2, rfl, (sound.of_ok ran).2⟩

/-- An entry that was given back is handed out again. -/
theorem returned_unused : ∃ caches, [.alloc true, .alloc true, .free 0 0].foldlM step [newcache] = .ok caches ∧
    ∀ memory, ∃ found next, allocrange memory caches = .ok (found, next) ∧
      ∀ page place, found = some (page, place) → ¬ InUse caches page place :=
  ⟨_, rfl, (allocrange_unused (Reaches.of_foldlM [.alloc true, .alloc true, .free 0 0] (by simp [Lasting]) rfl)).2⟩

end Cache

end Astral.FreeRange
