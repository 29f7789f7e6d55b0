import Astral.Construction.Pmm
import Astral.Library.Exchange
import Astral.Proof.Words

namespace Astral.Pmm

open Function Astral.Library

variable {pmm : State} {members : Listing → List Nat} {page : Nat} {other : State} {place : Section} {list : Listing}
  {size last first pagecount : Nat} {entry : Entry} {system : System}

section Lists

/-- The lists are well linked, and each page is in the list that it belongs to. -/
structure Listed (pmm : State) (members : Listing → List Nat) : Prop where
  holds : pmm.lists.Holds members
  tails : ∀ list, pmm.tail list = (members list).getLast?
  placed : ∀ list, ∀ page ∈ members list, list = pmm.listOf page
  counted : pmm.freepagecount = ∑ list, (members list).length

/-- One list changes. -/
theorem Listed.change (listed : Listed pmm members) {place : Listing} {new : List Nat}
    (holds : other.lists.Holds (update members place new)) (backing : other.backing = pmm.backing)
    (tail : other.tail place = new.getLast?) (tails : ∀ list ≠ place, other.tail list = pmm.tail list)
    (placed : ∀ page ∈ new, place = pmm.listOf page)
    (counted : ∀ count, count + (members place).length = pmm.freepagecount + new.length → other.freepagecount = count) :
    Listed other (update members place new) where
  holds := holds
  tails list := by
    by_cases same : list = place
    · rw [same, update_self, tail]
    · rw [update_of_ne same, tails list same, listed.tails]
  placed list page member := by
    unfold State.listOf
    rw [backing]
    by_cases same : list = place
    · rw [same, update_self] at member
      exact same.trans (placed page member)
    · rw [update_of_ne same] at member
      exact listed.placed list page member
  counted := by
    have sum := sum_length_exchange (Finset.mem_univ place) members new
    exact counted _ (by rw [sum, listed.counted])

theorem Listed.insert (listed : Listed pmm members) (outside : ∀ list, page ∉ members list) :
    Listed (pmm.insertinfreelist page) (update members (pmm.listOf page) (page :: members (pmm.listOf page))) := by
  have head := listed.holds.head (pmm.listOf page)
  have tail := listed.tails (pmm.listOf page)
  refine listed.change (listed.holds.push outside _) rfl ?_ (fun list different => ?_)
    (List.forall_mem_cons.mpr ⟨rfl, listed.placed _⟩) (by simp [State.insertinfreelist]; omega)
  · cases old : members (pmm.listOf page) <;> simp_all [State.insertinfreelist]
  · simp only [State.insertinfreelist]
    cases pmm.lists.head (pmm.listOf page) <;> simp [different]

theorem Listed.remove (listed : Listed pmm members) {before after : List Nat}
    (split : members (pmm.listOf page) = before ++ page :: after) :
    Listed (pmm.removefromfreelist page) (update members (pmm.listOf page) (before ++ after)) := by
  have tail := listed.tails (pmm.listOf page)
  have next := listed.holds.next split
  have prev := listed.holds.prev split
  refine listed.change (listed.holds.cut split) rfl ?_ (fun list different => ?_) (fun other member => ?_) ?_
  · cases after <;> simp_all [State.removefromfreelist]
  · simp only [State.removefromfreelist]
    cases pmm.lists.next page <;> simp [different]
  · exact listed.placed _ other (split ▸ ((List.sublist_cons_self page after).append_left before).subset member)
  · simp [State.removefromfreelist, split]
    omega

/-- The lists do not see other fields, nor the vnode behind a page that is in no list. -/
theorem Listed.congr (listed : Listed pmm members) (holds : other.lists.Holds members) (tail : other.tail = pmm.tail)
    (count : other.freepagecount = pmm.freepagecount)
    (backing : ∀ list, ∀ page ∈ members list, other.backing page = pmm.backing page) : Listed other members where
  holds := holds
  tails list := by rw [tail, listed.tails]
  placed list page member := by
    rw [listed.placed list page member]
    unfold State.listOf
    rw [backing list page member]
  counted := by rw [count, listed.counted]

theorem mem_insert_iff {place : Listing} {other : Nat} (different : other ≠ page) :
    other ∈ update members place (page :: members place) list ↔ other ∈ members list := by
  by_cases same : list = place
  · rw [same, update_self]
    simp [different]
  · rw [update_of_ne same]

theorem mem_insert_self (place : Listing) (members : Listing → List Nat) :
    ∃ list, page ∈ update members place (page :: members place) list :=
  ⟨place, by rw [update_self]; exact List.mem_cons_self⟩

end Lists

section Parts

/-- A managed page is in a list, has a reference or is away. -/
structure Proper (managed away listed : Prop) (count : Nat) (flag backed : Bool) : Prop where
  free : listed → count = 0 ∧ managed ∧ ¬ away
  held : managed → ¬ away → ¬ listed → 0 < count
  absent : away → count = 0 ∧ managed
  flagged : flag = true → count = 0 ∧ backed = false ∧ managed
  unmanaged : ¬ managed → count = 0 ∧ backed = false

/-- Every managed page is in the list that it belongs to or has a reference, except for the pages that are away. -/
structure Partition (pmm : State) (managed : Nat → Prop) (members : Listing → List Nat) (away : Nat → Prop) : Prop where
  listed : Listed pmm members
  proper : ∀ page, Proper (managed page) (away page) (∃ list, page ∈ members list) (pmm.refcount page) (pmm.free page)
    (pmm.backing page)

variable {managed away : Nat → Prop}

section

variable (partition : Partition pmm managed members away)
include partition

theorem Partition.free (list : Listing) (page : Nat) (member : page ∈ members list) :
    pmm.refcount page = 0 ∧ managed page ∧ ¬ away page :=
  (partition.proper page).free ⟨list, member⟩

theorem Partition.managed_of_pos (positive : 0 < pmm.refcount page) : managed page := by
  by_contra other
  have zero := ((partition.proper page).unmanaged other).1
  omega

theorem Partition.unlisted_of_pos (positive : 0 < pmm.refcount page) (list : Listing) : page ∉ members list := by
  intro member
  have zero := (partition.free list page member).1
  omega

theorem Partition.unlisted_of_away (gone : away page) (list : Listing) : page ∉ members list :=
  fun member => (partition.free list page member).2.2 gone

/-- What is known of one page changes. -/
theorem Partition.change {more : Listing → List Nat} {known gone : Nat → Prop} (listed : Listed other more)
    (here : Proper (known page) (gone page) (∃ list, page ∈ more list) (other.refcount page) (other.free page)
      (other.backing page))
    (elsewhere : ∀ next, next ≠ page → (other.refcount next = pmm.refcount next ∧ other.free next = pmm.free next ∧
      other.backing next = pmm.backing next) ∧ (known next ↔ managed next) ∧ (gone next ↔ away next) ∧
        ∀ list, next ∈ more list ↔ next ∈ members list) : Partition other known more gone := by
  refine ⟨listed, fun next => ?_⟩
  by_cases same : next = page
  · rw [same]
    exact here
  · obtain ⟨⟨count, flag, backed⟩, known_same, gone_same, lists⟩ := elsewhere next same
    simp only [count, flag, backed, known_same, gone_same, lists]
    exact partition.proper next

/-- A page is taken out of its list. -/
theorem Partition.take (member : page ∈ members list) :
    ∃ rest, Partition (pmm.removefromfreelist page) managed rest fun other => other = page ∨ away other := by
  have place := partition.listed.placed list page member
  rw [place] at member
  obtain ⟨before, after, split⟩ := List.append_of_mem member
  obtain ⟨unused, known, present⟩ := partition.free _ page member
  have outside := partition.listed.holds.cut_outside split
  have kept {other : Nat} (different : other ≠ page) (list : Listing) :
      other ∈ update members (pmm.listOf page) (before ++ after) list ↔ other ∈ members list := by
    by_cases same : list = pmm.listOf page
    · rw [same, update_self, split]
      simp [different]
    · rw [update_of_ne same]
  refine ⟨_, partition.change (partition.listed.remove split) ?_ fun other different =>
    ⟨⟨rfl, rfl, rfl⟩, Iff.rfl, by simp [different], kept different⟩⟩
  exact ⟨fun inside => absurd inside (not_exists.mpr outside), fun _ present => absurd (.inl rfl) present,
    fun _ => ⟨unused, known⟩, (partition.proper page).flagged, (partition.proper page).unmanaged⟩

/-- A page is put into its list. -/
theorem Partition.put (gone : away page) :
    ∃ more, Partition (pmm.putback page) managed more fun other => away other ∧ other ≠ page := by
  obtain ⟨unused, known⟩ := (partition.proper page).absent gone
  have listed := partition.listed.insert (partition.unlisted_of_away gone)
  refine ⟨_, partition.change (listed.congr listed.holds rfl rfl fun _ _ _ => rfl) ?_ fun other different =>
    ⟨⟨rfl, ?_, rfl⟩, Iff.rfl, by simp [different], fun _ => mem_insert_iff different⟩⟩
  · refine ⟨fun _ => ⟨unused, known, by simp⟩, fun _ _ unlisted => absurd (mem_insert_self _ members) unlisted,
      fun gone => absurd rfl gone.2, fun flag => ?_, (partition.proper page).unmanaged⟩
    simp only [State.putback] at flag
    split at flag
    · exact (partition.proper page).flagged flag
    · next anonymous => exact ⟨unused, eq_false_of_ne_true anonymous, known⟩
  · simp only [State.putback]
    split
    · rfl
    · exact update_of_ne different ..

theorem Partition.recount {count : Nat} {gone : Nat → Prop} (elsewhere : ∀ next ≠ page, (gone next ↔ away next))
    (here : Proper (managed page) (gone page) (∃ list, page ∈ members list) count (pmm.free page) (pmm.backing page)) :
    Partition (pmm.setRefcount page count) managed members gone := by
  refine partition.change (partition.listed.congr partition.listed.holds rfl rfl fun _ _ _ => rfl) ?_
    fun other different => ⟨⟨update_of_ne different .., rfl, rfl⟩, Iff.rfl, elsewhere other different, fun _ => Iff.rfl⟩
  rw [show (pmm.setRefcount page count).refcount page = count from update_self ..]
  exact here

/-- A page that has or gets a reference is in no list. -/
theorem Partition.count (unlisted : ∀ list, page ∉ members list) (known : managed page)
    (unflagged : pmm.free page = false) {count : Nat} (positive : 0 < count) :
    Partition (pmm.setRefcount page count) managed members fun other => away other ∧ other ≠ page := by
  refine partition.recount (fun other different => by simp [different]) ?_
  exact ⟨fun inside => absurd inside (not_exists.mpr unlisted), fun _ _ _ => positive, fun gone => absurd rfl gone.2,
    fun flag => absurd flag (ne_true_of_eq_false unflagged), fun unknown => absurd known unknown⟩

/-- The last reference of a page is dropped. -/
theorem Partition.drop (positive : 0 < pmm.refcount page) :
    Partition (pmm.setRefcount page 0) managed members fun other => other = page ∨ away other := by
  have known := partition.managed_of_pos positive
  have unlisted := partition.unlisted_of_pos positive
  refine partition.recount (fun other different => by simp [different]) ?_
  exact ⟨fun inside => absurd inside (not_exists.mpr unlisted), fun _ present => absurd (.inl rfl) present,
    fun _ => ⟨rfl, known⟩, fun flag => ⟨rfl, ((partition.proper page).flagged flag).2⟩,
    fun unknown => absurd known unknown⟩

/-- The other fields of a page that is in no list may change. -/
theorem Partition.touch (known : managed page) (other : State) (holds : other.lists.Holds members)
    (tail : other.tail = pmm.tail) (freepagecount : other.freepagecount = pmm.freepagecount)
    (refcount : other.refcount = pmm.refcount) (unlisted : ∀ list, page ∉ members list)
    (backing : ∀ next, next ≠ page → other.backing next = pmm.backing next)
    (free : ∀ next, next ≠ page → other.free next = pmm.free next) (unflagged : other.free page = false) :
    Partition other managed members away := by
  refine partition.change (partition.listed.congr holds tail freepagecount ?_) ?_ fun next different =>
    ⟨⟨congrFun refcount next, free next different, backing next different⟩, Iff.rfl, Iff.rfl, fun _ => Iff.rfl⟩
  · intro list next member
    apply backing
    rintro rfl
    exact unlisted list member
  · rw [refcount]
    exact ⟨fun inside => absurd inside (not_exists.mpr unlisted),
      (partition.proper page).held, (partition.proper page).absent,
      fun flag => absurd flag (ne_true_of_eq_false unflagged), fun unknown => absurd known unknown⟩

theorem Partition.wipe (known : managed page) (unlisted : ∀ list, page ∉ members list) :
    Partition (pmm.wipe page) managed members away := by
  apply partition.touch known (pmm.wipe page) (partition.listed.holds.clear unlisted) rfl rfl rfl unlisted
  · intro next different
    exact update_of_ne different ..
  · intro next different
    exact update_of_ne different ..
  · exact update_self ..

/-- The vnode behind a held page may change. -/
theorem Partition.setBacking (positive : 0 < pmm.refcount page) (present : Bool) :
    Partition (pmm.setBacking page present) managed members away := by
  apply partition.touch (partition.managed_of_pos positive) (pmm.setBacking page present) partition.listed.holds
    rfl rfl rfl (partition.unlisted_of_pos positive)
  · intro next different
    exact update_of_ne different ..
  · intro next _
    rfl
  · by_contra flag
    have zero := ((partition.proper page).flagged (eq_true_of_ne_false flag)).1
    omega

/-- A page that was taken out is handed out. -/
theorem Partition.doalloc (gone : away page) : pmm.doalloc page = .ok ((pmm.wipe page).setRefcount page 1) ∧
      Partition ((pmm.wipe page).setRefcount page 1) managed members fun other => away other ∧ other ≠ page := by
  obtain ⟨unused, known⟩ := (partition.proper page).absent gone
  have outside := partition.unlisted_of_away gone
  refine ⟨if_neg (not_not_intro unused), ?_⟩
  exact (partition.wipe known outside).count outside known (update_self ..) Nat.one_pos

/-- A page that was not managed is put into its list. -/
theorem Partition.adopt (new : ¬ managed page) :
    ∃ more, Partition (pmm.insertinfreelist page) (fun other => other = page ∨ managed other) more away := by
  obtain ⟨unused, anonymous⟩ := (partition.proper page).unmanaged new
  have outside (list : Listing) : page ∉ members list := fun member => new (partition.free list page member).2.1
  refine ⟨_, partition.change (partition.listed.insert outside) ?_ fun other different =>
    ⟨⟨rfl, rfl, rfl⟩, by simp [different], Iff.rfl, fun _ => mem_insert_iff different⟩⟩
  exact ⟨fun _ => ⟨unused, .inl rfl, fun gone => new ((partition.proper page).absent gone).2⟩,
    fun _ _ unlisted => absurd (mem_insert_self _ members) unlisted,
    fun gone => absurd ((partition.proper page).absent gone).2 new,
    fun flag => absurd ((partition.proper page).flagged flag).2.2 new, fun unknown => absurd (.inl rfl) unknown⟩

end

end Parts

section Marks

/-- The search for marked pages starts early enough for the page, which is marked whenever it is free. -/
structure Marked (pmm : State) (page : Nat) : Prop where
  inside : page < min (topid (sectionOf page)) pmm.pagecount
  early : pmm.searchstart (sectionOf page) ≤ page
  marked : pmm.refcount page = 0 → pmm.backing page = false → pmm.free page = true

def KeepsMarks (pmm next : State) : Prop := ∀ page, Marked pmm page → Marked next page

theorem KeepsMarks.trans {middle next : State} (first : KeepsMarks pmm middle) (second : KeepsMarks middle next) :
    KeepsMarks pmm next :=
  fun page marked => second page (first page marked)

theorem keeps_remove (pmm : State) (page : Nat) : KeepsMarks pmm (pmm.removefromfreelist page) :=
  fun _ kept => ⟨kept.inside, kept.early, kept.marked⟩

theorem keeps_count {count : Nat} (positive : 0 < count) : KeepsMarks pmm (pmm.setRefcount page count) := by
  refine fun other kept => ⟨kept.inside, kept.early, fun zero => kept.marked ?_⟩
  simp only [State.setRefcount, update_apply] at zero
  grind

theorem keeps_setBacking (positive : 0 < pmm.refcount page) (present : Bool) :
    KeepsMarks pmm (pmm.setBacking page present) := by
  refine fun other kept => ⟨kept.inside, kept.early, fun zero anonymous => kept.marked zero ?_⟩
  simp only [State.setBacking, update_apply] at zero anonymous
  grind

theorem keeps_give (pmm : State) (page : Nat) : KeepsMarks pmm ((pmm.wipe page).setRefcount page 1) := by
  refine fun other kept => ⟨kept.inside, kept.early, fun zero anonymous => ?_⟩
  have marked := kept.marked
  simp only [State.setRefcount, State.wipe, update_apply] at zero anonymous ⊢
  grind

/-- The search starts no later than before, nor behind the page. -/
theorem insert_early (pmm : State) (page : Nat) (part : Section) :
    (pmm.insertinfreelist page).searchstart part ≤ pmm.searchstart part ∧
      (pmm.insertinfreelist page).searchstart (sectionOf page) ≤ page := by
  simp only [State.insertinfreelist, update_apply]
  split <;> simp_all

theorem keeps_insert (pmm : State) (page : Nat) : KeepsMarks pmm (pmm.insertinfreelist page) :=
  fun _ kept => ⟨kept.inside, (insert_early pmm page _).1.trans kept.early, kept.marked⟩

theorem keeps_release (pmm : State) (page : Nat) : KeepsMarks pmm ((pmm.setRefcount page 0).putback page) := by
  refine fun other kept => ⟨kept.inside, (insert_early _ page _).1.trans kept.early, fun zero anonymous => ?_⟩
  have marked := kept.marked
  simp only [State.putback, State.insertinfreelist, State.setRefcount, update_apply] at zero anonymous ⊢
  grind

theorem keeps_usable (pmm : State) (page : Nat) : KeepsMarks pmm (pmm.insertUsable page) := by
  refine fun other kept => ⟨kept.inside, (insert_early _ page _).1.trans kept.early, fun zero anonymous => ?_⟩
  have marked := kept.marked zero anonymous
  simp only [State.insertUsable, State.insertinfreelist, update_apply]
  grind

/-- The pages of the start are marked. -/
theorem foldl_marked (pages : List Nat) (inside : ∀ page ∈ pages, page < min (topid (sectionOf page)) pmm.pagecount) :
    ∀ page ∈ pages, Marked (pages.foldl State.insertUsable pmm) page := by
  induction pages generalizing pmm with
  | nil => exact nofun
  | cons first rest ih =>
    obtain ⟨here, later⟩ := List.forall_mem_cons.mp inside
    refine List.forall_mem_cons.mpr ⟨?_, ih later⟩
    refine List.foldlRecOn rest _ (motive := fun next => Marked next first) ?_ fun next kept page _ =>
      keeps_usable next page first kept
    exact ⟨here, (insert_early _ first (sectionOf first)).2, fun _ _ => update_self ..⟩

end Marks

section Calls

/-- All managed pages are in their places. -/
def Settled (pmm : State) (managed : Nat → Prop) : Prop := ∃ members, Partition pmm managed members fun _ => False

theorem Partition.settle (partition : Partition pmm managed members away) (back : ∀ other, ¬ away other) :
    Settled pmm managed := by
  refine ⟨members, ?_⟩
  have none_away : away = fun _ => False := by
    funext other
    simp [back other]
  rw [none_away] at partition
  exact partition

theorem Partition.listed_of_zero (partition : Partition pmm managed members away) (known : managed page)
    (present : ¬ away page) (zero : pmm.refcount page = 0) : page ∈ members (pmm.listOf page) := by
  by_contra absent
  have positive := (partition.proper page).held known present fun ⟨list, member⟩ =>
    absent (partition.listed.placed list page member ▸ member)
  omega

theorem away_without (present : ¬ away page) : (fun other => away other ∧ other ≠ page) = away := by
  funext other
  simp only [eq_iff_iff, and_iff_left_iff_imp]
  rintro gone rfl
  exact present gone

/-- A page goes away and comes back. -/
theorem away_again (present : ¬ away page) : (fun other => (other = page ∨ away other) ∧ other ≠ page) = away := by
  rw [← away_without present]
  funext other
  apply propext
  tauto

/-- A managed page gets one more reference. -/
theorem Partition.internalhold (partition : Partition pmm managed members away) (known : managed page)
    (present : ¬ away page) (unflagged : pmm.free page = false) : ∃ next, pmm.internalhold page = .ok next ∧
      next.refcount = update pmm.refcount page (pmm.refcount page + 1) ∧ KeepsMarks pmm next ∧
      ∃ rest, Partition next managed rest away := by
  have self : (pmm.setRefcount page (pmm.refcount page + 1)).refcount page = pmm.refcount page + 1 := update_self ..
  unfold State.internalhold
  simp only [self]
  by_cases zero : pmm.refcount page = 0
  · obtain ⟨rest, taken⟩ := partition.take (partition.listed_of_zero known present zero)
    have counted := taken.count (taken.unlisted_of_away (.inl rfl)) known unflagged (Nat.succ_pos (pmm.refcount page))
    rw [away_again present] at counted
    have passes : ¬ (pmm.setRefcount page (pmm.refcount page + 1)).free page = true := by
      show ¬ pmm.free page = true
      simp [unflagged]
    rw [if_pos (by omega), if_neg passes]
    exact ⟨_, rfl, rfl, (keeps_count (Nat.succ_pos _)).trans (keeps_remove _ page), rest, counted⟩
  · have unlisted := partition.unlisted_of_pos (Nat.pos_of_ne_zero zero)
    have counted := partition.count unlisted known unflagged (Nat.succ_pos (pmm.refcount page))
    rw [away_without present] at counted
    rw [if_neg (by omega)]
    exact ⟨_, rfl, rfl, keeps_count (Nat.succ_pos _), members, counted⟩

theorem Settled.hold (settled : Settled pmm managed) (known : managed page) :
    Yields (fun _ => True) (pmm.pmmHold page) fun next => Settled next managed ∧ KeepsMarks pmm next := by
  obtain ⟨members, partition⟩ := settled
  cases flag : pmm.free page with
  | false =>
    obtain ⟨next, ran, _, marks, rest, after⟩ := partition.internalhold known not_false flag
    unfold State.pmmHold
    rw [ran]
    exact ⟨⟨rest, after⟩, marks⟩
  | true =>
    have zero := ((partition.proper page).flagged flag).1
    have self : (pmm.setRefcount page (pmm.refcount page + 1)).refcount page = 1 := by
      rw [zero]
      exact update_self ..
    unfold State.pmmHold State.internalhold
    simp only [self, if_true]
    rw [if_pos (show (pmm.setRefcount page _).free page = true from flag)]
    trivial

theorem Settled.release (settled : Settled pmm managed) :
    Yields (fun _ => True) (pmm.pmmRelease page) fun next => Settled next managed ∧ KeepsMarks pmm next := by
  obtain ⟨members, partition⟩ := settled
  have self : (pmm.setRefcount page (pmm.refcount page - 1)).refcount page = pmm.refcount page - 1 := update_self ..
  unfold State.pmmRelease
  by_cases zero : pmm.refcount page = 0
  · rw [if_pos zero]
    trivial
  · have positive := Nat.pos_of_ne_zero zero
    rw [if_neg zero]
    simp only [self]
    by_cases last : pmm.refcount page - 1 = 0
    · rw [if_pos last, last]
      obtain ⟨more, put⟩ := (partition.drop positive).put (.inl rfl)
      exact ⟨put.settle (by tauto), keeps_release pmm page⟩
    · rw [if_neg last]
      have unflagged : pmm.free page = false := by
        by_contra flag
        exact zero ((partition.proper page).flagged (eq_true_of_ne_false flag)).1
      exact ⟨(partition.count (partition.unlisted_of_pos positive) (partition.managed_of_pos positive) unflagged
        (Nat.pos_of_ne_zero last)).settle (by tauto), keeps_count (Nat.pos_of_ne_zero last)⟩

/-- A page of a list is handed out. -/
theorem Partition.takeOut (partition : Partition pmm managed members fun _ => False) (member : page ∈ members list) :
    ∃ next, pmm.takeOut page = .ok next ∧ Settled next managed ∧ KeepsMarks pmm next ∧
      next.refcount = update pmm.refcount page 1 ∧ next.free = update pmm.free page false := by
  obtain ⟨rest, taken⟩ := partition.take member
  obtain ⟨ran, after⟩ := taken.doalloc (.inl rfl)
  exact ⟨_, ran, after.settle (by tauto), (keeps_remove pmm page).trans (keeps_give _ page), rfl, rfl⟩

theorem head_mem (listed : Listed pmm members) (found : pmm.firstFree place = some page) :
    ∃ list, page ∈ members list := by
  obtain ⟨part, _, head⟩ := List.exists_of_findSome?_eq_some found
  rw [listed.holds.head] at head
  exact ⟨_, List.mem_of_mem_head? head⟩

theorem tail_mem (listed : Listed pmm members) (found : pmm.lastStandby place = some page) :
    ∃ part, page ∈ members (true, part) := by
  obtain ⟨part, _, tail⟩ := List.exists_of_findSome?_eq_some found
  rw [listed.tails] at tail
  exact ⟨part, List.mem_of_getLast? tail⟩

/-- A single page is allocated at the first try. -/
theorem Settled.allocpage (settled : Settled pmm managed) (place : Section) (fuel : Nat) :
    ∃ ret next, pmm.pmmAllocpage place (fuel + 1) = .ok (ret, next) ∧ Settled next managed ∧ KeepsMarks pmm next := by
  obtain ⟨members, partition⟩ := settled
  unfold State.pmmAllocpage
  cases free : pmm.firstFree place with
  | some page =>
    obtain ⟨list, member⟩ := head_mem partition.listed free
    have zero : (pmm.removefromfreelist page).refcount page = 0 := (partition.free list page member).1
    obtain ⟨next, ran, after, marks, _⟩ := partition.takeOut member
    have ran : (pmm.removefromfreelist page).doalloc page = .ok next := ran
    simp only [zero, ne_eq, not_true_eq_false, if_false, ran]
    exact ⟨some page, next, rfl, after, marks⟩
  | none =>
    cases standby : pmm.lastStandby place with
    | none => exact ⟨none, pmm, rfl, ⟨members, partition⟩, fun _ => id⟩
    | some page =>
      obtain ⟨part, member⟩ := tail_mem partition.listed standby
      obtain ⟨zero, known, _⟩ := partition.free _ page member
      have backed : pmm.backing page = true := (congrArg Prod.fst (partition.listed.placed _ page member)).symm
      have unflagged : pmm.free page = false := by
        by_contra flag
        have anonymous := ((partition.proper page).flagged (eq_true_of_ne_false flag)).2.1
        rw [backed] at anonymous
        cases anonymous
      obtain ⟨held, ran, counts, marks, rest, after⟩ := partition.internalhold known not_false unflagged
      have one : held.refcount page = 1 := by
        rw [counts, zero]
        exact update_self ..
      have takes : held.vmmcacheTakepage page = .ok true := by
        unfold State.vmmcacheTakepage
        simp [one]
      obtain ⟨done, final⟩ := (after.drop (by omega : 0 < held.refcount page)).doalloc (.inl rfl)
      have given : ((held.setRefcount page 0).wipe page).setRefcount page 1 = (held.wipe page).setRefcount page 1 := by
        simp [State.setRefcount, State.wipe]
      rw [given] at done final
      simp only [ran, bind, Except.bind, takes, if_true, done]
      exact ⟨some page, _, rfl, final.settle (by tauto), marks.trans (keeps_give held page)⟩

/-- The pages that a scan has found are free. -/
theorem scan_free (count start found : Nat) (few : found < size) (behind : found ≤ start)
    (counted : ∀ back < found, pmm.free (start - 1 - back) = true)
    (result : pmm.scan size count start found = some last) :
    size ≤ last + 1 ∧ ∀ back < size, pmm.free (last - back) = true := by
  induction count generalizing start found with
  | zero => cases result
  | succ count ih =>
    unfold State.scan at result
    cases flag : pmm.free start with
    | false =>
      simp only [flag, Bool.false_eq_true, if_false] at result
      rw [if_neg (by omega)] at result
      exact ih (start + 1) 0 (by omega) (by omega) (by simp) result
    | true =>
      simp only [flag, if_true] at result
      have all (back : Nat) (inside : back < found + 1) : pmm.free (start - back) = true := by
        cases back with
        | zero => exact flag
        | succ back =>
          have earlier := counted back (by omega)
          rw [show start - (back + 1) = start - 1 - back by omega]
          exact earlier
      by_cases enough : found + 1 = size
      · rw [if_pos enough] at result
        cases result
        rw [← enough]
        exact ⟨by omega, all⟩
      · rw [if_neg enough] at result
        apply ih (start + 1) (found + 1) (by omega) (by omega) _ result
        intro back inside
        rw [show start + 1 - 1 - back = start - back by omega]
        exact all back inside

theorem allocMany_pages (positive : 0 < size)
    (found : (State.downFrom place).findSome? (pmm.scanSection size) = some last) :
    ∀ page ∈ List.range' (last - (size - 1)) size, pmm.free page = true := by
  obtain ⟨part, _, result⟩ := List.exists_of_findSome?_eq_some found
  obtain ⟨room, free⟩ := scan_free _ _ 0 positive (Nat.zero_le _) (by simp) result
  intro page member
  rw [List.mem_range'_1] at member
  have here := free (last - page) (by omega)
  rw [show last - (last - page) = page by omega] at here
  exact here

/-- The scan ends at the latest behind enough marked pages. -/
theorem scan_some (marked : ∀ page ∈ List.range' first size, pmm.free page = true) (count start found : Nat)
    (few : found < size) (ahead : start ≤ first + found) (room : first + size ≤ start + count) :
    pmm.scan size count start found ≠ none := by
  induction count generalizing start found with
  | zero => omega
  | succ count ih =>
    unfold State.scan
    cases flag : pmm.free start with
    | false =>
      have outside : ¬ (first ≤ start ∧ start < first + size) := by
        rw [← List.mem_range'_1]
        intro member
        rw [marked start member] at flag
        cases flag
      simp only [Bool.false_eq_true, if_false]
      rw [if_neg (by omega)]
      exact ih (start + 1) 0 (by omega) (by omega) (by omega)
    | true =>
      simp only [if_true]
      split
      · exact Option.some_ne_none _
      · exact ih (start + 1) (found + 1) (by omega) (by omega) (by omega)

section

variable (settled : Settled pmm managed)
include settled

/-- Free pages are handed out one after another. -/
theorem Settled.takeAll (pages : List Nat) (distinct : pages.Nodup)
    (free : ∀ page ∈ pages, pmm.free page = true) :
    ∃ next, pages.foldlM State.takeOut pmm = .ok next ∧ Settled next managed ∧ KeepsMarks pmm next ∧
      ∀ page, next.refcount page = if page ∈ pages then 1 else pmm.refcount page := by
  induction pages generalizing pmm with
  | nil => exact ⟨pmm, rfl, settled, fun _ => id, by simp⟩
  | cons page rest ih =>
    obtain ⟨members, partition⟩ := settled
    obtain ⟨zero, _, known⟩ := (partition.proper page).flagged (free page List.mem_cons_self)
    obtain ⟨next, ran, after, marks, counts, flags⟩ := partition.takeOut (partition.listed_of_zero known not_false zero)
    obtain ⟨new, later⟩ := List.nodup_cons.mp distinct
    obtain ⟨last, rest_ran, final, more, given⟩ := ih after later (by
      intro other inside
      rw [flags, update_of_ne (by rintro rfl; exact new inside)]
      exact free other (List.mem_cons_of_mem _ inside))
    refine ⟨last, ?_, final, marks.trans more, fun other => ?_⟩
    · rw [List.foldlM_cons, ran]
      exact rest_ran
    · rw [given, counts, update_apply]
      grind

theorem Settled.alloc (positive : 0 < size) (place : Section) (fuel : Nat) :
    ∃ ret next, pmm.pmmAlloc (fuel + 1) size place = .ok (ret, next) ∧ Settled next managed ∧ KeepsMarks pmm next := by
  unfold State.pmmAlloc
  rw [if_neg (by omega)]
  by_cases single : size = 1
  · rw [if_pos single]
    exact settled.allocpage place fuel
  · rw [if_neg single]
    unfold State.allocMany
    cases found : (State.downFrom place).findSome? (pmm.scanSection size) with
    | none => exact ⟨none, pmm, rfl, settled, fun _ => id⟩
    | some last =>
      obtain ⟨next, ran, after, marks, _⟩ := settled.takeAll _ (List.nodup_range' 1) (allocMany_pages positive found)
      simp only [ran]
      exact ⟨_, next, rfl, after, marks⟩

theorem Settled.free (first size : Nat) :
    Yields (fun _ => True) (pmm.pmmFree first size) fun next => Settled next managed ∧ KeepsMarks pmm next := by
  unfold State.pmmFree
  split
  · trivial
  · refine Yields.foldlM (fun next page (kept : Settled next managed ∧ KeepsMarks pmm next) => ?_) _
      ⟨settled, fun _ => id⟩
    exact kept.1.release.imp fun after both => ⟨both.1, kept.2.trans both.2⟩

/-- A loop that takes over one page after another. -/
theorem Settled.adoptAll {insert : State → Nat → State}
    (adopts : ∀ (pmm : State) (managed : Nat → Prop) (page : Nat), Settled pmm managed → ¬ managed page →
      Settled (insert pmm page) fun other => other = page ∨ managed other)
    (pages : List Nat) (distinct : pages.Nodup) (new : ∀ page ∈ pages, ¬ managed page) :
    Settled (pages.foldl insert pmm) fun page => page ∈ pages ∨ managed page := by
  induction pages generalizing pmm managed with
  | nil =>
    simp only [List.foldl_nil, List.not_mem_nil, false_or]
    exact settled
  | cons page rest ih =>
    obtain ⟨outside, later⟩ := List.nodup_cons.mp distinct
    have adopted := adopts pmm managed page settled (new page List.mem_cons_self)
    have final := ih adopted later (by
      intro other inside known
      rcases known with same | old
      · rw [same] at inside
        exact outside inside
      · exact new other (List.mem_cons_of_mem _ inside) old)
    simpa only [List.foldl_cons, List.mem_cons, or_assoc, or_left_comm] using final

theorem Settled.adopt (new : ¬ managed page) :
    Settled (pmm.insertinfreelist page) fun other => other = page ∨ managed other := by
  obtain ⟨members, partition⟩ := settled
  exact partition.adopt new

/-- A page that is taken over at the start is marked as free. -/
theorem Settled.insertUsable (new : ¬ managed page) :
    Settled (pmm.insertUsable page) fun other => other = page ∨ managed other := by
  obtain ⟨members, partition⟩ := settled
  obtain ⟨unused, anonymous⟩ := (partition.proper page).unmanaged new
  obtain ⟨more, adopted⟩ := partition.adopt new
  have listed : Listed (pmm.insertUsable page) more :=
    adopted.listed.congr adopted.listed.holds rfl rfl fun _ _ _ => rfl
  have proper := adopted.proper page
  exact ⟨more, adopted.change listed
    ⟨proper.free, proper.held, proper.absent, fun _ => ⟨unused, anonymous, .inl rfl⟩, proper.unmanaged⟩
    fun other different => ⟨⟨rfl, update_of_ne different .., rfl⟩, Iff.rfl, Iff.rfl, fun _ => Iff.rfl⟩⟩

end

end Calls

section Start

theorem empty_settled (pagecount : Nat) : Settled (State.empty pagecount) fun _ => False := by
  refine ⟨fun _ => [], ⟨Chains.holds_empty, ?_, ?_, ?_⟩, fun page => ⟨?_, ?_, ?_, ?_, ?_⟩⟩
  all_goals simp [State.empty]

/-- The usable entries do not overlap, and the memory ends below eight terabytes. -/
structure Regular (entries : List Entry) : Prop where
  apart : entries.Pairwise fun one two => one.type = .usable → two.type = .usable →
    one.limit ≤ two.base ∨ two.limit ≤ one.base
  low : memoryTop entries ≤ 2 ^ 43

theorem top_bounds (entries : List Entry) (start : Nat) :
    start ≤ entries.foldl (fun top entry => if entry.type = .other then top else max top entry.limit) start ∧
      ∀ entry ∈ entries, entry.type = .usable →
        entry.limit ≤ entries.foldl (fun top entry => if entry.type = .other then top else max top entry.limit) start := by
  induction entries generalizing start with
  | nil => simp
  | cons first rest ih =>
    rw [List.foldl_cons]
    obtain ⟨grows, covers⟩ := ih (if first.type = .other then start else max start first.limit)
    refine ⟨?_, ?_⟩
    · apply Nat.le_trans _ grows
      split
      · exact Nat.le_refl _
      · exact Nat.le_max_left ..
    · intro entry member usable
      rcases List.mem_cons.mp member with same | later
      · rw [same] at usable ⊢
        rw [usable, if_neg (by decide)] at grows ⊢
        omega
      · exact covers entry later usable

theorem limit_le_top {entries : List Entry} (member : entry ∈ entries) (usable : entry.type = .usable) :
    entry.limit ≤ memoryTop entries :=
  (top_bounds entries 0).2 entry member usable

/-- The counter of the loop does not wrap. -/
theorem mem_intRange {bound : Nat} (small : first < 2 ^ 32) (member : page ∈ intRange first bound) :
    first ≤ page ∧ page < bound := by
  unfold intRange at member
  split at member
  · rw [List.mem_range'_1] at member
    omega
  · cases member

theorem mem_usablePages {holdsArray : Bool} (small : pagecount ≤ 2 ^ 31) (low : entry.limit ≤ 2 ^ 43)
    (member : page ∈ usablePages pagecount holdsArray entry) :
    entry.base / 4096 ≤ page ∧ page < entry.limit / 4096 := by
  have base : entry.base ≤ 2 ^ 43 := Nat.le_trans (Nat.le_add_right ..) low
  unfold usablePages at member
  simp only [toppage_small (show entry.base + pagecount * sizeofPage < 2 ^ 63 by unfold sizeofPage; omega)] at member
  unfold pageSize sizeofPage at member
  cases holdsArray with
  | false =>
    exact mem_intRange (by omega) member
  | true =>
    simp only [if_true] at member
    obtain ⟨above, below⟩ := mem_intRange (by omega) member
    exact ⟨by omega, below⟩

theorem usablePages_distinct (pagecount : Nat) (holdsArray : Bool) (entry : Entry) :
    (usablePages pagecount holdsArray entry).Nodup := by
  have distinct (first bound : Nat) : (intRange first bound).Nodup := by
    unfold intRange
    split
    · exact List.nodup_range' 1
    · exact List.nodup_nil
  unfold usablePages
  split <;> exact distinct ..

variable {entries : List Entry} (regular : Regular entries)
include regular

/-- The pages that an entry gives are its own. -/
theorem mem_entryPages {array : Nat} (small : pagecount ≤ 2 ^ 31) {pair : Entry × Nat} (inside : pair ∈ entries.zipIdx)
    (found : page ∈ if pair.1.type = .usable then usablePages pagecount (pair.2 = array) pair.1 else []) :
    (pair.1.type = .usable ∧ pair.1.limit ≤ memoryTop entries) ∧
      pair.1.base / 4096 ≤ page ∧ page < pair.1.limit / 4096 := by
  split at found
  · next usable =>
    have entry : pair.1 ∈ entries := (List.mem_zipIdx' inside).2 ▸ List.getElem_mem _
    have low := limit_le_top entry usable
    exact ⟨⟨usable, low⟩, mem_usablePages small (Nat.le_trans low regular.low) found⟩
  · cases found

theorem initialPages_distinct (small : pagecount ≤ 2 ^ 31) (array : Nat) :
    (initialPages entries pagecount array).Nodup := by
  have apart := regular.apart
  rw [← List.zipIdx_map_fst 0 entries, List.pairwise_map] at apart
  unfold initialPages
  apply List.nodup_flatMap.mpr
  refine ⟨?_, ?_⟩
  · intro (entry, index) _
    dsimp only
    split
    · exact usablePages_distinct ..
    · exact List.nodup_nil
  · apply apart.imp_of_mem
    intro one two in_one in_two separate page here there
    obtain ⟨⟨one_usable, _⟩, one_above, one_below⟩ := mem_entryPages regular small in_one here
    obtain ⟨⟨two_usable, _⟩, two_above, two_below⟩ := mem_entryPages regular small in_two there
    have := separate one_usable two_usable
    omega

/-- At the start all usable pages are in their lists and marked. -/
theorem init_settled (started : pmmInit entries = .ok system) :
    (Settled system.pmm fun page => page ∈ system.managed) ∧ ∀ page ∈ system.managed, Marked system.pmm page := by
  unfold pmmInit at started
  cases found : biggest entries with
  | none =>
    rw [found] at started
    cases started
  | some array =>
    rw [found] at started
    cases started
    have small : roundUp (memoryTop entries) pageSize / pageSize ≤ 2 ^ 31 := by
      have low := regular.low
      rw [toppage_eq]
      omega
    have settled := (empty_settled (roundUp (memoryTop entries) pageSize / pageSize)).adoptAll
      (fun _ _ _ settled new => settled.insertUsable new) _ (initialPages_distinct regular small array)
      (fun _ _ => not_false)
    simp only [or_false] at settled
    refine ⟨settled, foldl_marked _ fun page initial => ?_⟩
    obtain ⟨pair, inside, found⟩ := List.mem_flatMap.mp initial
    obtain ⟨⟨_, low⟩, _, below⟩ := mem_entryPages regular small inside found
    have last := regular.low
    refine Nat.lt_min.mpr ⟨?_, ?_⟩
    · unfold sectionOf
      split
      · assumption
      · split
        · assumption
        · show page < 0xffffffffffffffff
          omega
    · simp only [State.empty, toppage_eq]
      omega

end Start

theorem Settled.step {next : System} (settled : Settled system.pmm fun page => page ∈ system.managed) {event : Event}
    (may : Allowed system event) (moved : step system event = .ok next) :
    (Settled next.pmm fun page => page ∈ next.managed) ∧ KeepsMarks system.pmm next.pmm := by
  cases event with
  | allocpage place =>
    obtain ⟨ret, after, ran, kept⟩ := settled.allocpage place 0
    obtain ⟨result, same, rfl⟩ := map_ok.mp moved
    rw [ran] at same
    cases same
    exact kept
  | alloc size place =>
    obtain ⟨result, same, rfl⟩ := map_ok.mp moved
    by_cases zero : size = 0
    · simp [State.pmmAlloc, zero] at same
    · obtain ⟨ret, after, ran, kept⟩ := settled.alloc (Nat.pos_of_ne_zero zero) place 0
      rw [ran] at same
      cases same
      exact kept
  | hold page =>
    obtain ⟨after, ran, rfl⟩ := map_ok.mp moved
    exact (settled.hold may).of_ok ran
  | release page =>
    obtain ⟨after, ran, rfl⟩ := map_ok.mp moved
    exact settled.release.of_ok ran
  | free page size =>
    obtain ⟨after, ran, rfl⟩ := map_ok.mp moved
    exact (settled.free page size).of_ok ran
  | makefree page count =>
    cases moved
    have adopted := settled.adoptAll (fun _ _ _ settled new => settled.adopt new) _ (List.nodup_range' 1) may
    simp only [List.mem_append]
    refine ⟨adopted, ?_⟩
    exact List.foldlRecOn _ _ (motive := KeepsMarks system.pmm) (fun _ => id)
      fun _ marks page _ => marks.trans (keeps_insert _ page)
  | back page present =>
    cases moved
    obtain ⟨members, partition⟩ := settled
    exact ⟨⟨members, partition.setBacking may present⟩, keeps_setBacking may present⟩

/-- In every run the managed pages are in their places, and those of the start are marked. -/
theorem reached_settled {entries : List Entry} (regular : Regular entries) {start : System}
    (started : pmmInit entries = .ok start) (reached : Reaches step Allowed start system) :
    (Settled system.pmm fun page => page ∈ system.managed) ∧ ∀ page ∈ start.managed, Marked system.pmm page := by
  apply reached.keeps fun system => (Settled system.pmm fun page => page ∈ system.managed) ∧
    ∀ page ∈ start.managed, Marked system.pmm page
  · intro before event after kept may moved
    obtain ⟨settled, marks⟩ := kept.1.step may moved
    exact ⟨settled, fun page initial => marks page (kept.2 page initial)⟩
  · exact init_settled regular started

/-- On a regular memory map every managed page is in the list that it belongs to and has no reference, or is in no list
and has one, after every sequence of calls. The lists are well linked and counted, and allocations do not fail an
assertion. -/
theorem pages_partitioned {entries : List Entry} (regular : Regular entries) {start system : System}
    (started : pmmInit entries = .ok start) (reached : Reaches step Allowed start system) :
    (∃ members, Listed system.pmm members ∧
      (∀ list, ∀ page ∈ members list, page ∈ system.managed ∧ system.pmm.refcount page = 0) ∧
      ∀ page ∈ system.managed, (∃ list, page ∈ members list) ∨ 0 < system.pmm.refcount page) ∧
    (∀ place, ∃ next, step system (.allocpage place) = .ok next) ∧
    ∀ size place, 0 < size → ∃ next, step system (.alloc size place) = .ok next := by
  have settled := (reached_settled regular started reached).1
  refine ⟨?_, ?_, ?_⟩
  · obtain ⟨members, partition⟩ := settled
    refine ⟨members, partition.listed, ?_, ?_⟩
    · intro list page member
      obtain ⟨zero, known, _⟩ := partition.free list page member
      exact ⟨known, zero⟩
    · intro page known
      by_contra neither
      push Not at neither
      have positive := (partition.proper page).held known not_false (not_exists.mpr neither.1)
      omega
  · intro place
    obtain ⟨ret, next, ran, _⟩ := settled.allocpage place 0
    exact ⟨_, map_ok.mpr ⟨_, ran, rfl⟩⟩
  · intro size place positive
    obtain ⟨ret, next, ran, _⟩ := settled.alloc positive place 0
    exact ⟨_, map_ok.mpr ⟨_, ran, rfl⟩⟩

def Event.MakesFree : Event → Prop
  | .makefree _ _ => True
  | _ => False

/-- Only `pmm_makefree` adds pages. -/
theorem managed_same {start system : System}
    (reached : Reaches step (fun system event => Allowed system event ∧ ¬ event.MakesFree) start system) :
    system.managed = start.managed := by
  apply reached.keeps fun system => system.managed = start.managed
  · intro before event after same may moved
    rw [← same]
    cases event with
    | makefree page count => exact absurd trivial may.2
    | back page present =>
      cases moved
      rfl
    | allocpage | alloc | hold | release | free =>
      obtain ⟨_, _, rfl⟩ := map_ok.mp moved
      rfl
  · rfl

/-- An allocation of several pages returns pages of the free lists, and misses none of those that were there at the
start. It misses no pages at all as long as none are made free. -/
theorem alloc_contiguous {entries : List Entry} (regular : Regular entries) {start system : System}
    (started : pmmInit entries = .ok start) (reached : Reaches step Allowed start system) {size : Nat}
    (several : 2 ≤ size) (place : Section) :
    ∃ members ret next, Listed system.pmm members ∧ system.pmm.pmmAlloc 1 size place = .ok (ret, next) ∧
      (ret = none → ∀ part ≤ place, ∀ first, ¬ ∀ page ∈ List.range' first size,
        page ∈ start.managed ∧ page ∈ members (false, part)) ∧
      (Reaches step (fun system event => Allowed system event ∧ ¬ event.MakesFree) start system → ret = none →
        ∀ part ≤ place, ∀ first, ¬ ∀ page ∈ List.range' first size, page ∈ members (false, part)) ∧
      ∀ first ∈ ret, ∀ page ∈ List.range' first size,
        (∃ part, page ∈ members (false, part)) ∧ next.refcount page = 1 := by
  obtain ⟨⟨members, partition⟩, marked⟩ := reached_settled regular started reached
  unfold State.pmmAlloc State.allocMany
  rw [if_neg (by omega), if_neg (by omega)]
  cases found : (State.downFrom place).findSome? (system.pmm.scanSection size) with
  | none =>
    suffices none_free : ∀ part ≤ place, ∀ first, ¬ ∀ page ∈ List.range' first size,
        page ∈ start.managed ∧ page ∈ members (false, part) by
      refine ⟨members, none, system.pmm, partition.listed, rfl, fun _ => none_free, fun unmade _ => ?_, nofun⟩
      intro part below first pages
      refine none_free part below first fun page inside => ⟨?_, pages page inside⟩
      rw [← managed_same unmade]
      exact (partition.free _ page (pages page inside)).2.1
    intro part below first pages
    have known {page : Nat} (member : page ∈ List.range' first size) :
        sectionOf page = part ∧ Marked system.pmm page ∧ system.pmm.free page = true := by
      obtain ⟨initial, free⟩ := pages page member
      obtain ⟨anonymous, place⟩ := Prod.mk.inj (partition.listed.placed _ page free)
      exact ⟨place.symm, marked page initial,
        (marked page initial).marked (partition.free _ page free).1 anonymous.symm⟩
    obtain ⟨here, start, _⟩ := known (List.mem_range'_1.mpr ⟨Nat.le_refl first, by omega⟩)
    obtain ⟨there, stop, _⟩ := known (List.mem_range'_1.mpr (show _ ∧ first + size - 1 < _ by omega))
    have early := start.early
    have inside := stop.inside
    rw [here] at early
    rw [there] at inside
    have member : ∀ place : Section, ∀ part ≤ place, part ∈ State.downFrom place := by decide
    refine scan_some (fun page inside => (known inside).2.2) _ _ 0 ?_ ?_ ?_
      (List.findSome?_eq_none_iff.mp found part (member place part below))
    all_goals omega
  | some last =>
    have flags := allocMany_pages (by omega) found
    obtain ⟨next, ran, _, _, given⟩ := Settled.takeAll ⟨members, partition⟩ _ (List.nodup_range' 1) flags
    refine ⟨members, some (last - (size - 1)), next, partition.listed, by simp only [ran]; rfl, nofun, nofun, ?_⟩
    rintro first ⟨⟩ page inside
    refine ⟨?_, by rw [given, if_pos inside]⟩
    obtain ⟨zero, anonymous, known⟩ := (partition.proper page).flagged (flags page inside)
    have member := partition.listed_of_zero known not_false zero
    rw [State.listOf, anonymous] at member
    exact ⟨_, member⟩

/-- Sixteen pages, of which ten are left behind the array of pages. -/
def smallMap : List Entry := [⟨0x100000, 0x10000, .usable⟩]

theorem smallMap_regular : Regular smallMap := ⟨List.pairwise_singleton .., by decide⟩

theorem small_map_partitioned : Regular smallMap ∧
    ∃ start system, pmmInit smallMap = .ok start ∧ step start (.allocpage 2) = .ok system ∧
      system.pmm.freepagecount = 9 ∧ ∃ members, Listed system.pmm members := by
  refine ⟨smallMap_regular, ?_⟩
  have counts : (do
      let start ← pmmInit smallMap
      let system ← step start (.allocpage 2)
      pure system.pmm.freepagecount) = .ok 9 := by
    decide +kernel
  obtain ⟨start, started, counts⟩ := bind_ok.mp counts
  obtain ⟨system, ran, counts⟩ := bind_ok.mp counts
  obtain ⟨⟨members, listed, _⟩, _⟩ := pages_partitioned smallMap_regular started
    (Reaches.next .refl (show Allowed start (.allocpage 2) from trivial) ran)
  exact ⟨start, system, started, ran, Except.ok.inj counts, members, listed⟩

/-- One of the ten pages is allocated and released, and all of them are found. -/
theorem ten_pages_found : ∃ start system first next, pmmInit smallMap = .ok start ∧
    [.allocpage 2, .release 0x10f].foldlM step start = .ok system ∧
    system.pmm.pmmAlloc 1 10 1 = .ok (some first, next) ∧ ∀ page ∈ List.range' first 10, next.refcount page = 1 := by
  have runs : (do
      let start ← pmmInit smallMap
      let taken ← step start (.allocpage 2)
      let system ← step taken (.release 0x10f)
      let (ret, _) ← system.pmm.pmmAlloc 1 10 1
      pure ret) = .ok (some 0x106) := by
    decide +kernel
  obtain ⟨start, started, runs⟩ := bind_ok.mp runs
  obtain ⟨taken, one, runs⟩ := bind_ok.mp runs
  obtain ⟨system, two, runs⟩ := bind_ok.mp runs
  obtain ⟨⟨_, next⟩, allocated, found⟩ := bind_ok.mp runs
  cases found
  have begins : Reaches step Allowed start start := .refl
  have reached := (begins.next (show Allowed _ (.allocpage 2) from trivial) one).next
    (show Allowed _ (.release 0x10f) from trivial) two
  obtain ⟨_, ret, after, _, ran, _, _, given⟩ :=
    alloc_contiguous smallMap_regular started reached (show 2 ≤ 10 by decide) 1
  rw [allocated] at ran
  cases ran
  refine ⟨start, system, _, next, started, ?_, allocated, fun page inside => (given _ rfl page inside).2⟩
  simp only [List.foldlM_cons, List.foldlM_nil, one, two, bind, Except.bind, pure, Except.pure]

/-- The bootloader has had six other pages. -/
def reclaimableMap : List Entry := [⟨0x100000, 0x10000, .usable⟩, ⟨0x200000, 0x6000, .bootloaderReclaimable⟩]

/-- The six pages are made free, and are not found. -/
theorem made_free_missed : ∃ start system members, pmmInit reclaimableMap = .ok start ∧
    Allowed start (.makefree 0x200 6) ∧ step start (.makefree 0x200 6) = .ok system ∧ Listed system.pmm members ∧
    (∀ page ∈ List.range' 0x200 6, page ∈ members (false, 1)) ∧ Prod.fst <$> system.pmm.pmmAlloc 1 6 1 = .ok none := by
  have run : (do
      let start ← pmmInit reclaimableMap
      let system ← step start (.makefree 0x200 6)
      let (ret, _) ← system.pmm.pmmAlloc 1 6 1
      pure (ret, (List.range' 0x200 6).all fun page => decide (page ∉ start.managed ∧ page ∈ system.managed ∧
        system.pmm.refcount page = 0 ∧ system.pmm.listOf page = (false, 1)))) = .ok (none, true) := by
    decide +kernel
  obtain ⟨start, started, run⟩ := bind_ok.mp run
  obtain ⟨system, made, run⟩ := bind_ok.mp run
  obtain ⟨⟨ret, next⟩, allocated, result⟩ := bind_ok.mp run
  obtain ⟨rfl, pages⟩ := Prod.mk.inj (Except.ok.inj result)
  simp only [List.all_eq_true, decide_eq_true_eq] at pages
  have may : Allowed start (.makefree 0x200 6) := fun page inside => (pages page inside).1
  have regular : Regular reclaimableMap := ⟨by decide, by decide⟩
  obtain ⟨⟨members, partition⟩, _⟩ := (init_settled regular started).1.step may made
  refine ⟨start, system, members, started, may, made, partition.listed, fun page inside => ?_, by rw [allocated]; rfl⟩
  obtain ⟨_, known, zero, place⟩ := pages page inside
  exact place ▸ partition.listed_of_zero known not_false zero

/-- Two single pages whose numbers agree in their lower halves, and memory for the array of pages. -/
def highMap : List Entry :=
  [⟨0x100000000, 515396075520, .usable⟩, ⟨0x7fffffff000, 4096, .usable⟩, ⟨0x17fffffff000, 4096, .usable⟩]

/-- The counter of the loop over the pages of an entry is an `int`, so the second page is taken for the first one, which
is put into its list twice. -/
theorem wrapped_counter_duplicates : (highMap.Pairwise fun one two => one.limit ≤ two.base ∨ two.limit ≤ one.base) ∧
    ∃ system, pmmInit highMap = .ok system ∧ ¬ ∃ members, Listed system.pmm members := by
  refine ⟨by decide, ?_⟩
  have links : (fun system => (system.pmm.lists.head (false, 2), system.pmm.lists.next 0x7fffffff)) <$>
      pmmInit highMap = .ok (some 0x7fffffff, some 0x7fffffff) := by
    decide +kernel
  obtain ⟨system, started, links⟩ := map_ok.mp links
  obtain ⟨first, second⟩ := Prod.mk.inj links
  refine ⟨system, started, ?_⟩
  intro ⟨members, listed⟩
  have head := listed.holds.head (false, 2)
  rw [first] at head
  cases split : members (false, 2) with
  | nil =>
    rw [split] at head
    cases head
  | cons page rest =>
    rw [split] at head
    cases head
    have next := listed.holds.next (show members (false, 2) = [] ++ _ :: rest from split)
    rw [second] at next
    have distinct := listed.holds.distinct (false, 2)
    rw [split] at distinct
    exact (List.nodup_cons.mp distinct).1 (List.mem_of_mem_head? next.symm)

end Astral.Pmm
