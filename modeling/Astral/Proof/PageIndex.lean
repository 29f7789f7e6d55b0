import Astral.Construction.PageIndex
import Astral.Library.Exchange
import Astral.Proof.Words

namespace Astral.Vmmcache

open Function Astral.Library

namespace Index

variable {index next : Index} {id vnode offset : Nat}

section Links

/-- The entry of the table that a page belongs to. -/
def entryOf (index : Index) (id : Nat) : Option Nat :=
  (index.page id).backing.map fun vnode => getentry vnode (index.page id).offset

/-- The chains hold the cached pages with the newest one first. -/
structure Linked (index : Index) : Prop where
  table : index.table.Holds (Chains.grouped index.cache.cached index.entryOf)
  vnodes : index.vnodes.Holds (Chains.grouped index.cache.cached fun id => (index.page id).backing)
  distinct : index.cache.cached.Nodup
  counted : index.cachedpages = index.cache.cached.length

/-- A walk through the table finds what a search through all cached pages finds. -/
theorem Linked.findpage (linked : Linked index) (vnode offset : Nat) :
    index.findpage vnode offset = .ok (index.cache.findpage vnode offset) := by
  have enough : (Chains.grouped index.cache.cached index.entryOf (getentry vnode offset)).length ≤ index.cachedpages := by
    rw [linked.counted]
    exact List.length_filter_le ..
  have walk := linked.table.find_eq
    (fun id => (index.page id).backing = some vnode && (index.page id).offset = offset) (getentry vnode offset) enough
  unfold Index.findpage
  simp only [walk]
  unfold Cache.findpage Cache.vnodePages Chains.grouped
  rw [List.find?_filter, List.find?_filter]
  congr 2
  funext id
  by_cases behind : (index.page id).backing = some vnode
  · by_cases there : (index.page id).offset = offset
    · have entry : index.entryOf id = some (getentry vnode offset) := by simp [entryOf, behind, there]
      simp only [page] at behind there
      simp [entry, behind, there, page]
    · simp only [page] at there
      simp [there, page]
  · simp only [page] at behind
    simp [behind, page]

theorem Linked.congr (linked : Linked index) (next : Index) (cached : next.cache.cached = index.cache.cached)
    (count : next.cachedpages = index.cachedpages)
    (keys : ∀ id ∈ index.cache.cached, (next.page id).backing = (index.page id).backing ∧
      (next.page id).offset = (index.page id).offset)
    (table : next.table.Holds (Chains.grouped index.cache.cached index.entryOf))
    (vnodes : next.vnodes.Holds (Chains.grouped index.cache.cached fun id => (index.page id).backing)) :
    Linked next where
  table := by
    have same : ∀ id ∈ index.cache.cached, next.entryOf id = index.entryOf id := by
      intro id inside
      unfold entryOf
      rw [(keys id inside).1, (keys id inside).2]
    rw [cached, Chains.grouped_congr same]
    exact table
  vnodes := by
    have same : ∀ id ∈ index.cache.cached, (next.page id).backing = (index.page id).backing :=
      fun id inside => (keys id inside).1
    rw [cached, Chains.grouped_congr same]
    exact vnodes
  distinct := by rw [cached]; exact linked.distinct
  counted := by rw [count, cached, linked.counted]

theorem Linked.putpage (linked : Linked index) (outside : id ∉ index.cache.cached)
    (behind : (index.page id).backing = some vnode) :
    ∃ next, index.putpage id = .ok next ∧ Linked next ∧ next.cache = index.cache.putpage id ∧
      next.taken = index.taken ∧ next.sound = index.sound := by
  unfold Index.putpage
  rw [behind]
  refine ⟨_, rfl, ⟨?_, ?_, ?_, ?_⟩, rfl, rfl, rfl⟩
  · exact linked.table.push_grouped outside (by simp [entryOf, behind])
  · exact linked.vnodes.push_grouped outside behind
  · exact List.nodup_cons.mpr ⟨outside, linked.distinct⟩
  · simp [Cache.putpage, linked.counted]

/-- A page was taken out of the chains, or it was not in them. -/
structure Removed (index next : Index) (id : Nat) : Prop where
  linked : Linked next
  cached : next.cache.cached = index.cache.cached.erase id
  page : next.page = index.page
  taken : next.taken = index.taken
  sound : next.sound = index.sound

theorem Linked.removepage (linked : Linked index) (inside : id ∈ index.cache.cached)
    (behind : (index.page id).backing ≠ none) : ∃ next, index.removepage id = .ok next ∧ Removed index next id := by
  obtain ⟨vnode, behind⟩ := Option.ne_none_iff_exists'.mp behind
  have outside (key : Nat → Option Nat) (list : Nat) : id ∉ Chains.grouped (index.cache.cached.erase id) key list := by
    intro still
    exact linked.distinct.not_mem_erase (Chains.mem_grouped.mp still).1
  have table := linked.table.cut_grouped linked.distinct inside
    (show index.entryOf id = some (getentry vnode (index.page id).offset) by simp [entryOf, behind])
  have vnodes := linked.vnodes.cut_grouped linked.distinct inside behind
  unfold Index.removepage
  rw [behind]
  refine ⟨_, rfl, ⟨?_, ?_, ?_, ?_⟩, rfl, rfl, rfl, ?_⟩
  · exact table.clear (outside _)
  · exact vnodes.clear (outside _)
  · exact linked.distinct.erase id
  · simp [List.length_erase_of_mem inside, linked.counted]
  · simp [inside]

end Links

section Sorted

/-- The page is the one at an offset of a vnode. -/
def Plain (index : Index) (id : Nat) : Prop :=
  (index.page id).backing ≠ none ∧ (index.page id).truncated = false ∧ index.taken id = false

/-- The chains hold exactly the pages at the offsets of vnodes. -/
structure Sorted (index : Index) : Prop where
  linked : Linked index
  plain : ∀ id, id ∈ index.cache.cached ↔ index.Plain id
  unique : ∀ one ∈ index.cache.cached, ∀ two ∈ index.cache.cached, (index.page one).backing = (index.page two).backing →
    (index.page one).offset = (index.page two).offset → one = two
  sound : index.sound = true

/-- Two records of a page have the same place in the cache. -/
structure Alike (old new : Page) : Prop where
  backing : new.backing = old.backing
  offset : new.offset = old.offset
  truncated : new.truncated = old.truncated

/-- A page keeps its vnode, and it is only cut off when it is in the chains. -/
structure Keeps (index next : Index) (id : Nat) : Prop where
  backing : (next.page id).backing = (index.page id).backing
  taken : next.taken id = index.taken id
  outside : id ∉ index.cache.cached → (next.page id).truncated = (index.page id).truncated ∧ id ∉ next.cache.cached

theorem Keeps.refl (index : Index) (id : Nat) : Keeps index index id := ⟨rfl, rfl, fun outside => ⟨rfl, outside⟩⟩

theorem Keeps.trans {middle : Index} (first : Keeps index middle id) (second : Keeps middle next id) :
    Keeps index next id where
  backing := second.backing.trans first.backing
  taken := second.taken.trans first.taken
  outside outside := by
    obtain ⟨one, still⟩ := first.outside outside
    obtain ⟨two, final⟩ := second.outside still
    exact ⟨two.trans one, final⟩

/-- The chains stay sorted and every page is kept. -/
def Stays (index next : Index) : Prop := Sorted next ∧ ∀ other, Keeps index next other

/-- At most this page changes, and only when it has a single reference. -/
def Drops (index next : Index) (id : Nat) : Prop :=
  next = index ∨ (index.page id).refcount = 1 ∧ Sorted next ∧ ∀ other, other ≠ id → Keeps index next other

theorem page_other {other : Nat} (different : other ≠ id) (page : Page) :
    (index.setPage id page).page other = index.page other := update_of_ne different ..

theorem page_self (index : Index) (id : Nat) (page : Page) : (index.setPage id page).page id = page :=
  update_self ..

/-- A page that is set is related to the one before it, and the others are unchanged. -/
theorem setPage_related {related : Page → Page → Prop} (refl : ∀ page, related page page) {page : Page}
    (new : related (index.page id) page) (other : Nat) :
    related (index.page other) ((index.setPage id page).page other) := by
  by_cases same : other = id
  · rw [same, page_self]
    exact new
  · rw [page_other same]
    exact refl _

section

variable {page : Page} (alike : Alike (index.page id) page)
include alike

theorem alike_setPage (other : Nat) : Alike (index.page other) ((index.setPage id page).page other) :=
  setPage_related (fun _ => ⟨rfl, rfl, rfl⟩) alike other

/-- The place of a page in the cache does not depend on its other fields. -/
theorem Sorted.setPage (sorted : Sorted index) : Sorted (index.setPage id page) where
  linked := sorted.linked.congr _ rfl rfl
    (fun other _ => ⟨(alike_setPage alike other).backing, (alike_setPage alike other).offset⟩)
    sorted.linked.table sorted.linked.vnodes
  plain other := by
    unfold Plain
    rw [(alike_setPage alike other).backing, (alike_setPage alike other).truncated]
    exact sorted.plain other
  unique one in_one two in_two behind there := by
    rw [(alike_setPage alike one).backing, (alike_setPage alike two).backing] at behind
    rw [(alike_setPage alike one).offset, (alike_setPage alike two).offset] at there
    exact sorted.unique one in_one two in_two behind there
  sound := sorted.sound

theorem keeps_setPage (other : Nat) : Keeps index (index.setPage id page) other :=
  ⟨(alike_setPage alike other).backing, rfl, fun outside => ⟨(alike_setPage alike other).truncated, outside⟩⟩

end

theorem pmmHold_page (held : index.pmmHold id = .ok next) :
    ∃ page, next = index.setPage id page ∧ Alike (index.page id) page := by
  obtain ⟨cache, ran, rfl⟩ := map_ok.mp held
  unfold Cache.pmmHold at ran
  simp only at ran
  split at ran
  · cases ran
  · cases ran
    exact ⟨_, rfl, rfl, rfl, rfl⟩

theorem pmmRelease_page (released : index.pmmRelease id = .ok next) :
    ∃ page, next = index.setPage id page ∧ Alike (index.page id) page := by
  obtain ⟨cache, ran, rfl⟩ := map_ok.mp released
  unfold Cache.pmmRelease at ran
  simp only at ran
  split at ran
  · cases ran
  · obtain ⟨_, ran⟩ := unless_ok.mp ran
    cases ran
    refine ⟨_, rfl, rfl, rfl, ?_⟩
    unfold Page.truncated
    split
    · exact hasFlag_or (by decide) _
    · rfl
  · cases ran
    exact ⟨_, rfl, rfl, rfl, rfl⟩

theorem Sorted.pmmHold (sorted : Sorted index) (held : index.pmmHold id = .ok next) : Stays index next := by
  obtain ⟨page, rfl, alike⟩ := pmmHold_page held
  exact ⟨sorted.setPage alike, keeps_setPage alike⟩

theorem Sorted.pmmRelease (sorted : Sorted index) (released : index.pmmRelease id = .ok next) : Stays index next := by
  obtain ⟨page, rfl, alike⟩ := pmmRelease_page released
  exact ⟨sorted.setPage alike, keeps_setPage alike⟩

/-- The fields of a page that is not in the chains do not count. -/
theorem Linked.setPage (linked : Linked index) (outside : id ∉ index.cache.cached) (page : Page) :
    Linked (index.setPage id page) := by
  apply linked.congr (index.setPage id page) rfl rfl _ linked.table linked.vnodes
  intro other inside
  rw [page_other (by rintro rfl; exact outside inside)]
  exact ⟨rfl, rfl⟩

/-- A page becomes the one at an offset where there was none. -/
theorem Sorted.add (sorted : Sorted index) (missing : index.cache.findpage vnode offset = none)
    (outside : id ∉ index.cache.cached) {flags : PageFlags} (whole : hasFlag flags pageFlagsTruncated = false)
    (present : index.taken id = false) (added : (index.assign vnode offset id flags).putpage id = .ok next) :
    Sorted next ∧ (∀ other, other ≠ id → Keeps index next other) ∧ (next.page id).backing ≠ none ∧
      next.taken id = false := by
  set assigned := index.assign vnode offset id flags
  have linked : Linked assigned := sorted.linked.setPage outside _
  have self : assigned.page id = { index.page id with backing := some vnode, offset, flags } := page_self ..
  have others {other : Nat} (different : other ≠ id) : assigned.page other = index.page other := page_other different _
  obtain ⟨result, ran, relinked, cache, taken, sound⟩ := linked.putpage outside
    (show (assigned.page id).backing = some vnode by rw [self])
  rw [added] at ran
  cases ran
  have pages : next.page = assigned.page := by
    unfold Index.page
    rw [cache]
    rfl
  have cached : next.cache.cached = id :: index.cache.cached := by
    rw [cache]
    rfl
  have free (other : Nat) (inside : other ∈ index.cache.cached) :
      ¬ ((index.page other).backing = some vnode ∧ (index.page other).offset = offset) := by
    intro ⟨behind, there⟩
    unfold Cache.findpage Cache.vnodePages at missing
    rw [List.find?_filter] at missing
    have absent := List.find?_eq_none.mp missing other inside
    simp only [page] at behind there
    simp [behind, there] at absent
  have apart {other : Nat} (inside : other ∈ index.cache.cached) : other ≠ id := by
    rintro rfl
    exact outside inside
  refine ⟨⟨relinked, ?_, ?_, sound.trans sorted.sound⟩, ?_, ?_, ?_⟩
  · intro other
    unfold Plain
    rw [cached, List.mem_cons, pages, taken]
    by_cases same : other = id
    · rw [same, self]
      exact iff_of_true (.inl rfl) ⟨nofun, whole, present⟩
    · rw [others same]
      simp only [same, false_or]
      exact sorted.plain other
  · intro one in_one two in_two behind there
    rw [cached, List.mem_cons] at in_one in_two
    rw [pages] at behind there
    rcases in_one with same_one | old_one
    · rcases in_two with same_two | old_two
      · rw [same_one, same_two]
      · rw [same_one, self, others (apart old_two)] at behind there
        exact absurd ⟨behind.symm, there.symm⟩ (free two old_two)
    · rcases in_two with same_two | old_two
      · rw [same_two, self, others (apart old_one)] at behind there
        exact absurd ⟨behind, there⟩ (free one old_one)
      · rw [others (apart old_one), others (apart old_two)] at behind there
        exact sorted.unique one old_one two old_two behind there
  · intro other different
    refine ⟨by rw [pages, others different], by rw [taken]; rfl, ?_⟩
    intro elsewhere
    rw [pages, others different, cached, List.mem_cons]
    exact ⟨rfl, by tauto⟩
  · rw [pages, self]
    nofun
  · rw [taken]
    exact present

/-- A page is taken out of the chains and marked, so that it is no longer the one at an offset. -/
theorem Sorted.without (sorted : Sorted index) (linked : Linked next)
    (cached : next.cache.cached = index.cache.cached.erase id)
    (pages : ∀ other, other ≠ id → next.page other = index.page other)
    (taken : ∀ other, other ≠ id → next.taken other = index.taken other) (marked : ¬ next.Plain id)
    (sound : next.sound = index.sound) : Sorted next ∧ ∀ other, other ≠ id → Keeps index next other := by
  have member (other : Nat) : other ∈ next.cache.cached ↔ other ≠ id ∧ other ∈ index.cache.cached := by
    rw [cached]
    exact sorted.linked.distinct.mem_erase_iff
  refine ⟨⟨linked, ?_, ?_, sound.trans sorted.sound⟩, ?_⟩
  · intro other
    rw [member]
    by_cases same : other = id
    · rw [same]
      exact iff_of_false (fun gone => gone.1 rfl) marked
    · unfold Plain
      rw [pages other same, taken other same]
      simp only [ne_eq, same, not_false_eq_true, true_and]
      exact sorted.plain other
  · intro one in_one two in_two behind there
    obtain ⟨other_one, old_one⟩ := (member one).mp in_one
    obtain ⟨other_two, old_two⟩ := (member two).mp in_two
    rw [pages one other_one, pages two other_two] at behind there
    exact sorted.unique one old_one two old_two behind there
  · intro other different
    refine ⟨by rw [pages other different], taken other different, ?_⟩
    intro outside
    refine ⟨by rw [pages other different], ?_⟩
    rw [member]
    exact fun inside => outside inside.2

theorem Removed.outside (removed : Removed index next id) (distinct : index.cache.cached.Nodup) :
    id ∉ next.cache.cached := by
  rw [removed.cached]
  exact distinct.not_mem_erase

/-- A page is taken out of the chains and becomes anonymous. -/
theorem Sorted.forget (sorted : Sorted index) (removed : Removed index next id) (flags : PageFlags) :
    Sorted (next.forget id flags) ∧ ∀ other, other ≠ id → Keeps index (next.forget id flags) other := by
  apply sorted.without (removed.linked.setPage (removed.outside sorted.linked.distinct) _) removed.cached
  · intro other different
    rw [← removed.page]
    exact page_other different _
  · intro other _
    exact congrFun removed.taken other
  · intro plain
    exact plain.1 (congrArg Page.backing (page_self next id _))
  · exact removed.sound

section

variable (sorted : Sorted index)
  (fit : (index.page id).refcount = 1 → (index.page id).backing ≠ none ∧ index.taken id = false)
include sorted fit

theorem Sorted.withdraw {removed : Bool} (ran : index.withdraw id = .ok (removed, next)) :
    (removed = false ∧ next = index) ∨ (removed = true ∧ (index.page id).refcount = 1 ∧ Removed index next id) := by
  unfold Index.withdraw Page.withdraw at ran
  split at ran
  · cases ran
    exact .inl ⟨rfl, rfl⟩
  · obtain ⟨single, ran⟩ := guard_ok.mp ran
    have one : (index.page id).refcount = 1 := by
      simp only [Bool.and_eq_true, decide_eq_true_eq] at single
      exact single.1
    obtain ⟨behind, present⟩ := fit one
    split at ran
    · next cut =>
      cases ran
      have outside : id ∉ index.cache.cached := by
        rw [sorted.plain]
        intro plain
        rw [plain.2.1] at cut
        cases cut
      exact .inr ⟨rfl, one, sorted.linked, (List.erase_of_not_mem outside).symm, rfl, rfl, rfl⟩
    · next whole =>
      obtain ⟨middle, found, same⟩ := map_ok.mp ran
      cases same
      have inside := (sorted.plain id).mpr ⟨behind, eq_false_of_ne_true whole, present⟩
      obtain ⟨result, gone, facts⟩ := sorted.linked.removepage inside behind
      rw [gone] at found
      cases found
      exact .inr ⟨rfl, one, facts⟩

/-- What they do then changes no other page. -/
theorem Sorted.withdrawn (rest : Index → Index) (gone : ∀ middle, Removed index middle id → Sorted (rest middle) ∧
      ∀ other, other ≠ id → Keeps index (rest middle) other)
    (ran : (do
      let (removed, index) ← index.withdraw id
      if removed then pure (rest index) else pure index) = .ok next) : Drops index next id := by
  obtain ⟨⟨removed, middle⟩, withdrawn, finished⟩ := bind_ok.mp ran
  rcases sorted.withdraw fit withdrawn with ⟨rfl, rfl⟩ | ⟨rfl, one, facts⟩
  · cases finished
    exact .inl rfl
  · cases finished
    exact .inr ⟨one, gone middle facts⟩

theorem Sorted.evict (ran : index.evict id = .ok next) : Drops index next id :=
  sorted.withdrawn fit (·.forget id 0) (fun _ removed => sorted.forget removed 0) ran

theorem Sorted.takepage (ran : index.takepage id = .ok next) : Drops index next id := by
  refine sorted.withdrawn fit (·.setTaken id true) (fun middle facts => ?_) ran
  have linked := facts.linked
  apply sorted.without (linked.congr (middle.setTaken id true) rfl rfl (fun _ _ => ⟨rfl, rfl⟩) linked.table
    linked.vnodes) facts.cached
  · intro other _
    exact congrFun facts.page other
  · intro other different
    rw [← facts.taken]
    exact update_of_ne different ..
  · intro plain
    have present : update middle.taken id true id = false := plain.2.2
    rw [update_self] at present
    cases present
  · exact facts.sound

end

section Truncate

/-- The link of a page that is not in the chains does not count. -/
theorem Linked.setVnodenext (linked : Linked index) (outside : id ∉ index.cache.cached) (page : Option Nat) :
    Linked (index.setVnodenext id page) := by
  apply linked.congr (index.setVnodenext id page) rfl rfl (fun _ _ => ⟨rfl, rfl⟩) linked.table
  apply linked.vnodes.congr
  · rfl
  · intro list other member
    apply update_of_ne
    rintro rfl
    exact outside (Chains.mem_grouped.mp member).1
  · intro list other member
    rfl

/-- A page is cut off its file. -/
theorem Sorted.truncatePage (sorted : Sorted index) (inside : id ∈ index.cache.cached) (pagelist : Option Nat) :
    ∃ next, index.truncatePage id pagelist = .ok next ∧ Stays index next ∧
      next.cache.cached = index.cache.cached.erase id ∧
      ∀ other, (next.page other).backing = (index.page other).backing ∧
        (next.page other).offset = (index.page other).offset := by
  have plain := (sorted.plain id).mp inside
  let page : Page := { index.page id with flags := (index.page id).flags ||| pageFlagsTruncated }
  have fields := @setPage_related index id (fun old new => new.backing = old.backing ∧ new.offset = old.offset)
    (fun _ => ⟨rfl, rfl⟩) page ⟨rfl, rfl⟩
  have linked := sorted.linked.congr (index.setPage id page) rfl rfl (fun other _ => fields other) sorted.linked.table
    sorted.linked.vnodes
  obtain ⟨middle, gone, removed⟩ := linked.removepage inside (by rw [(fields id).1]; exact plain.1)
  have marked : ¬ (middle.setVnodenext id pagelist).Plain id := by
    intro whole
    have whole : (middle.page id).truncated = false := whole.2.1
    rw [removed.page, page_self] at whole
    cases whole.symm.trans (hasFlag_set _ (by decide))
  obtain ⟨after, keeps⟩ := sorted.without (removed.linked.setVnodenext (removed.outside linked.distinct) pagelist)
    removed.cached (fun other different => (congrFun removed.page other).trans (page_other different _))
    (fun other _ => congrFun removed.taken other) marked removed.sound
  have kept (other : Nat) : (middle.page other).backing = (index.page other).backing ∧
      (middle.page other).offset = (index.page other).offset := by
    rw [removed.page]
    exact fields other
  refine ⟨_, bind_ok.mpr ⟨middle, gone, rfl⟩, ⟨after, fun other => ?_⟩, removed.cached, kept⟩
  by_cases same : other = id
  · rw [same]
    exact ⟨(kept id).1, congrFun removed.taken id, fun absent => absurd inside absent⟩
  · exact keeps other same

/-- The loop goes through the pages of a vnode that are left. -/
theorem Sorted.truncateFrom (offset : Nat) {fuel : Nat} (kept rest : List Nat) (pagelist : Option Nat)
    (sorted : Sorted index)
    (split : Chains.grouped index.cache.cached (fun id => (index.page id).backing) vnode = kept ++ rest)
    (enough : rest.length ≤ fuel) :
    ∃ result, truncateFrom offset fuel index rest.head? pagelist = .ok result ∧ Stays index result.1 := by
  induction rest generalizing index kept pagelist fuel with
  | nil =>
    refine ⟨(index, pagelist), ?_, sorted, Keeps.refl index⟩
    rw [List.head?_nil, Index.truncateFrom]
  | cons id rest ih =>
    obtain ⟨fuel, rfl⟩ : ∃ less, fuel = less + 1 := ⟨fuel - 1, by simp only [List.length_cons] at enough; omega⟩
    have room : rest.length ≤ fuel := by simpa using enough
    rw [List.head?_cons, Index.truncateFrom]
    simp only [sorted.linked.vnodes.next split]
    split
    · exact ih (kept ++ [id]) pagelist sorted (by rw [split]; simp) room
    · have member : id ∈ Chains.grouped index.cache.cached (fun id => (index.page id).backing) vnode := by
        rw [split]
        simp
      obtain ⟨next, cut, ⟨after, keeps⟩, cached, fields⟩ :=
        sorted.truncatePage (Chains.mem_grouped.mp member).1 pagelist
      have apart : id ∉ kept := by
        have distinct := sorted.linked.vnodes.distinct vnode
        rw [split] at distinct
        exact fun earlier => (List.nodup_middle.mp distinct).notMem (List.mem_append_left _ earlier)
      have left : Chains.grouped next.cache.cached (fun id => (next.page id).backing) vnode = kept ++ rest := by
        rw [Chains.grouped_congr (fun other _ => (fields other).1), cached,
          Chains.grouped_erase sorted.linked.distinct, split, List.erase_append_right _ apart, List.erase_cons_head]
      obtain ⟨result, ran, final, later⟩ := ih kept (some id) after left room
      refine ⟨result, bind_ok.mpr ⟨next, cut, ran⟩, final, ?_⟩
      intro other
      exact (keeps other).trans (later other)

theorem Sorted.truncate (sorted : Sorted index) (vnode offset : Nat) :
    ∃ result, index.truncate vnode offset = .ok result ∧ Stays index result.1 := by
  unfold Index.truncate
  rw [sorted.linked.vnodes.head]
  apply sorted.truncateFrom offset [] _ none rfl
  rw [sorted.linked.counted]
  exact List.length_filter_le ..

end Truncate

end Sorted

end Index

section Stages

/-- The page that a call loads. -/
def Stage.owner : Stage → Option Nat
  | .add _ _ newpage => some newpage
  | .load newpage => some newpage
  | .fail newpage => some newpage
  | _ => none

def Stage.owns (id : Nat) (stage : Stage) : Bool := stage.owner = some id

theorem Stage.owns_iff {stage : Stage} {id : Nat} : stage.owns id = true ↔ stage.owner = some id := decide_eq_true_iff

theorem Stage.done_owns (id : Nat) : Stage.done.owns id = false := rfl

/-- The page of a call is new, or it is the one at an offset or was cut off since. -/
def Stage.Placed (index : Index) : Stage → Prop
  | .add _ _ id =>
    (index.page id).backing = none ∧ (index.page id).truncated = false ∧ index.taken id = false
  | .load id => (index.page id).backing ≠ none ∧ index.taken id = false
  | .fail id => (index.page id).backing ≠ none ∧ index.taken id = false
  | _ => True

theorem Stage.Placed.keeps {index next : Index} {stage : Stage} (sorted : index.Sorted) (placed : stage.Placed index)
    (keeps : ∀ id, stage.owner = some id → index.Keeps next id) : stage.Placed next := by
  cases stage with
  | add vnode offset id =>
    have kept := keeps id rfl
    have outside : id ∉ index.cache.cached := fun inside => ((sorted.plain id).mp inside).1 placed.1
    exact ⟨kept.backing.trans placed.1, (kept.outside outside).1.trans placed.2.1, kept.taken.trans placed.2.2⟩
  | load id | fail id =>
    have kept := keeps id rfl
    exact ⟨kept.backing ▸ placed.1, kept.taken.trans placed.2⟩
  | find | alloc | wait | unpin | done => trivial

/-- No two calls load the same page. -/
structure Activity.Orderly (activity : Activity) : Prop where
  sorted : activity.index.Sorted
  placed : ∀ stage ∈ activity.stages, stage.Placed activity.index
  single : ∀ id, activity.stages.countP (Stage.owns id) ≤ 1

/-- No call loads the page. -/
def Activity.Free (activity : Activity) (id : Nat) : Prop := ∀ stage ∈ activity.stages, stage.owner ≠ some id

/-- Only an anonymous page is pushed. A page is only evicted or taken while it belongs to a vnode and no call loads it.
The memory manager gives away no page that is in use, and a load does not fail after its page was cut off. -/
def Permitted (activity : Activity) : Action → Prop
  | .pushpage _ _ id =>
    activity.Free id ∧ (activity.index.page id).backing = none ∧ (activity.index.page id).truncated = false ∧
      activity.index.taken id = false
  | .evict id | .takepage id =>
    (activity.index.page id).refcount = 1 →
      activity.Free id ∧ (activity.index.page id).backing ≠ none ∧ activity.index.taken id = false
  | .proceed position outcome =>
    match activity.stages[position]? with
    | some (.alloc _ _) => ∀ id, outcome.memory = some id → activity.Free id ∧ id ∉ activity.index.cache.cached
    | some (.fail id) => (activity.index.page id).truncated = false
    | _ => True
  | _ => True

variable {activity after : Activity} {index next : Index} {stages : List Stage} {position id : Nat} {old new : Stage}

/-- A change spares the pages that calls load. -/
theorem Activity.Orderly.change (orderly : activity.Orderly) (sorted : next.Sorted)
    (keeps : ∀ id, ¬ activity.Free id → activity.index.Keeps next id) : Activity.Orderly ⟨next, activity.stages⟩ := by
  refine ⟨sorted, ?_, orderly.single⟩
  intro stage member
  apply (orderly.placed stage member).keeps orderly.sorted
  intro id owner
  exact keeps id fun free => free stage member owner

/-- A call begins that loads no page. -/
theorem Activity.Orderly.begin (orderly : Activity.Orderly ⟨index, stages⟩) (free : new.owner = none)
    (placed : new.Placed index) : Activity.Orderly ⟨index, stages ++ [new]⟩ := by
  refine ⟨orderly.sorted, forall_added orderly.placed placed, ?_⟩
  intro id
  have spares : new.owns id = false := by simp [Stage.owns, free]
  simpa [List.countP_append, spares] using orderly.single id

section

variable (found : activity.stages[position]? = some old)
include found

/-- The other calls do not load the page of a call. -/
theorem Activity.Orderly.others (orderly : activity.Orderly) (owner : old.owner = some id) :
    Activity.Free ⟨activity.index, activity.stages.set position .done⟩ id := by
  have counted := countP_less found (Stage.owns_iff.mpr owner) (Stage.done_owns id)
  have single := orderly.single id
  intro stage member same
  have positive : 0 < (activity.stages.set position .done).countP (Stage.owns id) :=
    List.countP_pos_iff.mpr ⟨stage, member, Stage.owns_iff.mpr same⟩
  omega

omit found in
theorem Activity.Free.rest (free : activity.Free id) (position : Nat) :
    Activity.Free ⟨activity.index, activity.stages.set position .done⟩ id := by
  apply forall_exchange free
  nofun

/-- A call goes on. -/
theorem Activity.Orderly.move (orderly : activity.Orderly) (new : Stage) (sorted : next.Sorted)
    (placed : new.Placed next) (keeps : ∀ id, ¬ Activity.Free ⟨activity.index, activity.stages.set position .done⟩ id →
      activity.index.Keeps next id)
    (apart : ∀ id, new.owner = some id → Activity.Free ⟨activity.index, activity.stages.set position .done⟩ id) :
    Activity.Orderly ⟨next, activity.stages.set position new⟩ := by
  have within := (List.getElem?_eq_some_iff.mp found).1
  have here : (activity.stages.set position .done)[position]? = some .done := List.getElem?_set_self within
  have twice : activity.stages.set position new = (activity.stages.set position .done).set position new :=
    (List.set_set ..).symm
  have fewer (id : Nat) : (activity.stages.set position .done).countP (Stage.owns id) ≤ 1 := by
    have counted := countP_exchange found .done (Stage.owns id)
    have single := orderly.single id
    rw [Stage.done_owns] at counted
    simp only [Bool.false_eq_true, if_false] at counted
    omega
  refine ⟨sorted, ?_, ?_⟩
  · rw [twice]
    apply forall_exchange _ placed
    intro stage member
    have before : stage.Placed activity.index :=
      forall_exchange orderly.placed (show Stage.done.Placed activity.index from trivial) stage member
    apply before.keeps orderly.sorted
    intro id owner
    exact keeps id fun free => free stage member owner
  · intro id
    show (activity.stages.set position new).countP _ ≤ 1
    rw [twice]
    cases owns : new.owns id with
    | true =>
      have none_other : (activity.stages.set position .done).countP (Stage.owns id) = 0 := by
        apply List.countP_eq_zero.mpr
        intro stage member same
        exact apart id (Stage.owns_iff.mp owns) stage member (Stage.owns_iff.mp same)
      rw [countP_more here (Stage.done_owns id) owns, none_other]
    | false =>
      rw [countP_same here (owns.trans (Stage.done_owns id).symm)]
      exact fewer id

/-- A call goes on without a page that it loads. -/
theorem Activity.Orderly.goOn (orderly : activity.Orderly) (placed : new.Placed next) (free : ∀ id, new.owner ≠ some id)
    (stays : activity.index.Stays next) : Activity.Orderly ⟨next, activity.stages.set position new⟩ :=
  orderly.move found new stays.1 placed (fun id _ => stays.2 id) fun id owner => absurd owner (free id)

end

/-- A page that no call loads may change. -/
theorem Activity.Free.spares (free : activity.Free id) (keeps : ∀ other, other ≠ id → index.Keeps next other)
    (other : Nat) (busy : ¬ activity.Free other) : index.Keeps next other := by
  apply keeps
  rintro rfl
  exact busy free

theorem Activity.Orderly.drop (orderly : activity.Orderly)
    (may : (activity.index.page id).refcount = 1 → activity.Free id) (drops : activity.index.Drops next id) :
    Activity.Orderly ⟨next, activity.stages⟩ := by
  rcases drops with rfl | ⟨one, sorted, keeps⟩
  · exact orderly
  · exact orderly.change sorted ((may one).spares keeps)

theorem Index.Sorted.stays (sorted : index.Sorted) : index.Stays index := ⟨sorted, .refl index⟩

theorem Index.Sorted.wait {vnode offset : Nat} (sorted : index.Sorted)
    (ran : index.wait vnode offset id = .ok (new, next)) : new = .wait vnode offset id ∧ index.Stays next := by
  obtain ⟨held, kept, same⟩ := map_ok.mp ran
  cases same
  exact ⟨rfl, sorted.pmmHold kept⟩

/-- A page that the memory manager gives away is new. -/
theorem Index.Sorted.pmmAllocpage (sorted : index.Sorted) (outside : id ∉ index.cache.cached) :
    (index.pmmAllocpage id).Sorted ∧ (∀ other, other ≠ id → index.Keeps (index.pmmAllocpage id) other) ∧
      ∀ vnode offset, (Stage.add vnode offset id).Placed (index.pmmAllocpage id) := by
  have spare (key : Nat → Option Nat) (list : Nat) : id ∉ Chains.grouped index.cache.cached key list :=
    fun inside => outside (Chains.mem_grouped.mp inside).1
  have self : (index.pmmAllocpage id).page id = .fresh := Index.page_self ..
  have others {other : Nat} (different : other ≠ id) : (index.pmmAllocpage id).page other = index.page other :=
    Index.page_other different _
  have linked : (index.pmmAllocpage id).Linked := by
    apply sorted.linked.congr (index.pmmAllocpage id) rfl rfl _ (sorted.linked.table.clear (spare _))
      (sorted.linked.vnodes.clear (spare _))
    intro other inside
    rw [others (by rintro rfl; exact outside inside)]
    exact ⟨rfl, rfl⟩
  obtain ⟨after, keeps⟩ := sorted.without linked (List.erase_of_not_mem outside).symm (fun other => others)
    (fun other different => update_of_ne different ..) (by
      intro plain
      rw [Index.Plain, self] at plain
      exact plain.1 rfl) rfl
  refine ⟨after, keeps, ?_⟩
  intro vnode offset
  simp only [Stage.Placed, self]
  exact ⟨rfl, rfl, update_self ..⟩

theorem Activity.Orderly.proceed (orderly : activity.Orderly) {outcome : Outcome}
    (may : Permitted activity (.proceed position outcome)) (found : activity.stages[position]? = some old)
    (ran : activity.index.proceed outcome old = .ok (new, next)) :
    Activity.Orderly ⟨next, activity.stages.set position new⟩ := by
  have sorted := orderly.sorted
  have placed := orderly.placed old (List.mem_of_getElem? found)
  revert ran
  fun_cases Index.proceed activity.index outcome old with intro ran
  | case1 vnode offset =>
    obtain ⟨result, walked, rest⟩ := bind_ok.mp ran
    cases result with
    | none =>
      cases rest
      exact orderly.goOn found trivial nofun sorted.stays
    | some id =>
      obtain ⟨rfl, stays⟩ := sorted.wait rest
      exact orderly.goOn found trivial nofun stays
  | case3 vnode offset id memory =>
    have may : ∀ id, outcome.memory = some id → activity.Free id ∧ id ∉ activity.index.cache.cached := by
      simp only [Permitted, found] at may
      exact may
    cases ran
    obtain ⟨free, outside⟩ := may id memory
    obtain ⟨after, keeps, new_page⟩ := sorted.pmmAllocpage outside
    apply orderly.move found (.add vnode offset id) after (new_page vnode offset) ((free.rest position).spares keeps)
    intro other owner
    cases owner
    exact free.rest position
  | case4 vnode offset newpage =>
    obtain ⟨result, walked, rest⟩ := bind_ok.mp ran
    have others := orderly.others found rfl
    cases result with
    | some id =>
      obtain ⟨⟨stage, middle⟩, waited, rest⟩ := bind_ok.mp rest
      obtain ⟨rfl, held, keeps⟩ := sorted.wait waited
      obtain ⟨final, released, rest⟩ := bind_ok.mp rest
      cases rest
      obtain ⟨after, later⟩ := held.pmmRelease released
      exact orderly.goOn found trivial nofun ⟨after, fun id => (keeps id).trans (later id)⟩
    | none =>
      rw [sorted.linked.findpage] at walked
      obtain ⟨final, added, rest⟩ := bind_ok.mp rest
      cases rest
      have outside : newpage ∉ activity.index.cache.cached :=
        fun inside => ((sorted.plain newpage).mp inside).1 placed.1
      obtain ⟨after, keeps, behind, present⟩ := sorted.add (Except.ok.inj walked) outside placed.2.1 placed.2.2 added
      apply orderly.move found (.load newpage) after ⟨behind, present⟩ (others.spares keeps)
      intro other owner
      cases owner
      exact others
  | case8 newpage =>
    cases ran
    have others := orderly.others found rfl
    apply orderly.move found (.fail newpage) sorted placed (fun id _ => .refl _ id)
    intro other owner
    cases owner
    exact others
  | case9 newpage =>
    cases ran
    have alike : Index.Alike (activity.index.page newpage)
        { activity.index.page newpage with flags := (activity.index.page newpage).flags ||| pageFlagsReady } :=
      ⟨rfl, rfl, hasFlag_or (by decide) _⟩
    exact orderly.goOn found trivial nofun ⟨sorted.setPage alike, Index.keeps_setPage alike⟩
  | case10 newpage =>
    have whole : (activity.index.page newpage).truncated = false := by
      simp only [Permitted, found] at may
      exact may
    have others := orderly.others found rfl
    have inside := (sorted.plain newpage).mpr ⟨placed.1, whole, placed.2⟩
    obtain ⟨middle, gone, removed⟩ := sorted.linked.removepage inside placed.1
    obtain ⟨result, same, rest⟩ := bind_ok.mp ran
    rw [gone] at same
    cases same
    obtain ⟨final, released, rest⟩ := bind_ok.mp rest
    cases rest
    obtain ⟨forgotten, keeps⟩ := sorted.forget removed ((middle.page newpage).flags ||| pageFlagsError)
    obtain ⟨after, later⟩ := forgotten.pmmRelease released
    exact orderly.move found .done after trivial
      (others.spares fun other different => (keeps other different).trans (later other)) nofun
  | case5 | case12 =>
    obtain ⟨final, released, same⟩ := map_ok.mp ran
    cases same
    exact orderly.goOn found trivial nofun (sorted.pmmRelease released)
  | case7 => cases ran
  | _ =>
    cases ran
    exact orderly.goOn found trivial nofun sorted.stays

theorem Activity.Orderly.act (orderly : activity.Orderly) {action : Action} (may : Permitted activity action)
    (moved : activity.act action = .ok after) : after.Orderly := by
  have sorted := orderly.sorted
  revert moved
  fun_cases Activity.act activity action with intro moved
  | case1 =>
    cases moved
    exact Activity.Orderly.begin orderly rfl trivial
  | case2 | case7 => cases moved
  | case3 vnode offset id =>
    obtain ⟨free, anonymous, whole, present⟩ := may
    obtain ⟨next, pushed, rfl⟩ := map_ok.mp moved
    obtain ⟨_, pushed⟩ := guard_ok.mp pushed
    obtain ⟨result, walked, rest⟩ := bind_ok.mp pushed
    cases result with
    | some found =>
      cases rest
      exact orderly
    | none =>
      rw [sorted.linked.findpage] at walked
      have outside : id ∉ activity.index.cache.cached := fun inside => ((sorted.plain id).mp inside).1 anonymous
      obtain ⟨final, keeps, _⟩ := sorted.add (Except.ok.inj walked) outside
        ((hasFlag_or (by decide) _).trans whole) present rest
      exact orderly.change final (free.spares keeps)
  | case4 id =>
    obtain ⟨next, evicted, rfl⟩ := map_ok.mp moved
    exact orderly.drop (fun one => (may one).1) (sorted.evict (fun one => (may one).2) evicted)
  | case5 id =>
    obtain ⟨next, taken, rfl⟩ := map_ok.mp moved
    exact orderly.drop (fun one => (may one).1) (sorted.takepage (fun one => (may one).2) taken)
  | case6 vnode offset =>
    obtain ⟨result, cut, final, keeps⟩ := sorted.truncate vnode offset
    obtain ⟨other, same, rfl⟩ := map_ok.mp moved
    rw [cut] at same
    cases same
    exact (orderly.change final fun id _ => keeps id).begin rfl trivial
  | case8 position outcome stage found =>
    obtain ⟨result, ran, rfl⟩ := map_ok.mp moved
    exact orderly.proceed may found ran

theorem empty_orderly : Activity.empty.Orderly := by
  refine ⟨⟨⟨Chains.holds_empty, Chains.holds_empty, List.nodup_nil, rfl⟩, ?_, nofun, rfl⟩, nofun, ?_⟩
  · intro id
    apply iff_of_false List.not_mem_nil
    intro plain
    exact plain.1 rfl
  · intro id
    exact Nat.zero_le 1

end Stages

/-- In every run in which each action is permitted, each page at an offset of a vnode is on the hash chain of its key and
on the list of the vnode, which are well linked and hold no other pages. No two pages are at the same offset, the pages are
counted, and every page that was removed was in the chains. -/
theorem page_index_sound {activity : Activity} (reached : Reaches Activity.act Permitted .empty activity) :
    (∃ tables vnodes, activity.index.table.Holds tables ∧ activity.index.vnodes.Holds vnodes ∧
      (∀ id entry, id ∈ tables entry ↔ activity.index.Plain id ∧ activity.index.entryOf id = some entry) ∧
      ∀ id vnode, id ∈ vnodes vnode ↔ activity.index.Plain id ∧ (activity.index.page id).backing = some vnode) ∧
    (∀ one two, activity.index.Plain one → activity.index.Plain two →
      (activity.index.page one).backing = (activity.index.page two).backing →
      (activity.index.page one).offset = (activity.index.page two).offset → one = two) ∧
    (∃ cached : List Nat, cached.Nodup ∧ (∀ id, id ∈ cached ↔ activity.index.Plain id) ∧
      activity.index.cachedpages = cached.length) ∧ activity.index.sound = true := by
  have orderly : activity.Orderly := by
    apply reached.keeps Activity.Orderly
    · intro before action after kept may moved
      exact kept.act may moved
    · exact empty_orderly
  have sorted := orderly.sorted
  have linked := sorted.linked
  refine ⟨⟨_, _, linked.table, linked.vnodes, ?_, ?_⟩, ?_, ⟨_, linked.distinct, sorted.plain, linked.counted⟩,
    sorted.sound⟩
  · intro id entry
    rw [Chains.mem_grouped, sorted.plain]
  · intro id vnode
    rw [Chains.mem_grouped, sorted.plain]
  · intro one two plain_one plain_two
    exact sorted.unique one ((sorted.plain one).mpr plain_one) two ((sorted.plain two).mpr plain_two)

/-- A page is pushed and cut off. -/
theorem pushed_page_counted :
    ∃ pushed cut, Activity.act .empty (.pushpage 1 0 5) = .ok pushed ∧ pushed.act (.truncate 1 0) = .ok cut ∧
      pushed.index.cachedpages = 1 ∧ cut.index.cachedpages = 0 ∧ (∃ cached : List Nat, cached.Nodup ∧
        (∀ id, id ∈ cached ↔ cut.index.Plain id) ∧ cut.index.cachedpages = cached.length) ∧ cut.index.sound = true := by
  have counts : (do
      let pushed ← Activity.act .empty (.pushpage 1 0 5)
      let cut ← pushed.act (.truncate 1 0)
      pure (pushed.index.cachedpages, cut.index.cachedpages)) = .ok (1, 0) := by
    decide +kernel
  obtain ⟨pushed, pushing, counts⟩ := bind_ok.mp counts
  obtain ⟨cut, cutting, counts⟩ := bind_ok.mp counts
  obtain ⟨one, none_left⟩ := Prod.mk.inj (Except.ok.inj counts)
  have first : Reaches Activity.act Permitted .empty pushed :=
    Reaches.next .refl (show Permitted .empty (.pushpage 1 0 5) from ⟨nofun, rfl, rfl, rfl⟩) pushing
  have second := first.next (show Permitted pushed (.truncate 1 0) from trivial) cutting
  obtain ⟨_, _, cached, sound⟩ := page_index_sound second
  exact ⟨pushed, cut, pushing, cutting, one, none_left, cached, sound⟩

/-- A page is loaded, and while the file system reads it the file is truncated. Another page is loaded at the same
offset before the first load fails. -/
def overtaken : List Action :=
  [.getpage 1 0, .proceed 0 ⟨none, false⟩, .proceed 0 ⟨some 5, false⟩, .proceed 0 ⟨none, false⟩, .truncate 1 0,
    .getpage 1 0, .proceed 2 ⟨none, false⟩, .proceed 2 ⟨some 6, false⟩, .proceed 2 ⟨none, false⟩,
    .proceed 0 ⟨none, true⟩, .proceed 0 ⟨none, false⟩]

/-- The page of the load that fails is removed a second time, so the other page is lost from both lists. -/
theorem truncated_page_removed_twice : ((overtaken.foldlM Activity.act .empty).toOption.map fun activity =>
      (activity.index.sound, activity.index.cachedpages, (activity.index.page 6).backing,
        (activity.index.page 6).truncated)) = some (false, 0, some 1, false) ∧
    ((overtaken.foldlM Activity.act .empty).toOption.map fun activity =>
      (activity.index.vnodes.head 1, activity.index.table.head (getentry 1 0))) = some (none, none) := by
  constructor
  all_goals decide +kernel

end Astral.Vmmcache
