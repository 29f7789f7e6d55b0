import Astral.Proof.PageCache
import Astral.Proof.Words

namespace Astral.Vmmcache

open Function Astral.Library

variable {after : Cache} {id : Nat} {page : Page} {dirtylist : Deque Nat} {call : Call} {system : System}

/-- The offset of a page looks like flags without the dirty one. -/
theorem aligned_no_flag {offset : Nat} (aligned : offset % pageSize = 0) : offset &&& pageFlagsDirty.toNat = 0 := by
  have clear : offset.testBit 3 = false := by
    rw [Nat.testBit_eq_decide_div_mod_eq, decide_eq_false_iff_not]
    unfold pageSize at aligned
    omega
  apply Nat.eq_of_testBit_eq
  intro index
  rw [Nat.testBit_and, show pageFlagsDirty.toNat = 2 ^ 3 from rfl, Nat.testBit_two_pow, Nat.zero_testBit]
  by_cases third : 3 = index
  · rw [← third, clear]
    rfl
  · simp [third]

/-- Pages start at page boundaries, and the dirty list links exactly the dirty pages. -/
structure Cache.Sound (cache : Cache) : Prop where
  aligned : ∀ id, (cache.pages id).offset % pageSize = 0
  listed : ∃ members, cache.dirtylist.Holds members ∧ ∀ id, id ∈ members ↔ (cache.pages id).dirty = true

section Sound

variable {cache : Cache}

@[simp] theorem setPage_self (cache : Cache) (id : Nat) (page : Page) : (cache.setPage id page).pages id = page :=
  update_self ..

@[simp] theorem setPage_of_ne {other : Nat} (different : other ≠ id) (cache : Cache) (page : Page) :
    (cache.setPage id page).pages other = cache.pages other :=
  update_of_ne different ..

/-- The failures of a step are the business of others. -/
def Keeps (result : Except Fault Cache) : Prop := Yields (fun _ => True) result Cache.Sound

section

variable (sound : cache.Sound)
include sound

/-- A page is changed, and it enters or leaves the dirty list with its flag. -/
theorem Cache.Sound.relist (id : Nat) (page : Page) (members : List Nat) (aligned : page.offset % pageSize = 0)
    (pages : after.pages = (cache.setPage id page).pages) (holds : after.dirtylist.Holds members)
    (here : id ∈ members ↔ page.dirty = true)
    (others : ∀ other, other ≠ id → (other ∈ members ↔ (cache.pages other).dirty = true)) : after.Sound where
  aligned other := by
    rw [pages]
    by_cases same : other = id
    · rw [same, setPage_self]
      exact aligned
    · rw [setPage_of_ne same]
      exact sound.aligned other
  listed := by
    refine ⟨members, holds, ?_⟩
    intro other
    rw [pages]
    by_cases same : other = id
    · rw [same, setPage_self]
      exact here
    · rw [setPage_of_ne same]
      exact others other same

/-- A change of a page that keeps it clean or dirty. -/
theorem Cache.Sound.setPage (aligned : page.offset % pageSize = 0) (same : page.dirty = (cache.pages id).dirty) :
    (cache.setPage id page).Sound := by
  obtain ⟨members, holds, dirty⟩ := sound.listed
  refine sound.relist id page members aligned rfl holds ?_ fun other _ => dirty other
  rw [same]
  exact dirty id

theorem Cache.Sound.setFlags (id : Nat) {mask : PageFlags} (clear : hasFlag mask pageFlagsDirty = false) :
    (cache.setFlags id ((cache.pages id).flags ||| mask)).Sound :=
  sound.setPage (sound.aligned id) (hasFlag_or clear _)

/-- Only the pages and the dirty list count. -/
theorem Cache.Sound.congr {other : Cache} (pages : other.pages = cache.pages)
    (dirtylist : other.dirtylist = cache.dirtylist) : other.Sound where
  aligned := by
    rw [pages]
    exact sound.aligned
  listed := by
    rw [pages, dirtylist]
    exact sound.listed

theorem removepage_sound (id : Nat) :
    Yields (fun _ => True) (cache.removepage id) fun after => after.Sound ∧ after.pages = cache.pages := by
  unfold Cache.removepage
  split
  · exact trivial
  · exact ⟨sound.congr rfl rfl, rfl⟩

theorem pmmHold_sound (id : Nat) : Keeps (cache.pmmHold id) := by
  unfold Cache.pmmHold
  simp only
  split
  · exact trivial
  · exact sound.setPage (sound.aligned id) rfl

theorem pmmRelease_sound (id : Nat) : Keeps (cache.pmmRelease id) := by
  fun_cases Cache.pmmRelease cache id with
  | case1 | case2 => exact trivial
  | case3 _ _ _ flags =>
    simp only [flags]
    split
    · exact sound.setPage (sound.aligned id) (hasFlag_or (by decide) _)
    · exact sound.setPage (sound.aligned id) rfl
  | case4 => exact sound.setPage (sound.aligned id) rfl

/-- A page that is withdrawn is not dirty. -/
theorem withdraw_sound (id : Nat) : Yields (fun _ => True) (cache.withdraw id) fun result =>
      result.2.Sound ∧ (result.1 = true → (result.2.pages id).dirty = false) := by
  unfold Cache.withdraw
  fun_cases Page.withdraw (cache.pages id) cache (cache.removepage id) with
  | case1 => exact ⟨sound, fun removed => by cases removed⟩
  | case2 _ single =>
    simp only [Bool.and_eq_true, Bool.not_eq_true'] at single
    exact ⟨sound, fun _ => single.2⟩
  | case3 _ single =>
    simp only [Bool.and_eq_true, Bool.not_eq_true'] at single
    apply Yields.map
    apply (removepage_sound sound id).imp
    intro after ⟨kept, pages⟩
    refine ⟨kept, fun _ => ?_⟩
    rw [pages]
    exact single.2
  | case4 => exact trivial

theorem evict_sound (id : Nat) : Keeps (cache.evict id) := by
  apply (withdraw_sound sound id).bind
  intro ⟨removed, after⟩ ⟨kept, clean⟩
  cases removed with
  | true =>
    have clear : Page.dirty { after.pages id with flags := 0, backing := none, offset := 0 } = false := by
      simp [Page.dirty, hasFlag]
    exact kept.setPage rfl (clear.trans (clean rfl).symm)
  | false => exact kept

theorem takepage_sound (id : Nat) : Keeps (cache.takepage id) :=
  (withdraw_sound sound id).bind fun _ kept => kept.1

theorem truncate_sound (vnode offset : Nat) : Keeps (cache.truncate vnode offset) := by
  have marks (cache : Cache) (id : Nat) (sound : cache.Sound) : Keeps (cache.truncatePage id) :=
    (removepage_sound (sound.setFlags id (by decide)) id).imp fun _ kept => kept.1
  have unpins (cache : Cache) (id : Nat) (sound : cache.Sound) : Keeps (cache.unpin id) := by
    unfold Cache.unpin
    split
    · exact pmmRelease_sound sound id
    · exact sound
  exact (Yields.foldlM marks _ sound).bind fun _ kept => Yields.foldlM unpins _ kept

omit sound in
/-- Both ends of the dirty list tell whether it is empty. -/
theorem pushDirty_eq {members : List Nat} (holds : dirtylist.Holds members) (id : Nat) :
    Cache.pushDirty dirtylist id = dirtylist.pushFront id := by
  have ends : dirtylist.head = none ↔ dirtylist.tail = none := by
    rw [holds.head, holds.tail, List.head?_eq_none_iff, List.getLast?_eq_none_iff]
  unfold Cache.pushDirty Deque.pushFront
  simp only [ends]

omit sound in
/-- The last page has nothing after it. -/
theorem popDirty_eq {rest : Deque Nat} {before : List Nat} (holds : dirtylist.Holds (before ++ [id]))
    (popped : dirtylist.popBack = some (id, rest)) : Cache.popDirty dirtylist id = rest := by
  have tail : dirtylist.tail = some id := holds.tail_iff.mpr rfl
  have next_none : dirtylist.next id = none := holds.next before id [] rfl
  unfold Deque.popBack at popped
  rw [tail] at popped
  cases popped
  unfold Cache.popDirty
  congr 1
  cases dirtylist.prev id with
  | none => exact (update_eq_self_iff.mpr next_none.symm).symm
  | some left =>
    have last_none : update dirtylist.next left none id = none := by
      rw [update_apply, next_none, ite_self]
    exact (update_eq_self_iff.mpr last_none.symm).symm

/-- A page that becomes dirty is put in front of the dirty list. -/
theorem makedirty_sound (id : Nat) : Keeps (cache.makedirty id) := by
  unfold Cache.makedirty
  simp only
  split
  · exact sound
  next clean =>
    simp only [Bool.or_eq_true, not_or, Bool.not_eq_true] at clean
    obtain ⟨members, holds, dirty⟩ := sound.listed
    have outside : id ∉ members := by
      rw [dirty id, clean.1]
      exact Bool.false_ne_true
    have linked : Cache.Sound
        { cache.setFlags id ((cache.pages id).flags ||| pageFlagsDirty) with
          dirtylist := Cache.pushDirty cache.dirtylist id } := by
      apply sound.relist id { cache.pages id with flags := (cache.pages id).flags ||| pageFlagsDirty } (id :: members)
        (sound.aligned id)
      · rfl
      · rw [pushDirty_eq holds]
        exact holds.pushFront outside
      · exact ⟨fun _ => hasFlag_set _ (by decide), fun _ => List.mem_cons_self⟩
      · intro other different
        rw [List.mem_cons, or_iff_right different, dirty other]
    apply (pmmHold_sound linked id).bind
    intro after kept
    split
    · exact trivial
    · exact kept

/-- The last page of the dirty list becomes clean. -/
theorem takeLast_sound (last : cache.dirtylist.tail = some id) : Keeps (cache.takeLast id) := by
  obtain ⟨members, holds, dirty⟩ := sound.listed
  obtain ⟨before, rfl⟩ : ∃ before, members = before ++ [id] := by
    rw [holds.tail] at last
    exact List.getLast?_eq_some_iff.mp last
  obtain ⟨rest, popped, rest_holds, _⟩ := holds.popBack
  have outside : id ∉ before := fun member => (List.nodup_append.mp holds.distinct).2.2 id member id (by simp) rfl
  unfold Cache.takeLast Cache.syncpage
  split
  · apply sound.relist id { cache.pages id with flags := (cache.pages id).flags &&& ~~~pageFlagsDirty } before
      (sound.aligned id)
    · rfl
    · exact (popDirty_eq holds popped).symm ▸ rest_holds
    · exact ⟨fun member => absurd member outside,
      fun set => absurd ((hasFlag_cleared ..).symm.trans set) Bool.false_ne_true⟩
    · intro other different
      rw [← dirty other, List.mem_append, List.mem_singleton, or_iff_left different]
  · exact trivial

theorem select_sound (vnode offset top : Nat) : cache.select vnode offset top = (cache, []) := by
  unfold Cache.select
  generalize cache.vnodePages vnode = ids
  induction ids with
  | nil => rfl
  | cons id rest ih =>
    have skipped : Cache.selectPage offset top (cache, []) id = (cache, []) := by
      apply if_neg
      simp [Cache.selects, aligned_no_flag (sound.aligned id)]
    rw [List.foldl_cons, skipped]
    exact ih

end

/-- The part of a call that runs next starts at a page boundary. No page is ever selected for syncing. -/
def Part.Aligned : Part → Prop
  | .find _ offset => offset % pageSize = 0
  | .add _ offset _ => offset % pageSize = 0
  | .push _ offset _ => offset % pageSize = 0
  | .syncpage _ _ => False
  | _ => True

def Call.Aligned : Call → Prop
  | .want part => part.Aligned
  | .inside part => part.Aligned
  | .alloc _ offset => offset % pageSize = 0
  | .wait _ offset _ => offset % pageSize = 0
  | .writeback _ next => ∀ part, next = some part → part.Aligned
  | _ => True

/-- What a step of a call leaves behind. -/
def Fine (result : Cache × Call) : Prop := result.1.Sound ∧ result.2.Aligned

theorem goOn_aligned {next : Option Part} (aligned : ∀ part, next = some part → part.Aligned) :
    (goOn next).Aligned := by
  cases next with
  | none => exact trivial
  | some part => exact aligned part rfl

theorem writeback_sound (sound : cache.Sound) (id : Nat) : Keeps (cache.writeback id) := by
  unfold Cache.writeback
  simp only
  split
  · exact trivial
  · split
    · exact pmmRelease_sound sound id
    · next vnode _ _ =>
      have recorded : Cache.Sound { cache with putpages := cache.putpages ++ [(vnode, (cache.pages id).offset, id)] } :=
        sound.congr rfl rfl
      exact pmmRelease_sound recorded id

/-- A new page enters the cache. -/
theorem putpage_sound (sound : cache.Sound) (aligned : page.offset % pageSize = 0)
    (same : page.dirty = (cache.pages id).dirty) : ((cache.setPage id page).putpage id).Sound :=
  (sound.setPage aligned same).congr rfl rfl

theorem perform_sound (sound : cache.Sound) {part : Part} (aligned : part.Aligned) :
    Yields (fun _ => True) (part.perform cache) Fine := by
  fun_cases Part.perform cache part with
  | case1 => exact Yields.map ((pmmHold_sound sound _).imp fun _ kept => ⟨kept, aligned⟩)
  | case2 => exact ⟨sound, aligned⟩
  | case3 =>
    apply (pmmHold_sound sound _).bind
    intro held kept
    exact (pmmRelease_sound kept _).bind fun _ kept => ⟨kept, aligned⟩
  | case4 => exact ⟨putpage_sound sound aligned rfl, trivial⟩
  | case5 newpage =>
    apply (removepage_sound sound newpage).bind
    rintro removed ⟨kept, _⟩
    have failed : Cache.Sound (removed.setPage newpage { removed.pages newpage with
        flags := (removed.pages newpage).flags ||| pageFlagsError, backing := none, offset := 0 }) :=
      kept.setPage rfl (hasFlag_or (by decide) _)
    exact (pmmRelease_sound failed newpage).bind fun _ kept => ⟨kept, trivial⟩
  | case7 => exact ⟨putpage_sound sound aligned (hasFlag_or (by decide) _), trivial⟩
  | case8 page => exact Yields.map ((evict_sound sound page).imp fun _ kept => ⟨kept, trivial⟩)
  | case9 page => exact Yields.map ((takepage_sound sound page).imp fun _ kept => ⟨kept, trivial⟩)
  | case10 vnode offset => exact Yields.map ((truncate_sound sound vnode offset).imp fun _ kept => ⟨kept, trivial⟩)
  | case11 vnode offset top _ _ selected =>
    cases (select_sound sound vnode offset top).symm.trans selected
    exact ⟨sound, trivial⟩
  | case12 => exact aligned.elim
  | case14 page => exact Yields.map ((makedirty_sound sound page).imp fun _ kept => ⟨kept, trivial⟩)
  | case16 page last =>
    apply Yields.map
    apply (takeLast_sound sound last).imp
    intro _ kept
    refine ⟨kept, fun part same => ?_⟩
    cases same
    exact trivial
  | _ => exact ⟨sound, trivial⟩

theorem proceed_sound (sound : cache.Sound) (aligned : call.Aligned) (outcome : Outcome) :
    Yields (fun _ => True) (call.proceed cache outcome) Fine := by
  fun_cases Call.proceed cache outcome call with
  | case1 | case5 | case7 | case10 => exact ⟨sound, trivial⟩
  | case3 _ _ _ _ unused =>
    simp only [Bool.or_eq_true, not_or, Bool.not_eq_true] at unused
    exact ⟨sound.setPage rfl (Eq.trans (by decide) unused.2.symm), aligned⟩
  | case4 _ _ page => exact Yields.map ((pmmRelease_sound sound page).imp fun _ kept => ⟨kept, aligned⟩)
  | case8 newpage => exact ⟨sound.setFlags newpage (by decide), trivial⟩
  | case9 page =>
    apply Yields.map
    exact (writeback_sound sound page).imp fun _ kept => ⟨kept, goOn_aligned aligned⟩
  | _ => exact trivial

theorem enter_aligned (request : Request) : Yields (fun _ => True) request.enter Part.Aligned := by
  fun_cases Request.enter request with
  | case1 _ _ aligned | case3 _ _ _ aligned => exact aligned
  | _ => exact trivial

/-- The cache is sound, and so are the offsets that the calls have. -/
def System.Sound (system : System) : Prop := system.cache.Sound ∧ ∀ call ∈ system.calls, call.Aligned

/-- One call goes on. -/
theorem System.Sound.set (sound : system.Sound) {cache : Cache} (fine : Fine (cache, call)) (index mutex : Nat) :
    System.Sound ⟨cache, mutex, system.calls.set index call⟩ :=
  ⟨fine.1, forall_exchange sound.2 fine.2⟩

theorem step_sound (sound : system.Sound) (event : Event) :
    Yields (fun _ => True) (step system event) System.Sound := by
  fun_cases step system event with
  | case1 request =>
    apply (enter_aligned request).bind
    intro part aligned
    exact ⟨sound.1, forall_added sound.2 aligned⟩
  | case2 index =>
    fun_cases System.hold system index with
    | case2 part found =>
      have aligned : Call.Aligned (.inside part) := sound.2 (.want part) (List.mem_of_getElem? found)
      exact sound.set ⟨sound.1, aligned⟩ index _
    | _ => exact trivial
  | case3 index =>
    fun_cases System.release system index with
    | case1 part found =>
      apply (perform_sound sound.1 (sound.2 (.inside part) (List.mem_of_getElem? found))).bind
      exact fun _ fine => sound.set fine index _
    | case2 =>
      have fine : Fine (system.cache, .returned) := ⟨sound.1, trivial⟩
      exact sound.set fine index _
    | case3 => exact trivial
  | case4 index outcome =>
    fun_cases System.proceed system index outcome with
    | case1 call found =>
      apply (proceed_sound sound.1 (sound.2 call (List.mem_of_getElem? found)) outcome).bind
      exact fun _ fine => sound.set fine index _
    | case2 => exact trivial

/-- Every run keeps the dirty list well formed. -/
theorem system_sound {allowed : System → Event → Prop} (reached : Reaches step allowed initial system) :
    system.cache.Sound := by
  have start : initial.Sound := by
    refine ⟨⟨fun _ => rfl, [], Deque.holds_empty, ?_⟩, fun _ member => absurd member List.not_mem_nil⟩
    intro id
    have clean : (initial.cache.pages id).dirty = false := show Page.dirty ⟨none, 0, 0, 0⟩ = false by decide
    rw [clean]
    simp
  have kept : system.Sound := reached.keeps System.Sound (fun _ event _ sound _ stepped =>
    (step_sound sound event).of_ok stepped) start
  exact kept.1

end Sound

section Sync

variable {cache : Cache} {vnode offset size : Nat}

/-- The dirty pages of a vnode in a range that starts at a page boundary. -/
def Cache.due (cache : Cache) (vnode offset size : Nat) : List Nat :=
  (cache.vnodePages vnode).filter fun id =>
    (cache.pages id).dirty && roundDown offset pageSize ≤ (cache.pages id).offset &&
      (cache.pages id).offset < roundDown offset pageSize + size

/-- Each page that was due is written once and clean, and the dirty list has exactly the other dirty pages. -/
structure Synced (vnode : Nat) (due : List Nat) (before after : Cache) : Prop where
  written : ∃ ids : List Nat, ids.Nodup ∧ (∀ id, id ∈ ids ↔ id ∈ due) ∧
    after.putpages = before.putpages ++ ids.map fun id => (vnode, (before.pages id).offset, id)
  clean : ∀ id ∈ due, (after.pages id).dirty = false
  listed : ∃ members, after.dirtylist.Holds members ∧ ∀ id, id ∈ members ↔ (before.pages id).dirty = true ∧ id ∉ due

/-- A call that finds no page to sync changes nothing. -/
theorem syncvnode_eq (sound : cache.Sound) (fits : offset + size < wordSize) :
    cache.syncvnode vnode offset size = if size = 0 then .error .assertion else .ok cache := by
  have low : roundDown offset pageSize ≤ offset := Nat.sub_le _ _
  have top : addWord (roundDown offset pageSize) size = roundDown offset pageSize + size := Nat.mod_eq_of_lt (by omega)
  simp only [Cache.syncvnode, top, select_sound sound, List.foldlM_nil]
  by_cases empty : size = 0
  · rw [if_pos empty, if_neg (by omega)]
  · rw [if_neg empty, if_pos (by omega)]
    rfl

/-- Syncing a vnode does its work if and only if the range is not empty and has no dirty page. -/
theorem syncvnode_synced (sound : cache.Sound) (fits : offset + size < wordSize) :
    (∃ after, cache.syncvnode vnode offset size = .ok after ∧ Synced vnode (cache.due vnode offset size) cache after) ↔
      size ≠ 0 ∧ cache.due vnode offset size = [] := by
  rw [syncvnode_eq sound fits]
  constructor
  · intro ⟨after, ran, synced⟩
    split at ran
    · cases ran
    next nonempty =>
      cases ran
      refine ⟨nonempty, List.eq_nil_iff_forall_not_mem.mpr ?_⟩
      intro id member
      have still : (cache.pages id).dirty = true := by
        have chosen := (List.mem_filter.mp member).2
        simp only [Bool.and_eq_true] at chosen
        exact chosen.1.1
      have clean := synced.clean id member
      rw [still] at clean
      cases clean
  · intro ⟨nonempty, none_due⟩
    rw [if_neg nonempty, none_due]
    obtain ⟨members, holds, dirty⟩ := sound.listed
    exact ⟨cache, rfl,
      { written := ⟨[], List.nodup_nil, fun _ => Iff.rfl, by simp⟩
        clean := fun _ member => absurd member List.not_mem_nil
        listed := ⟨members, holds, fun id => by simp [dirty id]⟩ }⟩

/-- The function does what its call does in the system when nothing else runs. -/
theorem syncvnode_runs (sound : cache.Sound) (ran : cache.syncvnode vnode offset size = .ok after) :
    Reaches step (fun _ _ => True) ⟨cache, 1, []⟩ ⟨after, 1, [.done]⟩ := by
  simp only [Cache.syncvnode, select_sound sound, List.foldlM_nil] at ran
  obtain ⟨nonempty, same⟩ := guard_ok.mp ran
  have same : cache = after := Except.ok.inj same
  subst same
  have started : step ⟨cache, 1, []⟩ (.start (.syncvnode vnode offset size)) = .ok ⟨cache, 1, [.want
      (.select vnode (roundDown offset pageSize) (addWord (roundDown offset pageSize) size))]⟩ := by
    simp only [step, System.start, Request.enter, if_pos nonempty]
    rfl
  have held (part : Part) : step ⟨cache, 1, [.want part]⟩ (.hold 0) = .ok ⟨cache, 0, [.inside part]⟩ := rfl
  have released (start top : Nat) :
      step ⟨cache, 0, [.inside (.select vnode start top)]⟩ (.release 0) = .ok ⟨cache, 1, [.done]⟩ := by
    simp only [step, System.release, List.getElem?_cons_zero, Part.perform, select_sound sound]
    rfl
  have begun : Reaches step (fun _ _ => True) ⟨cache, 1, []⟩ _ := Reaches.next .refl trivial started
  exact (begun.next trivial (held _)).next trivial (released _ _)

/-- A page is loaded and becomes dirty. -/
def dirtying : List Event :=
  [.start (.getpage 3 0), .hold 0, .release 0, .proceed 0 ⟨some 7, false⟩, .hold 0, .release 0,
    .proceed 0 ⟨none, false⟩, .release 0, .start (.makedirty 7), .hold 1, .release 1]

theorem dirtying_reached : ∃ system, dirtying.foldlM step initial = .ok system ∧
    Reaches step (fun _ _ => True) initial system :=
  ⟨_, rfl, Reaches.of_foldlM dirtying (fun _ _ _ => trivial) rfl⟩

/-- A dirty page stays dirty and is not written. -/
theorem dirty_page_not_written : ∃ system, Reaches step (fun _ _ => True) initial system ∧
    system.cache.due 3 0 pageSize = [7] ∧ ∃ after, system.cache.syncvnode 3 0 pageSize = .ok after ∧
      after.putpages = [] ∧ (after.pages 7).dirty = true := by
  obtain ⟨system, ran, reached⟩ := dirtying_reached
  have synced : system.cache.syncvnode 3 0 pageSize = .ok system.cache := syncvnode_eq (system_sound reached) (by decide)
  refine ⟨system, reached, ?_, system.cache, synced, ?_, ?_⟩
  · cases ran
    decide
  all_goals
    cases ran
    rfl

/-- The range behind the dirty page is synced. -/
theorem clean_range_synced : ∃ system, Reaches step (fun _ _ => True) initial system ∧
    ∃ after, system.cache.syncvnode 3 pageSize pageSize = .ok after ∧
      Synced 3 (system.cache.due 3 pageSize pageSize) system.cache after := by
  obtain ⟨system, ran, reached⟩ := dirtying_reached
  refine ⟨system, reached, (syncvnode_synced (system_sound reached) (by decide)).mpr ⟨by decide, ?_⟩⟩
  cases ran
  decide

/-- However the calls are interleaved, the dirty list links exactly the dirty pages, and the writer finds each page that
it takes from there dirty. -/
theorem dirty_list_exact {system : System} (reached : Reaches step (fun _ _ => True) initial system) :
    (∃ members, system.cache.dirtylist.Holds members ∧ ∀ id, id ∈ members ↔ (system.cache.pages id).dirty = true) ∧
    ∀ id, system.cache.dirtylist.tail = some id → ∃ after, system.cache.takeLast id = .ok after := by
  obtain ⟨members, holds, dirty⟩ := (system_sound reached).listed
  refine ⟨⟨members, holds, dirty⟩, fun id last => ⟨_, if_pos ((dirty id).mp ?_)⟩⟩
  rw [holds.tail] at last
  exact List.mem_of_getLast? last

theorem dirtying_taken : ∃ system, dirtying.foldlM step initial = .ok system ∧
    ∃ after, system.cache.takeLast 7 = .ok after := by
  obtain ⟨system, ran, reached⟩ := dirtying_reached
  refine ⟨system, ran, (dirty_list_exact reached).2 7 ?_⟩
  cases ran
  rfl

end Sync

end Astral.Vmmcache
