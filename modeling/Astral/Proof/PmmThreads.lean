import Astral.Construction.PmmThreads
import Astral.Proof.Pmm

namespace Astral.Pmm

open Function Astral.Library

variable {pc new : Pc} {memory : Watched} {entries : List Entry} {system : System}

section Counts

/-- The thread will put the page into its place, which it is not in. -/
def Pc.awaits (page : Nat) : Pc → Bool
  | .taken other => other = page
  | .dropping other _ => other = page
  | _ => false

/-- The thread has a reference of its own to the page. -/
def Pc.refers (page : Nat) : Pc → Bool
  | .cached _ other => other = page
  | .claimed other => other = page
  | .again _ other => other = page
  | _ => false

@[simp] theorem Pc.awaits_taken (page : Nat) : (Pc.taken page).awaits page = true := decide_eq_true rfl

@[simp] theorem Pc.awaits_dropping (page : Nat) (next : Option Section) : (Pc.dropping page next).awaits page = true :=
  decide_eq_true rfl

@[simp] theorem Pc.refers_cached (place : Section) (page : Nat) : (Pc.cached place page).refers page = true :=
  decide_eq_true rfl

@[simp] theorem Pc.refers_claimed (page : Nat) : (Pc.claimed page).refers page = true := decide_eq_true rfl

@[simp] theorem Pc.refers_again (place : Section) (page : Nat) : (Pc.again place page).refers page = true :=
  decide_eq_true rfl

/-- The thread does not work on this page. -/
structure Pc.Spares (pc : Pc) (page : Nat) : Prop where
  awaits : pc.awaits page = false
  refers : pc.refers page = false
  claims : pc ≠ .claimed page
  drops : ∀ next, pc ≠ .dropping page next

/-- The page that a thread works on. -/
def Pc.target : Pc → Option Nat
  | .idle => none
  | .retry _ => none
  | .taken page => some page
  | .cached _ page => some page
  | .claimed page => some page
  | .again _ page => some page
  | .dropping page _ => some page

theorem Pc.spares {page : Nat} (different : pc.target ≠ some page) : pc.Spares page := by
  cases pc with
  | idle | retry => exact ⟨rfl, rfl, nofun, nofun⟩
  | taken | cached | claimed | again | dropping => constructor <;> simp_all [target, awaits, refers]

@[simp] theorem Pc.target_after (next : Option Section) : (Pc.after next).target = none := by
  cases next with
  | none | some => rfl

def awaiting (threads : List Pc) (page : Nat) : Nat := threads.countP (Pc.awaits page)

def referring (threads : List Pc) (page : Nat) : Nat := threads.countP (Pc.refers page)

variable {threads : List Pc} {index page : Nat} {old : Pc}

theorem awaiting_pos (member : pc ∈ threads) (awaits : pc.awaits page = true) : 0 < awaiting threads page :=
  List.countP_pos_iff.mpr ⟨pc, member, awaits⟩

theorem referring_pos (member : pc ∈ threads) (refers : pc.refers page = true) : 0 < referring threads page :=
  List.countP_pos_iff.mpr ⟨pc, member, refers⟩

theorem awaiting_elsewhere (found : threads[index]? = some old) (spared : old.Spares page) (spares : new.Spares page) :
    awaiting (threads.set index new) page = awaiting threads page :=
  countP_same found (spares.awaits.trans spared.awaits.symm)

theorem referring_elsewhere (found : threads[index]? = some old) (spared : old.Spares page) (spares : new.Spares page) :
    referring (threads.set index new) page = referring threads page :=
  countP_same found (spares.refers.trans spared.refers.symm)

/-- The thread works on this page or on none. -/
def Pc.Only (pc : Pc) (page : Nat) : Prop := ∀ other, other ≠ page → pc.Spares other

theorem Pc.only_of_none (free : pc.target = none) (page : Nat) : pc.Only page :=
  fun other _ => pc.spares (by simp [free])

theorem Pc.only_of_target (here : pc.target = some page) : pc.Only page := by
  intro other different
  apply pc.spares
  rw [here]
  intro same
  exact different (Option.some.inj same).symm

variable (found : threads[index]? = some old)
include found

/-- A thread takes over a page. -/
theorem away_joins (spared : old.Only page) (spares : new.Only page) (awaits : new.awaits page = true)
    (before : old.awaits page = false) : (fun other => other = page ∨ 0 < awaiting threads other) =
      fun other => 0 < awaiting (threads.set index new) other := by
  funext other
  apply propext
  by_cases same : other = page
  · have counted : awaiting (threads.set index new) page = awaiting threads page + 1 := countP_more found before awaits
    rw [same]
    exact iff_of_true (.inl rfl) (by omega)
  · have counted := awaiting_elsewhere found (spared other same) (spares other same)
    simp [same, counted]

/-- A thread puts a page into its place. -/
theorem away_leaves (spared : old.Only page) (spares : new.Only page) (single : awaiting threads page ≤ 1)
    (awaits : old.awaits page = true) (after : new.awaits page = false) :
    (fun other => 0 < awaiting threads other ∧ other ≠ page) =
      fun other => 0 < awaiting (threads.set index new) other := by
  funext other
  apply propext
  by_cases same : other = page
  · have counted : awaiting (threads.set index new) page + 1 = awaiting threads page := countP_less found awaits after
    rw [same]
    exact iff_of_false (by simp) (by omega)
  · have counted := awaiting_elsewhere found (spared other same) (spares other same)
    simp [same, counted]

/-- A thread goes on in another state. -/
theorem turn_counts (new : Pc) (page : Nat) :
    awaiting (threads.set index new) page + (if old.awaits page then 1 else 0) =
        awaiting threads page + (if new.awaits page then 1 else 0) ∧
      referring (threads.set index new) page + (if old.refers page then 1 else 0) =
        referring threads page + if new.refers page then 1 else 0 :=
  ⟨countP_exchange found new _, countP_exchange found new _⟩

/-- A thread goes on with no page in its hands. -/
theorem awaiting_stays (before : ∀ page, old.awaits page = false) (after : ∀ page, new.awaits page = false) :
    awaiting (threads.set index new) = awaiting threads := by
  funext other
  exact countP_same found ((after other).trans (before other).symm)

end Counts

/-- What holds of one page. -/
structure Fits (managed : Nat → Prop) (memory : Watched) (threads : List Pc) (page : Nat) : Prop where
  single : awaiting threads page ≤ 1
  counted : memory.pmm.refcount page = memory.refs page + referring threads page
  claims : .claimed page ∈ threads → memory.pmm.refcount page = 1
  dropped : ∀ next, .dropping page next ∈ threads → memory.pmm.free page = false
  tracks : memory.listed page = true ↔ managed page ∧ awaiting threads page = 0 ∧ memory.pmm.refcount page = 0
  owned : memory.out page = true → referring threads page = 0 ∧ 0 < memory.refs page

/-- All pages are in their places except for those that a thread has in its hands. -/
structure Consistent (managed : Nat → Prop) (memory : Watched) (threads : List Pc) : Prop where
  partition : ∃ members, Partition memory.pmm managed members fun page => 0 < awaiting threads page
  fits : ∀ page, Fits managed memory threads page
  sound : memory.sound = true

/-- Two states of the memory manager have the same record of a page. -/
structure Agrees (memory next : Watched) (page : Nat) : Prop where
  refcount : next.pmm.refcount page = memory.pmm.refcount page
  free : next.pmm.free page = memory.pmm.free page
  listed : next.listed page = memory.listed page
  out : next.out page = memory.out page
  refs : next.refs page = memory.refs page

section Steps

variable {managed : Nat → Prop} {next : Watched} {threads : List Pc} {index page : Nat} {old : Pc}

theorem Fits.elsewhere (fits : Fits managed memory threads page) (agrees : Agrees memory next page)
    (found : threads[index]? = some old) (spared : old.Spares page) (spares : new.Spares page) :
    Fits managed next (threads.set index new) page := by
  have awaits := awaiting_elsewhere found spared spares
  have refers := referring_elsewhere found spared spares
  refine ⟨?_, ?_, ?_, ?_, ?_, ?_⟩
  · rw [awaits]
    exact fits.single
  · rw [agrees.refcount, agrees.refs, refers]
    exact fits.counted
  · intro member
    rw [agrees.refcount]
    exact fits.claims ((List.mem_or_eq_of_mem_set member).resolve_right fun same => spares.claims same.symm)
  · intro place member
    rw [agrees.free]
    exact fits.dropped place ((List.mem_or_eq_of_mem_set member).resolve_right fun same => spares.drops place same.symm)
  · rw [agrees.listed, agrees.refcount, awaits]
    exact fits.tracks
  · rw [agrees.out, agrees.refs, refers]
    exact fits.owned

/-- A page in the hands of a thread. -/
theorem Fits.inHands (awaited : awaiting threads page = 1) (unreferred : referring threads page = 0)
    (zero : memory.pmm.refcount page = 0) (unowned : memory.refs page = 0) (unlisted : memory.listed page = false)
    (inside : memory.out page = false)
    (dropped : ∀ next, .dropping page next ∈ threads → memory.pmm.free page = false) :
    Fits managed memory threads page := by
  refine ⟨by omega, by omega, ?_, dropped, by simp [unlisted, awaited], by simp [inside]⟩
  intro member
  have referred : 0 < referring threads page := referring_pos member (Pc.refers_claimed page)
  omega

/-- A page with a reference. -/
theorem Fits.inUse (present : awaiting threads page = 0) (positive : 0 < memory.pmm.refcount page)
    (counted : memory.pmm.refcount page = memory.refs page + referring threads page)
    (claims : .claimed page ∈ threads → memory.pmm.refcount page = 1) (unlisted : memory.listed page = false)
    (owned : memory.out page = true → referring threads page = 0 ∧ 0 < memory.refs page) :
    Fits managed memory threads page := by
  refine ⟨by omega, counted, claims, ?_, ?_, owned⟩
  · intro next member
    have awaited : 0 < awaiting threads page := awaiting_pos member (Pc.awaits_dropping page next)
    omega
  · simp [unlisted, Nat.ne_of_gt positive]

section

variable (consistent : Consistent managed memory threads)
include consistent

/-- A step concerns one page. -/
theorem Consistent.move (found : threads[index]? = some old) (page : Nat) (spared : old.Only page)
    (spares : new.Only page) (agrees : ∀ other, other ≠ page → Agrees memory next other)
    (partition : ∃ members, Partition next.pmm managed members fun page => 0 < awaiting (threads.set index new) page)
    (here : Fits managed next (threads.set index new) page) (sound : next.sound = true) :
    Consistent managed next (threads.set index new) := by
  refine ⟨partition, ?_, sound⟩
  intro other
  by_cases same : other = page
  · rw [same]
    exact here
  · exact (consistent.fits other).elsewhere (agrees other same) found (spared other same) (spares other same)

theorem Consistent.inside (unowned : memory.refs page = 0) : memory.out page = false := by
  by_contra out
  have positive := ((consistent.fits page).owned (eq_true_of_ne_false out)).2
  omega

/-- A thread takes a page out of its list. -/
theorem Consistent.take (found : threads[index]? = some old) (free : old.target = none)
    (listed : memory.listed page = true) :
    Consistent managed (memory.remove page) (threads.set index (.taken page)) := by
  obtain ⟨members, partition⟩ := consistent.partition
  have fits := consistent.fits page
  obtain ⟨known, present, zero⟩ := fits.tracks.mp listed
  have member := partition.listed_of_zero known (by omega) zero
  have spared : old.Spares page := old.spares (by simp [free])
  obtain ⟨awaits, refers⟩ := turn_counts found (.taken page) page
  simp [spared.awaits, Pc.refers] at awaits refers
  apply consistent.move found page (Pc.only_of_none free page) (Pc.only_of_target rfl)
  · intro other different
    exact ⟨rfl, rfl, update_of_ne different .., rfl, rfl⟩
  · rw [← away_joins found (Pc.only_of_none free page) (Pc.only_of_target rfl) (Pc.awaits_taken page) spared.awaits]
    exact partition.take member
  · have counted := fits.counted
    have unowned : memory.refs page = 0 := by omega
    refine .inHands (by omega) (by omega) zero unowned (update_self ..) (consistent.inside unowned) ?_
    intro place inside
    exact fits.dropped place ((List.mem_or_eq_of_mem_set inside).resolve_right nofun)
  · simp [Watched.remove, Watched.unlist, Watched.setPmm, consistent.sound, listed]

/-- A page in the hands of a thread has no references. -/
theorem Consistent.unused (gone : 0 < awaiting threads page) :
    memory.pmm.refcount page = 0 ∧ managed page ∧ memory.refs page = 0 ∧ referring threads page = 0 := by
  obtain ⟨members, partition⟩ := consistent.partition
  obtain ⟨zero, known⟩ := (partition.proper page).absent gone
  have counted := (consistent.fits page).counted
  exact ⟨zero, known, by omega, by omega⟩

theorem Consistent.present (positive : 0 < memory.pmm.refcount page) : awaiting threads page = 0 := by
  by_contra gone
  have zero := (consistent.unused (Nat.pos_of_ne_zero gone)).1
  omega

theorem Consistent.unflagged (positive : 0 < memory.pmm.refcount page) : memory.pmm.free page = false := by
  obtain ⟨members, partition⟩ := consistent.partition
  by_contra flag
  have zero := ((partition.proper page).flagged (eq_true_of_ne_false flag)).1
  omega

theorem Consistent.unlisted (elsewhere : 0 < awaiting threads page ∨ 0 < memory.pmm.refcount page) :
    memory.listed page = false := by
  by_contra listed
  obtain ⟨_, present, zero⟩ := (consistent.fits page).tracks.mp (eq_true_of_ne_false listed)
  omega

/-- A thread hands out the page that it has taken. -/
theorem Consistent.doalloc (found : threads[index]? = some (.taken page)) (given : memory.doalloc page = .ok next) :
    Consistent managed next (threads.set index .idle) := by
  obtain ⟨members, partition⟩ := consistent.partition
  have fits := consistent.fits page
  have gone : 0 < awaiting threads page := awaiting_pos (List.mem_of_getElem? found) (Pc.awaits_taken page)
  obtain ⟨zero, known, unowned, unreferred⟩ := consistent.unused gone
  obtain ⟨awaits, refers⟩ := turn_counts found .idle page
  simp [Pc.awaits, Pc.refers] at awaits refers
  have single := fits.single
  obtain ⟨ran, after⟩ := partition.doalloc gone
  obtain ⟨other, same, rfl⟩ := map_ok.mp given
  rw [ran] at same
  cases same
  apply consistent.move found page (Pc.only_of_target rfl) (Pc.only_of_none rfl page)
  · intro other different
    exact ⟨update_of_ne different .., update_of_ne different .., rfl,
      update_of_ne different .., update_of_ne different ..⟩
  · rw [← away_leaves found (Pc.only_of_target rfl) (Pc.only_of_none rfl page) single (Pc.awaits_taken page) rfl]
    exact ⟨members, after⟩
  · have count : ((memory.pmm.wipe page).setRefcount page 1).refcount page = 1 := update_self ..
    have owned : ((memory.setPmm ((memory.pmm.wipe page).setRefcount page 1)).give page).refs page = 1 := by
      simp [Watched.give, Watched.setPmm, unowned]
    refine .inUse (by omega) (Nat.lt_of_lt_of_eq Nat.one_pos count.symm) ?_ (fun _ => count)
      (consistent.unlisted (.inl gone)) ?_
    · rw [owned, refers, unreferred]
      exact count
    · intro _
      omega
  · simp [Watched.give, Watched.setPmm, consistent.sound, consistent.inside unowned]

/-- A thread puts a page into its list. -/
theorem Consistent.putback {place : Option Section} (found : threads[index]? = some (.dropping page place)) :
    Consistent managed (memory.putback page) (threads.set index (.after place)) := by
  obtain ⟨members, partition⟩ := consistent.partition
  have fits := consistent.fits page
  have gone : 0 < awaiting threads page := awaiting_pos (List.mem_of_getElem? found) (Pc.awaits_dropping page place)
  obtain ⟨zero, known, unowned, unreferred⟩ := consistent.unused gone
  have spares : (Pc.after place).Spares page := Pc.spares (by simp)
  obtain ⟨awaits, refers⟩ := turn_counts found (.after place) page
  simp [spares.awaits, spares.refers, show (Pc.dropping page place).refers page = false from rfl] at awaits refers
  have single := fits.single
  apply consistent.move found page (Pc.only_of_target rfl) (Pc.only_of_none (by simp) page)
  · intro other different
    refine ⟨rfl, ?_, update_of_ne different .., rfl, rfl⟩
    show (if memory.pmm.backing page then memory.pmm.free else update memory.pmm.free page true) other = _
    split
    · rfl
    · exact update_of_ne different ..
  · rw [← away_leaves found (Pc.only_of_target rfl) (Pc.only_of_none (by simp) page) single
      (Pc.awaits_dropping page place) spares.awaits]
    exact partition.put gone
  · refine ⟨by omega, ?_, ?_, ?_, ?_, ?_⟩
    · rw [refers]
      exact fits.counted
    · intro inside
      have still : 0 < referring (threads.set index (.after place)) page := referring_pos inside (Pc.refers_claimed page)
      omega
    · intro other inside
      have still : 0 < awaiting (threads.set index (.after place)) page :=
        awaiting_pos inside (Pc.awaits_dropping page other)
      omega
    · have count : (memory.putback page).pmm.refcount page = 0 := zero
      have listed : (memory.putback page).listed page = true := update_self ..
      simp only [listed, known, count, true_and, and_true, true_iff]
      omega
    · rw [refers]
      exact fits.owned
  · exact consistent.sound

/-- A thread clears the reference count of a page that it alone refers to. -/
theorem Consistent.reset (found : threads[index]? = some (.claimed page)) :
    Consistent managed (memory.setPmm (memory.pmm.setRefcount page 0)) (threads.set index (.taken page)) := by
  obtain ⟨members, partition⟩ := consistent.partition
  have fits := consistent.fits page
  have one := fits.claims (List.mem_of_getElem? found)
  have counted := fits.counted
  have present := consistent.present (show 0 < memory.pmm.refcount page by omega)
  obtain ⟨awaits, refers⟩ := turn_counts found (.taken page) page
  simp [Pc.awaits, Pc.refers] at awaits refers
  apply consistent.move found page (Pc.only_of_target rfl) (Pc.only_of_target rfl)
  · intro other different
    exact ⟨update_of_ne different .., rfl, rfl, rfl, rfl⟩
  · rw [← away_joins found (Pc.only_of_target rfl) (Pc.only_of_target rfl) (Pc.awaits_taken page) rfl]
    exact ⟨members, partition.drop (by omega)⟩
  · have count : (memory.setPmm (memory.pmm.setRefcount page 0)).pmm.refcount page = 0 := update_self ..
    have unowned : memory.refs page = 0 := by omega
    refine .inHands (by omega) (by omega) count unowned (consistent.unlisted (.inr (by omega)))
      (consistent.inside unowned) ?_
    intro place inside
    exact fits.dropped place ((List.mem_or_eq_of_mem_set inside).resolve_right nofun)
  · exact consistent.sound

/-- The page cache gives a page to a thread or keeps it. -/
theorem Consistent.takepage {place : Section} (found : threads[index]? = some (.cached place page)) {given : Bool}
    (taken : memory.pmm.vmmcacheTakepage page = .ok given) :
    Consistent managed memory (threads.set index (if given then .claimed page else .again place page)) := by
  have fits := consistent.fits page
  obtain ⟨new, chosen⟩ : ∃ new, new = if given then Pc.claimed page else .again place page := ⟨_, rfl⟩
  obtain ⟨target, idle, refers_new⟩ :
      new.target = some page ∧ (∀ other, new.awaits other = false) ∧ new.refers page = true := by
    rw [chosen]
    cases given with
    | false => exact ⟨rfl, fun _ => rfl, Pc.refers_again place page⟩
    | true => exact ⟨rfl, fun _ => rfl, Pc.refers_claimed page⟩
  rw [← chosen]
  have awaits := awaiting_stays found (fun _ => rfl) idle
  have refers : referring (threads.set index new) page = referring threads page :=
    countP_same found (refers_new.trans (Pc.refers_cached place page).symm)
  apply consistent.move found page (Pc.only_of_target rfl) (Pc.only_of_target target)
  · intro other different
    exact ⟨rfl, rfl, rfl, rfl, rfl⟩
  · rw [awaits]
    exact consistent.partition
  · refine ⟨?_, ?_, ?_, ?_, ?_, ?_⟩
    · rw [awaits]
      exact fits.single
    · rw [refers]
      exact fits.counted
    · intro inside
      rcases List.mem_or_eq_of_mem_set inside with old | same
      · exact fits.claims old
      · rw [chosen] at same
        cases given with
        | false => cases same
        | true =>
          revert taken
          fun_cases State.vmmcacheTakepage memory.pmm page with intro taken
          | case2 _ one => exact one
          | _ => cases taken
    · intro other inside
      rcases List.mem_or_eq_of_mem_set inside with old | same
      · exact fits.dropped other old
      · have awaited := idle page
        rw [← same, Pc.awaits_dropping] at awaited
        cases awaited
    · rw [awaits]
      exact fits.tracks
    · rw [refers]
      exact fits.owned
  · exact consistent.sound

end

theorem internalhold_fields {pmm after : State} (held : pmm.internalhold page = .ok after) :
    after.refcount = update pmm.refcount page (pmm.refcount page + 1) ∧ after.free = pmm.free ∧
      (pmm.refcount page = 0 → pmm.free page = false) := by
  revert held
  fun_cases State.internalhold pmm page with intro held
  | case1 => cases held
  | case2 _ _ unflagged =>
    cases held
    exact ⟨rfl, rfl, fun _ => eq_false_of_ne_true unflagged⟩
  | case3 _ many =>
    obtain rfl := Except.ok.inj held
    exact ⟨rfl, rfl, fun zero => absurd ((update_self ..).trans (by omega)) many⟩

/-- What a hold of a page changes. -/
structure Held (memory next : Watched) (page : Nat) : Prop where
  refcount : next.pmm.refcount = update memory.pmm.refcount page (memory.pmm.refcount page + 1)
  free : next.pmm.free = memory.pmm.free
  listed : next.listed = update memory.listed page false
  out : next.out = memory.out
  refs : next.refs = memory.refs

theorem Held.unlisted (held : Held memory next page) : next.listed page = false := by
  rw [held.listed]
  exact update_self ..

theorem Held.agrees (held : Held memory next page) {other : Nat} (different : other ≠ page) :
    Agrees memory next other := by
  refine ⟨?_, by rw [held.free], ?_, by rw [held.out], by rw [held.refs]⟩
  · rw [held.refcount]
    exact update_of_ne different ..
  · rw [held.listed]
    exact update_of_ne different ..

section

variable (consistent : Consistent managed memory threads)
include consistent

theorem Consistent.internalhold (known : managed page) (present : awaiting threads page = 0)
    (held : memory.internalhold page = .ok next) :
    (∃ members, Partition next.pmm managed members fun other => 0 < awaiting threads other) ∧
      Held memory next page ∧ next.sound = true := by
  obtain ⟨members, partition⟩ := consistent.partition
  obtain ⟨pmm, ran, rfl⟩ := map_ok.mp held
  obtain ⟨refcount, free, unflagged⟩ := internalhold_fields ran
  have unflagged : memory.pmm.free page = false := by
    by_cases zero : memory.pmm.refcount page = 0
    · exact unflagged zero
    · exact consistent.unflagged (Nat.pos_of_ne_zero zero)
  obtain ⟨after, same, _, _, rest, kept⟩ := partition.internalhold known (by omega) unflagged
  rw [ran] at same
  cases same
  by_cases zero : memory.pmm.refcount page = 0
  · have listed := (consistent.fits page).tracks.mpr ⟨known, present, zero⟩
    rw [if_pos zero]
    refine ⟨⟨rest, kept⟩, ⟨refcount, free, rfl, rfl, rfl⟩, ?_⟩
    simp [Watched.unlist, Watched.setPmm, consistent.sound, listed]
  · have listed := consistent.unlisted (.inr (Nat.pos_of_ne_zero zero))
    rw [if_neg zero]
    refine ⟨⟨rest, kept⟩, ⟨refcount, free, ?_, rfl, rfl⟩, consistent.sound⟩
    rw [← listed, update_eq_self]
    rfl

/-- A thread gets a reference to a page of the page cache. -/
theorem Consistent.cache (found : threads[index]? = some old) (free : old.target = none)
    (listed : memory.listed page = true) (place : Section) (held : memory.internalhold page = .ok next) :
    Consistent managed next (threads.set index (.cached place page)) := by
  have fits := consistent.fits page
  obtain ⟨known, present, zero⟩ := fits.tracks.mp listed
  obtain ⟨partition, changed, sound⟩ := consistent.internalhold known present held
  have spared (other : Nat) : old.Spares other := old.spares (by simp [free])
  have awaits : awaiting (threads.set index (.cached place page)) = awaiting threads :=
    awaiting_stays found (fun other => (spared other).awaits) (fun _ => rfl)
  have refers := (turn_counts found (.cached place page) page).2
  simp [(spared page).refers] at refers
  have counted := fits.counted
  have count : next.pmm.refcount page = 1 := by
    rw [changed.refcount, zero]
    exact update_self ..
  apply consistent.move found page (Pc.only_of_none free page) (Pc.only_of_target rfl)
  · intro other
    exact changed.agrees
  · rw [awaits]
    exact partition
  · refine .inUse (by rw [awaits, present]) (by omega) ?_ (fun _ => count) changed.unlisted ?_
    · rw [count, changed.refs, refers]
      omega
    · rw [changed.out, changed.refs]
      intro out
      have owned := (fits.owned out).2
      omega
  · exact sound

/-- A caller gets a reference to a page. -/
theorem Consistent.hold (found : threads[index]? = some .idle) (known : managed page)
    (present : awaiting threads page = 0) (unclaimed : .claimed page ∉ threads)
    (held : memory.internalhold page = .ok next) :
    Consistent managed (next.own page (memory.refs page + 1)) (threads.set index .idle) := by
  have fits := consistent.fits page
  obtain ⟨partition, changed, sound⟩ := consistent.internalhold known present held
  have awaits : awaiting (threads.set index .idle) = awaiting threads :=
    awaiting_stays found (fun _ => rfl) (fun _ => rfl)
  have refers := Nat.add_right_cancel (turn_counts found .idle page).2
  have counted := fits.counted
  have count : (next.own page (memory.refs page + 1)).pmm.refcount page = memory.pmm.refcount page + 1 := by
    show next.pmm.refcount page = _
    rw [changed.refcount]
    exact update_self ..
  have owned : (next.own page (memory.refs page + 1)).refs page = memory.refs page + 1 := update_self ..
  apply consistent.move found page (Pc.only_of_none rfl page) (Pc.only_of_none rfl page)
  · intro other different
    have agrees := changed.agrees different
    exact { agrees with refs := (update_of_ne different ..).trans agrees.refs }
  · rw [awaits]
    exact partition
  · refine .inUse (by rw [awaits, present]) (by omega) ?_ ?_ changed.unlisted ?_
    · rw [count, owned, refers]
      omega
    · intro inside
      exact absurd ((List.mem_or_eq_of_mem_set inside).resolve_right nofun) unclaimed
    · intro out
      have out : next.out page = true := out
      rw [changed.out] at out
      rw [owned, refers]
      exact ⟨(fits.owned out).1, Nat.succ_pos _⟩
  · exact sound

end

section Decrement

variable {refs : Nat} {place : Option Section}

/-- A thread drops a reference: one of its own, or one of the callers. -/
structure Drops (memory : Watched) (threads : List Pc) (index : Nat) (old : Pc) (page refs : Nat) : Prop where
  found : threads[index]? = some old
  only : old.Only page
  idle : ∀ other, old.awaits other = false
  owned : refs + (!old.refers page).toNat = memory.refs page

section

variable (consistent : Consistent managed memory threads)
include consistent

section

variable (drops : Drops memory threads index old page refs)
include drops

theorem Consistent.dropped (other : new.refers page = false) :
    memory.pmm.refcount page = refs + referring (threads.set index new) page + 1 ∧
      (referring threads page = 0 → referring (threads.set index new) page = 0 ∧ refs + 1 = memory.refs page) := by
  have counted := (consistent.fits page).counted
  have owned := drops.owned
  have refers := (turn_counts drops.found new page).2
  cases own : old.refers page with
  | true =>
    simp [own, other] at owned refers
    omega
  | false =>
    simp [own, other] at owned refers
    omega

/-- The last reference is dropped. -/
theorem Consistent.dropLast (one : memory.pmm.refcount page = 1) :
    Consistent managed
      { (memory.own page refs).setPmm (memory.pmm.setRefcount page 0) with
        out := update memory.out page false }
      (threads.set index (.dropping page place)) := by
  obtain ⟨members, partition⟩ := consistent.partition
  have positive : 0 < memory.pmm.refcount page := by omega
  have listed := consistent.unlisted (.inr positive)
  have present := consistent.present positive
  obtain ⟨total, _⟩ := consistent.dropped drops (show (Pc.dropping page place).refers page = false from rfl)
  have awaits := (turn_counts drops.found (.dropping page place) page).1
  simp [drops.idle page] at awaits
  have count : (memory.pmm.setRefcount page 0).refcount page = 0 := update_self ..
  have mine : (memory.own page refs).refs page = refs := update_self ..
  apply consistent.move drops.found page drops.only (Pc.only_of_target rfl)
  · intro other different
    exact ⟨update_of_ne different .., rfl, rfl, update_of_ne different .., update_of_ne different ..⟩
  · rw [← away_joins drops.found drops.only (Pc.only_of_target rfl) (Pc.awaits_dropping page place) (drops.idle page)]
    exact ⟨members, partition.drop positive⟩
  · refine .inHands (by omega) (by omega) count (mine.trans (by omega)) listed (update_self ..) ?_
    intro other _
    exact consistent.unflagged positive
  · exact consistent.sound

/-- One of several references is dropped. -/
theorem Consistent.dropOne (many : 1 < memory.pmm.refcount page) : Consistent managed
      ((memory.own page refs).setPmm (memory.pmm.setRefcount page (memory.pmm.refcount page - 1)))
      (threads.set index (.after place)) := by
  obtain ⟨members, partition⟩ := consistent.partition
  have fits := consistent.fits page
  have positive : 0 < memory.pmm.refcount page := by omega
  have listed := consistent.unlisted (.inr positive)
  have present := consistent.present positive
  have spares (other : Nat) : (Pc.after place).Spares other := Pc.spares (by simp)
  obtain ⟨total, rest⟩ := consistent.dropped drops (spares page).refers
  have awaits := awaiting_stays drops.found drops.idle (fun other => (spares other).awaits)
  have count : (memory.pmm.setRefcount page (memory.pmm.refcount page - 1)).refcount page =
      memory.pmm.refcount page - 1 := update_self ..
  have mine : (memory.own page refs).refs page = refs := update_self ..
  apply consistent.move drops.found page drops.only (Pc.only_of_none (by simp) page)
  · intro other different
    exact ⟨update_of_ne different .., rfl, rfl, rfl, update_of_ne different ..⟩
  · have same : (fun other => 0 < awaiting threads other ∧ other ≠ page) = fun other => 0 < awaiting threads other :=
      away_without (by omega)
    have kept := partition.count (partition.unlisted_of_pos positive) (partition.managed_of_pos positive)
      (consistent.unflagged positive) (show 0 < memory.pmm.refcount page - 1 by omega)
    rw [same] at kept
    rw [awaits]
    exact ⟨members, kept⟩
  · refine .inUse (by rw [awaits, present]) (Nat.lt_of_lt_of_eq (by omega) count.symm) ?_ ?_ listed ?_
    · show (memory.pmm.setRefcount page (memory.pmm.refcount page - 1)).refcount page =
        (memory.own page refs).refs page + _
      omega
    · intro inside
      rcases List.mem_or_eq_of_mem_set inside with old | same
      · have one := fits.claims old
        omega
      · exact absurd same.symm (spares page).claims
    · intro out
      obtain ⟨unreferred, _⟩ := fits.owned out
      obtain ⟨none_left, one_less⟩ := rest unreferred
      refine ⟨none_left, ?_⟩
      show 0 < (memory.own page refs).refs page
      omega
  · exact consistent.sound

theorem Consistent.decrement (ran : (memory.own page refs).decrement page place = .ok (new, next)) :
    Consistent managed next (threads.set index new) := by
  have self : (memory.pmm.setRefcount page (memory.pmm.refcount page - 1)).refcount page =
      memory.pmm.refcount page - 1 := update_self ..
  have same : (memory.own page refs).pmm = memory.pmm := rfl
  simp only [Watched.decrement, same, self] at ran
  by_cases zero : memory.pmm.refcount page = 0
  · rw [if_pos zero] at ran
    cases ran
  · rw [if_neg zero] at ran
    by_cases last : memory.pmm.refcount page - 1 = 0
    · rw [if_pos last, last] at ran
      cases ran
      exact consistent.dropLast drops (by omega)
    · rw [if_neg last] at ran
      cases ran
      exact consistent.dropOne drops (by omega)

end

end

end Decrement

section

variable (consistent : Consistent managed memory threads)
include consistent

/-- A thread goes on without a page. -/
theorem Consistent.rest (found : threads[index]? = some old) (before : old.target = none) (after : new.target = none) :
    Consistent managed memory (threads.set index new) := by
  have spared (page : Nat) : old.Spares page := old.spares (by simp [before])
  have spares (page : Nat) : new.Spares page := new.spares (by simp [after])
  refine ⟨?_, ?_, consistent.sound⟩
  · rw [awaiting_stays found (fun page => (spared page).awaits) fun page => (spares page).awaits]
    exact consistent.partition
  · intro page
    exact (consistent.fits page).elsewhere ⟨rfl, rfl, rfl, rfl, rfl⟩ found (spared page) (spares page)

/-- The vnode behind a page with a reference changes. -/
theorem Consistent.back (positive : 0 < memory.refs page) (present : Bool) :
    Consistent managed (memory.setPmm (memory.pmm.setBacking page present)) threads := by
  obtain ⟨members, partition⟩ := consistent.partition
  have counted := (consistent.fits page).counted
  refine ⟨⟨members, partition.setBacking (by omega) present⟩, ?_, consistent.sound⟩
  intro other
  have fits := consistent.fits other
  exact ⟨fits.single, fits.counted, fits.claims, fits.dropped, fits.tracks, fits.owned⟩

theorem Consistent.listed_of_mem {members : Listing → List Nat}
    (partition : Partition memory.pmm managed members fun page => 0 < awaiting threads page) {list : Listing}
    (member : page ∈ members list) : memory.listed page = true := by
  obtain ⟨zero, known, present⟩ := partition.free list page member
  exact (consistent.fits page).tracks.mpr ⟨known, by omega, zero⟩

/-- A thread looks for a single page. -/
theorem Consistent.choose (found : threads[index]? = some old) (free : old.target = none) {place : Section}
    (ran : memory.choose place = .ok (new, next)) : Consistent managed next (threads.set index new) := by
  obtain ⟨members, partition⟩ := consistent.partition
  revert ran
  fun_cases Watched.choose memory place with intro ran
  | case1 => cases ran
  | case2 page first =>
    obtain ⟨rfl, rfl⟩ := Prod.mk.inj (Except.ok.inj ran)
    obtain ⟨list, member⟩ := head_mem partition.listed first
    exact consistent.take found free (consistent.listed_of_mem partition member)
  | case3 =>
    cases ran
    exact consistent.rest found free rfl
  | case4 _ page last =>
    obtain ⟨part, member⟩ := tail_mem partition.listed last
    obtain ⟨held, kept, same⟩ := map_ok.mp ran
    cases same
    exact consistent.cache found free (consistent.listed_of_mem partition member) place kept

end

section Many

/-- No page that a thread has taken is still marked as free. -/
def Unmarked (memory : Watched) (threads : List Pc) : Prop :=
  ∀ page, .taken page ∈ threads → memory.pmm.free page = false

theorem Consistent.listed_of_free (consistent : Consistent managed memory threads) (unmarked : Unmarked memory threads)
    (free : memory.pmm.free page = true) : memory.listed page = true := by
  obtain ⟨members, partition⟩ := consistent.partition
  obtain ⟨zero, _, known⟩ := (partition.proper page).flagged free
  refine (consistent.fits page).tracks.mpr ⟨known, ?_, zero⟩
  by_contra gone
  obtain ⟨pc, member, awaits⟩ := List.countP_pos_iff.mp (Nat.pos_of_ne_zero gone)
  have unflagged : memory.pmm.free page = false := by
    cases pc with
    | taken other =>
      cases of_decide_eq_true awaits
      exact unmarked page member
    | dropping other place =>
      cases of_decide_eq_true awaits
      exact (consistent.fits page).dropped place member
    | idle | retry | cached | claimed | again => cases awaits
  rw [free] at unflagged
  cases unflagged

theorem doalloc_free (given : memory.doalloc page = .ok next) (other : Nat) :
    next.pmm.free other = if other = page then false else memory.pmm.free other := by
  obtain ⟨pmm, ran, rfl⟩ := map_ok.mp given
  obtain ⟨_, ran⟩ := unless_ok.mp ran
  cases ran
  exact update_apply ..

variable (found : threads[index]? = some .idle) (consistent : Consistent managed memory threads)
include found consistent

/-- An idle thread takes a page out of its list and hands it out at once. -/
theorem Consistent.takeOut (listed : memory.listed page = true)
    (given : (memory.remove page).doalloc page = .ok next) : Consistent managed next threads := by
  have taken := consistent.take found rfl listed
  have within := (List.getElem?_eq_some_iff.mp found).1
  have here : (threads.set index (.taken page))[index]? = some (.taken page) := List.getElem?_set_self within
  have done := taken.doalloc here given
  rw [List.set_set] at done
  rw [← List.set_getElem_self within, (List.getElem?_eq_some_iff.mp found).2]
  exact done

theorem Consistent.takeAll (pages : List Nat) (distinct : pages.Nodup) (unmarked : Unmarked memory threads)
    (free : ∀ page ∈ pages, memory.pmm.free page = true)
    (ran : pages.foldlM (fun memory page => (memory.remove page).doalloc page) memory = .ok next) :
    Consistent managed next threads := by
  induction pages generalizing memory with
  | nil =>
    cases ran
    exact consistent
  | cons page rest ih =>
    obtain ⟨middle, given, ran⟩ := bind_ok.mp ran
    obtain ⟨new, later⟩ := List.nodup_cons.mp distinct
    have flags := doalloc_free given
    have listed := consistent.listed_of_free unmarked (free page List.mem_cons_self)
    apply ih (consistent.takeOut found listed given) later _ _ ran
    · intro other member
      rw [flags]
      split
      · rfl
      · exact unmarked other member
    · intro other inside
      rw [flags, if_neg (by rintro rfl; exact new inside)]
      exact free other (List.mem_cons_of_mem _ inside)

theorem Consistent.allocMany (unmarked : Unmarked memory threads) {size : Nat} (positive : 0 < size) {place : Section}
    (ran : memory.allocMany size place = .ok next) : Consistent managed next threads := by
  unfold Watched.allocMany at ran
  split at ran
  · cases ran
    exact consistent
  · next last scanned =>
    exact consistent.takeAll found _ (List.nodup_range' 1) unmarked (allocMany_pages positive scanned) ran

end Many

end Steps

/-- A caller releases only a reference that it owns, and changes the vnode only behind such a page. A page is only held
while it is in a list or has a reference, and not after the page cache has given it away. Several pages are only allocated
while no page that a thread has taken is still marked as free. -/
def Permitted (managed : Nat → Prop) (pool : Pool) (event : Nat × Request) : Prop :=
  pool.threads[event.1]? = some .idle →
    match event.2 with
    | .allocpage _ => True
    | .alloc size _ => 1 < size → Unmarked pool.memory pool.threads
    | .hold page =>
      managed page ∧ (pool.memory.listed page = true ∨ 0 < pool.memory.pmm.refcount page) ∧ .claimed page ∉ pool.threads
    | .release page => 0 < pool.memory.refs page
    | .back page _ => 0 < pool.memory.refs page

section Runs

variable {managed : Nat → Prop} {pool next : Pool} {index : Nat}

section

variable (consistent : Consistent managed pool.memory pool.threads)
include consistent

theorem Consistent.call (found : pool.threads[index]? = some .idle) {request : Request}
    (may : Permitted managed pool (index, request)) (ran : pool.memory.call request = .ok (new, memory)) :
    Consistent managed memory (pool.threads.set index new) := by
  have may := may found
  revert ran
  fun_cases Watched.call pool.memory request with intro ran
  | case2 => cases ran
  | case1 | case3 => exact consistent.choose found rfl ran
  | case4 size place nonzero several =>
    obtain ⟨after, many, same⟩ := map_ok.mp ran
    cases same
    have unmarked := may (by omega : 1 < size)
    exact (consistent.allocMany found unmarked (by omega) many).rest found rfl rfl
  | case5 page =>
    obtain ⟨after, held, same⟩ := map_ok.mp ran
    cases same
    obtain ⟨known, live, unclaimed⟩ := may
    have present : awaiting pool.threads page = 0 := by
      by_contra gone
      have zero := (consistent.unused (Nat.pos_of_ne_zero gone)).1
      have listed := consistent.unlisted (.inl (Nat.pos_of_ne_zero gone))
      rw [listed, zero] at live
      simp at live
    exact consistent.hold found known present unclaimed held
  | case6 page =>
    have drops : Drops pool.memory pool.threads index .idle page (pool.memory.refs page - 1) :=
      ⟨found, Pc.only_of_none rfl page, fun _ => rfl, Nat.sub_add_cancel may⟩
    exact consistent.decrement drops ran
  | case7 page present =>
    cases ran
    exact (consistent.back may present).rest found rfl rfl

theorem Consistent.resume {old : Pc} (found : pool.threads[index]? = some old)
    (ran : pool.memory.resume old = .ok (new, memory)) : Consistent managed memory (pool.threads.set index new) := by
  cases old with
  | idle =>
    cases ran
    exact consistent.rest found rfl rfl
  | retry place => exact consistent.choose found rfl ran
  | taken page =>
    obtain ⟨after, given, same⟩ := map_ok.mp ran
    cases same
    exact consistent.doalloc found given
  | cached place page =>
    obtain ⟨given, taken, same⟩ := map_ok.mp ran
    cases same
    exact consistent.takepage found taken
  | claimed page =>
    cases ran
    exact consistent.reset found
  | again place page =>
    have drops : Drops pool.memory pool.threads index (.again place page) page (pool.memory.refs page) :=
      ⟨found, Pc.only_of_target rfl, fun _ => rfl, by simp⟩
    have same : pool.memory.own page (pool.memory.refs page) = pool.memory := by
      simp [Watched.own]
    apply consistent.decrement drops
    rw [same]
    exact ran
  | dropping page place =>
    cases ran
    exact consistent.putback found

theorem Consistent.step {event : Nat × Request} (may : Permitted managed pool event)
    (moved : pool.step event = .ok next) : Consistent managed next.memory next.threads := by
  revert moved
  fun_cases Pool.step pool event with intro moved
  | case1 =>
    cases moved
    exact consistent
  | case2 pc found =>
    obtain ⟨result, ran, rfl⟩ := map_ok.mp moved
    split at ran
    · next idle =>
      rw [idle] at found
      exact consistent.call found may ran
    · exact consistent.resume found ran

end

end Runs

section Start

theorem init_refcount (started : pmmInit entries = .ok system) (page : Nat) : system.pmm.refcount page = 0 := by
  have kept (pages : List Nat) (pmm : State) : (pages.foldl State.insertUsable pmm).refcount = pmm.refcount := by
    induction pages generalizing pmm with
    | nil => rfl
    | cons first rest ih => exact ih _
  unfold pmmInit at started
  split at started
  · cases started
  · cases started
    exact congrFun (kept ..) page

theorem idle_awaiting (count page : Nat) : awaiting (List.replicate count .idle) page = 0 := by
  simp [awaiting, List.countP_replicate, Pc.awaits]

theorem idle_referring (count page : Nat) : referring (List.replicate count .idle) page = 0 := by
  simp [referring, List.countP_replicate, Pc.refers]

theorem start_consistent (regular : Regular entries) (started : pmmInit entries = .ok system) (threads : Nat) :
    Consistent (fun page => page ∈ system.managed) (Pool.start system threads).memory
      (Pool.start system threads).threads := by
  have zero (page : Nat) : (Pool.start system threads).memory.pmm.refcount page = 0 := init_refcount started page
  have idle {pc : Pc} (member : pc ∈ List.replicate threads Pc.idle) : pc = .idle := (List.mem_replicate.mp member).2
  have awaits : awaiting (Pool.start system threads).threads = fun _ => 0 := funext (idle_awaiting threads)
  have refers : referring (Pool.start system threads).threads = fun _ => 0 := funext (idle_referring threads)
  refine ⟨?_, ?_, rfl⟩
  · obtain ⟨⟨members, partition⟩, _⟩ := init_settled regular started
    rw [awaits]
    simp only [Nat.lt_irrefl]
    exact ⟨members, partition⟩
  · intro page
    refine ⟨?_, ?_, ?_, ?_, ?_, nofun⟩
    · rw [awaits]
      exact Nat.zero_le 1
    · rw [zero, refers]
      rfl
    · intro member
      cases idle member
    · intro place member
      cases idle member
    · rw [awaits, zero]
      simp [Pool.start]

theorem reached_consistent (regular : Regular entries) (started : pmmInit entries = .ok system) {threads : Nat}
    (reached : Reaches Pool.step (Permitted fun page => page ∈ system.managed) (Pool.start system threads) pool) :
    Consistent (fun page => page ∈ system.managed) pool.memory pool.threads := by
  apply reached.keeps fun pool => Consistent (fun page => page ∈ system.managed) pool.memory pool.threads
  · intro before event after kept may moved
    exact kept.step may moved
  · exact start_consistent regular started threads

end Start

/-- No page is taken out of a list that it is not in and none is handed out twice, in every run of the threads in which
each call is permitted. -/
theorem pages_handed_out_once {entries : List Entry} (regular : Regular entries) {system : System}
    (started : pmmInit entries = .ok system) (threads : Nat) {pool : Pool}
    (reached : Reaches Pool.step (Permitted fun page => page ∈ system.managed) (Pool.start system threads) pool) :
    pool.memory.sound = true ∧ ∃ members, Listed pool.memory.pmm members ∧
        ∀ page, pool.memory.listed page = true ↔ ∃ list, page ∈ members list := by
  have consistent := reached_consistent regular started reached
  obtain ⟨members, partition⟩ := consistent.partition
  refine ⟨consistent.sound, members, partition.listed, ?_⟩
  intro page
  constructor
  · intro listed
    obtain ⟨known, present, zero⟩ := (consistent.fits page).tracks.mp listed
    exact ⟨_, partition.listed_of_zero known (by omega) zero⟩
  · intro ⟨list, member⟩
    exact consistent.listed_of_mem partition member

theorem two_allocations_sound : Regular smallMap ∧ ∃ system pool, pmmInit smallMap = .ok system ∧
      [(0, Request.allocpage 2), (1, .allocpage 2), (0, .allocpage 2), (1, .allocpage 2)].foldlM Pool.step
        (Pool.start system 2) = .ok pool ∧ pool.memory.refs 271 = 1 ∧ pool.memory.refs 270 = 1 ∧
      pool.memory.sound = true := by
  have regular : Regular smallMap := ⟨List.pairwise_singleton .., by decide⟩
  refine ⟨regular, ?_⟩
  have counts : (do
      let system ← pmmInit smallMap
      let pool ← [(0, Request.allocpage 2), (1, .allocpage 2), (0, .allocpage 2), (1, .allocpage 2)].foldlM Pool.step
        (Pool.start system 2)
      pure (pool.memory.refs 271, pool.memory.refs 270)) = .ok (1, 1) := by
    decide +kernel
  obtain ⟨system, started, counts⟩ := bind_ok.mp counts
  obtain ⟨pool, ran, counts⟩ := bind_ok.mp counts
  obtain ⟨first, second⟩ := Prod.mk.inj (Except.ok.inj counts)
  have may : ∀ event ∈ [(0, Request.allocpage 2), (1, .allocpage 2), (0, .allocpage 2), (1, .allocpage 2)],
      ∀ pool, Permitted (fun page => page ∈ system.managed) pool event := by
    intro event member pool
    fin_cases member <;> exact fun _ => trivial
  exact ⟨system, pool, started, ran, first, second,
    (pages_handed_out_once regular started 2 (Reaches.of_foldlM _ may ran)).1⟩

/-- A single page is still marked as free when its thread has taken it out of the list, so another thread allocates it
among several pages. A page whose last reference is dropped is in no list yet when another thread holds it. -/
theorem taken_page_taken_again :
    (do
      let system ← pmmInit smallMap
      let pool ← [(0, Request.allocpage 2), (1, .alloc 10 2)].foldlM Pool.step (Pool.start system 2)
      pure (pool.memory.sound, pool.threads, pool.memory.refs 271)).toOption = some (false, [.taken 271, .idle], 1) ∧
    (do
      let system ← pmmInit smallMap
      let pool ← [(0, Request.allocpage 2), (0, .allocpage 2), (0, .release 271), (1, .hold 271)].foldlM Pool.step
        (Pool.start system 2)
      pure (pool.memory.sound, pool.threads, pool.memory.refs 271)).toOption =
        some (false, [.dropping 271 none, .idle], 1) := by
  constructor
  all_goals decide +kernel

end Astral.Pmm
