import Astral.Construction.Poll
import Astral.Library.Run

namespace Astral.Poll

open Function Library

variable {id : Nat} {key : Key} {desc : Polldesc} {header : Pollheader} {call : Call} {list : List Key}

/-- All entries that a header knows, also those that `poll_event` has taken out of its list. -/
def Pollheader.entries (header : Pollheader) : List Key :=
  header.data ++ header.todo ++ header.pending ++ header.woken.toList

/-- An event for the descriptor reaches a thread that sleeps. -/
def Polldesc.Wakeable (desc : Polldesc) : Prop := desc.event = none ∧ desc.lock = false ∧ desc.wakeuplock = .free

/-- What `poll_event` still has to do for a header. -/
def Pollheader.work (header : Pollheader) : Nat :=
  header.lock.toNat + 3 * header.todo.length + 2 * header.pending.length + header.woken.toList.length

namespace Polls

/-- The entries of a header are those that were added and have not left, each once. -/
structure Listed (polls : Polls) : Prop where
  known : ∀ id key, key ∈ (polls.headers id).entries ↔
    (polls.data key).registered = true ∧ (polls.data key).header = some id
  headed : ∀ key, (polls.data key).registered = true → (polls.data key).header ≠ none
  once : ∀ id, (polls.headers id).entries.Nodup

/-- A running `poll_event` goes on until it has done its work. -/
def Proceeds (polls : Polls) (id : Nat) : Prop :=
  ∃ call ∈ [Call.scan id, .wake id, .release id, .finish id], ∃ next, polls.step call = .ok next ∧
    (next.headers id).work < (polls.headers id).work

/-- No wake-up is lost: a thread that sleeps can be woken, or the `poll_event` that was for it is going to do it. -/
structure Attentive (polls : Polls) : Prop extends polls.Listed where
  sleeps : ∀ id, (polls.descs id).phase = .asleep → (polls.descs id).Wakeable ∨
    (polls.descs id).event ≠ none ∧ ∃ header index, (id, index) ∈ (polls.headers header).pending
  normal : ∀ id, (polls.descs id).phase = .woken .normal → (polls.descs id).event ≠ none ∧ (polls.descs id).lock = true
  waits : ∀ id header, (polls.descs id).wakeuplock = .event header →
    ∃ index, (id, index) ∈ (polls.headers header).pending ∨ (polls.headers header).woken = some (id, index)
  ends : ∀ id, (polls.descs id).wakeuplock = .waiter → (polls.descs id).phase = .running
  wakes : ∀ id, (polls.descs id).wakes ≤ 1
  proceeds : ∀ id, (polls.headers id).lock = true → polls.Proceeds id

/-- The call does what it is for: an event reaches its descriptor, a wake-up ends the sleep, and a wait that follows an
event does not sleep. -/
def Serves (polls next : Polls) : Call → Prop
  | .scan id => ∀ key todo, (polls.headers id).todo = key :: todo →
      (polls.data key).matching (polls.headers id).events ≠ 0 → (next.descs key.1).event ≠ none
  | .wake id => ∀ key, (next.headers id).woken = some key → (next.descs key.1).phase ≠ .asleep
  | .wait id _ => (polls.descs id).event ≠ none → (next.descs id).phase = .running
  | .leave key => (next.data key).registered = false
  | _ => True

end Polls

/-- An entry that is added is in no list. An entry that left does not leave again while others are in the list of its
header. A wait without an event does not follow an interrupted one. -/
def Call.Fine (polls : Polls) : Call → Prop
  | .add _ key _ => (polls.data key).registered = false
  | .leave key => (polls.descs key.1).size ≠ 0 ∧ ∀ id, (polls.data key).header = some id →
      (polls.data key).registered = true ∨ (polls.headers id).data = []
  | .wait id _ => (polls.descs id).event = none → (polls.descs id).wakeuplock ≠ .waiter
  | _ => True

/-- The locks of a descriptor tell who is going to wake its thread. -/
structure Polldesc.Kept (headers : Nat → Pollheader) (id : Nat) (desc : Polldesc) : Prop where
  pending : ∀ header index, (id, index) ∈ (headers header).pending → desc.lock = true ∧
    desc.wakeuplock = .event header ∧ desc.event ≠ none ∧ (desc.phase = .asleep ∨ desc.phase = .woken .interrupted)
  woken : ∀ header index, (headers header).woken = some (id, index) → desc.lock = true ∧
    desc.wakeuplock = .event header ∧ desc.event ≠ none ∧ desc.phase ≠ .asleep
  waits : ∀ header, desc.wakeuplock = .event header →
    ∃ index, (id, index) ∈ (headers header).pending ∨ (headers header).woken = some (id, index)
  sleeps : desc.phase = .asleep → desc.wakes = 0 ∧ (desc.Wakeable ∨ ∃ header, desc.wakeuplock = .event header)
  normal : desc.phase = .woken .normal → desc.event ≠ none ∧ desc.lock = true
  timeouts : desc.phase = .woken .timeout → desc.lock = true
  free : desc.lock = false → desc.wakeuplock = .free → desc.phase = .asleep ∨ desc.phase = .woken .interrupted
  ends : desc.wakeuplock = .waiter → desc.phase = .running
  wakes : desc.wakes ≤ 1

/-- An event holds the locks of a descriptor only after it has stored itself there. -/
theorem Polldesc.Kept.held {headers : Nat → Pollheader} {id header : Nat} (kept : desc.Kept headers id)
    (held : desc.wakeuplock = .event header) : desc.event ≠ none ∧ desc.lock = true := by
  obtain ⟨index, member | last⟩ := kept.waits header held
  · exact ⟨(kept.pending header index member).2.2.1, (kept.pending header index member).1⟩
  · exact ⟨(kept.woken header index last).2.2.1, (kept.woken header index last).1⟩

/-- A descriptor only looks at what the headers are going to do for its thread. -/
theorem Polldesc.Kept.congr {headers others : Nat → Pollheader} (kept : desc.Kept headers id)
    (pending : ∀ header index, (id, index) ∈ (others header).pending ↔ (id, index) ∈ (headers header).pending)
    (woken : ∀ header index, (others header).woken = some (id, index) ↔ (headers header).woken = some (id, index)) :
    desc.Kept others id where
  pending header index member := kept.pending header index ((pending header index).mp member)
  woken header index last := kept.woken header index ((woken header index).mp last)
  waits header held := by
    simp only [pending, woken]
    exact kept.waits header held
  sleeps := kept.sleeps
  normal := kept.normal
  timeouts := kept.timeouts
  free := kept.free
  ends := kept.ends
  wakes := kept.wakes

/-- Only a header whose lock is held has more than its list. -/
structure Pollheader.Kept (header : Pollheader) : Prop where
  idle : header.lock = false → header.todo = [] ∧ header.pending = [] ∧ header.woken = none
  distinct : ((header.woken.toList ++ header.pending).map Prod.fst).Nodup

/-- A list that has the entry or is empty only loses this entry. -/
theorem mem_removefromlist (once : list.Nodup) (fine : key ∈ list ∨ list = []) (other : Key) :
    other ∈ removefromlist list key ↔ other ∈ list ∧ other ≠ key := by
  unfold removefromlist
  split
  · rw [once.mem_erase_iff]
    exact and_comm
  · next absent => simp [fine.resolve_left absent]

theorem removefromlist_nodup (once : list.Nodup) : (removefromlist list key).Nodup := by
  unfold removefromlist
  split
  · exact once.erase key
  · exact List.nodup_nil

namespace Polls

structure Kept (polls : Polls) : Prop extends polls.Listed where
  headers : ∀ id, (polls.headers id).Kept
  descs : ∀ id, (polls.descs id).Kept polls.headers id

variable {polls next : Polls}

theorem Kept.boot (sizes : Nat → Nat) : (boot sizes).Kept where
  known _ _ := by simp [Polls.boot, Pollheader.entries]
  headed _ _ := by simp_all [Polls.boot]
  once _ := by simp [Polls.boot, Pollheader.entries]
  headers _ := by constructor <;> simp [Polls.boot]
  descs _ := by constructor <;> simp [Polls.boot]

section

variable (kept : polls.Kept)
include kept

theorem Kept.setDesc (changed : desc.Kept polls.headers id) : (polls.setDesc id desc).Kept where
  known := kept.known
  headed := kept.headed
  once := kept.once
  headers := kept.headers
  descs := (forall_update_iff polls.descs fun other (desc : Polldesc) => desc.Kept polls.headers other).mpr
    ⟨changed, fun other _ => kept.descs other⟩

/-- What `poll_event` does to one header and one descriptor. -/
theorem Kept.deliver {id target : Nat} (same : header.entries.Perm (polls.headers id).entries) (whole : header.Kept)
    (others : ∀ key : Key, key.1 ≠ target → (key ∈ header.pending ↔ key ∈ (polls.headers id).pending) ∧
        (header.woken = some key ↔ (polls.headers id).woken = some key))
    (changed : desc.Kept (update polls.headers id header) target) :
    ((polls.setDesc target desc).setHeader id header).Kept where
  known other key := by
    show key ∈ (update polls.headers id header other).entries ↔ _
    by_cases equal : other = id
    · subst equal
      rw [update_self, same.mem_iff]
      exact kept.known other key
    · rw [update_of_ne equal]
      exact kept.known other key
  headed := kept.headed
  once := (forall_update_iff polls.headers fun _ (header : Pollheader) => header.entries.Nodup).mpr
    ⟨same.nodup_iff.mpr (kept.once id), fun other _ => kept.once other⟩
  headers := (forall_update_iff polls.headers fun _ (header : Pollheader) => header.Kept).mpr
    ⟨whole, fun other _ => kept.headers other⟩
  descs := by
    refine (forall_update_iff polls.descs fun other (desc : Polldesc) =>
      desc.Kept (update polls.headers id header) other).mpr ⟨changed, fun other different => ?_⟩
    refine (kept.descs other).congr (fun place index => ?_) fun place index => ?_
    · by_cases equal : place = id
      · subst equal
        rw [update_self]
        exact (others (other, index) different).1
      · rw [update_of_ne equal]
    · by_cases equal : place = id
      · subst equal
        rw [update_self]
        exact (others (other, index) different).2
      · rw [update_of_ne equal]

theorem Kept.descs_setHeader (pending : header.pending = (polls.headers id).pending)
    (woken : header.woken = (polls.headers id).woken) (other : Nat) :
    (polls.descs other).Kept (update polls.headers id header) other := by
  refine (kept.descs other).congr (fun place index => ?_) fun place index => ?_ <;>
    by_cases equal : place = id <;> simp [equal, pending, woken]

/-- A step of `poll_event` that leaves the descriptors alone. -/
theorem Kept.setHeader (same : header.entries.Perm (polls.headers id).entries) (whole : header.Kept)
    (pending : header.pending = (polls.headers id).pending) (woken : header.woken = (polls.headers id).woken) :
    (polls.setHeader id header).Kept := by
  have delivered := kept.deliver same whole (fun key _ => by rw [pending, woken]; exact ⟨.rfl, .rfl⟩)
    (kept.descs_setHeader pending woken 0)
  rwa [Polls.setDesc, update_eq_self] at delivered

theorem Kept.setRevents (key : Key) (revents : Nat) : (polls.setData key { polls.data key with revents }).Kept where
  known id other := by
    simp only [Polls.setData, update_apply]
    grind [kept.known id other]
  headed := (forall_update_iff polls.data fun _ (data : Polldata) =>
    data.registered = true → data.header ≠ none).mpr ⟨kept.headed key, fun other _ => kept.headed other⟩
  once := kept.once
  headers := kept.headers
  descs := kept.descs

/-- A step that changes the list of a header while `poll_event` does not run for it. -/
theorem Kept.relist {data : Polldata}
    (listed : ((polls.setData key data).setHeader id { polls.headers id with data := list }).Listed) :
    ((polls.setData key data).setHeader id { polls.headers id with data := list }).Kept where
  toListed := listed
  headers := (forall_update_iff polls.headers fun _ (header : Pollheader) => header.Kept).mpr
    ⟨⟨(kept.headers id).idle, (kept.headers id).distinct⟩, fun other _ => kept.headers other⟩
  descs := kept.descs_setHeader rfl rfl

theorem Kept.add {id events : Nat} (moved : polls.pollAdd id key events = .ok next) : next.Kept := by
  simp only [pollAdd] at moved
  split at moved
  · cases moved
  split at moved
  · cases moved
  next ready fresh =>
    cases moved
    have absent := kept.known
    have once := kept.once
    have headed := kept.headed
    apply kept.relist
    constructor <;> simp only [Polls.setData, Polls.setHeader, update_apply] <;> grind [Pollheader.entries]

omit kept in
theorem pollLeave_cases (moved : polls.pollLeave key = .ok next) : (polls.descs key.1).size ≠ 0 ∧
    ((polls.data key).header = none ∧ next = polls ∨
      ∃ id, (polls.data key).header = some id ∧ (polls.headers id).lock = false ∧
        next = (polls.setData key { polls.data key with registered := false }).setHeader id
          { polls.headers id with data := removefromlist (polls.headers id).data key }) := by
  simp only [pollLeave] at moved
  grind

theorem Kept.leave (fine : Call.Fine polls (.leave key)) (moved : polls.pollLeave key = .ok next) :
    next.Kept ∧ (next.data key).registered = false := by
  obtain ⟨_, ⟨headless, rfl⟩ | ⟨id, header, unlocked, rfl⟩⟩ := pollLeave_cases moved
  · refine ⟨kept, ?_⟩
    by_contra registered
    exact kept.headed key (by simpa using registered) headless
  · refine ⟨kept.relist ?_, by simp [Polls.setData, Polls.setHeader]⟩
    obtain ⟨todo, pending, woken⟩ := (kept.headers id).idle unlocked
    have entries : (polls.headers id).entries = (polls.headers id).data := by
      simp [Pollheader.entries, todo, pending, woken]
    have known := kept.known id
    have once := kept.once id
    rw [entries] at once
    have fine : key ∈ (polls.headers id).data ∨ (polls.headers id).data = [] := by
      rw [← entries, known key]
      exact (fine.2 id header).imp (⟨·, header⟩) fun empty => by rw [entries, empty]
    constructor
    · intro place other
      have listed := kept.known place other
      have removed := mem_removefromlist once fine other
      by_cases equal : place = id
      · simp only [Polls.setData, Polls.setHeader, Pollheader.entries, todo, pending, woken]
        grind
      · simp only [Polls.setData, Polls.setHeader, update_of_ne equal, update_apply]
        grind
    · refine (forall_update_iff polls.data fun _ (data : Polldata) =>
        data.registered = true → data.header ≠ none).mpr ⟨by simp, fun other _ => kept.headed other⟩
    · refine (forall_update_iff polls.headers fun _ (header : Pollheader) => header.entries.Nodup).mpr
        ⟨?_, fun other _ => kept.once other⟩
      simpa [Pollheader.entries, todo, pending, woken] using removefromlist_nodup once

theorem Kept.interrupt (id : Nat) : (polls.setDesc id ((polls.descs id).wakeup .interrupted)).Kept := by
  apply kept.setDesc
  cases kept.descs id
  constructor <;> grind [Polldesc.wakeup, Polldesc.Wakeable]

theorem Kept.timeout (moved : polls.timeout id = .ok next) : next.Kept := by
  simp only [Polls.timeout] at moved
  split at moved
  · cases moved
    apply kept.setDesc
    cases kept.descs id
    constructor <;> grind [Polldesc.wakeup, Polldesc.Wakeable]
  · cases moved

theorem Kept.wait {timer : Bool} (fine : Call.Fine polls (.wait id timer))
    (moved : polls.pollDowait id timer = .ok next) : next.Kept := by
  simp only [pollDowait] at moved
  split at moved
  · cases moved
  split at moved
  · cases moved
    exact kept
  · cases moved
    apply kept.setDesc
    cases kept.descs id
    have quiet : (polls.descs id).event = none := by simp_all only [ne_eq, not_not]
    have unheld : (polls.descs id).wakeuplock = .free := by
      cases held : (polls.descs id).wakeuplock with
      | free => rfl
      | event header => exact absurd quiet ((kept.descs id).held held).1
      | waiter => exact absurd held (fine quiet)
    constructor <;> grind [Polldesc.Wakeable]

theorem Kept.resume (moved : polls.resume id = .ok next) : next.Kept := by
  cases kept.descs id
  revert moved
  fun_cases Polls.resume polls id with intro moved
  | case1 | case3 | case4 =>
    cases moved
    apply kept.setDesc
    constructor <;> grind
  | _ => cases moved

theorem Kept.event {id events : Nat} (moved : polls.pollEvent id events = .ok next) : next.Kept := by
  obtain ⟨unlocked, moved⟩ := unless_ok.mp moved
  cases moved
  obtain ⟨todo, pending, woken⟩ := (kept.headers id).idle (by simpa using unlocked)
  refine kept.setHeader ?_ ⟨?_, (kept.headers id).distinct⟩ rfl rfl
  · simp [Pollheader.entries, todo]
  · simp

theorem Kept.finish (moved : polls.finish id = .ok next) : next.Kept := by
  obtain ⟨done, moved⟩ := guard_ok.mp moved
  cases moved
  exact kept.setHeader .rfl ⟨fun _ => done.2, (kept.headers id).distinct⟩ rfl rfl

section

variable {id revents : Nat} {todo : List Key} (begins : (polls.headers id).todo = key :: todo)
include begins

/-- An entry whose events do not match or whose locks are held goes back to the list of its header. -/
theorem Kept.putBack (fails : revents = 0 ∨ (polls.descs key.1).lock = true ∨ (polls.descs key.1).wakeuplock ≠ .free) :
    ((polls.setDesc key.1 ((polls.descs key.1).notify id key.2 revents)).setHeader id
      { polls.headers id with todo, data := key :: (polls.headers id).data }).Kept := by
  obtain ⟨idle, distinct⟩ := kept.headers id
  apply kept.deliver
  · simp only [Pollheader.entries, begins]
    grind
  · exact ⟨by simp_all, distinct⟩
  · grind
  · cases kept.descs key.1
    constructor <;> grind [update_apply, Polldesc.notify, Polldesc.Wakeable]

/-- An entry whose locks are taken is kept for the second loop. -/
theorem Kept.claim (some : revents ≠ 0) (lock : (polls.descs key.1).lock = false)
    (wakeuplock : (polls.descs key.1).wakeuplock = .free) :
    ((polls.setDesc key.1 ((polls.descs key.1).notify id key.2 revents)).setHeader id
      { polls.headers id with todo, pending := (polls.headers id).pending ++ [key] }).Kept := by
  obtain ⟨idle, distinct⟩ := kept.headers id
  cases kept.descs key.1
  -- every descriptor that is waited for has its lock held
  apply kept.deliver
  · simp only [Pollheader.entries, begins]
    grind
  · refine ⟨fun unlocked => by simp_all, ?_⟩
    show ((_ ++ (_ ++ [key])).map Prod.fst).Nodup
    rw [← List.append_assoc, List.map_append, List.map_singleton]
    exact List.nodup_append.mpr ⟨distinct, List.nodup_singleton _, by grind⟩
  · grind
  · constructor <;> grind [update_apply, Polldesc.notify, Polldesc.Wakeable]

end

theorem Kept.scan (moved : polls.scan id = .ok next) : next.Kept := by
  simp only [Polls.scan] at moved
  split at moved
  · cases moved
  next key todo begins =>
    split at moved
    · next fails =>
      cases moved
      split
      · exact (kept.setRevents key _).putBack begins fails
      · exact kept.putBack begins fails
    · next takes =>
      cases moved
      push Not at takes
      obtain ⟨matching, lock, wakeuplock⟩ := takes
      have lock : (polls.descs key.1).lock = false := by simpa using lock
      split
      · exact (kept.setRevents key _).claim begins matching lock wakeuplock
      · exact kept.claim begins matching lock wakeuplock

theorem Kept.wake (moved : polls.wake id = .ok next) : next.Kept := by
  simp only [Polls.wake] at moved
  split at moved
  · next key pending todo queue woken =>
    cases moved
    obtain ⟨held, distinct⟩ := kept.headers id
    rw [queue, woken] at distinct
    apply kept.deliver
    · simp only [Pollheader.entries, queue, woken]
      grind
    · exact ⟨by simp_all, distinct⟩
    · grind
    · cases kept.descs key.1
      constructor <;> grind [update_apply, Polldesc.wakeup]
  · cases moved

theorem Kept.release (moved : polls.release id = .ok next) : next.Kept := by
  simp only [Polls.release] at moved
  split at moved
  · cases moved
  · next key last =>
    cases moved
    obtain ⟨held, distinct⟩ := kept.headers id
    apply kept.deliver
    · simp only [Pollheader.entries, last]
      grind
    · constructor <;> grind
    · grind
    · cases kept.descs key.1
      constructor <;> grind [update_apply]

theorem Kept.step (fine : call.Fine polls) (moved : polls.step call = .ok next) : next.Kept := by
  cases call with
  | add header key events => exact kept.add moved
  | leave key => exact (kept.leave fine moved).1
  | wait desc timer => exact kept.wait fine moved
  | resume desc => exact kept.resume moved
  | timeout desc => exact kept.timeout moved
  | interrupt desc =>
    cases moved
    exact kept.interrupt desc
  | event header events => exact kept.event moved
  | scan header => exact kept.scan moved
  | wake header => exact kept.wake moved
  | release header => exact kept.release moved
  | finish header => exact kept.finish moved

omit kept in
/-- What is left of a delivery can be done whatever the other threads do. -/
theorem proceeds (polls : Polls) (running : (polls.headers id).lock = true) : polls.Proceeds id := by
  cases todo : (polls.headers id).todo with
  | cons key rest =>
    refine ⟨.scan id, by simp, ?_⟩
    simp only [step, scan, todo]
    split
    · exact ⟨_, rfl, by simp [Polls.setHeader, Pollheader.work, todo]⟩
    · exact ⟨_, rfl, by simp [Polls.setHeader, Pollheader.work, todo]; omega⟩
  | nil =>
    cases woken : (polls.headers id).woken with
    | some key =>
      refine ⟨.release id, by simp, ?_⟩
      simp only [step, release, woken]
      exact ⟨_, rfl, by simp [Polls.setHeader, Pollheader.work, woken]⟩
    | none =>
      cases pending : (polls.headers id).pending with
      | cons key rest =>
        refine ⟨.wake id, by simp, ?_⟩
        simp only [step, wake, todo, pending, woken]
        exact ⟨_, rfl, by simp [Polls.setHeader, Pollheader.work, todo, pending, woken]; omega⟩
      | nil =>
        refine ⟨.finish id, by simp, ?_⟩
        simp only [step, finish, running, todo, pending, woken]
        exact ⟨_, rfl, by simp [Polls.setHeader, Pollheader.work, running, todo, pending, woken]⟩

theorem Kept.attentive : polls.Attentive where
  toListed := kept.toListed
  sleeps id asleep := by
    refine ((kept.descs id).sleeps asleep).2.imp_right fun ⟨header, held⟩ => ⟨((kept.descs id).held held).1, header, ?_⟩
    obtain ⟨index, member | last⟩ := (kept.descs id).waits header held
    · exact ⟨index, member⟩
    · exact absurd asleep ((kept.descs id).woken header index last).2.2.2
  normal id := (kept.descs id).normal
  waits id := (kept.descs id).waits
  ends id := (kept.descs id).ends
  wakes id := (kept.descs id).wakes
  proceeds _ := polls.proceeds

/-- The assertion of `poll_dowait` holds, and the pointers that are followed are set. -/
theorem Kept.ran (fine : call.Fine polls) (ready : polls.step call ≠ .error .notReady) :
    ∃ next, polls.step call = .ok next := by
  cases call with
  | add header key events =>
    have fine : (polls.data key).registered = false := fine
    simp only [Polls.step, pollAdd] at ready ⊢
    grind
  | leave key =>
    have fine := fine.1
    simp only [Polls.step, pollLeave] at ready ⊢
    grind
  | resume desc =>
    have normal := (kept.descs desc).normal
    simp only [Polls.step, Polls.resume] at ready ⊢
    grind
  | _ =>
    simp only [Polls.step, pollDowait, Polls.timeout, pollEvent, Polls.scan, Polls.wake, Polls.release,
      Polls.finish] at ready ⊢
    grind

theorem Kept.serves (fine : call.Fine polls) (moved : polls.step call = .ok next) : polls.Serves next call := by
  cases call with
  | scan id =>
    intro key todo begins matching
    have reported :
        ((polls.descs key.1).notify id key.2 ((polls.data key).matching (polls.headers id).events)).event ≠ none := by
      cases before : (polls.descs key.1).event <;> simp [Polldesc.notify, matching, before]
    simp only [Polls.step, Polls.scan, begins] at moved
    split at moved <;> cases moved <;> split <;> simpa [Polls.setDesc, Polls.setHeader, Polls.setData] using reported
  | wake id =>
    intro key last asleep
    exact ((((kept.step fine moved).descs key.1).woken id key.2 last).2.2.2) asleep
  | wait id timer =>
    intro event
    simp only [Polls.step, pollDowait] at moved
    grind
  | leave key => exact (kept.leave fine moved).2
  | _ => trivial

/-- Only a call that is fine keeps the entries of the others and sends no thread to sleep that cannot be woken. -/
theorem Kept.fine (moved : polls.step call = .ok next) (attentive : next.Attentive) : call.Fine polls := by
  cases call with
  | add header key events =>
    simp only [Polls.step, pollAdd] at moved
    show (polls.data key).registered = false
    grind
  | leave key =>
    obtain ⟨sized, ⟨headless, rfl⟩ | ⟨id, header, unlocked, rfl⟩⟩ := pollLeave_cases moved
    · exact ⟨sized, by simp [headless]⟩
    refine ⟨sized, fun place same => ?_⟩
    cases header.symm.trans same
    by_contra lost
    obtain ⟨gone, others⟩ := not_or.mp lost
    obtain ⟨other, member⟩ := List.exists_mem_of_ne_nil _ others
    have known : ∀ other, other ∈ (polls.headers id).data → (polls.data other).registered = true ∧
        (polls.data other).header = some id :=
      fun other member => (kept.known id other).mp (by simp [Pollheader.entries, member])
    have absent : key ∉ (polls.headers id).data := fun member => gone (known key member).1
    have different : other ≠ key := fun equal => absent (equal ▸ member)
    have still := (attentive.known id other).mpr
    simp [Polls.setData, Polls.setHeader, Pollheader.entries, removefromlist, absent, different, known other member,
      (kept.headers id).idle unlocked] at still
  | wait id timer =>
    intro quiet held
    simp only [Polls.step, pollDowait, quiet, ne_eq, not_true_eq_false, if_false] at moved
    split at moved
    · cases moved
    · cases moved
      have sleeps := attentive.sleeps id
      simp [Polls.setDesc, Polldesc.Wakeable, held] at sleeps
  | _ => trivial

end

end Polls

end Astral.Poll
