import Astral.Construction.Futex

namespace Astral.Futexes

open Function Library

variable {physical : Nat → Nat} {system next : System} {event : Event} {key thread newphys : Nat} {waiter : Waiter}
  {how : Return} {words : Set Nat} {action : Action}

section Meaning

variable (physical : Nat → Nat) (words : Set Nat) (system : System)

/-- The futex of a word, if there is none one without waiters. -/
def System.futex (key : Nat) : Futex := (system.futexes key).getD ⟨0, 0⟩

/-- The threads that are blocked on a word. -/
def System.blocked (word : Nat) : Nat := system.waiters.countP (·.word = word)

/-- The counters of each word are right. -/
def Exact : Prop :=
  ∀ word ∈ words, (system.futex (physical word)).waiting = system.blocked word ∧
    0 ≤ (system.futex (physical word)).waking ∧
    (system.futex (physical word)).waking ≤ (system.futex (physical word)).waiting

/-- The threads that are blocked on a word and have had an event. -/
def System.reached (word : Nat) : Nat :=
  system.waiters.countP fun waiter => waiter.word = word && waiter.event

/-- A thread that is blocked looks once whether it can leave. -/
def System.retry (waiter : Waiter) : System :=
  (system.resume waiter.thread .woken).toOption.getD system

/-- Every thread that is blocked looks once whether it can leave. -/
def System.settled : System := system.waiters.foldl System.retry system

/-- The threads that are blocked on a word but can leave with no further call. -/
def System.released (word : Nat) : Int := system.blocked word - system.settled.blocked word

/-- Waking returns and releases as many of the blocked threads of the word as it may, and no thread of another word. -/
def WakesExactly (word value : Nat) : Prop :=
  let woken := system.wake (physical word) value
  woken.2 = min (value : Int) (system.blocked word - system.released word) ∧
    ∀ other ∈ words, woken.1.released other = system.released other + if other = word then woken.2 else 0

/-- The counters of each word are right, and so is every call that wakes. -/
def AllExact : Prop :=
  Exact physical words system ∧ ∀ word ∈ words, ∀ value, WakesExactly physical words system word value

/-- No two of the words are on one physical page. -/
def Separate (frame : Nat → Nat) (words : Set Nat) : Prop :=
  ∀ one ∈ words, ∀ two ∈ words, frame (one / pageSize) = frame (two / pageSize) → one = two

def Event.On (words : Set Nat) : Event → Prop
  | .wait _ word | .wake word _ => word ∈ words
  | .resume _ _ => True

/-- When a wait ends late although an event has reached the thread, there is another such thread that is not released, or
no thread of its word that the event did not reach. -/
def Fair : Event → Prop
  | .resume thread how => how ≠ .woken → ∀ waiter ∈ system.waiters, waiter.thread = thread → waiter.event = true →
    system.released waiter.word = system.reached waiter.word → system.blocked waiter.word ≤ system.reached waiter.word
  | .wait _ _ | .wake _ _ => True

/-- The counters of each key are right. -/
structure Counted : Prop where
  waiting : ∀ key, (system.futex key).waiting = system.waiters.countP (·.key = key)
  waking : ∀ key, 0 ≤ (system.futex key).waking ∧ (system.futex key).waking ≤ (system.futex key).waiting

/-- Every waiter has the key of its word. -/
def Keyed : Prop :=
  ∀ waiter ∈ system.waiters, waiter.word ∈ words ∧ waiter.key = physical waiter.word

/-- What holds in every run on some words. -/
structure Based : Prop where
  counted : Counted system
  keyed : Keyed physical words system
  distinct : (system.waiters.map Waiter.thread).Nodup

/-- No more threads are to be woken than an event has reached. -/
def Covered : Prop :=
  ∀ word ∈ words, (system.futex (physical word)).waking ≤ system.reached word

end Meaning

theorem vmmGetphysical_eq (frame : Nat → Nat) (addr : Nat) : vmmGetphysical frame addr = frame (addr / pageSize) := by
  have page : roundDown addr pageSize / pageSize = addr / pageSize := by
    unfold roundDown pageSize
    omega
  have aligned : roundDown addr pageSize - roundDown (roundDown addr pageSize) pageSize = 0 := by
    unfold roundDown pageSize
    omega
  rw [vmmGetphysical, page, aligned, Nat.add_zero]

theorem wake_ret (system : System) (key value : Nat) : (system.wake key value).2 =
    min (value : Int) ((system.futex key).waiting - (system.futex key).waking) := by
  unfold System.wake System.futex
  cases system.futexes key with
  | none => simp
  | some futex =>
    simp only [Option.getD_some]
    split <;> omega

theorem wake_waking (system : System) (key value other : Nat) : ((system.wake key value).1.futex other).waking =
      (system.futex other).waking + if other = key then (system.wake key value).2 else 0 := by
  unfold System.wake System.futex
  cases found : system.futexes key with
  | none => simp
  | some futex =>
    by_cases same : other = key
    · simp [same, found]
    · simp [same]

theorem waits_pos (inside : waiter ∈ system.waiters) : 0 < system.waiters.countP (·.key = waiter.key) :=
  List.countP_pos_iff.mpr ⟨waiter, inside, by simp⟩

section Steps

variable {system next : System} (counted : Counted system)
include counted

/-- The futex of one key changes with the waiters of that key. -/
theorem Counted.change {entry : Option Futex} {waiters : List Waiter}
    (here : (entry.getD ⟨0, 0⟩).waiting = waiters.countP (·.key = key))
    (bounds : 0 ≤ (entry.getD ⟨0, 0⟩).waking ∧ (entry.getD ⟨0, 0⟩).waking ≤ (entry.getD ⟨0, 0⟩).waiting)
    (others : ∀ other, other ≠ key → waiters.countP (·.key = other) = system.waiters.countP (·.key = other)) :
    Counted ⟨update system.futexes key entry, waiters⟩ := by
  constructor
  · intro other
    by_cases same : other = key
    · simpa [System.futex, same] using here
    · simpa [System.futex, same, others other same] using counted.waiting other
  · intro other
    by_cases same : other = key
    · simpa [System.futex, same] using bounds
    · simpa [System.futex, same] using counted.waking other

theorem Counted.wait {word : Nat} (moved : system.wait key thread word = .ok next) : Counted next := by
  obtain ⟨_, moved⟩ := guard_ok.mp moved
  cases moved
  have waiting := counted.waiting key
  have waking := counted.waking key
  unfold System.futex at waiting waking
  apply counted.change
  · simp [waiting]
  · simp only [Option.getD_some]
    omega
  · intro other different
    simp [Ne.symm different]

theorem Counted.wake (key value : Nat) : Counted (system.wake key value).1 := by
  have waiting := counted.waiting key
  have waking := counted.waking key
  have ret := wake_ret system key value
  unfold System.wake at ret ⊢
  unfold System.futex at waiting waking ret
  cases found : system.futexes key with
  | none => exact counted
  | some futex =>
    rw [found] at waiting waking ret
    simp only [Option.getD_some] at *
    have keys (other : Nat) : (system.waiters.map fun waiter =>
        if waiter.key = key then { waiter with event := true } else waiter).countP (·.key = other) =
        system.waiters.countP (·.key = other) := by
      rw [List.countP_map]
      congr 1
      funext waiter
      simp only [Function.comp_apply]
      split <;> rfl
    apply counted.change
    · rw [keys]
      exact waiting
    · simp only [Option.getD_some]
      omega
    · exact fun other _ => keys other

theorem Counted.leave (inside : waiter ∈ system.waiters) {waking : Int} (low : 0 ≤ waking)
    (high : waking ≤ (system.futex waiter.key).waiting - 1) :
    Counted (system.leave waiter ⟨(system.futex waiter.key).waiting - 1, waking⟩) := by
  have waiting := counted.waiting waiter.key
  have some_waiter := waits_pos inside
  apply counted.change
  · rw [List.countP_erase]
    split <;> simp_all
  · split <;> simp_all
  · intro other different
    rw [List.countP_erase]
    simp [Ne.symm different]

theorem Counted.resume (moved : system.resume thread how = .ok next) : Counted next := by
  revert moved
  fun_cases System.resume system thread how with intro moved
  | case3 waiter found futex there | case4 waiter found futex there | case7 waiter found futex there =>
    have inside := List.mem_of_find?_eq_some found
    have same : system.futex waiter.key = futex := by rw [System.futex, there, Option.getD_some]
    have waking := counted.waking waiter.key
    have leave := @Counted.leave _ _ counted inside
    have waiting := counted.waiting waiter.key
    have some_waiter := waits_pos inside
    rw [same] at leave waking waiting
    rw [← Except.ok.inj moved]
    apply leave <;> omega
  | case6 =>
    cases moved
    exact counted
  | _ => cases moved

theorem Counted.step (moved : system.step physical event = .ok next) : Counted next := by
  cases event with
  | wait thread word => exact counted.wait moved
  | wake word value =>
    cases moved
    exact counted.wake _ _
  | resume thread how => exact counted.resume moved

end Steps

/-- Only the thread itself stops to wait. -/
theorem resume_waiters (moved : system.resume thread how = .ok next) :
    next.waiters = system.waiters ∨ ∃ left, left.thread = thread ∧ next.waiters = system.waiters.erase left := by
  revert moved
  fun_cases System.resume system thread how with intro moved
  | case3 left found | case4 left found | case7 left found =>
    rw [← Except.ok.inj moved]
    exact .inr ⟨left, by simpa using List.find?_some found, rfl⟩
  | case6 =>
    cases moved
    exact .inl rfl
  | _ => cases moved

/-- A waiter after a step waited before, or a thread that did not wait has just begun to. -/
theorem waiter_was (moved : system.step physical event = .ok next) (inside : waiter ∈ next.waiters) :
    (∃ old ∈ system.waiters, old.thread = waiter.thread ∧ old.word = waiter.word ∧ old.key = waiter.key) ∨
      event = .wait waiter.thread waiter.word ∧ waiter.key = physical waiter.word ∧
        ∀ old ∈ system.waiters, old.thread ≠ waiter.thread := by
  cases event with
  | wait thread word =>
    obtain ⟨free, moved⟩ := guard_ok.mp moved
    cases moved
    rcases List.mem_cons.mp inside with rfl | before
    · exact .inr ⟨rfl, rfl, by simpa using free⟩
    · exact .inl ⟨waiter, before, rfl, rfl, rfl⟩
  | wake word value =>
    cases moved
    unfold System.wake at inside
    split at inside
    · exact .inl ⟨waiter, inside, rfl, rfl, rfl⟩
    · obtain ⟨old, there, rfl⟩ := List.mem_map.mp inside
      exact .inl ⟨old, there, by split <;> exact ⟨rfl, rfl, rfl⟩⟩
  | resume thread how =>
    refine .inl ⟨waiter, ?_, rfl, rfl, rfl⟩
    rcases resume_waiters moved with same | ⟨left, _, same⟩
    · rwa [← same]
    · exact List.mem_of_mem_erase (same ▸ inside)

theorem Keyed.step (keyed : Keyed physical words system) (mine : event.On words)
    (moved : system.step physical event = .ok next) : Keyed physical words next := by
  intro waiter inside
  rcases waiter_was moved inside with ⟨old, before, -, word, key⟩ | ⟨rfl, key, -⟩
  · rw [← word, ← key]
    exact keyed old before
  · exact ⟨mine, key⟩

/-- Words on different pages have their own futexes. -/
theorem Keyed.own {word : Nat} (keyed : Keyed physical words system) (separate : Set.InjOn physical words)
    (inside : word ∈ words) (here : waiter ∈ system.waiters) : waiter.key = physical word ↔ waiter.word = word := by
  obtain ⟨used, key⟩ := keyed waiter here
  rw [key, separate.eq_iff used inside]

/-- The counters of a word's key are those of the word. -/
theorem Counted.exact (counted : Counted system) (keyed : Keyed physical words system)
    (separate : Set.InjOn physical words) : Exact physical words system := by
  intro word inside
  refine ⟨?_, counted.waking _⟩
  rw [counted.waiting, System.blocked]
  congr 1
  apply List.countP_congr
  intro waiter here
  rw [decide_eq_true_eq, decide_eq_true_eq, keyed.own separate inside here]

theorem based_empty : Based physical words System.empty where
  counted := ⟨by simp [System.futex, System.empty], by simp [System.futex, System.empty]⟩
  keyed := by simp [Keyed, System.empty]
  distinct := .nil

theorem Based.step (based : Based physical words system) (mine : event.On words)
    (moved : system.step physical event = .ok next) : Based physical words next where
  counted := based.counted.step moved
  keyed := based.keyed.step mine moved
  distinct := by
    have distinct := based.distinct
    cases event with
    | wait thread word =>
      obtain ⟨free, moved⟩ := guard_ok.mp moved
      cases moved
      simpa [distinct] using free
    | wake word value =>
      cases moved
      unfold System.wake
      split
      · exact distinct
      · rw [List.map_map]
        convert distinct using 2
        funext waiter
        simp only [Function.comp_apply]
        split <;> rfl
    | resume thread how =>
      rcases resume_waiters moved with same | ⟨left, -, same⟩
      · rwa [same]
      · rw [same]
        exact (List.erase_sublist.map _).nodup distinct

theorem leave_waking (key : Nat) (futex : Futex) (kept : futex.waking ≤ futex.waiting) (low : 0 ≤ futex.waking) :
    ((system.leave waiter futex).futex key).waking =
      if key = waiter.key then futex.waking else (system.futex key).waking := by
  unfold System.leave System.futex
  by_cases same : key = waiter.key
  · simp only [same, update_self, if_true]
    split
    · simp only [Option.getD_none]
      omega
    · rfl
  · simp [same]

section Release

variable {rest : List Waiter}

/-- A thread leaves when an event has reached it and its futex still wakes somebody. -/
theorem Counted.retry (counted : Counted system) (distinct : (system.waiters.map Waiter.thread).Nodup)
    (inside : waiter ∈ system.waiters) :
    system.retry waiter = if waiter.event ∧ 0 < (system.futex waiter.key).waking then
      system.leave waiter ⟨(system.futex waiter.key).waiting - 1, (system.futex waiter.key).waking - 1⟩ else system := by
  have found : system.waiters.find? (·.thread = waiter.thread) = some waiter := by
    apply find?_unique inside (by simp)
    intro other there same
    exact List.inj_on_of_nodup_map distinct there inside (by simpa using same)
  have waiting := counted.waiting waiter.key
  have waking := counted.waking waiter.key
  have some_waiter := waits_pos inside
  unfold System.futex at *
  cases there : system.futexes waiter.key with
  | none =>
    rw [there] at waiting
    simp at waiting
    omega
  | some futex =>
    rw [there] at waking
    simp only [Option.getD_some] at waking
    simp only [System.retry, System.resume, found, there, Option.getD_some]
    cases waiter.event with
    | false => simp [Except.toOption]
    | true =>
      by_cases zero : futex.waking = 0
      · simp [zero, Except.toOption]
      · have positive : 0 < futex.waking := by omega
        simp [zero, positive, Except.toOption]

/-- The threads that look leave as long as their futex wakes somebody. -/
theorem Counted.retried (counted : Counted system) (distinct : (system.waiters.map Waiter.thread).Nodup)
    (inside : rest ⊆ system.waiters) (apart : (rest.map Waiter.thread).Nodup) (key : Nat) :
    (rest.foldl System.retry system).waiters.Sublist system.waiters ∧
      ((rest.foldl System.retry system).waiters.countP (·.key = key) : Int) = system.waiters.countP (·.key = key) -
        min (system.futex key).waking (rest.countP fun waiter => waiter.key = key && waiter.event) := by
  induction rest generalizing system with
  | nil =>
    have waking := counted.waking key
    simp [waking.1]
  | cons waiter rest ih =>
    have here := inside List.mem_cons_self
    have others : rest ⊆ system.waiters := fun other member => inside (List.mem_cons_of_mem _ member)
    obtain ⟨own, apart⟩ := List.nodup_cons.mp apart
    have waking := counted.waking waiter.key
    have some_waiter := waits_pos here
    rw [List.foldl_cons, counted.retry distinct here, List.countP_cons]
    by_cases leaves : waiter.event ∧ 0 < (system.futex waiter.key).waking
    · rw [if_pos leaves]
      have left : Counted (system.leave waiter
          ⟨(system.futex waiter.key).waiting - 1, (system.futex waiter.key).waking - 1⟩) :=
        counted.leave here (by omega) (by omega)
      have stay : rest ⊆ system.waiters.erase waiter := fun other member => by
        refine (List.mem_erase_of_ne ?_).mpr (others member)
        rintro rfl
        exact own (List.mem_map_of_mem member)
      obtain ⟨shorter, count⟩ := ih left ((List.erase_sublist.map _).nodup distinct) stay apart
      refine ⟨shorter.trans List.erase_sublist, ?_⟩
      rw [count, leave_waking _ _ (by simp only; omega) (by simp only; omega)]
      simp only [System.leave, List.countP_erase, here, true_and, leaves.1, Bool.and_true, decide_eq_true_eq]
      by_cases same : key = waiter.key
      · subst same
        simp only [if_true]
        omega
      · simp [same, Ne.symm same]
    · rw [if_neg leaves]
      obtain ⟨shorter, count⟩ := ih counted distinct others apart
      refine ⟨shorter, ?_⟩
      rw [count]
      by_cases same : waiter.key = key
      · subst same
        by_cases reached : waiter.event = true
        · have zero : (system.futex waiter.key).waking = 0 := by
            by_contra
            exact leaves ⟨reached, by omega⟩
          rw [zero]
          omega
        · simp [reached]
      · simp [same]

/-- A wake reaches all threads at its futex. -/
theorem Counted.wake_reached (counted : Counted system) (key value other : Nat) :
    (system.wake key value).1.waiters.countP (fun waiter => waiter.key = other && waiter.event) =
      if other = key then system.waiters.countP (·.key = key)
      else system.waiters.countP fun waiter => waiter.key = other && waiter.event := by
  unfold System.wake
  cases there : system.futexes key with
  | none =>
    have waiting := counted.waiting key
    rw [System.futex, there, Option.getD_none] at waiting
    dsimp only
    split_ifs with same
    · subst same
      have none_waits := List.countP_eq_zero.mp (Int.ofNat_eq_zero.mp waiting.symm)
      rw [List.countP_eq_zero.mpr none_waits, List.countP_eq_zero]
      intro waiter inside
      have elsewhere := none_waits waiter inside
      simp_all
    · rfl
  | some futex =>
    dsimp only
    rw [List.countP_map]
    split_ifs with here
    · subst here
      apply List.countP_congr
      intro waiter _
      by_cases same : waiter.key = other <;> simp [same]
    · apply List.countP_congr
      intro waiter _
      by_cases same : waiter.key = key <;> simp [same, Ne.symm here]

end Release

section Separate

variable {word : Nat} (based : Based physical words system) (separate : Set.InjOn physical words) (inside : word ∈ words)
include based separate inside

theorem Based.reached_eq :
    system.reached word = system.waiters.countP fun waiter => waiter.key = physical word && waiter.event := by
  apply List.countP_congr
  intro waiter here
  rw [Bool.and_eq_true, Bool.and_eq_true, decide_eq_true_eq, decide_eq_true_eq, based.keyed.own separate inside here]

/-- The counter and the events together say how many threads can leave. -/
theorem Based.released_eq : system.released word = min (system.futex (physical word)).waking (system.reached word) := by
  obtain ⟨shorter, count⟩ := based.counted.retried based.distinct (List.Subset.refl _) based.distinct (physical word)
  have blocked (waiters : List Waiter) (part : waiters ⊆ system.waiters) :
      waiters.countP (·.word = word) = waiters.countP (·.key = physical word) := by
    apply List.countP_congr
    intro waiter here
    rw [decide_eq_true_eq, decide_eq_true_eq, based.keyed.own separate inside (part here)]
  rw [System.released, System.blocked, System.blocked, blocked _ (List.Subset.refl _),
    based.reached_eq separate inside, System.settled, blocked _ shorter.subset]
  omega

end Separate

section Fairness

variable (based : Based physical words system) (separate : Set.InjOn physical words)
include based separate

/-- Waking is exact as long as the threads that are to be woken have been reached. -/
theorem Based.exact_iff : AllExact physical words system ↔ Covered physical words system := by
  have exact := based.counted.exact based.keyed separate
  constructor
  · intro right word inside
    have ret := (right.2 word inside (system.blocked word)).1
    have counts := exact word inside
    rw [wake_ret, based.released_eq separate inside, counts.1] at ret
    omega
  · intro covered
    refine ⟨exact, fun word inside value => ?_⟩
    have counts := exact word inside
    have ret := wake_ret system (physical word) value
    rw [counts.1] at ret
    have few := covered word inside
    refine ⟨by rw [based.released_eq separate inside, min_eq_left few, ret], fun other used => ?_⟩
    have woken : Based physical words (system.wake (physical word) value).1 :=
      based.step (show Event.On words (.wake word value) from inside) rfl
    rw [woken.released_eq separate used, woken.reached_eq separate used, based.released_eq separate used,
      based.counted.wake_reached, wake_waking]
    simp only [separate.eq_iff used inside]
    split_ifs with own
    · subst own
      rw [based.counted.waiting] at counts
      omega
    · rw [based.reached_eq separate used]
      omega

variable (covered : Covered physical words system)
include covered

/-- A thread that leaves takes its event with it. -/
theorem Based.leave_covered (inside : waiter ∈ system.waiters) {waking : Int} (low : 0 ≤ waking)
    (high : waking ≤ (system.futex waiter.key).waiting - 1) :
    Covered physical words (system.leave waiter ⟨(system.futex waiter.key).waiting - 1, waking⟩) ↔
      waking + (if waiter.event then 1 else 0) ≤ system.reached waiter.word := by
  obtain ⟨used, key⟩ := based.keyed waiter inside
  have reached (word : Nat) : (system.waiters.erase waiter).countP (fun other => other.word = word && other.event) =
      system.reached word - if waiter.word = word ∧ waiter.event then 1 else 0 := by
    rw [List.countP_erase, System.reached]
    simp [inside]
  have here : waiter.event = true → 0 < system.reached waiter.word := fun event =>
    List.countP_pos_iff.mpr ⟨waiter, inside, by simp [event]⟩
  have own : ((system.leave waiter ⟨(system.futex waiter.key).waiting - 1, waking⟩).futex
      (physical waiter.word)).waking = waking := by
    rw [leave_waking _ _ high low, if_pos key.symm]
  constructor
  · intro kept
    have count := kept waiter.word used
    rw [own, System.reached, System.leave, reached] at count
    split_ifs at count ⊢ with test event <;> simp_all
  · intro enough word inside_word
    rw [System.reached, System.leave, reached]
    by_cases same : waiter.word = word
    · subst same
      rw [← System.leave, own]
      split_ifs at enough ⊢ with event test <;> simp_all
    · have other : physical word ≠ waiter.key := fun equal =>
        same ((based.keyed.own separate inside_word inside).mp equal.symm)
      rw [← System.leave, leave_waking _ _ high low, if_neg other]
      simpa [same] using covered word inside_word

/-- A wait that ends late lowers the counter only when it would count more threads than are left. -/
theorem Based.late_iff (inside : waiter ∈ system.waiters) :
    Covered physical words (system.leave waiter ⟨(system.futex waiter.key).waiting - 1,
      if (system.futex waiter.key).waking > (system.futex waiter.key).waiting - 1 then
        (system.futex waiter.key).waiting - 1 else (system.futex waiter.key).waking⟩) ↔
      ∀ other ∈ system.waiters, other.thread = waiter.thread → other.event = true →
        system.released other.word = system.reached other.word →
          system.blocked other.word ≤ system.reached other.word := by
  obtain ⟨used, key⟩ := based.keyed waiter inside
  have counts := based.counted.exact based.keyed separate waiter.word used
  have few := covered waiter.word used
  have released := based.released_eq separate used
  have some_waiter : 0 < system.blocked waiter.word := List.countP_pos_iff.mpr ⟨waiter, inside, by simp⟩
  rw [← key] at counts few released
  rw [min_eq_left few] at released
  rw [based.leave_covered separate covered inside (by split <;> omega) (by split <;> omega)]
  constructor
  · intro enough other there same event
    obtain rfl := List.inj_on_of_nodup_map based.distinct there inside same
    intro all
    simp only [event, if_true] at enough
    split_ifs at enough <;> omega
  · intro fair
    have fair := fair waiter inside rfl
    cases event : waiter.event with
    | false =>
      simp only [Bool.false_eq_true, if_false]
      split_ifs <;> omega
    | true =>
      have fair := fair event
      simp only [if_true]
      split_ifs <;> omega

/-- After a step no more threads are to be woken than have been reached, exactly when the step is fair. -/
theorem Based.covered_iff (mine : event.On words) (moved : system.step physical event = .ok next) :
    Covered physical words next ↔ Fair system event := by
  cases event with
  | wait thread word =>
    obtain ⟨free, moved⟩ := guard_ok.mp moved
    cases moved
    refine iff_of_true (fun other used => ?_) trivial
    have few := covered other used
    unfold System.futex System.reached at few ⊢
    by_cases same : physical other = physical word
    · rw [same] at few ⊢
      simpa using few
    · simpa [same] using few
  | wake word value =>
    have woken := based.step mine moved
    cases moved
    refine iff_of_true (fun other used => ?_) trivial
    have counts := based.counted.waking (physical word)
    have ret := wake_ret system (physical word) value
    rw [woken.reached_eq separate used, based.counted.wake_reached, wake_waking]
    split_ifs with same
    · rw [same, ← based.counted.waiting]
      omega
    · rw [← based.reached_eq separate used, add_zero]
      exact covered other used
  | resume thread how =>
    simp only [System.step] at moved
    revert moved
    fun_cases System.resume system thread how with intro moved
    | case3 waiter found futex there | case4 waiter found futex there =>
      have own : waiter.thread = thread := by simpa using List.find?_some found
      obtain rfl : system.futex waiter.key = futex := by rw [System.futex, there, Option.getD_some]
      rw [← Except.ok.inj moved, based.late_iff separate covered (List.mem_of_find?_eq_some found), own, Fair]
      exact ⟨fun fair _ => fair, fun fair => fair nofun⟩
    | case6 =>
      cases moved
      exact iff_of_true covered (fun late => absurd rfl late)
    | case7 waiter found futex there _ event some_left =>
      have inside := List.mem_of_find?_eq_some found
      obtain rfl : system.futex waiter.key = futex := by rw [System.futex, there, Option.getD_some]
      have counts := based.counted.waking waiter.key
      obtain ⟨used, key⟩ := based.keyed waiter inside
      have few := covered waiter.word used
      rw [← key] at few
      rw [← Except.ok.inj moved]
      refine iff_of_true ?_ (fun late => absurd rfl late)
      rw [based.leave_covered separate covered inside (by omega) (by omega)]
      simp_all
    | _ => cases moved

end Fairness

/-- The futexes count, and every call that wakes returns and releases, exactly the waiters of each word in all fair runs
when no two of the words are on one page. Then the first step that is not fair is the first after which they do not. -/
theorem futex_exact_iff (frame : Nat → Nat) (words : Set Nat) :
    ((∀ system, Reaches (System.step (vmmGetphysical frame)) (fun system event => event.On words ∧ Fair system event)
        System.empty system → AllExact (vmmGetphysical frame) words system) ↔ Separate frame words) ∧
      (Separate frame words → ∀ system event next, Reaches (System.step (vmmGetphysical frame))
        (fun system event => event.On words ∧ Fair system event) System.empty system → event.On words →
          system.step (vmmGetphysical frame) event = .ok next →
            (AllExact (vmmGetphysical frame) words next ↔ Fair system event)) := by
  have apart (separate : Separate frame words) : Set.InjOn (vmmGetphysical frame) words := by
    intro one one_used two two_used same
    rw [vmmGetphysical_eq, vmmGetphysical_eq] at same
    exact separate one one_used two two_used same
  have kept (separate : Separate frame words) {system : System} (reached : Reaches (System.step (vmmGetphysical frame))
      (fun system event => event.On words ∧ Fair system event) System.empty system) :
      Based (vmmGetphysical frame) words system ∧ Covered (vmmGetphysical frame) words system := by
    apply reached.keeps fun system => Based (vmmGetphysical frame) words system ∧
      Covered (vmmGetphysical frame) words system
    · rintro system event next ⟨based, covered⟩ ⟨mine, fair⟩ moved
      exact ⟨based.step mine moved, (based.covered_iff (apart separate) covered mine moved).mpr fair⟩
    · exact ⟨based_empty, fun word _ => by simp [System.futex, System.empty, System.reached]⟩
  refine ⟨⟨?_, fun separate system reached => ?_⟩, fun separate system event next reached mine moved => ?_⟩
  · intro all one one_used two two_used same
    by_contra different
    have waited : System.empty.step (vmmGetphysical frame) (.wait 0 one) = .ok _ := rfl
    have exact := (all _ (.tail .refl ⟨.wait 0 one, ⟨one_used, trivial⟩, waited⟩)).1 two two_used
    simp [System.futex, System.blocked, vmmGetphysical_eq, same, different, System.empty] at exact
  · obtain ⟨based, covered⟩ := kept separate reached
    exact (based.exact_iff (apart separate)).mpr covered
  · obtain ⟨based, covered⟩ := kept separate reached
    rw [(based.step mine moved).exact_iff (apart separate), based.covered_iff (apart separate) covered mine moved]

/-- A thread waits for the first word of a page, and waking the second one counts and releases it. And when a thread that
was woken is interrupted behind another one that has just begun to wait, the next call returns 0 and releases that one. -/
theorem others_released : (∃ system next, System.empty.step (vmmGetphysical id) (.wait 0 0) = .ok system ∧
      system.wake (vmmGetphysical id 4) 1 = (next, 1) ∧ system.blocked 4 = 0 ∧
      ∃ last, next.step (vmmGetphysical id) (.resume 0 .woken) = .ok last ∧ last.waiters = []) ∧
    ∃ system next, [.wait 0 0, .wake 0 1, .wait 1 0, .resume 0 .interrupted].foldlM
        (System.step (vmmGetphysical id)) System.empty = .ok system ∧
      system.wake (vmmGetphysical id 0) 1 = (next, 0) ∧ system.blocked 0 = 1 ∧ system.released 0 = 0 ∧
      ∃ last, next.step (vmmGetphysical id) (.resume 1 .woken) = .ok last ∧ last.waiters = [] :=
  ⟨⟨_, _, rfl, rfl, rfl, _, rfl, rfl⟩, _, _, rfl, rfl, rfl, rfl, _, rfl, rfl⟩

section Copies

/-- The page is mapped to the physical page. -/
def Memory.Maps (memory : Memory) (page phys : Nat) : Prop := ∃ writable, memory.table page = some (phys, writable)

/-- A write does not copy the page: it is writable, or nobody else uses it. -/
def Memory.Private (memory : Memory) (page : Nat) : Prop :=
  ∃ phys writable, memory.table page = some (phys, writable) ∧ (writable = true ∨ memory.refcount phys = 1)

/-- The thread waits at the futex that a call finds for the word. -/
def Found (machine : Machine) (thread word : Nat) : Prop :=
  ∃ waiter ∈ machine.system.waiters, waiter.thread = thread ∧
    waiter.key = vmmGetphysical (machine.memory.touch (word / pageSize)).frame word ∧
    machine.system.futexes waiter.key ≠ none

/-- The thread stays asleep, and stores do not copy the page of the word. -/
def Undisturbed (thread word : Nat) (machine : Machine) : Action → Prop
  | .futex (.resume other _) => other ≠ thread
  | .store other _ => other / pageSize = word / pageSize → machine.memory.Private (word / pageSize)
  | _ => True

/-- A thread waits until it takes the mutex again itself. -/
theorem waiter_stays (moved : system.step physical event = .ok next) (inside : waiter ∈ system.waiters)
    (same : waiter.thread = thread) (asleep : ∀ how, event ≠ .resume thread how) :
    ∃ waiter ∈ next.waiters, waiter.thread = thread := by
  cases event with
  | wait other word =>
    simp only [System.step, System.wait] at moved
    split at moved <;> cases moved
    exact ⟨waiter, List.mem_cons_of_mem _ inside, same⟩
  | wake word value =>
    cases moved
    unfold System.wake
    split
    · exact ⟨waiter, inside, same⟩
    · exact ⟨_, List.mem_map_of_mem inside, by split <;> exact same⟩
  | resume other how =>
    rcases resume_waiters moved with stay | ⟨left, own, stay⟩
    · exact ⟨waiter, stay ▸ inside, same⟩
    · have different : waiter ≠ left := by
        rintro rfl
        exact asleep how (by rw [← same, own])
      exact ⟨waiter, stay ▸ (List.mem_erase_of_ne different).mpr inside, same⟩

structure Sleeps (thread word : Nat) (machine : Machine) (phys : Nat) : Prop where
  maps : machine.memory.Maps (word / pageSize) phys
  waits : ∃ waiter ∈ machine.system.waiters, waiter.thread = thread
  key : ∀ waiter ∈ machine.system.waiters, waiter.thread = thread → waiter.key = phys
  counted : Counted machine.system

variable {memory later : Memory} {page phys : Nat}

section

variable (maps : memory.Maps page phys)
include maps

theorem Memory.Maps.frame : memory.frame page = phys := by
  obtain ⟨_, entry⟩ := maps
  rw [Memory.frame, entry]
  rfl

theorem Memory.Maps.touch_self : memory.touch page = memory := by
  obtain ⟨_, entry⟩ := maps
  rw [Memory.touch, entry]

theorem Memory.Maps.touch (other : Nat) : (memory.touch other).Maps page phys := by
  by_cases same : other = page
  · rwa [same, maps.touch_self]
  · unfold Memory.touch
    split
    · exact maps
    · obtain ⟨writable, entry⟩ := maps
      exact ⟨writable, by simpa [Ne.symm same] using entry⟩

theorem Memory.Maps.share (other : Nat) : (memory.share other).Maps page phys := by
  unfold Memory.share
  split
  · exact maps
  · next entry =>
    obtain ⟨writable, mine⟩ := maps
    by_cases same : page = other
    · subst same
      rw [mine] at entry
      cases entry
      exact ⟨false, by simp⟩
    · exact ⟨writable, by simpa [same] using mine⟩

/-- A write to another page, or to one that is private, keeps the physical page. -/
theorem Memory.Maps.write {other : Nat} (wrote : memory.write other newphys = .ok later)
    (kept : other = page → memory.Private page) : later.Maps page phys := by
  obtain ⟨writable, mine⟩ := maps
  have others (different : other ≠ page) (value : Option (Nat × Bool)) :
      update memory.table other value page = some (phys, writable) := by
    rw [update_of_ne (Ne.symm different), mine]
  revert wrote
  fun_cases Memory.write memory other newphys with intro wrote
  | case2 =>
    cases wrote
    exact ⟨writable, mine⟩
  | case3 oldphys entry =>
    cases wrote
    by_cases same : other = page
    · subst same
      cases mine.symm.trans entry
      exact ⟨true, update_self ..⟩
    · exact ⟨writable, others same _⟩
  | case5 oldphys entry shared =>
    cases wrote
    refine ⟨writable, others (fun same => ?_) _⟩
    obtain ⟨_, _, own, free⟩ := kept same
    subst same
    cases entry.symm.trans own
    exact shared (free.resolve_left Bool.false_ne_true)
  | _ => cases wrote

/-- A write to a page that others use moves it to another physical page. -/
theorem Memory.Maps.copied (wrote : memory.write page newphys = .ok later) (shared : ¬ memory.Private page) :
    later.Maps page newphys ∧ newphys ≠ phys := by
  obtain ⟨writable, mine⟩ := maps
  revert wrote
  fun_cases Memory.write memory page newphys with intro wrote
  | case2 _ equal => exact absurd ⟨_, _, equal, .inl rfl⟩ shared
  | case3 oldphys equal single => exact absurd ⟨_, _, equal, .inr single⟩ shared
  | case5 oldphys equal _ fresh =>
    cases wrote
    cases mine.symm.trans equal
    exact ⟨⟨true, update_self ..⟩, fun same => fresh (.inl same)⟩
  | _ => cases wrote

end

variable {machine next : Machine} {word : Nat}

theorem Sleeps.step (sleeps : Sleeps thread word machine phys) (undisturbed : Undisturbed thread word machine action)
    (moved : machine.step action = .ok next) : Sleeps thread word next phys := by
  obtain ⟨maps, ⟨waiter, inside, same⟩, key, counted⟩ := sleeps
  cases action with
  | share page =>
    cases moved
    exact ⟨maps.share page, ⟨waiter, inside, same⟩, key, counted⟩
  | unshare other =>
    cases moved
    exact ⟨maps, ⟨waiter, inside, same⟩, key, counted⟩
  | store other newphys =>
    obtain ⟨later, wrote, moved⟩ := bind_ok.mp moved
    cases moved
    refine ⟨?_, ⟨waiter, inside, same⟩, key, counted⟩
    refine (maps.touch _).write wrote fun here => ?_
    rw [here, maps.touch_self]
    exact undisturbed here
  | futex event =>
    obtain ⟨later, stepped, moved⟩ := bind_ok.mp moved
    cases moved
    have touched : (match event with
        | .wait _ target | .wake target _ => machine.memory.touch (target / pageSize)
        | .resume _ _ => machine.memory).Maps (word / pageSize) phys := by
      cases event with
      | resume => exact maps
      | _ => exact maps.touch _
    refine ⟨touched, waiter_stays stepped inside same ?_, fun other there mine => ?_, counted.step stepped⟩
    · rintro how rfl
      exact undisturbed rfl
    · rcases waiter_was stepped there with ⟨old, before, one, -, two⟩ | ⟨-, -, fresh⟩
      · rw [← two]
        exact key old before (one.trans mine)
      · exact absurd (same.trans mine.symm) (fresh waiter inside)

theorem Sleeps.found (sleeps : Sleeps thread word machine phys) : Found machine thread word := by
  obtain ⟨maps, ⟨waiter, inside, same⟩, key, counted⟩ := sleeps
  have mine := key waiter inside same
  refine ⟨waiter, inside, same, ?_, ?_⟩
  · rw [maps.touch_self, vmmGetphysical_eq, maps.frame, mine]
  · intro missing
    have waiting := counted.waiting waiter.key
    rw [System.futex, missing] at waiting
    have some_waiter := waits_pos inside
    simp only [Option.getD_none] at waiting
    omega

/-- A thread that has gone to sleep waits at the physical page of its word. -/
theorem wait_sleeps (counted : Counted machine.system)
    (slept : machine.step (.futex (.wait thread word)) = .ok next) : ∃ phys, Sleeps thread word next phys := by
  obtain ⟨later, stepped, moved⟩ := bind_ok.mp slept
  cases moved
  have kept := counted.step stepped
  have maps : ∃ phys, (machine.memory.touch (word / pageSize)).Maps (word / pageSize) phys := by
    unfold Memory.touch
    split
    · next entry present => exact ⟨entry.1, entry.2, present⟩
    · exact ⟨_, false, update_self ..⟩
  obtain ⟨phys, maps⟩ := maps
  obtain ⟨free, stepped⟩ := guard_ok.mp stepped
  cases stepped
  refine ⟨phys, maps, ⟨_, List.mem_cons_self, rfl⟩, ?_, kept⟩
  refine List.forall_mem_cons.mpr ⟨fun _ => by rw [vmmGetphysical_eq, maps.frame], fun waiter inside same => ?_⟩
  exact absurd same (by simpa using List.all_eq_true.mp free waiter inside)

theorem Counted.act (counted : Counted machine.system) (moved : machine.step action = .ok next) :
    Counted next.system := by
  cases action with
  | futex event =>
    obtain ⟨later, stepped, moved⟩ := bind_ok.mp moved
    cases moved
    exact counted.step stepped
  | store other newphys =>
    obtain ⟨later, wrote, moved⟩ := bind_ok.mp moved
    cases moved
    exact counted
  | share | unshare =>
    cases moved
    exact counted

/-- A thread goes to sleep. As long as no store copies its page, the next store lets a call find it exactly when it does
not copy the page either. -/
theorem stored_found_iff {memory : Memory} {asleep : Machine} {newphys : Nat}
    (reached : Reaches Machine.step (fun _ _ => True) ⟨memory, System.empty⟩ machine)
    (slept : machine.step (.futex (.wait thread word)) = .ok asleep) {before : Machine}
    (run : Reaches Machine.step (Undisturbed thread word) asleep before)
    (stored : before.step (.store word newphys) = .ok next) :
    Found next thread word ↔ before.memory.Private (word / pageSize) := by
  have counted : Counted machine.system := by
    refine reached.keeps (fun machine => Counted machine.system) (fun _ _ _ counted _ moved => counted.act moved) ?_
    exact ⟨by simp [System.futex, System.empty], by simp [System.futex, System.empty]⟩
  obtain ⟨phys, begins⟩ := wait_sleeps counted slept
  have sleeps : Sleeps thread word before phys := run.keeps (fun machine => Sleeps thread word machine phys)
      (fun _ _ _ sleeps undisturbed moved => sleeps.step undisturbed moved) begins
  constructor
  · rintro ⟨waiter, inside, same, key, -⟩
    by_contra shared
    obtain ⟨later, wrote, moved⟩ := bind_ok.mp stored
    cases moved
    rw [sleeps.maps.touch_self] at wrote
    obtain ⟨copied, different⟩ := sleeps.maps.copied wrote shared
    rw [copied.touch_self, vmmGetphysical_eq, copied.frame, sleeps.key waiter inside same] at key
    exact different key.symm
  · intro mine
    have undisturbed : Undisturbed thread word before (.store word newphys) := fun _ => mine
    exact (sleeps.step undisturbed stored).found

/-- A thread waits at the physical page of the first word. -/
def sleeper (memory : Memory) (phys : Nat) : Machine :=
  ⟨memory, ⟨update (fun _ => none) phys (some ⟨1, 0⟩), [⟨0, 0, phys, false⟩]⟩⟩

/-- The first page is mapped. -/
def firstPage (phys : Nat) (writable : Bool) (refcount : Nat → Nat) : Memory :=
  ⟨update (fun _ => none) 0 (some (phys, writable)), refcount, 0⟩

theorem writtenPage_found : ∃ memory asleep next,
    Machine.step ⟨memory, System.empty⟩ (.futex (.wait 0 0)) = .ok asleep ∧
    asleep.step (.store 0 2) = .ok next ∧ Found next 0 0 := by
  have slept : Machine.step ⟨firstPage 1 true fun _ => 0, System.empty⟩ (.futex (.wait 0 0)) =
    .ok (sleeper (firstPage 1 true fun _ => 0) 1) := rfl
  have stored : (sleeper (firstPage 1 true fun _ => 0) 1).step (.store 0 2) =
    .ok (sleeper (firstPage 1 true fun _ => 0) 1) := rfl
  exact ⟨_, _, _, slept, stored, (stored_found_iff .refl slept .refl stored).mpr ⟨1, true, rfl, .inl rfl⟩⟩

/-- A thread waits for a word of a page that was never written. The store moves the page, and the wake finds nobody. -/
theorem freshPage_lost : ∃ asleep stored,
    Machine.step ⟨⟨fun _ => none, update (fun _ => 0) 0 1, 0⟩, System.empty⟩ (.futex (.wait 0 0)) = .ok asleep ∧
    asleep.step (.store 0 2) = .ok stored ∧ stored.system.waiters = [⟨0, 0, 0, false⟩] ∧
    (stored.system.wake (vmmGetphysical stored.memory.frame 0) 1).2 = 0 :=
  ⟨_, _, rfl, rfl, rfl, rfl⟩

end Copies

end Astral.Futexes
