import Astral.Construction.KillSleep

namespace Astral.Signal

open Library

variable {thread : Sleeper} {event : SleepEvent}

/-- SIGKILL is pending for a thread that sleeps, although it could be interrupted. -/
def Sleeper.Overslept (thread : Sleeper) : Prop := thread.pending sigkill = true ∧ thread.rest = .asleep true

/-- Only a thread that a sender is about to wake sleeps with SIGKILL pending. -/
def Sleepers.Restless (proc : Sleepers) : Prop :=
  ∀ index thread, proc.threads[index]? = some thread → thread.Overslept → ∃ reason, proc.waking = some (index, reason)

/-- The event sends a thread to sleep for which SIGKILL is pending. -/
def Sleepers.Enters (proc : Sleepers) : SleepEvent → Prop
  | .yield index => ∃ thread, proc.threads[index]? = some thread ∧ thread.rest = .prepared true ∧
      (proc.yield thread).Overslept
  | _ => False

/-- A thread that yields to sleep does not mask SIGKILL while it is pending, or something else keeps it awake. -/
def SleepEvent.Unmasked (proc : Sleepers) : SleepEvent → Prop
  | .yield index => ∀ thread, proc.threads[index]? = some thread → thread.rest = .prepared true →
      thread.pending sigkill = true → thread.mask sigkill = false ∨ thread.shouldexit = true ∨
        ∃ signal, 1 ≤ signal ∧ signal < nsig ∧ (signal ≠ sigkill ∨ thread.urgent sigkill = true) ∧
          proc.interrupts thread signal = true
  | _ => True

structure Sleepers.Kept (proc : Sleepers) : Prop where
  restless : proc.Restless
  default : (proc.actions sigkill).address = .dfl

variable {proc next : Sleepers} {index : Nat}

theorem gotsignal_iff (proc : Sleepers) (thread : Sleeper) :
    proc.gotsignal thread = true ↔ ∃ signal, 1 ≤ signal ∧ signal < nsig ∧ proc.interrupts thread signal = true := by
  simp only [Sleepers.gotsignal, List.any_eq_true, List.mem_range'_1, nsig, and_assoc]

theorem yield_overslept_iff (default : (proc.actions sigkill).address = .dfl) (prepared : thread.rest = .prepared true) :
    (proc.yield thread).Overslept ↔ thread.pending sigkill = true ∧
      thread.mask sigkill = true ∧ thread.shouldexit = false ∧
      ¬ ∃ signal, 1 ≤ signal ∧ signal < nsig ∧ (signal ≠ sigkill ∨ thread.urgent sigkill = true) ∧
        proc.interrupts thread signal = true := by
  have killing : proc.interrupts thread sigkill =
      (thread.urgent sigkill || (!thread.mask sigkill && (thread.pending sigkill || proc.pending sigkill))) := by
    simp only [Sleepers.interrupts, default]
    simp [defaultaction, sigkill]
  have rests : (proc.yield thread).Overslept ↔
      thread.pending sigkill = true ∧ thread.shouldexit = false ∧ proc.gotsignal thread ≠ true := by
    unfold Sleepers.yield Sleeper.Overslept
    simp only [prepared, Bool.and_true, Bool.or_eq_true]
    split
    · next wakes => simpa using fun _ stays => wakes.resolve_left (by simp [stays])
    · next sleeps => simp_all
  rw [rests, Ne, gotsignal_iff]
  constructor
  · rintro ⟨pending, stays, quiet⟩
    have silent : proc.interrupts thread sigkill ≠ true := fun loud => quiet ⟨sigkill, by decide, by decide, loud⟩
    refine ⟨pending, ?_, stays, fun ⟨signal, low, high, _, loud⟩ => quiet ⟨signal, low, high, loud⟩⟩
    simp_all
  · rintro ⟨pending, masked, stays, quiet⟩
    refine ⟨pending, stays, fun ⟨signal, low, high, loud⟩ => quiet ⟨signal, low, high, ?_, loud⟩⟩
    by_cases same : signal = sigkill
    · simp_all
    · exact .inl same

theorem modify_restless {waking : Option (Nat × Bool)} {ready : Sleeper → Bool} {change : Sleeper → Sleeper}
    (moved : { proc with waking := waking }.modify index ready change = .ok next)
    (others : ∀ other thread, other ≠ index → proc.threads[other]? = some thread → thread.Overslept →
      ∃ reason, waking = some (other, reason))
    (own : ∀ thread, proc.threads[index]? = some thread → ready thread = true → (change thread).Overslept →
      ∃ reason, waking = some (index, reason)) : next.Restless := by
  revert moved
  fun_cases Sleepers.modify { proc with waking := waking } index ready change with intro moved
  | case1 | case3 => cases moved
  | case2 thread found fit =>
    cases moved
    intro other later there overslept
    rw [List.getElem?_set] at there
    split at there
    · next same =>
      subst same
      split at there
      · cases there
        exact own thread found fit overslept
      · cases there
    · next different => exact others other later (Ne.symm different) there overslept

theorem Sleepers.Restless.asleep (restless : proc.Restless) (idle : proc.waking = none)
    (found : proc.threads[index]? = some thread) : ¬ thread.Overslept := by
  intro overslept
  obtain ⟨_, waking⟩ := restless index thread found overslept
  rw [idle] at waking
  cases waking

theorem kill_restless (restless : proc.Restless) (idle : proc.waking = none) : proc.kill.Restless := by
  fun_cases Sleepers.kill proc with
  | case1 | case2 => exact restless
  | case3 index _ thread =>
    intro other later there overslept
    rw [List.getElem?_set] at there
    split at there
    · next same => exact ⟨_, by rw [← same]⟩
    · exact absurd overslept (restless.asleep idle there)

theorem wakeup_overslept {interrupted : Bool} : ¬ (thread.wakeup interrupted).Overslept := by
  unfold Sleeper.wakeup Sleeper.Overslept
  cases rest : thread.rest with
  | asleep interruptible => cases interrupted <;> cases interruptible <;> simp [rest]
  | awake | prepared => simp [rest]

/-- Every event but a yield keeps the threads restless. -/
theorem step_restless (kept : proc.Kept) (moved : proc.step event = .ok next) (calm : ¬ proc.Enters event) :
    next.Restless := by
  have restless := kept.restless
  revert moved
  fun_cases Sleepers.step proc event with intro moved
  | case1 =>
    exact modify_restless moved (fun other thread _ => restless other thread) fun _ _ _ overslept => nomatch overslept.2
  | case2 index =>
    refine modify_restless moved (fun other thread _ => restless other thread) fun thread found _ overslept => ?_
    by_cases prepared : thread.rest = .prepared true
    · exact absurd ⟨thread, found, prepared, overslept⟩ calm
    · apply restless index thread found
      unfold Sleepers.yield Sleeper.Overslept at overslept
      split at overslept
      · next interruptible rest => cases interruptible <;> simp_all
      · exact overslept
  | case3 =>
    exact modify_restless moved (fun other thread _ => restless other thread) fun _ _ _ overslept =>
      absurd overslept wakeup_overslept
  | case4 idle =>
    cases moved
    exact kill_restless restless idle
  | case7 index interrupted waking =>
    refine modify_restless moved ?_ fun thread _ _ overslept => absurd overslept wakeup_overslept
    intro other thread different found overslept
    obtain ⟨_, same⟩ := restless other thread found overslept
    rw [waking] at same
    cases same
    exact absurd rfl different
  | case8 index how new idle =>
    refine modify_restless moved (fun other thread _ => restless other thread) fun thread found _ overslept => ?_
    exact absurd overslept fun still : thread.Overslept => restless.asleep idle found still
  | case10 | case12 =>
    cases moved
    exact restless
  | _ => cases moved

theorem step_default (kept : proc.Kept) (moved : proc.step event = .ok next) :
    (next.actions sigkill).address = .dfl := by
  have same {proc : Sleepers} {ready : Sleeper → Bool} {change : Sleeper → Sleeper} {index : Nat}
      (moved : proc.modify index ready change = .ok next) : next.actions = proc.actions := by
    unfold Sleepers.modify at moved
    split at moved
    · cases moved
    · split at moved <;> cases moved
      rfl
  have default := kept.default
  revert moved
  fun_cases Sleepers.step proc event with intro moved
  | case1 | case2 | case3 | case8 => rw [same moved, default]
  | case4 =>
    cases moved
    fun_cases Sleepers.kill proc with
    | _ => exact default
  | case7 =>
    rw [same moved]
    exact default
  | case10 =>
    cases moved
    exact default
  | case12 signal action other =>
    cases moved
    change (Function.update proc.actions signal action sigkill).address = .dfl
    rw [Function.update_of_ne fun wrong => other (.inr (.inl wrong.symm)), default]
  | _ => cases moved

/-- An event sends a thread with SIGKILL pending to sleep exactly when the thread masks it. -/
theorem enters_iff (kept : proc.Kept) (event : SleepEvent) : proc.Enters event ↔ ¬ event.Unmasked proc := by
  cases event with
  | yield index =>
    constructor
    · rintro ⟨thread, found, prepared, overslept⟩ unmasked
      have rests := (yield_overslept_iff kept.default prepared).mp overslept
      rcases unmasked thread found prepared rests.1 with clear | exits | other
      · simp [clear] at rests
      · simp [exits] at rests
      · exact rests.2.2.2 other
    · intro masked
      simp only [SleepEvent.Unmasked, not_forall, not_or] at masked
      obtain ⟨thread, found, prepared, pending, masks, stays, quiet⟩ := masked
      refine ⟨thread, found, prepared, (yield_overslept_iff kept.default prepared).mpr ⟨pending, ?_, ?_, quiet⟩⟩
      · simpa using masks
      · simpa using stays
  | prepare | wakeup | kill | finishKill | mask | sigaction => simp [Sleepers.Enters, SleepEvent.Unmasked]

/-- SIGKILL has not been sent yet, and its action is the default one, which no call can change. -/
structure Sleepers.Start (proc : Sleepers) : Prop where
  unsent : ∀ thread ∈ proc.threads, thread.pending sigkill = false
  default : (proc.actions sigkill).address = .dfl

theorem Sleepers.Start.kept {start : Sleepers} (begins : start.Start)
    (reached : Reaches Sleepers.step SleepEvent.Unmasked start proc) : proc.Kept := by
  apply reached.keeps
  · intro proc event next kept unmasked moved
    exact ⟨step_restless kept moved fun enters => (enters_iff kept event).mp enters unmasked, step_default kept moved⟩
  · refine ⟨fun index thread found overslept => ?_, begins.default⟩
    rw [Sleeper.Overslept, begins.unsent thread (List.mem_of_getElem? found)] at overslept
    cases overslept.1

/-- As long as no thread masks SIGKILL when it yields, the next step lets no killed thread enter or stay in an
interruptible sleep exactly when it does not either. -/
theorem killed_awake_iff {start : Sleepers} (begins : start.Start)
    (reached : Reaches Sleepers.step SleepEvent.Unmasked start proc) {event : SleepEvent}
    (moved : proc.step event = .ok next) : (¬ proc.Enters event ∧ next.Restless) ↔ event.Unmasked proc := by
  have kept := begins.kept reached
  rw [← not_iff_not, ← enters_iff kept event]
  refine ⟨fun sleeps => ?_, fun enters calm => calm.1 enters⟩
  by_contra calm
  exact sleeps ⟨calm, step_restless kept moved calm⟩

/-- A thread with nothing to handle that is about to sleep. -/
def drowsy (masked : Bool) : Sleepers where
  threads := [⟨⟨fun _ => masked, fun _ => false, fun _ => false, fun _ => false, false, false, .running, false⟩, false,
    .prepared true⟩]
  pending _ := false
  actions _ := Sigaction.zero
  waking := none

theorem drowsy_start (masked : Bool) : (drowsy masked).Start :=
  ⟨by simp [drowsy], rfl⟩

/-- A thread that is killed while it prepares to sleep stays awake. -/
theorem killed_stays_awake : ∃ killed next, (drowsy false).step .kill = .ok killed ∧
    killed.step (.yield 0) = .ok next ∧ next.threads.map (fun thread => (thread.pending sigkill, thread.rest)) =
      [(true, .awake)] ∧ ¬ killed.Enters (.yield 0) ∧ next.Restless := by
  have begins : Reaches Sleepers.step SleepEvent.Unmasked (drowsy false) (drowsy false) := .refl
  have sent := begins.next (show SleepEvent.Unmasked _ .kill from trivial) rfl
  refine ⟨_, _, rfl, rfl, rfl, (killed_awake_iff (drowsy_start false) sent rfl).mpr ?_⟩
  intro _ found _ _
  cases found
  exact .inl rfl

/-- A thread that masks SIGKILL is killed while it prepares to sleep. It falls asleep, and if the sender wakes it, it can
sleep again. -/
theorem maskedKill_sleeps : ∃ killed asleep woken,
    (drowsy true).step .kill = .ok killed ∧ killed.step (.yield 0) = .ok asleep ∧ killed.Enters (.yield 0) ∧
    [SleepEvent.finishKill, .prepare 0 true, .yield 0].foldlM Sleepers.step asleep = .ok woken ∧ ¬ woken.Restless := by
  refine ⟨_, _, _, rfl, rfl, ⟨_, rfl, rfl, rfl, rfl⟩, rfl, fun restless => ?_⟩
  obtain ⟨_, waking⟩ := restless 0 _ rfl ⟨rfl, rfl⟩
  cases waking

end Astral.Signal
