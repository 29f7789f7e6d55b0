import Astral.Construction.Signal

namespace Astral.Signal

open Astral.Library

variable {after : Thread} {threads : List Thread} {index : Nat} {changed : Thread}

/-- A thread sleeps exactly while it is marked as stopped, and not once it was killed. -/
structure Thread.Sane (thread : Thread) : Prop where
  asleep : thread.phase = .stopSleeping ↔ thread.stopped = true
  kill : thread.killed = true → thread.pending sigkill = true
  awake : thread.killed = true → thread.phase ≠ .stopSleeping

theorem Thread.Sane.runs {thread : Thread} (sane : thread.Sane) (awake : thread.phase ≠ .stopSleeping) :
    thread.stopped = false := by
  by_contra stopped
  exact awake (sane.asleep.mpr (by simpa using stopped))

/-- A thread that was woken from its stop finds SIGCONT. -/
def Thread.Ready (thread : Thread) : Prop := thread.phase = .stopWoken → thread.pending sigcont = true

/-- No thread is stopped yet, and none was killed. -/
def Proc.Fresh (proc : Proc) : Prop :=
  ∀ thread ∈ proc.threads, thread.phase = .running ∧ thread.stopped = false ∧ thread.killed = false

/-- SIGKILL is not sent while the thread that takes it is stopped. SIGCONT is not sent while a thread was woken from its
stop and has not run since. -/
def Careful (proc : Proc) : Event → Prop
  | .signal signal =>
    (signal = sigkill → ∀ thread, proc.threads.find? (fun thread => !thread.dead) = some thread →
      thread.stopped = false) ∧
    (signal = sigcont → ∀ thread ∈ proc.threads, thread.phase ≠ .stopWoken)
  | _ => True

section Sets

variable (sigset : Sigset) (signal other : Nat)

@[simp]
theorem setOn_self : sigset.setOn signal signal = true := Function.update_self ..

variable {signal other}

theorem setOn_true (present : sigset other = true) : sigset.setOn signal other = true := by
  by_cases same : other = signal
  · rw [same]
    exact setOn_self sigset signal
  · rw [Sigset.setOn, Function.update_of_ne same]
    exact present

theorem setOff_ne (different : other ≠ signal) : sigset.setOff signal other = sigset other :=
  Function.update_of_ne different _ _

end Sets

variable {proc : Proc} {thread : Thread} {disposition : Disposition} {signal : Nat}

section Deliver

theorem wakeup_interrupted : thread.wakeup true = thread := by simp [Thread.wakeup]

theorem wakeup_asleep (asleep : thread.phase = .stopSleeping) :
    thread.wakeup false = { thread with phase := .stopWoken } := by
  simp [Thread.wakeup, asleep]

/-- The cases of a delivery. -/
theorem deliver_cases (sane : thread.Sane) (wanted : signal = sigkill → disposition.notignorable = true) :
    (thread.phase = .stopSleeping ∧ (signal = sigcont ∨ signal = sigkill) ∧ deliver disposition signal thread =
        ({ thread.receive signal with stopped := false, phase := .stopWoken }, .continued)) ∨
    (signal = sigcont ∧ thread.stopped = false ∧ deliver disposition signal thread =
        ({ thread.receive signal with pending := (thread.receive signal).pending.setOff signal }, .skipped)) ∨
    ((signal = sigkill → thread.stopped = false) ∧
      deliver disposition signal thread = (thread.receive signal, .signalled)) := by
  simp only [deliver]
  by_cases reaches : (disposition.notignored || disposition.notignorable) = true
  · rw [if_pos reaches]
    by_cases continues : ((thread.receive signal).stopped &&
      (decide (signal = sigcont) || decide (signal = sigkill))) = true
    · have stopped : thread.stopped = true := (Bool.and_eq_true_iff.mp continues).1
      have ends : signal = sigcont ∨ signal = sigkill := by simpa using (Bool.and_eq_true_iff.mp continues).2
      have asleep := sane.asleep.mpr stopped
      refine .inl ⟨asleep, ends, ?_⟩
      rw [if_pos continues]
      apply congrArg fun woken => (woken, Outcome.continued)
      apply wakeup_asleep
      exact asleep
    · have stays : signal = sigcont ∨ signal = sigkill → thread.stopped = false := by
        intro ends
        by_contra stopped
        exact continues (by simpa [Thread.receive, stopped] using ends)
      rw [if_neg continues]
      by_cases is_cont : signal = sigcont
      · exact .inr (.inl ⟨is_cont, stays (.inl is_cont), by rw [if_pos is_cont]⟩)
      · exact .inr (.inr ⟨fun is_kill => stays (.inr is_kill), by rw [if_neg is_cont, wakeup_interrupted]⟩)
  · have not_kill : signal ≠ sigkill := fun is_kill => reaches (by simp [wanted is_kill])
    exact .inr (.inr ⟨fun is_kill => absurd is_kill not_kill, by rw [if_neg reaches]⟩)

theorem Thread.Sane.receive (sane : thread.Sane) (safe : signal = sigkill → thread.stopped = false) :
    (thread.receive signal).Sane where
  asleep := sane.asleep
  kill killed := by
    simp only [Thread.receive, Bool.or_eq_true, decide_eq_true_eq] at killed ⊢
    rcases killed with before | now
    · exact setOn_true _ (sane.kill before)
    · rw [now]
      exact setOn_self _ _
  awake killed := by
    simp only [Thread.receive, Bool.or_eq_true, decide_eq_true_eq] at killed ⊢
    rcases killed with before | now
    · exact sane.awake before
    · intro asleep
      have stopped := sane.asleep.mp asleep
      rw [safe now] at stopped
      cases stopped

theorem Thread.Sane.deliver (sane : thread.Sane) (wanted : signal = sigkill → disposition.notignorable = true) :
    (Signal.deliver disposition signal thread).1.Sane := by
  rcases deliver_cases sane wanted with ⟨asleep, ends, result⟩ | ⟨is_cont, not_stopped, result⟩ | ⟨safe, result⟩
  · rw [result]
    have not_killed : thread.killed = false := by
      by_contra killed
      exact sane.awake (by simpa using killed) asleep
    refine ⟨by simp, ?_, by simp⟩
    intro killed
    simp only [Thread.receive, not_killed, Bool.false_or, decide_eq_true_eq] at killed ⊢
    rw [killed]
    exact setOn_self _ _
  · rw [result]
    have received := sane.receive (show signal = sigkill → thread.stopped = false from fun _ => not_stopped)
    refine ⟨received.asleep, ?_, received.awake⟩
    intro killed
    have different : sigkill ≠ signal := by
      rw [is_cont]
      decide
    exact (setOff_ne _ different).trans (received.kill killed)
  · rw [result]
    exact sane.receive safe

theorem Thread.Ready.receive (ready : thread.Ready) : (thread.receive signal).Ready :=
  fun woken => setOn_true _ (ready woken)

/-- A woken thread is still ready unless SIGKILL woke it or SIGCONT came a second time. -/
theorem Thread.Ready.deliver (ready : thread.Ready) (sane : thread.Sane)
    (wanted : signal = sigkill → disposition.notignorable = true)
    (not_stopped : signal = sigkill → thread.stopped = false) (not_woken : signal = sigcont → thread.phase ≠ .stopWoken) :
    (Signal.deliver disposition signal thread).1.Ready := by
  rcases deliver_cases sane wanted with ⟨asleep, ends, result⟩ | ⟨is_cont, _, result⟩ | ⟨_, result⟩
  · rw [result]
    have is_cont : signal = sigcont := by
      apply ends.resolve_right
      intro is_kill
      have stopped := sane.asleep.mp asleep
      rw [not_stopped is_kill] at stopped
      cases stopped
    intro _
    simp only [Thread.receive, is_cont]
    exact setOn_self _ _
  · rw [result]
    intro woken
    exact absurd woken (not_woken is_cont)
  · rw [result]
    exact ready.receive

end Deliver

section Loop

/-- Every thread after a loop is one from before, or one that the loop acted on. -/
def Acted (act : Thread → Thread) : List Thread → List Thread → Prop :=
  List.Forall₂ fun before after => after = before ∨ after = act before

theorem Acted.mem {act : Thread → Thread} {others : List Thread} (acted : Acted act threads others)
    (member : after ∈ others) : after ∈ threads ∨ ∃ thread ∈ threads, after = act thread := by
  induction acted with
  | nil => cases member
  | cons first _ ih =>
    rcases List.mem_cons.mp member with rfl | inside
    · rcases first with rfl | done
      · exact .inl List.mem_cons_self
      · exact .inr ⟨_, List.mem_cons_self, done⟩
    · rcases ih inside with same | ⟨before, before_inside, result⟩
      · exact .inl (List.mem_cons_of_mem _ same)
      · exact .inr ⟨before, List.mem_cons_of_mem _ before_inside, result⟩

theorem signalThreads_acted :
    Acted (fun thread => (deliver disposition signal thread).1) threads (signalThreads disposition signal threads).1 := by
  induction threads with
  | nil => exact .nil
  | cons thread rest ih =>
    simp only [signalThreads]
    split
    · exact .cons (.inl rfl) ih
    split
    · split
      · exact .cons (.inr rfl) ih
      · exact .cons (.inr rfl) (List.forall₂_same.mpr fun _ _ => .inl rfl)
    · exact .cons (.inl rfl) ih

/-- SIGKILL goes to the first thread that is alive. -/
theorem signalThreads_kill (wanted : disposition.notignorable = true) (goes_on : disposition.shouldstop = false)
    (member : after ∈ (signalThreads disposition sigkill threads).1) :
    after ∈ threads ∨ ∃ thread, threads.find? (fun thread => !thread.dead) = some thread ∧
      after = (deliver disposition sigkill thread).1 := by
  induction threads with
  | nil => exact .inl member
  | cons thread rest ih =>
    have not_skipped : ((deliver disposition sigkill thread).2 = .skipped) = False := by
      simp only [deliver]
      split
      · split
        · simp
        · simp [sigkill, sigcont]
      · simp
    have not_cont : (sigkill = sigcont) = False := by simp [sigkill, sigcont]
    simp only [signalThreads] at member
    split at member
    · next dead =>
      rw [List.find?_cons_of_neg (by simp [dead])]
      rcases List.mem_cons.mp member with same | inside
      · exact .inl (same ▸ List.mem_cons_self)
      · rcases ih inside with same | first
        · exact .inl (List.mem_cons_of_mem _ same)
        · exact .inr first
    · next alive =>
      rw [List.find?_cons_of_pos (by simpa using alive)]
      simp only [wanted, Bool.or_true, if_true, not_skipped, goes_on, not_cont, decide_false, Bool.or_false,
        Bool.false_eq_true, if_false] at member
      rcases List.mem_cons.mp member with same | inside
      · exact .inr ⟨thread, rfl, same⟩
      · exact .inl (List.mem_cons_of_mem _ inside)

theorem signalWaiting_acted {woken : List Thread} (found : signalWaiting signal threads = some woken) :
    Acted (·.receive signal) threads woken := by
  induction threads generalizing woken with
  | nil => cases found
  | cons thread rest ih =>
    simp only [signalWaiting] at found
    split at found
    · cases found
      exact .cons (.inr rfl) (List.forall₂_same.mpr fun _ _ => .inl rfl)
    · obtain ⟨others, others_found, rfl⟩ := Option.map_eq_some_iff.mp found
      exact .cons (.inl rfl) (ih others_found)

end Loop

section Proc

/-- Reports to the parent do not change the threads. -/
theorem report_threads {continued : Bool} : (proc.report disposition signal continued).threads = proc.threads := by
  simp only [Proc.report]
  split <;> split <;> rfl

/-- After a signal, every thread is one from before, got the signal in the loop, or waited for it. -/
theorem signalproc_mem (member : after ∈ (proc.signalproc signal).threads) :
    after ∈ (signalThreads (Signal.disposition proc.actions signal) signal proc.threads).1 ∨
      (signal ≠ sigkill ∧ signal ≠ sigcont ∧
        ∃ thread ∈ (signalThreads (Signal.disposition proc.actions signal) signal proc.threads).1,
          after = thread.receive signal) := by
  simp only [Proc.signalproc] at member
  split at member
  · exact .inl member
  · split at member
    · next ignorable =>
      split at member
      · next woken found =>
        rcases (signalWaiting_acted found).mem member with same | received
        · exact .inl same
        · have not_ignorable : (Signal.disposition proc.actions signal).notignorable = false := by
            simpa using (Bool.and_eq_true_iff.mp ignorable).1
          simp only [Signal.disposition, Bool.or_eq_false_iff, decide_eq_false_iff_not] at not_ignorable
          exact .inr ⟨not_ignorable.1.1, not_ignorable.2, received⟩
      · rw [report_threads] at member
        exact .inl member
    · rw [report_threads] at member
      exact .inl member

theorem disposition_kill :
    (Signal.disposition proc.actions sigkill).notignorable = true ∧
      (Signal.disposition proc.actions sigkill).shouldstop = false := by
  constructor
  · simp [Signal.disposition]
  · simp [Signal.disposition, sigkill, sigstop, defaultaction]

theorem disposition_wanted : signal = sigkill → (Signal.disposition proc.actions signal).notignorable = true := by
  intro is_kill
  rw [is_kill]
  exact disposition_kill.1

theorem signalproc_sane (sane : ∀ thread ∈ proc.threads, thread.Sane) :
    ∀ thread ∈ (proc.signalproc signal).threads, thread.Sane := by
  have looped : ∀ thread ∈ (signalThreads (Signal.disposition proc.actions signal) signal proc.threads).1,
      thread.Sane := by
    intro after member
    rcases signalThreads_acted.mem member with same | ⟨thread, inside, rfl⟩
    · exact sane after same
    · exact (sane thread inside).deliver disposition_wanted
  intro after member
  rcases signalproc_mem member with same | ⟨not_kill, _, thread, inside, rfl⟩
  · exact looped after same
  · exact (looped thread inside).receive fun is_kill => absurd is_kill not_kill

theorem signalproc_ready (sane : ∀ thread ∈ proc.threads, thread.Sane) (ready : ∀ thread ∈ proc.threads, thread.Ready)
    (careful : Careful proc (.signal signal)) : ∀ thread ∈ (proc.signalproc signal).threads, thread.Ready := by
  obtain ⟨kill_careful, cont_careful⟩ := careful
  have looped : ∀ thread ∈ (signalThreads (Signal.disposition proc.actions signal) signal proc.threads).1,
      thread.Ready := by
    intro after member
    by_cases is_kill : signal = sigkill
    · rw [is_kill] at member
      rcases signalThreads_kill disposition_kill.1 disposition_kill.2 member with same | ⟨thread, first, rfl⟩
      · exact ready after same
      · have inside := List.mem_of_find?_eq_some first
        exact (ready thread inside).deliver (sane thread inside) disposition_wanted
          (fun _ => kill_careful is_kill thread first) (fun is_cont => absurd is_cont (by decide))
    · rcases signalThreads_acted.mem member with same | ⟨thread, inside, rfl⟩
      · exact ready after same
      · exact (ready thread inside).deliver (sane thread inside) disposition_wanted (fun kill => absurd kill is_kill)
          (fun is_cont => cont_careful is_cont thread inside)
  intro after member
  rcases signalproc_mem member with same | ⟨_, _, thread, inside, rfl⟩
  · exact looped after same
  · exact (looped thread inside).receive

theorem mem_setThread {after : Thread} (member : after ∈ (proc.setThread index changed).threads) :
    after ∈ proc.threads ∨ after = changed :=
  List.mem_or_eq_of_mem_set member

theorem mem_of_get (found : proc.threads[index]? = some thread) : thread ∈ proc.threads :=
  List.mem_of_getElem? found

/-- A thread that was not killed runs, leaves, or stops. -/
structure Thread.Moves (thread : Thread) : Prop where
  unkilled : thread.killed = false
  asleep : thread.phase = .stopSleeping ↔ thread.stopped = true
  not_woken : thread.phase ≠ .stopWoken

theorem Thread.Moves.sane (moves : thread.Moves) : thread.Sane where
  asleep := moves.asleep
  kill killed := by simp [moves.unkilled] at killed
  awake killed := by simp [moves.unkilled] at killed

theorem takeSignal_moves (proc : Proc) (signal : Nat) (source : Source) (moves : thread.Moves) :
    (takeSignal proc thread signal source).1.threads = proc.threads ∧
      (takeSignal proc thread signal source).2.Moves := by
  cases source with
  | urgent | thread => exact ⟨rfl, moves.unkilled, moves.asleep, moves.not_woken⟩
  | process => exact ⟨rfl, moves⟩

theorem terminating_moves (unkilled : thread.killed = false) (runs : thread.stopped = false) :
    Thread.Moves { thread with phase := .terminating } :=
  ⟨unkilled, by simp [runs], by simp⟩

theorem defaultStep_moves (signal : Nat) (moves : thread.Moves) (runs : thread.stopped = false) :
    (defaultStep thread signal).Moves := by
  unfold defaultStep
  split
  · exact moves
  · exact moves
  · exact terminating_moves moves.unkilled runs
  · exact terminating_moves moves.unkilled runs
  · split
    · exact moves
    · exact ⟨moves.unkilled, by simp, by simp⟩

theorem handlerStep_moves (proc : Proc) (signal : Nat) (moves : thread.Moves) (runs : thread.stopped = false)
    (stackOk : Bool) : (handlerStep proc thread signal stackOk).1.threads = proc.threads ∧
      (handlerStep proc thread signal stackOk).2.Moves := by
  unfold handlerStep
  split
  · refine ⟨?_, moves.unkilled, moves.asleep, moves.not_woken⟩
    simp only
    split <;> rfl
  · exact ⟨rfl, terminating_moves moves.unkilled runs⟩

theorem takeSignal_stopped (source : Source) : (takeSignal proc thread signal source).2.stopped = thread.stopped := by
  cases source <;> rfl

/-- A check leaves the other threads alone, and its own thread is sane and not woken from a stop. -/
theorem checkThread_sane (sane : thread.Sane) (running : thread.phase = .running) (stackOk : Bool) :
    (proc.checkThread thread stackOk).1.threads = proc.threads ∧ (proc.checkThread thread stackOk).2.Sane ∧
      (proc.checkThread thread stackOk).2.phase ≠ .stopWoken := by
  have runs := sane.runs (by simp [running])
  unfold Proc.checkThread
  split
  · exact ⟨rfl, ⟨by simp [runs], sane.kill, by simp⟩, by simp⟩
  · next not_killed =>
    have unkilled : thread.killed = false := by
      by_contra killed
      exact not_killed (by simp [sane.kill (by simpa using killed)])
    have moves : thread.Moves := ⟨unkilled, sane.asleep, by simp [running]⟩
    split
    · exact ⟨rfl, sane, moves.not_woken⟩
    · next signal source _ =>
      obtain ⟨same_threads, taken⟩ := takeSignal_moves proc signal source moves
      have taken_runs : (takeSignal proc thread signal source).2.stopped = false := by
        rw [takeSignal_stopped]
        exact runs
      simp only
      split
      · exact ⟨same_threads, taken.sane, taken.not_woken⟩
      · split
        · have stepped := defaultStep_moves signal taken taken_runs
          exact ⟨same_threads, stepped.sane, stepped.not_woken⟩
        · obtain ⟨handler_threads, handled⟩ := handlerStep_moves (takeSignal proc thread signal source).1 signal
            taken taken_runs stackOk
          exact ⟨handler_threads.trans same_threads, handled.sane, handled.not_woken⟩

end Proc

/-- A thread that runs or leaves stays sane when it keeps its phase and its marks. -/
theorem Thread.Sane.keeps (sane : thread.Sane) (phase : changed.phase = thread.phase)
    (stopped : changed.stopped = thread.stopped) (killed : changed.killed = thread.killed)
    (pending : changed.pending sigkill = thread.pending sigkill) : changed.Sane where
  asleep := by
    rw [phase, stopped]
    exact sane.asleep
  kill := by
    rw [killed, pending]
    exact sane.kill
  awake := by
    rw [killed, phase]
    exact sane.awake

/-- A signal other than SIGKILL is taken from a thread, which goes on as before. -/
theorem dequeue_keeps {sigset : Sigset} {left : Proc} (spared : sigset sigkill = false)
    (dequeued : proc.dequeue thread sigset = some (left, changed)) :
    left.threads = proc.threads ∧ changed.phase = thread.phase ∧ changed.stopped = thread.stopped ∧
      changed.killed = thread.killed ∧ changed.pending sigkill = thread.pending sigkill := by
  obtain ⟨signal, found, taken⟩ := Option.map_eq_some_iff.mp dequeued
  have other : sigkill ≠ signal := by
    rintro rfl
    simp [spared] at found
  split at taken
  · cases taken
    exact ⟨rfl, rfl, rfl, rfl, setOff_ne _ other⟩
  · cases taken
    exact ⟨rfl, rfl, rfl, rfl, rfl⟩

theorem onThread_ok {phase : Phase} {act : Thread → Except Fault Proc} {next : Proc}
    (moved : proc.onThread index phase act = .ok next) :
    ∃ thread, proc.threads[index]? = some thread ∧ thread.phase = phase ∧ act thread = .ok next := by
  revert moved
  fun_cases Proc.onThread proc index phase act with intro moved
  | case2 thread found here => exact ⟨thread, found, here, moved⟩
  | _ => cases moved

section

variable (sane : ∀ thread ∈ proc.threads, thread.Sane) {event : Event} {next : Proc}
  (moved : step proc event = .ok next)
include sane moved

/-- A step that is not a signal changes one thread, which is sane afterwards and not woken from a stop. -/
theorem step_local (not_signal : ∀ signal, event ≠ .signal signal) (member : after ∈ next.threads) :
    after ∈ proc.threads ∨ (after.Sane ∧ after.phase ≠ .stopWoken) := by
  have local_change {before : Proc} {index : Nat} {changed : Thread} (same : before.threads = proc.threads)
      (moved : before.setThread index changed = next) (kept : changed.Sane ∧ changed.phase ≠ .stopWoken) :
      after ∈ proc.threads ∨ (after.Sane ∧ after.phase ≠ .stopWoken) := by
    rw [← moved] at member
    rcases mem_setThread member with old | rfl
    · exact .inl (same ▸ old)
    · exact .inr kept
  cases event with
  | signal signal => exact absurd rfl (not_signal signal)
  | setAction =>
    cases moved
    exact .inl member
  | check index stackOk =>
    obtain ⟨thread, found, running, ran⟩ := onThread_ok moved
    have kept := @checkThread_sane proc _ (sane thread (mem_of_get found)) running stackOk
    exact local_change kept.1 (Except.ok.inj ran) kept.2
  | resume =>
    obtain ⟨thread, found, woken, ran⟩ := onThread_ok moved
    obtain ⟨asserted, ran⟩ := guard_ok.mp ran
    exact local_change rfl (Except.ok.inj ran)
      ⟨⟨by simp [asserted.2], (sane thread (mem_of_get found)).kill, by simp⟩, by simp⟩
  | setMask | interrupt | exit =>
    obtain ⟨thread, found, here, ran⟩ := onThread_ok moved
    exact local_change rfl (Except.ok.inj ran)
      ⟨(sane thread (mem_of_get found)).keeps rfl rfl rfl rfl, by simp [here]⟩
  | wait index sigset woken =>
    obtain ⟨thread, found, running, ran⟩ := onThread_ok moved
    obtain ⟨spared, ran⟩ := guard_ok.mp ran
    have old := sane thread (mem_of_get found)
    cases dequeued : proc.dequeue thread sigset with
    | none =>
      rw [dequeued] at ran
      exact local_change rfl (Except.ok.inj ran) ⟨old.keeps rfl rfl rfl rfl, by simp [running]⟩
    | some taken =>
      rw [dequeued] at ran
      obtain ⟨threads, phase, stopped, killed, pending⟩ := dequeue_keeps spared dequeued
      have kept := old.keeps phase stopped killed pending
      refine local_change threads (Except.ok.inj ran) ?_
      split
      · exact ⟨kept.keeps rfl rfl rfl rfl, by simp [phase, running]⟩
      · exact ⟨kept, by simp [phase, running]⟩

/-- Every step keeps the threads sane, and a careful one keeps woken threads ready to go on. -/
theorem step_keeps : (∀ thread ∈ next.threads, thread.Sane) ∧
    ((∀ thread ∈ proc.threads, thread.Ready) → Careful proc event → ∀ thread ∈ next.threads, thread.Ready) := by
  by_cases is_signal : ∃ signal, event = .signal signal
  · obtain ⟨signal, rfl⟩ := is_signal
    cases moved
    exact ⟨signalproc_sane sane, signalproc_ready sane⟩
  · have others {after : Thread} (member : after ∈ next.threads) :=
      step_local sane moved (fun signal same => is_signal ⟨signal, same⟩) member
    refine ⟨fun after member => ?_, fun ready _ after member => ?_⟩
    · exact (others member).elim (sane after) And.left
    · exact (others member).elim (ready after) fun changed woken => absurd woken changed.2

end

theorem Proc.Fresh.sane (fresh : proc.Fresh) : ∀ thread ∈ proc.threads, thread.Sane := by
  intro thread inside
  obtain ⟨running, runs, unkilled⟩ := fresh thread inside
  exact ⟨by simp [running, runs], by simp [unkilled], by simp [running]⟩

theorem Proc.Fresh.ready (fresh : proc.Fresh) : ∀ thread ∈ proc.threads, thread.Ready := by
  intro thread inside woken
  rw [(fresh thread inside).1] at woken
  cases woken

/-- A woken thread that is ready passes the assertions. -/
theorem resume_passes (sane : ∀ thread ∈ proc.threads, thread.Sane) (ready : ∀ thread ∈ proc.threads, thread.Ready)
    (index : Nat) : step proc (.resume index) ≠ .error .assertion := by
  simp only [step, Proc.resume, Proc.onThread]
  split
  · simp
  · next thread found =>
    split
    · next woken =>
      have runs := (sane thread (mem_of_get found)).runs (by simp [woken])
      rw [if_pos ⟨ready thread (mem_of_get found) woken, runs⟩]
      simp
    · simp

/-- A killed thread never sleeps in a stop. With careful signals, a thread that wakes from a stop passes the assertions. -/
theorem stopped_thread_wakes {proc : Proc} (fresh : proc.Fresh) : (∀ state, Reaches step (fun _ _ => True) proc state →
      ∀ thread ∈ state.threads, thread.killed = true → thread.phase ≠ .stopSleeping) ∧
    ∀ state, Reaches step Careful proc state → ∀ index, step state (.resume index) ≠ .error .assertion := by
  constructor
  · intro state reached thread inside killed
    have sane : ∀ thread ∈ state.threads, thread.Sane := by
      apply reached.keeps (fun state : Proc => ∀ thread ∈ state.threads, thread.Sane)
      · intro state event next sane _ moved
        exact (step_keeps sane moved).1
      · exact fresh.sane
    exact (sane thread inside).awake killed
  · intro state reached index
    have both : (∀ thread ∈ state.threads, thread.Sane) ∧ ∀ thread ∈ state.threads, thread.Ready := by
      apply reached.keeps
        (fun state : Proc => (∀ thread ∈ state.threads, thread.Sane) ∧ ∀ thread ∈ state.threads, thread.Ready)
      · intro state event next ⟨sane, ready⟩ careful moved
        exact ⟨(step_keeps sane moved).1, (step_keeps sane moved).2 ready careful⟩
      · exact ⟨fresh.sane, fresh.ready⟩
    exact resume_passes both.1 both.2 index

section Masks

variable {masked : Masked} {source : Source}

theorem handledSignal_next (handled : proc.handledSignal thread = some (signal, source)) (stackOk : Bool) :
    proc.checkThread thread stackOk =
      handlerStep (takeSignal proc thread signal source).1 (takeSignal proc thread signal source).2 signal stackOk := by
  unfold Proc.handledSignal at handled
  unfold Proc.checkThread
  split_ifs at handled ⊢ with killed
  obtain ⟨next, rejects⟩ := Option.filter_eq_some_iff.mp handled
  simp only [Bool.not_eq_true', decide_eq_false_iff_not, not_or] at rejects
  simp only [next]
  rw [if_neg rejects.1, if_neg (not_or.mpr rejects.2)]

theorem takeSignal_mask : (takeSignal proc thread signal source).2.mask = thread.mask ∧
    (takeSignal proc thread signal source).1.actions = proc.actions := by
  cases source <;> exact ⟨rfl, rfl⟩

/-- A handler that runs masks a signal as it should unless the signal is not below its own. -/
theorem handlerMask_iff {mask : Sigset} {action : Sigaction} {other : Nat} (positive : 1 ≤ other) :
    ((if action.nodefer then mask else mask.setOn signal) other ||
        (decide (1 ≤ other ∧ other < signal) && action.mask other)) =
      (mask other || action.mask other || !action.nodefer && other == signal) ↔
    (signal ≤ other → action.mask other = true → mask other = true ∨ other = signal ∧ action.nodefer = false) := by
  rcases Nat.lt_trichotomy other signal with below | rfl | above
  · cases action.nodefer <;> simp [Sigset.setOn, below.ne, below, below.not_ge, positive]
  · cases nodefer : action.nodefer <;> simp [Sigset.setOn]
  · have differs : (other == signal) = false := beq_false_of_ne above.ne'
    cases action.nodefer <;> simp [Sigset.setOn, above.ne', above.not_gt, above.le, differs]

/-- The thread came from `signal_suspend`, and no handler ran since. -/
def Masked.Suspended (masked earlier : Masked) (sigset : Sigset) : Prop :=
  masked.thread.mask = sigset ∧ masked.returnmask = (earlier.signalSuspend sigset).returnmask ∧
    masked.hasreturnmask = (earlier.signalSuspend sigset).hasreturnmask

/-- A handler runs with the right mask if the mask of its action has no further signals from its own on. Its frame holds
the mask to restore if no other mask was left for it, and after `signal_suspend` only if that changed nothing. -/
theorem handler_masks_iff (handled : proc.handledSignal masked.thread = some (signal, source)) :
    ((∀ other, 1 ≤ other → other < nsig → (proc.checkMasked masked true).2.1.thread.mask other =
        (masked.thread.mask other || (proc.actions signal).mask other ||
          !(proc.actions signal).nodefer && other == signal)) ↔
      ∀ other, 1 ≤ other → other < nsig → signal ≤ other → (proc.actions signal).mask other = true →
        masked.thread.mask other = true ∨ other = signal ∧ (proc.actions signal).nodefer = false) ∧
    ((proc.checkMasked masked true).2.2 = some masked.thread.mask ↔
      (masked.hasreturnmask = true → masked.returnmask = masked.thread.mask)) ∧
    ∀ earlier sigset, masked.Suspended earlier sigset →
      ((proc.checkMasked masked true).2.2 = some earlier.thread.mask ↔ sigset = earlier.thread.mask) := by
  obtain ⟨sameMask, sameActions⟩ := @takeSignal_mask proc masked.thread signal source
  have frame : (proc.checkMasked masked true).2.2 = some masked.oldmask := by
    simp only [Proc.checkMasked, handled, if_true]
  have mask (other : Nat) : (proc.checkMasked masked true).2.1.thread.mask other =
      ((if (proc.actions signal).nodefer then masked.thread.mask else masked.thread.mask.setOn signal) other ||
        (decide (1 ≤ other ∧ other < signal) && (proc.actions signal).mask other)) := by
    simp only [Proc.checkMasked, handled, handledSignal_next handled, handlerStep, if_true, sameMask, sameActions]
  refine ⟨?_, ?_, ?_⟩
  · simp only [mask]
    exact forall₃_congr fun other positive _ => handlerMask_iff positive
  · rw [frame, Option.some.injEq, Masked.oldmask]
    cases masked.hasreturnmask <;> simp
  · intro earlier sigset ⟨_, returnmask, hasreturnmask⟩
    rw [frame, Option.some.injEq, Masked.oldmask, hasreturnmask, returnmask]
    exact Iff.rfl

/-- A thread without signals. -/
def idle : Masked where
  thread := ⟨fun _ => false, fun _ => false, fun _ => false, fun _ => false, false, false, .running, false⟩
  returnmask _ := false
  hasreturnmask := false

/-- A process has a handler for the pending signal 10, and the handler masks another signal. -/
def handling (other : Nat) : Proc where
  threads := [idle.thread]
  pending := Sigset.setOn (fun _ => false) 10
  actions _ := ⟨.handler, false, false, false, Sigset.setOn (fun _ => false) other⟩
  status := 0
  stopunwaited := false
  continueunwaited := false

theorem handling_two_masks :
    (∀ other, 1 ≤ other → other < nsig → ((handling 2).checkMasked idle true).2.1.thread.mask other =
      (false || ((handling 2).actions 10).mask other || !false && other == 10)) ∧
    ((handling 2).checkMasked idle true).2.2 = some idle.thread.mask := by
  have handled : (handling 2).handledSignal idle.thread = some (10, .process) := rfl
  obtain ⟨masks, frame, _⟩ := handler_masks_iff handled
  refine ⟨masks.mpr fun other _ _ above wanted => ?_, frame.mpr nofun⟩
  have differs : other ≠ 2 := by omega
  simp [handling, Sigset.setOn, differs] at wanted

/-- A signal above that of the handler is not masked, and the mask of `signal_suspend` is what its handler restores. -/
theorem handling_twelve_unmasked : ((handling 12).actions 10).mask 12 = true ∧
      ((handling 12).checkMasked idle true).2.1.thread.mask 12 = false ∧ idle.thread.mask 3 = false ∧
      ((handling 12).checkMasked (idle.signalSuspend (· == 3)) true).2.2.map (· 3) = some true :=
  ⟨rfl, rfl, rfl, rfl⟩

end Masks

/-- A process with one thread that handles nothing itself. -/
def plain : Proc where
  threads := [⟨fun _ => false, fun _ => false, fun _ => false, fun _ => false, false, false, .running, false⟩]
  pending _ := false
  actions _ := Sigaction.zero
  status := 0
  stopunwaited := false
  continueunwaited := false

/-- A thread that was stopped and continued goes on. -/
theorem continued_thread_passes :
    ∃ state, [Event.signal sigstop, .check 0 true, .signal sigcont].foldlM step plain = .ok state ∧
      (∀ thread ∈ state.threads, thread.phase = .stopWoken) ∧ step state (.resume 0) ≠ .error .assertion := by
  have fresh : plain.Fresh := by
    intro thread inside
    rw [List.mem_singleton.mp inside]
    exact ⟨rfl, rfl, rfl⟩
  have begins : Reaches step Careful plain plain := .refl
  have signalled := begins.next (show Careful _ (.signal sigstop) from
    ⟨fun is_kill => absurd is_kill (by decide), fun is_cont => absurd is_cont (by decide)⟩) rfl
  have stopped := signalled.next (show Careful _ (.check 0 true) from trivial) rfl
  have continued := stopped.next (show Careful _ (.signal sigcont) from
    ⟨fun is_kill => absurd is_kill (by decide), fun _ => by decide⟩) rfl
  exact ⟨_, rfl, by decide, (stopped_thread_wakes fresh).2 _ continued 0⟩

/-- SIGKILL wakes a stopped thread into a failing assertion, and so does a second SIGCONT. -/
theorem kill_fails_assertion :
    [Event.signal sigstop, .check 0 true, .signal sigkill, .resume 0].foldlM step plain = .error .assertion ∧
      [Event.signal sigstop, .check 0 true, .signal sigcont, .signal sigcont, .resume 0].foldlM step plain =
        .error .assertion := by
  constructor
  · rfl
  · rfl

end Astral.Signal
