import Astral.Construction.Semaphore

namespace Astral.Semaphore

open Function Astral.Library

variable {thread : Nat} {interruptible : Bool} {before after : List Nat} {phase : Phase}

theorem wrap_eq {value : Int} (lower : -2 ^ 31 ≤ value) (upper : value < 2 ^ 31) : wrap value = value :=
  Int.bmod_eq_of_le (by omega) (by omega)

/-- The list holds the sleepers, the last arrival first, and no other thread is linked to anything. -/
structure Queued (sem : Sem) (waiting : List Nat) : Prop where
  holds : sem.sleepers.Holds waiting
  detached : ∀ thread, thread ∉ waiting → sem.sleepers.next thread = none ∧ sem.sleepers.prev thread = none

section Queued

variable {sem : Sem} {waiting : List Nat}

theorem Queued.insert (queued : Queued sem waiting) (outside : thread ∉ waiting) :
    Queued (sem.insert thread) (thread :: waiting) where
  holds := queued.holds.pushFront outside
  detached other other_outside := by
    rw [List.mem_cons, not_or] at other_outside
    obtain ⟨same_next, same_prev⟩ := queued.holds.pushFront_other other_outside.1 other_outside.2
    obtain ⟨no_next, no_prev⟩ := queued.detached other other_outside.2
    exact ⟨same_next.trans no_next, same_prev.trans no_prev⟩

/-- A thread left the list and is linked to nothing any more. -/
theorem Queued.left (queued : Queued sem waiting) {rest : Deque Nat} {still : List Nat} (holds : rest.Holds still)
    (alone : rest.next thread = none ∧ rest.prev thread = none) (others : ∀ other, other ∉ waiting →
      rest.next other = sem.sleepers.next other ∧ rest.prev other = sem.sleepers.prev other)
    (fewer : ∀ other ∈ waiting, other = thread ∨ other ∈ still) : Queued { sem with sleepers := rest } still := by
  refine ⟨holds, fun other outside => ?_⟩
  by_cases same : other = thread
  · rw [same]
    exact alone
  · have outside_before : other ∉ waiting := fun inside => (fewer other inside).elim same outside
    obtain ⟨same_next, same_prev⟩ := others other outside_before
    obtain ⟨none_next, none_prev⟩ := queued.detached other outside_before
    exact ⟨same_next.trans none_next, same_prev.trans none_prev⟩

/-- The oldest sleeper is taken. -/
theorem Queued.get (queued : Queued sem (waiting ++ [thread])) :
    ∃ rest, sem.get = some (thread, rest) ∧ rest.i = sem.i ∧ Queued rest waiting := by
  obtain ⟨rest, popped, holds, no_next, no_prev, others⟩ := queued.holds.popBack
  refine ⟨{ sem with sleepers := rest }, by simp [Sem.get, popped], rfl, ?_⟩
  exact queued.left holds ⟨no_next, no_prev⟩ others (by simp [or_comm])

/-- The fields that a thread looks at tell whether it is in the list. -/
theorem Queued.removed_iff (queued : Queued sem waiting) : sem.removed thread = true ↔ thread ∉ waiting := by
  have holds := queued.holds
  constructor
  · intro removed inside
    obtain ⟨before, after, rfl⟩ := List.append_of_mem inside
    have some_head : sem.sleepers.head ≠ none := fun no_head => by simpa using holds.nil_of_head no_head
    have next := holds.next before thread after rfl
    have prev := holds.prev before thread after rfl
    have head := holds.head_iff
    have tail := holds.tail_iff
    cases before with
    | nil =>
      cases after with
      | nil => simp [Sem.removed, some_head, head, tail] at removed
      | cons first rest => simp [Sem.removed, some_head, next] at removed
    | cons first rest => simp [Sem.removed, some_head, prev] at removed
  · intro outside
    obtain ⟨no_next, no_prev⟩ := queued.detached thread outside
    have not_head : sem.sleepers.head ≠ some thread := by
      rw [holds.head]
      exact fun first => outside (List.mem_of_mem_head? first)
    simp [Sem.removed, no_next, no_prev, not_head]

theorem Queued.removeself_outside (queued : Queued sem waiting) (outside : thread ∉ waiting) :
    sem.removeself thread = .ok (false, sem) := by
  rw [Sem.removeself, if_pos (queued.removed_iff.mpr outside)]

theorem Queued.removeself_inside (queued : Queued sem (before ++ thread :: after)) :
    ∃ rest, sem.removeself thread = .ok (true, rest) ∧ rest.i = sem.i ∧ Queued rest (before ++ after) := by
  obtain ⟨rest, unlinked, holds, no_next, no_prev, others⟩ := queued.holds.unlink
  have still : ¬ sem.removed thread = true := fun removed => queued.removed_iff.mp removed (by simp)
  refine ⟨{ sem with sleepers := rest }, ?_, rfl, queued.left holds ⟨no_next, no_prev⟩ others (by simp [or_left_comm])⟩
  rw [Sem.removeself, if_neg still, unlinked]

end Queued

/-- How the count, the sleep list, the threads and the tokens fit together. -/
structure Agrees (initial : Nat) (state : State) (waiting : List Nat) : Prop where
  queued : Queued state.sem waiting
  length : (waiting.length : Int) = max 0 (-state.sem.i)
  lower : -2 ^ 31 ≤ state.sem.i
  upper : state.sem.i < 2 ^ 31
  ordered : waiting.Pairwise fun later earlier => state.arrival earlier < state.arrival later
  arrived : ∀ thread ∈ waiting, state.arrival thread < state.clock
  waits : ∀ thread, thread ∈ waiting ↔ (∃ interruptible, state.phase thread = .asleep interruptible) ∨
      (state.phase thread = .interrupted ∧ thread ∉ state.granted)
  once : state.granted.Nodup
  handed : ∀ thread ∈ state.granted, state.phase thread = .woken ∨ state.phase thread = .interrupted
  woken : ∀ thread, state.phase thread = .woken → thread ∈ state.granted
  balance : (state.completed : Int) + max state.sem.i 0 = initial + state.signals - state.granted.length

/-- The count stays in the range of its type. -/
def InRange (state : State) : Event → Prop
  | .wait _ _ => -2 ^ 31 < state.sem.i
  | .signal => state.sem.i < 2 ^ 31 - 1
  | _ => True

instance (state : State) (event : Event) : Decidable (InRange state event) := by
  cases event <;> unfold InRange <;> infer_instance

theorem start_agrees {count : Nat} (small : count < 2 ^ 31) : Agrees count (start count) [] where
  queued := ⟨Deque.holds_empty, fun _ _ => ⟨rfl, rfl⟩⟩
  length := by simp [start]
  lower := by simp only [start]; omega
  upper := by simp only [start]; omega
  ordered := List.Pairwise.nil
  arrived := by simp
  waits := by simp [start]
  once := List.nodup_nil
  handed := by simp [start]
  woken := by simp [start]
  balance := by simp [start]

variable {initial : Nat} {state : State} {waiting : List Nat}

section

variable (agrees : Agrees initial state waiting)
include agrees

/-- A thread that is outside of a wait is not in the list, and no token was handed to it. -/
theorem Agrees.outside (outside : state.phase thread = .outside) : thread ∉ waiting ∧ thread ∉ state.granted := by
  constructor
  · rw [agrees.waits]
    simp [outside]
  · intro handed
    rcases agrees.handed thread handed with woken | interrupted
    · simp [outside] at woken
    · simp [outside] at interrupted

/-- No token was handed to a thread in the list. -/
theorem Agrees.inside (inside : thread ∈ waiting) : thread ∉ state.granted := by
  intro granted
  rcases (agrees.waits thread).mp inside with ⟨interruptible, asleep⟩ | ⟨_, free⟩
  · rcases agrees.handed thread granted with woken | interrupted
    · simp [asleep] at woken
    · simp [asleep] at interrupted
  · exact free granted

/-- Another phase of a thread that has no token. -/
theorem Agrees.handed_update (free : thread ∉ state.granted) : ∀ other ∈ state.granted,
    update state.phase thread phase other = .woken ∨ update state.phase thread phase other = .interrupted := by
  intro other granted
  have apart : other ≠ thread := fun same => free (same ▸ granted)
  simpa [apart] using agrees.handed other granted

theorem Agrees.woken_update (sleeps : phase ≠ .woken) :
    ∀ other, update state.phase thread phase other = .woken → other ∈ state.granted := by
  intro other woken
  by_cases same : other = thread
  · simp [same, sleeps] at woken
  · exact agrees.woken other (by simpa [same] using woken)

theorem Agrees.sleep (outside : state.phase thread = .outside) (negative : state.sem.i - 1 < 0)
    (room : -2 ^ 31 < state.sem.i) :
    Agrees initial { state with
      sem := Sem.insert { state.sem with i := state.sem.i - 1 } thread
      phase := update state.phase thread (.asleep interruptible)
      clock := state.clock + 1
      arrival := update state.arrival thread state.clock } (thread :: waiting) := by
  obtain ⟨not_waiting, not_granted⟩ := agrees.outside outside
  have different : ∀ other ∈ waiting, other ≠ thread := fun other inside same => not_waiting (same ▸ inside)
  have kept : ∀ other ∈ waiting, update state.arrival thread state.clock other = state.arrival other :=
    fun other inside => update_of_ne (different other inside) _ _
  have length := agrees.length
  have balance := agrees.balance
  have queued : Queued { state.sem with i := state.sem.i - 1 } waiting := ⟨agrees.queued.holds, agrees.queued.detached⟩
  constructor
  case queued => exact queued.insert not_waiting
  case length =>
    simp only [Sem.insert, List.length_cons]
    omega
  case lower | upper | balance =>
    simp only [Sem.insert]
    omega
  case ordered =>
    apply List.Pairwise.cons
    · intro other inside
      simp only [kept other inside, update_self]
      exact agrees.arrived other inside
    · apply agrees.ordered.imp_of_mem
      intro later earlier later_inside earlier_inside before
      simp only [kept later later_inside, kept earlier earlier_inside]
      exact before
  case arrived =>
    intro other inside
    cases inside with
    | head => simp
    | tail _ inside =>
      have before := agrees.arrived other inside
      simp only [kept other inside]
      omega
  case waits =>
    intro other
    by_cases same : other = thread
    · simp [same]
    · simpa [same] using agrees.waits other
  case once => exact agrees.once
  case handed => exact agrees.handed_update not_granted
  case woken => exact agrees.woken_update (by simp)

theorem Agrees.take (positive : 0 < state.sem.i) :
    Agrees initial { state with sem := { state.sem with i := state.sem.i - 1 }, completed := state.completed + 1 }
      waiting := by
  have length := agrees.length
  have upper := agrees.upper
  have balance := agrees.balance
  exact
    { agrees with
      queued := ⟨agrees.queued.holds, agrees.queued.detached⟩
      length := by simp only; omega
      lower := by simp only; omega
      upper := by simp only; omega
      balance := by simp only; omega }

theorem Agrees.wait (room : -2 ^ 31 < state.sem.i) :
    Yields (· = Fault.notReady) (state.semaphoreWait thread interruptible) fun next =>
      ∃ waiting, Agrees initial next waiting := by
  have upper := agrees.upper
  have lowered : wrap (state.sem.i - 1) = state.sem.i - 1 := wrap_eq (by omega) (by omega)
  simp only [State.semaphoreWait, lowered]
  split
  · next outside =>
    split
    · next negative => exact ⟨_, agrees.sleep outside negative room⟩
    · next positive => exact ⟨_, agrees.take (by omega)⟩
  · rfl

theorem Agrees.test : Agrees initial state.semaphoreTest.2 waiting := by
  unfold State.semaphoreTest
  split
  · next positive => exact agrees.take positive
  · exact agrees

theorem Agrees.interrupt (thread : Nat) : Agrees initial (state.interrupt thread) waiting := by
  unfold State.interrupt
  split
  · next asleep =>
    have inside : thread ∈ waiting := (agrees.waits thread).mpr (.inl ⟨true, asleep⟩)
    have not_granted := agrees.inside inside
    exact
      { agrees with
        queued := agrees.queued
        waits := by
          intro other
          by_cases same : other = thread
          · simp [same, inside, not_granted]
          · simpa [same] using agrees.waits other
        handed := agrees.handed_update not_granted
        woken := agrees.woken_update (by simp) }
  · exact agrees

end

/-- A thread that is woken up leaves its sleep unless it was interrupted. -/
theorem wakeup_spec (state : State) (thread : Nat) : ∃ phase, state.wakeup thread = { state with phase } ∧
    (∀ other, other ≠ thread → phase other = state.phase other) ∧
    (∀ interruptible, state.phase thread = .asleep interruptible → phase thread = .woken) ∧
    (state.phase thread = .interrupted → phase thread = .interrupted) := by
  unfold State.wakeup
  split
  · next asleep =>
    refine ⟨_, rfl, fun other different => update_of_ne different _ _, fun _ _ => update_self .., ?_⟩
    simp [asleep]
  · next awake => exact ⟨state.phase, rfl, fun _ _ => rfl, fun kind asleep => absurd asleep (awake kind), id⟩

/-- A signaller takes the oldest sleeper from the list and wakes it. -/
theorem Agrees.hand (agrees : Agrees initial state (before ++ [thread])) {sem : Sem} (queued : Queued sem before)
    (raised : sem.i = state.sem.i + 1) :
    Agrees initial (State.wakeup { state with
      sem := sem
      granted := thread :: state.granted
      signals := state.signals + 1 } thread) before := by
  obtain ⟨phase, woke, others, woken, interrupted⟩ := wakeup_spec { state with
    sem := sem
    granted := thread :: state.granted
    signals := state.signals + 1 } thread
  have length := agrees.length
  have balance := agrees.balance
  have lower := agrees.lower
  have distinct := agrees.queued.holds.distinct
  rw [List.length_append, List.length_singleton] at length
  have last_inside : thread ∈ before ++ [thread] := by simp
  have not_granted := agrees.inside last_inside
  have not_before : thread ∉ before := by
    intro earlier
    exact (List.nodup_append.mp distinct).2.2 thread earlier thread (by simp) rfl
  have own : phase thread = .woken ∨ phase thread = .interrupted :=
    ((agrees.waits thread).mp last_inside).imp (fun asleep => asleep.elim woken) fun both => interrupted both.1
  rw [woke]
  constructor
  case queued => exact queued
  case length | lower | upper =>
    simp only
    omega
  case ordered => exact (List.pairwise_append.mp agrees.ordered).1
  case arrived => exact fun other inside => agrees.arrived other (List.mem_append_left _ inside)
  case waits =>
    intro other
    by_cases same : other = thread
    · rcases own with woken | interrupted
      · simp [same, not_before, woken]
      · simp [same, not_before, interrupted]
    · simp only [others other same]
      simpa [same] using agrees.waits other
  case once => exact List.nodup_cons.mpr ⟨not_granted, agrees.once⟩
  case handed =>
    refine List.forall_mem_cons.mpr ⟨own, fun other granted => ?_⟩
    simp only [others other fun same => not_granted (same ▸ granted)]
    exact agrees.handed other granted
  case woken =>
    intro other woken
    by_cases same : other = thread
    · simp [same]
    · simp only [others other same] at woken
      exact List.mem_cons_of_mem _ (agrees.woken other woken)
  case balance =>
    simp only [List.length_cons]
    push_cast
    omega

section

variable (agrees : Agrees initial state waiting)
include agrees

/-- A signal that finds the count below the largest one never fails. -/
theorem Agrees.signal (room : state.sem.i < 2 ^ 31 - 1) :
    ∃ next waiting, state.semaphoreSignal = .ok next ∧ Agrees initial next waiting := by
  have length := agrees.length
  have lower := agrees.lower
  have balance := agrees.balance
  have raised : wrap (state.sem.i + 1) = state.sem.i + 1 := wrap_eq (by omega) (by omega)
  by_cases negative : state.sem.i + 1 ≤ 0
  · have some_waiting : waiting ≠ [] := by
      rw [← List.length_pos_iff]
      omega
    obtain ⟨before, thread, waiting_eq⟩ := (List.eq_nil_or_concat waiting).resolve_left some_waiting
    rw [waiting_eq, List.concat_eq_append] at agrees
    have queued : Queued { state.sem with i := state.sem.i + 1 } (before ++ [thread]) :=
      ⟨agrees.queued.holds, agrees.queued.detached⟩
    obtain ⟨rest, taken, same_count, rest_queued⟩ := queued.get
    refine ⟨_, before, ?_, agrees.hand rest_queued same_count⟩
    simp only [State.semaphoreSignal, raised, if_pos negative, taken]
  · refine ⟨_, waiting, by simp only [State.semaphoreSignal, raised, if_neg negative]; rfl, ?_⟩
    exact
      { agrees with
        queued := ⟨agrees.queued.holds, agrees.queued.detached⟩
        length := by simp only; omega
        lower := by simp only; omega
        upper := by simp only; omega
        balance := by simp only; push_cast; omega }

theorem Agrees.signalLimit {limit : Int} (small : limit < 2 ^ 31) :
    ∃ answer next waiting, state.semaphoreSignalLimit limit = .ok (answer, next) ∧ Agrees initial next waiting := by
  unfold State.semaphoreSignalLimit
  split
  · exact ⟨false, state, waiting, rfl, agrees⟩
  · next below =>
    obtain ⟨next, waiting, ran, agrees⟩ := agrees.signal (by omega)
    exact ⟨true, next, waiting, by rw [ran]; rfl, agrees⟩

/-- A thread that was handed a token returns with success. -/
theorem Agrees.returns_handed (granted : thread ∈ state.granted) :
    ∃ next, state.returns thread = .ok (true, next) ∧ Agrees initial next waiting := by
  have not_waiting : thread ∉ waiting := fun inside => agrees.inside inside granted
  have removed := agrees.queued.removeself_outside not_waiting
  have balance := agrees.balance
  have positive := List.length_pos_of_mem granted
  have left : Agrees initial { state with
      phase := update state.phase thread .outside
      granted := state.granted.erase thread
      completed := state.completed + 1 } waiting :=
    { agrees with
      queued := agrees.queued
      waits := by
        intro other
        by_cases same : other = thread
        · simp [same, not_waiting]
        · simpa [same, List.mem_erase_of_ne same] using agrees.waits other
      once := agrees.once.erase thread
      handed := by
        intro other still
        have apart : other ≠ thread := by
          intro same
          rw [same] at still
          exact agrees.once.not_mem_erase still
        simpa [apart] using agrees.handed other (List.mem_of_mem_erase still)
      woken := by
        intro other woken
        by_cases same : other = thread
        · simp [same] at woken
        · exact (List.mem_erase_of_ne same).mpr (agrees.woken other (by simpa [same] using woken))
      balance := by
        simp only [List.length_erase_of_mem granted]
        push_cast [Nat.sub_add_cancel positive]
        omega }
  rcases agrees.handed thread granted with woken | interrupted
  · exact ⟨_, by simp [State.returns, woken], left⟩
  · exact ⟨_, by simp [State.returns, interrupted, removed, bind, Except.bind, pure, Except.pure], left⟩

omit agrees in
/-- A thread that was interrupted in the list gives its place back. -/
theorem Agrees.returns_interrupted (agrees : Agrees initial state (before ++ thread :: after))
    (interrupted : state.phase thread = .interrupted) :
    ∃ next, state.returns thread = .ok (false, next) ∧ Agrees initial next (before ++ after) := by
  have length := agrees.length
  have lower := agrees.lower
  have balance := agrees.balance
  have distinct := agrees.queued.holds.distinct
  simp only [List.length_append, List.length_cons] at length
  have raised : wrap (state.sem.i + 1) = state.sem.i + 1 := wrap_eq (by omega) (by omega)
  have not_granted := agrees.inside (show thread ∈ before ++ thread :: after by simp)
  obtain ⟨sem, removed, same_count, queued⟩ := agrees.queued.removeself_inside
  have fewer : List.Sublist (before ++ after) (before ++ thread :: after) :=
    List.Sublist.append_left (List.sublist_cons_self thread after) before
  have gone : thread ∉ before ++ after := by
    intro still
    rw [List.nodup_middle] at distinct
    exact (List.nodup_cons.mp distinct).1 still
  refine ⟨{ state with
    phase := update state.phase thread .outside
    sem := { sem with i := wrap (sem.i + 1) } }, ?_, ?_⟩
  · simp [State.returns, interrupted, removed, bind, Except.bind, pure, Except.pure]
  · rw [same_count, raised]
    exact
      { agrees with
        queued := ⟨queued.holds, queued.detached⟩
        length := by
          simp only [List.length_append]
          push_cast
          omega
        lower := by simp only; omega
        upper := by simp only; omega
        ordered := agrees.ordered.sublist fewer
        arrived := fun other inside => agrees.arrived other (fewer.subset inside)
        waits := by
          intro other
          by_cases same : other = thread
          · simpa [same] using gone
          · simpa [same] using agrees.waits other
        handed := agrees.handed_update not_granted
        woken := agrees.woken_update (by simp)
        balance := by simp only; omega }

theorem Agrees.returns (ready : state.phase thread = .woken ∨ state.phase thread = .interrupted) :
    ∃ answer next waiting, state.returns thread = .ok (answer, next) ∧ Agrees initial next waiting := by
  by_cases granted : thread ∈ state.granted
  · obtain ⟨next, ran, left⟩ := agrees.returns_handed granted
    exact ⟨true, next, waiting, ran, left⟩
  · have interrupted : state.phase thread = .interrupted :=
      ready.resolve_left fun woken => granted (agrees.woken thread woken)
    have inside : thread ∈ waiting := (agrees.waits thread).mpr (.inr ⟨interrupted, granted⟩)
    obtain ⟨before, after, rfl⟩ := List.append_of_mem inside
    obtain ⟨next, ran, left⟩ := agrees.returns_interrupted interrupted
    exact ⟨false, next, before ++ after, ran, left⟩

/-- An event in range fails only when a thread is not where the event expects it, and otherwise keeps everything. -/
theorem step_agrees {event : Event} (in_range : InRange state event) :
    Yields (· = Fault.notReady) (step state event) fun next => ∃ waiting, Agrees initial next waiting := by
  cases event with
  | wait thread interruptible => exact agrees.wait in_range
  | interrupt thread => exact ⟨waiting, agrees.interrupt thread⟩
  | returns thread =>
    by_cases ready : state.phase thread = .woken ∨ state.phase thread = .interrupted
    · obtain ⟨answer, next, waiting, ran, left⟩ := agrees.returns ready
      simp only [step, ran]
      exact ⟨waiting, left⟩
    · have failed : state.returns thread = .error .notReady := by
        rw [not_or] at ready
        fun_cases State.returns state thread with
        | case1 _ woken => exact absurd woken ready.1
        | case2 _ interrupted => exact absurd interrupted ready.2
        | case3 => rfl
      simp only [step, failed]
      rfl
  | signal =>
    obtain ⟨next, waiting, ran, signalled⟩ := agrees.signal in_range
    simp only [step, ran]
    exact ⟨waiting, signalled⟩
  | signalLimit limit =>
    obtain ⟨answer, next, waiting, ran, signalled⟩ := agrees.signalLimit limit.toInt_lt
    simp only [step, ran]
    exact ⟨waiting, signalled⟩
  | test => exact ⟨waiting, agrees.test⟩

end

/-- As long as the count stays in the range of its type, it agrees with the sleep list and with the tokens. -/
theorem semaphore_agrees {count : Nat} (small : count < 2 ^ 31) {state : State}
    (reached : Reaches step InRange (start count) state) :
    (∃ waiting, state.sem.sleepers.Holds waiting ∧ (waiting.length : Int) = max 0 (-state.sem.i) ∧
      waiting.Pairwise (fun later earlier => state.arrival earlier < state.arrival later) ∧
      ∀ thread, thread ∈ waiting ↔ (∃ interruptible, state.phase thread = .asleep interruptible) ∨
        (state.phase thread = .interrupted ∧ thread ∉ state.granted)) ∧
    (∀ event, InRange state event → step state event ≠ .error .assertion ∧ step state event ≠ .error .null) ∧
    (∀ thread ∈ state.granted, ∃ next, state.returns thread = .ok (true, next)) ∧
    (state.completed : Int) + max state.sem.i 0 = count + state.signals - state.granted.length := by
  obtain ⟨waiting, agrees⟩ : ∃ waiting, Agrees count state waiting := by
    apply reached.keeps (fun state => ∃ waiting, Agrees count state waiting)
    · intro state event next ⟨waiting, agrees⟩ in_range moved
      exact (step_agrees agrees in_range).of_ok moved
    · exact ⟨[], start_agrees small⟩
  refine ⟨⟨waiting, agrees.queued.holds, agrees.length, agrees.ordered, agrees.waits⟩, ?_, ?_, agrees.balance⟩
  · intro event in_range
    have yields := step_agrees agrees in_range
    constructor
    all_goals
      intro failed
      cases yields.of_error failed
  · intro thread granted
    obtain ⟨next, ran, _⟩ := agrees.returns_handed granted
    exact ⟨next, ran⟩

/-- The first of two waiters is interrupted and then handed a token. -/
def contended : Except Fault State :=
  [Event.wait 1 true, .wait 2 false, .interrupt 1, .signal].foldlM step (start 0)

theorem contended_agrees : ∃ state, contended = .ok state ∧ state.phase 1 = .interrupted ∧ state.granted = [1] ∧
      (∃ next, state.returns 1 = .ok (true, next)) ∧ state.sem.i = -1 ∧
      ∃ waiting, state.sem.sleepers.Holds waiting ∧ (waiting.length : Int) = 1 := by
  have begins : Reaches step InRange (start 0) (start 0) := .refl
  have first := begins.next (show InRange _ (.wait 1 true) by decide) rfl
  have second := first.next (show InRange _ (.wait 2 false) by decide) rfl
  have third := second.next (show InRange _ (.interrupt 1) by decide) rfl
  have reached := third.next (show InRange _ .signal by decide) rfl
  obtain ⟨⟨waiting, holds, length, _⟩, _, handed, _⟩ := semaphore_agrees (by decide) reached
  exact ⟨_, rfl, rfl, rfl, handed 1 (by decide), rfl, waiting, holds, length⟩

/-- A signal at the largest count finds no thread to wake. -/
theorem largest_count_fails :
    step (start (2 ^ 31 - 1)) .signal = .error .assertion ∧ (start (2 ^ 31 - 1)).sem.i = 2 ^ 31 - 1 :=
  ⟨rfl, rfl⟩

/-- Only a thread that has acquired the mutex releases it, and fewer than 2 ^ 31 threads wait for it. -/
def OnMutex (state : State) : Event → Prop
  | .wait _ _ => -2 ^ 31 < state.sem.i
  | .signal => state.signals < state.completed
  | .signalLimit _ => False
  | _ => True

section Mutex

variable {state : State} {event : Event} (may : OnMutex state event)
include may

theorem OnMutex.inRange {waiting : List Nat} (agrees : Agrees 1 state waiting) : InRange state event := by
  have balance := agrees.balance
  cases event <;> simp only [OnMutex, InRange] at may ⊢ <;> omega

theorem OnMutex.step {next : State} (moved : step state event = .ok next) (kept : state.signals ≤ state.completed) :
    next.signals ≤ next.completed := by
  cases event with
  | returns thread =>
    obtain ⟨⟨_, _⟩, ran, rfl⟩ := map_ok.mp moved
    simp only [State.returns, pure, Except.pure] at ran
    grind [bind_ok]
  | signalLimit => exact may.elim
  | wait | interrupt | test | signal =>
    simp only [OnMutex] at may
    grind [Semaphore.step, State.semaphoreWait, State.interrupt, State.semaphoreTest, State.semaphoreSignal,
      State.wakeup]

end Mutex

/-- Either one thread has the mutex or is about to return with it, or it is free and no thread waits for it. -/
theorem mutex_excludes {state : State} (reached : Reaches step OnMutex mutexInit state) :
    (∃ holders, state.completed = state.signals + holders ∧ (holders + state.granted.length = 1 ∨
      holders = 0 ∧ state.granted = [] ∧ ∀ thread, state.phase thread = .outside)) ∧
    ∀ event, OnMutex state event → step state event ≠ .error .assertion ∧ step state event ≠ .error .null := by
  obtain ⟨⟨waiting, agrees⟩, kept⟩ : (∃ waiting, Agrees 1 state waiting) ∧ state.signals ≤ state.completed := by
    apply reached.keeps (fun state => (∃ waiting, Agrees 1 state waiting) ∧ state.signals ≤ state.completed)
    · rintro state event next ⟨⟨waiting, agrees⟩, kept⟩ may moved
      exact ⟨(step_agrees agrees (may.inRange agrees)).of_ok moved, may.step moved kept⟩
    · exact ⟨⟨[], start_agrees (by decide)⟩, le_refl _⟩
  refine ⟨⟨state.completed - state.signals, by omega, ?_⟩, fun event may => ?_⟩
  · -- the tokens leave room for one holder, and none is left over while a thread waits
    have balance := agrees.balance
    have length := agrees.length
    by_cases taken : state.completed - state.signals + state.granted.length = 1
    · exact .inl taken
    · have none_granted : state.granted = [] := List.eq_nil_of_length_eq_zero (by omega)
      have none_waiting : waiting = [] := List.eq_nil_of_length_eq_zero (by omega)
      refine .inr ⟨by omega, none_granted, fun thread => ?_⟩
      have waits := agrees.waits thread
      have woken := agrees.woken thread
      cases at_phase : state.phase thread <;> simp_all
  · have yields := step_agrees agrees (may.inRange agrees)
    constructor
    all_goals
      intro failed
      cases yields.of_error failed

/-- A thread hands the mutex over to one that waits for it. -/
theorem handover_excludes : ∃ state, [Event.wait 1 false, .wait 2 true, .signal].foldlM step mutexInit = .ok state ∧
    state.granted = [2] ∧ step state (.interrupt 2) ≠ .error .assertion ∧
    ∃ holders, state.completed = state.signals + holders ∧ holders + state.granted.length = 1 := by
  have start : Reaches step OnMutex mutexInit mutexInit := .refl
  have taken := start.next (show OnMutex _ (.wait 1 false) from show -2 ^ 31 < mutexInit.sem.i by decide) rfl
  have waits := taken.next (show OnMutex _ (.wait 2 true) from show (-2 ^ 31 : Int) < 0 by decide) rfl
  have handed := waits.next (show OnMutex _ .signal from show 0 < 1 by decide) rfl
  obtain ⟨⟨holders, balance, one | ⟨_, none, _⟩⟩, safe⟩ := mutex_excludes handed
  · exact ⟨_, rfl, rfl, (safe (.interrupt 2) trivial).1, holders, balance, one⟩
  · cases none

end Astral.Semaphore
