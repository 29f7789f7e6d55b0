import Astral.Construction.Pipe

namespace Astral.Pipefs

open Function Astral.Library

variable {added : List (List UInt8)} {left : Write} {error : Option Errno} {writec : Nat} {event : Event}
  {data : List UInt8}

/-- The parts of a write that entered the pipe. -/
def Pipe.parts (pipe : Pipe) (id : Nat) : List (List UInt8) :=
  (pipe.accepted.filter fun part => part.1 = id).map Prod.snd

/-- All bytes that entered the pipe. -/
def Pipe.stream (pipe : Pipe) : List UInt8 := pipe.accepted.flatMap Prod.snd

def Write.atomic (write : Write) : Prop := write.data.length ≤ pipeAtomicSize

/-- How far a write has come. A write that waits is a blocking one, and has nothing in the pipe if it is atomic. -/
structure Write.Follows (write : Write) (parts : List (List UInt8)) : Prop where
  waiting : write.result = none → write.nonblock = false ∧ write.case3written ≤ write.data.length ∧
      parts.flatten = write.data.take write.case3written ∧ (write.atomic → parts = [] ∧ write.case3written = 0)
  whole : write.atomic → parts = [] ∨ parts = [write.data]

/-- A write that returned reports the number of its bytes in the pipe. -/
def Write.Reports (write : Write) (parts : List (List UInt8)) : Prop :=
  ∀ error writec, write.result = some (error, writec) →
    writec ≤ write.data.length ∧ parts.flatten = write.data.take writec

structure Pipe.Tracked (pipe : Pipe) : Prop where
  readers : pipe.readers ≠ 0
  flow : pipe.stream = pipe.received ++ pipe.data
  unused : ∀ id, pipe.writes id = none → pipe.parts id = []
  follows : ∀ id write, pipe.writes id = some write → write.Follows (pipe.parts id)

/-- What holds of a write when one of its rounds begins. -/
structure Write.Entering (write : Write) (before : List (List UInt8)) : Prop where
  waiting : write.result = none
  within : write.case3written ≤ write.data.length
  entered : before.flatten = write.data.take write.case3written
  untouched : write.atomic ∨ write.nonblock = true → before = [] ∧ write.case3written = 0

/-- Whether the wait of a large write finds memory for its descriptor. -/
def Write.Equipped (write : Write) (memory : Bool) : Prop :=
  memory = true ∨ write.nonblock = true ∨ write.atomic

/-- One round adds parts of its own write, and leaves it waiting or returned. -/
structure Rounds (pipe : Pipe) (id : Nat) (before added : List (List UInt8)) (left : Write) (next : Pipe) : Prop where
  data : next.data = pipe.data ++ added.flatten
  accepted : next.accepted = pipe.accepted ++ added.map fun part => (id, part)
  received : next.received = pipe.received
  readers : next.readers = pipe.readers
  writes : next.writes = update pipe.writes id (some left)
  follows : left.Follows (before ++ added)

/-- A call makes a round, and if it is fine it reports what entered. -/
def Advances (pipe : Pipe) (id : Nat) (before : List (List UInt8)) (fine : Prop) (next : Pipe) : Prop :=
  ∃ added left, Rounds pipe id before added left next ∧ (fine → left.Reports (before ++ added))

variable {pipe next : Pipe} {id : Nat} {write : Write} {memory : Bool} {before : List (List UInt8)}

/-- A call that returns follows what entered, if an atomic one entered as a whole or not at all. -/
theorem returned_follows {parts : List (List UInt8)} {result : Option Errno × Nat}
    (whole : write.atomic → parts = [] ∨ parts = [write.data]) :
    Write.Follows { write with result := some result } parts :=
  ⟨fun waits => (by cases waits), whole⟩

theorem returned_reports {parts : List (List UInt8)} (within : writec ≤ write.data.length)
    (entered : parts.flatten = write.data.take writec) :
    Write.Reports { write with result := some (error, writec) } parts := by
  intro _ _ same
  cases same
  exact ⟨within, entered⟩

section

variable (entering : write.Entering before)
include entering

/-- A call fails without writing more. -/
theorem leaveWrite_rounds (error : Errno) :
    Rounds pipe id before [] { write with result := some (some error, 0) } (pipe.leaveWrite id write (some error) 0) where
  data := by simp [Pipe.leaveWrite, Pipe.setWrite]
  accepted := by simp [Pipe.leaveWrite, Pipe.setWrite]
  received := rfl
  readers := rfl
  writes := rfl
  follows := returned_follows fun atomic => .inl (by simp [(entering.untouched (.inl atomic)).1])

/-- A call that fails before it wrote anything reports that. -/
theorem leaveWrite_reports (error : Errno) (at_start : write.case3written = 0) :
    Write.Reports { write with result := some (some error, 0) } (before ++ []) := by
  apply returned_reports (Nat.zero_le _)
  rw [List.append_nil, entering.entered, at_start]

omit entering in
/-- The bytes that a call puts into the pipe. -/
theorem writetopipe_ok {bytes : List UInt8} (readers : pipe.readers ≠ 0)
    (ran : pipe.writetopipe id bytes = .ok (error, writec, next)) :
    error = none ∧ writec = min bytes.length pipe.freespace ∧
      next = { pipe with
        data := pipe.data ++ bytes.take writec
        accepted := pipe.accepted ++ [(id, bytes.take writec)] } := by
  simp only [Pipe.writetopipe, if_neg readers] at ran
  split at ran
  · cases ran
    exact ⟨rfl, rfl, rfl⟩
  · cases ran

/-- The write after the loop enters as one part. -/
theorem lastWrite_rounds (readers : pipe.readers ≠ 0) (direct : write.atomic ∨ write.nonblock = true)
    (room : write.atomic → write.data.length ≤ pipe.freespace) (ran : pipe.lastWrite id write = .ok next) :
    Advances pipe id before (write.Equipped memory) next := by
  obtain ⟨nothing, at_start⟩ := entering.untouched direct
  obtain ⟨⟨error, writec, written⟩, wrote, left⟩ := bind_ok.mp ran
  obtain ⟨rfl, writec_eq, rfl⟩ := writetopipe_ok readers wrote
  cases left
  rw [at_start, List.drop_zero] at writec_eq ⊢
  refine ⟨[write.data.take writec], { write with result := some (none, writec) }, ?_,
    fun _ => returned_reports (by omega) (by simp [nothing])⟩
  constructor
  case data => simp [Pipe.leaveWrite, Pipe.setWrite]
  case accepted => simp [Pipe.leaveWrite, Pipe.setWrite]
  case received => rfl
  case readers => rfl
  case writes => rfl
  case follows =>
    apply returned_follows
    intro atomic
    have all : writec = write.data.length := by
      have fits := room atomic
      omega
    exact .inr (by simp [nothing, all])

/-- A call that waits has its parts in the pipe so far, and fails for want of memory only without them if it is atomic. -/
theorem waitWrite_rounds {written : Pipe} {count : Nat} (blocking : write.nonblock = false)
    (data : written.data = pipe.data ++ added.flatten)
    (accepted : written.accepted = pipe.accepted ++ added.map fun part => (id, part))
    (received : written.received = pipe.received) (readers : written.readers = pipe.readers)
    (writes : written.writes = pipe.writes) (within : count ≤ write.data.length)
    (entered : (before ++ added).flatten = write.data.take count)
    (untouched : write.atomic → before ++ added = [] ∧ count = 0) :
    ∃ left, Rounds pipe id before added left (written.waitWrite id { write with case3written := count } memory) ∧
      (write.Equipped memory → left.Reports (before ++ added)) := by
  have waiting := entering.waiting
  cases memory with
  | true =>
    refine ⟨{ write with case3written := count },
      ⟨data, accepted, received, readers, by simp [Pipe.waitWrite, Pipe.setWrite, writes], ?_⟩, ?_⟩
    · exact ⟨fun _ => ⟨blocking, within, entered, untouched⟩, fun atomic => .inl (untouched atomic).1⟩
    · intro _ error writec returned
      simp [waiting] at returned
  | false =>
    refine ⟨{ write with case3written := count, result := some (some .enomem, 0) },
      ⟨data, accepted, received, readers, by simp [Pipe.waitWrite, Pipe.leaveWrite, Pipe.setWrite, writes], ?_⟩, ?_⟩
    · exact ⟨fun waits => (by cases waits), fun atomic => .inl (untouched atomic).1⟩
    · intro equipped error writec returned
      have atomic : write.atomic := by
        rcases equipped with has | direct | atomic
        · cases has
        · rw [blocking] at direct
          cases direct
        · exact atomic
      cases returned
      exact ⟨Nat.zero_le _, by simp [(untouched atomic).1]⟩

/-- A part of a large write continues where the last one ended. -/
theorem partWrite_rounds (readers : pipe.readers ≠ 0) (blocking : write.nonblock = false) (large : ¬ write.atomic)
    (ran : pipe.partWrite id write memory = .ok next) : Advances pipe id before (write.Equipped memory) next := by
  have within := entering.within
  obtain ⟨⟨error, tmp, written⟩, wrote, left⟩ := bind_ok.mp ran
  obtain ⟨rfl, tmp_eq, rfl⟩ := writetopipe_ok readers wrote
  obtain ⟨writecount, writecount_eq⟩ :
      ∃ writecount, writecount = min pipe.freespace (write.data.length - write.case3written) :=
    ⟨_, rfl⟩
  have part_length : ((write.data.drop write.case3written).take writecount).length = writecount := by
    rw [List.length_take, List.length_drop]
    omega
  rw [← writecount_eq, part_length] at tmp_eq
  have all : tmp = writecount := by omega
  have entered : (before ++ [(write.data.drop write.case3written).take writecount]).flatten =
      write.data.take (write.case3written + writecount) := by
    rw [List.flatten_append, List.flatten_singleton, entering.entered, ← List.take_add]
  simp only [← writecount_eq, all, Option.isSome_none, Bool.false_eq_true, if_false, if_true] at left
  split at left
  · next finished =>
    cases left
    refine ⟨[(write.data.drop write.case3written).take writecount],
      { write with case3written := write.case3written + writecount, result := some (none, write.data.length) }, ?_, ?_⟩
    · constructor
      case data => simp [Pipe.leaveWrite, Pipe.setWrite]
      case accepted => simp [Pipe.leaveWrite, Pipe.setWrite]
      case received => rfl
      case readers => rfl
      case writes => rfl
      case follows => exact ⟨fun waits => (by cases waits), fun atomic => absurd atomic large⟩
    · intro _ error writec returned
      cases returned
      exact ⟨le_refl _, by rw [entered, finished]⟩
  · cases left
    refine ⟨[(write.data.drop write.case3written).take writecount], waitWrite_rounds entering blocking ?_ ?_ rfl rfl rfl
      (by omega) entered (fun atomic => absurd atomic large)⟩
    · simp
    · simp

/-- Every round of a write keeps to what its parts in the pipe say. -/
theorem writeRound_rounds (readers : pipe.readers ≠ 0) (ran : pipe.writeRound id write memory = .ok next) :
    Advances pipe id before (write.Equipped memory) next := by
  have eagain (nonblock : write.nonblock = true) :
      Advances pipe id before (write.Equipped memory) (pipe.leaveWrite id write (some .eagain) 0) :=
    ⟨[], _, leaveWrite_rounds entering .eagain,
      fun _ => leaveWrite_reports entering .eagain (entering.untouched (.inr nonblock)).2⟩
  revert ran
  fun_cases Pipe.writeRound pipe id write memory with intro ran
  | case1 hup => cases hup
  | case2 _ atomic _ _ fits =>
    simp only [atomic, Bool.and_eq_true, decide_eq_true_eq] at fits
    exact lastWrite_rounds entering readers (.inl fits.1.2) (fun _ => fits.2) ran
  | case3 _ _ _ _ _ full | case7 _ _ _ _ _ _ _ _ _ full =>
    cases ran
    simp only [Bool.and_eq_true] at full
    exact eagain (by tauto)
  | case4 _ _ _ _ _ full nonblock =>
    rw [nonblock, Bool.true_and, decide_eq_true_eq, Nat.not_lt] at full
    exact lastWrite_rounds entering readers (.inr (Bool.and_eq_true_iff.mp nonblock).1) (fun _ => full) ran
  | case5 _ atomic _ _ _ _ _ large =>
    simp only [atomic, Bool.and_eq_true, Bool.not_eq_true', decide_eq_false_iff_not] at large
    exact partWrite_rounds entering readers large.1.1 large.1.2 ran
  | case6 _ atomic _ _ _ _ _ _ large =>
    simp only [atomic, Bool.and_eq_true, Bool.not_eq_true', decide_eq_false_iff_not] at large
    exact lastWrite_rounds entering readers (.inr large.1.1) (fun small => absurd small large.1.2) ran
  | case8 _ atomic _ _ _ _ small _ _ large =>
    cases ran
    have blocking : write.nonblock = false := by
      apply eq_false_of_ne_true
      intro nonblock
      rw [nonblock, Bool.true_and] at small large
      exact large (by simpa using small)
    -- A write without progress waits with what it has in the pipe already.
    refine ⟨[], waitWrite_rounds entering blocking (by simp) (by simp) rfl rfl rfl entering.within ?_ ?_⟩
    · rw [List.append_nil]
      exact entering.entered
    · intro atomic
      rw [List.append_nil]
      exact entering.untouched (.inl atomic)

end

/-- The parts of a write after one of its rounds. -/
theorem Rounds.parts (rounds : Rounds pipe id before added left next) : next.parts id = pipe.parts id ++ added := by
  simp [Pipe.parts, rounds.accepted, List.filter_map, Function.comp_def]

theorem Rounds.parts_other (rounds : Rounds pipe id before added left next) {other : Nat} (different : other ≠ id) :
    next.parts other = pipe.parts other := by
  simp [Pipe.parts, rounds.accepted, List.filter_map, Function.comp_def, Ne.symm different]

/-- What holds of all writes and their parts holds after a round if it holds of the one that made it. -/
theorem Rounds.each (rounds : Rounds pipe id (pipe.parts id) added left next)
    {holds : Write → List (List UInt8) → Prop} (here : holds left (pipe.parts id ++ added))
    (others : ∀ id write, pipe.writes id = some write → holds write (pipe.parts id)) :
    ∀ id write, next.writes id = some write → holds write (next.parts id) := by
  intro other found found_eq
  rw [rounds.writes] at found_eq
  by_cases same : other = id
  · rw [same, update_self] at found_eq
    cases found_eq
    rw [same, rounds.parts]
    exact here
  · rw [update_of_ne same] at found_eq
    rw [rounds.parts_other same]
    exact others other found found_eq

/-- A round of a write keeps the whole pipe tracked. -/
theorem Rounds.tracked (rounds : Rounds pipe id (pipe.parts id) added left next) (tracked : pipe.Tracked) :
    next.Tracked where
  readers := by
    rw [rounds.readers]
    exact tracked.readers
  flow := by
    rw [rounds.received, rounds.data, ← List.append_assoc, ← tracked.flow, Pipe.stream, rounds.accepted]
    simp [Pipe.stream, List.flatMap_map]
  unused other unused := by
    rw [rounds.writes] at unused
    have different : other ≠ id := by
      intro same
      simp [same] at unused
    rw [update_of_ne different] at unused
    rw [rounds.parts_other different]
    exact tracked.unused other unused
  follows := rounds.each rounds.follows tracked.follows

/-- All writes report what they wrote. -/
def Pipe.Reported (pipe : Pipe) : Prop := ∀ id write, pipe.writes id = some write → write.Reports (pipe.parts id)

theorem Rounds.reported (rounds : Rounds pipe id (pipe.parts id) added left next) (reported : pipe.Reported)
    (reports : left.Reports (pipe.parts id ++ added)) : next.Reported :=
  rounds.each reports reported

/-- A write that waits for space has memory to do so, and is not interrupted after a part of it was written. -/
def Steady (pipe : Pipe) : Event → Prop
  | .write _ data nonblock memory => Write.Equipped ⟨data, nonblock, 0, none⟩ memory
  | .resumeWrite id memory => ∀ write, pipe.writes id = some write → write.Equipped memory
  | .interruptWrite id => ∀ write, pipe.writes id = some write → write.case3written = 0
  | _ => True

theorem Pipe.Tracked.entering_new (tracked : pipe.Tracked) (unused : pipe.writes id = none) (data : List UInt8)
    (nonblock : Bool) : Write.Entering ⟨data, nonblock, 0, none⟩ (pipe.parts id) where
  waiting := rfl
  within := Nat.zero_le _
  entered := by simp [tracked.unused id unused]
  untouched _ := ⟨tracked.unused id unused, rfl⟩

theorem Pipe.Tracked.entering (tracked : pipe.Tracked) (found : pipe.writes id = some write)
    (waiting : write.result = none) : write.Entering (pipe.parts id) := by
  obtain ⟨blocking, within, entered, untouched⟩ := (tracked.follows id write found).waiting waiting
  refine ⟨waiting, within, entered, ?_⟩
  rintro (atomic | direct)
  · exact untouched atomic
  · rw [blocking] at direct
    cases direct

/-- A step about a read takes bytes from the front of the pipe, and leaves the writes alone. -/
structure Takes (pipe next : Pipe) : Prop where
  flow : next.received ++ next.data = pipe.received ++ pipe.data
  accepted : next.accepted = pipe.accepted
  writes : next.writes = pipe.writes
  readers : next.readers = pipe.readers

theorem readRound_takes (read : Read) : Takes pipe (pipe.readRound id read memory) := by
  fun_cases Pipe.readRound pipe id read memory with
  | case1 _ _ bytes => exact ⟨by simp [bytes, Pipe.leaveRead, Pipe.setRead], rfl, rfl, rfl⟩
  | _ => exact ⟨rfl, rfl, rfl, rfl⟩

def Event.Reads : Event → Prop
  | .read .. | .resumeRead .. | .interruptRead _ => True
  | _ => False

/-- A step is a round of a write, or its interruption, or about a read. -/
inductive Moves (pipe : Pipe) : Event → Pipe → Prop where
  | write {id : Nat} {data : List UInt8} {nonblock memory : Bool} {next : Pipe} (unused : pipe.writes id = none)
      (ran : pipe.writeRound id ⟨data, nonblock, 0, none⟩ memory = .ok next) :
      Moves pipe (.write id data nonblock memory) next
  | resumeWrite {id : Nat} {write : Write} {memory : Bool} {next : Pipe} (found : pipe.writes id = some write)
      (waiting : write.result = none) (ran : pipe.writeRound id write memory = .ok next) :
      Moves pipe (.resumeWrite id memory) next
  | interruptWrite {id : Nat} {write : Write} (found : pipe.writes id = some write) (waiting : write.result = none) :
      Moves pipe (.interruptWrite id) (pipe.leaveWrite id write (some .eintr) 0)
  | take {event : Event} {next : Pipe} (reads : event.Reads) (takes : Takes pipe next) : Moves pipe event next

theorem step_moves (moved : step pipe event = .ok next) : Moves pipe event next := by
  revert moved
  fun_cases step pipe event with intro moved
  | case1 id data nonblock memory unused => exact .write unused moved
  | case3 id memory =>
    revert moved
    fun_cases Pipe.resumeWrite pipe id memory with intro moved
    | case2 write found waiting => exact .resumeWrite found waiting moved
    | _ => cases moved
  | case4 id =>
    revert moved
    fun_cases Pipe.interruptWrite pipe id with intro moved
    | case2 write found waiting =>
      cases moved
      exact .interruptWrite found waiting
    | _ => cases moved
  | case5 =>
    cases moved
    exact .take trivial (readRound_takes _)
  | case7 id memory =>
    revert moved
    fun_cases Pipe.resumeRead pipe id memory with intro moved
    | case2 =>
      cases moved
      exact .take trivial (readRound_takes _)
    | _ => cases moved
  | case8 id =>
    revert moved
    fun_cases Pipe.interruptRead pipe id with intro moved
    | case2 =>
      cases moved
      exact .take trivial ⟨rfl, rfl, rfl, rfl⟩
    | _ => cases moved
  | _ => cases moved

theorem Takes.tracked (takes : Takes pipe next) (tracked : pipe.Tracked) : next.Tracked where
  readers := by
    rw [takes.readers]
    exact tracked.readers
  flow := by
    rw [takes.flow, ← tracked.flow, Pipe.stream, Pipe.stream, takes.accepted]
  unused := by
    simp only [takes.writes, Pipe.parts, takes.accepted]
    exact tracked.unused
  follows := by
    simp only [takes.writes, Pipe.parts, takes.accepted]
    exact tracked.follows

theorem Takes.reported (takes : Takes pipe next) (reported : pipe.Reported) : next.Reported := by
  simp only [Pipe.Reported, takes.writes, Pipe.parts, takes.accepted]
  exact reported

/-- Every step keeps the pipe tracked, and a steady one keeps all writes reported. -/
theorem step_tracked (tracked : pipe.Tracked) (moved : step pipe event = .ok next) :
    next.Tracked ∧ (Steady pipe event → pipe.Reported → next.Reported) := by
  have of_write {id : Nat} (advances : Advances pipe id (pipe.parts id) (Steady pipe event) next) :
      next.Tracked ∧ (Steady pipe event → pipe.Reported → next.Reported) := by
    obtain ⟨added, left, rounds, reports⟩ := advances
    exact ⟨rounds.tracked tracked, fun steady reported => rounds.reported reported (reports steady)⟩
  cases step_moves moved with
  | write unused ran => exact of_write (writeRound_rounds (tracked.entering_new unused _ _) tracked.readers ran)
  | resumeWrite found waiting ran =>
    obtain ⟨added, left, rounds, reports⟩ := writeRound_rounds (tracked.entering found waiting) tracked.readers ran
    exact of_write ⟨added, left, rounds, fun steady => reports (steady _ found)⟩
  | interruptWrite found waiting =>
    have entering := tracked.entering found waiting
    exact of_write ⟨[], _, leaveWrite_rounds entering .eintr,
      fun steady => leaveWrite_reports entering .eintr (steady _ found)⟩
  | take _ takes => exact ⟨takes.tracked tracked, fun _ => takes.reported⟩

theorem opened_tracked {readers writers : Nat} (some_reader : 0 < readers) : (opened readers writers).Tracked where
  readers := Nat.pos_iff_ne_zero.mp some_reader
  flow := rfl
  unused _ _ := rfl
  follows _ _ found := by cases found

/-- A pipe delivers what entered it in order, small writes enter as a whole, and steady writes report what entered. -/
theorem pipe_is_fifo (readers writers : Nat) (some_reader : 0 < readers) :
    (∀ pipe, Reaches step (fun _ _ => True) (opened readers writers) pipe → pipe.received <+: pipe.stream ∧
      ∀ id write, pipe.writes id = some write → write.data.length ≤ pipeAtomicSize →
        pipe.parts id = [] ∨ pipe.parts id = [write.data]) ∧ ∀ pipe, Reaches step Steady (opened readers writers) pipe →
      ∀ id write error writec, pipe.writes id = some write → write.result = some (error, writec) →
        (pipe.parts id).flatten.length = writec ∧ (pipe.parts id).flatten = write.data.take writec := by
  constructor
  · intro pipe reached
    have tracked : pipe.Tracked := by
      apply reached.keeps Pipe.Tracked
      · intro state event next tracked _ moved
        exact (step_tracked tracked moved).1
      · exact opened_tracked some_reader
    refine ⟨⟨pipe.data, tracked.flow.symm⟩, ?_⟩
    intro id write found small
    exact (tracked.follows id write found).whole small
  · intro pipe reached id write error writec found returned
    have both : pipe.Tracked ∧ pipe.Reported := by
      apply reached.keeps (fun pipe => pipe.Tracked ∧ pipe.Reported)
      · intro state event next ⟨tracked, reported⟩ steady moved
        obtain ⟨next_tracked, reports⟩ := step_tracked tracked moved
        exact ⟨next_tracked, reports steady reported⟩
      · exact ⟨opened_tracked some_reader, fun _ _ found => by cases found⟩
    obtain ⟨within, entered⟩ := both.2 id write found error writec returned
    exact ⟨by rw [entered, List.length_take, Nat.min_eq_left within], entered⟩

/-- A pipe to which two bytes are written, of which one is read. -/
def greeted : Pipe where
  data := [2]
  readers := 1
  writers := 1
  writes := update (fun _ => none) 0 (some ⟨[1, 2], false, 0, some (none, 2)⟩)
  reads := update (fun _ => none) 0 (some ⟨1, false, some (none, [1])⟩)
  accepted := [(0, [1, 2])]
  received := [1]

theorem greeted_is_fifo : greeted.received <+: greeted.stream ∧ (greeted.parts 0).flatten.length = 2 := by
  have reached : ∀ allowed : Pipe → Event → Prop, (∀ pipe, allowed pipe (.write 0 [1, 2] false true)) →
      (∀ pipe, allowed pipe (.read 0 1 false true)) → Reaches step allowed (opened 1 1) greeted := by
    intro allowed may_write may_read
    have start : Reaches step allowed (opened 1 1) (opened 1 1) := .refl
    exact (start.next (may_write _) rfl).next (may_read _) rfl
  obtain ⟨ordered, counted⟩ := pipe_is_fifo 1 1 Nat.one_pos
  exact ⟨(ordered greeted (reached _ (fun _ => trivial) fun _ => trivial)).1,
    (counted greeted (reached _ (fun _ => .inl rfl) fun _ => trivial) 0 _ none 2 rfl rfl).1⟩

/-- A pipe whose buffer was filled by one large write that waits to go on. -/
def filled (data : List UInt8) : Pipe where
  data := data.take bufferSize
  readers := 1
  writers := 1
  writes := update (fun _ => none) 0 (some ⟨data, false, bufferSize, none⟩)
  reads _ := none
  accepted := [(0, data.take bufferSize)]
  received := []

theorem large_write_fills (large : bufferSize < data.length) :
    step (opened 1 1) (.write 0 data false true) = .ok (filled data) := by
  have not_atomic : ¬ data.length ≤ pipeAtomicSize := by
    simp only [bufferSize, pipeAtomicSize] at large ⊢
    omega
  have some_space : bufferSize ≠ 0 := by decide
  have wrote : (opened 1 1).writetopipe 0 (data.take bufferSize) = .ok (none, bufferSize,
      { opened 1 1 with data := data.take bufferSize, accepted := [(0, data.take bufferSize)] }) := by
    simp [opened, Pipe.writetopipe, Pipe.freespace, some_space, Nat.min_eq_left large.le]
  have count : min (opened 1 1).freespace (data.length - 0) = bufferSize := Nat.min_eq_left large.le
  have waits : (opened 1 1).partWrite 0 ⟨data, false, 0, none⟩ true = .ok (filled data) := by
    simp only [Pipe.partWrite, List.drop_zero, count, wrote, Nat.zero_add]
    apply bind_ok.mpr
    refine ⟨_, rfl, ?_⟩
    simp only [Option.isSome_none, Bool.false_eq_true, if_false, if_true, large.ne]
    rfl
  rw [← waits]
  simp [step, opened, Pipe.writeRound, Pipe.internalpoll, not_atomic, Pipe.freespace, some_space]

theorem large_write_interrupted (large : bufferSize < data.length) :
    ∃ pipe, Reaches step (fun _ _ => True) (opened 1 1) pipe ∧
      pipe.writes 0 = some ⟨data, false, bufferSize, some (some .eintr, 0)⟩ ∧
      (pipe.parts 0).flatten = data.take bufferSize := by
  have start : Reaches step (fun _ _ => True) (opened 1 1) (opened 1 1) := .refl
  have interrupted : step (filled data) (.interruptWrite 0) =
      .ok ((filled data).leaveWrite 0 ⟨data, false, bufferSize, none⟩ (some .eintr) 0) := rfl
  exact ⟨_, (start.next trivial (large_write_fills large)).next trivial interrupted, rfl,
    by simp [Pipe.parts, filled, Pipe.leaveWrite, Pipe.setWrite]⟩

/-- A write of more than the buffer holds fills it, and reports no byte when it is interrupted then. -/
theorem interrupted_write_reports_nothing : ∃ pipe, Reaches step (fun _ _ => True) (opened 1 1) pipe ∧
      pipe.writes 0 = some ⟨List.replicate 65537 0, false, bufferSize, some (some .eintr, 0)⟩ ∧
      (pipe.parts 0).flatten.length = bufferSize := by
  have large : bufferSize < (List.replicate 65537 0 : List UInt8).length := by
    rw [List.length_replicate]
    decide
  obtain ⟨pipe, reached, returned, entered⟩ := large_write_interrupted large
  exact ⟨pipe, reached, returned, by rw [entered, List.length_take, Nat.min_eq_left large.le]⟩

end Astral.Pipefs
