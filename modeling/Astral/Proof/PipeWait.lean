import Astral.Construction.PipeWait
import Astral.Proof.Pipe

namespace Astral.Pipefs

open Function Astral.Library

/-- There is space for a round of a blocking write of this size. -/
def Pipe.Fits (pipe : Pipe) (size : Nat) : Prop :=
  if size ≤ pipeAtomicSize then size ≤ pipe.freespace else pipe.freespace ≠ 0

/-- A round of a write without readers finds space. -/
def HasRoom (room : Room) : Call → Prop
  | .write _ data _ => room.pipe.readers = 0 → room.pipe.Fits data.length
  | .wake id _ => room.pipe.readers = 0 → ∀ write, room.pipe.writes id = some write → room.pipe.Fits write.data.length
  | _ => True

/-- The call is a round of a write. -/
def Call.Writes (id : Nat) : Call → Prop
  | .write call _ _ | .wake call _ => call = id
  | _ => False

/-- A writer waits only for readers, or has been woken. -/
def Room.Safe (room : Room) : Prop :=
  ∀ id wait, room.waits id = some wait → 0 < room.pipe.readers ∨ wait.event = true

/-- A round of a write without readers ends the call with an error and a signal. -/
def Breaks (room : Room) (call : Call) (next : Room) : Prop :=
  ∀ id, call.Writes id → room.pipe.readers = 0 →
    (next.pipe.writes id).bind Write.result = some (some .epipe, 0) ∧ id ∈ next.sigpipe ∧ next.waits id = none

/-- A call that has not returned is a blocking one. -/
def Write.Steady (write : Write) : Prop :=
  write.result = none → write.nonblock = false ∧ write.case3written ≤ write.data.length

/-- The calls that have not returned are blocking ones, all waiting writers are in the list of the pipe, and without
readers all of them have been woken. -/
structure Room.Watched (room : Room) : Prop where
  steady : ∀ id write, room.pipe.writes id = some write → write.Steady
  registered : ∀ id wait, room.waits id = some wait → wait.registered = true
  woken : room.pipe.readers = 0 → ∀ id wait, room.waits id = some wait → wait.event = true

/-- What one round of a blocking write leaves. -/
structure Left (pipe : Pipe) (id : Nat) (size : Nat) (left : Write) (next : Pipe) : Prop where
  writes : next.writes = update pipe.writes id (some left)
  readers : next.readers = pipe.readers
  blocking : left.nonblock = false
  within : left.case3written ≤ left.data.length
  full : left.result = none → bufferSize - pipeAtomicSize ≤ next.data.length
  broken : pipe.readers = 0 → (left.result = some (some .epipe, 0) ↔ pipe.Fits size)

section Rounds

variable {pipe next : Pipe} {id : Nat} {write : Write} {memory : Bool} (blocking : write.nonblock = false)
  (within : write.case3written ≤ write.data.length)
include blocking within

theorem lastWrite_left (fits : pipe.Fits write.data.length) (moved : pipe.lastWrite id write = .ok next) :
    ∃ left, Left pipe id write.data.length left next := by
  obtain ⟨⟨error, writec, written⟩, wrote, moved⟩ := bind_ok.mp moved
  cases moved
  unfold Pipe.writetopipe at wrote
  split at wrote
  · cases wrote
    exact ⟨_, rfl, rfl, blocking, within, fun waits => (by cases waits), fun _ => ⟨fun _ => fits, fun _ => rfl⟩⟩
  · next readers =>
    simp only at wrote
    split at wrote <;> cases wrote
    exact ⟨_, rfl, rfl, blocking, within, fun waits => (by cases waits), fun alone => absurd alone readers⟩

/-- A wait keeps the call as it is, or there is no memory for it. -/
theorem waitWrite_left {written : Pipe} {size : Nat} (same : written.writes = pipe.writes)
    (readers : written.readers = pipe.readers)
    (full : bufferSize - pipeAtomicSize ≤ written.data.length) (waiting : write.result = none)
    (cramped : pipe.readers = 0 → ¬ pipe.Fits size) :
    ∃ left, Left pipe id size left (written.waitWrite id write memory) := by
  unfold Pipe.waitWrite
  split
  · refine ⟨write, by simp [Pipe.setWrite, same], readers, blocking, within, fun _ => full, fun alone => ?_⟩
    simp [waiting, cramped alone]
  · refine ⟨{ write with result := some (some .enomem, 0) }, by simp [Pipe.leaveWrite, Pipe.setWrite, same], readers,
      blocking, within, fun waits => (by cases waits), fun alone => ?_⟩
    simp [cramped alone]

/-- A large write that is not done fills the pipe. -/
theorem partWrite_left (large : pipeAtomicSize < write.data.length) (space : pipe.freespace ≠ 0)
    (waiting : write.result = none) (moved : pipe.partWrite id write memory = .ok next) :
    ∃ left, Left pipe id write.data.length left next := by
  obtain ⟨⟨error, writec, written⟩, wrote, moved⟩ := bind_ok.mp moved
  unfold Pipe.writetopipe at wrote
  split at wrote
  · cases wrote
    cases moved
    refine ⟨_, rfl, rfl, blocking, within, fun waits => (by cases waits), fun _ => ?_⟩
    simp [Pipe.Fits, Nat.not_le.mpr large, space]
  · next readers =>
    simp only at wrote
    split at wrote <;> cases wrote
    obtain ⟨_, moved⟩ := guard_ok.mp moved
    split at moved
    · next finished =>
      cases moved
      refine ⟨_, rfl, rfl, blocking, ?_, fun waits => (by cases waits), fun alone => absurd alone readers⟩
      exact finished.le
    · next unfinished =>
      cases moved
      apply waitWrite_left
      case blocking => exact blocking
      case within =>
        simp only
        omega
      case full =>
        simp only [List.length_append, List.length_take, List.length_drop, Pipe.freespace] at unfinished space ⊢
        omega
      case waiting => exact waiting
      case cramped => exact fun alone => absurd alone readers
      all_goals rfl

/-- One round of a blocking write. -/
theorem writeRound_left (waiting : write.result = none) (moved : pipe.writeRound id write memory = .ok next) :
    ∃ left, Left pipe id write.data.length left next := by
  have no_hup : (pipe.internalpoll false true).pollhup = false := rfl
  unfold Pipe.writeRound at moved
  simp only [no_hup, blocking, Bool.false_eq_true, if_false, Bool.not_false, Bool.true_and, Bool.false_and] at moved
  by_cases small : write.data.length ≤ pipeAtomicSize
  · by_cases fits : write.data.length ≤ pipe.freespace
    · simp only [small, fits] at moved
      exact lastWrite_left blocking within (by simpa [Pipe.Fits, small]) moved
    · simp only [small, fits, decide_true, decide_false, Bool.and_false, Bool.not_true,
        Bool.false_eq_true, if_false, Bool.false_and] at moved
      cases moved
      refine waitWrite_left blocking within rfl rfl ?_ waiting fun _ => by simpa [Pipe.Fits, small] using fits
      unfold Pipe.freespace at fits
      omega
  · by_cases space : pipe.freespace = 0
    · simp [small, space] at moved
      cases moved
      refine waitWrite_left blocking within rfl rfl ?_ waiting fun _ => by simpa [Pipe.Fits, small] using space
      unfold Pipe.freespace at space
      omega
    · simp [small, space] at moved
      exact partWrite_left blocking within (Nat.not_le.mp small) space waiting moved

end Rounds

section Steps

variable {room next : Room} {id : Nat}

/-- An event wakes all writers that are in the list. -/
theorem pollEvent_watched (steady : ∀ id write, room.pipe.writes id = some write → write.Steady)
    (registered : ∀ id wait, room.waits id = some wait → wait.registered = true) : room.pollEvent.Watched where
  steady := steady
  registered id wait found := by
    obtain ⟨old, before, rfl⟩ := Option.map_eq_some_iff.mp found
    exact registered id old before
  woken _ id wait found := by
    obtain ⟨old, before, rfl⟩ := Option.map_eq_some_iff.mp found
    simp [registered id old before]

/-- A call that has not returned is put in the list of the pipe, if the pipe reports nothing. -/
theorem settle_watched (watched : room.Watched) {pipe : Pipe} {left : Write}
    (writes : pipe.writes = update room.pipe.writes id (some left)) (readers : pipe.readers = room.pipe.readers)
    (steady : left.Steady) (silent : left.result = none → (pipe.internalpoll false true).any = false) :
    (room.settle id pipe).Watched := by
  have found : (pipe.writes id).bind Write.result = left.result := by simp [writes]
  refine ⟨?_, ?_, fun alone => ?_⟩
  · show ∀ other write, pipe.writes other = some write → _
    rw [writes]
    refine (forall_update_iff _ fun _ entry => ∀ write : Write, entry = some write → write.Steady).mpr
      ⟨?_, fun other _ => watched.steady other⟩
    rintro write ⟨⟩
    exact steady
  · refine (forall_update_iff _ fun _ entry => ∀ wait : Wait, entry = some wait → wait.registered = true).mpr
      ⟨?_, fun other _ => watched.registered other⟩
    intro wait entry
    rw [found] at entry
    split at entry <;> cases entry
    next waiting => simp [silent waiting]
  · refine (forall_update_iff _ fun _ entry => ∀ wait : Wait, entry = some wait → wait.event = true).mpr
      ⟨?_, fun other _ => watched.woken (readers ▸ alone) other⟩
    intro wait entry
    rw [found] at entry
    split at entry <;> cases entry
    next waiting =>
      have quiet := silent waiting
      have alone : pipe.readers = 0 := alone
      simp [Revents.any, Pipe.internalpoll, alone] at quiet

section Round

variable {pipe : Pipe} {size : Nat} {left : Write} (round : Left room.pipe id size left pipe)
include round

theorem Left.silent (fits : room.pipe.readers = 0 → room.pipe.Fits size) (waiting : left.result = none) :
    (pipe.internalpoll false true).any = false := by
  have full := round.full waiting
  have readers : pipe.readers ≠ 0 := by
    rw [round.readers]
    intro alone
    have returned := (round.broken alone).mpr (fits alone)
    rw [waiting] at returned
    cases returned
  simp [Revents.any, Pipe.internalpoll, readers, full]

/-- After a round without readers the call has returned with the error exactly when there was space. -/
theorem Left.breaks_iff (alone : room.pipe.readers = 0) :
    ((room.settle id pipe).pipe.writes id).bind Write.result = some (some .epipe, 0) ∧
      id ∈ (room.settle id pipe).sigpipe ∧ (room.settle id pipe).waits id = none ↔ room.pipe.Fits size := by
  have found : (pipe.writes id).bind Write.result = left.result := by simp [round.writes]
  rw [← round.broken alone]
  constructor
  · rintro ⟨returned, -, -⟩
    rwa [← found]
  · intro returned
    simp [Room.settle, found, returned]

end Round

section

variable (watched : room.Watched)
include watched

/-- A round of a write, of a new call or of one that was woken. -/
theorem Room.Watched.round {call : Call} (writes : call.Writes id) (moved : room.step call = .ok next) :
    ∃ pipe size left, next = room.settle id pipe ∧
      Left room.pipe id size left pipe ∧ (HasRoom room call ↔ (room.pipe.readers = 0 → room.pipe.Fits size)) := by
  cases call with
  | write _ data memory =>
    cases writes
    obtain ⟨pipe, stepped, moved⟩ := bind_ok.mp moved
    cases moved
    cases step_moves stepped with
    | write _ ran =>
      obtain ⟨left, round⟩ := writeRound_left rfl (Nat.zero_le _) rfl ran
      exact ⟨pipe, data.length, left, rfl, round, .rfl⟩
    | take reads => cases reads
  | wake _ memory =>
    cases writes
    obtain ⟨_, moved⟩ := guard_ok.mp moved
    obtain ⟨pipe, stepped, moved⟩ := bind_ok.mp moved
    cases moved
    cases step_moves stepped with
    | @resumeWrite _ write _ _ found waiting ran =>
      obtain ⟨blocking, within⟩ := watched.steady id write found waiting
      obtain ⟨left, round⟩ := writeRound_left blocking within waiting ran
      exact ⟨pipe, write.data.length, left, rfl, round, by simp [HasRoom, found]⟩
    | take reads => cases reads
  | _ => cases writes

theorem Room.Watched.settled {call : Call} (writes : call.Writes id) (fits : HasRoom room call)
    (moved : room.step call = .ok next) : next.Watched := by
  obtain ⟨pipe, size, left, rfl, round, same⟩ := watched.round writes moved
  exact settle_watched watched round.writes round.readers (fun _ => ⟨round.blocking, round.within⟩)
    (round.silent (same.mp fits))

theorem Room.Watched.readStep {event : Event} {took : Bool} (moved : room.readStep event took = .ok next)
    (reads : event.Reads) : next.Watched := by
  obtain ⟨pipe, stepped, moved⟩ := bind_ok.mp moved
  have takes : Takes room.pipe pipe := by
    cases step_moves stepped with
    | take _ takes => exact takes
    | _ => cases reads
  have steady : ∀ id write, pipe.writes id = some write → write.Steady := by
    rw [takes.writes]
    exact watched.steady
  split at moved <;> cases moved
  · exact pollEvent_watched steady watched.registered
  · exact ⟨steady, watched.registered, fun alone => watched.woken (takes.readers ▸ alone)⟩

theorem Room.Watched.close {read write : Bool} (moved : room.close read write = .ok next) : next.Watched := by
  obtain ⟨_, moved⟩ := unless_ok.mp moved
  cases moved
  repeat' split
  all_goals first
    | exact pollEvent_watched watched.steady watched.registered
    | skip
  · exact pollEvent_watched watched.steady (pollEvent_watched watched.steady watched.registered).registered
  · next some_reader => exact ⟨watched.steady, watched.registered, fun alone => absurd alone some_reader⟩

theorem Room.Watched.step {call : Call} (fits : HasRoom room call) (moved : room.step call = .ok next) :
    next.Watched := by
  cases call with
  | «open» read write =>
    cases moved
    refine ⟨watched.steady, watched.registered, fun alone => watched.woken ?_⟩
    simp only at alone
    omega
  | close read write => exact watched.close moved
  | write id data memory =>
    have writes : Call.Writes id (.write id data memory) := rfl
    exact watched.settled writes fits moved
  | wake id memory =>
    have writes : Call.Writes id (.wake id memory) := rfl
    exact watched.settled writes fits moved
  | interrupt id =>
    obtain ⟨_, moved⟩ := guard_ok.mp moved
    obtain ⟨pipe, stepped, moved⟩ := bind_ok.mp moved
    cases moved
    cases step_moves stepped with
    | interruptWrite => refine settle_watched watched rfl rfl ?_ ?_ <;> exact fun waits => (by cases waits)
    | take reads => cases reads
  | read | resumeRead | interruptRead => exact watched.readStep moved trivial

end

/-- As long as rounds without readers have found space, the next step leaves no writer waiting without readers, and
ends a write without readers with the error, exactly when it finds space too. -/
theorem writer_safe_iff {readers writers : Nat} {call : Call}
    (reached : Reaches Room.step HasRoom (quiet readers writers) room) (moved : room.step call = .ok next) :
    next.Safe ∧ Breaks room call next ↔ HasRoom room call := by
  have watched : room.Watched := by
    refine reached.keeps Room.Watched (fun _ _ _ watched fits moved => watched.step fits moved) ?_
    exact ⟨fun _ _ found => (by cases found), fun _ _ found => (by cases found), fun _ _ _ found => (by cases found)⟩
  constructor
  · rintro ⟨-, breaks⟩
    by_cases writes : ∃ id, call.Writes id
    · obtain ⟨id, writes⟩ := writes
      obtain ⟨pipe, size, left, rfl, round, same⟩ := watched.round writes moved
      exact same.mpr fun alone => (round.breaks_iff alone).mp (breaks id writes alone)
    · cases call with
      | write id => exact absurd ⟨id, rfl⟩ writes
      | wake id => exact absurd ⟨id, rfl⟩ writes
      | _ => trivial
  · intro fits
    refine ⟨fun id wait found => ?_, fun id writes alone => ?_⟩
    · rcases Nat.eq_zero_or_pos next.pipe.readers with alone | some_reader
      · exact .inr ((watched.step fits moved).woken alone id wait found)
      · exact .inl some_reader
    · obtain ⟨pipe, size, left, rfl, round, same⟩ := watched.round writes moved
      exact (round.breaks_iff alone).mpr (same.mp fits alone)

end Steps

theorem lateWrite_breaks : ∃ next, (quiet 0 1).step (.write 0 [1] true) = .ok next ∧ next.Safe ∧
    Breaks (quiet 0 1) (.write 0 [1] true) next :=
  ⟨_, rfl, (writer_safe_iff .refl rfl).mpr fun _ => (by decide : 1 ≤ bufferSize)⟩

/-- A writer that filled the pipe, after its call has waited. -/
def waitingRoom (data : List UInt8) (readers : Nat) (wait : Wait) : Room :=
  ⟨{ filled data with readers }, update (fun _ => none) 0 (some wait), []⟩

theorem close_wakes (data : List UInt8) : (waitingRoom data 1 ⟨true, false⟩).step (.close true false) =
    .ok (waitingRoom data 0 ⟨true, true⟩) := by
  have woken : (waitingRoom data 0 ⟨true, false⟩).pollEvent = waitingRoom data 0 ⟨true, true⟩ := by
    simp only [Room.pollEvent, waitingRoom, Room.mk.injEq, true_and, and_true]
    funext id
    by_cases same : id = 0 <;> simp [same]
  exact congrArg Except.ok woken

section Lost

variable {data : List UInt8} (large : bufferSize < data.length)
include large

theorem filled_full : (filled data).data.length = bufferSize := by
  rw [filled, List.length_take, Nat.min_eq_left large.le]

theorem large_waits : (quiet 1 1).step (.write 0 data true) = .ok (waitingRoom data 1 ⟨true, false⟩) := by
  refine bind_ok.mpr ⟨filled data, large_write_fills large, ?_⟩
  have silent : ((filled data).internalpoll false true).any = false := by
    simp [Revents.any, Pipe.internalpoll, filled_full large, show (filled data).readers = 1 from rfl]
  simp only [Room.settle, silent]
  rfl

theorem large_woken : Reaches Room.step HasRoom (quiet 1 1) (waitingRoom data 0 ⟨true, true⟩) := by
  have some_readers : HasRoom (quiet 1 1) (.write 0 data true) := fun alone => nomatch alone
  exact (Reaches.next .refl some_readers (large_waits large)).next (by trivial) (close_wakes data)

theorem large_sleeps : (waitingRoom data 0 ⟨true, true⟩).step (.wake 0 true) =
    .ok (waitingRoom data 0 ⟨false, false⟩) := by
  have full : (waitingRoom data 0 ⟨true, true⟩).pipe.data.length = bufferSize := filled_full large
  have big : ¬ data.length ≤ pipeAtomicSize := by
    simp only [bufferSize, pipeAtomicSize] at large ⊢
    omega
  have no_space : (waitingRoom data 0 ⟨true, true⟩).pipe.freespace = 0 := by rw [Pipe.freespace, full, Nat.sub_self]
  have round : (waitingRoom data 0 ⟨true, true⟩).pipe.writeRound 0 ⟨data, false, bufferSize, none⟩ true =
      .ok ((waitingRoom data 0 ⟨true, true⟩).pipe.setWrite 0 ⟨data, false, bufferSize, none⟩) := by
    simp [Pipe.writeRound, Pipe.internalpoll, Pipe.waitWrite, big, no_space]
  refine bind_ok.mpr ⟨_, round, ?_⟩
  exact congrArg Except.ok (by simp [Room.settle, waitingRoom, filled, Pipe.setWrite, Revents.any, Pipe.internalpoll])

end Lost

/-- The last reader leaves while a write waits in a full pipe. It is woken, and then waits outside of the list. -/
theorem woken_writer_lost : ∃ (data : List UInt8) (lost : Room),
    Reaches Room.step HasRoom (quiet 1 1) (waitingRoom data 0 ⟨true, true⟩) ∧
    (waitingRoom data 0 ⟨true, true⟩).step (.wake 0 true) = .ok lost ∧
    ¬ lost.Safe ∧ ¬ Breaks (waitingRoom data 0 ⟨true, true⟩) (.wake 0 true) lost := by
  have large : bufferSize < (List.replicate 65537 0 : List UInt8).length := by
    rw [List.length_replicate]
    decide
  refine ⟨_, _, large_woken large, large_sleeps large, fun safe => ?_, fun breaks => ?_⟩
  · exact (safe 0 ⟨false, false⟩ rfl).elim (Nat.lt_irrefl 0) nofun
  · exact nomatch (breaks 0 rfl rfl).2.1

end Astral.Pipefs
