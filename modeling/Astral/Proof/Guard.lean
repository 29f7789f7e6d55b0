import Astral.Proof.IovecCall

namespace Astral.Io

open Library

namespace Access

/-- This many bytes are touched. -/
def size : Access → Nat
  | .usercopyFromuser _ _ size => size
  | .usercopyTouser _ _ size => size
  | .usercopyMemset _ _ size => size
  | .memcpy _ _ size => size
  | .memset _ _ size => size

/-- A fault in the access becomes an error. -/
def isProtected : Access → Bool
  | .usercopyFromuser _ _ _ | .usercopyTouser _ _ _ | .usercopyMemset _ _ _ => true
  | .memcpy _ _ _ | .memset _ _ _ => false

end Access

variable {machine : Machine} {user size dst buffer held fuel : Nat} {inside outside : Access}
  {result : (Nat → Byte) × Bool} {faults : Nat → Bool} {memory : Nat → Byte}
  {progress : Progress (Machine × Ringbuffer)} {list : List (Nat × Nat)}

/-- Every access that touches memory is protected. -/
def Protected (accesses : List Access) : Prop :=
  ∀ access ∈ accesses, access.size = 0 ∨ access.isProtected = true

theorem protected_append (accesses : List Access) (access : Access) :
    Protected (accesses ++ [access]) ↔ Protected accesses ∧ (access.size = 0 ∨ access.isProtected = true) := by
  rw [Protected, List.forall_mem_append, List.forall_mem_singleton, Protected]

theorem protect_accesses (machine : Machine) (user : Nat) (inside outside : Access) (result : (Nat → Byte) × Bool) :
    (machine.protect user inside outside result).1.accesses =
      machine.accesses ++ [if isUserAddress user then inside else outside] := by
  unfold Machine.protect
  split <;> rfl

/-- The log of an access that is protected by its address. -/
theorem protect_protected (one : inside.isProtected = true) (two : outside.isProtected = false)
    (same : outside.size = size) : Protected (machine.protect user inside outside result).1.accesses ↔
      Protected machine.accesses ∧ (size = 0 ∨ user < userspaceEnd) := by
  rw [protect_accesses, protected_append]
  by_cases isUser : isUserAddress user = true
  · rw [if_pos isUser]
    simp [one, show user < userspaceEnd from decide_eq_true_eq.mp isUser]
  · rw [if_neg isUser]
    have high : ¬ user < userspaceEnd := fun low => isUser (decide_eq_true_eq.mpr low)
    simp [two, same, high]

/-- A copy whose second address decides whether it is protected. -/
structure Guarding (copy : Machine → (slot buffer size : Nat) → Machine × Option Errno) : Prop where
  checked : Checked copy
  logs : ∀ machine slot buffer size, Protected (copy machine slot buffer size).1.accesses ↔
    Protected machine.accesses ∧ (size = 0 ∨ buffer < userspaceEnd)
  calm : ∀ machine slot {buffer : Nat} size, size = 0 ∨ buffer < userspaceEnd →
    (copy machine slot buffer size).1.panicked = machine.panicked
  error : ∀ machine slot buffer size, (copy machine slot buffer size).2 ≠ none → buffer < userspaceEnd

theorem protect_calm (ok : size = 0 → result.2 = true) (guarded : size = 0 ∨ user < userspaceEnd) :
    (machine.protect user inside outside result).1.panicked = machine.panicked := by
  by_cases isUser : isUserAddress user = true
  · rw [Machine.protect, if_pos isUser]
    rfl
  · rcases guarded with empty | low
    · exact (protect_done _ _ _ _ _ (ok empty)).2
    · exact absurd (decide_eq_true_eq.mpr low) isUser

theorem guarding_fromUser : Guarding Machine.usercopyPossiblyFromUser := by
  constructor
  · exact checked_fromUser
  all_goals
    intro machine kernel user size
    rw [possiblyFromUser_eq]
  · exact protect_protected rfl rfl rfl
  · exact protect_calm fun empty => by subst empty; rfl
  · exact protect_user _ _ _ _ _

theorem guarding_toUser : Guarding fun machine slot buffer => machine.usercopyPossiblyToUser buffer slot := by
  constructor
  · exact checked_toUser.swap
  all_goals
    intro machine kernel user size
    rw [possiblyToUser_eq]
  · exact protect_protected rfl rfl rfl
  · exact protect_calm fun empty => by subst empty; rfl
  · exact protect_user _ _ _ _ _

/-- A copy through the ring starts in user memory, and its first pass does not stop right at the end of it. -/
def SplitGuarded (faults : Nat → Bool) (ring : Ringbuffer) (start address count : Nat) : Prop :=
  count = 0 ∨ address < userspaceEnd ∧ (count < 2 ^ 63 → ring.size - start % ring.size < count →
      Resident faults address (ring.size - start % ring.size) →
        address + (ring.size - start % ring.size) ≠ userspaceEnd)

section Passes

variable {copy : Machine → (slot buffer size : Nat) → Machine × Option Errno} (guarding : Guarding copy)
  {machine : Machine} {ring : Ringbuffer} (hole : Hole machine.faults) (placed : ring.Placed machine.faults)
  (calm : machine.panicked = false) (start : Nat) {buffer count : Nat}
  (word : buffer < wordSize) (bound : count < wordSize)
include guarding hole placed calm word bound

theorem passes_protected (clean : Protected machine.accesses) :
    Protected (ringbufferPasses copy machine ring start buffer count).1.accesses ↔
      SplitGuarded machine.faults ring start buffer count := by
  have positive := placed.positive
  have small := placed.size_small
  have limit := wordSize_eq
  have userEnd : userspaceEnd = 0x0000800000000000 := rfl
  have offset : start % ring.size < ring.size := Nat.mod_lt _ positive
  obtain ⟨room, roomEq⟩ : ∃ room, room = ring.size - start % ring.size := ⟨_, rfl⟩
  have remaining : subWord ring.size (start % ring.size) = room := by
    rw [roomEq]
    exact subWord_eq (by omega) (by omega)
  obtain ⟨first, firstEq⟩ : ∃ first, minLong count room = first := ⟨_, rfl⟩
  have firstValue : count < 2 ^ 63 ∧ first = min count room ∨ 2 ^ 63 ≤ count ∧ first = count := by
    rcases Nat.lt_or_ge count (2 ^ 63) with short | huge
    · left
      refine ⟨short, ?_⟩
      rw [← firstEq, minLong_small short (by omega)]
    · right
      refine ⟨huge, ?_⟩
      rw [← firstEq]
      exact minLong_left huge bound (by omega)
  have logs := guarding.logs machine (addWord ring.data (start % ring.size)) buffer first
  have error := guarding.error machine (addWord ring.data (start % ring.size)) buffer first
  have clear := guarding.checked.clear machine first (addWord_lt ring.data (start % ring.size)) word
  unfold SplitGuarded
  rw [← roomEq]
  rcases ringbufferPasses_cases copy machine ring start buffer (by rw [remaining, firstEq]) with
    ⟨middle, failure, ran, passes⟩ | ⟨middle, ran, ⟨all, passes⟩ | ⟨more, passes⟩⟩
  · rw [ran] at logs error clear
    have low := error (by simp)
    have calmFirst := guarding.calm machine (addWord ring.data (start % ring.size)) first (.inr low)
    rw [ran, calm] at calmFirst
    rw [passes, logs]
    refine iff_of_true ⟨clean, .inr low⟩ (.inr ⟨low, ?_⟩)
    intro short less resident
    have faulted := (not_congr (clear calmFirst)).mp (by simp)
    have whole : first = room := by omega
    exact absurd ⟨placed.resident.part (by omega), whole ▸ resident⟩ faulted
  · rw [ran] at logs
    rw [passes, logs, all]
    constructor
    · rintro ⟨_, empty | low⟩
      · exact .inl empty
      · exact .inr ⟨low, fun short less => absurd less (by omega)⟩
    · rintro (empty | ⟨low, _⟩)
      · exact ⟨clean, .inl empty⟩
      · exact ⟨clean, .inr low⟩
  · have whole : first = room := by omega
    have short : count < 2 ^ 63 := by omega
    rw [ran] at logs clear
    rw [passes, guarding.logs, logs, subWord_eq (by omega) (by omega)]
    by_cases low : buffer < userspaceEnd
    · have calmFirst := guarding.calm machine (addWord ring.data (start % ring.size)) first (.inr low)
      rw [ran, calm] at calmFirst
      have resident := ((clear calmFirst).mp rfl).2
      obtain ⟨last, lastEq⟩ := Nat.exists_eq_succ_of_ne_zero (show first ≠ 0 by omega)
      have stays := hole.stays low (lastEq ▸ resident)
      rw [addWord_eq (by omega)]
      constructor
      · rintro ⟨_, empty | inside⟩
        · omega
        · exact .inr ⟨low, fun _ _ _ => by omega⟩
      · rintro (empty | ⟨_, differ⟩)
        · omega
        · have apart := differ short (by omega) (whole ▸ resident)
          exact ⟨⟨clean, .inr low⟩, .inr (by omega)⟩
    · constructor
      · rintro ⟨⟨_, empty | inside⟩, _⟩
        · omega
        · exact absurd inside low
      · rintro (empty | ⟨inside, _⟩)
        · omega
        · exact absurd inside low

end Passes

/-- The chunk is empty or starts in memory whose faults become errors. -/
def IovecCall.Guards (faults : Nat → Bool) (ring : Ringbuffer) (address count done : Nat) : IovecCall → Prop
  | .copyToBuffer _ | .memset _ => count = 0 ∨ address < userspaceEnd
  | .copyFromBuffer buffer => count = 0 ∨ addWord buffer done < userspaceEnd
  | .writeToRingbuffer => SplitGuarded faults ring ring.write address (minLong count ring.freespace)
  | .peekFromRingbuffer offset =>
    ring.datacount ≤ addWord offset done ∨
      SplitGuarded faults ring (addWord ring.read (minLong (addWord offset done) ring.freespace)) address
        (minLong count (subWord ring.datacount (addWord offset done)))

/-- A kernel whose accesses were all protected is not stopped. -/
def Sober (machine : Machine) : Prop := Protected machine.accesses → machine.panicked = false

theorem Guarding.sober {copy : Machine → (slot buffer size : Nat) → Machine × Option Errno} (guarding : Guarding copy)
    (sober : Sober machine) {slot : Nat} : Sober (copy machine slot buffer size).1 := by
  intro clean
  obtain ⟨before, guarded⟩ := (guarding.logs machine slot buffer size).mp clean
  rw [guarding.calm machine slot size guarded]
  exact sober before

section Move

variable {side : Machine × Ringbuffer} {address count done : Nat}

theorem IovecCall.move_protected (call : IovecCall) (hole : Hole side.1.faults) (counted : call.Counted side held)
    (calm : side.1.panicked = false) (word : address < wordSize) (bound : count < wordSize)
    (clean : Protected side.1.accesses) : Protected (call.transfer.move side address count done).1.1.accesses ↔
      call.Guards side.1.faults side.2 address count done := by
  cases call with
  | copyToBuffer buffer =>
    simp only [transfer, Transfer.besideRing, iovecIteratorCopyToBuffer, bufferTransfer_move]
    rw [guarding_fromUser.logs, Guards]
    exact and_iff_right clean
  | copyFromBuffer buffer =>
    simp only [transfer, Transfer.besideRing, iovecIteratorCopyFromBuffer, bufferTransfer_move]
    rw [guarding_fromUser.logs, Guards]
    exact and_iff_right clean
  | memset byte =>
    simp only [transfer, Transfer.besideRing, iovecIteratorMemset, bufferTransfer_move, possiblyMemset_eq]
    rw [protect_protected rfl rfl rfl, Guards]
    exact and_iff_right clean
  | writeToRingbuffer =>
    obtain ⟨placed, counts⟩ := counted
    have small := placed.size_small
    have free := counts.freespace placed
    have limit := wordSize_eq
    have split := passes_protected guarding_fromUser hole placed calm side.2.write word
      (minLong_lt bound (show side.2.freespace < wordSize by omega)) clean
    rw [transfer, writeMove_eq rfl rfl, Guards, ← split]
    split
    · split <;> rfl
    · rfl
  | peekFromRingbuffer offset =>
    obtain ⟨placed, counts⟩ := counted
    have small := placed.size_small
    have room := counts.room
    have total := counts.datacount
    have limit := wordSize_eq
    rw [transfer, Guards]
    rcases Nat.lt_or_ge (addWord offset done) side.2.datacount with inside | outside
    · have less : subWord side.2.datacount (addWord offset done) < wordSize := by
        rw [subWord_eq (by omega) (by omega)]
        omega
      rw [peekMove_eq inside rfl rfl, passes_protected guarding_toUser hole placed calm _ word (minLong_lt bound less)
        clean]
      exact (or_iff_right (by omega)).symm
    · rw [peekMove_outside outside]
      exact iff_of_true clean (.inl outside)

/-- A move keeps the kernel sober. -/
theorem IovecCall.move_sober (call : IovecCall) (sober : Sober side.1) (address count done : Nat) :
    Sober (call.transfer.move side address count done).1.1 := by
  apply call.move_keeps Sober (fun _ _ _ _ sober => guarding_fromUser.sober sober)
    (fun _ _ _ _ sober => guarding_toUser.sober sober) ?_ sober
  intro machine user byte size sober clean
  rw [possiblyMemset_eq] at clean ⊢
  obtain ⟨before, guarded⟩ := (protect_protected rfl rfl rfl).mp clean
  have guarded : size = 0 ∨ user < userspaceEnd := guarded
  rw [protect_calm (fun empty => by subst empty; rfl) guarded]
  exact sober before

end Move

/-- The whole chunk is moved. -/
def IovecCall.Takes (faults : Nat → Bool) (ring : Ringbuffer) (address count done : Nat) : IovecCall → Prop
  | .copyToBuffer buffer | .copyFromBuffer buffer =>
    Resident faults address count ∧ Resident faults (addWord buffer done) count
  | .memset _ => Resident faults address count
  | .writeToRingbuffer => Resident faults address count ∧ 0 < count ∧ count ≤ ring.freespace
  | .peekFromRingbuffer offset =>
    Resident faults address count ∧ 0 < count ∧ addWord offset done + count ≤ ring.datacount

theorem IovecCall.move_takes_iff {side : Machine × Ringbuffer} {address count done : Nat} (call : IovecCall)
    (hole : Hole side.1.faults) (counted : call.Counted side held) (word : address < wordSize) (short : count < 2 ^ 63)
    (calm : (call.transfer.move side address count done).1.1.panicked = false) :
    ((call.transfer.move side address count done).2 = some count ∧ (call.transfer.stopsEmpty = true → count ≠ 0)) ↔
      call.Takes side.1.faults side.2 address count done := by
  have bound : count < wordSize := Nat.lt_trans short (by decide)
  cases call with
  | copyToBuffer buffer =>
    simp only [transfer, Transfer.besideRing, iovecIteratorCopyToBuffer, bufferTransfer_move] at *
    have clear := checked_fromUser.swap.clear side.1 count word (addWord_lt buffer done) calm
    rw [Takes, ← clear]
    simp [bufferTransfer]
  | copyFromBuffer buffer =>
    simp only [transfer, Transfer.besideRing, iovecIteratorCopyFromBuffer, bufferTransfer_move] at *
    have clear := checked_fromUser.clear side.1 count word (addWord_lt buffer done) calm
    rw [Takes, ← clear]
    simp [bufferTransfer]
  | memset byte =>
    simp only [transfer, Transfer.besideRing, iovecIteratorMemset, bufferTransfer_move, possiblyMemset_eq] at *
    have clear := protect_clear _ _ _ _ _ calm
    rw [setBytes_ok_iff word] at clear
    rw [Takes, ← clear]
    simp [bufferTransfer]
  | writeToRingbuffer =>
    obtain ⟨placed, counts⟩ := counted
    have free := counts.freespace placed
    have small := placed.size_small
    rw [Takes, transfer]
    have cut := minLong_small short (show side.2.freespace < 2 ^ 63 by omega)
    rcases writeMove_cases hole placed counts word bound calm with ⟨faulty, none⟩ | ⟨clear, _, machine, passed⟩
    · rw [none]
      refine iff_of_false (by simp) ?_
      rintro ⟨resident, _, fits⟩
      rw [cut, Nat.min_eq_left fits] at faulty
      exact faulty resident
    · rw [passed, ← free]
      rw [cut] at clear
      simp only [Option.some.injEq]
      constructor
      · rintro ⟨whole, some⟩
        rw [whole] at clear
        exact ⟨clear, Nat.pos_of_ne_zero (some rfl), by omega⟩
      · rintro ⟨_, some, fits⟩
        exact ⟨Nat.min_eq_left fits, fun _ => Nat.ne_of_gt some⟩
  | peekFromRingbuffer offset =>
    obtain ⟨placed, counts⟩ := counted
    have total := counts.datacount
    have room := counts.room
    have small := placed.size_small
    rw [Takes, transfer, total]
    rcases peekMove_cases hole placed counts word bound calm with
      ⟨outside, same⟩ | ⟨inside, ⟨faulty, none⟩ | ⟨clear, _, machine, passed⟩⟩
    · rw [same]
      refine iff_of_false ?_ ?_
      · rintro ⟨whole, some⟩
        exact some rfl (Option.some.inj whole).symm
      · rintro ⟨_, some, fits⟩
        omega
    · rw [none]
      refine iff_of_false (by simp) ?_
      rintro ⟨resident, _, fits⟩
      rw [minLong_small short (by omega), Nat.min_eq_left (by omega)] at faulty
      exact faulty resident
    · rw [passed]
      rw [minLong_small short (by omega)] at clear
      simp only [Option.some.injEq]
      constructor
      · rintro ⟨whole, some⟩
        rw [whole] at clear
        exact ⟨clear, Nat.pos_of_ne_zero (some rfl), by omega⟩
      · rintro ⟨_, some, fits⟩
        exact ⟨by omega, fun _ => Nat.ne_of_gt some⟩

/-- One round leads from one state of the loop to the next. -/
def Rounds (call : IovecCall) (fuel byteCount : Nat) (progress next : Progress (Machine × Ringbuffer)) : Prop :=
  call.transfer.round fuel byteCount progress = some (true, next)

/-- The chunk of the current entry is moved with protected accesses. -/
def MovesProtected (call : IovecCall) (progress : Progress (Machine × Ringbuffer)) : Prop :=
  ∀ entry, progress.iterator.iovec[progress.iterator.current]? = some entry →
    Protected (call.transfer.move progress.side (addWord entry.addr progress.iterator.currentOffset)
      (minLong (subWord entry.len progress.iterator.currentOffset) progress.remaining) progress.done).1.1.accesses

/-- From this state on, all accesses are protected. -/
def Shielded (call : IovecCall) (fuel byteCount : Nat) (progress : Progress (Machine × Ringbuffer)) : Prop :=
  ∀ reached, Relation.ReflTransGen (Rounds call fuel byteCount) progress reached → MovesProtected call reached

/-- The call accesses the entries only through protected accesses. -/
def Protects (call : IovecCall) (byteCount : Nat) (iterator : IovecIterator) (side : Machine × Ringbuffer) : Prop :=
  ∀ fuel, Shielded call fuel byteCount
    ⟨side, iterator, minLong byteCount (subWord iterator.totalSize iterator.totalOffset), 0, false⟩

theorem shielded_iff {call : IovecCall} {byteCount : Nat} : Shielded call fuel byteCount progress ↔
      MovesProtected call progress ∧ ∀ next, Rounds call fuel byteCount progress next →
        Shielded call fuel byteCount next := by
  constructor
  · intro shielded
    exact ⟨shielded progress .refl, fun next step reached later => shielded reached (.head step later)⟩
  · rintro ⟨here, later⟩ reached steps
    rcases Relation.ReflTransGen.cases_head steps with rfl | ⟨next, step, rest⟩
    · exact here
    · exact later next step reached rest

/-- Every chunk on the way through the entries is guarded; the way goes on behind an entry that is moved as a whole. -/
def IovecCall.Aligned (call : IovecCall) (faults : Nat → Bool) (ring : Ringbuffer) :
    List (Nat × Nat) → (wanted done : Nat) → Prop
  | [], _, _ => True
  | (start, len) :: rest, wanted, done =>
    call.Guards faults (call.ringAfter ring done) start (minLong len wanted) done ∧
      (wanted < 2 ^ 63 → len < wanted → call.Takes faults (call.ringAfter ring done) start len done →
        call.Aligned faults ring rest (wanted - len) (done + len))

/-- The loop has moved whole chunks, all of them with protected accesses. -/
structure Underway (call : IovecCall) (byteCount : Nat) (faults : Nat → Bool) (ring : Ringbuffer)
    (progress : Progress (Machine × Ringbuffer)) : Prop where
  wants : Wants byteCount progress
  faults : progress.side.1.faults = faults
  ring : progress.side.2 = call.ringAfter ring progress.done
  counted : ∃ held, call.Counted progress.side held
  calm : progress.side.1.panicked = false
  clean : Protected progress.side.1.accesses

section Walk

variable {call : IovecCall} {byteCount : Nat} {ring : Ringbuffer} {next : Progress (Machine × Ringbuffer)}
  {pre post : List Iovec} {entry : Iovec}

section

variable (stands : Stands progress.iterator pre entry post)
include stands

theorem movesProtected_iff : MovesProtected call progress ↔
      Protected (call.transfer.move progress.side (progress.place entry) (progress.chunk entry)
        progress.done).1.1.accesses := by
  unfold MovesProtected
  rw [stands.reads, Progress.chunk, ← stands.remaining_eq]
  simp only [Option.some.injEq, forall_eq']

theorem Underway.guards_iff (hole : Hole faults) (underway : Underway call byteCount faults ring progress) :
    MovesProtected call progress ↔
      call.Guards faults (call.ringAfter ring progress.done) (progress.place entry) (progress.chunk entry)
        progress.done := by
  obtain ⟨held, counted⟩ := underway.counted
  have len := (stands.words entry stands.mem).2
  rw [movesProtected_iff stands, call.move_protected (underway.faults ▸ hole) counted underway.calm (addWord_lt _ _)
    (minLong_lt (by omega) underway.wants.word) underway.clean, underway.faults, underway.ring]

/-- A protected round leaves a kernel that goes on. -/
theorem Rounds.side (step : Rounds call fuel byteCount progress next) : ∃ outcome, call.transfer.move progress.side
      (progress.place entry) (progress.chunk entry) progress.done = (next.side, outcome) := by
  obtain ⟨read, outcome, reads, move, _⟩ := round_cases step
  rw [stands.reads] at reads
  cases reads
  rw [stands.remaining_eq] at move
  exact ⟨outcome, move⟩

theorem Rounds.calm (step : Rounds call fuel byteCount progress next) (calm : progress.side.1.panicked = false)
    (guarded : MovesProtected call progress) : next.side.1.panicked = false ∧ Protected next.side.1.accesses := by
  obtain ⟨outcome, move⟩ := step.side stands
  rw [movesProtected_iff stands, move] at guarded
  have sober := call.move_sober (fun _ => calm) (progress.place entry) (progress.chunk entry) progress.done
  rw [move] at sober
  exact ⟨sober guarded, guarded⟩

end

/-- A spent ring buffer ends the loop without another access to the entries. -/
theorem shielded_spent (hole : Hole next.side.1.faults) (spent : call.Spent next.side next.done)
    (counted : call.Counted next.side held) (stands : Stands next.iterator pre entry post)
    (word : next.remaining < wordSize) (calm : next.side.1.panicked = false) (clean : Protected next.side.1.accesses)
    (fresh : next.chunk entry < 2 ^ 63 ∨ next.place entry < userspaceEnd) :
    Shielded call (fuel + 1) byteCount next := by
  have len := (stands.words entry stands.mem).2
  have bound : next.chunk entry < wordSize := minLong_lt (by omega) word
  have guarded : MovesProtected call next := by
    rw [movesProtected_iff stands, call.move_protected hole counted calm (addWord_lt _ _) bound clean]
    cases call with
    | copyToBuffer | copyFromBuffer | memset => exact spent.elim
    | writeToRingbuffer =>
      rw [IovecCall.Guards, show next.side.2.freespace = 0 from spent]
      rcases Nat.lt_or_ge (next.chunk entry) (2 ^ 63) with less | huge
      · left
        rw [minLong_small less (by decide), Nat.min_zero]
      · right
        rw [minLong_left huge bound (by decide)]
        exact ⟨fresh.resolve_left (by omega), fun short => absurd short (by omega)⟩
    | peekFromRingbuffer offset => exact .inl spent
  rw [shielded_iff]
  refine ⟨guarded, ?_⟩
  intro later step
  exfalso
  obtain ⟨read, outcome, reads, move, ⟨_, stop, _⟩ | ⟨_, stop, _⟩ | ⟨moved, outcomeEq, goes, _⟩⟩ := round_cases step
  · cases stop
  · cases stop
  · rw [stands.reads] at reads
    cases reads
    rw [stands.remaining_eq, outcomeEq] at move
    obtain ⟨less, _⟩ := call.move_some hole counted (addWord_lt _ _) bound (step.calm stands calm guarded).1 move goes
    obtain ⟨stops, _, nothing⟩ := spent.move counted (next.place entry) less
    rw [move] at nothing
    cases nothing
    exact goes stops rfl

theorem ringAfter_add (call : IovecCall) (ring : Ringbuffer) (first second : Nat) :
    call.ringAfter (call.ringAfter ring first) second = call.ringAfter ring (first + second) := by
  cases call <;> simp [IovecCall.ringAfter, addWord_assoc]

section

variable {count : Nat} (went : WentOn call byteCount progress entry count count next)
include went

/-- Behind a whole chunk the loop is underway again. -/
theorem WentOn.underway (underway : Underway call byteCount faults ring progress)
    (stands : Stands progress.iterator pre entry post) (calm : next.side.1.panicked = false)
    (clean : Protected next.side.1.accesses) : Underway call byteCount faults ring next := by
  have countEq := went.countEq
  have word := underway.wants.word
  obtain ⟨within, most, ends⟩ := underway.wants.ends went.wantedShort
  have left : next.iterator.left = progress.iterator.left - count := by
    rw [went.skipped, IovecIterator.left, skipRound_totalSize, stands.round_total (by omega), IovecIterator.left]
    omega
  refine ⟨⟨?_, underway.wants.total, ?_⟩, went.faults.trans underway.faults, ?_, went.counted, calm, clean⟩
  · rw [went.remaining]
    omega
  · intro _
    rw [went.remaining, went.done, left]
    omega
  · rw [call.move_ring went.move, underway.ring, ringAfter_add, went.done]

/-- A loop that goes on behind a whole chunk has moved a whole entry and wants more. -/
theorem WentOn.whole (wants : Wants byteCount progress) :
    count = entry.len - progress.iterator.currentOffset ∧ count < progress.remaining := by
  have countEq := went.countEq
  have more := went.more
  obtain ⟨within, most, ends⟩ := wants.ends went.wantedShort
  rcases Nat.lt_or_ge count progress.remaining with less | all
  · exact ⟨by omega, less⟩
  · have incomplete := went.incomplete
    rw [went.remaining, went.done, show progress.remaining - count = 0 by omega,
      show progress.done + count = byteCount by omega, call.complete_all] at incomplete
    cases incomplete

end

/-- The bytes that are left of the entries stand here. -/
def spans (iterator : IovecIterator) (entry : Iovec) (post : List Iovec) : List (Nat × Nat) :=
  (addWord entry.addr iterator.currentOffset, entry.len - iterator.currentOffset) ::
    post.map fun other => (other.addr, other.len)

theorem spans_fresh {iterator : IovecIterator} {later : Iovec} {others : List Iovec}
    (stands : Stands iterator pre later others) (zero : iterator.currentOffset = 0) :
    spans iterator later others = (later :: others).map (fun other => (other.addr, other.len)) ∧
      addWord later.addr iterator.currentOffset = later.addr := by
  have small := (stands.words later stands.mem).1
  rw [spans, zero, addWord_zero small]
  exact ⟨rfl, rfl⟩

/-- A whole entry is moved in one round if more is wanted. -/
theorem Underway.rounds_whole (hole : Hole faults) (underway : Underway call byteCount faults ring progress)
    (stands : Stands progress.iterator pre entry post) (guarded : MovesProtected call progress) (fuel : Nat) {len : Nat}
    (lenEq : len = entry.len - progress.iterator.currentOffset) (short : progress.remaining < 2 ^ 63)
    (less : len < progress.remaining)
    (takes : call.Takes faults (call.ringAfter ring progress.done) (progress.place entry) len progress.done) :
    ∃ next, Rounds call (fuel + 1) byteCount progress next ∧ WentOn call byteCount progress entry len len next ∧
      ∃ later others, post = later :: others ∧ Stands next.iterator (pre ++ [entry]) later others ∧
        next.iterator.currentOffset = 0 := by
  obtain ⟨held, counted⟩ := underway.counted
  have holeHere : Hole progress.side.1.faults := underway.faults ▸ hole
  have offset := stands.offset
  have total := underway.wants.total
  obtain ⟨within, most, _⟩ := underway.wants.ends short
  have count : progress.chunk entry = len := by
    rw [Progress.chunk, ← lenEq, minLong_small (by omega) short, Nat.min_eq_left (by omega)]
  have guardedMove := (movesProtected_iff stands).mp guarded
  have sober := call.move_sober (fun _ => underway.calm) (progress.place entry) len progress.done
  rw [count] at guardedMove
  have moves := (call.move_takes_iff holeHere counted (addWord_lt _ _) (by omega) (sober guardedMove)).mpr
    (by rw [underway.faults, underway.ring]; exact takes)
  generalize moveEq : call.transfer.move progress.side (progress.place entry) len progress.done = result
    at moves guardedMove sober
  obtain ⟨side, outcome⟩ := result
  obtain ⟨whole, goes⟩ := moves
  subst whole
  have round := round_moved stands fuel byteCount underway.wants.word goes (by rw [count]; exact moveEq)
  have unfinished : (progress.iterator.skipRound entry len).finished = false := by
    have left : progress.iterator.left = progress.iterator.totalSize - progress.iterator.totalOffset := rfl
    rw [IovecIterator.finished, skipRound_totalSize, stands.round_total (by omega), decide_eq_false_iff_not]
    omega
  rw [count, subWord_eq (by omega) (by omega), addWord_eq (by omega), unfinished,
    call.incomplete_more (by omega) (by omega)] at round
  obtain ⟨later, others, postEq, there, zero⟩ := stands.next (show _ + len = _ by omega) (by omega)
  obtain ⟨count', moved, went⟩ := round_again holeHere stands counted underway.wants round (sober guardedMove)
  have countEq : count' = len := by
    have value := went.countEq
    omega
  have same := went.move
  rw [countEq, moveEq] at same
  cases same
  exact ⟨_, round, countEq ▸ went, later, others, postEq, there, zero⟩

section

variable (hole : Hole faults) (users : ∀ other ∈ post, other.addr < userspaceEnd)
  (underway : Underway call byteCount faults ring progress) (stands : Stands progress.iterator pre entry post)
include hole users underway stands

/-- If the next entry decides for itself then so does this one. -/
theorem Underway.shielded_step
    (ih : ∀ later others next, post = later :: others → Underway call byteCount faults ring next →
      Stands next.iterator (pre ++ [entry]) later others → (Shielded call (fuel + 1) byteCount next ↔
        call.Aligned faults ring (spans next.iterator later others) next.remaining next.done)) :
    Shielded call (fuel + 1) byteCount progress ↔
      call.Aligned faults ring (spans progress.iterator entry post) progress.remaining progress.done := by
  obtain ⟨held, counted⟩ := underway.counted
  have holeHere : Hole progress.side.1.faults := underway.faults ▸ hole
  rw [shielded_iff, spans, IovecCall.Aligned, ← underway.guards_iff stands hole]
  apply and_congr_right
  intro guarded
  constructor
  · intro shielded short less takes
    obtain ⟨next, step, went, later, others, postEq, there, zero⟩ :=
      underway.rounds_whole hole stands guarded fuel rfl short less takes
    obtain ⟨calm, clean⟩ := step.calm stands underway.calm guarded
    have aligned := (ih later others next postEq (went.underway underway stands calm clean) there).mp
      (shielded next step)
    rw [(spans_fresh there zero).1, ← postEq, went.remaining, went.done] at aligned
    exact aligned
  · intro aligned next step
    obtain ⟨calm, clean⟩ := step.calm stands underway.calm guarded
    obtain ⟨count, moved, went⟩ := round_again holeHere stands counted underway.wants step calm
    obtain ⟨heldNext, countedNext⟩ := went.counted
    have nextWord : next.remaining < wordSize := by
      have word := underway.wants.word
      rw [went.remaining]
      omega
    rcases went.stands stands underway.wants with ⟨later, others, postEq, there, zero⟩ | ⟨there, spent, less⟩
    · obtain ⟨spansEq, start⟩ := spans_fresh there zero
      rcases went.cut with rfl | ⟨_, spent⟩
      · rw [ih later others next postEq (went.underway underway stands calm clean) there, spansEq, ← postEq,
          went.remaining, went.done]
        obtain ⟨all, less⟩ := went.whole underway.wants
        have moves := call.move_takes_iff holeHere counted (addWord_lt _ _) (Nat.lt_trans less went.wantedShort)
          (by rw [went.move]; exact calm)
        rw [went.move, underway.faults, underway.ring, all] at moves
        rw [all]
        exact aligned went.wantedShort (all ▸ less) (moves.mp ⟨rfl, all ▸ went.goes⟩)
      · have low := users later (by rw [postEq]; exact List.mem_cons_self)
        exact shielded_spent (went.faults ▸ holeHere) spent countedNext there nextWord calm clean
          (.inr (by rw [Progress.place, start]; exact low))
    · exact shielded_spent (went.faults ▸ holeHere) spent countedNext there nextWord calm clean (.inl less)

/-- The loop is shielded exactly when every chunk on its way is guarded. -/
theorem Underway.shielded_iff_aligned : Shielded call (fuel + 1) byteCount progress ↔
      call.Aligned faults ring (spans progress.iterator entry post) progress.remaining progress.done := by
  induction post generalizing progress pre entry with
  | nil =>
    apply underway.shielded_step hole users stands
    intro later others next impossible
    cases impossible
  | cons first rest ih =>
    apply underway.shielded_step hole users stands
    intro later others next same there standsNext
    cases same
    exact ih (fun other member => users other (List.mem_cons_of_mem _ member)) there standsNext

end

end Walk

section Shield

variable {ring : Ringbuffer}

/-- Entries in user memory are always guarded when they are the target of a copy. -/
theorem aligned_users (call : IovecCall) (direct : ∀ faults ring address count done, address < userspaceEnd →
      call.Guards faults ring address count done) (users : ∀ span ∈ list, span.1 < userspaceEnd) (wanted done : Nat) :
    call.Aligned faults ring list wanted done := by
  induction list generalizing wanted done with
  | nil => trivial
  | cons span rest ih =>
    refine ⟨direct _ _ _ _ _ (users span List.mem_cons_self), fun _ _ _ => ?_⟩
    exact ih (fun other member => users other (List.mem_cons_of_mem _ member)) _ _

/-- A copy out of a kernel buffer is never guarded when bytes are wanted. -/
theorem not_aligned_kernel (kernel : userspaceEnd ≤ buffer) (word : buffer < wordSize) {wanted : Nat}
    (short : wanted < 2 ^ 63) (some : 0 < wanted) (enough : wanted ≤ (list.map Prod.snd).sum)
    (small : ∀ span ∈ list, span.2 < wordSize) :
    ¬ (IovecCall.copyFromBuffer buffer).Aligned faults ring list wanted 0 := by
  have high : ¬ addWord buffer 0 < userspaceEnd := by
    rw [addWord_zero word]
    omega
  induction list with
  | nil => simp only [List.map_nil, List.sum_nil] at enough; omega
  | cons span rest ih =>
    obtain ⟨start, len⟩ := span
    rintro ⟨guarded, later⟩
    rcases guarded with empty | low
    · have lenWord : len < wordSize := small (start, len) List.mem_cons_self
      obtain ⟨_, _, least⟩ := minLong_both lenWord (Nat.lt_trans short (by decide)) (by rw [empty]; decide)
      have zero : len = 0 := by omega
      subst zero
      simp only [List.map_cons, List.sum_cons, Nat.zero_add] at enough
      have none : ∀ address, Resident faults address 0 := fun _ _ inside => absurd inside (Nat.not_lt_zero _)
      exact ih enough (fun other member => small other (List.mem_cons_of_mem _ member))
        (later short some ⟨none _, none _⟩)
    · exact high low

end Shield

/-- The first chunk starts in user memory, a copy from a kernel buffer copies nothing, and no pass through the ring
starts right behind user memory. -/
def IovecCall.Shield (faults : Nat → Bool) (ring : Ringbuffer) (byteCount : Nat) (iterator : IovecIterator)
    (entry : Iovec) (post : List Iovec) (call : IovecCall) : Prop :=
  match call with
  | .copyToBuffer _ | .memset _ =>
    firstChunk byteCount iterator entry = 0 ∨ addWord entry.addr iterator.currentOffset < userspaceEnd
  | .copyFromBuffer _ => minLong byteCount iterator.left = 0 ∧ entry.len - iterator.currentOffset < 2 ^ 63
  | .writeToRingbuffer | .peekFromRingbuffer _ =>
    call.Aligned faults ring (spans iterator entry post) (minLong byteCount iterator.left) 0

section Calls

variable {call : IovecCall} {byteCount : Nat} {iterator : IovecIterator} {side : Machine × Ringbuffer}
  {queue : List Byte} {pre post : List Iovec} {entry : Iovec}

theorem aligned_iff_shield (stands : Stands iterator pre entry post)
    (users : ∀ other ∈ post, other.addr < userspaceEnd) (word : byteCount < wordSize)
    (kernel : ∀ buffer, call = .copyFromBuffer buffer → userspaceEnd ≤ buffer ∧ buffer < wordSize)
    (faults : Nat → Bool) (ring : Ringbuffer) :
    call.Aligned faults ring (spans iterator entry post) (minLong byteCount iterator.left) 0 ↔
      call.Shield faults ring byteCount iterator entry post := by
  have left : iterator.left < wordSize := Nat.lt_of_le_of_lt (Nat.sub_le _ _) stands.bound
  have len := (stands.words entry stands.mem).2
  have behind : ∀ span ∈ post.map (fun other => (other.addr, other.len)), span.1 < userspaceEnd := by
    intro span member
    obtain ⟨other, inside, rfl⟩ := List.mem_map.mp member
    exact users other inside
  have lenWord : entry.len - iterator.currentOffset < wordSize := by omega
  cases call with
  | copyToBuffer buffer =>
    exact and_iff_left fun _ _ _ => aligned_users (.copyToBuffer buffer) (fun _ _ _ _ _ low => Or.inr low) behind _ _
  | memset byte =>
    exact and_iff_left fun _ _ _ => aligned_users (.memset byte) (fun _ _ _ _ _ low => Or.inr low) behind _ _
  | writeToRingbuffer | peekFromRingbuffer => rfl
  | copyFromBuffer buffer =>
    obtain ⟨high, bufferWord⟩ := kernel buffer rfl
    have wantedWord := minLong_lt word left
    constructor
    · intro aligned
      rcases aligned.1 with empty | low
      · obtain ⟨lenShort, short, _⟩ := minLong_both lenWord wantedWord (by rw [empty]; decide)
        refine ⟨?_, lenShort⟩
        by_contra some
        obtain ⟨_, _, least⟩ := minLong_both word left short
        refine not_aligned_kernel high bufferWord short (Nat.pos_of_ne_zero some) ?_ ?_ aligned
        · have total := stands.total
          have most := stands.high
          rw [stands.list, lens_append, lens_cons] at most
          have rest : ((post.map fun other => (other.addr, other.len)).map Prod.snd).sum = lens post := by
            rw [List.map_map]
            rfl
          have leftEq : iterator.left = iterator.totalSize - iterator.totalOffset := rfl
          rw [spans, List.map_cons, List.sum_cons, rest]
          omega
        · intro span member
          rcases List.mem_cons.mp member with rfl | later
          · exact lenWord
          · obtain ⟨other, inside, rfl⟩ := List.mem_map.mp later
            exact (stands.words other (by rw [stands.list]; simp [inside])).2
      · rw [addWord_zero bufferWord] at low
        omega
    · rintro ⟨none, lenShort⟩
      rw [none]
      refine ⟨.inl ?_, fun _ less => absurd less (Nat.not_lt_zero _)⟩
      rw [minLong_small lenShort (by decide), Nat.min_zero]

/-- A read leaves the machine of the peek that it starts with. -/
theorem read_peeks (ran : iovecIteratorReadFromRingbuffer fuel byteCount iterator side = some progress) :
    ∃ peeked, (IovecCall.peekFromRingbuffer 0).transfer.run fuel byteCount iterator side = some peeked ∧
      progress.side.1 = peeked.side.1 := by
  rw [iovecIteratorReadFromRingbuffer, Option.bind_eq_bind, Option.bind_eq_some_iff] at ran
  obtain ⟨⟨⟨machine, ring⟩, there, remaining, done, failed⟩, peekRan, ran⟩ := ran
  rw [IovecCall.transfer]
  refine ⟨_, peekRan, ?_⟩
  cases failed with
  | true | false =>
    cases ran
    rfl

theorem Underway.initial (stands : Stands iterator pre entry post) (ready : call.Ready side queue)
    (word : byteCount < wordSize) (calm : side.1.panicked = false) (clean : Protected side.1.accesses) :
    Underway call byteCount side.1.faults side.2 ⟨side, iterator, minLong byteCount iterator.left, 0, false⟩ := by
  refine ⟨Wants.initial stands word, rfl, ?_, ⟨_, ready.counted⟩, calm, clean⟩
  cases call with
  | copyToBuffer | copyFromBuffer | memset | peekFromRingbuffer => rfl
  | writeToRingbuffer =>
    simp only [IovecCall.ringAfter, addWord_zero ready.2.bound]

/-- A call protects its accesses exactly when its chunks are shielded, and a read accesses what a peek does. -/
theorem protects_iff (hole : Hole side.1.faults) (stands : Stands iterator pre entry post)
    (checked : iovecUserCheck iterator.iovec = true) (ready : call.Ready side queue) (word : byteCount < wordSize)
    (kernel : ∀ buffer, call = .copyFromBuffer buffer → userspaceEnd ≤ buffer ∧ buffer < wordSize)
    (calm : side.1.panicked = false) (clean : Protected side.1.accesses) :
    (Protects call byteCount iterator side ↔ call.Shield side.1.faults side.2 byteCount iterator entry post) ∧
      ∀ fuel progress, iovecIteratorReadFromRingbuffer fuel byteCount iterator side = some progress →
        ∃ peeked, (IovecCall.peekFromRingbuffer 0).transfer.run fuel byteCount iterator side = some peeked ∧
          progress.side.1 = peeked.side.1 := by
  have users : ∀ other ∈ post, other.addr < userspaceEnd := by
    intro other member
    rw [iovecUserCheck, List.all_eq_true] at checked
    exact decide_eq_true_eq.mp (checked other (by rw [stands.list]; simp [member]))
  have underway := Underway.initial stands ready word calm clean
  rw [← aligned_iff_shield stands users word kernel]
  refine ⟨⟨?_, ?_⟩, ?_⟩
  · intro protects
    have shielded := protects 1
    rw [stands.left_eq] at shielded
    exact (underway.shielded_iff_aligned hole users stands).mp shielded
  · intro aligned fuel
    rw [stands.left_eq]
    cases fuel with
    | zero =>
      rw [shielded_iff]
      refine ⟨(underway.guards_iff stands hole).mpr aligned.1, ?_⟩
      intro next step
      obtain ⟨_, _, _, _, ⟨_, stop, _⟩ | ⟨_, stop, _⟩ | ⟨_, _, _, skipped, _⟩⟩ := round_cases step
      · cases stop
      · cases stop
      · simp [iovecIteratorSkip, untilLoop] at skipped
    | succ fuel => exact (underway.shielded_iff_aligned hole users stands).mpr aligned
  · intro fuel progress ran
    exact read_peeks ran

end Calls

/-- A copy from a kernel buffer into user memory is not protected. -/
theorem bufferCopy_unprotected : Hole gappedMachine.faults ∧ fourBytes.Sound ∧ iovecUserCheck fourBytes.iovec = true ∧
      ¬ Protects (.copyFromBuffer kernelspaceStart) 4 fourBytes (gappedMachine, ⟨1, 0, 0, kernelspaceStart⟩) := by
  refine ⟨gappedMachine_hole, ⟨_, _, _, fourBytes_stands⟩, by decide, ?_⟩
  intro protects
  have first := protects 1 _ .refl ⟨0x1000, 4⟩ rfl
  have log : ((IovecCall.copyFromBuffer kernelspaceStart).transfer.move
      (gappedMachine, ⟨1, 0, 0, kernelspaceStart⟩) 0x1000 4 0).1.1.accesses = [.memcpy 0x1000 kernelspaceStart 4] := rfl
  have access := first (.memcpy 0x1000 kernelspaceStart 4) (log ▸ List.mem_singleton_self _)
  revert access
  decide

theorem bufferFill_protected :
    Protects (.copyToBuffer kernelspaceStart) 4 fourBytes (gappedMachine, ⟨1, 0, 0, kernelspaceStart⟩) := by
  have ready : (IovecCall.copyToBuffer kernelspaceStart).Ready (gappedMachine, ⟨1, 0, 0, kernelspaceStart⟩) [] :=
    trivial
  refine (protects_iff gappedMachine_hole fourBytes_stands (by decide) ready (by decide) ?_ rfl ?_).1.mpr ?_
  · intro buffer impossible
    cases impossible
  · intro access member
    cases member
  · exact .inr (by decide)

end Astral.Io
