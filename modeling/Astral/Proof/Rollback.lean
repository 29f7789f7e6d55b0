import Astral.Proof.IovecCall

namespace Astral.Io

open Library

variable {start iterator : IovecIterator} {fuel count byteCount : Nat} {after side : Machine × Ringbuffer}
  {again : Bool}

/-- The loop ends with a failed copy and the kernel goes on. -/
def Faulted (call : IovecCall) (byteCount : Nat) (iterator : IovecIterator) (side : Machine × Ringbuffer) : Prop :=
  ∃ bound, ∀ fuel, bound ≤ fuel → ∃ progress, call.transfer.loop fuel byteCount iterator side = some progress ∧
    progress.failed = true ∧ progress.side.1.panicked = false

/-- The call returns its error with the iterator and the ring buffer as they were. -/
def PutsBack (call : IovecCall) (byteCount : Nat) (iterator : IovecIterator) (side : Machine × Ringbuffer)
    (queue : List Byte) : Prop :=
  ∃ bound, ∀ fuel, bound ≤ fuel → ∃ progress, call.transfer.run fuel byteCount iterator side = some progress ∧
    progress.failed = true ∧ progress.iterator = iterator ∧
    (call = .writeToRingbuffer → Holds progress.side.2 progress.side.1.memory queue)

/-- Where the first chunk runs over the free space, it repeats what the queue holds there. -/
def Harmless (side : Machine × Ringbuffer) (queue : List Byte) (address count : Nat) : Prop :=
  ∀ index, side.2.size - queue.length ≤ index → index < count → index < side.2.size - side.2.write % side.2.size →
    Resident side.1.faults address (index + 1) →
      queue[index - (side.2.size - queue.length)]? = some (side.1.memory (addWord address index))

section Forward

/-- The iterator is in the same list and has not gone back. -/
structure Onward (start iterator : IovecIterator) : Prop where
  iovec : iterator.iovec = start.iovec
  totalSize : iterator.totalSize = start.totalSize
  current : start.current ≤ iterator.current

theorem skipRound_onward (onward : Onward start iterator) (entry : Iovec) (count : Nat) :
    Onward start (iterator.skipRound entry count) := by
  refine ⟨?_, ?_, ?_⟩
  · rw [skipRound_iovec, onward.iovec]
  · rw [skipRound_totalSize, onward.totalSize]
  · have current := onward.current
    simp only [IovecIterator.skipRound]
    split
    · exact Nat.le_succ_of_le current
    · exact current

/-- A skip is a sequence of rounds. -/
theorem iovecIteratorSkip_keeps (keeps : IovecIterator → Prop) {after : IovecIterator}
    (preserved : ∀ iterator entry skipped, keeps iterator → iterator.iovec[iterator.current]? = some entry →
      keeps (iterator.skipRound entry skipped)) (kept : keeps iterator)
    (ran : iovecIteratorSkip fuel iterator count = some after) : keeps after := by
  rw [iovecIteratorSkip, Option.map_eq_some_iff] at ran
  obtain ⟨⟨last, left⟩, looped, rfl⟩ := ran
  refine untilLoop_keeps (fun state => keeps state.1) ?_ kept looped
  rintro ⟨iterator, count⟩ again ⟨next, rest⟩ kept moved
  simp only [Option.bind_eq_bind, Option.bind_eq_some_iff] at moved
  obtain ⟨entry, reads, moved⟩ := moved
  cases moved
  exact preserved _ _ _ kept reads

theorem round_onward {Side : Type} {transfer : Transfer Side} {progress next : Progress Side}
    (onward : Onward start progress.iterator) (ran : transfer.round fuel byteCount progress = some (again, next)) :
    Onward start next.iterator := by
  obtain ⟨entry, outcome, reads, _, ⟨_, _, same⟩ | ⟨_, _, same⟩ | ⟨_, _, _, skipped, _⟩⟩ := round_cases ran
  · rw [same]
    exact onward
  · rw [same]
    exact onward
  · exact iovecIteratorSkip_keeps (Onward start) (fun _ _ _ onward _ => skipRound_onward onward _ _) onward skipped

end Forward

section Set

variable {there restored : IovecIterator} {pre post : List Iovec} {entry : Iovec}

/-- In the entry where the search starts both offsets are the same. -/
def Searching (start : Nat) (iterator : IovecIterator) : Prop :=
  start < iterator.current ∨ iterator.current = start ∧ iterator.totalOffset = iterator.currentOffset

theorem skipRound_searching {start : Nat} (searching : Searching start iterator) (entry : Iovec) (count : Nat) :
    Searching start (iterator.skipRound entry count) := by
  simp only [IovecIterator.skipRound, Searching] at *
  split
  · simp only
    omega
  · rcases searching with later | ⟨here, same⟩
    · exact .inl later
    · exact .inr ⟨here, by simp only [same]⟩

theorem iovecIteratorSkip_succ (reads : iterator.iovec[iterator.current]? = some entry) (fuel : Nat) {part rest : Nat}
    (partEq : minLong (subWord entry.len iterator.currentOffset) count = part) (restEq : subWord count part = rest) :
    iovecIteratorSkip (fuel + 1) iterator count =
      if rest = 0 ∨ (iterator.skipRound entry part).finished = true then some (iterator.skipRound entry part)
      else iovecIteratorSkip fuel (iterator.skipRound entry part) rest := by
  unfold iovecIteratorSkip
  rw [untilLoop]
  simp only [reads, partEq, restEq, Option.bind_eq_bind, Option.bind_some, Option.pure_def]
  by_cases stop : rest = 0 ∨ (iterator.skipRound entry part).finished = true
  · have leaves : (decide (rest = 0) || (iterator.skipRound entry part).finished) = true := by simpa using stop
    rw [if_pos stop]
    simp only [leaves, Bool.not_true, Bool.false_eq_true, ↓reduceIte, Option.map_some]
  · have goes : (decide (rest = 0) || (iterator.skipRound entry part).finished) = false := by simpa using stop
    rw [if_neg stop]
    simp only [goes, Bool.not_false, ↓reduceIte]

/-- The search starts at the beginning of an entry. -/
theorem Stands.rewound (stands : Stands iterator pre entry post) (onward : Onward iterator there)
    (here : there.current = iterator.current) (none : lens pre = 0) :
    Stands { there with currentOffset := 0, totalOffset := 0 } pre entry post := by
  have size := onward.totalSize
  constructor
  · simp only [onward.iovec, stands.list]
  · simp only [here, stands.current]
  · exact Nat.zero_le _
  · simp only [none]
  · exact Nat.zero_le _
  · simp only [size, onward.iovec]
    exact stands.high
  · simp only [size]
    exact stands.bound
  · simp only [onward.iovec]
    exact stands.words

/-- The search for a place finds it in the first entry that is not empty, and does not jump over it. -/
structure Findable (iterator : IovecIterator) (pre : List Iovec) (entry : Iovec) : Prop where
  front : lens pre = 0
  fits : 2 ^ 63 ≤ iterator.currentOffset ∨ entry.len < 2 ^ 63
  inside : iterator.currentOffset < entry.len ∨ iterator.left = 0

/-- The search finds such a place if it starts in its entry. -/
theorem set_restores (stands : Stands iterator pre entry post) (findable : Findable iterator pre entry)
    (onward : Onward iterator there) (here : there.current = iterator.current) (fuel : Nat) :
    iovecIteratorSet (fuel + 1) there iterator.totalOffset = some iterator := by
  obtain ⟨front, fits, inside⟩ := findable
  have total := stands.total
  have offset := stands.offset
  have word := (stands.words entry stands.mem).2
  rw [front, Nat.zero_add] at total
  have least : minLong entry.len iterator.currentOffset = iterator.currentOffset := by
    rcases fits with large | short
    · rw [minLong_large (by omega) large, Nat.min_eq_right offset]
    · rw [minLong_small short (by omega), Nat.min_eq_right offset]
  have zero : addWord 0 iterator.currentOffset = iterator.currentOffset := by
    rw [addWord_eq (by omega), Nat.zero_add]
  rw [iovecIteratorSet, total, (stands.rewound onward here front).skip least (by omega) fuel]
  congr 1
  have left : iterator.left = iterator.totalSize - iterator.totalOffset := rfl
  have low := stands.low
  have size := onward.totalSize
  simp only [IovecIterator.skipRound, zero]
  rw [if_neg (by omega)]
  obtain ⟨iovec, totalSize, _⟩ := onward
  cases iterator
  simp only at *
  rw [iovec, here, totalSize, total]

/-- The search finds no other place. -/
theorem set_restored (stands : Stands iterator pre entry post) (onward : Onward iterator there)
    (ran : iovecIteratorSet fuel there iterator.totalOffset = some iterator) :
    there.current = iterator.current ∧ Findable iterator pre entry := by
  have total := stands.total
  have offset := stands.offset
  have word := (stands.words entry stands.mem).2
  have behind := onward.current
  rw [iovecIteratorSet] at ran
  have first : Searching there.current { there with currentOffset := 0, totalOffset := 0 } := .inr ⟨rfl, rfl⟩
  have searching := iovecIteratorSkip_keeps (Searching there.current)
    (fun _ _ _ searching _ => skipRound_searching searching _ _) first ran
  obtain ⟨here, same⟩ : iterator.current = there.current ∧ iterator.totalOffset = iterator.currentOffset := by
    rcases searching with later | facts
    · omega
    · exact facts
  have front : lens pre = 0 := by omega
  refine ⟨here.symm, ?_⟩
  by_contra lost
  have jumps : ¬ ((2 ^ 63 ≤ iterator.currentOffset ∨ entry.len < 2 ^ 63) ∧
      (iterator.currentOffset < entry.len ∨ iterator.left = 0)) := fun both => lost ⟨front, both.1, both.2⟩
  have rewound := stands.rewound onward here.symm front
  cases fuel with
  | zero => simp [iovecIteratorSkip, untilLoop] at ran
  | succ fuel =>
    -- The first round jumps to the end of the entry, and from there no round comes back.
    have least : minLong (subWord entry.len 0) iterator.totalOffset = entry.len := by
      rw [subWord_eq (Nat.zero_le _) word, Nat.sub_zero, same]
      by_cases mixed : 2 ^ 63 ≤ iterator.currentOffset ∨ entry.len < 2 ^ 63
      · rw [show iterator.currentOffset = entry.len by omega]
        unfold minLong
        split <;> rfl
      · rw [minLong_left (by omega) word (by omega)]
    rw [iovecIteratorSkip_succ rewound.reads fuel least rfl] at ran
    have zero : addWord 0 entry.len = entry.len := by
      rw [addWord_eq (by omega), Nat.zero_add]
    by_cases whole : there.totalSize = entry.len
    · have round : IovecIterator.skipRound { there with currentOffset := 0, totalOffset := 0 } entry entry.len =
          { there with currentOffset := entry.len, totalOffset := entry.len } := by
        simp [IovecIterator.skipRound, zero, whole]
      rw [round, if_pos (.inr (by simp [IovecIterator.finished, whole]))] at ran
      have offset := congrArg (Option.map IovecIterator.currentOffset) ran
      simp only [Option.map_some, Option.some.injEq] at offset
      have left : iterator.left = iterator.totalSize - iterator.totalOffset := rfl
      have size := onward.totalSize
      omega
    · have round : IovecIterator.skipRound { there with currentOffset := 0, totalOffset := 0 } entry entry.len =
          { there with current := there.current + 1, currentOffset := 0, totalOffset := entry.len } := by
        simp [IovecIterator.skipRound, zero, whole]
      rw [round] at ran
      have later : there.current < iterator.current := by
        split at ran
        · rw [← Option.some.inj ran]
          exact Nat.lt_succ_self _
        · exact iovecIteratorSkip_keeps (fun after => there.current < after.current)
            (fun _ _ _ later _ => Nat.lt_of_lt_of_le later (skipRound_onward ⟨rfl, rfl, Nat.le_refl _⟩ _ _).current)
            (Nat.lt_succ_self _) ran
      omega

end Set

section Loop

variable {call : IovecCall} {queue : List Byte} {pre post : List Iovec} {entry : Iovec}
  {final : Progress (Machine × Ringbuffer)}

/-- A loop that ends with a calm kernel has had one in every round. -/
theorem untilLoop_calm {inner : Nat} {progress : Progress (Machine × Ringbuffer)}
    (ran : (if again then untilLoop (call.transfer.round inner byteCount) fuel progress else some progress) = some final)
    (calm : final.side.1.panicked = false) : progress.side.1.panicked = false := by
  apply eq_false_of_ne_true
  intro stopped
  rw [loop_stopped call stopped ran] at calm
  cases calm

variable (ran : call.transfer.loop fuel byteCount iterator side = some final)
include ran

theorem loop_onward : Onward iterator final.iterator :=
  untilLoop_keeps (fun progress => Onward iterator progress.iterator)
    (fun _ _ _ onward moved => round_onward onward moved) ⟨rfl, rfl, Nat.le_refl _⟩ ran

theorem first_calm (stands : Stands iterator pre entry post) (calm : final.side.1.panicked = false) :
    (call.transfer.move side (addWord entry.addr iterator.currentOffset)
      (firstChunk byteCount iterator entry) 0).1.1.panicked = false := by
  rw [Transfer.loop, stands.left_eq] at ran
  obtain ⟨again, next, fuel, moved, ran⟩ := untilLoop_first ran
  obtain ⟨read, outcome, reads, move, _⟩ := round_cases moved
  rw [stands.reads] at reads
  cases reads
  simp only [stands.remaining_eq] at move
  rw [← firstChunk] at move
  rw [move]
  exact untilLoop_calm ran calm

/-- If the first move does not fail then a later entry does. -/
theorem failed_later (hole : Hole side.1.faults) (stands : Stands iterator pre entry post)
    (ready : call.Ready side queue) (word : byteCount < wordSize) (failed : final.failed = true)
    (calm : final.side.1.panicked = false)
    (passes : (call.transfer.move side (addWord entry.addr iterator.currentOffset)
      (firstChunk byteCount iterator entry) 0).2 ≠ none) : iterator.current < final.iterator.current := by
  rw [Transfer.loop, stands.left_eq] at ran
  rcases fuel with _ | inner
  · cases ran
  obtain ⟨again, next, fuel, moved, ran⟩ := untilLoop_first ran
  have calmNext := untilLoop_calm ran calm
  cases again with
  | false =>
    cases ran
    obtain ⟨read, outcome, reads, move, ⟨none, _⟩ | ⟨_, _, same⟩ | ⟨_, _, _, _, same, _⟩⟩ := round_cases moved
    · rw [stands.reads] at reads
      cases reads
      simp only [stands.remaining_eq] at move
      rw [← firstChunk] at move
      rw [move] at passes
      exact absurd none passes
    all_goals
      rw [same] at failed
      cases failed
  | true =>
    obtain ⟨count, some, went⟩ := round_again hole stands ready.counted (Wants.initial stands word) moved calmNext
    rcases went.stands stands (Wants.initial stands word) with ⟨later, others, _, there, _⟩ | ⟨there, spent, short⟩
    · have onward := untilLoop_keeps (fun progress => Onward next.iterator progress.iterator)
        (fun _ _ _ onward moved => round_onward onward moved) ⟨rfl, rfl, Nat.le_refl _⟩ ran
      have current := onward.current
      rw [there.current, List.length_append, List.length_singleton, ← stands.current] at current
      exact current
    · obtain ⟨held, counted⟩ := went.counted
      obtain ⟨stops, _, nothing⟩ := spent.move counted (addWord entry.addr next.iterator.currentOffset) short
      rw [← untilLoop_left ran (round_empty there _ byteCount stops nothing), went.failed] at failed
      cases failed

end Loop

section Contents

variable {machine : Machine} {ring : Ringbuffer} {queue : List Byte} {address : Nat}

/-- The passes of a write touch only the slots that they go through, even if they fail. -/
theorem passes_untouched (placed : ring.Placed machine.faults) (word : address < wordSize) (within : count ≤ ring.size)
    {start other : Nat} (untouched : ∀ index < count, other ≠ ring.data + slot ring.size start index) :
    (ringbufferPasses Machine.usercopyPossiblyFromUser machine ring start address count).1.memory other =
      machine.memory other := by
  have small := placed.size_small
  have fits := placed.fits
  have limit := wordSize_eq
  obtain ⟨offset, first, firstEq, counted⟩ := placed.firstPass start within
  have one : (machine.usercopyPossiblyFromUser (addWord ring.data (start % ring.size)) address first).1.memory other =
      machine.memory other := by
    rw [possiblyFromUser_eq, protect_memory]
    apply copyBytes_untouched (addWord_lt _ _) word
    intro index inside _
    rw [addWord_assoc, placed.address (by omega), ← slot_low (by omega)]
    exact untouched index (by omega)
  rcases ringbufferPasses_cases Machine.usercopyPossiblyFromUser machine ring start address counted with
    ⟨middle, error, ran, passes⟩ | ⟨middle, ran, ⟨_, passes⟩ | ⟨more, passes⟩⟩
  · rw [passes, ← one, ran]
  · rw [passes, ← one, ran]
  · rw [passes, ← one, ran, possiblyFromUser_eq, protect_memory]
    apply copyBytes_untouched (by omega) (addWord_lt _ _)
    intro index inside _
    rw [subWord_eq (by omega) (by omega)] at inside
    have later := untouched (first + index) (by omega)
    rw [slot_high (by omega) (by omega)] at later
    rw [placed.address (by omega)]
    intro same
    apply later
    omega

section

variable (holds : Holds ring machine.memory queue)
include holds

/-- The slots of the queue come behind the free ones. -/
theorem Holds.behind (index : Nat) :
    slot ring.size ring.read index = slot ring.size ring.write (ring.size - queue.length + index) := by
  rw [holds.count, slot_wrap holds.room]

/-- A write that fits into the free space keeps the queue, even if it fails. -/
theorem passes_fitting (placed : ring.Placed machine.faults) (fits : count ≤ ring.size - queue.length)
    (word : address < wordSize) : Holds ring
      (ringbufferPasses Machine.usercopyPossiblyFromUser machine ring ring.write address count).1.memory queue := by
  have room := holds.room
  refine ⟨holds.count, room, holds.bound, ?_⟩
  intro index inside
  rw [passes_untouched placed word (by omega)]
  · exact holds.bytes index inside
  · intro other within same
    rw [holds.behind] at same
    have equal := slot_inj (by omega) (by omega) (Nat.add_left_cancel same)
    omega

/-- A write that overruns the ring keeps the queue exactly when it is harmless. -/
theorem copy_overrun (hole : Hole machine.faults) (placed : ring.Placed machine.faults) (user : address < userspaceEnd)
    (huge : 2 ^ 63 ≤ count) (bound : count < wordSize) :
    Holds ring (copyBytes machine.faults count (addWord ring.data (ring.write % ring.size)) address machine.memory).1
        queue ↔ Harmless (machine, ring) queue address count := by
  have positive := placed.positive
  have fits := placed.fits
  have kernel := placed.kernel
  have room := holds.room
  have userEnd : userspaceEnd = 0x0000800000000000 := rfl
  have kernelStart : kernelspaceStart = 0xffff800000000000 := rfl
  have limit := wordSize_eq
  have offset : ring.write % ring.size < ring.size := Nat.mod_lt _ positive
  obtain ⟨start, startEq⟩ : ∃ start, start = addWord ring.data (ring.write % ring.size) := ⟨_, rfl⟩
  have startValue := startEq
  rw [placed.address offset] at startValue
  rw [← startEq]
  -- Only the slots up to the end of the ring are overrun, and only by bytes that are read before the first fault.
  have reached : ∀ index < ring.size - ring.write % ring.size, Resident machine.faults address (index + 1) →
      (copyBytes machine.faults count start address machine.memory).1 (start + index) =
        machine.memory (addWord address index) := by
    intro index inside resident
    have target : Resident machine.faults start (index + 1) := startEq ▸ placed.resident.part (by omega)
    have apart : Apart start (index + 1) address (index + 1) := by
      intro one first two second
      rw [addWord_eq (by omega), addWord_eq (by omega)]
      omega
    rw [← addWord_eq (show start + index < wordSize by omega)]
    exact copyBytes_reached (by omega) (by omega) _ (by omega) (by omega) target resident apart
  have kept : ∀ index < ring.size, (∀ other, ring.write % ring.size + other = index →
      ¬ Resident machine.faults address (other + 1)) →
      (copyBytes machine.faults count start address machine.memory).1 (ring.data + index) =
        machine.memory (ring.data + index) := by
    intro index inside missed
    apply copyBytes_untouched (by omega) (by omega)
    intro other within resident same
    have stays := hole.stays user resident
    apply missed other ?_ resident
    unfold addWord at same
    rw [limit] at same
    omega
  constructor
  · intro held index low inside less resident
    obtain ⟨place, rfl⟩ := Nat.exists_eq_add_of_le low
    simp only at low inside less resident ⊢
    have byte := held.bytes place (by omega)
    rw [holds.behind, slot_low (by omega), ← Nat.add_assoc, ← startValue, reached _ less resident] at byte
    rw [Nat.add_sub_cancel_left, List.getElem?_eq_getElem (by omega), byte]
  · intro harmless
    refine ⟨holds.count, room, holds.bound, ?_⟩
    intro index inside
    have before := holds.bytes index inside
    rw [holds.behind] at before ⊢
    obtain ⟨place, placeEq⟩ : ∃ place, place = ring.size - queue.length + index := ⟨_, rfl⟩
    rw [← placeEq] at before ⊢
    rcases Nat.lt_or_ge (ring.write % ring.size + place) ring.size with low | high
    · rw [slot_low low] at before ⊢
      by_cases resident : Resident machine.faults address (place + 1)
      · have same := harmless place (by simp only; omega) (by omega) (by simp only; omega) resident
        rw [← Nat.add_assoc, ← startValue, reached _ (by omega) resident]
        simp only [placeEq, Nat.add_sub_cancel_left, List.getElem?_eq_getElem inside, Option.some.injEq] at same
        rw [same, placeEq]
      · rw [kept _ low, before]
        intro other same
        rwa [show other = place by omega]
    · rw [slot_high high (by omega)] at before ⊢
      rw [kept _ (by omega), before]
      omega

end

/-- A failed first write keeps the queue exactly when it is harmless. -/
theorem writeMove_undone (hole : Hole side.1.faults) (placed : side.2.Placed side.1.faults)
    (holds : Holds side.2 side.1.memory queue) (word : address < wordSize) (bound : count < wordSize)
    (calm : after.1.panicked = false)
    (failed : iovecIteratorWriteToRingbuffer.move side address count 0 = (after, none)) :
    Holds after.2 after.1.memory queue ↔ Harmless side queue address (minLong count side.2.freespace) := by
  have small := placed.size_small
  have free := holds.freespace placed
  have offset : side.2.write % side.2.size < side.2.size := Nat.mod_lt _ placed.positive
  obtain ⟨few, fewEq⟩ : ∃ few, minLong count side.2.freespace = few := ⟨_, rfl⟩
  have limits := minLong_limit bound (show side.2.freespace < 2 ^ 63 by omega)
  rw [fewEq, free] at limits
  obtain ⟨fewBound, fewSmall⟩ := limits
  obtain ⟨passes, passesEq⟩ : ∃ passes, ringbufferPasses Machine.usercopyPossiblyFromUser side.1 side.2 side.2.write
    address few = passes := ⟨_, rfl⟩
  rw [fewEq]
  rw [writeMove_eq fewEq passesEq] at failed
  have same : passes.1 = after.1 := by
    split at failed
    · split at failed <;> cases failed
      rfl
    · cases failed
      rfl
  have clear := ringbufferPasses_none_iff checked_fromUser placed word (by rw [passesEq, same]; exact calm) hole
    fewBound (by intro short; have := fewSmall short; omega)
  rw [passesEq] at clear
  have faulted : passes.2 ≠ none := by
    intro passed
    rw [if_pos passed, if_neg] at failed
    · cases failed
    · intro impossible
      have last : ringbufferUserCopyFailed = 2 ^ 64 - 1 := rfl
      exact hole.not_resident word (show 2 ^ 63 ≤ few by omega) (clear.mp passed)
  have removed := ringbufferRemove_done holds small (show 0 < 2 ^ 63 by decide)
  rw [if_neg faulted, removed] at failed
  cases failed
  rcases Nat.lt_or_ge few (2 ^ 63) with short | huge
  · refine iff_of_true ?_ ?_
    · have fitting := passes_fitting holds placed (show few ≤ side.2.size - queue.length by omega) word
      rw [passesEq] at fitting
      exact fitting
    · intro index low inside
      omega
  · have whole : minLong few (subWord side.2.size (side.2.write % side.2.size)) = few := by
      rw [subWord_eq (by omega) (by omega)]
      exact minLong_left huge fewBound (by omega)
    rcases ringbufferPasses_cases Machine.usercopyPossiblyFromUser side.1 side.2 side.2.write address whole with
      ⟨middle, error, ran, passed⟩ | ⟨middle, _, ⟨_, passed⟩ | ⟨more, _⟩⟩
    · rw [passesEq] at passed
      rw [passed]
      rw [possiblyFromUser_eq] at ran
      have user := protect_user _ _ _ _ _ (by rw [ran]; simp)
      have memory := congrArg (fun result => result.1.memory) ran
      simp only [protect_memory] at memory
      rw [← memory]
      exact copy_overrun holds hole placed user huge fewBound
    · rw [passesEq] at passed
      rw [passed] at faulted
      exact absurd rfl faulted
    · exact absurd rfl more

end Contents

/-- A first copy that fails is the end of the loop. -/
theorem loop_failed {call : IovecCall} {pre post : List Iovec} {entry : Iovec} (stands : Stands iterator pre entry post)
    (failed : call.transfer.move side (addWord entry.addr iterator.currentOffset) (firstChunk byteCount iterator entry)
      0 = (after, none)) (fuel : Nat) : call.transfer.loop (fuel + 1) byteCount iterator side =
      some ⟨after, iterator, minLong byteCount iterator.left, 0, true⟩ := by
  rw [Transfer.loop, stands.left_eq]
  refine untilLoop_leave ?_ fuel
  exact round_failed stands (fuel + 1) byteCount failed

/-- A failed loop is followed by the search for the old place. -/
theorem run_failed {Side : Type} {transfer : Transfer Side} {side : Side} {progress : Progress Side}
    (ran : transfer.loop fuel byteCount iterator side = some progress) (failed : progress.failed = true) :
    transfer.run fuel byteCount iterator side = (iovecIteratorSet fuel progress.iterator iterator.totalOffset).map
        fun restored => { progress with iterator := restored } := by
  rw [Transfer.run, ran, Option.bind_eq_bind, Option.bind_some, if_pos failed]
  cases iovecIteratorSet fuel progress.iterator iterator.totalOffset <;> rfl

/-- A failed copy is put back exactly when it is the first one, its place can be found again, and a failed write has not
overrun the queue. -/
theorem putsBack_iff {call : IovecCall} {byteCount : Nat} {iterator : IovecIterator} {side : Machine × Ringbuffer}
    {queue : List Byte} {pre post : List Iovec} {entry : Iovec} (hole : Hole side.1.faults)
    (stands : Stands iterator pre entry post) (ready : call.Ready side queue) (word : byteCount < wordSize)
    (faulted : Faulted call byteCount iterator side) : PutsBack call byteCount iterator side queue ↔
      ¬ call.Clear side.1.faults side.2 (addWord entry.addr iterator.currentOffset)
          (firstChunk byteCount iterator entry) ∧ Findable iterator pre entry ∧
        (call = .writeToRingbuffer → Harmless side queue (addWord entry.addr iterator.currentOffset)
          (minLong (firstChunk byteCount iterator entry) side.2.freespace)) := by
  have left : iterator.left < wordSize := Nat.lt_of_le_of_lt (Nat.sub_le _ _) stands.bound
  have len := (stands.words entry stands.mem).2
  have bound : firstChunk byteCount iterator entry < wordSize := minLong_lt (by omega) (minLong_lt word left)
  obtain ⟨least, returns⟩ := faulted
  obtain ⟨_, ran, _, calm⟩ := returns least (Nat.le_refl _)
  generalize moveEq : call.transfer.move side (addWord entry.addr iterator.currentOffset)
    (firstChunk byteCount iterator entry) 0 = result
  obtain ⟨after, outcome⟩ := result
  have firstCalm := first_calm ran stands calm
  have clear := call.move_none_iff hole ready (addWord_lt _ _) bound firstCalm
  rw [moveEq] at clear firstCalm
  -- Whoever finds the old place again has started in its entry.
  have found : PutsBack call byteCount iterator side queue →
      ∃ fuel progress, call.transfer.loop (fuel + 1) byteCount iterator side = some progress ∧
        progress.failed = true ∧ progress.side.1.panicked = false ∧ progress.iterator.current = iterator.current ∧
        Findable iterator pre entry ∧
        (call = .writeToRingbuffer → Holds progress.side.2 progress.side.1.memory queue) := by
    rintro ⟨enough, back⟩
    obtain ⟨progress, looped, failed, calm⟩ := returns (max enough least + 1) (by omega)
    obtain ⟨final, restored, _, same, held⟩ := back (max enough least + 1) (by omega)
    rw [run_failed looped failed, Option.map_eq_some_iff] at restored
    obtain ⟨restored, setRan, rfl⟩ := restored
    simp only at same held
    rw [same] at setRan
    obtain ⟨here, findable⟩ := set_restored stands (loop_onward looped) setRan
    exact ⟨_, progress, looped, failed, calm, here, findable, held⟩
  cases outcome with
  | some moved =>
    constructor
    · intro back
      obtain ⟨fuel, progress, looped, failed, calm, here, _⟩ := found back
      have later := failed_later looped hole stands ready word failed calm (by rw [moveEq]; simp)
      omega
    · rintro ⟨faulty, _⟩
      cases clear.mpr faulty
  | none =>
    have undone : call = .writeToRingbuffer → (Holds after.2 after.1.memory queue ↔
        Harmless side queue (addWord entry.addr iterator.currentOffset)
          (minLong (firstChunk byteCount iterator entry) side.2.freespace)) := by
      rintro rfl
      exact writeMove_undone hole ready.1 ready.2 (addWord_lt _ _) bound firstCalm moveEq
    constructor
    · intro back
      obtain ⟨fuel, progress, looped, _, _, _, findable, held⟩ := found back
      rw [loop_failed stands moveEq] at looped
      cases looped
      exact ⟨clear.mp rfl, findable, fun isWrite => (undone isWrite).mp (held isWrite)⟩
    · rintro ⟨_, findable, harmless⟩
      refine ⟨1, fun fuel enough => ?_⟩
      obtain ⟨inner, rfl⟩ := Nat.exists_eq_succ_of_ne_zero (show fuel ≠ 0 by omega)
      refine ⟨⟨after, iterator, minLong byteCount iterator.left, 0, true⟩, ?_, rfl, rfl,
        fun isWrite => (undone isWrite).mpr (harmless isWrite)⟩
      rw [Nat.succ_eq_add_one, run_failed (loop_failed stands moveEq inner) rfl,
        set_restores stands findable ⟨rfl, rfl, Nat.le_refl _⟩ rfl inner, Option.map_some]

/-- Besides the gap, one page of user memory faults. -/
def tornMachine : Machine :=
  ⟨fun address => BitVec.ofNat 8 address,
    fun address => (userspaceEnd ≤ address && address < kernelspaceStart) || (0x2000 ≤ address && address < 0x3000),
    [], false⟩

theorem tornMachine_hole : Hole tornMachine.faults := by
  intro address low high
  simp [tornMachine, low, high]

/-- The second of two entries lies in the page that faults. -/
def tornEntries : IovecIterator := iovecIteratorInit [⟨0x1000, 4⟩, ⟨0x2000, 4⟩]

def someRing : Ringbuffer := ⟨1, 0, 0, kernelspaceStart⟩

theorem tornEntries_stands : Stands tornEntries [] ⟨0x1000, 4⟩ [⟨0x2000, 4⟩] := by
  constructor <;> decide

theorem tornEntries_faulted : Faulted (.copyToBuffer kernelspaceStart) 8 tornEntries (tornMachine, someRing) := by
  refine ⟨2, fun fuel enough => ?_⟩
  obtain ⟨rest, rfl⟩ := Nat.exists_eq_add_of_le enough
  rw [Nat.add_comm]
  have looped : ((IovecCall.copyToBuffer kernelspaceStart).transfer.loop (rest + 2) 8 tornEntries
      (tornMachine, someRing)).map (fun progress => (progress.failed, progress.side.1.panicked)) =
        some (true, false) := rfl
  obtain ⟨progress, ran, same⟩ := Option.map_eq_some_iff.mp looped
  exact ⟨progress, ran, congrArg Prod.fst same, congrArg Prod.snd same⟩

/-- A fault in the second entry leaves the iterator there. -/
theorem tornEntries_stuck : Hole tornMachine.faults ∧ tornEntries.Sound ∧
      Faulted (.copyToBuffer kernelspaceStart) 8 tornEntries (tornMachine, someRing) ∧
      ¬ PutsBack (.copyToBuffer kernelspaceStart) 8 tornEntries (tornMachine, someRing) [] := by
  refine ⟨tornMachine_hole, ⟨_, _, _, tornEntries_stands⟩, tornEntries_faulted, ?_⟩
  rintro ⟨enough, back⟩
  obtain ⟨progress, ran, _, same, _⟩ := back (enough + 2) (by omega)
  have stuck : ((IovecCall.copyToBuffer kernelspaceStart).transfer.run (enough + 2) 8 tornEntries
      (tornMachine, someRing)).map (fun progress => progress.iterator.current) = some 1 := rfl
  rw [ran, Option.map_some, same] at stuck
  cases stuck

/-- The first of two entries lies in the page that faults. -/
def brokenEntries : IovecIterator := iovecIteratorInit [⟨0x2000, 4⟩, ⟨0x1000, 4⟩]

theorem brokenEntries_putsBack :
    PutsBack (.copyToBuffer kernelspaceStart) 8 brokenEntries (tornMachine, someRing) [] := by
  have stands : Stands brokenEntries [] ⟨0x2000, 4⟩ [⟨0x1000, 4⟩] := by
    constructor <;> decide
  have faulted : Faulted (.copyToBuffer kernelspaceStart) 8 brokenEntries (tornMachine, someRing) := by
    refine ⟨1, fun fuel enough => ?_⟩
    obtain ⟨rest, rfl⟩ := Nat.exists_eq_succ_of_ne_zero (show fuel ≠ 0 by omega)
    exact ⟨_, loop_failed stands rfl rest, rfl, rfl⟩
  have ready : (IovecCall.copyToBuffer kernelspaceStart).Ready (tornMachine, someRing) [] := trivial
  refine (putsBack_iff tornMachine_hole stands ready (by decide) faulted).mpr ⟨?_, ⟨rfl, ?_, ?_⟩, ?_⟩
  · intro clear
    have first := clear.1 0 (by decide)
    revert first
    decide
  · exact .inr (by decide)
  · exact .inl (by decide)
  · intro impossible
    cases impossible

end Astral.Io
