import Astral.Construction.Ringbuffer
import Astral.Library.Cyclic
import Astral.Library.Queue
import Astral.Proof.Usercopy

namespace Astral.Io

open Library

variable {memory : Nat → Byte} {buffer count index few start offset : Nat} {faults : Nat → Bool} {ring : Ringbuffer}
  {passes : Machine × Option Errno}

/-- The bytes of a region are read in order. -/
def fetch (memory : Nat → Byte) (buffer count : Nat) : List Byte :=
  (List.range count).map fun index => memory (addWord buffer index)

@[simp] theorem fetch_length (memory : Nat → Byte) (buffer count : Nat) : (fetch memory buffer count).length = count := by
  simp [fetch]

theorem fetch_get (inside : index < (fetch memory buffer count).length) :
    (fetch memory buffer count)[index] = memory (addWord buffer index) := by
  simp [fetch]

theorem fetch_take (memory : Nat → Byte) (buffer : Nat) (less : few ≤ count) :
    (fetch memory buffer count).take few = fetch memory buffer few := by
  apply List.ext_getElem
  · simp only [List.length_take, fetch_length]
    omega
  · intro index one two
    rw [List.getElem_take, fetch_get, fetch_get]

/-- The data of a ring buffer is a mapped region of the kernel. -/
structure Ringbuffer.Placed (faults : Nat → Bool) (ring : Ringbuffer) : Prop where
  positive : 0 < ring.size
  kernel : kernelspaceStart ≤ ring.data
  fits : ring.data + ring.size ≤ wordSize
  resident : Resident faults ring.data ring.size

/-- The ring buffer holds a queue of bytes between its two counters. -/
structure Holds (ring : Ringbuffer) (memory : Nat → Byte) (queue : List Byte) : Prop where
  count : ring.write = ring.read + queue.length
  room : queue.length ≤ ring.size
  bound : ring.write < wordSize
  bytes : ∀ index (inside : index < queue.length), memory (ring.data + slot ring.size ring.read index) = queue[index]

/-- The counters of a ring buffer say that it holds this many bytes. -/
structure Ringbuffer.Counts (ring : Ringbuffer) (held : Nat) : Prop where
  datacount : ring.datacount = held
  room : held ≤ ring.size
  word : ring.read < wordSize

section Counts

variable {queue : List Byte} {held : Nat}

theorem Ringbuffer.Placed.size_small (placed : ring.Placed faults) : ring.size < 2 ^ 63 := by
  have fits := placed.fits
  have kernel := placed.kernel
  have start : kernelspaceStart = 0xffff800000000000 := rfl
  have limit := wordSize_eq
  omega

theorem Ringbuffer.Counts.freespace (placed : ring.Placed faults) (counts : ring.Counts held) :
    ring.freespace = ring.size - held := by
  have small := placed.size_small
  have limit := wordSize_eq
  rw [Ringbuffer.freespace, counts.datacount, subWord_eq counts.room (by omega)]

/-- Bytes that fit are counted. -/
theorem Ringbuffer.Counts.write (placed : ring.Placed faults) (counts : ring.Counts held)
    (fits : few ≤ ring.size - held) : Ringbuffer.Counts { ring with write := addWord ring.write few } (held + few) := by
  have small := placed.size_small
  have room := counts.room
  have word := counts.word
  have limit := wordSize_eq
  have total := counts.datacount
  refine ⟨?_, by simp only; omega, word⟩
  unfold Ringbuffer.datacount subWord addWord at *
  simp only [limit] at *
  omega

variable (holds : Holds ring memory queue)
include holds

theorem Holds.counts : ring.Counts queue.length := by
  have count := holds.count
  have bound := holds.bound
  refine ⟨?_, holds.room, by omega⟩
  rw [Ringbuffer.datacount, subWord_eq (by omega) bound]
  omega

theorem Holds.datacount : ring.datacount = queue.length := holds.counts.datacount

theorem Holds.freespace (placed : ring.Placed faults) :
    ring.freespace = ring.size - queue.length := holds.counts.freespace placed

end Counts

/-- One end of a transfer is in the ring and the other one in the buffer. -/
def pick (into : Bool) (inRing inBuffer : Nat) : Nat := if into then inRing else inBuffer

/-- A copy between the ring and the buffer has one direction. -/
def Copies (into : Bool) (copy : Machine → (slot buffer size : Nat) → Machine × Option Errno) : Prop :=
  ∀ machine inRing buffer size, Copyable machine.faults inRing buffer size →
    ∃ after, copy machine inRing buffer size = (after, none) ∧
      Moved machine after size (fun index => pick into (addWord inRing index) (addWord buffer index))
        fun index => pick into (addWord buffer index) (addWord inRing index)

theorem copies_into : Copies true Machine.usercopyPossiblyFromUser :=
  fun _ _ _ _ copyable => possiblyFromUser_done copyable

theorem copies_read : Copies false fun machine inRing buffer => machine.usercopyPossiblyFromUser buffer inRing :=
  fun _ _ _ _ copyable => possiblyFromUser_done copyable.swap

theorem copies_peek : Copies false fun machine inRing buffer => machine.usercopyPossiblyToUser buffer inRing :=
  fun _ _ _ _ copyable => possiblyToUser_done copyable.swap

/-- The buffer of a call is mapped and does not touch the data of the ring. -/
structure Buffered (faults : Nat → Bool) (ring : Ringbuffer) (buffer count : Nat) : Prop where
  word : buffer < wordSize
  resident : Resident faults buffer count
  apart : Apart ring.data ring.size buffer count

theorem Ringbuffer.Placed.address (placed : ring.Placed faults) (inside : index < ring.size) :
    addWord ring.data index = ring.data + index := by
  have fits := placed.fits
  exact addWord_eq (by omega)

/-- How many bytes the first pass moves. -/
theorem Ringbuffer.Placed.firstPass (placed : ring.Placed faults) (start : Nat) (within : count ≤ ring.size) :
    start % ring.size < ring.size ∧ ∃ first, first = min count (ring.size - start % ring.size) ∧
      minLong count (subWord ring.size (start % ring.size)) = first := by
  have small := placed.size_small
  have limit := wordSize_eq
  have offset := Nat.mod_lt start placed.positive
  refine ⟨offset, _, rfl, ?_⟩
  rw [subWord_eq (by omega) (by omega), minLong_small (by omega) (by omega)]

/-- Both passes together move the bytes through consecutive slots. -/
theorem ringbufferPasses_done {into : Bool} {copy : Machine → (slot buffer size : Nat) → Machine × Option Errno}
    (copies : Copies into copy) {machine : Machine} (start : Nat) (placed : ring.Placed machine.faults)
    (within : count ≤ ring.size) (buffered : Buffered machine.faults ring buffer count) :
    ∃ after, ringbufferPasses copy machine ring start buffer count = (after, none) ∧ Moved machine after count
        (fun index => pick into (ring.data + slot ring.size start index) (addWord buffer index))
        fun index => pick into (addWord buffer index) (ring.data + slot ring.size start index) := by
  have positive := placed.positive
  have small := placed.size_small
  have fits := placed.fits
  have limit := wordSize_eq
  obtain ⟨offset, first, firstEq, counted⟩ := placed.firstPass start within
  have copyable : Copyable machine.faults (addWord ring.data (start % ring.size)) buffer first := by
    constructor
    · exact addWord_lt _ _
    · exact buffered.word
    · omega
    · exact placed.resident.part (by omega)
    · exact buffered.resident.less (by omega)
    · rw [← addWord_zero buffered.word]
      exact buffered.apart.part (by omega) (by omega)
  obtain ⟨middle, ran, one⟩ := copies machine _ _ _ copyable
  have low : ∀ index < first,
      ring.data + slot ring.size start index = addWord (addWord ring.data (start % ring.size)) index := by
    intro index inside
    rw [addWord_assoc, slot_low (by omega), placed.address (by omega)]
  have moved : Moved machine middle first
      (fun index => pick into (ring.data + slot ring.size start index) (addWord buffer index))
      (fun index => pick into (addWord buffer index) (ring.data + slot ring.size start index)) := by
    apply one.congr
    all_goals
      intro index inside
      rw [low index inside]
  unfold ringbufferPasses
  simp only [counted]
  rw [ran]
  by_cases all : first = count
  · rw [← all]
    exact ⟨middle, by simp, moved⟩
  · have rest : subWord count first = count - first := subWord_eq (by omega) (by omega)
    have second : Copyable middle.faults ring.data (addWord buffer first) (count - first) := by
      rw [one.faults]
      constructor
      · omega
      · exact addWord_lt _ _
      · omega
      · exact placed.resident.less (by omega)
      · exact buffered.resident.part (by omega)
      · rw [← addWord_zero (show ring.data < wordSize by omega)]
        exact buffered.apart.part (by omega) (by omega)
    obtain ⟨after, ran', two⟩ := copies middle _ _ _ second
    have high : ∀ index < count - first,
        ring.data + slot ring.size start (first + index) = addWord ring.data index := by
      intro index inside
      rw [slot_high (by omega) (by omega), placed.address (by omega)]
      omega
    refine ⟨after, ?_, ?_⟩
    · simp only [all, ↓reduceIte]
      rw [rest, ran']
    · rw [show count = first + (count - first) by omega]
      apply moved.append
      · apply two.congr
        all_goals
          intro index inside
          rw [high index inside, addWord_assoc]
      · intro index inside other within
        have apart := buffered.apart (slot ring.size start (first + index)) (slot_lt positive _ _)
        have apart' := buffered.apart (slot ring.size start other) (slot_lt positive _ _)
        rw [placed.address (slot_lt positive _ _)] at apart apart'
        cases into with
        | false => exact fun same => apart other (by omega) same
        | true => exact fun same => apart' (first + index) (by omega) same.symm
      · intro index inside other within
        cases into with
        | false =>
          simp only [pick, Bool.false_eq_true, ↓reduceIte]
          intro same
          have equal := addWord_inj (by omega) (by omega) same
          omega
        | true =>
          simp only [pick, ↓reduceIte]
          intro same
          have equal := slot_inj (by omega) (by omega) (Nat.add_left_cancel same)
          omega

section Passes

variable {copy : Machine → (slot buffer size : Nat) → Machine × Option Errno} {machine : Machine}

/-- The first pass fails, or it is all, or a second one follows. -/
theorem ringbufferPasses_cases (copy : Machine → (slot buffer size : Nat) → Machine × Option Errno) (machine : Machine)
    (ring : Ringbuffer) (start buffer : Nat) {first : Nat}
    (firstEq : minLong count (subWord ring.size (start % ring.size)) = first) :
    (∃ middle error, copy machine (addWord ring.data (start % ring.size)) buffer first = (middle, some error) ∧
        ringbufferPasses copy machine ring start buffer count = (middle, some error)) ∨
      ∃ middle, copy machine (addWord ring.data (start % ring.size)) buffer first = (middle, none) ∧
        (first = count ∧ ringbufferPasses copy machine ring start buffer count = (middle, none) ∨
          first ≠ count ∧ ringbufferPasses copy machine ring start buffer count =
            copy middle ring.data (addWord buffer first) (subWord count first)) := by
  unfold ringbufferPasses
  simp only [firstEq]
  generalize copy machine (addWord ring.data (start % ring.size)) buffer first = result
  obtain ⟨middle, error⟩ := result
  cases error with
  | some error => exact .inl ⟨middle, error, rfl, rfl⟩
  | none =>
    right
    refine ⟨middle, rfl, ?_⟩
    by_cases all : first = count
    · exact .inl ⟨all, by simp [all]⟩
    · exact .inr ⟨all, by simp [all]⟩

/-- What each copy keeps, the passes keep. -/
theorem ringbufferPasses_keeps (keeps : Machine → Prop)
    (preserved : ∀ machine inRing buffer size, keeps machine → keeps (copy machine inRing buffer size).1)
    (kept : keeps machine) (ring : Ringbuffer) (start buffer count : Nat) :
    keeps (ringbufferPasses copy machine ring start buffer count).1 := by
  have first := preserved machine (addWord ring.data (start % ring.size)) buffer
    (minLong count (subWord ring.size (start % ring.size))) kept
  rcases ringbufferPasses_cases copy machine ring start buffer rfl with
    ⟨middle, error, ran, passes⟩ | ⟨middle, ran, ⟨_, passes⟩ | ⟨_, passes⟩⟩
  · rw [ran] at first
    rwa [passes]
  · rw [ran] at first
    rwa [passes]
  · rw [ran] at first
    rw [passes]
    exact preserved _ _ _ _ first

variable (checked : Checked copy) (placed : ring.Placed machine.faults) (word : buffer < wordSize)
  (calm : (ringbufferPasses copy machine ring start buffer count).1.panicked = false)
include checked placed word calm

/-- The passes are an error exactly when a byte of the buffer faults. -/
theorem ringbufferPasses_clear (within : count ≤ ring.size) :
    (ringbufferPasses copy machine ring start buffer count).2 = none ↔ Resident machine.faults buffer count := by
  have small := placed.size_small
  have fits := placed.fits
  have limit := wordSize_eq
  obtain ⟨offset, first, firstEq, counted⟩ := placed.firstPass start within
  have inRing : Resident machine.faults (addWord ring.data (start % ring.size)) first := placed.resident.part (by omega)
  have clear := checked.clear machine first (addWord_lt ring.data (start % ring.size)) word
  have same := checked.faults machine (addWord ring.data (start % ring.size)) buffer first
  have stopped := checked.stopped
  rcases ringbufferPasses_cases copy machine ring start buffer counted with
    ⟨middle, error, ran, passes⟩ | ⟨middle, ran, ⟨all, passes⟩ | ⟨more, passes⟩⟩
  · rw [passes] at calm ⊢
    rw [ran] at clear
    have faulted := (not_congr (clear calm)).mp (by simp)
    constructor
    · intro impossible
      cases impossible
    · intro resident
      exact absurd ⟨inRing, resident.less (by omega)⟩ faulted
  · rw [passes] at calm ⊢
    rw [ran] at clear
    exact ⟨fun _ => all ▸ ((clear calm).mp rfl).2, fun _ => rfl⟩
  · have calmFirst : middle.panicked = false := by
      by_contra panicked
      have later := stopped middle ring.data (addWord buffer first) (subWord count first)
        (Bool.eq_true_of_not_eq_false panicked)
      rw [passes, later] at calm
      cases calm
    rw [ran] at clear same
    have firstOk := ((clear calmFirst).mp rfl).2
    rw [passes] at calm ⊢
    rw [checked.clear _ _ (by omega) (addWord_lt _ _) calm, same, subWord_eq (by omega) (by omega)]
    constructor
    · rintro ⟨_, second⟩ index inside
      rcases Nat.lt_or_ge index first with early | late
      · exact firstOk index early
      · obtain ⟨later, rfl⟩ := Nat.exists_eq_add_of_le late
        rw [← addWord_assoc]
        exact second later (by omega)
    · intro resident
      exact ⟨placed.resident.less (by omega), resident.part (by omega)⟩

/-- Passes over half the address space fail or stop the kernel. -/
theorem ringbufferPasses_huge (hole : Hole machine.faults) (bound : count < wordSize) (huge : 2 ^ 63 ≤ count) :
    (ringbufferPasses copy machine ring start buffer count).2 ≠ none := by
  have small := placed.size_small
  have offset : start % ring.size < ring.size := Nat.mod_lt _ placed.positive
  have whole : minLong count (subWord ring.size (start % ring.size)) = count := by
    rw [subWord_eq (by omega) (by omega)]
    exact minLong_left huge bound (by omega)
  rcases ringbufferPasses_cases copy machine ring start buffer whole with
    ⟨middle, error, ran, passes⟩ | ⟨middle, ran, ⟨all, passes⟩ | ⟨more, passes⟩⟩
  · rw [passes]
    simp
  · rw [passes] at calm
    have clear := checked.clear machine count (addWord_lt ring.data (start % ring.size)) word
    rw [ran] at clear
    exact absurd ((clear calm).mp rfl).2 (hole.not_resident word huge)
  · exact absurd rfl more

/-- Whatever the count is, the passes are an error exactly when a byte of the buffer faults. -/
theorem ringbufferPasses_none_iff (hole : Hole machine.faults) (bound : count < wordSize)
    (within : count < 2 ^ 63 → count ≤ ring.size) :
    (ringbufferPasses copy machine ring start buffer count).2 = none ↔ Resident machine.faults buffer count := by
  rcases Nat.lt_or_ge count (2 ^ 63) with short | huge
  · exact ringbufferPasses_clear checked placed word calm (within short)
  · exact iff_of_false (ringbufferPasses_huge checked placed word calm hole bound huge) (hole.not_resident word huge)

end Passes

/-- The write moves its counter exactly when its passes are completed. -/
theorem ringbufferWrite_eq (machine : Machine) (ring : Ringbuffer) (buffer : Nat)
    (fewEq : minLong count ring.freespace = few)
    (passesEq : ringbufferPasses Machine.usercopyPossiblyFromUser machine ring ring.write buffer few = passes) :
    ringbufferWrite machine ring buffer count =
      (passes.1, if passes.2 = none then ({ ring with write := addWord ring.write few }, few)
        else (ring, ringbufferUserCopyFailed)) := by
  obtain ⟨after, error⟩ := passes
  simp only [ringbufferWrite, fewEq, passesEq]
  cases error <;> simp

theorem ringbufferPeek_eq (machine : Machine) (ring : Ringbuffer) (buffer : Nat) (inside : offset < ring.datacount)
    (fewEq : minLong count (subWord ring.datacount offset) = few)
    (passesEq : ringbufferPasses (fun machine slot buffer => machine.usercopyPossiblyToUser buffer slot) machine ring
      (addWord ring.read (minLong offset ring.freespace)) buffer few = passes) :
    ringbufferPeek machine ring buffer offset count =
      (passes.1, if passes.2 = none then few else ringbufferUserCopyFailed) := by
  obtain ⟨after, error⟩ := passes
  simp only [ringbufferPeek, fewEq, passesEq]
  rw [if_neg (by omega)]
  cases error <;> simp

section Calls

variable {machine : Machine} {queue : List Byte}

theorem Holds.transport (positive : 0 < ring.size) (holds : Holds ring machine.memory queue)
    (same : ∀ index < ring.size, memory (ring.data + index) = machine.memory (ring.data + index)) :
    Holds ring memory queue := by
  refine ⟨holds.count, holds.room, holds.bound, ?_⟩
  intro index inside
  rw [same _ (slot_lt positive _ _)]
  exact holds.bytes index inside

section

variable {memory : Nat → Byte} (holds : Holds ring memory queue)
include holds

/-- Bytes leave the queue at its front. -/
theorem Holds.drop (within : few ≤ queue.length) :
    Holds { ring with read := ring.read + few } memory (queue.drop few) := by
  have total := holds.count
  have room := holds.room
  constructor
  · simp only [List.length_drop]
    omega
  · simp only [List.length_drop]
    omega
  · exact holds.bound
  · intro index inside
    rw [List.length_drop] at inside
    rw [slot_add, holds.bytes (few + index) (by omega), List.getElem_drop]

/-- Bytes leave the queue at its back. -/
theorem Holds.take (within : few ≤ queue.length) :
    Holds { ring with write := ring.write - few } memory (queue.take (queue.length - few)) := by
  have total := holds.count
  have room := holds.room
  have bound := holds.bound
  constructor
  · simp only [List.length_take]
    omega
  · simp only [List.length_take]
    omega
  · simp only
    omega
  · intro index inside
    rw [List.length_take] at inside
    rw [holds.bytes index (by omega), List.getElem_take]

theorem ringbufferTruncate_done (short : ring.size < 2 ^ 63) (small : count < 2 ^ 63) :
    ringbufferTruncate ring count =
      ({ ring with read := ring.read + min count queue.length }, min count queue.length) := by
  have total := holds.count
  have room := holds.room
  have bound := holds.bound
  rw [ringbufferTruncate, holds.datacount, minLong_small (by omega) small, Nat.min_comm, addWord_eq (by omega)]

theorem ringbufferRemove_done (short : ring.size < 2 ^ 63) (small : count < 2 ^ 63) :
    ringbufferRemove ring count =
      ({ ring with write := ring.write - min count queue.length }, min count queue.length) := by
  have total := holds.count
  have room := holds.room
  have bound := holds.bound
  rw [ringbufferRemove, holds.datacount, minLong_small (by omega) small, Nat.min_comm, subWord_eq (by omega) (by omega)]

end

variable (placed : ring.Placed machine.faults) (holds : Holds ring machine.memory queue)
  (buffered : Buffered machine.faults ring buffer few)
include placed holds buffered

/-- The write appends the bytes that fit. -/
theorem ringbufferWrite_done (small : count < 2 ^ 63) (fewEq : few = min count (ring.size - queue.length))
    (bound : ring.write + few < wordSize) :
    ∃ after, ringbufferWrite machine ring buffer count = (after, { ring with write := ring.write + few }, few) ∧
      Moved machine after few (fun index => ring.data + slot ring.size ring.write index) (addWord buffer) ∧
      Holds { ring with write := ring.write + few } after.memory (queue ++ fetch machine.memory buffer few) := by
  have sizeSmall := placed.size_small
  have room := holds.room
  have total := holds.count
  have counted : minLong count ring.freespace = few := by
    rw [holds.freespace placed, minLong_small small (by omega), fewEq]
  obtain ⟨after, ran, moved⟩ := ringbufferPasses_done copies_into ring.write placed (by omega) buffered
  simp only [pick, ↓reduceIte] at moved
  refine ⟨after, ?_, moved, ?_⟩
  · simp only [ringbufferWrite, counted, ran]
    rw [addWord_eq bound]
  · constructor
    · simp only [List.length_append, fetch_length]
      omega
    · simp only [List.length_append, fetch_length]
      omega
    · exact bound
    · intro index inside
      simp only [List.length_append, fetch_length] at inside
      rcases Nat.lt_or_ge index queue.length with old | new
      · rw [List.getElem_append_left old, ← holds.bytes index old]
        apply moved.kept
        intro other within same
        simp only [total, slot_add] at same
        have equal := slot_inj (by omega) (by omega) (Nat.add_left_cancel same)
        omega
      · obtain ⟨later, rfl⟩ := Nat.exists_eq_add_of_le new
        rw [List.getElem_append_right new, fetch_get, ← slot_add, ← total, moved.bytes later (by omega)]
        congr 2
        omega

/-- Any bytes of the queue are copied out in order. -/
theorem passesOut_done {copy : Machine → (slot buffer size : Nat) → Machine × Option Errno} (copies : Copies false copy)
    (skip : Nat) (within : skip + few ≤ queue.length) :
    ∃ after, ringbufferPasses copy machine ring (ring.read + skip) buffer few = (after, none) ∧
      after.panicked = machine.panicked ∧ fetch after.memory buffer few = (queue.drop skip).take few ∧
      (∀ index < ring.size, after.memory (ring.data + index) = machine.memory (ring.data + index)) := by
  have room := holds.room
  obtain ⟨after, ran, moved⟩ := ringbufferPasses_done copies (ring.read + skip) placed (by omega) buffered
  simp only [pick, Bool.false_eq_true, ↓reduceIte] at moved
  refine ⟨after, ran, moved.panicked, ?_, ?_⟩
  · apply List.ext_getElem
    · simp only [fetch_length, List.length_take, List.length_drop]
      omega
    · intro index one two
      rw [fetch_length] at one
      rw [fetch_get, moved.bytes index one, slot_add, holds.bytes (skip + index) (by omega), List.getElem_take,
        List.getElem_drop]
  · intro index inside
    apply moved.kept
    intro other within
    rw [← placed.address inside]
    exact buffered.apart index inside other within

theorem ringbufferRead_done (small : count < 2 ^ 63) (fewEq : few = min count queue.length) :
    ∃ after, ringbufferRead machine ring buffer count = (after, { ring with read := ring.read + few }, few) ∧
      after.panicked = machine.panicked ∧ fetch after.memory buffer few = queue.take few ∧
      Holds { ring with read := ring.read + few } after.memory (queue.drop few) := by
  have sizeSmall := placed.size_small
  have room := holds.room
  have total := holds.count
  have bound := holds.bound
  have counted : minLong count ring.datacount = few := by
    rw [holds.datacount, minLong_small small (by omega), fewEq]
  obtain ⟨after, ran, panicked, bytes, same⟩ := passesOut_done placed holds buffered copies_read 0 (by omega)
  refine ⟨after, ?_, panicked, bytes, (holds.transport placed.positive same).drop (by omega)⟩
  rw [Nat.add_zero] at ran
  simp only [ringbufferRead, counted, ran]
  rw [addWord_eq (by omega)]

/-- The peek starts at the offset or at the amount of free space if that is less. -/
theorem ringbufferPeek_done (small : count < 2 ^ 63) (fewEq : few = min count (queue.length - offset)) :
    ∃ after, ringbufferPeek machine ring buffer offset count = (after, few) ∧ after.panicked = machine.panicked ∧
      fetch after.memory buffer few = (queue.drop (min offset (ring.size - queue.length))).take few ∧
      Holds ring after.memory queue := by
  have sizeSmall := placed.size_small
  have room := holds.room
  have total := holds.count
  have bound := holds.bound
  rcases Nat.lt_or_ge offset queue.length with inside | outside
  · have start : addWord ring.read (minLong offset ring.freespace) =
        ring.read + min offset (ring.size - queue.length) := by
      rw [holds.freespace placed, minLong_small (by omega) (by omega), addWord_eq (by omega)]
    have counted : minLong count (subWord ring.datacount offset) = few := by
      rw [holds.datacount, subWord_eq (by omega) (by omega), minLong_small small (by omega), fewEq]
    obtain ⟨after, ran, panicked, bytes, same⟩ :=
      passesOut_done placed holds buffered copies_peek (min offset (ring.size - queue.length)) (by omega)
    refine ⟨after, ?_, panicked, bytes, holds.transport placed.positive same⟩
    unfold ringbufferPeek
    rw [if_neg (by rw [holds.datacount]; omega)]
    simp only [start, counted, ran]
  · have none : few = 0 := by omega
    refine ⟨machine, ?_, rfl, ?_, holds⟩
    · unfold ringbufferPeek
      rw [if_pos (by rw [holds.datacount]; omega), none]
    · rw [none]
      rfl

end Calls

/-- A ring buffer with nothing in it lies at the start of the kernel. -/
def freshRing (size : Nat) : Ringbuffer := ⟨size, 0, 0, kernelspaceStart⟩

theorem freshRing_holds (size : Nat) (memory : Nat → Byte) : Holds (freshRing size) memory [] :=
  ⟨rfl, Nat.zero_le _, show 0 < wordSize by decide, fun _ inside => absurd inside (Nat.not_lt_zero _)⟩

end Astral.Io
