import Astral.Proof.Ringbuffer

namespace Astral.Io

open Library

variable {memory : Nat → Byte} {ring : Ringbuffer} {queue : List Byte} {turn : Turn}

/-- A call asks for this operation of the queue. -/
def RingCall.op (memory : Nat → Byte) : RingCall → QueueOp Byte
  | .write buffer count => .write (fetch memory buffer count)
  | .read _ count => .read count
  | .peek _ offset count => .peek offset count
  | .truncate count => .truncate count
  | .remove count => .remove count

/-- The count is a positive long, and the buffer is in the kernel and has room for the moved bytes. -/
def RingCall.Proper (faults : Nat → Bool) (ring : Ringbuffer) (moved : Nat) : RingCall → Prop
  | .write buffer count | .read buffer count | .peek buffer _ count =>
    count < 2 ^ 63 ∧ kernelspaceStart ≤ buffer ∧ Buffered faults ring buffer moved
  | .truncate count | .remove count => count < 2 ^ 63

/-- The bytes that a call hands out are in its buffer. -/
def RingCall.Delivers (memory : Nat → Byte) (output : List Byte) : RingCall → Prop
  | .read buffer _ | .peek buffer _ _ => fetch memory buffer output.length = output
  | _ => True

instance (memory : Nat → Byte) (output : List Byte) (call : RingCall) : Decidable (call.Delivers memory output) :=
  match call with
  | .read _ _ | .peek _ _ _ => inferInstanceAs (Decidable (_ = _))
  | .write _ _ | .truncate _ | .remove _ => inferInstanceAs (Decidable True)

/-- A peek inside the queue is exact up to the amount of free space, or when both starts show the same bytes. -/
def RingCall.Straight (capacity : Nat) (queue : List Byte) : RingCall → Prop
  | .peek _ offset count =>
    queue.length ≤ offset ∨ offset ≤ capacity - queue.length ∨
      (queue.drop (capacity - queue.length)).take (min count (queue.length - offset)) =
        (queue.drop offset).take (min count (queue.length - offset))
  | _ => True

/-- A turn is a call in a machine that everybody else may have changed. -/
structure Turn where
  machine : Machine
  call : RingCall

namespace Turn

/-- Only the ring itself changes its data. -/
def enter (turn : Turn) (ring : Ringbuffer) (memory : Nat → Byte) : Machine :=
  { turn.machine with
    memory := fun address =>
      if ring.data ≤ address ∧ address < ring.data + ring.size then memory address else turn.machine.memory address }

def served (turn : Turn) (ring : Ringbuffer) (queue : List Byte) : Served Byte :=
  (turn.call.op turn.machine.memory).serve ring.size queue

def Proper (turn : Turn) (ring : Ringbuffer) (queue : List Byte) : Prop :=
  ring.Placed turn.machine.faults ∧ turn.call.Proper turn.machine.faults ring (turn.served ring queue).count

/-- This many bytes enter the queue. -/
def accepted (turn : Turn) (ring : Ringbuffer) (queue : List Byte) : Nat :=
  match turn.call with
  | .write _ _ => (turn.served ring queue).count
  | _ => 0

end Turn

def Admissible (ring : Ringbuffer) : List Byte → List Turn → Prop
  | _, [] => True
  | queue, turn :: rest => turn.Proper ring queue ∧ Admissible ring (turn.served ring queue).queue rest

def totalAccepted (ring : Ringbuffer) : List Byte → List Turn → Nat
  | _, [] => 0
  | queue, turn :: rest => turn.accepted ring queue + totalAccepted ring (turn.served ring queue).queue rest

def AllStraight (ring : Ringbuffer) : List Byte → List Turn → Prop
  | _, [] => True
  | queue, turn :: rest =>
    turn.call.Straight ring.size queue ∧ AllStraight ring (turn.served ring queue).queue rest

/-- Every call of the sequence answers as the queue does and leaves the ring holding the queue. -/
def BehavesAsQueue : Ringbuffer → (Nat → Byte) → List Byte → List Turn → Prop
  | _, _, _, [] => True
  | ring, memory, queue, turn :: rest =>
    let ran := turn.call.exec (turn.enter ring memory) ring
    let served := turn.served ring queue
    ran.2.2 = served.count ∧ turn.call.Delivers ran.1.memory served.output ∧
      ran.1.panicked = turn.machine.panicked ∧ Holds ran.2.1 ran.1.memory served.queue ∧
      BehavesAsQueue ran.2.1 ran.1.memory served.queue rest

theorem Turn.enter_ring {index : Nat} (inside : index < ring.size) :
    (turn.enter ring memory).memory (ring.data + index) = memory (ring.data + index) := by
  simp only [enter]
  rw [if_pos (by omega)]

theorem fetch_enter {buffer count : Nat} (placed : ring.Placed turn.machine.faults)
    (apart : Apart ring.data ring.size buffer count) :
    fetch (turn.enter ring memory).memory buffer count = fetch turn.machine.memory buffer count := by
  apply List.ext_getElem
  · rw [fetch_length, fetch_length]
  · intro index one two
    rw [fetch_length] at one
    rw [fetch_get, fetch_get]
    simp only [Turn.enter]
    rw [if_neg]
    intro inside
    apply apart (addWord buffer index - ring.data) (by omega) index one
    rw [placed.address (by omega)]
    omega

theorem Holds.enter (positive : 0 < ring.size) (holds : Holds ring memory queue) :
    Holds ring (turn.enter ring memory).memory queue := by
  refine ⟨holds.count, holds.room, holds.bound, ?_⟩
  intro index inside
  rw [Turn.enter_ring (slot_lt positive _ _)]
  exact holds.bytes index inside

/-- One call keeps the ring a queue and answers as the queue unless it is a crooked peek. -/
structure Answered (turn : Turn) (ring : Ringbuffer) (queue : List Byte) (after : Machine) (moved : Ringbuffer) :
    Prop where
  size : moved.size = ring.size
  data : moved.data = ring.data
  write : moved.write ≤ ring.write + turn.accepted ring queue
  panicked : after.panicked = turn.machine.panicked
  holds : Holds moved after.memory (turn.served ring queue).queue
  delivers : turn.call.Delivers after.memory (turn.served ring queue).output ↔ turn.call.Straight ring.size queue

theorem Turn.exec_answered (holds : Holds ring memory queue) (proper : turn.Proper ring queue)
    (bound : ring.write + turn.accepted ring queue < wordSize) :
    ∃ after moved, turn.call.exec (turn.enter ring memory) ring = (after, moved, (turn.served ring queue).count) ∧
      Answered turn ring queue after moved := by
  obtain ⟨placed, fine⟩ := proper
  have placed : ring.Placed (turn.enter ring memory).faults := placed
  have inside : Holds ring (turn.enter ring memory).memory queue := holds.enter placed.positive
  have small := placed.size_small
  obtain ⟨machine, call⟩ := turn
  cases call with
  | write buffer count =>
    obtain ⟨short, _, buffered⟩ := fine
    have few : (Turn.served ⟨machine, .write buffer count⟩ ring queue).count =
        min count (ring.size - queue.length) := by
      simp only [Turn.served, RingCall.op, QueueOp.serve, fetch_length]
    have queued : (Turn.served ⟨machine, .write buffer count⟩ ring queue).queue =
        queue ++ fetch machine.memory buffer (Turn.served ⟨machine, .write buffer count⟩ ring queue).count := by
      simp only [Turn.served, RingCall.op, QueueOp.serve, fetch_length]
      rw [fetch_take _ _ (by omega)]
    obtain ⟨after, ran, moved, kept⟩ := ringbufferWrite_done placed inside buffered short few bound
    rw [fetch_enter placed buffered.apart] at kept
    exact ⟨after, _, ran, rfl, rfl, Nat.le_refl _, moved.panicked, queued ▸ kept, Iff.rfl⟩
  | read buffer count =>
    obtain ⟨short, _, buffered⟩ := fine
    obtain ⟨after, ran, panicked, bytes, kept⟩ := ringbufferRead_done placed inside buffered short rfl
    refine ⟨after, _, ran, rfl, rfl, Nat.le_add_right _ _, panicked, kept, ?_⟩
    refine iff_of_true ?_ trivial
    simp only [RingCall.Delivers, Turn.served, RingCall.op, QueueOp.serve, List.length_take]
    rw [Nat.min_eq_left (Nat.min_le_right _ _)]
    exact bytes
  | peek buffer offset count =>
    obtain ⟨short, _, buffered⟩ := fine
    have few : (Turn.served ⟨machine, .peek buffer offset count⟩ ring queue).count =
        min count (queue.length - offset) := rfl
    obtain ⟨after, ran, panicked, bytes, kept⟩ := ringbufferPeek_done placed inside buffered short few
    refine ⟨after, ring, ?_, rfl, rfl, Nat.le_add_right _ _, panicked, kept, ?_⟩
    · rw [RingCall.exec, ran]
    · rw [few] at bytes
      simp only [RingCall.Delivers, Turn.served, RingCall.op, QueueOp.serve, List.length_take, List.length_drop,
        RingCall.Straight]
      rw [Nat.min_eq_left (Nat.min_le_right _ _), bytes]
      rcases Nat.lt_or_ge offset queue.length with low | high
      · rcases Nat.le_total offset (ring.size - queue.length) with near | far
        · rw [Nat.min_eq_left near]
          exact iff_of_true rfl (.inr (.inl near))
        · rw [Nat.min_eq_right far]
          constructor
          · intro same
            exact .inr (.inr same)
          · rintro (above | near | same)
            · omega
            · rw [Nat.le_antisymm near far]
            · exact same
      · rw [Nat.sub_eq_zero_of_le high, Nat.min_zero, List.take_zero, List.take_zero]
        exact iff_of_true rfl (.inl high)
  | truncate count =>
    have ran := ringbufferTruncate_done inside small fine
    refine ⟨_, _, Prod.ext rfl ran, rfl, rfl, ?_, rfl, inside.drop (Nat.min_le_right _ _), Iff.rfl⟩
    exact Nat.le_add_right _ _
  | remove count =>
    have ran := ringbufferRemove_done inside small fine
    refine ⟨_, _, Prod.ext rfl ran, rfl, rfl, ?_, rfl, inside.take (Nat.min_le_right _ _), Iff.rfl⟩
    exact Nat.le_trans (Nat.sub_le _ _) (Nat.le_add_right _ _)

section Geometry

variable {ring moved : Ringbuffer} (size : moved.size = ring.size) (data : moved.data = ring.data)
include size

theorem Turn.served_congr (turn : Turn) (queue : List Byte) : turn.served moved queue = turn.served ring queue := by
  rw [Turn.served, Turn.served, size]

theorem Turn.accepted_congr (turn : Turn) (queue : List Byte) :
    turn.accepted moved queue = turn.accepted ring queue := by
  unfold Turn.accepted
  rw [Turn.served_congr size]

theorem totalAccepted_congr (queue : List Byte) (turns : List Turn) :
    totalAccepted moved queue turns = totalAccepted ring queue turns := by
  induction turns generalizing queue with
  | nil => rfl
  | cons turn rest ih => rw [totalAccepted, totalAccepted, Turn.accepted_congr size, Turn.served_congr size, ih]

theorem allStraight_congr (queue : List Byte) (turns : List Turn) :
    AllStraight moved queue turns ↔ AllStraight ring queue turns := by
  induction turns generalizing queue with
  | nil => exact Iff.rfl
  | cons turn rest ih => rw [AllStraight, AllStraight, size, Turn.served_congr size, ih]

include data

theorem Turn.proper_congr (proper : turn.Proper ring queue) : turn.Proper moved queue := by
  obtain ⟨placed, fine⟩ := proper
  rw [Turn.Proper, Turn.served_congr size]
  constructor
  · exact ⟨size ▸ placed.positive, data ▸ placed.kernel, size ▸ data ▸ placed.fits, size ▸ data ▸ placed.resident⟩
  · have same : ∀ buffer count, Buffered turn.machine.faults ring buffer count →
        Buffered turn.machine.faults moved buffer count :=
      fun buffer count buffered => ⟨buffered.word, buffered.resident, size ▸ data ▸ buffered.apart⟩
    generalize turn.call = call at *
    cases call with
    | write | read | peek => exact ⟨fine.1, fine.2.1, same _ _ fine.2.2⟩
    | truncate | remove => exact fine

theorem admissible_congr {turns : List Turn} (admissible : Admissible ring queue turns) :
    Admissible moved queue turns := by
  induction turns generalizing queue with
  | nil => trivial
  | cons turn rest ih =>
    refine ⟨Turn.proper_congr size data admissible.1, ?_⟩
    rw [Turn.served_congr size]
    exact ih admissible.2

end Geometry

/-- A ring buffer is a bounded queue in exactly the runs whose peeks are all straight. -/
theorem behavesAsQueue_iff {ring : Ringbuffer} {memory : Nat → Byte} {queue : List Byte} {turns : List Turn}
    (holds : Holds ring memory queue) (admissible : Admissible ring queue turns)
    (total : ring.write + totalAccepted ring queue turns < wordSize) :
    BehavesAsQueue ring memory queue turns ↔ AllStraight ring queue turns := by
  induction turns generalizing ring memory queue with
  | nil => exact Iff.rfl
  | cons turn rest ih =>
    rw [totalAccepted] at total
    obtain ⟨after, moved, ran, answered⟩ := Turn.exec_answered holds admissible.1 (by omega)
    have write := answered.write
    have later := ih answered.holds (admissible_congr answered.size answered.data admissible.2)
      (by rw [totalAccepted_congr answered.size]; omega)
    rw [allStraight_congr answered.size] at later
    rw [BehavesAsQueue, AllStraight, ran, ← later, ← answered.delivers]
    constructor
    · intro behaves
      exact ⟨behaves.2.1, behaves.2.2.2.2⟩
    · intro straight
      exact ⟨rfl, straight.1, answered.panicked, answered.holds, straight.2⟩

/-- The memory shows the low bits of every address. -/
def plainMachine : Machine := ⟨fun address => BitVec.ofNat 8 address, fun _ => false, [], false⟩

/-- Two bytes are written and the second one is peeked at. -/
def secondByte : List Turn :=
  [⟨plainMachine, .write (kernelspaceStart + 0x1000) 2⟩, ⟨plainMachine, .peek (kernelspaceStart + 0x1000) 1 1⟩]

theorem secondByte_admissible {size : Nat} (two : 2 ≤ size) (page : size ≤ 0x1000) :
    Admissible (freshRing size) [] secondByte ∧
      (freshRing size).write + totalAccepted (freshRing size) [] secondByte < wordSize := by
  have limit := wordSize_eq
  have start : kernelspaceStart = 0xffff800000000000 := rfl
  have data : (freshRing size).data = kernelspaceStart := rfl
  have length : (freshRing size).size = size := rfl
  have placed : (freshRing size).Placed plainMachine.faults := ⟨by omega, by omega, by omega, fun _ _ => rfl⟩
  have buffered : ∀ count ≤ 2, Buffered plainMachine.faults (freshRing size) (kernelspaceStart + 0x1000) count := by
    intro count few
    refine ⟨by omega, fun _ _ => rfl, ?_⟩
    intro index inside other within
    rw [data, addWord_eq (by omega), addWord_eq (by omega)]
    omega
  have accepted : totalAccepted (freshRing size) [] secondByte ≤ 2 := by
    simp only [secondByte, totalAccepted, Turn.accepted, Turn.served, RingCall.op, QueueOp.serve, fetch_length]
    omega
  refine ⟨⟨⟨placed, by decide, by omega, buffered _ ?_⟩, ⟨placed, by decide, by omega, buffered _ ?_⟩, trivial⟩, ?_⟩
  · simp only [Turn.served, RingCall.op, QueueOp.serve, fetch_length]
    omega
  · simp only [Turn.served, RingCall.op, QueueOp.serve]
    omega
  · have write : (freshRing size).write = 0 := rfl
    omega

/-- In a full ring of two bytes the peek at the second byte shows the first one. -/
theorem fullRing_crooked : Admissible (freshRing 2) [] secondByte ∧
      (freshRing 2).write + totalAccepted (freshRing 2) [] secondByte < wordSize ∧
      ¬ BehavesAsQueue (freshRing 2) plainMachine.memory [] secondByte := by
  obtain ⟨admissible, bound⟩ := secondByte_admissible (Nat.le_refl 2) (by decide)
  refine ⟨admissible, bound, ?_⟩
  intro behaves
  have delivered := behaves.2.2.2.2.2.1
  exact absurd delivered (by decide)

theorem roomyRing_behaves : BehavesAsQueue (freshRing 4) plainMachine.memory [] secondByte := by
  obtain ⟨admissible, bound⟩ := secondByte_admissible (show 2 ≤ 4 by decide) (by decide)
  refine (behavesAsQueue_iff (freshRing_holds _ _) admissible bound).mpr ⟨trivial, ?_, trivial⟩
  exact .inr (.inl (by decide))

end Astral.Io
