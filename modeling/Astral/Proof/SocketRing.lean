import Astral.Construction.Pipe
import Astral.Construction.SocketRing
import Astral.Construction.Tcp
import Astral.Proof.Iovec
import Astral.Proof.Ringbuffer

namespace Astral.Io

open Library

section Represented

variable {machine : Machine} {ring : Ringbuffer} {queue data : List Byte} {buffer offset count few : Nat}
  (placed : ring.Placed machine.faults) (holds : Holds ring machine.memory queue) (small : count < 2 ^ 63)
include placed holds small

section

variable (source : data = fetch machine.memory buffer count) (buffered : Buffered machine.faults ring buffer few)
  (bound : ring.write + few < wordSize)
include source buffered bound

/-- A write to a ring buffer appends the bytes that fit to the list that it holds. -/
theorem write_represents (fewEq : few = min data.length (ring.size - queue.length)) :
    ∃ after moved, ringbufferWrite machine ring buffer count = (after, moved, few) ∧
      Holds moved after.memory (queue ++ data.take few) := by
  rw [source, fetch_length] at fewEq
  obtain ⟨after, ran, _, kept⟩ := ringbufferWrite_done placed holds buffered small fewEq bound
  refine ⟨after, _, ran, ?_⟩
  rw [source, fetch_take _ _ (by omega)]
  exact kept

/-- A write to the list of a socket is one to the ring buffer that holds it. -/
theorem ringWrite_represents (size : ring.size = socketBuffer) {stored : List Byte}
    (wrote : ringWrite queue data = (stored, few)) :
    ∃ after moved, ringbufferWrite machine ring buffer count = (after, moved, few) ∧ Holds moved after.memory stored := by
  simp only [ringWrite, freespace, ← size, Prod.mk.injEq] at wrote
  obtain ⟨rfl, counted⟩ := wrote
  rw [counted]
  exact write_represents placed holds small source buffered bound counted.symm

/-- A segment that TCP receives goes to the ring buffer in full. -/
theorem receiveWrite_represents (size : ring.size = Net.tcbRingbufferSize) (whole : few = data.length)
    {stored : List Byte} (wrote : Net.receiveWrite queue data = .ok stored) :
    ∃ after moved, ringbufferWrite machine ring buffer count = (after, moved, few) ∧ Holds moved after.memory stored := by
  obtain ⟨fits, wrote⟩ := guard_ok.mp wrote
  cases wrote
  rw [← size] at fits
  rw [← data.take_length, ← whole]
  exact write_represents placed holds small source buffered bound (by omega)

/-- A write to a pipe is one to its ring buffer. -/
theorem writetopipe_represents (size : ring.size = Pipefs.bufferSize) {pipe next : Pipefs.Pipe} {bytes : List UInt8}
    (queued : queue = pipe.data.map UInt8.toBitVec) (given : data = bytes.map UInt8.toBitVec) {id : Nat}
    (wrote : pipe.writetopipe id bytes = .ok (none, few, next)) :
    ∃ after moved, ringbufferWrite machine ring buffer count = (after, moved, few) ∧
      Holds moved after.memory (next.data.map UInt8.toBitVec) := by
  revert wrote
  fun_cases Pipefs.Pipe.writetopipe pipe id bytes with intro wrote
  | case2 =>
    simp only [Except.ok.injEq, Prod.mk.injEq, true_and] at wrote
    obtain ⟨counted, rfl⟩ := wrote
    rw [List.map_append, List.map_take, counted, ← queued, ← given]
    apply write_represents placed holds small source buffered bound
    rw [queued, given, List.length_map, List.length_map, size]
    exact counted.symm
  | _ => cases wrote

end

/-- A read of a pipe that has data is one of its ring buffer. -/
theorem readRound_represents {pipe next : Pipefs.Pipe} (queued : queue = pipe.data.map UInt8.toBitVec)
    (ready : 0 < pipe.data.length) {id : Nat} {read : Pipefs.Read} {memory : Bool} (sized : count = read.size)
    (buffered : Buffered machine.faults ring buffer (min count queue.length))
    (ran : pipe.readRound id read memory = next) :
    ∃ after moved few, ringbufferRead machine ring buffer count = (after, moved, few) ∧
      next.received.map UInt8.toBitVec = pipe.received.map UInt8.toBitVec ++ fetch after.memory buffer few ∧
      Holds moved after.memory (next.data.map UInt8.toBitVec) := by
  obtain ⟨after, done, _, bytes, kept⟩ := ringbufferRead_done placed holds buffered small rfl
  subst queued sized
  rw [← List.take_eq_take_min, ← List.map_take] at bytes
  rw [← List.drop_eq_drop_min, ← List.map_drop] at kept
  rw [Pipefs.Pipe.readRound, if_pos (by simp [Pipefs.Pipe.internalpoll, ready])] at ran
  subst ran
  refine ⟨after, _, _, done, ?_, kept⟩
  rw [bytes, ← List.map_append]
  rfl

/-- A peek shows the bytes that it shows of the list. -/
theorem ringPeek_represents (size : ring.size = socketBuffer)
    (buffered : Buffered machine.faults ring buffer (min count (queue.length - offset))) :
    ∃ after bytes, ringPeek queue offset count = some bytes ∧
      ringbufferPeek machine ring buffer offset count = (after, bytes.length) ∧
      fetch after.memory buffer bytes.length = bytes ∧ Holds ring after.memory queue := by
  have room := holds.room
  have short := placed.size_small
  obtain ⟨after, ran, _, bytes, kept⟩ := ringbufferPeek_done placed holds buffered small rfl
  rw [size] at bytes
  have length : ((queue.drop (min offset (freespace queue))).take (min count (queue.length - offset))).length =
      min count (queue.length - offset) := by
    rw [List.length_take, List.length_drop]
    omega
  refine ⟨after, (queue.drop (min offset (freespace queue))).take (min count (queue.length - offset)), ?_, ?_, ?_, kept⟩
  · rw [ringPeek]
    split
    · next beyond => rw [Nat.sub_eq_zero_of_le beyond, Nat.min_zero, List.take_zero]
    · rw [minLong_small small (by omega), if_pos (Nat.min_le_right _ _)]
  · rw [length]
    exact ran
  · rw [length]
    exact bytes

/-- A truncation takes bytes from the front of the list. -/
theorem ringTruncate_represents : Holds (ringbufferTruncate ring count).1 machine.memory (ringTruncate queue count) := by
  rw [ringbufferTruncate_done holds placed.size_small small, ringTruncate, Nat.min_comm queue.length]
  exact holds.drop (Nat.min_le_right _ _)

end Represented

variable {B : Type} {ring data : List B} {iterator : IovecIterator} {accessible fuel count offset done : Nat}

/-- Data that fits into the buffer is written there in full. -/
theorem IovecIterator.Ready.write (ready : iterator.Ready data.length) (nonempty : data ≠ [])
    (resident : data.length ≤ accessible) (fits : ring.length + data.length ≤ socketBuffer)
    (ends : iterator.iovec.length < fuel) :
    ∃ final, (iovecIteratorWriteToRing data accessible).run fuel data.length iterator ring = some final ∧
      final.side = ring ++ data ∧ final.done = data.length ∧ final.failed = false := by
  have move : ∀ address count done, done + count ≤ data.length → done = 0 ∨ True →
      (iovecIteratorWriteToRing data accessible).move (ring ++ data.take done) address count done =
        (ring ++ data.take (done + count), some count) := by
    intro address count done within _
    have chunk : ((data.drop done).take count).length = count := by
      rw [List.length_take, List.length_drop]
      omega
    have whole : min count (freespace (ring ++ data.take done)) = count := by
      rw [freespace, List.length_append, List.length_take]
      omega
    simp only [iovecIteratorWriteToRing, ringWrite, chunk, whole]
    rw [if_pos (by omega), List.take_take, Nat.min_self, List.append_assoc, ← List.take_add]
  obtain ⟨final, ran, side, result⟩ := ready.run rfl (fun _ _ => rfl) (fun done => ring ++ data.take done)
    (List.length_pos_iff.mpr nonempty) move (.inl trivial) ends
  simp only [List.take_zero, List.append_nil] at ran
  exact ⟨final, ran, by rw [side, List.take_length], result⟩

/-- A peek that starts within the free space shows the bytes at its offset. -/
theorem peek_move (address : Nat) (short : ring.length ≤ socketBuffer) (held : offset + done + count ≤ ring.length)
    (straight : count = 0 ∨ offset + done ≤ freespace ring) :
    (iovecIteratorPeekFromRing offset).move (ring, (ring.drop offset).take done) address count done =
      ((ring, (ring.drop offset).take (done + count)), some count) := by
  have small : socketBuffer < 2 ^ 63 := by decide
  have place : addWord offset done = offset + done := addWord_eq (Nat.lt_trans (show _ < 2 ^ 63 by omega) (by decide))
  have peeked : ringPeek ring (offset + done) count = some (((ring.drop offset).drop done).take count) := by
    have counted : minLong count (ring.length - (offset + done)) = count := by
      rw [minLong_small (by omega) (by omega), Nat.min_eq_left (by omega)]
    rw [ringPeek, counted, if_pos (show count ≤ _ by omega)]
    split
    · rw [show count = 0 by omega, List.take_zero]
    · rcases straight with nothing | straight
      · rw [nothing, List.take_zero, List.take_zero]
      · rw [Nat.min_eq_left straight, List.drop_drop]
  have moved : (((ring.drop offset).drop done).take count).length = count := by
    rw [List.length_take, List.length_drop, List.length_drop]
    omega
  simp only [iovecIteratorPeekFromRing, place, peeked, moved, ← List.take_add]

/-- Bytes that the peeks reach are copied in full. -/
theorem IovecIterator.Ready.peek (ready : iterator.Ready count) (positive : 0 < count) (resident : count ≤ accessible)
    (held : count ≤ ring.length) (short : ring.length ≤ socketBuffer)
    (straight : count ≤ freespace ring ∨ iterator.TakesAll count) (ends : iterator.iovec.length < fuel) :
    ∃ final, ((iovecIteratorPeekFromRing 0).faultingAt accessible).run fuel count iterator (ring, []) = some final ∧
      final.side = (ring, ring.take count) ∧ final.done = count ∧ final.failed = false := by
  refine ready.run rfl (fun _ _ => rfl) (fun done => (ring, (ring.drop 0).take done)) positive ?_ straight ends
  intro address few done within reached
  have moved := peek_move address short (show 0 + done + few ≤ ring.length by omega) (by omega)
  simp only [Transfer.faultingAt, moved]
  rw [if_pos (by omega)]

end Astral.Io
