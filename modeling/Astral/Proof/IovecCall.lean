import Astral.Proof.Iovec
import Astral.Proof.Ringbuffer

namespace Astral.Io

open Library

variable {after : Machine × Ringbuffer} {call : IovecCall} {pre post : List Iovec} {done moved : Nat} {byte : Byte}
  {machine : Machine} {address count held byteCount fuel : Nat} {entry : Iovec}
  {progress next : Progress (Machine × Ringbuffer)}

namespace IovecCall

/-- A call that uses the ring buffer finds a queue in it. -/
def Ready (side : Machine × Ringbuffer) (queue : List Byte) : IovecCall → Prop
  | .copyToBuffer _ | .copyFromBuffer _ | .memset _ => True
  | .writeToRingbuffer => side.2.Placed side.1.faults ∧ Holds side.2 side.1.memory queue
  | .peekFromRingbuffer offset =>
    offset < wordSize ∧ side.2.Placed side.1.faults ∧ Holds side.2 side.1.memory queue

/-- The counters of the ring buffer say how many bytes it holds. -/
def Counted (side : Machine × Ringbuffer) (held : Nat) : IovecCall → Prop
  | .copyToBuffer _ | .copyFromBuffer _ | .memset _ => True
  | .writeToRingbuffer | .peekFromRingbuffer _ => side.2.Placed side.1.faults ∧ side.2.Counts held

/-- This many bytes of a chunk are moved if nothing faults. -/
def reach (ring : Ringbuffer) (count : Nat) : IovecCall → Nat
  | .copyToBuffer _ | .copyFromBuffer _ | .memset _ => count
  | .writeToRingbuffer => minLong count ring.freespace
  | .peekFromRingbuffer offset =>
    if offset ≥ ring.datacount then 0 else minLong count (subWord ring.datacount offset)

/-- The ring buffer takes or gives no more bytes. -/
def Spent (side : Machine × Ringbuffer) (done : Nat) : IovecCall → Prop
  | .copyToBuffer _ | .copyFromBuffer _ | .memset _ => False
  | .writeToRingbuffer => side.2.freespace = 0
  | .peekFromRingbuffer offset => side.2.datacount ≤ addWord offset done

/-- A move of the call leaves this ring buffer. -/
def ringAfter (ring : Ringbuffer) (moved : Nat) : IovecCall → Ringbuffer
  | .copyToBuffer _ | .copyFromBuffer _ | .memset _ | .peekFromRingbuffer _ => ring
  | .writeToRingbuffer => { ring with write := addWord ring.write moved }

/-- No byte of the first chunk faults, neither in its entry nor in the buffer. -/
def Clear (faults : Nat → Bool) (ring : Ringbuffer) (address count : Nat) (call : IovecCall) : Prop :=
  Resident faults address (call.reach ring count) ∧
    match call with
    | .copyToBuffer buffer | .copyFromBuffer buffer => Resident faults buffer count
    | .memset _ | .writeToRingbuffer | .peekFromRingbuffer _ => True

end IovecCall

section Buffer

variable {copy : Machine → (address buffer size : Nat) → Machine × Option Errno} {buffer : Nat}

theorem bufferTransfer_move (copy : Machine → (address buffer size : Nat) → Machine × Option Errno) (buffer : Nat)
    (machine : Machine) (address count done : Nat) :
    (bufferTransfer copy buffer).move machine address count done =
      ((copy machine address (addWord buffer done) count).1,
        if (copy machine address (addWord buffer done) count).2 = none then some count else none) := by
  unfold bufferTransfer
  simp only
  split <;> simp_all

theorem addWord_resident (faults : Nat → Bool) (start count : Nat) :
    Resident faults (addWord start 0) count ↔ Resident faults start count := by
  unfold Resident
  simp only [addWord_assoc, Nat.zero_add]

theorem bufferMove_none_iff (checked : Checked copy) (word : address < wordSize)
    (calm : ((bufferTransfer copy buffer).move machine address count 0).1.panicked = false) :
    ((bufferTransfer copy buffer).move machine address count 0).2 = none ↔
      ¬ (Resident machine.faults address count ∧ Resident machine.faults buffer count) := by
  rw [bufferTransfer_move] at *
  have clear := checked.clear machine count word (addWord_lt buffer 0) calm
  rw [addWord_resident] at clear
  rw [← clear]
  simp

/-- A completed move has moved the whole chunk. -/
theorem bufferMove_some (checked : Checked copy) (word : address < wordSize) {after : Machine}
    (calm : after.panicked = false)
    (move : (bufferTransfer copy buffer).move machine address count done = (after, some moved)) :
    moved = count ∧ Resident machine.faults address count := by
  rw [bufferTransfer_move, Prod.mk.injEq] at move
  obtain ⟨rfl, outcome⟩ := move
  split at outcome
  · rename_i ok
    exact ⟨(Option.some.inj outcome).symm, ((checked.clear machine count word (addWord_lt buffer done) calm).mp ok).1⟩
  · cases outcome

end Buffer

theorem memset_none_iff (word : address < wordSize)
    (calm : ((iovecIteratorMemset byte).move machine address count 0).1.panicked = false) :
    ((iovecIteratorMemset byte).move machine address count 0).2 = none ↔ ¬ Resident machine.faults address count := by
  unfold iovecIteratorMemset at *
  rw [bufferTransfer_move] at *
  simp only [possiblyMemset_eq] at *
  have clear := protect_clear _ _ _ _ _ calm
  rw [setBytes_ok_iff word] at clear
  rw [← clear]
  simp

theorem memset_some {after : Machine} (word : address < wordSize) (calm : after.panicked = false)
    (move : (iovecIteratorMemset byte).move machine address count done = (after, some moved)) :
    moved = count ∧ Resident machine.faults address count := by
  rw [iovecIteratorMemset, bufferTransfer_move, Prod.mk.injEq] at move
  obtain ⟨rfl, outcome⟩ := move
  rw [possiblyMemset_eq] at calm outcome
  split at outcome
  · rename_i ok
    exact ⟨(Option.some.inj outcome).symm, (setBytes_ok_iff word _).mp ((protect_clear _ _ _ _ _ calm).mp ok)⟩
  · cases outcome

theorem besideRing_move {transfer : Transfer Machine} {side after : Machine × Ringbuffer} {outcome : Option Nat}
    (move : transfer.besideRing.move side address count done = (after, outcome)) :
    transfer.move side.1 address count done = (after.1, outcome) := by
  obtain ⟨rfl, rfl⟩ := move
  rfl

section Ring

variable {side : Machine × Ringbuffer} {few offset : Nat} {passes : Machine × Option Errno}

theorem writeMove_eq
    (fewEq : minLong count side.2.freespace = few)
    (passesEq : ringbufferPasses Machine.usercopyPossiblyFromUser side.1 side.2 side.2.write address few = passes) :
    iovecIteratorWriteToRingbuffer.move side address count done =
      if passes.2 = none then
        if few = ringbufferUserCopyFailed then
          ((passes.1, (ringbufferRemove { side.2 with write := addWord side.2.write few } done).1), none)
        else ((passes.1, { side.2 with write := addWord side.2.write few }), some few)
      else ((passes.1, (ringbufferRemove side.2 done).1), none) := by
  obtain ⟨after, error⟩ := passes
  simp only [iovecIteratorWriteToRingbuffer, ringbufferWrite_eq side.1 side.2 address fewEq passesEq]
  cases error with
  | none => simp only [↓reduceIte]
  | some error => simp only [reduceCtorEq, ↓reduceIte]

theorem peekMove_of (peeked : ringbufferPeek side.1 side.2 address (addWord offset done) count = (machine, moved)) :
    (iovecIteratorPeekFromRingbuffer offset).move side address count done =
      ((machine, side.2), if moved = ringbufferUserCopyFailed then none else some moved) := by
  dsimp only [iovecIteratorPeekFromRingbuffer]
  rw [peeked]

theorem peekMove_outside (outside : side.2.datacount ≤ addWord offset done) :
    (iovecIteratorPeekFromRingbuffer offset).move side address count done = (side, some 0) := by
  have peeked : ringbufferPeek side.1 side.2 address (addWord offset done) count = (side.1, 0) := by
    rw [ringbufferPeek, if_pos outside]
  rw [peekMove_of peeked, if_neg (by decide)]

theorem peekMove_eq (inside : addWord offset done < side.2.datacount)
    (fewEq : minLong count (subWord side.2.datacount (addWord offset done)) = few)
    (passesEq : ringbufferPasses (fun machine slot buffer => machine.usercopyPossiblyToUser buffer slot) side.1 side.2
      (addWord side.2.read (minLong (addWord offset done) side.2.freespace)) address few = passes) :
    (iovecIteratorPeekFromRingbuffer offset).move side address count done =
      ((passes.1, side.2), if passes.2 = none ∧ few ≠ ringbufferUserCopyFailed then some few else none) := by
  rw [peekMove_of (ringbufferPeek_eq side.1 side.2 address inside fewEq passesEq)]
  obtain ⟨after, error⟩ := passes
  cases error with
  | none => by_cases failed : few = ringbufferUserCopyFailed <;> simp [failed]
  | some error => simp

section Queue

variable {held : Nat} (hole : Hole side.1.faults) (placed : side.2.Placed side.1.faults)
  (counts : side.2.Counts held) (word : address < wordSize) (bound : count < wordSize)
include hole placed counts word bound

omit counts in
/-- The passes fail exactly when a byte of the buffer faults, and otherwise they move what the ring has. -/
theorem passes_cases {copy : Machine → (first second size : Nat) → Machine × Option Errno} (checked : Checked copy)
    (start : Nat) {most : Nat} (within : most ≤ side.2.size)
    (calm : (ringbufferPasses copy side.1 side.2 start address (minLong count most)).1.panicked = false) :
    ¬ Resident side.1.faults address (minLong count most) ∧
        (ringbufferPasses copy side.1 side.2 start address (minLong count most)).2 ≠ none ∨
      Resident side.1.faults address (minLong count most) ∧ count < 2 ^ 63 ∧
        (ringbufferPasses copy side.1 side.2 start address (minLong count most)).2 = none ∧
        minLong count most ≠ ringbufferUserCopyFailed ∧ minLong count most = min count most := by
  have small := placed.size_small
  have failed : ringbufferUserCopyFailed = 2 ^ 64 - 1 := rfl
  obtain ⟨fewBound, fewSmall⟩ := minLong_limit bound (show most < 2 ^ 63 by omega)
  have clear := ringbufferPasses_none_iff checked placed word calm hole fewBound
    (by intro short; have := fewSmall short; omega)
  by_cases resident : Resident side.1.faults address (minLong count most)
  · obtain ⟨less, value⟩ := fewSmall (hole.short word resident)
    exact .inr ⟨resident, less, clear.mpr resident, by omega, value⟩
  · exact .inl ⟨resident, mt clear.mp resident⟩

/-- A write fails exactly when a byte that it reads faults, and otherwise it moves what fits. -/
theorem writeMove_cases (calm : (iovecIteratorWriteToRingbuffer.move side address count done).1.1.panicked = false) :
    (¬ Resident side.1.faults address (minLong count side.2.freespace) ∧
        (iovecIteratorWriteToRingbuffer.move side address count done).2 = none) ∨
      (Resident side.1.faults address (minLong count side.2.freespace) ∧ count < 2 ^ 63 ∧
        ∃ after, iovecIteratorWriteToRingbuffer.move side address count done =
          ((after, { side.2 with write := addWord side.2.write (min count (side.2.size - held)) }),
            some (min count (side.2.size - held)))) := by
  have free := counts.freespace placed
  rw [writeMove_eq rfl rfl] at calm ⊢
  have calmPasses : (ringbufferPasses Machine.usercopyPossiblyFromUser side.1 side.2 side.2.write address
      (minLong count side.2.freespace)).1.panicked = false := by
    split at calm
    · split at calm <;> exact calm
    · exact calm
  rcases passes_cases hole placed word bound checked_fromUser side.2.write (by omega) calmPasses with
    ⟨faulty, failed⟩ | ⟨resident, less, done, short, value⟩
  · exact .inl ⟨faulty, by rw [if_neg failed]⟩
  · exact .inr ⟨resident, less, _, by rw [if_pos done, if_neg short, value, free]⟩

/-- A peek behind the queue shows nothing, and otherwise it fails exactly when a byte that it writes faults. -/
theorem peekMove_cases
    (calm : ((iovecIteratorPeekFromRingbuffer offset).move side address count done).1.1.panicked = false) :
    (held ≤ addWord offset done ∧
        (iovecIteratorPeekFromRingbuffer offset).move side address count done = (side, some 0)) ∨
      addWord offset done < held ∧ ((¬ Resident side.1.faults address (minLong count (held - addWord offset done)) ∧
            ((iovecIteratorPeekFromRingbuffer offset).move side address count done).2 = none) ∨
          (Resident side.1.faults address (minLong count (held - addWord offset done)) ∧ count < 2 ^ 63 ∧
            ∃ after, (iovecIteratorPeekFromRingbuffer offset).move side address count done =
              ((after, side.2), some (min count (held - addWord offset done))))) := by
  have total := counts.datacount
  have small := placed.size_small
  have room := counts.room
  have limit := wordSize_eq
  rcases Nat.lt_or_ge (addWord offset done) held with inside | outside
  · right
    refine ⟨inside, ?_⟩
    have most : subWord side.2.datacount (addWord offset done) = held - addWord offset done := by
      rw [total, subWord_eq (by omega) (by omega)]
    rw [peekMove_eq (by omega) (by rw [most]) rfl] at calm ⊢
    rcases passes_cases hole placed word bound checked_toUser.swap _ (by omega) calm with
      ⟨faulty, failed⟩ | ⟨resident, less, done, short, value⟩
    · exact .inl ⟨faulty, if_neg fun both => failed both.1⟩
    · exact .inr ⟨resident, less, _, by rw [if_pos ⟨done, short⟩, value]⟩
  · exact .inl ⟨outside, peekMove_outside (by omega)⟩

end Queue

/-- A full ring takes nothing. -/
theorem writeMove_full (small : side.2.size < 2 ^ 63) (positive : 0 < side.2.size) (full : side.2.freespace = 0)
    (short : count < 2 ^ 63) :
    ∃ after, iovecIteratorWriteToRingbuffer.move side address count done = (after, some 0) := by
  have limit := wordSize_eq
  have offset : side.2.write % side.2.size < side.2.size := Nat.mod_lt _ positive
  have none : minLong count side.2.freespace = 0 := by
    rw [full, minLong_small short (by decide), Nat.min_zero]
  have first : minLong 0 (subWord side.2.size (side.2.write % side.2.size)) = 0 := by
    rw [subWord_eq (by omega) (by omega), minLong_small (by decide) (by omega), Nat.zero_min]
  have empty := possiblyFromUser_zero side.1 (addWord side.2.data (side.2.write % side.2.size)) address
  rcases ringbufferPasses_cases Machine.usercopyPossiblyFromUser side.1 side.2 side.2.write address first with
    ⟨middle, error, ran, passes⟩ | ⟨middle, ran, ⟨_, passes⟩ | ⟨more, _⟩⟩
  · rw [ran] at empty
    cases empty
  · exact ⟨_, by rw [writeMove_eq none passes, if_pos rfl, if_neg (by decide)]⟩
  · exact absurd rfl more

end Ring

namespace IovecCall

variable {side : Machine × Ringbuffer} {queue : List Byte}

/-- What every copy keeps, a move keeps. -/
theorem move_keeps (call : IovecCall) (keeps : Machine → Prop) (fromUser : ∀ machine kernel user size, keeps machine →
      keeps (Machine.usercopyPossiblyFromUser machine kernel user size).1)
    (toUser : ∀ machine kernel user size, keeps machine →
      keeps (Machine.usercopyPossiblyToUser machine user kernel size).1)
    (set : ∀ machine user byte size, keeps machine →
      keeps (Machine.usercopyPossiblyMemsetToUser machine user byte size).1)
    (kept : keeps side.1) (address count done : Nat) : keeps (call.transfer.move side address count done).1.1 := by
  cases call with
  | copyToBuffer buffer =>
    simp only [transfer, Transfer.besideRing, iovecIteratorCopyToBuffer, bufferTransfer_move]
    exact fromUser _ _ _ _ kept
  | copyFromBuffer buffer =>
    simp only [transfer, Transfer.besideRing, iovecIteratorCopyFromBuffer, bufferTransfer_move]
    exact fromUser _ _ _ _ kept
  | memset byte =>
    simp only [transfer, Transfer.besideRing, iovecIteratorMemset, bufferTransfer_move]
    exact set _ _ _ _ kept
  | writeToRingbuffer =>
    have passed := ringbufferPasses_keeps keeps fromUser kept side.2 side.2.write address
      (minLong count side.2.freespace)
    rw [transfer, writeMove_eq rfl rfl]
    split
    · split <;> exact passed
    · exact passed
  | peekFromRingbuffer offset =>
    rw [transfer]
    rcases Nat.lt_or_ge (addWord offset done) side.2.datacount with inside | outside
    · rw [peekMove_eq inside rfl rfl]
      exact ringbufferPasses_keeps keeps toUser kept _ _ _ _
    · rw [peekMove_outside outside]
      exact kept

/-- A stopped kernel stays stopped. -/
theorem move_stopped (call : IovecCall) (stopped : side.1.panicked = true) (address count done : Nat) :
    (call.transfer.move side address count done).1.1.panicked = true := by
  apply call.move_keeps (fun machine => machine.panicked = true) checked_fromUser.stopped checked_toUser.swap.stopped
    ?_ stopped
  intro machine user byte size stopped
  rw [possiblyMemset_eq]
  exact protect_stopped _ _ _ _ _ stopped

theorem move_faults (call : IovecCall) (side : Machine × Ringbuffer) (address count done : Nat) :
    (call.transfer.move side address count done).1.1.faults = side.1.faults := by
  apply call.move_keeps (fun machine => machine.faults = side.1.faults)
    (fun _ _ _ _ same => by rw [checked_fromUser.faults, same])
    (fun _ _ _ _ same => by rw [checked_toUser.faults, same]) ?_ rfl
  intro machine user byte size same
  rw [possiblyMemset_eq, protect_faults, same]

theorem Ready.counted (ready : call.Ready side queue) : call.Counted side queue.length := by
  cases call with
  | copyToBuffer | copyFromBuffer | memset => trivial
  | writeToRingbuffer => exact ⟨ready.1, ready.2.counts⟩
  | peekFromRingbuffer offset => exact ⟨ready.2.1, ready.2.2.counts⟩

/-- The first move fails exactly when one of its bytes faults. -/
theorem move_none_iff (call : IovecCall) (hole : Hole side.1.faults) (ready : call.Ready side queue)
    (word : address < wordSize) (bound : count < wordSize)
    (calm : (call.transfer.move side address count 0).1.1.panicked = false) :
    (call.transfer.move side address count 0).2 = none ↔ ¬ call.Clear side.1.faults side.2 address count := by
  cases call with
  | copyToBuffer buffer => exact bufferMove_none_iff checked_fromUser.swap word calm
  | copyFromBuffer buffer => exact bufferMove_none_iff checked_fromUser word calm
  | memset byte =>
    rw [Clear, and_true]
    exact memset_none_iff word calm
  | writeToRingbuffer =>
    obtain ⟨placed, holds⟩ := ready
    rw [Clear, and_true]
    rcases writeMove_cases hole placed holds.counts word bound calm with ⟨faulty, none⟩ | ⟨clear, _, after, moved⟩
    · exact iff_of_true none faulty
    · rw [transfer, moved]
      exact iff_of_false (by simp) (not_not.mpr clear)
  | peekFromRingbuffer offset =>
    obtain ⟨small, placed, holds⟩ := ready
    have cases := peekMove_cases hole placed holds.counts word bound calm
    have total := holds.datacount
    have room := holds.room
    have short := placed.size_small
    have limit := wordSize_eq
    rw [addWord_zero small] at cases
    rw [Clear, and_true, transfer, reach]
    rcases cases with ⟨outside, moved⟩ | ⟨inside, ⟨faulty, none⟩ | ⟨clear, _, after, moved⟩⟩
    · rw [moved, if_pos (by omega)]
      exact iff_of_false (by simp) (not_not.mpr fun _ inside => absurd inside (Nat.not_lt_zero _))
    · rw [if_neg (by omega), total, subWord_eq (by omega) (by omega)]
      exact iff_of_true none faulty
    · rw [moved, if_neg (by omega), total, subWord_eq (by omega) (by omega)]
      exact iff_of_false (by simp) (not_not.mpr clear)

/-- A completed move changes the ring buffer in one way. -/
theorem move_ring (call : IovecCall) (move : call.transfer.move side address count done = (after, some moved)) :
    after.2 = call.ringAfter side.2 moved := by
  cases call with
  | copyToBuffer | copyFromBuffer | memset => exact (congrArg (fun result => result.1.2) move).symm
  | writeToRingbuffer =>
    rw [transfer, writeMove_eq rfl rfl] at move
    split at move
    · split at move
      · cases move
      · cases move
        rfl
    · cases move
  | peekFromRingbuffer offset =>
    rcases Nat.lt_or_ge (addWord offset done) side.2.datacount with inside | outside
    all_goals exact (congrArg (fun result => result.1.2) move).symm

section

variable (call : IovecCall) (hole : Hole side.1.faults) (counted : call.Counted side held) (word : address < wordSize)
  (bound : count < wordSize) (calm : after.1.panicked = false)
  (move : call.transfer.move side address count done = (after, some moved))
include hole counted word bound calm move

/-- A move that goes on has a small count, and if it is cut then the next one moves nothing. -/
theorem move_some (goes : call.transfer.stopsEmpty = true → moved ≠ 0) :
    count < 2 ^ 63 ∧ (moved = count ∨ moved < count ∧ call.Spent after (addWord done moved)) := by
  have short : Resident side.1.faults address count → count < 2 ^ 63 := hole.short word
  cases call with
  | copyToBuffer buffer =>
    obtain ⟨whole, resident⟩ := bufferMove_some checked_fromUser.swap word calm (besideRing_move move)
    exact ⟨short resident, .inl whole⟩
  | copyFromBuffer buffer =>
    obtain ⟨whole, resident⟩ := bufferMove_some checked_fromUser word calm (besideRing_move move)
    exact ⟨short resident, .inl whole⟩
  | memset byte =>
    obtain ⟨whole, resident⟩ := memset_some word calm (besideRing_move move)
    exact ⟨short resident, .inl whole⟩
  | writeToRingbuffer =>
    obtain ⟨placed, counts⟩ := counted
    have small := placed.size_small
    have room := counts.room
    rcases writeMove_cases hole placed counts word bound (by rw [← transfer, move]; exact calm) with
      ⟨_, none⟩ | ⟨_, less, machine, passed⟩
    · rw [← transfer, move] at none
      cases none
    · refine ⟨less, ?_⟩
      rw [transfer, passed] at move
      rcases Nat.lt_or_ge (side.2.size - held) count with cut | fits
      · rw [Nat.min_eq_right (Nat.le_of_lt cut)] at move
        cases move
        right
        refine ⟨cut, ?_⟩
        have full := counts.write placed (Nat.le_refl (side.2.size - held))
        rw [Spent, Ringbuffer.freespace, full.datacount]
        simp only [show held + (side.2.size - held) = side.2.size by omega]
        rw [subWord_eq (Nat.le_refl _) (Nat.lt_trans small (by decide)), Nat.sub_self]
      · left
        cases move
        omega
  | peekFromRingbuffer offset =>
    obtain ⟨placed, counts⟩ := counted
    have total := counts.datacount
    have cases := peekMove_cases hole placed counts word bound (by rw [← transfer, move]; exact calm)
    rw [← transfer, move] at cases
    rcases cases with ⟨_, same⟩ | ⟨inside, ⟨_, none⟩ | ⟨_, less, machine, passed⟩⟩
    · cases same
      exact absurd rfl (goes rfl)
    · cases none
    · cases passed
      refine ⟨less, ?_⟩
      rcases Nat.lt_or_ge (held - addWord offset done) count with cut | fits
      · right
        refine ⟨by omega, ?_⟩
        have room := counts.room
        have short := placed.size_small
        have limit := wordSize_eq
        have behind : addWord offset (addWord done (min count (held - addWord offset done))) =
            addWord (addWord offset done) (min count (held - addWord offset done)) := by
          rw [addWord_assoc]
          simp only [addWord, Nat.add_mod_mod]
        rw [Spent, behind, addWord_eq (by omega)]
        simp only [total]
        omega
      · left
        omega

/-- A completed move counts its bytes. -/
theorem move_counted : ∃ held, call.Counted after held := by
  have faults := call.move_faults side address count done
  have ring := call.move_ring move
  rw [move] at faults
  cases call with
  | copyToBuffer | copyFromBuffer | memset => exact ⟨0, trivial⟩
  | writeToRingbuffer =>
    obtain ⟨placed, counts⟩ := counted
    rcases writeMove_cases hole placed counts word bound (by rw [← transfer, move]; exact calm) with
      ⟨_, none⟩ | ⟨_, _, machine, passed⟩
    · rw [← transfer, move] at none
      cases none
    · rw [transfer, passed] at move
      cases move
      refine ⟨_, ?_, counts.write placed (Nat.min_le_right _ _)⟩
      rw [faults]
      exact ⟨placed.positive, placed.kernel, placed.fits, placed.resident⟩
  | peekFromRingbuffer offset =>
    refine ⟨held, ?_⟩
    rw [Counted, ring, faults]
    exact counted

end

/-- A spent ring buffer ends the loop. -/
theorem Spent.move (spent : call.Spent side done) (counted : call.Counted side held) (address : Nat)
    (short : count < 2 ^ 63) :
    call.transfer.stopsEmpty = true ∧ ∃ later, call.transfer.move side address count done = (later, some 0) := by
  cases call with
  | copyToBuffer | copyFromBuffer | memset => exact spent.elim
  | writeToRingbuffer => exact ⟨rfl, writeMove_full counted.1.size_small counted.1.positive spent short⟩
  | peekFromRingbuffer offset => exact ⟨rfl, _, peekMove_outside spent⟩

end IovecCall

theorem IovecCall.complete_all (call : IovecCall) (byteCount : Nat) :
    call.transfer.complete byteCount 0 byteCount = true := by
  cases call <;>
    simp [IovecCall.transfer, Transfer.besideRing, iovecIteratorCopyToBuffer, iovecIteratorCopyFromBuffer,
      iovecIteratorMemset, bufferTransfer, iovecIteratorWriteToRingbuffer, iovecIteratorPeekFromRingbuffer]

theorem IovecCall.incomplete_more (call : IovecCall) {remaining : Nat} (more : remaining ≠ 0) (less : done ≠ byteCount) :
    call.transfer.complete byteCount remaining done = false := by
  cases call <;>
    simp [IovecCall.transfer, Transfer.besideRing, iovecIteratorCopyToBuffer, iovecIteratorCopyFromBuffer,
      iovecIteratorMemset, bufferTransfer, iovecIteratorWriteToRingbuffer, iovecIteratorPeekFromRingbuffer, more, less]

/-- The loop wants bytes that the entries still have, until the request or the list ends. -/
structure Wants {Side : Type} (byteCount : Nat) (progress : Progress Side) : Prop where
  word : progress.remaining < wordSize
  total : byteCount < wordSize
  ends : progress.remaining < 2 ^ 63 → progress.remaining ≤ progress.iterator.left ∧
    progress.done + progress.remaining ≤ byteCount ∧
    (progress.done + progress.remaining = byteCount ∨ progress.remaining = progress.iterator.left)

theorem Wants.initial {Side : Type} {iterator : IovecIterator} (stands : Stands iterator pre entry post)
    (word : byteCount < wordSize) {side : Side} :
    Wants byteCount (⟨side, iterator, minLong byteCount iterator.left, 0, false⟩ : Progress Side) := by
  have left : iterator.left < wordSize := Nat.lt_of_le_of_lt (Nat.sub_le _ _) stands.bound
  refine ⟨minLong_lt word left, word, ?_⟩
  intro short
  obtain ⟨_, _, least⟩ := minLong_both word left short
  simp only [least]
  omega

/-- The loop goes on behind a chunk, and behind a chunk that was cut it moves nothing more. -/
structure WentOn (call : IovecCall) (byteCount : Nat) (progress : Progress (Machine × Ringbuffer)) (entry : Iovec)
    (count moved : Nat) (next : Progress (Machine × Ringbuffer)) : Prop where
  countEq : count = min (entry.len - progress.iterator.currentOffset) progress.remaining
  lenShort : entry.len - progress.iterator.currentOffset < 2 ^ 63
  wantedShort : progress.remaining < 2 ^ 63
  more : count < progress.iterator.left
  move : call.transfer.move progress.side (progress.place entry) count progress.done = (next.side, some moved)
  goes : call.transfer.stopsEmpty = true → moved ≠ 0
  skipped : next.iterator = progress.iterator.skipRound entry count
  done : next.done = progress.done + moved
  remaining : next.remaining = progress.remaining - moved
  failed : next.failed = false
  faults : next.side.1.faults = progress.side.1.faults
  counted : ∃ held, call.Counted next.side held
  incomplete : call.transfer.complete byteCount next.remaining next.done = false
  cut : moved = count ∨ moved < count ∧ call.Spent next.side next.done

theorem round_again (hole : Hole progress.side.1.faults) (stands : Stands progress.iterator pre entry post)
    (counted : call.Counted progress.side held) (wants : Wants byteCount progress)
    (ran : call.transfer.round (fuel + 1) byteCount progress = some (true, next)) (calm : next.side.1.panicked = false) :
    ∃ count moved, WentOn call byteCount progress entry count moved next := by
  have len := (stands.words entry stands.mem).2
  have total := wants.total
  have bound : minLong (entry.len - progress.iterator.currentOffset) progress.remaining < wordSize :=
    minLong_lt (by omega) wants.word
  obtain ⟨read, outcome, reads, move, ⟨_, stop, _⟩ | ⟨_, stop, _⟩ | ⟨moved, outcomeEq, goes, skipped, same, again⟩⟩ :=
    round_cases ran
  · cases stop
  · cases stop
  · rw [stands.reads] at reads
    cases reads
    rw [stands.remaining_eq] at move skipped
    rw [outcomeEq] at move
    obtain ⟨short, cut⟩ := call.move_some hole counted (addWord_lt _ _) bound calm move goes
    obtain ⟨lenShort, wantedShort, least⟩ := minLong_both (by omega) wants.word short
    obtain ⟨within, most, _⟩ := wants.ends wantedShort
    rw [least] at move skipped cut bound short
    obtain ⟨count, countEq⟩ : ∃ count, count = min (entry.len - progress.iterator.currentOffset) progress.remaining :=
      ⟨_, rfl⟩
    rw [← countEq] at move skipped cut bound short
    have whole : minLong (entry.len - progress.iterator.currentOffset) count = count := by
      rw [minLong_small lenShort short]
      omega
    rw [stands.skip whole bound fuel, Option.some.injEq] at skipped
    obtain ⟨incomplete, unfinished⟩ := Bool.or_eq_false_iff.mp (Bool.not_eq_true' _ ▸ again.symm)
    have done : next.done = addWord progress.done moved := by rw [same]
    have faults := call.move_faults progress.side (progress.place entry) count progress.done
    have counted := call.move_counted hole counted (addWord_lt _ _) bound calm move
    rw [move] at faults
    refine ⟨count, moved, countEq, lenShort, wantedShort, ?_, move, goes, skipped.symm, ?_, ?_, ?_, faults, counted,
      incomplete,
      done ▸ cut⟩
    · have total := stands.round_total (show count ≤ _ by omega)
      rw [← skipped, IovecIterator.finished, decide_eq_false_iff_not, skipRound_totalSize, total] at unfinished
      have leftEq : progress.iterator.left = progress.iterator.totalSize - progress.iterator.totalOffset := rfl
      have low := stands.low
      omega
    · rw [done, addWord_eq (by omega)]
    · rw [same]
      exact subWord_eq (by omega) (by omega)
    · rw [same]

/-- The loop goes on at the beginning of the next entry, or it moves nothing more. -/
theorem WentOn.stands (went : WentOn call byteCount progress entry count moved next)
    (stands : Stands progress.iterator pre entry post) (wants : Wants byteCount progress) :
    (∃ later others, post = later :: others ∧ Stands next.iterator (pre ++ [entry]) later others ∧
        next.iterator.currentOffset = 0) ∨ Stands next.iterator pre entry post ∧ call.Spent next.side next.done ∧
        next.chunk entry < 2 ^ 63 := by
  have countEq := went.countEq
  have more := went.more
  have offset := stands.offset
  have lenShort := went.lenShort
  have wantedShort := went.wantedShort
  have remaining := went.remaining
  obtain ⟨within, most, ends⟩ := wants.ends wantedShort
  rw [Progress.chunk, went.skipped]
  by_cases whole : progress.iterator.currentOffset + count = entry.len
  · exact .inl (stands.next whole more)
  · right
    have there := stands.stay (show count ≤ _ by omega) (by omega) (.inl whole)
    have total := stands.round_total (show count ≤ _ by omega)
    rw [stands.total, there.total] at total
    rcases went.cut with all | ⟨_, spent⟩
    · have incomplete := went.incomplete
      rw [remaining, went.done, all, show progress.remaining - count = 0 by omega,
        show progress.done + count = byteCount by omega, call.complete_all] at incomplete
      cases incomplete
    · exact ⟨there, spent, minLong_lt (by omega) (by omega)⟩

/-- The kernel does not go on in what is left of a loop. -/
theorem loop_stopped (call : IovecCall) {inner : Nat} {again : Bool} {final : Progress (Machine × Ringbuffer)}
    (stopped : progress.side.1.panicked = true)
    (ran : (if again then untilLoop (call.transfer.round inner byteCount) fuel progress else some progress) =
      some final) : final.side.1.panicked = true := by
  cases again with
  | false =>
    cases ran
    exact stopped
  | true =>
    refine untilLoop_keeps (fun progress => progress.side.1.panicked = true) ?_ stopped ran
    intro state more later stopped moved
    obtain ⟨entry, _, _, move, _⟩ := round_cases moved
    have kept := call.move_stopped stopped (state.place entry)
      (minLong (subWord entry.len state.iterator.currentOffset) state.remaining) state.done
    rw [move] at kept
    exact kept

end Astral.Io
