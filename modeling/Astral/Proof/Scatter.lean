import Astral.Proof.IovecCall

namespace Astral.Io

open Library

variable {pre post : List Iovec} {entry : Iovec} {iterator : IovecIterator} {side after : Machine × Ringbuffer}
  {queue : List Byte} {progress final : Progress (Machine × Ringbuffer)} {few address count inner fuel len : Nat}

/-- This many bytes are left in the current entry and in each later one. -/
def IovecIterator.lensLeft (iterator : IovecIterator) : List Nat :=
  match iterator.iovec.drop iterator.current with
  | [] => []
  | entry :: post => (entry.len - iterator.currentOffset) :: post.map Iovec.len

/-- As long as bytes are wanted and fit, every entry has some bytes and its wanted part fits as a whole. -/
def Smooth : List Nat → (wanted free : Nat) → Prop
  | [], _, _ => True
  | len :: rest, wanted, free =>
    len < 2 ^ 63 ∧ (wanted = 0 ∨ free = 0 ∨
      0 < len ∧ min len wanted ≤ free ∧ (len < wanted → Smooth rest (wanted - len) (free - len)))

/-- The next bytes of the entries can be read and are not in the ring. -/
def Accessible (machine : Machine) (ring : Ringbuffer) (iterator : IovecIterator) (amount : Nat) : Prop :=
  ∀ address ∈ iterator.rest.take amount,
    machine.faults address = false ∧ ∀ index < ring.size, address ≠ ring.data + index

/-- The transfer returns the amount, appends the next bytes, and moves the iterator behind them. -/
structure Landed (iterator : IovecIterator) (side : Machine × Ringbuffer) (queue : List Byte) (amount : Nat)
    (progress : Progress (Machine × Ringbuffer)) : Prop where
  failed : progress.failed = false
  panicked : progress.side.1.panicked = false
  done : progress.done = amount
  holds : Holds progress.side.2 progress.side.1.memory (queue ++ (iterator.rest.take amount).map side.1.memory)
  iovec : progress.iterator.iovec = iterator.iovec
  offset : progress.iterator.totalOffset = iterator.totalOffset + amount
  sound : progress.iterator.Sound

/-- The loop has neither failed nor stopped the kernel. -/
theorem Landed.calm {amount : Nat} (landed : Landed iterator side queue amount progress) :
    ¬ (progress.failed = true ∨ progress.side.1.panicked = true) := by
  rw [landed.failed, landed.panicked]
  decide

/-- The amount is bounded by the request, by the bytes left, and by the free space. -/
def amountOf (byteCount : Nat) (iterator : IovecIterator) (ring : Ringbuffer) (queue : List Byte) : Nat :=
  min (min byteCount iterator.left) (ring.size - queue.length)

def Scatters (byteCount : Nat) (iterator : IovecIterator) (side : Machine × Ringbuffer) (queue : List Byte) : Prop :=
  ∃ bound progress,
    (∀ fuel, bound ≤ fuel → iovecIteratorWriteToRingbuffer.run fuel byteCount iterator side = some progress) ∧
    Landed iterator side queue (amountOf byteCount iterator side.2 queue) progress

/-- After some full chunks the ring holds their bytes and nothing else has changed. -/
structure Filled (iterator : IovecIterator) (start : Machine × Ringbuffer) (queue : List Byte) (done : Nat)
    (side : Machine × Ringbuffer) : Prop where
  faults : side.1.faults = start.1.faults
  panicked : side.1.panicked = start.1.panicked
  size : side.2.size = start.2.size
  data : side.2.data = start.2.data
  write : side.2.write = start.2.write + done
  outside : ∀ address, (∀ index < start.2.size, address ≠ start.2.data + index) →
    side.1.memory address = start.1.memory address
  holds : Holds side.2 side.1.memory (queue ++ (iterator.rest.take done).map start.1.memory)

section Chunks

variable {start : Machine × Ringbuffer} {here : IovecIterator} {done amount : Nat}

theorem Filled.initial (holds : Holds start.2 start.1.memory queue) : Filled iterator start queue 0 start := by
  refine ⟨rfl, rfl, rfl, rfl, rfl, fun _ _ => rfl, ?_⟩
  rw [List.take_zero, List.map_nil, List.append_nil]
  exact holds

/-- The iterator has moved by whole chunks. -/
structure Ahead (iterator here : IovecIterator) (done : Nat) : Prop where
  iovec : here.iovec = iterator.iovec
  totalSize : here.totalSize = iterator.totalSize
  offset : here.totalOffset = iterator.totalOffset + done

theorem Ahead.rest (ahead : Ahead iterator here done) : here.rest = iterator.rest.drop done := by
  rw [IovecIterator.rest, IovecIterator.rest, ahead.iovec, ahead.offset, List.drop_drop]

theorem Ahead.left (ahead : Ahead iterator here done) : here.left = iterator.left - done := by
  rw [IovecIterator.left, IovecIterator.left, ahead.totalSize, ahead.offset]
  omega

theorem take_chunk_mem {items : List Nat} (fits : done + few ≤ amount) (member : address ∈ (items.drop done).take few) :
    address ∈ items.take amount := by
  rw [List.take_drop] at member
  exact (List.take_prefix_take_left fits).subset (List.mem_of_mem_drop member)

theorem Filled.placed (placed : start.2.Placed start.1.faults) (filled : Filled iterator start queue done side) :
    side.2.Placed side.1.faults := by
  rw [filled.faults]
  exact ⟨filled.size ▸ placed.positive, filled.data ▸ placed.kernel, filled.size ▸ filled.data ▸ placed.fits,
    filled.size ▸ filled.data ▸ placed.resident⟩

/-- The ring takes what fits of the next chunk. -/
theorem Filled.chunk (placed : start.2.Placed start.1.faults) (accessible : Accessible start.1 start.2 iterator amount)
    (filled : Filled iterator start queue done side) (ahead : Ahead iterator here done)
    (stands : Stands here pre entry post) (within : count ≤ entry.len - here.currentOffset) (small : count < 2 ^ 63)
    (fewEq : few = min count (start.2.size - (queue.length + done))) (fits : done + few ≤ amount)
    (long : done ≤ iterator.rest.length) (bound : start.2.write + done + few < wordSize) :
    ∃ after, iovecIteratorWriteToRingbuffer.move side (addWord entry.addr here.currentOffset) count done =
        (after, some few) ∧ Filled iterator start queue (done + few) after := by
  set address := addWord entry.addr here.currentOffset
  have chunk : (iterator.rest.drop done).take few = (List.range few).map (addWord address) := by
    rw [← ahead.rest]
    exact stands.chunk (by omega)
  have readable : ∀ index < few, start.1.faults (addWord address index) = false ∧
      ∀ other < start.2.size, addWord address index ≠ start.2.data + other := by
    intro index inside
    apply accessible
    apply take_chunk_mem fits
    rw [chunk]
    exact List.mem_map_of_mem (List.mem_range.mpr inside)
  have placed' := filled.placed placed
  have buffered : Buffered side.1.faults side.2 address few := by
    refine ⟨addWord_lt _ _, ?_, ?_⟩
    · intro index inside
      rw [filled.faults]
      exact (readable index inside).1
    · intro index inside other within same
      rw [placed'.address inside, filled.data] at same
      exact (readable other within).2 index (filled.size ▸ inside) same.symm
  have length : (queue ++ (iterator.rest.take done).map start.1.memory).length = queue.length + done := by
    rw [List.length_append, List.length_map, List.length_take, Nat.min_eq_left long]
  obtain ⟨machine, ran, moved, holds⟩ := ringbufferWrite_done placed' filled.holds buffered small
    (by rw [length, filled.size]; exact fewEq) (by rw [filled.write]; exact bound)
  have notFailed : few ≠ ringbufferUserCopyFailed := by
    have limit : ringbufferUserCopyFailed = 2 ^ 64 - 1 := rfl
    omega
  refine ⟨(machine, { side.2 with write := side.2.write + few }), ?_, ?_⟩
  · simp only [iovecIteratorWriteToRingbuffer, ran]
    rw [if_neg notFailed]
  · have fetched : fetch side.1.memory address few = ((iterator.rest.drop done).take few).map start.1.memory := by
      rw [chunk, List.map_map]
      apply List.map_congr_left
      intro index inside
      exact filled.outside _ (readable index (List.mem_range.mp inside)).2
    constructor
    · exact moved.faults.trans filled.faults
    · exact moved.panicked.trans filled.panicked
    · exact filled.size
    · exact filled.data
    · simp only [filled.write]
      omega
    · intro address outside
      rw [← filled.outside address outside]
      apply moved.kept
      intro index inside
      rw [filled.data]
      exact outside _ (filled.size ▸ slot_lt placed'.positive _ _)
    · rw [fetched, List.append_assoc, ← List.map_append, ← List.take_add] at holds
      exact holds

end Chunks

section Huge

/-- A write of half the address space fails or stops the kernel. -/
theorem writeMove_huge (hole : Hole side.1.faults) (placed : side.2.Placed side.1.faults)
    (holds : Holds side.2 side.1.memory queue) {done : Nat} {outcome : Option Nat} (word : address < wordSize)
    (bound : count < wordSize) (huge : 2 ^ 63 ≤ count)
    (move : iovecIteratorWriteToRingbuffer.move side address count done = (after, outcome)) :
    outcome = none ∨ after.1.panicked = true := by
  cases panicked : after.1.panicked with
  | true => exact .inr rfl
  | false =>
    left
    rcases writeMove_cases hole placed holds.counts word bound (by rw [move]; exact panicked) with
      ⟨_, failed⟩ | ⟨_, short, _⟩
    · rw [move] at failed
      exact failed
    · omega

/-- A loop that asks for half the address space does not land. -/
theorem untilLoop_huge (hole : Hole progress.side.1.faults) (placed : progress.side.2.Placed progress.side.1.faults)
    (holds : Holds progress.side.2 progress.side.1.memory queue) (stands : Stands progress.iterator pre entry post)
    (word : progress.remaining < wordSize)
    (huge : 2 ^ 63 ≤ entry.len - progress.iterator.currentOffset ∨ 2 ^ 63 ≤ progress.remaining) {byteCount : Nat}
    (ran : untilLoop (iovecIteratorWriteToRingbuffer.round inner byteCount) fuel progress = some final) :
    final.failed = true ∨ final.side.1.panicked = true := by
  obtain ⟨again, next, fuel, moved, ran⟩ := untilLoop_first ran
  obtain ⟨read, outcome, reads, move, cases⟩ := round_cases moved
  rw [stands.reads] at reads
  cases reads
  rw [stands.remaining_eq] at move
  have small := (stands.words entry stands.mem).2
  have large := minLong_ge huge (by omega) word
  have result := writeMove_huge hole placed holds (addWord_lt _ _) (minLong_lt (by omega) word) large move
  rcases cases with ⟨_, stop, nextEq⟩ | others
  · subst stop
    simp only [Bool.false_eq_true, ↓reduceIte, Option.some.injEq] at ran
    rw [← ran, nextEq]
    exact .inl rfl
  · right
    have panicked : next.side.1.panicked = true := by
      rcases result with none | panicked
      · rcases others with ⟨some, _⟩ | ⟨_, some, _⟩
        all_goals
          rw [none] at some
          cases some
      · exact panicked
    exact loop_stopped .writeToRingbuffer panicked ran

end Huge

/-- A sound iterator stays sound when it skips a part of its entry. -/
theorem Stands.sound (stands : Stands iterator pre entry post) (within : count ≤ entry.len - iterator.currentOffset)
    (room : count ≤ iterator.left) : (iterator.skipRound entry count).Sound := by
  by_cases whole : iterator.currentOffset + count = entry.len ∧ count < iterator.left
  · obtain ⟨later, others, _, moved, _⟩ := stands.next whole.1 whole.2
    exact ⟨_, _, _, moved⟩
  · exact ⟨_, _, _, stands.stay within room (by omega)⟩

section Loop

variable {start : Machine × Ringbuffer} {byteCount : Nat}

/-- The loop has moved some full chunks and goes on. -/
structure Going (byteCount : Nat) (start : Machine × Ringbuffer) (queue : List Byte) (iterator : IovecIterator)
    (moved : Nat) (progress : Progress (Machine × Ringbuffer)) : Prop where
  filled : Filled iterator start queue moved progress.side
  ahead : Ahead iterator progress.iterator moved
  done : progress.done = moved
  remaining : progress.remaining = min byteCount iterator.left - moved
  failed : progress.failed = false
  wanted : moved ≤ min byteCount iterator.left
  free : moved ≤ start.2.size - queue.length

/-- These facts hold for the whole call. -/
structure Setting (byteCount : Nat) (start : Machine × Ringbuffer) (queue : List Byte) (iterator : IovecIterator) :
    Prop where
  placed : start.2.Placed start.1.faults
  holds : Holds start.2 start.1.memory queue
  calm : start.1.panicked = false
  accessible : Accessible start.1 start.2 iterator (amountOf byteCount iterator start.2 queue)
  bound : start.2.write + amountOf byteCount iterator start.2 queue < wordSize
  sound : iterator.Sound
  small : byteCount < 2 ^ 63
  short : iterator.left < 2 ^ 63

variable (setting : Setting byteCount start queue iterator)
include setting

theorem Setting.left_le : iterator.left ≤ iterator.rest.length := by
  obtain ⟨pre, entry, post, stands⟩ := setting.sound
  have high := stands.high
  rw [IovecIterator.left, IovecIterator.rest, List.length_drop, addresses_length]
  omega

variable {moved : Nat}

section

variable (going : Going byteCount start queue iterator moved progress)
include going

section

variable (stands : Stands progress.iterator pre entry post)
include stands

/-- One round of the loop moves what fits of the next chunk. -/
theorem Going.move (lenEq : len = entry.len - progress.iterator.currentOffset) (short : len < 2 ^ 63)
    (fewEq : few = min (min len (min byteCount iterator.left - moved)) (start.2.size - queue.length - moved)) :
    progress.chunk entry = min len (min byteCount iterator.left - moved) ∧ ∃ after,
        iovecIteratorWriteToRingbuffer.move progress.side (progress.place entry)
          (min len (min byteCount iterator.left - moved)) moved = (after, some few) ∧
        Filled iterator start queue (moved + few) after := by
  have small := setting.small
  have bound := setting.bound
  have left := setting.left_le
  have wanted := going.wanted
  have free := going.free
  unfold amountOf at bound
  constructor
  · rw [Progress.chunk, going.remaining, ← lenEq, minLong_small short (by omega)]
  · apply Filled.chunk setting.placed setting.accessible going.filled going.ahead stands (by omega) (by omega)
      (by rw [fewEq, Nat.sub_sub]) (by unfold amountOf; omega) (by omega) (by omega)

/-- The loop goes on behind a full chunk. -/
theorem Going.skip (filled : Filled iterator start queue (moved + count) after)
    (within : moved + count ≤ min byteCount iterator.left) (fits : moved + count ≤ start.2.size - queue.length) :
    Going byteCount start queue iterator (moved + count)
      ⟨after, progress.iterator.skipRound entry count, subWord progress.remaining count, addWord progress.done count,
        false⟩ := by
  have small := setting.small
  have limit := wordSize_eq
  have remaining := going.remaining
  have left := going.ahead.left
  constructor
  · exact filled
  · refine ⟨?_, ?_, ?_⟩
    · rw [skipRound_iovec, going.ahead.iovec]
    · rw [skipRound_totalSize, going.ahead.totalSize]
    · rw [stands.round_total (by omega), going.ahead.offset, Nat.add_assoc]
  · simp only [going.done]
    exact addWord_eq (by omega)
  · simp only [remaining]
    rw [subWord_eq (by omega) (by omega), Nat.sub_sub]
  · rfl
  · exact within
  · exact fits

omit stands in
/-- A loop that stops with the amount has landed. -/
theorem Going.landed (sound : progress.iterator.Sound) (all : moved = amountOf byteCount iterator start.2 queue) :
    Landed iterator start queue (amountOf byteCount iterator start.2 queue) progress := by
  constructor
  · exact going.failed
  · rw [going.filled.panicked, setting.calm]
  · rw [going.done, all]
  · exact all ▸ going.filled.holds
  · exact going.ahead.iovec
  · exact all ▸ going.ahead.offset
  · exact sound

omit stands in
omit setting in
theorem Going.with_side (filled : Filled iterator start queue moved after) :
    Going byteCount start queue iterator moved { progress with side := after } :=
  ⟨filled, going.ahead, going.done, going.remaining, going.failed, going.wanted, going.free⟩

/-- A full chunk ends the loop exactly when everything is moved. -/
theorem Going.round_full (lenEq : len = entry.len - progress.iterator.currentOffset) (short : len < 2 ^ 63)
    (countEq : count = min len (min byteCount iterator.left - moved)) (positive : 0 < count)
    (fits : count ≤ start.2.size - queue.length - moved) : ∃ after, Going byteCount start queue iterator (moved + count)
        ⟨after, progress.iterator.skipRound entry count, subWord progress.remaining count,
          addWord progress.done count, false⟩ ∧
      ∀ inner, iovecIteratorWriteToRingbuffer.round (inner + 1) byteCount progress =
        some (decide (moved + count ≠ min byteCount iterator.left),
          ⟨after, progress.iterator.skipRound entry count, subWord progress.remaining count,
            addWord progress.done count, false⟩) := by
  have small := setting.small
  have limit := wordSize_eq
  obtain ⟨counted, after, move, filled⟩ := going.move setting stands lenEq short (show count = _ by omega)
  have next := going.skip setting stands filled (by omega) (by omega)
  refine ⟨after, next, ?_⟩
  intro inner
  have remaining := going.remaining
  rw [← countEq] at counted move
  have round := round_moved stands inner byteCount (by omega) (fun _ => Nat.ne_of_gt positive)
    (by rw [counted, going.done]; exact move)
  rw [counted] at round
  rw [round]
  congr 2
  have total := next.ahead.offset
  have size := next.ahead.totalSize
  have done := next.done
  simp only at total size done
  simp only [iovecIteratorWriteToRingbuffer, IovecIterator.finished, total, size, done]
  rw [Bool.eq_iff_iff]
  have left : iterator.left = iterator.totalSize - iterator.totalOffset := rfl
  simp only [Bool.not_eq_true', Bool.or_eq_false_iff, decide_eq_false_iff_not, decide_not]
  omega

section

variable (smooth : Smooth ((entry.len - progress.iterator.currentOffset) :: post.map Iovec.len)
  (min byteCount iterator.left - moved) (start.2.size - queue.length - moved))
include smooth

/-- A smooth round lands or goes on in the next entry. -/
theorem Going.step_smooth :
    (∃ final, (∀ inner, iovecIteratorWriteToRingbuffer.round (inner + 1) byteCount progress = some (false, final)) ∧
      Landed iterator start queue (amountOf byteCount iterator start.2 queue) final) ∨
    ∃ next later others count, post = later :: others ∧
      (∀ inner, iovecIteratorWriteToRingbuffer.round (inner + 1) byteCount progress = some (true, next)) ∧
      Going byteCount start queue iterator (moved + count) next ∧ Stands next.iterator (pre ++ [entry]) later others ∧
      Smooth ((later.len - next.iterator.currentOffset) :: others.map Iovec.len)
        (min byteCount iterator.left - (moved + count)) (start.2.size - queue.length - (moved + count)) := by
  obtain ⟨len, lenEq⟩ : ∃ len, len = entry.len - progress.iterator.currentOffset := ⟨_, rfl⟩
  rw [← lenEq] at smooth
  obtain ⟨short, smooth⟩ := smooth
  have wanted := going.wanted
  have free := going.free
  by_cases stop : min byteCount iterator.left - moved = 0 ∨ start.2.size - queue.length - moved = 0
  · left
    obtain ⟨counted, after, move, filled⟩ := going.move setting stands lenEq short (show 0 = _ by omega)
    refine ⟨{ progress with side := after }, ?_, ?_⟩
    · intro inner
      exact round_empty stands (inner + 1) byteCount rfl (by rw [counted, going.done]; exact move)
    · exact (going.with_side filled).landed setting ⟨_, _, _, stands⟩ (by unfold amountOf; omega)
  · obtain ⟨positive, fits, later⟩ : 0 < len ∧ min len (min byteCount iterator.left - moved) ≤ _ ∧ _ := by
      rcases smooth with none | none | smooth
      · exact absurd (.inl none) stop
      · exact absurd (.inr none) stop
      · exact smooth
    obtain ⟨count, countEq⟩ : ∃ count, count = min len (min byteCount iterator.left - moved) := ⟨_, rfl⟩
    obtain ⟨after, next, round⟩ := going.round_full setting stands lenEq short countEq (by omega) (by omega)
    have left := going.ahead.left
    rcases Nat.lt_or_ge len (min byteCount iterator.left - moved) with more | last
    · right
      obtain ⟨entry', others, postEq, there, zero⟩ := stands.next (by omega) (show count < _ by omega)
      refine ⟨_, entry', others, count, postEq, ?_, next, there, ?_⟩
      · intro inner
        rw [round inner, decide_eq_true (by omega)]
      · have smooth := later more
        rw [postEq] at smooth
        simp only [zero, Nat.sub_zero]
        rw [show count = len by omega, ← Nat.sub_sub, ← Nat.sub_sub]
        exact smooth
    · left
      refine ⟨_, ?_, next.landed setting (stands.sound (by omega) (by omega)) (by unfold amountOf; omega)⟩
      intro inner
      rw [round inner, decide_eq_false (by omega)]

theorem scatter_smooth : ∃ final, (∀ inner fuel, post.length < fuel →
        untilLoop (iovecIteratorWriteToRingbuffer.round (inner + 1) byteCount) fuel progress = some final) ∧
      Landed iterator start queue (amountOf byteCount iterator start.2 queue) final := by
  induction length : post.length using Nat.strong_induction_on generalizing progress moved pre entry post with
  | _ length ih =>
    rcases going.step_smooth setting stands smooth with
      ⟨final, round, landed⟩ | ⟨next, later, others, count, rfl, round, goes, there, smoother⟩
    · refine ⟨final, ?_, landed⟩
      intro inner fuel enough
      obtain ⟨rest, rfl⟩ := Nat.exists_eq_succ_of_ne_zero (Nat.ne_zero_of_lt enough)
      exact untilLoop_leave (round inner) rest
    · rw [List.length_cons] at length
      obtain ⟨final, ran, landed⟩ := ih others.length (by omega) goes there smoother rfl
      refine ⟨final, ?_, landed⟩
      intro inner fuel enough
      obtain ⟨rest, rfl⟩ := Nat.exists_eq_succ_of_ne_zero (Nat.ne_zero_of_lt enough)
      rw [Nat.succ_eq_add_one, untilLoop_again (round inner)]
      apply ran
      omega

end

end

end

section

variable (hole : Hole start.1.faults) (going : Going byteCount start queue iterator moved progress)
  (stands : Stands progress.iterator pre entry post)
include hole going stands

/-- A chunk that the ring cuts leaves the iterator too far ahead. -/
theorem Going.cut_rough (lenEq : len = entry.len - progress.iterator.currentOffset) (short : len < 2 ^ 63)
    (countEq : count = min len (min byteCount iterator.left - moved))
    (positive : 0 < start.2.size - queue.length - moved) (cut : start.2.size - queue.length - moved < count)
    (ran : untilLoop (iovecIteratorWriteToRingbuffer.round (inner + 1) byteCount) fuel progress = some final) :
    (final.failed = true ∨ final.side.1.panicked = true) ∨
      final.iterator.totalOffset = iterator.totalOffset + (moved + count) := by
  have small := setting.small
  have limit := wordSize_eq
  have left := going.ahead.left
  have remaining := going.remaining
  obtain ⟨counted, after, move, filled⟩ := going.move setting stands lenEq short
    (show start.2.size - queue.length - moved = _ by omega)
  have total := stands.round_total (show count ≤ _ by omega)
  rw [going.ahead.offset, Nat.add_assoc] at total
  rw [← countEq] at counted move
  have round := round_moved stands inner byteCount (by omega) (fun _ => Nat.ne_of_gt positive)
    (by rw [counted, going.done]; exact move)
  rw [counted] at round
  obtain ⟨again, next, fuel, ranRound, ran⟩ := untilLoop_first ran
  rw [round] at ranRound
  cases ranRound
  split at ran
  · obtain ⟨_, later, _, there⟩ := stands.sound (show count ≤ _ by omega) (by omega)
    have rest : subWord progress.remaining (start.2.size - queue.length - moved) < 2 ^ 63 := by
      rw [subWord_eq (by omega) (by omega)]
      omega
    rcases Nat.lt_or_ge (later.len - (progress.iterator.skipRound entry count).currentOffset) (2 ^ 63) with
      short | huge
    · have placed := filled.placed setting.placed
      have full : after.2.freespace = 0 := by
        have long := setting.left_le
        rw [filled.holds.freespace placed, List.length_append, List.length_map, List.length_take, filled.size]
        omega
      obtain ⟨later, full⟩ := writeMove_full placed.size_small placed.positive full (minLong_lt short rest)
      rw [← untilLoop_left ran (round_empty there (inner + 1) byteCount rfl full)]
      exact .inr total
    · exact .inl (untilLoop_huge (filled.faults ▸ hole) (filled.placed setting.placed) filled.holds there
        (Nat.lt_trans rest (by decide)) (.inl huge) ran)
  · cases ran
    exact .inr total

/-- A rough loop does not land. -/
theorem scatter_rough (rough : ¬ Smooth ((entry.len - progress.iterator.currentOffset) :: post.map Iovec.len)
      (min byteCount iterator.left - moved) (start.2.size - queue.length - moved))
    (ran : untilLoop (iovecIteratorWriteToRingbuffer.round (inner + 1) byteCount) fuel progress = some final) :
    ¬ Landed iterator start queue (amountOf byteCount iterator start.2 queue) final := by
  intro landed
  have small := setting.small
  have limit := wordSize_eq
  induction fuel generalizing progress moved pre entry post with
  | zero => simp [untilLoop] at ran
  | succ fuel ih =>
    obtain ⟨len, lenEq⟩ : ∃ len, len = entry.len - progress.iterator.currentOffset := ⟨_, rfl⟩
    rw [← lenEq] at rough
    have remaining := going.remaining
    rcases Nat.lt_or_ge len (2 ^ 63) with short | huge
    · have some : min byteCount iterator.left - moved ≠ 0 ∧ start.2.size - queue.length - moved ≠ 0 :=
        ⟨fun none => rough ⟨short, .inl none⟩, fun none => rough ⟨short, .inr (.inl none)⟩⟩
      obtain ⟨count, countEq⟩ : ∃ count, count = min len (min byteCount iterator.left - moved) := ⟨_, rfl⟩
      rcases Nat.eq_zero_or_pos len with empty | positive
      · obtain ⟨counted, after, move, filled⟩ := going.move setting stands lenEq short (show 0 = _ by omega)
        have round := round_empty stands (inner + 1) byteCount rfl (by rw [counted, going.done]; exact move)
        cases untilLoop_left ran round
        have done := landed.done
        have moved := going.done
        unfold amountOf at done
        simp only at done
        omega
      · rcases Nat.lt_or_ge (start.2.size - queue.length - moved) count with cut | fits
        · have offset := landed.offset
          rcases going.cut_rough setting hole stands lenEq short countEq (by omega) cut ran with wrong | ahead
          · exact landed.calm wrong
          · unfold amountOf at offset
            omega
        · obtain ⟨after, next, round⟩ := going.round_full setting stands lenEq short countEq (by omega) fits
          have left := going.ahead.left
          rcases Nat.lt_or_ge len (min byteCount iterator.left - moved) with more | last
          · obtain ⟨later, others, postEq, there, zero⟩ := stands.next (by omega) (show count < _ by omega)
            rw [untilLoop, round inner, decide_eq_true (by omega)] at ran
            refine ih next there ?_ ran
            intro smooth
            apply rough
            refine ⟨short, .inr (.inr ⟨positive, by omega, fun _ => ?_⟩)⟩
            simp only [zero, Nat.sub_zero] at smooth
            rw [show count = len by omega, ← Nat.sub_sub, ← Nat.sub_sub] at smooth
            rw [postEq]
            exact smooth
          · exact rough ⟨short, .inr (.inr ⟨positive, by omega, fun more => absurd more (by omega)⟩)⟩
    · exact landed.calm (untilLoop_huge (going.filled.faults ▸ hole) (going.filled.placed setting.placed)
        going.filled.holds stands (by omega) (.inl (by omega)) ran)

end

theorem Going.initial : Going byteCount start queue iterator 0
    ⟨start, iterator, minLong byteCount (subWord iterator.totalSize iterator.totalOffset), 0, false⟩ := by
  obtain ⟨pre, entry, post, stands⟩ := setting.sound
  refine ⟨Filled.initial setting.holds, ⟨rfl, rfl, rfl⟩, rfl, ?_, rfl, Nat.zero_le _, Nat.zero_le _⟩
  simp only [stands.left_eq, minLong_small setting.small setting.short, Nat.sub_zero]

end Loop

theorem Stands.lensLeft_eq (stands : Stands iterator pre entry post) :
    iterator.lensLeft = (entry.len - iterator.currentOffset) :: post.map Iovec.len := by
  rw [IovecIterator.lensLeft, stands.list, stands.current, List.drop_left]

/-- The transfer scatters its bytes exactly when no entry on the way is empty or cut by the end of the ring. -/
theorem scatters_iff {byteCount : Nat} {iterator : IovecIterator} {side : Machine × Ringbuffer} {queue : List Byte}
    (hole : Hole side.1.faults) (placed : side.2.Placed side.1.faults) (holds : Holds side.2 side.1.memory queue)
    (calm : side.1.panicked = false) (sound : iterator.Sound) (word : byteCount < wordSize)
    (accessible : Accessible side.1 side.2 iterator (amountOf byteCount iterator side.2 queue))
    (bound : side.2.write + amountOf byteCount iterator side.2 queue < wordSize) :
    Scatters byteCount iterator side queue ↔ byteCount < 2 ^ 63 ∧ iterator.left < 2 ^ 63 ∧
        Smooth iterator.lensLeft (min byteCount iterator.left) (side.2.size - queue.length) := by
  obtain ⟨pre, entry, post, stands⟩ := sound
  constructor
  · rintro ⟨least, progress, ran, landed⟩
    have looped := (run_eq_some landed.failed).mp (ran (least + 1) (Nat.le_succ _))
    by_cases small : byteCount < 2 ^ 63 ∧ iterator.left < 2 ^ 63
    · refine ⟨small.1, small.2, ?_⟩
      have setting : Setting byteCount side queue iterator :=
        ⟨placed, holds, calm, accessible, bound, ⟨_, _, _, stands⟩, small.1, small.2⟩
      by_contra rough
      rw [stands.lensLeft_eq] at rough
      exact scatter_rough setting hole (Going.initial setting) stands rough looped landed
    · have left : iterator.left < wordSize := Nat.lt_of_le_of_lt (Nat.sub_le _ _) stands.bound
      have huge : 2 ^ 63 ≤ minLong byteCount (subWord iterator.totalSize iterator.totalOffset) := by
        rw [stands.left_eq]
        exact minLong_ge (by omega) word left
      have less : minLong byteCount (subWord iterator.totalSize iterator.totalOffset) < wordSize := by
        rw [stands.left_eq]
        exact minLong_lt word left
      exact absurd (untilLoop_huge hole placed holds stands less (.inr huge) looped) landed.calm
  · rintro ⟨small, short, smooth⟩
    have setting : Setting byteCount side queue iterator :=
      ⟨placed, holds, calm, accessible, bound, ⟨_, _, _, stands⟩, small, short⟩
    rw [stands.lensLeft_eq] at smooth
    obtain ⟨final, ran, landed⟩ := scatter_smooth setting (Going.initial setting) stands smooth
    refine ⟨post.length + 1, final, ?_, landed⟩
    intro fuel enough
    obtain ⟨inner, rfl⟩ := Nat.exists_eq_succ_of_ne_zero (show fuel ≠ 0 by omega)
    exact (run_eq_some landed.failed).mpr (ran inner (inner + 1) enough)

theorem freshRing_placed {size : Nat} (positive : 0 < size) (page : size ≤ 0x1000) :
    (freshRing size).Placed gappedMachine.faults := by
  have start : kernelspaceStart = 0xffff800000000000 := rfl
  have limit := wordSize_eq
  have data : (freshRing size).data = kernelspaceStart := rfl
  have length : (freshRing size).size = size := rfl
  refine ⟨by omega, by omega, by omega, ?_⟩
  intro index inside
  have high : kernelspaceStart ≤ addWord kernelspaceStart index := by
    rw [addWord_eq (by omega)]
    omega
  simp [gappedMachine, data, high]

theorem user_accessible {iterator : IovecIterator} (user : ∀ address ∈ iterator.rest, address < userspaceEnd)
    (size amount : Nat) : Accessible gappedMachine (freshRing size) iterator amount := by
  intro address member
  have low := user address (List.mem_of_mem_take member)
  refine ⟨by simp [gappedMachine, low], fun index _ => ?_⟩
  have bottom : userspaceEnd ≤ (freshRing size).data := show userspaceEnd ≤ kernelspaceStart by decide
  omega

/-- Four bytes into two free places return two and move the iterator by four. -/
theorem shortWrite_overruns : Hole gappedMachine.faults ∧ (freshRing 2).Placed gappedMachine.faults ∧ fourBytes.Sound ∧
      Accessible gappedMachine (freshRing 2) fourBytes 4 ∧ Holds (freshRing 2) gappedMachine.memory [] ∧
      ¬ Scatters 4 fourBytes (gappedMachine, freshRing 2) [] := by
  refine ⟨gappedMachine_hole, freshRing_placed (by decide) (by decide), ⟨_, _, _, fourBytes_stands⟩,
    user_accessible (by decide) _ _, freshRing_holds _ _, ?_⟩
  rintro ⟨least, progress, ran, landed⟩
  have offset := landed.offset
  have four : (iovecIteratorWriteToRingbuffer.run (least + 1) 4 fourBytes (gappedMachine, freshRing 2)).map
      (fun progress => progress.iterator.totalOffset) = some 4 := rfl
  rw [ran _ (Nat.le_succ _), Option.map_some, offset] at four
  exact absurd four (by decide)

theorem roomyWrite_scatters :
    Scatters 6 (iovecIteratorInit [⟨0x1000, 4⟩, ⟨0x2000, 4⟩]) (gappedMachine, freshRing 8) [] := by
  have stands : Stands (iovecIteratorInit [⟨0x1000, 4⟩, ⟨0x2000, 4⟩]) [] ⟨0x1000, 4⟩ [⟨0x2000, 4⟩] := by
    constructor <;> decide
  refine (scatters_iff gappedMachine_hole (freshRing_placed (by decide) (by decide)) (freshRing_holds _ _) rfl
    ⟨_, _, _, stands⟩ (by decide) (user_accessible (by decide) _ _) (by decide)).mpr ⟨by decide, by decide, ?_⟩
  refine ⟨by decide, .inr (.inr ⟨by decide, by decide, fun _ => ⟨by decide, ?_⟩⟩)⟩
  exact .inr (.inr ⟨by decide, by decide, fun _ => trivial⟩)

end Astral.Io
