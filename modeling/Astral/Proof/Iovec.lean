import Astral.Construction.Iovec
import Astral.Proof.Usercopy

namespace Astral.Io

open Library

/-- The addresses of the bytes of all entries stand in the order of the list. -/
def addresses (iovec : List Iovec) : List Nat :=
  iovec.flatMap fun entry => (List.range entry.len).map (addWord entry.addr)

def lens (iovec : List Iovec) : Nat := (iovec.map Iovec.len).sum

@[simp] theorem lens_nil : lens [] = 0 := rfl

@[simp] theorem lens_cons (entry : Iovec) (rest : List Iovec) : lens (entry :: rest) = entry.len + lens rest := by
  simp [lens]

@[simp] theorem lens_append (first second : List Iovec) : lens (first ++ second) = lens first + lens second := by
  simp [lens]

@[simp] theorem addresses_cons (entry : Iovec) (rest : List Iovec) :
    addresses (entry :: rest) = (List.range entry.len).map (addWord entry.addr) ++ addresses rest := by
  simp [addresses]

@[simp] theorem addresses_append (first second : List Iovec) :
    addresses (first ++ second) = addresses first ++ addresses second := by
  simp [addresses]

@[simp] theorem addresses_length (iovec : List Iovec) : (addresses iovec).length = lens iovec := by
  induction iovec with
  | nil => rfl
  | cons entry rest ih => simp [ih]

/-- The iterator stands in an entry of its list, and its counters say where. -/
structure Stands (iterator : IovecIterator) (pre : List Iovec) (entry : Iovec) (post : List Iovec) : Prop where
  list : iterator.iovec = pre ++ entry :: post
  current : iterator.current = pre.length
  offset : iterator.currentOffset ≤ entry.len
  total : iterator.totalOffset = lens pre + iterator.currentOffset
  low : iterator.totalOffset ≤ iterator.totalSize
  high : iterator.totalSize ≤ lens iterator.iovec
  bound : iterator.totalSize < wordSize
  words : ∀ other ∈ iterator.iovec, other.addr < wordSize ∧ other.len < wordSize

/-- A sound iterator stands somewhere. -/
def IovecIterator.Sound (iterator : IovecIterator) : Prop := ∃ pre entry post, Stands iterator pre entry post

/-- This many bytes are left. -/
def IovecIterator.left (iterator : IovecIterator) : Nat := iterator.totalSize - iterator.totalOffset

/-- These addresses come next. -/
def IovecIterator.rest (iterator : IovecIterator) : List Nat := (addresses iterator.iovec).drop iterator.totalOffset

/-- The first chunk ends with its entry, with the request, or with the list. -/
def firstChunk (byteCount : Nat) (iterator : IovecIterator) (entry : Iovec) : Nat :=
  minLong (entry.len - iterator.currentOffset) (minLong byteCount iterator.left)

section Position

variable {iterator : IovecIterator} {pre post : List Iovec} {entry : Iovec}

section

variable (stands : Stands iterator pre entry post)
include stands

theorem Stands.reads : iterator.iovec[iterator.current]? = some entry := by
  rw [stands.list, stands.current, List.getElem?_append_right (Nat.le_refl _), Nat.sub_self]
  rfl

theorem Stands.mem : entry ∈ iterator.iovec := by
  rw [stands.list]
  exact List.mem_append_right _ List.mem_cons_self

theorem Stands.left_eq : subWord iterator.totalSize iterator.totalOffset = iterator.left :=
  subWord_eq stands.low stands.bound

theorem Stands.remaining_eq : subWord entry.len iterator.currentOffset = entry.len - iterator.currentOffset :=
  subWord_eq stands.offset (stands.words entry stands.mem).2

/-- What is left of the entry comes before the later entries. -/
theorem Stands.rest_eq : iterator.rest = (List.range (entry.len - iterator.currentOffset)).map
      (addWord (addWord entry.addr iterator.currentOffset)) ++ addresses post := by
  have offset := stands.offset
  rw [IovecIterator.rest, stands.list, stands.total, addresses_append, addresses_cons, List.drop_append,
    List.drop_eq_nil_of_le (by rw [addresses_length]; omega), List.nil_append, addresses_length,
    Nat.add_sub_cancel_left, List.drop_append_of_le_length (by simpa using offset)]
  congr 1
  apply List.ext_getElem
  · simp
  · intro index one two
    simp [addWord_assoc]

/-- The next bytes of the entry are consecutive. -/
theorem Stands.chunk {count : Nat} (within : count ≤ entry.len - iterator.currentOffset) :
    iterator.rest.take count = (List.range count).map (addWord (addWord entry.addr iterator.currentOffset)) := by
  rw [stands.rest_eq, List.take_append_of_le_length (by simpa using within), ← List.map_take, List.take_range,
    Nat.min_eq_left within]

end

end Position

section Skip

variable {iterator : IovecIterator} {pre post : List Iovec} {entry : Iovec}

/-- A skip inside the current entry takes one round. -/
theorem Stands.skip (stands : Stands iterator pre entry post) {count : Nat}
    (least : minLong (entry.len - iterator.currentOffset) count = count) (word : count < wordSize) (fuel : Nat) :
    iovecIteratorSkip (fuel + 1) iterator count = some (iterator.skipRound entry count) := by
  have round : subWord count count = 0 := by rw [subWord_eq (Nat.le_refl _) word, Nat.sub_self]
  simp [iovecIteratorSkip, untilLoop, stands.reads, stands.remaining_eq, least, round]

variable {count : Nat}

section

variable (stands : Stands iterator pre entry post)
include stands

theorem Stands.round_total (room : count ≤ iterator.left) :
    (iterator.skipRound entry count).totalOffset = iterator.totalOffset + count := by
  have bound := stands.bound
  have low := stands.low
  unfold IovecIterator.left at room
  have total : addWord iterator.totalOffset count = iterator.totalOffset + count := addWord_eq (by omega)
  unfold IovecIterator.skipRound
  simp only [total]
  split <;> rfl

/-- A round that ends inside the entry or with the last byte stays there. -/
theorem Stands.stay (within : count ≤ entry.len - iterator.currentOffset) (room : count ≤ iterator.left)
    (here : iterator.currentOffset + count ≠ entry.len ∨ count = iterator.left) :
    Stands (iterator.skipRound entry count) pre entry post := by
  have bound := stands.bound
  have low := stands.low
  have offset := stands.offset
  have word := (stands.words entry stands.mem).2
  have total := stands.total
  unfold IovecIterator.left at room here
  have one : addWord iterator.totalOffset count = iterator.totalOffset + count := addWord_eq (by omega)
  have two : addWord iterator.currentOffset count = iterator.currentOffset + count := addWord_eq (by omega)
  unfold IovecIterator.skipRound
  simp only [one, two]
  rw [if_neg (by omega)]
  exact ⟨stands.list, stands.current, by simp only; omega, by simp only; omega, by simp only; omega, stands.high,
    stands.bound, stands.words⟩

/-- A round that ends the entry before the last byte goes to the next one. -/
theorem Stands.next (whole : iterator.currentOffset + count = entry.len) (more : count < iterator.left) :
    ∃ later others, post = later :: others ∧ Stands (iterator.skipRound entry count) (pre ++ [entry]) later others ∧
      (iterator.skipRound entry count).currentOffset = 0 := by
  have bound := stands.bound
  have low := stands.low
  have high := stands.high
  have total := stands.total
  have list := stands.list
  have word := (stands.words entry stands.mem).2
  unfold IovecIterator.left at more
  have one : addWord iterator.totalOffset count = iterator.totalOffset + count := addWord_eq (by omega)
  have two : addWord iterator.currentOffset count = iterator.currentOffset + count := addWord_eq (by omega)
  cases post with
  | nil =>
    rw [list, lens_append, lens_cons, lens_nil] at high
    omega
  | cons later others =>
    refine ⟨later, others, rfl, ?_, ?_⟩
    · unfold IovecIterator.skipRound
      simp only [one, two]
      rw [if_pos (by omega)]
      refine ⟨?_, ?_, Nat.zero_le _, ?_, by simp only; omega, stands.high, stands.bound, stands.words⟩
      · simp [list]
      · simp [stands.current]
      · simp only [lens_append, lens_cons, lens_nil]
        omega
    · unfold IovecIterator.skipRound
      simp only [one, two]
      rw [if_pos (by omega)]

end

end Skip

@[simp] theorem skipRound_iovec (iterator : IovecIterator) (entry : Iovec) (count : Nat) :
    (iterator.skipRound entry count).iovec = iterator.iovec := by
  simp only [IovecIterator.skipRound]
  split <;> rfl

@[simp] theorem skipRound_totalSize (iterator : IovecIterator) (entry : Iovec) (count : Nat) :
    (iterator.skipRound entry count).totalSize = iterator.totalSize := by
  simp only [IovecIterator.skipRound]
  split <;> rfl

/-- What one round of the loop asks of an entry. -/
abbrev Progress.chunk {Side : Type} (progress : Progress Side) (entry : Iovec) : Nat :=
  minLong (entry.len - progress.iterator.currentOffset) progress.remaining

/-- The address at which a round continues in an entry. -/
abbrev Progress.place {Side : Type} (progress : Progress Side) (entry : Iovec) : Nat :=
  addWord entry.addr progress.iterator.currentOffset

section Round

variable {Side : Type} {transfer : Transfer Side} {progress : Progress Side} {pre post : List Iovec} {entry : Iovec}
  (stands : Stands progress.iterator pre entry post) (fuel byteCount : Nat) {side : Side}
include stands

/-- A failed move ends the loop. -/
theorem round_failed
    (move : transfer.move progress.side (progress.place entry) (progress.chunk entry) progress.done = (side, none)) :
    transfer.round fuel byteCount progress = some (false, { progress with side := side, failed := true }) := by
  simp [Transfer.round, stands.reads, stands.remaining_eq, move]

/-- An empty move ends a loop that stops there. -/
theorem round_empty (stops : transfer.stopsEmpty = true)
    (move : transfer.move progress.side (progress.place entry) (progress.chunk entry) progress.done = (side, some 0)) :
    transfer.round fuel byteCount progress = some (false, { progress with side := side }) := by
  simp [Transfer.round, stands.reads, stands.remaining_eq, move, stops]

/-- Any other move skips the whole chunk. -/
theorem round_moved (word : progress.remaining < wordSize) {moved : Nat} (goes : transfer.stopsEmpty = true → moved ≠ 0)
    (move : transfer.move progress.side (progress.place entry) (progress.chunk entry) progress.done =
      (side, some moved)) :
    transfer.round (fuel + 1) byteCount progress =
      some (!(transfer.complete byteCount (subWord progress.remaining moved) (addWord progress.done moved) ||
          (progress.iterator.skipRound entry (progress.chunk entry)).finished),
        ⟨side, progress.iterator.skipRound entry (progress.chunk entry),
          subWord progress.remaining moved, addWord progress.done moved, false⟩) := by
  have offset := stands.offset
  have small := (stands.words entry stands.mem).2
  have skipped := stands.skip (minLong_idem (entry.len - progress.iterator.currentOffset) progress.remaining)
    (minLong_lt (by omega) word) fuel
  simp only [Transfer.round, stands.reads, stands.remaining_eq, move, Option.bind_eq_bind, Option.bind_some]
  rw [if_neg]
  · simp only [skipped, Option.bind_some]
    rfl
  · simpa using goes

end Round

/-- A round moves one chunk and either fails, stops, or skips the chunk. -/
theorem round_cases {Side : Type} {transfer : Transfer Side} {fuel byteCount : Nat} {progress next : Progress Side}
    {again : Bool} (ran : transfer.round fuel byteCount progress = some (again, next)) :
    ∃ entry outcome, progress.iterator.iovec[progress.iterator.current]? = some entry ∧
      transfer.move progress.side (progress.place entry)
        (minLong (subWord entry.len progress.iterator.currentOffset) progress.remaining) progress.done =
          (next.side, outcome) ∧
      (outcome = none ∧ again = false ∧ next = { progress with side := next.side, failed := true } ∨
        outcome = some 0 ∧ again = false ∧ next = { progress with side := next.side } ∨
        ∃ moved, outcome = some moved ∧ (transfer.stopsEmpty = true → moved ≠ 0) ∧
          iovecIteratorSkip fuel progress.iterator
            (minLong (subWord entry.len progress.iterator.currentOffset) progress.remaining) = some next.iterator ∧
          next = ⟨next.side, next.iterator, subWord progress.remaining moved, addWord progress.done moved, false⟩ ∧
          again = !(transfer.complete byteCount next.remaining next.done || next.iterator.finished)) := by
  unfold Transfer.round at ran
  simp only [Option.bind_eq_bind, Option.bind_eq_some_iff] at ran
  obtain ⟨entry, reads, ran⟩ := ran
  generalize moveEq : transfer.move progress.side (progress.place entry)
    (minLong (subWord entry.len progress.iterator.currentOffset) progress.remaining) progress.done = result at ran
  obtain ⟨side, outcome⟩ := result
  cases outcome with
  | none =>
    cases ran
    exact ⟨entry, none, reads, moveEq, .inl ⟨rfl, rfl, rfl⟩⟩
  | some moved =>
    simp only at ran
    split at ran
    · rename_i empty
      cases ran
      rw [Bool.and_eq_true, decide_eq_true_eq] at empty
      exact ⟨entry, some moved, reads, moveEq, .inr (.inl ⟨by rw [empty.2], rfl, rfl⟩)⟩
    · rename_i goes
      rw [Option.bind_eq_some_iff] at ran
      obtain ⟨iterator, skipped, ran⟩ := ran
      cases ran
      exact ⟨entry, some moved, reads, moveEq, .inr (.inr ⟨moved, rfl, by simpa using goes, skipped, rfl, rfl⟩)⟩

/-- A transfer that does not fail returns what its loop returns. -/
theorem run_eq_some {Side : Type} {transfer : Transfer Side} {fuel byteCount : Nat} {iterator : IovecIterator}
    {side : Side} {progress : Progress Side} (calm : progress.failed = false) :
    transfer.run fuel byteCount iterator side = some progress ↔
      transfer.loop fuel byteCount iterator side = some progress := by
  simp only [Transfer.run, Option.bind_eq_bind, Option.bind_eq_some_iff]
  constructor
  · rintro ⟨final, ran, result⟩
    split at result
    · rename_i failed
      obtain ⟨restored, _, same⟩ := Option.bind_eq_some_iff.mp result
      cases same
      rw [calm] at failed
      cases failed
    · cases result
      exact ran
  · intro ran
    refine ⟨progress, ran, ?_⟩
    rw [if_neg (by rw [calm]; decide)]
    rfl

/-- The iterator is in an entry that has bytes left, and has room for this many bytes. -/
structure IovecIterator.Ready (iterator : IovecIterator) (count : Nat) : Prop where
  room : count ≤ iterator.left
  small : iterator.left < 2 ^ 63
  stands : ∃ pre entry post, Stands iterator pre entry post ∧ iterator.currentOffset < entry.len
  filled : ∀ entry ∈ iterator.iovec, 0 < entry.len ∧ entry.len < 2 ^ 63

/-- The current entry takes all of the bytes. -/
def IovecIterator.TakesAll (iterator : IovecIterator) (count : Nat) : Prop :=
  ∀ entry, iterator.iovec[iterator.current]? = some entry → count ≤ entry.len - iterator.currentOffset

/-- The loop has moved some of the bytes and goes on. -/
structure Progress.Ahead {Side : Type} (progress : Progress Side) (total : Nat) : Prop where
  calm : progress.failed = false
  word : total < wordSize
  started : progress.done < total ∨ progress.done = 0 ∧ total = 0
  remaining : progress.remaining = total - progress.done
  ready : progress.iterator.Ready progress.remaining

section Walk

variable {Side : Type} {transfer : Transfer Side} {progress : Progress Side} {total : Nat}
  (stops : transfer.stopsEmpty = true)
  (complete : ∀ remaining done, transfer.complete total remaining done = decide (done = total))
include stops complete

/-- A round that moves its whole chunk ends the entry or the loop. -/
theorem Progress.Ahead.round (goal : Nat → Side) (ahead : progress.Ahead total)
    (move : ∀ address count, progress.done + count ≤ total →
      transfer.move progress.side address count progress.done = (goal (progress.done + count), some count))
    (fuel : Nat) : ∃ again next, transfer.round (fuel + 1) total progress = some (again, next) ∧ next.failed = false ∧
      next.side = goal next.done ∧ next.done ≤ total ∧ (again = false → next.done = total) ∧
      (again = true → next.Ahead total ∧ ¬ progress.iterator.TakesAll progress.remaining ∧
        next.iterator.iovec = progress.iterator.iovec ∧ next.iterator.current = progress.iterator.current + 1) := by
  obtain ⟨pre, entry, post, stands, inside⟩ := ahead.ready.stands
  have started := ahead.started
  have word := ahead.word
  have remaining := ahead.remaining
  have enough := ahead.ready.room
  have small := ahead.ready.small
  have some_len := (ahead.ready.filled entry stands.mem).2
  obtain ⟨count, count_eq⟩ :
      ∃ count, count = min (entry.len - progress.iterator.currentOffset) progress.remaining := ⟨_, rfl⟩
  have chunk : progress.chunk entry = count := by
    rw [Progress.chunk, minLong_small (by omega) (by omega), count_eq]
  have size := wordSize_eq
  have moved : transfer.move progress.side (progress.place entry) (progress.chunk entry) progress.done =
      (goal (progress.done + count), some count) := by
    rw [chunk]
    exact move _ count (by omega)
  rcases Nat.eq_zero_or_pos count with nothing | positive
  · -- Nothing is left to move, and the loop ends.
    rw [nothing, Nat.add_zero] at moved
    refine ⟨_, _, round_empty stands (fuel + 1) total stops moved, ahead.calm, rfl, by simp only; omega,
      fun _ => by simp only; omega, by simp⟩
  · have round := round_moved stands fuel total (by omega) (fun _ => by omega) moved
    have done : addWord progress.done count = progress.done + count := addWord_eq (by omega)
    have left : subWord progress.remaining count = progress.remaining - count := subWord_eq (by omega) (by omega)
    have offset := stands.round_total (show count ≤ progress.iterator.left by omega)
    rw [chunk, done, left, complete] at round
    refine ⟨_, _, round, rfl, rfl, by simp only; omega, ?_, ?_⟩
    · simp only [Bool.not_eq_false', Bool.or_eq_true, decide_eq_true_eq, IovecIterator.finished, offset,
        skipRound_totalSize]
      unfold IovecIterator.left at enough
      omega
    · -- More than the rest of this entry is wanted, so that the loop goes on in the next one.
      simp only [Bool.not_eq_true', Bool.or_eq_false_iff, decide_eq_false_iff_not]
      rintro ⟨incomplete, _⟩
      obtain ⟨later, others, _, there, start⟩ :=
        stands.next (show progress.iterator.currentOffset + count = entry.len by omega) (by omega)
      have member := there.mem
      rw [skipRound_iovec] at member
      refine ⟨⟨rfl, word, .inl (by simp only; omega), by simp only; omega, ?_, ?_, ?_, ?_⟩, ?_, skipRound_iovec .., ?_⟩
      · simp only [IovecIterator.left, offset, skipRound_totalSize]
        unfold IovecIterator.left at enough
        omega
      · simp only [IovecIterator.left, offset, skipRound_totalSize]
        unfold IovecIterator.left at small
        omega
      · exact ⟨_, later, others, there, by rw [start]; exact (ahead.ready.filled later member).1⟩
      · simp only [skipRound_iovec]
        exact ahead.ready.filled
      · intro takes
        have all := takes entry stands.reads
        omega
      · rw [there.current, List.length_append, List.length_singleton, stands.current]

/-- The loop moves all of the bytes. Moves behind the first entry are needed only when it does not take all. -/
theorem Progress.Ahead.loop {goal : Nat → Side} {many : Prop}
    (move : ∀ address count done, done + count ≤ total → done = 0 ∨ many →
      transfer.move (goal done) address count done = (goal (done + count), some count))
    (fuel rounds : Nat) (ahead : progress.Ahead total) (side : progress.side = goal progress.done)
    (begun : progress.done = 0 ∨ many) (enough : many ∨ progress.iterator.TakesAll progress.remaining)
    (ends : progress.iterator.iovec.length ≤ progress.iterator.current + rounds) :
    ∃ final, untilLoop (transfer.round (fuel + 1) total) (rounds + 1) progress = some final ∧
      final.side = goal total ∧ final.done = total ∧ final.failed = false := by
  induction rounds generalizing progress with
  | zero =>
    obtain ⟨_, _, _, stands, _⟩ := ahead.ready.stands
    have reads := stands.reads
    rw [List.getElem?_eq_none (by omega)] at reads
    cases reads
  | succ rounds ih =>
    obtain ⟨again, next, round, calm, next_side, _, ended, goes⟩ := ahead.round stops complete goal
      (fun address count within => by rw [side]; exact move address count _ within begun) fuel
    cases again with
    | false =>
      refine ⟨next, untilLoop_leave round _, ?_, ended rfl, calm⟩
      rw [next_side, ended rfl]
    | true =>
      obtain ⟨next_ahead, more, same, current⟩ := goes rfl
      have many := enough.resolve_right more
      rw [untilLoop_again round]
      exact ih next_ahead next_side (.inr many) (.inl many) (by rw [same, current]; omega)

/-- A transfer that starts at a ready iterator moves all of the bytes. -/
theorem IovecIterator.Ready.run {iterator : IovecIterator} {many : Prop} {fuel : Nat} (goal : Nat → Side)
    (ready : iterator.Ready total) (positive : 0 < total)
    (move : ∀ address count done, done + count ≤ total → done = 0 ∨ many →
      transfer.move (goal done) address count done = (goal (done + count), some count))
    (enough : many ∨ iterator.TakesAll total) (ends : iterator.iovec.length < fuel) :
    ∃ final, transfer.run fuel total iterator (goal 0) = some final ∧
      final.side = goal total ∧ final.done = total ∧ final.failed = false := by
  obtain ⟨rounds, rfl⟩ := Nat.exists_eq_add_of_lt ends
  have room := ready.room
  have small := ready.small
  obtain ⟨_, _, _, stands, _⟩ := ready.stands
  have remaining : minLong total (subWord iterator.totalSize iterator.totalOffset) = total := by
    rw [stands.left_eq, minLong_small (by omega) small, Nat.min_eq_left room]
  have ahead : Progress.Ahead ⟨goal 0, iterator, total, 0, false⟩ total :=
    ⟨rfl, Nat.lt_trans (by omega) (show 2 ^ 63 < wordSize by decide), .inl positive, rfl, ready⟩
  obtain ⟨final, ran, result⟩ := ahead.loop stops complete move (iterator.iovec.length + rounds)
    (iterator.iovec.length + rounds) rfl (.inl rfl) enough (by simp only; omega)
  refine ⟨final, (run_eq_some result.2.2).mpr ?_, result⟩
  rw [Transfer.loop, remaining]
  exact ran

end Walk

/-- Only the gap between the two halves of the address space faults. -/
def gappedMachine : Machine :=
  ⟨fun address => BitVec.ofNat 8 address, fun address => userspaceEnd ≤ address && address < kernelspaceStart, [], false⟩

/-- One entry names four bytes of user memory. -/
def fourBytes : IovecIterator := iovecIteratorInit [⟨0x1000, 4⟩]

theorem gappedMachine_hole : Hole gappedMachine.faults := by
  intro address low high
  simp [gappedMachine, low, high]

theorem fourBytes_stands : Stands fourBytes [] ⟨0x1000, 4⟩ [] := by
  constructor <;> decide

end Astral.Io
