import Astral.Construction.FileIo
import Astral.Proof.Words

namespace Astral.Vfs

open Astral.Library

variable {more left right : Nat} {direction : Direction} {outcomes : Outcomes} {result : Except (Errno × State) State}
  {good : State → Prop}

section Covers

/-- The offset of the page that has a byte of the file. -/
def pageOf (position : Nat) : Nat := position / pageSize * pageSize

def placeOf (position : Nat) : Nat := position % pageSize

theorem pageOf_add_placeOf (position : Nat) : pageOf position + placeOf position = position :=
  Nat.div_add_mod' position pageSize

/-- No copy leaves its page. -/
def State.InPages (state : State) : Prop := ∀ copy ∈ state.copies, copy.start + copy.count ≤ pageSize

/-- The first bytes of the caller and the bytes of the file from an offset on agree, and nothing else has changed. -/
def Moved (direction : Direction) (offset : Nat) (before : State) (count : Nat) (state : State) : Prop :=
  match direction with
  | .write =>
    state.buffer = before.buffer ∧
    (∀ index < count, state.pages (pageOf (offset + index)) (placeOf (offset + index)) = before.buffer index) ∧
    ∀ page position, (∀ index < count, page = pageOf (offset + index) → position ≠ placeOf (offset + index)) →
      state.pages page position = before.pages page position
  | .read =>
    state.pages = before.pages ∧
    (∀ index < count, state.buffer index = before.pages (pageOf (offset + index)) (placeOf (offset + index))) ∧
    ∀ index, count ≤ index → state.buffer index = before.buffer index

/-- A part of a transfer is done. -/
structure Covers (direction : Direction) (offset : Nat) (before : State) (count : Nat) (state : State) : Prop where
  done : state.done = count
  inPages : state.InPages
  moved : Moved direction offset before count state

/-- No called function returns an error. -/
structure Outcomes.Smooth (outcomes : Outcomes) : Prop where
  getattr : outcomes.getattr = none
  resize : outcomes.resize = none
  getpage : ∀ index, outcomes.getpage index = none
  copy : ∀ index, outcomes.copy index = none
  sync : ∀ index, outcomes.sync index = none

/-- A transfer may fail only when a called function does, and it stays inside the pages. -/
def Excused (outcomes : Outcomes) (failure : Errno × State) : Prop := failure.2.InPages ∧ ¬ outcomes.Smooth

variable {job : Job} {before state : State} {offset count size : Nat}

/-- The bytes behind a position are on its page as long as they fit. -/
theorem pageOf_add {position step : Nat} (inside : placeOf position + step < pageSize) :
    pageOf (position + step) = pageOf position ∧ placeOf (position + step) = placeOf position + step := by
  unfold pageOf placeOf pageSize at *
  omega

/-- A later byte of the file on the page of a copy. -/
theorem later_place (inside : placeOf (offset + count) + more ≤ pageSize) (index : Nat) (from_here : count ≤ index)
    (below : index < count + more) : pageOf (offset + index) = pageOf (offset + count) ∧
      placeOf (offset + index) = placeOf (offset + count) + (index - count) := by
  have step : offset + index = offset + count + (index - count) := by omega
  rw [step]
  exact pageOf_add (by omega)

/-- What a copy into a page does to one of its bytes. -/
theorem move_write_page (copy : Copy) (state : State) (page position : Nat) :
    (move .write copy state).pages page position =
      if page = copy.page ∧ copy.start ≤ position ∧ position < copy.start + copy.count then
        state.buffer (copy.done + (position - copy.start))
      else state.pages page position := by
  unfold move
  by_cases here : page = copy.page
  · rw [here]
    simp only [Function.update_self, true_and]
  · simp only [Function.update_of_ne here, here, false_and, if_false]

/-- A copy that continues a transfer extends it. -/
theorem move_moved (moved : Moved direction offset before count state)
    (inside : placeOf (offset + count) + more ≤ pageSize) : Moved direction offset before (count + more)
      (move direction ⟨pageOf (offset + count), placeOf (offset + count), count, more⟩ state) := by
  have here := pageOf_add_placeOf (offset + count)
  cases direction with
  | write =>
    obtain ⟨buffer, written, others⟩ := moved
    refine ⟨buffer, ?_, ?_⟩
    · intro index below
      rw [move_write_page]
      by_cases old : index < count
      · have there := pageOf_add_placeOf (offset + index)
        rw [if_neg (by simp only; omega), written index old]
      · obtain ⟨page, place⟩ := later_place inside index (Nat.le_of_not_lt old) below
        rw [if_pos (by simp only; omega), buffer, place]
        congr 1
        simp only
        omega
    · intro page position outside
      rw [move_write_page, if_neg, others page position fun index below => outside index (by omega)]
      intro ⟨same, from_start, to_end⟩
      simp only at same from_start to_end
      obtain ⟨later_page, place⟩ :=
        later_place inside (count + (position - placeOf (offset + count))) (by omega) (by omega)
      apply outside (count + (position - placeOf (offset + count))) (by omega)
      · rw [later_page, same]
      · omega
  | read =>
    obtain ⟨pages, read, others⟩ := moved
    refine ⟨pages, ?_, ?_⟩
    · intro index below
      simp only [move]
      by_cases old : index < count
      · rw [if_neg (by omega), read index old]
      · obtain ⟨page, place⟩ := later_place inside index (Nat.le_of_not_lt old) below
        rw [if_pos (by omega), pages, page, place]
    · intro index above
      simp only [move]
      rw [if_neg (by omega), others index (by omega)]

/-- Only the bytes count. -/
theorem Moved.congr {other : State} (moved : Moved direction offset before count state)
    (pages : other.pages = state.pages) (buffer : other.buffer = state.buffer) :
    Moved direction offset before count other := by
  cases direction with
  | write | read => simpa only [Moved, pages, buffer] using moved

/-- What the visit of a page has done. -/
structure Visited (job : Job) (copy : Copy) (syncoffset : Nat) (state next : State) : Prop where
  copies : next.copies = state.copies ++ [copy]
  done : next.done = addWord state.done copy.count
  pages : next.pages = (move job.direction copy state).pages
  buffer : next.buffer = (move job.direction copy state).buffer
  synced : job.direction = .write → job.nocache = true → next.synced = state.synced ++ [syncoffset]

/-- A visit fails only when a called function does, and then at most its copy was tried. -/
theorem visit_spec {accepted : Errno × State → Prop} (job : Job) (page start count syncoffset : Nat) (state : State)
    (excused : ¬ job.outcomes.Smooth → ∀ failure : Errno × State,
      failure.2.copies ⊆ state.copies ++ [⟨page, start, state.done, count⟩] → accepted failure) :
    Yields accepted (visit job page start count syncoffset state)
      (Visited job ⟨page, start, state.done, count⟩ syncoffset state) := by
  obtain ⟨direction, nocache, outcomes⟩ := job
  simp only [visit, uncache]
  split
  · next failed => exact excused (fun smooth => by rw [smooth.getpage] at failed; cases failed) _ (by simp)
  split
  · next failed => exact excused (fun smooth => by rw [smooth.copy] at failed; cases failed) _ (by simp)
  cases direction with
  | read => cases nocache <;> exact ⟨rfl, rfl, rfl, rfl, fun wrong => by cases wrong⟩
  | write =>
    cases nocache with
    | false => exact ⟨rfl, rfl, rfl, rfl, fun _ wrong => by cases wrong⟩
    | true =>
      simp only [if_true]
      split
      · next failed => exact excused (fun smooth => by rw [smooth.sync] at failed; cases failed) _ (by simp [move])
      · exact ⟨rfl, rfl, rfl, rfl, fun _ _ => rfl⟩

section

variable (covers : Covers job.direction offset before count state)
include covers

/-- A page is visited at the place where the transfer stands. -/
theorem visit_covers (syncoffset : Nat) (inside : placeOf (offset + count) + more ≤ pageSize)
    (fits : count + more < wordSize) : Yields (Excused job.outcomes)
      (visit job (pageOf (offset + count)) (placeOf (offset + count)) more syncoffset state)
      (Covers job.direction offset before (count + more)) := by
  obtain ⟨rfl, inPages, moved⟩ := covers
  have all : ∀ copy ∈ state.copies ++ [⟨pageOf (offset + state.done), placeOf (offset + state.done), state.done, more⟩],
      copy.start + copy.count ≤ pageSize := List.forall_mem_append.mpr ⟨inPages, List.forall_mem_singleton.mpr inside⟩
  refine (visit_spec job _ _ _ _ _ fun rough failure tried => ?_).imp fun next visited => ⟨?_, ?_, ?_⟩
  · exact ⟨fun copy member => all copy (tried member), rough⟩
  · rw [visited.done, addWord_eq fits]
  · intro copy member
    exact all copy (visited.copies ▸ member)
  · exact (move_moved moved inside).congr visited.pages visited.buffer

/-- The rounds of the loop go over the rest of the range, one page each. -/
theorem visitFrom_covers {rounds index pageoffset : Nat} (small : size < 2 ^ 63) (fits : offset + size < wordSize)
    (within : count ≤ size) (left : rounds = (size - count + 4095) / 4096)
    (aligned : rounds ≠ 0 → offset + count = (pageoffset + index) * 4096) :
    Yields (Excused job.outcomes) (visitFrom job size pageoffset rounds index state)
      (Covers job.direction offset before size) := by
  have word := wordSize_eq
  induction rounds generalizing index count state with
  | zero =>
    have all : count = size := by omega
    rw [← all]
    exact covers
  | succ rounds ih =>
    have page_eq : addWord (mulWord pageoffset pageSize) (index * pageSize) = pageOf (offset + count) := by
      simp only [addWord, mulWord, pageOf, pageSize, word]
      omega
    have place_eq : placeOf (offset + count) = 0 := by
      simp only [placeOf, pageSize]
      omega
    have count_eq : minLong pageSize (subWord size state.done) = min 4096 (size - count) := by
      rw [show pageSize = 4096 from rfl, covers.done, subWord_eq within (by omega), minLong_small (by omega) (by omega)]
    have fits_page : placeOf (offset + count) + min 4096 (size - count) ≤ pageSize := by
      rw [place_eq, show pageSize = 4096 from rfl]
      omega
    have visited := visit_covers covers (pageOf (offset + count)) fits_page (by omega)
    rw [place_eq] at visited
    rw [visitFrom, page_eq, count_eq]
    apply visited.bind
    intro next further
    apply ih further (by omega)
    · omega
    · intro more
      omega

end

theorem roundCount_eq (pagecount : Nat) : roundCount pagecount = pagecount % 2 ^ 52 := by
  have split : wordSize = 2 ^ 52 * pageSize := rfl
  unfold roundCount mulWord
  rw [split, Nat.mul_mod_mul_right, Nat.mul_div_cancel _ (by decide)]

variable (fits : offset + size < wordSize)
include fits

/-- A range whose bytes have no wrap-around is gone over from the page of its first byte on. -/
theorem transfer_eq (job : Job) (positive : 0 < size) (state : State) :
    transfer job size offset state =
      if offset % 4096 ≠ 0 then do
        let count := minLong (4096 - offset % 4096) size
        let state ← visit job (pageOf offset) (offset % 4096) count (mulWord (offset / 4096 + 1) pageSize) state
        visitFrom job size (offset / 4096 + 1) (((offset + size + 4095) / 4096 - offset / 4096 - 1) % 2 ^ 52) 0 state
      else visitFrom job size (offset / 4096) (((offset + size + 4095) / 4096 - offset / 4096) % 2 ^ 52) 0 state := by
  have word := wordSize_eq
  have page : pageSize = 4096 := rfl
  have start : (bytestopages offset size).startoffset = offset % 4096 := rfl
  have first : (bytestopages offset size).pageoffset = offset / 4096 := rfl
  have pages : (bytestopages offset size).pagecount =
      subWord ((offset + size + 4095) / 4096 % 2 ^ 52) (offset / 4096) := by
    simp only [bytestopages, addWord_eq fits, toppage_eq]
    rw [page]
  have first_page : mulWord (offset / 4096) pageSize = pageOf offset := by
    simp only [mulWord, pageOf, page, word]
    omega
  have first_count : subWord pageSize (offset % 4096) = 4096 - offset % 4096 := subWord_eq (by omega) (by omega)
  have next_page : addWord (offset / 4096) 1 = offset / 4096 + 1 := addWord_eq (by omega)
  have all : roundCount (bytestopages offset size).pagecount =
      ((offset + size + 4095) / 4096 - offset / 4096) % 2 ^ 52 := by
    rw [pages, roundCount_eq, subWord, word]
    omega
  have behind : roundCount (subWord (bytestopages offset size).pagecount 1) =
      ((offset + size + 4095) / 4096 - offset / 4096 - 1) % 2 ^ 52 := by
    rw [pages, roundCount_eq, subWord, subWord, word]
    omega
  unfold transfer
  generalize bytestopages offset size = range at start first all behind
  obtain ⟨pageoffset, pagecount, startoffset⟩ := range
  subst start first
  simp only
  rw [first_page, first_count, next_page, all, behind]

theorem transfer_covers (job : Job) (positive : 0 < size) (small : size < 2 ^ 63)
    (covers : Covers job.direction offset before 0 state) :
    Yields (Excused job.outcomes) (transfer job size offset state) (Covers job.direction offset before size) := by
  have page : pageSize = 4096 := rfl
  rw [transfer_eq fits job positive]
  split
  · next unaligned =>
    have first_place : offset % 4096 = placeOf (offset + 0) := rfl
    have inside : placeOf (offset + 0) + min (4096 - offset % 4096) size ≤ pageSize := by omega
    have visited := visit_covers covers (mulWord (offset / 4096 + 1) pageSize) inside (by omega)
    simp only [minLong_small (show 4096 - offset % 4096 < 2 ^ 63 by omega) small]
    apply visited.bind
    intro next further
    apply visitFrom_covers further small fits (by omega)
    · omega
    · intro more
      omega
  · next aligned =>
    apply visitFrom_covers covers small fits (Nat.zero_le _)
    · omega
    · intro _
      omega

end Covers

section Exact

variable {node : Node} {size offset : Nat}

/-- No copy has been tried. -/
def fresh (pages : Nat → Nat → UInt8) (buffer : Nat → UInt8) : State := ⟨pages, buffer, 0, [], []⟩

/-- Copies stay inside their pages. Without an error the whole range is written, and the file is as long as it. -/
def WritesExactly (node : Node) (size offset : Nat) : Prop :=
  ∀ nocache outcomes pages buffer, (vfsWriteIovec nocache outcomes node size offset (fresh pages buffer)).state.InPages ∧
    (outcomes.Smooth → (vfsWriteIovec nocache outcomes node size offset (fresh pages buffer)).error = none ∧
      (vfsWriteIovec nocache outcomes node size offset (fresh pages buffer)).node.size = max node.size (offset + size) ∧
      Covers .write offset (fresh pages buffer) size
        (vfsWriteIovec nocache outcomes node size offset (fresh pages buffer)).state)

/-- Copies stay inside their pages. Without an error the part of the range inside the file is read. -/
def ReadsExactly (node : Node) (size offset : Nat) : Prop :=
  ∀ nocache outcomes pages buffer, (vfsReadIovec nocache outcomes node size offset (fresh pages buffer)).state.InPages ∧
    (outcomes.Smooth → (vfsReadIovec nocache outcomes node size offset (fresh pages buffer)).error = none ∧
      (vfsReadIovec nocache outcomes node size offset (fresh pages buffer)).node = node ∧
      Covers .read offset (fresh pages buffer) (min size (node.size - offset))
        (vfsReadIovec nocache outcomes node size offset (fresh pages buffer)).state)

variable (pages : Nat → Nat → UInt8) (buffer : Nat → UInt8)

theorem fresh_covers (direction : Direction) (offset : Nat) :
    Covers direction offset (fresh pages buffer) 0 (fresh pages buffer) where
  done := rfl
  inPages _ member := absurd member List.not_mem_nil
  moved := by
    cases direction with
    | write => exact ⟨rfl, fun _ below => absurd below (Nat.not_lt_zero _), fun _ _ _ => rfl⟩
    | read => exact ⟨rfl, fun _ below => absurd below (Nat.not_lt_zero _), fun _ _ => rfl⟩

/-- What a call returns when its transfer goes well or is excused. -/
theorem finish_exact (yields : Yields (Excused outcomes) result good) (inPages : ∀ state, good state → state.InPages)
    (node : Node) : (finish node result).state.InPages ∧
      (outcomes.Smooth → (finish node result).error = none ∧ (finish node result).node = node ∧
        good (finish node result).state) := by
  cases result with
  | ok state => exact ⟨inPages state yields, fun _ => ⟨rfl, rfl, yields⟩⟩
  | error failure => exact ⟨yields.1, fun smooth => absurd smooth yields.2⟩

section

variable (positive : 0 < size) (fits : offset + size < wordSize)
include positive fits

theorem addWord_ordered : addWord size offset = offset + size ∧ ¬ offset + size < offset ∧ size ≠ 0 := by
  refine ⟨?_, by omega, by omega⟩
  rw [addWord_eq (by omega), Nat.add_comm]

variable (regular : node.regular = true)
include regular

/-- What a write to a regular file does without overflow. -/
theorem vfsWriteIovec_eq (nocache : Bool) (outcomes : Outcomes) :
    vfsWriteIovec nocache outcomes node size offset (fresh pages buffer) =
      match outcomes.getattr with
      | some error => ⟨some error, node, fresh pages buffer⟩
      | none =>
        match if offset + size > node.size then outcomes.resize else none with
        | some error => ⟨some error, node, fresh pages buffer⟩
        | none =>
          finish { node with size := max node.size (offset + size) }
            (transfer ⟨.write, nocache, outcomes⟩ size offset (fresh pages buffer)) := by
  obtain ⟨sum, ordered, nonempty⟩ := addWord_ordered positive fits
  unfold vfsWriteIovec
  simp only [nonempty, sum, ordered, regular, if_false, Bool.true_and, decide_eq_true_eq, Bool.not_true,
    Bool.false_eq_true]
  cases outcomes.getattr with
  | some error => rfl
  | none =>
    by_cases longer : offset + size > node.size
    · have grows : offset + size ≠ 0 := by omega
      simp only [longer, if_true, grows, ne_eq, not_false_eq_true, Nat.max_eq_right (Nat.le_of_lt longer)]
      rfl
    · simp only [longer, if_false, ne_eq, not_true_eq_false, Nat.max_eq_left (Nat.le_of_not_lt longer)]
      rw [← regular]
      rfl

/-- What a read from a regular file does without overflow. -/
theorem vfsReadIovec_eq (nocache : Bool) (outcomes : Outcomes) :
    vfsReadIovec nocache outcomes node size offset (fresh pages buffer) =
      match outcomes.getattr with
      | some error => ⟨some error, node, fresh pages buffer⟩
      | none =>
        if offset ≥ node.size then ⟨none, node, fresh pages buffer⟩
        else finish node (transfer ⟨.read, nocache, outcomes⟩ (subWord (minLong (offset + size) node.size) offset) offset
          (fresh pages buffer)) := by
  obtain ⟨sum, ordered, nonempty⟩ := addWord_ordered positive fits
  unfold vfsReadIovec
  simp only [nonempty, sum, ordered, regular, if_false, if_true]
  rfl

theorem writes_exactly (small : size < 2 ^ 63) : WritesExactly node size offset := by
  intro nocache outcomes pages buffer
  have start := fresh_covers pages buffer .write offset
  have done := transfer_covers fits ⟨.write, nocache, outcomes⟩ positive small start
  rw [vfsWriteIovec_eq _ _ positive fits regular]
  split
  · next error failed => exact ⟨start.inPages, fun smooth => by rw [smooth.getattr] at failed; cases failed⟩
  split
  · next error failed =>
    exact ⟨start.inPages, fun smooth => by rw [smooth.resize, ite_self] at failed; cases failed⟩
  · obtain ⟨inPages, exact⟩ := finish_exact done (fun _ covers => covers.inPages) _
    refine ⟨inPages, fun smooth => ?_⟩
    obtain ⟨no_error, same, covers⟩ := exact smooth
    exact ⟨no_error, by rw [same], covers⟩

omit positive fits regular in
/-- Both bounds of a read are on the same side of the sign. -/
theorem minLong_agree (agree : left < 2 ^ 63 ↔ right < 2 ^ 63) : minLong left right = min left right := by
  by_cases small : left < 2 ^ 63
  · exact minLong_small small (agree.mp small)
  · exact minLong_large (by omega) (by omega)

theorem reads_exactly (sized : node.size < wordSize)
    (holds : node.size ≤ offset ∨ min size (node.size - offset) < 2 ^ 63 ∧ (offset + size < 2 ^ 63 ↔ node.size < 2 ^ 63)) :
    ReadsExactly node size offset := by
  intro nocache outcomes pages buffer
  have start := fresh_covers pages buffer .read offset
  rw [vfsReadIovec_eq _ _ positive fits regular]
  split
  · next error failed => exact ⟨start.inPages, fun smooth => by rw [smooth.getattr] at failed; cases failed⟩
  split
  · next behind =>
    refine ⟨start.inPages, fun _ => ⟨rfl, rfl, ?_⟩⟩
    rw [show min size (node.size - offset) = 0 by omega]
    exact start
  · next inside =>
    rcases holds with behind | ⟨small, agree⟩
    · exact absurd behind inside
    have limited : subWord (minLong (offset + size) node.size) offset = min size (node.size - offset) := by
      rw [minLong_agree agree, subWord_eq (by omega) (by omega)]
      omega
    rw [limited]
    have done := transfer_covers (by omega) ⟨.read, nocache, outcomes⟩ (by omega : 0 < min size (node.size - offset))
      small start
    exact finish_exact done (fun _ covers => covers.inPages) node

end

/-- The copy into the first page fails. -/
def copyFails : Outcomes :=
  ⟨none, none, fun _ => none, fun index => if index = 0 then some (.given 1) else none, fun _ => none⟩

def noneFails : Outcomes := ⟨none, none, fun _ => none, fun _ => none, fun _ => none⟩

theorem noneFails_smooth : noneFails.Smooth := ⟨rfl, rfl, fun _ => rfl, fun _ => rfl, fun _ => rfl⟩

/-- The first copy is larger than a page. -/
theorem visit_large (large : pageSize < size) (direction : Direction) (page start syncoffset : Nat) :
    ∃ state, visit ⟨direction, false, copyFails⟩ page start size syncoffset (fresh pages buffer) =
      .error (.given 1, state) ∧ ¬ state.InPages := by
  refine ⟨{ fresh pages buffer with copies := [⟨page, start, 0, size⟩] }, rfl, ?_⟩
  intro inPages
  have fits := inPages ⟨page, start, 0, size⟩ List.mem_cons_self
  simp only at fits
  omega

/-- A size that is negative as a signed word makes the first copy leave its page, or makes the loop end at once. -/
theorem transfer_large (large : 2 ^ 63 ≤ size) (fits : offset + size < wordSize) (direction : Direction) :
    (∃ state, transfer ⟨direction, false, copyFails⟩ size offset (fresh pages buffer) = .error (.given 1, state) ∧
      ¬ state.InPages) ∨
      transfer ⟨direction, false, noneFails⟩ size offset (fresh pages buffer) = .ok (fresh pages buffer) := by
  have page : pageSize = 4096 := rfl
  have eq (outcomes : Outcomes) := transfer_eq fits ⟨direction, false, outcomes⟩ (by omega) (fresh pages buffer)
  rw [eq, eq]
  by_cases aligned : offset % 4096 = 0
  · simp only [aligned, ne_eq, not_true_eq_false, if_false]
    cases ((offset + size + 4095) / 4096 - offset / 4096) % 2 ^ 52 with
    | zero => exact .inr rfl
    | succ rounds =>
      have count : minLong pageSize (subWord size (fresh pages buffer).done) = size := by
        rw [show (fresh pages buffer).done = 0 from rfl, subWord_eq (Nat.zero_le _) (by omega), Nat.sub_zero,
          minLong_right (by omega) large (by omega)]
      obtain ⟨state, failed, outside⟩ := visit_large pages buffer (by omega : pageSize < size) direction
        (addWord (mulWord (offset / 4096) pageSize) (0 * pageSize)) 0
        (addWord (mulWord (offset / 4096) pageSize) (0 * pageSize))
      left
      refine ⟨state, ?_, outside⟩
      rw [visitFrom, count, failed]
      rfl
  · simp only [aligned, ne_eq, not_false_eq_true, if_true, minLong_right (show 4096 - offset % 4096 < 2 ^ 63 by omega)
      large (by omega)]
    obtain ⟨state, failed, outside⟩ := visit_large pages buffer (by omega : pageSize < size) direction (pageOf offset)
      (offset % 4096) (mulWord (offset / 4096 + 1) pageSize)
    left
    refine ⟨state, ?_, outside⟩
    rw [failed]
    rfl

theorem write_large (regular : node.regular = true) (large : 2 ^ 63 ≤ size) (fits : offset + size < wordSize) :
    ¬ WritesExactly node size offset := by
  intro exact
  have positive : 0 < size := by omega
  rcases transfer_large (fun _ _ => 0) (fun _ => 0) large fits .write with ⟨state, failed, outside⟩ | ended
  · have inPages := (exact false copyFails (fun _ _ => 0) fun _ => 0).1
    rw [vfsWriteIovec_eq _ _ positive fits regular, failed] at inPages
    exact outside (by simpa only [copyFails, ite_self, finish] using inPages)
  · have done := ((exact false noneFails (fun _ _ => 0) fun _ => 0).2 noneFails_smooth).2.2.done
    rw [vfsWriteIovec_eq _ _ positive fits regular, ended] at done
    have nothing : 0 = size := by simpa only [noneFails, ite_self, finish, fresh] using done
    omega

/-- The signed minimum of two words on different sides of the sign is the larger one. -/
theorem minLong_disagree (left_word : left < wordSize) (right_word : right < wordSize)
    (disagree : ¬ (left < 2 ^ 63 ↔ right < 2 ^ 63)) : minLong left right = max left right := by
  by_cases small : left < 2 ^ 63
  · have large : 2 ^ 63 ≤ right := by omega
    rw [minLong_right small large right_word]
    omega
  · have other : right < 2 ^ 63 := by omega
    rw [minLong_left (by omega) left_word other]
    omega

/-- A read that computes a wrong length, or a length that is negative as a signed word. -/
theorem read_wrong (regular : node.regular = true) (positive : 0 < size) (fits : offset + size < wordSize)
    (inside : offset < node.size) (length : Nat)
    (computed : subWord (minLong (offset + size) node.size) offset = length) (short : offset + length < wordSize)
    (wrong : 2 ^ 63 ≤ length ∨ 0 < length ∧ length ≠ min size (node.size - offset)) :
    ¬ ReadsExactly node size offset := by
  intro exact
  have behind : ¬ offset ≥ node.size := Nat.not_le.mpr inside
  by_cases large : 2 ^ 63 ≤ length
  · rcases transfer_large (fun _ _ => 0) (fun _ => 0) large short .read with ⟨state, failed, outside⟩ | ended
    · have inPages := (exact false copyFails (fun _ _ => 0) fun _ => 0).1
      rw [vfsReadIovec_eq _ _ positive fits regular, computed, failed] at inPages
      exact outside (by simpa only [copyFails, if_neg behind, finish] using inPages)
    · have done := ((exact false noneFails (fun _ _ => 0) fun _ => 0).2 noneFails_smooth).2.2.done
      rw [vfsReadIovec_eq _ _ positive fits regular, computed, ended] at done
      have nothing : 0 = min size (node.size - offset) := by
        simpa only [noneFails, if_neg behind, finish, fresh] using done
      omega
  · have done := ((exact false noneFails (fun _ _ => 0) fun _ => 0).2 noneFails_smooth).2.2.done
    have start := fresh_covers (fun _ _ => 0) (fun _ => 0) .read offset
    have covered := transfer_covers short ⟨.read, false, noneFails⟩ (by omega : 0 < length) (by omega) start
    have other := ((finish_exact covered (fun _ covers => covers.inPages) node).2 noneFails_smooth).2.2.done
    rw [vfsReadIovec_eq _ _ positive fits regular, computed] at done
    have same : length = min size (node.size - offset) := by
      rw [← other]
      simpa only [noneFails, if_neg behind] using done
    omega

/-- Writes are exact if and only if the size is no negative long, and reads if and only if they start behind the end
of the file, or read less than that and have both bounds on the same side of the sign. -/
theorem cached_io_exact (regular : node.regular = true) (sized : node.size < wordSize) (positive : 0 < size)
    (fits : offset + size < wordSize) : (WritesExactly node size offset ↔ size < 2 ^ 63) ∧
      (ReadsExactly node size offset ↔ node.size ≤ offset ∨
        min size (node.size - offset) < 2 ^ 63 ∧ (offset + size < 2 ^ 63 ↔ node.size < 2 ^ 63)) := by
  refine ⟨⟨?_, ?_⟩, ?_, ?_⟩
  · intro exact
    by_contra large
    exact write_large regular (by omega) fits exact
  · intro small
    exact writes_exactly positive fits regular small
  · intro exact
    by_contra fails
    rw [not_or, not_and_or] at fails
    obtain ⟨inside, fails⟩ := fails
    by_cases agree : offset + size < 2 ^ 63 ↔ node.size < 2 ^ 63
    · have large : 2 ^ 63 ≤ min size (node.size - offset) := by
        rcases fails with large | disagree
        · omega
        · exact absurd agree disagree
      apply read_wrong regular positive fits (by omega) (min size (node.size - offset)) _ (by omega) (.inl large) exact
      rw [minLong_agree agree, subWord_eq (by omega) (by omega)]
      omega
    · apply read_wrong regular positive fits (by omega) (max (offset + size) node.size - offset) _ (by omega)
        (.inr ⟨by omega, by omega⟩) exact
      rw [minLong_disagree fits sized agree, subWord_eq (by omega) (by omega)]
  · intro holds
    exact reads_exactly positive fits regular sized holds

/-- A write of one byte at the end of a page, and a read behind the end of the file. -/
theorem one_byte_exact : WritesExactly ⟨true, 0⟩ 1 4095 ∧ ReadsExactly ⟨true, 4096⟩ 2 4095 := by
  constructor
  · exact (cached_io_exact rfl (by decide) (by decide) (by decide)).1.mpr (by decide)
  · exact (cached_io_exact rfl (by decide) (by decide) (by decide)).2.mpr (.inr ⟨by decide, by decide⟩)

/-- A read of a short file copies far more than a page from the page that it looked up. -/
theorem read_leaves_page :
    (vfsReadIovec false copyFails ⟨true, 10⟩ (2 ^ 63) 1 (fresh (fun _ _ => 0) fun _ => 0)).state.copies =
      [⟨0, 1, 0, 2 ^ 63⟩] ∧ ¬ ReadsExactly ⟨true, 10⟩ (2 ^ 63) 1 := by
  have copied : (vfsReadIovec false copyFails ⟨true, 10⟩ (2 ^ 63) 1 (fresh (fun _ _ => 0) fun _ => 0)).state.copies =
      [⟨0, 1, 0, 2 ^ 63⟩] := by decide +kernel
  refine ⟨copied, fun exact => ?_⟩
  have inPages := (exact false copyFails (fun _ _ => 0) fun _ => 0).1
  rw [State.InPages, copied] at inPages
  exact absurd (inPages _ List.mem_cons_self) (by decide)

end Exact

section Uncached

variable {node : Node} {size offset : Nat}

/-- Behind every copy that changed something, the page of the copy was written back. -/
def State.WrittenBack (state : State) : Prop :=
  ∀ (place : Nat) (copy : Copy), state.copies[place]? = some copy → copy.count ≠ 0 →
    ∃ later, place ≤ later ∧ state.synced[later]? = some copy.page

/-- An uncached write that returns no error has written back what it changed. -/
def WritesBack (node : Node) (size offset : Nat) : Prop :=
  ∀ outcomes pages buffer result, vfsWriteIovec true outcomes node size offset (fresh pages buffer) = result →
    result.error = none → result.state.WrittenBack

/-- The loop syncs the pages that it copies. -/
theorem visitFrom_syncs (outcomes : Outcomes) (size pageoffset rounds index : Nat) (state : State) :
    Yields (fun _ => ¬ outcomes.Smooth) (visitFrom ⟨.write, true, outcomes⟩ size pageoffset rounds index state)
      fun next => ∃ more : List Copy, next.copies = state.copies ++ more ∧
        next.synced = state.synced ++ more.map Copy.page ∧ more.map Copy.page =
          (List.range' index rounds).map fun round => addWord (mulWord pageoffset pageSize) (round * pageSize) := by
  induction rounds generalizing index state with
  | zero => exact ⟨[], by simp⟩
  | succ rounds ih =>
    refine (visit_spec _ _ _ _ _ _ fun rough _ _ => rough).bind fun middle visited => (ih (index + 1) middle).imp ?_
    rintro next ⟨more, later, still, all⟩
    rw [visited.copies, List.append_assoc] at later
    rw [visited.synced rfl rfl, List.append_assoc] at still
    exact ⟨_, later, still, by rw [List.range'_succ, List.singleton_append, List.map_cons, List.map_cons, all]⟩

/-- The first page of a range is synced only if the range begins with it. -/
theorem transfer_syncs (positive : 0 < size) (fits : offset + size < wordSize) (outcomes : Outcomes)
    (pages : Nat → Nat → UInt8) (buffer : Nat → UInt8) :
    Yields (fun _ => ¬ outcomes.Smooth) (transfer ⟨.write, true, outcomes⟩ size offset (fresh pages buffer))
      fun next => next.WrittenBack ↔ offset % 4096 = 0 := by
  have word := wordSize_eq
  rw [transfer_eq fits _ positive]
  split
  · next unaligned =>
    refine (visit_spec _ _ _ _ _ _ fun rough _ _ => rough).bind fun middle visited => (visitFrom_syncs ..).imp ?_
    rintro next ⟨more, later, still, all⟩
    rw [visited.copies] at later
    rw [visited.synced rfl rfl, all] at still
    refine iff_of_false (fun back => ?_) unaligned
    have changed : minLong (4096 - offset % 4096) size ≠ 0 := by
      unfold minLong
      split <;> omega
    obtain ⟨place, -, found⟩ := back 0 _ (by rw [later]; rfl) changed
    have inside := List.mem_of_getElem? found
    simp only [still, fresh, List.nil_append, List.singleton_append, List.mem_cons, List.mem_map,
      List.mem_range'_1, mulWord, addWord, pageOf, pageSize, word] at inside
    omega
  · next aligned =>
    apply (visitFrom_syncs ..).imp
    rintro next ⟨more, later, still, -⟩
    refine iff_of_true (fun place copy found _ => ⟨place, Nat.le_refl _, ?_⟩) (not_not.mp aligned)
    have copied : next.copies = more := later
    have synced : next.synced = more.map Copy.page := still
    rw [synced, List.getElem?_map, ← copied, found]
    rfl

theorem finish_syncs (node : Node) (yields : Yields (fun _ => ¬ outcomes.Smooth) result good) :
    (outcomes.Smooth → (finish node result).error = none) ∧
      ((finish node result).error = none → good (finish node result).state) := by
  cases result with
  | ok state => exact ⟨fun _ => rfl, fun _ => yields⟩
  | error failure => exact ⟨fun smooth => absurd smooth yields, fun returned => by cases returned⟩

/-- Inside a block device, exactly the writes that begin with a page are written back before an uncached write returns. -/
theorem uncached_write_back_iff (device : node.regular = false) (sized : node.size < wordSize)
    (inside : offset + size ≤ node.size) : WritesBack node size offset ↔ offset % pageSize = 0 ∨ size = 0 := by
  by_cases empty : size = 0
  · refine iff_of_true ?_ (.inr empty)
    rintro outcomes pages buffer result rfl _ place copy found
    simp [vfsWriteIovec, empty, fresh] at found
  obtain ⟨length, computed, positive, fits⟩ : ∃ length, subWord (minLong (offset + size) node.size) offset = length ∧
      0 < length ∧ offset + length < wordSize := by
    unfold minLong
    split
    · exact ⟨_, subWord_eq (by omega) sized, by omega, by omega⟩
    · exact ⟨_, subWord_eq (by omega) (by omega), by omega, by omega⟩
  have call (outcomes : Outcomes) (pages : Nat → Nat → UInt8) (buffer : Nat → UInt8) :
      vfsWriteIovec true outcomes node size offset (fresh pages buffer) =
        match outcomes.getattr with
        | some error => ⟨some error, node, fresh pages buffer⟩
        | none => finish node (transfer ⟨.write, true, outcomes⟩ length offset (fresh pages buffer)) := by
    obtain ⟨sum, ordered, _⟩ := addWord_ordered (Nat.pos_of_ne_zero empty) (Nat.lt_of_le_of_lt inside sized)
    have within : ¬ offset ≥ node.size := by omega
    simp only [vfsWriteIovec, empty, sum, ordered, device, within, computed, if_false, Bool.false_and,
      Bool.false_eq_true, Bool.not_false, if_true]
    rfl
  have syncs (outcomes : Outcomes) (pages : Nat → Nat → UInt8) (buffer : Nat → UInt8) :=
    finish_syncs node (transfer_syncs positive fits outcomes pages buffer)
  constructor
  · intro back
    obtain ⟨returns, exact⟩ := syncs noneFails (fun _ _ => 0) fun _ => 0
    have returned := returns noneFails_smooth
    exact .inl ((exact returned).mp (back _ _ _ _ (call noneFails _ _) returned))
  · rintro (aligned | none_written) outcomes pages buffer result rfl returned
    · rw [call] at returned ⊢
      split at returned
      · cases returned
      · exact ((syncs outcomes pages buffer).2 returned).mpr aligned
    · exact absurd none_written empty

/-- A block of two pages is written back. -/
theorem whole_pages_written_back : WritesBack ⟨false, 16384⟩ 8192 4096 :=
  (uncached_write_back_iff rfl (by decide) (by decide)).mpr (.inl rfl)

/-- A byte inside the first page is written, and the second page is synced. -/
theorem next_page_synced :
    let result := vfsWriteIovec true noneFails ⟨false, 16384⟩ 1 1 (fresh (fun _ _ => 0) fun _ => 0)
    result.error = none ∧ result.state.copies = [⟨0, 1, 0, 1⟩] ∧ result.state.synced = [4096] := by
  decide +kernel

end Uncached

end Astral.Vfs
