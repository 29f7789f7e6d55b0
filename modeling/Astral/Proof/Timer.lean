import Astral.Construction.Timer

namespace Astral.Clock

open Function Astral.Library

variable {elapsed us : Int} {before : Timer} {entry : Entry} {head : Entry} {after : Timer} {id : Nat} {event : Event}

theorem wrap_eq {value : Int} (lower : -2 ^ 63 ≤ value) (upper : value < 2 ^ 63) : wrap value = value :=
  Int.bmod_eq_of_le (by omega) (by omega)

namespace Timer

section Insert

variable {queue : List Entry}

/-- The entry goes before the first one that is due later. -/
def orderedInsert (entry : Entry) (queue : List Entry) : List Entry :=
  queue.orderedInsert (fun first second => first.absolutetick < second.absolutetick) entry

theorem insertBehind_eq (rest : List Entry) (behind : head.absolutetick ≤ entry.absolutetick) :
    insertBehind entry (head :: rest) = head :: orderedInsert entry rest := by
  induction rest generalizing head with
  | nil => rfl
  | cons next rest ih =>
    rw [insertBehind, orderedInsert, List.orderedInsert]
    by_cases later : entry.absolutetick < next.absolutetick
    · rw [if_pos ⟨behind, later⟩, if_pos later]
    · rw [if_neg fun both => later both.2, if_neg later, ih (not_lt.mp later)]
      rfl

theorem insertSorted_eq (entry : Entry) (queue : List Entry) : insertSorted entry queue = orderedInsert entry queue := by
  cases queue with
  | nil => rfl
  | cons head rest =>
    rw [insertSorted, orderedInsert, List.orderedInsert]
    by_cases later : entry.absolutetick < head.absolutetick
    · rw [if_pos later, if_pos later]
    · rw [if_neg later, if_neg later, insertBehind_eq rest (not_lt.mp later)]
      rfl

theorem insertSorted_perm (entry : Entry) (queue : List Entry) : (insertSorted entry queue).Perm (entry :: queue) := by
  rw [insertSorted_eq]
  exact List.perm_orderedInsert _ _ _

/-- The queue is in the order of the ticks. -/
def Sorted (queue : List Entry) : Prop := queue.Pairwise fun first second => first.absolutetick ≤ second.absolutetick

theorem insertSorted_sorted (sorted : Sorted queue) : Sorted (insertSorted entry queue) := by
  rw [insertSorted_eq]
  induction sorted with
  | nil => exact List.pairwise_singleton _ _
  | @cons head rest first ordered ih =>
    rw [orderedInsert, List.orderedInsert]
    split
    · next before =>
      refine .cons (List.forall_mem_cons.mpr ⟨le_of_lt before, fun other member => ?_⟩) (.cons first ordered)
      exact le_trans (le_of_lt before) (first other member)
    · next behind =>
      refine .cons (fun other member => ?_) ih
      rcases List.mem_cons.mp ((List.perm_orderedInsert _ _ _).mem_iff.mp member) with rfl | later
      · exact not_lt.mp behind
      · exact first other later

end Insert

/-- Time does not overflow when something is put off for this long. -/
def Roomy (timer : Timer) (us : Int) : Prop :=
  0 ≤ us ∧ timer.tickcurrent + us * timer.ticksperus < 2 ^ 63

/-- The queue is in order and nothing in it lies in the past. -/
structure Valid (timer : Timer) : Prop where
  ticks_positive : 0 < timer.ticksperus
  limit_positive : 0 < timer.tickLimit
  limit_small : timer.tickLimit < 2 ^ 63
  current : 0 ≤ timer.tickcurrent
  current_small : timer.tickcurrent < 2 ^ 63
  sorted : Sorted timer.queue
  ahead : ∀ entry ∈ timer.queue, timer.tickcurrent ≤ entry.absolutetick
  bounded : ∀ entry ∈ timer.queue, entry.absolutetick < 2 ^ 63

variable {timer : Timer}

theorem Valid.sublist (valid : timer.Valid) {queue : List Entry} (fewer : queue.Sublist timer.queue) :
    { timer with queue }.Valid :=
  { valid with
    sorted := valid.sorted.sublist fewer
    ahead := fun entry member => valid.ahead entry (fewer.subset member)
    bounded := fun entry member => valid.bounded entry (fewer.subset member) }

theorem Valid.head_first (valid : timer.Valid) {rest : List Entry} (queue_eq : timer.queue = head :: rest) :
    ∀ entry ∈ timer.queue, head.absolutetick ≤ entry.absolutetick := by
  have sorted := valid.sorted
  rw [queue_eq] at sorted ⊢
  exact List.forall_mem_cons.mpr ⟨le_refl _, (List.pairwise_cons.mp sorted).1⟩

theorem Valid.deadline (valid : timer.Valid) (roomy : timer.Roomy us) :
    timer.deadline us = timer.tickcurrent + us * timer.ticksperus := by
  have positive : 0 ≤ us * timer.ticksperus := mul_nonneg roomy.1 (le_of_lt valid.ticks_positive)
  have current := valid.current
  have unwrapped : wrap (timer.tickcurrent + us * timer.ticksperus) = timer.tickcurrent + us * timer.ticksperus :=
    wrap_eq (by omega) roomy.2
  unfold Timer.deadline
  rw [unwrapped, if_neg (by omega)]

theorem Valid.insert (valid : timer.Valid) (entry : Entry) (roomy : timer.Roomy us) : (timer.insert entry us).Valid ∧
      (timer.insert entry us).queue.Perm
        ({ entry with absolutetick := timer.tickcurrent + us * timer.ticksperus } :: timer.queue) := by
  have positive : 0 ≤ us * timer.ticksperus := mul_nonneg roomy.1 (le_of_lt valid.ticks_positive)
  have members : (timer.insert entry us).queue.Perm
      ({ entry with absolutetick := timer.tickcurrent + us * timer.ticksperus } :: timer.queue) := by
    unfold Timer.insert
    rw [valid.deadline roomy]
    exact insertSorted_perm _ _
  refine ⟨{ valid with sorted := insertSorted_sorted valid.sorted, ahead := ?_, bounded := ?_ }, members⟩
  · simp only [members.mem_iff, List.forall_mem_cons]
    exact ⟨le_add_of_nonneg_right positive, valid.ahead⟩
  · simp only [members.mem_iff, List.forall_mem_cons]
    exact ⟨roomy.2, valid.bounded⟩

/-- What firing leaves alone. -/
structure Kept (before after : Timer) : Prop where
  tickLimit : after.tickLimit = before.tickLimit
  ticksperus : after.ticksperus = before.ticksperus
  tickcurrent : after.tickcurrent = before.tickcurrent
  running : after.running = before.running

theorem Kept.trans {middle : Timer} (begins : Kept before middle) (continues : Kept middle after) :
    Kept before after where
  tickLimit := continues.tickLimit.trans begins.tickLimit
  ticksperus := continues.ticksperus.trans begins.ticksperus
  tickcurrent := continues.tickcurrent.trans begins.tickcurrent
  running := continues.running.trans begins.running

/-- The entries that come back to the queue when an entry fires. -/
def comesBack (timer : Timer) (entry : Entry) : List Entry :=
  if entry.repeatus ≠ 0 then
    [{ entry with absolutetick := timer.tickcurrent + entry.repeatus * timer.ticksperus }]
  else []

theorem Valid.fire (valid : timer.Valid) (roomy : timer.Roomy entry.repeatus) :
    (timer.fire entry).Valid ∧ Kept timer (timer.fire entry) ∧
      (timer.fire entry).queue.Perm (timer.comesBack entry ++ timer.queue) ∧
      (timer.fire entry).enqueued = timer.enqueued ++ [⟨entry.id, entry.absolutetick, timer.tickcurrent⟩] := by
  unfold Timer.fire comesBack
  split
  · obtain ⟨inserted, members⟩ := valid.insert entry roomy
    exact ⟨{ inserted with }, ⟨rfl, rfl, rfl, rfl⟩, members, rfl⟩
  · exact ⟨{ valid with }, ⟨rfl, rfl, rfl, rfl⟩, List.Perm.refl _, rfl⟩

theorem Kept.roomy (kept : Kept before after) (roomy : before.Roomy us) : after.Roomy us := by
  unfold Roomy
  rw [kept.tickcurrent, kept.ticksperus]
  exact roomy

/-- An entry that comes back is due later. -/
theorem Valid.comesBack_later (valid : timer.Valid) {entry other : Entry} (roomy : timer.Roomy entry.repeatus)
    (member : other ∈ timer.comesBack entry) :
    other.repeatus = entry.repeatus ∧ timer.tickcurrent < other.absolutetick := by
  unfold comesBack at member
  split at member
  · next repeats =>
    rw [List.mem_singleton.mp member]
    have positive : 0 < entry.repeatus * timer.ticksperus :=
      mul_pos (lt_of_le_of_ne roomy.1 (Ne.symm repeats)) valid.ticks_positive
    exact ⟨rfl, lt_add_of_pos_right _ positive⟩
  · cases member

theorem comesBack_repeats (timer : Timer) (repeats : entry.repeatus ≠ 0) :
    ∃ other ∈ timer.comesBack entry, other.repeatus = entry.repeatus := by
  unfold comesBack
  rw [if_pos repeats]
  exact ⟨_, List.mem_singleton.mpr rfl, rfl⟩

theorem Valid.fire_roomy (valid : timer.Valid) (roomy : ∀ other ∈ entry :: timer.queue, timer.Roomy other.repeatus) :
    ∀ other ∈ (timer.fire entry).queue, (timer.fire entry).Roomy other.repeatus := by
  have entry_roomy := roomy entry (by simp)
  obtain ⟨_, kept, members, _⟩ := valid.fire entry_roomy
  intro other member
  apply kept.roomy
  rcases List.mem_append.mp (members.mem_iff.mp member) with returned | old
  · rw [(valid.comesBack_later entry_roomy returned).1]
    exact entry_roomy
  · exact roomy other (by simp [old])

/-- A repeating entry is still queued when it or another one fired. -/
theorem Valid.fire_repeating (valid : timer.Valid) (roomy : timer.Roomy entry.repeatus)
    (repeating : ∃ other ∈ entry :: timer.queue, other.repeatus ≠ 0) :
    ∃ other ∈ (timer.fire entry).queue, other.repeatus ≠ 0 := by
  obtain ⟨_, _, members, _⟩ := valid.fire roomy
  obtain ⟨other, member, repeats⟩ := repeating
  rcases List.mem_cons.mp member with same | old
  · subst same
    obtain ⟨returned, back_member, same_repeat⟩ := comesBack_repeats timer repeats
    exact ⟨returned, members.mem_iff.mpr (List.mem_append.mpr (Or.inl back_member)), same_repeat ▸ repeats⟩
  · exact ⟨other, members.mem_iff.mpr (List.mem_append.mpr (Or.inr old)), repeats⟩

/-- Every due entry fired on its tick. -/
structure Checked (before after : Timer) : Prop where
  valid : after.Valid
  kept : Kept before after
  later : ∀ entry ∈ after.queue, after.tickcurrent < entry.absolutetick
  punctual : ∃ calls, after.enqueued = before.enqueued ++ calls ∧ ∀ call ∈ calls, call.due = call.tick
  repeating : (∃ entry ∈ before.queue, entry.repeatus ≠ 0) → ∃ entry ∈ after.queue, entry.repeatus ≠ 0

/-- The number of entries that are due. -/
def dueCount (timer : Timer) : Nat := timer.queue.countP fun entry => entry.absolutetick = timer.tickcurrent

theorem checkLoop_checked {fuel : Nat} (valid : timer.Valid)
    (roomy : ∀ entry ∈ timer.queue, timer.Roomy entry.repeatus) (enough : timer.dueCount < fuel) :
    ∃ after, checkLoop fuel timer = .ok after ∧ Checked timer after := by
  induction fuel generalizing timer with
  | zero => exact absurd enough (Nat.not_lt_zero _)
  | succ fuel ih =>
    unfold checkLoop
    cases queue_eq : timer.queue with
    | nil =>
      refine ⟨timer, rfl, valid, ⟨rfl, rfl, rfl, rfl⟩, ?_, ⟨[], by simp, by simp⟩, id⟩
      intro entry member
      rw [queue_eq] at member
      cases member
    | cons entry rest =>
      simp only
      split
      · next due =>
        have rest_valid := valid.sublist (queue_eq ▸ List.sublist_cons_self entry rest)
        have entry_roomy : { timer with queue := rest }.Roomy entry.repeatus :=
          roomy entry (by simp [queue_eq])
        obtain ⟨fired_valid, kept, members, called⟩ := rest_valid.fire entry_roomy
        have next_roomy := rest_valid.fire_roomy fun other member => roomy other (queue_eq ▸ member)
        have fewer : ({ timer with queue := rest }.fire entry).dueCount < fuel := by
          have none_back : ({ timer with queue := rest }.comesBack entry).countP
              (fun other : Entry => other.absolutetick = timer.tickcurrent) = 0 := by
            apply List.countP_eq_zero.mpr
            intro other returned
            have later := (rest_valid.comesBack_later entry_roomy returned).2
            simp only [decide_eq_true_eq]
            exact ne_of_gt later
          unfold dueCount at enough ⊢
          rw [queue_eq, List.countP_cons_of_pos (by simpa using due)] at enough
          rw [kept.tickcurrent, members.countP_eq, List.countP_append, none_back, Nat.zero_add]
          exact Nat.lt_of_succ_lt_succ enough
        obtain ⟨after, ran, checked⟩ := ih fired_valid next_roomy fewer
        refine ⟨after, ran, checked.valid, ?_, checked.later, ?_, ?_⟩
        · have start : Kept timer { timer with queue := rest } := ⟨rfl, rfl, rfl, rfl⟩
          exact (start.trans kept).trans checked.kept
        · obtain ⟨calls, enqueued, on_time⟩ := checked.punctual
          refine ⟨⟨entry.id, entry.absolutetick, timer.tickcurrent⟩ :: calls, ?_, ?_⟩
          · rw [enqueued, called, List.append_assoc]
            rfl
          · exact List.forall_mem_cons.mpr ⟨due, on_time⟩
        · intro repeating
          exact checked.repeating (rest_valid.fire_repeating entry_roomy (queue_eq ▸ repeating))
      · next not_due =>
        refine ⟨timer, rfl, valid, ⟨rfl, rfl, rfl, rfl⟩, ?_, ⟨[], by simp, by simp⟩, id⟩
        intro other member
        have first := valid.ahead entry (by simp [queue_eq])
        have behind := valid.head_first queue_eq other member
        omega

theorem Valid.timercheck (valid : timer.Valid) (roomy : ∀ entry ∈ timer.queue, timer.Roomy entry.repeatus) :
    ∃ after, timer.timercheck = .ok after ∧ Checked timer after :=
  checkLoop_checked valid roomy (Nat.lt_succ_of_le List.countP_le_length)

/-- The hardware counts towards a tick that no entry is due before. -/
structure Aimed (timer : Timer) (target : Int) : Prop where
  armed : timer.armed = some target
  positive : 0 < target
  limited : target ≤ timer.tickLimit
  current : timer.currentTarget = timer.tickcurrent + target
  before : ∀ entry ∈ timer.queue, timer.currentTarget ≤ entry.absolutetick

/-- After a check the hardware is armed for the next entry or the largest time that it can count. -/
theorem Checked.armForNextTarget (checked : Checked before after)
    (room : after.tickcurrent + after.tickLimit < 2 ^ 63) :
    after.armForNextTarget.Valid ∧ ∃ target, after.armForNextTarget.Aimed target := by
  obtain ⟨valid, kept, later, _, _⟩ := checked
  have current := valid.current
  have limit := valid.limit_positive
  refine ⟨{ valid with }, ?_⟩
  cases queue_eq : after.queue with
  | nil =>
    have same : after.armForNextTarget =
        { after with currentTarget := wrap (after.tickcurrent + after.tickLimit), armed := some after.tickLimit } := by
      simp only [Timer.armForNextTarget, queue_eq]
    rw [same]
    refine ⟨after.tickLimit, rfl, limit, le_refl _, wrap_eq (by omega) room, ?_⟩
    intro entry member
    rw [queue_eq] at member
    cases member
  | cons head rest =>
    have head_later := later head (by simp [queue_eq])
    have head_bounded := valid.bounded head (by simp [queue_eq])
    have distance : wrap (head.absolutetick - after.tickcurrent) = head.absolutetick - after.tickcurrent :=
      wrap_eq (by omega) (by omega)
    obtain ⟨ticks, ticks_eq⟩ : ∃ ticks, min (head.absolutetick - after.tickcurrent) after.tickLimit = ticks := ⟨_, rfl⟩
    have same : after.armForNextTarget =
        { after with currentTarget := wrap (after.tickcurrent + ticks), armed := some ticks } := by
      simp only [Timer.armForNextTarget, queue_eq, distance, ticks_eq]
    have unwrapped : wrap (after.tickcurrent + ticks) = after.tickcurrent + ticks := wrap_eq (by omega) (by omega)
    rw [same, unwrapped]
    refine ⟨ticks, rfl, by omega, show ticks ≤ after.tickLimit by omega, rfl, ?_⟩
    intro entry member
    have behind := valid.head_first queue_eq entry member
    simp only
    omega

/-- The due entries fired and the hardware was armed. -/
structure Rearmed (before after : Timer) : Prop where
  valid : after.Valid
  aimed : ∃ target, after.Aimed target
  running : after.running = before.running
  punctual : ∃ calls, after.enqueued = before.enqueued ++ calls ∧ ∀ call ∈ calls, call.due = call.tick
  repeating : (∃ entry ∈ before.queue, entry.repeatus ≠ 0) → ∃ entry ∈ after.queue, entry.repeatus ≠ 0

theorem Valid.rearm (valid : timer.Valid) (roomy : ∀ entry ∈ timer.queue, timer.Roomy entry.repeatus)
    (room : timer.tickcurrent + timer.tickLimit < 2 ^ 63) :
    ∃ after, (do
      let checked ← timer.timercheck
      pure checked.armForNextTarget) = Except.ok after ∧ Rearmed timer after := by
  obtain ⟨checked, ran, fired⟩ := valid.timercheck roomy
  obtain ⟨valid_after, aimed⟩ := fired.armForNextTarget (by rw [fired.kept.tickcurrent, fired.kept.tickLimit]; exact room)
  refine ⟨checked.armForNextTarget, bind_ok.mpr ⟨checked, ran, rfl⟩, valid_after, aimed, ?_, ?_, ?_⟩
  · exact fired.kept.running
  · exact fired.punctual
  · exact fired.repeating

/-- The hardware reports at most the target that it was armed with. -/
def Reports (timer : Timer) (elapsed : Int) : Prop := 0 ≤ elapsed ∧ elapsed ≤ timer.armed.getD 0

/-- Time does not overflow before the largest time that the hardware can count has passed twice. -/
structure Ample (timer : Timer) : Prop where
  counting : timer.tickcurrent + 2 * timer.tickLimit < 2 ^ 63
  repeating : ∀ entry ∈ timer.queue,
    0 ≤ entry.repeatus ∧ timer.tickcurrent + timer.tickLimit + entry.repeatus * timer.ticksperus < 2 ^ 63

/-- Time passed, but not beyond any entry. -/
theorem Valid.stopCounter (valid : timer.Valid) (positive : 0 ≤ elapsed) (small : timer.tickcurrent + elapsed < 2 ^ 63)
    (reached : ∀ entry ∈ timer.queue, timer.tickcurrent + elapsed ≤ entry.absolutetick) :
    (timer.stopCounter elapsed).Valid ∧ (timer.stopCounter elapsed).tickcurrent = timer.tickcurrent + elapsed := by
  have current := valid.current
  have unwrapped : (timer.stopCounter elapsed).tickcurrent = timer.tickcurrent + elapsed := wrap_eq (by omega) small
  refine ⟨{ valid with current := ?_, current_small := ?_, ahead := ?_ }, unwrapped⟩ <;> rw [unwrapped]
  · omega
  · exact small
  · exact reached

/-- The queue of a running timer is not due before the tick that the hardware was last armed for. -/
structure Tracked (timer : Timer) : Prop where
  valid : timer.Valid
  armed : ∀ target, timer.armed = some target → timer.running = true ∧ 0 ≤ target ∧ target ≤ timer.tickLimit ∧
    timer.currentTarget = timer.tickcurrent + target
  aimed : timer.running = true → timer.queue ≠ [] → timer.tickcurrent ≤ timer.currentTarget ∧
    timer.currentTarget ≤ timer.tickcurrent + timer.tickLimit ∧
    ∀ entry ∈ timer.queue, timer.currentTarget ≤ entry.absolutetick

theorem Rearmed.tracked (rearmed : Rearmed before after) (running : before.running = true) : after.Tracked := by
  obtain ⟨target, aimed⟩ := rearmed.aimed
  have positive := aimed.positive
  have limited := aimed.limited
  have current := aimed.current
  constructor
  · exact rearmed.valid
  · intro other armed
    rw [aimed.armed, Option.some.injEq] at armed
    subst armed
    exact ⟨rearmed.running.trans running, le_of_lt positive, limited, current⟩
  · intro _ _
    exact ⟨by omega, by omega, aimed.before⟩

/-- No entry fired before it was due. -/
def Punctual (timer : Timer) : Prop := ∀ call ∈ timer.enqueued, call.due ≤ call.tick

theorem Punctual.congr (punctual : before.Punctual) (same : after.enqueued = before.enqueued) : after.Punctual :=
  fun call member => punctual call (same ▸ member)

theorem Rearmed.keeps (rearmed : Rearmed before after) (running : before.running = true)
    (punctual : before.Punctual) : after.Tracked ∧ after.Punctual := by
  obtain ⟨calls, enqueued, on_time⟩ := rearmed.punctual
  refine ⟨rearmed.tracked running, ?_⟩
  intro call member
  rw [enqueued] at member
  rcases List.mem_append.mp member with old | new
  · exact punctual call old
  · exact le_of_eq (on_time call new)

/-- Nothing overflows while the hardware counts. -/
theorem Ample.roomy (ample : timer.Ample) {later : Timer} (speed : later.ticksperus = timer.ticksperus)
    (soon : later.tickcurrent ≤ timer.tickcurrent + timer.tickLimit) (member : entry ∈ timer.queue) :
    later.Roomy entry.repeatus := by
  obtain ⟨positive, small⟩ := ample.repeating entry member
  refine ⟨positive, ?_⟩
  rw [speed]
  omega

/-- Some time passed and the hardware is stopped. -/
structure Begun (before after : Timer) : Prop where
  valid : after.Valid
  running : after.running = before.running
  queue : after.queue = before.queue
  fired : after.fired = before.fired
  enqueued : after.enqueued = before.enqueued
  ticksperus : after.ticksperus = before.ticksperus
  tickLimit : after.tickLimit = before.tickLimit
  currentTarget : after.currentTarget = before.currentTarget
  armed : after.armed = none
  advanced : before.tickcurrent ≤ after.tickcurrent
  soon : after.tickcurrent ≤ before.tickcurrent + before.tickLimit
  target : before.running = true → before.queue ≠ [] → after.tickcurrent ≤ before.currentTarget

theorem Begun.room (begun : Begun before after) (ample : before.Ample) :
    after.tickcurrent + after.tickLimit < 2 ^ 63 := by
  have soon := begun.soon
  have counting := ample.counting
  rw [begun.tickLimit]
  omega

/-- A timer that was stopped and not armed again still has its target before the queue. -/
theorem Begun.tracked (begun : Begun before after) (tracked : before.Tracked) : after.Tracked := by
  refine ⟨begun.valid, ?_, ?_⟩
  · intro target is_armed
    rw [begun.armed] at is_armed
    cases is_armed
  · intro running some_queued
    rw [begun.running] at running
    rw [begun.queue] at some_queued
    obtain ⟨_, target_soon, behind⟩ := tracked.aimed running some_queued
    have advanced := begun.advanced
    rw [begun.currentTarget, begun.tickLimit, begun.queue]
    exact ⟨begun.target running some_queued, by omega, behind⟩

/-- A timer whose hardware is stopped is tracked when it is not running or has no entries. -/
theorem Valid.tracked (valid : timer.Valid) (armed : timer.armed = none)
    (idle : timer.running = true → timer.queue = []) : timer.Tracked := by
  refine ⟨valid, ?_, fun running some_queued => absurd (idle running) some_queued⟩
  intro target is_armed
  rw [armed] at is_armed
  cases is_armed

/-- What an insertion does before it checks the queue. -/
structure Entered (before after : Timer) : Prop where
  valid : after.Valid
  roomy : ∀ entry ∈ after.queue, after.Roomy entry.repeatus
  room : after.tickcurrent + after.tickLimit < 2 ^ 63
  members : ∀ entry ∈ before.queue, entry ∈ after.queue
  running : after.running = before.running
  enqueued : after.enqueued = before.enqueued
  armed : after.armed = none

theorem Begun.insert {started : Timer} (begun : Begun before started) (ample : before.Ample) (id : Nat)
    (repeating : Bool) (positive : 0 ≤ us)
    (small : before.tickcurrent + before.tickLimit + us * before.ticksperus < 2 ^ 63) :
    Entered before ({ started with fired := update started.fired id false }.insert
      { id, absolutetick := 0, repeatus := if repeating then us else 0 } us) := by
  have soon := begun.soon
  have cleared : { started with fired := update started.fired id false }.Valid := { begun.valid with }
  have roomy : { started with fired := update started.fired id false }.Roomy us := by
    refine ⟨positive, ?_⟩
    simp only [begun.ticksperus]
    omega
  obtain ⟨inserted, members⟩ := cleared.insert { id, absolutetick := 0, repeatus := if repeating then us else 0 } roomy
  refine ⟨inserted, ?_, begun.room ample, ?_, begun.running, begun.enqueued, begun.armed⟩
  · intro entry member
    rcases List.mem_cons.mp (members.mem_iff.mp member) with same | old
    · rw [same]
      cases repeating with
      | true => exact roomy
      | false =>
        refine ⟨le_refl 0, ?_⟩
        simp only [Bool.false_eq_true, if_false, zero_mul, add_zero]
        exact inserted.current_small
    · exact ample.roomy begun.ticksperus soon (begun.queue ▸ old)
  · intro entry member
    exact members.mem_iff.mpr (List.mem_cons.mpr (Or.inr (begun.queue.symm ▸ member)))

/-- An interrupt is early when the hardware was armed for less than the time to the first entry. -/
def Early (timer : Timer) (elapsed : Int) : Prop :=
  timer.currentTarget - timer.tickcurrent ≤ elapsed ∧ ∃ head ∈ timer.queue.head?, timer.currentTarget < head.absolutetick

section Calls

variable (tracked : timer.Tracked) (reports : timer.Reports elapsed)
include tracked reports

theorem Tracked.elapsed_small : elapsed ≤ timer.tickLimit := by
  obtain ⟨_, upper⟩ := reports
  cases armed_eq : timer.armed with
  | none =>
    rw [armed_eq] at upper
    exact le_trans upper (le_of_lt tracked.valid.limit_positive)
  | some target =>
    rw [armed_eq] at upper
    exact le_trans upper (tracked.armed target armed_eq).2.2.1

/-- The hardware does not count beyond an entry. -/
theorem Tracked.elapsed_before (member : entry ∈ timer.queue) : timer.tickcurrent + elapsed ≤ entry.absolutetick ∧
      (timer.running = true → timer.tickcurrent + elapsed ≤ timer.currentTarget) := by
  obtain ⟨_, upper⟩ := reports
  have some_queued : timer.queue ≠ [] := List.ne_nil_of_mem member
  cases armed_eq : timer.armed with
  | none =>
    rw [armed_eq, Option.getD_none] at upper
    have ahead := tracked.valid.ahead entry member
    refine ⟨by omega, fun running => ?_⟩
    have aimed := (tracked.aimed running some_queued).1
    omega
  | some target =>
    rw [armed_eq, Option.getD_some] at upper
    obtain ⟨running, _, _, current⟩ := tracked.armed target armed_eq
    have behind := (tracked.aimed running some_queued).2.2 entry member
    exact ⟨by omega, fun _ => by omega⟩

variable (ample : timer.Ample)
include ample

theorem Tracked.stopCounter : Begun timer (timer.stopCounter elapsed) := by
  have small := tracked.elapsed_small reports
  have positive := reports.1
  have counting := ample.counting
  obtain ⟨valid, current⟩ := tracked.valid.stopCounter positive (by omega) fun _ member =>
    (tracked.elapsed_before reports member).1
  refine ⟨valid, rfl, rfl, rfl, rfl, rfl, rfl, rfl, rfl, by omega, by omega, ?_⟩
  intro running some_queued
  obtain ⟨entry, member⟩ := List.exists_mem_of_ne_nil _ some_queued
  rw [current]
  exact (tracked.elapsed_before reports member).2 running

/-- An operation stops the hardware if the timer runs, and finds it stopped otherwise. -/
theorem Tracked.begun : Begun timer (if timer.running then timer.stopCounter elapsed else timer) := by
  by_cases running : timer.running = true
  · rw [if_pos running]
    exact tracked.stopCounter reports ample
  · have unarmed : timer.armed = none := by
      cases armed_eq : timer.armed with
      | none => rfl
      | some target => exact absurd (tracked.armed target armed_eq).1 running
    have limit := tracked.valid.limit_positive
    rw [if_neg running]
    exact ⟨tracked.valid, rfl, rfl, rfl, rfl, rfl, rfl, rfl, unarmed, le_refl _, by omega,
      fun now => absurd now running⟩

/-- An insertion checks the queue and arms the hardware if the timer runs. -/
theorem Tracked.timerInsert_cases {repeating : Bool} (positive : 0 ≤ us)
    (small : timer.tickcurrent + timer.tickLimit + us * timer.ticksperus < 2 ^ 63)
    (ran : timer.timerInsert id us repeating elapsed = .ok after) : ∃ entered, Entered timer entered ∧
      ((timer.running = true ∧ Rearmed entered after) ∨ (timer.running ≠ true ∧ after = entered)) := by
  simp only [Timer.timerInsert] at ran
  obtain ⟨_, ran⟩ := unless_ok.mp ran
  have begun := tracked.begun reports ample
  generalize (if timer.running then timer.stopCounter elapsed else timer) = started at begun ran
  have entered := begun.insert ample id repeating positive small
  generalize { started with fired := update started.fired id false }.insert
    { id, absolutetick := 0, repeatus := if repeating then us else 0 } us = prepared at entered ran
  refine ⟨prepared, entered, ?_⟩
  split at ran
  · next is_running =>
    obtain ⟨result, rearm, rearmed⟩ := entered.valid.rearm entered.roomy entered.room
    rw [rearm] at ran
    cases ran
    exact Or.inl ⟨entered.running.symm.trans is_running, rearmed⟩
  · next not_running =>
    cases ran
    exact Or.inr ⟨fun running => not_running (entered.running.trans running), rfl⟩

/-- A removal leaves a fired entry alone, or takes the entry out and arms the hardware for the rest of the queue. -/
theorem Tracked.timerRemove_cases {remaining : Int} (ran : timer.timerRemove id elapsed = .ok (remaining, after)) :
    ∃ started, Begun timer started ∧ (timer.fired id = true ∧ after = started ∨
      ∃ shorter : Timer, shorter.Valid ∧ shorter.armed = none ∧ shorter.running = timer.running ∧
        shorter.enqueued = timer.enqueued ∧ shorter.queue = timer.queue.eraseP (fun entry => entry.id = id) ∧
        (shorter.queue = [] ∧ after = shorter ∨ Rearmed shorter after)) := by
  simp only [Timer.timerRemove] at ran
  have begun := tracked.begun reports ample
  generalize (if timer.running then timer.stopCounter elapsed else timer) = started at begun ran
  refine ⟨started, begun, ?_⟩
  split at ran
  · next has_fired =>
    cases ran
    exact Or.inl ⟨begun.fired ▸ has_fired, rfl⟩
  · split at ran
    · cases ran
    · have shorter := begun.valid.sublist (List.eraseP_sublist (p := fun entry => decide (entry.id = id)))
      right
      refine ⟨{ started with queue := started.queue.eraseP fun entry => entry.id = id }, shorter, begun.armed,
        begun.running, begun.enqueued, by simp only [begun.queue], ?_⟩
      split at ran
      · next empty =>
        cases ran
        exact Or.inl ⟨empty, rfl⟩
      · obtain ⟨result, rearm, rearmed⟩ := shorter.rearm (fun other member =>
          ample.roomy begun.ticksperus begun.soon (begun.queue ▸ List.mem_of_mem_eraseP member)) (begun.room ample)
        obtain ⟨checked, checks, ran⟩ := bind_ok.mp ran
        obtain ⟨also, checked_also, armed_also⟩ := bind_ok.mp rearm
        rw [checks] at checked_also
        cases checked_also
        cases armed_also
        cases ran
        exact Or.inr rearmed

/-- An interrupt checks the queue and arms the hardware, after it fired the first entry if the time was up. -/
theorem Tracked.timerIsr_cases (running : timer.running = true) (some_queued : timer.queue ≠ []) :
    ∃ prepared after, timer.timerIsr elapsed = .ok after ∧ Rearmed prepared after ∧ prepared.running = true ∧
      (timer.Punctual → ¬ timer.Early elapsed → prepared.Punctual) ∧
      ((∃ entry ∈ timer.queue, entry.repeatus ≠ 0) → ∃ entry ∈ prepared.queue, entry.repeatus ≠ 0) := by
  obtain ⟨aimed_after, aimed_soon, behind⟩ := tracked.aimed running some_queued
  have current := tracked.valid.current
  have counting := ample.counting
  have distance : wrap (timer.currentTarget - timer.tickcurrent) = timer.currentTarget - timer.tickcurrent :=
    wrap_eq (by omega) (by omega)
  cases queue_eq : timer.queue with
  | nil => exact absurd queue_eq some_queued
  | cons oldentry rest =>
    simp only [Timer.timerIsr, queue_eq, distance]
    split
    · have begun := tracked.stopCounter reports ample
      obtain ⟨result, rearm, rearmed⟩ := begun.valid.rearm (fun entry member =>
        ample.roomy begun.ticksperus begun.soon (begun.queue ▸ member)) (begun.room ample)
      refine ⟨timer.stopCounter elapsed, result, rearm, rearmed, running, fun punctual _ => punctual, ?_⟩
      intro repeating
      rw [begun.queue, queue_eq]
      exact repeating
    · next expired =>
      obtain ⟨popped, popped_eq⟩ : ∃ popped : Timer, popped =
        { timer with armed := none, tickcurrent := timer.currentTarget, queue := rest } := ⟨_, rfl⟩
      have valid : popped.Valid := by
        have expires : { timer with armed := none, tickcurrent := timer.currentTarget }.Valid :=
          { tracked.valid with
            current := le_trans current aimed_after
            current_small := show timer.currentTarget < 2 ^ 63 by omega
            ahead := behind }
        rw [popped_eq]
        exact expires.sublist (queue_eq ▸ List.sublist_cons_self oldentry rest)
      have members : oldentry :: popped.queue = timer.queue := by rw [popped_eq, queue_eq]
      have roomy : ∀ entry ∈ oldentry :: popped.queue, popped.Roomy entry.repeatus := by
        intro entry member
        rw [members] at member
        apply ample.roomy _ _ member
        · rw [popped_eq]
        · rw [popped_eq]
          exact aimed_soon
      rw [← popped_eq]
      obtain ⟨fired, kept, _, called⟩ := valid.fire (roomy oldentry (by simp))
      have room : (popped.fire oldentry).tickcurrent + (popped.fire oldentry).tickLimit < 2 ^ 63 := by
        rw [kept.tickcurrent, kept.tickLimit, popped_eq]
        simp only
        omega
      obtain ⟨result, rearm, rearmed⟩ := fired.rearm (valid.fire_roomy roomy) room
      refine ⟨popped.fire oldentry, result, rearm, rearmed, ?_, ?_, ?_⟩
      · rw [kept.running, popped_eq]
        exact running
      · intro punctual in_time call member
        rw [called] at member
        rcases List.mem_append.mp member with old | new
        · rw [popped_eq] at old
          exact punctual call old
        · rw [List.mem_singleton.mp new]
          by_contra before_due
          apply in_time
          refine ⟨not_lt.mp expired, oldentry, by rw [queue_eq]; rfl, ?_⟩
          rw [popped_eq] at before_due
          exact not_le.mp before_due
      · intro repeating
        exact valid.fire_repeating (roomy oldentry (by simp)) (members ▸ queue_eq ▸ repeating)

end Calls

/-- An event is in order when nothing overflows, removals and interrupts find the timer running, and no interrupt is
early. -/
def InOrder (timer : Timer) (event : Event) : Prop :=
  timer.Ample ∧
    match event with
    | .insert _ us _ elapsed =>
      timer.Reports elapsed ∧ 0 ≤ us ∧ timer.tickcurrent + timer.tickLimit + us * timer.ticksperus < 2 ^ 63
    | .remove _ elapsed => timer.Reports elapsed ∧ timer.running = true
    | .stop elapsed => timer.Reports elapsed
    | .resume => True
    | .isr elapsed => timer.Reports elapsed ∧ timer.running = true ∧ ¬ timer.Early elapsed

theorem step_remove (ran : step timer (.remove id elapsed) = .ok after) :
    ∃ remaining, timer.timerRemove id elapsed = .ok (remaining, after) := by
  obtain ⟨⟨remaining, _⟩, removed, rfl⟩ := map_ok.mp ran
  exact ⟨remaining, removed⟩

theorem step_tracked (tracked : timer.Tracked) (punctual : timer.Punctual) (in_order : timer.InOrder event)
    (ran : step timer event = .ok after) : after.Tracked ∧ after.Punctual := by
  obtain ⟨ample, in_order⟩ := in_order
  cases event with
  | insert id us repeating elapsed =>
    obtain ⟨reports, positive, small⟩ := in_order
    obtain ⟨entered, begins, ⟨running, rearmed⟩ | ⟨stopped, rfl⟩⟩ :=
      tracked.timerInsert_cases reports ample positive small ran
    · exact rearmed.keeps (begins.running.trans running) (punctual.congr begins.enqueued)
    · refine ⟨begins.valid.tracked begins.armed ?_, punctual.congr begins.enqueued⟩
      intro running
      exact absurd (begins.running.symm.trans running) stopped
  | remove id elapsed =>
    obtain ⟨reports, running⟩ := in_order
    obtain ⟨remaining, removed⟩ := step_remove ran
    obtain ⟨started, begun, ⟨_, rfl⟩ | ⟨shorter, valid, armed, still, enqueued, _, ⟨empty, rfl⟩ | rearmed⟩⟩ :=
      tracked.timerRemove_cases reports ample removed
    · exact ⟨begun.tracked tracked, punctual.congr begun.enqueued⟩
    · exact ⟨valid.tracked armed fun _ => empty, punctual.congr enqueued⟩
    · exact rearmed.keeps (still.trans running) (punctual.congr enqueued)
  | stop elapsed =>
    cases ran
    have begun := tracked.stopCounter in_order ample
    have valid : (timer.timerStop elapsed).Valid := { begun.valid with }
    exact ⟨valid.tracked rfl fun running => absurd running (by simp [Timer.timerStop]), punctual⟩
  | resume =>
    simp only [step, Timer.timerResume] at ran
    have limit := tracked.valid.limit_positive
    have counting := ample.counting
    have started : { timer with running := true }.Valid := { tracked.valid with }
    split at ran
    · next empty =>
      cases ran
      refine ⟨⟨started, ?_, fun _ some_queued => absurd empty some_queued⟩, punctual⟩
      intro target armed
      exact ⟨rfl, (tracked.armed target armed).2⟩
    · have soon : timer.tickcurrent ≤ timer.tickcurrent + timer.tickLimit := by omega
      have room : timer.tickcurrent + timer.tickLimit < 2 ^ 63 := by omega
      obtain ⟨result, rearm, rearmed⟩ := started.rearm (fun entry member => ample.roomy rfl soon member) room
      rw [rearm] at ran
      cases ran
      exact rearmed.keeps rfl punctual
  | isr elapsed =>
    obtain ⟨reports, running, in_time⟩ := in_order
    have some_queued : timer.queue ≠ [] := by
      intro empty
      simp only [step, Timer.timerIsr, empty] at ran
      cases ran
    obtain ⟨prepared, result, interrupted, rearmed, still, keeps_punctual, _⟩ :=
      tracked.timerIsr_cases reports ample running some_queued
    rw [step, interrupted] at ran
    cases ran
    exact rearmed.keeps still (keeps_punctual punctual in_time)

theorem timerNew_tracked {ticksperus tickLimit : Int} (ticks_positive : 0 < ticksperus)
    (limit_positive : 0 < tickLimit) (limit_small : tickLimit < 2 ^ 63) : (timerNew ticksperus tickLimit).Tracked := by
  have valid : (timerNew ticksperus tickLimit).Valid := by
    refine ⟨ticks_positive, limit_positive, limit_small, le_refl 0, ?_, List.Pairwise.nil, ?_, ?_⟩
    · exact show (0 : Int) < 2 ^ 63 by decide
    all_goals
      intro entry member
      cases member
  exact valid.tracked rfl fun _ => rfl

end Timer

/-- In every run in order no entry fires before it is due, and the queue is sorted and does not lie in the past. -/
theorem timer_fires_on_time {ticksperus tickLimit : Int} (ticks_positive : 0 < ticksperus)
    (limit_positive : 0 < tickLimit) (limit_small : tickLimit < 2 ^ 63) {timer : Timer}
    (reached : Reaches step Timer.InOrder (timerNew ticksperus tickLimit) timer) :
    (∀ call ∈ timer.enqueued, call.due ≤ call.tick) ∧
      timer.queue.Pairwise (fun first second => first.absolutetick ≤ second.absolutetick) ∧
      ∀ entry ∈ timer.queue, timer.tickcurrent ≤ entry.absolutetick := by
  have start := Timer.timerNew_tracked ticks_positive limit_positive limit_small
  have none_yet : (timerNew ticksperus tickLimit).Punctual := by
    intro call member
    cases member
  obtain ⟨tracked, punctual⟩ := reached.keeps (fun timer => timer.Tracked ∧ timer.Punctual)
    (fun _ _ _ kept in_order ran => Timer.step_tracked kept.1 kept.2 in_order ran) ⟨start, none_yet⟩
  exact ⟨punctual, tracked.valid.sorted, tracked.valid.ahead⟩

/-- With a thousand ticks in a microsecond, the interrupt at the end of what the hardware can count fires an entry
that is due after fifteen seconds. -/
theorem writer_fires_early : ∃ armed, [Event.insert 0 15000000 true 0, .resume].foldlM step
      (timerNew 1000 0xffffffff) = .ok armed ∧ armed.Reports 0xffffffff ∧
    ∃ after, step armed (.isr 0xffffffff) = .ok after ∧ ⟨0, 15000000000, 0xffffffff⟩ ∈ after.enqueued :=
  ⟨_, rfl, ⟨by decide, by decide⟩, _, rfl, by decide⟩

/-- A short entry fires when it is due. -/
theorem short_entry_on_time : ∃ timer, Reaches step Timer.InOrder (timerNew 1 10) timer ∧
    timer.enqueued = [⟨0, 5, 5⟩] ∧ ∀ call ∈ timer.enqueued, call.due ≤ call.tick := by
  have may_insert : Timer.InOrder (timerNew 1 10) (.insert 0 5 false 0) :=
    ⟨⟨by decide, by decide⟩, ⟨by decide, by decide⟩, by decide, by decide⟩
  have start : Reaches step Timer.InOrder (timerNew 1 10) (timerNew 1 10) := .refl
  have inserted := start.next may_insert rfl
  have resumed := inserted.next (show Timer.InOrder _ .resume from ⟨⟨by decide, by decide⟩, trivial⟩) rfl
  have interrupted := resumed.next (show Timer.InOrder _ (.isr 5) from
    ⟨⟨by decide, by decide⟩, ⟨by decide, by decide⟩, rfl, fun early => absurd early.2 (by decide)⟩) rfl
  exact ⟨_, interrupted, rfl, (timer_fires_on_time (by decide) (by decide) (by decide) interrupted).1⟩

namespace Timer

/-- The timer runs, the hardware is armed, and an entry that repeats is queued. -/
structure Steady (timer : Timer) : Prop where
  tracked : timer.Tracked
  running : timer.running = true
  aimed : ∃ target, timer.Aimed target
  repeating : ∃ entry ∈ timer.queue, entry.repeatus ≠ 0

/-- An event is attended when nothing overflows, and a removal finds its entry queued beside one that repeats. -/
def Attended (timer : Timer) (event : Event) : Prop :=
  timer.Ample ∧
    match event with
    | .insert _ us _ elapsed =>
      timer.Reports elapsed ∧ 0 ≤ us ∧ timer.tickcurrent + timer.tickLimit + us * timer.ticksperus < 2 ^ 63
    | .remove id elapsed =>
      timer.Reports elapsed ∧ timer.fired id = false ∧ ∃ entry ∈ timer.queue, entry.id ≠ id ∧ entry.repeatus ≠ 0
    | .stop _ => False
    | .resume => False
    | .isr elapsed => timer.Reports elapsed

variable {timer : Timer}

theorem Rearmed.steady (rearmed : Rearmed before after) (running : before.running = true)
    (repeating : ∃ entry ∈ before.queue, entry.repeatus ≠ 0) : after.Steady :=
  ⟨rearmed.tracked running, rearmed.running.trans running, rearmed.aimed, rearmed.repeating repeating⟩

theorem Steady.some_queued (steady : timer.Steady) : timer.queue ≠ [] := by
  obtain ⟨entry, member, _⟩ := steady.repeating
  exact List.ne_nil_of_mem member

theorem step_steady (steady : timer.Steady) (attended : timer.Attended event) (ran : step timer event = .ok after) :
    after.Steady := by
  obtain ⟨ample, attended⟩ := attended
  cases event with
  | insert id us repeating elapsed =>
    obtain ⟨reports, positive, small⟩ := attended
    obtain ⟨entered, begins, ⟨_, rearmed⟩ | ⟨stopped, _⟩⟩ :=
      steady.tracked.timerInsert_cases reports ample positive small ran
    · obtain ⟨entry, member, repeats⟩ := steady.repeating
      exact rearmed.steady (begins.running.trans steady.running) ⟨entry, begins.members entry member, repeats⟩
    · exact absurd steady.running stopped
  | remove id elapsed =>
    obtain ⟨reports, not_fired, entry, member, other, repeats⟩ := attended
    obtain ⟨remaining, removed⟩ := step_remove ran
    obtain ⟨started, begun, ⟨has_fired, _⟩ | ⟨shorter, _, _, still, _, queue_eq, last⟩⟩ :=
      steady.tracked.timerRemove_cases reports ample removed
    · rw [not_fired] at has_fired
      cases has_fired
    · have left : entry ∈ shorter.queue := by
        rw [queue_eq]
        exact (List.mem_eraseP_of_neg (by simpa using other)).mpr member
      rcases last with ⟨empty, _⟩ | rearmed
      · rw [empty] at left
        cases left
      · exact rearmed.steady (still.trans steady.running) ⟨entry, left, repeats⟩
  | stop | resume => exact absurd attended id
  | isr elapsed =>
    obtain ⟨prepared, result, interrupted, rearmed, still, _, keeps_repeating⟩ :=
      steady.tracked.timerIsr_cases attended ample steady.running steady.some_queued
    rw [step, interrupted] at ran
    cases ran
    exact rearmed.steady still (keeps_repeating steady.repeating)

end Timer

/-- In every attended run of a timer that runs, the hardware is armed for the first entry or less, and an interrupt
always finds an entry. -/
theorem timer_stays_armed {start timer : Timer} (steady : start.Steady)
    (reached : Reaches step Timer.Attended start timer) : (∃ target, timer.armed = some target ∧ 0 < target ∧
      ∀ head ∈ timer.queue.head?, target ≤ min (head.absolutetick - timer.tickcurrent) timer.tickLimit) ∧
      timer.queue ≠ [] ∧
      (timer.Ample → ∀ elapsed, timer.Reports elapsed → ∃ after, timer.timerIsr elapsed = .ok after) := by
  have kept := reached.keeps Timer.Steady (fun _ _ _ steady attended ran => Timer.step_steady steady attended ran) steady
  obtain ⟨target, aimed⟩ := kept.aimed
  refine ⟨⟨target, aimed.armed, aimed.positive, ?_⟩, kept.some_queued, ?_⟩
  · intro head first
    have behind := aimed.before head (List.mem_of_mem_head? first)
    have current := aimed.current
    have limited := aimed.limited
    omega
  · intro ample elapsed reports
    obtain ⟨_, after, ran, _⟩ := kept.tracked.timerIsr_cases reports ample kept.running kept.some_queued
    exact ⟨after, ran⟩

/-- After the removal of an entry that has fired the hardware stays stopped, and a timer without entries stops the
kernel at the next interrupt. -/
theorem fired_entry_disarms :
    (∃ timer, [Event.insert 0 5 false 0, .insert 1 8 true 0, .resume, .isr 5, .remove 0 1].foldlM step
        (timerNew 1 10) = .ok timer ∧ timer.running = true ∧ timer.queue ≠ [] ∧ timer.armed = none) ∧
      [Event.insert 0 5 false 0, .resume, .isr 5, .isr 10].foldlM step (timerNew 1 10) = .error .assertion :=
  ⟨⟨_, rfl, rfl, by decide, rfl⟩, rfl⟩

/-- A timer with one entry that repeats after eight ticks. -/
def quantumTimer : Timer :=
  { timerNew 1 10 with running := true, queue := [⟨0, 8, 8⟩], currentTarget := 8, armed := some 8 }

theorem quantumTimer_steady : quantumTimer.Steady := by
  have aimed : quantumTimer.Aimed 8 := ⟨rfl, by decide, by decide, rfl, by decide⟩
  have valid : quantumTimer.Valid :=
    ⟨by decide, by decide, by decide, by decide, by decide, List.pairwise_singleton _ _, by decide, by decide⟩
  refine ⟨⟨valid, ?_, fun _ _ => ⟨by decide, by decide, by decide⟩⟩, rfl, ⟨8, aimed⟩, by decide⟩
  intro target armed
  cases armed
  exact ⟨rfl, by decide, by decide, rfl⟩

/-- The timer of the scheduler is armed again after a quantum. -/
theorem quantumTimer_stays_armed : ∃ timer, Reaches step Timer.Attended quantumTimer timer ∧ timer.tickcurrent = 8 ∧
    ∃ target, timer.armed = some target ∧ 0 < target := by
  have start : Reaches step Timer.Attended quantumTimer quantumTimer := .refl
  have may_interrupt : Timer.Attended quantumTimer (.isr 8) := ⟨⟨by decide, by decide⟩, by decide, by decide⟩
  have interrupted := start.next may_interrupt rfl
  obtain ⟨⟨target, armed, positive, _⟩, _⟩ := timer_stays_armed quantumTimer_steady interrupted
  exact ⟨_, interrupted, rfl, target, armed, positive⟩

end Astral.Clock
