import Astral.Construction.Fifo

namespace Astral.Pipefs

open Library

/-- No open waits for an event while both ends are open. -/
def Fifo.Met (fifo : Fifo) : Prop :=
  ∀ waiter ∈ fifo.waiting, waiter.signalled = false → fifo.readers = 0 ∨ fifo.writers = 0

/-- The step that opens the second end signals all that wait. -/
def Fifo.Signals (fifo next : Fifo) : Prop :=
  fifo.readers = 0 ∨ fifo.writers = 0 → 0 < next.readers → 0 < next.writers →
    next.waiting = fifo.waiting.map fun waiter => { waiter with signalled := true }

/-- An open of both ends finds a reader that waits. -/
def Fifo.Overlooks (fifo : Fifo) : FifoCall → Prop
  | .open true true => ⟨true, false⟩ ∈ fifo.waiting
  | _ => False

/-- The opens that wait hold their ends open. -/
structure Fifo.Kept (fifo : Fifo) : Prop where
  readers : fifo.waiting.countP (·.read) ≤ fifo.readers
  writers : fifo.waiting.countP (!·.read) ≤ fifo.writers
  met : fifo.Met

variable {fifo next : Fifo} {call : FifoCall} {read write : Bool}

theorem signals_of_le (readers : next.readers ≤ fifo.readers) (writers : next.writers ≤ fifo.writers) :
    fifo.Signals next := fun before => by omega

section Kept

variable (kept : fifo.Kept)
include kept

theorem Fifo.Kept.signal (read : Bool) : (fifo.signal read).Kept where
  readers := by simpa [Fifo.signal, List.countP_map, Function.comp_def] using kept.readers
  writers := by simpa [Fifo.signal, List.countP_map, Function.comp_def] using kept.writers
  met waiter inside waits := by
    obtain ⟨old, member, rfl⟩ := List.mem_map.mp inside
    exact kept.met old member (by simp_all)

theorem Fifo.Kept.erase (index : Nat) : Fifo.Kept { fifo with waiting := fifo.waiting.eraseIdx index } where
  readers := (List.eraseIdx_sublist ..).countP_le.trans kept.readers
  writers := (List.eraseIdx_sublist ..).countP_le.trans kept.writers
  met waiter inside := kept.met waiter (List.mem_of_mem_eraseIdx inside)

/-- An open that waits without a signal holds one end open, so that the other one is closed. -/
theorem Fifo.Kept.closed (inside : ⟨read, false⟩ ∈ fifo.waiting) :
    if read then fifo.writers = 0 else fifo.readers = 0 := by
  have ends := kept.met _ inside rfl
  cases read with
  | true =>
    have counted : 0 < fifo.waiting.countP (·.read) := List.countP_pos_iff.mpr ⟨_, inside, rfl⟩
    exact ends.resolve_left (counted.trans_le kept.readers).ne'
  | false =>
    have counted : 0 < fifo.waiting.countP (!·.read) := List.countP_pos_iff.mpr ⟨_, inside, rfl⟩
    exact ends.resolve_right (counted.trans_le kept.writers).ne'

theorem open_kept (heeds : ¬ fifo.Overlooks (.open read write)) :
    (fifo.open read write).Kept ∧ fifo.Signals (fifo.open read write) := by
  have readers := kept.readers
  have writers := kept.writers
  fun_cases Fifo.open fifo read write with
  | case1 => exact ⟨kept, signals_of_le le_rfl le_rfl⟩
  | case2 _ raised both =>
    have raises : fifo.writers + write.toNat > 0 ∧ fifo.readers + read.toNat > 0 := both
    have others (waiter : Waiter) (inside : waiter ∈ fifo.waiting) :
        (waiter.signalled || waiter.read != read) = true := by
      obtain ⟨reads, signalled⟩ := waiter
      by_contra waits
      obtain ⟨rfl, rfl⟩ : signalled = false ∧ reads = read := by simpa using waits
      have closed := kept.closed inside
      cases reads <;> cases write <;> simp_all [Fifo.Overlooks]
    have all : (raised.signal read).waiting = fifo.waiting.map fun waiter => { waiter with signalled := true } :=
      List.map_congr_left fun waiter inside => by rw [others waiter inside]
    refine ⟨⟨?_, ?_, fun waiter inside waits => ?_⟩, fun _ _ _ => all⟩
    · rw [all, List.countP_map]
      exact Nat.le_add_right_of_le readers
    · rw [all, List.countP_map]
      exact Nat.le_add_right_of_le writers
    · rw [all] at inside
      obtain ⟨old, _, rfl⟩ := List.mem_map.mp inside
      cases waits
  | case3 valid raised single =>
    have ends : raised.readers = 0 ∨ raised.writers = 0 := by omega
    refine ⟨⟨?_, ?_, fun _ _ _ => ends⟩, fun _ readers writers => absurd ⟨writers, readers⟩ single⟩
    · cases read <;> simp_all [raised]
    · cases read <;> cases write <;> simp_all [raised]

theorem step_kept (moved : fifo.step call = .ok next) (heeds : ¬ fifo.Overlooks call) : next.Kept ∧ fifo.Signals next := by
  revert moved
  fun_cases Fifo.step fifo call with intro moved
  | case1 read write =>
    cases moved
    exact open_kept kept heeds
  | case2 index read found =>
    cases moved
    exact ⟨(kept.erase index).signal read, signals_of_le le_rfl le_rfl⟩
  | case4 index =>
    cases moved
    exact ⟨kept.erase index, signals_of_le le_rfl le_rfl⟩
  | case5 read write guard =>
    cases moved
    refine ⟨⟨Nat.le_sub_of_add_le guard.1, Nat.le_sub_of_add_le guard.2, fun waiter inside waits => ?_⟩,
      signals_of_le (Nat.sub_le ..) (Nat.sub_le ..)⟩
    exact (kept.met waiter inside waits).imp (fun none => by simp [none]) (fun none => by simp [none])
  | case3 | case6 => cases moved

end Kept

/-- After any run in which no open of both ends found a reader waiting, the openers meet in the next step exactly when it
is no such open. -/
theorem openers_meet_iff (reached : Reaches Fifo.step (fun fifo call => ¬ fifo.Overlooks call) ⟨0, 0, []⟩ fifo)
    (moved : fifo.step call = .ok next) : (next.Met ∧ fifo.Signals next) ↔ ¬ fifo.Overlooks call := by
  have kept : fifo.Kept := reached.keeps Fifo.Kept (fun _ _ _ kept heeds moved => (step_kept kept moved heeds).1)
    ⟨le_rfl, le_rfl, fun _ inside => absurd inside List.not_mem_nil⟩
  refine ⟨fun meets overlooks => ?_, fun heeds => (step_kept kept moved heeds).imp_left Fifo.Kept.met⟩
  unfold Fifo.Overlooks at overlooks
  split at overlooks
  · cases moved
    have waits : ⟨true, false⟩ ∈ (fifo.open true true).waiting := by
      simpa [Fifo.open, Fifo.signal] using ⟨_, overlooks, rfl, rfl, rfl⟩
    have ends := meets.1 _ waits rfl
    simp [Fifo.open, Fifo.signal] at ends
  · exact overlooks

/-- A writer that waits is met by a reader. -/
theorem writer_met : ∃ next, Fifo.step ⟨0, 1, [⟨false, false⟩]⟩ (.open true false) = .ok next ∧ next.Met := by
  have moved : Fifo.step ⟨0, 1, [⟨false, false⟩]⟩ (.open true false) = .ok ⟨1, 1, [⟨false, true⟩]⟩ := rfl
  exact ⟨_, moved, ((openers_meet_iff (.single ⟨.open false true, id, rfl⟩) moved).mpr id).1⟩

/-- A reader waits, and an open of both ends does not signal it. -/
theorem reader_overlooked : ∃ fifo next, Fifo.step ⟨0, 0, []⟩ (.open true false) = .ok fifo ∧
    fifo.step (.open true true) = .ok next ∧ next.waiting = [⟨true, false⟩] ∧ ¬ next.Met := by
  refine ⟨_, _, rfl, rfl, rfl, fun met => ?_⟩
  have ends := met ⟨true, false⟩ (List.mem_singleton_self _) rfl
  simp [Fifo.open, Fifo.signal] at ends

end Astral.Pipefs
