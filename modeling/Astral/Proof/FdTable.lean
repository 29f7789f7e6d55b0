import Astral.Construction.FdTable
import Astral.Library.Exchange

namespace Astral.Fd

open Function Library

variable {newcount start file : Nat} {oldfd newfd : Int} {answer : System × Reply}

/-- The file in a slot. -/
def Proc.entry (proc : Proc) (fd : Nat) : Option Nat := (proc.fd[fd]?).bind Slot.file

/-- The first free descriptor from the start on. -/
structure Proc.Lowest (proc : Proc) (start fd : Nat) : Prop where
  from_start : start ≤ fd
  is_free : proc.entry fd = none
  used : ∀ other, start ≤ other → other < fd → (proc.entry other).isSome

structure Proc.Sound (proc : Proc) : Prop where
  below : ∀ fd < proc.fdfirst, (proc.entry fd).isSome
  small : proc.fdcount ≤ fdtableLimit

def Proc.names (proc : Proc) (file : Nat) : Nat := proc.fd.countP fun slot => slot.file = some file

/-- How many descriptors of all processes name a file. -/
def System.slots (system : System) (file : Nat) : Nat := (system.procs.map fun proc => proc.names file).sum

structure System.Sound (system : System) : Prop where
  procs : ∀ proc ∈ system.procs, proc.Sound
  counts : ∀ file, system.refcount file = system.slots file + system.held file

section Tables

variable {proc next : Proc} {fd : Nat}

theorem entry_beyond (beyond : proc.fdcount ≤ fd) : proc.entry fd = none := by
  rw [Proc.entry, List.getElem?_eq_none beyond, Option.bind_none]

theorem file_nat : proc.file fd = proc.entry fd := by
  simp [Proc.file, Proc.entry]

theorem entry_skipped {index : Nat} (skipped : index < (proc.fd.drop start).findIdx fun slot => slot.file.isNone) :
    (proc.entry (start + index)).isSome := by
  have inside := skipped.trans_le List.findIdx_le_length
  have used := List.not_of_lt_findIdx skipped
  simp only [List.getElem_drop, Option.isNone_eq_false_iff] at used
  rw [List.length_drop] at inside
  rw [Proc.entry, List.getElem?_eq_getElem (by omega), Option.bind_some]
  exact used

theorem getfree_lowest (found : proc.getfree start = some fd) :
    proc.Lowest start fd ∧ (start ≤ proc.fdcount → fd < proc.fdcount) := by
  revert found
  fun_cases Proc.getfree proc start with intro found
  | case2 => cases found
  | case1 sfd different =>
    obtain rfl := Option.some.inj found
    refine ⟨⟨Nat.le_add_right _ _, ?_, fun other low high => ?_⟩, fun inside => ?_⟩
    · by_cases inside : sfd < proc.fdcount
      · have within : (proc.fd.drop start).findIdx (fun slot => slot.file.isNone) < (proc.fd.drop start).length := by
          rw [List.length_drop]
          unfold Proc.fdcount at inside
          omega
        have free := List.findIdx_getElem (w := within)
        simp only [List.getElem_drop, Option.isNone_iff_eq_none] at free
        rw [Proc.entry, List.getElem?_eq_getElem inside, Option.bind_some]
        exact free
      · exact entry_beyond (Nat.not_lt.mp inside)
    · obtain ⟨index, rfl⟩ := Nat.exists_eq_add_of_le low
      exact entry_skipped (by omega)
    · have short := (proc.fd.drop start).findIdx_le_length (p := fun slot => slot.file.isNone)
      rw [List.length_drop] at short
      unfold Proc.fdcount at different inside ⊢
      omega

theorem getfree_full (found : proc.getfree start = none) : start ≤ proc.fdcount ∧
    ∀ other, start ≤ other → other < proc.fdcount → (proc.entry other).isSome := by
  unfold Proc.getfree at found
  simp only [ne_eq, ite_not] at found
  split at found
  · next same =>
    refine ⟨by omega, fun other low high => ?_⟩
    obtain ⟨index, rfl⟩ := Nat.exists_eq_add_of_le low
    exact entry_skipped (by omega)
  · cases found

/-- One descriptor gets another file or none, in a table that may have grown. -/
structure Proc.Changes (proc : Proc) (fd : Nat) (new : Option Nat) (next : Proc) : Prop where
  entries : ∀ other, next.entry other = if other = fd then new else proc.entry other
  names : ∀ file, next.names file + (if proc.entry fd = some file then 1 else 0) =
    proc.names file + if new = some file then 1 else 0
  small : next.fdcount ≤ fdtableLimit

/-- A table that has grown names the same files. -/
structure Proc.Grows (proc next : Proc) : Prop where
  entries : ∀ fd, next.entry fd = proc.entry fd
  names : ∀ file, next.names file = proc.names file
  small : next.fdcount ≤ fdtableLimit

theorem Proc.Sound.grows (sound : proc.Sound) : proc.Grows proc := ⟨fun _ => rfl, fun _ => rfl, sound.small⟩

/-- A table may grow to more descriptors than it has, up to the limit. -/
theorem growtable_yields (larger : newcount > proc.fdcount) :
    Yields (· = .notReady) (proc.growtable newcount) fun grown =>
      match grown with
      | none => fdtableLimit < newcount
      | some next => proc.Grows next ∧ next.fdcount = newcount ∧ next.fdfirst = proc.fdfirst := by
  unfold Proc.growtable
  split
  · next large => exact large
  · next small =>
    have count : (proc.fd ++ List.replicate (newcount - proc.fdcount) Slot.free).length = newcount := by
      rw [List.length_append, List.length_replicate]
      unfold Proc.fdcount at larger ⊢
      omega
    refine ⟨⟨fun fd => ?_, fun file => ?_, ?_⟩, count, rfl⟩
    · by_cases inside : fd < proc.fd.length
      · rw [Proc.entry, List.getElem?_append_left inside]
        rfl
      · rw [entry_beyond (Nat.not_lt.mp inside), Proc.entry, List.getElem?_append_right (Nat.not_lt.mp inside),
          List.getElem?_replicate]
        split <;> rfl
    · simp [Proc.names, Slot.free, List.countP_append, List.countP_replicate]
    · rw [Proc.fdcount, count]
      omega

theorem put_yields {middle : Proc} {slot : Slot} (grows : proc.Grows middle) (inside : fd < middle.fdcount) :
    Yields (· = .notReady) (middle.put fd slot) fun next =>
      proc.Changes fd slot.file next ∧ next.fdfirst = middle.fdfirst := by
  rw [Proc.put, if_pos inside]
  have found : middle.fd[fd]? = some (middle.fd.get ⟨fd, inside⟩) := List.getElem?_eq_getElem inside
  refine ⟨⟨fun other => ?_, fun file => ?_, ?_⟩, rfl⟩
  · by_cases same : other = fd
    · rw [if_pos same, same, Proc.entry, List.getElem?_set_self inside, Option.bind_some]
    · rw [if_neg same, ← grows.entries, Proc.entry, List.getElem?_set_ne (Ne.symm same)]
      rfl
  · have exchanged := countP_exchange found slot fun slot => slot.file = some file
    rw [← grows.names, ← grows.entries, Proc.entry, found, Option.bind_some]
    simpa [Proc.names] using exchanged
  · simpa [Proc.fdcount] using grows.small

/-- The search finds the first free descriptor, if it may grow the table by one. -/
theorem search_yields (sound : proc.Sound) (inside : start ≤ proc.fdcount) :
    Yields (· = .notReady) (proc.search start (proc.fdcount + 1) proc.fdcount) fun found =>
      match found with
      | none => ∀ other, start ≤ other → other < fdtableLimit → (proc.entry other).isSome
      | some (fd, next) => proc.Lowest start fd ∧ proc.Grows next ∧ fd < next.fdcount ∧
          next.fdfirst = proc.fdfirst := by
  unfold Proc.search
  split
  · next fd found =>
    obtain ⟨lowest, within⟩ := getfree_lowest found
    exact ⟨lowest, sound.grows, within inside, rfl⟩
  · next full =>
    obtain ⟨_, used⟩ := getfree_full full
    refine (growtable_yields (Nat.lt_succ_self _)).bind fun grown grows => ?_
    cases grown with
    | none =>
      exact fun other low high => used other low (by omega)
    | some next =>
      obtain ⟨grows, count, first⟩ := grows
      exact ⟨⟨inside, entry_beyond le_rfl, used⟩, grows, by omega, first⟩

/-- A search that finds a free descriptor does not grow the table. -/
theorem search_found {last : Nat} (found : proc.getfree start ≠ none) :
    proc.search start newcount last = proc.search start (proc.fdcount + 1) proc.fdcount := by
  obtain ⟨fd, found⟩ := Option.ne_none_iff_exists'.mp found
  simp only [Proc.search, found]

end Tables

section Systems

variable {system next : System} {pid fd : Nat} {proc changed : Proc}

theorem hold_refcount (system : System) (file other : Nat) :
    (system.hold file).refcount other = system.refcount other + if file = other then 1 else 0 := by
  simp only [System.hold, update_apply, eq_comm]
  split <;> simp_all

theorem elim_release (system : System) (entry : Option Nat) :
    (entry.elim system system.release).procs = system.procs ∧ (entry.elim system system.release).held = system.held ∧
      ∀ other, (entry.elim system system.release).refcount other =
        system.refcount other - if entry = some other then 1 else 0 := by
  cases entry with
  | none => simp
  | some file =>
    refine ⟨rfl, rfl, fun other => ?_⟩
    simp only [Option.elim_some, System.release, update_apply, Option.some.injEq, eq_comm]
    split <;> simp_all

/-- One descriptor of a process changes, and the references are counted for it. -/
theorem System.Sound.change (sound : system.Sound) (found : system.procs[pid]? = some proc) {new : Option Nat}
    (changes : proc.Changes fd new changed) (below : ∀ other < changed.fdfirst, (changed.entry other).isSome)
    (procs : next.procs = system.procs.set pid changed)
    (counts : ∀ file, (next.refcount file : Int) - next.held file + (if proc.entry fd = some file then 1 else 0) =
      system.refcount file - system.held file + if new = some file then 1 else 0) : next.Sound where
  procs := by
    rw [procs]
    exact forall_exchange sound.procs ⟨below, changes.small⟩
  counts file := by
    have slots : next.slots file + proc.names file = system.slots file + changed.names file := by
      rw [System.slots, procs]
      exact sum_exchange found changed fun proc => proc.names file
    have names := changes.names file
    have before := sound.counts file
    have after := counts file
    split_ifs at names after <;> omega

/-- The first free descriptor gets a file that is held for it. -/
theorem System.Sound.place (sound : system.Sound) (found : system.procs[pid]? = some proc)
    (lowest : proc.Lowest start fd) (changes : proc.Changes fd (some file) changed)
    (first : changed.fdfirst = proc.fdfirst) : ((system.setProc pid changed).hold file).Sound := by
  have inside := List.mem_of_getElem? found
  refine sound.change found changes (fun other low => ?_) rfl fun other => ?_
  · rw [changes.entries]
    split
    · rfl
    · exact (sound.procs proc inside).below other (first ▸ low)
  · rw [hold_refcount, lowest.is_free]
    simp [System.setProc, System.hold]
    omega

/-- The answer to a request for the first free descriptor from the start on. -/
def Answers (system : System) (proc : Proc) (start : Nat) (answer : System × Reply) : Prop :=
  answer.1.Sound ∧
    match answer.2 with
    | .ok fd => proc.Lowest start fd
    | .error error => error = .emfile ∧ answer.1 = system ∧
        ∀ fd, start ≤ fd → fd < fdtableLimit → (proc.entry fd).isSome

section Calls

variable (sound : system.Sound) (found : system.procs[pid]? = some proc)
include sound found

theorem fdNew_yields (flags : Nat) :
    Yields (· = .notReady) (system.fdNew pid proc flags file) (Answers system proc 0) := by
  have mine := sound.procs proc (List.mem_of_getElem? found)
  have inside : proc.fdfirst ≤ proc.fdcount := by
    by_contra beyond
    have used := mine.below proc.fdcount (by omega)
    rw [entry_beyond le_rfl] at used
    cases used
  have all_below {fd : Nat} (used : ∀ other, proc.fdfirst ≤ other → other < fd → (proc.entry other).isSome)
      (other : Nat) (low : other < fd) : (proc.entry other).isSome := by
    rcases Nat.lt_or_ge other proc.fdfirst with before | after
    · exact mine.below other before
    · exact used other after low
  refine (search_yields mine inside).bind fun answer answers => ?_
  cases answer with
  | none => exact ⟨sound, rfl, rfl, fun fd _ => all_below answers fd⟩
  | some answer =>
    obtain ⟨fd, grown⟩ := answer
    obtain ⟨lowest, grows, within, -⟩ := answers
    have lowest_of_all : proc.Lowest 0 fd := ⟨Nat.zero_le _, lowest.is_free, fun other _ => all_below lowest.used other⟩
    have grows : proc.Grows { grown with fdfirst := fd + 1 } := ⟨grows.entries, grows.names, grows.small⟩
    refine (put_yields grows within).bind fun changed ⟨changes, first⟩ => ⟨?_, lowest_of_all⟩
    refine sound.change found changes (fun other low => ?_) rfl fun other => ?_
    · rw [changes.entries]
      split
      · rfl
      · next different =>
        have low : other < fd + 1 := low.trans_eq first
        exact all_below lowest.used other (by omega)
    · show (system.hold file).refcount other - system.held other + _ = _
      rw [hold_refcount, lowest.is_free]
      simp
      omega

/-- The first free descriptor from the start on gets the file, if the search may grow the table by one. -/
theorem place_yields (flags : Nat) (inside : start ≤ proc.fdcount) :
    Yields (· = .notReady) (proc.search start (proc.fdcount + 1) proc.fdcount >>= system.place pid file flags)
      (Answers system proc start) := by
  have mine := sound.procs proc (List.mem_of_getElem? found)
  refine (search_yields mine inside).bind fun answer answers => ?_
  cases answer with
  | none => exact ⟨sound, rfl, rfl, answers⟩
  | some answer =>
    obtain ⟨lowest, grows, within, first⟩ := answers
    refine (put_yields grows within).bind fun changed ⟨changes, kept⟩ => ⟨?_, lowest⟩
    exact sound.place found lowest changes (kept.trans first)

theorem fdClose_yields (fd : Int) :
    Yields (· = .notReady) (system.fdClose pid proc fd) fun answer => answer.1.Sound := by
  have mine := sound.procs proc (List.mem_of_getElem? found)
  fun_cases System.fdClose system pid proc fd with
  | case1 => exact sound
  | case2 file named =>
    have entry : proc.entry fd.toNat = some file := by
      unfold Proc.file at named
      split at named
      · exact named
      · cases named
    have within : fd.toNat < proc.fdcount := by
      by_contra beyond
      rw [entry_beyond (Nat.not_lt.mp beyond)] at entry
      cases entry
    refine (put_yields mine.grows within).bind fun changed ⟨changes, first⟩ => ?_
    have changes : proc.Changes fd.toNat none { changed with
        fdfirst := if changed.fdfirst > fd.toNat then fd.toNat else changed.fdfirst } :=
      ⟨changes.entries, changes.names, changes.small⟩
    refine sound.change found changes (fun other low => ?_) rfl fun other => ?_
    · have low : other < fd.toNat ∧ other < proc.fdfirst := by
        simp only [first] at low
        split at low <;> omega
      rw [changes.entries, if_neg (by omega)]
      exact mine.below other low.2
    · simp only [System.keep, System.setProc, entry, update_apply]
      by_cases same : other = file <;> simp [same, eq_comm] <;> omega

theorem fdDup_exact_yields (oldfd newfd : Int) (fdflags : Nat) :
    Yields (· = .notReady) (system.fdDup pid proc oldfd newfd true fdflags) fun answer => answer.1.Sound := by
  have mine := sound.procs proc (List.mem_of_getElem? found)
  unfold System.fdDup
  split
  · exact sound
  · next legal =>
    split
    · exact sound
    · next file _ =>
      have grown : Yields (· = .notReady)
          (if newfd.toNat ≥ proc.fdcount then proc.growtable (newfd.toNat + 1) else pure (some proc)) fun grown =>
            ∀ next, grown = some next → proc.Grows next ∧ newfd.toNat < next.fdcount ∧
              next.fdfirst = proc.fdfirst := by
        split
        · next beyond =>
          refine (growtable_yields (by omega)).imp fun grown grows next same => ?_
          subst same
          exact ⟨grows.1, by omega, grows.2.2⟩
        · next within =>
          rintro next ⟨⟩
          exact ⟨mine.grows, by omega, rfl⟩
      refine grown.bind fun grown grows => ?_
      cases grown with
      | none => exact sound
      | some grown =>
        obtain ⟨grows, within, first⟩ := grows grown rfl
        refine (put_yields grows within).bind fun changed ⟨changes, kept⟩ => ?_
        refine sound.change found changes (fun other low => ?_) ?_ fun other => ?_
        · rw [changes.entries]
          split
          · rfl
          · exact mine.below other (low.trans_eq (kept.trans first))
        · rw [file_nat, grows.entries]
          exact congrArg (List.set · pid changed) (elim_release system _).1
        · obtain ⟨-, held, counts⟩ := elim_release system (proc.entry newfd.toNat)
          rw [file_nat, grows.entries, hold_refcount]
          simp [System.setProc, System.hold, counts, held]
          omega

/-- A duplicate whose minimum is in the table. -/
theorem fdDup_minimum_yields (fdflags : Nat) (inside : 0 ≤ newfd → newfd < fdtableLimit →
      (proc.file oldfd).isSome → newfd < proc.fdcount) :
    Yields (· = .notReady) (system.fdDup pid proc oldfd newfd false fdflags) fun answer => answer.1.Sound ∧
      match answer.2 with
      | .ok fd => proc.Lowest newfd.toNat fd
      | .error _ => answer.1 = system := by
  unfold System.fdDup
  split
  · exact ⟨sound, rfl⟩
  · next legal =>
    split
    · exact ⟨sound, rfl⟩
    · next file named =>
      have within : newfd.toNat < proc.fdcount := by
        have below := inside (by omega) (by omega) (by rw [named]; rfl)
        omega
      simp only [Bool.false_eq_true, if_false, if_pos within, Nat.add_sub_cancel]
      refine (place_yields sound found fdflags within.le).imp fun answer answers => ⟨answers.1, ?_⟩
      rcases answer with ⟨next, reply⟩
      cases reply with
      | ok fd => exact answers.2
      | error _ => exact answers.2.2.1

end Calls

/-- A running call takes or gives up references. -/
theorem System.Sound.recount (sound : system.Sound) (procs : next.procs = system.procs)
    (counts : ∀ file, next.refcount file - next.held file = system.refcount file - system.held file) : next.Sound where
  procs := by
    rw [procs]
    exact sound.procs
  counts file := by
    have before := sound.counts file
    have after := counts file
    rw [System.slots, procs, ← System.slots]
    omega

theorem System.Sound.taken (sound : system.Sound) (file : Nat) :
    ((system.hold file).keep file (system.held file + 1)).Sound := by
  refine sound.recount rfl fun other => ?_
  simp only [System.keep, System.hold, update_apply]
  split
  · next same =>
    rw [same]
    omega
  · rfl

theorem System.Sound.given (sound : system.Sound) (held : system.held file ≠ 0) :
    ((system.release file).keep file (system.held file - 1)).Sound := by
  refine sound.recount rfl fun other => ?_
  simp only [System.keep, System.release, update_apply]
  split
  · next same =>
    rw [same]
    omega
  · rfl

theorem foldl_hold (files : List Nat) (system : System) :
    (files.foldl System.hold system).procs = system.procs ∧ (files.foldl System.hold system).held = system.held ∧
      ∀ file, (files.foldl System.hold system).refcount file = system.refcount file + files.count file := by
  induction files generalizing system with
  | nil => simp
  | cons first rest continues =>
    obtain ⟨procs, held, counts⟩ := continues (system.hold first)
    refine ⟨procs, held, fun file => ?_⟩
    rw [List.foldl_cons, counts, List.count_cons, hold_refcount]
    simp
    omega

theorem copy_entry (proc : Proc) (fd : Nat) : proc.copy.entry fd = proc.entry fd := by
  rw [Proc.copy, Proc.entry, Proc.entry, List.getElem?_map]
  cases proc.fd[fd]? with
  | none => rfl
  | some slot =>
    simp only [Option.map_some, Option.bind_some]
    split
    · rfl
    · next empty => simp_all [Slot.free]

theorem names_count (proc : Proc) (file : Nat) : proc.names file = (proc.fd.filterMap Slot.file).count file := by
  rw [List.count, List.countP_filterMap]
  apply List.countP_congr
  intro slot _
  cases slot.file <;> simp

theorem fdClone_sound (sound : system.Sound) (found : system.procs[pid]? = some proc) :
    (system.fdClone proc).1.Sound := by
  have mine := sound.procs proc (List.mem_of_getElem? found)
  obtain ⟨procs, held, counts⟩ := foldl_hold (proc.copy.fd.filterMap Slot.file) system
  simp only [System.fdClone, procs, held]
  constructor
  · refine forall_added sound.procs ⟨fun fd low => ?_, ?_⟩
    · rw [copy_entry]
      exact mine.below fd low
    · rw [Proc.fdcount, Proc.copy, List.length_map]
      exact mine.small
  · intro file
    have before := sound.counts file
    have names := names_count proc.copy file
    have count := counts file
    simp only [System.slots, List.map_append, List.sum_append, List.map_singleton, List.sum_singleton] at before ⊢
    omega

/-- What a call returns, apart from keeping the tables and the counts in order. -/
def Returns (system : System) (call : Call) (next : System) (reply : Reply) : Prop :=
  match call with
  | .new pid _ _ | .insert pid _ => ∀ proc, system.procs[pid]? = some proc → Answers system proc 0 (next, reply)
  | .dup pid _ newfd false _ => ∀ proc, system.procs[pid]? = some proc →
      match reply with
      | .ok fd => proc.Lowest newfd.toNat fd
      | .error _ => next = system
  | _ => True

/-- A call succeeds or fails as it should. -/
def Served (system : System) (call : Call) : Prop :=
  ∃ next reply, system.call call = .ok (next, reply) ∧ next.Sound ∧ Returns system call next reply

/-- Inserting finds a free descriptor, and the minimum of a duplicate is in the table. -/
def Fits (system : System) : Call → Prop
  | .insert pid _ => ∀ proc, system.procs[pid]? = some proc → ∃ fd < proc.fdcount, proc.entry fd = none
  | .dup pid oldfd newfd false _ => ∀ proc, system.procs[pid]? = some proc → 0 ≤ newfd → newfd < fdtableLimit →
      (proc.file oldfd).isSome → newfd < proc.fdcount
  | _ => True

theorem getfree_free (inside : ∃ fd < proc.fdcount, proc.entry fd = none) : proc.getfree 0 ≠ none := by
  intro full
  obtain ⟨fd, within, free⟩ := inside
  have used := (getfree_full full).2 fd (Nat.zero_le _) within
  rw [free] at used
  cases used

theorem onProc_yields {call : Proc → Except Fault (System × Reply)} {good : System × Reply → Prop}
    (yields : ∀ proc, system.procs[pid]? = some proc → Yields (· = .notReady) (call proc) good) :
    Yields (· = .notReady) (system.onProc pid call) good := by
  unfold System.onProc
  split
  · exact rfl
  · next proc found => exact yields proc found

theorem call_yields (sound : system.Sound) {call : Call} (fits : Fits system call) :
    Yields (· = .notReady) (system.call call) fun answer => answer.1.Sound ∧ Returns system call answer.1 answer.2 := by
  fun_cases System.call system call with
  | case1 pid flags file =>
    refine onProc_yields fun proc found => (fdNew_yields sound found flags).imp fun answer answers => ⟨answers.1, ?_⟩
    intro other same
    cases found.symm.trans same
    exact answers
  | case3 pid fd => exact onProc_yields fun proc found => (fdClose_yields sound found fd).imp fun _ kept => ⟨kept, trivial⟩
  | case4 pid => exact onProc_yields fun proc found => ⟨fdClone_sound sound found, trivial⟩
  | case5 pid file =>
    refine onProc_yields fun proc found => ?_
    rw [System.fdInsert, search_found (getfree_free (fits proc found))]
    refine (place_yields sound found 0 (Nat.zero_le _)).imp fun answer answers => ⟨answers.1, ?_⟩
    intro other same
    cases found.symm.trans same
    exact answers
  | case8 pid oldfd newfd exact fdflags =>
    refine onProc_yields fun proc found => ?_
    cases exact with
    | true => exact (fdDup_exact_yields sound found oldfd newfd fdflags).imp fun _ kept => ⟨kept, trivial⟩
    | false =>
      refine (fdDup_minimum_yields sound found fdflags (fits proc found)).imp fun answer answers => ⟨answers.1, ?_⟩
      intro other same
      cases found.symm.trans same
      exact answers.2
  | case9 file => exact ⟨sound.taken file, trivial⟩
  | case11 pid fd =>
    refine onProc_yields fun proc found => ?_
    split
    · exact ⟨sound, trivial⟩
    · exact ⟨sound.taken _, trivial⟩
  | case12 file held => exact ⟨sound.given held, trivial⟩
  | _ => exact rfl

theorem boot_sound : boot.Sound where
  procs := by
    intro proc member
    rw [List.mem_singleton.mp member]
    exact ⟨by decide, by decide⟩
  counts file := by
    rcases Nat.lt_or_ge file 3 with small | large
    · interval_cases file <;> decide
    · have nobody : (boot.slots file : Int) = 0 := by
        simp [boot, System.slots, Proc.names]
        omega
      rw [nobody]
      exact if_neg (Nat.not_lt.mpr large)

/-- A table is not grown to the size it has. -/
theorem growtable_same (sound : proc.Sound) : proc.growtable proc.fdcount = .error .assertion := by
  rw [Proc.growtable, if_neg (Nat.not_lt.mpr sound.small), if_neg (Nat.lt_irrefl _)]

theorem fdInsert_needs (sound : proc.Sound) (ran : system.fdInsert pid proc file = .ok answer) :
    ∃ fd < proc.fdcount, proc.entry fd = none := by
  obtain ⟨found, searched, -⟩ := bind_ok.mp ran
  unfold Proc.search at searched
  split at searched
  · next fd free =>
    obtain ⟨lowest, within⟩ := getfree_lowest free
    exact ⟨fd, within (Nat.zero_le _), lowest.is_free⟩
  · rw [growtable_same sound] at searched
    cases searched

theorem fdDup_needs (sound : proc.Sound) {fdflags : Nat}
    (ran : system.fdDup pid proc oldfd newfd false fdflags = .ok answer) (low : 0 ≤ newfd) (high : newfd < fdtableLimit)
    (named : (proc.file oldfd).isSome) : newfd < proc.fdcount := by
  by_contra beyond
  obtain ⟨file, named⟩ := Option.isSome_iff_exists.mp named
  have outside : ¬ newfd.toNat < proc.fdcount := by omega
  have empty : proc.fd.drop newfd.toNat = [] := List.drop_eq_nil_of_le (Nat.not_lt.mp outside)
  rw [System.fdDup, if_neg (by omega)] at ran
  simp only [named, Bool.false_eq_true, if_false, if_neg outside] at ran
  obtain ⟨found, searched, placed⟩ := bind_ok.mp ran
  simp only [Proc.search, Proc.getfree, empty, List.findIdx_nil, Nat.add_zero] at searched
  by_cases last : newfd.toNat = proc.fdcount
  · rw [if_neg (not_not_intro last), last, growtable_same sound] at searched
    cases searched
  · rw [if_pos last] at searched
    cases searched
    obtain ⟨changed, put, -⟩ := bind_ok.mp placed
    rw [Proc.put, if_neg outside] at put
    cases put

/-- After any run in which insertions found a free descriptor and the minima of duplicates were in the table, the next
call is served exactly when it is such a call. -/
theorem call_served_iff {call : Call} (reached : Reaches System.step Fits boot system)
    (ready : system.call call ≠ .error .notReady) : Served system call ↔ Fits system call := by
  have sound : system.Sound := by
    refine reached.keeps System.Sound (fun system event next sound fits moved => ?_) boot_sound
    obtain ⟨answer, ran, rfl⟩ := map_ok.mp moved
    exact ((call_yields sound fits).of_ok ran).1
  constructor
  · rintro ⟨next, reply, ran, -, -⟩
    cases call with
    | insert pid file =>
      intro proc found
      simp only [System.call, System.onProc, found] at ran
      split at ran
      · exact fdInsert_needs (sound.procs proc (List.mem_of_getElem? found)) ran
      · cases ran
    | dup pid oldfd newfd exact fdflags =>
      cases exact with
      | true => trivial
      | false =>
        intro proc found
        simp only [System.call, System.onProc, found, Bool.false_eq_true, false_and, if_false] at ran
        exact fdDup_needs (sound.procs proc (List.mem_of_getElem? found)) ran
    | _ => trivial
  · intro fits
    have yields := call_yields sound fits
    cases ran : system.call call with
    | error fault =>
      have same := yields.of_error ran
      rw [same] at ran
      exact absurd ran ready
    | ok answer => exact ⟨_, _, ran, yields.of_ok ran⟩

theorem boot_dup_served : Served boot (.dup 0 1 0 false 0) := by
  refine (call_served_iff .refl (fun failed => ?_)).mpr fun proc found _ _ _ => ?_
  · cases failed
  · cases found
    decide

/-- The first process has three descriptors, all used. A file that it receives, and duplicates whose minimum is three
or more, do not find a place. -/
theorem full_table_fails : ∃ system, boot.step (.allocate 5) = .ok system ∧
    system.call (.insert 0 5) = .error .assertion ∧ system.call (.dup 0 1 3 false 0) = .error .assertion ∧
    system.call (.dup 0 1 10 false 0) = .error .outside :=
  ⟨_, rfl, rfl, rfl, rfl⟩

end Systems

end Astral.Fd
