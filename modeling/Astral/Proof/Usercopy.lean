import Astral.Construction.Usercopy
import Astral.Proof.Words

namespace Astral.Io

open Function

variable {faults : Nat → Bool} {start count : Nat} {skip size few first second dst src address index : Nat}
  {machine after : Machine}

/-- No access to the region faults. -/
def Resident (faults : Nat → Bool) (start count : Nat) : Prop := ∀ index < count, faults (addWord start index) = false

/-- The two regions have no address in common. -/
def Apart (first count second size : Nat) : Prop :=
  ∀ index < count, ∀ other < size, addWord first index ≠ addWord second other

theorem Resident.part (resident : Resident faults start count) (within : skip + size ≤ count) :
    Resident faults (addWord start skip) size := by
  intro index inside
  rw [addWord_assoc]
  exact resident (skip + index) (by omega)

theorem resident_zero : Resident faults start 0 := fun _ inside => absurd inside (Nat.not_lt_zero _)

theorem Resident.less (resident : Resident faults start count) (within : size ≤ count) : Resident faults start size :=
  fun index inside => resident index (by omega)

section

variable {first count second size : Nat} (apart : Apart first count second size)
include apart

theorem Apart.part {drop less : Nat} (one : skip + few ≤ count) (two : drop + less ≤ size) :
    Apart (addWord first skip) few (addWord second drop) less := by
  intro index inside other within
  rw [addWord_assoc, addWord_assoc]
  exact apart (skip + index) (by omega) (drop + other) (by omega)

theorem Apart.less {less : Nat} (one : few ≤ count) (two : less ≤ size) : Apart first few second less :=
  fun index inside other within => apart index (by omega) other (by omega)

theorem Apart.symm : Apart second size first count := by
  intro index inside other within same
  exact apart other within index inside same.symm

end

/-- Different offsets below the word size give different addresses. -/
theorem addWord_inj {start : Nat} (one : first < wordSize) (two : second < wordSize)
    (same : addWord start first = addWord start second) : first = second := by
  have equal : first ≡ second [MOD wordSize] := Nat.ModEq.add_left_cancel' start same
  exact Nat.ModEq.eq_of_lt_of_lt equal one two

/-- Both regions are resident and do not overlap. -/
structure Copyable (faults : Nat → Bool) (dst src count : Nat) : Prop where
  dstWord : dst < wordSize
  srcWord : src < wordSize
  short : count ≤ wordSize
  target : Resident faults dst count
  source : Resident faults src count
  apart : Apart dst count src count

theorem Copyable.swap (copyable : Copyable faults dst src count) : Copyable faults src dst count :=
  ⟨copyable.srcWord, copyable.dstWord, copyable.short, copyable.source, copyable.target, copyable.apart.symm⟩

theorem addWord_zero {word : Nat} (small : word < wordSize) : addWord word 0 = word := addWord_eq small

/-- The first byte of a region stands before the others. -/
theorem resident_succ (word : start < wordSize) :
    Resident faults start (count + 1) ↔ faults start = false ∧ Resident faults (addWord start 1) count := by
  constructor
  · intro resident
    refine ⟨?_, resident.part (by omega)⟩
    have first := resident 0 (by omega)
    rwa [addWord_zero word] at first
  · rintro ⟨first, rest⟩ index inside
    cases index with
    | zero => rwa [addWord_zero word]
    | succ index =>
      have later := rest index (by omega)
      rwa [addWord_assoc, Nat.add_comm 1 index] at later

theorem copyBytes_ok_iff (one : dst < wordSize) (two : src < wordSize) (memory : Nat → Byte) :
    (copyBytes faults count dst src memory).2 = true ↔ Resident faults dst count ∧ Resident faults src count := by
  induction count generalizing dst src memory with
  | zero => exact ⟨fun _ => ⟨resident_zero, resident_zero⟩, fun _ => rfl⟩
  | succ count ih =>
    rw [resident_succ one, resident_succ two, copyBytes]
    cases source : faults src with
    | true => simp
    | false =>
      cases target : faults dst with
      | true => simp
      | false => simpa using ih (addWord_lt _ _) (addWord_lt _ _) _

/-- A copy touches only targets that it reaches before the first fault of its source. -/
theorem copyBytes_untouched (one : dst < wordSize) (two : src < wordSize) (memory : Nat → Byte)
    (untouched : ∀ index < count, Resident faults src (index + 1) → address ≠ addWord dst index) :
    (copyBytes faults count dst src memory).1 address = memory address := by
  induction count generalizing dst src memory with
  | zero => rfl
  | succ count ih =>
    rw [copyBytes]
    split
    · rfl
    · rename_i clear
      rw [Bool.or_eq_true, not_or, Bool.not_eq_true, Bool.not_eq_true] at clear
      have first : address ≠ dst := by
        have here := untouched 0 (by omega) ((resident_succ two).mpr ⟨clear.1, resident_zero⟩)
        rwa [addWord_zero one] at here
      rw [ih (addWord_lt _ _) (addWord_lt _ _), update_of_ne first]
      intro index inside resident
      have later := untouched (index + 1) (by omega) ((resident_succ two).mpr ⟨clear.1, resident⟩)
      rwa [addWord_assoc, Nat.add_comm 1 index]

/-- A copy moves every byte before the first fault. -/
theorem copyBytes_reached (one : dst < wordSize) (two : src < wordSize) (memory : Nat → Byte) (inside : index < count)
    (short : count ≤ wordSize) (target : Resident faults dst (index + 1)) (source : Resident faults src (index + 1))
    (apart : Apart dst (index + 1) src (index + 1)) :
    (copyBytes faults count dst src memory).1 (addWord dst index) = memory (addWord src index) := by
  induction index generalizing count dst src memory with
  | zero =>
    obtain ⟨rest, rfl⟩ := Nat.exists_eq_succ_of_ne_zero (Nat.ne_of_gt inside)
    have firstTarget := ((resident_succ one).mp target).1
    have firstSource := ((resident_succ two).mp source).1
    rw [copyBytes, firstTarget, firstSource, addWord_zero one, addWord_zero two]
    simp only [Bool.or_self, Bool.false_eq_true, ↓reduceIte]
    rw [copyBytes_untouched (addWord_lt _ _) (addWord_lt _ _), update_self]
    intro index inside _ same
    rw [addWord_assoc, ← addWord_zero one, addWord_assoc] at same
    have equal := addWord_inj (by omega) (by omega) same
    omega
  | succ index ih =>
    obtain ⟨rest, rfl⟩ := Nat.exists_eq_succ_of_ne_zero (Nat.ne_of_gt (Nat.lt_of_le_of_lt (Nat.zero_le _) inside))
    obtain ⟨firstTarget, laterTarget⟩ := (resident_succ one).mp target
    obtain ⟨firstSource, laterSource⟩ := (resident_succ two).mp source
    have reached := ih (addWord_lt dst 1) (addWord_lt src 1) (update memory dst (memory src))
      (show index < rest by omega) (by omega) laterTarget laterSource (apart.part (by omega) (by omega))
    rw [addWord_assoc, addWord_assoc, Nat.add_comm 1 index] at reached
    rw [copyBytes, firstTarget, firstSource]
    simp only [Bool.or_self, Bool.false_eq_true, ↓reduceIte]
    rw [reached, update_of_ne]
    have different := apart 0 (by omega) (index + 1) (by omega)
    rw [addWord_zero one] at different
    exact different.symm

/-- The copy moves the bytes of one region into the other and touches nothing else. -/
theorem copyBytes_done (copyable : Copyable faults dst src count) (memory : Nat → Byte) :
    ∃ after, copyBytes faults count dst src memory = (after, true) ∧
      (∀ index < count, after (addWord dst index) = memory (addWord src index)) ∧
      ∀ address, (∀ index < count, address ≠ addWord dst index) → after address = memory address := by
  have ok := (copyBytes_ok_iff copyable.dstWord copyable.srcWord memory).mpr ⟨copyable.target, copyable.source⟩
  refine ⟨_, Prod.ext rfl ok, ?_, ?_⟩
  · intro index inside
    exact copyBytes_reached copyable.dstWord copyable.srcWord memory inside copyable.short
      (copyable.target.less (by omega)) (copyable.source.less (by omega)) (copyable.apart.less (by omega) (by omega))
  · intro address outside
    exact copyBytes_untouched copyable.dstWord copyable.srcWord memory fun index inside _ => outside index inside

/-- A completed transfer moves a sequence of bytes and touches nothing else. -/
structure Moved (machine after : Machine) (count : Nat) (dst src : Nat → Nat) : Prop where
  faults : after.faults = machine.faults
  panicked : after.panicked = machine.panicked
  bytes : ∀ index < count, after.memory (dst index) = machine.memory (src index)
  kept : ∀ address, (∀ index < count, address ≠ dst index) → after.memory address = machine.memory address

theorem Moved.congr {dst src dst' src' : Nat → Nat} (moved : Moved machine after count dst src)
    (sameDst : ∀ index < count, dst' index = dst index) (sameSrc : ∀ index < count, src' index = src index) :
    Moved machine after count dst' src' := by
  constructor
  · exact moved.faults
  · exact moved.panicked
  · intro index inside
    rw [sameDst index inside, sameSrc index inside]
    exact moved.bytes index inside
  · intro address outside
    apply moved.kept
    intro index inside
    rw [← sameDst index inside]
    exact outside index inside

/-- A second transfer goes on where the first one stopped. -/
theorem Moved.append {middle : Machine} {dst src : Nat → Nat} (one : Moved machine middle first dst src)
    (two : Moved middle after second (fun index => dst (first + index)) (fun index => src (first + index)))
    (fresh : ∀ index < second, ∀ other < first, src (first + index) ≠ dst other)
    (differ : ∀ index < second, ∀ other < first, dst other ≠ dst (first + index)) :
    Moved machine after (first + second) dst src := by
  constructor
  · rw [two.faults, one.faults]
  · rw [two.panicked, one.panicked]
  · intro index inside
    rcases Nat.lt_or_ge index first with early | late
    · rw [two.kept (dst index) fun other within => differ other within index early]
      exact one.bytes index early
    · obtain ⟨later, rfl⟩ := Nat.exists_eq_add_of_le late
      rw [two.bytes later (by omega)]
      exact one.kept _ fun other within => fresh later (by omega) other within
  · intro address outside
    rw [two.kept address fun index inside => outside (first + index) (by omega)]
    exact one.kept address fun index inside => outside index (by omega)

/-- The address decides whether a fault is an error or stops the kernel. -/
def Machine.protect (machine : Machine) (user : Nat) (inside outside : Access) (result : (Nat → Byte) × Bool) :
    Machine × Option Errno :=
  if isUserAddress user then machine.guarded inside result else machine.plain outside result

theorem possiblyFromUser_eq (machine : Machine) (kernel user size : Nat) :
    machine.usercopyPossiblyFromUser kernel user size =
      machine.protect user (.usercopyFromuser kernel user size) (.memcpy kernel user size)
        (copyBytes machine.faults size kernel user machine.memory) := by
  unfold Machine.usercopyPossiblyFromUser Machine.usercopyFromuser Machine.protect
  split <;> rfl

theorem possiblyToUser_eq (machine : Machine) (user kernel size : Nat) :
    machine.usercopyPossiblyToUser user kernel size =
      machine.protect user (.usercopyTouser user kernel size) (.memcpy user kernel size)
        (copyBytes machine.faults size user kernel machine.memory) := by
  unfold Machine.usercopyPossiblyToUser Machine.usercopyTouser Machine.protect
  split <;> rfl

theorem possiblyMemset_eq (machine : Machine) (user : Nat) (byte : Byte) (size : Nat) :
    machine.usercopyPossiblyMemsetToUser user byte size =
      machine.protect user (.usercopyMemset user byte size) (.memset user byte size)
        (setBytes machine.faults byte size user machine.memory) := by
  unfold Machine.usercopyPossiblyMemsetToUser Machine.usercopyMemset Machine.protect
  split <;> rfl

section Protect

variable (machine : Machine) (user : Nat) (inside outside : Access) (result : (Nat → Byte) × Bool)

@[simp] theorem protect_memory : (machine.protect user inside outside result).1.memory = result.1 := by
  unfold Machine.protect
  split <;> rfl

@[simp] theorem protect_faults : (machine.protect user inside outside result).1.faults = machine.faults := by
  unfold Machine.protect
  split <;> rfl

theorem protect_stopped (stopped : machine.panicked = true) :
    (machine.protect user inside outside result).1.panicked = true := by
  unfold Machine.protect
  split
  · exact stopped
  · simp [Machine.plain, stopped]

/-- An access that does not stop the kernel is an error exactly when it meets a fault. -/
theorem protect_clear (calm : (machine.protect user inside outside result).1.panicked = false) :
    (machine.protect user inside outside result).2 = none ↔ result.2 = true := by
  unfold Machine.protect at *
  split
  · unfold Machine.guarded
    cases result.2 <;> simp
  · rename_i isKernel
    rw [if_neg isKernel] at calm
    simp only [Machine.plain, Bool.or_eq_false_iff, Bool.not_eq_false'] at calm
    exact ⟨fun _ => calm.2, fun _ => rfl⟩

/-- Only an access to a user address is an error. -/
theorem protect_user (error : (machine.protect user inside outside result).2 ≠ none) : user < userspaceEnd := by
  unfold Machine.protect at error
  split at error
  · rename_i isUser
    exact decide_eq_true_eq.mp isUser
  · exact absurd rfl error

/-- An access without a fault is completed on both sides. -/
theorem protect_done (ok : result.2 = true) : (machine.protect user inside outside result).2 = none ∧
      (machine.protect user inside outside result).1.panicked = machine.panicked := by
  unfold Machine.protect
  split
  · simp [Machine.guarded, Machine.note, ok]
  · simp [Machine.plain, ok]

end Protect

section Completed

section

variable (copyable : Copyable machine.faults dst src count)
include copyable

theorem protect_copied (user : Nat) (inside outside : Access) :
    ∃ after, machine.protect user inside outside (copyBytes machine.faults count dst src machine.memory) =
        (after, none) ∧ Moved machine after count (addWord dst) (addWord src) := by
  obtain ⟨memory, ran, bytes, kept⟩ := copyBytes_done copyable machine.memory
  rw [ran]
  obtain ⟨error, panicked⟩ := protect_done machine user inside outside (memory, true) rfl
  refine ⟨_, Prod.ext rfl error, ?_, panicked, ?_, ?_⟩
  · exact protect_faults _ _ _ _ _
  all_goals rwa [protect_memory]

theorem possiblyFromUser_done : ∃ after, machine.usercopyPossiblyFromUser dst src count = (after, none) ∧
      Moved machine after count (addWord dst) (addWord src) := by
  rw [possiblyFromUser_eq]
  exact protect_copied copyable _ _ _

theorem possiblyToUser_done : ∃ after, machine.usercopyPossiblyToUser dst src count = (after, none) ∧
      Moved machine after count (addWord dst) (addWord src) := by
  rw [possiblyToUser_eq]
  exact protect_copied copyable _ _ _

end

/-- An empty copy is always completed. -/
theorem possiblyFromUser_zero (machine : Machine) (kernel user : Nat) :
    (machine.usercopyPossiblyFromUser kernel user 0).2 = none := by
  rw [possiblyFromUser_eq]
  exact (protect_done _ _ _ _ _ rfl).1

end Completed

/-- No memory is mapped between the user half and the kernel half of the address space. -/
def Hole (faults : Nat → Bool) : Prop :=
  ∀ address, userspaceEnd ≤ address → address < kernelspaceStart → faults address = true

theorem setBytes_ok_iff {byte : Byte} (one : dst < wordSize) (memory : Nat → Byte) :
    (setBytes faults byte count dst memory).2 = true ↔ Resident faults dst count := by
  induction count generalizing dst memory with
  | zero => exact ⟨fun _ => resident_zero, fun _ => rfl⟩
  | succ count ih =>
    rw [resident_succ one, setBytes]
    cases target : faults dst with
    | true => simp
    | false => simpa using ih (addWord_lt _ _) _

/-- A copy of half the address space meets the hole. -/
theorem Hole.meets (hole : Hole faults) (word : start < wordSize) (huge : 2 ^ 63 ≤ count) :
    ∃ index < count, faults (addWord start index) = true := by
  have limit := wordSize_eq
  have userEnd : userspaceEnd = 0x0000800000000000 := rfl
  have kernelStart : kernelspaceStart = 0xffff800000000000 := rfl
  rcases Nat.lt_or_ge start userspaceEnd with low | above
  · refine ⟨userspaceEnd - start, by omega, hole _ ?_ ?_⟩
    all_goals
      rw [addWord_eq (by omega)]
      omega
  · rcases Nat.lt_or_ge start kernelspaceStart with middle | high
    · refine ⟨0, by omega, ?_⟩
      rw [addWord_zero word]
      exact hole _ above middle
    · have wraps : addWord start (wordSize - start + userspaceEnd) = userspaceEnd := by
        unfold addWord
        rw [show start + (wordSize - start + userspaceEnd) = wordSize + userspaceEnd by omega, Nat.add_mod_left,
          Nat.mod_eq_of_lt (by omega)]
      refine ⟨wordSize - start + userspaceEnd, by omega, ?_⟩
      rw [wraps]
      exact hole _ (Nat.le_refl _) (by omega)

theorem Hole.not_resident (hole : Hole faults) (word : start < wordSize) (huge : 2 ^ 63 ≤ count) :
    ¬ Resident faults start count := by
  intro resident
  obtain ⟨index, inside, fault⟩ := hole.meets word huge
  rw [resident index inside] at fault
  cases fault

theorem Hole.short (hole : Hole faults) (word : start < wordSize) (resident : Resident faults start count) :
    count < 2 ^ 63 :=
  Nat.lt_of_not_le fun huge => hole.not_resident word huge resident

/-- A source that is read from user memory stays there. -/
theorem Hole.stays (hole : Hole faults) (user : address < userspaceEnd) (resident : Resident faults address (index + 1)) :
    address + index < userspaceEnd := by
  by_contra beyond
  have userEnd : userspaceEnd = 0x0000800000000000 := rfl
  have kernelStart : kernelspaceStart = 0xffff800000000000 := rfl
  have limit := wordSize_eq
  have there := resident (userspaceEnd - address) (by omega)
  have middle : addWord address (userspaceEnd - address) = userspaceEnd := by
    rw [addWord_eq (by omega)]
    omega
  rw [middle, hole userspaceEnd (Nat.le_refl _) (by omega)] at there
  cases there

/-- A copy that does not stop the kernel is an error exactly when a byte of one of its regions faults. -/
structure Checked (copy : Machine → (first second size : Nat) → Machine × Option Errno) : Prop where
  faults : ∀ machine first second size, (copy machine first second size).1.faults = machine.faults
  stopped : ∀ machine first second size, machine.panicked = true → (copy machine first second size).1.panicked = true
  clear : ∀ machine {first second : Nat} size, first < wordSize → second < wordSize →
    (copy machine first second size).1.panicked = false → ((copy machine first second size).2 = none ↔
        Resident machine.faults first size ∧ Resident machine.faults second size)

theorem checked_fromUser : Checked Machine.usercopyPossiblyFromUser := by
  constructor
  · intro machine kernel user size
    rw [possiblyFromUser_eq, protect_faults]
  · intro machine kernel user size stopped
    rw [possiblyFromUser_eq]
    exact protect_stopped _ _ _ _ _ stopped
  · intro machine kernel user size one two calm
    rw [possiblyFromUser_eq] at *
    rw [protect_clear _ _ _ _ _ calm, copyBytes_ok_iff one two]

theorem checked_toUser : Checked Machine.usercopyPossiblyToUser := by
  constructor
  · intro machine user kernel size
    rw [possiblyToUser_eq, protect_faults]
  · intro machine user kernel size stopped
    rw [possiblyToUser_eq]
    exact protect_stopped _ _ _ _ _ stopped
  · intro machine user kernel size one two calm
    rw [possiblyToUser_eq] at *
    rw [protect_clear _ _ _ _ _ calm, copyBytes_ok_iff one two]

/-- The order of the two regions does not matter. -/
theorem Checked.swap {copy : Machine → (first second size : Nat) → Machine × Option Errno} (checked : Checked copy) :
    Checked fun machine first second => copy machine second first :=
  ⟨fun machine first second => checked.faults machine second first,
    fun machine first second => checked.stopped machine second first,
    fun machine _ _ size one two calm => (checked.clear machine size two one calm).trans And.comm⟩

end Astral.Io
