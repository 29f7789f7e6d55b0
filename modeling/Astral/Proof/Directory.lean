import Astral.Construction.Directory
import Astral.Library.Association
import Astral.Library.Run

namespace Astral.Ext2

open Function Astral.Library

variable {before after : List Nat} {offset inode : Nat} {name : FileName} {value : Nat × Byte} {type : Byte}
  {source garbage data other : Bytes} {size blocksize stretch finish : Nat} {middle : List Nat}

section Fields

variable {place count : Nat}

theorem copyTo_inside (inside : place < count) : copyTo data offset count source (offset + place) = source place := by
  simp [copyTo, inside]

theorem copyTo_outside (outside : place < offset ∨ offset + count ≤ place) :
    copyTo data offset count source place = data place := by
  unfold copyTo
  rw [if_neg (by omega)]

theorem writeBack_inside (from_offset : offset ≤ place) (inside : place < offset + count) :
    writeBack data other offset count place = other place := by
  simp [writeBack, from_offset, inside]

theorem writeBack_outside (outside : place < offset ∨ offset + count ≤ place) :
    writeBack data other offset count place = data place := by
  unfold writeBack
  rw [if_neg (by omega)]

/-- The same header stands at two places. -/
def SameHeader (data : Bytes) (offset : Nat) (other : Bytes) (place : Nat) : Prop :=
  dentInode data offset = dentInode other place ∧ dentSize data offset = dentSize other place ∧
    dentNamelen data offset = dentNamelen other place ∧ dentType data offset = dentType other place

theorem sameHeader_of_bytes (same : ∀ index < dentHeader, data (offset + index) = other (place + index)) :
    SameHeader data offset other place := by
  have byte (index : Nat) (small : index < 8) := same index small
  have first := byte 0 (by decide)
  simp only [Nat.add_zero] at first
  refine ⟨?_, ?_, ?_, ?_⟩
  · simp only [dentInode, first, byte 1 (by decide), byte 2 (by decide), byte 3 (by decide)]
  · simp only [dentSize, byte 4 (by decide), byte 5 (by decide)]
  · simp only [dentNamelen, byte 6 (by decide)]
  · exact byte 7 (by decide)

@[simp] theorem dentName_length : (dentName data offset).length = dentNamelen data offset := by
  simp [dentName]

theorem dentName_getElem {index : Nat} (inside : index < (dentName data offset).length) :
    (dentName data offset)[index] = data (offset + dentHeader + index) := by
  simp [dentName]

theorem dentSize_small : dentSize data offset < 2 ^ 16 := by
  unfold dentSize
  omega

theorem entlen_bounds (namelen : Nat) :
    dentHeader + namelen ≤ entlen namelen ∧ entlen namelen < dentHeader + namelen + 4 ∧ entlen namelen % 4 = 0 := by
  unfold entlen
  omega

theorem dentInode_setInode (small : inode < 2 ^ 32) : dentInode (setInode data offset inode) offset = inode := by
  simp [dentInode, setInode, copyTo]
  omega

theorem dentSize_setSize (small : size < 2 ^ 16) : dentSize (setSize data offset size) offset = size := by
  simp [dentSize, setSize, copyTo, show offset + 5 - (offset + 4) = 1 by omega]
  omega

/-- A name and an inode that an entry can hold. -/
structure Storable (name : FileName) (inode : Nat) : Prop where
  small : inode < 2 ^ 32
  nonzero : inode ≠ 0
  short : name.length < 256

theorem dentBuffer_header (stored : Storable name inode) (size_small : size < 2 ^ 16) :
    dentInode (dentBuffer inode size type name garbage) 0 = inode ∧
      dentSize (dentBuffer inode size type name garbage) 0 = size ∧
      dentNamelen (dentBuffer inode size type name garbage) 0 = name.length ∧
      dentType (dentBuffer inode size type name garbage) 0 = type := by
  obtain ⟨inode_small, _, name_small⟩ := stored
  refine ⟨?_, ?_, ?_, ?_⟩
  · simp [dentInode, dentBuffer, setByte, setSize, setInode, copyTo, dentHeader]
    omega
  · simp [dentSize, dentBuffer, setByte, setSize, copyTo, dentHeader]
    omega
  · simp [dentNamelen, dentBuffer, setByte, copyTo, dentHeader]
    omega
  · simp [dentType, dentBuffer, setByte, copyTo, dentHeader]

theorem dentBuffer_name (stored : Storable name inode) (size_small : size < 2 ^ 16) :
    dentName (dentBuffer inode size type name garbage) 0 = name := by
  apply List.ext_getElem
  · rw [dentName_length]
    exact (dentBuffer_header stored size_small).2.2.1
  · intro index _ inside
    rw [dentName_getElem]
    simp [dentBuffer, copyTo, inside]

end Fields

/-- The two contents agree on a range. -/
def Agree (data other : Bytes) (start stop : Nat) : Prop :=
  ∀ place, start ≤ place → place < stop → other place = data place

/-- An entry lies in its block and holds its name. -/
structure WellSized (blocksize least : Nat) (data : Bytes) (offset : Nat) : Prop where
  least_size : least ≤ dentSize data offset
  aligned : dentSize data offset % 4 = 0
  inside : offset % blocksize + dentSize data offset ≤ blocksize
  fits : dentInode data offset ≠ 0 → entlen (dentNamelen data offset) ≤ dentSize data offset

/-- The entries at these offsets follow one another from the start to the end. -/
def Chain (blocksize least : Nat) (data : Bytes) : List Nat → Nat → Nat → Prop
  | [], start, stop => start = stop
  | offset :: rest, start, stop =>
    offset = start ∧ WellSized blocksize least data start ∧
      Chain blocksize least data rest (start + dentSize data start) stop

/-- The binding of an entry in use. -/
def binding (data : Bytes) (offset : Nat) : Option (FileName × Nat × Byte) :=
  if dentInode data offset = 0 then none
  else some (dentName data offset, dentInode data offset, dentType data offset)

def bindings (data : Bytes) (offsets : List Nat) : List (FileName × Nat × Byte) :=
  offsets.filterMap (binding data)

section Chain

variable {least : Nat} {offsets : List Nat} {start stop : Nat}

/-- An entry whose size alone is changed keeps its binding. -/
theorem resized_entry {place : Nat} (limit : Nat) (header : dentHeader ≤ limit)
    (fits : dentInode data offset ≠ 0 → entlen (dentNamelen data offset) ≤ limit)
    (same : ∀ index < limit, index ≠ 4 → index ≠ 5 → other (place + index) = data (offset + index)) :
    dentInode other place = dentInode data offset ∧ dentNamelen other place = dentNamelen data offset ∧
      binding other place = binding data offset := by
  have byte (index : Nat) (there : index < dentHeader ∧ index ≠ 4 ∧ index ≠ 5) :=
    same index (by omega) there.2.1 there.2.2
  have first := byte 0 (by decide)
  simp only [Nat.add_zero] at first
  have inode_same : dentInode other place = dentInode data offset := by
    simp only [dentInode, first, byte 1 (by decide), byte 2 (by decide), byte 3 (by decide)]
  have namelen_same : dentNamelen other place = dentNamelen data offset := by
    simp only [dentNamelen, byte 6 (by decide)]
  have type_same : dentType other place = dentType data offset := byte 7 (by decide)
  refine ⟨inode_same, namelen_same, ?_⟩
  unfold binding
  rw [inode_same, type_same]
  by_cases unused : dentInode data offset = 0
  · rw [if_pos unused, if_pos unused]
  · have name_same : dentName other place = dentName data offset := by
      apply List.ext_getElem
      · simp [namelen_same]
      · intro index inside _
        rw [dentName_length, namelen_same] at inside
        have bounds := entlen_bounds (dentNamelen data offset)
        rw [dentName_getElem, dentName_getElem, Nat.add_assoc, Nat.add_assoc]
        simp only [dentHeader] at bounds ⊢
        exact same (8 + index) (by omega) (by omega) (by omega)
    rw [name_same]

/-- An entry with a new size has this size and keeps its binding. -/
theorem setSize_entry (limit : Nat) (header : dentHeader ≤ limit)
    (fits : dentInode data offset ≠ 0 → entlen (dentNamelen data offset) ≤ limit) (small : size < 2 ^ 16)
    (same : ∀ index < limit, other (offset + index) = setSize data offset size (offset + index)) :
    dentSize other offset = size ∧ dentInode other offset = dentInode data offset ∧
      dentNamelen other offset = dentNamelen data offset ∧ binding other offset = binding data offset := by
  have sized : SameHeader other offset (setSize data offset size) offset := by
    apply sameHeader_of_bytes
    intro index below
    exact same index (by omega)
  refine ⟨sized.2.1.trans (dentSize_setSize small), resized_entry limit header fits ?_⟩
  intro index below _ _
  rw [same index below]
  exact copyTo_outside (by omega)

/-- What an entry says depends on its own bytes only. -/
theorem entry_congr (sized : WellSized blocksize dentHeader data start)
    (agree : Agree data other start (start + dentSize data start)) :
    SameHeader other start data start ∧ binding other start = binding data start := by
  have long := sized.least_size
  have header : SameHeader other start data start := by
    apply sameHeader_of_bytes
    intro index small
    exact agree (start + index) (by omega) (by omega)
  obtain ⟨_, _, bound⟩ := resized_entry _ long sized.fits fun index small _ _ =>
    agree (start + index) (by omega) (by omega)
  exact ⟨header, bound⟩

theorem WellSized.congr (sized : WellSized blocksize least data start) (header : SameHeader other start data start) :
    WellSized blocksize least other start := by
  obtain ⟨inode, size, namelen, _⟩ := header
  constructor
  · rw [size]
    exact sized.least_size
  · rw [size]
    exact sized.aligned
  · rw [size]
    exact sized.inside
  · rw [inode, size, namelen]
    exact sized.fits

theorem Chain.le (chain : Chain blocksize least data offsets start stop) : start ≤ stop := by
  induction offsets generalizing start with
  | nil => exact le_of_eq chain
  | cons offset rest ih =>
    obtain ⟨_, _, later⟩ := chain
    have bound := ih later
    omega

/-- A chain depends on the bytes that it covers only. -/
theorem Chain.congr (chain : Chain blocksize dentHeader data offsets start stop) (agree : Agree data other start stop) :
    Chain blocksize dentHeader other offsets start stop ∧ bindings other offsets = bindings data offsets := by
  induction offsets generalizing start with
  | nil => exact ⟨chain, rfl⟩
  | cons offset rest ih =>
    obtain ⟨rfl, sized, later⟩ := chain
    have bound := later.le
    obtain ⟨header, same⟩ := entry_congr sized fun place above below => agree place above (by omega)
    obtain ⟨later_chain, later_same⟩ := ih later fun place above below =>
      agree place (by omega) below
    refine ⟨⟨rfl, sized.congr header, ?_⟩, ?_⟩
    · rw [header.2.1]
      exact later_chain
    · simp only [bindings, List.filterMap_cons, same] at later_same ⊢
      rw [later_same]

theorem chain_append {first second : List Nat} : Chain blocksize least data (first ++ second) start stop ↔
      ∃ middle, Chain blocksize least data first start middle ∧ Chain blocksize least data second middle stop := by
  induction first generalizing start with
  | nil => simp [Chain]
  | cons offset rest ih =>
    simp only [List.cons_append, Chain, ih]
    constructor
    · rintro ⟨same, sized, middle, begins, ends⟩
      exact ⟨middle, ⟨same, sized, begins⟩, ends⟩
    · rintro ⟨middle, ⟨same, sized, begins⟩, ends⟩
      exact ⟨same, sized, middle, begins, ends⟩

theorem Chain.length_le (positive : 0 < least) (chain : Chain blocksize least data offsets start stop) :
    start + offsets.length ≤ stop := by
  induction offsets generalizing start with
  | nil => exact le_of_eq chain
  | cons offset rest ih =>
    obtain ⟨_, sized, later⟩ := chain
    have bound := ih later
    have long := sized.least_size
    simp only [List.length_cons]
    omega

theorem chain_single (size_eq : dentSize data offset = size) (long : least ≤ size) (aligned : size % 4 = 0)
    (inside : offset % blocksize + size ≤ blocksize)
    (fits : dentInode data offset ≠ 0 → entlen (dentNamelen data offset) ≤ size) :
    Chain blocksize least data [offset] offset (offset + size) := by
  subst size_eq
  exact ⟨rfl, ⟨long, aligned, inside, fits⟩, rfl⟩

/-- The scan stops at the first entry that is wanted, or behind the last one. -/
theorem scan_spec (positive : 0 < least) (wanted : Nat → Bool) (lastsize : Nat) {fuel : Nat}
    (chain : Chain blocksize least data offsets start stop) (enough : offsets.length ≤ fuel) :
    (∃ before offset after last, offsets = before ++ offset :: after ∧ wanted offset = true ∧
        (∀ earlier ∈ before, wanted earlier = false) ∧ scan data stop wanted fuel start lastsize = .ok (offset, last) ∧
        ((before = [] ∧ last = lastsize) ∨
          ∃ front previous, before = front ++ [previous] ∧ last = dentSize data previous)) ∨
      ((∀ offset ∈ offsets, wanted offset = false) ∧
        ∃ last, scan data stop wanted fuel start lastsize = .ok (stop, last)) := by
  induction offsets generalizing start fuel lastsize with
  | nil =>
    right
    have ended : start = stop := chain
    refine ⟨fun _ member => absurd member (by simp), lastsize, ?_⟩
    cases fuel with
    | zero | succ => simp [scan, ended]
  | cons offset rest ih =>
    obtain ⟨fuel, rfl⟩ := Nat.exists_eq_succ_of_ne_zero (Nat.ne_of_gt (Nat.zero_lt_of_lt enough))
    obtain ⟨rfl, sized, later⟩ := chain
    have long := sized.least_size
    have bound := later.le
    have open_end : offset < stop := by omega
    have nonzero : dentSize data offset ≠ 0 := by omega
    cases found : wanted offset with
    | true =>
      left
      exact ⟨[], offset, rest, lastsize, rfl, found, fun _ member => absurd member (by simp),
        by simp [scan, open_end, found], Or.inl ⟨rfl, rfl⟩⟩
    | false =>
      have goes_on : scan data stop wanted (fuel + 1) offset lastsize =
          scan data stop wanted fuel (offset + dentSize data offset) (dentSize data offset) := by
        simp [scan, open_end, found, nonzero]
      rw [goes_on]
      rcases ih (dentSize data offset) later (by simpa using enough) with
        ⟨before, hit, after, last, split, want, none_before, ran, previous⟩ | ⟨none_wanted, ran⟩
      · left
        refine ⟨offset :: before, hit, after, last, by rw [split]; rfl, want, ?_, ran, Or.inr ?_⟩
        · exact List.forall_mem_cons.mpr ⟨found, none_before⟩
        · rcases previous with ⟨rfl, rfl⟩ | ⟨front, previous, rfl, rfl⟩
          · exact ⟨[], offset, rfl, rfl⟩
          · exact ⟨offset :: front, previous, rfl, rfl⟩
      · right
        exact ⟨List.forall_mem_cons.mpr ⟨found, none_wanted⟩, ran⟩

end Chain

/-- The blocks of a directory hold a chain of entries with the bindings of the map. -/
structure Formed (least : Nat) (directory : Directory) (map : FileName → Option (Nat × Byte))
    (offsets : List Nat) : Prop where
  chain : Chain directory.blocksize least directory.data offsets 0 directory.size
  whole : directory.size % directory.blocksize = 0
  graph : Graph map (bindings directory.data offsets)

/-- The directory stands for the map. -/
def Holds (least : Nat) (directory : Directory) (map : FileName → Option (Nat × Byte)) : Prop :=
  directory.blocksize < 2 ^ 16 ∧ ∃ offsets, Formed least directory map offsets

section Operations

variable {directory : Directory} {map : FileName → Option (Nat × Byte)} {offsets : List Nat}

theorem Formed.holds {least : Nat} (formed : Formed least directory map offsets)
    (block_small : directory.blocksize < 2 ^ 16) : Holds least directory map :=
  ⟨block_small, offsets, formed⟩

theorem named_iff (data : Bytes) (offset : Nat) :
    named data name offset = true ↔ ∃ value, binding data offset = some (name, value) := by
  unfold named binding
  by_cases unused : dentInode data offset = 0
  · simp [unused]
  · simp only [unused, ne_eq, not_false_eq_true, decide_true, Bool.and_true, if_false, Bool.and_eq_true,
      decide_eq_true_eq, Option.some.injEq, Prod.mk.injEq]
    constructor
    · rintro ⟨_, same⟩
      exact ⟨_, same.symm, rfl⟩
    · rintro ⟨_, same, _⟩
      rw [← same]
      exact ⟨dentName_length, rfl⟩

section

variable (formed : Formed dentHeader directory map offsets)
include formed

theorem Formed.parts (split : offsets = before ++ offset :: after) :
    Chain directory.blocksize dentHeader directory.data before 0 offset ∧
      WellSized directory.blocksize dentHeader directory.data offset ∧
      Chain directory.blocksize dentHeader directory.data after (offset + dentSize directory.data offset)
        directory.size ∧ offset < directory.size := by
  have chain := formed.chain
  rw [split] at chain
  obtain ⟨middle, begins, same, sized, later⟩ := chain_append.mp chain
  subst same
  have long := sized.least_size
  have bound := later.le
  simp only [dentHeader] at long
  exact ⟨begins, sized, later, by omega⟩

theorem Formed.length_le : offsets.length ≤ directory.size := by
  have bound := formed.chain.length_le (by decide)
  omega

/-- The scan for a name finds its entry or shows that there is none. -/
theorem Formed.search (name : FileName) :
    (∃ before offset after last inode type, offsets = before ++ offset :: after ∧
        binding directory.data offset = some (name, inode, type) ∧ map name = some (inode, type) ∧
        offset < directory.size ∧ dentInode directory.data offset = inode ∧
        scan directory.data directory.size (named directory.data name) directory.size 0 0 = .ok (offset, last) ∧
        ((before = [] ∧ last = 0) ∨
          ∃ front previous, before = front ++ [previous] ∧ last = dentSize directory.data previous)) ∨
      (map name = none ∧ ∃ last, scan directory.data directory.size (named directory.data name) directory.size 0 0 =
          .ok (directory.size, last)) := by
  rcases scan_spec (by decide) (named directory.data name) 0 formed.chain formed.length_le with
    ⟨before, offset, after, last, split, found, _, ran, previous⟩ | ⟨none_named, ran⟩
  · left
    obtain ⟨⟨inode, type⟩, bound⟩ := (named_iff directory.data offset).mp found
    refine ⟨before, offset, after, last, inode, type, split, bound, ?_, (formed.parts split).2.2.2, ?_, ran, previous⟩
    · rw [formed.graph.exactly]
      apply List.mem_filterMap.mpr
      exact ⟨offset, by simp [split], bound⟩
    · unfold binding at bound
      split at bound
      · cases bound
      · cases bound
        rfl
  · right
    refine ⟨?_, ran⟩
    cases bound : map name with
    | none => rfl
    | some value =>
      obtain ⟨offset, member, same⟩ := List.mem_filterMap.mp ((formed.graph.exactly name value).mp bound)
      have wanted := none_named offset member
      rw [(named_iff directory.data offset).mpr ⟨value, same⟩] at wanted
      cases wanted

end

/-- The search returns the inode of the binding. -/
theorem findindir_spec (holds : Holds dentHeader directory map) (name : FileName) :
    findindir .working directory name none = .ok (match map name with
        | some (inode, _) => .ok inode
        | none => .error .enoent, directory) := by
  obtain ⟨_, offsets, formed⟩ := holds
  rcases formed.search name with
    ⟨_, offset, _, last, inode, type, _, _, bound, inside, inode_eq, ran, _⟩ | ⟨none_bound, last, ran⟩
  · simp [findindir, DirIo.working, ran, bound, inside, inode_eq, bind, Except.bind, pure, Except.pure]
  · simp [findindir, DirIo.working, ran, none_bound, bind, Except.bind, pure, Except.pure]

/-- A part of a chain is replaced by other entries for the same bytes. -/
theorem Chain.splice {start stop : Nat} (begins : Chain blocksize dentHeader data before start stretch)
    (ends : Chain blocksize dentHeader data after finish stop)
    (agree : ∀ place, place < stretch ∨ finish ≤ place → other place = data place)
    (replaced : Chain blocksize dentHeader other middle stretch finish) :
    Chain blocksize dentHeader other (before ++ (middle ++ after)) start stop ∧
      bindings other (before ++ (middle ++ after)) =
        bindings data before ++ (bindings other middle ++ bindings data after) := by
  obtain ⟨first, first_same⟩ := begins.congr fun place _ below => agree place (Or.inl below)
  obtain ⟨last, last_same⟩ := ends.congr fun place above _ => agree place (Or.inr above)
  refine ⟨chain_append.mpr ⟨_, first, chain_append.mpr ⟨_, replaced, last⟩⟩, ?_⟩
  unfold bindings at first_same last_same ⊢
  rw [List.filterMap_append, List.filterMap_append, first_same, last_same]

/-- The bytes of a new entry are an entry with the new binding. -/
theorem placed_entry (stored : Storable name inode) (size_small : size < 2 ^ 16)
    (same : ∀ index < entlen name.length, other (offset + index) = dentBuffer inode size type name garbage index) :
    dentSize other offset = size ∧ dentNamelen other offset = name.length ∧
      binding other offset = some (name, inode, type) := by
  have bounds := entlen_bounds name.length
  obtain ⟨inode_eq, size_eq, namelen_eq, type_eq⟩ := dentBuffer_header stored size_small
  have header : SameHeader other offset (dentBuffer inode size type name garbage) 0 := by
    apply sameHeader_of_bytes
    intro index small
    rw [Nat.zero_add]
    exact same index (by omega)
  obtain ⟨_, namelen_same, bound⟩ := resized_entry (entlen name.length) (by omega)
    (fun _ => by rw [namelen_eq]) fun index small _ _ => (same index small).trans (by rw [Nat.zero_add])
  refine ⟨header.2.1.trans size_eq, namelen_same.trans namelen_eq, ?_⟩
  rw [bound, binding, inode_eq, if_neg stored.nonzero, dentBuffer_name stored size_small, type_eq]

/-- The contents after an entry was split for a new one. -/
def splitData (data garbage : Bytes) (offset inode : Nat) (type : Byte) (name : FileName) : Bytes :=
  writeBack data
    (copyTo (setSize data offset (truesize data offset)) (offset + truesize data offset) (entlen name.length)
      (dentBuffer inode (freesize data offset) type name garbage))
    offset (dentSize data offset)

theorem freesize_eq (sized : WellSized blocksize dentHeader data offset) :
    truesize data offset + freesize data offset = dentSize data offset ∧
      (truesize data offset = 0 ∨ dentHeader ≤ truesize data offset ∧ dentInode data offset ≠ 0) := by
  have small : dentSize data offset < 2 ^ 16 := dentSize_small
  have bounds := entlen_bounds (dentNamelen data offset)
  unfold freesize truesize
  by_cases unused : dentInode data offset = 0
  · rw [if_pos unused]
    exact ⟨by omega, Or.inl rfl⟩
  · have fits := sized.fits unused
    rw [if_neg unused]
    exact ⟨by omega, Or.inr ⟨by omega, unused⟩⟩

/-- An entry with enough room is split into its used part and the new entry. -/
theorem split_segment (garbage : Bytes) (type : Byte) (sized : WellSized blocksize dentHeader data offset)
    (stored : Storable name inode) (room : entlen name.length ≤ freesize data offset) :
    ∃ middle, Chain blocksize dentHeader (splitData data garbage offset inode type name) middle offset
        (offset + dentSize data offset) ∧ (bindings (splitData data garbage offset inode type name) middle).Perm
        ((name, inode, type) :: (binding data offset).toList) := by
  have header_eq : dentHeader = 8 := rfl
  obtain ⟨sum, used⟩ := freesize_eq sized
  have small : dentSize data offset < 2 ^ 16 := dentSize_small
  have needed := entlen_bounds name.length
  have aligned := sized.aligned
  have inside := sized.inside
  have placed : ∀ index < entlen name.length,
      splitData data garbage offset inode type name (offset + truesize data offset + index) =
        dentBuffer inode (freesize data offset) type name garbage index := by
    intro index below
    unfold splitData
    rw [writeBack_inside (by omega) (by omega), copyTo_inside below]
  obtain ⟨new_size, new_namelen, new_binding⟩ := placed_entry stored (by omega) placed
  rcases used with unused | ⟨header, in_use⟩
  · refine ⟨[offset], ?_, ?_⟩
    · rw [unused, Nat.add_zero] at new_size new_namelen
      rw [← sum, unused, Nat.zero_add]
      apply chain_single new_size (by omega) (by omega) (by omega)
      intro _
      rw [new_namelen]
      exact room
    · rw [unused, Nat.add_zero] at new_binding
      have no_binding : binding data offset = none := by
        unfold truesize at unused
        unfold binding
        split at unused
        · next zero => rw [if_pos zero]
        · have bounds := entlen_bounds (dentNamelen data offset)
          omega
      simp [bindings, new_binding, no_binding]
  · have kept : ∀ index < truesize data offset, splitData data garbage offset inode type name (offset + index) =
        setSize data offset (truesize data offset) (offset + index) := by
      intro index below
      unfold splitData
      rw [writeBack_inside (by omega) (by omega), copyTo_outside (by omega)]
    have used_eq : truesize data offset = entlen (dentNamelen data offset) := by simp [truesize, in_use]
    have used_bounds := entlen_bounds (dentNamelen data offset)
    obtain ⟨size_eq, inode_same, namelen_same, binding_same⟩ :=
      setSize_entry _ header (fun _ => le_of_eq used_eq.symm) (by omega) kept
    have block : (offset + truesize data offset) % blocksize = offset % blocksize + truesize data offset := by
      rw [← Nat.mod_add_mod, Nat.mod_eq_of_lt (by omega)]
    refine ⟨[offset] ++ [offset + truesize data offset], chain_append.mpr ⟨offset + truesize data offset, ?_, ?_⟩, ?_⟩
    · apply chain_single size_eq header (by omega) (by omega)
      intro _
      rw [namelen_same]
      exact le_of_eq used_eq.symm
    · rw [← sum, ← Nat.add_assoc]
      apply chain_single new_size (by omega) (by omega) (by omega)
      intro _
      rw [new_namelen]
      exact room
    · have old_bound : ∃ bound, binding data offset = some bound := by simp [binding, in_use]
      obtain ⟨bound, old_eq⟩ := old_bound
      simp only [bindings, List.singleton_append, List.filterMap_cons, binding_same, old_eq, new_binding,
        List.filterMap_nil, Option.toList_some]
      exact List.Perm.swap _ _ _

theorem bindings_split (data : Bytes) (before after : List Nat) (offset : Nat) :
    bindings data (before ++ offset :: after) =
      bindings data before ++ ((binding data offset).toList ++ bindings data after) := by
  unfold bindings
  rw [List.filterMap_append, List.filterMap_cons]
  cases binding data offset with
  | none | some => rfl

section

variable (formed : Formed dentHeader directory map offsets)
include formed

/-- The new entry goes behind the name of an entry with room. -/
theorem Formed.splitEntry (split : offsets = before ++ offset :: after) (type : Byte) (garbage : Bytes)
    (stored : Storable name inode) (absent : map name = none)
    (room : entlen name.length ≤ freesize directory.data offset) :
    ∃ changed, Formed dentHeader { directory with data := splitData directory.data garbage offset inode type name }
      (update map name (some (inode, type))) changed := by
  obtain ⟨begins, sized, ends, _⟩ := formed.parts split
  obtain ⟨middle, chain, perm⟩ := split_segment garbage type sized stored room
  have outside : ∀ place, place < offset ∨ offset + dentSize directory.data offset ≤ place →
      splitData directory.data garbage offset inode type name place = directory.data place := by
    intro place elsewhere
    exact writeBack_outside elsewhere
  obtain ⟨whole_chain, whole_bindings⟩ := begins.splice ends outside chain
  refine ⟨before ++ (middle ++ after), whole_chain, formed.whole, ?_⟩
  apply formed.graph.insert absent
  rw [split, bindings_split]
  change (bindings (splitData directory.data garbage offset inode type name) _).Perm _
  rw [whole_bindings]
  exact (List.Perm.append_left _ (List.Perm.append_right _ perm)).trans List.perm_middle

/-- The new entry fills the block that is added. -/
theorem Formed.addBlock (block_small : directory.blocksize < 2 ^ 16) (type : Byte) (garbage stale : Bytes)
    (stored : Storable name inode) (absent : map name = none) (room : directory.size + directory.blocksize < 2 ^ 32) :
    Formed dentHeader
      { directory.grow stale with
        data := copyTo (directory.grow stale).data directory.size (entlen name.length)
          (dentBuffer inode directory.blocksize type name garbage) }
      (update map name (some (inode, type))) (offsets ++ [directory.size]) := by
  have header_eq : dentHeader = 8 := rfl
  have needed := entlen_bounds name.length
  have short := stored.short
  have block_large : 1024 ≤ directory.blocksize := Nat.le_mul_of_pos_right 1024 (by positivity)
  have block_aligned : directory.blocksize % 4 = 0 := by
    unfold Directory.blocksize
    rw [Nat.mul_mod]
    simp
  have size_eq : (directory.grow stale).size = directory.size + directory.blocksize := Nat.mod_eq_of_lt room
  let data : Bytes := copyTo (directory.grow stale).data directory.size (entlen name.length)
    (dentBuffer inode directory.blocksize type name garbage)
  have placed : ∀ index < entlen name.length,
      data (directory.size + index) = dentBuffer inode directory.blocksize type name garbage index := by
    intro index below
    exact copyTo_inside below
  have agree : Agree directory.data data 0 directory.size := by
    intro place _ below
    change copyTo (copyTo directory.data directory.size directory.blocksize stale) _ _ _ place = _
    rw [copyTo_outside (Or.inl below), copyTo_outside (Or.inl below)]
  obtain ⟨new_size, new_namelen, new_binding⟩ := placed_entry stored block_small placed
  obtain ⟨chain, same⟩ := formed.chain.congr agree
  have whole := formed.whole
  refine ⟨?_, ?_, ?_⟩
  · apply chain_append.mpr
    refine ⟨directory.size, chain, ?_⟩
    change Chain directory.blocksize dentHeader data [directory.size] directory.size (directory.grow stale).size
    rw [size_eq]
    apply chain_single new_size (by omega) block_aligned (by omega)
    intro _
    rw [new_namelen]
    omega
  · change (directory.grow stale).size % directory.blocksize = 0
    rw [size_eq, Nat.add_mod, whole]
    simp
  · apply formed.graph.insert absent
    change (bindings data (offsets ++ [directory.size])).Perm _
    unfold bindings at same ⊢
    rw [List.filterMap_append, same]
    simp only [List.filterMap_cons, new_binding, List.filterMap_nil]
    exact List.perm_append_singleton _ _

omit formed in
/-- An insertion adds the binding. -/
theorem insertdent_spec (holds : Holds dentHeader directory map) (type : Byte) (garbage stale : Bytes)
    (stored : Storable name inode) (absent : map name = none) (room : directory.size + directory.blocksize < 2 ^ 32) :
    ∃ after, insertdent .working (.ok stale) garbage directory name inode type = .ok (none, after) ∧
      Holds dentHeader after (update map name (some (inode, type))) := by
  obtain ⟨block_small, offsets, formed⟩ := holds
  rcases scan_spec (by decide) (roomy directory.data (entlen name.length)) 0 formed.chain formed.length_le with
    ⟨before, offset, after, last, split, found, _, ran, _⟩ | ⟨_, last, ran⟩
  · have inside : ¬ offset ≥ directory.size := Nat.not_le_of_gt (formed.parts split).2.2.2
    obtain ⟨changed, new_formed⟩ := formed.splitEntry split type garbage stored absent (by simpa [roomy] using found)
    refine ⟨_, ?_, new_formed.holds block_small⟩
    simp only [insertdent, DirIo.working, Bool.not_true, Bool.false_eq_true, if_false, ran, bind, Except.bind, inside,
      pure, Except.pure, splitData]
  · have new_formed := formed.addBlock block_small type garbage stale stored absent room
    refine ⟨_, ?_, new_formed.holds block_small⟩
    have size_eq : (directory.grow stale).size = directory.size + directory.blocksize := Nat.mod_eq_of_lt room
    have block_same : (directory.grow stale).blocksize = directory.blocksize := rfl
    have positive : 0 < directory.blocksize := Nat.mul_pos (by decide) (by positivity)
    have in_block : ¬ directory.size / (directory.grow stale).blocksize ≥
        ((directory.grow stale).size + (directory.grow stale).blocksize - 1) / (directory.grow stale).blocksize := by
      rw [size_eq, block_same, Nat.not_le, Nat.lt_div_iff_mul_lt positive]
      have start := Nat.div_mul_le_self directory.size directory.blocksize
      omega
    simp only [insertdent, DirIo.working, Bool.not_true, Bool.false_eq_true, if_false, ran, bind, Except.bind, ge_iff_le,
      le_refl, if_true, pure, Except.pure]
    rw [if_neg in_block]

/-- A chain whose one part lost its binding is the chain of the smaller map. -/
theorem Formed.replaced {kept : List (FileName × Nat × Byte)}
    (begins : Chain directory.blocksize dentHeader directory.data before 0 stretch)
    (ends : Chain directory.blocksize dentHeader directory.data after finish directory.size)
    (outside : ∀ place, place < stretch ∨ finish ≤ place → data place = directory.data place)
    (chain : Chain directory.blocksize dentHeader data middle stretch finish) (old : bindings directory.data offsets =
      bindings directory.data before ++ (kept ++ (name, value) :: bindings directory.data after))
    (new : bindings data middle = kept) : Formed dentHeader { directory with data := data } (update map name none)
      (before ++ (middle ++ after)) := by
  obtain ⟨whole_chain, whole_bindings⟩ := begins.splice ends outside chain
  have perm : (bindings directory.data offsets).Perm ((name, value) :: bindings data (before ++ (middle ++ after))) := by
    rw [old, whole_bindings, new, ← List.append_assoc, ← List.append_assoc]
    exact List.perm_middle
  exact ⟨whole_chain, formed.whole, formed.graph.remove perm⟩

/-- The entry before takes over the bytes of a removed entry. -/
theorem Formed.mergeEntry (block_small : directory.blocksize < 2 ^ 16) {front : List Nat} {previous : Nat}
    (split : offsets = (front ++ [previous]) ++ offset :: after)
    (bound : binding directory.data offset = some (name, value)) (inner : offset % directory.blocksize ≠ 0)
    (sum : dentSize directory.data previous + dentSize directory.data offset = size) :
    previous + dentSize directory.data previous = offset ∧
    dentSize (setSize directory.data previous size) previous = size ∧ Formed dentHeader
      { directory with data := writeBack directory.data (setSize directory.data previous size) previous size }
      (update map name none) (front ++ ([previous] ++ after)) := by
  obtain ⟨begins, sized, ends, _⟩ := formed.parts split
  obtain ⟨middle, first, same, previous_sized, next⟩ := chain_append.mp begins
  have adjacent : previous + dentSize directory.data previous = offset := by
    rw [same]
    exact next
  subst same
  have long := previous_sized.least_size
  have previous_aligned := previous_sized.aligned
  have aligned := sized.aligned
  have inside := sized.inside
  -- Both entries are in one block because the second one does not start a block.
  have same_block : offset % directory.blocksize =
      previous % directory.blocksize + dentSize directory.data previous := by
    rw [← adjacent, ← Nat.mod_add_mod] at inner ⊢
    exact Nat.mod_eq_of_lt (Nat.lt_of_le_of_ne previous_sized.inside fun full => inner (by rw [full, Nat.mod_self]))
  have size_eq : dentSize (setSize directory.data previous size) previous = size := dentSize_setSize (by omega)
  set data := writeBack directory.data (setSize directory.data previous size) previous size
  have outside : ∀ place, place < previous ∨ offset + dentSize directory.data offset ≤ place →
      data place = directory.data place := by
    intro place elsewhere
    exact writeBack_outside (by omega)
  have resized (index : Nat) (below : index < dentSize directory.data previous) :
      data (previous + index) = setSize directory.data previous size (previous + index) :=
    writeBack_inside (by omega) (by omega)
  obtain ⟨new_size, inode_same, namelen_same, binding_same⟩ := setSize_entry _ long previous_sized.fits (by omega) resized
  have old : bindings directory.data offsets = bindings directory.data front ++
      ((binding directory.data previous).toList ++ (name, value) :: bindings directory.data after) := by
    rw [split, bindings_split, bindings_split, bound]
    simp [bindings]
  refine ⟨adjacent, size_eq, formed.replaced first ends outside ?_ old ?_⟩
  · rw [show offset + dentSize directory.data offset = previous + size by omega]
    apply chain_single new_size (by omega) (by omega) (by omega)
    intro in_use
    rw [inode_same] at in_use
    have fits := previous_sized.fits in_use
    rw [namelen_same]
    omega
  · simp only [bindings, List.filterMap_cons, binding_same, List.filterMap_nil]
    cases binding directory.data previous <;> rfl

/-- An entry at the start of a block is marked as unused. -/
theorem Formed.clearEntry (split : offsets = before ++ offset :: after)
    (bound : binding directory.data offset = some (name, value)) {buffer : Bytes}
    (unnamed : setByte (setInode directory.data offset 0) (offset + dentHeader) 0 = buffer) : Formed dentHeader
      { directory with data := writeBack directory.data buffer offset (dentSize buffer offset) }
      (update map name none) (before ++ ([offset] ++ after)) := by
  obtain ⟨begins, sized, ends, _⟩ := formed.parts split
  have long := sized.least_size
  have cleared (index : Nat) (low : index < dentHeader) :
      buffer (offset + index) = setInode directory.data offset 0 (offset + index) := by
    rw [← unnamed]
    exact copyTo_outside (by omega)
  have buffer_size : dentSize buffer offset = dentSize directory.data offset := by
    unfold dentSize
    rw [cleared 4 (by decide), cleared 5 (by decide), setInode, copyTo_outside (by omega), copyTo_outside (by omega)]
  have buffer_inode : dentInode buffer offset = 0 := by
    obtain ⟨same, _⟩ := sameHeader_of_bytes cleared
    rw [same, dentInode_setInode (by decide)]
  have outside : ∀ place, place < offset ∨ offset + dentSize directory.data offset ≤ place →
      writeBack directory.data buffer offset (dentSize buffer offset) place = directory.data place := by
    intro place elsewhere
    exact writeBack_outside (by omega)
  have header : SameHeader (writeBack directory.data buffer offset (dentSize buffer offset)) offset buffer offset := by
    apply sameHeader_of_bytes
    intro index small
    exact writeBack_inside (by omega) (by omega)
  have old : bindings directory.data offsets = bindings directory.data before ++
      ([] ++ (name, value) :: bindings directory.data after) := by
    rw [split, bindings_split, bound]
    rfl
  refine formed.replaced begins ends outside ?_ old ?_
  · apply chain_single (header.2.1.trans buffer_size) long sized.aligned sized.inside
    intro in_use
    exact absurd (header.1.trans buffer_inode) in_use
  · simp [bindings, binding, header.1, buffer_inode]

end

/-- A removal takes the binding away. -/
theorem removedent_spec (holds : Holds dentHeader directory map) (bound : map name = some (inode, type)) :
    ∃ after, removedent .working directory name = .ok (.ok inode, after) ∧
      Holds dentHeader after (update map name none) := by
  obtain ⟨block_small, offsets, formed⟩ := holds
  rcases formed.search name with
    ⟨before, offset, after, last, found, foundType, split, entry, same, inside, inode_eq, ran, previous⟩ | ⟨none_bound, _⟩
  · rw [bound] at same
    cases same
    by_cases inner : offset % directory.blocksize ≠ 0
    · rcases previous with ⟨rfl, _⟩ | ⟨front, previous, rfl, rfl⟩
      · have start : 0 = offset := (formed.parts split).1
        rw [← start, Nat.zero_mod] at inner
        exact absurd rfl inner
      · obtain ⟨adjacent, size_eq, new_formed⟩ := formed.mergeEntry block_small split entry inner rfl
        refine ⟨_, ?_, new_formed.holds block_small⟩
        have back : offset - dentSize directory.data previous = previous := by omega
        simp only [removedent, DirIo.working, Bool.not_true, Bool.false_eq_true, if_false, ran, bind, Except.bind,
          inside, if_true, back, size_eq, inode_eq, pure, Except.pure]
        rw [if_pos inner]
    · refine ⟨_, ?_, (formed.clearEntry split entry rfl).holds block_small⟩
      simp only [removedent, DirIo.working, Bool.not_true, Bool.false_eq_true, if_false, ran, bind, Except.bind,
        inside, if_true, inner, inode_eq, pure, Except.pure]
  · rw [bound] at none_bound
    cases none_bound

end Operations

/-- An operation on a directory, with the old contents of the memory and the block that it may be given. -/
inductive DirOp where
  | find (name : FileName)
  | insert (name : FileName) (inode : Nat) (type : Byte) (garbage stale : Bytes)
  | remove (name : FileName)

/-- What an operation does to a map. -/
def DirOp.change (map : FileName → Option (Nat × Byte)) : DirOp → FileName → Option (Nat × Byte)
  | .find _ => map
  | .insert name inode type _ _ => update map name (some (inode, type))
  | .remove name => update map name none

/-- What an operation does to a directory while nothing fails. -/
def Directory.step (directory : Directory) : DirOp → Except Panic Directory
  | .find name => (findindir .working directory name none).map Prod.snd
  | .insert name inode type garbage stale =>
    (insertdent .working (.ok stale) garbage directory name inode type).map Prod.snd
  | .remove name => (removedent .working directory name).map Prod.snd

/-- A directory beside the map that it should stand for. -/
abbrev Paired := Directory × (FileName → Option (Nat × Byte))

def Paired.step (paired : Paired) (op : DirOp) : Except Panic Paired :=
  (paired.1.step op).map fun directory => (directory, op.change paired.2)

/-- A free name is bound to an inode while the directory stays below four gigabytes, or a bound name is removed. -/
def Paired.Allowed (paired : Paired) : DirOp → Prop
  | .find _ => True
  | .insert name inode _ _ _ => 1 ≤ name.length ∧ name.length ≤ 255 ∧ paired.2 name = none ∧ 0 < inode ∧
      inode < 2 ^ 32 ∧ paired.1.size + paired.1.blocksize < 2 ^ 32
  | .remove name => paired.2 name ≠ none

theorem Paired.step_holds {paired after : Paired} {op : DirOp} (holds : Holds dentHeader paired.1 paired.2)
    (allowed : paired.Allowed op) (ran : paired.step op = .ok after) : Holds dentHeader after.1 after.2 := by
  cases op with
  | find name =>
    simp only [Paired.step, Directory.step, findindir_spec holds, Except.map, Except.ok.injEq] at ran
    subst ran
    exact holds
  | insert name inode type garbage stale =>
    obtain ⟨_, name_small, absent, positive, inode_small, room⟩ := allowed
    obtain ⟨next, inserted, next_holds⟩ := insertdent_spec holds type garbage stale
      ⟨inode_small, Nat.ne_of_gt positive, Nat.lt_succ_of_le name_small⟩ absent room
    simp only [Paired.step, Directory.step, inserted, Except.map, Except.ok.injEq] at ran
    subst ran
    exact next_holds
  | remove name =>
    obtain ⟨⟨inode, type⟩, bound⟩ := Option.ne_none_iff_exists'.mp allowed
    obtain ⟨next, removed, next_holds⟩ := removedent_spec holds bound
    simp only [Paired.step, Directory.step, removed, Except.map, Except.ok.injEq] at ran
    subst ran
    exact next_holds

/-- In every run a directory stands for the map that its operations make, and each operation answers as the map does. -/
theorem directory_map {start final : Paired} (holds : Holds dentHeader start.1 start.2)
    (reached : Reaches Paired.step Paired.Allowed start final) :
    Holds dentHeader final.1 final.2 ∧ (∀ name, findindir .working final.1 name none = .ok (match final.2 name with
          | some (inode, _) => .ok inode
          | none => .error .enoent, final.1)) ∧
      (∀ name inode type garbage stale, final.Allowed (.insert name inode type garbage stale) →
        ∃ after, insertdent .working (.ok stale) garbage final.1 name inode type = .ok (none, after) ∧
          Holds dentHeader after (update final.2 name (some (inode, type)))) ∧
      ∀ name inode type, final.2 name = some (inode, type) →
        ∃ after, removedent .working final.1 name = .ok (.ok inode, after) ∧
          Holds dentHeader after (update final.2 name none) := by
  have kept := reached.keeps (fun paired => Holds dentHeader paired.1 paired.2)
    (fun _ _ _ before allowed ran => Paired.step_holds before allowed ran) holds
  refine ⟨kept, findindir_spec kept, ?_, fun name inode type bound => removedent_spec kept bound⟩
  intro name inode type garbage stale allowed
  obtain ⟨_, name_small, absent, positive, inode_small, room⟩ := allowed
  exact insertdent_spec kept type garbage stale ⟨inode_small, Nat.ne_of_gt positive, Nat.lt_succ_of_le name_small⟩
    absent room

/-- Two blocks of which the first one ends with an unused entry of four bytes. -/
def shortDirectory : Directory where
  logblock := 0
  size := 2048
  data place :=
    if place = 4 then 0xfc else if place = 5 then 3 else if place = 1024 then 4 else if place = 1029 then 4
    else if place = 1030 then 1 else if place = 1031 then 1 else if place = 1032 then 97 else 0

/-- An entry shorter than its header loses its size with the inode of the entry behind it. -/
theorem shortEntry_breaks : Holds 1 shortDirectory (fun name => if name = [97] then some (4, 1) else none) ∧
      ∃ after, removedent .working shortDirectory [97] = .ok (.ok 4, after) ∧
        findindir .working after [98] none = .error .assertion := by
  refine ⟨⟨by decide, [0, 1020, 1024], ⟨⟨rfl, ⟨by decide, by decide, by decide, by decide⟩,
    ⟨by decide, ⟨by decide, by decide, by decide, by decide⟩,
      ⟨by decide, ⟨by decide, by decide, by decide, by decide⟩, rfl⟩⟩⟩, by decide, ?_⟩⟩, _, rfl, rfl⟩
  have entries : bindings shortDirectory.data [0, 1020, 1024] = [([97], 4, 1)] := by decide
  rw [entries]
  constructor
  · decide
  · intro name value
    rw [List.mem_singleton, Prod.mk.injEq]
    by_cases same : name = [97]
    · rw [if_pos same, Option.some.injEq, and_iff_right same, eq_comm]
    · rw [if_neg same]
      exact ⟨fun bound => (nomatch bound), fun bound => absurd bound.1 same⟩

/-- A directory with one empty block. -/
def emptyDirectory : Directory where
  logblock := 0
  size := 1024
  data place := if place = 5 then 4 else 0

/-- A name is inserted into an empty directory and found there. -/
theorem emptyDirectory_map : Holds dentHeader emptyDirectory (fun _ => none) ∧
    ∃ after, insertdent .working (.ok fun _ => 0) (fun _ => 0) emptyDirectory [97] 4 1 = .ok (none, after) ∧
      Holds dentHeader after (update (fun _ => none) [97] (some (4, 1))) := by
  have holds : Holds dentHeader emptyDirectory (fun _ => none) := by
    refine ⟨by decide, [0], ⟨⟨rfl, ⟨by decide, by decide, by decide, by decide⟩, rfl⟩, by decide, ?_⟩⟩
    have entries : bindings emptyDirectory.data [0] = [] := by decide
    rw [entries]
    exact ⟨List.nodup_nil, fun _ _ => by simp⟩
  have start : Holds dentHeader (emptyDirectory, fun _ : FileName => (none : Option (Nat × Byte))).1
      (emptyDirectory, fun _ : FileName => (none : Option (Nat × Byte))).2 := holds
  exact ⟨holds, (directory_map start .refl).2.2.1 [97] 4 1 (fun _ => 0) (fun _ => 0)
    ⟨by decide, by decide, rfl, by decide, by decide, by decide⟩⟩

end Astral.Ext2
