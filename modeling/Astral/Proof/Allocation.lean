import Astral.Construction.Allocation
import Astral.Library.Run

namespace Astral.Ext2

open Function Astral.Library

variable {kind : Kind} {bg place offset index id : Nat}

section Geometry

variable (geometry : Geometry) (kind : Kind)

theorem Geometry.pergroup_positive : 0 < geometry.pergroup kind := by
  cases kind
  · exact geometry.blocks_positive
  · exact geometry.inodes_positive

theorem Geometry.pergroup_bytes : geometry.pergroup kind % 8 = 0 := by
  cases kind
  · exact geometry.blocks_bytes
  · exact geometry.inodes_bytes

theorem Geometry.pergroup_bounded : geometry.pergroup kind < 2 ^ 16 := by
  cases kind
  · exact geometry.blocks_bounded
  · exact geometry.inodes_bounded

theorem Geometry.limit_grouped :
    geometry.limit kind ≤ geometry.first kind + geometry.bgcount * geometry.pergroup kind := by
  cases kind
  · exact geometry.blocks_grouped
  · have grouped := geometry.inodes_grouped
    simp only [Geometry.limit, Geometry.first, Geometry.pergroup]
    omega

theorem Geometry.limit_bounded : geometry.limit kind - geometry.first kind < 2 ^ 32 := by
  cases kind
  · have bounded := geometry.blockcount_bounded
    simp only [Geometry.limit, Geometry.first]
    omega
  · have bounded := geometry.inodecount_bounded
    simp only [Geometry.limit, Geometry.first]
    omega

variable {geometry kind}

theorem Geometry.groupGet_split (above : geometry.first kind ≤ id) :
    geometry.groupGet kind (geometry.getGroup kind id) + geometry.getIndex kind id = id := by
  have split := Nat.div_add_mod (id - geometry.first kind) (geometry.pergroup kind)
  simp only [Geometry.groupGet, Geometry.getGroup, Geometry.getIndex]
  rw [Nat.mul_comm] at split
  omega

theorem Geometry.groupGet_sub : geometry.groupGet kind bg + index - geometry.first kind =
    geometry.pergroup kind * bg + index := by
  rw [Geometry.groupGet, Nat.mul_comm]
  omega

theorem Geometry.getGroup_add (small : index < geometry.pergroup kind) :
    geometry.getGroup kind (geometry.groupGet kind bg + index) = bg := by
  have positive := geometry.pergroup_positive kind
  rw [Geometry.getGroup, geometry.groupGet_sub, Nat.mul_add_div positive, Nat.div_eq_of_lt small, Nat.add_zero]

theorem Geometry.getIndex_add (small : index < geometry.pergroup kind) :
    geometry.getIndex kind (geometry.groupGet kind bg + index) = index := by
  rw [Geometry.getIndex, geometry.groupGet_sub, Nat.mul_add_mod, Nat.mod_eq_of_lt small]

theorem Geometry.getIndex_small (id : Nat) : geometry.getIndex kind id < geometry.pergroup kind :=
  Nat.mod_lt _ (geometry.pergroup_positive kind)

theorem Geometry.getGroup_inside (above : geometry.first kind ≤ id) (below : id < geometry.limit kind) :
    geometry.getGroup kind id < geometry.bgcount := by
  have grouped := geometry.limit_grouped kind
  apply Nat.div_lt_of_lt_mul
  rw [Nat.mul_comm]
  omega

end Geometry

/-- The number of clear bits in the bitmap of a group. -/
def Fs.clear (fs : Fs) (kind : Kind) (bg : Nat) : Nat :=
  Nat.count (fun index => bit (fs.bitmap kind bg) index = false) (fs.geometry.pergroup kind)

def Fs.used (fs : Fs) (kind : Kind) (id : Nat) : Bool :=
  bit (fs.bitmap kind (fs.geometry.getGroup kind id)) (fs.geometry.getIndex kind id)

/-- A structure of the file system that is not in use. -/
def Fs.Free (fs : Fs) (kind : Kind) (id : Nat) : Prop :=
  fs.geometry.first kind ≤ id ∧ id < fs.geometry.limit kind ∧ fs.used kind id = false

/-- A structure of the file system that is in use. -/
def Fs.Allocated (fs : Fs) (kind : Kind) (id : Nat) : Prop :=
  fs.geometry.first kind ≤ id ∧ id < fs.geometry.limit kind ∧ fs.used kind id = true

/-- The counters and the hints say what the bitmaps say. -/
structure Consistent (fs : Fs) : Prop where
  sized : ∀ kind bg, bg < fs.geometry.bgcount → (fs.bitmap kind bg).length = fs.geometry.pergroup kind / 8
  counted : ∀ kind bg, bg < fs.geometry.bgcount → fs.desc bg kind = fs.clear kind bg
  padded : ∀ kind bg index, bg < fs.geometry.bgcount → index < fs.geometry.pergroup kind →
    fs.geometry.limit kind ≤ fs.geometry.groupGet kind bg + index → bit (fs.bitmap kind bg) index = true
  summed : ∀ kind, fs.unallocated kind = ∑ bg ∈ Finset.range fs.geometry.bgcount, fs.desc bg kind
  hinted : ∀ kind bg, bg < fs.geometry.bgcount → bg < fs.lowestfree kind → fs.desc bg kind = 0

/-- Two states that agree but for one bit and what is said about its kind. -/
structure Differ (fs other : Fs) (kind : Kind) (bg index : Nat) : Prop where
  geometry : other.geometry = fs.geometry
  lengths : ∀ otherKind group, (other.bitmap otherKind group).length = (fs.bitmap otherKind group).length
  bits : ∀ otherKind group place, (otherKind, group, place) ≠ (kind, bg, index) →
    bit (other.bitmap otherKind group) place = bit (fs.bitmap otherKind group) place
  descs : ∀ otherKind group, (otherKind, group) ≠ (kind, bg) → other.desc group otherKind = fs.desc group otherKind
  sums : ∀ otherKind, otherKind ≠ kind → other.unallocated otherKind = fs.unallocated otherKind
  hints : ∀ otherKind, otherKind ≠ kind → other.lowestfree otherKind = fs.lowestfree otherKind

section Differ

variable {fs other : Fs}

section

variable (differ : Differ fs other kind bg index)
include differ

theorem Differ.symm : Differ other fs kind bg index where
  geometry := differ.geometry.symm
  lengths otherKind group := (differ.lengths otherKind group).symm
  bits otherKind group place elsewhere := (differ.bits otherKind group place elsewhere).symm
  descs otherKind group elsewhere := (differ.descs otherKind group elsewhere).symm
  sums otherKind elsewhere := (differ.sums otherKind elsewhere).symm
  hints otherKind elsewhere := (differ.hints otherKind elsewhere).symm

theorem Differ.clear_same {otherKind : Kind} {group : Nat} (elsewhere : (otherKind, group) ≠ (kind, bg)) :
    other.clear otherKind group = fs.clear otherKind group := by
  unfold Fs.clear
  rw [differ.geometry]
  apply count_congr
  intro place _
  rw [differ.bits otherKind group place (by simp_all)]

variable (small : index < fs.geometry.pergroup kind)
include small

/-- The state in which the bit is clear has one clear bit more. -/
theorem Differ.clear_succ (free : bit (fs.bitmap kind bg) index = false)
    (taken : bit (other.bitmap kind bg) index = true) : fs.clear kind bg = other.clear kind bg + 1 := by
  unfold Fs.clear
  rw [differ.geometry]
  apply count_remove small free
  intro place _
  by_cases same : place = index
  · subst same
    simp [taken]
  · rw [differ.bits kind bg place (by simp [same])]
    simp [same]

omit small in
/-- Agreement passes from one state to the other when the counters of the bit's kind are adjusted. -/
theorem Differ.consistent (consistent : Consistent fs)
    (padding : fs.geometry.limit kind ≤ fs.geometry.groupGet kind bg + index → bit (other.bitmap kind bg) index = true)
    (counted : other.desc bg kind = other.clear kind bg)
    (summed : other.unallocated kind = ∑ group ∈ Finset.range fs.geometry.bgcount, other.desc group kind)
    (hinted : ∀ group, group < fs.geometry.bgcount → group < other.lowestfree kind → other.desc group kind = 0) :
    Consistent other where
  sized otherKind group inside := by
    rw [differ.geometry] at inside ⊢
    rw [differ.lengths]
    exact consistent.sized otherKind group inside
  counted otherKind group inside := by
    rw [differ.geometry] at inside
    by_cases same : (otherKind, group) = (kind, bg)
    · obtain ⟨rfl, rfl⟩ := Prod.mk.inj same
      exact counted
    · rw [differ.descs otherKind group same, differ.clear_same same]
      exact consistent.counted otherKind group inside
  padded otherKind group place inside small behind := by
    rw [differ.geometry] at inside small behind
    by_cases same : (otherKind, group, place) = (kind, bg, index)
    · obtain ⟨rfl, rest⟩ := Prod.mk.inj same
      obtain ⟨rfl, rfl⟩ := Prod.mk.inj rest
      exact padding behind
    · rw [differ.bits otherKind group place same]
      exact consistent.padded otherKind group place inside small behind
  summed otherKind := by
    rw [differ.geometry]
    by_cases same : otherKind = kind
    · subst same
      exact summed
    · rw [differ.sums otherKind same, consistent.summed otherKind]
      apply Finset.sum_congr rfl
      intro group _
      rw [differ.descs otherKind group (by simp [same])]
  hinted otherKind group inside below := by
    rw [differ.geometry] at inside
    by_cases same : otherKind = kind
    · subst same
      exact hinted group inside below
    · rw [differ.hints otherKind same] at below
      rw [differ.descs otherKind group (by simp [same])]
      exact consistent.hinted otherKind group inside below

/-- A bit stands for one structure. -/
theorem Differ.used_same {otherKind : Kind} (above : fs.geometry.first otherKind ≤ id)
    (elsewhere : ¬ (otherKind = kind ∧ id = fs.geometry.groupGet kind bg + index)) :
    other.used otherKind id = fs.used otherKind id := by
  unfold Fs.used
  rw [differ.geometry]
  apply differ.bits
  intro same
  obtain ⟨rfl, rest⟩ := Prod.mk.inj same
  obtain ⟨rfl, rfl⟩ := Prod.mk.inj rest
  exact elsewhere ⟨rfl, (Geometry.groupGet_split above).symm⟩

/-- The free structures are the same but for the one that was taken. -/
theorem Differ.free_iff (taken : bit (other.bitmap kind bg) index = true) (otherKind : Kind) (id : Nat) :
    other.Free otherKind id ↔
      fs.Free otherKind id ∧ ¬ (otherKind = kind ∧ id = fs.geometry.groupGet kind bg + index) := by
  by_cases same : otherKind = kind ∧ id = fs.geometry.groupGet kind bg + index
  · obtain ⟨rfl, rfl⟩ := same
    have used : other.used otherKind (fs.geometry.groupGet otherKind bg + index) = true := by
      unfold Fs.used
      rw [differ.geometry, Geometry.getGroup_add small, Geometry.getIndex_add small]
      exact taken
    simp [Fs.Free, used]
  · simp only [same, not_false_eq_true, and_true]
    unfold Fs.Free
    rw [differ.geometry]
    constructor
    · rintro ⟨above, below, free⟩
      rw [differ.used_same small above same] at free
      exact ⟨above, below, free⟩
    · rintro ⟨above, below, free⟩
      rw [← differ.used_same small above same] at free
      exact ⟨above, below, free⟩

end

end Differ

section Search

theorem ctz_clear {value : Byte} (some_set : value ≠ 0) : ctz value < 8 ∧ value.getLsbD (ctz value) = true := by
  unfold ctz
  cases found : (List.range 8).find? fun offset => value.getLsbD offset with
  | none =>
    exfalso
    apply some_set
    apply BitVec.eq_of_getLsbD_eq
    intro offset small
    have unset := List.find?_eq_none.mp found offset (List.mem_range.mpr small)
    simpa using unset
  | some offset =>
    have member := List.mem_range.mp (List.mem_of_find?_eq_some found)
    exact ⟨member, List.find?_some found⟩

theorem findClear_some {bytes : List Byte} {place offset : Nat} (found : findClear bytes = some (place, offset)) :
    place < bytes.length ∧ offset < 8 ∧ bit bytes (8 * place + offset) = false := by
  induction bytes generalizing place offset with
  | nil => cases found
  | cons byte rest ih =>
    unfold findClear at found
    split at found
    · next some_set =>
      cases found
      obtain ⟨small, set⟩ := ctz_clear some_set
      refine ⟨Nat.succ_pos _, small, ?_⟩
      simp only [bit, Nat.mul_zero, Nat.zero_add, Nat.div_eq_of_lt small, Nat.mod_eq_of_lt small, List.getD_cons_zero]
      simpa [small] using set
    · obtain ⟨⟨earlier, same⟩, foundLater, equal⟩ := Option.map_eq_some_iff.mp found
      cases equal
      obtain ⟨inside, small, free⟩ := ih foundLater
      refine ⟨by simpa using inside, small, ?_⟩
      have place_eq : (8 * (earlier + 1) + same) / 8 = (8 * earlier + same) / 8 + 1 := by omega
      have offset_eq : (8 * (earlier + 1) + same) % 8 = (8 * earlier + same) % 8 := by omega
      simp only [bit] at free ⊢
      rw [place_eq, offset_eq, List.getD_cons_succ]
      exact free

theorem findClear_none {bytes : List Byte} (found : findClear bytes = none) (index : Nat) : bit bytes index = true := by
  induction bytes generalizing index with
  | nil =>
    have within : index % 8 < 8 := Nat.mod_lt index (by decide)
    simp only [bit, List.getD_nil, BitVec.getLsbD_allOnes, within, decide_true]
  | cons byte rest ih =>
    unfold findClear at found
    split at found
    · cases found
    · next all_set =>
      have rest_none : findClear rest = none := by simpa using found
      by_cases low : index < 8
      · have inverted : ~~~byte = 0 := not_not.mp all_set
        have same := congrArg (fun value : Byte => value.getLsbD index) inverted
        simp only [BitVec.getLsbD_not, low, decide_true, Bool.true_and] at same
        simp only [bit, Nat.div_eq_of_lt low, Nat.mod_eq_of_lt low, List.getD_cons_zero]
        simpa using same
      · have later := ih rest_none (index - 8)
        have place_eq : index / 8 = (index - 8) / 8 + 1 := by omega
        have offset_eq : (index - 8) % 8 = index % 8 := by omega
        simp only [bit] at later ⊢
        rw [place_eq, List.getD_cons_succ, ← offset_eq]
        exact later

/-- The search stops at the first group with a free structure. -/
theorem searchGroup_spec (fs : Fs) (kind : Kind) (remaining bg : Nat) :
    ∃ found, searchGroup .working fs kind remaining bg = .ok found ∧ bg ≤ found ∧ found ≤ bg + remaining ∧
      (∀ group, bg ≤ group → group < found → fs.desc group kind = 0) ∧
      (found < bg + remaining → fs.desc found kind ≠ 0) := by
  induction remaining generalizing bg with
  | zero => exact ⟨bg, rfl, le_rfl, le_rfl, fun group above below => absurd above (by omega), fun less => by omega⟩
  | succ remaining ih =>
    by_cases some_free : fs.desc bg kind ≠ 0
    · refine ⟨bg, by simp [searchGroup, Io.working, some_free], le_rfl, by omega, ?_, fun _ => some_free⟩
      intro group above below
      omega
    · obtain ⟨found, ran, above, below, empty, stops⟩ := ih (bg + 1)
      refine ⟨found, ?_, by omega, by omega, ?_, fun less => stops (by omega)⟩
      · rw [← ran]
        simp [searchGroup, Io.working, not_not.mp some_free]
      · intro group from_here before
        by_cases same : group = bg
        · rw [same]
          exact not_not.mp some_free
        · exact empty group (by omega) before

end Search

/-- The operation leaves the counters, the bitmaps and the layout as they are. -/
def Fs.SameStructures (fs other : Fs) : Prop :=
  other.geometry = fs.geometry ∧ other.bitmap = fs.bitmap ∧ other.desc = fs.desc ∧ other.unallocated = fs.unallocated

section Operations

variable {fs : Fs}

section

variable (consistent : Consistent fs)
include consistent

theorem Consistent.desc_sum_pos (some_free : fs.unallocated kind ≠ 0) :
    ∃ bg, bg < fs.geometry.bgcount ∧ fs.lowestfree kind ≤ bg ∧ fs.desc bg kind ≠ 0 := by
  rw [consistent.summed kind] at some_free
  obtain ⟨bg, member, nonzero⟩ := Finset.exists_ne_zero_of_sum_ne_zero some_free
  have inside := Finset.mem_range.mp member
  refine ⟨bg, inside, ?_, nonzero⟩
  by_contra below
  exact nonzero (consistent.hinted kind bg inside (by omega))

/-- A free structure is counted in its group. -/
theorem Consistent.free_counted (free : fs.Free kind id) : fs.desc (fs.geometry.getGroup kind id) kind ≠ 0 := by
  obtain ⟨above, below, unused⟩ := free
  rw [consistent.counted kind _ (Geometry.getGroup_inside above below)]
  unfold Fs.clear
  rw [Ne, count_eq_zero]
  intro none_clear
  exact none_clear _ (Geometry.getIndex_small id) unused

/-- A clear bit stands for a free structure. -/
theorem Consistent.clear_free (inside : bg < fs.geometry.bgcount) (small : index < fs.geometry.pergroup kind)
    (clear : bit (fs.bitmap kind bg) index = false) : fs.Free kind (fs.geometry.groupGet kind bg + index) := by
  refine ⟨?_, ?_, ?_⟩
  · simp only [Geometry.groupGet]
    omega
  · by_contra behind
    have set := consistent.padded kind bg index inside small (by omega)
    rw [clear] at set
    cases set
  · unfold Fs.used
    rw [Geometry.getGroup_add small, Geometry.getIndex_add small]
    exact clear

theorem Consistent.desc_bounded (kind : Kind) (inside : bg < fs.geometry.bgcount) : fs.desc bg kind < 2 ^ 16 := by
  have clear_le : fs.clear kind bg ≤ fs.geometry.pergroup kind := count_le_bound fun _ small _ => small
  have bounded := fs.geometry.pergroup_bounded kind
  rw [consistent.counted kind bg inside]
  omega

/-- There are no more free structures than structures. -/
theorem Consistent.unallocated_bounded (kind : Kind) : fs.unallocated kind < 2 ^ 32 := by
  have sums : fs.unallocated kind = ∑ bg ∈ Finset.range fs.geometry.bgcount, fs.clear kind bg := by
    rw [consistent.summed kind]
    apply Finset.sum_congr rfl
    intro bg member
    exact consistent.counted kind bg (Finset.mem_range.mp member)
  refine lt_of_le_of_lt ?_ (fs.geometry.limit_bounded kind)
  rw [sums]
  unfold Fs.clear
  rw [sum_count (fun bg index => bit (fs.bitmap kind bg) index = false)]
  apply count_le_bound
  intro place small clear
  have positive := fs.geometry.pergroup_positive kind
  have free := consistent.clear_free (Nat.div_lt_of_lt_mul (by rwa [Nat.mul_comm] at small))
    (Nat.mod_lt place positive) clear
  have split := Nat.div_add_mod place (fs.geometry.pergroup kind)
  have below := free.2.1
  simp only [Geometry.groupGet] at below
  rw [Nat.mul_comm] at split
  omega

end

/-- The state after a structure has been taken from a group. -/
def Fs.takenAt (fs : Fs) (kind : Kind) (bg place offset : Nat) : Fs := { fs with
  unallocated := update fs.unallocated kind (fs.unallocated kind - 1)
  desc := update fs.desc bg (update (fs.desc bg) kind (fs.desc bg kind - 1))
  bitmap := update fs.bitmap kind (update (fs.bitmap kind) bg (setBit (fs.bitmap kind bg) place offset))
  lowestfree := update fs.lowestfree kind (if fs.desc bg kind = 1 then bg + 1 else bg) }

/-- The state after a structure has been given back to a group. -/
def Fs.releasedAt (fs : Fs) (kind : Kind) (bg index : Nat) : Fs := { fs with
  unallocated := update fs.unallocated kind (fs.unallocated kind + 1)
  desc := update fs.desc bg (update (fs.desc bg) kind (fs.desc bg kind + 1))
  bitmap := update fs.bitmap kind (update (fs.bitmap kind) bg (clearBit (fs.bitmap kind bg) (index / 8) (index % 8)))
  lowestfree := update fs.lowestfree kind (min bg (fs.lowestfree kind)) }

theorem takeFrom_working (search : findClear (fs.bitmap kind bg) = some (place, offset))
    (nonzero : fs.geometry.groupGet kind bg + place * 8 + offset ≠ 0)
    (counted : 0 < fs.desc bg kind ∧ fs.desc bg kind < 2 ^ 16)
    (summed : 0 < fs.unallocated kind ∧ fs.unallocated kind < 2 ^ 32) :
    takeFrom .working kind bg (fs.setLowest kind bg) =
      .ok (.ok (fs.geometry.groupGet kind bg + place * 8 + offset), fs.takenAt kind bg place offset) := by
  have lower : (fs.desc bg kind + 2 ^ 16 - 1) % 2 ^ 16 = fs.desc bg kind - 1 := by omega
  have sum_lower : (fs.unallocated kind + 2 ^ 32 - 1) % 2 ^ 32 = fs.unallocated kind - 1 := by omega
  have last : (fs.desc bg kind - 1 = 0) = (fs.desc bg kind = 1) := by
    apply propext
    omega
  unfold takeFrom Fs.takenAt
  simp only [Io.working, Bool.not_true, Bool.false_eq_true, if_false, Fs.setLowest, search, nonzero, Fs.writeBitmap, lower,
    Fs.writeDesc, last, Fs.setUnallocated, Fs.assertUnclean, if_true, update_self]
  by_cases empty : fs.desc bg kind = 1
  · simp only [if_pos empty, sum_lower, update_idem]
  · simp only [if_neg empty, sum_lower]

theorem freestructure_working (used : fs.used kind id = true)
    (counted : fs.desc (fs.geometry.getGroup kind id) kind + 1 < 2 ^ 16) (summed : fs.unallocated kind + 1 < 2 ^ 32) :
    freestructure .working kind id fs =
      .ok (none, fs.releasedAt kind (fs.geometry.getGroup kind id) (fs.geometry.getIndex kind id)) := by
  unfold Fs.used at used
  unfold freestructure Fs.releasedAt
  simp only [Io.working, Bool.not_true, Bool.false_eq_true, if_false, used, Fs.writeBitmap, Fs.writeDesc, Fs.setLowest,
    Fs.setUnallocated, Nat.mod_eq_of_lt counted]
  by_cases lower : fs.geometry.getGroup kind id < fs.lowestfree kind
  · simp only [if_pos lower, Nat.mod_eq_of_lt summed, Nat.min_eq_left (Nat.le_of_lt lower)]
  · simp only [if_neg lower, Nat.mod_eq_of_lt summed, Nat.min_eq_right (Nat.le_of_not_lt lower), update_eq_self]

/-- A bit of a bitmap, the count of its group and what is kept for its kind are changed. -/
theorem differ_update {bytes : List (BitVec 8)} (length : bytes.length = (fs.bitmap kind bg).length)
    (elsewhere : ∀ place, place ≠ index → bit bytes place = bit (fs.bitmap kind bg) place) (sum count hint : Nat) :
    Differ fs { fs with
      unallocated := update fs.unallocated kind sum
      desc := update fs.desc bg (update (fs.desc bg) kind count)
      bitmap := update fs.bitmap kind (update (fs.bitmap kind) bg bytes)
      lowestfree := update fs.lowestfree kind hint } kind bg index where
  geometry := rfl
  lengths otherKind group := by
    by_cases same : otherKind = kind <;> by_cases group_same : group = bg <;> simp [same, group_same, length]
  bits otherKind group place different := by
    by_cases same : otherKind = kind
    · by_cases group_same : group = bg
      · simpa [same, group_same] using elsewhere place (by simpa [same, group_same] using different)
      · simp [same, group_same]
    · simp [same]
  descs otherKind group different := by
    by_cases group_same : group = bg
    · have kind_different : otherKind ≠ kind := by simpa [group_same] using different
      simp [group_same, kind_different]
    · simp [group_same]
  sums otherKind different := by simp [different]
  hints otherKind different := by simp [different]

theorem takenAt_differ (inside : place < (fs.bitmap kind bg).length) (small : offset < 8) :
    Differ fs (fs.takenAt kind bg place offset) kind bg (8 * place + offset) :=
  differ_update (by simp) (fun index different => by simp [bit_setBit inside small, different]) _ _ _

theorem takenAt_counts : (fs.takenAt kind bg place offset).desc bg kind = fs.desc bg kind - 1 ∧
    (fs.takenAt kind bg place offset).unallocated kind = fs.unallocated kind - 1 := by
  simp [Fs.takenAt]

theorem takenAt_bit (inside : place < (fs.bitmap kind bg).length) (small : offset < 8) :
    bit ((fs.takenAt kind bg place offset).bitmap kind bg) (8 * place + offset) = true := by
  simp [Fs.takenAt, bit_setBit inside small]

theorem releasedAt_differ (inside : index / 8 < (fs.bitmap kind bg).length) :
    Differ fs (fs.releasedAt kind bg index) kind bg index := by
  refine differ_update (by simp) (fun place different => ?_) _ _ _
  rw [bit_clearBit inside (Nat.mod_lt index (by decide)), Nat.div_add_mod]
  simp [different]

theorem releasedAt_bit (inside : index / 8 < (fs.bitmap kind bg).length) :
    bit ((fs.releasedAt kind bg index).bitmap kind bg) index = false := by
  simp [Fs.releasedAt, bit_clearBit inside (Nat.mod_lt index (by decide)), Nat.div_add_mod]

/-- Taking a structure from the lowest group with free ones keeps the agreement. -/
theorem Consistent.takenAt (consistent : Consistent fs) (inside : bg < fs.geometry.bgcount)
    (within : place < (fs.bitmap kind bg).length) (small : offset < 8)
    (clear : bit (fs.bitmap kind bg) (8 * place + offset) = false) (below : ∀ group < bg, fs.desc group kind = 0) :
    Consistent (fs.takenAt kind bg place offset) := by
  have sized := consistent.sized kind bg inside
  have index_small : 8 * place + offset < fs.geometry.pergroup kind := by omega
  have differ := takenAt_differ within small
  have higher := differ.clear_succ index_small clear (takenAt_bit within small)
  have counted := consistent.counted kind bg inside
  obtain ⟨desc_eq, taken_eq⟩ : _ ∧ _ := @takenAt_counts kind bg place offset fs
  apply differ.consistent consistent
  · intro _
    exact takenAt_bit within small
  · omega
  · have sums : ∑ group ∈ Finset.range fs.geometry.bgcount, fs.desc group kind =
        ∑ group ∈ Finset.range fs.geometry.bgcount, (fs.takenAt kind bg place offset).desc group kind + 1 :=
      sum_range_remove inside (by omega) (fun group different => (differ.descs kind group (by simp [different])).symm)
    have summed := consistent.summed kind
    omega
  · intro group group_inside hinted
    by_cases same : group = bg
    · subst same
      by_cases last : fs.desc group kind = 1
      · omega
      · simp [Fs.takenAt, last] at hinted
    · rw [differ.descs kind group (by simp [same])]
      apply below
      have bound : (fs.takenAt kind bg place offset).lowestfree kind ≤ bg + 1 := by
        simp only [Fs.takenAt, update_self]
        split <;> omega
      omega

/-- Giving a structure back keeps the agreement. -/
theorem Consistent.releasedAt (consistent : Consistent fs) (inside : bg < fs.geometry.bgcount)
    (small : index < fs.geometry.pergroup kind) (set : bit (fs.bitmap kind bg) index = true)
    (existing : fs.geometry.groupGet kind bg + index < fs.geometry.limit kind) :
    Consistent (fs.releasedAt kind bg index) := by
  have sized := consistent.sized kind bg inside
  have bytes := fs.geometry.pergroup_bytes kind
  have within : index / 8 < (fs.bitmap kind bg).length := by omega
  have differ := releasedAt_differ within
  have lower := differ.symm.clear_succ small (releasedAt_bit within) set
  have counted := consistent.counted kind bg inside
  have desc_eq : (fs.releasedAt kind bg index).desc bg kind = fs.desc bg kind + 1 := by simp [Fs.releasedAt]
  apply differ.consistent consistent
  · intro behind
    omega
  · omega
  · have sums : ∑ group ∈ Finset.range fs.geometry.bgcount, (fs.releasedAt kind bg index).desc group kind =
        ∑ group ∈ Finset.range fs.geometry.bgcount, fs.desc group kind + 1 :=
      sum_range_remove inside (by omega) (fun group different => differ.descs kind group (by simp [different]))
    have summed := consistent.summed kind
    have released_eq : (fs.releasedAt kind bg index).unallocated kind = fs.unallocated kind + 1 := by
      simp [Fs.releasedAt]
    omega
  · intro group group_inside hinted
    have bound : (fs.releasedAt kind bg index).lowestfree kind = min bg (fs.lowestfree kind) := by
      simp [Fs.releasedAt]
    rw [differ.descs kind group (by simp; omega)]
    exact consistent.hinted kind group group_inside (by omega)

/-- Giving back what was just taken restores the bitmaps and the counters. -/
theorem takenAt_releasedAt (within : place < (fs.bitmap kind bg).length) (small : offset < 8)
    (clear : bit (fs.bitmap kind bg) (8 * place + offset) = false) (counted : 0 < fs.desc bg kind)
    (summed : 0 < fs.unallocated kind) :
    fs.SameStructures ((fs.takenAt kind bg place offset).releasedAt kind bg (8 * place + offset)) := by
  have place_eq : (8 * place + offset) / 8 = place := by omega
  have offset_eq : (8 * place + offset) % 8 = offset := by omega
  refine ⟨rfl, ?_, ?_, ?_⟩
  · simp [Fs.releasedAt, Fs.takenAt, place_eq, offset_eq, clearBit_setBit within small clear]
  · simp [Fs.releasedAt, Fs.takenAt, Nat.sub_add_cancel counted]
  · simp [Fs.releasedAt, Fs.takenAt, Nat.sub_add_cancel summed]

/-- What `allocatestructure` does when it finds a structure. -/
structure Allocates (fs : Fs) (kind : Kind) (id : Nat) (after : Fs) : Prop where
  free : fs.Free kind id
  frees : ∀ otherKind other, after.Free otherKind other ↔ fs.Free otherKind other ∧ ¬ (otherKind = kind ∧ other = id)
  geometry : after.geometry = fs.geometry
  consistent : Consistent after
  undone : ∃ last, freestructure .working kind id after = .ok (none, last) ∧ fs.SameStructures last

theorem takeFrom_allocates (consistent : Consistent fs) (no_boot : ∀ kind, ¬ fs.Free kind 0) {bg : Nat}
    (inside : bg < fs.geometry.bgcount) (some_free : fs.desc bg kind ≠ 0)
    (below : ∀ group < bg, fs.desc group kind = 0) :
    ∃ id after, takeFrom .working kind bg (fs.setLowest kind bg) = .ok (.ok id, after) ∧ Allocates fs kind id after := by
  have counted := consistent.counted kind bg inside
  have bounded : fs.desc bg kind < 2 ^ 16 := consistent.desc_bounded kind inside
  have summed : 0 < fs.unallocated kind ∧ fs.unallocated kind < 2 ^ 32 := by
    have upper := consistent.unallocated_bounded kind
    have part : fs.desc bg kind ≤ fs.unallocated kind := by
      rw [consistent.summed kind]
      exact Finset.single_le_sum (f := fun group => fs.desc group kind) (fun _ _ => Nat.zero_le _)
        (Finset.mem_range.mpr inside)
    omega
  cases search : findClear (fs.bitmap kind bg) with
  | none =>
    exfalso
    apply some_free
    rw [counted]
    unfold Fs.clear
    rw [count_eq_zero]
    intro index _
    simp [findClear_none search index]
  | some found =>
    obtain ⟨place, offset⟩ := found
    obtain ⟨within, small, clear⟩ := findClear_some search
    have sized := consistent.sized kind bg inside
    have index_small : 8 * place + offset < fs.geometry.pergroup kind := by omega
    have free := consistent.clear_free inside index_small clear
    have id_eq : fs.geometry.groupGet kind bg + place * 8 + offset =
        fs.geometry.groupGet kind bg + (8 * place + offset) := by omega
    have nonzero : fs.geometry.groupGet kind bg + place * 8 + offset ≠ 0 := by
      intro zero
      apply no_boot kind
      rw [← zero, id_eq]
      exact free
    have ran := takeFrom_working search nonzero ⟨Nat.pos_of_ne_zero some_free, bounded⟩ summed
    have differ := takenAt_differ within small
    have kept := consistent.takenAt inside within small clear below
    rw [id_eq] at ran
    refine ⟨_, _, ran, free, differ.free_iff index_small (takenAt_bit within small), rfl, kept, ?_⟩
    -- The structure that was taken can be given back with the counters still in range.
    have used : (fs.takenAt kind bg place offset).used kind (fs.geometry.groupGet kind bg + (8 * place + offset)) =
        true := by
      unfold Fs.used
      rw [differ.geometry, Geometry.getGroup_add index_small, Geometry.getIndex_add index_small]
      exact takenAt_bit within small
    have freed := freestructure_working used
    rw [differ.geometry, Geometry.getGroup_add index_small, Geometry.getIndex_add index_small] at freed
    rw [takenAt_counts.1, takenAt_counts.2] at freed
    exact ⟨_, freed (by omega) (by omega), takenAt_releasedAt within small clear (Nat.pos_of_ne_zero some_free) summed.1⟩

/-- An allocation succeeds exactly when a structure is free. -/
theorem allocatestructure_spec (consistent : Consistent fs) (no_boot : ∀ kind, ¬ fs.Free kind 0) (kind : Kind) :
    (∃ id after, allocatestructure .working kind fs = .ok (.ok id, after) ∧ Allocates fs kind id after) ∨
      ∃ after, allocatestructure .working kind fs = .ok (.error .enospc, after) ∧ (∀ id, ¬ fs.Free kind id) ∧
        fs.SameStructures after ∧ Consistent after := by
  by_cases none_free : fs.unallocated kind = 0
  · right
    refine ⟨fs, by simp [allocatestructure, none_free], ?_, ⟨rfl, rfl, rfl, rfl⟩, consistent⟩
    intro id free
    have counted := consistent.free_counted free
    rw [consistent.summed kind, Finset.sum_eq_zero_iff] at none_free
    exact counted (none_free _ (Finset.mem_range.mpr (Geometry.getGroup_inside free.1 free.2.1)))
  · left
    obtain ⟨bg, inside, above, nonzero⟩ := consistent.desc_sum_pos none_free
    obtain ⟨found, ran, from_hint, bounded, empty, stops⟩ := searchGroup_spec fs kind
      (fs.geometry.bgcount - fs.lowestfree kind) (fs.lowestfree kind)
    have found_inside : found < fs.geometry.bgcount := by
      by_contra outside
      exact nonzero (empty bg above (by omega))
    have below : ∀ group < found, fs.desc group kind = 0 := by
      intro group earlier
      by_cases hinted : group < fs.lowestfree kind
      · exact consistent.hinted kind group (by omega) hinted
      · exact empty group (by omega) earlier
    obtain ⟨id, after, took, allocates⟩ := takeFrom_allocates consistent no_boot found_inside (stops (by omega)) below
    refine ⟨id, after, ?_, allocates⟩
    rw [← took]
    have different : found ≠ fs.geometry.bgcount := by omega
    simp only [allocatestructure, none_free, if_false, ran, Fs.setLowest, different]

/-- What `freestructure` does to a structure in use. -/
structure Frees (fs : Fs) (kind : Kind) (id : Nat) (after : Fs) : Prop where
  frees : ∀ otherKind other, after.Free otherKind other ↔ fs.Free otherKind other ∨ (otherKind = kind ∧ other = id)
  geometry : after.geometry = fs.geometry
  consistent : Consistent after

theorem freestructure_spec (consistent : Consistent fs) (allocated : fs.Allocated kind id) :
    ∃ after, freestructure .working kind id fs = .ok (none, after) ∧ Frees fs kind id after := by
  obtain ⟨above, below, used⟩ := allocated
  have inside := Geometry.getGroup_inside above below
  have index_small : fs.geometry.getIndex kind id < fs.geometry.pergroup kind := Geometry.getIndex_small id
  have id_eq := Geometry.groupGet_split above
  have kept := consistent.releasedAt inside index_small used (by omega)
  have within : fs.geometry.getIndex kind id / 8 < (fs.bitmap kind (fs.geometry.getGroup kind id)).length := by
    have sized := consistent.sized kind _ inside
    have bytes := fs.geometry.pergroup_bytes kind
    omega
  have differ := releasedAt_differ within
  refine ⟨_, freestructure_working used ?_ ?_, ?_, rfl, kept⟩
  · simpa [Fs.releasedAt] using kept.desc_bounded kind inside
  · simpa [Fs.releasedAt] using kept.unallocated_bounded kind
  · intro otherKind other
    have back := differ.symm.free_iff index_small used otherKind other
    have freed : (fs.releasedAt kind (fs.geometry.getGroup kind id) (fs.geometry.getIndex kind id)).Free kind id :=
      ⟨above, below, releasedAt_bit within⟩
    rw [differ.geometry, id_eq] at back
    by_cases same : otherKind = kind ∧ other = id
    · simp [same, freed]
    · rw [back]
      simp [same]

/-- An operation frees only a structure that is in use, and never number zero. -/
def Fs.Allowed (fs : Fs) : Op → Prop
  | .allocate _ => True
  | .free kind id => fs.Allocated kind id ∧ id ≠ 0

theorem step_kept {op : Op} {after : Fs} (kept : Consistent fs ∧ ∀ kind, ¬ fs.Free kind 0) (allowed : fs.Allowed op)
    (ran : fs.step op = .ok after) : Consistent after ∧ ∀ kind, ¬ after.Free kind 0 := by
  obtain ⟨consistent, no_boot⟩ := kept
  cases op with
  | allocate kind =>
    rcases allocatestructure_spec consistent no_boot kind with ⟨id, next, took, allocates⟩ | ⟨next, full, _, same, agrees⟩
    · simp only [Fs.step, took, Except.map, Except.ok.injEq] at ran
      subst ran
      refine ⟨allocates.consistent, fun otherKind free => ?_⟩
      exact no_boot otherKind ((allocates.frees otherKind 0).mp free).1
    · simp only [Fs.step, full, Except.map, Except.ok.injEq] at ran
      subst ran
      refine ⟨agrees, fun otherKind free => no_boot otherKind ?_⟩
      unfold Fs.Free Fs.used at free ⊢
      rw [same.1, same.2.1] at free
      exact free
  | free kind id =>
    obtain ⟨allocated, nonzero⟩ := allowed
    obtain ⟨next, freed, frees⟩ := freestructure_spec consistent allocated
    simp only [Fs.step, freed, Except.map, Except.ok.injEq] at ran
    subst ran
    refine ⟨frees.consistent, fun otherKind free => ?_⟩
    rcases (frees.frees otherKind 0).mp free with before | ⟨_, zero⟩
    · exact no_boot otherKind before
    · exact nonzero zero.symm

/-- In every run the records agree, an allocation takes one free structure, and a release gives one back. -/
theorem allocation_kept {start fs : Fs} (consistent : Consistent start) (no_boot : ¬ start.Free .block 0)
    (reached : Reaches Fs.step Fs.Allowed start fs) : Consistent fs ∧
      (∀ kind, ∃ result after, allocatestructure .working kind fs = .ok (result, after) ∧
        (result = .error .enospc ↔ ∀ id, ¬ fs.Free kind id) ∧ (result = .error .enospc → fs.SameStructures after) ∧
        (result ≠ .error .enospc → ∃ id, result = .ok id ∧ Allocates fs kind id after)) ∧
      ∀ kind id, fs.Allocated kind id → id ≠ 0 →
        ∃ after, freestructure .working kind id fs = .ok (none, after) ∧ Frees fs kind id after := by
  have start_free : ∀ kind, ¬ start.Free kind 0 := by
    intro kind free
    cases kind with
    | block => exact no_boot free
    | inode => exact absurd free.1 (by simp [Geometry.first])
  obtain ⟨agrees, none_zero⟩ := reached.keeps (fun fs => Consistent fs ∧ ∀ kind, ¬ fs.Free kind 0)
    (fun _ _ _ kept allowed ran => step_kept kept allowed ran) ⟨consistent, start_free⟩
  refine ⟨agrees, fun kind => ?_, fun kind id allocated _ => freestructure_spec agrees allocated⟩
  rcases allocatestructure_spec agrees none_zero kind with ⟨id, after, took, allocates⟩ | ⟨after, full, none_free, same, _⟩
  · have other : (Except.ok id : Except Errno Nat) ≠ .error .enospc := by simp
    refine ⟨.ok id, after, took, iff_of_false other ?_, fun wrong => absurd wrong other, fun _ => ⟨id, rfl, allocates⟩⟩
    intro none_free
    exact none_free id allocates.free
  · exact ⟨.error .enospc, after, full, ⟨fun _ => none_free, fun _ => rfl⟩, fun _ => same, fun wrong => absurd rfl wrong⟩

end Operations

/-- A file system of one group with eight blocks and eight inodes, of which only the first block is free. -/
def smallFs (superblockstart : Nat) (bounded : superblockstart ≤ 1) : Fs where
  geometry :=
    { superblockstart := superblockstart, blockspergroup := 8, inodespergroup := 8
      blockcount := superblockstart + 8, inodecount := 8, bgcount := 1
      blocks_positive := by decide, inodes_positive := by decide, blocks_bytes := rfl, inodes_bytes := rfl
      blocks_bounded := by decide, inodes_bounded := by decide, blocks_grouped := Nat.le_refl _
      inodes_grouped := by decide, inodecount_bounded := by decide
      blockcount_bounded := Nat.lt_of_le_of_lt (Nat.add_le_add_right bounded 8) (by decide) }
  unallocated
    | .block => 1
    | .inode => 0
  unclean := false
  desc
    | _, .block => 1
    | _, .inode => 0
  bitmap
    | .block, _ => [0xfe#8]
    | .inode, _ => [0xff#8]
  lowestfree _ := 0

theorem smallFs_consistent (superblockstart : Nat) (bounded : superblockstart ≤ 1) :
    Consistent (smallFs superblockstart bounded) where
  sized kind _ _ := by cases kind <;> simp [smallFs, Geometry.pergroup]
  counted kind _ _ := by
    have one_clear : Nat.count (fun index => bit [0xfe] index = false) 8 = 1 := by decide
    have none_clear : Nat.count (fun index => bit [0xff] index = false) 8 = 0 := by decide
    cases kind with
    | block => exact one_clear.symm
    | inode => exact none_clear.symm
  padded kind bg index inside small behind := by
    have first_group : bg = 0 := Nat.lt_one_iff.mp inside
    cases kind with
    | block | inode =>
      simp only [smallFs, Geometry.limit, Geometry.groupGet, Geometry.first, Geometry.pergroup] at small behind
      omega
  summed kind := by cases kind <;> rfl
  hinted _ _ _ below := absurd below (Nat.not_lt_zero _)

/-- A file system whose block zero is free stops at an assertion. -/
theorem bootBlock_stops : Consistent (smallFs 0 (by decide)) ∧
    allocatestructure .working .block (smallFs 0 (by decide)) = .error .assertion :=
  ⟨smallFs_consistent 0 (by decide), rfl⟩

/-- The last free block of a small file system is allocated. -/
theorem smallFs_kept : Consistent (smallFs 1 (by decide)) ∧
    ∃ after, allocatestructure .working .block (smallFs 1 (by decide)) = .ok (.ok 1, after) ∧ Consistent after := by
  have consistent := smallFs_consistent 1 (by decide)
  have no_boot : ¬ (smallFs 1 (by decide)).Free .block 0 := fun free => absurd free.1 (by decide)
  obtain ⟨_, allocations, _⟩ := allocation_kept consistent no_boot .refl
  obtain ⟨result, after, ran, _, _, allocates⟩ := allocations .block
  have known : (allocatestructure .working .block (smallFs 1 (by decide))).map Prod.fst = .ok (.ok 1) := rfl
  rw [ran] at known
  cases known
  obtain ⟨id, _, allocated⟩ := allocates (by simp)
  exact ⟨consistent, after, ran, allocated.consistent⟩

end Astral.Ext2
