import Astral.Construction.Hashtable
import Astral.Library.Exchange

namespace Astral.Hashtable

open Function Astral.Library

variable {V : Type} {address fuel : Nat} {key : Key} {entry : Entry V} {capacity : Nat}

/-- What the table stands for. -/
abbrev Map (V : Type) := Key → Option V

/-- The meaning of an operation. -/
def Op.meaning (map : Map V) : Op V → Output V × Map V
  | .set key value allocate _ =>
    if allocate || (map key).isSome then (.status none, update map key (some value))
    else (.status (some .enoent), map)
  | .get key => (.found (map key), map)
  | .remove key =>
    if (map key).isSome then (.status none, update map key none) else (.status (some .enoent), map)

def meaning : List (Op V) → Map V → List (Output V) × Map V
  | [], map => ([], map)
  | op :: rest, map =>
    let (output, map) := op.meaning map
    let (outputs, map) := meaning rest map
    (output :: outputs, map)

section Contents

variable {entries : Nat → Option (Entry V)} {map : Map V}

/-- There is one entry for each key of the map, and there are no others. -/
structure Contents (entries : Nat → Option (Entry V)) (map : Map V) : Prop where
  hashed : ∀ {address entry}, entries address = some entry → entry.hash = fnv1ahash entry.key
  single : ∀ {one two first second}, entries one = some first → entries two = some second →
    first.key = second.key → one = two
  stored : ∀ {address entry}, entries address = some entry → map entry.key = some entry.value
  present : ∀ {key}, (map key).isSome → ∃ address entry, entries address = some entry ∧ entry.key = key

/-- What an update of one entry leaves. -/
theorem update_some {new : Option (Entry V)} {other : Nat} {item : Entry V}
    (found : update entries address new other = some item) :
    other = address ∧ new = some item ∨ other ≠ address ∧ entries other = some item := by
  by_cases same : other = address
  · rw [same, update_self] at found
    exact .inl ⟨same, found⟩
  · rw [update_of_ne same] at found
    exact .inr ⟨same, found⟩

/-- The entry of a key is written or freed. What was there before had the key. -/
theorem Contents.change (contents : Contents entries map) {key : List UInt8} (new : Option (Entry V))
    (made : ∀ entry ∈ new, entry.key = key ∧ entry.hash = fnv1ahash key)
    (own : ∀ {other item}, entries other = some item → item.key = key → other = address)
    (before : ∀ {item}, entries address = some item → item.key = key) :
    Contents (update entries address new) (update map key (new.map Entry.value)) where
  hashed found := by
    rcases update_some found with ⟨_, same⟩ | ⟨_, old⟩
    · obtain ⟨keys, hashed⟩ := made _ same
      rw [hashed, keys]
    · exact contents.hashed old
  single {one two first second} found_first found_second keys := by
    rcases update_some found_first with ⟨here, same⟩ | ⟨_, old⟩
    · rcases update_some found_second with ⟨there, _⟩ | ⟨_, other⟩
      · rw [here, there]
      · rw [here, own other (keys.symm.trans (made first same).1)]
    · rcases update_some found_second with ⟨there, same⟩ | ⟨_, other⟩
      · rw [there, own old (keys.trans (made second same).1)]
      · exact contents.single old other keys
  stored {other item} found := by
    rcases update_some found with ⟨_, same⟩ | ⟨different, old⟩
    · rw [(made item same).1, update_self, same, Option.map_some]
    · have keys : item.key ≠ key := fun same => different (own old same)
      rw [update_of_ne keys]
      exact contents.stored old
  present {wanted} inside := by
    by_cases same : wanted = key
    · rw [same, update_self, Option.isSome_map] at inside
      obtain ⟨entry, there⟩ := Option.isSome_iff_exists.1 inside
      exact ⟨address, entry, (update_self ..).trans there, (made entry there).1.trans same.symm⟩
    · rw [update_of_ne same] at inside
      obtain ⟨other, item, found, keys⟩ := contents.present inside
      have different : other ≠ address := by
        intro here
        rw [here] at found
        exact same (keys.symm.trans (before found))
      exact ⟨other, item, (update_of_ne different ..).trans found, keys⟩

/-- The entry of a key is written again or freed. -/
theorem Contents.replace (contents : Contents entries map) {old : Entry V} (here : entries address = some old)
    (new : Option (Entry V)) (made : ∀ entry ∈ new, entry.key = old.key ∧ entry.hash = fnv1ahash old.key) :
    Contents (update entries address new) (update map old.key (new.map Entry.value)) := by
  apply contents.change new made
  · exact fun found keys => contents.single found here keys
  · intro item found
    rw [here] at found
    cases found
    rfl

end Contents

variable {table : Table V} {members : Nat → List Nat} {map : Map V}

/-- Each entry is in the chain of its key, and the entries are those of the map. -/
structure Stores (table : Table V) (members : Nat → List Nat) (map : Map V) : Prop where
  positive : 0 < table.capacity
  holds : table.chains.Holds members
  placed : ∀ {list address}, address ∈ members list → ∃ entry, table.entry address = some entry ∧
    list = table.tableoffset entry.hash
  linked : ∀ {address entry}, table.entry address = some entry → address ∈ members (table.tableoffset entry.hash)
  contents : Contents table.entry map
  counted : table.entrycount = ∑ list ∈ Finset.range table.capacity, (members list).length

section

variable (stores : Stores table members map)
include stores

theorem Stores.inside {list address : Nat} (member : address ∈ members list) : list < table.capacity := by
  obtain ⟨entry, _, place⟩ := stores.placed member
  rw [place]
  exact Nat.mod_lt _ stores.positive

theorem Stores.length_le (list : Nat) : (members list).length ≤ table.entrycount := by
  rw [stores.counted]
  cases here : members list with
  | nil => exact Nat.zero_le _
  | cons address rest =>
    have inside : list < table.capacity := stores.inside (by rw [here]; simp : address ∈ members list)
    rw [← here]
    exact Finset.single_le_sum (f := fun list => (members list).length) (fun _ _ => Nat.zero_le _)
      (Finset.mem_range.mpr inside)

/-- An address without an entry is in no chain. -/
theorem Stores.outside (free : table.entry address = none) (list : Nat) : address ∉ members list := by
  intro member
  obtain ⟨entry, here, _⟩ := stores.placed member
  rw [free] at here
  cases here

theorem Stores.isKey_iff (key : Key) (address : Nat) :
    table.isKey key (fnv1ahash key) address = true ↔ ∃ entry, table.entry address = some entry ∧ entry.key = key := by
  unfold Table.isKey
  cases here : table.entry address with
  | none => simp
  | some entry =>
    have hashed := stores.contents.hashed here
    constructor
    · intro same
      simp only [Bool.and_eq_true, decide_eq_true_eq] at same
      exact ⟨entry, rfl, same.2⟩
    · intro ⟨other, same, keys⟩
      cases same
      simp [hashed, keys]

/-- The search in a chain finds the entry of a key if there is one. -/
theorem Stores.getentry_eq (enough : table.entrycount ≤ fuel) (key : Key) :
    (∃ address entry, table.getentry fuel key (fnv1ahash key) = .ok (some address) ∧
      table.entry address = some entry ∧ entry.key = key ∧ map key = some entry.value) ∨
      table.getentry fuel key (fnv1ahash key) = .ok none ∧ map key = none := by
  have walk := stores.holds.find_eq (table.isKey key (fnv1ahash key)) (table.tableoffset (fnv1ahash key))
    (Nat.le_trans (stores.length_le _) enough)
  unfold Table.getentry
  rw [walk]
  cases found : (members (table.tableoffset (fnv1ahash key))).find? (table.isKey key (fnv1ahash key)) with
  | some address =>
    obtain ⟨entry, here, same⟩ := (stores.isKey_iff key address).mp (List.find?_some found)
    exact .inl ⟨address, entry, rfl, here, same, same ▸ stores.contents.stored here⟩
  | none =>
    refine .inr ⟨rfl, ?_⟩
    by_contra there
    obtain ⟨address, entry, here, same⟩ := stores.contents.present (Option.isSome_iff_ne_none.mpr there)
    have member := stores.linked here
    rw [stores.contents.hashed here, same] at member
    exact List.find?_eq_none.mp found address member ((stores.isKey_iff key address).mpr ⟨entry, here, same⟩)

/-- An entry gets another value. -/
theorem Stores.assign (here : table.entry address = some entry) (value : V) :
    Stores { table with entry := update table.entry address (some { entry with value }) } members
      (update map entry.key (some value)) where
  positive := stores.positive
  holds := stores.holds
  placed {list other} member := by
    obtain ⟨old, found, place⟩ := stores.placed member
    by_cases same : other = address
    · rw [same, here] at found
      cases found
      exact ⟨{ entry with value }, by rw [same]; exact update_self .., place⟩
    · exact ⟨old, (update_of_ne same ..).trans found, place⟩
  linked {other item} found := by
    rcases update_some found with ⟨same, new⟩ | ⟨_, old⟩
    · cases new
      have member := stores.linked here
      rw [same]
      exact member
    · exact stores.linked old
  contents := by
    apply stores.contents.replace here (some { entry with value })
    rintro _ ⟨⟩
    have hashed := stores.contents.hashed here
    exact ⟨rfl, hashed⟩
  counted := stores.counted

/-- A new entry is put in front of the chain of its key. -/
theorem Stores.insert (free : table.entry address = none) (absent : map key = none) (value : V) :
    Stores (table.insert address (fnv1ahash key) key value) (update members (table.tableoffset (fnv1ahash key))
        (address :: members (table.tableoffset (fnv1ahash key)))) (update map key (some value)) where
  positive := stores.positive
  holds := stores.holds.push (stores.outside free) _
  placed {list other} member := by
    by_cases same : other = address
    · refine ⟨⟨fnv1ahash key, key, value⟩, by rw [same]; exact update_self .., ?_⟩
      show list = table.tableoffset (fnv1ahash key)
      by_contra elsewhere
      rw [update_of_ne elsewhere, same] at member
      exact stores.outside free list member
    · have old : other ∈ members list := by
        by_cases here : list = table.tableoffset (fnv1ahash key)
        · rw [here, update_self] at member
          rw [here]
          exact List.mem_of_ne_of_mem same member
        · rw [update_of_ne here] at member
          exact member
      obtain ⟨entry, found, place⟩ := stores.placed old
      exact ⟨entry, (update_of_ne same ..).trans found, place⟩
  linked {other item} found := by
    rcases update_some found with ⟨same, new⟩ | ⟨_, old⟩
    · cases new
      rw [same]
      simp [Table.tableoffset, Table.insert]
    · have member := stores.linked old
      show other ∈ update members (table.tableoffset (fnv1ahash key)) _ (table.tableoffset item.hash)
      by_cases here : table.tableoffset item.hash = table.tableoffset (fnv1ahash key)
      · rw [here] at member ⊢
        rw [update_self]
        exact List.mem_cons_of_mem _ member
      · rw [update_of_ne here]
        exact member
  contents := by
    apply stores.contents.change (some ⟨fnv1ahash key, key, value⟩)
    · rintro _ ⟨⟩
      exact ⟨rfl, rfl⟩
    · intro other item found keys
      have stored := stores.contents.stored found
      rw [keys, absent] at stored
      cases stored
    · intro item found
      rw [free] at found
      cases found
  counted := by
    have inside : table.tableoffset (fnv1ahash key) < table.capacity := Nat.mod_lt _ stores.positive
    have sum := sum_length_exchange (Finset.mem_range.mpr inside) members
      (address :: members (table.tableoffset (fnv1ahash key)))
    have counted := stores.counted
    simp only [List.length_cons] at sum
    simp only [Table.insert]
    omega

/-- An entry is taken out of the chain of its key. -/
theorem Stores.erase (here : table.entry address = some entry) :
    ∃ left, Stores (table.erase address entry.hash) left (update map entry.key none) := by
  have inside : table.tableoffset entry.hash < table.capacity := Nat.mod_lt _ stores.positive
  obtain ⟨before, after, split⟩ := List.append_of_mem (stores.linked here)
  have outside := stores.holds.cut_outside split
  have kept {list other : Nat} (different : other ≠ address) :
      other ∈ update members (table.tableoffset entry.hash) (before ++ after) list ↔ other ∈ members list := by
    by_cases same : list = table.tableoffset entry.hash
    · rw [same, update_self, split]
      simp [different]
    · rw [update_of_ne same]
  refine ⟨update members (table.tableoffset entry.hash) (before ++ after), ?_⟩
  refine ⟨stores.positive, stores.holds.cut split, ?_, ?_, stores.contents.replace here none nofun, ?_⟩
  · intro list other member
    have different : other ≠ address := by
      intro same
      rw [same] at member
      exact outside list member
    obtain ⟨item, found, place⟩ := stores.placed ((kept different).mp member)
    exact ⟨item, (update_of_ne different ..).trans found, place⟩
  · intro other item found
    rcases update_some found with ⟨_, gone⟩ | ⟨different, old⟩
    · cases gone
    · exact (kept different).mpr (stores.linked old)
  · have sum := sum_length_exchange (Finset.mem_range.mpr inside) members (before ++ after)
    have counted := stores.counted
    rw [split] at sum
    simp only [List.length_append, List.length_cons] at sum
    simp only [Table.erase]
    omega

end

section Operations

/-- The operation has its meaning, and the table stands for the new map. Only memory that is in use is refused. -/
def Refines (map : Map V) (op : Op V) (result : Except Fault (Output V × Table V)) (limit : Nat) : Prop :=
  Yields (· = .taken) result fun (output, table) =>
    output = (op.meaning map).1 ∧ table.entrycount ≤ limit ∧ ∃ members, Stores table members (op.meaning map).2

section

variable (stores : Stores table members map)
include stores

section

variable (enough : table.entrycount ≤ fuel)
include enough

theorem set_refines {value : V} {allocate : Bool} (storable : (Op.set key value allocate address).Storable) :
    Refines map (.set key value allocate address) (Op.apply fuel table (.set key value allocate address))
      (table.entrycount + 1) := by
  unfold Refines Op.apply Table.hashtableSet
  simp only [Op.meaning]
  rcases stores.getentry_eq enough key with ⟨there, entry, searched, found, same, stored⟩ | ⟨searched, absent⟩
  · have assigned := stores.assign found value
    have changed : (table.entry there).map (fun entry => { entry with value }) = some { entry with value } := by
      rw [found]
      rfl
    rw [← changed, same] at assigned
    simp only [searched, stored, Option.isSome_some, Bool.or_true, if_true]
    exact ⟨rfl, Nat.le_succ _, members, assigned⟩
  · simp only [searched, absent, Option.isSome_none, Bool.or_false]
    cases allocate with
    | false => exact ⟨rfl, Nat.le_succ _, members, stores⟩
    | true =>
      cases free : table.entry address with
      | some entry =>
        simp only [if_true, Table.allocate, free, Option.isSome_some]
        rfl
      | none =>
        simp only [if_true, Table.allocate, free, Option.isSome_none, Bool.false_eq_true, if_false,
          if_neg (Nat.not_lt.mpr (show key.length ≤ allocLimit from storable))]
        exact ⟨rfl, Nat.le_refl _, _, stores.insert free absent value⟩

theorem get_refines (key : Key) : Refines map (.get key) (Op.apply fuel table (.get key)) (table.entrycount + 1) := by
  unfold Refines Op.apply Table.hashtableGet
  simp only [Op.meaning]
  rcases stores.getentry_eq enough key with ⟨there, entry, searched, found, _, stored⟩ | ⟨searched, absent⟩
  · simp only [searched, stored]
    refine ⟨?_, Nat.le_succ _, members, stores⟩
    show Output.found ((table.entry there).map Entry.value) = .found (some entry.value)
    rw [found]
    rfl
  · simp only [searched, absent]
    exact ⟨rfl, Nat.le_succ _, members, stores⟩

theorem remove_refines (key : Key) :
    Refines map (.remove key) (Op.apply fuel table (.remove key)) (table.entrycount + 1) := by
  unfold Refines Op.apply Table.hashtableRemove
  simp only [Op.meaning]
  rcases stores.getentry_eq enough key with ⟨there, entry, searched, found, same, stored⟩ | ⟨searched, absent⟩
  · have hashed := stores.contents.hashed found
    obtain ⟨left, erased⟩ := stores.erase found
    rw [hashed, same] at erased
    simp only [searched, stored, Option.isSome_some, if_true]
    exact ⟨rfl, Nat.le_succ_of_le (Nat.sub_le _ _), left, erased⟩
  · simp only [searched, absent, Option.isSome_none, Bool.false_eq_true, if_false]
    exact ⟨rfl, Nat.le_succ _, members, stores⟩

theorem apply_refines (op : Op V) (storable : op.Storable) :
    Refines map op (op.apply fuel table) (table.entrycount + 1) := by
  cases op with
  | set key value allocate address => exact set_refines stores enough storable
  | get key => exact get_refines stores enough key
  | remove key => exact remove_refines stores enough key

end

end

/-- A run of operations has its meaning. -/
theorem run_refines (ops : List (Op V)) (storable : ∀ op ∈ ops, op.Storable)
    (stores : Stores table members map) (enough : table.entrycount + ops.length ≤ fuel) :
    Yields (· = .taken) (run fuel ops table) fun (outputs, table) =>
      outputs = (meaning ops map).1 ∧ table.entrycount ≤ fuel ∧ ∃ members, Stores table members (meaning ops map).2 := by
  induction ops generalizing table members map with
  | nil => exact ⟨rfl, enough, members, stores⟩
  | cons op rest ih =>
    simp only [List.length_cons] at enough
    apply (apply_refines stores (by omega) op (storable op List.mem_cons_self)).bind
    intro ⟨output, next⟩ ⟨same, limit, others, kept⟩
    apply (ih (fun other member => storable other (List.mem_cons_of_mem _ member)) kept (by omega)).bind
    intro ⟨outputs, last⟩ ⟨results, bounded, final, holds⟩
    refine ⟨?_, bounded, final, holds⟩
    simp only [meaning, same, results]

end Operations

section Foreach

section

variable (stores : Stores table members map)
include stores

/-- The loop visits the members of one chain after another. -/
theorem foreach_eq (enough : table.entrycount ≤ fuel) :
    table.foreach fuel = some ((List.range table.capacity).flatMap members) := by
  have each (lists : List Nat) : (lists.mapM fun toffset =>
      Chains.collect table.chains.next fuel (table.chains.head toffset)) = some (lists.map members) := by
    induction lists with
    | nil => rfl
    | cons list rest ih =>
      rw [List.mapM_cons, ih, stores.holds.collect_eq list (Nat.le_trans (stores.length_le list) enough)]
      rfl
  unfold Table.foreach
  rw [each, List.flatMap_def]
  rfl

/-- The loop visits each entry once. -/
theorem visited_distinct : ((List.range table.capacity).flatMap members).Nodup := by
  apply List.nodup_flatMap.mpr
  refine ⟨fun list _ => stores.holds.distinct list, ?_⟩
  apply (List.nodup_range (n := table.capacity)).imp
  intro one two different address in_one in_two
  exact different (stores.holds.apart in_one in_two)

theorem mem_visited (address : Nat) :
    address ∈ (List.range table.capacity).flatMap members ↔ (table.entry address).isSome := by
  rw [List.mem_flatMap]
  constructor
  · intro ⟨list, _, member⟩
    obtain ⟨entry, found, _⟩ := stores.placed member
    rw [found]
    rfl
  · intro present
    obtain ⟨entry, found⟩ := Option.isSome_iff_exists.mp present
    have member := stores.linked found
    exact ⟨_, List.mem_range.mpr (stores.inside member), member⟩

omit stores in
/-- A partial function that is defined on a list gives all its values. -/
theorem map_some_filterMap {A B : Type} {f : A → Option B} {items : List A} (defined : ∀ item ∈ items, (f item).isSome) :
    items.map f = (items.filterMap f).map some := by
  induction items with
  | nil => rfl
  | cons item rest ih =>
    obtain ⟨value, here⟩ := Option.isSome_iff_exists.mp (defined item List.mem_cons_self)
    rw [List.map_cons, List.filterMap_cons_some here, List.map_cons, here,
      ih fun other member => defined other (List.mem_cons_of_mem _ member)]

/-- The loop visits each key of the map once. -/
theorem foreach_keys (enough : table.entrycount ≤ fuel) :
    ∃ (visited : List Nat) (keys : List Key), table.foreach fuel = some visited ∧
      visited.map (fun address => (table.entry address).map Entry.key) = keys.map some ∧
      keys.Nodup ∧ ∀ key, key ∈ keys ↔ (map key).isSome := by
  refine ⟨_, ((List.range table.capacity).flatMap members).filterMap fun address =>
    (table.entry address).map Entry.key, foreach_eq stores enough, ?_, ?_, ?_⟩
  · apply map_some_filterMap
    intro address member
    rw [Option.isSome_map]
    exact (mem_visited stores address).mp member
  · apply (visited_distinct stores).filterMap
    intro one two key in_one in_two
    obtain ⟨first, found_first, same_first⟩ := Option.map_eq_some_iff.mp in_one
    obtain ⟨second, found_second, same_second⟩ := Option.map_eq_some_iff.mp in_two
    exact stores.contents.single found_first found_second (same_first.trans same_second.symm)
  · intro key
    rw [List.mem_filterMap]
    constructor
    · intro ⟨address, _, here⟩
      obtain ⟨entry, found, same⟩ := Option.map_eq_some_iff.mp here
      rw [← same, stores.contents.stored found]
      rfl
    · intro present
      obtain ⟨address, entry, found, same⟩ := stores.contents.present present
      refine ⟨address, (mem_visited stores address).mpr ?_, ?_⟩
      · rw [found]
        rfl
      · rw [found, Option.map_some, same]

end

end Foreach

theorem init_stores (positive : 0 < capacity) : Stores (Table.init capacity : Table V) (fun _ => []) fun _ => none where
  positive := positive
  holds := Chains.holds_empty
  placed member := absurd member List.not_mem_nil
  linked found := by cases found
  contents :=
    { hashed := fun found => by cases found
      single := fun found => by cases found
      stored := fun found => by cases found
      present := fun inside => by cases inside }
  counted := by simp [Table.init]

/-- On keys that the heap can store, the table is a finite map: every operation has its meaning, each key is in one
well-linked chain, and the loop over the table visits each key once. -/
theorem hashtable_is_map {capacity fuel : Nat} (positive : 0 < capacity) {ops : List (Op V)}
    (storable : ∀ op ∈ ops, op.Storable) (enough : ops.length ≤ fuel) :
    Yields (· = .taken) (run fuel ops (Table.init capacity)) fun (outputs, table) =>
      outputs = (meaning ops fun _ => none).1 ∧ (∃ members, Stores table members (meaning ops fun _ => none).2) ∧
      ∃ (visited : List Nat) (keys : List Key), table.foreach fuel = some visited ∧
        visited.map (fun address => (table.entry address).map Entry.key) = keys.map some ∧
        keys.Nodup ∧ ∀ key, key ∈ keys ↔ ((meaning ops fun _ => none).2 key).isSome := by
  have started : (Table.init capacity : Table V).entrycount + ops.length ≤ fuel := by
    rw [show (Table.init capacity : Table V).entrycount = 0 from rfl, Nat.zero_add]
    exact enough
  apply (run_refines ops storable (init_stores positive) started).imp
  intro ⟨outputs, table⟩ ⟨same, bounded, members, stores⟩
  exact ⟨same, ⟨members, stores⟩, foreach_keys stores bounded⟩

/-- Two keys in one bucket, one of which is a part of the other. -/
def crowded : List (Op Nat) :=
  [.set [1] 10 true 100, .set [1, 2] 20 true 200, .set [1] 11 false 0, .remove [1, 2], .get [1], .get [1, 2]]

theorem crowded_is_map : (0 < 1 ∧ (∀ op ∈ crowded, op.Storable) ∧ crowded.length ≤ 6) ∧
    ∃ outputs table, run 6 crowded (Table.init 1) = .ok (outputs, table) ∧
      outputs = [.status none, .status none, .status none, .status none, .found (some 11), .found none] ∧
      ∃ (visited : List Nat) (keys : List Key), table.foreach 6 = some visited ∧
        visited.map (fun address => (table.entry address).map Entry.key) = keys.map some := by
  have storable : ∀ op ∈ crowded, op.Storable := by
    simp [crowded, Op.Storable, allocLimit]
  have enough : crowded.length ≤ 6 := by decide
  refine ⟨⟨by decide, storable, enough⟩, ?_⟩
  have runs : (fun _ => ()) <$> run 6 crowded (Table.init 1) = .ok () := by
    decide +kernel
  obtain ⟨⟨outputs, table⟩, ran, _⟩ := map_ok.mp runs
  obtain ⟨same, _, visited, keys, visits, names, _⟩ := (hashtable_is_map (by decide : 0 < 1) storable enough).of_ok ran
  exact ⟨outputs, table, ran, same, visited, keys, visits, names⟩

/-- The heap refuses the key of a new entry. -/
theorem long_key_refused (positive : 0 < capacity) (long : allocLimit < key.length) (value : V) (address : Nat) :
    run 0 [.set key value true address] (Table.init capacity) = .error .assertion := by
  have absent : Table.getentry 0 (Table.init capacity : Table V) key (fnv1ahash key) = .ok none := by
    rcases (init_stores positive).getentry_eq (Nat.zero_le 0) key with ⟨_, _, _, found, _⟩ | ⟨searched, _⟩
    · cases found
    · exact searched
  have asserts : (Table.init capacity : Table V).allocate key ⟨some address, true⟩ =
      (.error .assertion : Except Fault _) := by
    unfold Table.allocate
    simp only [Table.init, Option.isSome_none, Bool.false_eq_true, if_false, if_pos long]
  unfold run Op.apply Table.hashtableSet
  simp only [absent, if_true]
  show (((Table.init capacity : Table V).allocate key ⟨some address, true⟩ >>= _) >>= _) >>= _ = _
  rw [asserts]
  rfl

theorem long_key_asserts : (meaning [.set (List.replicate 65537 0) 7 true 100] fun _ => none).1 = [Output.status none] ∧
    run 0 [.set (List.replicate 65537 0) 7 true 100] (Table.init 1) = .error .assertion := by
  refine ⟨rfl, ?_⟩
  apply long_key_refused (by decide)
  rw [List.length_replicate]
  decide

end Astral.Hashtable
