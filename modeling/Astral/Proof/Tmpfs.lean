import Astral.Construction.Tmpfs

namespace Astral.Tmpfs

open Function Library

variable {call : Call} {fs : Fs}

/-- One of the two entries that every directory has for itself. -/
def Dotted (name : Name) : Prop := name = dot ∨ name = dotdot

instance (name : Name) : Decidable (Dotted name) := inferInstanceAs (Decidable (_ ∨ _))

/-- A node that has a name, or the root. -/
def Linked (links : List Link) (node : Nat) : Prop := node = root ∨ ∃ link ∈ links, link.node = node ∧ ¬ Dotted link.name

/-- The tables of directories: a name is used once, entries are between nodes that exist, and each directory has its two
own entries. -/
structure Shaped (type : Nat → Option NodeType) (links : List Link) : Prop where
  nodup : links.Nodup
  keys : ∀ one ∈ links, ∀ two ∈ links, one.dir = two.dir → one.name = two.name → one = two
  dirs : ∀ link ∈ links, type link.dir = some .dir
  nodes : ∀ link ∈ links, type link.node ≠ none
  self : ∀ link ∈ links, link.name = dot → link.node = link.dir
  dots : ∀ dir, type dir = some .dir → ⟨dir, dot, dir⟩ ∈ links
  parents : ∀ dir, type dir = some .dir → dir ≠ root → ∃ parent, ⟨dir, dotdot, parent⟩ ∈ links

/-- The directory entries that count as references. The directory itself is no reference. -/
def uses (node : Nat) (link : Link) : Bool := link.node = node ∧ link.name ≠ dot

/-- The references are counted, and a directory without a name has no entries but its own ones. -/
structure Fs.Sound (fs : Fs) : Prop where
  shape : Shaped fs.type fs.links
  refs : ∀ node, fs.refcount node = fs.links.countP (uses node) + fs.held node
  placed : ∀ link ∈ fs.links, ¬ Dotted link.name → Linked fs.links link.dir
  mounted : fs.type root = some .dir ∧ fs.held root ≠ 0
  absent : ∀ node, fs.type node = none → fs.held node = 0

section Tables

variable {links : List Link} {dir node : Nat} {name : Name}

theorem mem_removed {link : Link} :
    link ∈ removed links dir name ↔ link ∈ links ∧ ¬ (link.dir = dir ∧ link.name = name) := by
  simp only [removed, List.mem_filter, decide_eq_true_eq]

theorem removed_absent (absent : ∀ node, ⟨dir, name, node⟩ ∉ links) : removed links dir name = links := by
  apply List.filter_eq_self.mpr
  intro link inside
  simp only [decide_eq_true_eq]
  rintro ⟨rfl, rfl⟩
  exact absent link.node inside

variable {type : Nat → Option NodeType} (shape : Shaped type links)
include shape

/-- An entry is removed from a count. -/
theorem Shaped.countP_removed {link : Link} (inside : link ∈ links) (test : Link → Bool) :
    (removed links link.dir link.name).countP test + (if test link then 1 else 0) = links.countP test := by
  have same : removed links link.dir link.name = links.erase link := by
    rw [shape.nodup.erase_eq_filter]
    apply List.filter_congr
    intro other there
    simp only [bne, decide_not]
    congr 1
    rw [beq_eq_decide, decide_eq_decide]
    exact ⟨fun equal => shape.keys other there link inside equal.1 equal.2, fun equal => by simp [equal]⟩
  have counted : (if test link then 1 else 0) ≤ links.countP test := by
    split
    · next holds => exact List.countP_pos_iff.mpr ⟨link, inside, holds⟩
    · exact Nat.zero_le _
  rw [same, List.countP_erase]
  simp only [inside, true_and]
  omega

theorem Shaped.remove (dir : Nat) (plain : ¬ Dotted name) : Shaped type (removed links dir name) where
  nodup := shape.nodup.filter _
  keys one first two second := shape.keys one (mem_removed.mp first).1 two (mem_removed.mp second).1
  dirs link inside := shape.dirs link (mem_removed.mp inside).1
  nodes link inside := shape.nodes link (mem_removed.mp inside).1
  self link inside := shape.self link (mem_removed.mp inside).1
  dots other isDir := mem_removed.mpr ⟨shape.dots other isDir, fun same => plain (.inl same.2.symm)⟩
  parents other isDir inner := by
    obtain ⟨parent, inside⟩ := shape.parents other isDir inner
    exact ⟨parent, mem_removed.mpr ⟨inside, fun same => plain (.inr same.2.symm)⟩⟩

theorem Shaped.set (plain : ¬ Dotted name) (isDir : type dir = some .dir) (exist : type node ≠ none) :
    Shaped type (⟨dir, name, node⟩ :: removed links dir name) := by
  have rest := shape.remove dir plain
  have fresh : ∀ link ∈ removed links dir name, ¬ (dir = link.dir ∧ name = link.name) :=
    fun link inside same => (mem_removed.mp inside).2 ⟨same.1.symm, same.2.symm⟩
  constructor
  · exact List.nodup_cons.mpr ⟨fun inside => fresh _ inside ⟨rfl, rfl⟩, rest.nodup⟩
  · rintro one first two second sameDir sameName
    rcases List.mem_cons.mp first with rfl | first <;> rcases List.mem_cons.mp second with rfl | second
    · rfl
    · exact absurd ⟨sameDir, sameName⟩ (fresh _ second)
    · exact absurd ⟨sameDir.symm, sameName.symm⟩ (fresh _ first)
    · exact rest.keys one first two second sameDir sameName
  · exact List.forall_mem_cons.mpr ⟨isDir, rest.dirs⟩
  · exact List.forall_mem_cons.mpr ⟨exist, rest.nodes⟩
  · exact List.forall_mem_cons.mpr ⟨fun same => absurd (.inl same) plain, rest.self⟩
  · exact fun other isDir => List.mem_cons_of_mem _ (rest.dots other isDir)
  · intro other isDir inner
    obtain ⟨parent, inside⟩ := rest.parents other isDir inner
    exact ⟨parent, List.mem_cons_of_mem _ inside⟩

/-- A new node has no names yet, and is in no table. -/
theorem Shaped.fresh (free : type node = none) {link : Link} (inside : link ∈ links) :
    link.dir ≠ node ∧ link.node ≠ node := by
  constructor
  · exact ne_of_apply_ne type (by simp [free, shape.dirs link inside])
  · rintro rfl
    exact shape.nodes link inside free

theorem Shaped.newfile (free : type node = none) {new : NodeType} (file : new ≠ .dir) :
    Shaped (update type node (some new)) links := by
  have old {other : Nat} (isDir : update type node (some new) other = some .dir) : type other = some .dir := by
    by_cases same : other = node
    · simp [same, file] at isDir
    · rwa [update_of_ne same] at isDir
  refine ⟨shape.nodup, shape.keys, fun link inside => ?_, fun link inside => ?_, shape.self,
    fun dir isDir => shape.dots dir (old isDir), fun dir isDir => shape.parents dir (old isDir)⟩
  · rw [update_of_ne (shape.fresh free inside).1]
    exact shape.dirs link inside
  · rw [update_of_ne (shape.fresh free inside).2]
    exact shape.nodes link inside

theorem Shaped.newdir (free : type node = none) (isDir : type dir = some .dir) :
    Shaped (update type node (some .dir)) (⟨node, dot, node⟩ :: ⟨node, dotdot, dir⟩ :: links) := by
  have different : dot ≠ dotdot := by decide
  obtain ⟨nodup, keys, dirs, nodes, self, dots, parents⟩ := shape
  constructor
  · simp only [List.nodup_cons, List.mem_cons, Link.mk.injEq, different]
    grind
  · simp only [List.mem_cons]
    grind
  · simp only [List.mem_cons, update_apply]
    grind
  · simp only [List.mem_cons, update_apply]
    grind
  · simp only [List.mem_cons]
    grind
  · simp only [List.mem_cons, update_apply]
    grind
  · intro child child_dir inner
    by_cases same : child = node
    · exact ⟨dir, by simp [same]⟩
    · rw [update_of_ne same] at child_dir
      obtain ⟨parent, inside⟩ := parents child child_dir inner
      exact ⟨parent, by simp [inside]⟩

end Tables

section Lookups

variable {dir node : Nat} {name : Name}

theorem get_none (missing : fs.get dir name = none) : ∀ node, ⟨dir, name, node⟩ ∉ fs.links := by
  intro node inside
  have nothing := List.find?_eq_none.mp (Option.map_eq_none_iff.mp missing) _ inside
  simp at nothing

theorem get_some (found : fs.get dir name = some node) : ⟨dir, name, node⟩ ∈ fs.links := by
  obtain ⟨link, first, rfl⟩ := Option.map_eq_some_iff.mp found
  have same := List.find?_some first
  simp only [decide_eq_true_eq] at same
  rw [← same.1, ← same.2]
  exact List.mem_of_find?_eq_some first

theorem Shaped.get_of_mem (shape : Shaped fs.type fs.links) (inside : ⟨dir, name, node⟩ ∈ fs.links) :
    fs.get dir name = some node := by
  cases found : fs.get dir name with
  | none => exact absurd inside (get_none found node)
  | some other =>
    have same := shape.keys _ (get_some found) _ inside rfl rfl
    cases same
    rfl

end Lookups

/-- A directory with nothing but its own entries. -/
def Fs.Empty (fs : Fs) (dir : Nat) : Prop := ∀ link ∈ fs.links, link.dir = dir → Dotted link.name

/-- The names in a call are not the ones that every directory has for itself. -/
def Call.Plain : Call → Prop
  | .create _ name _ _ | .symlink _ name _ | .unlink _ name | .link _ _ name => ¬ Dotted name
  | .rename _ oldname _ newname => ¬ Dotted oldname ∧ ¬ Dotted newname
  | _ => True

/-- Names are made in directories that have a name, and a directory that loses its name has no entries, apart from one
that is moved away. -/
def Fits (fs : Fs) : Call → Prop
  | .create dir name _ _ | .symlink dir name _ => fs.type dir = some .dir → fs.get dir name = none → Linked fs.links dir
  | .link node dir name => fs.type dir = some .dir → fs.type node ≠ some .dir → fs.get dir name = none →
      Linked fs.links dir
  | .unlink dir name => fs.type dir = some .dir → ∀ node, fs.get dir name = some node → fs.type node = some .dir →
      fs.seemsEmpty node → fs.Empty node
  | .rename source oldname target newname => fs.type source = some .dir → fs.type target = some .dir →
      ∀ node, fs.get source oldname = some node → ¬ (source = target ∧ oldname = newname) →
        Linked fs.links target ∧ ∀ old, fs.get target newname = some old → fs.type old = some .dir →
          ∀ link ∈ fs.links, link.dir = old → ¬ Dotted link.name → link = ⟨source, oldname, node⟩
  | _ => True

/-- The file system after a node was created. -/
def Fs.created (fs : Fs) (dir node : Nat) (name : Name) (type : NodeType) : Fs :=
  if type = .dir then ((fs.newnode node type (some dir)).set dir name node).count dir 1
  else (fs.newnode node type (some dir)).set dir name node

/-- The file system after a node was renamed. -/
def Fs.renamed (fs : Fs) (node source : Nat) (oldname : Name) (target : Nat) (newname : Name) : Fs :=
  (fs.get target newname).elim ((fs.set target newname node).remove source oldname) fun old =>
    ((fs.set target newname node).remove source oldname).count old (-1)

theorem renamed_fields (fs : Fs) (node source : Nat) (oldname : Name) (target : Nat) (newname : Name) :
    (fs.renamed node source oldname target newname).links = ((fs.set target newname node).remove source oldname).links ∧
      (fs.renamed node source oldname target newname).type = fs.type ∧
      (fs.renamed node source oldname target newname).nlinks = fs.nlinks := by
  unfold Fs.renamed
  cases fs.get target newname <;> exact ⟨rfl, rfl, rfl⟩

/-- What a call has done to the file system. -/
inductive Effect (fs : Fs) : Call → Fs → Option Errno → Prop where
  | create {dir node name type} (isDir : fs.type dir = some .dir) (free : fs.get dir name = none)
      (fresh : fs.type node = none) : Effect fs (.create dir name type node) (fs.created dir node name type) none
  | symlink {dir node name} (isDir : fs.type dir = some .dir) (free : fs.get dir name = none)
      (fresh : fs.type node = none) : Effect fs (.symlink dir name node) (fs.created dir node name .link) none
  | unlink {dir node name} (isDir : fs.type dir = some .dir) (found : fs.get dir name = some node)
      (seems : fs.type node = some .dir → fs.seemsEmpty node = true) :
      Effect fs (.unlink dir name) (((fs.remove dir name).relink node (-1)).count node (-1)) none
  | link {dir node name} (exist : fs.refcount node ≠ 0) (isDir : fs.type dir = some .dir)
      (file : fs.type node ≠ some .dir) (free : fs.get dir name = none) :
      Effect fs (.link node dir name) (((fs.set dir name node).count node 1).relink node 1) none
  | rename {source oldname target newname node} (sourceDir : fs.type source = some .dir)
      (targetDir : fs.type target = some .dir) (found : fs.get source oldname = some node)
      (moves : ¬ (source = target ∧ oldname = newname)) :
      Effect fs (.rename source oldname target newname) (fs.renamed node source oldname target newname) none
  | hold {node} (used : fs.refcount node ≠ 0) : Effect fs (.hold node)
      { fs.count node 1 with held := update fs.held node (fs.held node + 1) } none
  | release {node} (held : ¬ (fs.held node = 0 ∨ node = root ∧ fs.held node = 1)) : Effect fs (.release node)
      { fs.count node (-1) with held := update fs.held node (fs.held node - 1) } none
  | inactive {node next reply} (exist : fs.type node ≠ none) (last : fs.refcount node = 0)
      (freed : fs.freenode node = .ok (next, reply)) : Effect fs (.inactive node) next reply

/-- Why a call leaves the file system as it is. -/
def Refused (fs : Fs) (reply : Option Errno) : Call → Prop
  | .create dir name _ _ | .symlink dir name _ => ¬ (fs.type dir = some .dir ∧ fs.get dir name = none)
  | .unlink dir name => fs.type dir = some .dir → ∀ node, fs.get dir name = some node →
      reply ≠ none ∧ fs.seemsEmpty node = false
  | .link node dir name => ¬ (fs.type dir = some .dir ∧ fs.type node ≠ some .dir ∧ fs.get dir name = none)
  | .rename source oldname target newname => (reply = none → source = target ∧ oldname = newname) ∧
      (fs.type source = some .dir → fs.type target = some .dir → ∀ node, fs.get source oldname = some node →
        source = target ∧ oldname = newname)
  | _ => False

section Cases

variable (fs : Fs) (dir node : Nat) (name : Name)

/-- A call was refused, or it has had its effect. -/
def Answered (fs : Fs) (call : Call) (answer : Fs × Option Errno) : Prop :=
  answer.1 = fs ∧ Refused fs answer.2 call ∨ Effect fs call answer.1 answer.2

theorem create_cases {accepted : Fault → Prop} (type : NodeType) (ready : accepted .notReady)
    (refused : ∀ reply, ¬ (fs.type dir = some .dir ∧ fs.get dir name = none) → Refused fs reply call)
    (effect : fs.type dir = some .dir → fs.get dir name = none → fs.type node = none →
      Effect fs call (fs.created dir node name type) none) :
    Yields accepted (fs.create dir name type node) (Answered fs call) := by
  fun_cases Fs.create fs dir name type node with
  | case1 other => exact .inl ⟨rfl, refused _ fun both => by simp [Fs.hasType, both.1] at other⟩
  | case2 _ there => exact .inl ⟨rfl, refused _ fun both => by simp [both.2] at there⟩
  | case3 => exact ready
  | case4 isDir free fresh =>
    exact .inr (effect (by simpa [Fs.hasType] using isDir) (by simpa using free) (by simpa using fresh))

/-- A call that is possible is answered, unless an assertion fails on a node that is freed. -/
theorem call_cases (call : Call) : Yields (fun fault => fault = .notReady ∨
    ∃ node, fs.refcount node = 0 ∧ fs.freenode node = .error fault) (fs.call call) (Answered fs call) := by
  cases call <;> simp only [Fs.call]
  all_goals
    split
    · exact .inl rfl
  case create.isFalse dir name type node _ =>
    exact create_cases fs dir node name type (.inl rfl) (fun _ why => why) .create
  case symlink.isFalse dir name node _ => exact create_cases fs dir node name .link (.inl rfl) (fun _ why => why) .symlink
  case unlink.isFalse dir name _ =>
    fun_cases Fs.unlink fs dir name with
    | case1 other => exact .inl ⟨rfl, fun isDir => by simp [Fs.hasType, isDir] at other⟩
    | case2 _ missing => exact .inl ⟨rfl, fun _ node found => by simp [missing] at found⟩
    | case3 _ node found full =>
      refine .inl ⟨rfl, fun _ other same => ?_⟩
      cases found.symm.trans same
      simp only [Bool.and_eq_true, Bool.not_eq_true'] at full
      exact ⟨fun wrong => (by cases wrong), full.2⟩
    | case4 isDir node found seems =>
      refine .inr (.unlink (by simpa [Fs.hasType] using isDir) found fun nodeDir => ?_)
      simpa [Fs.hasType, nodeDir] using seems
  case link.isFalse node dir name ready =>
    fun_cases Fs.link fs node dir name with
    | case1 other => exact .inl ⟨rfl, fun all => by simp [Fs.hasType, all.1] at other⟩
    | case2 _ other => exact .inl ⟨rfl, fun all => by simp [Fs.hasType, all.2.1] at other⟩
    | case3 _ _ there => exact .inl ⟨rfl, fun all => by simp [all.2.2] at there⟩
    | case4 isDir file free =>
      exact .inr (.link (fun none_left => ready (.inr none_left))
        (by simpa [Fs.hasType] using isDir) (by simpa [Fs.hasType] using file) (by simpa using free))
  case rename.isFalse source oldname target newname _ =>
    fun_cases Fs.rename fs source oldname target newname with
    | case1 other =>
      exact .inl ⟨rfl, fun wrong => (by cases wrong),
        fun sourceDir targetDir => by simp [Fs.hasType, sourceDir, targetDir] at other⟩
    | case2 _ missing =>
      exact .inl ⟨rfl, fun wrong => (by cases wrong), fun _ _ node found => by simp [missing] at found⟩
    | case3 _ node found same => exact .inl ⟨rfl, fun _ => same, fun _ _ _ _ => same⟩
    | case4 dirs node found moves =>
      simp only [Fs.hasType, Bool.or_eq_true, Bool.not_eq_true', decide_eq_false_iff_not, not_or, not_not] at dirs
      exact .inr (.rename dirs.1 dirs.2 found moves)
  case hold.isFalse node used => exact .inr (.hold used)
  case release.isFalse node held => exact .inr (.release held)
  case inactive.isFalse node ready =>
    simp only [not_or, not_not] at ready
    cases freed : fs.freenode node with
    | error fault => exact .inr ⟨node, ready.2, freed⟩
    | ok answer => exact .inr (.inactive ready.1 ready.2 freed)

variable {fs}

theorem call_ok {next : Fs} {reply : Option Errno} (ran : fs.call call = .ok (next, reply)) :
    next = fs ∧ Refused fs reply call ∨ Effect fs call next reply :=
  (call_cases fs call).of_ok ran

end Cases

section Steps

variable {fs next : Fs} {dir node : Nat} {name : Name} {reply : Option Errno} (sound : fs.Sound)
include sound

theorem Fs.Sound.unused (free : fs.type node = none) : fs.links.countP (uses node) = 0 ∧ fs.held node = 0 := by
  refine ⟨List.countP_eq_zero.mpr fun link inside used => ?_, sound.absent node free⟩
  simp only [uses, decide_eq_true_eq] at used
  exact sound.shape.nodes link inside (by rw [used.1, free])

omit sound in
theorem Linked.mono {links more : List Link} (linked : Linked links dir) (subset : links ⊆ more) : Linked more dir := by
  rcases linked with rfl | ⟨link, inside, same, plain⟩
  · exact .inl rfl
  · exact .inr ⟨link, subset inside, same, plain⟩

omit sound in
theorem count_refcount (fs : Fs) (node other : Nat) (change : Int) :
    (fs.count node change).refcount other = fs.refcount other + if node = other then change else 0 := by
  by_cases same : node = other
  · simp [Fs.count, same]
  · simp [Fs.count, same, Ne.symm same]

omit sound in
theorem uses_plain (plain : ¬ Dotted name) (other : Nat) : uses other ⟨dir, name, node⟩ = decide (node = other) := by
  have named : name ≠ dot := fun same => plain (.inl same)
  simp [uses, named]

/-- Names are added in directories that have one. -/
theorem Fs.Sound.placed_more {new : List Link} (linked : ∀ link ∈ new, ¬ Dotted link.name → Linked fs.links link.dir) :
    ∀ link ∈ new ++ fs.links, ¬ Dotted link.name → Linked (new ++ fs.links) link.dir := by
  intro link inside plain
  apply Linked.mono _ (List.subset_append_right new fs.links)
  rcases List.mem_append.mp inside with added | old
  · exact linked link added plain
  · exact sound.placed link old plain

theorem Fs.Sound.link (plain : ¬ Dotted name) (isDir : fs.type dir = some .dir) (exist : fs.type node ≠ none)
    (free : fs.get dir name = none) (linked : Linked fs.links dir) :
    (((fs.set dir name node).count node 1).relink node 1).Sound := by
  have links : removed fs.links dir name = fs.links := removed_absent (get_none free)
  refine ⟨sound.shape.set plain isDir exist, fun other => ?_, ?_, sound.mounted, sound.absent⟩
  · have before := sound.refs other
    show ((fs.set dir name node).count node 1).refcount other =
      ((⟨dir, name, node⟩ :: removed fs.links dir name).countP (uses other) : Int) + fs.held other
    rw [count_refcount, links, List.countP_cons, uses_plain plain]
    show fs.refcount other + _ = _
    by_cases same : node = other <;> simp [same] <;> omega
  · show ∀ link ∈ _ :: removed fs.links dir name, ¬ _ → Linked (_ :: removed fs.links dir name) _
    rw [links]
    exact @Fs.Sound.placed_more _ sound [_] fun _ inside _ => List.mem_singleton.mp inside ▸ linked

section Created

variable {type : NodeType} (isDir : fs.type dir = some .dir) (fresh : fs.type node = none)
  (free : fs.get dir name = none)

omit sound in
/-- The entries of a new node in its own table. -/
def ownLinks (node : Nat) (type : NodeType) (dir : Nat) : List Link :=
  if type = .dir then [⟨node, dot, node⟩, ⟨node, dotdot, dir⟩] else []

omit sound in
theorem ownLinks_dotted {link : Link} (inside : link ∈ ownLinks node type dir) : Dotted link.name := by
  unfold ownLinks at inside
  split at inside
  · simp only [List.mem_cons, List.not_mem_nil, or_false] at inside
    rcases inside with rfl | rfl
    · exact .inl rfl
    · exact .inr rfl
  · cases inside

include isDir fresh in
omit sound in
theorem fresh_other : dir ≠ node := ne_of_apply_ne fs.type (by simp [isDir, fresh])

include isDir fresh free in
omit sound in
theorem created_links : (fs.created dir node name type).links =
    ⟨dir, name, node⟩ :: (ownLinks node type dir ++ fs.links) := by
  have absent : removed (ownLinks node type dir ++ fs.links) dir name = ownLinks node type dir ++ fs.links := by
    refine removed_absent fun child inside => ?_
    rcases List.mem_append.mp inside with own | old
    · unfold ownLinks at own
      split at own
      · simp [fresh_other isDir fresh] at own
      · cases own
    · exact get_none free child old
  unfold Fs.created
  split
  · next isDir_new =>
    simp only [ownLinks, if_pos isDir_new] at absent ⊢
    simp only [Fs.count, Fs.set, Fs.newnode, if_pos isDir_new]
    exact congrArg _ absent
  · next file =>
    simp only [ownLinks, if_neg file] at absent ⊢
    simp only [Fs.set, Fs.newnode, if_neg file]
    exact congrArg _ absent

include isDir fresh free in
theorem Fs.Sound.create (plain : ¬ Dotted name) (linked : Linked fs.links dir) :
    (fs.created dir node name type).Sound := by
  obtain ⟨no_uses, not_held⟩ := sound.unused fresh
  have other := fresh_other isDir fresh
  have links := @created_links _ _ _ _ type isDir fresh free
  have types : (fs.created dir node name type).type = update fs.type node (some type) := by
    unfold Fs.created
    split <;> rfl
  have held : (fs.created dir node name type).held = fs.held := by
    unfold Fs.created
    split <;> rfl
  have not_root := fresh_other sound.mounted.1 fresh
  constructor
  · have still_dir : update fs.type node (some type) dir = some .dir := by
      rw [update_of_ne other, isDir]
    have exist : update fs.type node (some type) node ≠ none := by simp
    rw [types]
    unfold Fs.created
    split
    · next isDir_new =>
      subst isDir_new
      exact (sound.shape.newdir fresh isDir).set plain still_dir exist
    · next file =>
      have shape := (sound.shape.newfile fresh file).set plain still_dir exist
      simpa only [Fs.set, Fs.newnode, if_neg file] using shape
  · intro user
    have before := sound.refs user
    have counts : (fs.created dir node name type).refcount user = fs.refcount user + (if node = user then 1 else 0) +
        if type = .dir ∧ dir = user then 1 else 0 := by
      have new : ((fs.newnode node type (some dir)).set dir name node).refcount user =
          fs.refcount user + if node = user then 1 else 0 := by
        by_cases same : node = user
        · subst same
          simp [Fs.set, Fs.newnode]
          omega
        · simp [Fs.set, Fs.newnode, same, Ne.symm same]
      unfold Fs.created
      split
      · next isDir_new => rw [count_refcount, new]; simp [isDir_new]
      · next file => rw [new]; simp [file]
    have own : (ownLinks node type dir).countP (uses user) = if type = .dir ∧ dir = user then 1 else 0 := by
      unfold ownLinks
      split <;> simp_all [uses, dot, dotdot, List.countP_cons]
    rw [links, counts, held, List.countP_cons, List.countP_append, own, uses_plain plain]
    by_cases same : node = user <;> simp [same] <;> omega
  · rw [links]
    refine @Fs.Sound.placed_more _ sound (_ :: ownLinks node type dir) fun link inside named => ?_
    rcases List.mem_cons.mp inside with rfl | own
    · exact linked
    · exact absurd (ownLinks_dotted own) named
  · rw [types, held, update_of_ne not_root]
    exact sound.mounted
  · intro user missing
    rw [held]
    by_cases same : user = node
    · rw [same, not_held]
    · rw [types, update_of_ne same] at missing
      exact sound.absent user missing

end Created

/-- A name is removed, of a node that has no entries. -/
theorem Fs.Sound.unlink (plain : ¬ Dotted name) (found : fs.get dir name = some node)
    (empty : fs.type node = some .dir → fs.Empty node) :
    (((fs.remove dir name).relink node (-1)).count node (-1)).Sound := by
  have inside := get_some found
  refine ⟨sound.shape.remove dir plain, fun other => ?_, fun link there named => ?_, sound.mounted, sound.absent⟩
  · have before := sound.refs other
    have counted := sound.shape.countP_removed inside (uses other)
    rw [uses_plain plain] at counted
    rw [count_refcount]
    show fs.refcount other + _ = ((removed fs.links dir name).countP (uses other) : Int) + fs.held other
    by_cases same : node = other <;> simp [same] at counted ⊢ <;> omega
  · have old := (mem_removed.mp there).1
    rcases sound.placed link old named with isRoot | ⟨above, beyond, same, plain_above⟩
    · exact .inl isRoot
    · refine .inr ⟨above, mem_removed.mpr ⟨beyond, fun equal => ?_⟩, same, plain_above⟩
      have equal := sound.shape.keys above beyond _ inside equal.1 equal.2
      have same : link.dir = node := by rw [← same, equal]
      exact named (empty (by rw [← same, sound.shape.dirs link old]) link old same)

section Rename

variable {source target : Nat} {oldname newname : Name} (plain : ¬ Dotted oldname ∧ ¬ Dotted newname)
  (isDir : fs.type target = some .dir) (found : fs.get source oldname = some node)
  (moves : ¬ (source = target ∧ oldname = newname))
include plain isDir found moves

omit sound plain isDir found in
theorem mem_moved {link : Link} :
    link ∈ ((fs.set target newname node).remove source oldname).links ↔ link = ⟨target, newname, node⟩ ∨
      link ∈ fs.links ∧ ¬ (link.dir = target ∧ link.name = newname) ∧ ¬ (link.dir = source ∧ link.name = oldname) := by
  show link ∈ removed (_ :: removed fs.links target newname) source oldname ↔ _
  rw [mem_removed, List.mem_cons, mem_removed]
  constructor
  · rintro ⟨rfl | ⟨old, other⟩, kept⟩
    · exact .inl rfl
    · exact .inr ⟨old, other, kept⟩
  · rintro (rfl | ⟨old, other, kept⟩)
    · exact ⟨.inl rfl, fun same => moves ⟨same.1.symm, same.2.symm⟩⟩
    · exact ⟨.inr ⟨old, other⟩, kept⟩

omit moves in
theorem Fs.Sound.moved_shape : Shaped fs.type ((fs.set target newname node).remove source oldname).links :=
  (sound.shape.set plain.2 isDir (sound.shape.nodes _ (get_some found))).remove source plain.1

theorem Fs.Sound.moved_count {test : Link → Bool} (same : test ⟨target, newname, node⟩ = test ⟨source, oldname, node⟩) :
    ((fs.set target newname node).remove source oldname).links.countP test =
      (removed fs.links target newname).countP test := by
  have inside : ⟨source, oldname, node⟩ ∈ (⟨target, newname, node⟩ :: removed fs.links target newname : List Link) :=
    List.mem_cons_of_mem _ (mem_removed.mpr ⟨get_some found, moves⟩)
  have counted := (sound.shape.set plain.2 isDir (sound.shape.nodes _ (get_some found))).countP_removed inside test
  rw [List.countP_cons, same] at counted
  exact Nat.add_right_cancel counted

omit isDir in
/-- A node keeps its name, or it is the one that is replaced. -/
theorem Linked.moved {other : Nat} (linked : Linked fs.links other) :
    Linked ((fs.set target newname node).remove source oldname).links other ∨ fs.get target newname = some other := by
  rcases linked with isRoot | ⟨link, inside, rfl, named⟩
  · exact .inl (.inl isRoot)
  · by_cases replaced : link.dir = target ∧ link.name = newname
    · right
      rw [← replaced.1, ← replaced.2]
      exact sound.shape.get_of_mem inside
    · left
      by_cases moved : link.dir = source ∧ link.name = oldname
      · have same := sound.shape.keys link inside _ (get_some found) moved.1 moved.2
        exact .inr ⟨_, (mem_moved moves).mpr (.inl rfl), by rw [same], plain.2⟩
      · exact .inr ⟨link, (mem_moved moves).mpr (.inr ⟨inside, replaced, moved⟩), rfl, named⟩

theorem Fs.Sound.rename (linked : Linked fs.links target)
    (alone : ∀ old, fs.get target newname = some old → fs.type old = some .dir →
      ∀ link ∈ fs.links, link.dir = old → ¬ Dotted link.name → link = ⟨source, oldname, node⟩) :
    (fs.renamed node source oldname target newname).Sound := by
  unfold Fs.renamed
  have shape := sound.moved_shape plain isDir found
  have counts (other : Nat) := @Fs.Sound.moved_count _ _ sound _ _ _ _ plain isDir found moves (uses other)
    ((uses_plain plain.2 other).trans (uses_plain plain.1 other).symm)
  have placed : ∀ link ∈ ((fs.set target newname node).remove source oldname).links, ¬ Dotted link.name →
      Linked ((fs.set target newname node).remove source oldname).links link.dir := by
    intro link inside named
    rcases (mem_moved moves).mp inside with rfl | ⟨old, other, kept⟩
    · rcases linked.moved sound plain found moves with still | self
      · exact still
      · have same := alone target self isDir _ (get_some self) rfl plain.2
        exact absurd ⟨(congrArg Link.dir same).symm, (congrArg Link.name same).symm⟩ moves
    · rcases (sound.placed link old named).moved sound plain found moves with still | replaced
      · exact still
      · have same := alone _ replaced (sound.shape.dirs link old) link old rfl named
        exact absurd ⟨congrArg Link.dir same, congrArg Link.name same⟩ kept
  cases there : fs.get target newname with
  | none =>
    rw [removed_absent (get_none there)] at counts
    refine ⟨shape, fun other => ?_, placed, sound.mounted, sound.absent⟩
    rw [Option.elim_none, counts]
    exact sound.refs other
  | some old =>
    refine ⟨shape, fun other => ?_, placed, sound.mounted, sound.absent⟩
    have before := sound.refs other
    have counted := sound.shape.countP_removed (get_some there) (uses other)
    rw [uses_plain plain.2] at counted
    rw [Option.elim_some, count_refcount, show (((fs.set target newname node).remove source oldname).count old
      (-1)).links.countP (uses other) = _ from counts other]
    show fs.refcount other + _ = _ + (fs.held other : Int)
    by_cases same : old = other <;> simp [same] at counted ⊢ <;> omega

end Rename

section Free

variable (last : fs.refcount node = 0)
include last

theorem Fs.Sound.no_uses {link : Link} (inside : link ∈ fs.links) (same : link.node = node) : link.name = dot := by
  have counted := sound.refs node
  have none_used : fs.links.countP (uses node) = 0 := by omega
  by_contra named
  exact List.countP_eq_zero.mp none_used link inside (by simp [uses, same, named])

theorem Fs.Sound.not_linked : ¬ Linked fs.links node := by
  rintro (rfl | ⟨link, inside, same, named⟩)
  · have counted := sound.refs root
    have held := sound.mounted.2
    omega
  · exact named (.inl (sound.no_uses last inside same))

/-- A directory that nobody refers to has only its own entries. -/
theorem Fs.Sound.own_entries (isDir : fs.type node = some .dir) : ∃ parent,
    (fs.links.filter fun link => link.dir = node).Perm [⟨node, dot, node⟩, ⟨node, dotdot, parent⟩] := by
  have lost := sound.not_linked last
  obtain ⟨parent, up⟩ := sound.shape.parents node isDir fun isRoot => lost (.inl isRoot)
  have self := sound.shape.dots node isDir
  refine ⟨parent, (List.perm_ext_iff_of_nodup (sound.shape.nodup.filter _) (by simp [dot, dotdot])).mpr fun link => ?_⟩
  simp only [List.mem_filter, decide_eq_true_eq, List.mem_cons, List.not_mem_nil, or_false]
  constructor
  · rintro ⟨inside, same⟩
    have dotted : Dotted link.name := by
      by_contra named
      exact lost (same ▸ sound.placed link inside named)
    rcases dotted with isDot | isDotdot
    · exact .inl (sound.shape.keys link inside _ self same isDot)
    · exact .inr (sound.shape.keys link inside _ up same isDotdot)
  · rintro (rfl | rfl)
    · exact ⟨self, rfl⟩
    · exact ⟨up, rfl⟩

theorem Fs.Sound.discard (type : next.type = (fs.discard node).type) (links : next.links = (fs.discard node).links)
    (held : next.held = fs.held) (refs : ∀ other, next.refcount other = next.links.countP (uses other) + fs.held other) :
    next.Sound := by
  have lost := sound.not_linked last
  have no_uses := @Fs.Sound.no_uses _ _ sound last
  have before := sound.refs node
  obtain ⟨⟨nodup, keys, dirs, nodes, self, dots, parents⟩, -, placed, mounted, absent⟩ := sound
  have not_root : root ≠ node := fun same => lost (.inl same.symm)
  have kept {link : Link} : link ∈ next.links ↔ link ∈ fs.links ∧ link.dir ≠ node := by
    rw [links, Fs.discard, List.mem_filter]
    simp
  have types {other : Nat} (different : other ≠ node) : next.type other = fs.type other := by
    rw [type]
    exact update_of_ne different ..
  have gone : next.type node = none := by
    rw [type]
    exact update_self ..
  have alive {other : Nat} (isDir : next.type other = some .dir) : other ≠ node := fresh_other isDir gone
  have not_self {link : Link} (inside : link ∈ fs.links) (different : link.dir ≠ node) : link.node ≠ node := by
    intro same
    exact different ((self link inside (no_uses inside same)).symm.trans same)
  refine ⟨⟨?_, ?_, ?_, ?_, ?_, ?_, ?_⟩, ?_, ?_, ?_, ?_⟩
  · rw [links]
    exact nodup.filter _
  · exact fun one first two second => keys one (kept.mp first).1 two (kept.mp second).1
  · intro link inside
    rw [types (kept.mp inside).2, dirs link (kept.mp inside).1]
  · intro link inside
    rw [types (not_self (kept.mp inside).1 (kept.mp inside).2)]
    exact nodes link (kept.mp inside).1
  · exact fun link inside => self link (kept.mp inside).1
  · intro dir isDir
    have different := alive isDir
    rw [types different] at isDir
    exact kept.mpr ⟨dots dir isDir, different⟩
  · intro dir isDir inner
    have different := alive isDir
    rw [types different] at isDir
    obtain ⟨parent, inside⟩ := parents dir isDir inner
    exact ⟨parent, kept.mpr ⟨inside, different⟩⟩
  · rw [held]
    exact refs
  · intro link inside named
    rcases placed link (kept.mp inside).1 named with isRoot | ⟨above, there, same, above_named⟩
    · exact .inl isRoot
    · refine .inr ⟨above, kept.mpr ⟨there, fun here => lost ?_⟩, same, above_named⟩
      rw [← here]
      exact placed above there above_named
  · rw [types not_root, held]
    exact mounted
  · intro other missing
    rw [held]
    by_cases same : other = node
    · rw [same]
      omega
    · exact absent other (types same ▸ missing)

/-- The assertions on a freed node hold. -/
theorem Fs.Sound.freenode : Yields (· = .notReady) (fs.freenode node) fun answer => answer.1.Sound := by
  unfold Fs.freenode
  rw [if_neg (not_not_intro last)]
  split
  · next isDir =>
    simp only [Fs.hasType, decide_eq_true_eq] at isDir
    obtain ⟨parent, own⟩ := sound.own_entries last isDir
    have counts (test : Link → Bool) : fs.links.countP test = (fs.discard node).links.countP test +
        [⟨node, dot, node⟩, ⟨node, dotdot, parent⟩].countP test := by
      rw [← own.countP_eq, List.countP_eq_countP_filter_add fs.links test fun link => decide (link.dir = node), Fs.discard,
        Nat.add_comm]
      simp
    have up : ⟨node, dotdot, parent⟩ ∈ fs.links := (List.mem_filter.mp (own.mem_iff.mpr (by simp))).1
    have two : fs.links.countP (fun link => link.dir = node) = 2 := by
      rw [List.countP_eq_length_filter, own.length_eq]
      rfl
    rw [if_pos two, sound.shape.get_of_mem up]
    refine sound.discard last rfl rfl rfl fun other => ?_
    have before := sound.refs other
    have counted := counts (uses other)
    rw [count_refcount]
    show fs.refcount other + _ = ((fs.discard node).links.countP (uses other) : Int) + _
    by_cases same : parent = other <;> simp [uses, dot, dotdot, same] at counted ⊢ <;> omega
  · next file =>
    simp only [Fs.hasType, decide_eq_true_eq] at file
    have all_kept : (fs.discard node).links = fs.links := by
      refine List.filter_eq_self.mpr fun link inside => ?_
      simp only [ne_eq, decide_not, Bool.not_eq_true', decide_eq_false_iff_not]
      rintro rfl
      exact file (sound.shape.dirs link inside)
    refine sound.discard last rfl rfl rfl fun other => ?_
    rw [all_kept]
    exact sound.refs other

end Free

theorem Fs.Sound.alive (used : fs.refcount node ≠ 0) : fs.type node ≠ none := by
  intro missing
  obtain ⟨no_uses, not_held⟩ := sound.unused missing
  have counted := sound.refs node
  omega

/-- A user takes or gives up a reference. -/
theorem Fs.Sound.recount {count : Nat} {change : Int} (fair : (count : Int) = fs.held node + change)
    (stays : node = root → count ≠ 0) (exist : fs.type node = none → count = 0) :
    Fs.Sound { fs.count node change with held := update fs.held node count } := by
  refine ⟨sound.shape, fun other => ?_, sound.placed, ⟨sound.mounted.1, ?_⟩, fun other missing => ?_⟩
  · have before := sound.refs other
    show (fs.count node change).refcount other = fs.links.countP (uses other) + (update fs.held node count other : Int)
    rw [count_refcount, update_apply]
    by_cases same : node = other
    · rw [if_pos same, if_pos same.symm]
      rw [same] at fair
      omega
    · rw [if_neg same, if_neg (Ne.symm same)]
      omega
  all_goals
    simp only [update_apply]
    split
  · next same => exact stays same.symm
  · exact sound.mounted.2
  · next same => exact exist (same ▸ missing)
  · exact sound.absent other missing

theorem Fs.Sound.effect (effect : Effect fs call next reply) (plain : call.Plain) (fits : Fits fs call) :
    next.Sound := by
  cases effect with
  | create isDir free fresh => exact sound.create isDir fresh free plain (fits isDir free)
  | symlink isDir free fresh => exact sound.create isDir fresh free plain (fits isDir free)
  | unlink isDir found seems =>
    exact sound.unlink plain found fun nodeDir => fits isDir _ found nodeDir (seems nodeDir)
  | link exist isDir file free => exact sound.link plain isDir (sound.alive exist) free (fits isDir file free)
  | rename sourceDir targetDir found moves =>
    obtain ⟨linked, alone⟩ := fits sourceDir targetDir _ found moves
    exact sound.rename plain targetDir found moves linked alone
  | hold used => exact sound.recount rfl (by omega) fun missing => absurd missing (sound.alive used)
  | @release node held =>
    refine sound.recount (by omega) (fun isRoot => ?_) fun missing => ?_
    · omega
    · rw [sound.absent node missing]
  | inactive exist last freed => exact (sound.freenode last).of_ok freed

end Steps

theorem mounted_sound : mounted.Sound := by
  have links : mounted.links = [⟨root, dot, root⟩] := rfl
  have types (node : Nat) : mounted.type node = if node = root then some .dir else none := update_apply ..
  refine ⟨⟨?_, ?_, ?_, ?_, ?_, ?_, ?_⟩, fun node => ?_, ?_, ⟨rfl, by decide⟩, fun node missing => ?_⟩
  · rw [links]
    exact List.nodup_singleton _
  · simp [links]
  · simp [links, types]
  · simp [links, types]
  · simp [links]
  · intro dir isDir
    rw [types] at isDir
    split at isDir
    · next same => simp [links, same]
    · cases isDir
  · intro dir isDir inner
    rw [types, if_neg inner] at isDir
    cases isDir
  · have uses_none : mounted.links.countP (uses node) = 0 := by simp [links, uses]
    rw [uses_none]
    by_cases same : node = root <;> simp [mounted, Fs.newnode, same]
  · simp [links, Dotted]
  · rw [types] at missing
    split at missing
    · cases missing
    · next other => simp [mounted, other]

/-- A directory without a name has nothing but its own entries, so that it can be freed. -/
def Fs.Sane (fs : Fs) : Prop := ∀ dir, fs.type dir = some .dir → ¬ Linked fs.links dir → fs.Empty dir

/-- A directory that a successful call removes or replaces is empty. -/
def Removes (fs : Fs) (reply : Option Errno) : Call → Prop
  | .unlink dir name => reply = none → ∀ node, fs.get dir name = some node → fs.type node = some .dir → fs.Empty node
  | .rename source oldname target newname => reply = none → ¬ (source = target ∧ oldname = newname) →
      ∀ old, fs.get target newname = some old → fs.type old = some .dir → fs.Empty old
  | _ => True

/-- Names are made in directories that have a name, and a directory that loses its name is empty. -/
def FitsEmpty (fs : Fs) (call : Call) : Prop :=
  Fits fs call ∧
    match call with
    | .rename source oldname target newname => fs.type source = some .dir → fs.type target = some .dir →
        ∀ node, fs.get source oldname = some node → ¬ (source = target ∧ oldname = newname) →
          ∀ old, fs.get target newname = some old → fs.type old = some .dir → fs.Empty old
    | _ => True

theorem Fs.Sound.sane (sound : fs.Sound) : fs.Sane := by
  intro dir isDir lost link inside same
  by_contra named
  exact lost (same ▸ sound.placed link inside named)

/-- A name was made in a directory, which therefore has a name. -/
theorem Fs.Sane.linked {next : Fs} (sane : next.Sane) {dir node : Nat} {name : Name} (plain : ¬ Dotted name)
    (isDir : next.type dir = some .dir) (made : ⟨dir, name, node⟩ ∈ next.links)
    (others : ∀ link ∈ next.links, link.node = dir → ¬ Dotted link.name → Linked fs.links dir) :
    Linked fs.links dir := by
  have linked : Linked next.links dir := by
    by_contra lost
    exact plain (sane dir isDir lost _ made rfl)
  rcases linked with isRoot | ⟨link, inside, same, named⟩
  · exact .inl isRoot
  · exact others link inside same named

theorem mem_created {dir node : Nat} {name : Name} {type : NodeType} (isDir : fs.type dir = some .dir)
    (fresh : fs.type node = none) (free : fs.get dir name = none) {link : Link} (named : ¬ Dotted link.name) :
    link ∈ (fs.created dir node name type).links ↔ link = ⟨dir, name, node⟩ ∨ link ∈ fs.links := by
  rw [created_links isDir fresh free, List.mem_cons, List.mem_append]
  have other : ¬ link ∈ ownLinks node type dir := fun own => named (ownLinks_dotted own)
  simp only [other, false_or]

/-- A created node leaves its directory without a name if it had none. -/
theorem Fs.Sane.created {dir node : Nat} {name : Name} {type : NodeType} (sane : (fs.created dir node name type).Sane)
    (plain : ¬ Dotted name) (isDir : fs.type dir = some .dir) (fresh : fs.type node = none)
    (free : fs.get dir name = none) : Linked fs.links dir := by
  have different := fresh_other isDir fresh
  have still : (fs.created dir node name type).type dir = some .dir := by
    rw [← isDir]
    unfold Fs.created
    split <;> exact update_of_ne different ..
  refine sane.linked plain still ((mem_created isDir fresh free plain).mpr (.inl rfl)) fun link inside same named => ?_
  rcases (mem_created isDir fresh free named).mp inside with rfl | old
  · exact absurd same.symm different
  · exact .inr ⟨link, old, same, named⟩

section Obeys

variable {next : Fs} {reply : Option Errno}

theorem Fs.Sound.follows (sound : fs.Sound) (ran : fs.call call = .ok (next, reply)) (plain : call.Plain)
    (fits : Fits fs call) :
    next.Sound := by
  rcases call_ok ran with ⟨rfl, -⟩ | effect
  · exact sound
  · exact sound.effect effect plain fits

theorem Refused.fits (refused : Refused fs reply call) : FitsEmpty fs call := by
  cases call with
  | create | symlink => exact ⟨fun isDir free => absurd ⟨isDir, free⟩ refused, trivial⟩
  | link => exact ⟨fun isDir file free => absurd ⟨isDir, file, free⟩ refused, trivial⟩
  | unlink =>
    refine ⟨fun isDir node found _ seems => ?_, trivial⟩
    rw [(refused isDir node found).2] at seems
    cases seems
  | rename =>
    exact ⟨fun sourceDir targetDir node found moves => absurd (refused.2 sourceDir targetDir node found) moves,
      fun sourceDir targetDir node found moves => absurd (refused.2 sourceDir targetDir node found) moves⟩
  | _ => cases refused

theorem Refused.removes (sound : fs.Sound) (refused : Refused fs reply call) : Removes fs reply call := by
  cases call with
  | unlink =>
    intro done node found
    exact absurd done (refused (sound.shape.dirs _ (get_some found)) node found).1
  | rename => exact fun done moves => absurd (refused.1 done) moves
  | _ => trivial

theorem Effect.removes (effect : Effect fs call next reply) (fits : FitsEmpty fs call) : Removes fs reply call := by
  cases effect with
  | unlink isDir found seems =>
    intro _ other same otherDir
    cases found.symm.trans same
    exact fits.1 isDir _ found otherDir (seems otherDir)
  | rename sourceDir targetDir found moves => exact fun _ _ old => fits.2 sourceDir targetDir _ found moves old
  | _ => trivial

theorem Effect.fits (effect : Effect fs call next reply) (plain : call.Plain) (sane : next.Sane)
    (removes : Removes fs reply call) : FitsEmpty fs call := by
  cases effect with
  | create isDir free fresh => exact ⟨fun _ _ => sane.created plain isDir fresh free, trivial⟩
  | symlink isDir free fresh => exact ⟨fun _ _ => sane.created plain isDir fresh free, trivial⟩
  | unlink isDir found seems => exact ⟨fun _ node there nodeDir _ => removes rfl node there nodeDir, trivial⟩
  | @link dir node name exist isDir file free =>
    refine ⟨fun _ _ _ => sane.linked plain isDir List.mem_cons_self fun link inside same named => ?_, trivial⟩
    rcases List.mem_cons.mp inside with rfl | old
    · exact absurd isDir (same ▸ file)
    · exact .inr ⟨link, (mem_removed.mp old).1, same, named⟩
  | @rename source oldname target newname node sourceDir targetDir found moves =>
    have empty := removes rfl moves
    obtain ⟨links, types, -⟩ := renamed_fields fs node source oldname target newname
    refine ⟨fun _ _ other there _ => ⟨?_, fun old replaced oldDir link inside same named => ?_⟩, fun _ _ _ _ _ => empty⟩
    · refine sane.linked plain.2 (by rw [types, targetDir]) (by rw [links]; exact (mem_moved moves).mpr (.inl rfl))
        fun link inside same named => ?_
      rw [links] at inside
      rcases (mem_moved moves).mp inside with rfl | ⟨old, -, -⟩
      · exact .inr ⟨_, get_some found, same, plain.1⟩
      · exact .inr ⟨link, old, same, named⟩
    · exact absurd (empty old replaced oldDir link inside same) named
  | hold | release | inactive => exact ⟨trivial, trivial⟩

end Obeys

/-- After any run of calls with plain names that fit, every entry leads from a directory to a node that exists, and each
node has the references that it counts. -/
theorem node_references_counted {fs : Fs}
    (reached : Reaches Fs.step (fun fs call => call.Plain ∧ Fits fs call) mounted fs) :
    (∀ link ∈ fs.links, fs.type link.dir = some .dir ∧ fs.type link.node ≠ none) ∧
      ∀ node, fs.refcount node = fs.links.countP (uses node) + fs.held node := by
  have sound : fs.Sound := by
    refine reached.keeps Fs.Sound (fun fs call next sound fits moved => ?_) mounted_sound
    obtain ⟨answer, ran, rfl⟩ := map_ok.mp moved
    exact sound.follows ran fits.1 fits.2
  exact ⟨fun link inside => ⟨sound.shape.dirs link inside, sound.shape.nodes link inside⟩, sound.refs⟩

theorem mkdir_counted : ∃ fs, mounted.call (.create root ['a'] .dir 1) = .ok (fs, none) ∧
    fs.refcount 1 = fs.links.countP (uses 1) + fs.held 1 := by
  have plain : Call.Plain (.create root ['a'] .dir 1) := show ¬ Dotted ['a'] by decide
  exact ⟨_, rfl, (node_references_counted (Reaches.next .refl ⟨plain, fun _ _ => .inl rfl⟩ rfl)).2 1⟩

end Astral.Tmpfs
