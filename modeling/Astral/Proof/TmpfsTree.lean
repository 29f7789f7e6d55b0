import Astral.Proof.Tmpfs

namespace Astral.Tmpfs

open Function Library

variable {links : List Link} {fs : Fs} {type : NodeType} {call : Call} {old : Nat}

/-- The nodes that are found from the root by names. -/
inductive Reachable (links : List Link) : Nat → Prop where
  | root : Reachable links root
  | child {link : Link} (inside : link ∈ links) (named : ¬ Dotted link.name) (above : Reachable links link.dir) :
      Reachable links link.node

/-- The second node has a name in the first one. -/
def Child (links : List Link) (dir node : Nat) : Prop :=
  ∃ link ∈ links, ¬ Dotted link.name ∧ link.dir = dir ∧ link.node = node

/-- A name of a node. -/
def names (node : Nat) (link : Link) : Bool := link.node = node ∧ ¬ Dotted link.name

open Classical in
/-- How many names a node has in directories of the file system. -/
noncomputable def Fs.linkCount (fs : Fs) (node : Nat) : Nat :=
  fs.links.countP fun link => names node link ∧ Reachable fs.links link.dir

/-- The directories are a tree, and the links of all other nodes are counted. -/
structure Fs.Arranged (fs : Fs) : Prop where
  reached : ∀ link ∈ fs.links, ¬ Dotted link.name → fs.type link.node = some .dir → Reachable fs.links link.node
  single : ∀ one ∈ fs.links, ∀ two ∈ fs.links, ¬ Dotted one.name → ¬ Dotted two.name → one.node = two.node →
    fs.type one.node = some .dir → one = two
  parent : ∀ link ∈ fs.links, ¬ Dotted link.name → fs.type link.node = some .dir →
    ⟨link.node, dotdot, link.dir⟩ ∈ fs.links
  acyclic : ∀ dir, ¬ Relation.TransGen (Child fs.links) dir dir
  counted : ∀ node, fs.type node ≠ none → fs.type node ≠ some .dir → fs.nlinks node = fs.linkCount node

/-- All names are in directories that are reached, and the root has none. -/
structure Fs.Tree (fs : Fs) : Prop where
  sound : fs.Sound
  reached : ∀ link ∈ fs.links, ¬ Dotted link.name → Reachable fs.links link.dir
  rootless : ∀ link ∈ fs.links, ¬ Dotted link.name → link.node ≠ root
  single : ∀ one ∈ fs.links, ∀ two ∈ fs.links, ¬ Dotted one.name → ¬ Dotted two.name → one.node = two.node →
    fs.type one.node = some .dir → one = two
  parent : ∀ link ∈ fs.links, ¬ Dotted link.name → fs.type link.node = some .dir →
    ⟨link.node, dotdot, link.dir⟩ ∈ fs.links
  counted : ∀ node, fs.type node ≠ none → fs.type node ≠ some .dir → fs.nlinks node = fs.links.countP (names node)

/-- The call keeps the tree: a directory is renamed only within its own directory, and only empty directories are
replaced. A file that is replaced would keep its count, so no file is. -/
def FitsTree (fs : Fs) (call : Call) : Prop :=
  Fits fs call ∧
    match call with
    | .rename source oldname target newname => fs.type source = some .dir → fs.type target = some .dir →
        ∀ node, fs.get source oldname = some node → ¬ (source = target ∧ oldname = newname) →
          (fs.type node = some .dir → source = target) ∧ ∀ old, fs.get target newname = some old → fs.type old = some .dir
    | _ => True

section Trees

variable {node dir : Nat}

theorem Reachable.mono {more : List Link} (reach : Reachable links node)
    (subset : ∀ link ∈ links, ¬ Dotted link.name → link ∈ more) : Reachable more node := by
  induction reach with
  | root => exact .root
  | child inside named _ above => exact .child (subset _ inside named) named above

theorem Reachable.linked (reach : Reachable links node) : Linked links node := by
  cases reach with
  | root => exact .inl rfl
  | child inside named => exact .inr ⟨_, inside, rfl, named⟩

variable (tree : fs.Tree)
include tree

theorem Fs.Tree.reachable (linked : Linked fs.links node) : Reachable fs.links node := by
  rcases linked with rfl | ⟨link, inside, rfl, named⟩
  · exact .root
  · exact .child inside named (tree.reached link inside named)

theorem Fs.Tree.acyclic (dir : Nat) : ¬ Relation.TransGen (Child fs.links) dir dir := by
  intro cycle
  obtain ⟨_, ⟨link, inside, named, rfl, -⟩, -⟩ := Relation.TransGen.head'_iff.mp cycle
  have isDir := tree.sound.shape.dirs link inside
  have reach := tree.reached link inside named
  generalize link.dir = dir at *
  induction reach with
  | root =>
    obtain ⟨_, -, ⟨last, there, plain, -, same⟩⟩ := Relation.TransGen.tail'_iff.mp cycle
    exact tree.rootless last there plain same
  | @child above inside named reach continues =>
    obtain ⟨_, path, ⟨last, there, plain, rfl, same⟩⟩ := Relation.TransGen.tail'_iff.mp cycle
    have equal := tree.single last there above inside plain named same (same ▸ isDir)
    rw [equal] at path
    exact continues (Relation.TransGen.head' ⟨above, inside, named, rfl, rfl⟩ path) (tree.sound.shape.dirs above inside)

theorem Fs.Tree.linkCount (node : Nat) : fs.linkCount node = fs.links.countP (names node) := by
  apply List.countP_congr
  intro link inside
  simp only [decide_eq_true_eq, and_iff_left_iff_imp]
  intro named
  simp only [names, decide_eq_true_eq] at named
  exact tree.reached link inside named.2

theorem Fs.Tree.arranged : fs.Arranged where
  reached link inside named _ := .child inside named (tree.reached link inside named)
  single := tree.single
  parent := tree.parent
  acyclic := tree.acyclic
  counted node exist file := by rw [tree.linkCount, tree.counted node exist file]

end Trees

/-- A name in a directory that is not reached is a flaw. -/
theorem Fs.Arranged.no_stray (arranged : fs.Arranged) {link : Link} (inside : link ∈ fs.links)
    (named : ¬ Dotted link.name) (not_root : link.node ≠ root) (exist : fs.type link.node ≠ none)
    (counts : fs.type link.node ≠ some .dir → fs.links.countP (names link.node) ≤ fs.nlinks link.node) :
    Reachable fs.links link.dir := by
  by_contra lost
  by_cases isDir : fs.type link.node = some .dir
  · have reach := arranged.reached link inside named isDir
    generalize same : link.node = node at reach
    cases reach with
    | root => exact not_root same
    | @child last there plain above =>
      have equal := arranged.single link inside last there named plain same isDir
      exact lost (equal ▸ above)
  · have fewer : fs.linkCount link.node < fs.links.countP (names link.node) := by
      classical
      have split := List.countP_eq_countP_filter_add fs.links (names link.node)
        fun other => decide (Reachable fs.links other.dir)
      have outside : 0 < (fs.links.filter fun other => !decide (Reachable fs.links other.dir)).countP (names link.node) :=
        List.countP_pos_iff.mpr ⟨link, by simp [inside, lost], by simp [names, named]⟩
      have inner : (fs.links.filter fun other => decide (Reachable fs.links other.dir)).countP (names link.node) =
          fs.linkCount link.node := by
        rw [List.countP_filter, Fs.linkCount]
        apply List.countP_congr
        simp
      omega
    have counted := arranged.counted link.node exist isDir
    have enough := counts isDir
    omega

section Steps

variable {fs next : Fs} {dir node : Nat} {name : Name} {reply : Option Errno} (tree : fs.Tree)
include tree

theorem Fs.Tree.name_counts (same : ∀ link, ¬ Dotted link.name → (link ∈ links ↔ link ∈ fs.links)) (nodup : links.Nodup)
    (node : Nat) : links.countP (names node) = fs.links.countP (names node) := by
  rw [List.countP_eq_length_filter, List.countP_eq_length_filter]
  refine ((List.perm_ext_iff_of_nodup (nodup.filter _) (tree.sound.shape.nodup.filter _)).mpr fun link => ?_).length_eq
  simp only [List.mem_filter, names, decide_eq_true_eq]
  constructor
  · rintro ⟨inside, isNode, named⟩
    exact ⟨(same link named).mp inside, isNode, named⟩
  · rintro ⟨inside, isNode, named⟩
    exact ⟨(same link named).mpr inside, isNode, named⟩

/-- The names stay the same. -/
theorem Fs.Tree.same_names (sound : next.Sound) (same : ∀ link, ¬ Dotted link.name → (link ∈ next.links ↔ link ∈ fs.links))
    (ups : ∀ link ∈ fs.links, next.type link.dir ≠ none → link.name = dotdot → link ∈ next.links)
    (types : ∀ node, next.type node ≠ none → next.type node = fs.type node) (nlinks : next.nlinks = fs.nlinks) :
    next.Tree where
  sound := sound
  reached link inside named :=
    (tree.reached link ((same link named).mp inside) named).mono fun other there plain => (same other plain).mpr there
  rootless link inside named := tree.rootless link ((same link named).mp inside) named
  single one first two second plain named equal isDir := by
    rw [types one.node (by rw [isDir]; simp)] at isDir
    exact tree.single one ((same one plain).mp first) two ((same two named).mp second) plain named equal isDir
  parent link inside named isDir := by
    have exist : next.type link.node ≠ none := by rw [isDir]; simp
    rw [types link.node exist] at isDir
    exact ups _ (tree.parent link ((same link named).mp inside) named isDir) exist rfl
  counted node exist file := by
    rw [types node exist] at file exist
    rw [nlinks, tree.name_counts same sound.shape.nodup]
    exact tree.counted node exist file

/-- A call that changes the names of one node. -/
theorem Fs.Tree.change {new : Link} (sound : next.Sound)
    (reached : ∀ link ∈ next.links, ¬ Dotted link.name → Reachable next.links link.dir)
    (known : ∀ link ∈ next.links, ¬ Dotted link.name → link = new ∨ link ∈ fs.links) (not_root : new.node ≠ root)
    (unique : next.type new.node = some .dir → ∀ link ∈ next.links, ¬ Dotted link.name → link.node = new.node → link = new)
    (up : next.type new.node = some .dir → ⟨new.node, dotdot, new.dir⟩ ∈ next.links)
    (ups : ∀ link ∈ fs.links, link.name = dotdot → link ∈ next.links)
    (types : ∀ node, next.type node = some .dir → node ≠ new.node → fs.type node = some .dir)
    (counted : ∀ node, next.type node ≠ none → next.type node ≠ some .dir →
      next.nlinks node = next.links.countP (names node)) : next.Tree := by
  have old {link : Link} (inside : link ∈ next.links) (named : ¬ Dotted link.name) (other : link.node ≠ new.node) :
      link ∈ fs.links := (known link inside named).resolve_left fun same => other (by rw [same])
  refine ⟨sound, reached, ?_, ?_, ?_, counted⟩
  · intro link inside named
    rcases known link inside named with rfl | before
    · exact not_root
    · exact tree.rootless link before named
  · intro one first two second one_named two_named same isDir
    by_cases mine : one.node = new.node
    · rw [mine] at isDir
      rw [unique isDir one first one_named mine, unique isDir two second two_named (same.symm.trans mine)]
    · exact tree.single one (old first one_named mine) two (old second two_named (same ▸ mine)) one_named two_named same
        (types one.node isDir mine)
  · intro link inside named isDir
    by_cases mine : link.node = new.node
    · rw [mine] at isDir
      rw [unique isDir link inside named mine]
      exact up isDir
    · exact ups _ (tree.parent link (old inside named mine) named (types link.node isDir mine)) rfl

omit tree in
theorem names_plain (plain : ¬ Dotted name) (other : Nat) : names other ⟨dir, name, node⟩ = decide (node = other) := by
  simp [names, plain]

theorem Fs.Tree.created_counts (isDir : fs.type dir = some .dir) (fresh : fs.type node = none)
    (free : fs.get dir name = none) (plain : ¬ Dotted name) {other : Nat}
    (exist : (fs.created dir node name type).type other ≠ none)
    (file : (fs.created dir node name type).type other ≠ some .dir) :
    (fs.created dir node name type).nlinks other = (fs.created dir node name type).links.countP (names other) := by
  have fields : (fs.created dir node name type).type = update fs.type node (some type) ∧
      (fs.created dir node name type).nlinks = update fs.nlinks node 1 := by
    unfold Fs.created
    split <;> exact ⟨rfl, rfl⟩
  have own : (ownLinks node type dir).countP (names other) = 0 :=
    List.countP_eq_zero.mpr fun link inside => by simp [names, ownLinks_dotted inside]
  rw [created_links isDir fresh free, fields.2, List.countP_cons, List.countP_append, own, names_plain plain]
  by_cases same : other = node
  · subst same
    have unnamed : fs.links.countP (names other) = 0 :=
      List.countP_eq_zero.mpr fun link inside => by simp [names, (tree.sound.shape.fresh fresh inside).2]
    simp [unnamed]
  · rw [fields.1, update_of_ne same] at exist file
    simp [Ne.symm same, update_of_ne same, tree.counted other exist file]

theorem Fs.Tree.create (sound : (fs.created dir node name type).Sound) (isDir : fs.type dir = some .dir)
    (fresh : fs.type node = none) (free : fs.get dir name = none) (plain : ¬ Dotted name) (linked : Linked fs.links dir) :
    (fs.created dir node name type).Tree := by
  have links := @created_links _ _ _ _ type isDir fresh free
  have mem {link : Link} := @mem_created _ _ _ _ type isDir fresh free link
  have types : (fs.created dir node name type).type = update fs.type node (some type) := by
    unfold Fs.created
    split <;> rfl
  have old_node {link : Link} (old : link ∈ fs.links) := (tree.sound.shape.fresh fresh old).2
  have more : ∀ link ∈ fs.links, ¬ Dotted link.name → link ∈ (fs.created dir node name type).links :=
    fun link old named => (mem named).mpr (.inr old)
  refine tree.change sound ?_ (fun link inside named => (mem named).mp inside) ?_ ?_ ?_ ?_ ?_ ?_
  · intro link inside named
    rcases (mem named).mp inside with rfl | old
    · exact (tree.reachable linked).mono more
    · exact (tree.reached link old named).mono more
  · rintro rfl
    rw [tree.sound.mounted.1] at fresh
    cases fresh
  · intro _ link inside named same
    exact ((mem named).mp inside).resolve_right fun old => old_node old same
  · intro nodeDir
    rw [types, update_self, Option.some.injEq] at nodeDir
    rw [links, ownLinks, if_pos nodeDir]
    simp
  · intro link inside _
    rw [links]
    exact List.mem_cons_of_mem _ (List.mem_append_right _ inside)
  · intro other otherDir different
    rwa [types, update_of_ne different] at otherDir
  · exact fun other exist file => tree.created_counts isDir fresh free plain exist file

omit tree in
theorem relink_nlinks (fs : Fs) (node other : Nat) (change : Int) :
    (fs.relink node change).nlinks other = fs.nlinks other + if node = other then change else 0 := by
  by_cases same : node = other
  · simp [Fs.relink, same]
  · simp [Fs.relink, same, Ne.symm same]

theorem Fs.Tree.link (sound : (((fs.set dir name node).count node 1).relink node 1).Sound)
    (file : fs.type node ≠ some .dir) (free : fs.get dir name = none) (plain : ¬ Dotted name)
    (linked : Linked fs.links dir) : (((fs.set dir name node).count node 1).relink node 1).Tree := by
  have links : (((fs.set dir name node).count node 1).relink node 1).links = ⟨dir, name, node⟩ :: fs.links :=
    congrArg _ (removed_absent (get_none free))
  have more : ∀ link ∈ fs.links, ¬ Dotted link.name →
      link ∈ (((fs.set dir name node).count node 1).relink node 1).links := by
    rw [links]
    exact fun link old _ => List.mem_cons_of_mem _ old
  refine @Fs.Tree.change _ _ tree ⟨dir, name, node⟩ sound ?_ (fun link inside _ => List.mem_cons.mp (links ▸ inside)) ?_
    (fun nodeDir => absurd nodeDir file) (fun nodeDir => absurd nodeDir file) ?_ (fun other otherDir _ => otherDir) ?_
  · intro link inside named
    rcases List.mem_cons.mp (links ▸ inside) with rfl | old
    · exact (tree.reachable linked).mono more
    · exact (tree.reached link old named).mono more
  · rintro rfl
    exact file tree.sound.mounted.1
  · intro link inside _
    rw [links]
    exact List.mem_cons_of_mem _ inside
  · intro other exist notDir
    rw [links, relink_nlinks, List.countP_cons, names_plain plain]
    show fs.nlinks other + _ = _
    rw [tree.counted other exist notDir]
    by_cases same : node = other <;> simp [same]

theorem Fs.Tree.unlink (sound : (((fs.remove dir name).relink node (-1)).count node (-1)).Sound)
    (found : fs.get dir name = some node) (plain : ¬ Dotted name) (empty : fs.type node = some .dir → fs.Empty node) :
    (((fs.remove dir name).relink node (-1)).count node (-1)).Tree := by
  have inside := get_some found
  have no_entries : ∀ link ∈ fs.links, ¬ Dotted link.name → link.dir ≠ node := by
    intro link there named same
    exact named (empty (same ▸ tree.sound.shape.dirs link there) link there same)
  have reach {other : Nat} (before : Reachable fs.links other) :
      other = node ∨ Reachable (removed fs.links dir name) other := by
    induction before with
    | root => exact .inr .root
    | @child link there named _ above =>
      have above := above.resolve_left (no_entries link there named)
      by_cases same : link.dir = dir ∧ link.name = name
      · left
        rw [tree.sound.shape.keys link there _ inside same.1 same.2]
      · exact .inr (.child (mem_removed.mpr ⟨there, same⟩) named above)
  refine @Fs.Tree.change _ _ tree ⟨dir, name, node⟩ sound ?_ (fun link there _ => .inr (mem_removed.mp there).1)
    (tree.rootless _ inside plain) ?_ ?_ ?_ (fun other otherDir _ => otherDir) ?_
  · intro link there named
    have old := (mem_removed.mp there).1
    exact (reach (tree.reached link old named)).resolve_left (no_entries link old named)
  · intro nodeDir link there named same
    exact tree.single link (mem_removed.mp there).1 _ inside named plain same (same ▸ nodeDir)
  · intro nodeDir
    refine mem_removed.mpr ⟨tree.parent _ inside plain nodeDir, fun same => plain (.inr same.2.symm)⟩
  · exact fun link there isUp => mem_removed.mpr ⟨there, fun same => plain (.inr (same.2.symm.trans isUp))⟩
  · intro other exist notDir
    have counted := tree.sound.shape.countP_removed inside (names other)
    rw [names_plain plain] at counted
    show ((fs.remove dir name).relink node (-1)).nlinks other = ((removed fs.links dir name).countP (names other) : Int)
    rw [relink_nlinks]
    show fs.nlinks other + _ = _
    rw [tree.counted other exist notDir]
    by_cases same : node = other <;> simp [same] at counted ⊢ <;> omega

section Rename

variable {source target : Nat} {oldname newname : Name} (plain : ¬ Dotted oldname ∧ ¬ Dotted newname)
  (isDir : fs.type target = some .dir) (found : fs.get source oldname = some node)
  (moves : ¬ (source = target ∧ oldname = newname))
include plain found moves

theorem Fs.Tree.moved_le (isDir : fs.type target = some .dir) (other : Nat) :
    ((fs.set target newname node).remove source oldname).links.countP (names other) ≤ fs.links.countP (names other) := by
  rw [tree.sound.moved_count plain isDir found moves ((names_plain plain.2 other).trans (names_plain plain.1 other).symm)]
  exact (List.filter_sublist ..).countP_le

theorem Fs.Tree.rename (sound : (fs.renamed node source oldname target newname).Sound)
    (isDir : fs.type target = some .dir) (linked : Linked fs.links target)
    (alone : ∀ old, fs.get target newname = some old → fs.type old = some .dir →
      ∀ link ∈ fs.links, link.dir = old → ¬ Dotted link.name → link = ⟨source, oldname, node⟩)
    (stays : fs.type node = some .dir → source = target)
    (replaced : ∀ old, fs.get target newname = some old → fs.type old = some .dir) :
    (fs.renamed node source oldname target newname).Tree := by
  obtain ⟨links, types, nlinks⟩ := renamed_fields fs node source oldname target newname
  generalize fs.renamed node source oldname target newname = next at *
  have inside := get_some found
  have mem {link : Link} : link ∈ next.links ↔
      link = ⟨target, newname, node⟩ ∨ link ∈ fs.links ∧ ¬ (link.dir = target ∧ link.name = newname) ∧
        ¬ (link.dir = source ∧ link.name = oldname) := by
    rw [links]
    exact mem_moved moves
  have dotted_kept {link : Link} (there : link ∈ fs.links) (dotted : Dotted link.name) :
      link ∈ next.links :=
    mem.mpr (.inr ⟨there, fun same => plain.2 (same.2 ▸ dotted), fun same => plain.1 (same.2 ▸ dotted)⟩)
  -- the replaced directory holds at most the entry that moves, so it is not the target
  have not_replaced {other : Nat} (otherDir : fs.type other = some .dir) {link : Link} (there : link ∈ fs.links)
      (named : ¬ Dotted link.name) (same : link.dir = other) (kept : ¬ (link.dir = source ∧ link.name = oldname)) :
      fs.get target newname ≠ some other := by
    intro is_old
    have equal := alone other is_old otherDir link there same named
    exact kept ⟨by rw [equal], by rw [equal]⟩
  have target_stays : fs.get target newname ≠ some target := by
    intro self
    exact not_replaced isDir (get_some self) plain.2 rfl (fun same => moves ⟨same.1.symm, same.2.symm⟩) self
  have reach {other : Nat} (before : Reachable fs.links other) :
      fs.get target newname = some other ∨ (other = node ∧ fs.type node ≠ some .dir) ∨ Reachable next.links other := by
    induction before with
    | root => exact .inr (.inr .root)
    | @child link there named _ above =>
      have linkDir := tree.sound.shape.dirs link there
      by_cases is_new : link.dir = target ∧ link.name = newname
      · left
        rw [← is_new.1, ← is_new.2]
        exact tree.sound.shape.get_of_mem there
      · right
        by_cases is_old : link.dir = source ∧ link.name = oldname
        · have equal := tree.sound.shape.keys link there _ inside is_old.1 is_old.2
          subst equal
          by_cases nodeDir : fs.type node = some .dir
          · have same := stays nodeDir
            have above : Reachable next.links target := by
              rcases above with replaced | ⟨self, file⟩ | above
              · exact absurd (same ▸ replaced) target_stays
              · exact absurd nodeDir file
              · exact same ▸ above
            exact .inr (@Reachable.child _ ⟨target, newname, node⟩ (mem.mpr (.inl rfl)) plain.2 above)
          · exact .inl ⟨rfl, nodeDir⟩
        · rcases above with replaced | ⟨self, file⟩ | above
          · exact absurd replaced (not_replaced linkDir there named rfl is_old)
          · exact absurd (self ▸ linkDir) file
          · exact .inr (.child (mem.mpr (.inr ⟨there, is_new, is_old⟩)) named above)
  have reach_dir {other : Nat} (otherDir : fs.type other = some .dir) (before : Reachable fs.links other)
      (kept : fs.get target newname ≠ some other) : Reachable next.links other := by
    rcases reach before with gone | ⟨self, file⟩ | after
    · exact absurd gone kept
    · exact absurd (self ▸ otherDir) file
    · exact after
  have not_root : node ≠ root := tree.rootless _ inside plain.1
  refine @Fs.Tree.change _ _ tree ⟨target, newname, node⟩ sound ?_ ?_ not_root ?_ ?_ ?_ ?_ ?_
  · intro link there named
    rcases mem.mp there with rfl | ⟨old, -, kept⟩
    · exact reach_dir isDir (tree.reachable linked) target_stays
    · have linkDir := tree.sound.shape.dirs link old
      exact reach_dir linkDir (tree.reached link old named) (not_replaced linkDir old named rfl kept)
  · intro link there _
    exact (mem.mp there).imp_right And.left
  · intro nodeDir link there named same
    rw [types] at nodeDir
    rcases mem.mp there with rfl | ⟨old, -, kept⟩
    · rfl
    · have equal := tree.single link old _ inside named plain.1 same (same ▸ nodeDir)
      exact absurd ⟨congrArg Link.dir equal, congrArg Link.name equal⟩ kept
  · intro nodeDir
    rw [types] at nodeDir
    have same := stays nodeDir
    have up : ⟨node, dotdot, source⟩ ∈ next.links := dotted_kept (tree.parent _ inside plain.1 nodeDir) (.inr rfl)
    rwa [show (⟨target, newname, node⟩ : Link).dir = source from same.symm]
  · exact fun link there isUp => dotted_kept there (.inr isUp)
  · intro other otherDir _
    rwa [types] at otherDir
  · intro other exist notDir
    rw [types] at exist notDir
    rw [nlinks, links, tree.sound.moved_count plain isDir found moves
      ((names_plain plain.2 other).trans (names_plain plain.1 other).symm), tree.counted other exist notDir]
    cases there : fs.get target newname with
    | none => rw [removed_absent (get_none there)]
    | some old =>
      have counted := tree.sound.shape.countP_removed (get_some there) (names other)
      have different : old ≠ other := by
        rintro rfl
        exact notDir (replaced old there)
      rw [names_plain plain.2] at counted
      simp [different] at counted
      rw [counted]

end Rename

theorem Fs.Tree.inactive (exist : fs.type node ≠ none) (last : fs.refcount node = 0)
    (freed : fs.freenode node = .ok (next, reply)) : next.Tree := by
  have sound := (tree.sound.freenode last).of_ok freed
  have lost := tree.sound.not_linked last
  have fields : next.links = (fs.discard node).links ∧ next.type = (fs.discard node).type ∧ next.nlinks = fs.nlinks := by
    unfold Fs.freenode at freed
    repeat' split at freed
    all_goals cases freed
    all_goals exact ⟨rfl, rfl, rfl⟩
  obtain ⟨links, types, nlinks⟩ := fields
  have mem {link : Link} : link ∈ next.links ↔ link ∈ fs.links ∧ link.dir ≠ node := by
    rw [links, Fs.discard, List.mem_filter]
    simp
  have other_types {other : Nat} (alive : next.type other ≠ none) : other ≠ node ∧ next.type other = fs.type other := by
    rw [types] at alive ⊢
    by_cases same : other = node
    · exact absurd (same ▸ update_self ..) alive
    · exact ⟨same, update_of_ne same ..⟩
  refine tree.same_names sound (fun link named => ?_) (fun link inside alive _ => ?_) (fun other alive => ?_) nlinks
  · rw [mem, and_iff_left_iff_imp]
    rintro inside rfl
    exact lost (tree.sound.placed link inside named)
  · exact mem.mpr ⟨inside, (other_types alive).1⟩
  · exact (other_types alive).2

theorem Fs.Tree.effect (effect : Effect fs call next reply) (plain : call.Plain) (fits : FitsTree fs call) :
    next.Tree := by
  have sound := tree.sound.effect effect plain fits.1
  have same {later : Fs} (sound : later.Sound) (links : later.links = fs.links) (types : later.type = fs.type)
      (nlinks : later.nlinks = fs.nlinks) : later.Tree :=
    tree.same_names sound (fun _ _ => by rw [links]) (fun _ inside _ _ => by rwa [links]) (fun _ _ => by rw [types]) nlinks
  cases effect with
  | create isDir free fresh => exact tree.create sound isDir fresh free plain (fits.1 isDir free)
  | symlink isDir free fresh => exact tree.create sound isDir fresh free plain (fits.1 isDir free)
  | unlink isDir found seems =>
    exact tree.unlink sound found plain fun nodeDir => fits.1 isDir _ found nodeDir (seems nodeDir)
  | link exist isDir file free => exact tree.link sound file free plain (fits.1 isDir file free)
  | rename sourceDir targetDir found moves =>
    obtain ⟨linked, alone⟩ := fits.1 sourceDir targetDir _ found moves
    obtain ⟨stays, replaced⟩ := fits.2 sourceDir targetDir _ found moves
    exact tree.rename plain found moves sound targetDir linked alone stays replaced
  | hold | release => exact same sound rfl rfl rfl
  | inactive exist last freed => exact tree.inactive exist last freed

omit tree in
/-- A name was made in a directory that is reached, and so has a name itself. -/
theorem Fs.Arranged.made (arranged : next.Arranged) {link : Link} (inside : link ∈ next.links)
    (named : ¬ Dotted link.name) (not_root : link.node ≠ root) (exist : next.type link.node ≠ none)
    (counts : next.type link.node ≠ some .dir → next.links.countP (names link.node) ≤ next.nlinks link.node)
    (others : ∀ other ∈ next.links, other.node = link.dir → ¬ Dotted other.name → Linked fs.links link.dir) :
    Linked fs.links link.dir := by
  rcases (arranged.no_stray inside named not_root exist counts).linked with isRoot | ⟨other, there, same, plain⟩
  · exact .inl isRoot
  · exact others other there same plain

theorem Fs.Tree.create_linked (arranged : (fs.created dir node name type).Arranged) (isDir : fs.type dir = some .dir)
    (fresh : fs.type node = none) (free : fs.get dir name = none) (plain : ¬ Dotted name) : Linked fs.links dir := by
  have exist : (fs.created dir node name type).type node ≠ none := by
    unfold Fs.created
    split <;> simp [Fs.count, Fs.set, Fs.newnode]
  refine arranged.made ((mem_created isDir fresh free plain).mpr (.inl rfl)) plain ?_ exist
    (fun file => (tree.created_counts isDir fresh free plain exist file).ge) fun link inside same named => ?_
  · rintro rfl
    rw [tree.sound.mounted.1] at fresh
    cases fresh
  · rcases (mem_created isDir fresh free named).mp inside with rfl | old
    · exact absurd same.symm (fresh_other isDir fresh)
    · exact .inr ⟨link, old, same, named⟩

theorem Fs.Tree.link_linked (arranged : (((fs.set dir name node).count node 1).relink node 1).Arranged)
    (exist : fs.refcount node ≠ 0) (isDir : fs.type dir = some .dir) (file : fs.type node ≠ some .dir)
    (free : fs.get dir name = none) (plain : ¬ Dotted name) : Linked fs.links dir := by
  have alive := tree.sound.alive exist
  have not_root : node ≠ root := by
    rintro rfl
    exact file tree.sound.mounted.1
  refine arranged.made List.mem_cons_self plain not_root alive (fun _ => ?_) fun link inside same named => ?_
  · show ((⟨dir, name, node⟩ :: removed fs.links dir name).countP (names node) : Int) ≤ _
    rw [removed_absent (get_none free), List.countP_cons, names_plain plain, relink_nlinks]
    show _ ≤ fs.nlinks node + _
    rw [tree.counted node alive file]
    simp
  · rcases List.mem_cons.mp inside with rfl | old
    · have same : node = dir := same
      exact absurd isDir (same ▸ file)
    · exact .inr ⟨link, (mem_removed.mp old).1, same, named⟩

/-- A directory that lost its name has no entries. -/
theorem Fs.Tree.unlink_empty (arranged : (((fs.remove dir name).relink node (-1)).count node (-1)).Arranged)
    (found : fs.get dir name = some node) (nodeDir : fs.type node = some .dir) (plain : ¬ Dotted name) :
    fs.Empty node := by
  intro link inside same
  by_contra named
  have only := get_some found
  have kept : link ∈ removed fs.links dir name := by
    refine mem_removed.mpr ⟨inside, fun equal => ?_⟩
    have equal := tree.sound.shape.keys link inside _ only equal.1 equal.2
    subst equal
    exact tree.acyclic node (.single ⟨_, inside, named, same, rfl⟩)
  refine absurd (arranged.no_stray kept named (tree.rootless link inside named) (tree.sound.shape.nodes link inside)
    fun file => ?_) ?_
  · have fewer : (removed fs.links dir name).countP (names link.node) ≤ fs.links.countP (names link.node) :=
      (List.filter_sublist ..).countP_le
    have different : node ≠ link.node := fun equal => file (equal ▸ nodeDir)
    show ((removed fs.links dir name).countP (names link.node) : Int) ≤ ((fs.remove dir name).relink node (-1)).nlinks _
    rw [relink_nlinks, if_neg different]
    show _ ≤ fs.nlinks link.node + 0
    rw [tree.counted link.node (tree.sound.shape.nodes link inside) file]
    omega
  · intro reach
    rw [same] at reach
    rcases reach.linked with isRoot | ⟨other, there, is_node, other_named⟩
    · exact tree.rootless _ only plain isRoot
    · have equal := tree.single other (mem_removed.mp there).1 _ only other_named plain is_node (is_node ▸ nodeDir)
      exact (mem_removed.mp there).2 ⟨by rw [equal], by rw [equal]⟩

section Rename

variable {source target : Nat} {oldname newname : Name} (plain : ¬ Dotted oldname ∧ ¬ Dotted newname)
  (targetDir : fs.type target = some .dir) (found : fs.get source oldname = some node)
  (moves : ¬ (source = target ∧ oldname = newname))
  (arranged : (fs.renamed node source oldname target newname).Arranged)
include plain targetDir found moves arranged

/-- A name that is left in a directory of the renamed tree is reached. -/
theorem Fs.Tree.renamed_stray {link : Link} (named : ¬ Dotted link.name)
    (inside : link ∈ ((fs.set target newname node).remove source oldname).links) :
    Reachable ((fs.set target newname node).remove source oldname).links link.dir := by
  obtain ⟨links, types, nlinks⟩ := renamed_fields fs node source oldname target newname
  have old : ∃ before ∈ fs.links, before.node = link.node ∧ ¬ Dotted before.name := by
    rcases (mem_moved moves).mp inside with rfl | ⟨before, -⟩
    · exact ⟨_, get_some found, rfl, plain.1⟩
    · exact ⟨link, before, rfl, named⟩
  obtain ⟨before, there, same, before_named⟩ := old
  have exist : fs.type link.node ≠ none := same ▸ tree.sound.shape.nodes before there
  rw [← links] at inside ⊢
  refine arranged.no_stray inside named (same ▸ tree.rootless before there before_named) (by rwa [types]) fun file => ?_
  rw [types] at file
  rw [links, nlinks, tree.counted _ exist file]
  exact Int.ofNat_le.mpr (tree.moved_le plain found moves targetDir _)

theorem Fs.Tree.rename_linked : Linked fs.links target := by
  have new : ⟨target, newname, node⟩ ∈ ((fs.set target newname node).remove source oldname).links :=
    (mem_moved moves).mpr (.inl rfl)
  rcases (tree.renamed_stray plain targetDir found moves arranged plain.2 new).linked with isRoot |
    ⟨other, there, same, named⟩
  · exact .inl isRoot
  · rcases (mem_moved moves).mp there with rfl | ⟨old, -⟩
    · exact .inr ⟨_, get_some found, same, plain.1⟩
    · exact .inr ⟨other, old, same, named⟩

theorem Fs.Tree.rename_alone (replaced : fs.get target newname = some old) (oldDir : fs.type old = some .dir)
    {link : Link} (inside : link ∈ fs.links) (same : link.dir = old) (named : ¬ Dotted link.name) :
    link = ⟨source, oldname, node⟩ := by
  by_contra other
  have only := get_some replaced
  have not_new : ¬ (link.dir = target ∧ link.name = newname) := by
    intro equal
    have equal := tree.sound.shape.keys link inside _ only equal.1 equal.2
    subst equal
    exact tree.acyclic old (.single ⟨_, inside, named, same, rfl⟩)
  have not_old : ¬ (link.dir = source ∧ link.name = oldname) := fun equal =>
    other (tree.sound.shape.keys link inside _ (get_some found) equal.1 equal.2)
  have reach := tree.renamed_stray plain targetDir found moves arranged named
    ((mem_moved moves).mpr (.inr ⟨inside, not_new, not_old⟩))
  rw [same] at reach
  rcases reach.linked with isRoot | ⟨last, there, is_old, last_named⟩
  · exact tree.rootless _ only plain.2 isRoot
  · rcases (mem_moved moves).mp there with rfl | ⟨before, kept, -⟩
    · have equal := tree.single _ (get_some found) _ only plain.1 plain.2 is_old (by rw [← oldDir, ← is_old])
      exact moves ⟨congrArg Link.dir equal, congrArg Link.name equal⟩
    · have equal := tree.single last before _ only last_named plain.2 is_old (by rw [← oldDir, ← is_old])
      exact kept ⟨congrArg Link.dir equal, congrArg Link.name equal⟩

omit targetDir in
theorem Fs.Tree.rename_stays (nodeDir : fs.type node = some .dir) : source = target := by
  obtain ⟨links, types, -⟩ := renamed_fields fs node source oldname target newname
  have new : ⟨target, newname, node⟩ ∈ (fs.renamed node source oldname target newname).links := by
    rw [links]
    exact (mem_moved moves).mpr (.inl rfl)
  have up := arranged.parent _ new plain.2 (by rwa [types])
  rw [links] at up
  rcases (mem_moved moves).mp up with wrong | ⟨up, -⟩
  · exact absurd (.inr (congrArg Link.name wrong).symm) plain.2
  · have equal := tree.sound.shape.keys _ (tree.parent _ (get_some found) plain.1 nodeDir) _ up rfl rfl
    exact congrArg Link.node equal

theorem Fs.Tree.rename_replaces (replaced : fs.get target newname = some old) : fs.type old = some .dir := by
  obtain ⟨links, types, nlinks⟩ := renamed_fields fs node source oldname target newname
  by_contra file
  have only := get_some replaced
  have exist := tree.sound.shape.nodes _ only
  have counted := arranged.counted old (by rwa [types]) (by rwa [types])
  have visible : (fs.renamed node source oldname target newname).linkCount old ≤
      (fs.renamed node source oldname target newname).links.countP (names old) := by
    apply List.countP_mono_left
    intro link _ both
    exact (by simpa using both : _ ∧ _).1
  have removed_one : (removed fs.links target newname).countP (names old) + (if names old ⟨target, newname, old⟩ then 1
      else 0) = fs.links.countP (names old) := tree.sound.shape.countP_removed only (names old)
  rw [links, tree.sound.moved_count plain targetDir found moves
    ((names_plain plain.2 old).trans (names_plain plain.1 old).symm)] at visible
  rw [nlinks, tree.counted old exist file] at counted
  simp [names_plain plain.2] at removed_one
  omega

end Rename

/-- A call that keeps the arrangement fits. -/
theorem Fs.Tree.fits (effect : Effect fs call next reply) (plain : call.Plain) (arranged : next.Arranged) :
    FitsTree fs call := by
  cases effect with
  | create isDir free fresh => exact ⟨fun _ _ => tree.create_linked arranged isDir fresh free plain, trivial⟩
  | symlink isDir free fresh => exact ⟨fun _ _ => tree.create_linked arranged isDir fresh free plain, trivial⟩
  | unlink isDir found seems =>
    refine ⟨fun _ other same nodeDir _ => ?_, trivial⟩
    cases found.symm.trans same
    exact tree.unlink_empty arranged found nodeDir plain
  | link exist isDir file free => exact ⟨fun _ _ _ => tree.link_linked arranged exist isDir file free plain, trivial⟩
  | rename sourceDir targetDir found moves =>
    refine ⟨fun _ _ other same _ => ?_, fun _ _ other same _ => ?_⟩
    all_goals cases found.symm.trans same
    · exact ⟨tree.rename_linked plain targetDir found moves arranged, fun old replaced oldDir link inside equal named =>
        tree.rename_alone plain targetDir found moves arranged replaced oldDir inside equal named⟩
    · exact ⟨tree.rename_stays plain found moves arranged, fun old replaced =>
        tree.rename_replaces plain targetDir found moves arranged replaced⟩
  | hold | release | inactive => exact ⟨trivial, trivial⟩

end Steps

theorem Refused.fits_tree {reply : Option Errno} (refused : Refused fs reply call) : FitsTree fs call := by
  refine ⟨refused.fits.1, ?_⟩
  cases call with
  | rename => exact fun sourceDir targetDir node found moves => absurd (refused.2 sourceDir targetDir node found) moves
  | _ => trivial

theorem mounted_tree : mounted.Tree := by
  have none_named : ∀ link ∈ mounted.links, Dotted link.name := by
    intro link inside
    rw [List.mem_singleton.mp inside]
    exact .inl rfl
  refine ⟨mounted_sound, ?_, ?_, ?_, ?_, fun node exist file => ?_⟩
  · exact fun link inside named => absurd (none_named link inside) named
  · exact fun link inside named => absurd (none_named link inside) named
  · exact fun one first two second named => absurd (none_named one first) named
  · exact fun link inside named => absurd (none_named link inside) named
  · by_cases same : node = root
    · subst same
      exact absurd rfl file
    · exact absurd (update_of_ne same ..) exist

/-- After any run of calls with plain names that kept the tree, the next call leaves a tree with counted links exactly
when it is such a call. -/
theorem call_arranged_iff {fs next : Fs} {call : Call} {reply : Option Errno}
    (reached : Reaches Fs.step (fun fs call => call.Plain ∧ FitsTree fs call) mounted fs) (plain : call.Plain)
    (ran : fs.call call = .ok (next, reply)) : next.Arranged ↔ FitsTree fs call := by
  have tree : fs.Tree := by
    refine reached.keeps Fs.Tree (fun fs call next tree fits moved => ?_) mounted_tree
    obtain ⟨answer, ran, rfl⟩ := map_ok.mp moved
    rcases call_ok ran with ⟨same, -⟩ | effect
    · rw [same]
      exact tree
    · exact tree.effect effect fits.1 fits.2
  rcases call_ok ran with ⟨rfl, refused⟩ | effect
  · exact ⟨fun _ => refused.fits_tree, fun _ => tree.arranged⟩
  · exact ⟨tree.fits effect plain, fun fits => (tree.effect effect plain fits).arranged⟩

/-- A directory is renamed to the name of another one in the same directory. -/
theorem rename_arranged : ∃ fs next, [.create root ['a'] .dir 1, .create root ['b'] .dir 2].foldlM Fs.step mounted =
    .ok fs ∧ fs.call (.rename root ['a'] root ['b']) = .ok (next, none) ∧ next.Arranged := by
  have made (fs : Fs) (name : Char) (node : Nat) (single : ¬ Dotted [name]) :
      Call.Plain (.create root [name] .dir node) ∧ FitsTree fs (.create root [name] .dir node) :=
    ⟨single, fun _ _ => .inl rfl, trivial⟩
  have start : Reaches Fs.step (fun fs call => call.Plain ∧ FitsTree fs call) mounted mounted := .refl
  have one := start.next (made mounted 'a' 1 (by decide)) rfl
  have two := one.next (made _ 'b' 2 (by decide)) rfl
  have plain : Call.Plain (.rename root ['a'] root ['b']) := ⟨by decide, by decide⟩
  refine ⟨_, _, rfl, rfl, (call_arranged_iff two plain rfl).mpr ⟨?_, ?_⟩⟩
  · intro _ _ node found _
    refine ⟨.inl rfl, fun old replaced _ link inside same named => ?_⟩
    cases found
    cases replaced
    revert link
    decide
  · exact fun _ _ _ _ _ => ⟨fun _ => rfl, fun _ replaced => by cases replaced; rfl⟩

/-- A directory that is moved keeps its old parent, a directory can be moved below itself, and a file that loses a name to
another one keeps its count. -/
theorem renames_disarrange : (∃ fs, [.create root ['a'] .dir 1, .create root ['b'] .dir 2, .create 1 ['c'] .dir 3,
        .rename 1 ['c'] 2 ['c']].foldlM Fs.step mounted = .ok fs ∧ fs.get 2 ['c'] = some 3 ∧ fs.get 3 dotdot = some 1) ∧
    (∃ fs, [.create root ['a'] .dir 1, .create 1 ['b'] .dir 2, .rename root ['a'] 2 ['c']].foldlM Fs.step mounted =
      .ok fs ∧ fs.get 1 ['b'] = some 2 ∧ fs.get 2 ['c'] = some 1 ∧ fs.get root ['a'] = none) ∧
    ∃ fs, [.create root ['a'] .regular 1, .create root ['b'] .regular 2, .link 2 root ['c'],
        .rename root ['a'] root ['b']].foldlM Fs.step mounted = .ok fs ∧
      fs.nlinks 2 = 2 ∧ fs.links.countP (names 2) = 1 :=
  ⟨⟨_, rfl, rfl, rfl⟩, ⟨_, rfl, rfl, rfl, rfl⟩, ⟨_, rfl, rfl, rfl⟩⟩

end Astral.Tmpfs
