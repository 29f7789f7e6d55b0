import Astral.Proof.Lookup

namespace Astral.Fs

variable {Node : Type} {fuel more : Nat} {node root top : Node}

section Mounts

variable (mounts : Mounts Node)

theorem Mounts.lowest_enough (enough : mounts.below node ≤ fuel) (also : mounts.below node ≤ more) :
    mounts.lowest fuel node = mounts.lowest more node := by
  induction fuel generalizing more node with
  | zero =>
    have inner : mounts.isRoot node = false := by
      by_contra root
      have lower := mounts.covered_below node (eq_true_of_ne_false root)
      omega
    cases more with
    | zero => rfl
    | succ more => simp [Mounts.lowest, inner]
  | succ fuel ih =>
    cases root : mounts.isRoot node with
    | false => cases more <;> simp [Mounts.lowest, root]
    | true =>
      have lower := mounts.covered_below node root
      obtain ⟨more, rfl⟩ : ∃ less, more = less + 1 := ⟨more - 1, by omega⟩
      simp only [Mounts.lowest, root, if_true]
      exact ih (by omega) (by omega)

/-- A root of a file system covers the same node as the node under it. -/
theorem Mounts.lowestnodeinmp_covered (top : mounts.isRoot root = true) :
    mounts.lowestnodeinmp root = mounts.lowestnodeinmp (mounts.nodecovered root) := by
  have lower := mounts.covered_below root top
  unfold Mounts.lowestnodeinmp
  obtain ⟨fuel, same⟩ : ∃ fuel, mounts.below root = fuel + 1 := ⟨mounts.below root - 1, by omega⟩
  rw [same]
  simp only [Mounts.lowest, top, if_true]
  exact mounts.lowest_enough (by omega) (Nat.le_refl _)

theorem Mounts.highest_enough (enough : mounts.above node < fuel) (also : mounts.above node < more) :
    mounts.highest fuel node = mounts.highest more node := by
  obtain ⟨more, rfl⟩ : ∃ less, more = less + 1 := ⟨more - 1, by omega⟩
  fun_induction Mounts.highest mounts fuel node generalizing more with
  | case1 => omega
  | case2 _ _ bare => rw [Mounts.highest, bare]
  | case3 _ _ error lost => rw [Mounts.highest, lost]
  | case4 fuel node root mounted ih =>
    have upper := mounts.mounted_above node root mounted
    obtain ⟨more, rfl⟩ : ∃ less, more = less + 1 := ⟨more - 1, by omega⟩
    rw [Mounts.highest, mounted]
    exact ih (by omega) more (by omega)

/-- Nothing is mounted on the highest node. -/
theorem Mounts.highest_bare (enough : mounts.above node < fuel) (found : mounts.highest fuel node = .ok root) :
    mounts.vfsmounted root = none := by
  fun_induction Mounts.highest mounts fuel node with
  | case1 => omega
  | case2 _ _ bare =>
    cases found
    exact bare
  | case3 => cases found
  | case4 fuel node next mounted ih =>
    have upper := mounts.mounted_above node next mounted
    exact ih (by omega) found

theorem Mounts.highestnodeinmp_bare (found : mounts.highestnodeinmp node = .ok root) : mounts.vfsmounted root = none :=
  mounts.highest_bare (Nat.lt_succ_self _) found

theorem Mounts.highestnodeinmp_self (bare : mounts.vfsmounted node = none) :
    mounts.highestnodeinmp node = .ok node := by
  simp [Mounts.highestnodeinmp, Mounts.highest, bare]

theorem Mounts.highestnodeinmp_mounted (mounted : mounts.vfsmounted node = some (.ok root)) :
    mounts.highestnodeinmp node = mounts.highestnodeinmp root := by
  have upper := mounts.mounted_above node root mounted
  unfold Mounts.highestnodeinmp
  rw [Mounts.highest, mounted]
  exact mounts.highest_enough upper (Nat.lt_succ_self _)

end Mounts

section Tree

variable (mounts : Mounts Node) (lookup : Node → Name → Except Errno Node)

/-- The nodes that are reached from a node by names other than ".." and by mounts. -/
inductive Below (root : Node) : Node → Prop
  | refl : Below root root
  | child {node next : Node} {component : Name} (below : Below root node) (down : component ≠ dotdot)
      (found : lookup node component = .ok next) (other : next ≠ node) : Below root next
  | mount {node top : Node} (below : Below root node) (mounted : mounts.vfsmounted node = some (.ok top)) :
      Below root top

/-- The names other than ".." lead down and ".." leads back, and a mounted root covers the node it is mounted on. -/
structure Shaped (depth : Node → Nat) : Prop where
  child : ∀ {node next : Node} {component : Name}, component ≠ dotdot → lookup node component = .ok next →
    next ≠ node → mounts.isRoot next = false ∧ depth node < depth next ∧
      ∀ parent, lookup next dotdot = .ok parent → parent = node
  parent : ∀ {node next : Node}, mounts.isRoot node = false → lookup node dotdot = .ok next → depth next < depth node
  mounted : ∀ {node root : Node}, mounts.vfsmounted node = some (.ok root) →
    mounts.isRoot root = true ∧ mounts.nodecovered root = node ∧ depth root = depth node
  covered : ∀ {root : Node}, mounts.isRoot root = true → mounts.vfsmounted (mounts.nodecovered root) = some (.ok root)

variable {mounts lookup} {depth : Node → Nat} {next : Node}

section

variable (shaped : Shaped mounts lookup depth)
include shaped

theorem Shaped.lowest_mounted (mounted : mounts.vfsmounted node = some (.ok root)) :
    mounts.lowestnodeinmp root = mounts.lowestnodeinmp node := by
  obtain ⟨top, covers, _⟩ := shaped.mounted mounted
  rw [mounts.lowestnodeinmp_covered top, covers]

/-- The lowest and the highest node of a mount point are found from each other. -/
theorem Shaped.highest_lowest (node : Node) :
    mounts.highestnodeinmp (mounts.lowestnodeinmp node) = mounts.highestnodeinmp node ∧
      depth (mounts.lowestnodeinmp node) = depth node := by
  induction count : mounts.below node using Nat.strong_induction_on generalizing node with
  | _ count ih =>
    cases top : mounts.isRoot node with
    | false => rw [mounts.lowestnodeinmp_inner top]; exact ⟨rfl, rfl⟩
    | true =>
      have lower := mounts.covered_below node top
      have mounted := shaped.covered top
      obtain ⟨same, level⟩ := ih _ (by omega) (mounts.nodecovered node) rfl
      rw [mounts.lowestnodeinmp_covered top, same, level, mounts.highestnodeinmp_mounted mounted]
      exact ⟨rfl, (shaped.mounted mounted).2.2.symm⟩

theorem Shaped.lowest_highest (found : mounts.highest fuel node = .ok top) :
    mounts.lowestnodeinmp top = mounts.lowestnodeinmp node := by
  fun_induction Mounts.highest mounts fuel node with
  | case1 | case2 =>
    cases found
    rfl
  | case3 => cases found
  | case4 fuel node other mounted ih => rw [ih found, shaped.lowest_mounted mounted]

variable (below : Below mounts lookup root node)
include below

omit shaped in
theorem Below.highest (found : mounts.highest fuel node = .ok top) : Below mounts lookup root top := by
  fun_induction Mounts.highest mounts fuel node with
  | case1 | case2 =>
    cases found
    exact below
  | case3 => cases found
  | case4 fuel node next mounted ih => exact ih (below.mount mounted) found

/-- From a place below the root, ".." leads to a node below the root again. -/
theorem Below.up : mounts.lowestnodeinmp node = mounts.lowestnodeinmp root ∨
      (Below mounts lookup root (mounts.lowestnodeinmp node) ∧
        ∀ parent, lookup (mounts.lowestnodeinmp node) dotdot = .ok parent → Below mounts lookup root parent) := by
  induction below with
  | refl => exact .inl rfl
  | child below down found other ih =>
    obtain ⟨inner, _, back⟩ := shaped.child down found other
    rw [mounts.lowestnodeinmp_inner inner]
    refine .inr ⟨below.child down found other, ?_⟩
    intro parent up
    rw [back parent up]
    exact below
  | mount below mounted ih =>
    rw [shaped.lowest_mounted mounted]
    exact ih

theorem Below.deeper : depth root ≤ depth node := by
  induction below with
  | refl => exact Nat.le_refl _
  | child below down found other ih => exact Nat.le_trans ih (Nat.le_of_lt (shaped.child down found other).2.1)
  | mount below mounted ih => rw [(shaped.mounted mounted).2.2]; exact ih

end

variable (mounts lookup)

/-- The node is below the root, or it is the one that the root covers. -/
def Inside (root node : Node) : Prop := Below mounts lookup root node ∨ node = mounts.lowestnodeinmp root

end Tree

section Logs

variable (tree : Tree Node)

/-- The directory above the root cannot be searched, or the root is the top of the tree. -/
def Bounded (root : Node) : Prop :=
  tree.highestnodeinmp root = .ok tree.top ∨
    ∀ next, tree.access (tree.lowestnodeinmp root) = none → tree.lookup (tree.lowestnodeinmp root) dotdot ≠ .ok next

/-- All nodes of a log are inside the root. -/
def Confines (root : Node) (log : Log Node) : Prop := ∀ action ∈ log, Inside tree.toMounts tree.lookup root action.node

/-- A node below the root on which nothing is mounted. -/
def Seat (root node : Node) : Prop := Below tree.toMounts tree.lookup root node ∧ tree.vfsmounted node = none

/-- A logged stage stays inside the root and returns a node below it. -/
def Stays (root : Node) (logged : Logged Node) : Prop :=
  Confines tree root logged.2 ∧ ∀ node, logged.1 = .ok node → Seat tree root node

/-- One node of the tree is below another one. -/
abbrev Tree.Below : Node → Node → Prop := Fs.Below tree.toMounts tree.lookup

abbrev Tree.Inside : Node → Node → Prop := Fs.Inside tree.toMounts tree.lookup

variable {tree} {current next : Node} {depth : Node → Nat} {first second : Log Node} {component : Name}

theorem Confines.append (one : Confines tree root first) (two : Confines tree root second) :
    Confines tree root (first ++ second) := by
  intro action member
  rcases List.mem_append.mp member with early | late
  · exact one action early
  · exact two action late

theorem confines_nil : Confines tree root [] := nofun

theorem Confines.cons {action : Action Node} (inside : tree.Inside root action.node)
    (rest : Confines tree root first) : Confines tree root (action :: first) := by
  intro other member
  rcases List.mem_cons.mp member with same | late
  · rw [same]
    exact inside
  · exact rest other late

theorem Confines.ite {test : Prop} [Decidable test] (one : Confines tree root first) :
    Confines tree root (if test then first else []) := by
  split
  · exact one
  · exact confines_nil

theorem confines_swap (one : tree.Inside root current)
    (two : tree.Inside root next) : Confines tree root (swap current next) :=
  .cons two (.cons one (.cons one (.cons two confines_nil)))

theorem Seat.inside (seat : Seat tree root current) : tree.Inside root current := .inl seat.1

/-- The highest node over a node below the root. -/
theorem Seat.of_highest (below : tree.Below root current)
    (found : tree.highestnodeinmp current = .ok next) : Seat tree root next :=
  ⟨below.highest found, tree.highestnodeinmp_bare found⟩

/-- A link is followed inside the root. -/
theorem follow_stays {deref : Deref Node} (flags : Flags) (islast : Bool)
    (stays : ∀ start path, tree.Below root start → Stays tree root (deref start path))
    (mine : tree.procRoot = some root) (here : tree.Below root current)
    (seat : Seat tree root next) : Stays tree root (follow tree flags deref islast current next) := by
  unfold follow
  split
  · cases tree.readlink next with
    | error error => exact ⟨.cons seat.inside (.cons seat.inside confines_nil), nofun⟩
    | ok target =>
      have start : tree.Below root (derefstart tree current target) := by
        unfold derefstart
        split
        · rw [mine]
          exact .refl
        · exact here
      obtain ⟨confined, result⟩ := stays _ target start
      have held : Confines tree root [.hold (derefstart tree current target)] := .cons (.inl start) confines_nil
      have dropped : Confines tree root [.release (derefstart tree current target)] := .cons (.inl start) confines_nil
      refine ⟨?_, result⟩
      exact (((Confines.cons seat.inside held.ite).append confined).append dropped.ite).append
        (.cons seat.inside confines_nil)
  · refine ⟨confines_nil, ?_⟩
    intro node same
    cases same
    exact seat

variable [DecidableEq Node]

theorem directory_confined (seat : Seat tree root current) (low : tree.Inside root (tree.lowestnodeinmp current)) :
    Confines tree root (directory tree component current).2 := by
  unfold directory leaveMount
  split
  · split
    · dsimp only
      split
      · exact confines_swap seat.inside low
      · exact confines_nil
    · exact confines_nil
  · exact confines_nil

/-- A component that is found below the root is entered there. -/
theorem enter_stays (here : tree.Inside root current)
    (found : ∀ next, tree.access current = none → tree.lookup current component = .ok next → tree.Below root next) :
    Stays tree root (enter tree component current) := by
  unfold enter
  cases allowed : tree.access current with
  | some error => exact ⟨confines_nil, nofun⟩
  | none =>
    unfold vopLookup
    cases looked : tree.lookup current component with
    | error error => exact ⟨confines_nil, nofun⟩
    | ok next =>
      have below := found next allowed looked
      have start : Confines tree root (.hold next :: (if component = dotdot then [.unlock current] else []) ++
          (if next ≠ current then [.lock next] else []) ++
          if current ≠ next ∧ component ≠ dotdot then [.unlock current] else []) :=
        ((Confines.cons (.inl below) (.ite (.cons here confines_nil))).append
          (.ite (.cons (.inl below) confines_nil))).append (.ite (.cons here confines_nil))
      dsimp only
      unfold enterMount
      cases highest : tree.highestnodeinmp next with
      | error error =>
        exact ⟨start.append ((Confines.ite (.cons (.inl below) confines_nil)).append
          (.cons (.inl below) confines_nil)), nofun⟩
      | ok top =>
        have seat := Seat.of_highest below highest
        refine ⟨start.append (.ite (confines_swap (.inl below) seat.inside)), ?_⟩
        intro node same
        cases same
        exact seat

section

variable (shaped : Shaped tree.toMounts tree.lookup depth)
include shaped

section

variable (bounded : Bounded tree root)
include bounded

section

variable (mine : tree.procRoot = some root)
include mine

section

variable {deref : Deref Node} (flags : Flags)
  (stays : ∀ start path, tree.Below root start → Stays tree root (deref start path))
include stays

/-- One component is searched from a seat. -/
theorem advance_stays (islast : Bool)
    (seat : Seat tree root current) (lower : ¬ (component = dotdot ∧ current = tree.top)) :
    tree.Inside root (searched tree component current) ∧ Confines tree root (directory tree component current).2 ∧
      Stays tree root (advance tree flags deref islast component (searched tree component current)) := by
  have place : tree.Inside root (searched tree component current) ∧
      Confines tree root (directory tree component current).2 ∧
      ∀ next, tree.access (searched tree component current) = none →
        tree.lookup (searched tree component current) component = .ok next →
          tree.Below root (searched tree component current) ∧ tree.Below root next := by
    unfold searched
    by_cases upward : component = dotdot
    · rw [if_pos upward, upward]
      rcases seat.1.up shaped with level | ⟨low, up⟩
      · have inside : tree.Inside root (tree.lowestnodeinmp current) := .inr level
        refine ⟨inside, directory_confined seat inside, ?_⟩
        intro next allowed found
        have same : tree.highestnodeinmp root = .ok current := by
          rw [← (shaped.highest_lowest root).1, ← level, (shaped.highest_lowest current).1]
          exact tree.highestnodeinmp_self seat.2
        rw [level] at allowed found
        rcases bounded with top | blocked
        · rw [same] at top
          exact absurd ⟨upward, Except.ok.inj top⟩ lower
        · exact absurd found (blocked next allowed)
      · have inside : tree.Inside root (tree.lowestnodeinmp current) := .inl low
        exact ⟨inside, directory_confined seat inside, fun next _ found => ⟨low, up next found⟩⟩
    · rw [if_neg upward]
      refine ⟨seat.inside, ?_, ?_⟩
      · unfold directory
        rw [if_neg upward]
        exact confines_nil
      · intro next _ found
        refine ⟨seat.1, ?_⟩
        by_cases same : next = current
        · rw [same]
          exact seat.1
        · exact seat.1.child upward found same
  obtain ⟨inside, left, found⟩ := place
  refine ⟨inside, left, ?_⟩
  generalize searched tree component current = dir at *
  obtain ⟨confined, result⟩ := enter_stays inside fun next allowed looked => (found next allowed looked).2
  unfold advance
  cases entered : enter tree component dir with
  | mk outcome log =>
    rw [entered] at confined result
    cases outcome with
    | error error => exact ⟨confined, nofun⟩
    | ok next =>
      have here : tree.Below root dir := by
        unfold enter vopLookup at entered
        cases allowed : tree.access dir with
        | some error => simp [allowed] at entered
        | none =>
          cases looked : tree.lookup dir component with
          | error error => simp [allowed, looked] at entered
          | ok middle => exact (found middle allowed looked).1
      obtain ⟨more, final⟩ := follow_stays flags islast stays mine here (result next rfl)
      exact ⟨confined.append more, final⟩

/-- The walk stays inside the root and ends at a seat unless it fails. -/
theorem walk_stays (names : List Name) (seat : Seat tree root current) :
    Confines tree root (walk tree flags deref names current).log ∧
      tree.Inside root (walk tree flags deref names current).current ∧
      ((walk tree flags deref names current).error = none →
        Seat tree root (walk tree flags deref names current).current) := by
  fun_induction walk tree flags deref names current with
  | case1 | case3 => exact ⟨confines_nil, seat.inside, fun _ => seat⟩
  | case2 => exact ⟨confines_nil, seat.inside, nofun⟩
  | case4 _ _ _ _ _ _ ih => exact ih seat
  | case5 component rest current _ _ lower dir log placed error more advanced =>
    obtain ⟨inside, left, confined, -⟩ := advance_stays shaped bounded mine flags stays rest.isEmpty seat lower
    rw [← directory_fst, placed] at inside confined
    rw [placed] at left
    rw [advanced] at confined
    exact ⟨left.append confined, inside, nofun⟩
  | case6 component rest current _ _ lower dir log placed next more advanced _ ih =>
    obtain ⟨inside, left, confined, result⟩ := advance_stays shaped bounded mine flags stays rest.isEmpty seat lower
    rw [← directory_fst, placed] at inside confined result
    rw [placed] at left
    rw [advanced] at confined result
    obtain ⟨later, final, found⟩ := ih (result next rfl)
    exact ⟨(left.append confined).append (.cons inside later), final, found⟩

variable (tree) in
theorem lookupPath_stays {start : Node} (below : tree.Below root start) (path : Name) :
    Confines tree root (lookupPath tree flags deref start path).2 ∧
      ∀ found, (lookupPath tree flags deref start path).1 = .ok found → Seat tree root found.node := by
  fun_cases lookupPath tree flags deref start path with
  | case3 _ _ top highest =>
    have seat := Seat.of_highest below highest
    refine ⟨.cons seat.inside confines_nil, ?_⟩
    intro found same
    cases same
    exact seat
  | case6 _ _ current highest _ walked log error ending =>
    have seat := Seat.of_highest below highest
    obtain ⟨confined, inside, -⟩ := walk_stays shaped bounded mine flags stays (components path) seat
    refine ⟨?_, nofun⟩
    exact (Confines.cons seat.inside (.cons seat.inside confined)).append (.cons inside (.cons inside confines_nil))
  | case7 _ _ current highest _ walked log ending =>
    have seat := Seat.of_highest below highest
    obtain ⟨confined, -, final⟩ := walk_stays shaped bounded mine flags stays (components path) seat
    refine ⟨.cons seat.inside (.cons seat.inside confined), ?_⟩
    intro found same
    cases same
    exact final ending
  | _ => exact ⟨confines_nil, nofun⟩

end

variable (tree) in
theorem derefLookup_stays (links : Nat) (start : Node) (path : Name) (below : tree.Below root start) :
    Stays tree root (derefLookup tree links start path) := by
  induction links generalizing start path with
  | zero => exact ⟨confines_nil, nofun⟩
  | succ links ih =>
    obtain ⟨confined, result⟩ := lookupPath_stays tree shaped bounded mine ⟨false, false⟩ ih below path
    refine ⟨confined, ?_⟩
    intro node same
    change (lookupPath tree ⟨false, false⟩ (derefLookup tree links) start path).1.map Found.node = .ok node at same
    cases outcome : (lookupPath tree ⟨false, false⟩ (derefLookup tree links) start path).1 with
    | error error =>
      rw [outcome] at same
      cases same
    | ok found =>
      rw [outcome] at same
      cases same
      exact result found outcome

end

end

end

/-- The same tree with other answers of the allocator. -/
def Tree.remember (tree : Tree Node) (memory : Node → Name → Bool) : Tree Node := { tree with allocates := memory }

variable (tree) in
/-- A process whose root is the node looks paths up from there or from a directory below it. The lookups touch only
nodes inside the root, and return nodes below it. -/
def Confined (root : Node) : Prop :=
  ∀ (memory : Node → Name → Bool) (cwd : Node) (flags : Flags) (path : Name), Below tree.toMounts tree.lookup root cwd →
      let start := if path.head? = some '/' then root else cwd
      let run := vfsLookup (tree.remember memory) flags start path
      (∀ action ∈ run.2, Inside tree.toMounts tree.lookup root action.node) ∧
        ∀ found, run.1 = .ok found → Below tree.toMounts tree.lookup root found.node

/-- The path "/..". -/
def above : Name := ['/', '.', '.']

variable (tree) in
/-- The directory above the root is touched when it can be searched. -/
theorem above_escapes (ready : tree.highestnodeinmp root = .ok top) (searchable : tree.type top = .dir)
    (allocates : tree.allocates root above = true) (low : tree.lowestnodeinmp top = tree.lowestnodeinmp root)
    (under : top ≠ tree.top) (allowed : tree.access (tree.lowestnodeinmp root) = none)
    (found : tree.lookup (tree.lowestnodeinmp root) dotdot = .ok next) :
    .hold next ∈ (vfsLookup tree ⟨false, false⟩ root above).2 := by
  have parts : components above = [dotdot] := by decide
  have held : .hold next ∈ (walk tree ⟨false, false⟩ (derefLookup tree (maxLinkDepth + 1)) [dotdot] top).log := by
    have entered : .hold next ∈ (enter tree dotdot (tree.lowestnodeinmp root)).2 := by
      simp [enter, vopLookup, allowed, found]
    have place : (directory tree dotdot top).1 = tree.lowestnodeinmp root := by
      rw [directory_fst]
      simp [searched, low]
    have advanced (flags : Flags) (deref : Deref Node) (islast : Bool) :
        .hold next ∈ (advance tree flags deref islast dotdot (tree.lowestnodeinmp root)).2 := by
      unfold advance
      cases outcome : enter tree dotdot (tree.lowestnodeinmp root) with
      | mk result log =>
        rw [outcome] at entered
        cases result with
        | error error => exact entered
        | ok node => exact List.mem_append_left _ entered
    have here := advanced ⟨false, false⟩ (derefLookup tree (maxLinkDepth + 1)) ([] : List Name).isEmpty
    unfold walk
    rw [if_neg (by simp [searchable]), if_neg (by simp), if_neg (by simp [under])]
    dsimp only
    rw [place]
    generalize advance tree ⟨false, false⟩ (derefLookup tree (maxLinkDepth + 1)) ([] : List Name).isEmpty dotdot
      (tree.lowestnodeinmp root) = outcome at here
    obtain ⟨result, log⟩ := outcome
    cases result with
    | error error => exact List.mem_append_right _ here
    | ok node => exact List.mem_append_left _ (List.mem_append_right _ here)
  unfold vfsLookup lookupPath
  rw [if_neg (by decide), if_neg (by decide), ready]
  dsimp only
  rw [if_pos allocates, parts]
  cases (walk tree ⟨false, false⟩ (derefLookup tree (maxLinkDepth + 1)) [dotdot] top).error with
  | some | none => simp [held]

end Logs

section Main

variable [DecidableEq Node] {tree : Tree Node} {depth : Node → Nat}

/-- The lookups of a process stay inside its root exactly when the root is the top of the tree or the directory above it
cannot be searched. -/
theorem lookup_confined_iff (shaped : Shaped tree.toMounts tree.lookup depth) (mine : tree.procRoot = some root)
    {top : Node} (ready : tree.highestnodeinmp root = .ok top) (directory : tree.type top = .dir) :
    Confined tree root ↔ Bounded tree root := by
  constructor
  · intro confined
    by_contra loose
    unfold Bounded at loose
    push Not at loose
    obtain ⟨under, next, allowed, found⟩ := loose
    have level := (shaped.highest_lowest root).2
    have low := shaped.lowest_highest ready
    have escape := above_escapes (tree.remember fun _ _ => true) ready directory rfl low
      (fun equal => under (by rw [ready, equal]; rfl)) allowed found
    have inside := (confined (fun _ _ => true) root ⟨false, false⟩ above .refl).1 _ escape
    have higher : depth next < depth (tree.lowestnodeinmp root) :=
      shaped.parent (tree.lowestnodeinmp_not_root root) found
    have inside : tree.Inside root next := inside
    rcases inside with below | covered
    · have deeper := below.deeper shaped
      omega
    · rw [covered] at higher
      omega
  · intro bounded memory cwd flags path below
    have start : tree.Below root (if path.head? = some '/' then root else cwd) := by
      split
      · exact .refl
      · exact below
    obtain ⟨confined, result⟩ := lookupPath_stays (tree.remember memory) shaped bounded mine flags
      (fun start path => derefLookup_stays (tree.remember memory) shaped bounded mine _ start path) start path
    exact ⟨confined, fun found same => (result found same).1⟩

end Main

section Example

/-- The top directory has one directory "a", which may be searched or not. -/
def nested (root searched : Bool) : Tree Bool where
  toMounts := danglingTree.toMounts
  type _ := .dir
  access node := if node && !searched then some .eacces else none
  lookup node name :=
    if name = ['.'] then .ok node
    else if node then if name = dotdot then .ok false else .error .enoent
    else if name = ['a'] then .ok true else .error .enoent
  readlink _ := .error .enoent
  vfsroot := false
  procRoot := some root
  allocates _ _ := true
  top := false
  top_highest := rfl
  parent_other node next _ found := by
    cases node with
    | false => simp [dotdot] at found
    | true =>
      simp only [if_true] at found
      cases found
      decide

theorem nested_shaped (root searched : Bool) :
    Shaped (nested root searched).toMounts (nested root searched).lookup fun node => node.toNat where
  child {node next component} down found other := by
    by_cases self : component = ['.']
    · simp only [nested, self, if_true] at found
      cases found
      exact absurd rfl other
    · cases node with
      | true => simp [nested, self, down] at found
      | false =>
        simp only [nested, self, Bool.false_eq_true, if_false] at found
        split at found
        · cases found
          refine ⟨rfl, by decide, ?_⟩
          intro parent back
          cases back
          rfl
        · cases found
  parent {node next} _ found := by
    cases node with
    | false => simp [nested, dotdot] at found
    | true =>
      cases found
      decide
  mounted mounted := nomatch mounted
  covered top := nomatch top

/-- A process stays inside when its root is the top directory, or the directory "a" if that cannot be searched. -/
theorem nested_confined : Confined (nested false true) false ∧ Confined (nested true false) true :=
  ⟨(lookup_confined_iff (nested_shaped false true) rfl rfl rfl).mpr (.inl rfl),
    (lookup_confined_iff (nested_shaped true false) rfl rfl rfl).mpr (.inr nofun)⟩

/-- A process whose root is the directory "a" leaves it by "..". -/
theorem jailed_escapes : (nested true true).procRoot = some true ∧
    (vfsLookup (nested true true) ⟨false, false⟩ true above).1.map Found.node = .ok false ∧
    ¬ Below (nested true true).toMounts (nested true true).lookup true false := by
  refine ⟨rfl, by decide, ?_⟩
  intro below
  have deeper := below.deeper (nested_shaped true true)
  revert deeper
  decide

end Example

end Astral.Fs
