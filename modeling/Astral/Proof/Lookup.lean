import Astral.Construction.Lookup
import Mathlib.Tactic

namespace Astral.Fs

section Mounts

variable {Node : Type} (mounts : Mounts Node)

theorem Mounts.lowest_not_root (fuel : Nat) (node : Node) (enough : mounts.below node ≤ fuel) :
    mounts.isRoot (mounts.lowest fuel node) = false := by
  induction fuel generalizing node with
  | zero =>
    cases root : mounts.isRoot node with
    | false => exact root
    | true =>
      have lower := mounts.covered_below node root
      omega
  | succ fuel ih =>
    unfold Mounts.lowest
    split
    · next root =>
      have lower := mounts.covered_below node root
      apply ih
      omega
    · next inner => simpa using inner

/-- The node below all mounts is not the root of a file system. -/
theorem Mounts.lowestnodeinmp_not_root (node : Node) : mounts.isRoot (mounts.lowestnodeinmp node) = false :=
  mounts.lowest_not_root _ node le_rfl

theorem Mounts.lowestnodeinmp_inner {node : Node} (inner : mounts.isRoot node = false) :
    mounts.lowestnodeinmp node = node := by
  unfold Mounts.lowestnodeinmp
  cases mounts.below node with
  | zero => rfl
  | succ fuel => simp [Mounts.lowest, inner]

end Mounts

section Meaning

variable {Node : Type} (tree : Tree Node)

/-- The directory in which a component is searched, as a node alone. -/
def searched (component : Name) (current : Node) : Node :=
  if component = dotdot then tree.lowestnodeinmp current else current

/-- The node that a component names in a directory. -/
def resolveEnter (component : Name) (current : Node) : Except Errno Node :=
  match tree.access current with
  | some error => .error error
  | none => tree.lookup current component >>= tree.highestnodeinmp

variable (flags : Flags) (deref : Node → Name → Except Errno Node)

/-- The node that a link stands for. -/
def resolveFollow (islast : Bool) (current next : Node) : Except Errno Node :=
  if follows tree flags islast next then
    tree.readlink next >>= fun target => deref (derefstart tree current target) target
  else .ok next

/-- The node that a component stands for. -/
def resolveStep (islast : Bool) (component : Name) (current : Node) : Except Errno Node :=
  resolveEnter tree component current >>= resolveFollow tree flags deref islast current

variable [DecidableEq Node]

/-- The node that the components name from a node on. -/
def resolveWalk : List Name → Node → Except Errno (Found Node)
  | [], current => .ok ⟨current, none⟩
  | component :: rest, current =>
    if tree.type current ≠ .dir then .error .enotdir
    else if rest.isEmpty && flags.parent then .ok ⟨current, some component⟩
    else if component = dotdot ∧ current = tree.top then resolveWalk rest current
    else
      resolveStep tree flags deref rest.isEmpty component (searched tree component current) >>= resolveWalk rest

/-- The node that a path names. -/
def resolvePath (start : Node) (path : Name) : Except Errno (Found Node) :=
  if path = [] then
    if flags.parent then .error .enoent else (tree.highestnodeinmp start).map fun root => ⟨root, none⟩
  else if path.length > pathnameMax then .error .enametoolong
  else
    tree.highestnodeinmp start >>= fun current =>
      if tree.allocates start path then resolveWalk tree flags deref (components path) current
      else .error .enomem

/-- The node that the target of a link names when some more links may be followed. -/
def resolveDeref : Nat → Node → Name → Except Errno Node
  | 0 => fun _ _ => .error .eloop
  | links + 1 => fun start path =>
    (resolvePath tree ⟨false, false⟩ (resolveDeref links) start path).map Found.node

/-- The mounts on a node that is found have their root, unless the node is the directory itself. -/
def CleanEnter (component : Name) (current : Node) : Prop :=
  tree.access current = none → ∀ next, tree.lookup current component = .ok next →
    next = current ∨ ∃ root, tree.highestnodeinmp next = .ok root

variable (clean : Node → Name → Prop)

/-- A link that is followed can be read, and its target leads to a node. -/
def CleanFollow (islast : Bool) (current next : Node) : Prop :=
  follows tree flags islast next = true → ∃ target found, tree.readlink next = .ok target ∧
    deref (derefstart tree current target) target = .ok found ∧ clean (derefstart tree current target) target

def CleanStep (islast : Bool) (component : Name) (current : Node) : Prop :=
  CleanEnter tree component current ∧ ∀ next, resolveEnter tree component current = .ok next →
    CleanFollow tree flags deref clean islast current next

def CleanWalk : List Name → Node → Prop
  | [], _ => True
  | component :: rest, current =>
    if tree.type current ≠ .dir then True
    else if rest.isEmpty && flags.parent then True
    else if component = dotdot ∧ current = tree.top then CleanWalk rest current
    else
      CleanStep tree flags deref clean rest.isEmpty component (searched tree component current) ∧
        ∀ next, resolveStep tree flags deref rest.isEmpty component (searched tree component current) = .ok next →
          CleanWalk rest next

/-- The path is not empty, or its lookup fails at once. -/
def CleanPath (start : Node) (path : Name) : Prop :=
  if path = [] then flags.parent = true ∨ ∀ root, tree.highestnodeinmp start ≠ .ok root
  else path.length ≤ pathnameMax → ∀ current, tree.highestnodeinmp start = .ok current →
    tree.allocates start path = true → CleanWalk tree flags deref clean (components path) current

def CleanDeref : Nat → Node → Name → Prop
  | 0 => fun _ _ => True
  | links + 1 => CleanPath tree ⟨false, false⟩ (resolveDeref tree links) (CleanDeref links)

/-- The node that a lookup should return. -/
def resolve (start : Node) (path : Name) : Except Errno (Found Node) :=
  resolvePath tree flags (resolveDeref tree (maxLinkDepth + 1)) start path

/-- No empty path is looked up, every mount that is met has its root, and every link leads to a node. -/
def Clean (start : Node) (path : Name) : Prop :=
  CleanPath tree flags (resolveDeref tree (maxLinkDepth + 1)) (CleanDeref tree (maxLinkDepth + 1)) start path

end Meaning

section Net

variable {Node : Type}

/-- The change of some counts by a log. -/
def tally (effect : Action Node → Node → Int) (log : Log Node) : Node → Int := (log.map effect).sum

section

variable (effect : Action Node → Node → Int) (action : Action Node) (first second : Log Node) (test : Prop)
  [Decidable test]

@[simp] theorem tally_nil : tally effect [] = 0 := rfl

@[simp] theorem tally_cons : tally effect (action :: first) = effect action + tally effect first := by simp [tally]

@[simp] theorem tally_append : tally effect (first ++ second) = tally effect first + tally effect second := by
  simp [tally]

@[simp] theorem tally_ite :
    tally effect (if test then first else second) = if test then tally effect first else tally effect second :=
  apply_ite ..

end

variable [DecidableEq Node]

/-- The change of the lock counts by one action. -/
@[simp] def Action.locks : Action Node → Node → Int
  | .lock node => Pi.single node 1
  | .unlock node => -Pi.single node 1
  | .hold _ | .release _ => 0

/-- The change of the reference counts by one action. -/
@[simp] def Action.refs : Action Node → Node → Int
  | .hold node => Pi.single node 1
  | .release node => -Pi.single node 1
  | .lock _ | .unlock _ => 0

/-- The change of the lock counts by a log. -/
abbrev locksOf (log : Log Node) : Node → Int := tally Action.locks log

/-- The change of the reference counts by a log. -/
abbrev refsOf (log : Log Node) : Node → Int := tally Action.refs log

/-- The counts after a log are the counts before it and its changes. -/
theorem replay_eq (counts : Counts Node) (log : Log Node) :
    counts.replay log = ⟨counts.locks + locksOf log, counts.refs + refsOf log⟩ := by
  induction log generalizing counts with
  | nil => simp [Counts.replay]
  | cons action log ih =>
    rw [Counts.replay, List.foldl_cons, ← Counts.replay, ih, locksOf, refsOf, locksOf, refsOf, tally_cons, tally_cons]
    cases action <;>
      simp [Counts.perform, Counts.lock, Counts.unlock, Counts.hold, Counts.release, add_assoc, sub_eq_add_neg]

end Net

section Reckoning

variable {Node : Type} [DecidableEq Node] {clean other : Prop} {moved same : Node → Int} {log more : Log Node}

/-- A log takes the nodes as often as it should, but for locks that are lost when the run is not clean. -/
def Reckoned (clean : Prop) (moved : Node → Int) (log : Log Node) : Prop :=
  ∃ lost : Node → Int, 0 ≤ lost ∧ (lost = 0 ↔ clean) ∧ refsOf log = moved ∧ locksOf log = moved - lost

theorem reckoned_nil : Reckoned True 0 ([] : Log Node) := by
  apply Exists.intro 0
  simp

theorem Reckoned.append (begins : Reckoned clean moved log) (continues : Reckoned other same more) :
    Reckoned (clean ∧ other) (moved + same) (log ++ more) := by
  obtain ⟨lost, nonneg, exactly, refs, locks⟩ := begins
  obtain ⟨later, laterNonneg, laterExactly, laterRefs, laterLocks⟩ := continues
  refine ⟨lost + later, add_nonneg nonneg laterNonneg, ?_, ?_, ?_⟩
  · rw [add_eq_zero_iff_of_nonneg nonneg laterNonneg, exactly, laterExactly]
  · simp only [tally_append, refs, laterRefs]
  · simp only [tally_append, locks, laterLocks]
    abel

theorem Reckoned.congr (reckoned : Reckoned clean moved log) (clean_iff : clean ↔ other) (moved_eq : moved = same) :
    Reckoned other same log := by
  obtain ⟨lost, nonneg, exactly, refs, locks⟩ := reckoned
  subst moved_eq
  exact ⟨lost, nonneg, exactly.trans clean_iff, refs, locks⟩

/-- A log that takes and drops the same locks and references loses nothing. -/
theorem reckoned_even (refs : refsOf log = moved) (locks : locksOf log = moved) : Reckoned True moved log :=
  ⟨0, le_rfl, by simp, refs, by rw [locks, sub_zero]⟩

theorem reckoned_swap (node other : Node) : Reckoned True (Pi.single other 1 - Pi.single node 1) (swap node other) := by
  apply reckoned_even <;> simp [swap, sub_eq_add_neg, add_comm]

theorem reckoned_stay (node : Node) : Reckoned True (Pi.single node 1 - Pi.single node 1) [] :=
  reckoned_nil.congr Iff.rfl (sub_self _).symm

theorem reckoned_drop (node : Node) : Reckoned True (-Pi.single node 1) [.unlock node, .release node] := by
  apply reckoned_even <;> simp

/-- What a lookup takes for its result. -/
def taken : Except Errno Node → Node → Int
  | .ok node => Pi.single node 1
  | .error _ => 0

/-- The lookups of link targets give the right nodes and lose locks only where they are not clean. -/
def Accounts (deref : Deref Node) (resolved : Node → Name → Except Errno Node) (clean : Node → Name → Prop) : Prop :=
  ∀ start path, (deref start path).1 = resolved start path ∧
    Reckoned (clean start path) (taken (resolved start path)) (deref start path).2

end Reckoning

section Stages

variable {Node : Type} (tree : Tree Node)

/-- The parent of a directory is searched below the mounts. -/
theorem searched_not_root {component : Name} (upward : component = dotdot) (current : Node) :
    tree.isRoot (searched tree component current) = false := by
  unfold searched
  rw [if_pos upward]
  exact tree.lowestnodeinmp_not_root current

variable [DecidableEq Node]

theorem directory_fst (component : Name) (current : Node) :
    (directory tree component current).1 = searched tree component current := by
  unfold directory searched
  split
  · unfold leaveMount
    split
    · dsimp only
      split
      · rfl
      · next same => exact (not_not.mp same).symm
    · next inner => simp [tree.lowestnodeinmp_inner (by simpa using inner)]
  · rfl

theorem directory_reckoned (component : Name) (current : Node) :
    Reckoned True (Pi.single (searched tree component current) 1 - Pi.single current 1)
      (directory tree component current).2 := by
  rw [← directory_fst tree component current]
  have stays := reckoned_stay current
  unfold directory
  split
  · unfold leaveMount
    split
    · dsimp only
      split
      · exact reckoned_swap current _
      · exact stays
    · exact stays
  · exact stays

/-- What a stage that searches a directory returns. -/
def Entered (component : Name) (current : Node) : Logged Node → Prop
  | (.error error, log) =>
    resolveEnter tree component current = .error error ∧ Reckoned (CleanEnter tree component current) 0 log
  | (.ok next, log) =>
    resolveEnter tree component current = .ok next ∧ CleanEnter tree component current ∧
      Reckoned True (Pi.single next 1 - Pi.single current 1) (log ++ [.release current])

theorem enterMount_entered {component : Name} {current next : Node} {left : Log Node}
    (allowed : tree.access current = none) (looked : tree.lookup current component = .ok next)
    (refs : refsOf left = Pi.single next 1) (locks : locksOf left = Pi.single next 1 - Pi.single current 1) :
    Entered tree component current ((enterMount tree current next).1, left ++ (enterMount tree current next).2) := by
  unfold enterMount
  cases highest : tree.highestnodeinmp next with
  | error error =>
    have resolved : resolveEnter tree component current = .error error := by
      simp [resolveEnter, allowed, looked, highest, bind, Except.bind]
    by_cases same : current = next
    · subst same
      refine ⟨resolved, 0, le_rfl, ?_, ?_, ?_⟩
      · simp [CleanEnter, looked]
      · simp [refs]
      · simp [locks]
    · refine ⟨resolved, Pi.single current 1, ?_, ?_, ?_, ?_⟩
      · exact Pi.single_nonneg.mpr zero_le_one
      · have other : next ≠ current := fun equal => same equal.symm
        simp [CleanEnter, looked, allowed, highest, other]
      · simp [same, refs]
      · simp only [same, ne_eq, not_false_eq_true, if_true, tally_append, tally_cons, tally_nil, locks,
          Action.locks]
        abel
  | ok root =>
    refine ⟨?_, ?_, ?_⟩
    · simp [resolveEnter, allowed, looked, highest, bind, Except.bind]
    · intro _ other found
      rw [looked] at found
      cases found
      exact Or.inr ⟨root, highest⟩
    · by_cases same : root = next
      · subst same
        apply reckoned_even <;> simp [refs, locks, sub_eq_add_neg]
      · apply reckoned_even
        all_goals
          simp only [ne_eq, same, not_false_eq_true, if_true, swap, tally_append, tally_cons, tally_nil, refs, locks,
            Action.refs, Action.locks]
          abel

theorem enter_entered (component : Name) (current : Node) (inner : component = dotdot → tree.isRoot current = false) :
    Entered tree component current (enter tree component current) := by
  unfold enter
  cases allowed : tree.access current with
  | some error =>
    refine ⟨by simp [resolveEnter, allowed], reckoned_nil.congr ?_ rfl⟩
    simp [CleanEnter, allowed]
  | none =>
    unfold vopLookup
    cases looked : tree.lookup current component with
    | error error =>
      refine ⟨by simp [resolveEnter, allowed, looked, bind, Except.bind], reckoned_nil.congr ?_ rfl⟩
      simp [CleanEnter, looked]
    | ok next =>
      apply enterMount_entered tree allowed looked
      · by_cases upward : component = dotdot <;> by_cases same : next = current <;> simp [upward, same]
      · by_cases upward : component = dotdot
        · have other : next ≠ current := by
            subst upward
            exact tree.parent_other current next (inner rfl) looked
          simp [upward, other, sub_eq_neg_add]
        · by_cases same : next = current
          · simp [upward, same]
          · have other : current ≠ next := fun equal => same equal.symm
            simp [upward, same, other, sub_eq_add_neg]

/-- What a stage that follows links returns. -/
def Followed (flags : Flags) (resolved : Node → Name → Except Errno Node) (clean : Node → Name → Prop)
    (islast : Bool) (current next : Node) : Logged Node → Prop
  | (.error error, log) =>
    resolveFollow tree flags resolved islast current next = .error error ∧
      ¬ CleanFollow tree flags resolved clean islast current next ∧
      ∃ lasting, Reckoned lasting (-Pi.single next 1) log
  | (.ok found, log) =>
    resolveFollow tree flags resolved islast current next = .ok found ∧
      Reckoned (CleanFollow tree flags resolved clean islast current next) (Pi.single found 1 - Pi.single next 1) log

/-- What the work for one component returns. -/
def Advanced (flags : Flags) (resolved : Node → Name → Except Errno Node) (clean : Node → Name → Prop)
    (islast : Bool) (component : Name) (current : Node) : Logged Node → Prop
  | (.error error, log) =>
    resolveStep tree flags resolved islast component current = .error error ∧
      Reckoned (CleanStep tree flags resolved clean islast component current) 0 log
  | (.ok found, log) =>
    resolveStep tree flags resolved islast component current = .ok found ∧
      Reckoned (CleanStep tree flags resolved clean islast component current)
        (Pi.single found 1 - Pi.single current 1) (log ++ [.release current])

/-- What the loop over the components leaves behind. -/
def Walked.Ends (clean : Prop) (resolved : Except Errno (Found Node)) (current : Node) (walked : Walked Node) : Prop :=
  resolved = (match walked.error with
    | some error => .error error
    | none => .ok ⟨walked.current, walked.lastcomp⟩) ∧
    Reckoned clean (Pi.single walked.current 1 - Pi.single current 1) walked.log

section

variable {deref : Deref Node} {resolved : Node → Name → Except Errno Node} {clean : Node → Name → Prop}
  (accounts : Accounts deref resolved clean) (flags : Flags)
include accounts

theorem follow_followed (islast : Bool) (current next : Node) :
    Followed tree flags resolved clean islast current next (follow tree flags deref islast current next) := by
  unfold follow
  by_cases followed : follows tree flags islast next = true
  · rw [if_pos followed]
    cases read : tree.readlink next with
    | error error =>
      refine ⟨by simp [resolveFollow, followed, read, bind, Except.bind], ?_, True, reckoned_drop next⟩
      simp [CleanFollow, followed, read]
    | ok target =>
      obtain ⟨result, reckoned⟩ := accounts (derefstart tree current target) target
      have meaning : resolveFollow tree flags resolved islast current next =
          resolved (derefstart tree current target) target := by
        simp [resolveFollow, followed, read, bind, Except.bind]
      -- The reference to an absolute start is given back, so the nested lookup alone counts.
      obtain ⟨lost, nonneg, exactly, refs, locks⟩ := reckoned
      dsimp only
      generalize deref (derefstart tree current target) target = called at result refs locks
      obtain ⟨outcome, log⟩ := called
      dsimp only at result refs locks
      have whole : Reckoned (clean (derefstart tree current target) target)
          (taken (resolved (derefstart tree current target) target) - Pi.single next 1)
          (.unlock next :: (if target.head? = some '/' then [.hold (derefstart tree current target)] else []) ++ log ++
            (if target.head? = some '/' then [.release (derefstart tree current target)] else []) ++
            [.release next]) := by
        refine ⟨lost, nonneg, exactly, ?_, ?_⟩
        · by_cases absolute : target.head? = some '/' <;> simp [absolute, refs] <;> abel
        · by_cases absolute : target.head? = some '/' <;> simp [absolute, locks] <;> abel
      subst result
      cases outcome : resolved (derefstart tree current target) target with
      | error error =>
        rw [outcome] at whole meaning
        refine ⟨meaning, ?_, _, whole.congr Iff.rfl (by simp [taken])⟩
        simp [CleanFollow, followed, read, outcome]
      | ok found =>
        rw [outcome] at whole meaning
        refine ⟨meaning, whole.congr ?_ rfl⟩
        simp [CleanFollow, followed, read, outcome]
  · rw [if_neg followed]
    refine ⟨by simp [resolveFollow, followed], reckoned_nil.congr ?_ (sub_self _).symm⟩
    simp [CleanFollow, followed]

theorem advance_advanced (islast : Bool) (component : Name) (current : Node)
    (inner : component = dotdot → tree.isRoot current = false) :
    Advanced tree flags resolved clean islast component current
      (advance tree flags deref islast component current) := by
  unfold advance
  have entered := enter_entered tree component current inner
  generalize enter tree component current = stage at entered
  obtain ⟨outcome, log⟩ := stage
  cases outcome with
  | error failure =>
    obtain ⟨meaning, reckoned⟩ := entered
    refine ⟨by simp [resolveStep, meaning, bind, Except.bind], reckoned.congr ?_ rfl⟩
    simp [CleanStep, meaning]
  | ok next =>
    obtain ⟨meaning, cleanly, reckoned⟩ := entered
    have step_eq : resolveStep tree flags resolved islast component current =
        resolveFollow tree flags resolved islast current next := by
      simp [resolveStep, meaning, bind, Except.bind]
    have clean_iff : CleanStep tree flags resolved clean islast component current ↔
        CleanFollow tree flags resolved clean islast current next := by
      simp [CleanStep, meaning, cleanly]
    have followed := follow_followed tree accounts flags islast current next
    dsimp only
    generalize follow tree flags deref islast current next = stage at followed
    obtain ⟨outcome, more⟩ := stage
    cases outcome with
    | error failure =>
      obtain ⟨follow_eq, unclean, lasting, follow_reckoned⟩ := followed
      -- The directory was unlocked for the link and is unlocked again by the caller.
      obtain ⟨lost, nonneg, _, refs, locks⟩ := reckoned.append follow_reckoned
      simp only [tally_append, tally_cons, tally_nil, Action.refs, Action.locks] at refs locks
      refine ⟨step_eq.trans follow_eq, lost + Pi.single current 1, ?_, ?_, ?_, ?_⟩
      · exact add_nonneg nonneg (Pi.single_nonneg.mpr zero_le_one)
      · rw [clean_iff]
        apply iff_of_false _ unclean
        intro none_lost
        have at_current := congrFun none_lost current
        have at_nonneg := nonneg current
        simp only [Pi.add_apply, Pi.single_eq_same, Pi.zero_apply] at at_current at_nonneg
        omega
      · rw [refsOf, tally_append]
        linear_combination refs
      · rw [locksOf, tally_append]
        linear_combination locks
    | ok found =>
      obtain ⟨follow_eq, lost, nonneg, exactly, refs, locks⟩ := followed
      obtain ⟨none_lost, -, exact_iff, before_refs, before_locks⟩ := reckoned
      obtain rfl := exact_iff.mpr trivial
      simp only [tally_append, tally_cons, tally_nil, Action.refs, Action.locks] at before_refs before_locks
      refine ⟨step_eq.trans follow_eq, lost, nonneg, exactly.trans clean_iff.symm, ?_, ?_⟩
      · simp only [tally_append, tally_cons, tally_nil, Action.refs]
        linear_combination refs + before_refs
      · simp only [tally_append, tally_cons, tally_nil, Action.locks]
        linear_combination locks + before_locks

theorem walk_ends (names : List Name) (current : Node) :
    (walk tree flags deref names current).Ends (CleanWalk tree flags resolved clean names current)
      (resolveWalk tree flags resolved names current) current := by
  induction names generalizing current with
  | nil => exact ⟨rfl, reckoned_stay current⟩
  | cons component rest ih =>
    unfold walk resolveWalk CleanWalk
    split
    · exact ⟨rfl, reckoned_stay current⟩
    · split
      · exact ⟨rfl, reckoned_stay current⟩
      · split
        · exact ih current
        · have prepared := directory_reckoned tree component current
          have advanced := advance_advanced tree accounts flags rest.isEmpty component
            (searched tree component current) (fun upward => searched_not_root tree upward current)
          dsimp only
          rw [directory_fst]
          generalize advance tree flags deref rest.isEmpty component (searched tree component current) = outcome
            at advanced
          obtain ⟨outcome, more⟩ := outcome
          cases outcome with
          | error failure =>
            obtain ⟨meaning, reckoned⟩ := advanced
            refine ⟨by simp [meaning, bind, Except.bind], (prepared.append reckoned).congr ?_ (add_zero _)⟩
            simp [meaning]
          | ok next =>
            obtain ⟨meaning, reckoned⟩ := advanced
            obtain ⟨resolved_eq, continues⟩ := ih next
            have whole := prepared.append (reckoned.append continues)
            rw [List.append_assoc, ← List.append_assoc] at whole
            refine ⟨?_, whole.congr ?_ ?_⟩
            · rw [meaning]
              exact resolved_eq
            · simp [meaning]
            · abel

/-- One lookup returns what its path stands for and loses locks only where it is not clean. -/
theorem lookupPath_accounts (start : Node) (path : Name) :
    (lookupPath tree flags deref start path).1 = resolvePath tree flags resolved start path ∧
      Reckoned (CleanPath tree flags resolved clean start path)
        (taken ((resolvePath tree flags resolved start path).map Found.node))
        (lookupPath tree flags deref start path).2 := by
  unfold lookupPath resolvePath CleanPath
  have fails (error : Errno) :
      Reckoned True (taken ((Except.error error : Except Errno (Found Node)).map Found.node)) [] := reckoned_nil
  by_cases empty : path = []
  · simp only [empty, if_true]
    by_cases parent : flags.parent = true
    · simp only [parent, if_true]
      exact ⟨trivial, (fails .enoent).congr (by simp) rfl⟩
    · simp only [parent]
      cases highest : tree.highestnodeinmp start with
      | error error => exact ⟨rfl, (fails error).congr (by simp) rfl⟩
      | ok root =>
        refine ⟨rfl, Pi.single root 1, Pi.single_nonneg.mpr zero_le_one, ?_, ?_, ?_⟩
        · simp
        · simp [taken, Except.map]
        · simp [taken, Except.map]
  · simp only [empty, if_false]
    by_cases long : path.length > pathnameMax
    · simp only [long, if_true]
      refine ⟨trivial, (fails .enametoolong).congr ?_ rfl⟩
      simp [Nat.not_le.mpr long]
    · simp only [long, if_false]
      have short : path.length ≤ pathnameMax := Nat.not_lt.mp long
      cases highest : tree.highestnodeinmp start with
      | error error => exact ⟨rfl, (fails error).congr (by simp) rfl⟩
      | ok current =>
        by_cases allocated : tree.allocates start path = true
        · simp only [allocated, if_true]
          obtain ⟨meaning, reckoned⟩ := walk_ends tree accounts flags (components path) current
          have begun : Reckoned True (Pi.single current 1) [.hold current, .lock current] := by
            apply reckoned_even <;> simp
          generalize walk tree flags deref (components path) current = walked at meaning reckoned
          have total : Reckoned (CleanWalk tree flags resolved clean (components path) current)
              (Pi.single walked.current 1) (.hold current :: .lock current :: walked.log) :=
            (begun.append reckoned).congr (by simp) (by abel)
          have clean_iff : CleanWalk tree flags resolved clean (components path) current ↔
              (path.length ≤ pathnameMax → ∀ node, (Except.ok current : Except Errno Node) = .ok node →
                True → CleanWalk tree flags resolved clean (components path) node) := by
            simp [short]
          simp only [bind, Except.bind]
          rw [meaning]
          cases ending : walked.error with
          | some error =>
            refine ⟨rfl, (total.append (reckoned_drop walked.current)).congr ?_ (add_neg_cancel _)⟩
            rw [and_true, clean_iff]
          | none => exact ⟨rfl, total.congr clean_iff rfl⟩
        · simp only [allocated]
          exact ⟨rfl, (fails .enomem).congr (by simp [short]) rfl⟩

end

theorem derefLookup_accounts (links : Nat) :
    Accounts (derefLookup tree links) (resolveDeref tree links) (CleanDeref tree links) := by
  induction links with
  | zero =>
    intro start path
    exact ⟨rfl, reckoned_nil⟩
  | succ links ih =>
    intro start path
    obtain ⟨meaning, reckoned⟩ := lookupPath_accounts tree ih ⟨false, false⟩ start path
    exact ⟨congrArg (Except.map Found.node) meaning, reckoned⟩

end Stages

section Discipline

variable {Node : Type} [DecidableEq Node] (tree : Tree Node)

/-- A failed lookup changes no count, and another one takes one lock and one reference of its result. -/
def Disciplined (flags : Flags) (start : Node) (path : Name) : Prop :=
  ∀ counts : Counts Node, counts.locks = 0 →
    let after := counts.replay (vfsLookup tree flags start path).2
    match (vfsLookup tree flags start path).1 with
    | .error _ => after.refs = counts.refs ∧ after.locks = 0
    | .ok found => after.refs = counts.refs + Pi.single found.node 1 ∧ after.locks = Pi.single found.node 1

/-- The locks are kept in order exactly by the lookups that are clean. -/
theorem vfsLookup_disciplined (flags : Flags) (start : Node) (path : Name) :
    Disciplined tree flags start path ↔ Clean tree flags start path := by
  obtain ⟨meaning, lost, -, exactly, refs, locks⟩ :=
    lookupPath_accounts tree (derefLookup_accounts tree (maxLinkDepth + 1)) flags start path
  rw [← meaning] at refs locks
  unfold Disciplined vfsLookup
  simp only [replay_eq]
  rw [refs, locks, Clean, ← exactly]
  cases (lookupPath tree flags (derefLookup tree (maxLinkDepth + 1)) start path).1 with
  | error error =>
    simp only [Except.map, taken, add_zero, true_and, zero_sub]
    exact ⟨fun ordered => by simpa using ordered ⟨0, 0⟩ rfl,
      fun none_lost counts unlocked => by simp [none_lost, unlocked]⟩
  | ok found =>
    simp only [Except.map, taken, true_and]
    exact ⟨fun ordered => by simpa using ordered ⟨0, 0⟩ rfl,
      fun none_lost counts unlocked => by simp [none_lost, unlocked]⟩

end Discipline

/-- A directory that holds one symbolic link with the target "g", which is missing. -/
def danglingTree : Tree Bool where
  vfsmounted _ := none
  isRoot _ := false
  nodecovered node := node
  above _ := 0
  below _ := 0
  mounted_above _ _ mounted := nomatch mounted
  covered_below _ root := nomatch root
  type node := if node then .link else .dir
  access _ := none
  lookup node name := if !node && name = ['l'] then .ok true else .error .enoent
  readlink _ := .ok ['g']
  vfsroot := false
  procRoot := none
  allocates _ _ := true
  top := false
  top_highest := rfl
  parent_other node next _ found := by simp [dotdot] at found

/-- The directory of a dangling link is unlocked twice. -/
theorem danglingLink_undisciplined : ¬ Disciplined danglingTree ⟨false, false⟩ false ['l'] := by
  intro disciplined
  have ordered := (disciplined ⟨0, 0⟩ rfl).2
  have unlocked := congrFun ordered false
  revert unlocked
  decide

/-- The lookup of a link itself is clean. -/
theorem ownLink_disciplined : Disciplined danglingTree ⟨false, true⟩ false ['l'] := by
  apply (vfsLookup_disciplined danglingTree ⟨false, true⟩ false ['l']).mpr
  intro _ current highest _
  cases highest
  refine ⟨⟨fun _ next found => Or.inr ⟨next, rfl⟩, fun next _ followed => ?_⟩, fun next _ => trivial⟩
  simp [follows] at followed

end Astral.Fs
