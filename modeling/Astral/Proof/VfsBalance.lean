import Astral.Construction.VfsCalls
import Astral.Library.Run
import Astral.Proof.Confine

namespace Astral.Fs

open Library

section Excess

variable {Node : Type} (effect : Action Node → Node → Int)

/-- What a call changes too much in some counts. -/
def Done.excess (done : Done Node) : Node → Int := tally effect done.log - tally effect (done.names ++ done.handed)

@[simp] theorem Done.mk_excess (error : Option Errno) (handed names log : Log Node) :
    (Done.mk error handed names log).excess effect = tally effect log - tally effect (names ++ handed) := rfl

@[simp] theorem Done.fail_excess (error : Errno) (log : Log Node) : (Done.fail error log).excess effect =
    tally effect log := by
  simp [Done.fail]

@[simp] theorem Done.within_excess (before : Log Node) (done : Done Node) (after : Log Node) :
    (done.within before after).excess effect = tally effect before + done.excess effect + tally effect after := by
  simp only [Done.excess, Done.within, tally_append]
  abel

end Excess

variable {Node : Type} [DecidableEq Node] {current start : Node} {component path : Name} {tree : Tree Node}
  {flags : Flags} {found : Found Node}

/-- The lookup takes one lock and one reference of its result, and nothing when it fails. -/
structure Lookup.Meets (lookup : Lookup Node) : Prop where
  failed : ∀ {flags start path error}, (lookup flags start path).1 = .error error →
    ∀ counts : Counts Node, counts.replay (lookup flags start path).2 = counts
  found : ∀ {flags start path found}, (lookup flags start path).1 = .ok found →
    ∀ counts : Counts Node, counts.replay (lookup flags start path).2 = (counts.hold found.node).lock found.node
  last : ∀ {flags start path found}, (lookup flags start path).1 = .ok found → flags.parent = true →
    found.lastcomp = (components path).getLast?

/-- The counts change by what the caller takes and by the names that were added and removed. -/
def Done.Balanced (done : Done Node) : Prop :=
  ∀ counts : Counts Node, counts.replay done.log = counts.replay (done.names ++ done.handed)

/-- The locks that a call leaves too many. -/
abbrev Done.locks (done : Done Node) : Node → Int := done.excess Action.locks

/-- The references that a call leaves too many. -/
abbrev Done.refs (done : Done Node) : Node → Int := done.excess Action.refs

theorem Done.balanced_iff (done : Done Node) : done.Balanced ↔ done.locks = 0 ∧ done.refs = 0 := by
  unfold Done.Balanced Done.locks Done.refs Done.excess
  simp only [replay_eq, Counts.mk.injEq, add_right_inj, sub_eq_zero]
  constructor
  · intro same
    exact same ⟨0, 0⟩
  · intro same counts
    exact same

section Calls

variable {first second : Lookup Node} {answers : Answers Node}

/-- The two outcomes of a lookup. -/
theorem Lookup.Meets.outcome {lookup : Lookup Node} (meets : lookup.Meets) (flags : Flags) (start : Node)
    (path : Name) : (∃ error log, lookup flags start path = (.error error, log) ∧ locksOf log = 0 ∧ refsOf log = 0) ∨
      ∃ found log, lookup flags start path = (.ok found, log) ∧ locksOf log = Pi.single found.node 1 ∧
        refsOf log = Pi.single found.node 1 := by
  cases looked : lookup flags start path with
  | mk result log =>
    cases result with
    | error error =>
      have same := meets.failed (congrArg Prod.fst looked) ⟨0, 0⟩
      rw [looked, replay_eq] at same
      exact .inl ⟨error, log, rfl, by simpa using same⟩
    | ok found =>
      have same := meets.found (congrArg Prod.fst looked) ⟨0, 0⟩
      rw [looked, replay_eq] at same
      exact .inr ⟨found, log, rfl, by simpa [Counts.hold, Counts.lock] using same⟩

/-- The file system opens the node itself, or fails before it takes another one. -/
def OpensItself (tree : Tree Node) (answers : Answers Node) (node : Node) : Prop :=
  match tree.type node with
  | .chardev => ∃ error, answers.device node = .error error
  | .blkdev => ∃ error, answers.device node = .error error
  | .fifo => ∃ error, answers.pipe node = .error error
  | _ => True

/-- An open exchanges the reference of the node for one of its result, or takes none when it fails. -/
def Exchanges (node : Node) (logged : Logged Node) : Prop :=
  match logged with
  | (.error _, log) => refsOf log = 0
  | (.ok new, log) => Pi.single node 1 + refsOf log = (Pi.single new 1 : Node → Int)

variable (tree answers)

theorem openDeviceLog_locks (node : Node) : locksOf (openDeviceLog answers node).2 = 0 := by
  unfold openDeviceLog
  split
  · rfl
  · split <;> rfl

theorem openFifoLog_locks (node : Node) : locksOf (openFifoLog answers node).2 = 0 := by
  unfold openFifoLog
  split
  · rfl
  · dsimp only
    split <;> simp

theorem tmpfsOpenLog_locks (node : Node) : locksOf (tmpfsOpenLog tree answers node).2 = 0 := by
  unfold tmpfsOpenLog
  cases tree.type node with
  | chardev | blkdev => exact openDeviceLog_locks answers node
  | fifo => exact openFifoLog_locks answers node
  | regular | dir | link | socket => rfl

theorem openDeviceLog_exchanges (node : Node) :
    Exchanges node (openDeviceLog answers node) ↔ ∃ error, answers.device node = .error error := by
  unfold openDeviceLog
  cases made : answers.device node with
  | error error => simp [Exchanges]
  | ok pair =>
    obtain ⟨device, master⟩ := pair
    simp only [reduceCtorEq, exists_false, iff_false]
    -- The device node keeps a reference of the node.
    intro exchanges
    cases opened : answers.openDevice device with
    | error | ok =>
      simp only [opened, Exchanges] at exchanges
      have count := congrFun exchanges node
      simp [Pi.single_apply] at count
      split_ifs at count <;> omega

theorem openFifoLog_exchanges (node : Node) :
    Exchanges node (openFifoLog answers node) ↔ ∃ error, answers.pipe node = .error error := by
  unfold openFifoLog
  cases made : answers.pipe node with
  | error error => simp [Exchanges]
  | ok pair =>
    obtain ⟨pipe, fresh⟩ := pair
    simp only [reduceCtorEq, exists_false, iff_false]
    intro exchanges
    cases opened : answers.openPipe pipe with
    | some error =>
      simp only [opened, Exchanges] at exchanges
      have count := congrFun exchanges pipe
      simp at count
      split_ifs at count <;> simp at count
    | none =>
      simp only [opened, Exchanges] at exchanges
      have count := congrFun exchanges pipe
      simp [Pi.single_apply] at count
      split_ifs at count <;> simp at count

theorem tmpfsOpenLog_exchanges (node : Node) :
    Exchanges node (tmpfsOpenLog tree answers node) ↔ OpensItself tree answers node := by
  unfold tmpfsOpenLog OpensItself
  cases tree.type node with
  | chardev | blkdev => exact openDeviceLog_exchanges answers node
  | fifo => exact openFifoLog_exchanges answers node
  | regular | dir | link | socket => simp [Exchanges]

variable {tree answers}

/-- A file is created without a permission error, and a new directory can be entered. -/
def Creates (answers : Answers Node) (found : Found Node) (dir : Bool) : Prop :=
  answers.write found.node = none ∧
    (dir = true → ∀ node error, answers.create found.node (found.lastcomp.getD answers.buffer) ≠ .unlisted node error)

/-- A call that only enters a link leaves the counts as they were. -/
theorem linkInto_balanced (meets : second.Meets) (target : Option Node) (linkref : Node) (linkpath : Name) :
    (linkInto second answers target linkref linkpath).Balanced := by
  rw [Done.balanced_iff]
  unfold linkInto
  split
  · obtain ⟨error, log, looked, locks, refs⟩ | ⟨⟨parent, last⟩, log, looked, locks, refs⟩ :=
      meets.outcome ⟨true, false⟩ linkref linkpath
    · simp [looked, locks, refs]
    · rw [looked]
      dsimp only at locks refs ⊢
      cases answers.write parent with
      | some error => simp [locks, refs]
      | none =>
        cases target with
        | some node =>
          dsimp only
          cases answers.link node parent (last.getD answers.buffer) <;> simp [locks, refs]
        | none =>
          unfold tmpfsCreateLog
          cases answers.create parent (last.getD answers.buffer) <;> simp [createdNames, locks, refs]
  · simp

theorem vfsLink_balanced (meets : first.Meets) (also : second.Meets) (destref : Node) (destpath : Name) (linkref : Node)
    (linkpath : Name) : (vfsLink first second answers destref destpath linkref linkpath).Balanced := by
  have entered (target : Node) : (linkInto second answers (some target) linkref linkpath).Balanced :=
    linkInto_balanced also (some target) linkref linkpath
  simp only [Done.balanced_iff] at entered ⊢
  unfold vfsLink
  obtain ⟨error, log, looked, locks, refs⟩ | ⟨found, log, looked, locks, refs⟩ :=
    meets.outcome ⟨false, false⟩ destref destpath
  · simp [looked, locks, refs]
  · simp [looked, locks, refs, entered]

theorem vopLookup_error {error : Errno} (failed : tree.lookup current component = .error error) :
    vopLookup tree current component = (.error error, []) := by
  unfold vopLookup
  rw [failed]

/-- The directory loses its lock when it is looked up in itself. -/
theorem vopLookup_ok {next : Node} (found : tree.lookup current component = .ok next) :
    ∃ log, vopLookup tree current component = (.ok next, log) ∧
      locksOf log = (Pi.single next 1 - if next = current then Pi.single next 1 else 0) -
        (if component = dotdot then Pi.single current 1 else 0) ∧ refsOf log = Pi.single next 1 := by
  unfold vopLookup
  rw [found]
  refine ⟨_, rfl, ?_, by simp⟩
  by_cases same : next = current <;> by_cases upward : component = dotdot <;> simp [same, upward]
  abel

theorem unlinked_locks (answers : Answers Node) (parent child : Node) (component : Name) :
    locksOf (unlinked answers parent child component).2 = 0 := by
  unfold unlinked
  split
  · split <;> rfl
  · rfl

/-- The node that is unlinked is not the directory itself, and ".." stands alone. -/
def Unlinks (tree : Tree Node) (path : Name) (parent : Node) (component : Name) : Prop :=
  ∀ child, tree.lookup parent component = .ok child → child ≠ parent ∧ (component = dotdot → path = dotdot)

theorem unlinkIn_refs (path : Name) (parent : Node) (component : Name) :
    (unlinkIn tree answers path parent component).refs = -Pi.single parent 1 := by
  unfold unlinkIn
  cases inside : tree.lookup parent component with
  | error error => simp [vopLookup_error inside]
  | ok child =>
    obtain ⟨log, outcome, _, held⟩ := vopLookup_ok inside
    rw [outcome]
    simp [held]
    abel

variable (tree answers) in
/-- The lock of the directory is dropped once. -/
theorem unlinkIn_locks (parent : Node) (last : path = dotdot → component = dotdot) :
    (unlinkIn tree answers path parent component).locks = -Pi.single parent 1 ↔ Unlinks tree path parent component := by
  unfold unlinkIn Unlinks
  cases inside : tree.lookup parent component with
  | error error => simp [vopLookup_error inside]
  | ok child =>
    obtain ⟨log, outcome, taken, _⟩ := vopLookup_ok inside
    rw [outcome]
    have net : (-Pi.single parent ((if child = parent then 1 else 0) + (if component = dotdot then 1 else 0) +
        if path = dotdot then 0 else 1) : Node → Int) = -Pi.single parent 1 ↔
        child ≠ parent ∧ (component = dotdot → path = dotdot) := by
      rw [neg_inj, Pi.single_inj]
      split_ifs <;> simp_all
    simp only [Except.ok.injEq, forall_eq']
    rw [← net]
    apply Eq.congr _ rfl
    simp [taken, unlinked_locks, Pi.single_add]
    split_ifs <;> simp_all <;> abel

theorem renamed_locks (answers : Answers Node) (srcdir : Node) (srccomp : Name) (src dstdir : Node) (dstcomp : Name)
    (dst : Option Node) : locksOf (renamed answers srcdir srccomp src dstdir dstcomp dst).2 = 0 := by
  unfold renamed
  split
  · split
    · rfl
    · split
      · rfl
      · split
        · rfl
        · cases dst with
          | none => rfl
          | some node => simp
  · rfl

/-- The destination has lost its lock when it is its own directory. -/
theorem replace_locks (srcdir : Node) (srccomp : Name) (src dstdir : Node) (dstcomp : Name) (dst : Option Node) :
    (replace answers srcdir srccomp src dstdir dstcomp dst).locks =
      (if dstcomp = dotdot then Pi.single dstdir 1 else 0) - dst.elim 0 fun node => Pi.single node 1 := by
  unfold replace
  simp only [Done.mk_excess, tally_append, renamed_locks]
  cases dst with
  | none => simp
  | some node => by_cases same : src = node <;> simp [same, sub_eq_add_neg]

theorem replace_refs (srcdir : Node) (srccomp : Name) (src dstdir : Node) (dstcomp : Name) (dst : Option Node) :
    (replace answers srcdir srccomp src dstdir dstcomp dst).refs =
      -Pi.single src 1 - dst.elim 0 fun node => Pi.single node 1 := by
  unfold replace
  simp only [Done.mk_excess, tally_append]
  cases dst with
  | none => by_cases upward : dstcomp = dotdot <;> simp [upward]
  | some node => by_cases upward : dstcomp = dotdot <;> by_cases same : src = node <;> simp [upward, same] <;> abel

/-- The directories lose no lock and keep none: the nodes are found outside of them, and ".." is there. -/
def Renames (tree : Tree Node) (srcdir src dstdir : Node) (dstcomp : Name) : Prop :=
  match tree.lookup dstdir dstcomp with
  | .ok dst => src ≠ srcdir ∧ dst ≠ dstdir
  | .error error =>
    if error = .enoent ∧ dstcomp = dotdot then src = srcdir ∧ srcdir = dstdir else src ≠ srcdir

theorem renameIn_refs (srcdir : Node) (srccomp : Name) (dstdir : Node) (dstcomp : Name) :
    (renameIn tree answers srcdir srccomp dstdir dstcomp).refs = -Pi.single srcdir 1 - Pi.single dstdir 1 := by
  unfold renameIn
  cases source : tree.lookup srcdir srccomp with
  | error error =>
    rw [vopLookup_error source]
    by_cases same : srcdir = dstdir <;> simp [same] <;> abel
  | ok src =>
    obtain ⟨log, outcome, _, held⟩ := vopLookup_ok source
    rw [outcome]
    cases target : tree.lookup dstdir dstcomp with
    | error error =>
      rw [vopLookup_error target]
      dsimp only
      split <;> by_cases same : srcdir = dstdir <;> by_cases upward : srccomp = dotdot <;>
        simp [same, upward, held, replace_refs] <;> abel
    | ok dst =>
      obtain ⟨more, found, _, also⟩ := vopLookup_ok target
      rw [found]
      by_cases same : srcdir = dstdir <;> by_cases upward : srccomp = dotdot <;>
        simp [same, upward, held, also, replace_refs] <;> abel

/-- Two losses do not cancel each other. -/
theorem lost_none (one two : Node) (first second : Prop) [Decidable first] [Decidable second] :
    (if first then Pi.single one 1 else 0) + (if second then Pi.single two 1 else 0) = (0 : Node → Int) ↔
      ¬ first ∧ ¬ second := by
  constructor
  · intro none
    have here := congrFun none one
    have there := congrFun none two
    simp only [Pi.add_apply, ite_apply, Pi.zero_apply, Pi.single_apply] at here there
    constructor
    · intro lost
      split_ifs at here <;> omega
    · intro lost
      split_ifs at there <;> omega
  · rintro ⟨kept, also⟩
    rw [if_neg kept, if_neg also, add_zero]

/-- A loss and a gain cancel each other at one node only. -/
theorem lost_gained (src srcdir dstdir : Node) (gained : Prop) [Decidable gained] :
    (if src = srcdir then Pi.single src 1 else 0) - (if gained then Pi.single dstdir 1 else 0) = (0 : Node → Int) ↔
      if gained then src = srcdir ∧ srcdir = dstdir else src ≠ srcdir := by
  by_cases more : gained
  · by_cases same : src = srcdir
    · subst same
      simp only [if_true, if_pos more, true_and, sub_eq_zero]
      constructor
      · intro cancelled
        by_contra other
        have here := congrFun cancelled src
        rw [Pi.single_eq_same, Pi.single_eq_of_ne other] at here
        cases here
      · intro equal
        rw [equal]
    · simp [more, same]
  · simp [more]

variable (tree answers) in
theorem renameIn_locks (srcdir : Node) (srccomp : Name) (dstdir : Node) (dstcomp : Name) :
    (renameIn tree answers srcdir srccomp dstdir dstcomp).locks = -Pi.single dstdir 1 ↔
      ∀ src, tree.lookup srcdir srccomp = .ok src → Renames tree srcdir src dstdir dstcomp := by
  unfold renameIn Renames
  cases source : tree.lookup srcdir srccomp with
  | error error =>
    rw [vopLookup_error source]
    by_cases same : srcdir = dstdir <;> simp [same]
  | ok src =>
    obtain ⟨log, outcome, taken, _⟩ := vopLookup_ok source
    rw [outcome]
    simp only [Except.ok.injEq, forall_eq']
    cases target : tree.lookup dstdir dstcomp with
    | error error =>
      rw [vopLookup_error target]
      dsimp only
      rw [← lost_gained, eq_comm, ← sub_eq_zero]
      apply Eq.congr _ rfl
      by_cases missing : error = .enoent <;> by_cases same : srcdir = dstdir <;>
        by_cases upward : srccomp = dotdot <;> simp [taken, replace_locks, missing, same, upward] <;> abel
    | ok dst =>
      obtain ⟨more, found, gained, _⟩ := vopLookup_ok target
      rw [found]
      dsimp only
      rw [← lost_none src dst, eq_comm, ← sub_eq_zero]
      apply Eq.congr _ rfl
      by_cases same : srcdir = dstdir <;> by_cases upward : srccomp = dotdot <;>
        by_cases above : dstcomp = dotdot <;> simp [taken, gained, replace_locks, same, upward, above] <;> abel

/-- The calls that leave the counts as they found them. -/
def Call.Keeps (first second : Lookup Node) (tree : Tree Node) (answers : Answers Node) : Call Node → Prop
  | .openPath ref path =>
    ∀ found, (first ⟨false, false⟩ ref path).1 = .ok found →
      answers.access found.node = none ∧ OpensItself tree answers found.node
  | .create ref path dir _ => ∀ found, (first ⟨true, false⟩ ref path).1 = .ok found → Creates answers found dir
  | .link _ _ _ _ => True
  | .symlink _ _ => True
  | .unlink ref path =>
    answers.memory = true → ∀ found, (first ⟨true, true⟩ ref path).1 = .ok found →
      Unlinks tree path found.node (found.lastcomp.getD answers.buffer)
  | .rename srcref srcpath dstref dstpath =>
    answers.memory = true → ∀ source, (first ⟨true, true⟩ srcref srcpath).1 = .ok source →
      ∀ target, (second ⟨true, true⟩ dstref dstpath).1 = .ok target →
        ∀ src, tree.lookup source.node (source.lastcomp.getD answers.buffer) = .ok src →
          Renames tree source.node src target.node (target.lastcomp.getD answers.dstbuffer)

section

variable (meets : first.Meets) (ref : Node)
include meets

theorem vfsOpen_balanced :
    (vfsOpen first tree answers ref path).Balanced ↔ (Call.openPath ref path).Keeps first second tree answers := by
  rw [Done.balanced_iff]
  unfold vfsOpen
  simp only [Call.Keeps]
  obtain ⟨error, log, looked, locks, refs⟩ | ⟨⟨tmp, last⟩, log, looked, locks, refs⟩ :=
    meets.outcome ⟨false, false⟩ ref path
  · simp [looked, locks, refs]
  · rw [looked]
    dsimp only at locks refs ⊢
    cases allowed : answers.access tmp with
    | some error => simp [locks, refs, allowed]
    | none =>
      have opened := tmpfsOpenLog_exchanges tree answers tmp
      have unlocked := tmpfsOpenLog_locks tree answers tmp
      generalize tmpfsOpenLog tree answers tmp = outcome at opened unlocked ⊢
      obtain ⟨error | new, more⟩ := outcome
      all_goals
        unfold Exchanges at opened
        simp [locks, refs, unlocked, allowed, opened, sub_eq_zero]

theorem vfsCreate_balanced (dir wanted : Bool) :
    (vfsCreate first answers ref path dir wanted).Balanced ↔
      (Call.create ref path dir wanted).Keeps first second tree answers := by
  rw [Done.balanced_iff]
  unfold vfsCreate
  simp only [Call.Keeps]
  obtain ⟨error, log, looked, locks, refs⟩ | ⟨⟨parent, last⟩, log, looked, locks, refs⟩ :=
    meets.outcome ⟨true, false⟩ ref path
  · simp [looked, locks, refs]
  · rw [looked]
    dsimp only at locks refs ⊢
    unfold Creates
    cases allowed : answers.write parent with
    | some error => simp [locks, refs, allowed]
    | none =>
      unfold tmpfsCreateLog
      cases made : answers.create parent (last.getD answers.buffer) with
      | refused error => simp [locks, refs, allowed, made]
      | unlisted node error => cases dir <;> simp [locks, refs, allowed, made]
      | created node => cases wanted <;> simp [createdNames, locks, refs, allowed, made] <;> abel

theorem vfsUnlink_balanced :
    (vfsUnlink first tree answers ref path).Balanced ↔ (Call.unlink ref path).Keeps first second tree answers := by
  rw [Done.balanced_iff]
  unfold vfsUnlink
  simp only [Call.Keeps]
  cases answers.memory with
  | false => simp
  | true =>
    obtain ⟨error, log, looked, locks, refs⟩ | ⟨⟨parent, lastcomp⟩, log, looked, locks, refs⟩ :=
      meets.outcome ⟨true, true⟩ ref path
    · simp [looked, locks, refs]
    · have last := meets.last (congrArg Prod.fst looked) rfl
      rw [looked]
      dsimp only at locks refs last ⊢
      have named : path = dotdot → lastcomp.getD answers.buffer = dotdot := by
        intro same
        rw [last, same]
        rfl
      simp [locks, refs, unlinkIn_refs, ← unlinkIn_locks tree answers parent named, add_eq_zero_iff_eq_neg']

theorem vfsRename_balanced (also : second.Meets) (srcref : Node) (srcpath : Name) (dstref : Node) (dstpath : Name) :
    (vfsRename first second tree answers srcref srcpath dstref dstpath).Balanced ↔
      (Call.rename srcref srcpath dstref dstpath).Keeps first second tree answers := by
  rw [Done.balanced_iff]
  unfold vfsRename
  simp only [Call.Keeps]
  cases answers.memory with
  | false => simp
  | true =>
    obtain ⟨error, log, looked, locks, refs⟩ | ⟨source, log, looked, locks, refs⟩ :=
      meets.outcome ⟨true, true⟩ srcref srcpath
    · simp [looked, locks, refs]
    · obtain ⟨error, more, reached, gained, held⟩ | ⟨target, more, reached, gained, held⟩ :=
        also.outcome ⟨true, true⟩ dstref dstpath
      · simp [looked, reached, locks, refs, gained, held]
      · simp [looked, reached, locks, refs, gained, held, renameIn_refs, ← renameIn_locks tree answers,
          add_eq_zero_iff_eq_neg']

end

/-- With lookups that keep the counts in order, these calls do so and no others. -/
theorem call_balanced_iff (meets : first.Meets) (also : second.Meets) (call : Call Node) :
    (call.run first second tree answers).Balanced ↔ call.Keeps first second tree answers := by
  cases call with
  | openPath ref path => exact vfsOpen_balanced meets ref
  | create ref path dir wanted => exact vfsCreate_balanced meets ref dir wanted
  | link destref destpath linkref linkpath =>
    exact iff_of_true (vfsLink_balanced meets also destref destpath linkref linkpath) trivial
  | symlink linkref linkpath => exact iff_of_true (linkInto_balanced also none linkref linkpath) trivial
  | unlink ref path => exact vfsUnlink_balanced meets ref
  | rename srcref srcpath dstref dstpath => exact vfsRename_balanced meets also srcref srcpath dstref dstpath

end Calls

section Ideal

/-- The lookup that returns what a path names and does nothing else. -/
def idealLookup (tree : Tree Node) : Lookup Node := fun flags start path =>
  match resolve tree flags start path with
  | .error error => (.error error, [])
  | .ok found => (.ok found, [.hold found.node, .lock found.node])

theorem resolveWalk_lastcomp (parent : flags.parent = true) {deref : Node → Name → Except Errno Node}
    {names : List Name} (ok : resolveWalk tree flags deref names current = .ok found) :
    found.lastcomp = names.getLast? := by
  induction names generalizing current with
  | nil =>
    cases ok
    rfl
  | cons component rest ih =>
    obtain ⟨_, ok⟩ := unless_ok.mp ok
    split at ok
    · next last =>
      cases ok
      rw [List.isEmpty_iff.mp (Bool.and_eq_true_iff.mp last).1]
      rfl
    · next more =>
      rw [List.getLast?_cons_of_ne_nil (by simpa [parent] using more)]
      split at ok
      · exact ih ok
      · obtain ⟨_, _, ok⟩ := bind_ok.mp ok
        exact ih ok

theorem resolve_lastcomp (parent : flags.parent = true) (ok : resolve tree flags start path = .ok found) :
    found.lastcomp = (components path).getLast? := by
  unfold resolve resolvePath at ok
  rw [if_pos parent] at ok
  obtain ⟨_, ok⟩ := unless_ok.mp ok
  obtain ⟨_, ok⟩ := unless_ok.mp ok
  obtain ⟨current, _, ok⟩ := bind_ok.mp ok
  exact resolveWalk_lastcomp parent (guard_ok.mp ok).2

/-- The lookup returns what the path names. -/
theorem idealLookup_ok (ok : (idealLookup tree flags start path).1 = .ok found) :
    resolve tree flags start path = .ok found := by
  unfold idealLookup at ok
  cases outcome : resolve tree flags start path with
  | error other =>
    rw [outcome] at ok
    cases ok
  | ok other =>
    rw [outcome] at ok
    exact ok

theorem idealLookup_meets (tree : Tree Node) : (idealLookup tree).Meets where
  failed {flags start path error} failed counts := by
    unfold idealLookup at failed ⊢
    cases outcome : resolve tree flags start path with
    | error other => rfl
    | ok found =>
      rw [outcome] at failed
      cases failed
  found ok counts := by
    unfold idealLookup
    rw [idealLookup_ok ok]
    rfl
  last ok parent := resolve_lastcomp parent (idealLookup_ok ok)

end Ideal

section Example

/-- A file system that allows everything except what the credentials forbid. -/
def permitting (error : Option Errno) : Answers Bool where
  memory := true
  buffer := []
  dstbuffer := []
  access _ := error
  write _ := error
  mayUnlink _ _ := true
  mayRename _ _ := true
  create parent _ := .created !parent
  link _ _ _ := none
  unlink _ _ _ := none
  rename _ _ _ _ := none
  device _ := .error .enxio
  openDevice node := .ok node
  pipe _ := .error .enomem
  openPipe _ := none

/-- The directory "a" is opened. -/
theorem opened_balanced :
    (Call.run (idealLookup (nested false true)) (idealLookup (nested false true)) (nested false true) (permitting none)
      (.openPath false ['a'])).Balanced := by
  apply (call_balanced_iff (idealLookup_meets _) (idealLookup_meets _) _).mpr
  intro found ok
  exact ⟨rfl, trivial⟩

/-- An open and a creation without permission, the removal of "." and a renaming to "." leave other counts behind. -/
theorem calls_unbalanced :
    let lookup := idealLookup (nested false true)
    ¬ (Call.run lookup lookup (nested false true) (permitting (some .eacces)) (.openPath false ['a'])).Balanced ∧
    ¬ (Call.run lookup lookup (nested false true) (permitting (some .eacces)) (.create false ['x'] false true)).Balanced ∧
    ¬ (Call.run lookup lookup (nested false true) (permitting none) (.unlink false ['.'])).Balanced ∧
    ¬ (Call.run lookup lookup (nested false true) (permitting none) (.rename false ['a'] false ['.'])).Balanced := by
  have locks {done : Done Bool} (balanced : done.Balanced) :
      (Counts.replay ⟨0, 0⟩ done.log).locks false = (Counts.replay ⟨0, 0⟩ (done.names ++ done.handed)).locks false := by
    rw [balanced]
  refine ⟨fun balanced => ?_, fun balanced => absurd (locks balanced) (by decide),
    fun balanced => absurd (locks balanced) (by decide), fun balanced => absurd (locks balanced) (by decide)⟩
  have count := congrFun (congrArg Counts.refs (balanced ⟨0, 0⟩)) true
  revert count
  decide

end Example

end Astral.Fs
