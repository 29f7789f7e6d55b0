import Astral.Construction.ProcessTree

namespace Astral.Proc

open Function Library

variable {P : Type} {family next : Family P} {children : P → List P} {wanted : P → Bool} {fuel : Nat} {rest : List P}
  {found first : P}

/-- Every former child gets init as its parent and is once on its list, and init is owed a signal for each zombie. -/
def HandsOver [DecidableEq P] (family next : Family P) (proc : P) : Prop :=
  ∀ former, Threads family.sibling (family.child proc) former →
    (∀ child ∈ former, next.parent child = some family.initProc ∧
      ∃ list, Threads next.sibling (next.child family.initProc) list ∧ list.count child = 1) ∧
    next.exiting proc = some (former.countP fun child => family.life child = .zombie)

/-- The parent of the process is signalled once, and init once for each zombie that was handed over. -/
def Signals [DecidableEq P] (family next : Family P) (proc : P) : Prop :=
  ∃ count parent, family.exiting proc = some count ∧ family.parent proc = some parent ∧
    ∀ other, next.waitsem other = family.waitsem other + (if other = parent then 1 else 0) +
      if other = family.initProc then count else 0

/-- No process that exists has a parent whose structure was freed. -/
def Family.Rooted (family : Family P) : Prop :=
  ∀ proc parent, family.life proc ≠ .absent → family.life proc ≠ .freed → family.parent proc = some parent →
    family.life parent ≠ .freed

def Event.Sound [DecidableEq P] (family next : Family P) : Event P → Prop
  | .exit proc _ => HandsOver family next proc
  | .notify proc => Signals family next proc
  | _ => True

/-- A process that exits has no children. -/
def Event.Childless (family : Family P) : Event P → Prop
  | .exit proc _ => family.child proc = none
  | _ => True

/-- The reference that waiting drops is the last one. -/
def Event.Prompt : Event P → Prop
  | .finish _ _ last => last = true
  | _ => True

def Event.Orderly (family : Family P) (event : Event P) : Prop := event.Childless family ∧ event.Prompt

/-- The pointers list the children of each process. Only running processes have any, or wait for the threads of one. -/
structure Kin (family : Family P) (children : P → List P) : Prop where
  threads : ∀ proc, Threads family.sibling (family.child proc) (children proc)
  distinct : ∀ proc, (children proc).Nodup
  own : ∀ {proc child}, child ∈ children proc →
    family.parent child = some proc ∧ (family.life child = .normal ∨ family.life child = .zombie)
  waiting : ∀ {proc child}, child ∈ family.waits proc → family.parent child = some proc ∧ family.life child = .taken
  once : ∀ proc, (family.waits proc).Nodup
  running : ∀ {proc child}, child ∈ children proc ∨ child ∈ family.waits proc → family.life proc = .normal
  listed : ∀ {proc parent}, family.life proc ≠ .absent → family.life proc ≠ .freed → family.parent proc = some parent →
    proc ∈ children parent ∨ proc ∈ family.waits parent

theorem scan_found (before : List P) {iterator prev : Option P} (threads : Threads family.sibling iterator rest)
    (ran : family.scan wanted fuel before.getLast? iterator = .ok (prev, found)) :
    ∃ skipped after, rest = skipped ++ found :: after ∧ prev = (before ++ skipped).getLast? ∧
      family.life found = .zombie := by
  induction rest generalizing fuel before iterator with
  | nil =>
    rw [show iterator = none from threads] at ran
    unfold Family.scan at ran
    cases ran
  | cons first rest ih =>
    rw [threads.1] at ran
    cases fuel with
    | zero => cases ran
    | succ fuel =>
      unfold Family.scan at ran
      split at ran
      · next hit =>
        cases ran
        exact ⟨[], rest, rfl, by simp, by simp_all⟩
      · have later := ih (before ++ [first]) threads.2 (by simpa using ran)
        obtain ⟨skipped, after, parts, last, life⟩ := later
        exact ⟨first :: skipped, after, by rw [parts]; rfl, by simpa using last, life⟩

/-- The last child keeps its parent. -/
theorem reparent_last [DecidableEq P] {count total : Nat} {last : P} {parents later : P → Option P}
    (threads : Threads family.sibling (some first) (first :: rest)) (distinct : (first :: rest).Nodup)
    (ran : family.reparent fuel first count parents = .ok (last, total, later)) :
    last ∈ first :: rest ∧ later last = parents last := by
  induction rest generalizing fuel count first parents with
  | nil =>
    unfold Family.reparent at ran
    rw [show family.sibling first = none from threads.2] at ran
    cases ran
    simp
  | cons second rest ih =>
    unfold Family.reparent at ran
    rw [show family.sibling first = some second from threads.2.1] at ran
    cases fuel with
    | zero => cases ran
    | succ fuel =>
      obtain ⟨inside, same⟩ := ih ⟨rfl, threads.2.2⟩ distinct.of_cons ran
      refine ⟨List.mem_cons_of_mem _ inside, same.trans (update_of_ne ?_ ..)⟩
      rintro rfl
      exact (List.nodup_cons.mp distinct).1 inside

section Kin

variable (kin : Kin family children) {proc child parent : P}
include kin

theorem Kin.rooted : family.Rooted := by
  intro proc parent exists_ alive led
  rw [kin.running (kin.listed exists_ alive led)]
  exact nofun

variable [DecidableEq P]

theorem Kin.fork {new : P} (moved : family.fork proc new = .ok next) : ∃ children, Kin next children := by
  obtain ⟨ready, moved⟩ := guard_ok.mp moved
  cases moved
  obtain ⟨threads, distinct, own, waiting, once, running, listed⟩ := kin
  have outside (list : P) : new ∉ children list := fun inside => by
    rcases (own inside).2 with life | life <;> simp [ready.2] at life
  refine ⟨update children proc (new :: children proc), ?_, ?_, ?_, ?_, once, ?_, ?_⟩
  · intro list
    by_cases here : list = proc
    · simpa [here] using (threads proc).push (outside proc)
    · simpa [here] using (threads list).update (outside list) _
  · intro list
    by_cases here : list = proc
    · simpa [here] using ⟨outside proc, distinct proc⟩
    · simpa [here] using distinct list
  all_goals
    simp only [update_apply]
    grind

theorem Kin.exit (moved : family.exit proc fuel = .ok next) (childless : family.child proc = none) :
    Kin next children := by
  obtain ⟨threads, distinct, own, waiting, once, running, listed⟩ := kin
  have empty : children proc = [] := by
    have mine := threads proc
    rw [childless] at mine
    cases list : children proc with
    | nil => rfl
    | cons first rest => simp [list, Threads] at mine
  obtain ⟨_, moved⟩ := unless_ok.mp moved
  obtain ⟨ready, moved⟩ := guard_ok.mp moved
  rw [childless] at moved
  cases moved
  refine ⟨threads, distinct, ?_, ?_, once, ?_, ?_⟩
  all_goals
    simp only [update_apply]
    grind

theorem Kin.notify (moved : family.notify proc = .ok next) : Kin next children ∧ Signals family next proc := by
  unfold Family.notify at moved
  split at moved
  · next count parent exiting led =>
    cases moved
    refine ⟨⟨kin.threads, kin.distinct, kin.own, kin.waiting, kin.once, kin.running, kin.listed⟩,
      count, parent, exiting, led, ?_⟩
    intro other
    simp only [update_apply]
    split <;> split <;> simp_all
  · cases moved

/-- A zombie is taken off the list of its parent. -/
theorem Kin.without {before after : List P} (parts : children proc = before ++ found :: after)
    (zombie : family.life found = .zombie) {child sibling : P → Option P}
    (lists : ∀ list, Threads sibling (child list) (update children proc (before ++ after) list)) :
    Kin { family with
      child := child, sibling := sibling, life := update family.life found .taken
      waits := update family.waits proc (found :: family.waits proc) }
      (update children proc (before ++ after)) := by
  have apart := kin.distinct proc
  have own := @kin.own
  have waiting := @kin.waiting
  have once := kin.once
  have running := @kin.running
  have listed := @kin.listed
  have member (other : P) : other ∈ children proc ↔ other = found ∨ other ∈ before ++ after := by grind
  have outside : found ∉ before ++ after := by
    rw [parts] at apart
    exact (List.nodup_middle.mp apart).notMem
  refine ⟨lists, fun list => ?_, ?_, ?_, ?_, ?_, ?_⟩
  · by_cases here : list = proc
    · rw [parts] at apart
      simpa [here] using (List.nodup_middle.mp apart).of_cons
    · simpa [here] using kin.distinct list
  all_goals
    clear parts lists
    generalize before ++ after = rest at *
    simp only [update_apply]
    grind

theorem Kin.take (moved : family.take proc wanted fuel = .ok next) : ∃ children, Kin next children := by
  obtain ⟨ready, moved⟩ := guard_ok.mp moved
  obtain ⟨⟨prev, found⟩, ran, moved⟩ := bind_ok.mp moved
  obtain ⟨before, after, parts, last, zombie⟩ := scan_found [] (kin.threads proc) ran
  have mine := kin.threads proc
  have apart := kin.distinct proc
  rw [parts] at mine apart
  rw [List.nil_append] at last
  have others (list : P) (different : list ≠ proc) : ∀ child ∈ children proc, child ∉ children list := by
    intro child here there
    have own := (kin.own here).1
    rw [(kin.own there).1] at own
    exact different (Option.some.inj own)
  rcases List.eq_nil_or_concat before with rfl | ⟨earlier, previous, rfl⟩
  · rw [last] at moved
    cases moved
    refine ⟨_, kin.without parts zombie fun list => ?_⟩
    by_cases here : list = proc
    · simpa [here] using mine.2
    · simpa [here] using kin.threads list
  · rw [last, List.concat_eq_append, List.getLast?_concat] at moved
    cases moved
    refine ⟨_, kin.without parts zombie fun list => ?_⟩
    by_cases here : list = proc
    · simpa [here] using Threads.remove (by simpa using mine) (by simpa using apart)
    · simpa [here] using (kin.threads list).update (others list here previous (by simp [parts])) _

theorem Kin.finish (moved : family.finish proc found true = .ok next) : Kin next children := by
  obtain ⟨ready, moved⟩ := guard_ok.mp moved
  cases moved
  refine ⟨kin.threads, kin.distinct, ?_, ?_, ?_, ?_, ?_⟩
  all_goals
    cases kin
    simp only [update_apply]
    grind

theorem Kin.free (moved : family.free proc = .ok next) : Kin next children := by
  obtain ⟨ready, moved⟩ := guard_ok.mp moved
  cases moved
  refine ⟨kin.threads, kin.distinct, ?_, ?_, kin.once, ?_, ?_⟩
  all_goals
    cases kin
    simp only [update_apply]
    grind

theorem Kin.step {event : Event P} (moved : family.step event = .ok next) (childless : event.Childless family)
    (prompt : event.Prompt) : ∃ children, Kin next children := by
  cases event with
  | fork proc new => exact kin.fork moved
  | exit proc fuel => exact ⟨children, kin.exit moved childless⟩
  | notify proc => exact ⟨children, (kin.notify moved).1⟩
  | take proc wanted fuel => exact kin.take moved
  | finish proc found last =>
    cases (prompt : last = true)
    exact ⟨children, kin.finish moved⟩
  | free proc => exact ⟨children, kin.free moved⟩

/-- The last child of a process that exits is not handed over. -/
theorem Kin.not_handed (moved : family.exit proc fuel = .ok next) (parent : family.child proc = some first) :
    ¬ HandsOver family next proc := by
  intro hands
  obtain ⟨handed, -⟩ := hands (children proc) (kin.threads proc)
  have threads := kin.threads proc
  have distinct := kin.distinct proc
  have own := @kin.own proc
  obtain ⟨other, moved⟩ := unless_ok.mp moved
  obtain ⟨_, moved⟩ := guard_ok.mp moved
  rw [parent] at moved threads
  cases list : children proc with
  | nil => simp [list, Threads] at threads
  | cons head rest =>
    rw [list] at threads distinct handed own
    cases threads.1
    obtain ⟨⟨last, total, later⟩, ran, moved⟩ := bind_ok.mp moved
    cases moved
    obtain ⟨inside, same⟩ := reparent_last (by exact threads) distinct ran
    have handed : later last = some family.initProc := (handed last inside).1
    rw [same, (own inside).1] at handed
    exact other (Option.some.inj handed)

end Kin

variable [DecidableEq P]

/-- Only init exists. -/
def start (initProc : P) : Family P where
  initProc := initProc
  parent _ := none
  child _ := none
  sibling _ := none
  life := update (fun _ => .absent) initProc .normal
  waitsem _ := 0
  exiting _ := none
  waits _ := []

theorem kin_start (initProc : P) : Kin (start initProc) fun _ => [] := by
  constructor <;> simp [start, Threads]

theorem reached_kin {initProc : P} (reached : Reaches Family.step Event.Orderly (start initProc) family) :
    ∃ children, Kin family children := by
  apply reached.keeps
  · rintro family event next ⟨children, kin⟩ ⟨childless, prompt⟩ moved
    exact kin.step moved childless prompt
  · exact ⟨_, kin_start initProc⟩

/-- After steps in which only processes without children exit, the next step hands over all children, signals for them
and leaves no freed parent exactly when it lets no process with children exit. -/
theorem hands_over_iff {initProc : P} (reached : Reaches Family.step Event.Orderly (start initProc) family)
    (event : Event P) (prompt : event.Prompt) (moved : family.step event = .ok next) :
    (event.Sound family next ∧ next.Rooted) ↔ event.Childless family := by
  obtain ⟨children, kin⟩ := reached_kin reached
  constructor
  · rintro ⟨sound, -⟩
    cases event with
    | exit proc fuel =>
      by_contra parent
      obtain ⟨first, child⟩ := Option.ne_none_iff_exists'.mp parent
      exact kin.not_handed moved child sound
    | _ => trivial
  · intro childless
    obtain ⟨_, later⟩ := kin.step moved childless prompt
    refine ⟨?_, later.rooted⟩
    cases event with
    | exit proc fuel =>
      intro former threads
      rw [show family.child proc = none from childless] at threads
      cases former with
      | cons first rest => cases threads.1
      | nil =>
        refine ⟨by simp, ?_⟩
        simp only [Family.step, Family.exit, show family.child proc = none from childless] at moved
        split at moved
        · cases moved
        · split at moved <;> cases moved
          simp
    | notify proc => exact (kin.notify moved).2
    | _ => trivial

/-- A child without children exits. -/
theorem onlyChild_exits : ∃ family next, (start 0).step (.fork 0 1) = .ok family ∧
    family.step (.exit 1 0) = .ok next ∧ HandsOver family next 1 ∧ next.Rooted := by
  obtain ⟨family, forked⟩ : ∃ family, (start 0).step (.fork 0 1) = .ok family := ⟨_, rfl⟩
  have reached : Reaches Family.step Event.Orderly (start 0) family :=
    .tail .refl ⟨.fork 0 1, ⟨trivial, trivial⟩, forked⟩
  cases forked
  exact ⟨_, _, rfl, rfl, (hands_over_iff reached (.exit 1 0) trivial rfl).mpr rfl⟩

/-- The only child of a process that exits keeps its parent, which init frees. -/
theorem grandchild_orphaned : ∃ family, [Event.fork 0 1, .fork 1 2, .exit 1 0, .notify 1, .take 0 (fun _ => true) 2,
    .finish 0 1 true].foldlM Family.step (start 0) = .ok family ∧ ¬ family.Rooted := by
  refine ⟨_, rfl, fun rooted => ?_⟩
  exact rooted 2 1 (by decide) (by decide) rfl rfl

end Astral.Proc
